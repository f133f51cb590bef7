import QuardStarNet.Generations
import QuardStarNet.Sockets

/-! Socket handles over whole runs: an entry is named by its index and its generation, so
that a handle is new when it is returned, stands for its entry until the close of the
socket completes, and for nothing afterwards. -/
namespace QuardStarNet
namespace Socket

open Tcp
open Generations (Cell Resolves Spent Known)

/-- The handle that a call returned. -/
def Reply.handle? : Reply → Option ℤ
  | .handle h => some h
  | _ => none

/-- The handle that a call of the socket interface is given. -/
def Call.handle? : Call → Option ℤ
  | .netSocketBind h .. | .netSocketListen h _ | .netSocketAcceptPrepare h | .netSocketClose h
  | .netSocketConnectStart h .. | .netSocketWaitConnect h | .netSocketSend h _ | .netSocketRecv h _
  | .netSocketWaitClose h | .netSocketSendto h _ | .netSocketRecvfrom h .. => some h
  | _ => none

/-- The handle of generation `g` of entry `e`. -/
def handleOf (e : EntryId) (g : ℕ) : ℤ := g*256+e.val

theorem socketDecode_handleOf (e : EntryId) {g : ℕ} (hg : 1 ≤ g) : socketDecode (handleOf e g) = some (e,g) := by
  have hn : (handleOf e g).toNat = g*256+e.val := by
    simp only [handleOf]
    omega
  have he : e.val < 16 := e.isLt
  have hneg : ¬handleOf e g < 0 := by
    simp only [handleOf]
    omega
  have hmod : (g*256+e.val)%256 = e.val := by omega
  have hdiv : (g*256+e.val)/256 = g := by omega
  simp only [socketDecode,hneg,hn,hmod,hdiv,if_false,he,dif_pos]
  rw [if_neg (by omega)]

theorem handleOf_inj {e e' : EntryId} {g g' : ℕ} (h : handleOf e g = handleOf e' g') : e = e' ∧ g = g' := by
  have he : e.val < 16 := e.isLt
  have he' : e'.val < 16 := e'.isLt
  simp only [handleOf] at h
  exact ⟨Fin.ext (by omega),by omega⟩

namespace Sockets

variable (s : Sockets)

def cells (e : EntryId) : Cell := ⟨(s.entries e).generation,(s.entries e).used,(s.entries e).retired⟩

/-- The entry whose close the call completes. -/
def closes (c : Call) : Option EntryId :=
  if (s.call c).2 = .err .ok then
    match c, s.holder with
    | .proceed, some (.detach e) => some e
    | .udpClosed e _, _ => some e
    | _, _ => none
  else none

/-- What the call does to the entries. -/
def event (c : Call) : Generations.Event EntryId :=
  match s.closes c, (s.call c).2 with
  | some e, _ => .free e
  | none, .handle h => ((socketDecode h).map fun d => .take d.1).getD .idle
  | none, _ => .idle

/-- The call that detaches a block is about a socket that is in use. -/
def Detaching : Prop := ∀ e, s.holder = some (.detach e) → (s.entries e).used = true

/-- The call took the entry `e`, or freed it, or did neither. -/
structure Renames (c : Call) : Prop where
  step : Generations.Step 0x7fffff s.cells (s.event c) (s.call c).1.cells
  handle : ∀ h, (s.call c).2 = .handle h → ∃ e, s.event c = .take e ∧ h = handleOf e (s.cells e).generation
  detaching : (s.call c).1.Detaching

end Sockets

variable {s : Sockets} {c : Call} {e : EntryId} {h : ℤ}

namespace Sockets

theorem findFree_free (hf : s.findFree = some e) : (s.cells e).used = false ∧ (s.cells e).retired = false := by
  have := List.find?_some hf
  simpa [cells] using this

/-- A call that leaves the entries and returns no handle. -/
theorem Renames.idle {s' : Sockets} {r : Reply} (hcall : s.call c = (s',r)) (hcells : s'.cells = s.cells)
    (hreply : r.handle? = none) (hcloses : s.closes c = none) (hd : s'.Detaching) : s.Renames c := by
  have hev : s.event c = .idle := by
    unfold event
    rw [hcloses,hcall]
    cases r with
    | handle h => simp [Reply.handle?] at hreply
    | err | underway => rfl
  refine ⟨?_,fun h hh => ?_,by rwa [hcall]⟩
  · rw [hev,hcall,hcells]
    exact .idle
  · rw [hcall] at hh
    simp only at hh
    simp [hh,Reply.handle?] at hreply

/-- A call that puts a new socket into a free entry. -/
theorem Renames.occupy (s₀ : Sockets) {pcb : Option Slot} {type : SocketType}
    (hcall : s.call c = s₀.occupy e pcb type) (hs : s₀.entries = s.entries) (hf : s.findFree = some e)
    (hg : 1 ≤ (s.cells e).generation) (hd : s₀.holder = none) : s.Renames c := by
  obtain ⟨hu,hr⟩ := findFree_free hf
  have hreply : (s.call c).2 = .handle (handleOf e (s.cells e).generation) := by
    simp [hcall,Sockets.occupy,hs,cells,handleOf]
  have hcloses : s.closes c = none := by simp [closes,hreply]
  have hev : s.event c = .take e := by simp [event,hcloses,hreply,socketDecode_handleOf e hg]
  have hcells : (s.call c).1.cells = Function.update s.cells e { s.cells e with used := true } := by
    funext e'
    by_cases he : e' = e
    · subst he
      simp [hcall,Sockets.occupy,setEntry,cells,hs]
    · simp [hcall,Sockets.occupy,setEntry,cells,hs,he]
  refine ⟨?_,fun h hh => ⟨e,hev,by simpa [hreply] using hh.symm⟩,fun e' he' => ?_⟩
  · rw [hev,hcells]
    exact .take e hu hr
  · simp [hcall,Sockets.occupy,setEntry,hd] at he'

/-- A call that completes the close of entry `e`. -/
theorem Renames.invalidate (hcloses : s.closes c = some e) (hu : (s.cells e).used = true)
    (he : (s.call c).1.entries = Function.update s.entries e (s.entries e).invalidate)
    (hd : (s.call c).1.holder = none) : s.Renames c := by
  have hev : s.event c = .free e := by simp [event,hcloses]
  have hok : (s.call c).2 = .err .ok := by
    by_contra hne
    simp [closes,hne] at hcloses
  have hcells : (s.call c).1.cells = Function.update s.cells e ((s.cells e).release 0x7fffff) := by
    funext e'
    by_cases hee : e' = e
    · subst hee
      simp only [cells,he,Function.update_self]
      rfl
    · simp [cells,he,hee]
  refine ⟨?_,fun h hh => by simp [hok] at hh,fun e' he' => by simp [hd] at he'⟩
  rw [hev,hcells]
  exact .free e hu

theorem cells_setEntry (e : EntryId) {x : Entry} (hx : (⟨x.generation,x.used,x.retired⟩ : Cell) = s.cells e) :
    (s.setEntry e x).cells = s.cells := by
  funext e'
  by_cases he : e' = e
  · subst he
    simpa [cells,setEntry] using hx
  · simp [cells,setEntry,he]

/-- No handle is returned and the entries and the holder of the lock stay. -/
def Unnamed (s : Sockets) (r : Sockets × Reply) : Prop :=
  r.1.entries = s.entries ∧ r.1.holder = s.holder ∧ r.2.handle? = none

theorem Unnamed.renames (h : Unnamed s (s.call c)) (hc : s.closes c = none) (hd : s.Detaching) : s.Renames c := by
  obtain ⟨he,hh,hr⟩ := h
  generalize hcall : s.call c = r at he hh hr
  refine .idle hcall ?_ hr hc fun e hdet => ?_
  · funext e
    simp [cells,he]
  · rw [he]
    exact hd e (hh ▸ hdet)

theorem Unnamed.enter (i : Slot) (u : Use) : Unnamed s (s.enter i u) := by
  refine ⟨rfl,rfl,?_⟩
  simp only [Sockets.enter]
  split <;> rfl

/-- A call waits while another one holds the lock. -/
theorem call_blocked (hl : c.locks = true ∧ s.holder ≠ none) : s.call c = (s,.underway) := if_pos hl

theorem renames_open (hn : s.holder = none) (hg : ∀ e, 1 ≤ (s.cells e).generation) (type : SocketType)
    (udp : NetErr) : s.Renames (.netSocketOpen type udp) := by
  have hcall : s.call (.netSocketOpen type udp) = s.netSocketOpen type udp := if_neg (by simp [hn])
  have hcloses : s.closes (.netSocketOpen type udp) = none := by simp [closes]
  have hd : s.Detaching := fun e he => by simp [hn] at he
  cases hf : s.findFree with
  | none => exact Unnamed.renames (by rw [hcall]; simp [netSocketOpen,hf,Unnamed,Reply.handle?]) hcloses hd
  | some e =>
    cases type with
    | udp =>
      by_cases hok : udp = .ok
      · exact .occupy s (by rw [hcall]; simp [netSocketOpen,hf,hok]; rfl) rfl hf (hg e) hn
      · exact Unnamed.renames (by rw [hcall]; simp [netSocketOpen,hf,hok,Unnamed,Reply.handle?]) hcloses hd
    | tcp =>
      cases ha : (s.table.tcpAlloc true).2 with
      | none =>
        -- a failed allocation clears the pointer of the entry
        have he : s.netSocketOpen .tcp udp =
            ((s.tcp (.act (.tcpOpen true))).setEntry e { s.entries e with pcb := none },.err .mem) := by
          simp [netSocketOpen,hf,ha]
        refine .idle (hcall.trans he) (cells_setEntry e rfl) rfl hcloses fun e' he' => ?_
        simp [setEntry,Sockets.tcp,hn] at he'
      | some i =>
        exact .occupy (s.tcp (.act (.tcpOpen true))) (by rw [hcall]; simp [netSocketOpen,hf,ha]; rfl) rfl hf
          (hg e) hn

theorem renames_commit (hn : s.holder = none) (hg : ∀ e, 1 ≤ (s.cells e).generation) (handle : ℤ)
    (a : Acceptor) : s.Renames (.netSocketAcceptCommit handle a) := by
  have hcall : s.call (.netSocketAcceptCommit handle a) = s.netSocketAcceptCommit handle a := if_neg (by simp [hn])
  have hcloses : s.closes (.netSocketAcceptCommit handle a) = none := by simp [closes]
  have hd : s.Detaching := fun e he => by simp [hn] at he
  have hquiet : Unnamed s (s.netSocketAcceptCommit handle a) → s.Renames (.netSocketAcceptCommit handle a) :=
    fun h => Unnamed.renames (by rwa [hcall]) hcloses hd
  unfold netSocketAcceptCommit at hcall hquiet
  cases hchild : a.child with
  | none => exact hquiet (by simp [hchild,Unnamed,Reply.handle?])
  | some child =>
    simp only [hchild] at hcall hquiet
    split at hcall
    next ha => exact hquiet (by simp [ha,Unnamed,Reply.handle?])
    next ha =>
    rw [if_neg ha] at hquiet
    split at hcall
    next hp => exact hquiet (by simp [hp,Unnamed,Reply.handle?,Sockets.tcp])
    next hp =>
    rw [if_neg hp] at hquiet
    cases hf : s.findFree with
    | none => exact hquiet (by simp [hf,Unnamed,Reply.handle?,Sockets.tcp])
    | some e =>
      simp only [hf] at hcall
      split at hcall
      next => exact .occupy (s.tcp (.commit a)) hcall rfl hf (hg e) hn
      next => exact .idle hcall rfl rfl hcloses (by rintro _ ⟨⟩)

theorem renames_close (hn : s.holder = none) (handle : ℤ) : s.Renames (.netSocketClose handle) := by
  have hcall : s.call (.netSocketClose handle) = s.netSocketClose handle := if_neg (by simp [hn])
  have hcloses : s.closes (.netSocketClose handle) = none := by simp [closes]
  have hfree : ∀ s' : Sockets, s'.holder = s.holder → s'.Detaching := fun s' hs e he => by simp [hs,hn] at he
  unfold netSocketClose at hcall
  split at hcall
  next => exact .idle hcall rfl rfl hcloses (hfree s rfl)
  next e hfound =>
  have hu := socketFindUsed_used hfound
  simp only at hcall
  split at hcall
  next =>
    split at hcall
    next => exact .idle hcall rfl rfl hcloses (hfree s rfl)
    next =>
      exact .idle hcall (cells_setEntry e rfl) rfl hcloses
        (hfree _ rfl)
  next =>
  split at hcall
  next => exact .idle hcall rfl rfl hcloses (hfree s rfl)
  next i _ =>
  split at hcall
  next =>
    split at hcall
    next =>
      exact .idle hcall (cells_setEntry e rfl) rfl hcloses
        (hfree _ rfl)
    next => exact .idle hcall rfl rfl hcloses (hfree _ rfl)
  next =>
    split at hcall
    next =>
      refine .idle hcall rfl rfl hcloses fun e' he' => ?_
      obtain rfl : e = e' := by simpa using he'
      exact hu
    next => exact .idle hcall rfl rfl hcloses (hfree _ rfl)

theorem renames_udpClosed (hn : s.holder = none) (e : EntryId) (udp : NetErr) : s.Renames (.udpClosed e udp) := by
  have hcall : s.call (.udpClosed e udp) = s.udpClosed e udp := if_neg (by simp [hn])
  have hfree : ∀ s' : Sockets, s'.holder = s.holder → s'.Detaching := fun s' hs e he => by simp [hs,hn] at he
  unfold Sockets.udpClosed at hcall
  simp only at hcall
  split at hcall
  next hx =>
    split at hcall
    next => exact .invalidate (e := e) (by simp [closes,hcall]) hx.1 (by rw [hcall]; rfl) (by rw [hcall]; exact hn)
    next hok =>
      exact .idle hcall (cells_setEntry e rfl) rfl (by simp [closes,hcall,hok])
        (hfree _ rfl)
  next =>
    exact .idle hcall rfl rfl (by simp [closes,hcall]) (hfree s rfl)

theorem renames_proceed (hd : s.Detaching) : s.Renames .proceed := by
  have hcall : s.call .proceed = s.proceed := if_neg (by simp [Call.locks])
  unfold Sockets.proceed at hcall
  split at hcall
  next hn =>
    exact .idle hcall rfl rfl (by simp [closes,hcall]) hd
  next a err hh =>
    exact .idle hcall rfl rfl (by simp [closes,hh]) (by rintro _ ⟨⟩)
  next e hh =>
  simp only at hcall
  split at hcall
  next => exact .idle hcall rfl rfl (by simp [closes,hcall]) (by rintro _ ⟨⟩)
  next i _ =>
  split at hcall
  next => exact .invalidate (e := e) (by simp [closes,hcall,hh]) (hd e hh) (by rw [hcall]; rfl) (by rw [hcall]; rfl)
  next hne =>
    refine .idle hcall rfl rfl ?_ (by rintro _ ⟨⟩)
    have : (s.call .proceed).2 ≠ .err .ok := by
      rw [hcall]
      simp only [ne_eq,Reply.err.injEq]
      split
      · simp
      · exact hne
    simp [closes,this]

theorem renames (hd : s.Detaching) (hg : ∀ e, 1 ≤ (s.cells e).generation) (c : Call) : s.Renames c := by
  by_cases hl : c.locks = true ∧ s.holder ≠ none
  · have hcall := call_blocked hl
    exact .idle hcall rfl rfl (by simp [closes,hcall]) hd
  have hn : c.locks = true → s.holder = none := fun h => by simpa [h] using hl
  cases c with
  | netSocketOpen type udp => exact renames_open (hn rfl) hg type udp
  | netSocketAcceptCommit handle a => exact renames_commit (hn rfl) hg handle a
  | netSocketClose handle => exact renames_close (hn rfl) handle
  | udpClosed e udp => exact renames_udpClosed (hn rfl) e udp
  | proceed => exact renames_proceed hd
  | _ =>
    refine Unnamed.renames ?_ (by simp [closes]) hd
    simp only [Sockets.call,if_neg hl,netSocketBind,netSocketListen,netSocketAcceptPrepare,Sockets.tcpAcceptPeek,netSocketAcceptAbort,
      netSocketConnectStart,netSocketWaitConnect,netSocketSend,netSocketRecv,netSocketWaitClose,netSocketSendto,
      netSocketRecvfrom]
    repeat' split
    all_goals first | exact ⟨rfl,rfl,rfl⟩ | exact .enter _ _

end Sockets

section Runs

namespace Sockets

variable (s : Sockets)

/-- The state in which the call of the step is made. -/
def supplied (c : Step) : Sockets := { s with sys := s.sys.supply c.1 }

def reply (c : Step) : Reply := ((s.supplied c).call c.2).2

/-- The handles returned in a run. -/
def issued : Sockets → List Step → List ℤ
  | _, [] => []
  | s, c::steps => (s.reply c).handle?.toList++issued (s.step c) steps

/-- The entries whose close completes in a run, one for each close. -/
def closings : Sockets → List Step → List EntryId
  | _, [] => []
  | s, c::steps => ((s.supplied c).closes c.2).toList++closings (s.step c) steps

def events : Sockets → List Step → List (Generations.Event EntryId)
  | _, [] => []
  | s, c::steps => (s.supplied c).event c.2::events (s.step c) steps

end Sockets

/-- The invariant behind the handles. -/
structure Named (s : Sockets) : Prop where
  detaching : s.Detaching
  bounds : ∀ e, 1 ≤ (s.cells e).generation ∧ (s.cells e).generation ≤ 0x7fffff

namespace Named

open Sockets

theorem init : Named init := ⟨by rintro _ ⟨⟩,fun e => by decide +revert⟩

theorem renames (h : Named s) (c : Step) : (s.supplied c).Renames c.2 :=
  Sockets.renames (s := s.supplied c) h.detaching (fun e => (h.bounds e).1) c.2

theorem step (h : Named s) (c : Step) : Named (s.step c) :=
  ⟨(h.renames c).detaching,(h.renames c).step.bounds h.bounds⟩

theorem runs (h : Named s) (steps : List Step) :
    Named (s.run steps) ∧ Generations.Run 0x7fffff s.cells (s.events steps) (s.run steps).cells := by
  induction steps generalizing s with
  | nil => exact ⟨h,.nil _⟩
  | cons c steps ih => exact ⟨(ih (h.step c)).1,.cons (h.renames c).step (ih (h.step c)).2⟩

/-- Every handle that was returned is known in the end. -/
theorem known (h : Named s) (steps : List Step) {k : ℤ} (hk : k ∈ s.issued steps) :
    ∃ e g, k = handleOf e g ∧ Known (s.run steps).cells e g := by
  induction steps generalizing s with
  | nil => simp [issued] at hk
  | cons c steps ih =>
    simp only [issued,List.mem_append,Option.mem_toList] at hk
    rcases hk with hk | hk
    · have hr : ((s.supplied c).call c.2).2 = .handle k := by
        change (s.reply c).handle? = some k at hk
        cases hrep : s.reply c with
        | handle k' =>
          rw [hrep] at hk
          obtain rfl : k' = k := by simpa [Reply.handle?] using hk
          exact hrep
        | err | underway => simp [hrep,Reply.handle?] at hk
      obtain ⟨e,hev,rfl⟩ := (h.renames c).handle k hr
      have hstep := (h.renames c).step
      rw [hev] at hstep
      exact ⟨e,_,rfl,((h.step c).runs steps).2.known (.inl hstep.taken.2.2)⟩
    · exact ih (h.step c) hk

end Named

open Sockets in
theorem free_mem_events (s : Sockets) (steps : List Step) (e : EntryId) :
    Generations.Event.free e ∈ s.events steps ↔ e ∈ s.closings steps := by
  induction steps generalizing s with
  | nil => simp [events,closings]
  | cons c steps ih =>
    have hev : Generations.Event.free e = (s.supplied c).event c.2 ↔ (s.supplied c).closes c.2 = some e := by
      unfold event
      cases hc : (s.supplied c).closes c.2 with
      | some e' => simp [eq_comm]
      | none =>
        cases hr : ((s.supplied c).call c.2).2 with
        | handle k => cases hk : socketDecode k <;> simp [hk]
        | err | underway => simp
    simp [events,closings,ih,hev]

theorem findUsed_handleOf (s : Sockets) (e : EntryId) {g : ℕ} (hg : 1 ≤ g) :
    s.socketFindUsed (handleOf e g) = if (s.entries e).used ∧ (s.entries e).generation = g then some e else none := by
  simp [Sockets.socketFindUsed,socketDecode_handleOf e hg]

/-- A handle that was returned, until and after the close of its socket completes. -/
theorem Named.lifetime (hs : Named s) (steps : List Sockets.Step) {g : ℕ} (hg : 1 ≤ g) (hr : Resolves s.cells e g) :
    (s.run steps).socketFindUsed (handleOf e g) = if e ∈ s.closings steps then none else some e := by
  obtain ⟨h1,h2⟩ := (hs.runs steps).2.resolves_or_spent hr
  rw [free_mem_events] at h1 h2
  rw [findUsed_handleOf _ e hg]
  by_cases hc : e ∈ s.closings steps
  · rw [if_pos hc,if_neg]
    exact (h2 hc).not_resolves
  · rw [if_neg hc,if_pos]
    exact h1 hc

/-- A call with a handle that stands for no socket is refused and changes nothing. -/
theorem call_invalid (s : Sockets) (c : Call) {k : ℤ} (hc : c.handle? = some k) (hf : s.socketFindUsed k = none)
    (hl : c.locks = true → s.holder = none) : s.call c = (s,.err .param) := by
  have hfind : s.socketFind k = none := by
    unfold Sockets.socketFindUsed at hf
    unfold Sockets.socketFind
    split at hf
    next => rfl
    next e g hd =>
      rw [if_neg]
      rintro ⟨hu,-,hg⟩
      simp [hu,hg] at hf
  have hlock : ¬(c.locks = true ∧ s.holder ≠ none) := fun h => h.2 (hl h.1)
  unfold Sockets.call
  rw [if_neg hlock]
  cases c <;> simp only [Call.handle?,Option.some.injEq,reduceCtorEq] at hc <;> subst hc <;>
    simp [Sockets.netSocketBind,Sockets.netSocketListen,Sockets.netSocketAcceptPrepare,Sockets.netSocketClose,
      Sockets.netSocketConnectStart,Sockets.netSocketWaitConnect,Sockets.netSocketSend,Sockets.netSocketRecv,
      Sockets.netSocketWaitClose,Sockets.netSocketSendto,Sockets.netSocketRecvfrom,Sockets.tcpPcb,hf,hfind]

/-- In every run a returned handle is a non-negative `int` that was not returned before; it
stands for an entry that was free until the close of that socket completes, and for
nothing afterwards. A call with a handle that stands for nothing is refused. -/
theorem handles_unambiguous (steps : List Sockets.Step) :
    let s := Sockets.init.run steps
    (∀ (c : Sockets.Step) (h : ℤ), s.reply c = .handle h →
      0 ≤ h ∧ h < 2^31 ∧ h ∉ Sockets.init.issued steps ∧
      ∃ e, (s.entries e).used = false ∧ ∀ more : List Sockets.Step,
        ((s.step c).run more).socketFindUsed h = if e ∈ (s.step c).closings more then none else some e) ∧
    ∀ (c : Call) (h : ℤ), c.handle? = some h → s.socketFindUsed h = none → (c.locks = true → s.holder = none) →
      s.call c = (s,.err .param) := by
  intro s
  have hs : Named s := (Named.init.runs steps).1
  refine ⟨fun c h hc => ?_,fun c h => call_invalid s c⟩
  obtain ⟨e,hev,rfl⟩ := (hs.renames c).handle h hc
  have hstep := (hs.renames c).step
  rw [hev] at hstep
  obtain ⟨hu,hnew,hres⟩ := hstep.taken
  obtain ⟨hg,hg'⟩ := hs.bounds e
  have he : e.val < 16 := e.isLt
  refine ⟨by simp only [handleOf]; omega,?_,fun hmem => ?_,e,?_,fun more => ?_⟩
  · change ((s.cells e).generation : ℤ)*256+e.val < 2^31
    omega
  · obtain ⟨e',g,heq,hk⟩ := Named.init.known steps hmem
    obtain ⟨rfl,rfl⟩ := handleOf_inj heq
    exact hnew hk
  · exact hu
  · exact (hs.step c).lifetime more hg hres

example : Sockets.init.issued closedServer = [256,257] := by decide +kernel

end Runs
end Socket
end QuardStarNet
