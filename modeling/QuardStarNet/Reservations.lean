import QuardStarNet.TcpUsers

/-! Accept reservations and waiters against the threads that hold them. The system is the
TCP module together with the threads between an acquire and the matching release. -/
namespace QuardStarNet
namespace Tcp

/-- An accept that was acquired on `listener` and not yet committed or released, with the
child that its peek returned. -/
structure Acceptor where
  listener : Slot
  child : Option Slot
  deriving DecidableEq

/-- The waits whose threads hold a count of the block. -/
inductive Use
  | wait (w : Pcb.Wait) | recv
  deriving DecidableEq

/-- The count of the threads in a wait. -/
def Pcb.held (p : Pcb) : Use → ℤ
  | .wait w => p.waiters w
  | .recv => p.recvWaiters

def Pcb.addHeld (p : Pcb) (u : Use) (n : ℤ) : Pcb :=
  match u with
  | .wait w => p.addWaiters w n
  | .recv => { p with recvWaiters := p.recvWaiters+n }

/-- Sections after which the caller holds nothing more and nothing less. -/
def Action.plain : Action → Bool
  | .tcpAcceptAcquire _ | .tcpAcceptPeek _ | .tcpAcceptCommit _ _ | .tcpAcceptRelease _
  | .tcpAcceptReleaseChild _ _ | .tcpWaitAcquire _ _ | .waitLeave _ _ | .tcpRecvAcquire _
  | .tcpRecvLeave _ => false
  | _ => true

/-- The calls of the threads. -/
inductive Call
  | act (a : Action)
  | acquire (l : Slot)
  | peek (a : Acceptor)
  | commit (a : Acceptor)
  | release (a : Acceptor)
  | enter (i : Slot) (u : Use)
  | leave (i : Slot) (u : Use)

structure Sys where
  table : Table
  acceptors : List Acceptor
  waiters : List (Slot × Use)
  /-- commits of each block since its slot was allocated -/
  commits : Slot → ℕ

namespace Table

variable (t : Table)

def enter (i : Slot) : Use → Table × NetErr
  | .wait w => t.tcpWaitAcquire i w
  | .recv => t.tcpRecvAcquire i

/-- The last section of a wait. -/
def leave (i : Slot) (u : Use) : Table :=
  match u with
  | .wait w => t.act (.waitLeave i w)
  | .recv => t.act (.tcpRecvLeave i)

/-- The release that matches an accept. -/
def tcpAcceptReleaseOf (a : Acceptor) : Table × NetErr :=
  match a.child with
  | none => t.tcpAcceptReleaseAcquired a.listener
  | some c => t.tcpAcceptReleaseChildAcquired a.listener c

end Table

namespace Sys

variable (s : Sys)

def init : Sys := ⟨tcpInit,[],[],fun _ => 0⟩

def supply (fates : List NetErr) : Sys := { s with table := s.table.supply fates }

/-- A newly allocated block has not been committed. -/
def recount (t t' : Table) (commits : Slot → ℕ) (i : Slot) : ℕ :=
  if t.pcbs i = false ∧ t'.pcbs i = true then 0 else commits i

def call : Call → Sys
  | .act a =>
    if a.plain then
      { s with table := s.table.act a, commits := recount s.table (s.table.act a) s.commits }
    else s
  | .acquire l =>
    let r := s.table.tcpAcceptAcquire l
    { s with table := r.1, acceptors := if r.2 = .ok then ⟨l,none⟩::s.acceptors else s.acceptors }
  | .peek a =>
    if a ∈ s.acceptors ∧ a.child = none then
      let r := s.table.tcpAcceptPeek a.listener
      match r.2 with
      | .child c => { s with table := r.1, acceptors := ⟨a.listener,some c⟩::s.acceptors.erase a }
      | _ => { s with table := r.1 }
    else s
  | .commit a =>
    match a.child with
    | some c =>
      if a ∈ s.acceptors then
        let r := s.table.tcpAcceptCommitAcquired a.listener c
        if r.2 = .ok then
          { s with
            table := r.1
            acceptors := s.acceptors.erase a
            commits := Function.update s.commits c (s.commits c+1) }
        else { s with table := r.1 }
      else s
    | none => s
  | .release a =>
    if a ∈ s.acceptors then
      -- the caller drops its reservation whatever the release returns
      { s with table := (s.table.tcpAcceptReleaseOf a).1, acceptors := s.acceptors.erase a }
    else s
  | .enter i u =>
    let r := s.table.enter i u
    { s with table := r.1, waiters := if r.2 = .ok then (i,u)::s.waiters else s.waiters }
  | .leave i u =>
    if (i,u) ∈ s.waiters then { s with table := s.table.leave i u, waiters := s.waiters.erase (i,u) }
    else s

/-- A call with the outcomes of the allocations and transmissions it attempts. -/
abbrev Step := List NetErr × Call

def step (c : Step) : Sys := (s.supply c.1).call c.2

def run (steps : List Step) : Sys := steps.foldl step s

/-- No connection is started on a block that an acceptor has pinned. -/
def Allowed : Call → Prop
  | .act (.tcpConnectStart i _ _ _) => (s.table.storage i).acceptPins = 0
  | _ => True

/-- Every call of the run is allowed in the state in which it is made. -/
def AllowedRun : Sys → List Step → Prop
  | _, [] => True
  | s, c::steps => s.Allowed c.2 ∧ AllowedRun (s.step c) steps

/-- Acceptors that hold a reservation of `l`. -/
def reservations (l : Slot) : ℕ := s.acceptors.countP fun a => a.listener = l

/-- Acceptors that pin the child `i`. -/
def pins (i : Slot) : ℕ := s.acceptors.countP fun a => a.child = some i

/-- The counts in the table are those of the threads. -/
structure Held (s : Sys) : Prop where
  inv : Inv s.table
  reserved : ∀ i, s.table.pcbs i = true → (s.table.storage i).acceptWaiters = s.reservations i
  pinned : ∀ i, s.table.pcbs i = true → (s.table.storage i).acceptPins = s.pins i
  acceptor : ∀ a ∈ s.acceptors, s.table.Listening a.listener ∧
    ∀ c, a.child = some c → s.table.pcbs c = true ∧ s.table.Tied a.listener c
  waits : ∀ i, s.table.pcbs i = true → ∀ u, (s.table.storage i).held u = s.waiters.count (i,u)
  waiter : ∀ w ∈ s.waiters, s.table.pcbs w.1 = true
  once : ∀ i, s.commits i ≤ 1
  unaccepted : ∀ l i, s.table.IsChild l i → s.commits i = 0

end Sys

variable {s : Sys} {t' : Table} {i l : Slot}

namespace Sys

theorem Held.init : Held init := by
  refine ⟨.init,?_,?_,?_,?_,?_,?_,?_⟩ <;> simp [Sys.init,tcpInit,Table.IsChild]

theorem held_of_users {p q : Pcb} (h : p.users = q.users) (u : Use) : p.held u = q.held u := by
  simp only [Pcb.users,Users.mk.injEq] at h
  obtain ⟨-,-,h1,h2,h3,-⟩ := h
  rcases u with (_ | _) | _
  · exact h1
  · exact h3
  · exact h2

/-- Nobody holds anything of an idle block. -/
theorem Held.users_idle (h : s.Held) (hi : s.table.pcbs i = true) (hu : (s.table.storage i).users = .idle) :
    (∀ a ∈ s.acceptors, a.listener ≠ i ∧ a.child ≠ some i) ∧ ∀ w ∈ s.waiters, w.1 ≠ i := by
  have hz := held_of_users (q := .zeroed) hu
  simp only [Pcb.users,Users.idle,Users.mk.injEq] at hu
  have hr := h.reserved i hi
  have hp := h.pinned i hi
  rw [hu.1,eq_comm,Int.natCast_eq_zero,reservations,List.countP_eq_zero] at hr
  rw [hu.2.1,eq_comm,Int.natCast_eq_zero,pins,List.countP_eq_zero] at hp
  refine ⟨fun a ha => ⟨by simpa using hr a ha,by simpa using hp a ha⟩,?_⟩
  rintro ⟨j,u⟩ hw rfl
  have hc := h.waits j hi u
  have h0 : Pcb.zeroed.held u = 0 := by rcases u with (_ | _) | _ <;> rfl
  rw [hz u,h0,eq_comm,Int.natCast_eq_zero,List.count_eq_zero] at hc
  exact hc hw

/-- Nobody holds anything of a dead slot. -/
theorem Held.dead (h : s.Held) (hi : s.table.pcbs i = false) :
    s.reservations i = 0 ∧ s.pins i = 0 ∧ ∀ u, s.waiters.count (i,u) = 0 := by
  refine ⟨?_,?_,fun u => ?_⟩
  · refine List.countP_eq_zero.2 fun a ha hl => ?_
    have := (h.acceptor a ha).1.1
    simp [show a.listener = i by simpa using hl,hi] at this
  · refine List.countP_eq_zero.2 fun a ha hc => ?_
    have := ((h.acceptor a ha).2 i (by simpa using hc)).1
    simp [hi] at this
  · refine List.count_eq_zero.2 fun hw => ?_
    have := h.waiter _ hw
    simp [hi] at this

/-- A change that no user makes keeps the accounts. -/
theorem Held.quiet (h : s.Held) (hI : Inv t') (hq : Quiet s.table t') :
    Held { s with table := t', commits := recount s.table t' s.commits } := by
  have hcount : ∀ i, t'.pcbs i = true → (t'.storage i).users = (s.table.storage i).users ∧ s.table.pcbs i = true ∨
      (t'.storage i).users = .idle ∧ s.table.pcbs i = false := by
    intro i hi
    cases hb : s.table.pcbs i with
    | false => exact .inr ⟨hq.fresh i hb hi,rfl⟩
    | true =>
      rcases hq.kept i hb with ⟨-,hu,-⟩ | ⟨hd,-⟩
      · exact .inl ⟨hu,rfl⟩
      · simp [hd] at hi
  have hfield : ∀ (f : Pcb → ℤ) (n : Slot → ℕ), (∀ p q : Pcb, p.users = q.users → f p = f q) →
      f .zeroed = 0 → (∀ i, s.table.pcbs i = true → f (s.table.storage i) = n i) →
      (∀ i, s.table.pcbs i = false → n i = 0) → ∀ i, t'.pcbs i = true → f (t'.storage i) = n i := by
    intro f n hf hz hlive hdead i hi
    rcases hcount i hi with ⟨hu,hb⟩ | ⟨hu,hb⟩
    · rw [hf _ _ hu,hlive i hb]
    · rw [hf _ .zeroed hu,hz,hdead i hb]
      rfl
  refine ⟨hI,?_,?_,?_,?_,?_,?_,?_⟩
  · exact hfield Pcb.acceptWaiters s.reservations (fun _ _ h => congrArg Users.acceptWaiters h) rfl h.reserved
      fun i hi => (h.dead hi).1
  · exact hfield Pcb.acceptPins s.pins (fun _ _ h => congrArg Users.acceptPins h) rfl h.pinned
      fun i hi => (h.dead hi).2.1
  · intro a ha
    obtain ⟨hl,hc⟩ := h.acceptor a ha
    refine ⟨?_,fun c hac => ?_⟩
    · rcases hq.listening _ hl with hl' | hl'
      · exact hl'
      · rcases hq.kept _ hl.1 with ⟨hl'',-⟩ | ⟨-,hu⟩
        · simp [hl'] at hl''
        · exact absurd rfl ((h.users_idle hl.1 hu).1 a ha).1
    · obtain ⟨hlive,ht⟩ := hc c hac
      rcases hq.kept c hlive with ⟨hlive',-,ht'⟩ | ⟨-,hu⟩
      · exact ⟨hlive',ht' _ ht⟩
      · exact absurd hac ((h.users_idle hlive hu).1 a ha).2
  · intro i hi u
    have h0 : Pcb.zeroed.held u = 0 := by rcases u with (_ | _) | _ <;> rfl
    exact hfield (Pcb.held · u) (fun i => s.waiters.count (i,u)) (fun _ _ h => held_of_users h u) h0
      (fun i hi => h.waits i hi u) (fun i hi => (h.dead hi).2.2 u) i hi
  · intro w hw
    rcases hq.kept w.1 (h.waiter w hw) with ⟨hl,-⟩ | ⟨-,hu⟩
    · exact hl
    · exact absurd rfl ((h.users_idle (h.waiter w hw) hu).2 w hw)
  · intro i
    simp only [recount]
    split
    · exact Nat.zero_le _
    · exact h.once i
  · intro l i hc
    simp only [recount]
    split
    next => rfl
    next hb =>
      have hi : s.table.pcbs i = true := by
        by_contra hi
        exact hb ⟨by simpa using hi,hc.1⟩
      exact h.unaccepted l i (hq.child l i hi hc)

/-- A field that the change of one block keeps. -/
theorem field_update {α : Type} (f : Pcb → α) {t t' : Table} {i : Slot} {p' : Pcb}
    (hs : t'.storage = Function.update t.storage i p') (hf : f p' = f (t.storage i)) (j : Slot) :
    f (t'.storage j) = f (t.storage j) := by
  by_cases hj : j = i
  · rw [hs,hj,Function.update_self,hf]
  · rw [hs,Function.update_of_ne hj]

/-- Only the counts of users differ. -/
structure SameLinks (t t' : Table) : Prop where
  pcbs : t'.pcbs = t.pcbs
  detached : t'.detachedListeners = t.detachedListeners
  block : ∀ i, (t'.storage i).listener = (t.storage i).listener ∧ (t'.storage i).state = (t.storage i).state

namespace SameLinks

variable {t t' : Table}

theorem update (i : Slot) {p' : Pcb} (hs : t'.storage = Function.update t.storage i p')
    (hp : t'.pcbs = t.pcbs) (hd : t'.detachedListeners = t.detachedListeners)
    (hl : p'.listener = (t.storage i).listener) (hst : p'.state = (t.storage i).state) : SameLinks t t' :=
  ⟨hp,hd,fun j => ⟨field_update Pcb.listener hs hl j,field_update Pcb.state hs hst j⟩⟩

theorem listening (h : SameLinks t t') (l : Slot) : t'.Listening l ↔ t.Listening l := by
  rw [Table.Listening,Table.Listening,h.pcbs,(h.block l).2]

theorem child (h : SameLinks t t') (l i : Slot) : t'.IsChild l i ↔ t.IsChild l i := by
  rw [Table.IsChild,Table.IsChild,h.pcbs,(h.block i).1]

theorem tied (h : SameLinks t t') (l i : Slot) : t'.Tied l i ↔ t.Tied l i := by
  rw [Table.Tied,Table.Tied,h.detached,(h.block i).1]

end SameLinks

/-- The accounts after the users of the blocks changed. -/
theorem Held.rebuild (h : s.Held) (hI : Inv t') (hpcbs : t'.pcbs = s.table.pcbs) {as : List Acceptor}
    {ws : List (Slot × Use)} {cs : Slot → ℕ}
    (hacc : ∀ a ∈ as, t'.Listening a.listener ∧
      ∀ c, a.child = some c → t'.pcbs c = true ∧ t'.Tied a.listener c)
    (hws : ∀ w ∈ ws, w ∈ s.waiters ∨ s.table.pcbs w.1 = true)
    (hr : ∀ i, s.table.pcbs i = true → (t'.storage i).acceptWaiters = as.countP (·.listener = i))
    (hp : ∀ i, s.table.pcbs i = true → (t'.storage i).acceptPins = as.countP (·.child = some i))
    (hw : ∀ i, s.table.pcbs i = true → ∀ u, (t'.storage i).held u = ws.count (i,u)) (honce : ∀ i, cs i ≤ 1)
    (hun : ∀ l i, t'.IsChild l i → cs i = 0) :
    Held { table := t', acceptors := as, waiters := ws, commits := cs } := by
  have hlive : ∀ i, t'.pcbs i = true → s.table.pcbs i = true := fun i hi => by rwa [← hpcbs]
  refine ⟨hI,fun i hi => hr i (hlive i hi),fun i hi => hp i (hlive i hi),hacc,
    fun i hi => hw i (hlive i hi),fun w hwm => ?_,honce,hun⟩
  rw [hpcbs]
  rcases hws w hwm with hwm | hwm
  · exact h.waiter w hwm
  · exact hwm

theorem Held.accounts (h : s.Held) (hI : Inv t') (hl : SameLinks s.table t') {as : List Acceptor}
    {ws : List (Slot × Use)}
    (hacc : ∀ a ∈ as, a ∈ s.acceptors ∨
      s.table.Listening a.listener ∧ ∀ c, a.child = some c → s.table.IsChild a.listener c)
    (hws : ∀ w ∈ ws, w ∈ s.waiters ∨ s.table.pcbs w.1 = true)
    (hr : ∀ i, s.table.pcbs i = true → (t'.storage i).acceptWaiters = as.countP (·.listener = i))
    (hp : ∀ i, s.table.pcbs i = true → (t'.storage i).acceptPins = as.countP (·.child = some i))
    (hw : ∀ i, s.table.pcbs i = true → ∀ u, (t'.storage i).held u = ws.count (i,u)) :
    Held { s with table := t', acceptors := as, waiters := ws } := by
  refine h.rebuild hI hl.pcbs (fun a ha => ?_) hws hr hp hw h.once
    fun l i hc => h.unaccepted l i ((hl.child l i).1 hc)
  have : s.table.Listening a.listener ∧
      ∀ c, a.child = some c → s.table.pcbs c = true ∧ s.table.Tied a.listener c := by
    rcases hacc a ha with ha | ⟨h1,h2⟩
    · exact h.acceptor a ha
    · exact ⟨h1,fun c hc => ⟨(h2 c hc).1,.inl (h2 c hc).2⟩⟩
  refine ⟨(hl.listening _).2 this.1,fun c hc => ⟨?_,(hl.tied _ _).2 (this.2 c hc).2⟩⟩
  rw [hl.pcbs]
  exact (this.2 c hc).1

/-- The waiters of a block whose waiter counts did not change. -/
theorem Held.waits_update (h : s.Held) {p' : Pcb} (hs : t'.storage = Function.update s.table.storage l p')
    (hp : ∀ u, p'.held u = (s.table.storage l).held u) (i : Slot) (hi : s.table.pcbs i = true) (u : Use) :
    (t'.storage i).held u = s.waiters.count (i,u) :=
  (field_update (Pcb.held · u) hs (hp u) i).trans (h.waits i hi u)

theorem Held.supply (h : s.Held) (fates : List NetErr) : (s.supply fates).Held :=
  ⟨h.inv.supply fates,h.reserved,h.pinned,h.acceptor,h.waits,h.waiter,h.once,h.unaccepted⟩

theorem Held.acquire (h : s.Held) (l : Slot) : (s.call (.acquire l)).Held := by
  have hI := h.inv.acceptAcquire l
  rcases acceptAcquire_cases s.table l with ⟨e,hne,he⟩ | ⟨hl,-,he⟩
  · simpa [call,he,hne] using h
  rw [he] at hI
  simp only [call,he,if_true]
  refine h.accounts hI (.update l rfl rfl rfl rfl rfl) ?_ (fun w hw => .inl hw) (fun i hi => ?_)
    (fun i hi => ?_) (h.waits_update (l := l) rfl fun u => by rcases u with (_ | _) | _ <;> rfl)
  · intro a ha
    rcases List.mem_cons.1 ha with rfl | ha
    · exact .inr ⟨hl,by simp⟩
    · exact .inl ha
  · have hr := h.reserved i hi
    by_cases hil : i = l
    · subst i
      simpa [Table.modify,reservations,List.countP_cons] using hr
    · simpa [Table.modify,reservations,List.countP_cons,hil,Ne.symm hil] using hr
  · have hp := h.pinned i hi
    by_cases hil : i = l
    · subst i
      simpa [Table.modify,pins,List.countP_cons] using hp
    · simpa [Table.modify,pins,List.countP_cons,hil] using hp

theorem countP_erase {α : Type} [DecidableEq α] (p : α → Bool) {a : α} {as : List α} (ha : a ∈ as) :
    ((as.erase a).countP p : ℤ) = as.countP p-(if p a then 1 else 0) := by
  rw [List.countP_erase]
  by_cases hp : p a = true
  · have hpos : 0 < as.countP p := List.countP_pos_iff.2 ⟨a,ha,hp⟩
    simp only [ha,hp,and_self,if_true]
    omega
  · simp [hp]

/-- Replacing one acceptor by another in a count. -/
theorem countP_replace {α : Type} [DecidableEq α] (p : α → Bool) {a b : α} {as : List α} (ha : a ∈ as) :
    ((b::as.erase a).countP p : ℤ) = as.countP p+(if p b then 1 else 0)-(if p a then 1 else 0) := by
  have h := countP_erase p ha
  rw [List.countP_cons]
  split_ifs at h ⊢ <;> omega

theorem Held.peek (h : s.Held) (a : Acceptor) : (s.call (.peek a)).Held := by
  simp only [call]
  split
  swap
  · exact h
  next ha =>
  have hI := h.inv.acceptPeek a.listener
  rcases acceptPeek_cases h.inv a.listener with ⟨r,hr,he⟩ | ⟨c,hc,-,he⟩
  · rw [he]
    cases r with
    | child c => exact absurd rfl (hr c)
    | error | wait => exact h
  rw [he] at hI ⊢
  have hl := (h.acceptor a ha.1).1
  refine h.accounts hI (.update c rfl rfl rfl rfl rfl) ?_ (fun w hw => .inl hw) (fun i hi => ?_)
    (fun i hi => ?_) (h.waits_update (l := c) rfl fun u => by rcases u with (_ | _) | _ <;> rfl)
  · intro b hb
    rcases List.mem_cons.1 hb with rfl | hb
    · refine .inr ⟨hl,fun d hd => ?_⟩
      obtain rfl : c = d := by simpa using hd
      exact hc
    · exact .inl (List.mem_of_mem_erase hb)
  · have hr := h.reserved i hi
    rw [countP_replace _ ha.1]
    by_cases hic : i = c
    · subst i
      simpa [Table.modify,reservations] using hr
    · simpa [Table.modify,reservations,hic] using hr
  · have hp := h.pinned i hi
    rw [countP_replace _ ha.1]
    by_cases hic : i = c
    · subst i
      simpa [Table.modify,pins,ha.2] using hp
    · simpa [Table.modify,pins,hic,ha.2,Ne.symm hic] using hp

section Release

variable {a : Acceptor}

theorem Held.reserved_pos (h : s.Held) (ha : a ∈ s.acceptors) :
    0 < (s.table.storage a.listener).acceptWaiters := by
  rw [h.reserved _ (h.acceptor a ha).1.1,Int.natCast_pos]
  exact List.countP_pos_iff.2 ⟨a,ha,by simp⟩

theorem Held.pinned_pos (h : s.Held) (ha : a ∈ s.acceptors) (hc : a.child = some i) :
    0 < (s.table.storage i).acceptPins := by
  rw [h.pinned _ ((h.acceptor a ha).2 i hc).1,Int.natCast_pos]
  exact List.countP_pos_iff.2 ⟨a,ha,by simp [hc]⟩

/-- The release of an accept that holds its reservation succeeds. -/
theorem Held.releaseOf_ok (h : s.Held) (ha : a ∈ s.acceptors) :
    s.table.tcpAcceptReleaseOf a = (match a.child with
      | none => s.table.acceptLeave a.listener
      | some c => (s.table.unpinned c).acceptLeave a.listener,.ok) := by
  have hw := h.reserved_pos ha
  obtain ⟨hl,hchild⟩ := h.acceptor a ha
  have hopen := h.inv.links.opened
  cases hc : a.child with
  | none =>
    simp only [Table.tcpAcceptReleaseOf,hc,Table.tcpAcceptReleaseAcquired]
    rw [if_neg (by simp [hl.1]),if_neg (by simp [hopen,hl.1,hl.2,hw])]
  | some c =>
    obtain ⟨hlive,ht⟩ := hchild c hc
    have hp := h.pinned_pos ha hc
    simp only [Table.tcpAcceptReleaseOf,hc,Table.tcpAcceptReleaseChildAcquired]
    rw [if_neg (by simp [hl.1,hlive]),if_neg (by simp [hopen,hl.1,hl.2,hw]),
      if_neg (by simp [hopen,hlive,hp]; exact Or.resolve_left ht)]
    rfl

/-- What the counts are after acceptor `a` is gone. -/
theorem Held.without (h : s.Held) (ha : a ∈ s.acceptors) (i : Slot) (hi : s.table.pcbs i = true) :
    (((s.acceptors.erase a).countP (·.listener = i) : ℕ) : ℤ) =
        (s.table.storage i).acceptWaiters-(if a.listener = i then 1 else 0) ∧
      (((s.acceptors.erase a).countP (·.child = some i) : ℕ) : ℤ) =
        (s.table.storage i).acceptPins-(if a.child = some i then 1 else 0) := by
  rw [countP_erase _ ha,countP_erase _ ha,h.reserved i hi,h.pinned i hi]
  simp [reservations,pins]

/-- Another acceptor that pins the same child keeps its pin count up. -/
theorem Held.pinned_other (h : s.Held) (ha : a ∈ s.acceptors) (hc : a.child = some i) {b : Acceptor}
    (hb : b ∈ s.acceptors.erase a) (hbc : b.child = some i) : 0 < (s.table.storage i).acceptPins-1 := by
  have := (h.without ha i ((h.acceptor a ha).2 i hc).1).2
  rw [if_pos hc] at this
  rw [← this,Int.natCast_pos]
  exact List.countP_pos_iff.2 ⟨b,hb,by simp [hbc]⟩

theorem unpinned_leave (t : Table) (l c i : Slot) :
    let p := ((t.unpinned c).acceptLeave l).storage i
    p.acceptWaiters = (t.storage i).acceptWaiters-(if l = i then 1 else 0) ∧
      p.acceptPins = (t.storage i).acceptPins-(if some c = some i then 1 else 0) ∧
      p.listener = (t.storage i).listener ∧ p.state = (t.storage i).state ∧
      ∀ u, p.held u = (t.storage i).held u := by
  have hw : ∀ (p : Pcb) (n m : ℤ) (a : Sem) (u : Use),
      { p with acceptPins := n, acceptWaiters := m, acceptDone := a }.held u = p.held u := by
    intro p n m a u
    rcases u with (_ | _) | _ <;> rfl
  by_cases hl : i = l <;> by_cases hc : i = c
  · subst hl hc
    simp [Table.acceptLeave,Table.unpinned,Table.modify,hw]
  · subst hl
    simp [Table.acceptLeave,Table.unpinned,Table.modify,hc,Ne.symm hc]
    exact hw _ _ _ _
  · subst hc
    simp [Table.acceptLeave,Table.unpinned,Table.modify,hl,Ne.symm hl]
    exact hw _ _ _ _
  · simp [Table.acceptLeave,Table.unpinned,Table.modify,hl,hc,Ne.symm hl,Ne.symm hc]

theorem Held.release (h : s.Held) (a : Acceptor) : (s.call (.release a)).Held := by
  simp only [call]
  split
  swap
  · exact h
  next ha =>
  rw [h.releaseOf_ok ha]
  cases hc : a.child with
  | none =>
    refine h.accounts (h.inv.acceptLeave _) (.update a.listener rfl rfl rfl rfl rfl)
      (fun b hb => .inl (List.mem_of_mem_erase hb)) (fun w hw => .inl hw) (fun i hi => ?_) (fun i hi => ?_)
      (h.waits_update (l := a.listener) rfl fun u => by rcases u with (_ | _) | _ <;> rfl)
    · rw [(h.without ha i hi).1]
      by_cases hil : i = a.listener
      · simp [Table.acceptLeave,Table.modify,hil]
      · simp [Table.acceptLeave,Table.modify,hil,Ne.symm hil]
    · rw [(h.without ha i hi).2]
      by_cases hil : i = a.listener
      · simp [Table.acceptLeave,Table.modify,hil,hc]
      · simp [Table.acceptLeave,Table.modify,hil,hc]
  | some c =>
    have hf := unpinned_leave s.table a.listener c
    refine h.rebuild ((h.inv.unpinned c).acceptLeave _) rfl (fun b hb => ?_) (fun w hw => .inl hw)
      (fun i hi => ?_) (fun i hi => ?_) (fun i hi => ?_) h.once fun l i hchild => ?_
    · obtain ⟨hl,hbc⟩ := h.acceptor b (List.mem_of_mem_erase hb)
      refine ⟨⟨hl.1,(hf b.listener).2.2.2.1.trans hl.2⟩,fun d hd => ⟨(hbc d hd).1,?_⟩⟩
      rw [Table.Tied,(hf d).2.2.1]
      refine (hbc d hd).2.imp_right fun ht => ?_
      -- the detached link goes only with the last pin
      by_cases hdc : d = c
      · subst d
        have hpos := h.pinned_other ha hc hb hd
        have hne : ¬((s.table.storage c).acceptPins-1 = 0 ∧ (s.table.storage c).socketAttached = true) := by
          omega
        simpa [Table.acceptLeave,Table.unpinned,Table.modify,hne] using ht
      · simp only [Table.acceptLeave,Table.unpinned,Table.modify]
        split
        · simpa [hdc] using ht
        · exact ht
    · rw [(h.without ha i hi).1,(hf i).1]
    · rw [(h.without ha i hi).2,(hf i).2.1,hc]
    · exact fun u => ((hf i).2.2.2.2 u).trans (h.waits i hi u)
    · exact h.unaccepted l i ⟨hchild.1,(hf i).2.2.1.symm.trans hchild.2⟩

end Release

theorem accepted_fields (t : Table) (hne : i ≠ l) (j : Slot) :
    let p := (t.accepted l i).storage j
    p.acceptWaiters = (t.storage j).acceptWaiters-(if l = j then 1 else 0) ∧
      p.acceptPins = (t.storage j).acceptPins-(if some i = some j then 1 else 0) ∧
      p.listener = (if j = i then none else (t.storage j).listener) ∧ p.state = (t.storage j).state ∧
      ∀ u, p.held u = (t.storage j).held u := by
  by_cases hi : j = i
  · subst j
    simp only [Table.accepted,Function.update_self,hne.symm]
    refine ⟨by simp [Pcb.committed],by simp [Pcb.committed],by simp [Pcb.committed],rfl,fun u => ?_⟩
    rcases u with (_ | _) | _ <;> rfl
  · by_cases hl : j = l
    · subst j
      simp only [Table.accepted,Function.update_of_ne hi,Function.update_self]
      refine ⟨by simp [Pcb.dequeue],by simp [Pcb.dequeue,Ne.symm hi],by simp [Pcb.dequeue,hi],rfl,fun u => ?_⟩
      rcases u with (_ | _) | _ <;> rfl
    · simp [Table.accepted,hi,hl,Ne.symm hi,Ne.symm hl]

theorem Held.commit (h : s.Held) (a : Acceptor) : (s.call (.commit a)).Held := by
  simp only [call]
  split
  swap
  · exact h
  next c hac =>
  split
  swap
  · exact h
  next ha =>
  rcases acceptCommit_cases h.inv a.listener c with ⟨e,hne,he⟩ | ⟨hc,he⟩
  · simpa [he,hne] using h
  rw [he,if_pos rfl]
  have hne := h.inv.links.ne_of_child hc.child
  have hf := accepted_fields s.table hne
  refine h.rebuild (h.inv.accepted hc) rfl (fun b hb => ?_) (fun w hw => .inl hw)
    (fun i hi => ?_) (fun i hi => ?_) (fun i hi => ?_) (fun i => ?_) fun l i hchild => ?_
  · obtain ⟨hl,hbc⟩ := h.acceptor b (List.mem_of_mem_erase hb)
    refine ⟨⟨hl.1,(hf b.listener).2.2.2.1.trans hl.2⟩,fun d hd => ⟨(hbc d hd).1,?_⟩⟩
    have hbl : b.listener = a.listener := h.inv.links.unique hl hc.listening
    by_cases hdc : d = c
    · subst d
      -- the others that pin the child find it detached
      refine .inr ?_
      have hpos := h.pinned_other ha hac hb hd
      simp only [Table.accepted,Function.update_self,if_pos hpos,hbl]
    · rw [Table.Tied,(hf d).2.2.1,if_neg hdc]
      simpa [Table.Tied,Table.accepted,hdc] using (hbc d hd).2
  · rw [(h.without ha i hi).1,(hf i).1]
  · rw [(h.without ha i hi).2,(hf i).2.1,hac]
  · exact fun u => ((hf i).2.2.2.2 u).trans (h.waits i hi u)
  · by_cases hic : i = c
    · subst i
      simp [h.unaccepted _ _ hc.child]
    · simpa [hic] using h.once i
  · have hic : i ≠ c := by
      rintro rfl
      have := hchild.2
      simp [(hf i).2.2.1] at this
    have := (hf i).2.2.1
    rw [if_neg hic] at this
    simpa [hic] using h.unaccepted l i ⟨hchild.1,this.symm.trans hchild.2⟩

section Waits

theorem held_addHeld (p : Pcb) (u v : Use) (n : ℤ) :
    (p.addHeld u n).held v = p.held v+(if v = u then n else 0) := by
  rcases u with (_ | _) | _ <;> rcases v with (_ | _) | _ <;> simp [Pcb.addHeld,Pcb.held,Pcb.addWaiters,Pcb.waiters]

theorem addHeld_fields (p : Pcb) (u : Use) (n : ℤ) : (p.addHeld u n).acceptWaiters = p.acceptWaiters ∧
    (p.addHeld u n).acceptPins = p.acceptPins ∧ (p.addHeld u n).listener = p.listener ∧
    (p.addHeld u n).state = p.state := by
  rcases u with (_ | _) | _ <;> exact ⟨rfl,rfl,rfl,rfl⟩

theorem enter_cases (t : Table) (i : Slot) (u : Use) :
    (∃ e, e ≠ .ok ∧ t.enter i u = (t,e)) ∨
      t.pcbs i = true ∧ t.enter i u = (t.modify i fun p => p.addHeld u 1,.ok) := by
  cases u with
  | wait w => exact tcpWaitAcquire_cases t i w
  | recv => exact tcpRecvAcquire_cases t i

theorem leave_eq (t : Table) (i : Slot) (u : Use) : t.leave i u = t.modify i fun p => p.addHeld u (-1) := by
  cases u <;> rfl

/-- A thread enters or leaves a wait. -/
theorem Held.addHeld (h : s.Held) (hI : Inv t') (u : Use) (n : ℤ) {ws : List (Slot × Use)}
    (ht : t' = s.table.modify l fun p => p.addHeld u n)
    (hws : ∀ w ∈ ws, w ∈ s.waiters ∨ s.table.pcbs w.1 = true)
    (hcount : ∀ w, (ws.count w : ℤ) = s.waiters.count w+(if w = (l,u) then n else 0)) :
    Held { s with table := t', waiters := ws } := by
  subst ht
  obtain ⟨h1,h2,h3,h4⟩ := addHeld_fields (s.table.storage l) u n
  refine h.accounts hI (.update l rfl rfl rfl h3 h4) (fun a ha => .inl ha) hws (fun i hi => ?_) (fun i hi => ?_)
    fun i hi v => ?_
  · exact (field_update Pcb.acceptWaiters (i := l) rfl h1 i).trans (h.reserved i hi)
  · exact (field_update Pcb.acceptPins (i := l) rfl h2 i).trans (h.pinned i hi)
  · rw [hcount,← h.waits i hi v]
    by_cases hil : i = l
    · subst i
      simp [Table.modify,held_addHeld]
    · simp [Table.modify,hil]

theorem inv_enter {t : Table} (h : Inv t) (i : Slot) (u : Use) : Inv (t.enter i u).1 := by
  cases u with
  | wait w => exact h.waitAcquire i w
  | recv => exact h.recvAcquire i

theorem inv_leave {t : Table} (h : Inv t) (i : Slot) (u : Use) : Inv (t.leave i u) := by
  cases u with
  | wait w => exact h.act (.waitLeave i w)
  | recv => exact h.act (.tcpRecvLeave i)

theorem Held.enter (h : s.Held) (l : Slot) (u : Use) : (s.call (.enter l u)).Held := by
  have hI := inv_enter h.inv l u
  simp only [call]
  rcases enter_cases s.table l u with ⟨e,hne,he⟩ | ⟨hl,he⟩
  · simpa [he,hne] using h
  · simp only [he,if_true] at hI ⊢
    refine h.addHeld hI u 1 rfl (fun w hw => ?_) fun w => ?_
    · rcases List.mem_cons.1 hw with rfl | hw
      · exact .inr hl
      · exact .inl hw
    · rw [List.count_cons]
      split_ifs <;> simp_all

theorem Held.leave (h : s.Held) (l : Slot) (u : Use) : (s.call (.leave l u)).Held := by
  simp only [call]
  split
  swap
  · exact h
  next hm =>
    refine h.addHeld (inv_leave h.inv l u) u (-1) (leave_eq _ _ _)
      (fun w hw => .inl (List.mem_of_mem_erase hw)) fun w => ?_
    have hpos := List.count_pos_iff.2 hm
    by_cases hw : w = (l,u)
    · subst hw
      rw [List.count_erase_self,if_pos rfl]
      omega
    · rw [List.count_erase_of_ne hw,if_neg hw]
      omega

end Waits

section Act

/-- The socket of a block is no part of the accounts. -/
theorem Held.attach (h : s.Held) (hI : Inv t') (l : Slot) {b : Bool}
    (ht : t' = s.table.modify l fun p => { p with socketAttached := b }) : Held { s with table := t' } := by
  subst ht
  refine h.accounts hI (.update l rfl rfl rfl rfl rfl) (fun a ha => .inl ha) (fun w hw => .inl hw)
    (fun i hi => ?_) (fun i hi => ?_) (h.waits_update (l := l) rfl fun u => by rcases u with (_ | _) | _ <;> rfl)
  · exact (field_update Pcb.acceptWaiters (i := l) rfl (by rfl) i).trans (h.reserved i hi)
  · exact (field_update Pcb.acceptPins (i := l) rfl (by rfl) i).trans (h.pinned i hi)

theorem recount_self (t : Table) (cs : Slot → ℕ) : recount t t cs = cs := by
  funext i
  cases hi : t.pcbs i <;> simp [recount,hi]

/-- A block in LISTEN is the only one with reservations. -/
theorem Held.unreserved (h : s.Held) (hi : s.table.pcbs i = true) (hs : (s.table.storage i).state ≠ .listen) :
    (s.table.storage i).acceptWaiters = 0 := by
  rw [h.reserved i hi,Int.natCast_eq_zero,reservations,List.countP_eq_zero]
  intro a ha hl
  have hl : a.listener = i := by simpa using hl
  exact hs (hl ▸ (h.acceptor a ha).1.2)

theorem quiet_act (h : s.Held) (a : Action) (hp : a.plain = true) (hal : s.Allowed (.act a))
    (ho : ∀ b, a ≠ .tcpOpen b) (hd : ∀ i, a ≠ .tcpSocketDetach i) : Quiet s.table (s.table.act a) := by
  have hI := h.inv
  cases a with
  | tcpOpen b => exact absurd rfl (ho b)
  | tcpSocketDetach i => exact absurd rfl (hd i)
  | tcpBind i netif ip port => exact .moves hI (bind_moves none _ i netif ip port)
  | tcpListen i b =>
    rcases tcpListen_cases none s.table i b with ⟨t',e,he,hm⟩ | ⟨a,k,he,hi,-,hs,-⟩
    · simpa [Table.act,he] using Quiet.moves hI hm
    · simpa [Table.act,he] using Quiet.startsListening b a k (h.unreserved hi (by simp [hs]))
  | tcpConnectStart i netif remote port =>
    rcases tcpConnectStart_cases none hI i netif remote port with ⟨t',e,he,-,hm⟩ | ⟨p,n,k,e,he,hi,hc,-⟩
    · simpa [Table.act,he] using Quiet.moves hI hm
    · have hw := h.unreserved hi (by simp [hc.2.2.2.2.1])
      simpa [Table.act,he] using Quiet.connected hI hi hc hw hal netif remote p port n k e
  | tcpSendStart i data =>
    rcases tcpSendStart_cases none hI i data with ⟨t',e,he,-,-,hm⟩ | ⟨k,he,-⟩
    · simpa [Table.act,he] using Quiet.moves hI hm
    · simpa [Table.act,he] using Quiet.sending data k
  | acceptToken i | recvToken i =>
    exact .update (i := i) rfl rfl rfl rfl rfl fun hs => hs
  | waitToken i w => cases w <;> exact .update (i := i) rfl rfl rfl rfl rfl fun hs => hs
  | tcpRecvTake i n =>
    simp only [Table.act,Table.recvTake,Pcb.tcpRecvTake]
    by_cases hc : (s.table.storage i).recv.count = 0
    · simpa [hc] using Quiet.refl s.table
    · simp only [hc,if_false]
      exact .update (i := i) rfl rfl rfl rfl rfl fun hs => hs
  | tcpClose i => exact .moves hI (close_moves none hI i)
  | tcpRetransmitDue i => exact .moves hI (retransmitDue_moves none hI i)
  | tcpTimeWaitProc i => exact .moves hI (timeWaitProc_moves none hI i)
  | tcpReleaseProc i => exact .moves hI (releaseProc_moves none hI i)
  | tcpIn netif src dest buf =>
    simp only [Table.act,Table.tcpIn]
    split
    next => exact .refl _
    next seg _ =>
      split
      next => exact .refl _
      next => exact .arrival (inSegment_arrival hI seg netif src dest) hI
  | tcpAcceptAcquire | tcpAcceptPeek | tcpAcceptCommit | tcpAcceptRelease | tcpAcceptReleaseChild
  | tcpWaitAcquire | waitLeave | tcpRecvAcquire | tcpRecvLeave => cases hp

theorem Held.act (h : s.Held) (a : Action) (hal : s.Allowed (.act a)) : (s.call (.act a)).Held := by
  simp only [call]
  split
  swap
  · exact h
  next hp =>
  have hI := h.inv.act a
  by_cases ho : ∃ b, a = .tcpOpen b
  · obtain ⟨b,rfl⟩ := ho
    rcases tcpAlloc_cases none s.table b with ⟨t',he,hm⟩ | ⟨j,x,y,z,k,he,hj,-⟩
    · simp only [Table.act,he] at hI ⊢
      exact h.quiet hI (.moves h.inv hm)
    · simp only [Table.act,he] at hI ⊢
      have h' := h.quiet (h.inv.allocated hj false x y z k) (.allocated hj x y z k)
      exact h'.attach hI j (b := b) (by simp [Table.allocated,Table.modify,Pcb.allocated])
  by_cases hd : ∃ i, a = .tcpSocketDetach i
  · obtain ⟨i,rfl⟩ := hd
    rcases tcpSocketDetach_cases s.table i with ⟨e,-,he⟩ | ⟨hd,he,-⟩
    · simp only [Table.act,he,recount_self]
      exact h
    · have hI' := h.inv.unattached hd.1
      have h' := h.attach hI' i rfl
      simp only [Table.act,he] at hI ⊢
      exact h'.quiet hI (.moves hI' (releaseNow_moves none _ i))
  · exact h.quiet hI (quiet_act h a hp hal (fun b hb => ho ⟨b,hb⟩) fun i hi => hd ⟨i,hi⟩)

end Act

theorem Held.call (h : s.Held) (c : Call) (hal : s.Allowed c) : (s.call c).Held := by
  cases c with
  | act a => exact h.act a hal
  | acquire l => exact h.acquire l
  | peek a => exact h.peek a
  | commit a => exact h.commit a
  | release a => exact h.release a
  | enter i u => exact h.enter i u
  | leave i u => exact h.leave i u

theorem Held.step (h : s.Held) (c : Step) (hal : s.Allowed c.2) : (s.step c).Held := by
  refine (h.supply c.1).call c.2 ?_
  obtain ⟨fates,c⟩ := c
  rcases c with a | _ | _ | _ | _ | _ | _
  · cases a <;> exact hal
  all_goals exact hal

theorem Held.run (h : s.Held) {steps : List Step} (hal : AllowedRun s steps) : (s.run steps).Held := by
  induction steps generalizing s with
  | nil => exact h
  | cons c steps ih => exact ih (h.step c hal.1) hal.2

end Sys

/-- As long as no connection is started on a pinned block, the counts of the table are
those of the acceptors, no child is committed twice, and every release succeeds. -/
theorem accept_reservations_conserved (steps : List Sys.Step) (h : Sys.AllowedRun .init steps) :
    let s := Sys.init.run steps
    (∀ l, s.table.Listening l →
      (s.table.storage l).acceptWaiters = s.acceptors.countP (·.listener = l)) ∧
    (∀ i, s.table.pcbs i = true →
      (s.table.storage i).acceptPins = s.acceptors.countP (·.child = some i)) ∧
    (∀ i, s.commits i ≤ 1) ∧
    ∀ a ∈ s.acceptors, (s.table.tcpAcceptReleaseOf a).2 = .ok := by
  intro s
  have hs : s.Held := Sys.Held.init.run h
  refine ⟨fun l hl => hs.reserved l hl.1,hs.pinned,hs.once,fun a ha => ?_⟩
  rw [hs.releaseOf_ok ha]

/-- Two threads accept at once: both peek the same child, one commits it. -/
def contendedAccept : List Sys.Step :=
  [([],.act (.tcpOpen true)),
   ([],.act (.tcpBind 0 ⟨1,true,0x0a000001⟩ 0 80)),
   ([],.act (.tcpListen 0 2)),
   ([],.act (.tcpIn 1 0x0a000002 0x0a000001 (peerBytes 4000 80 7000 0 flagSyn []))),
   ([],.act (.tcpIn 1 0x0a000002 0x0a000001 (peerBytes 4000 80 7001 1001 flagAck []))),
   ([],.acquire 0),
   ([],.acquire 0),
   ([],.peek ⟨0,none⟩),
   ([],.peek ⟨0,none⟩),
   ([],.commit ⟨0,some 1⟩)]

theorem accept_reservations_contended :
    Sys.AllowedRun .init contendedAccept ∧
      (⟨0,some 1⟩ : Acceptor) ∈ (Sys.init.run contendedAccept).acceptors ∧
      ((Sys.init.run contendedAccept).table.tcpAcceptReleaseOf ⟨0,some 1⟩).2 = .ok := by
  have hrun : Sys.AllowedRun .init contendedAccept := by
    simp [contendedAccept,Sys.AllowedRun,Sys.Allowed]
  have hmem : (⟨0,some 1⟩ : Acceptor) ∈ (Sys.init.run contendedAccept).acceptors := by decide +kernel
  exact ⟨hrun,hmem,(accept_reservations_conserved contendedAccept hrun).2.2.2 _ hmem⟩

/-- The accepted child times out and its socket connects again, which forgets the pin of
the second acceptor: its release fails and the reservation of the listener stays. -/
theorem reconnect_loses_pin :
    let s := Sys.init.run (contendedAccept++
      [([],.act (.tcpSendStart 1 [1])),
       ([],.act (.tcpRetransmitDue 1)),
       ([],.act (.tcpRetransmitDue 1)),
       ([],.act (.tcpRetransmitDue 1)),
       ([],.act (.tcpRetransmitDue 1)),
       ([],.act (.tcpRetransmitDue 1)),
       ([],.act (.tcpConnectStart 1 ⟨1,true,0x0a000001⟩ 0x0a000002 90))])
    (⟨0,some 1⟩ : Acceptor) ∈ s.acceptors ∧ (s.table.storage 1).acceptPins = 0 ∧
      (s.table.tcpAcceptReleaseOf ⟨0,some 1⟩).2 = .state ∧
      ((s.step ([],.release ⟨0,some 1⟩)).table.storage 0).acceptWaiters = 1 ∧
      (s.step ([],.release ⟨0,some 1⟩)).acceptors = [] := by
  decide +kernel

end Tcp
end QuardStarNet
