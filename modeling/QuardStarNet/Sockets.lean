import QuardStarNet.Reservations

/-! The socket table over the TCP module. A call is one step per lock section of the TCP
module; between two sections of one call the caller keeps `socket_locker`. -/
namespace QuardStarNet
namespace Socket

open Tcp

/-- Indices below `NET_SOCKET_MAX`. -/
abbrev EntryId := Fin 16

inductive SocketType
  | udp | tcp
  deriving DecidableEq

/-- `socket_entry_t`. The block of a UDP entry is left out. -/
structure Entry where
  pcb : Option Slot
  generation : ℕ
  used : Bool
  closing : Bool
  retired : Bool
  type : SocketType
  deriving DecidableEq

/-- `socket_invalidate` -/
def Entry.invalidate (x : Entry) : Entry :=
  { x with
    pcb := if x.type = .tcp then none else x.pcb
    used := false
    closing := false
    retired := if x.generation = 0x7fffff then true else x.retired
    generation := if x.generation = 0x7fffff then x.generation else x.generation+1 }

/-- The entry is in use and its socket is the TCP socket of block `i`. -/
def Entry.Holds (x : Entry) (i : Slot) : Prop := x.used = true ∧ x.type = .tcp ∧ x.pcb = some i

def socketDecode (handle : ℤ) : Option (EntryId × ℕ) :=
  if handle < 0 then none
  else
    let value := handle.toNat/256
    if h : handle.toNat%256 < 16 then if value = 0 then none else some (⟨handle.toNat%256,h⟩,value)
    else none

/-- The second section of the call that holds `socket_locker`. -/
inductive Pending
  | detach (e : EntryId)
  | abort (a : Acceptor) (err : NetErr)
  deriving DecidableEq

structure Sockets where
  sys : Sys
  entries : EntryId → Entry
  holder : Option Pending

/-- What a call returns, unless it is still under way. -/
inductive Reply
  | err (e : NetErr) | handle (h : ℤ) | underway
  deriving DecidableEq

/-- The steps of the threads. The results of the UDP module are given. -/
inductive Call
  | netSocketOpen (type : SocketType) (udp : NetErr)
  | netSocketBind (handle : ℤ) (netif : Netif) (localIp : IpAddr) (port : Port) (udp : NetErr)
  | netSocketListen (handle backlog : ℤ)
  | netSocketAcceptPrepare (handle : ℤ)
  | tcpAcceptPeek (a : Acceptor)
  | netSocketAcceptCommit (handle : ℤ) (a : Acceptor)
  | netSocketAcceptAbort (a : Acceptor)
  | netSocketClose (handle : ℤ)
  | udpClosed (e : EntryId) (udp : NetErr)
  | netSocketConnectStart (handle : ℤ) (netif : Netif) (dest : IpAddr) (destPort : Port)
  | netSocketWaitConnect (handle : ℤ)
  | netSocketSend (handle : ℤ) (data : List Byte)
  | netSocketRecv (handle size : ℤ)
  | netSocketWaitClose (handle : ℤ)
  | netSocketSendto (handle : ℤ) (udp : NetErr)
  | netSocketRecvfrom (handle size : ℤ) (udp : NetErr)
  | leave (i : Slot) (u : Use)
  | stack (a : Action)
  | proceed

/-- Steps that start by taking `socket_locker`; `net_socket_sendto` does not take it. -/
def Call.locks : Call → Bool
  | .netSocketSendto _ _ | .tcpAcceptPeek _ | .leave _ _ | .stack _ | .proceed => false
  | _ => true

/-- Sections of timers, of arriving segments and of threads inside a wait. -/
def ofStack : Action → Bool
  | .acceptToken _ | .waitToken _ _ | .tcpRecvTake _ _ | .recvToken _ | .tcpRetransmitDue _
  | .tcpTimeWaitProc _ | .tcpReleaseProc _ | .tcpIn _ _ _ _ => true
  | _ => false

namespace Sockets

variable (s : Sockets)

/-- `net_socket_init` after `tcp_init`. -/
def init : Sockets := ⟨.init,fun _ => ⟨none,1,false,false,false,.udp⟩,none⟩

def table : Table := s.sys.table

/-- A section of the TCP module. -/
def tcp (c : Tcp.Call) : Sockets := { s with sys := s.sys.call c }

def setEntry (e : EntryId) (x : Entry) : Sockets := { s with entries := Function.update s.entries e x }

def socketFind (handle : ℤ) : Option EntryId :=
  match socketDecode handle with
  | none => none
  | some (e,generation) =>
    let x := s.entries e
    if x.used ∧ ¬x.closing ∧ x.generation = generation then some e else none

def socketFindUsed (handle : ℤ) : Option EntryId :=
  match socketDecode handle with
  | none => none
  | some (e,generation) =>
    let x := s.entries e
    if x.used ∧ x.generation = generation then some e else none

/-- The first entry that a new socket can take. -/
def findFree : Option EntryId :=
  (List.finRange 16).find? fun e => !(s.entries e).used && !(s.entries e).retired

/-- The block of a TCP entry that was found. -/
def tcpPcb (found : Option EntryId) : Option Slot :=
  found.bind fun e => if (s.entries e).type = .tcp then (s.entries e).pcb else none

/-- Put a new socket into the free entry `e`. -/
def occupy (e : EntryId) (pcb : Option Slot) (type : SocketType) : Sockets × Reply :=
  let x := s.entries e
  (s.setEntry e { x with pcb := pcb, used := true, closing := false, type := type },
    .handle (x.generation*256+e.val))

def netSocketOpen (type : SocketType) (udp : NetErr) : Sockets × Reply :=
  match s.findFree, type with
  | none, _ => (s,.err .full)
  | some e, .udp => if udp = .ok then s.occupy e none .udp else (s,.err udp)
  | some e, .tcp =>
    let opened := s.tcp (.act (.tcpOpen true))
    match (s.table.tcpAlloc true).2 with
    | none => (opened.setEntry e { s.entries e with pcb := none },.err .mem)
    | some i => opened.occupy e (some i) .tcp

def netSocketBind (handle : ℤ) (netif : Netif) (localIp : IpAddr) (port : Port) (udp : NetErr) :
    Sockets × Reply :=
  match s.socketFind handle with
  | none => (s,.err .param)
  | some e =>
    if (s.entries e).type = .udp then (s,.err udp)
    else
      match (s.entries e).pcb with
      | none => (s,.err .param)
      | some i => (s.tcp (.act (.tcpBind i netif localIp port)),.err (s.table.tcpBind i netif localIp port).2)

def netSocketListen (handle backlog : ℤ) : Sockets × Reply :=
  match s.tcpPcb (s.socketFind handle) with
  | none => (s,.err .param)
  | some i => (s.tcp (.act (.tcpListen i backlog)),.err (s.table.tcpListen i backlog).2)

/-- The first section of `net_socket_accept_prepare`; the peek follows without the lock. -/
def netSocketAcceptPrepare (handle : ℤ) : Sockets × Reply :=
  match s.tcpPcb (s.socketFind handle) with
  | none => (s,.err .param)
  | some l => (s.tcp (.acquire l),.err (s.table.tcpAcceptAcquire l).2)

/-- One pass of the peek of acceptor `a`. -/
def tcpAcceptPeek (a : Acceptor) : Sockets × Reply :=
  (s.tcp (.peek a),match (s.table.tcpAcceptPeek a.listener).2 with
    | .error e => .err e
    | .child _ => .err .ok
    | .wait => .underway)

/-- `net_socket_accept_commit` of acceptor `a`, prepared with `handle`. -/
def netSocketAcceptCommit (handle : ℤ) (a : Acceptor) : Sockets × Reply :=
  match a.child with
  | none => (s,.err .param)
  | some c =>
    if a ∉ s.sys.acceptors then (s,.err .param)
    else if s.tcpPcb (s.socketFind handle) ≠ some a.listener then (s.tcp (.release a),.err .state)
    else
      match s.findFree with
      | none => (s.tcp (.release a),.err .full)
      | some e =>
        let err := (s.table.tcpAcceptCommitAcquired a.listener c).2
        let committed := s.tcp (.commit a)
        if err = .ok then committed.occupy e (some c) .tcp
        else ({ committed with holder := some (.abort a err) },.underway)

def netSocketAcceptAbort (a : Acceptor) : Sockets × Reply := (s.tcp (.release a),.err .ok)

/-- The first section of `net_socket_close`: `socket_close_tcp`, or the part of the close
of a UDP socket before `udp_close`. -/
def netSocketClose (handle : ℤ) : Sockets × Reply :=
  match s.socketFindUsed handle with
  | none => (s,.err .param)
  | some e =>
    let x := s.entries e
    if x.type = .udp then
      if x.closing then (s,.err .param) else (s.setEntry e { x with closing := true },.underway)
    else
      match x.pcb with
      | none => (s,.err .param)
      | some i =>
        let err := (s.table.tcpClose i).2
        let closed := s.tcp (.act (.tcpClose i))
        if ¬x.closing then
          if err = .ok then (closed.setEntry e { x with closing := true },.err .none) else (closed,.err err)
        else if err = .ok then ({ closed with holder := some (.detach e) },.underway)
        else (closed,.err err)

/-- The end of the close of a UDP socket. -/
def udpClosed (e : EntryId) (udp : NetErr) : Sockets × Reply :=
  let x := s.entries e
  if x.used ∧ x.type = .udp ∧ x.closing then
    if udp = .ok then (s.setEntry e x.invalidate,.err .ok)
    else (s.setEntry e { x with closing := false },.err udp)
  else (s,.err .param)

def netSocketConnectStart (handle : ℤ) (netif : Netif) (dest : IpAddr) (destPort : Port) : Sockets × Reply :=
  match s.tcpPcb (s.socketFind handle) with
  | none => (s,.err .param)
  | some i =>
    (s.tcp (.act (.tcpConnectStart i netif dest destPort)),.err (s.table.tcpConnectStart i netif dest destPort).2)

def netSocketSend (handle : ℤ) (data : List Byte) : Sockets × Reply :=
  match s.tcpPcb (s.socketFind handle) with
  | none => (s,.err .param)
  | some i => (s.tcp (.act (.tcpSendStart i data)),.err (s.table.tcpSendStart i data).2)

/-- The first section of a call that waits for block `i`. -/
def enter (i : Slot) (u : Use) : Sockets × Reply :=
  (s.tcp (.enter i u),if (s.table.enter i u).2 = .ok then .underway else .err (s.table.enter i u).2)

def netSocketWaitConnect (handle : ℤ) : Sockets × Reply :=
  match s.tcpPcb (s.socketFind handle) with
  | none => (s,.err .param)
  | some i => s.enter i (.wait .connect)

def netSocketRecv (handle size : ℤ) : Sockets × Reply :=
  if size ≤ 0 then (s,.err .param)
  else
    match s.tcpPcb (s.socketFind handle) with
    | none => (s,.err .param)
    | some i => s.enter i .recv

def netSocketWaitClose (handle : ℤ) : Sockets × Reply :=
  match s.socketFindUsed handle with
  | none => (s,.err .param)
  | some e =>
    if (s.entries e).type ≠ .tcp ∨ ¬(s.entries e).closing then (s,.err .param)
    else
      match (s.entries e).pcb with
      | none => (s,.err .ok)
      | some i =>
        let r := s.enter i (.wait .close)
        -- a block that is gone has closed
        (r.1,if r.2 = .err .param then .err .ok else r.2)

def netSocketSendto (handle : ℤ) (udp : NetErr) : Sockets × Reply :=
  match s.socketFind handle with
  | none => (s,.err .param)
  | some e => (s,.err (if (s.entries e).type = .udp then udp else .param))

/-- The first section of `net_socket_recvfrom`, with the result of `udp_recv_acquire`. -/
def netSocketRecvfrom (handle size : ℤ) (udp : NetErr) : Sockets × Reply :=
  if size < 0 then (s,.err .param)
  else
    match s.socketFind handle with
    | none => (s,.err .param)
    | some e => (s,if (s.entries e).type = .udp ∧ udp = .ok then .underway else .err .param)

/-- The second section of the call that holds `socket_locker`. -/
def proceed : Sockets × Reply :=
  match s.holder with
  | none => (s,.underway)
  | some (.abort a err) => ({ s.tcp (.release a) with holder := none },.err err)
  | some (.detach e) =>
    let s : Sockets := { s with holder := none }
    match (s.entries e).pcb with
    | none => (s,.err .param)
    | some i =>
      let err := (s.table.tcpSocketDetach i).2
      let detached := s.tcp (.act (.tcpSocketDetach i))
      if err = .ok then (detached.setEntry e (s.entries e).invalidate,.err .ok)
      else (detached,.err (if err = .state then .none else err))

def call (c : Call) : Sockets × Reply :=
  if c.locks ∧ s.holder ≠ none then (s,.underway)
  else
    match c with
    | .netSocketOpen type udp => s.netSocketOpen type udp
    | .netSocketBind handle netif localIp port udp => s.netSocketBind handle netif localIp port udp
    | .netSocketListen handle backlog => s.netSocketListen handle backlog
    | .netSocketAcceptPrepare handle => s.netSocketAcceptPrepare handle
    | .tcpAcceptPeek a => s.tcpAcceptPeek a
    | .netSocketAcceptCommit handle a => s.netSocketAcceptCommit handle a
    | .netSocketAcceptAbort a => s.netSocketAcceptAbort a
    | .netSocketClose handle => s.netSocketClose handle
    | .udpClosed e udp => s.udpClosed e udp
    | .netSocketConnectStart handle netif dest destPort => s.netSocketConnectStart handle netif dest destPort
    | .netSocketWaitConnect handle => s.netSocketWaitConnect handle
    | .netSocketSend handle data => s.netSocketSend handle data
    | .netSocketRecv handle size => s.netSocketRecv handle size
    | .netSocketWaitClose handle => s.netSocketWaitClose handle
    | .netSocketSendto handle udp => s.netSocketSendto handle udp
    | .netSocketRecvfrom handle size udp => s.netSocketRecvfrom handle size udp
    | .leave i u => (s.tcp (.leave i u),.underway)
    | .stack a => if ofStack a then (s.tcp (.act a),.underway) else (s,.underway)
    | .proceed => s.proceed

/-- A call with the outcomes of the allocations and transmissions it attempts. -/
abbrev Step := List NetErr × Call

def step (c : Step) : Sockets := ({ s with sys := s.sys.supply c.1 }.call c.2).1

def run (steps : List Step) : Sockets := steps.foldl step s

/-- No connection is started on a block that an acceptor has pinned. -/
def Allowed : Call → Prop
  | .netSocketConnectStart handle _ _ _ =>
    ∀ i, s.tcpPcb (s.socketFind handle) = some i → (s.table.storage i).acceptPins = 0
  | _ => True

/-- Every call of the run is allowed in the state in which it is made. -/
def AllowedRun : Sockets → List Step → Prop
  | _, [] => True
  | s, c::steps => s.Allowed c.2 ∧ AllowedRun (s.step c) steps

/-- The live blocks that the TCP module takes to belong to a socket. -/
def Attached (t : Table) (i : Slot) : Prop := t.pcbs i = true ∧ (t.storage i).socketAttached = true

/-- The entries and the blocks agree on which block belongs to which socket. -/
structure Agree (t : Table) (entries : EntryId → Entry) : Prop where
  entry : ∀ e, (entries e).used = true → (entries e).type = .tcp → ∃ i, (entries e).pcb = some i ∧ Attached t i
  once : ∀ e e' i, (entries e).Holds i → (entries e').Holds i → e = e'
  held : ∀ i, Attached t i → ∃ e, (entries e).Holds i

/-- The invariant of the two modules together. -/
structure Consistent (s : Sockets) : Prop where
  held : s.sys.Held
  agree : Agree s.table s.entries
  closing : ∀ e, s.holder = some (.detach e) → (s.entries e).used = true ∧ (s.entries e).type = .tcp

end Sockets

variable {s : Sockets} {t t' : Table} {i : Slot} {e : EntryId}

namespace Sockets

section Attached

/-- The blocks of sockets are the same in both tables. -/
def SameSockets (t t' : Table) : Prop := ∀ j, Attached t' j ↔ Attached t j

/-- A change of one block that keeps its socket. -/
theorem sameSockets_update (l : Slot) {p' : Pcb} (hs : t'.storage = Function.update t.storage l p')
    (hp : t'.pcbs = t.pcbs) (ha : p'.socketAttached = (t.storage l).socketAttached) :
    SameSockets t t' := by
  intro j
  rw [Attached,Attached,hp,Sys.field_update Pcb.socketAttached hs ha]

theorem sameSockets_quiet (hq : Quiet t t') : SameSockets t t' := by
  intro j
  cases hj : t.pcbs j with
  | true =>
    rcases hq.kept j hj with ⟨hj',hu,-⟩ | ⟨hj',hu⟩
    · have ha : (t'.storage j).socketAttached = (t.storage j).socketAttached := congrArg Users.socketAttached hu
      simp [Attached,hj,hj',ha]
    · simp [Attached,hj',show (t.storage j).socketAttached = _ from congrArg Users.socketAttached hu,Users.idle]
  | false =>
    cases hj' : t'.pcbs j with
    | true =>
      simp [Attached,hj,show (t'.storage j).socketAttached = _ from
        congrArg Users.socketAttached (hq.fresh j hj hj'),Users.idle]
    | false => simp [Attached,hj,hj']

/-- A section on a block that only its socket may call. -/
def owned : Action → Bool
  | .tcpOpen _ | .tcpSocketDetach _ => false
  | _ => true

theorem sameSockets_act {s : Sys} (h : s.Held) (a : Action) (hal : s.Allowed (.act a)) (ho : owned a = true) :
    SameSockets s.table (s.call (.act a)).table := by
  simp only [Sys.call]
  split
  · next hp =>
    refine sameSockets_quiet (Sys.quiet_act h a hp hal (fun b hb => ?_) fun k hk => ?_)
    · simp [hb,owned] at ho
    · simp [hk,owned] at ho
  · exact fun _ => .rfl

theorem sameSockets_acquire {s : Sys} (l : Slot) : SameSockets s.table (s.call (.acquire l)).table := by
  simp only [Sys.call]
  rcases acceptAcquire_cases s.table l with ⟨e,-,he⟩ | ⟨-,-,he⟩
  · rw [he]
    exact fun _ => .rfl
  · rw [he]
    exact sameSockets_update l rfl rfl rfl

theorem sameSockets_peek {s : Sys} (h : s.Held) (a : Acceptor) :
    SameSockets s.table (s.call (.peek a)).table := by
  simp only [Sys.call]
  split
  · rcases acceptPeek_cases h.inv a.listener with ⟨r,hr,he⟩ | ⟨c,-,-,he⟩
    · rw [he]
      cases r with
      | child c => exact absurd rfl (hr c)
      | error | wait => exact fun _ => .rfl
    · rw [he]
      exact sameSockets_update c rfl rfl rfl
  · exact fun _ => .rfl

theorem sameSockets_release {s : Sys} (h : s.Held) (a : Acceptor) :
    SameSockets s.table (s.call (.release a)).table := by
  simp only [Sys.call]
  split
  · next ha =>
    rw [h.releaseOf_ok ha]
    cases a.child with
    | none => exact sameSockets_update a.listener rfl rfl rfl
    | some c =>
      have h₁ : SameSockets s.table (s.table.unpinned c) := sameSockets_update c rfl rfl rfl
      have h₂ : SameSockets (s.table.unpinned c) ((s.table.unpinned c).acceptLeave a.listener) :=
        sameSockets_update a.listener rfl rfl rfl
      exact fun j => (h₂ j).trans (h₁ j)
  · exact fun _ => .rfl

theorem socketAttached_addHeld (p : Pcb) (u : Use) (n : ℤ) :
    (p.addHeld u n).socketAttached = p.socketAttached := by
  rcases u with (_ | _) | _ <;> rfl

theorem sameSockets_addHeld (l : Slot) (u : Use) (n : ℤ) : SameSockets t (t.modify l fun p => p.addHeld u n) :=
  sameSockets_update l rfl rfl (socketAttached_addHeld _ u n)

theorem sameSockets_enter {s : Sys} (l : Slot) (u : Use) : SameSockets s.table (s.call (.enter l u)).table := by
  simp only [Sys.call]
  rcases Sys.enter_cases s.table l u with ⟨e,-,he⟩ | ⟨-,he⟩
  · rw [he]
    exact fun _ => .rfl
  · rw [he]
    exact sameSockets_addHeld l u 1

theorem sameSockets_leave {s : Sys} (l : Slot) (u : Use) : SameSockets s.table (s.call (.leave l u)).table := by
  simp only [Sys.call]
  split
  · rw [Sys.leave_eq]
    exact sameSockets_addHeld l u (-1)
  · exact fun _ => .rfl

end Attached

section Agree

variable {es es' : EntryId → Entry}

/-- Neither the entries of TCP sockets nor the attached blocks changed. -/
theorem Agree.congr (h : Agree t es) (ha : SameSockets t t')
    (he : ∀ e, ((es' e).used = true ∧ (es' e).type = .tcp ↔ (es e).used = true ∧ (es e).type = .tcp) ∧
      ((es e).used = true → (es e).type = .tcp → (es' e).pcb = (es e).pcb)) : Agree t' es' := by
  have hh : ∀ e i, (es' e).Holds i ↔ (es e).Holds i := by
    intro e i
    constructor
    · rintro ⟨hu,ht,hp⟩
      obtain ⟨hu',ht'⟩ := (he e).1.1 ⟨hu,ht⟩
      exact ⟨hu',ht',((he e).2 hu' ht').symm.trans hp⟩
    · rintro ⟨hu,ht,hp⟩
      obtain ⟨hu',ht'⟩ := (he e).1.2 ⟨hu,ht⟩
      exact ⟨hu',ht',((he e).2 hu ht).trans hp⟩
  refine ⟨fun e hu ht => ?_,fun e e' i h₁ h₂ => ?_,fun i hi => ?_⟩
  · obtain ⟨hu',ht'⟩ := (he e).1.1 ⟨hu,ht⟩
    obtain ⟨i,hp,hi⟩ := h.entry e hu' ht'
    exact ⟨i,((he e).2 hu' ht').trans hp,(ha i).2 hi⟩
  · exact h.once e e' i ((hh e i).1 h₁) ((hh e' i).1 h₂)
  · obtain ⟨e,hi⟩ := h.held i ((ha i).1 hi)
    exact ⟨e,(hh e i).2 hi⟩

/-- A change of one entry that is and stays no TCP socket, or that keeps its block. -/
theorem Agree.setEntry (h : Agree t es) (ha : SameSockets t t') {x : Entry}
    (hx : (x.used = true ∧ x.type = .tcp ↔ (es e).used = true ∧ (es e).type = .tcp) ∧
      ((es e).used = true → (es e).type = .tcp → x.pcb = (es e).pcb)) : Agree t' (Function.update es e x) := by
  refine h.congr ha fun k => ?_
  by_cases hk : k = e
  · subst k
    simpa using hx
  · simp [hk]

/-- A free entry takes a block that belonged to no socket. -/
theorem Agree.add (h : Agree t es) {x : Entry} (hfree : (es e).used = false) (hx : x.Holds i)
    (hn : ¬Attached t i) (ha : ∀ j, Attached t' j ↔ Attached t j ∨ j = i) :
    Agree t' (Function.update es e x) := by
  have hh : ∀ k j, (Function.update es e x k).Holds j → k = e ∧ j = i ∨ k ≠ e ∧ (es k).Holds j := by
    intro k j hk
    by_cases hke : k = e
    · subst k
      rw [Function.update_self] at hk
      exact .inl ⟨rfl,Option.some.inj (hk.2.2.symm.trans hx.2.2)⟩
    · rw [Function.update_of_ne hke] at hk
      exact .inr ⟨hke,hk⟩
  have hnew : ∀ k, ¬(es k).Holds i := by
    intro k hk
    obtain ⟨j,hp,hj⟩ := h.entry k hk.1 hk.2.1
    exact hn (Option.some.inj (hk.2.2.symm.trans hp) ▸ hj)
  refine ⟨fun k hu ht => ?_,fun k k' j h₁ h₂ => ?_,fun j hj => ?_⟩
  · by_cases hke : k = e
    · subst k
      rw [Function.update_self]
      exact ⟨i,hx.2.2,(ha i).2 (.inr rfl)⟩
    · rw [Function.update_of_ne hke] at hu ht ⊢
      obtain ⟨j,hp,hj⟩ := h.entry k hu ht
      exact ⟨j,hp,(ha j).2 (.inl hj)⟩
  · rcases hh k j h₁ with ⟨hk,hj⟩ | ⟨-,h₁⟩ <;> rcases hh k' j h₂ with ⟨hk',hj'⟩ | ⟨-,h₂⟩
    · exact hk.trans hk'.symm
    · exact absurd (hj ▸ h₂) (hnew k')
    · exact absurd (hj' ▸ h₁) (hnew k)
    · exact h.once k k' j h₁ h₂
  · rcases (ha j).1 hj with hj | rfl
    · obtain ⟨k,hk⟩ := h.held j hj
      refine ⟨k,?_⟩
      rwa [Function.update_of_ne]
      rintro rfl
      simpa [hfree] using hk.1
    · exact ⟨e,by rwa [Function.update_self]⟩

/-- An entry gives up its block. -/
theorem Agree.remove (h : Agree t es) {x : Entry} (he : (es e).Holds i) (hx : x.used = false)
    (ha : ∀ j, Attached t' j ↔ Attached t j ∧ j ≠ i) : Agree t' (Function.update es e x) := by
  have hh : ∀ k j, (Function.update es e x k).Holds j → k ≠ e ∧ (es k).Holds j := by
    intro k j hk
    by_cases hke : k = e
    · subst k
      simpa [hx] using hk.1
    · exact ⟨hke,by rwa [Function.update_of_ne hke] at hk⟩
  refine ⟨fun k hu ht => ?_,fun k k' j h₁ h₂ => h.once k k' j (hh k j h₁).2 (hh k' j h₂).2,fun j hj => ?_⟩
  · have hke : k ≠ e := by
      rintro rfl
      simp [hx] at hu
    rw [Function.update_of_ne hke] at hu ht ⊢
    obtain ⟨j,hp,hj⟩ := h.entry k hu ht
    refine ⟨j,hp,(ha j).2 ⟨hj,?_⟩⟩
    rintro rfl
    exact hke (h.once k e j ⟨hu,ht,hp⟩ he)
  · obtain ⟨hj,hji⟩ := (ha j).1 hj
    obtain ⟨k,hk⟩ := h.held j hj
    refine ⟨k,?_⟩
    rwa [Function.update_of_ne]
    rintro rfl
    exact hji (Option.some.inj (hk.2.2.symm.trans he.2.2))

end Agree

section Calls

theorem findFree_unused (h : s.findFree = some e) : (s.entries e).used = false := by
  have := List.find?_some h
  simp only [Bool.and_eq_true,Bool.not_eq_true'] at this
  exact this.1

theorem socketFindUsed_used {handle : ℤ} (h : s.socketFindUsed handle = some e) : (s.entries e).used = true := by
  unfold socketFindUsed at h
  split at h
  · cases h
  · simp only [Option.ite_none_right_eq_some,Option.some.injEq] at h
    exact h.2 ▸ h.1.1

theorem Consistent.tcp (h : s.Consistent) (c : Tcp.Call) (hal : s.sys.Allowed c)
    (hs : SameSockets s.table (s.sys.call c).table) : (s.tcp c).Consistent :=
  ⟨h.held.call c hal,h.agree.congr hs fun _ => ⟨.rfl,fun _ _ => rfl⟩,h.closing⟩

theorem Consistent.act (h : s.Consistent) (a : Action) (hal : s.sys.Allowed (.act a)) (ho : owned a = true) :
    (s.tcp (.act a)).Consistent :=
  h.tcp _ hal (sameSockets_act h.held a hal ho)

theorem Consistent.release (h : s.Consistent) (a : Acceptor) : (s.tcp (.release a)).Consistent :=
  h.tcp _ trivial (sameSockets_release h.held a)

theorem Consistent.enter (h : s.Consistent) (i : Slot) (u : Use) : (s.enter i u).1.Consistent :=
  h.tcp _ trivial (sameSockets_enter i u)

theorem Consistent.hold (h : s.Consistent) (o : Option Pending)
    (ho : ∀ e, o = some (.detach e) → (s.entries e).used = true ∧ (s.entries e).type = .tcp) :
    Consistent { s with holder := o } :=
  ⟨h.held,h.agree,ho⟩

/-- A change of an entry by the call that holds the lock. -/
theorem Consistent.setEntry (h : s.sys.Held) (hn : s.holder = none) {x : Entry}
    (ha : Agree s.table (Function.update s.entries e x)) : (s.setEntry e x).Consistent :=
  ⟨h,ha,fun e he => by simp [Sockets.setEntry,hn] at he⟩

theorem Consistent.open (h : s.Consistent) (hn : s.holder = none) (type : SocketType) (udp : NetErr) :
    (s.netSocketOpen type udp).1.Consistent := by
  unfold netSocketOpen
  split
  next => exact h
  next e hfree =>
    have hu := findFree_unused hfree
    split
    · exact .setEntry h.held hn (h.agree.setEntry (fun _ => .rfl) (by simp [hu]))
    · exact h
  next e hfree =>
    have hu := findFree_unused hfree
    have hheld : (s.sys.call (.act (.tcpOpen true))).Held := h.held.call _ trivial
    have htab : (s.sys.call (.act (.tcpOpen true))).table = (s.table.tcpAlloc true).1 := rfl
    rcases tcpAlloc_cases none s.table true with ⟨t',he,hm⟩ | ⟨j,x,y,z,k,he,hj,-⟩
    · rw [he] at htab ⊢
      have hs : SameSockets s.table (s.sys.call (.act (.tcpOpen true))).table := by
        rw [htab]
        exact sameSockets_quiet (.moves h.held.inv hm)
      exact .setEntry (s := s.tcp (.act (.tcpOpen true))) hheld hn (h.agree.setEntry hs (by simp [hu]))
    · rw [he] at htab ⊢
      refine .setEntry (s := s.tcp (.act (.tcpOpen true))) hheld hn
        (h.agree.add (i := j) hu ⟨rfl,rfl,rfl⟩ (by simp [Attached,hj]) fun m => ?_)
      rw [table,Sockets.tcp,htab]
      by_cases hmj : m = j
      · simp [Attached,Table.allocated,Pcb.allocated,hmj]
      · simp [Attached,Table.allocated,hmj]

theorem Consistent.acceptCommit (h : s.Consistent) (hn : s.holder = none) (handle : ℤ) (a : Acceptor) :
    (s.netSocketAcceptCommit handle a).1.Consistent := by
  unfold netSocketAcceptCommit
  split
  next => exact h
  next c hc =>
  split
  next => exact h
  next ha =>
  rw [not_not] at ha
  split
  next => exact h.release a
  next =>
  split
  next => exact h.release a
  next e hfree =>
  have hu := findFree_unused hfree
  have hheld : (s.sys.call (.commit a)).Held := h.held.call _ trivial
  rcases acceptCommit_cases h.held.inv a.listener c with ⟨err,hne,he⟩ | ⟨hcom,he⟩
  · have htab : (s.sys.call (.commit a)).table = s.table := by simp [Sys.call,hc,ha,he,hne,table]
    have hs : SameSockets s.table (s.sys.call (.commit a)).table := by
      rw [htab]
      exact fun _ => .rfl
    rw [table,he,if_neg hne]
    exact (h.tcp (.commit a) trivial hs).hold _ (by simp)
  · have htab : (s.sys.call (.commit a)).table = s.table.accepted a.listener c := by
      simp [Sys.call,hc,ha,he,table]
    have hne := h.held.inv.links.ne_of_child hcom.child
    rw [table,he,if_pos rfl]
    refine .setEntry (s := s.tcp (.commit a)) hheld hn (h.agree.add (i := c) hu ⟨rfl,rfl,rfl⟩ ?_ fun m => ?_)
    · rintro ⟨-,hat⟩
      have := (h.held.inv.links.child hcom.child).2.2.2.1
      simp [table] at hat
      simp [hat] at this
    · rw [table,Sockets.tcp,htab]
      by_cases hmc : m = c
      · subst m
        simp [Attached,Table.accepted,Pcb.committed,table,hcom.child.1]
      · by_cases hml : m = a.listener
        · subst m
          simp [Attached,Table.accepted,hmc,Pcb.dequeue]
        · simp [Attached,Table.accepted,hmc,hml]

theorem Consistent.close (h : s.Consistent) (hn : s.holder = none) (handle : ℤ) :
    (s.netSocketClose handle).1.Consistent := by
  unfold netSocketClose
  split
  next => exact h
  next e hfound =>
  have hu := socketFindUsed_used hfound
  simp only
  split
  next htype =>
    split
    · exact h
    · exact .setEntry h.held hn (h.agree.setEntry (fun _ => .rfl) (by simp))
  next htype =>
  split
  next => exact h
  next i hpcb =>
  have hc : (s.tcp (.act (.tcpClose i))).Consistent := h.act _ trivial rfl
  split
  next =>
    split
    · exact .setEntry hc.held hn (hc.agree.setEntry (fun _ => .rfl) (by simp [Sockets.tcp]))
    · exact hc
  next =>
    split
    · refine hc.hold _ fun e' he' => ?_
      obtain rfl : e = e' := by simpa using he'
      refine ⟨hu,?_⟩
      cases ht : (s.entries e).type with
      | udp => exact absurd ht htype
      | tcp => exact ht
    · exact hc

theorem Consistent.udpClosed (h : s.Consistent) (hn : s.holder = none) (e : EntryId) (udp : NetErr) :
    (s.udpClosed e udp).1.Consistent := by
  unfold Sockets.udpClosed
  simp only
  split
  next hx =>
    split
    · exact .setEntry h.held hn (h.agree.setEntry (fun _ => .rfl) (by simp [Entry.invalidate,hx.2.1]))
    · exact .setEntry h.held hn (h.agree.setEntry (fun _ => .rfl) (by simp))
  next => exact h

/-- The block of a socket that was detached is gone. -/
theorem attached_detach (hd : t.Detachable i) (he : t.tcpSocketDetach i =
    (t.modify i fun p => { p with socketAttached := false }).tcpReleaseNow i) (j : Slot) :
    Attached (t.tcpSocketDetach i).1 j ↔ Attached t j ∧ j ≠ i := by
  have hi : (t.modify i fun p => { p with socketAttached := false }).pcbs i = true := hd.1
  rw [he]
  simp only [Table.tcpReleaseNow,hi,hd.2.2,not_true,if_false]
  by_cases hji : j = i
  · simp [Attached,hji]
  · simp [Attached,Table.modify,hji]

theorem Consistent.proceed (h : s.Consistent) : s.proceed.1.Consistent := by
  unfold Sockets.proceed
  split
  next => exact h
  next a err _ => exact (h.release a).hold none (by simp)
  next e hh =>
  obtain ⟨hu,ht⟩ := h.closing e hh
  have h' : Consistent { s with holder := none } := h.hold none (by simp)
  simp only
  split
  next => exact h'
  next i hpcb =>
  have hheld : (s.sys.call (.act (.tcpSocketDetach i))).Held := h.held.call _ trivial
  have htab : (s.sys.call (.act (.tcpSocketDetach i))).table = (s.sys.table.tcpSocketDetach i).1 := rfl
  rcases tcpSocketDetach_cases s.sys.table i with ⟨err,hne,he⟩ | ⟨hd,he,hok⟩
  · have hs : SameSockets s.table (s.sys.call (.act (.tcpSocketDetach i))).table := by
      rw [htab,he]
      exact fun _ => .rfl
    rw [if_neg (by simpa [table,he] using hne)]
    exact h'.tcp (.act (.tcpSocketDetach i)) trivial hs
  · rw [if_pos (by simpa [table] using hok)]
    have ha : Agree (s.sys.call (.act (.tcpSocketDetach i))).table
        (Function.update s.entries e (s.entries e).invalidate) :=
      h.agree.remove (i := i) ⟨hu,ht,hpcb⟩ rfl (attached_detach hd he)
    exact ⟨hheld,ha,by rintro _ ⟨⟩⟩

end Calls

theorem Consistent.call (h : s.Consistent) (c : Call) (hal : s.Allowed c) : (s.call c).1.Consistent := by
  unfold Sockets.call
  split
  next => exact h
  next hlock =>
  have hn : c.locks = true → s.holder = none := fun hl => by simpa [hl] using hlock
  cases c with
  | netSocketOpen type udp => exact h.open (hn rfl) type udp
  | netSocketBind handle netif localIp port udp =>
    simp only [netSocketBind]
    repeat' split
    all_goals first | exact h | exact h.act _ trivial rfl
  | netSocketListen handle backlog =>
    simp only [netSocketListen]
    split
    · exact h
    · exact h.act _ trivial rfl
  | netSocketAcceptPrepare handle =>
    simp only [netSocketAcceptPrepare]
    split
    · exact h
    · exact h.tcp _ trivial (sameSockets_acquire _)
  | tcpAcceptPeek a => exact h.tcp _ trivial (sameSockets_peek h.held a)
  | netSocketAcceptCommit handle a => exact h.acceptCommit (hn rfl) handle a
  | netSocketAcceptAbort a => exact h.release a
  | netSocketClose handle => exact h.close (hn rfl) handle
  | udpClosed e udp => exact h.udpClosed (hn rfl) e udp
  | netSocketConnectStart handle netif dest port =>
    simp only [netSocketConnectStart]
    split
    next => exact h
    next i hi => exact h.act _ (hal i hi) rfl
  | netSocketWaitConnect handle =>
    simp only [netSocketWaitConnect]
    split
    · exact h
    · exact h.enter _ _
  | netSocketSend handle data =>
    simp only [netSocketSend]
    split
    · exact h
    · exact h.act _ trivial rfl
  | netSocketRecv handle size =>
    simp only [netSocketRecv]
    repeat' split
    all_goals first | exact h | exact h.enter _ _
  | netSocketWaitClose handle =>
    simp only [netSocketWaitClose]
    repeat' split
    all_goals first | exact h | exact h.enter _ _
  | netSocketSendto handle udp =>
    simp only [netSocketSendto]
    split <;> exact h
  | netSocketRecvfrom handle size udp =>
    simp only [netSocketRecvfrom]
    repeat' split
    all_goals exact h
  | leave i u => exact h.tcp _ trivial (sameSockets_leave i u)
  | stack a =>
    simp only
    split
    next ha =>
      refine h.act a ?_ ?_
      · cases a <;> first | exact trivial | cases ha
      · cases a <;> first | rfl | cases ha
    next => exact h
  | proceed => exact h.proceed

theorem Consistent.supply (h : s.Consistent) (fates : List NetErr) :
    Consistent { s with sys := s.sys.supply fates } :=
  ⟨h.held.supply fates,⟨h.agree.entry,h.agree.once,h.agree.held⟩,h.closing⟩

theorem Consistent.step (h : s.Consistent) (c : Step) (hal : s.Allowed c.2) : (s.step c).Consistent := by
  refine (h.supply c.1).call c.2 ?_
  obtain ⟨fates,c⟩ := c
  cases c <;> exact hal

theorem Consistent.init : Consistent init := by
  refine ⟨.init,⟨?_,?_,?_⟩,?_⟩ <;> simp [Sockets.init,Entry.Holds,Attached,table,Sys.init,tcpInit]

theorem Consistent.run (h : s.Consistent) {steps : List Step} (hal : AllowedRun s steps) :
    (s.run steps).Consistent := by
  induction steps generalizing s with
  | nil => exact h
  | cons c steps ih => exact ih (h.step c hal.1) hal.2

/-- Acquires, releases and commits clear no slot. -/
theorem call_pcbs {s : Sys} (h : s.Held) (c : Tcp.Call) (hc : ∀ a, c ≠ .act a) :
    (s.call c).table.pcbs = s.table.pcbs := by
  cases c with
  | act a => exact absurd rfl (hc a)
  | acquire l =>
    rcases acceptAcquire_cases s.table l with ⟨e,-,he⟩ | ⟨-,-,he⟩
    · simp [Sys.call,he]
    · simp [Sys.call,he,Table.modify]
  | peek a =>
    simp only [Sys.call]
    split
    next =>
      rcases acceptPeek_cases h.inv a.listener with ⟨r,hr,he⟩ | ⟨c,-,-,he⟩
      · rw [he]
        cases r with
        | child c => exact absurd rfl (hr c)
        | error | wait => rfl
      · rw [he]
        rfl
    next => rfl
  | commit a =>
    simp only [Sys.call]
    split
    next c _ =>
      split
      next =>
        rcases acceptCommit_cases h.inv a.listener c with ⟨e,hne,he⟩ | ⟨-,he⟩
        · simp [he,hne]
        · simp [he,Table.accepted]
      next => rfl
    next => rfl
  | release a =>
    simp only [Sys.call]
    split
    next ha =>
      rw [h.releaseOf_ok ha]
      cases a.child <;> rfl
    next => rfl
  | enter i u =>
    rcases Sys.enter_cases s.table i u with ⟨e,-,he⟩ | ⟨-,he⟩
    · simp [Sys.call,he]
    · simp [Sys.call,he,Table.modify]
  | leave i u =>
    simp only [Sys.call]
    split
    · rw [Sys.leave_eq]
      rfl
    · rfl

/-- A slot is cleared when no acceptor and no waiter refers to it. -/
theorem held_cleared {s : Sys} (h : s.Held) (c : Tcp.Call) (hal : s.Allowed c) (hi : s.table.pcbs i = true)
    (hd : (s.call c).table.pcbs i = false) :
    (∀ a ∈ s.acceptors, a.listener ≠ i ∧ a.child ≠ some i) ∧ ∀ w ∈ s.waiters, w.1 ≠ i := by
  have h' := h.call c hal
  by_cases hc : ∃ a, c = .act a
  · obtain ⟨a,rfl⟩ := hc
    -- afterwards the same acceptors and waiters refer to live blocks
    have hsame : (s.call (.act a)).acceptors = s.acceptors ∧ (s.call (.act a)).waiters = s.waiters := by
      simp only [Sys.call]
      split <;> exact ⟨rfl,rfl⟩
    refine ⟨fun a hm => ⟨?_,fun hac => ?_⟩,fun w hm => ?_⟩
    · rintro rfl
      simpa [hd] using (h'.acceptor a (hsame.1 ▸ hm)).1.1
    · simpa [hd] using ((h'.acceptor a (hsame.1 ▸ hm)).2 i hac).1
    · rintro rfl
      simpa [hd] using h'.waiter w (hsame.2 ▸ hm)
  · rw [call_pcbs h c fun a ha => hc ⟨a,ha⟩,hi] at hd
    cases hd

/-- A step of the socket module is at most one section of the TCP module. -/
theorem call_sys (s : Sockets) (c : Call) (hal : s.Allowed c) :
    (s.call c).1.sys = s.sys ∨ ∃ d, (s.call c).1.sys = s.sys.call d ∧ s.sys.Allowed d := by
  unfold Sockets.call
  split
  next => exact .inl rfl
  next =>
  cases c with
  | netSocketConnectStart handle netif dest port =>
    simp only [netSocketConnectStart]
    split
    next => exact .inl rfl
    next i hi => exact .inr ⟨.act (.tcpConnectStart i netif dest port),rfl,hal i hi⟩
  | stack a =>
    simp only
    split
    next ha =>
      refine .inr ⟨.act a,rfl,?_⟩
      cases a <;> first | exact trivial | cases ha
    next => exact .inl rfl
  | tcpAcceptPeek a => exact .inr ⟨.peek a,rfl,trivial⟩
  | netSocketAcceptAbort a => exact .inr ⟨.release a,rfl,trivial⟩
  | leave i u => exact .inr ⟨.leave i u,rfl,trivial⟩
  | _ =>
    simp only [netSocketOpen,netSocketBind,netSocketListen,netSocketAcceptPrepare,netSocketAcceptCommit,
      netSocketClose,Sockets.udpClosed,netSocketWaitConnect,netSocketSend,netSocketRecv,netSocketWaitClose,netSocketSendto,
      netSocketRecvfrom,Sockets.proceed,Sockets.enter,Sockets.occupy,Sockets.setEntry,Sockets.tcp]
    repeat' split
    all_goals first | exact .inl rfl | (dsimp only; refine .inr ⟨_,rfl,?_⟩; trivial)

/-- A step clears a slot when no acceptor and no waiter refers to it. -/
theorem Consistent.cleared (h : s.Consistent) (c : Step) (hal : s.Allowed c.2) (hi : s.table.pcbs i = true)
    (hd : (s.step c).table.pcbs i = false) :
    (∀ a ∈ s.sys.acceptors, a.listener ≠ i ∧ a.child ≠ some i) ∧ ∀ w ∈ s.sys.waiters, w.1 ≠ i := by
  have hal' : Allowed { s with sys := s.sys.supply c.1 } c.2 := by
    obtain ⟨fates,c⟩ := c
    cases c <;> exact hal
  rcases call_sys _ c.2 hal' with he | ⟨d,he,hd'⟩
  · rw [table,Sockets.step,he] at hd
    exact absurd (hd.symm.trans hi) (by simp)
  · rw [table,Sockets.step,he] at hd
    exact held_cleared (s := s.sys.supply c.1) (h.held.supply c.1) d hd' hi hd

end Sockets

/-- As long as no connection is started on a pinned block, the sockets and the blocks
agree, and a step clears a slot only when nothing refers to it. -/
theorem socket_pcb_tables_agree (steps : List Sockets.Step) (h : Sockets.AllowedRun .init steps)
    (c : Sockets.Step) (hc : (Sockets.init.run steps).Allowed c.2) :
    let s := Sockets.init.run steps
    let s' := s.step c
    (∀ e, (s.entries e).used = true → (s.entries e).type = .tcp →
      ∃ i, (s.entries e).pcb = some i ∧ s.table.pcbs i = true ∧ (s.table.storage i).socketAttached = true) ∧
    (∀ e e' i, (s.entries e).Holds i → (s.entries e').Holds i → e = e') ∧
    (∀ i, s.table.pcbs i = true → (s.table.storage i).socketAttached = true → ∃! e, (s.entries e).Holds i) ∧
    ∀ i, s.table.pcbs i = true → s'.table.pcbs i = false →
      (∀ e, ¬(s'.entries e).Holds i) ∧
      (∀ w ∈ s.sys.waiters, w.1 ≠ i) ∧
      (∀ a ∈ s.sys.acceptors, a.listener ≠ i ∧ a.child ≠ some i) ∧
      ∀ j, s'.table.pcbs j = true →
        (s'.table.storage j).listener ≠ some i ∧ s'.table.detachedListeners j ≠ some i := by
  intro s s'
  have hs : s.Consistent := Sockets.Consistent.init.run h
  have hs' : s'.Consistent := hs.step c hc
  refine ⟨hs.agree.entry,hs.agree.once,fun i hi ha => ?_,fun i hi hd => ?_⟩
  · obtain ⟨e,he⟩ := hs.agree.held i ⟨hi,ha⟩
    exact ⟨e,he,fun e' he' => hs.agree.once e' e i he' he⟩
  · obtain ⟨hacc,hwait⟩ := hs.cleared c hc hi hd
    have hlis : ¬s'.table.Listening i := fun hl => by simpa [hd] using hl.1
    refine ⟨fun e he => ?_,hwait,hacc,fun j hj => ⟨fun hl => ?_,fun hl => ?_⟩⟩
    · obtain ⟨k,hk,hlive,-⟩ := hs'.agree.entry e he.1 he.2.1
      obtain rfl : k = i := Option.some.inj (hk.symm.trans he.2.2)
      simp [hd] at hlive
    · exact hlis (hs'.held.inv.links.child ⟨hj,hl⟩).1
    · exact hlis (hs'.held.inv.links.detached hl)

/-- A server socket: two threads peek the same child, one commits it. -/
def contendedServer : List Sockets.Step :=
  [([],.netSocketOpen .tcp .ok),
   ([],.netSocketBind 256 ⟨1,true,0x0a000001⟩ 0 80 .ok),
   ([],.netSocketListen 256 2),
   ([],.stack (.tcpIn 1 0x0a000002 0x0a000001 (peerBytes 4000 80 7000 0 flagSyn []))),
   ([],.stack (.tcpIn 1 0x0a000002 0x0a000001 (peerBytes 4000 80 7001 1001 flagAck []))),
   ([],.netSocketAcceptPrepare 256),
   ([],.netSocketAcceptPrepare 256),
   ([],.tcpAcceptPeek ⟨0,none⟩),
   ([],.tcpAcceptPeek ⟨0,none⟩),
   ([],.netSocketAcceptCommit 256 ⟨0,some 1⟩)]

/-- The second acceptor gives up, and the accepted socket is closed twice. -/
def closedServer : List Sockets.Step :=
  contendedServer++
    [([],.netSocketAcceptAbort ⟨0,some 1⟩),([],.netSocketClose 257),([],.netSocketClose 257)]

theorem socket_pcb_tables_agree_closed :
    (Sockets.init.run closedServer).table.pcbs 1 = true ∧
      ((Sockets.init.run closedServer).step ([],.proceed)).table.pcbs 1 = false ∧
      ∀ e, ¬(((Sockets.init.run closedServer).step ([],.proceed)).entries e).Holds 1 := by
  have hrun : Sockets.AllowedRun .init closedServer := by
    simp [closedServer,contendedServer,Sockets.AllowedRun,Sockets.Allowed]
  have hi : (Sockets.init.run closedServer).table.pcbs 1 = true := by decide +kernel
  have hd : ((Sockets.init.run closedServer).step ([],.proceed)).table.pcbs 1 = false := by decide +kernel
  have hp : (Sockets.init.run closedServer).Allowed (([],.proceed) : Sockets.Step).2 := by simp [Sockets.Allowed]
  exact ⟨hi,hd,((socket_pcb_tables_agree closedServer hrun ([],.proceed) hp).2.2.2 1 hi hd).1⟩

/-- The accepted child times out, its socket connects again, which forgets the pin of the
second acceptor, and is closed: slot 1 is cleared while that acceptor refers to it. -/
theorem reconnect_clears_pinned_slot :
    let s := Sockets.init.run (contendedServer++
      [([],.netSocketSend 257 [1]),
       ([],.stack (.tcpRetransmitDue 1)),
       ([],.stack (.tcpRetransmitDue 1)),
       ([],.stack (.tcpRetransmitDue 1)),
       ([],.stack (.tcpRetransmitDue 1)),
       ([],.stack (.tcpRetransmitDue 1)),
       ([],.netSocketConnectStart 257 ⟨1,true,0x0a000001⟩ 0x0a000002 90),
       ([],.netSocketClose 257),
       ([],.netSocketClose 257)])
    s.table.pcbs 1 = true ∧ (s.step ([],.proceed)).table.pcbs 1 = false ∧
      (⟨0,some 1⟩ : Acceptor) ∈ s.sys.acceptors ∧ (⟨0,some 1⟩ : Acceptor) ∈ (s.step ([],.proceed)).sys.acceptors := by
  decide +kernel

end Socket
end QuardStarNet
