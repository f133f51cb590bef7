import QuardStarNet.TcpPcb

/-! The table of control blocks: allocation, release, listeners and their children,
and failure of a connection. Every function is one critical section of the table lock. -/
namespace QuardStarNet
namespace Tcp

/-- The static data of `tcp.c`. -/
structure Table where
  storage : Slot → Pcb
  pcbs : Slot → Bool
  detachedListeners : Slot → Option Slot
  releaseTimers : Slot → Bool
  nextEphemeral : Port
  nextIss : BitVec 32
  link : Link

/-- The slots in the order in which the source scans them. -/
def slots : List Slot := [0,1,2,3,4,5,6,7,8,9,10,11]

@[simp] theorem mem_slots (i : Slot) : i ∈ slots := by revert i; decide

def tcpInit : Table where
  storage _ := .zeroed
  pcbs _ := false
  detachedListeners _ := none
  releaseTimers _ := false
  nextEphemeral := 49152#16
  nextIss := 1000#32
  link := ⟨[],[]⟩

namespace Table

variable (t : Table) (i : Slot)

def modify (f : Pcb → Pcb) : Table :=
  { t with storage := Function.update t.storage i (f (t.storage i)) }

def conn : Conn := ⟨t.storage i,t.link⟩

def setConn (c : Conn) : Table :=
  { t with storage := Function.update t.storage i c.pcb, link := c.link }

/-- Run an operation on one block. -/
def onConn (f : Conn → Conn × NetErr) : Table × NetErr :=
  let r := f (t.conn i)
  (t.setConn i r.1,r.2)

def onPcb (f : Pcb → Pcb × NetErr) : Table × NetErr :=
  t.onConn i fun c => let r := f c.pcb; ({ c with pcb := r.1 },r.2)

def tcpListenerHasChildren : Bool :=
  slots.any fun j =>
    t.pcbs j && (t.storage j).listener == some i || t.detachedListeners j == some i

/-- `tcp_alloc_locked`; `none` stands for `NET_ERR_MEM`. -/
def tcpAlloc (socketAttached : Bool) : Table × Option Slot :=
  match slots.find? fun j => !t.pcbs j with
  | none => (t,none)
  | some slot =>
    let connect := t.link.sysSemCreate
    let recv := connect.1.sysSemCreate
    let close := recv.1.sysSemCreate
    let fail (l : Link) : Table × Option Slot := ({ t.modify slot fun _ => .zeroed with link := l },none)
    if connect.2 = none then fail connect.1
    else if recv.2 = none then fail recv.1
    else if close.2 = none then fail close.1
    else
      ({ t with
          storage := Function.update t.storage slot { Pcb.zeroed with
            connectDone := connect.2
            recvDone := recv.2
            closeDone := close.2
            opened := true
            socketAttached := socketAttached }
          pcbs := Function.update t.pcbs slot true
          detachedListeners := Function.update t.detachedListeners slot none
          link := close.1 },some slot)

/-- The test under which `tcp_release_now_locked` clears a slot. -/
def tcpReleasable : Bool :=
  let p := t.storage i
  p.releasePending ∧ ¬p.socketAttached ∧ p.listener = none ∧ p.acceptWaiters = 0 ∧
    p.connectWaiters = 0 ∧ p.recvWaiters = 0 ∧ p.closeWaiters = 0 ∧
    ¬t.tcpListenerHasChildren i ∧ p.acceptPins = 0

/-- A block as `tcp_release_now_locked` leaves it. -/
def released (p : Pcb) : Pcb :=
  { p.tcpClearOutstanding.tcpResetConnection with
    opened := false
    timeWaitTimer := false
    recv := p.recv.clear
    releasePending := false
    connectWaiters := 0
    recvWaiters := 0
    closeWaiters := 0
    acceptDone := none
    closeDone := none
    recvDone := none
    connectDone := none }

def tcpReleaseNow : Table × NetErr :=
  if ¬t.pcbs i then (t,.param)
  else if ¬t.tcpReleasable i then (t,.state)
  else
    ({ t.modify i released with
        releaseTimers := Function.update t.releaseTimers i false
        detachedListeners := Function.update t.detachedListeners i none
        pcbs := Function.update t.pcbs i false },.ok)

def tcpRequestRelease : Table × NetErr :=
  if ¬t.pcbs i then (t,.param)
  else
    let r := netTimerAdd (t.releaseTimers i)
    ({ t.modify i fun p => { p with releasePending := true } with
        releaseTimers := Function.update t.releaseTimers i r.1 },
      if r.2 = .exist then .ok else r.2)

/-- `tcp_listener_remove_queued_locked` on the queue of the listener. -/
def tcpListenerRemoveQueued (q : Ring (Option Slot) 4) (child : Slot) : Ring (Option Slot) 4 :=
  match (List.range q.count).find? fun k => q.cell k = some child with
  | none => q
  | some found => if h : found < q.count then q.removeAt found h else q

/-- The listener's side of the detaching of a child. -/
def dropChild (child : Slot) (q : Pcb) : Pcb :=
  { q with
    acceptQueue := tcpListenerRemoveQueued q.acceptQueue child
    pendingCount := if 0 < q.pendingCount then q.pendingCount-1 else q.pendingCount }

def tcpListenerDetachChild (error : NetErr) : Table :=
  match (t.storage i).listener with
  | none => t
  | some l =>
    if ¬t.pcbs i then t
    else
      let t : Table := t.modify l (dropChild i)
      let t : Table := t.modify i fun p =>
        { p with listener := none, releasePending := true }.tcpTerminate error
      let t : Table := { t with detachedListeners := Function.update t.detachedListeners i (some l) }
      let r := t.tcpRequestRelease i
      if r.2 = .ok then r.1 else (r.1.tcpReleaseNow i).1

def tcpListenerReleaseDetached : Table :=
  slots.foldl (fun t j =>
    if t.pcbs j ∧ t.detachedListeners j = some i then (t.tcpReleaseNow j).1 else t) t

def tcpListenerCleanup : Table :=
  let t := slots.foldl (fun t j =>
    if t.pcbs j ∧ j ≠ i ∧ (t.storage j).listener = some i then t.tcpListenerDetachChild j .state
    else t) t
  t.tcpListenerReleaseDetached i

def tcpFail (error : NetErr) : Table × NetErr :=
  let t := t.modify i fun p => p.tcpTerminate error
  (if (t.storage i).listener ≠ none then t.tcpListenerDetachChild i error else t,error)

def tcpPortInUse (port : Port) : Bool :=
  slots.any fun j => t.pcbs j && (t.storage j).opened && (t.storage j).localPort == port

/-- The loop of `tcp_choose_port`, at most `tries` more passes. -/
def tcpChoosePort (t : Table) : ℕ → Port → Port × Port
  | 0, next => (next,0)
  | tries+1, port =>
    let next := if port+1 < 49152#16 then 49152#16 else port+1
    if port ≠ 0 ∧ ¬t.tcpPortInUse port then (next,port) else tcpChoosePort t tries next

end Table
end Tcp
end QuardStarNet
