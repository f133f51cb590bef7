import QuardStarNet.TcpTable

/-! The calls that sockets make on a control block, and the timer callbacks. A call that
can block is given as its lock sections. -/
namespace QuardStarNet
namespace Tcp
/-- The child that `tcp_accept_commit_acquired` hands to a socket. -/
def Pcb.committed (p : Pcb) : Pcb :=
  { p with acceptPins := p.acceptPins-1, socketAttached := true, accepted := true, listener := none }

/-- The listener after the child at the head of its queue was accepted. -/
def Pcb.dequeue (q : Pcb) : Pcb :=
  { q with
    acceptQueue := if h : 0 < q.acceptQueue.count then q.acceptQueue.pop h else q.acceptQueue
    pendingCount := q.pendingCount-1
    acceptWaiters := q.acceptWaiters-1 }

/-- The listener after `tcp_listen`. -/
def Pcb.listening (p : Pcb) (backlog : ℤ) (acceptDone : Sem) : Pcb :=
  { p with
    acceptDone := acceptDone
    acceptQueue := .zeroed acceptQueue_pos
    pendingCount := 0
    backlog := backlog
    acceptWaiters := 0
    state := .listen }

namespace Table

variable (t : Table) (i : Slot)

def tcpBind (netif : Netif) (localIp : IpAddr) (port : Port) : Table × NetErr :=
  if port = 0 then (t,.param)
  else if ¬t.pcbs i ∨ ¬netif.active then (t,.state)
  else if localIp ≠ 0 ∧ localIp ≠ netif.ipaddr then (t,.param)
  else
    let p := t.storage i
    if ¬(p.opened ∧ ¬p.releasePending ∧ p.state = .closed ∧ p.netif = none ∧ p.localPort = 0) then
      (t,.state)
    else if slots.any fun j => t.pcbs j && j != i && (t.storage j).opened &&
        (t.storage j).localPort == port && (t.storage j).localIp == netif.ipaddr then
      (t,.exist)
    else
      (t.modify i fun p => { p with
        netif := some netif.id, localIp := netif.ipaddr, localPort := port, bound := true },.ok)

/-- `TCP_ACCEPT_MAX` -/
def acceptMax : ℤ := 4

def tcpListen (backlog : ℤ) : Table × NetErr :=
  if backlog < 1 ∨ acceptMax < backlog then (t,.param)
  else if ¬t.pcbs i then (t,.state)
  else
    let p := t.storage i
    if ¬(p.opened ∧ ¬p.releasePending ∧ p.state = .closed ∧ p.netif ≠ none ∧ p.localPort ≠ 0 ∧
        p.bound) then
      (t,.state)
    else if slots.any fun j => t.pcbs j && j != i && (t.storage j).opened &&
        (t.storage j).state == .listen then
      (t,.exist)
    else
      let r := t.link.sysSemCreate
      let t : Table := { t with link := r.1 }
      if r.2 = none then (t,.mem)
      else
        (t.modify i fun p => p.listening backlog r.2,.ok)

def tcpAcceptAcquire : Table × NetErr :=
  if ¬t.pcbs i then (t,.param)
  else
    let p := t.storage i
    if ¬p.opened ∨ p.releasePending ∨ p.state ≠ .listen then (t,.state)
    else (t.modify i fun p => { p with acceptWaiters := p.acceptWaiters+1 },.ok)

/-- What one pass of the loop of `tcp_accept_peek_acquired` does: return an error, return
a child, or go on to wait for `accept_done`. -/
inductive Peek
  | error (e : NetErr) | child (c : Slot) | wait
  deriving DecidableEq

def tcpAcceptPeek : Table × Peek :=
  let q := t.storage i
  if ¬q.opened ∨ q.state ≠ .listen ∨ q.releasePending then (t,.error .state)
  else if q.acceptWaiters ≤ 0 then (t,.error .state)
  else if q.acceptQueue.count = 0 then (t,.wait)
  else
    match q.acceptQueue.cell 0 with
    | none => (t,.error .state)
    | some head =>
      let p := t.storage head
      if ¬p.opened ∨ p.releasePending ∨ p.listener ≠ some i ∨ p.state ≠ .established then
        (t,.error .state)
      else (t.modify head fun p => { p with acceptPins := p.acceptPins+1 },.child head)

def tcpAcceptCommitAcquired (child : Slot) : Table × NetErr :=
  if ¬t.pcbs i then (t,.param)
  else
    let q := t.storage i
    let p := t.storage child
    if q.opened ∧ ¬q.releasePending ∧ q.state = .listen ∧ 0 < q.acceptWaiters ∧
        0 < q.acceptQueue.count ∧ q.acceptQueue.cell 0 = some child ∧ t.pcbs child ∧
        p.opened ∧ ¬p.releasePending ∧ p.listener = some i ∧ ¬p.socketAttached ∧
        p.state = .established ∧ 0 < p.acceptPins then
      let t : Table := t.modify child Pcb.committed
      let t : Table := { t with
        detachedListeners := Function.update t.detachedListeners child
          (if 0 < (t.storage child).acceptPins then some i else none) }
      (t.modify i Pcb.dequeue,.ok)
    else (t,.state)

/-- The end of both releases: give the reservation back and wake another acceptor. -/
def acceptLeave : Table :=
  t.modify i fun q => { q with
    acceptWaiters := q.acceptWaiters-1
    acceptDone := if q.acceptQueue.count ≠ 0 ∧ ¬q.releasePending then sysSemNotify q.acceptDone
      else q.acceptDone }

def tcpAcceptReleaseAcquired : Table × NetErr :=
  if ¬t.pcbs i then (t,.param)
  else
    let q := t.storage i
    if ¬q.opened ∨ q.acceptWaiters ≤ 0 ∨ q.state ≠ .listen then (t,.state)
    else (t.acceptLeave i,.ok)

def tcpAcceptReleaseChildAcquired (child : Slot) : Table × NetErr :=
  if ¬t.pcbs i ∨ ¬t.pcbs child then (t,.param)
  else
    let q := t.storage i
    if ¬q.opened ∨ q.acceptWaiters ≤ 0 ∨ q.state ≠ .listen then (t,.state)
    else
      let p := t.storage child
      let associated := p.listener = some i ∨ t.detachedListeners child = some i
      if ¬p.opened ∨ ¬associated ∨ p.acceptPins ≤ 0 then (t,.state)
      else
        let t : Table := { t.modify child fun p => { p with acceptPins := p.acceptPins-1 } with
          detachedListeners :=
            if p.acceptPins-1 = 0 ∧ p.socketAttached then Function.update t.detachedListeners child none
            else t.detachedListeners }
        (t.acceptLeave i,.ok)

/-- Start the SYN of a block that `tcp_connect_start` has filled in. -/
def connectSyn (c : Conn) : Conn × NetErr :=
  let reset (c : Conn) (err : NetErr) : Conn × NetErr := ({ c with pcb := c.pcb.tcpResetConnection },err)
  let r := c.tcpMakeSegment c.pcb.iss 0 flagSyn []
  match r.2 with
  | none => reset r.1 .mem
  | some syn =>
    onOk (onErr (r.1.tcpStartOutstanding syn r.1.pcb.sndNxt) reset) fun c =>
      ({ c with pcb := { c.pcb with state := .synSent } },.ok)

/-- The block that `tcp_connect_start` sets up. -/
def connecting (netif : Netif) (remote : IpAddr) (localPort remotePort : Port) (p : Pcb) : Pcb :=
  { p.tcpResetConnection with
    connectDone := tcpDrainSem p.connectDone
    recvDone := tcpDrainSem p.recvDone
    closeDone := tcpDrainSem p.closeDone
    recv := p.recv.clear
    error := .ok
    terminalNotified := false
    netif := some netif.id
    localIp := netif.ipaddr
    remoteIp := remote
    localPort := localPort
    remotePort := remotePort
    iss := t.nextIss
    sndUna := t.nextIss
    sndNxt := t.nextIss+1 }

def tcpConnectStart (netif : Netif) (remote : IpAddr) (remotePort : Port) : Table × NetErr :=
  if remotePort = 0 then (t,.param)
  else if ¬t.pcbs i then (t,.state)
  else
    let p := t.storage i
    if ¬p.opened ∨ p.releasePending ∨ p.connectWaiters ≠ 0 ∨ p.recvWaiters ≠ 0 ∨
        p.closeWaiters ≠ 0 ∨ p.state ≠ .closed ∨ p.bound ∨ p.outstanding ≠ none then
      (t,.state)
    else if ¬netif.active then (t,.state)
    else
      let r := t.tcpChoosePort 16384 t.nextEphemeral
      let t : Table := { t with nextEphemeral := r.1 }
      if r.2 = 0 then (t,.full)
      else
        let t : Table := { t.modify i (t.connecting netif remote r.2 remotePort) with
          nextIss := t.nextIss+64000#32 }
        t.onConn i connectSyn

def tcpSendStart (data : List Byte) : Table × NetErr :=
  if data.length = 0 ∨ mss < data.length then (t,.param)
  else if ¬t.pcbs i then (t,.state)
  else t.onConn i fun c => c.tcpSendData data

def tcpWaitAcquire (w : Pcb.Wait) : Table × NetErr :=
  if ¬t.pcbs i then (t,.param)
  else t.onPcb i fun p => p.tcpWaitCompletionAcquire w

def tcpRecvAcquire : Table × NetErr :=
  if ¬t.pcbs i then (t,.param) else t.onPcb i Pcb.tcpRecvAcquire

/-- `tcp_recv_bytes` in a run where nobody else acts; `none` is a call that never returns. -/
def tcpRecvBytes (size : ℕ) (timeoutMs : ℤ) : Option (Table × (NetErr ⊕ List Byte)) :=
  if size = 0 then some (t,.inl .param)
  else
    let r := t.tcpRecvAcquire i
    if r.2 ≠ .ok then some (r.1,.inl r.2)
    else
      match (r.1.storage i).tcpRecvBytesAcquired size timeoutMs with
      | none => none
      | some x => some (r.1.modify i fun _ => x.1,x.2)

def tcpRetransmitDue : Table × NetErr :=
  if ¬t.pcbs i then (t,.state)
  else if ¬((t.storage i).opened ∧ (t.storage i).outstanding ≠ none) then (t,.state)
  else
    let t := t.modify i fun p => { p with retransTimer := false }
    onOk (onErr (t.onConn i Conn.tcpOutputOwned) fun t err => t.tcpFail i err) fun t =>
      let t := t.modify i fun p => { p with retryCount := p.retryCount+1 }
      if retryMax ≤ (t.storage i).retryCount then t.tcpFail i .tmo
      else onErr (t.onPcb i Pcb.tcpArmTimer) fun t err => t.tcpFail i err

/-- `tcp_time_wait_proc`; its one-shot timer has left the timer list. -/
def tcpTimeWaitProc : Table :=
  let p := t.storage i
  if p.opened ∧ p.state = .timeWait ∧ ¬p.releasePending then
    let t := t.modify i fun p => { p with
      timeWaitTimer := false
      state := .closed
      error := .ok
      closeDone := sysSemNotifyTimes p.closeDone (Pcb.tokens p.closeWaiters) }
    (t.tcpRequestRelease i).1
  else t.modify i fun p => { p with timeWaitTimer := false }

/-- `tcp_release_proc`; its reloading timer stays armed unless the flags are cleared. -/
def tcpReleaseProc : Table :=
  if ¬t.pcbs i then { t with releaseTimers := Function.update t.releaseTimers i false }
  else
    let p := t.storage i
    let cleanListener : Bool :=
      p.opened ∧ p.releasePending ∧ p.state = .listen ∧ p.acceptWaiters = 0
    let t := if cleanListener then t.tcpListenerCleanup i else t
    let children := cleanListener && t.tcpListenerHasChildren i
    let p := t.storage i
    if p.opened ∧ p.releasePending ∧ ¬p.socketAttached ∧ p.listener = none ∧ p.acceptWaiters = 0 ∧
        p.connectWaiters = 0 ∧ p.recvWaiters = 0 ∧ p.closeWaiters = 0 ∧ ¬children ∧
        p.acceptPins = 0 then
      (tcpReleaseNow { t with releaseTimers := Function.update t.releaseTimers i false } i).1
    else t

def tcpSocketDetach : Table × NetErr :=
  if ¬t.pcbs i then (t,.param)
  else
    let p := t.storage i
    if ¬(p.opened ∧ p.socketAttached ∧ p.releasePending ∧ p.listener = none ∧ p.acceptWaiters = 0 ∧
        p.acceptPins = 0 ∧ p.connectWaiters = 0 ∧ p.recvWaiters = 0 ∧ p.closeWaiters = 0 ∧
        ¬t.tcpListenerHasChildren i) then
      (t,.state)
    else (t.modify i fun p => { p with socketAttached := false }).tcpReleaseNow i

def tcpAbortAndRelease : Table × NetErr :=
  (t.modify i fun p => p.tcpTerminate .state).tcpRequestRelease i

/-- `tcp_close` on a listener that was not closed before. -/
def closeListener : Table × NetErr :=
  let p := t.storage i
  let t := t.modify i fun p => { p with
    closeRequested := true
    releasePending := true
    acceptDone := sysSemNotifyTimes p.acceptDone p.acceptWaiters.toNat
    closeDone := sysSemNotifyTimes p.closeDone p.closeWaiters.toNat }
  let t := if p.acceptWaiters = 0 then t.tcpListenerCleanup i else t
  t.tcpRequestRelease i

/-- `tcp_close` on a block whose release is already pending. -/
def closePending : Table × NetErr :=
  let p := t.storage i
  let releasable : Bool :=
    p.connectWaiters = 0 ∧ p.recvWaiters = 0 ∧ p.closeWaiters = 0 ∧ p.acceptWaiters = 0 ∧
      p.listener = none ∧ p.acceptPins = 0 ∧ ¬p.socketAttached
  let t := if p.state = .listen ∧ p.acceptWaiters = 0 then t.tcpListenerCleanup i else t
  if releasable then t.tcpReleaseNow i else (t,.ok)

def tcpClose : Table × NetErr :=
  if ¬t.pcbs i then (t,.param)
  else
    let p := t.storage i
    if ¬p.opened then (t,.param)
    else if p.listener ≠ none then (t.tcpListenerDetachChild i .state,.ok)
    else if p.releasePending then t.closePending i
    else
      match p.state with
      | .timeWait => (t,.ok)
      | .listen => t.closeListener i
      | .closed | .synSent | .synReceived | .finWait1 | .finWait2 => t.tcpAbortAndRelease i
      | .established =>
        if p.outstanding ≠ none then
          (t.modify i fun p => { p with closeRequested := true },.ok)
        else t.onConn i Conn.tcpSendFin

end Table
end Tcp
end QuardStarNet
