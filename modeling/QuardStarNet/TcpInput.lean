import QuardStarNet.TcpApi

/-! Segment arrival, `tcp_in`. -/
namespace QuardStarNet
namespace Tcp

/-- The effect on the block when `tcp_accept_ack` completes the outstanding segment. -/
def Pcb.tcpAcked (p : Pcb) (ack : BitVec 32) : Pcb :=
  { p.tcpClearOutstanding with
    sndUna := ack
    closeRequested := p.closeRequested && p.state != .established
    state := if p.state = .finWait1 then if p.peerFinSeen then .timeWait else .finWait2 else p.state
    peerFinSeen := p.peerFinSeen && p.state != .finWait1 }

/-- The block after the SYN-ACK `s`, before its state changes. -/
def Pcb.synAcked (p : Pcb) (s : Segment) : Pcb :=
  { p with window := s.window, sndUna := s.ack, rcvNxt := s.seq+1 }.tcpClearOutstanding

/-- The child after the final ACK `s` of its handshake. -/
def Pcb.handshaken (p : Pcb) (s : Segment) : Pcb :=
  { p.tcpClearOutstanding with sndUna := s.ack, window := s.window, state := .established }

/-- The listener after `child` was queued. -/
def Pcb.enqueue (q : Pcb) (child : Slot) : Pcb :=
  { q with
    acceptQueue := if h : q.acceptQueue.count < 4 then q.acceptQueue.push (some child) h
      else q.acceptQueue
    acceptDone := sysSemNotify q.acceptDone }

namespace Table

variable (t : Table) (i : Slot) (s : Segment)

def tcpFindPcb (netif : NetifId) (src dest : IpAddr) (srcPort destPort : Port) : Option Slot :=
  slots.find? fun j =>
    let p := t.storage j
    t.pcbs j && p.opened && p.netif == some netif && p.localPort == destPort &&
      p.remotePort == srcPort && p.localIp == dest && p.remoteIp == src

def tcpFindListener (netif : NetifId) (dest : IpAddr) (destPort : Port) : Option Slot :=
  slots.find? fun j =>
    let p := t.storage j
    t.pcbs j && p.opened && !p.releasePending && p.state == .listen && p.netif == some netif &&
      p.localPort == destPort && p.localIp == dest

/-- The child that `tcp_passive_syn` sets up for the listener in slot `i`. -/
def passiveChild (netif : NetifId) (src : IpAddr) (srcPort : Port) (seq : BitVec 32)
    (window : BitVec 16) (p : Pcb) : Pcb :=
  { p with
    listener := some i
    passive := true
    netif := some netif
    localIp := (t.storage i).localIp
    remoteIp := src
    localPort := (t.storage i).localPort
    remotePort := srcPort
    iss := t.nextIss
    sndUna := t.nextIss
    sndNxt := t.nextIss+1
    rcvNxt := seq+1
    window := window
    state := .synReceived }

/-- Send the SYN-ACK of a new child. -/
def synAckStart (c : Conn) : Conn × NetErr :=
  let r := c.tcpMakeSegment c.pcb.iss c.pcb.rcvNxt (flagSyn ||| flagAck) []
  match r.2 with
  | none => (r.1,.mem)
  | some synAck => r.1.tcpStartOutstanding synAck r.1.pcb.sndNxt

/-- `tcp_passive_syn` on the listener in slot `i`. -/
def tcpPassiveSyn (netif : NetifId) (src : IpAddr) (srcPort : Port) (seq : BitVec 32)
    (window : BitVec 16) : Table × NetErr :=
  let q := t.storage i
  if q.releasePending ∨ q.backlog ≤ q.pendingCount then (t,.full)
  else
    let r := t.tcpAlloc false
    match r.2 with
    | none => (r.1,.mem)
    | some child =>
      let t : Table := { r.1.modify child (t.passiveChild i netif src srcPort seq window) with
        nextIss := t.nextIss+64000#32 }
      let t := t.modify i fun q => { q with pendingCount := q.pendingCount+1 }
      onErr (t.onConn child synAckStart) fun t err => (t.tcpListenerDetachChild child err,err)

def tcpAcceptAck (ack : BitVec 32) : Table × NetErr :=
  let p := t.storage i
  if (ack-p.sndUna).toInt < 0 ∨ 0 < (ack-p.sndNxt).toInt then (t,.state)
  else if p.outstanding ≠ none ∧ ack = p.outstandingEnd then
    let startFin := p.closeRequested ∧ p.state = .established
    let t := t.modify i fun p => p.tcpAcked ack
    if startFin then onErr (t.onConn i Conn.tcpStartLocalFin) fun t err => t.tcpFail i err
    else (t,.ok)
  else (t,.ok)

/-- `tcp_in` in TIME_WAIT: answer a repeated FIN and restart the timer. -/
def tcpInTimeWait : Table × NetErr :=
  let finSeq := s.seq+BitVec.ofNat 32 s.payload.length
  let rcvNxt := (t.storage i).rcvNxt
  if ¬s.has flagFin ∨ ¬s.has flagAck ∨ s.has flagSyn ∨ finSeq ≠ rcvNxt ∧ finSeq+1 ≠ rcvNxt then
    (t,.state)
  else
    onOk (t.tcpAcceptAck i s.ack) fun t =>
    onOk (t.onConn i Conn.tcpSendAck) fun t =>
    onErr (t.onPcb i fun p =>
        let r := netTimerAdd false
        ({ p with timeWaitTimer := r.1 },r.2))
      fun t err => t.tcpFail i err

/-- `tcp_state_accept_ack` -/
def tcpStateAcceptAck (state : TcpState) (ack expected : BitVec 32) : NetErr :=
  if state ≠ .synSent ∨ ack ≠ expected+1 then .state else .ok

def tcpInSynSent : Table × NetErr :=
  let p := t.storage i
  if s.total ≠ s.headerSize then (t,.format)
  else if s.flags ≠ flagSyn ||| flagAck ∨ tcpStateAcceptAck p.state s.ack p.iss ≠ .ok then (t,.state)
  else
    let t := t.modify i fun p => p.synAcked s
    onOk (onErr (t.onConn i Conn.tcpSendAck) fun t err => t.tcpFail i err) fun t =>
      (t.modify i fun p => { p with
        state := .established
        connectDone := sysSemNotifyTimes p.connectDone (Pcb.tokens p.connectWaiters) },.ok)

/-- The final ACK of a passive open: the child becomes ESTABLISHED and is queued. -/
def tcpInEstablish : Table × NetErr :=
  let t := t.modify i fun p => p.handshaken s
  match (t.storage i).listener with
  | none => t.tcpFail i .state
  | some l =>
    let q := t.storage l
    if q.acceptQueue.count < 4 ∧ ¬q.releasePending then
      (t.modify l fun q => q.enqueue i,.ok)
    else t.tcpFail i .state

def tcpInSynReceived : Table × NetErr :=
  let p := t.storage i
  if s.total ≠ s.headerSize then (t,.format)
  else if s.flags = flagSyn ∧ s.seq+1 = p.rcvNxt ∧ s.ack = 0 then
    onErr (t.onConn i Conn.tcpOutputOwned) fun t err => t.tcpFail i err
  else if s.flags ≠ flagAck ∨ s.seq ≠ p.rcvNxt ∨ s.ack ≠ p.iss+1 then (t,.state)
  else t.tcpInEstablish i s

/-- In-order data is queued; any data is acknowledged. -/
def tcpInData : Table × NetErr :=
  let size := s.payload.length
  onOk (if 0 < size ∧ s.seq = (t.storage i).rcvNxt then
      onOk (t.onPcb i fun p => p.tcpQueueData s.payload) fun t =>
        (t.modify i fun p => { p with rcvNxt := p.rcvNxt+BitVec.ofNat 32 size },.ok)
    else (t,.ok)) fun t =>
  if 0 < size then t.onConn i Conn.tcpSendAck else (t,.ok)

/-- After an in-order FIN was acknowledged in state `finState`. -/
def tcpInPeerFin (finState : TcpState) : Table × NetErr :=
  match finState with
  | .finWait2 =>
    let t := t.modify i fun p => { p with state := .timeWait, peerFinSeen := false }
    onErr (t.onPcb i Pcb.tcpArmTimeWait) fun t err => t.tcpFail i err
  | .established =>
    if (t.storage i).listener ≠ none then (t.tcpListenerDetachChild i .state,.ok)
    else
      let deferFin := (t.storage i).outstanding ≠ none
      let t := t.modify i fun p => { p with
        peerFinSeen := true
        closeRequested := if p.outstanding ≠ none then true else p.closeRequested }
      if deferFin then (t,.ok)
      else onErr (t.onConn i Conn.tcpStartLocalFin) fun t err => t.tcpFail i err
  | .finWait1 => (t.modify i fun p => { p with peerFinSeen := true },.ok)
  | _ => (t,.ok)

def tcpInFin : Table × NetErr :=
  let p := t.storage i
  if s.seq+BitVec.ofNat 32 s.payload.length = p.rcvNxt then
    let t := t.modify i fun p => { p with rcvNxt := p.rcvNxt+1 }
    onOk (onErr (t.onConn i Conn.tcpSendAck) fun t err => t.tcpFail i err) fun t =>
      t.tcpInPeerFin i p.state
  else if s.payload.length = 0 then t.onConn i Conn.tcpSendAck
  else (t,.ok)

/-- `tcp_in` in ESTABLISHED, FIN_WAIT_1 and FIN_WAIT_2. -/
def tcpInStream : Table × NetErr :=
  if ¬s.has flagAck ∨ s.has flagSyn then (t,.state)
  else
    onOk (t.tcpAcceptAck i s.ack) fun t =>
    if (t.storage i).state = .timeWait then
      onErr (t.onPcb i Pcb.tcpArmTimeWait) fun t err => t.tcpFail i err
    else
      let t := t.modify i fun p => { p with window := s.window }
      onOk (t.tcpInData i s) fun t =>
      if s.has flagFin then t.tcpInFin i s else (t,.ok)

/-- `tcp_in` for a block found by its four-tuple. -/
def tcpInPcb : Table × NetErr :=
  match (t.storage i).state with
  | .timeWait => t.tcpInTimeWait i s
  | .synSent => t.tcpInSynSent i s
  | .synReceived => t.tcpInSynReceived i s
  | .established | .finWait1 | .finWait2 => t.tcpInStream i s
  | .closed | .listen => (t,.state)

/-- `tcp_in` after the checks on the segment alone. -/
def tcpInSegment (netif : NetifId) (src dest : IpAddr) : Table × NetErr :=
  match t.tcpFindPcb netif src dest s.srcPort s.destPort with
  | some i => t.tcpInPcb i s
  | none =>
    match t.tcpFindListener netif dest s.destPort with
    | none => (t,.unreach)
    | some l =>
      if s.total ≠ s.headerSize ∨ s.flags ≠ flagSyn then (t,.state)
      else t.tcpPassiveSyn l netif src s.srcPort s.seq s.window

end Table

/-- The checks of `tcp_in` that do not look at the table. -/
def tcpInCheck (s : Segment) (src dest : IpAddr) : NetErr :=
  if tcpHeaderCheck s ≠ .ok then tcpHeaderCheck s
  else if s.flags &&& ~~~(flagFin ||| flagSyn ||| flagPsh ||| flagAck) ≠ 0 then .notSupport
  else if tcpChecksum s.bytes src dest (s.total % 65536) ≠ 0 then .chksum
  else .ok

def Table.tcpIn (t : Table) (netif : NetifId) (src dest : IpAddr) (buf : List Byte) :
    Table × NetErr :=
  match Segment.ofBytes buf with
  | none => (t,.size)
  | some s =>
    if tcpInCheck s src dest ≠ .ok then (t,tcpInCheck s src dest)
    else t.tcpInSegment s netif src dest

end Tcp
end QuardStarNet
