import QuardStarNet.NetStack

/-! TCP with its packet buffers. The control blocks move as in the table of the segment model;
here each segment is a buffer, made, cloned, kept in `outstanding` and handed to `ipv4_out`. -/
namespace QuardStarNet
namespace NetStack

open Pktbuf Tcp

variable (s : NetStack) (i : Slot)

/-- The part of `tcp_clear_outstanding` that frees the segment of a block. -/
def freeCleared (j : Slot) : NetStack :=
  match (s.tcp.storage j).outstanding, s.outstanding j with
  | none, some b => { s.pktbufFree b with outstanding := Function.update s.outstanding j none }
  | _, _ => s

/-- Run an operation that sends nothing: the segments that it clears are freed. -/
def tcpOn (f : Table → Table × NetErr) : NetStack × NetErr :=
  let r := f s.tcp
  (slots.foldl freeCleared { s with tcp := r.1 },r.2)

def tcpDo (f : Table → Table) : NetStack := (s.tcpOn fun t => (f t,.ok)).1

/-- Run an operation that creates semaphores; the outcomes are those of the layers below. -/
def tcpCreate {α : Type} (f : Table → Table × α) : NetStack × α :=
  let r := f { s.tcp with link := ⟨s.link.fates,[]⟩ }
  (({ s with tcp := { r.1 with link := s.tcp.link } }).setLink { s.link with fates := r.1.link.fates },
    r.2)

/-- `tcp_alloc_locked`, which fills the block of the first free slot with zeros. -/
def tcpAlloc (socketAttached : Bool) : NetStack × Option Slot :=
  let r := s.tcpCreate fun t => t.tcpAlloc socketAttached
  match slots.find? fun j => !s.tcp.pcbs j with
  | none => r
  | some j => ({ r.1 with outstanding := Function.update r.1.outstanding j none },r.2)

/-- `ipv4_out` to the peer of a block; the interface of the block may be null. -/
def tcpIpv4Out (b : BufId) : NetStack × NetErr :=
  match (s.tcp.storage i).netif with
  | none => (s.pktbufFree b,.param)
  | some n => s.ipv4Out n b (s.tcp.storage i).remoteIp netProtocolTcp

/-- `tcp_clone`. -/
def tcpClone (source : BufId) : NetStack × Option BufId :=
  let size := s.link.pktbufTotal source
  match s.onLink fun w => w.pktbufAlloc size with
  | (s,none) => (s,none)
  | (s,some copy) =>
    match ((s.link.pktbufResetAcc source).pktbufResetAcc copy).pktbufCopy copy source size with
    | (w,.ok) => (s.setLink ((w.pktbufResetAcc source).pktbufResetAcc copy),some copy)
    | (w,_) => (s.setLink ((w.pktbufFree copy).pktbufResetAcc source),none)

/-- `tcp_output_owned`. -/
def tcpOutputOwned : NetStack × NetErr :=
  match s.outstanding i with
  | none => (s,.mem)
  | some segment =>
    match s.tcpClone segment with
    | (s,none) => (s,.mem)
    | (s,some copy) => s.tcpIpv4Out i copy

/-- `tcp_make_segment`. -/
def tcpMakeSegment (seq ack : BitVec 32) (flags : Byte) (data : List Byte) :
    NetStack × Option BufId :=
  match s.onLink fun w => w.pktbufAlloc (headerMin+data.length) with
  | (s,none) => (s,none)
  | (s,some b) =>
    let p := s.tcp.storage i
    let segment := Conn.segment p seq ack flags data
    let w := s.link.pktbufStore b 0 (segment.front++[0,0]++NetBytes.be16 segment.urgent)
    match writeBehind w b headerMin data with
    | (w,.ok) =>
      let r := transportChecksum w b p.localIp p.remoteIp netProtocolTcp
        (BitVec.ofNat 16 (headerMin+data.length))
      let w := r.1.pktbufStore b 16 (NetBytes.be16 (sentChecksum r.2))
      (s.setLink (w.pktbufResetAcc b),some b)
    | (w,_) => ((s.setLink w).pktbufFree b,none)

/-- `tcp_send_ack`. -/
def tcpSendAck : NetStack × NetErr :=
  let p := s.tcp.storage i
  match s.tcpMakeSegment i p.sndNxt p.rcvNxt flagAck [] with
  | (s,none) => (s,.mem)
  | (s,some ack) => s.tcpIpv4Out i ack

/-- `tcp_start_outstanding` with the buffer `b` that holds `segment`. -/
def tcpStartOutstanding (b : BufId) (segment : Segment) (last : BitVec 32) : NetStack × NetErr :=
  let s := { s with
    tcp := s.tcp.modify i fun p => p.setOutstanding segment last
    outstanding := Function.update s.outstanding i (some b) }
  onErr (onOk (s.tcpOutputOwned i) fun s => s.tcpOn fun t => t.onPcb i Pcb.tcpArmTimer)
    fun s err => (s.tcpDo fun t => t.modify i Pcb.tcpClearOutstanding,err)

/-- Make a segment and start it. -/
def tcpStart (seq ack : BitVec 32) (flags : Byte) (data : List Byte) (last : BitVec 32) :
    NetStack × NetErr :=
  match s.tcpMakeSegment i seq ack flags data with
  | (t,none) => (t,.mem)
  | (t,some b) => t.tcpStartOutstanding i b (Conn.segment (s.tcp.storage i) seq ack flags data) last

/-- Start a segment at `snd_nxt`; when it is on its way the block goes on to `after`. -/
def tcpSendOwned (ack : BitVec 32) (flags : Byte) (data : List Byte) (last : BitVec 32)
    (after : Pcb → Pcb) : NetStack × NetErr :=
  onOk (s.tcpStart i (s.tcp.storage i).sndNxt ack flags data last) fun s =>
    (s.tcpDo fun t => t.modify i fun p => after { p with sndNxt := last },.ok)

def tcpSendFin : NetStack × NetErr :=
  let p := s.tcp.storage i
  s.tcpSendOwned i p.rcvNxt (flagFin ||| flagAck) [] (p.sndNxt+1) fun p => { p with state := .finWait1 }

/-- `tcp_start_local_fin`. -/
def tcpStartLocalFin : NetStack × NetErr :=
  let p := s.tcp.storage i
  if ¬p.opened ∨ p.outstanding ≠ none ∨ p.state ≠ .established then (s,.state) else s.tcpSendFin i

/-- `tcp_fail`. -/
def tcpFail (error : NetErr) : NetStack × NetErr := s.tcpOn fun t => t.tcpFail i error

/-! Calls of sockets and timers. -/

/-- `tcp_send_start`. -/
def tcpSendStart (data : List Byte) : NetStack × NetErr :=
  let p := s.tcp.storage i
  if data.length = 0 ∨ mss < data.length then (s,.param)
  else if ¬s.tcp.pcbs i then (s,.state)
  else if ¬(p.opened ∧ p.state = .established) then (s,.state)
  else if p.outstanding ≠ none then (s,.full)
  else if p.window = 0 ∨ p.window.toNat < data.length % 65536 then (s,.full)
  else
    s.tcpSendOwned i p.rcvNxt (flagPsh ||| flagAck) data (p.sndNxt+BitVec.ofNat 32 data.length) id

/-- `tcp_connect_start` once the block is filled in. -/
def connectSyn : NetStack × NetErr :=
  let p := s.tcp.storage i
  onOk (onErr (s.tcpStart i p.iss 0 flagSyn [] p.sndNxt) fun s err =>
      (s.tcpDo fun t => t.modify i Pcb.tcpResetConnection,err)) fun s =>
    (s.tcpDo fun t => t.modify i fun p => { p with state := .synSent },.ok)

/-- `tcp_connect_start`. -/
def tcpConnectStart (netif : Netif) (remote : IpAddr) (remotePort : Port) : NetStack × NetErr :=
  let t := s.tcp
  if remotePort = 0 then (s,.param)
  else if ¬t.pcbs i then (s,.state)
  else
    let p := t.storage i
    if ¬p.opened ∨ p.releasePending ∨ p.connectWaiters ≠ 0 ∨ p.recvWaiters ≠ 0 ∨
        p.closeWaiters ≠ 0 ∨ p.state ≠ .closed ∨ p.bound ∨ p.outstanding ≠ none then
      (s,.state)
    else if ¬netif.active then (s,.state)
    else
      let r := t.tcpChoosePort 16384 t.nextEphemeral
      let t : Table := { t with nextEphemeral := r.1 }
      if r.2 = 0 then (s.tcpDo fun _ => t,.full)
      else
        (s.tcpDo fun _ => { t.modify i (t.connecting netif remote r.2 remotePort) with
          nextIss := t.nextIss+64000#32 }).connectSyn i

/-- `tcp_close`. -/
def tcpClose : NetStack × NetErr :=
  let p := s.tcp.storage i
  if s.tcp.pcbs i ∧ p.opened ∧ p.listener = none ∧ ¬p.releasePending ∧ p.state = .established ∧
      p.outstanding = none then
    s.tcpSendFin i
  else s.tcpOn fun t => t.tcpClose i

/-- `tcp_retransmit_due`. -/
def tcpRetransmitDue : NetStack × NetErr :=
  if ¬s.tcp.pcbs i then (s,.state)
  else if ¬((s.tcp.storage i).opened ∧ (s.tcp.storage i).outstanding ≠ none) then (s,.state)
  else
    let s := s.tcpDo fun t => t.modify i fun p => { p with retransTimer := false }
    onOk (onErr (s.tcpOutputOwned i) fun s err => s.tcpFail i err) fun s =>
      let s := s.tcpDo fun t => t.modify i fun p => { p with retryCount := p.retryCount+1 }
      if retryMax ≤ (s.tcp.storage i).retryCount then s.tcpFail i .tmo
      else onErr (s.tcpOn fun t => t.onPcb i Pcb.tcpArmTimer) fun s err => s.tcpFail i err

/-- One call of a socket or of a timer. -/
def tcpAct : Action → NetStack
  | .tcpOpen a => (s.tcpAlloc a).1
  | .tcpListen i backlog => (s.tcpCreate fun t => t.tcpListen i backlog).1
  | .tcpConnectStart i netif remote remotePort => (s.tcpConnectStart i netif remote remotePort).1
  | .tcpSendStart i data => (s.tcpSendStart i data).1
  | .tcpClose i => (s.tcpClose i).1
  | .tcpRetransmitDue i => (s.tcpRetransmitDue i).1
  -- segments come in through the interfaces
  | .tcpIn .. => s
  | a => s.tcpDo fun t => t.act a

/-! Segment arrival. -/

/-- `tcp_passive_syn` on the listener in slot `i`. -/
def tcpPassiveSyn (n : NetifId) (src : IpAddr) (srcPort : Port) (seq : BitVec 32)
    (window : BitVec 16) : NetStack × NetErr :=
  let q := s.tcp.storage i
  if q.releasePending ∨ q.backlog ≤ q.pendingCount then (s,.full)
  else
    match s.tcpAlloc false with
    | (s',none) => (s',.mem)
    | (s',some child) =>
      let t : Table := { s'.tcp.modify child (s.tcp.passiveChild i n src srcPort seq window) with
        nextIss := s.tcp.nextIss+64000#32 }
      let t := t.modify i fun q => { q with pendingCount := q.pendingCount+1 }
      let p := t.storage child
      onErr (({ s' with tcp := t }).tcpStart child p.iss p.rcvNxt (flagSyn ||| flagAck) [] p.sndNxt)
        fun s err => (s.tcpDo fun t => t.tcpListenerDetachChild child err,err)

/-- `tcp_accept_ack`. -/
def tcpAcceptAck (ack : BitVec 32) : NetStack × NetErr :=
  let p := s.tcp.storage i
  if (ack-p.sndUna).toInt < 0 ∨ 0 < (ack-p.sndNxt).toInt then (s,.state)
  else if p.outstanding ≠ none ∧ ack = p.outstandingEnd then
    let startFin := p.closeRequested ∧ p.state = .established
    let s := s.tcpDo fun t => t.modify i fun p => p.tcpAcked ack
    if startFin then onErr (s.tcpStartLocalFin i) fun s err => s.tcpFail i err else (s,.ok)
  else (s,.ok)

variable (seg : Segment)

def tcpInTimeWait : NetStack × NetErr :=
  let finSeq := seg.seq+BitVec.ofNat 32 seg.payload.length
  let rcvNxt := (s.tcp.storage i).rcvNxt
  if ¬seg.has flagFin ∨ ¬seg.has flagAck ∨ seg.has flagSyn ∨
      finSeq ≠ rcvNxt ∧ finSeq+1 ≠ rcvNxt then
    (s,.state)
  else
    onOk (s.tcpAcceptAck i seg.ack) fun s =>
    onOk (s.tcpSendAck i) fun s =>
    onErr (s.tcpOn fun t => t.onPcb i fun p =>
        let r := netTimerAdd false
        ({ p with timeWaitTimer := r.1 },r.2))
      fun s err => s.tcpFail i err

def tcpInSynSent : NetStack × NetErr :=
  let p := s.tcp.storage i
  if seg.total ≠ seg.headerSize then (s,.format)
  else if seg.flags ≠ flagSyn ||| flagAck ∨ Table.tcpStateAcceptAck p.state seg.ack p.iss ≠ .ok then
    (s,.state)
  else
    let s := s.tcpDo fun t => t.modify i fun p => p.synAcked seg
    onOk (onErr (s.tcpSendAck i) fun s err => s.tcpFail i err) fun s =>
      (s.tcpDo fun t => t.modify i fun p => { p with
        state := .established
        connectDone := sysSemNotifyTimes p.connectDone (Pcb.tokens p.connectWaiters) },.ok)

def tcpInSynReceived : NetStack × NetErr :=
  let p := s.tcp.storage i
  if seg.total ≠ seg.headerSize then (s,.format)
  else if seg.flags = flagSyn ∧ seg.seq+1 = p.rcvNxt ∧ seg.ack = 0 then
    onErr (s.tcpOutputOwned i) fun s err => s.tcpFail i err
  else if seg.flags ≠ flagAck ∨ seg.seq ≠ p.rcvNxt ∨ seg.ack ≠ p.iss+1 then (s,.state)
  else s.tcpOn fun t => t.tcpInEstablish i seg

/-- In-order data is queued; any data is acknowledged. -/
def tcpInData : NetStack × NetErr :=
  let size := seg.payload.length
  onOk (if 0 < size ∧ seg.seq = (s.tcp.storage i).rcvNxt then
      onOk (s.tcpOn fun t => t.onPcb i fun p => p.tcpQueueData seg.payload) fun s =>
        (s.tcpDo fun t => t.modify i fun p => { p with rcvNxt := p.rcvNxt+BitVec.ofNat 32 size },.ok)
    else (s,.ok)) fun s =>
  if 0 < size then s.tcpSendAck i else (s,.ok)

/-- After an in-order FIN was acknowledged in state `finState`. -/
def tcpInPeerFin (finState : TcpState) : NetStack × NetErr :=
  match finState with
  | .finWait2 =>
    let s := s.tcpDo fun t => t.modify i fun p => { p with state := .timeWait, peerFinSeen := false }
    onErr (s.tcpOn fun t => t.onPcb i Pcb.tcpArmTimeWait) fun s err => s.tcpFail i err
  | .established =>
    if (s.tcp.storage i).listener ≠ none then
      (s.tcpDo fun t => t.tcpListenerDetachChild i .state,.ok)
    else
      let deferFin := (s.tcp.storage i).outstanding ≠ none
      let s := s.tcpDo fun t => t.modify i fun p => { p with
        peerFinSeen := true
        closeRequested := if p.outstanding ≠ none then true else p.closeRequested }
      if deferFin then (s,.ok) else onErr (s.tcpStartLocalFin i) fun s err => s.tcpFail i err
  | .finWait1 => (s.tcpDo fun t => t.modify i fun p => { p with peerFinSeen := true },.ok)
  | _ => (s,.ok)

def tcpInFin : NetStack × NetErr :=
  let p := s.tcp.storage i
  if seg.seq+BitVec.ofNat 32 seg.payload.length = p.rcvNxt then
    let s := s.tcpDo fun t => t.modify i fun p => { p with rcvNxt := p.rcvNxt+1 }
    onOk (onErr (s.tcpSendAck i) fun s err => s.tcpFail i err) fun s => s.tcpInPeerFin i p.state
  else if seg.payload.length = 0 then s.tcpSendAck i
  else (s,.ok)

/-- `tcp_in` in ESTABLISHED, FIN_WAIT_1 and FIN_WAIT_2. -/
def tcpInStream : NetStack × NetErr :=
  if ¬seg.has flagAck ∨ seg.has flagSyn then (s,.state)
  else
    onOk (s.tcpAcceptAck i seg.ack) fun s =>
    if (s.tcp.storage i).state = .timeWait then
      onErr (s.tcpOn fun t => t.onPcb i Pcb.tcpArmTimeWait) fun s err => s.tcpFail i err
    else
      let s := s.tcpDo fun t => t.modify i fun p => { p with window := seg.window }
      onOk (s.tcpInData i seg) fun s =>
      if seg.has flagFin then s.tcpInFin i seg else (s,.ok)

/-- `tcp_in` for a block found by its four-tuple. -/
def tcpInPcb : NetStack × NetErr :=
  match (s.tcp.storage i).state with
  | .timeWait => s.tcpInTimeWait i seg
  | .synSent => s.tcpInSynSent i seg
  | .synReceived => s.tcpInSynReceived i seg
  | .established | .finWait1 | .finWait2 => s.tcpInStream i seg
  | .closed | .listen => (s,.state)

/-- `tcp_in` after the checks on the segment alone. -/
def tcpInSegment (n : NetifId) (src dest : IpAddr) : NetStack × NetErr :=
  match s.tcp.tcpFindPcb n src dest seg.srcPort seg.destPort with
  | some i => s.tcpInPcb i seg
  | none =>
    match s.tcp.tcpFindListener n dest seg.destPort with
    | none => (s,.unreach)
    | some l =>
      if seg.total ≠ seg.headerSize ∨ seg.flags ≠ flagSyn then (s,.state)
      else s.tcpPassiveSyn l n src seg.srcPort seg.seq seg.window

/-- `tcp_in`. The header is contiguous once `pktbuf_set_cont` succeeds, so that what it shows and
what is read behind it are the bytes of the buffer. -/
def tcpIn (n : NetifId) (src dest : IpAddr) (b : BufId) : NetStack × NetErr :=
  if s.link.pktbufTotal b < headerMin then (s,.size)
  else
    match s.onLink fun w => w.pktbufSetCont b headerMin with
    | (s,.ok) =>
      match Segment.ofBytes (s.link.pool.bufs b).bytes with
      | none => (s,.size)
      | some seg =>
        if tcpInCheck seg src dest ≠ .ok then (s,tcpInCheck seg src dest)
        else onOk (s.tcpInSegment seg n src dest) fun s => (s.pktbufFree b,.ok)
    | (s,_) => (s,.size)

end NetStack
end QuardStarNet
