import QuardStarNet.RingBuffer
import QuardStarNet.TcpSegment

/-! The TCP control block and the operations of `tcp.c` that touch one block and the
packets it sends. Packet allocation and transmission take their outcomes from a list,
so that a run over all lists covers every failure. -/
namespace QuardStarNet

/-- `if (err >= 0) ...`: continue after success, otherwise return the error. -/
def onOk {σ : Type} (r : σ × NetErr) (k : σ → σ × NetErr) : σ × NetErr :=
  if r.2 = .ok then k r.1 else r

/-- `if (err < 0) return ...`: hand an error to `k`. -/
def onErr {σ : Type} (r : σ × NetErr) (k : σ → NetErr → σ × NetErr) : σ × NetErr :=
  if r.2 = .ok then r else k r.1 r.2

section Combinators

variable {σ : Type} {r : σ × NetErr}

theorem onOk_ok {k : σ → σ × NetErr} (h : r.2 = .ok) : onOk r k = k r.1 := if_pos h

theorem onOk_err {k : σ → σ × NetErr} (h : r.2 ≠ .ok) : onOk r k = r := if_neg h

theorem onErr_ok {k : σ → NetErr → σ × NetErr} (h : r.2 = .ok) : onErr r k = r := if_pos h

theorem onErr_err {k : σ → NetErr → σ × NetErr} (h : r.2 ≠ .ok) : onErr r k = k r.1 r.2 := if_neg h

theorem onOk_fst {P : σ → Prop} {k : σ → σ × NetErr} (h : P r.1) (hk : ∀ x, P x → P (k x).1) :
    P (onOk r k).1 := by
  by_cases hr : r.2 = .ok
  · rw [onOk_ok hr]
    exact hk r.1 h
  · rwa [onOk_err hr]

theorem onErr_fst {P : σ → Prop} {k : σ → NetErr → σ × NetErr} (h : P r.1)
    (hk : ∀ x e, P x → P (k x e).1) : P (onErr r k).1 := by
  by_cases hr : r.2 = .ok
  · rwa [onErr_ok hr]
  · rw [onErr_err hr]
    exact hk r.1 r.2 h

end Combinators

namespace Tcp

/-- A pointer to a control block: `pcbs[i]` is null or `&pcb_storage[i]`. -/
abbrev Slot := Fin 12

instance Slot.neZero : NeZero 12 := ⟨by decide⟩

/-- A segment handed to an interface. -/
structure Packet where
  netif : NetifId
  dest : IpAddr
  seg : Segment
  deriving DecidableEq

/-- The packet pool and the interfaces: outcomes still to come, where an exhausted list
means success, and the packets that went out, oldest first. -/
structure Link where
  fates : List NetErr
  wire : List Packet

namespace Link

variable (l : Link)

def fate : NetErr := l.fates.headD .ok

def spend : Link := { l with fates := l.fates.tail }

/-- `ipv4_out`, which transmits exactly one copy when it succeeds and none otherwise. -/
def ipv4Out (netif : Option NetifId) (dest : IpAddr) (seg : Segment) : Link × NetErr :=
  match netif with
  | none => (l,.param)
  | some n =>
    if l.fate = .ok then ({ l.spend with wire := l.wire++[⟨n,dest,seg⟩] },.ok)
    else (l.spend,l.fate)

/-- `sys_sem_create(0)` -/
def sysSemCreate : Link × Sem := (l.spend,if l.fate = .ok then some 0 else none)

end Link

inductive TcpState
  | closed | listen | synSent | synReceived | established | finWait1 | finWait2 | timeWait
  deriving DecidableEq

/-- `tcp_pcb_t`. The timers are recorded as armed or not. -/
structure Pcb where
  opened : Bool
  netif : Option NetifId
  localIp : IpAddr
  remoteIp : IpAddr
  localPort : Port
  remotePort : Port
  state : TcpState
  iss : BitVec 32
  sndUna : BitVec 32
  sndNxt : BitVec 32
  rcvNxt : BitVec 32
  peerFinSeen : Bool
  window : BitVec 16
  outstanding : Option Segment
  outstandingEnd : BitVec 32
  retryCount : ℕ
  retransTimer : Bool
  timeWaitTimer : Bool
  recv : Ring Byte recvMax
  connectWaiters : ℤ
  recvWaiters : ℤ
  closeWaiters : ℤ
  listener : Option Slot
  acceptQueue : Ring (Option Slot) 4
  pendingCount : ℤ
  backlog : ℤ
  acceptWaiters : ℤ
  acceptPins : ℤ
  bound : Bool
  passive : Bool
  accepted : Bool
  closeRequested : Bool
  releasePending : Bool
  socketAttached : Bool
  connectDone : Sem
  recvDone : Sem
  closeDone : Sem
  acceptDone : Sem
  error : NetErr
  terminalNotified : Bool

theorem acceptQueue_pos : 0 < 4 := by decide

/-- A block cleared by `plat_memset`. -/
def Pcb.zeroed : Pcb where
  opened := false
  netif := none
  localIp := 0
  remoteIp := 0
  localPort := 0
  remotePort := 0
  state := .closed
  iss := 0
  sndUna := 0
  sndNxt := 0
  rcvNxt := 0
  peerFinSeen := false
  window := 0
  outstanding := none
  outstandingEnd := 0
  retryCount := 0
  retransTimer := false
  timeWaitTimer := false
  recv := .zeroed (by decide)
  connectWaiters := 0
  recvWaiters := 0
  closeWaiters := 0
  listener := none
  acceptQueue := .zeroed acceptQueue_pos
  pendingCount := 0
  backlog := 0
  acceptWaiters := 0
  acceptPins := 0
  bound := false
  passive := false
  accepted := false
  closeRequested := false
  releasePending := false
  socketAttached := false
  connectDone := none
  recvDone := none
  closeDone := none
  acceptDone := none
  error := .ok
  terminalNotified := false

/-- A control block with the link it sends on. -/
structure Conn where
  pcb : Pcb
  link : Link

namespace Conn

variable (c : Conn)

/-- The segment that `tcp_make_segment` writes for a block. -/
def segment (p : Pcb) (seq ack : BitVec 32) (flags : Byte) (data : List Byte) : Segment :=
  Segment.withChecksum
    { srcPort := p.localPort
      destPort := p.remotePort
      seq := seq
      ack := ack
      dataOffset := 0x50#8
      flags := flags
      window := BitVec.ofNat 16 (recvMax-p.recv.count)
      checksum := 0
      urgent := 0
      rest := data } p.localIp p.remoteIp

@[simp] theorem segment_flags (p : Pcb) (seq ack : BitVec 32) (flags : Byte) (data : List Byte) :
    (segment p seq ack flags data).flags = flags := by simp [segment]

@[simp] theorem segment_seq (p : Pcb) (seq ack : BitVec 32) (flags : Byte) (data : List Byte) :
    (segment p seq ack flags data).seq = seq := by simp [segment]

@[simp] theorem segment_ack (p : Pcb) (seq ack : BitVec 32) (flags : Byte) (data : List Byte) :
    (segment p seq ack flags data).ack = ack := by simp [segment]

@[simp] theorem segment_srcPort (p : Pcb) (seq ack : BitVec 32) (flags : Byte) (data : List Byte) :
    (segment p seq ack flags data).srcPort = p.localPort := by simp [segment]

@[simp] theorem segment_destPort (p : Pcb) (seq ack : BitVec 32) (flags : Byte) (data : List Byte) :
    (segment p seq ack flags data).destPort = p.remotePort := by simp [segment]

@[simp] theorem segment_payload (p : Pcb) (seq ack : BitVec 32) (flags : Byte) (data : List Byte) :
    (segment p seq ack flags data).payload = data := by
  rw [segment,Segment.withChecksum_payload]
  simp [Segment.payload,Segment.headerSize,headerMin]

def tcpMakeSegment (seq ack : BitVec 32) (flags : Byte) (data : List Byte) : Conn × Option Segment :=
  ({ c with link := c.link.spend },
    if c.link.fate = .ok then some (segment c.pcb seq ack flags data) else none)

def ipv4Out (seg : Segment) : Conn × NetErr :=
  let r := c.link.ipv4Out c.pcb.netif c.pcb.remoteIp seg
  ({ c with link := r.1 },r.2)

def tcpSendAck : Conn × NetErr :=
  let r := c.tcpMakeSegment c.pcb.sndNxt c.pcb.rcvNxt flagAck []
  match r.2 with
  | none => (r.1,.mem)
  | some ack => r.1.ipv4Out ack

/-- `tcp_output_owned`: transmit a clone of the outstanding segment. -/
def tcpOutputOwned : Conn × NetErr :=
  match c.pcb.outstanding with
  | none => (c,.mem)
  | some seg =>
    if c.link.fate = .ok then { c with link := c.link.spend }.ipv4Out seg
    else ({ c with link := c.link.spend },.mem)

end Conn

/-- `net_timer_add` refuses only a timer that is already scheduled. -/
def netTimerAdd (armed : Bool) : Bool × NetErr := (true,if armed then .exist else .ok)

namespace Pcb

variable (p : Pcb)

def tcpClearOutstanding : Pcb :=
  { p with retransTimer := false, outstanding := none, outstandingEnd := 0 }

def setOutstanding (segment : Segment) (last : BitVec 32) : Pcb :=
  { p with outstanding := some segment, outstandingEnd := last, retryCount := 0 }

/-- `waiters != 0 ? waiters : 1` tokens. -/
def tokens (waiters : ℤ) : ℕ := (if waiters ≠ 0 then waiters else 1).toNat

def tcpNotifyTerminal : Pcb :=
  if p.terminalNotified then p
  else
    { p with
      terminalNotified := true
      connectDone := sysSemNotifyTimes p.connectDone (tokens p.connectWaiters)
      recvDone := sysSemNotifyTimes p.recvDone p.recvWaiters.toNat
      closeDone := sysSemNotifyTimes p.closeDone (tokens p.closeWaiters) }

/-- The common part of `tcp_fail`, `tcp_abort_and_release` and the detaching of a child. -/
def tcpTerminate (error : NetErr) : Pcb :=
  { p.tcpClearOutstanding with
    timeWaitTimer := false
    error := error
    state := .closed
    closeRequested := false }.tcpNotifyTerminal

def tcpArmTimer : Pcb × NetErr :=
  let r := netTimerAdd p.retransTimer
  ({ p with retransTimer := r.1 },r.2)

def tcpArmTimeWait : Pcb × NetErr :=
  if p.state ≠ .timeWait then (p,.state)
  else
    -- the timer is removed first, so that adding it cannot find it scheduled
    let r := netTimerAdd false
    ({ p with
        peerFinSeen := false
        recvDone := sysSemNotifyTimes p.recvDone p.recvWaiters.toNat
        timeWaitTimer := r.1 },r.2)

def tcpResetConnection : Pcb :=
  { p with
    netif := none
    localIp := 0
    remoteIp := 0
    localPort := 0
    remotePort := 0
    state := .closed
    iss := 0
    sndUna := 0
    sndNxt := 0
    rcvNxt := 0
    peerFinSeen := false
    window := 0
    outstandingEnd := 0
    retryCount := 0
    listener := none
    acceptQueue := .zeroed acceptQueue_pos
    pendingCount := 0
    backlog := 0
    acceptWaiters := 0
    acceptPins := 0
    bound := false
    passive := false
    accepted := false
    closeRequested := false }

/-- Append a payload to the ring; a receiver is woken when the ring was empty. -/
def queued (payload : List Byte) (h : payload.length ≤ recvMax-p.recv.count) : Pcb :=
  { p with
    recv := p.recv.write payload h
    recvDone := if p.recv.count = 0 then sysSemNotify p.recvDone else p.recvDone }

/-- `tcp_queue_data` for a payload that was read from the buffer. -/
def tcpQueueData (payload : List Byte) : Pcb × NetErr :=
  if mss < payload.length then (p,.size)
  else if h : payload.length ≤ recvMax-p.recv.count then (p.queued payload h,.ok)
  else (p,.full)

/-- One pass of the loop of `tcp_recv_bytes_acquired` over a non-empty ring; `none` when
the ring is empty. -/
def tcpRecvTake (size : ℕ) : Option (Pcb × List Byte) :=
  if p.recv.count = 0 then none
  else
    let copied := min size p.recv.count
    let rest := p.recv.drop copied (Nat.min_le_right _ _)
    let recvDone := (sysSemPoll p.recvDone).1
    some ({ p with
      recv := rest
      recvDone := if rest.count ≠ 0 then sysSemNotify recvDone else recvDone },
      p.recv.front copied (Nat.min_le_right _ _))

/-- The `terminal` test of `tcp_recv_bytes_acquired`. -/
def tcpRecvTerminal : Bool :=
  p.error ≠ .ok ∨ p.releasePending ∨ ¬p.opened ∨ p.state = .closed ∨ p.state = .timeWait

def tcpRecvTerminalError : NetErr := if p.error ≠ .ok then p.error else .state

/-- `recv_waiters--` at the end of `tcp_recv_bytes_acquired`. -/
def tcpRecvLeave : Pcb := { p with recvWaiters := p.recvWaiters-1 }

/-- The loop of `tcp_recv_bytes_acquired` in a run where nobody else acts, over at most
`fuel` wakings; `none` is a wait that never returns. -/
def tcpRecvLoop (size : ℕ) (timeoutMs : ℤ) : ℕ → Pcb → Option (Pcb × (NetErr ⊕ List Byte))
  | 0, _ => none
  | fuel+1, p =>
    match p.tcpRecvTake size with
    | some r => some (r.1,.inr r.2)
    | none =>
      if p.tcpRecvTerminal then
        some ({ p with recvDone := (sysSemPoll p.recvDone).1 },.inl p.tcpRecvTerminalError)
      else
        match sysSemWait p.recvDone timeoutMs with
        | none => none
        | some (sem,err) =>
          let p := { p with recvDone := sem }
          if err = .ok then tcpRecvLoop size timeoutMs fuel p
          else some (p,.inl (if timeoutMs < 0 ∧ err = .tmo then .none else err))

def tcpRecvBytesAcquired (size : ℕ) (timeoutMs : ℤ) : Option (Pcb × (NetErr ⊕ List Byte)) :=
  if size = 0 then some (p,.inl .param)
  else
    -- every waking takes a token, so the tokens bound the passes
    match tcpRecvLoop size timeoutMs (p.recvDone.getD 0+1) p with
    | none => none
    | some r => some (r.1.tcpRecvLeave,r.2)

/-- The two completions that `tcp_wait_completion_acquire` serves. -/
inductive Wait
  | connect | close
  deriving DecidableEq

def waiters : Wait → ℤ
  | .connect => p.connectWaiters
  | .close => p.closeWaiters

def addWaiters (w : Wait) (n : ℤ) : Pcb :=
  match w with
  | .connect => { p with connectWaiters := p.connectWaiters+n }
  | .close => { p with closeWaiters := p.closeWaiters+n }

def done : Wait → Sem
  | .connect => p.connectDone
  | .close => p.closeDone

def setDone (w : Wait) (sem : Sem) : Pcb :=
  match w with
  | .connect => { p with connectDone := sem }
  | .close => { p with closeDone := sem }

/-- `tcp_wait_completion_acquire` on a block of the table. -/
def tcpWaitCompletionAcquire (w : Wait) : Pcb × NetErr :=
  if ¬p.opened ∨ p.releasePending ∧ (w = .connect ∨ p.state ≠ .closed ∧ p.state ≠ .listen) then
    (p,.state)
  else if w = .close ∧ (p.state = .closed ∨ p.state = .listen) ∧ p.releasePending then
    (p.addWaiters w 1,.ok)
  else if p.error ≠ .ok then (p,p.error)
  else if w = .connect then
    if p.state ≠ .synSent ∧ p.state ≠ .established then (p,.state) else (p.addWaiters w 1,.ok)
  else if p.state ≠ .finWait1 ∧ p.state ≠ .finWait2 ∧ p.state ≠ .timeWait ∧
      ¬(p.state = .established ∧ p.closeRequested) ∧ ¬(p.state = .closed ∧ p.releasePending) then
    (p,.state)
  else (p.addWaiters w 1,.ok)

/-- The first section of `tcp_wait_completion_acquired`: the result that is already
known, if any. -/
def tcpWaitImmediate (w : Wait) : Option NetErr :=
  if ¬p.opened then some .state
  else if w = .close ∧ (p.state = .closed ∨ p.state = .listen) ∧ p.releasePending then some .ok
  else if p.error ≠ .ok then some p.error
  else if w = .connect ∧ p.state = .established then some .ok
  else none

/-- `tcp_recv_acquire` on a block of the table. -/
def tcpRecvAcquire : Pcb × NetErr :=
  if ¬p.opened ∨ p.releasePending then (p,.state)
  else if p.state ≠ .synSent ∧ p.state ≠ .established ∧ p.state ≠ .finWait1 ∧ p.state ≠ .finWait2 then
    (p,if p.error ≠ .ok then p.error else .state)
  else ({ p with recvWaiters := p.recvWaiters+1 },.ok)

end Pcb

namespace Conn

variable (c : Conn)

def tcpStartOutstanding (segment : Segment) (last : BitVec 32) : Conn × NetErr :=
  let c := { c with pcb := c.pcb.setOutstanding segment last }
  onErr (onOk c.tcpOutputOwned fun c =>
      let r := c.pcb.tcpArmTimer
      ({ c with pcb := r.1 },r.2))
    fun c err => ({ c with pcb := c.pcb.tcpClearOutstanding },err)

/-- Build a segment, make it outstanding and, if that succeeds, advance `snd_nxt` to
`last` and apply `after`. -/
def tcpSendOwned (ack : BitVec 32) (flags : Byte) (data : List Byte) (last : BitVec 32)
    (after : Pcb → Pcb) : Conn × NetErr :=
  let r := c.tcpMakeSegment c.pcb.sndNxt ack flags data
  match r.2 with
  | none => (r.1,.mem)
  | some segment =>
    onOk (r.1.tcpStartOutstanding segment last) fun c =>
      ({ c with pcb := after { c.pcb with sndNxt := last } },.ok)

/-- The FIN of `tcp_start_local_fin` and of `tcp_close`. -/
def tcpSendFin : Conn × NetErr :=
  c.tcpSendOwned c.pcb.rcvNxt (flagFin ||| flagAck) [] (c.pcb.sndNxt+1)
    fun p => { p with state := .finWait1 }

def tcpStartLocalFin : Conn × NetErr :=
  if ¬c.pcb.opened ∨ c.pcb.outstanding ≠ none ∨ c.pcb.state ≠ .established then (c,.state)
  else c.tcpSendFin

/-- The part of `tcp_send_start` after the block was found. -/
def tcpSendData (data : List Byte) : Conn × NetErr :=
  if ¬(c.pcb.opened ∧ c.pcb.state = .established) then (c,.state)
  else if c.pcb.outstanding ≠ none then (c,.full)
  else if c.pcb.window = 0 ∨ c.pcb.window.toNat < data.length % 65536 then (c,.full)
  else
    c.tcpSendOwned c.pcb.rcvNxt (flagPsh ||| flagAck) data
      (c.pcb.sndNxt+BitVec.ofNat 32 data.length) id

end Conn
end Tcp
end QuardStarNet
