import QuardStarNet.TcpInput
import Mathlib.Logic.Relation

/-! The moves of a single control block: everything that an operation, a timer or an
arriving segment can do to it, up to the order of independent writes. Each move keeps the
bookkeeping of the outstanding segment and of the timers. -/
namespace QuardStarNet
namespace Tcp

/-- States in which `tcp_in` processes acknowledgements, data and FINs. -/
def TcpState.streaming : TcpState → Bool
  | .established | .finWait1 | .finWait2 => true
  | _ => false

/-- Sequence numbers taken by a segment that waits for its acknowledgement. -/
def Segment.seqLength (s : Segment) : ℕ :=
  if s.has flagSyn ∨ s.has flagFin then 1 else s.payload.length

/-- The kind of segment that a state keeps outstanding. -/
def Owns : TcpState → Segment → Prop
  | .synSent, s => s.flags = flagSyn ∧ s.payload = []
  | .synReceived, s => s.flags = flagSyn ||| flagAck ∧ s.payload = []
  | .established, s => s.flags = flagPsh ||| flagAck ∧ 1 ≤ s.payload.length ∧ s.payload.length ≤ mss
  | .finWait1, s => s.flags = flagFin ||| flagAck ∧ s.payload = []
  | _, _ => False

def ackSegment (p : Pcb) : Segment := Conn.segment p p.sndNxt p.rcvNxt flagAck []

def finSegment (p : Pcb) : Segment := Conn.segment p p.sndNxt p.rcvNxt (flagFin ||| flagAck) []

/-- The block transmitted `seg` on the link. -/
def Emitted (p : Pcb) (seg : Segment) (l l' : Link) : Prop :=
  ∃ n, p.netif = some n ∧ l'.wire = l.wire++[⟨n,p.remoteIp,seg⟩]

namespace Pcb

/-- A segment was handed to `tcp_start_outstanding` and the timer runs. -/
def started (p : Pcb) (seg : Segment) (last : BitVec 32) : Pcb :=
  { p.setOutstanding seg last with retransTimer := true }

/-- The block after a terminal event, with the fields that a half-processed handshake
segment may have written. -/
def Terminated (p p' : Pcb) : Prop :=
  ∃ u w r n e, p' = { p with sndUna := u, window := w, rcvNxt := r, retryCount := n }.tcpTerminate e ∧
    (u = p.sndUna ∧ r = p.rcvNxt ∨ u = p.iss+1 ∧ (p.state = .synSent ∨ p.state = .synReceived))

end Pcb

/-- Changes of a block that send nothing. `rx` is the segment that is being processed. -/
inductive PcbMove (rx : Option Segment) (p : Pcb) : Pcb → Prop
  | sems (a b c d : Sem) : PcbMove rx p
      { p with connectDone := a, recvDone := b, closeDone := c, acceptDone := d }
  | idled (n : ℕ) (last : BitVec 32) : p.outstanding = none →
      PcbMove rx p { p with retryCount := n, outstandingEnd := last }
  | retry (n : ℕ) : p.outstanding ≠ none → n < retryMax → PcbMove rx p { p with retryCount := n }
  | askClose : p.outstanding ≠ none → p.state = .established → p.listener = none →
      PcbMove rx p { p with closeRequested := true }
  | closeListen : p.state = .listen → p.listener = none →
      PcbMove rx p { p with closeRequested := true }
  | terminate {p'} : p.listener = none → p.state ≠ .listen → p.state ≠ .synReceived →
      p.Terminated p' → PcbMove rx p p'
  | acked {s} : rx = some s → s.has flagAck → p.outstanding ≠ none → s.ack = p.sndNxt →
      p.state = .established ∨ p.state = .finWait1 ∧ p.peerFinSeen = false ∧ p.listener = none →
      PcbMove rx p (p.tcpAcked s.ack)
  | ackedClose {s} (b : Sem) : rx = some s → s.has flagAck → p.outstanding ≠ none → s.ack = p.sndNxt →
      p.state = .finWait1 → p.peerFinSeen = true → p.listener = none →
      PcbMove rx p { p.tcpAcked s.ack with timeWaitTimer := true, recvDone := b }
  | window {s} : rx = some s → p.state.streaming → PcbMove rx p { p with window := s.window }
  | queue {s} (b : Sem) (h : s.payload.length ≤ recvMax-p.recv.count) : rx = some s →
      p.state.streaming → s.seq = p.rcvNxt → 0 < s.payload.length →
      PcbMove rx p { p with
        recv := p.recv.write s.payload h
        recvDone := b
        rcvNxt := p.rcvNxt+BitVec.ofNat 32 s.payload.length }
  | finSeen {s} : rx = some s → p.state.streaming → s.has flagFin →
      s.seq+BitVec.ofNat 32 s.payload.length = p.rcvNxt →
      PcbMove rx p { p with rcvNxt := p.rcvNxt+1 }
  | peerFin (c : Bool) : p.state.streaming → p.listener = none →
      c = p.closeRequested ∨ p.outstanding ≠ none →
      PcbMove rx p { p with peerFinSeen := true, closeRequested := c }
  | timeWait (b : Sem) : p.state = .finWait2 → p.listener = none →
      PcbMove rx p { p with
        state := .timeWait, peerFinSeen := false, timeWaitTimer := true, recvDone := b }
  | expire (b : Sem) : p.state = .timeWait → p.listener = none →
      PcbMove rx p { p with
        state := .closed, error := .ok, timeWaitTimer := false, closeDone := b }
  | bind (n : Option NetifId) (ip : IpAddr) (port : Port) : p.state = .closed →
      PcbMove rx p { p with netif := n, localIp := ip, localPort := port, bound := true }

/-- Changes of a block together with what it sends. -/
inductive ConnMove (rx : Option Segment) (c : Conn) : Conn → Prop
  | pcb {p' l'} : PcbMove rx c.pcb p' → l'.wire = c.link.wire → ConnMove rx c ⟨p',l'⟩
  | ack {l'} : c.pcb.state.streaming ∨ c.pcb.state = .timeWait →
      Emitted c.pcb (ackSegment c.pcb) c.link l' → ConnMove rx c ⟨c.pcb,l'⟩
  | clone {seg l'} : c.pcb.outstanding = some seg → Emitted c.pcb seg c.link l' →
      ConnMove rx c ⟨c.pcb,l'⟩
  | fin {l'} : c.pcb.state = .established → c.pcb.listener = none → c.pcb.outstanding = none →
      Emitted c.pcb (finSegment c.pcb) c.link l' →
      ConnMove rx c ⟨{ c.pcb.started (finSegment c.pcb) (c.pcb.sndNxt+1) with
        sndNxt := c.pcb.sndNxt+1, state := .finWait1 },l'⟩
  | synAck {s l'} (a : Sem) : rx = some s → c.pcb.state = .synSent → c.pcb.listener = none →
      s.flags = flagSyn ||| flagAck → s.ack = c.pcb.iss+1 →
      Emitted (c.pcb.synAcked s) (ackSegment (c.pcb.synAcked s)) c.link l' →
      ConnMove rx c ⟨{ c.pcb.synAcked s with state := .established, connectDone := a },l'⟩

/-- The bookkeeping of a block in the table. -/
structure Pcb.Sound (p : Pcb) : Prop where
  owned : ∀ seg, p.outstanding = some seg → Owns p.state seg ∧ p.outstandingEnd = p.sndNxt ∧
    seg.seq = p.sndUna ∧ p.sndNxt = p.sndUna+BitVec.ofNat 32 seg.seqLength ∧
    p.retryCount < retryMax ∧ p.retransTimer = true
  idle : p.outstanding = none → p.retransTimer = false ∧
    p.state ≠ .synSent ∧ p.state ≠ .synReceived ∧ p.state ≠ .finWait1
  settled : p.outstanding = none → p.state = .established ∨ p.state = .finWait2 ∨ p.state = .timeWait →
    p.sndUna = p.sndNxt
  opening : p.state = .synSent ∨ p.state = .synReceived →
    p.sndNxt = p.iss+1 ∧ p.closeRequested = false
  closing : p.state = .established → p.closeRequested = true → p.outstanding ≠ none
  timer : p.timeWaitTimer = true ↔ p.state = .timeWait
  pending : p.releasePending = true → p.state = .closed ∨ p.state = .listen

namespace Pcb

variable {p p' : Pcb} {rx : Option Segment}

theorem tcpTerminate_eq (p : Pcb) (e : NetErr) : ∃ a b c, p.tcpTerminate e =
    { p with
      retransTimer := false, outstanding := none, outstandingEnd := 0, timeWaitTimer := false
      error := e, state := .closed, closeRequested := false, terminalNotified := true
      connectDone := a, recvDone := b, closeDone := c } := by
  unfold tcpTerminate tcpNotifyTerminal
  split
  · refine ⟨p.connectDone,p.recvDone,p.closeDone,?_⟩
    have h : p.terminalNotified = true := by assumption
    simp [tcpClearOutstanding,h]
  · exact ⟨_,_,_,rfl⟩

theorem tcpTerminate_state (p : Pcb) (e : NetErr) : (p.tcpTerminate e).state = .closed := by
  obtain ⟨a,b,c,he⟩ := tcpTerminate_eq p e
  rw [he]

theorem Sound.of_closed (hs : p.state = .closed) (ho : p.outstanding = none)
    (hr : p.retransTimer = false) (ht : p.timeWaitTimer = false) : p.Sound where
  owned seg h := by simp [ho] at h
  idle _ := by simp [hr,hs]
  settled _ h := by simp [hs] at h
  opening h := by simp [hs] at h
  closing h := by simp [hs] at h
  timer := by simp [hs,ht]
  pending _ := .inl hs

theorem Sound.terminated (h : p.Terminated p') : p'.Sound := by
  obtain ⟨u,w,r,n,e,rfl,-⟩ := h
  obtain ⟨a,b,c,he⟩ := tcpTerminate_eq { p with sndUna := u, window := w, rcvNxt := r, retryCount := n } e
  rw [he]
  exact .of_closed rfl rfl rfl rfl

/-- Completing the outstanding segment outside a simultaneous close. -/
theorem Sound.acked (h : p.Sound) {ack : BitVec 32} (ha : ack = p.sndNxt)
    (hs : p.state = .established ∨ p.state = .finWait1 ∧ p.peerFinSeen = false) :
    (p.tcpAcked ack).Sound where
  owned seg ho := by simp [tcpAcked,tcpClearOutstanding] at ho
  idle _ := by rcases hs with hs | ⟨hs,hp⟩ <;> simp_all [tcpAcked,tcpClearOutstanding]
  settled _ _ := ha
  opening ho := by rcases hs with hs | ⟨hs,hp⟩ <;> simp_all [tcpAcked]
  closing ho hc := by rcases hs with hs | ⟨hs,hp⟩ <;> simp_all [tcpAcked]
  timer := by
    have ht := h.timer
    rcases hs with hs | ⟨hs,hp⟩ <;> simp_all [tcpAcked,tcpClearOutstanding]
  pending hr := by
    have hp := h.pending hr
    rcases hs with hs | ⟨hs,_⟩ <;> simp [hs] at hp

theorem Sound.move (hm : PcbMove rx p p') (h : p.Sound) : p'.Sound := by
  have hstream : p.state.streaming → p.state ≠ .closed ∧ p.state ≠ .listen ∧ p.state ≠ .timeWait := by
    cases p.state <;> simp [TcpState.streaming]
  cases hm with
  | sems => exact ⟨h.owned,h.idle,h.settled,h.opening,h.closing,h.timer,h.pending⟩
  | idled n last ho =>
    refine ⟨fun seg hs => ?_,h.idle,h.settled,h.opening,h.closing,h.timer,h.pending⟩
    simp [ho] at hs
  | retry n ho hn =>
    refine ⟨fun seg hs => ?_,h.idle,h.settled,h.opening,h.closing,h.timer,h.pending⟩
    obtain ⟨h1,h2,h3,h4,-,h6⟩ := h.owned seg hs
    exact ⟨h1,h2,h3,h4,hn,h6⟩
  | askClose ho hs hl =>
    exact ⟨h.owned,h.idle,h.settled,by simp [hs],fun _ _ => ho,h.timer,h.pending⟩
  | closeListen hs hl =>
    exact ⟨h.owned,h.idle,h.settled,by simp [hs],by simp [hs],h.timer,h.pending⟩
  | terminate hl hs hn ht => exact .terminated ht
  | acked hrx hf ho ha hs => exact h.acked ha (hs.imp_right fun h => ⟨h.1,h.2.1⟩)
  | ackedClose b hrx hf ho ha hs hp hl =>
    refine ⟨fun seg hs => ?_,fun _ => ?_,fun _ _ => ha,?_,?_,?_,fun hr => ?_⟩
    · simp [tcpAcked,tcpClearOutstanding] at hs
    · simp [tcpAcked,tcpClearOutstanding,hs,hp]
    · simp [tcpAcked,hs,hp]
    · simp [tcpAcked,hs,hp]
    · simp [tcpAcked,hs,hp]
    · have := h.pending hr
      simp [hs] at this
  | window hrx hs => exact ⟨h.owned,h.idle,h.settled,h.opening,h.closing,h.timer,h.pending⟩
  | queue b hf hrx hs hq hp =>
    exact ⟨h.owned,h.idle,h.settled,h.opening,h.closing,h.timer,h.pending⟩
  | finSeen hrx hs hf hq => exact ⟨h.owned,h.idle,h.settled,h.opening,h.closing,h.timer,h.pending⟩
  | peerFin c hs hl hc =>
    refine ⟨h.owned,h.idle,h.settled,fun ho => ?_,fun he hr => ?_,h.timer,h.pending⟩
    · rcases ho with ho | ho <;> simp [show p.state = _ from ho,TcpState.streaming] at hs
    rcases hc with rfl | ho
    · exact h.closing he hr
    · exact ho
  | timeWait b hs hl =>
    have ho : p.outstanding = none := by
      cases hout : p.outstanding with
      | none => rfl
      | some seg =>
        have := (h.owned seg hout).1
        simp [hs,Owns] at this
    refine ⟨fun seg h' => by simp [ho] at h',fun _ => by simp [(h.idle ho).1],
      fun _ _ => h.settled ho (.inr (.inl hs)),by simp,by simp,by simp,fun hr => ?_⟩
    have := h.pending hr
    simp [hs] at this
  | expire b hs hl =>
    have ho : p.outstanding = none := by
      cases hout : p.outstanding with
      | none => rfl
      | some seg =>
        have := (h.owned seg hout).1
        simp [hs,Owns] at this
    exact .of_closed rfl ho (h.idle ho).1 rfl
  | bind n ip port hs => exact ⟨h.owned,h.idle,h.settled,h.opening,h.closing,h.timer,h.pending⟩

end Pcb

/-- A block that has just put `seg` in flight. -/
theorem Pcb.Sound.started {p : Pcb} (h : p.Sound) (seg : Segment) (state : TcpState)
    (ho : Owns state seg) (hq : seg.seq = p.sndUna) (hs : state ≠ .timeWait) (hp : p.state ≠ .timeWait)
    (hr : p.releasePending = false)
    (hi : state = .synSent ∨ state = .synReceived →
      p.sndUna+BitVec.ofNat 32 seg.seqLength = p.iss+1 ∧ p.closeRequested = false) :
    { p.started seg (p.sndUna+BitVec.ofNat 32 seg.seqLength) with
      sndNxt := p.sndUna+BitVec.ofNat 32 seg.seqLength, state := state }.Sound where
  owned seg' h' := by
    obtain rfl : seg = seg' := by simpa [Pcb.started,Pcb.setOutstanding] using h'
    exact ⟨ho,rfl,hq,rfl,Nat.zero_lt_succ _,rfl⟩
  idle h' := by simp [Pcb.started,Pcb.setOutstanding] at h'
  settled h' := by simp [Pcb.started,Pcb.setOutstanding] at h'
  opening h' := hi h'
  closing _ _ := by simp [Pcb.started,Pcb.setOutstanding]
  timer := by
    have ht := h.timer
    simp_all [Pcb.started,Pcb.setOutstanding]
  pending h' := by simp [Pcb.started,Pcb.setOutstanding,hr] at h'

theorem Pcb.Sound.connMove {rx : Option Segment} {c c' : Conn} (hm : ConnMove rx c c')
    (h : c.pcb.Sound) : c'.pcb.Sound := by
  cases hm with
  | pcb hm hw => exact .move hm h
  | ack hs he => exact h
  | clone ho he => exact h
  | fin hs hl ho he =>
    have hu := h.settled ho (.inl hs)
    have hr : c.pcb.releasePending = false := by
      by_contra hr
      have := h.pending (by simpa using hr)
      simp [hs] at this
    have hlen : (finSegment c.pcb).seqLength = 1 := by simp [finSegment,Segment.seqLength,Segment.has]; decide
    have := h.started (finSegment c.pcb) .finWait1
      ⟨by simp [finSegment],by simp [finSegment]⟩ (by simp [finSegment,hu]) (by decide)
      (by simp [hs]) hr (by simp)
    simpa [hlen,hu] using this
  | synAck a hrx hs hl hf ha he =>
    obtain ⟨hn,hc⟩ := h.opening (.inl hs)
    refine ⟨fun seg h' => ?_,fun _ => ?_,fun _ _ => ?_,by simp,fun _ hq => ?_,?_,fun hr => ?_⟩
    · simp [Pcb.synAcked,Pcb.tcpClearOutstanding] at h'
    · simp [Pcb.synAcked,Pcb.tcpClearOutstanding]
    · simp [Pcb.synAcked,Pcb.tcpClearOutstanding,ha,hn]
    · simp [Pcb.synAcked,Pcb.tcpClearOutstanding,hc] at hq
    · have := h.timer
      simp_all [Pcb.synAcked,Pcb.tcpClearOutstanding]
    · have := h.pending hr
      simp [hs] at this

/-- What the rest of the system knows about a block: its place in the table, its listener,
its queue of children and its users. -/
structure Ties where
  opened : Bool
  listener : Option Slot
  acceptQueue : Ring (Option Slot) 4
  pendingCount : ℤ
  backlog : ℤ
  acceptWaiters : ℤ
  acceptPins : ℤ
  connectWaiters : ℤ
  recvWaiters : ℤ
  closeWaiters : ℤ
  socketAttached : Bool
  releasePending : Bool

def Pcb.ties (p : Pcb) : Ties :=
  ⟨p.opened,p.listener,p.acceptQueue,p.pendingCount,p.backlog,p.acceptWaiters,p.acceptPins,
    p.connectWaiters,p.recvWaiters,p.closeWaiters,p.socketAttached,p.releasePending⟩

/-- A move leaves the ties alone. It changes the state only of a block without a listener,
and neither into nor out of LISTEN and SYN_RECEIVED. -/
structure Pcb.Tied (p p' : Pcb) : Prop where
  ties : p'.ties = p.ties
  closeRequested : p.listener ≠ none → p'.closeRequested = true → p.closeRequested = true
  state : p'.state = p.state ∨ p.listener = none ∧ p.state ≠ .listen ∧ p'.state ≠ .listen ∧
    p.state ≠ .synReceived ∧ p'.state ≠ .synReceived

namespace Pcb

variable {p p' : Pcb} {rx : Option Segment}

theorem Tied.refl (p : Pcb) : p.Tied p := ⟨rfl,fun _ h => h,.inl rfl⟩

theorem Terminated.tied (h : p.Terminated p') (hl : p.listener = none) (hs : p.state ≠ .listen)
    (hn : p.state ≠ .synReceived) : p.Tied p' := by
  obtain ⟨u,w,r,n,e,rfl,-⟩ := h
  obtain ⟨a,b,c,he⟩ := tcpTerminate_eq { p with sndUna := u, window := w, rcvNxt := r, retryCount := n } e
  rw [he]
  exact ⟨rfl,fun h => absurd hl h,.inr ⟨hl,hs,by simp,hn,by simp⟩⟩

theorem Tied.move (hm : PcbMove rx p p') : p.Tied p' := by
  cases hm with
  | sems | idled | retry | window | queue | finSeen | bind => exact ⟨rfl,fun _ h => h,.inl rfl⟩
  | askClose ho hs hl => exact ⟨rfl,fun h => absurd hl h,.inl rfl⟩
  | closeListen hs hl => exact ⟨rfl,fun h => absurd hl h,.inl rfl⟩
  | terminate hl hs hn ht => exact ht.tied hl hs hn
  | acked hrx hf ho ha hs =>
    refine ⟨rfl,fun _ h => ?_,?_⟩
    · simp only [tcpAcked,Bool.and_eq_true] at h
      exact h.1
    · rcases hs with hs | ⟨hs,hp,hl⟩
      · exact .inl (by simp [tcpAcked,hs])
      · exact .inr (by simp [tcpAcked,hs,hp,hl])
  | ackedClose b hrx hf ho ha hs hp hl =>
    exact ⟨rfl,fun h => absurd hl h,.inr (by simp [tcpAcked,hs,hp,hl])⟩
  | peerFin c hs hl hc => exact ⟨rfl,fun h => absurd hl h,.inl rfl⟩
  | timeWait b hs hl => exact ⟨rfl,fun _ h => h,.inr (by simp [hs,hl])⟩
  | expire b hs hl => exact ⟨rfl,fun _ h => h,.inr (by simp [hs,hl])⟩

theorem Tied.connMove {c c' : Conn} (hm : ConnMove rx c c') : c.pcb.Tied c'.pcb := by
  cases hm with
  | pcb hm hw => exact .move hm
  | ack | clone => exact .refl _
  | fin hs hl ho he => exact ⟨rfl,fun _ h => h,.inr (by simp [hs,hl])⟩
  | synAck a hrx hs hl hf ha he => exact ⟨rfl,fun _ h => h,.inr (by simp [hs,hl])⟩

end Pcb
/-- The attempt to transmit `seg` ended with `e`. -/
def Attempt (p : Pcb) (seg : Segment) (l l' : Link) (e : NetErr) : Prop :=
  e = .ok ∧ Emitted p seg l l' ∨ e ≠ .ok ∧ l'.wire = l.wire

namespace Conn

variable (c : Conn)

theorem ipv4Out_spec (seg : Segment) (l : Link) (hl : l.wire = c.link.wire) :
    ∃ l' e, ipv4Out ⟨c.pcb,l⟩ seg = (⟨c.pcb,l'⟩,e) ∧ Attempt c.pcb seg c.link l' e := by
  cases hn : c.pcb.netif with
  | none => exact ⟨l,.param,by simp [ipv4Out,Link.ipv4Out,hn],.inr ⟨by simp,hl⟩⟩
  | some n =>
    by_cases hf : l.fate = .ok
    · exact ⟨{ l.spend with wire := l.wire++[⟨n,c.pcb.remoteIp,seg⟩] },.ok,
        by simp [ipv4Out,Link.ipv4Out,hn,hf],.inl ⟨rfl,n,hn,by simp [hl]⟩⟩
    · exact ⟨l.spend,l.fate,by simp [ipv4Out,Link.ipv4Out,hn,hf],.inr ⟨hf,hl⟩⟩

theorem tcpSendAck_spec : ∃ l' e, c.tcpSendAck = (⟨c.pcb,l'⟩,e) ∧
    Attempt c.pcb (ackSegment c.pcb) c.link l' e := by
  by_cases hf : c.link.fate = .ok
  · obtain ⟨l',e,he,ha⟩ := c.ipv4Out_spec (ackSegment c.pcb) c.link.spend rfl
    exact ⟨l',e,by rw [← he]; simp [tcpSendAck,tcpMakeSegment,hf,ackSegment],ha⟩
  · exact ⟨c.link.spend,.mem,by simp [tcpSendAck,tcpMakeSegment,hf],.inr ⟨by simp,rfl⟩⟩

theorem tcpOutputOwned_spec {seg : Segment} (h : c.pcb.outstanding = some seg) :
    ∃ l' e, c.tcpOutputOwned = (⟨c.pcb,l'⟩,e) ∧ Attempt c.pcb seg c.link l' e := by
  by_cases hf : c.link.fate = .ok
  · obtain ⟨l',e,he,ha⟩ := c.ipv4Out_spec seg c.link.spend rfl
    exact ⟨l',e,by rw [← he]; simp [tcpOutputOwned,hf,h],ha⟩
  · exact ⟨c.link.spend,.mem,by simp [tcpOutputOwned,hf,h],.inr ⟨by simp,rfl⟩⟩

/-- Starting a segment while the timer is idle: it is outstanding with the timer running,
or nothing is. -/
theorem tcpStartOutstanding_spec (hr : c.pcb.retransTimer = false) (seg : Segment) (last : BitVec 32) :
    ∃ l' e, c.tcpStartOutstanding seg last = (⟨if e = .ok then c.pcb.started seg last
      else { c.pcb.tcpClearOutstanding with retryCount := 0 },l'⟩,e) ∧
      Attempt c.pcb seg c.link l' e := by
  obtain ⟨l',e,he,ha⟩ := tcpOutputOwned_spec ⟨c.pcb.setOutstanding seg last,c.link⟩ rfl
  refine ⟨l',e,?_,ha⟩
  have ht : (c.pcb.setOutstanding seg last).retransTimer = false := hr
  simp only [tcpStartOutstanding,he]
  by_cases hok : e = .ok
  · simp [hok,onOk,onErr,Pcb.tcpArmTimer,netTimerAdd,ht,Pcb.started]
  · simp [hok,onOk,onErr,Pcb.tcpClearOutstanding,Pcb.setOutstanding]

/-- Sending a segment that waits for its acknowledgement. -/
theorem tcpSendOwned_spec (hr : c.pcb.retransTimer = false) (ho : c.pcb.outstanding = none)
    (ack : BitVec 32) (flags : Byte) (data : List Byte) (last : BitVec 32) (after : Pcb → Pcb) :
    let seg := segment c.pcb c.pcb.sndNxt ack flags data
    ∃ l' e n x, c.tcpSendOwned ack flags data last after =
      (⟨if e = .ok then after { c.pcb.started seg last with sndNxt := last }
        else { c.pcb with retryCount := n, outstandingEnd := x },l'⟩,e) ∧
      Attempt c.pcb seg c.link l' e := by
  intro seg
  by_cases hf : c.link.fate = .ok
  · obtain ⟨l',e,he,ha⟩ := tcpStartOutstanding_spec ⟨c.pcb,c.link.spend⟩ hr seg last
    refine ⟨l',e,0,0,?_,ha⟩
    simp only [tcpSendOwned,tcpMakeSegment,hf,if_true]
    rw [he]
    by_cases hok : e = .ok
    · simp [onOk,hok]
    · simp [onOk,hok,Pcb.tcpClearOutstanding,ho,hr]
  · exact ⟨c.link.spend,.mem,c.pcb.retryCount,c.pcb.outstandingEnd,by simp [tcpSendOwned,tcpMakeSegment,hf],
      .inr ⟨by simp,rfl⟩⟩

end Conn
end Tcp
end QuardStarNet
