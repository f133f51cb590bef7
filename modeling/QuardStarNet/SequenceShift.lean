import QuardStarNet.Demux

/-! TCP does not depend on absolute sequence numbers. Two runs whose numbers differ by one offset
in each direction stay apart by these offsets, return the same codes and send the same segments. -/
namespace QuardStarNet

/-- Two calls return the same code and related states. -/
def Agree {σ : Type} (R : σ → σ → Prop) (r r' : σ × NetErr) : Prop := R r.1 r'.1 ∧ r'.2 = r.2

section Agree

variable {σ : Type} {R : σ → σ → Prop} {r r' : σ × NetErr}

theorem Agree.onOk {k k' : σ → σ × NetErr} (h : Agree R r r')
    (hk : ∀ x x', R x x' → Agree R (k x) (k' x')) : Agree R (onOk r k) (QuardStarNet.onOk r' k') := by
  by_cases hr : r.2 = .ok
  · rw [onOk_ok hr,onOk_ok (h.2.trans hr)]
    exact hk _ _ h.1
  · rw [onOk_err hr,onOk_err (by rwa [h.2])]
    exact h

theorem Agree.onErr {k k' : σ → NetErr → σ × NetErr} (h : Agree R r r')
    (hk : ∀ x x' e, R x x' → Agree R (k x e) (k' x' e)) :
    Agree R (onErr r k) (QuardStarNet.onErr r' k') := by
  by_cases hr : r.2 = .ok
  · rw [onErr_ok hr,onErr_ok (h.2.trans hr)]
    exact h
  · rw [onErr_err hr,onErr_err (by rwa [h.2]),h.2]
    exact hk _ _ _ h.1

end Agree

namespace Tcp

variable (a b : BitVec 32)

/-- The same segment with its numbers moved; the checksum is what it has to be. -/
def Segment.Shift (s s' : Segment) : Prop :=
  ∃ c, s' = { s with seq := s.seq+a, ack := s.ack+b, checksum := c }

structure Packet.Shift (x x' : Packet) : Prop where
  netif : x'.netif = x.netif
  dest : x'.dest = x.dest
  seg : x.seg.Shift a b x'.seg

/-- The same block with its numbers moved. `outstanding_end` has no meaning when nothing is
outstanding. -/
def Pcb.Shift (p p' : Pcb) : Prop :=
  ∃ o last, p' = { p with
      iss := p.iss+a, sndUna := p.sndUna+a, sndNxt := p.sndNxt+a, rcvNxt := p.rcvNxt+b
      outstanding := o, outstandingEnd := last } ∧
    Option.Rel (Segment.Shift a b) p.outstanding o ∧
    (p.outstanding ≠ none → last = p.outstandingEnd+a)

/-- Two links that differ in the numbers of what was sent since they were `w` and `w'`. -/
structure Link.Shift (w w' : List Packet) (l l' : Link) : Prop where
  fates : l'.fates = l.fates
  wire : ∃ ps ps', l.wire = w++ps ∧ l'.wire = w'++ps' ∧ List.Forall₂ (Packet.Shift a b) ps ps'

structure Conn.Shift (w w' : List Packet) (c c' : Conn) : Prop where
  pcb : c.pcb.Shift a b c'.pcb
  link : c.link.Shift a b w w' c'.link

/-- Two tables that differ in the numbers of the connection in slot `i`. -/
structure Table.Shift (i : Slot) (w w' : List Packet) (t t' : Table) : Prop where
  pcb : (t.storage i).Shift a b (t'.storage i)
  others : ∀ j, j ≠ i → t'.storage j = t.storage j
  pcbs : t'.pcbs = t.pcbs
  detached : t'.detachedListeners = t.detachedListeners
  timers : t'.releaseTimers = t.releaseTimers
  ephemeral : t'.nextEphemeral = t.nextEphemeral
  nextIss : t'.nextIss = t.nextIss
  link : t.link.Shift a b w w' t'.link

variable {a b} {p p' : Pcb} {s s' : Segment} {w w' : List Packet} {c c' : Conn} {t t' : Table} {i : Slot}

section Block

theorem Pcb.Shift.outstanding_none (h : p.Shift a b p') :
    p'.outstanding = none ↔ p.outstanding = none := by
  obtain ⟨o,last,rfl,ho,-⟩ := h
  show o = none ↔ p.outstanding = none
  generalize p.outstanding = x at ho ⊢
  cases ho with
  | none => simp
  | some => simp

theorem Pcb.Shift.acked (h : p.Shift a b p') (ack : BitVec 32) :
    (p.tcpAcked ack).Shift a b (p'.tcpAcked (ack+a)) := by
  obtain ⟨o,last,rfl,-,-⟩ := h
  exact ⟨none,0,rfl,.none,fun h => absurd rfl h⟩

theorem Pcb.Shift.clearOutstanding (h : p.Shift a b p') :
    p.tcpClearOutstanding.Shift a b p'.tcpClearOutstanding := by
  obtain ⟨o,last,rfl,-,-⟩ := h
  exact ⟨none,0,rfl,.none,fun h => absurd rfl h⟩

theorem Pcb.Shift.notifyTerminal (h : p.Shift a b p') :
    p.tcpNotifyTerminal.Shift a b p'.tcpNotifyTerminal := by
  obtain ⟨o,last,rfl,ho,hl⟩ := h
  unfold Pcb.tcpNotifyTerminal
  split
  next => exact ⟨o,last,rfl,ho,hl⟩
  next => exact ⟨o,last,rfl,ho,hl⟩

theorem Pcb.Shift.terminate (h : p.Shift a b p') (e : NetErr) :
    (p.tcpTerminate e).Shift a b (p'.tcpTerminate e) := by
  have hc := h.clearOutstanding
  obtain ⟨o,last,he,ho,hl⟩ := hc
  refine Pcb.Shift.notifyTerminal ⟨o,last,?_,ho,hl⟩
  rw [he]

/-- The segment that a moved block builds. -/
theorem Pcb.Shift.segment (h : p.Shift a b p') (seq ack : BitVec 32) (flags : Byte) (data : List Byte) :
    (Conn.segment p seq ack flags data).Shift a b (Conn.segment p' (seq+a) (ack+b) flags data) := by
  obtain ⟨o,last,rfl,-,-⟩ := h
  exact ⟨_,rfl⟩

theorem Pcb.Shift.setOutstanding (h : p.Shift a b p') (hs : s.Shift a b s') (last : BitVec 32) :
    (p.setOutstanding s last).Shift a b (p'.setOutstanding s' (last+a)) := by
  obtain ⟨o,l,rfl,-,-⟩ := h
  exact ⟨some s',last+a,rfl,.some hs,fun _ => rfl⟩

theorem Pcb.Shift.armTimer (h : p.Shift a b p') :
    Agree (Pcb.Shift a b) p.tcpArmTimer p'.tcpArmTimer := by
  obtain ⟨o,last,rfl,ho,hl⟩ := h
  exact ⟨⟨o,last,rfl,ho,hl⟩,rfl⟩

theorem Pcb.Shift.armTimeWait (h : p.Shift a b p') :
    Agree (Pcb.Shift a b) p.tcpArmTimeWait p'.tcpArmTimeWait := by
  obtain ⟨o,last,rfl,ho,hl⟩ := h
  unfold Pcb.tcpArmTimeWait
  split
  next => exact ⟨⟨o,last,rfl,ho,hl⟩,rfl⟩
  next => exact ⟨⟨o,last,rfl,ho,hl⟩,rfl⟩

theorem Pcb.Shift.queueData (h : p.Shift a b p') (payload : List Byte) :
    Agree (Pcb.Shift a b) (p.tcpQueueData payload) (p'.tcpQueueData payload) := by
  obtain ⟨o,last,rfl,ho,hl⟩ := h
  unfold Pcb.tcpQueueData
  split
  next => exact ⟨⟨o,last,rfl,ho,hl⟩,rfl⟩
  next =>
    split
    next => exact ⟨⟨o,last,rfl,ho,hl⟩,rfl⟩
    next => exact ⟨⟨o,last,rfl,ho,hl⟩,rfl⟩

end Block

section Sending

theorem Link.Shift.fate {l l' : Link} (h : l.Shift a b w w' l') : l'.fate = l.fate := by
  rw [Link.fate,h.fates]
  rfl

theorem Link.Shift.spend {l l' : Link} (h : l.Shift a b w w' l') : l.spend.Shift a b w w' l'.spend :=
  ⟨congrArg List.tail h.fates,h.wire⟩

theorem Link.Shift.send {l l' : Link} (h : l.Shift a b w w' l') {x x' : Packet} (hx : x.Shift a b x') :
    Link.Shift a b w w' { l.spend with wire := l.wire++[x] } { l'.spend with wire := l'.wire++[x'] } := by
  obtain ⟨ps,ps',h₁,h₂,hps⟩ := h.wire
  refine ⟨congrArg List.tail h.fates,ps++[x],ps'++[x'],by simp [h₁],by simp [h₂],?_⟩
  exact List.rel_append hps (.cons hx .nil)

theorem Conn.Shift.ipv4Out (h : c.Shift a b w w' c') (hs : s.Shift a b s') :
    Agree (Conn.Shift a b w w') (c.ipv4Out s) (c'.ipv4Out s') := by
  obtain ⟨p,l⟩ := c
  obtain ⟨p',l'⟩ := c'
  have hp := h.pcb
  obtain ⟨o,last,rfl,-,-⟩ := h.pcb
  have hl := h.link
  simp only [Conn.ipv4Out,Link.ipv4Out]
  split
  next hn =>
    exact ⟨⟨hp,hl⟩,rfl⟩
  next n hn =>
    rw [hl.fate]
    split
    next => exact ⟨⟨hp,hl.send ⟨rfl,rfl,hs⟩⟩,rfl⟩
    next => exact ⟨⟨hp,hl.spend⟩,rfl⟩

theorem Conn.Shift.spend (h : c.Shift a b w w' c') :
    Conn.Shift a b w w' { c with link := c.link.spend } { c' with link := c'.link.spend } :=
  ⟨h.pcb,h.link.spend⟩

theorem Pcb.Shift.sndNxt (h : p.Shift a b p') : p'.sndNxt = p.sndNxt+a := by
  obtain ⟨o,last,rfl,-⟩ := h
  rfl

theorem Pcb.Shift.rcvNxt (h : p.Shift a b p') : p'.rcvNxt = p.rcvNxt+b := by
  obtain ⟨o,last,rfl,-⟩ := h
  rfl

theorem Pcb.Shift.sndUna (h : p.Shift a b p') : p'.sndUna = p.sndUna+a := by
  obtain ⟨o,last,rfl,-⟩ := h
  rfl

theorem Pcb.Shift.state (h : p.Shift a b p') : p'.state = p.state := by
  obtain ⟨o,last,rfl,-⟩ := h
  rfl

theorem Conn.Shift.sendAck (h : c.Shift a b w w' c') :
    Agree (Conn.Shift a b w w') c.tcpSendAck c'.tcpSendAck := by
  simp only [Conn.tcpSendAck,Conn.tcpMakeSegment,h.link.fate,h.pcb.sndNxt,h.pcb.rcvNxt]
  by_cases hf : c.link.fate = .ok
  · simp only [hf,if_true]
    exact h.spend.ipv4Out (h.pcb.segment _ _ _ _)
  · simp only [hf,if_false]
    exact ⟨h.spend,rfl⟩

theorem Conn.Shift.outputOwned (h : c.Shift a b w w' c') :
    Agree (Conn.Shift a b w w') c.tcpOutputOwned c'.tcpOutputOwned := by
  have ho : Option.Rel (Segment.Shift a b) c.pcb.outstanding c'.pcb.outstanding := by
    obtain ⟨o,last,he,ho,-⟩ := h.pcb
    rwa [he]
  unfold Conn.tcpOutputOwned
  generalize c.pcb.outstanding = x at ho
  generalize c'.pcb.outstanding = x' at ho
  cases ho with
  | none => exact ⟨h,rfl⟩
  | some hs =>
    dsimp only
    rw [h.link.fate]
    split
    next => exact h.spend.ipv4Out hs
    next => exact ⟨h.spend,rfl⟩

theorem Conn.Shift.startOutstanding (h : c.Shift a b w w' c') (hs : s.Shift a b s') (last : BitVec 32) :
    Agree (Conn.Shift a b w w') (c.tcpStartOutstanding s last) (c'.tcpStartOutstanding s' (last+a)) := by
  have hset : Conn.Shift a b w w' { c with pcb := c.pcb.setOutstanding s last }
      { c' with pcb := c'.pcb.setOutstanding s' (last+a) } := ⟨h.pcb.setOutstanding hs last,h.link⟩
  unfold Conn.tcpStartOutstanding
  refine (hset.outputOwned.onOk fun c c' h => ?_).onErr fun c c' e h => ?_
  · have harm := h.pcb.armTimer
    exact ⟨⟨harm.1,h.link⟩,harm.2⟩
  · exact ⟨⟨h.pcb.clearOutstanding,h.link⟩,rfl⟩

theorem Conn.Shift.sendOwned (h : c.Shift a b w w' c') (ack : BitVec 32) (flags : Byte)
    (data : List Byte) (last : BitVec 32) {after : Pcb → Pcb}
    (hafter : ∀ p p' : Pcb, p.Shift a b p' → (after p).Shift a b (after p')) :
    Agree (Conn.Shift a b w w') (c.tcpSendOwned ack flags data last after)
      (c'.tcpSendOwned (ack+b) flags data (last+a) after) := by
  simp only [Conn.tcpSendOwned,Conn.tcpMakeSegment,h.link.fate,h.pcb.sndNxt]
  by_cases hf : c.link.fate = .ok
  · simp only [hf,if_true]
    refine (h.spend.startOutstanding (h.pcb.segment _ _ _ _) last).onOk fun c c' h => ?_
    refine ⟨⟨hafter _ _ ?_,h.link⟩,rfl⟩
    obtain ⟨o,l,he,ho,hl⟩ := h.pcb
    exact ⟨o,l,by rw [he],ho,hl⟩
  · simp only [hf,if_false]
    exact ⟨h.spend,rfl⟩

theorem Conn.Shift.sendFin (h : c.Shift a b w w' c') :
    Agree (Conn.Shift a b w w') c.tcpSendFin c'.tcpSendFin := by
  have hlast : c'.pcb.sndNxt+1 = c.pcb.sndNxt+1+a := by rw [h.pcb.sndNxt]; bv_omega
  simp only [Conn.tcpSendFin,hlast,h.pcb.rcvNxt]
  refine h.sendOwned _ _ _ _ fun p p' hp => ?_
  obtain ⟨o,l,rfl,ho,hl⟩ := hp
  exact ⟨o,l,rfl,ho,hl⟩

theorem Conn.Shift.startLocalFin (h : c.Shift a b w w' c') :
    Agree (Conn.Shift a b w w') c.tcpStartLocalFin c'.tcpStartLocalFin := by
  have hopen : c'.pcb.opened = c.pcb.opened := by
    obtain ⟨o,last,he,-⟩ := h.pcb
    rw [he]
  unfold Conn.tcpStartLocalFin
  simp only [hopen,h.pcb.state,ne_eq,h.pcb.outstanding_none]
  split
  next => exact ⟨h,rfl⟩
  next => exact h.sendFin

theorem Conn.Shift.sendData (h : c.Shift a b w w' c') (data : List Byte) :
    Agree (Conn.Shift a b w w') (c.tcpSendData data) (c'.tcpSendData data) := by
  have hsame : c'.pcb.opened = c.pcb.opened ∧ c'.pcb.window = c.pcb.window := by
    obtain ⟨o,last,he,-⟩ := h.pcb
    rw [he]
    exact ⟨rfl,rfl⟩
  have hlast : c'.pcb.sndNxt+BitVec.ofNat 32 data.length = c.pcb.sndNxt+BitVec.ofNat 32 data.length+a := by
    rw [h.pcb.sndNxt]; bv_omega
  unfold Conn.tcpSendData
  simp only [hsame.1,hsame.2,h.pcb.state,ne_eq,h.pcb.outstanding_none]
  split
  next => exact ⟨h,rfl⟩
  next =>
  split
  next => exact ⟨h,rfl⟩
  next =>
  split
  next => exact ⟨h,rfl⟩
  next =>
    rw [hlast,h.pcb.rcvNxt]
    exact h.sendOwned _ _ _ _ fun _ _ hp => hp

end Sending

section Tables

theorem Table.Shift.modify (h : t.Shift a b i w w' t') {f f' : Pcb → Pcb}
    (hf : ∀ p p' : Pcb, p.Shift a b p' → (f p).Shift a b (f' p')) :
    (t.modify i f).Shift a b i w w' (t'.modify i f') where
  pcb := by simpa [Table.modify] using hf _ _ h.pcb
  others j hj := by simpa [Table.modify,hj] using h.others j hj
  pcbs := h.pcbs
  detached := h.detached
  timers := h.timers
  ephemeral := h.ephemeral
  nextIss := h.nextIss
  link := h.link

/-- A change that does not look at the numbers, of any block. -/
theorem Table.Shift.touch (h : t.Shift a b i w w' t') (j : Slot) {f : Pcb → Pcb}
    (hf : ∀ p p' : Pcb, p.Shift a b p' → (f p).Shift a b (f p')) :
    (t.modify j f).Shift a b i w w' (t'.modify j f) := by
  by_cases hj : j = i
  · subst j
    exact h.modify hf
  · refine ⟨?_,fun k hk => ?_,h.pcbs,h.detached,h.timers,h.ephemeral,h.nextIss,h.link⟩
    · simpa [Table.modify,Ne.symm hj] using h.pcb
    · by_cases hkj : k = j
      · subst k
        simp [Table.modify,h.others j hj]
      · simpa [Table.modify,hkj] using h.others k hk

theorem Table.Shift.onConn (h : t.Shift a b i w w' t') {f f' : Conn → Conn × NetErr}
    (hf : ∀ c c' : Conn, c.Shift a b w w' c' → Agree (Conn.Shift a b w w') (f c) (f' c')) :
    Agree (Table.Shift a b i w w') (t.onConn i f) (t'.onConn i f') := by
  obtain ⟨hc,he⟩ := hf (t.conn i) (t'.conn i) ⟨h.pcb,h.link⟩
  refine ⟨⟨?_,fun j hj => ?_,h.pcbs,h.detached,h.timers,h.ephemeral,h.nextIss,hc.link⟩,he⟩
  · simpa [Table.onConn,Table.setConn] using hc.pcb
  · simpa [Table.onConn,Table.setConn,hj] using h.others j hj

theorem Table.Shift.onPcb (h : t.Shift a b i w w' t') {f f' : Pcb → Pcb × NetErr}
    (hf : ∀ p p' : Pcb, p.Shift a b p' → Agree (Pcb.Shift a b) (f p) (f' p')) :
    Agree (Table.Shift a b i w w') (t.onPcb i f) (t'.onPcb i f') :=
  h.onConn fun _ _ hc => ⟨⟨(hf _ _ hc.pcb).1,hc.link⟩,(hf _ _ hc.pcb).2⟩

theorem Table.Shift.listener (h : t.Shift a b i w w' t') (j : Slot) :
    (t'.storage j).listener = (t.storage j).listener := by
  by_cases hj : j = i
  · subst j
    obtain ⟨o,last,he,-⟩ := h.pcb
    rw [he]
  · rw [h.others j hj]

theorem Table.Shift.requestRelease (h : t.Shift a b i w w' t') (j : Slot) :
    Agree (Table.Shift a b i w w') (t.tcpRequestRelease j) (t'.tcpRequestRelease j) := by
  unfold Table.tcpRequestRelease
  rw [h.pcbs,h.timers]
  split
  next => exact ⟨h,rfl⟩
  next =>
    have hm := h.touch j (f := fun p => { p with releasePending := true }) fun p p' hp => by
      obtain ⟨o,last,rfl,ho,hl⟩ := hp
      exact ⟨o,last,rfl,ho,hl⟩
    exact ⟨⟨hm.pcb,hm.others,hm.pcbs,hm.detached,rfl,hm.ephemeral,hm.nextIss,hm.link⟩,rfl⟩

theorem Table.Shift.detachChild (h : t.Shift a b i w w' t') (j : Slot) (e : NetErr) :
    (t.tcpListenerDetachChild j e).Shift a b i w w' (t'.tcpListenerDetachChild j e) := by
  unfold Table.tcpListenerDetachChild
  rw [h.listener]
  split
  next => exact h
  next l hl =>
    rw [h.pcbs]
    split
    next => exact h
    next hj =>
      have h₁ := h.touch l (f := Table.dropChild j) fun p p' hp => by
        obtain ⟨o,last,rfl,ho,hl⟩ := hp
        exact ⟨o,last,rfl,ho,hl⟩
      have h₂ := h₁.touch j (f := fun p => { p with listener := none, releasePending := true }.tcpTerminate e)
        fun p p' hp => by
          obtain ⟨o,last,rfl,ho,hl⟩ := hp
          refine Pcb.Shift.terminate ?_ e
          exact ⟨o,last,rfl,ho,hl⟩
      have h₃ : Table.Shift a b i w w'
          { (t.modify l (Table.dropChild j)).modify j fun p =>
              { p with listener := none, releasePending := true }.tcpTerminate e with
            detachedListeners := Function.update t.detachedListeners j (some l) }
          { (t'.modify l (Table.dropChild j)).modify j fun p =>
              { p with listener := none, releasePending := true }.tcpTerminate e with
            detachedListeners := Function.update t'.detachedListeners j (some l) } :=
        ⟨h₂.pcb,h₂.others,h₂.pcbs,by rw [h.detached],h₂.timers,h₂.ephemeral,h₂.nextIss,h₂.link⟩
      have hreq := h₃.requestRelease j
      dsimp only
      have hok : ∀ {t : Table}, t.pcbs j = true → (t.tcpRequestRelease j).2 = .ok := fun hi => by
        rw [requestRelease_eq hi]
      rw [not_not] at hj
      rw [if_pos (hok (by exact hj)),if_pos (hok (by rw [← h.pcbs] at hj; exact hj))]
      exact hreq.1

theorem Table.Shift.fail (h : t.Shift a b i w w' t') (e : NetErr) :
    Agree (Table.Shift a b i w w') (t.tcpFail i e) (t'.tcpFail i e) := by
  have hm := h.modify (f := fun p => p.tcpTerminate e) fun p p' hp => hp.terminate e
  unfold Table.tcpFail
  dsimp only
  rw [hm.listener]
  split
  next => exact ⟨hm.detachChild i e,rfl⟩
  next => exact ⟨hm,rfl⟩

theorem agree_orFail {r r' : Table × NetErr} (h : Agree (Table.Shift a b i w w') r r') :
    Agree (Table.Shift a b i w w') (onErr r fun t e => t.tcpFail i e)
      (QuardStarNet.onErr r' fun t e => t.tcpFail i e) :=
  h.onErr fun _ _ e h => h.fail e

/-- The two calls see the same of an acknowledgement. -/
theorem Pcb.Shift.acks (h : p.Shift a b p') (ack : BitVec 32) :
    ((ack+a-p'.sndUna).toInt = (ack-p.sndUna).toInt ∧ (ack+a-p'.sndNxt).toInt = (ack-p.sndNxt).toInt) ∧
      ((p'.outstanding ≠ none ∧ ack+a = p'.outstandingEnd) ↔
        (p.outstanding ≠ none ∧ ack = p.outstandingEnd)) := by
  have hsub : ∀ x : BitVec 32, ack+a-(x+a) = ack-x := fun x => by bv_omega
  refine ⟨⟨by rw [h.sndUna,hsub],by rw [h.sndNxt,hsub]⟩,?_⟩
  rw [ne_eq,h.outstanding_none]
  refine and_congr_right fun ho => ?_
  obtain ⟨o,last,rfl,-,hl⟩ := h
  show ack+a = last ↔ _
  rw [hl ho]
  constructor
  · intro he
    bv_omega
  · rintro rfl
    rfl

theorem Table.Shift.acceptAck (h : t.Shift a b i w w' t') (ack : BitVec 32) :
    Agree (Table.Shift a b i w w') (t.tcpAcceptAck i ack) (t'.tcpAcceptAck i (ack+a)) := by
  obtain ⟨⟨huna,hnxt⟩,hcomp⟩ := h.pcb.acks ack
  have hclose : (t'.storage i).closeRequested = (t.storage i).closeRequested := by
    obtain ⟨o,last,he,-⟩ := h.pcb
    rw [he]
  unfold Table.tcpAcceptAck
  simp only [huna,hnxt,hcomp,hclose,h.pcb.state]
  split
  next => exact ⟨h,rfl⟩
  next =>
  split
  swap
  next => exact ⟨h,rfl⟩
  next =>
    have hm : Table.Shift a b i w w' (t.modify i fun p => p.tcpAcked ack)
        (t'.modify i fun p => p.tcpAcked (ack+a)) := h.modify fun p p' hp => hp.acked ack
    split
    next => exact agree_orFail (hm.onConn fun _ _ hc => hc.startLocalFin)
    next => exact ⟨hm,rfl⟩

/-- Two segments whose numbers differ as those of their connections do. -/
theorem Segment.Shift.fields (h : s.Shift b a s') :
    s'.seq = s.seq+b ∧ s'.ack = s.ack+a ∧ s'.payload = s.payload ∧ (∀ f, s'.has f = s.has f) ∧
      s'.window = s.window := by
  obtain ⟨c,rfl⟩ := h
  exact ⟨rfl,rfl,rfl,fun _ => rfl,rfl⟩

theorem add_right_eq (x y n : BitVec 32) : x+b+n = y+b ↔ x+n = y := by
  constructor
  · intro h
    bv_omega
  · rintro rfl
    bv_omega

theorem Table.Shift.inTimeWait (h : t.Shift a b i w w' t') (hs : s.Shift b a s') :
    Agree (Table.Shift a b i w w') (t.tcpInTimeWait i s) (t'.tcpInTimeWait i s') := by
  obtain ⟨hseq,hack,hpay,hhas,-⟩ := hs.fields
  have hlast : ∀ x y n : BitVec 32, x+b+n+1 = y+b ↔ x+n+1 = y := by
    intro x y n
    rw [BitVec.add_assoc (x+b) n 1,add_right_eq,BitVec.add_assoc]
  simp only [Table.tcpInTimeWait,hseq,hpay,hhas,h.pcb.rcvNxt,ne_eq,add_right_eq,hlast,hack]
  split
  next => exact ⟨h,rfl⟩
  next =>
    refine (h.acceptAck s.ack).onOk fun t t' h => ?_
    refine (h.onConn fun _ _ hc => hc.sendAck).onOk fun t t' h => ?_
    refine agree_orFail (h.onPcb fun p p' hp => ?_)
    obtain ⟨o,last,rfl,ho,hl⟩ := hp
    exact ⟨⟨o,last,rfl,ho,hl⟩,rfl⟩

/-- Both sides take the same number of sequence numbers. -/
theorem Table.Shift.advance (h : t.Shift a b i w w' t') (n : BitVec 32) :
    Table.Shift a b i w w' (t.modify i fun p => { p with rcvNxt := p.rcvNxt+n })
      (t'.modify i fun p => { p with rcvNxt := p.rcvNxt+n }) := by
  refine h.modify fun p p' hp => ?_
  obtain ⟨o,last,rfl,ho,hl⟩ := hp
  have hn : p.rcvNxt+b+n = p.rcvNxt+n+b := by bv_omega
  exact ⟨o,last,by simp only [hn],ho,hl⟩

theorem Table.Shift.inData (h : t.Shift a b i w w' t') (hs : s.Shift b a s') :
    Agree (Table.Shift a b i w w') (t.tcpInData i s) (t'.tcpInData i s') := by
  obtain ⟨hseq,-,hpay,-⟩ := hs.fields
  have hnext : s.seq+b = (t.storage i).rcvNxt+b ↔ s.seq = (t.storage i).rcvNxt := by
    simp
  simp only [Table.tcpInData,hseq,hpay,h.pcb.rcvNxt,hnext]
  refine Agree.onOk ?_ fun t t' h => ?_
  · split
    next =>
      refine (h.onPcb fun _ _ hp => hp.queueData s.payload).onOk fun t t' h => ?_
      exact ⟨h.advance _,rfl⟩
    next => exact ⟨h,rfl⟩
  · split
    next => exact h.onConn fun _ _ hc => hc.sendAck
    next => exact ⟨h,rfl⟩

theorem Table.Shift.inPeerFin (h : t.Shift a b i w w' t') (st : TcpState) :
    Agree (Table.Shift a b i w w') (t.tcpInPeerFin i st) (t'.tcpInPeerFin i st) := by
  cases st with
  | finWait2 =>
    have hm : Table.Shift a b i w w'
        (t.modify i fun p => { p with state := .timeWait, peerFinSeen := false })
        (t'.modify i fun p => { p with state := .timeWait, peerFinSeen := false }) :=
      h.modify fun p p' hp => by
        obtain ⟨o,last,rfl,ho,hl⟩ := hp
        exact ⟨o,last,rfl,ho,hl⟩
    exact agree_orFail (hm.onPcb fun _ _ hp => hp.armTimeWait)
  | established =>
    simp only [Table.tcpInPeerFin,h.listener,ne_eq,h.pcb.outstanding_none]
    split
    next => exact ⟨h.detachChild i .state,rfl⟩
    next =>
      have hm : Table.Shift a b i w w'
          (t.modify i fun p => { p with
            peerFinSeen := true
            closeRequested := if ¬p.outstanding = none then true else p.closeRequested })
          (t'.modify i fun p => { p with
            peerFinSeen := true
            closeRequested := if ¬p.outstanding = none then true else p.closeRequested }) :=
        h.modify fun p p' hp => by
          have hn := hp.outstanding_none
          obtain ⟨o,last,rfl,ho,hl⟩ := hp
          exact ⟨o,last,by simp only [hn],ho,hl⟩
      split
      next => exact ⟨hm,rfl⟩
      next => exact agree_orFail (hm.onConn fun _ _ hc => hc.startLocalFin)
  | finWait1 =>
    have hm : Table.Shift a b i w w' (t.modify i fun p => { p with peerFinSeen := true })
        (t'.modify i fun p => { p with peerFinSeen := true }) := h.modify fun p p' hp => by
      obtain ⟨o,last,rfl,ho,hl⟩ := hp
      exact ⟨o,last,rfl,ho,hl⟩
    exact ⟨hm,rfl⟩
  | _ => exact ⟨h,rfl⟩

theorem Table.Shift.inFin (h : t.Shift a b i w w' t') (hs : s.Shift b a s') :
    Agree (Table.Shift a b i w w') (t.tcpInFin i s) (t'.tcpInFin i s') := by
  obtain ⟨hseq,-,hpay,-⟩ := hs.fields
  simp only [Table.tcpInFin,hseq,hpay,h.pcb.rcvNxt,add_right_eq,h.pcb.state]
  split
  next =>
    have hack := (h.advance 1).onConn fun _ _ hc => hc.sendAck
    exact (agree_orFail hack).onOk fun t t' h => h.inPeerFin _
  next =>
  split
  next => exact h.onConn fun _ _ hc => hc.sendAck
  next => exact ⟨h,rfl⟩

theorem Table.Shift.inStream (h : t.Shift a b i w w' t') (hs : s.Shift b a s') :
    Agree (Table.Shift a b i w w') (t.tcpInStream i s) (t'.tcpInStream i s') := by
  obtain ⟨-,hack,-,hhas,hwin⟩ := hs.fields
  simp only [Table.tcpInStream,hhas,hack,hwin]
  split
  next => exact ⟨h,rfl⟩
  next =>
    refine (h.acceptAck s.ack).onOk fun t t' h => ?_
    rw [h.pcb.state]
    split
    next => exact agree_orFail (h.onPcb fun _ _ hp => hp.armTimeWait)
    next =>
      have hm : Table.Shift a b i w w' (t.modify i fun p => { p with window := s.window })
          (t'.modify i fun p => { p with window := s.window }) := h.modify fun p p' hp => by
        obtain ⟨o,last,rfl,ho,hl⟩ := hp
        exact ⟨o,last,rfl,ho,hl⟩
      refine (hm.inData hs).onOk fun t t' h => ?_
      split
      next => exact h.inFin hs
      next => exact ⟨h,rfl⟩

theorem Table.Shift.findPcb (h : t.Shift a b i w w' t') (netif : NetifId) (src dest : IpAddr)
    (srcPort destPort : Port) :
    t'.tcpFindPcb netif src dest srcPort destPort = t.tcpFindPcb netif src dest srcPort destPort := by
  unfold Table.tcpFindPcb
  congr 1
  funext j
  by_cases hj : j = i
  · subst j
    obtain ⟨o,last,he,-⟩ := h.pcb
    simp only [h.pcbs,he]
  · simp only [h.pcbs,h.others j hj]

theorem Table.Shift.sendStart (h : t.Shift a b i w w' t') (data : List Byte) :
    Agree (Table.Shift a b i w w') (t.tcpSendStart i data) (t'.tcpSendStart i data) := by
  unfold Table.tcpSendStart
  rw [h.pcbs]
  split
  next => exact ⟨h,rfl⟩
  next =>
  split
  next => exact ⟨h,rfl⟩
  next => exact h.onConn fun _ _ hc => hc.sendData data

theorem Table.Shift.retransmitDue (h : t.Shift a b i w w' t') :
    Agree (Table.Shift a b i w w') (t.tcpRetransmitDue i) (t'.tcpRetransmitDue i) := by
  have hopen : (t'.storage i).opened = (t.storage i).opened := by
    obtain ⟨o,last,he,-⟩ := h.pcb
    rw [he]
  unfold Table.tcpRetransmitDue
  simp only [h.pcbs,hopen,ne_eq,h.pcb.outstanding_none]
  split
  next => exact ⟨h,rfl⟩
  next =>
  split
  next => exact ⟨h,rfl⟩
  next =>
    have hm : Table.Shift a b i w w' (t.modify i fun p => { p with retransTimer := false })
        (t'.modify i fun p => { p with retransTimer := false }) := h.modify fun p p' hp => by
      obtain ⟨o,last,rfl,ho,hl⟩ := hp
      exact ⟨o,last,rfl,ho,hl⟩
    refine (agree_orFail (hm.onConn fun _ _ hc => hc.outputOwned)).onOk fun t t' h => ?_
    have hm : Table.Shift a b i w w' (t.modify i fun p => { p with retryCount := p.retryCount+1 })
        (t'.modify i fun p => { p with retryCount := p.retryCount+1 }) := h.modify fun p p' hp => by
      obtain ⟨o,last,rfl,ho,hl⟩ := hp
      exact ⟨o,last,rfl,ho,hl⟩
    have hcount : ∀ {t t' : Table}, t.Shift a b i w w' t' →
        (t'.storage i).retryCount = (t.storage i).retryCount := fun h => by
      obtain ⟨o,last,he,-⟩ := h.pcb
      rw [he]
    rw [hcount hm]
    split
    next => exact hm.fail .tmo
    next => exact agree_orFail (hm.onPcb fun _ _ hp => hp.armTimer)

/-- The states of a connection that is established or being closed. -/
def TcpState.synchronized (s : TcpState) : Prop :=
  s = .established ∨ s = .finWait1 ∨ s = .finWait2 ∨ s = .timeWait

theorem Table.Shift.close (h : t.Shift a b i w w' t') (hs : (t.storage i).state.synchronized)
    (hS : (t.storage i).Sound) :
    Agree (Table.Shift a b i w w') (t.tcpClose i) (t'.tcpClose i) := by
  have hpending : (t.storage i).releasePending = false := by
    cases hr : (t.storage i).releasePending with
    | false => rfl
    | true => rcases hS.pending hr with hp | hp <;> simp [TcpState.synchronized,hp] at hs
  have hsame : (t'.storage i).opened = (t.storage i).opened ∧ (t'.storage i).releasePending = false := by
    obtain ⟨o,last,he,-⟩ := h.pcb
    rw [he]
    exact ⟨rfl,hpending⟩
  have habort : Agree (Table.Shift a b i w w') (t.tcpAbortAndRelease i) (t'.tcpAbortAndRelease i) :=
    Table.Shift.requestRelease (h.modify fun _ _ hp => hp.terminate .state) i
  unfold Table.tcpClose
  simp only [h.pcbs,hsame.1,hsame.2,h.listener,hpending,h.pcb.state,ne_eq,h.pcb.outstanding_none,
    Bool.false_eq_true,if_false]
  split
  next => exact ⟨h,rfl⟩
  next =>
  split
  next => exact ⟨h,rfl⟩
  next =>
  split
  next => exact ⟨h.detachChild i .state,rfl⟩
  next =>
  rcases hs with hs | hs | hs | hs <;> simp only [hs]
  case inl =>
    split
    next =>
      have hm : Table.Shift a b i w w' (t.modify i fun p => { p with closeRequested := true })
          (t'.modify i fun p => { p with closeRequested := true }) := h.modify fun p p' hp => by
        obtain ⟨o,last,rfl,ho,hl⟩ := hp
        exact ⟨o,last,rfl,ho,hl⟩
      exact ⟨hm,rfl⟩
    next => exact h.onConn fun _ _ hc => hc.sendFin
  case inr.inl => exact habort
  case inr.inr.inl => exact habort
  case inr.inr.inr => exact ⟨h,rfl⟩

theorem Table.Shift.inPcb (h : t.Shift a b i w w' t') (hst : (t.storage i).state.synchronized)
    (hs : s.Shift b a s') : Agree (Table.Shift a b i w w') (t.tcpInPcb i s) (t'.tcpInPcb i s') := by
  unfold Table.tcpInPcb
  rw [h.pcb.state]
  rcases hst with hst | hst | hst | hst <;> simp only [hst]
  case inl => exact h.inStream hs
  case inr.inl => exact h.inStream hs
  case inr.inr.inl => exact h.inStream hs
  case inr.inr.inr => exact h.inTimeWait hs

end Tables

/-- Moving the numbers of a synchronized connection by one offset in each direction commutes with
arriving segments, sends, closing and retransmission. -/
theorem sequence_shift_commutes (h : t.Shift a b i t.link.wire t'.link.wire t')
    (hst : (t.storage i).state.synchronized) (hS : (t.storage i).Sound) :
    let R := Table.Shift a b i t.link.wire t'.link.wire
    (∀ netif src dest buf buf' s s', Segment.ofBytes buf = some s → Segment.ofBytes buf' = some s' →
      tcpInCheck s src dest = .ok → tcpInCheck s' src dest = .ok → s.Shift b a s' →
      t.tcpFindPcb netif src dest s.srcPort s.destPort = some i →
      Agree R (t.tcpIn netif src dest buf) (t'.tcpIn netif src dest buf')) ∧
    (∀ data, Agree R (t.tcpSendStart i data) (t'.tcpSendStart i data)) ∧
    Agree R (t.tcpClose i) (t'.tcpClose i) ∧
    Agree R (t.tcpRetransmitDue i) (t'.tcpRetransmitDue i) := by
  refine ⟨?_,h.sendStart,h.close hst hS,h.retransmitDue⟩
  intro netif src dest buf buf' s s' hbuf hbuf' hc hc' hs hfind
  have hfind' : t'.tcpFindPcb netif src dest s'.srcPort s'.destPort = some i := by
    rw [h.findPcb]
    obtain ⟨c,rfl⟩ := hs
    exact hfind
  simp only [Table.tcpIn,hbuf,hbuf',hc,hc',ne_eq,not_true,if_false,Table.tcpInSegment,hfind,hfind']
  exact h.inPcb hst hs

/-- Move the numbers of a block. -/
def Pcb.shifted (a b : BitVec 32) (p : Pcb) : Pcb :=
  { p with
    iss := p.iss+a
    sndUna := p.sndUna+a
    sndNxt := p.sndNxt+a
    rcvNxt := p.rcvNxt+b
    outstanding := p.outstanding.map fun s => { s with seq := s.seq+a, ack := s.ack+b }
    outstandingEnd := p.outstandingEnd+a }

theorem Pcb.shifted_shift (a b : BitVec 32) (p : Pcb) : p.Shift a b (p.shifted a b) := by
  refine ⟨_,_,rfl,?_,fun _ => rfl⟩
  cases p.outstanding with
  | none => exact .none
  | some s => exact .some ⟨s.checksum,rfl⟩

theorem Table.modify_shift (t : Table) (i : Slot) {f : Pcb → Pcb} (hf : (t.storage i).Shift a b (f (t.storage i))) :
    t.Shift a b i t.link.wire (t.modify i f).link.wire (t.modify i f) where
  pcb := by simpa [Table.modify] using hf
  others j hj := by simp [Table.modify,hj]
  pcbs := rfl
  detached := rfl
  timers := rfl
  ephemeral := rfl
  nextIss := rfl
  link := ⟨rfl,[],[],by simp,by simp [Table.modify],.nil⟩

theorem peerSegment_shift (a b : BitVec 32) (srcPort destPort : Port) (seq ack : BitVec 32) (flags : Byte)
    (data : List Byte) : (peerSegment srcPort destPort seq ack flags data).Shift b a
      (peerSegment srcPort destPort (seq+b) (ack+a) flags data) := ⟨_,rfl⟩

/-- A connection with a byte in flight. -/
def byteSent : List Table.Step :=
  [([],.tcpOpen true),
   ([],.tcpConnectStart 0 ⟨1,true,0x0a000001⟩ 0x0a000002 80),
   ([],.tcpIn 1 0x0a000002 0x0a000001 (peerBytes 80 49152 7000 1001 (flagSyn ||| flagAck) [])),
   ([],.tcpSendStart 0 [9])]

/-- The byte in flight is acknowledged by 1002, or by 0 when the numbers are moved so far that they
wrap around there. -/
theorem sequence_shift_wraps :
    let t := tcpInit.run byteSent
    Agree (Table.Shift (-1002) 5 0 t.link.wire (t.modify 0 (Pcb.shifted (-1002) 5)).link.wire)
      (t.tcpIn 1 0x0a000002 0x0a000001 (peerBytes 80 49152 7001 1002 (flagFin ||| flagAck) [1,2]))
      ((t.modify 0 (Pcb.shifted (-1002) 5)).tcpIn 1 0x0a000002 0x0a000001
        (peerBytes 80 49152 (7001+5) (1002+ -1002) (flagFin ||| flagAck) [1,2])) := by
  intro t
  have hstate : (t.storage 0).state = .established := by decide +kernel
  have hlive : t.pcbs 0 = true := by decide +kernel
  have hfind : t.tcpFindPcb 1 0x0a000002 0x0a000001 80 49152 = some 0 := by decide +kernel
  have hI : Inv t := Inv.init.run byteSent
  clear_value t
  have hshift := Table.modify_shift t 0 (Pcb.shifted_shift (-1002) 5 (t.storage 0))
  exact (sequence_shift_commutes hshift (.inl hstate) (hI.sound 0 hlive)).1 1 0x0a000002 0x0a000001 _ _
    (peerSegment 80 49152 7001 1002 (flagFin ||| flagAck) [1,2])
    (peerSegment 80 49152 (7001+5) (1002+ -1002) (flagFin ||| flagAck) [1,2])
    (Segment.ofBytes_bytes _) (Segment.ofBytes_bytes _) (by decide +kernel) (by decide +kernel)
    (peerSegment_shift _ _ _ _ _ _ _ _) hfind

end Tcp
end QuardStarNet
