import QuardStarNet.TcpMoves

/-! `tcp_in` as moves: whatever a segment makes a block do, short of a completed passive
open, is a run of internal moves for that segment. -/
namespace QuardStarNet
namespace Tcp

variable {rx : Option Segment} {t : Table} {i l : Slot} {s : Segment}

theorem Links.listener_of_state (h : Links t) (hi : t.pcbs i = true)
    (h₁ : (t.storage i).state ≠ .synReceived) (h₂ : (t.storage i).state ≠ .established) :
    (t.storage i).listener = none := by
  cases hl : (t.storage i).listener with
  | none => rfl
  | some l =>
    rcases (h.child (l := l) ⟨hi,hl⟩).2.1 with hs | hs
    · exact absurd hs h₁
    · exact absurd hs h₂

theorem Links.listener_of_closeRequested (h : Links t) (hi : t.pcbs i = true)
    (hc : (t.storage i).closeRequested = true) : (t.storage i).listener = none := by
  cases hl : (t.storage i).listener with
  | none => rfl
  | some l =>
    have := (h.child (l := l) ⟨hi,hl⟩).2.2.2.2
    simp [hc] at this

/-- The acknowledgement ends a simultaneous close. -/
def Pcb.Closes (p : Pcb) (ack : BitVec 32) : Prop :=
  p.state = .finWait1 ∧ p.peerFinSeen = true ∧ p.outstanding ≠ none ∧ ack = p.outstandingEnd

/-- An acknowledgement acceptable to `tcp_accept_ack`. -/
def Pcb.Acceptable (p : Pcb) (ack : BitVec 32) : Prop :=
  ¬((ack-p.sndUna).toInt < 0 ∨ 0 < (ack-p.sndNxt).toInt)

instance (p : Pcb) (ack : BitVec 32) : Decidable (p.Acceptable ack) := inferInstanceAs (Decidable (¬_))

theorem acceptAck_unacceptable (h : ¬(t.storage i).Acceptable s.ack) :
    t.tcpAcceptAck i s.ack = (t,.state) := by
  simp only [Table.tcpAcceptAck]
  rw [if_pos (not_not.1 h)]

theorem acceptAck_short (h : (t.storage i).Acceptable s.ack)
    (hc : ¬((t.storage i).outstanding ≠ none ∧ s.ack = (t.storage i).outstandingEnd)) :
    t.tcpAcceptAck i s.ack = (t,.ok) := by
  simp only [Table.tcpAcceptAck]
  rw [if_neg h,if_neg hc]

theorem acceptAck_complete (h : (t.storage i).Acceptable s.ack)
    (hc : (t.storage i).outstanding ≠ none ∧ s.ack = (t.storage i).outstandingEnd) :
    t.tcpAcceptAck i s.ack =
      if (t.storage i).closeRequested = true ∧ (t.storage i).state = .established then
        onErr ((t.modify i fun p => p.tcpAcked s.ack).onConn i Conn.tcpStartLocalFin)
          fun t err => t.tcpFail i err
      else (t.modify i fun p => p.tcpAcked s.ack,.ok) := by
  simp only [Table.tcpAcceptAck]
  rw [if_neg h,if_pos hc]

theorem Inv.owned_state (h : Inv t) (hi : t.pcbs i = true) (hs : (t.storage i).state.streaming)
    (ho : (t.storage i).outstanding ≠ none) :
    (t.storage i).outstandingEnd = (t.storage i).sndNxt ∧
      ((t.storage i).state = .established ∨ (t.storage i).state = .finWait1) := by
  obtain ⟨seg,hseg⟩ := Option.ne_none_iff_exists'.1 ho
  obtain ⟨hown,hend,-⟩ := (h.sound i hi).owned seg hseg
  refine ⟨hend,?_⟩
  cases hst : (t.storage i).state <;> simp_all [Owns,TcpState.streaming]

theorem acceptAck_yields (h : Inv t) (hst : Streaming i t) (hf : s.has flagAck = true)
    (hc : ¬(t.storage i).Closes s.ack) :
    Yields (some s) t (t.tcpAcceptAck i s.ack) (Streaming i) := by
  obtain ⟨hi,hs⟩ := hst
  by_cases ha : (t.storage i).Acceptable s.ack
  swap
  · rw [acceptAck_unacceptable ha]
    exact .error (by simp)
  by_cases hcomp : (t.storage i).outstanding ≠ none ∧ s.ack = (t.storage i).outstandingEnd
  swap
  · rw [acceptAck_short ha hcomp]
    exact .done ⟨hi,hs⟩
  rw [acceptAck_complete ha hcomp]
  obtain ⟨hend,hes⟩ := h.owned_state hi hs hcomp.1
  have hp : (t.storage i).state = .finWait1 → (t.storage i).peerFinSeen = false := by
    intro hf
    by_contra hp
    exact hc ⟨hf,by simpa using hp,hcomp⟩
  have hm : Moves (some s) t (t.modify i fun p => p.tcpAcked s.ack) :=
    .pcb hi (.acked rfl hf hcomp.1 (hcomp.2.trans hend) (hes.imp_right fun hf =>
      ⟨hf,hp hf,h.links.listener_of_state hi (by simp [hf]) (by simp [hf])⟩))
  refine .head hm ?_
  split
  next hfin =>
    -- the deferred FIN is sent from ESTABLISHED with nothing outstanding
    refine localFin_yields (some s) (h.moves hm) (i := i) hi ?_ ?_ ?_
    · simp [Table.modify,Pcb.tcpAcked,hfin.2]
    · simpa [Table.modify,Pcb.tcpAcked,Pcb.tcpClearOutstanding] using
        h.links.listener_of_closeRequested hi hfin.1
    · simp [Table.modify,Pcb.tcpAcked,Pcb.tcpClearOutstanding]
  next hfin =>
    refine .done ⟨hi,?_⟩
    rcases hes with he | he
    · simp [Table.modify,Pcb.tcpAcked,he,TcpState.streaming]
    · simp [Table.modify,Pcb.tcpAcked,he,hp he,TcpState.streaming]

/-- Queueing in-order data and advancing `rcv_nxt`. -/
theorem queue_yields (hst : Streaming i t) (hpos : 0 < s.payload.length)
    (hseq : s.seq = (t.storage i).rcvNxt) :
    Yields (some s) t (onOk (t.onPcb i fun p => p.tcpQueueData s.payload) fun t =>
      (t.modify i fun p => { p with rcvNxt := p.rcvNxt+BitVec.ofNat 32 s.payload.length },.ok))
      (Streaming i) := by
  have hself : t.setConn i ⟨t.storage i,t.link⟩ = t := by simp [Table.setConn]
  by_cases hm : mss < s.payload.length
  · have hq : t.onPcb i (fun p => p.tcpQueueData s.payload) = (t,.size) := by
      simp [Table.onPcb,Table.onConn,Pcb.tcpQueueData,Table.conn,hm,hself]
    rw [hq,onOk_err (r := (t,.size)) (by simp)]
    exact .error (by simp)
  by_cases hf : s.payload.length ≤ recvMax-(t.storage i).recv.count
  · have hq : t.onPcb i (fun p => p.tcpQueueData s.payload) =
        (t.setConn i ⟨(t.storage i).queued s.payload hf,t.link⟩,.ok) := by
      simp [Table.onPcb,Table.onConn,Pcb.tcpQueueData,Table.conn,hm,hf]
    have hmove : Moves (some s) t (t.setConn i ⟨{ (t.storage i).queued s.payload hf with
        rcvNxt := (t.storage i).rcvNxt+BitVec.ofNat 32 s.payload.length },t.link⟩) :=
      .conn hst.1 (.pcb (.queue _ hf rfl hst.2 hseq hpos) rfl)
    rw [hq,onOk_ok rfl]
    convert Yields.head hmove (.done (P := Streaming i) ?_) using 2
    · simp [Table.modify,Table.setConn,Pcb.queued]
    · exact ⟨hst.1,by simpa [Table.setConn,Pcb.queued] using hst.2⟩
  · have hq : t.onPcb i (fun p => p.tcpQueueData s.payload) = (t,.full) := by
      simp [Table.onPcb,Table.onConn,Pcb.tcpQueueData,Table.conn,hm,hf,hself]
    rw [hq,onOk_err (r := (t,.full)) (by simp)]
    exact .error (by simp)

theorem sendAck_yields (rx : Option Segment) (hst : Streaming i t) :
    Yields rx t (t.onConn i Conn.tcpSendAck) (Streaming i) := by
  obtain ⟨l',e,he,ha⟩ := sendAck_eq t i
  rw [he]
  exact ⟨ha.ack_moves hst.1 (.inl hst.2),fun _ => hst⟩

theorem inData_yields (hst : Streaming i t) : Yields (some s) t (t.tcpInData i s) (Streaming i) := by
  unfold Table.tcpInData
  refine .onOk (P := Streaming i) ?_ fun t' _ hst' => ?_
  · split
    next hc => exact queue_yields hst hc.1 hc.2
    next => exact .done hst
  · split
    next => exact sendAck_yields _ hst'
    next => exact .done hst'

/-- Acknowledging, with failure of the connection when that is impossible. -/
theorem sendAck_fail_yields (rx : Option Segment) (h : Inv t) (hst : Streaming i t) {P : Table → Prop}
    (hP : ∀ l', P { t with link := l' }) :
    Yields rx t (onErr (t.onConn i Conn.tcpSendAck) fun t err => t.tcpFail i err) P := by
  obtain ⟨l',e,he,ha⟩ := sendAck_eq t i
  rw [he]
  by_cases hc : e = .ok
  · rw [onErr_ok hc]
    exact ⟨ha.ack_moves hst.1 (.inl hst.2),fun _ => hP l'⟩
  · rw [onErr_err hc,← setConn_link t i]
    have hs : (t.storage i).state ≠ .listen := fun hs => by simpa [hs,TcpState.streaming] using hst.2
    exact fail_yields h hst.1 hs (.refl _) (ha.resolve_left fun h => hc h.1).2 hc

theorem detachChild_moves (h : Inv t) (hc : t.IsChild l i) (e : NetErr) :
    Moves rx t (t.tcpListenerDetachChild i e) := by
  rw [detachChild_eq hc.1 hc.2 (h.links.ne_of_child hc)]
  exact .detach hc ⟨_,_,_,_,e,rfl,.inl ⟨rfl,rfl⟩⟩ _ _ rfl

/-- The consequences of a FIN that was just acknowledged. -/
theorem inPeerFin_yields (h : Inv t) (hst : Streaming i t) {st : TcpState}
    (hs : (t.storage i).state = st) : Yields rx t (t.tcpInPeerFin i st) fun _ => True := by
  obtain ⟨hi,hstream⟩ := hst
  cases st with
  | finWait2 =>
    have hl := h.links.listener_of_state hi (by simp [hs]) (by simp [hs])
    have harm : (t.modify i fun p => { p with state := .timeWait, peerFinSeen := false }).onPcb i
        Pcb.tcpArmTimeWait = (t.modify i fun p => { p with
          state := .timeWait, peerFinSeen := false, timeWaitTimer := true
          recvDone := sysSemNotifyTimes p.recvDone p.recvWaiters.toNat },.ok) := by
      simp [Table.onPcb,Table.onConn,Table.conn,Table.modify,Table.setConn,Pcb.tcpArmTimeWait,netTimerAdd]
    simp only [Table.tcpInPeerFin]
    rw [harm,onErr_ok rfl]
    exact .pcb hi (.timeWait _ hs hl) trivial
  | established =>
    simp only [Table.tcpInPeerFin]
    split
    next hl =>
      obtain ⟨l,hl⟩ := Option.ne_none_iff_exists'.1 hl
      exact ⟨detachChild_moves h ⟨hi,hl⟩ _,fun _ => trivial⟩
    next hl =>
      rw [not_not] at hl
      have hm : Moves rx t (t.modify i fun p => { p with
          peerFinSeen := true
          closeRequested := if p.outstanding ≠ none then true else p.closeRequested }) := by
        refine .pcb hi (.peerFin _ hstream hl ?_)
        split <;> simp_all
      split
      next => exact ⟨hm,fun _ => trivial⟩
      next ho =>
        rw [not_not] at ho
        have := localFin_yields rx (h.moves hm) (i := i) hi (by simp [Table.modify,hs])
          (by simp [Table.modify,hl]) (by simp [Table.modify,ho])
        exact .head hm ⟨this.1,fun _ => trivial⟩
  | finWait1 =>
    have hl := h.links.listener_of_state hi (by simp [hs]) (by simp [hs])
    exact .pcb hi (.peerFin _ hstream hl (.inl rfl)) trivial
  | _ => exact .done trivial

theorem inFin_yields (h : Inv t) (hst : Streaming i t) (hf : s.has flagFin = true) :
    Yields (some s) t (t.tcpInFin i s) fun _ => True := by
  unfold Table.tcpInFin
  simp only
  split
  next hq =>
    have hm : Moves (some s) t (t.modify i fun p => { p with rcvNxt := p.rcvNxt+1 }) :=
      .pcb hst.1 (.finSeen rfl hst.2 hf hq)
    have hst' : Streaming i (t.modify i fun p => { p with rcvNxt := p.rcvNxt+1 }) :=
      ⟨hst.1,by simpa [Table.modify] using hst.2⟩
    have hI := h.moves hm
    refine .head hm (.onOk (P := fun t' => Streaming i t' ∧
      (t'.storage i).state = (t.storage i).state) ?_ ?_)
    · exact sendAck_fail_yields _ hI hst' fun l' => ⟨hst',by simp [Table.modify]⟩
    · rintro t' hm' ⟨hst',hs'⟩
      exact inPeerFin_yields (hI.moves hm') hst' hs'
  next =>
    split
    next => exact ⟨(sendAck_yields _ hst).1,fun _ => trivial⟩
    next => exact .done trivial

/-- The acknowledgement that ends a simultaneous close starts TIME_WAIT. -/
theorem inStream_closes (h : Inv t) (hi : t.pcbs i = true) (hc : (t.storage i).Closes s.ack)
    (ha : (t.storage i).Acceptable s.ack) (hf : s.has flagAck = true ∧ ¬s.has flagSyn = true) :
    Moves (some s) t (t.tcpInStream i s).1 := by
  obtain ⟨hs,hp,ho,hend⟩ := hc
  have hl := h.links.listener_of_state hi (by simp [hs]) (by simp [hs])
  have hack : t.tcpAcceptAck i s.ack = (t.modify i fun p => p.tcpAcked s.ack,.ok) := by
    rw [acceptAck_complete ha ⟨ho,hend⟩,if_neg (by simp [hs])]
  have harm : (t.modify i fun p => p.tcpAcked s.ack).onPcb i Pcb.tcpArmTimeWait =
      (t.modify i fun p => { p.tcpAcked s.ack with
        timeWaitTimer := true
        recvDone := sysSemNotifyTimes p.recvDone p.recvWaiters.toNat },.ok) := by
    simp [Table.onPcb,Table.onConn,Table.conn,Table.modify,Table.setConn,Pcb.tcpArmTimeWait,netTimerAdd,
      Pcb.tcpAcked,hs,hp,Pcb.tcpClearOutstanding]
  have heq : t.tcpInStream i s = (t.modify i fun p => { p.tcpAcked s.ack with
      timeWaitTimer := true
      recvDone := sysSemNotifyTimes p.recvDone p.recvWaiters.toNat },.ok) := by
    simp only [Table.tcpInStream]
    rw [if_neg (by simp [hf.1,hf.2]),hack,onOk_ok rfl,if_pos (by simp [Table.modify,Pcb.tcpAcked,hs,hp]),
      harm,onErr_ok rfl]
  obtain ⟨hend',-⟩ := h.owned_state hi (by simp [hs,TcpState.streaming]) ho
  rw [heq]
  exact (Yields.pcb (P := fun _ => True) hi (.ackedClose _ rfl hf.1 ho (hend.trans hend') hs hp hl) trivial).1

theorem inStream_moves (h : Inv t) (hst : Streaming i t) : Moves (some s) t (t.tcpInStream i s).1 := by
  by_cases hf : ¬s.has flagAck ∨ s.has flagSyn
  · simp only [Table.tcpInStream]
    rw [if_pos hf]
    exact .refl
  have hf' : s.has flagAck = true ∧ ¬s.has flagSyn = true := by simpa using hf
  by_cases ha : (t.storage i).Acceptable s.ack
  swap
  · simp only [Table.tcpInStream]
    rw [if_neg hf,acceptAck_unacceptable ha,onOk_err (r := (t,.state)) (by simp)]
    exact .refl
  by_cases hc : (t.storage i).Closes s.ack
  · exact inStream_closes h hst.1 hc ha hf'
  simp only [Table.tcpInStream]
  rw [if_neg hf]
  refine (Yields.onOk (Q := fun _ => True) (acceptAck_yields h hst hf'.1 hc) fun t₁ hm₁ hst₁ => ?_).1
  have hI₁ := h.moves hm₁
  rw [if_neg fun hs => by simpa [hs,TcpState.streaming] using hst₁.2]
  have hm₂ : Moves (some s) t₁ (t₁.modify i fun p => { p with window := s.window }) :=
    .pcb hst₁.1 (.window rfl hst₁.2)
  refine .head hm₂ (.onOk (inData_yields (i := i) ⟨hst₁.1,?_⟩) fun t₃ hm₃ hst₃ => ?_)
  · simpa [Table.modify] using hst₁.2
  · split
    next hfin => exact inFin_yields ((hI₁.moves hm₂).moves hm₃) hst₃ hfin
    next => exact .done trivial

theorem inTimeWait_moves (h : Inv t) (hi : t.pcbs i = true) (hs : (t.storage i).state = .timeWait) :
    Moves (some s) t (t.tcpInTimeWait i s).1 := by
  simp only [Table.tcpInTimeWait]
  split
  next => exact .refl
  next =>
    have hS := h.sound i hi
    have ho : (t.storage i).outstanding = none := by
      cases ho : (t.storage i).outstanding with
      | none => rfl
      | some seg => simpa [hs,Owns] using (hS.owned seg ho).1
    by_cases ha : (t.storage i).Acceptable s.ack
    swap
    · rw [acceptAck_unacceptable ha,onOk_err (r := (t,.state)) (by simp)]
      exact .refl
    rw [acceptAck_short ha (by simp [ho]),onOk_ok rfl]
    obtain ⟨l',e,he,hat⟩ := sendAck_eq t i
    have hm : Moves (some s) t { t with link := l' } := hat.ack_moves hi (.inr hs)
    simp only [he]
    by_cases hok : e = .ok
    · rw [onOk_ok hok]
      have hback : ({ t with link := l' } : Table).onPcb i (fun p =>
          let r := netTimerAdd false
          ({ p with timeWaitTimer := r.1 },r.2)) = ({ t with link := l' },.ok) := by
        have ht : (t.storage i).timeWaitTimer = true := hS.timer.2 hs
        simp [Table.onPcb,Table.onConn,Table.conn,Table.setConn,netTimerAdd,← ht]
      rw [hback,onErr_ok rfl]
      exact hm
    · rw [onOk_err hok]
      exact hm

theorem inSynSent_moves (h : Inv t) (hi : t.pcbs i = true) (hs : (t.storage i).state = .synSent) :
    Moves (some s) t (t.tcpInSynSent i s).1 := by
  simp only [Table.tcpInSynSent]
  split
  next => exact .refl
  next =>
  split
  next => exact .refl
  next hf =>
    obtain ⟨hflags,hack⟩ : s.flags = flagSyn ||| flagAck ∧ s.ack = (t.storage i).iss+1 := by
      simpa [Table.tcpStateAcceptAck,hs] using hf
    have hl := h.links.listener_of_state hi (by simp [hs]) (by simp [hs])
    obtain ⟨l',e,he,hat⟩ := sendAck_eq (t.modify i fun p => p.synAcked s) i
    have hst : (t.modify i fun p => p.synAcked s).storage i = (t.storage i).synAcked s := by
      simp [Table.modify]
    rw [hst] at hat
    rw [he]
    by_cases hok : e = .ok
    · rw [onErr_ok hok,onOk_ok hok]
      obtain ⟨-,hem⟩ := hat.resolve_right fun h => h.1 hok
      convert Moves.conn hi (.synAck (sysSemNotifyTimes (t.storage i).connectDone
        (Pcb.tokens (t.storage i).connectWaiters)) rfl hs hl hflags hack hem) using 1
      simp [Table.modify,Table.setConn,Table.conn,Pcb.synAcked,Pcb.tcpClearOutstanding]
    · have hfail : Yields (some s) t ((t.setConn i ⟨(t.storage i).synAcked s,l'⟩).tcpFail i e)
          fun _ => True :=
        fail_yields h hi (by simp [hs]) ⟨_,_,_,_,_,_,_,_,_,_,_,rfl,.inr ⟨hack,.inl hs⟩⟩
          (hat.resolve_left fun h => hok h.1).2 hok
      rw [onErr_err hok,onOk_err (by simpa [Table.tcpFail] using hok)]
      exact hfail.1

theorem inSynReceived_resend (h : Inv t) (hi : t.pcbs i = true)
    (hs : (t.storage i).state = .synReceived) :
    Moves rx t (onErr (t.onConn i Conn.tcpOutputOwned) fun t err => t.tcpFail i err).1 := by
  have ho : (t.storage i).outstanding ≠ none := fun ho => ((h.sound i hi).idle ho).2.2.1 hs
  obtain ⟨seg,hseg⟩ := Option.ne_none_iff_exists'.1 ho
  obtain ⟨l',e,he,hat⟩ := outputOwned_eq seg hseg
  rw [he]
  by_cases hok : e = .ok
  · rw [onErr_ok hok]
    exact hat.clone_moves hi hseg
  · rw [onErr_err hok,← setConn_link t i]
    exact (fail_yields (P := fun _ => True) h hi (by simp [hs]) (.refl _)
      (hat.resolve_left fun h => hok h.1).2 hok).1

end Tcp
end QuardStarNet
