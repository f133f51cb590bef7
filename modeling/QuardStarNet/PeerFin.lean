import QuardStarNet.Demux
import QuardStarNet.TcpReceive

/-! What a connection still takes in after its peer's FIN. Nothing in `tcp_in` looks at
`peer_fin_seen` before it queues data, so only TIME_WAIT is deaf. -/
namespace QuardStarNet
namespace Tcp

variable {rx : Option Segment} {t t' t'' : Table} {i j l : Slot} {s : Segment} {p p' : Pcb}

/-- The peer's FIN was consumed on a connection that is not closed. -/
def Pcb.Ended (p : Pcb) : Prop :=
  p.state = .timeWait ∨ p.peerFinSeen = true ∧ (p.state = .established ∨ p.state = .finWait1)

instance (p : Pcb) : Decidable p.Ended := inferInstanceAs (Decidable (_ ∨ _))

/-! A FIN stays consumed until the connection is closed. -/
section Ended

/-- The connection of a slot is past its peer's FIN, or there is none. -/
def Table.Past (t : Table) (i : Slot) : Prop :=
  t.pcbs i = true → (t.storage i).Ended ∨ (t.storage i).state = .closed

theorem Pcb.Ended.congr (h : p.Ended) (hs : p'.state = p.state) (hp : p'.peerFinSeen = p.peerFinSeen) :
    p'.Ended := by
  rw [Pcb.Ended,hs,hp]
  exact h

theorem past_congr (hs : p'.state = p.state) (hp : p'.peerFinSeen = p.peerFinSeen)
    (h : p.Ended ∨ p.state = .closed) : p'.Ended ∨ p'.state = .closed :=
  h.imp (fun h => h.congr hs hp) fun h => hs.trans h

theorem PcbMove.past (hm : PcbMove rx p p') (h : p.Ended ∨ p.state = .closed) :
    p'.Ended ∨ p'.state = .closed := by
  cases hm with
  | sems | idled | retry | askClose | closeListen | window | queue | finSeen =>
    exact past_congr rfl rfl h
  | bind => exact past_congr rfl rfl h
  | terminate hl hs hn ht => exact .inr (Terminated.fields ht).2.2
  | acked hrx hf ho ha hs =>
    rcases hs with hs | ⟨hs,hp,-⟩
    · exact past_congr (by simp [Pcb.tcpAcked,hs]) (by simp [Pcb.tcpAcked,hs]) h
    · simp [Pcb.Ended,hs,hp] at h
  | ackedClose b hrx hf ho ha hs hp hl => exact .inl (.inl (by simp [Pcb.tcpAcked,hs,hp]))
  | peerFin c hs hl hc =>
    refine h.imp_left fun h => ?_
    rcases h with h | h
    · simp [h,TcpState.streaming] at hs
    · exact .inr ⟨rfl,h.2⟩
  | timeWait => exact .inl (.inl rfl)
  | expire => exact .inr rfl

theorem ConnMove.past {c c' : Conn} (hm : ConnMove rx c c')
    (h : c.pcb.Ended ∨ c.pcb.state = .closed) : c'.pcb.Ended ∨ c'.pcb.state = .closed := by
  cases hm with
  | pcb hm hw => exact hm.past h
  | ack => exact h
  | clone => exact h
  | fin hs hl ho hem =>
    simp only [Pcb.Ended,hs] at h
    rcases h with (h | h) | h
    · cases h
    · exact .inl (.inr ⟨h.1,.inr rfl⟩)
    · cases h
  | synAck a hrx hs => simp [Pcb.Ended,hs] at h

/-- A change of one block. -/
theorem Table.Past.put (h : t.Past i) (hst : t'.storage = Function.update t.storage j p')
    (hp : t'.pcbs = t.pcbs)
    (hj : (t.storage j).Ended ∨ (t.storage j).state = .closed → p'.Ended ∨ p'.state = .closed) :
    t'.Past i := by
  intro hi
  rw [hp] at hi
  by_cases hij : i = j
  · subst i
    rw [hst,Function.update_self]
    exact hj (h hi)
  · rw [hst,Function.update_of_ne hij]
    exact h hi

theorem Table.Past.modify (h : t.Past i) {f : Pcb → Pcb}
    (hj : (t.storage j).Ended ∨ (t.storage j).state = .closed →
      (f (t.storage j)).Ended ∨ (f (t.storage j)).state = .closed) : (t.modify j f).Past i :=
  h.put rfl rfl hj

/-- A change of another block. -/
theorem Table.Past.other (h : t.Past i) (hij : i ≠ j)
    (hst : t'.storage = Function.update t.storage j p') (hp : t'.pcbs i = t.pcbs i) : t'.Past i := by
  intro hi
  rw [hp] at hi
  rw [hst,Function.update_of_ne hij]
  exact h hi

theorem Move.past (hm : Move rx t t') (h : t.Past i) : t'.Past i := by
  cases hm with
  | @conn j c' hj hc => exact h.put rfl rfl hc.past
  | aux => exact h
  | @dead j p hj hp =>
    intro hi
    have hij : i ≠ j := fun he => by simp [Table.modify,he,hj] at hi
    simpa [Table.modify,hij] using h hi
  | @pend j hj hl hs => exact h.put (j := j) rfl rfl (past_congr rfl rfl)
  | @release j hj hr =>
    intro hi
    simp only [Table.tcpReleaseNow,hj,hr,not_true,if_false,Table.modify] at hi ⊢
    have hij : i ≠ j := fun he => by simp [he] at hi
    simp only [Function.update_of_ne hij] at hi ⊢
    exact h hi
  | @detach j l p' hc ht =>
    have hdrop : (t.modify l (Table.dropChild j)).Past i :=
      h.put (j := l) rfl rfl (past_congr rfl rfl)
    exact hdrop.put (j := j) rfl rfl fun _ => .inr (Terminated.fields ht).2.2

theorem Moves.past (hm : Moves rx t t') (h : t.Past i) : t'.Past i := by
  induction hm with
  | refl => exact h
  | tail _ hm ih => exact hm.past ih

/-- Sections of users change neither the states nor what was seen of the peer. -/
structure SameFins (t t' : Table) : Prop where
  pcbs : t'.pcbs = t.pcbs
  state : ∀ j, (t'.storage j).state = (t.storage j).state
  seen : ∀ j, (t'.storage j).peerFinSeen = (t.storage j).peerFinSeen

theorem SameFins.refl (t : Table) : SameFins t t := ⟨rfl,fun _ => rfl,fun _ => rfl⟩

theorem SameFins.put (hst : t'.storage = Function.update t.storage j p') (hp : t'.pcbs = t.pcbs)
    (hs : p'.state = (t.storage j).state) (hf : p'.peerFinSeen = (t.storage j).peerFinSeen) :
    SameFins t t' := by
  refine ⟨hp,fun k => ?_,fun k => ?_⟩
  · by_cases hk : k = j
    · rw [hst,hk,Function.update_self,hs]
    · rw [hst,Function.update_of_ne hk]
  · by_cases hk : k = j
    · rw [hst,hk,Function.update_self,hf]
    · rw [hst,Function.update_of_ne hk]

theorem SameFins.trans (h : SameFins t t') (h' : SameFins t' t'') : SameFins t t'' :=
  ⟨h'.pcbs.trans h.pcbs,fun j => (h'.state j).trans (h.state j),fun j => (h'.seen j).trans (h.seen j)⟩

theorem SameFins.past (h : SameFins t t') (hp : t.Past i) : t'.Past i := by
  intro hi
  rw [h.pcbs] at hi
  exact past_congr (h.state i) (h.seen i) (hp hi)

theorem SameFins.accepting (h : Inv t) (l i : Slot) :
    SameFins t (t.tcpAcceptAcquire l).1 ∧ SameFins t (t.tcpAcceptPeek l).1 ∧
    SameFins t (t.tcpAcceptCommitAcquired l i).1 ∧ SameFins t (t.tcpAcceptReleaseAcquired l).1 ∧
    SameFins t (t.tcpAcceptReleaseChildAcquired l i).1 := by
  refine ⟨?_,?_,?_,?_,?_⟩
  · rcases acceptAcquire_cases t l with ⟨e,-,he⟩ | ⟨-,-,he⟩ <;> rw [he]
    · exact .refl t
    · exact .put (j := l) rfl rfl rfl rfl
  · rcases acceptPeek_cases h l with ⟨r,-,he⟩ | ⟨c,-,-,he⟩ <;> rw [he]
    · exact .refl t
    · exact .put (j := c) rfl rfl rfl rfl
  · rcases acceptCommit_cases h l i with ⟨e,-,he⟩ | ⟨hc,he⟩ <;> rw [he]
    · exact .refl t
    · have hne := h.links.ne_of_child hc.child
      have h₁ : SameFins t (t.modify l Pcb.dequeue) := .put (j := l) rfl rfl rfl rfl
      refine h₁.trans (.put (j := i) rfl rfl ?_ ?_)
      · simp [Table.modify,hne,Pcb.committed]
      · simp [Table.modify,hne,Pcb.committed]
  · rcases acceptRelease_cases t l with ⟨e,-,he⟩ | ⟨-,-,he⟩ <;> rw [he]
    · exact .refl t
    · exact .put (j := l) rfl rfl rfl rfl
  · rcases acceptReleaseChild_cases t l i with ⟨e,-,he⟩ | ⟨-,-,-,-,-,he⟩ <;> rw [he]
    · exact .refl t
    · have h₁ : SameFins t (t.unpinned i) := .put (j := i) rfl rfl rfl rfl
      exact h₁.trans (.put (j := l) rfl rfl rfl rfl)

theorem SameFins.waiting (t : Table) (i : Slot) (w : Pcb.Wait) :
    SameFins t (t.tcpWaitAcquire i w).1 ∧ SameFins t (t.act (.waitToken i w)) ∧
    SameFins t (t.act (.waitLeave i w)) ∧ SameFins t (t.tcpRecvAcquire i).1 := by
  refine ⟨?_,?_,?_,?_⟩
  · rcases tcpWaitAcquire_cases t i w with ⟨e,-,he⟩ | ⟨-,he⟩ <;> rw [he]
    · exact .refl t
    · exact .put (j := i) rfl rfl (by cases w <;> rfl) (by cases w <;> rfl)
  · exact .put (j := i) rfl rfl (by cases w <;> rfl) (by cases w <;> rfl)
  · exact .put (j := i) rfl rfl (by cases w <;> rfl) (by cases w <;> rfl)
  · rcases tcpRecvAcquire_cases t i with ⟨e,-,he⟩ | ⟨-,he⟩ <;> rw [he]
    · exact .refl t
    · exact .put (j := i) rfl rfl rfl rfl

theorem SameFins.taking (t : Table) (i : Slot) (size : ℕ) : SameFins t (t.recvTake i size).1 := by
  unfold Table.recvTake Pcb.tcpRecvTake
  by_cases hc : (t.storage i).recv.count = 0
  · simpa [hc] using SameFins.refl t
  · simp only [hc,if_false]
    exact .put (j := i) rfl rfl rfl rfl

/-- A new child takes a free slot. -/
theorem Table.Past.spawned (h : t.Past i) (hi : t.pcbs i = true) (hj : t.pcbs j = false) (q : Pcb)
    (k : Link) : (t.spawned l j q k).Past i := by
  intro _
  have hij : i ≠ j := fun he => by simp [he,hj] at hi
  have h₁ : (t.modify l fun q => { q with pendingCount := q.pendingCount+1 }).Past i :=
    h.put (j := l) rfl rfl (past_congr rfl rfl)
  simpa [Table.spawned,hij,Table.modify] using h₁ hi

theorem Arrival.past {netif : NetifId} {src dest : IpAddr} (ha : Arrival t s netif src dest t')
    (h : t.Past i) (hi : t.pcbs i = true) : t'.Past i := by
  cases ha with
  | moves hm => exact hm.past h
  | @completed l j hc hs hr hcomp =>
    have h₁ : (t.modify j fun p => p.handshaken s).Past i :=
      h.put (j := j) rfl rfl fun hj => by simp [Pcb.Ended,hs] at hj
    exact h₁.put (j := l) rfl rfl (past_congr rfl rfl)
  | @spawned l j x y z k p hl hr hj hb hf hp hem => exact h.spawned hi hj _ _
  | @spawnFailed l j x y z k p n u e hl hj hb hp hw =>
    subst hp
    have hne : j ≠ l := fun he => by simp [he,hl.1] at hj
    rw [detachChild_eq (i := j) (l := l) (by simp [Table.spawned])
      (by simp [Table.spawned,Table.passiveChild]) hne]
    have h₁ := h.spawned (l := l) hi hj { t.passiveChild l netif src s.srcPort s.seq s.window
      (.allocated false x y z) with retryCount := n, outstandingEnd := u } k
    have h₂ := h₁.modify (j := l) (f := Table.dropChild j) (past_congr rfl rfl)
    exact h₂.put (j := j) rfl rfl fun _ => .inr (Pcb.tcpTerminate_state _ _)

/-- No section of the module brings a connection back behind its peer's FIN. -/
theorem Table.Past.act (hI : Inv t) (hi : t.pcbs i = true) (he : (t.storage i).Ended) (a : Action) :
    (t.act a).Past i := by
  have h : t.Past i := fun _ => .inl he
  have hclosed : ∀ {j}, (t.storage j).state = .closed → i ≠ j := by
    rintro j hs rfl
    simp [Pcb.Ended,hs] at he
  cases a with
  | tcpOpen a =>
    rcases tcpAlloc_cases none t a with ⟨t',he,hm⟩ | ⟨j,x,y,z,k,he,hj,-⟩
    · simpa [Table.act,he] using hm.past h
    · have hij : i ≠ j := fun he => by simp [he,hj] at hi
      simp only [Table.act,he]
      exact h.other hij rfl (by simp [Table.allocated,hij])
  | tcpBind j netif ip port => exact (bind_moves none t j netif ip port).past h
  | tcpListen j b =>
    rcases tcpListen_cases none t j b with ⟨t',e,he,hm⟩ | ⟨a,k,he,hj,-,hs,-⟩
    · simpa [Table.act,he] using hm.past h
    · simp only [Table.act,he]
      exact h.other (hclosed hs) rfl rfl
  | tcpAcceptAcquire l => exact (SameFins.accepting hI l l).1.past h
  | tcpAcceptPeek l => exact (SameFins.accepting hI l l).2.1.past h
  | acceptToken j => exact h.put (j := j) rfl rfl (past_congr rfl rfl)
  | tcpAcceptCommit l c => exact (SameFins.accepting hI l c).2.2.1.past h
  | tcpAcceptRelease l => exact (SameFins.accepting hI l l).2.2.2.1.past h
  | tcpAcceptReleaseChild l c => exact (SameFins.accepting hI l c).2.2.2.2.past h
  | tcpConnectStart j netif remote port =>
    rcases tcpConnectStart_cases none hI j netif remote port with ⟨t',e,he,-,hm⟩ | ⟨p,n,k,e,he,hj,hc,-⟩
    · simpa [Table.act,he] using hm.past h
    · simp only [Table.act,he]
      exact h.other (hclosed hc.2.2.2.2.1) rfl rfl
  | tcpSendStart j data =>
    rcases tcpSendStart_cases none hI j data with ⟨t',e,he,-,-,hm⟩ | ⟨k,he,hj,hs,-⟩
    · simpa [Table.act,he] using hm.past h
    · simp only [Table.act,he]
      exact h.put (j := j) rfl rfl (past_congr rfl rfl)
  | tcpWaitAcquire j w => exact (SameFins.waiting t j w).1.past h
  | waitToken j w => exact (SameFins.waiting t j w).2.1.past h
  | waitLeave j w => exact (SameFins.waiting t j w).2.2.1.past h
  | tcpRecvAcquire j => exact (SameFins.waiting t j .close).2.2.2.past h
  | tcpRecvTake j n => exact (SameFins.taking t j n).past h
  | recvToken j => exact h.put (j := j) rfl rfl (past_congr rfl rfl)
  | tcpRecvLeave j => exact h.modify (past_congr rfl rfl)
  | tcpClose j => exact (close_moves none hI j).past h
  | tcpSocketDetach j =>
    rcases tcpSocketDetach_cases t j with ⟨e,-,he⟩ | ⟨-,he,-⟩
    · simpa [Table.act,he] using h
    · simp only [Table.act,he]
      exact (releaseNow_moves none _ j).past (h.modify (past_congr rfl rfl))
  | tcpRetransmitDue j => exact (retransmitDue_moves none hI j).past h
  | tcpTimeWaitProc j => exact (timeWaitProc_moves none hI j).past h
  | tcpReleaseProc j => exact (releaseProc_moves none hI j).past h
  | tcpIn netif src dest buf =>
    simp only [Table.act,Table.tcpIn]
    split
    next => exact h
    next s _ =>
      split
      next => exact h
      next => exact (inSegment_arrival hI s netif src dest).past h hi

end Ended

/-! What one segment can change in the ring and in `rcv_nxt`. -/
section Intake

/-- What a block has received. -/
def Pcb.intake (p : Pcb) : Ring Byte recvMax × BitVec 32 := (p.recv,p.rcvNxt)

theorem startOutstanding_intake (c : Conn) (seg : Segment) (last : BitVec 32) :
    (c.tcpStartOutstanding seg last).1.pcb.intake = c.pcb.intake ∧
      (c.tcpStartOutstanding seg last).1.pcb.peerFinSeen = c.pcb.peerFinSeen := by
  unfold Conn.tcpStartOutstanding
  refine onErr_fst (P := fun d : Conn => d.pcb.intake = c.pcb.intake ∧
      d.pcb.peerFinSeen = c.pcb.peerFinSeen)
    (onOk_fst (P := fun d : Conn => d.pcb.intake = c.pcb.intake ∧
      d.pcb.peerFinSeen = c.pcb.peerFinSeen) ?_ fun d h => h) fun d e h => h
  rw [outputOwned_pcb]
  exact ⟨rfl,rfl⟩

/-- The local FIN leaves alone what was received. -/
theorem startLocalFin_intake (c : Conn) :
    c.tcpStartLocalFin.1.pcb.intake = c.pcb.intake ∧
      (c.tcpStartLocalFin.2 = .ok → c.tcpStartLocalFin.1.pcb.state = .finWait1 ∧
        c.tcpStartLocalFin.1.pcb.peerFinSeen = c.pcb.peerFinSeen) := by
  unfold Conn.tcpStartLocalFin
  split
  next => exact ⟨rfl,by simp⟩
  next =>
    unfold Conn.tcpSendFin Conn.tcpSendOwned
    dsimp only
    split
    next => exact ⟨rfl,by simp⟩
    next seg _ =>
      obtain ⟨hin,hseen⟩ := startOutstanding_intake
        (c.tcpMakeSegment c.pcb.sndNxt c.pcb.rcvNxt (flagFin ||| flagAck) []).1 seg (c.pcb.sndNxt+1)
      by_cases hok : ((c.tcpMakeSegment c.pcb.sndNxt c.pcb.rcvNxt (flagFin ||| flagAck)
          []).1.tcpStartOutstanding seg (c.pcb.sndNxt+1)).2 = .ok
      · rw [onOk_ok hok]
        exact ⟨hin,fun _ => ⟨rfl,hseen⟩⟩
      · rw [onOk_err hok]
        exact ⟨hin,fun h => absurd h hok⟩

/-- The block in slot `i` is still there with what it has received. -/
structure Table.Still (i : Slot) (t t' : Table) : Prop where
  pcbs : t'.pcbs = t.pcbs
  intake : (t'.storage i).intake = (t.storage i).intake

namespace Table.Still

theorem refl (t : Table) : Still i t t := ⟨rfl,rfl⟩

theorem trans (h : Still i t t') (h' : Still i t' t'') : Still i t t'' :=
  ⟨h'.pcbs.trans h.pcbs,h'.intake.trans h.intake⟩

theorem put (hst : t'.storage = Function.update t.storage j p') (hp : t'.pcbs = t.pcbs)
    (hin : p'.intake = (t.storage j).intake) : Still i t t' := by
  refine ⟨hp,?_⟩
  by_cases hij : i = j
  · rw [hst,hij,Function.update_self,hin]
  · rw [hst,Function.update_of_ne hij]

theorem sendAck (t : Table) (j : Slot) : Still i t (t.onConn j Conn.tcpSendAck).1 :=
  put (j := j) rfl rfl (by rw [sendAck_pcb]; rfl)

theorem startLocalFin (t : Table) (j : Slot) : Still i t (t.onConn j Conn.tcpStartLocalFin).1 :=
  put (j := j) rfl rfl (startLocalFin_intake (t.conn j)).1

end Table.Still

theorem Pcb.tcpTerminate_intake (p : Pcb) (e : NetErr) : (p.tcpTerminate e).intake = p.intake := by
  obtain ⟨a,b,c,he⟩ := Pcb.tcpTerminate_eq p e
  rw [he]
  rfl

/-- A child that is detached is closed and keeps its ring. -/
theorem detachChild_still (t : Table) (j : Slot) (e : NetErr) :
    Table.Still i t (t.tcpListenerDetachChild j e) ∧
      (t.pcbs j = true → (t.storage j).listener ≠ none →
        ((t.tcpListenerDetachChild j e).storage j).state = .closed) := by
  unfold Table.tcpListenerDetachChild
  split
  next hn => exact ⟨.refl t,fun _ h => absurd hn h⟩
  next l hl =>
    split
    next hj => exact ⟨.refl t,fun h => absurd h hj⟩
    next hj =>
      rw [not_not] at hj
      dsimp only
      rw [requestRelease_eq (by exact hj),if_pos rfl]
      have h₁ : Table.Still i t (t.modify l (Table.dropChild j)) := .put (j := l) rfl rfl rfl
      have h₂ : Table.Still i (t.modify l (Table.dropChild j)) ((t.modify l (Table.dropChild j)).modify j
          fun p => { p with listener := none, releasePending := true }.tcpTerminate e) :=
        .put (j := j) rfl rfl (Pcb.tcpTerminate_intake _ e)
      refine ⟨h₁.trans (h₂.trans (.put (j := j) rfl rfl rfl)),fun _ _ => ?_⟩
      simp [Table.modify,Pcb.tcpTerminate_state]

/-- A connection that fails is closed and keeps its ring. -/
theorem fail_still (t : Table) (i : Slot) (e : NetErr) :
    Table.Still i t (t.tcpFail i e).1 ∧ ((t.tcpFail i e).1.storage i).state = .closed := by
  have h₁ : Table.Still i t (t.modify i fun p => p.tcpTerminate e) :=
    .put (j := i) rfl rfl (Pcb.tcpTerminate_intake _ e)
  have hs : ((t.modify i fun p => p.tcpTerminate e).storage i).state = .closed := by
    simp [Table.modify,Pcb.tcpTerminate_state]
  unfold Table.tcpFail
  dsimp only
  split
  next hl =>
    obtain ⟨h₂,h₃⟩ := detachChild_still (i := i) (t.modify i fun p => p.tcpTerminate e) i e
    refine ⟨h₁.trans h₂,?_⟩
    by_cases hi : t.pcbs i = true
    · exact h₃ hi hl
    · have heq : (t.modify i fun p => p.tcpTerminate e).tcpListenerDetachChild i e =
          t.modify i fun p => p.tcpTerminate e := by
        unfold Table.tcpListenerDetachChild
        split
        next => rfl
        next => exact if_pos hi
      rw [heq]
      exact hs
  next => exact ⟨h₁,hs⟩

/-- A call whose error fails the connection. -/
theorem orFail_still {r : Table × NetErr} (h : Table.Still i t r.1) :
    Table.Still i t (onErr r fun t e => t.tcpFail i e).1 :=
  onErr_fst (P := Table.Still i t) h fun t' e h => h.trans (fail_still t' i e).1

/-- The acknowledgement in a segment changes the sending side only. -/
theorem acceptAck_still (hs : (t.storage i).state.streaming = true) (ack : BitVec 32) :
    Table.Still i t (t.tcpAcceptAck i ack).1 ∧ ((t.tcpAcceptAck i ack).2 = .ok →
      ((t.tcpAcceptAck i ack).1.storage i).state.streaming = true ∨
        ((t.tcpAcceptAck i ack).1.storage i).state = .timeWait) := by
  unfold Table.tcpAcceptAck
  dsimp only
  split
  next => exact ⟨.refl t,by simp⟩
  next =>
  split
  swap
  next => exact ⟨.refl t,fun _ => .inl hs⟩
  next =>
    have hack : Table.Still i t (t.modify i fun p => p.tcpAcked ack) := .put (j := i) rfl rfl rfl
    have hst : ((t.modify i fun p => p.tcpAcked ack).storage i).state.streaming = true ∨
        ((t.modify i fun p => p.tcpAcked ack).storage i).state = .timeWait := by
      cases hst : (t.storage i).state <;> cases hp : (t.storage i).peerFinSeen <;>
        simp_all [Table.modify,Pcb.tcpAcked,TcpState.streaming]
    split
    swap
    next => exact ⟨hack,fun _ => hst⟩
    next =>
      refine ⟨orFail_still (hack.trans (.startLocalFin _ i)),fun hok => .inl ?_⟩
      by_cases he : ((t.modify i fun p => p.tcpAcked ack).onConn i Conn.tcpStartLocalFin).2 = .ok
      · rw [onErr_ok he]
        have := ((startLocalFin_intake ((t.modify i fun p => p.tcpAcked ack).conn i)).2 he).1
        simp [Table.onConn,Table.setConn,this,TcpState.streaming]
      · rw [onErr_err he] at hok
        exact absurd hok he

/-- Sequence numbers of the payload. -/
abbrev Segment.size (s : Segment) : BitVec 32 := BitVec.ofNat 32 s.payload.length

/-- What the block `p` took of the segment `s` to become `p'`. -/
inductive Took (s : Segment) (p p' : Pcb) : Prop
  | nothing (intake : p'.intake = p.intake)
  | data (seq : s.seq = p.rcvNxt) (pos : 0 < s.payload.length)
      (ring : p'.recv.contents = p.recv.contents++s.payload) (next : p'.rcvNxt = p.rcvNxt+s.size)
  | fin (flag : s.has flagFin = true) (seq : s.seq+s.size = p.rcvNxt) (ring : p'.recv = p.recv)
      (next : p'.rcvNxt = p.rcvNxt+1) (past : p'.Ended ∨ p'.state = .closed)
  | dataFin (flag : s.has flagFin = true) (seq : s.seq = p.rcvNxt) (pos : 0 < s.payload.length)
      (ring : p'.recv.contents = p.recv.contents++s.payload) (next : p'.rcvNxt = p.rcvNxt+s.size+1)
      (past : p'.Ended ∨ p'.state = .closed)

theorem inData_took (t : Table) (i : Slot) (s : Segment) :
    (t.tcpInData i s).1.pcbs = t.pcbs ∧
      ((t.tcpInData i s).1.storage i).state = (t.storage i).state ∧
      (((t.tcpInData i s).1.storage i).intake = (t.storage i).intake ∨
        s.seq = (t.storage i).rcvNxt ∧ 0 < s.payload.length ∧
          ((t.tcpInData i s).1.storage i).recv.contents = (t.storage i).recv.contents++s.payload ∧
          ((t.tcpInData i s).1.storage i).rcvNxt = (t.storage i).rcvNxt+s.size) := by
  have hstate : ∀ t' : Table, (((t'.onConn i Conn.tcpSendAck).1.storage i)) = t'.storage i := by
    intro t'
    simp only [Table.onConn,Table.setConn,Function.update_self,sendAck_pcb]
    rfl
  unfold Table.tcpInData
  dsimp only
  by_cases hc : 0 < s.payload.length ∧ s.seq = (t.storage i).rcvNxt
  swap
  · rw [if_neg hc,onOk_ok rfl]
    dsimp only
    split
    next => exact ⟨rfl,by rw [hstate],.inl (by rw [hstate])⟩
    next => exact ⟨rfl,rfl,.inl rfl⟩
  rw [if_pos hc]
  have hself : t.setConn i ⟨t.storage i,t.link⟩ = t := by simp [Table.setConn]
  by_cases hm : mss < s.payload.length
  · have hq : t.onPcb i (fun p => p.tcpQueueData s.payload) = (t,.size) := by
      simp [Table.onPcb,Table.onConn,Pcb.tcpQueueData,Table.conn,hm,hself]
    rw [hq,onOk_err (r := (t,.size)) (by simp),onOk_err (r := (t,.size)) (by simp)]
    exact ⟨rfl,rfl,.inl rfl⟩
  by_cases hf : s.payload.length ≤ recvMax-(t.storage i).recv.count
  swap
  · have hq : t.onPcb i (fun p => p.tcpQueueData s.payload) = (t,.full) := by
      simp [Table.onPcb,Table.onConn,Pcb.tcpQueueData,Table.conn,hm,hf,hself]
    rw [hq,onOk_err (r := (t,.full)) (by simp),onOk_err (r := (t,.full)) (by simp)]
    exact ⟨rfl,rfl,.inl rfl⟩
  have hq : t.onPcb i (fun p => p.tcpQueueData s.payload) =
      (t.setConn i ⟨(t.storage i).queued s.payload hf,t.link⟩,.ok) := by
    simp [Table.onPcb,Table.onConn,Pcb.tcpQueueData,Table.conn,hm,hf]
  rw [hq,onOk_ok rfl,onOk_ok rfl,if_pos hc.1]
  refine ⟨rfl,?_,.inr ⟨hc.2,hc.1,?_,?_⟩⟩
  · rw [hstate]
    simp [Table.modify,Table.setConn,Pcb.queued]
  · rw [hstate]
    simp [Table.modify,Table.setConn,Pcb.queued]
  · rw [hstate]
    simp [Table.modify,Table.setConn,Pcb.queued]

/-- After a FIN was acknowledged the connection is past it or closed. -/
theorem inPeerFin_past (hi : t.pcbs i = true) (hs : (t.storage i).state.streaming = true) :
    Table.Still i t (t.tcpInPeerFin i (t.storage i).state).1 ∧
      ((((t.tcpInPeerFin i (t.storage i).state).1.storage i)).Ended ∨
        ((t.tcpInPeerFin i (t.storage i).state).1.storage i).state = .closed) := by
  cases hst : (t.storage i).state with
  | finWait2 =>
    have harm : (t.modify i fun p => { p with state := .timeWait, peerFinSeen := false }).onPcb i
        Pcb.tcpArmTimeWait = (t.modify i fun p => { p with
          state := .timeWait, peerFinSeen := false, timeWaitTimer := true
          recvDone := sysSemNotifyTimes p.recvDone p.recvWaiters.toNat },.ok) := by
      simp [Table.onPcb,Table.onConn,Table.conn,Table.modify,Table.setConn,Pcb.tcpArmTimeWait,netTimerAdd]
    simp only [Table.tcpInPeerFin]
    rw [harm,onErr_ok rfl]
    exact ⟨.put (j := i) rfl rfl rfl,.inl (.inl (by simp [Table.modify]))⟩
  | established =>
    simp only [Table.tcpInPeerFin]
    split
    next hl =>
      obtain ⟨h₁,h₂⟩ := detachChild_still (i := i) t i .state
      exact ⟨h₁,.inr (h₂ hi hl)⟩
    next hl =>
      have h₁ : Table.Still i t (t.modify i fun p => { p with
          peerFinSeen := true
          closeRequested := if p.outstanding ≠ none then true else p.closeRequested }) :=
        .put (j := i) rfl rfl rfl
      split
      next => exact ⟨h₁,.inl (.inr ⟨by simp [Table.modify],.inl (by simp [Table.modify,hst])⟩)⟩
      next =>
        refine ⟨orFail_still (h₁.trans (.startLocalFin _ i)),?_⟩
        by_cases he : ((t.modify i fun p => { p with
            peerFinSeen := true
            closeRequested := if p.outstanding ≠ none then true else p.closeRequested }).onConn i
              Conn.tcpStartLocalFin).2 = .ok
        · rw [onErr_ok he]
          obtain ⟨hfin,hseen⟩ := (startLocalFin_intake ((t.modify i fun p => { p with
            peerFinSeen := true
            closeRequested := if p.outstanding ≠ none then true else p.closeRequested }).conn i)).2 he
          refine .inl (.inr ⟨?_,.inr ?_⟩)
          · simp only [Table.onConn,Table.setConn,Function.update_self,hseen]
            simp [Table.conn,Table.modify]
          · simp only [Table.onConn,Table.setConn,Function.update_self,hfin]
        · rw [onErr_err he]
          exact .inr (fail_still _ i _).2
  | finWait1 =>
    exact ⟨.put (j := i) rfl rfl rfl,
      .inl (.inr ⟨by simp [Table.tcpInPeerFin,Table.modify],.inr (by simp [Table.tcpInPeerFin,Table.modify,hst])⟩)⟩
  | _ => simp [hst,TcpState.streaming] at hs

theorem inFin_took (hi : t.pcbs i = true) (hs : (t.storage i).state.streaming = true) (s : Segment) :
    ((t.tcpInFin i s).1.storage i).intake = (t.storage i).intake ∨
      s.seq+s.size = (t.storage i).rcvNxt ∧
        ((t.tcpInFin i s).1.storage i).intake = ((t.storage i).recv,(t.storage i).rcvNxt+1) ∧
        (((t.tcpInFin i s).1.storage i).Ended ∨ ((t.tcpInFin i s).1.storage i).state = .closed) := by
  unfold Table.tcpInFin
  dsimp only
  split
  next hq =>
    have hin : ((t.modify i fun p => { p with rcvNxt := p.rcvNxt+1 }).storage i).intake =
        ((t.storage i).recv,(t.storage i).rcvNxt+1) := by simp [Table.modify,Pcb.intake]
    obtain ⟨l',e,he,-⟩ := sendAck_eq (t.modify i fun p => { p with rcvNxt := p.rcvNxt+1 }) i
    rw [he]
    refine .inr ⟨hq,?_⟩
    by_cases hok : e = .ok
    · rw [onErr_ok hok,onOk_ok hok]
      have hst : (t.storage i).state = (({ t.modify i fun p => { p with rcvNxt := p.rcvNxt+1 } with
          link := l' } : Table).storage i).state := by simp [Table.modify]
      rw [hst] at hs ⊢
      obtain ⟨h₁,h₂⟩ := inPeerFin_past (t := { t.modify i fun p => { p with rcvNxt := p.rcvNxt+1 } with
        link := l' }) hi hs
      exact ⟨h₁.intake.trans hin,h₂⟩
    · rw [onErr_err hok]
      obtain ⟨h₁,h₂⟩ := fail_still ({ t.modify i fun p => { p with rcvNxt := p.rcvNxt+1 } with
        link := l' }) i e
      rw [onOk_err (by simpa [Table.tcpFail] using hok)]
      exact ⟨h₁.intake.trans hin,.inr h₂⟩
  next =>
    split
    next => exact .inl (Table.Still.sendAck t i).intake
    next => exact .inl rfl

/-- `tcp_in` on a stream. -/
theorem inStream_took (hi : t.pcbs i = true) (hs : (t.storage i).state.streaming = true) (s : Segment) :
    Took s (t.storage i) ((t.tcpInStream i s).1.storage i) := by
  unfold Table.tcpInStream
  split
  next => exact .nothing rfl
  next =>
  obtain ⟨hack,hst⟩ := acceptAck_still hs s.ack
  generalize t.tcpAcceptAck i s.ack = r at hack hst ⊢
  obtain ⟨t₁,e⟩ := r
  by_cases hok : e = .ok
  swap
  · rw [onOk_err hok]
    exact .nothing hack.intake
  rw [onOk_ok hok]
  dsimp only
  split
  next htw =>
    have harm : Table.Still i t₁ (t₁.onPcb i Pcb.tcpArmTimeWait).1 := by
      refine .put (j := i) rfl rfl ?_
      show (Pcb.tcpArmTimeWait (t₁.storage i)).1.intake = _
      unfold Pcb.tcpArmTimeWait
      split
      next => rfl
      next => rfl
    exact .nothing (orFail_still (hack.trans harm)).intake
  next htw =>
    have hs₁ : (t₁.storage i).state.streaming = true := (hst hok).resolve_right htw
    have hw : Table.Still i t (t₁.modify i fun p => { p with window := s.window }) :=
      hack.trans (.put (j := i) rfl rfl rfl)
    have hws : ((t₁.modify i fun p => { p with window := s.window }).storage i).state.streaming =
        true := by simpa [Table.modify] using hs₁
    obtain ⟨hp,hstate,hdata⟩ := inData_took (t₁.modify i fun p => { p with window := s.window }) i s
    generalize (t₁.modify i fun p => { p with window := s.window }) = t₂ at hw hws hp hstate hdata ⊢
    generalize t₂.tcpInData i s = r at hp hstate hdata ⊢
    obtain ⟨t₃,e⟩ := r
    have hin := hw.intake
    simp only [Pcb.intake,Prod.mk.injEq] at hin
    rw [hin.1,hin.2] at hdata
    have hplain : Took s (t.storage i) (t₃.storage i) := by
      rcases hdata with hdata | ⟨h₁,h₂,h₃,h₄⟩
      · exact .nothing (hdata.trans hw.intake)
      · exact .data h₁ h₂ h₃ h₄
    by_cases hok : e = .ok
    swap
    · rw [onOk_err hok]
      exact hplain
    rw [onOk_ok hok]
    dsimp only
    split
    swap
    next => exact hplain
    next hfin =>
      have hi₃ : t₃.pcbs i = true := by rw [hp,hw.pcbs,hi]
      rcases inFin_took hi₃ (hstate ▸ hws) s with hsame | ⟨hseq,hnew,hpast⟩
      · simp only [Pcb.intake,Prod.mk.injEq] at hsame
        rcases hdata with hdata | ⟨h₁,h₂,h₃,h₄⟩
        · refine .nothing (Eq.trans ?_ (hdata.trans hw.intake))
          simp [Pcb.intake,hsame]
        · exact .data h₁ h₂ (by rw [hsame.1,h₃]) (by rw [hsame.2,h₄])
      · simp only [Pcb.intake,Prod.mk.injEq] at hnew
        rcases hdata with hdata | ⟨h₁,h₂,h₃,h₄⟩
        · simp only [Pcb.intake,Prod.mk.injEq] at hdata
          rw [hdata.2,hin.2] at hseq hnew
          exact .fin hfin hseq (by rw [hnew.1,hdata.1,hin.1]) hnew.2 hpast
        · exact .dataFin hfin h₁ h₂ (by rw [hnew.1,h₃]) (by rw [hnew.2,h₄]) hpast

/-- In TIME_WAIT nothing more is taken. -/
theorem inTimeWait_still (ho : (t.storage i).outstanding = none) (s : Segment) :
    ((t.tcpInTimeWait i s).1.storage i).intake = (t.storage i).intake := by
  unfold Table.tcpInTimeWait
  dsimp only
  split
  next => rfl
  next =>
    by_cases ha : (t.storage i).Acceptable s.ack
    swap
    · rw [acceptAck_unacceptable ha,onOk_err (r := (t,.state)) (by simp)]
    rw [acceptAck_short ha (by simp [ho]),onOk_ok rfl]
    have h₁ : Table.Still i t (t.onConn i Conn.tcpSendAck).1 := .sendAck t i
    generalize t.onConn i Conn.tcpSendAck = r at h₁ ⊢
    by_cases hok : r.2 = .ok
    · rw [onOk_ok hok]
      have h₂ : Table.Still i r.1 (r.1.onPcb i fun p =>
          let r := netTimerAdd false
          ({ p with timeWaitTimer := r.1 },r.2)).1 := .put (j := i) rfl rfl rfl
      exact (orFail_still (h₁.trans h₂)).intake
    · rw [onOk_err hok]
      exact h₁.intake

end Intake

/-- A segment without errors for which `tcp_in` finds the block in slot `i`. -/
structure Table.Reaches (t : Table) (netif : NetifId) (src dest : IpAddr) (buf : List Byte) (i : Slot)
    (s : Segment) : Prop where
  parsed : Segment.ofBytes buf = some s
  check : tcpInCheck s src dest = .ok
  found : t.tcpFindPcb netif src dest s.srcPort s.destPort = some i

/-- The step advances `rcv_nxt` of the block in slot `i` past the FIN of a segment. -/
def Table.ConsumesFin (t : Table) (i : Slot) (st : Table.Step) : Prop :=
  ∃ netif src dest buf s, st.2 = .tcpIn netif src dest buf ∧ t.Reaches netif src dest buf i s ∧
    s.has flagFin = true ∧ ((t.step st).storage i).rcvNxt ≠ (t.storage i).rcvNxt ∧
    ((t.step st).storage i).rcvNxt = s.seq+s.size+1

/-- There is a connection in slot `i`. -/
def Table.Open (t : Table) (i : Slot) : Prop := t.pcbs i = true ∧ (t.storage i).state ≠ .closed

/-- A run in which the peer's FIN on the connection in slot `i` was consumed at some point, and the
connection was not closed since. -/
inductive AfterFin (i : Slot) : List Table.Step → Prop
  | consumed {steps : List Table.Step} {st : Table.Step} : (tcpInit.run steps).ConsumesFin i st →
      (tcpInit.run (steps++[st])).Open i → AfterFin i (steps++[st])
  | later {steps : List Table.Step} (st : Table.Step) : AfterFin i steps →
      (tcpInit.run (steps++[st])).Open i → AfterFin i (steps++[st])

/-- The segment has data at `rcv_nxt`, or a FIN there, for a connection that still looks. -/
def Pcb.Overruns (p : Pcb) (s : Segment) : Prop :=
  p.state ≠ .timeWait ∧
    (s.seq = p.rcvNxt ∧ 0 < s.payload.length ∨ s.has flagFin = true ∧ s.seq+s.size = p.rcvNxt)

section Result

variable {netif : NetifId} {src dest : IpAddr} {buf : List Byte} {steps : List Table.Step}

theorem run_snoc (t : Table) (steps : List Table.Step) (st : Table.Step) :
    t.run (steps++[st]) = (t.run steps).step st := by
  simp [Table.run]

theorem Table.Reaches.step (h : t.Reaches netif src dest buf i s) (fates : List NetErr) :
    t.step (fates,.tcpIn netif src dest buf) = ((t.supply fates).tcpInPcb i s).1 := by
  have hfind : (t.supply fates).tcpFindPcb netif src dest s.srcPort s.destPort = some i := h.found
  simp only [Table.step,Table.act,Table.tcpIn,h.parsed]
  rw [if_neg (by simp [h.check]),Table.tcpInSegment,hfind]

theorem Inv.timeWait_idle (h : Inv t) (hi : t.pcbs i = true) (hs : (t.storage i).state = .timeWait) :
    (t.storage i).outstanding = none := by
  by_contra ho
  obtain ⟨seg,hseg⟩ := Option.ne_none_iff_exists'.1 ho
  have := ((h.sound i hi).owned seg hseg).1
  simp [hs,Owns] at this

/-- A block that does not stream yet, or no longer, takes no FIN. -/
theorem inPcb_deaf (hI : Inv t) (hi : t.pcbs i = true) (hs : (t.storage i).state.streaming = false)
    (hf : s.has flagFin = true) :
    ((t.tcpInPcb i s).1.storage i).intake = (t.storage i).intake := by
  have hflags : ∀ f, f &&& flagFin = 0 → s.flags ≠ f := by
    rintro f h0 rfl
    simp [Segment.has,h0] at hf
  unfold Table.tcpInPcb
  cases hst : (t.storage i).state with
  | timeWait =>
    exact inTimeWait_still (hI.timeWait_idle hi hst) s
  | synSent =>
    simp only [Table.tcpInSynSent]
    split
    next => rfl
    next =>
      rw [if_pos (.inl (hflags _ (by decide)))]
  | synReceived =>
    simp only [Table.tcpInSynReceived]
    split
    next => rfl
    next =>
      rw [if_neg fun h => hflags _ (by decide) h.1,if_pos (.inl (hflags _ (by decide)))]
  | closed | listen => rfl
  | established | finWait1 | finWait2 => simp [hst,TcpState.streaming] at hs

theorem inPcb_streaming (hs : (t.storage i).state.streaming = true) :
    t.tcpInPcb i s = t.tcpInStream i s := by
  cases hst : (t.storage i).state <;> simp_all [Table.tcpInPcb,TcpState.streaming]

theorem AfterFin.ended (h : AfterFin i steps) :
    (tcpInit.run steps).pcbs i = true ∧ ((tcpInit.run steps).storage i).Ended := by
  induction h with
  | @consumed steps st hc ho =>
    obtain ⟨fates,a⟩ := st
    obtain ⟨netif,src,dest,buf,s,rfl,hr,hf,hne,hnext⟩ := hc
    have hI := (Inv.init.run steps).supply fates
    have hi := (findPcb_live hr.found).1
    rw [run_snoc] at ho ⊢
    refine ⟨ho.1,Or.resolve_right ?_ ho.2⟩
    rw [hr.step] at hne hnext ⊢
    cases hs : ((tcpInit.run steps).storage i).state.streaming with
    | false =>
      have := congrArg Prod.snd (inPcb_deaf hI hi hs hf)
      exact absurd this hne
    | true =>
      have htook := inStream_took (t := (tcpInit.run steps).supply fates) hi hs s
      rw [← inPcb_streaming (t := (tcpInit.run steps).supply fates) hs] at htook
      cases htook with
      | nothing hin => exact absurd (congrArg Prod.snd hin) hne
      | data hseq hpos hring hn =>
        rw [hn,← hseq] at hnext
        generalize s.seq+s.size = x at hnext
        exact absurd hnext (by bv_omega)
      | fin hflag hseq hring hn hpast => exact hpast
      | dataFin hflag hseq hpos hring hn hpast => exact hpast
  | @later steps st h ho ih =>
    obtain ⟨hi,he⟩ := ih
    rw [run_snoc] at ho ⊢
    refine ⟨ho.1,Or.resolve_right ?_ ho.2⟩
    exact Table.Past.act (i := i) ((Inv.init.run steps).supply st.1) hi he st.2 ho.1

/-- A segment that does not overrun the FIN changes nothing. -/
theorem AfterFin.still (h : AfterFin i steps) (hr : (tcpInit.run steps).Reaches netif src dest buf i s)
    (ho : ¬((tcpInit.run steps).storage i).Overruns s) (fates : List NetErr) :
    (((tcpInit.run steps).step (fates,.tcpIn netif src dest buf)).storage i).intake =
      ((tcpInit.run steps).storage i).intake := by
  obtain ⟨hi,he⟩ := h.ended
  have hI := (Inv.init.run steps).supply fates
  rw [hr.step]
  by_cases htw : ((tcpInit.run steps).storage i).state = .timeWait
  · have hin : ((tcpInit.run steps).supply fates).tcpInPcb i s =
        ((tcpInit.run steps).supply fates).tcpInTimeWait i s := by
      simp [Table.tcpInPcb,Table.supply,htw]
    rw [hin]
    exact inTimeWait_still (hI.timeWait_idle hi htw) s
  · have hs : ((tcpInit.run steps).storage i).state.streaming = true := by
      rcases he.resolve_left htw with ⟨-,he | he⟩ <;> simp [he,TcpState.streaming]
    have htook := inStream_took (t := (tcpInit.run steps).supply fates) hi hs s
    rw [← inPcb_streaming (t := (tcpInit.run steps).supply fates) hs] at htook
    cases htook with
    | nothing hin => exact hin
    | data hseq hpos => exact absurd ⟨htw,.inl ⟨hseq,hpos⟩⟩ ho
    | fin hflag hseq => exact absurd ⟨htw,.inr ⟨hflag,hseq⟩⟩ ho
    | dataFin hflag hseq hpos => exact absurd ⟨htw,.inl ⟨hseq,hpos⟩⟩ ho

/-- An acknowledgement that does not end the connection is accepted. -/
theorem Table.Sends.acceptAck_ended (h : t.Sends i) (he : (t.storage i).Ended)
    (ha : (t.storage i).Acceptable s.ack) (hc : ¬(t.storage i).Closes s.ack) :
    ∃ t', t.tcpAcceptAck i s.ack = (t',.ok) ∧ t'.Sends i ∧ Steady i t t' := by
  rcases h.state with hs | hs
  · obtain ⟨t',he,hs',hst,-⟩ := h.acceptAck hs ha
    exact ⟨t',he,hs',hst⟩
  · have hseen : (t.storage i).peerFinSeen = true := by simpa [Pcb.Ended,hs] using he
    refine ⟨t,acceptAck_short ha fun hcomp => hc ⟨hs,hseen,hcomp⟩,h,.refl t⟩

/-- A segment that overruns the FIN is taken when it is otherwise acceptable. -/
theorem Table.Sends.overrun (h : t.Sends i) (he : (t.storage i).Ended)
    (hf : s.has flagAck = true ∧ s.has flagSyn = false) (ha : (t.storage i).Acceptable s.ack)
    (hc : ¬(t.storage i).Closes s.ack) (hmss : s.payload.length ≤ mss)
    (hfit : s.payload.length ≤ recvMax-(t.storage i).recv.count) (ho : (t.storage i).Overruns s) :
    ¬(((t.tcpInStream i s).1.storage i).recv.contents = (t.storage i).recv.contents ∧
      ((t.tcpInStream i s).1.storage i).rcvNxt = (t.storage i).rcvNxt) := by
  obtain ⟨t₁,he₁,h₁,hst₁⟩ := h.acceptAck_ended he ha hc
  have hw : (t₁.modify i fun p => { p with window := s.window }).Sends i :=
    h₁.put h₁.up rfl rfl rfl h₁.timer h₁.state
  have hst₂ : Steady i t (t₁.modify i fun p => { p with window := s.window }) :=
    hst₁.trans (.put (List.prefix_refl _) rfl rfl rfl)
  have hne : (t₁.storage i).state ≠ .timeWait := by
    rcases h₁.state with hs | hs <;> simp [hs]
  have hrun : t.tcpInStream i s = onOk ((t₁.modify i fun p => { p with window := s.window }).tcpInData i s)
      fun t => if s.has flagFin then t.tcpInFin i s else (t,.ok) := by
    simp only [tcpInStream]
    rw [if_neg (by simp [hf.1,hf.2]),he₁,onOk_ok rfl,if_neg hne]
  rw [hrun]
  generalize (t₁.modify i fun p => { p with window := s.window }) = t₂ at hw hst₂ ⊢
  rintro ⟨hring,hnext⟩
  by_cases hpos : 0 < s.payload.length
  · obtain ⟨t₃,he₃,h₃,-,-,-,-,hdata⟩ := hw.inData hpos hmss (by rw [hst₂.recv]; exact hfit)
    rw [hst₂.recv,hst₂.rcvNxt] at hdata
    rw [he₃,onOk_ok rfl] at hring hnext
    split at hdata
    next hseq =>
      -- the data is in the ring, whatever becomes of a FIN behind it
      have hlong : (t₃.storage i).recv.contents ≠ (t.storage i).recv.contents := by
        rw [hdata.1]
        intro heq
        have := congrArg List.length heq
        simp at this
        simp [this] at hpos
      split at hring
      next hfin =>
        obtain ⟨t₄,he₄,-,hr₄,-⟩ := h₃.inFin hpos hfin
        rw [he₄,hr₄] at hring
        exact hlong hring
      next => exact hlong hring
    next hseq =>
      obtain ⟨hfin,hq⟩ := ho.2.resolve_left fun h => hseq h.1
      obtain ⟨t₄,he₄,-,-,-,hn₄,-⟩ := h₃.inFin_exact (hq.trans hdata.2.symm)
      rw [if_pos hfin,he₄,hn₄,hdata.2] at hnext
      revert hnext
      bv_omega
  · obtain ⟨hfin,hq⟩ := ho.2.resolve_left fun h => hpos h.2
    have hnone : t₂.tcpInData i s = (t₂,.ok) := by
      simp only [tcpInData]
      rw [if_neg fun h => hpos h.1,onOk_ok rfl,if_neg hpos]
    obtain ⟨t₄,he₄,-,-,-,hn₄,-⟩ := hw.inFin_exact (hq.trans hst₂.rcvNxt.symm)
    rw [hnone,onOk_ok rfl,if_pos hfin,he₄,hn₄,hst₂.rcvNxt] at hnext
    revert hnext
    bv_omega

/-- After the peer's FIN a segment changes neither the ring nor `rcv_nxt` unless it has data or
another FIN at `rcv_nxt` and the connection is not in TIME_WAIT; such a segment is taken when its
acknowledgement is accepted and its data fits. -/
theorem nothing_follows_peer_fin (h : AfterFin i steps)
    (hr : (tcpInit.run steps).Reaches netif src dest buf i s) :
    let t := tcpInit.run steps
    let p := t.storage i
    let after (fates : List NetErr) : Pcb := (t.step (fates,.tcpIn netif src dest buf)).storage i
    let unchanged (q : Pcb) : Prop := q.recv.contents = p.recv.contents ∧ q.rcvNxt = p.rcvNxt
    (∀ fates, ¬p.Overruns s → unchanged (after fates)) ∧
      (s.has flagAck = true → s.has flagSyn = false → p.Acceptable s.ack → ¬p.Closes s.ack →
        s.payload.length ≤ mss → s.payload.length ≤ recvMax-p.recv.count →
        (unchanged (after []) ↔ ¬p.Overruns s)) := by
  intro t p after unchanged
  have hquiet : ∀ fates, ¬p.Overruns s → unchanged (after fates) := by
    intro fates ho
    have hin := h.still hr ho fates
    exact ⟨congrArg (fun x => (Prod.fst x).contents) hin,congrArg Prod.snd hin⟩
  refine ⟨hquiet,fun hack hsyn ha hc hmss hfit => ⟨fun hsame ho => ?_,hquiet []⟩⟩
  obtain ⟨hi,he⟩ := h.ended
  have hI : Inv (t.supply []) := (Inv.init.run steps).supply []
  have hst := he.resolve_left ho.1
  have hsend : (t.supply []).Sends i :=
    { up := rfl
      netif := ⟨netif,(findPcb_live hr.found).2.1⟩
      opened := by rw [hI.links.opened]; exact hi
      live := hi
      timer := fun hn => ((hI.sound i hi).idle hn).1
      apart := fun hl => hI.links.ne_of_child ⟨hi,hl⟩ rfl
      state := hst.2 }
  have hs : ((t.supply []).storage i).state.streaming = true := by
    rcases hsend.state with hs | hs <;> simp [hs,TcpState.streaming]
  have hafter : after [] = ((t.supply []).tcpInStream i s).1.storage i := by
    rw [← inPcb_streaming hs]
    exact congrArg (fun t => t.storage i) (hr.step [])
  rw [hafter] at hsame
  exact hsend.overrun he ⟨hack,hsyn⟩ ha hc hmss hfit ho hsame

/-- A connection with a byte in flight. -/
def inFlight : List Table.Step :=
  [([],.tcpOpen true),
   ([],.tcpConnectStart 0 ⟨1,true,0x0a000001⟩ 0x0a000002 80),
   ([],.tcpIn 1 0x0a000002 0x0a000001 (peerBytes 80 49152 7000 1001 (flagSyn ||| flagAck) [])),
   ([],.tcpSendStart 0 [9])]

/-- The peer's FIN arrives before it acknowledges the byte, so that the local FIN has to wait. -/
def finDeferred : List Table.Step :=
  inFlight++[([],.tcpIn 1 0x0a000002 0x0a000001 (peerBytes 80 49152 7001 1001 (flagFin ||| flagAck) []))]

theorem finDeferred_after : AfterFin 0 finDeferred := by
  refine .consumed ⟨1,0x0a000002,0x0a000001,peerBytes 80 49152 7001 1001 (flagFin ||| flagAck) [],
    peerSegment 80 49152 7001 1001 (flagFin ||| flagAck) [],rfl,⟨Segment.ofBytes_bytes _,?_,?_⟩,?_,?_,?_⟩
    ⟨?_,?_⟩
  all_goals decide +kernel

/-- The FIN arrives once more. -/
theorem nothing_follows_repeated_fin :
    (((tcpInit.run finDeferred).step ([],.tcpIn 1 0x0a000002 0x0a000001
      (peerBytes 80 49152 7001 1001 (flagFin ||| flagAck) []))).storage 0).rcvNxt = 7002 := by
  have hr : (tcpInit.run finDeferred).Reaches 1 0x0a000002 0x0a000001
      (peerBytes 80 49152 7001 1001 (flagFin ||| flagAck) []) 0
      (peerSegment 80 49152 7001 1001 (flagFin ||| flagAck) []) :=
    ⟨Segment.ofBytes_bytes _,by decide +kernel,by decide +kernel⟩
  have ho : ¬((tcpInit.run finDeferred).storage 0).Overruns
      (peerSegment 80 49152 7001 1001 (flagFin ||| flagAck) []) := by
    unfold Pcb.Overruns
    decide +kernel
  refine ((nothing_follows_peer_fin finDeferred_after hr).1 [] ho).2.trans ?_
  decide +kernel

/-- Data behind the FIN is appended to the ring, and another FIN behind the data is consumed. -/
theorem data_follows_peer_fin :
    AfterFin 0 finDeferred ∧
      let t := tcpInit.run finDeferred
      let s := peerSegment 80 49152 7002 1001 (flagFin ||| flagAck) [1,2,3]
      let r := (t.supply []).tcpIn 1 0x0a000002 0x0a000001 s.bytes
      tcpInCheck s 0x0a000002 0x0a000001 = .ok ∧
      t.tcpFindPcb 1 0x0a000002 0x0a000001 s.srcPort s.destPort = some 0 ∧
      (t.storage 0).state = .established ∧ (t.storage 0).peerFinSeen = true ∧
      (t.storage 0).rcvNxt = 7002 ∧ (t.storage 0).recv.contents = [] ∧
      r.2 = .ok ∧ (r.1.storage 0).recv.contents = [1,2,3] ∧ (r.1.storage 0).rcvNxt = 7006 :=
  ⟨finDeferred_after,by decide +kernel⟩

end Result
end Tcp
end QuardStarNet
