import QuardStarNet.TcpSilent
import Mathlib.Data.Fintype.Card

/-! How `tcp_in` finds the block of a segment. Blocks get their names in three ways, by a bind, by
a connect or as the child of a listener, and no two live blocks ever have the same name. -/
namespace QuardStarNet
namespace Tcp

/-- A block before and after an operation that keeps its name. -/
structure Pcb.SameName (p p' : Pcb) : Prop where
  tuple : p'.tuple = p.tuple
  bound : p'.bound = p.bound

/-- Every live block was live before and kept its name. -/
structure SameNames (t t' : Table) : Prop where
  live : ∀ j, t'.pcbs j = true → t.pcbs j = true ∧ (t.storage j).SameName (t'.storage j)
  port : t'.nextEphemeral = t.nextEphemeral

theorem Pcb.SameName.refl (p : Pcb) : p.SameName p := ⟨rfl,rfl⟩

theorem Pcb.SameName.trans {p p' p'' : Pcb} (h : p.SameName p') (h' : p'.SameName p'') :
    p.SameName p'' :=
  ⟨h'.tuple.trans h.tuple,h'.bound.trans h.bound⟩

variable {t t' t'' : Table} {i j : Slot}

theorem Silent.sameNames (h : Silent t t') : SameNames t t' :=
  ⟨fun j hj => ⟨(h.live j hj).1,(h.live j hj).2.tuple,(h.live j hj).2.bound⟩,h.port⟩

/-! Operations on a block that send. -/
section Conn

theorem sendAck_pcb (c : Conn) : c.tcpSendAck.1.pcb = c.pcb := by
  unfold Conn.tcpSendAck
  dsimp only
  split
  next => rfl
  next => rfl

theorem outputOwned_pcb (c : Conn) : c.tcpOutputOwned.1.pcb = c.pcb := by
  unfold Conn.tcpOutputOwned
  split
  next => rfl
  next =>
    split
    next => rfl
    next => rfl

theorem startOutstanding_sameName {p : Pcb} {c : Conn} (hc : c.pcb = p) (seg : Segment)
    (last : BitVec 32) : p.SameName (c.tcpStartOutstanding seg last).1.pcb := by
  subst hc
  unfold Conn.tcpStartOutstanding
  refine onErr_fst (P := fun d : Conn => c.pcb.SameName d.pcb)
    (onOk_fst (P := fun d : Conn => c.pcb.SameName d.pcb) ?_ ?_) ?_
  · rw [outputOwned_pcb]
    exact ⟨rfl,rfl⟩
  · exact fun d h => h.trans ⟨rfl,rfl⟩
  · exact fun d e h => h.trans ⟨rfl,rfl⟩

theorem sendOwned_sameName (c : Conn) (ack : BitVec 32) (flags : Byte) (data : List Byte)
    (last : BitVec 32) {after : Pcb → Pcb} (hafter : ∀ p : Pcb, p.SameName (after p)) :
    c.pcb.SameName (c.tcpSendOwned ack flags data last after).1.pcb := by
  unfold Conn.tcpSendOwned
  dsimp only
  split
  next => exact .refl _
  next seg _ =>
    refine onOk_fst (P := fun d : Conn => c.pcb.SameName d.pcb)
      (startOutstanding_sameName (by rfl) seg last) fun d h => ?_
    have hnext : d.pcb.SameName { d.pcb with sndNxt := last } := ⟨rfl,rfl⟩
    exact h.trans (hnext.trans (hafter _))

theorem sendFin_sameName (c : Conn) : c.pcb.SameName c.tcpSendFin.1.pcb :=
  sendOwned_sameName c _ _ _ _ fun _ => ⟨rfl,rfl⟩

theorem startLocalFin_sameName (c : Conn) : c.pcb.SameName c.tcpStartLocalFin.1.pcb := by
  unfold Conn.tcpStartLocalFin
  split
  next => exact .refl _
  next => exact sendFin_sameName c

theorem sendData_sameName (c : Conn) (data : List Byte) :
    c.pcb.SameName (c.tcpSendData data).1.pcb := by
  unfold Conn.tcpSendData
  split
  next => exact .refl _
  next =>
  split
  next => exact .refl _
  next =>
  split
  next => exact .refl _
  next => exact sendOwned_sameName c _ _ _ _ .refl

theorem synAckStart_sameName (c : Conn) : c.pcb.SameName (Table.synAckStart c).1.pcb := by
  unfold Table.synAckStart
  dsimp only
  split
  next => exact .refl _
  next seg _ => exact startOutstanding_sameName (by rfl) seg _

/-- A connect that fails takes the name away again. -/
theorem connectSyn_name (c : Conn) : c.pcb.SameName (Table.connectSyn c).1.pcb ∨
    (Table.connectSyn c).1.pcb.netif = none ∧ (Table.connectSyn c).1.pcb.bound = false := by
  unfold Table.connectSyn
  dsimp only
  split
  next => exact .inr ⟨rfl,rfl⟩
  next seg _ =>
    have hstart : c.pcb.SameName ((c.tcpMakeSegment c.pcb.iss 0 flagSyn []).1.tcpStartOutstanding seg
        (c.tcpMakeSegment c.pcb.iss 0 flagSyn []).1.pcb.sndNxt).1.pcb :=
      startOutstanding_sameName (by rfl) seg _
    generalize (c.tcpMakeSegment c.pcb.iss 0 flagSyn []).1.tcpStartOutstanding seg
      (c.tcpMakeSegment c.pcb.iss 0 flagSyn []).1.pcb.sndNxt = r at hstart ⊢
    by_cases hr : r.2 = .ok
    · rw [onErr_ok hr,onOk_ok hr]
      exact .inl (hstart.trans ⟨rfl,rfl⟩)
    · rw [onErr_err hr,onOk_err (by exact hr)]
      exact .inr ⟨rfl,rfl⟩

end Conn

namespace SameNames

theorem of_eq (hs : t'.storage = t.storage) (hp : t'.pcbs = t.pcbs)
    (hn : t'.nextEphemeral = t.nextEphemeral) : SameNames t t' := (Silent.of_eq hs hp hn).sameNames

theorem refl (t : Table) : SameNames t t := of_eq rfl rfl rfl

theorem trans (h : SameNames t t') (h' : SameNames t' t'') : SameNames t t'' := by
  refine ⟨fun j hj => ?_,h'.port.trans h.port⟩
  obtain ⟨hj',hm'⟩ := h'.live j hj
  obtain ⟨hj,hm⟩ := h.live j hj'
  exact ⟨hj,hm.trans hm'⟩

theorem modify {f : Pcb → Pcb} (hf : (t.storage i).SameName (f (t.storage i))) :
    SameNames t (t.modify i f) := by
  refine ⟨fun j hj => ⟨hj,?_⟩,rfl⟩
  by_cases hji : j = i
  · subst j
    simpa [Table.modify] using hf
  · simpa [Table.modify,hji] using Pcb.SameName.refl (t.storage j)

theorem onConn {f : Conn → Conn × NetErr} (hf : (t.conn i).pcb.SameName (f (t.conn i)).1.pcb) :
    SameNames t (t.onConn i f).1 := by
  refine ⟨fun j hj => ⟨hj,?_⟩,rfl⟩
  by_cases hji : j = i
  · subst j
    simp only [Table.onConn,Table.setConn,Function.update_self]
    exact hf
  · simpa [Table.onConn,Table.setConn,hji] using Pcb.SameName.refl (t.storage j)

theorem onPcb {f : Pcb → Pcb × NetErr} (hf : (t.storage i).SameName (f (t.storage i)).1) :
    SameNames t (t.onPcb i f).1 := onConn hf

theorem fail (h : SameNames t t') (i : Slot) (e : NetErr) : SameNames t (t'.tcpFail i e).1 :=
  h.trans (Silent.fail t' i e).sameNames

theorem sendAck (h : SameNames t t') (i : Slot) : SameNames t (t'.onConn i Conn.tcpSendAck).1 := by
  refine h.trans (onConn ?_)
  rw [sendAck_pcb]
  exact .refl _

theorem outputOwned (h : SameNames t t') (i : Slot) :
    SameNames t (t'.onConn i Conn.tcpOutputOwned).1 := by
  refine h.trans (onConn ?_)
  rw [outputOwned_pcb]
  exact .refl _

theorem startLocalFin (h : SameNames t t') (i : Slot) :
    SameNames t (t'.onConn i Conn.tcpStartLocalFin).1 :=
  h.trans (onConn (startLocalFin_sameName _))

theorem edit (h : SameNames t t') {f : Pcb → Pcb}
    (hf : (t'.storage i).SameName (f (t'.storage i))) : SameNames t (t'.modify i f) :=
  h.trans (modify hf)

/-- A call whose error fails the connection. -/
theorem orFail {r : Table × NetErr} (h : SameNames t r.1) (i : Slot) :
    SameNames t (onErr r fun t e => t.tcpFail i e).1 :=
  onErr_fst (P := SameNames t) h fun _ e h => h.fail i e

theorem armTimeWait (h : SameNames t t') (i : Slot) :
    SameNames t (t'.onPcb i Pcb.tcpArmTimeWait).1 := by
  refine h.trans (onPcb ?_)
  unfold Pcb.tcpArmTimeWait
  split
  next => exact .refl _
  next => exact ⟨rfl,rfl⟩

theorem acceptAck (t : Table) (i : Slot) (ack : BitVec 32) : SameNames t (t.tcpAcceptAck i ack).1 := by
  unfold Table.tcpAcceptAck
  dsimp only
  split
  next => exact refl t
  next =>
  split
  next =>
    have hack : SameNames t (t.modify i fun p => p.tcpAcked ack) := modify ⟨rfl,rfl⟩
    split
    next => exact (hack.startLocalFin i).orFail i
    next => exact hack
  next => exact refl t

theorem inTimeWait (t : Table) (i : Slot) (s : Segment) : SameNames t (t.tcpInTimeWait i s).1 := by
  unfold Table.tcpInTimeWait
  dsimp only
  split
  next => exact refl t
  next =>
    refine onOk_fst (P := SameNames t) (acceptAck t i s.ack) fun t' h => ?_
    refine onOk_fst (P := SameNames t) (h.sendAck i) fun t' h => ?_
    exact orFail (h.trans (onPcb ⟨rfl,rfl⟩)) i

theorem inSynSent (t : Table) (i : Slot) (s : Segment) : SameNames t (t.tcpInSynSent i s).1 := by
  unfold Table.tcpInSynSent
  dsimp only
  split
  next => exact refl t
  next =>
  split
  next => exact refl t
  next =>
    have hack : SameNames t (t.modify i fun p => p.synAcked s) := modify ⟨rfl,rfl⟩
    refine onOk_fst (P := SameNames t) ((hack.sendAck i).orFail i) fun t' h => ?_
    dsimp only
    exact h.edit ⟨rfl,rfl⟩

theorem inSynReceived (t : Table) (i : Slot) (s : Segment) :
    SameNames t (t.tcpInSynReceived i s).1 := by
  unfold Table.tcpInSynReceived
  dsimp only
  split
  next => exact refl t
  next =>
  split
  next => exact ((refl t).outputOwned i).orFail i
  next =>
  split
  next => exact refl t
  next => exact (Silent.inEstablish t i s).sameNames

theorem queueData (p : Pcb) (payload : List Byte) : p.SameName (p.tcpQueueData payload).1 := by
  unfold Pcb.tcpQueueData
  split
  next => exact .refl p
  next =>
  split
  next => exact ⟨rfl,rfl⟩
  next => exact .refl p

theorem inData (t : Table) (i : Slot) (s : Segment) : SameNames t (t.tcpInData i s).1 := by
  unfold Table.tcpInData
  dsimp only
  refine onOk_fst (P := SameNames t) ?_ fun t' h => ?_
  · split
    next =>
      refine onOk_fst (P := SameNames t) (onPcb (queueData _ _)) fun t' h => ?_
      dsimp only
      exact h.edit ⟨rfl,rfl⟩
    next => exact refl t
  · split
    next => exact h.sendAck i
    next => exact h

theorem inPeerFin (t : Table) (i : Slot) (st : TcpState) : SameNames t (t.tcpInPeerFin i st).1 := by
  unfold Table.tcpInPeerFin
  split
  next =>
    have hwait : SameNames t (t.modify i fun p => { p with state := .timeWait, peerFinSeen := false }) :=
      modify ⟨rfl,rfl⟩
    exact (hwait.armTimeWait i).orFail i
  next =>
    split
    next => exact (Silent.detachChild t i .state).sameNames
    next =>
      have hseen : SameNames t (t.modify i fun p => { p with
          peerFinSeen := true
          closeRequested := if p.outstanding ≠ none then true else p.closeRequested }) :=
        modify ⟨rfl,rfl⟩
      dsimp only
      split
      next => exact hseen
      next => exact (hseen.startLocalFin i).orFail i
  next =>
    dsimp only
    exact modify ⟨rfl,rfl⟩
  next => exact refl t

theorem inFin (t : Table) (i : Slot) (s : Segment) : SameNames t (t.tcpInFin i s).1 := by
  unfold Table.tcpInFin
  dsimp only
  split
  next =>
    have hnext : SameNames t (t.modify i fun p => { p with rcvNxt := p.rcvNxt+1 }) :=
      modify ⟨rfl,rfl⟩
    refine onOk_fst (P := SameNames t) ((hnext.sendAck i).orFail i) fun t' h => ?_
    exact h.trans (inPeerFin t' i _)
  next =>
  split
  next => exact (refl t).sendAck i
  next => exact refl t

theorem inStream (t : Table) (i : Slot) (s : Segment) : SameNames t (t.tcpInStream i s).1 := by
  unfold Table.tcpInStream
  split
  next => exact refl t
  next =>
    refine onOk_fst (P := SameNames t) (acceptAck t i s.ack) fun t' h => ?_
    split
    next => exact (h.armTimeWait i).orFail i
    next =>
      have hwindow : SameNames t (t'.modify i fun p => { p with window := s.window }) :=
        h.edit ⟨rfl,rfl⟩
      refine onOk_fst (P := SameNames t) (hwindow.trans (inData _ i s)) fun t' h => ?_
      split
      next => exact h.trans (inFin t' i s)
      next => exact h

theorem inPcb (t : Table) (i : Slot) (s : Segment) : SameNames t (t.tcpInPcb i s).1 := by
  unfold Table.tcpInPcb
  split
  next => exact inTimeWait t i s
  next => exact inSynSent t i s
  next => exact inSynReceived t i s
  next => exact inStream t i s
  next => exact inStream t i s
  next => exact inStream t i s
  next => exact refl t
  next => exact refl t

theorem retransmitDue (t : Table) (i : Slot) : SameNames t (t.tcpRetransmitDue i).1 := by
  unfold Table.tcpRetransmitDue
  split
  next => exact refl t
  next =>
  split
  next => exact refl t
  next =>
    have htimer : SameNames t (t.modify i fun p => { p with retransTimer := false }) :=
      modify ⟨rfl,rfl⟩
    refine onOk_fst (P := SameNames t) ((htimer.outputOwned i).orFail i) fun t' h => ?_
    have hretry : SameNames t (t'.modify i fun p => { p with retryCount := p.retryCount+1 }) :=
      h.edit ⟨rfl,rfl⟩
    dsimp only
    split
    next => exact hretry.fail i .tmo
    next => exact (hretry.trans (onPcb ⟨rfl,rfl⟩)).orFail i

theorem sendStart (t : Table) (i : Slot) (data : List Byte) :
    SameNames t (t.tcpSendStart i data).1 := by
  unfold Table.tcpSendStart
  split
  next => exact refl t
  next =>
  split
  next => exact refl t
  next => exact onConn (sendData_sameName _ data)

theorem close (t : Table) (i : Slot) : SameNames t (t.tcpClose i).1 := by
  by_cases h : (t.storage i).state = .established → (t.storage i).outstanding ≠ none
  · exact (Silent.close t i fun _ _ _ _ => h).sameNames
  rw [Classical.not_imp,not_not] at h
  unfold Table.tcpClose
  dsimp only
  split
  next => exact refl t
  next =>
  split
  next => exact refl t
  next =>
  split
  next => exact (Silent.detachChild t i .state).sameNames
  next =>
  split
  next => exact (Silent.closePending t i).sameNames
  next =>
    simp only [h.1,h.2,ne_eq,not_true,if_false]
    exact onConn (sendFin_sameName _)

end SameNames

/-! Ephemeral ports. -/
section Ports

/-- The port after `port` in the loop of `tcp_choose_port`. -/
def nextPort (port : Port) : Port := if port+1 < 49152#16 then 49152#16 else port+1

theorem nextPort_toNat {port : Port} (h : 49152 ≤ port.toNat) :
    (nextPort port).toNat = 49152+(port.toNat-49152+1) % 16384 := by
  have hlt := port.isLt
  have hsucc : (port+1).toNat = (port.toNat+1) % 65536 := by rw [BitVec.toNat_add]; rfl
  have hfirst : (49152#16).toNat = 49152 := rfl
  unfold nextPort
  split
  next hn =>
    rw [BitVec.lt_def] at hn
    omega
  next hn =>
    rw [BitVec.lt_def] at hn
    omega

/-- The ports that the loop tries go around. -/
theorem iterate_nextPort {port : Port} (h : 49152 ≤ port.toNat) (k : ℕ) :
    (nextPort^[k] port).toNat = 49152+(port.toNat-49152+k) % 16384 := by
  induction k with
  | zero =>
    have := port.isLt
    simp only [Function.iterate_zero,id_eq]
    omega
  | succ k ih =>
    rw [Function.iterate_succ_apply',nextPort_toNat (by omega),ih]
    omega

theorem choosePort_succ (t : Table) (tries : ℕ) (port : Port) :
    t.tcpChoosePort (tries+1) port =
      if port ≠ 0 ∧ ¬t.tcpPortInUse port then (nextPort port,port)
      else t.tcpChoosePort tries (nextPort port) := rfl

/-- The loop ends at a free port, or every port that it tried is in use. -/
theorem choosePort_cases (t : Table) (tries : ℕ) {port : Port} (h : 49152 ≤ port.toNat) :
    49152 ≤ (t.tcpChoosePort tries port).1.toNat ∧
      (49152 ≤ (t.tcpChoosePort tries port).2.toNat ∧
        t.tcpPortInUse (t.tcpChoosePort tries port).2 = false ∨
      ∀ k < tries, t.tcpPortInUse (nextPort^[k] port) = true) := by
  induction tries generalizing port with
  | zero => exact ⟨h,.inr (by simp)⟩
  | succ tries ih =>
    have hnext : 49152 ≤ (nextPort port).toNat := by
      rw [nextPort_toNat h]
      omega
    have hne : port ≠ 0 := fun he => by simp [he] at h
    rw [choosePort_succ]
    by_cases hfree : t.tcpPortInUse port = true
    · rw [if_neg (by simp [hfree])]
      obtain ⟨hfirst,hrest⟩ := ih hnext
      refine ⟨hfirst,hrest.imp_right fun hall k hk => ?_⟩
      cases k with
      | zero => exact hfree
      | succ k => exact hall k (by omega)
    · rw [if_pos ⟨hne,hfree⟩]
      exact ⟨hnext,.inl ⟨h,by simpa using hfree⟩⟩

/-- Thirteen ports in a row cannot all be in use by twelve blocks. -/
theorem exists_unused (t : Table) {port : Port} (h : 49152 ≤ port.toNat) :
    ∃ k < 13, t.tcpPortInUse (nextPort^[k] port) = false := by
  by_contra hall
  push Not at hall
  have huser : ∀ k : Fin 13, ∃ j, (t.storage j).localPort = nextPort^[k.1] port := fun k => by
    have hk := hall k.1 k.2
    rw [Ne,Bool.not_eq_false,Table.tcpPortInUse,List.any_eq_true] at hk
    obtain ⟨j,-,hj⟩ := hk
    simp only [Bool.and_eq_true,beq_iff_eq] at hj
    exact ⟨j,hj.2⟩
  choose user huser using huser
  have hinj : Function.Injective user := fun k k' hk => by
    have hport : (nextPort^[k.1] port).toNat = (nextPort^[k'.1] port).toNat := by
      rw [← huser,← huser,hk]
    rw [iterate_nextPort h,iterate_nextPort h] at hport
    have := k.2
    have := k'.2
    exact Fin.ext (by omega)
  have := Fintype.card_le_of_injective user hinj
  simp at this

theorem choosePort_spec (t : Table) {port : Port} (h : 49152 ≤ port.toNat) :
    49152 ≤ (t.tcpChoosePort 16384 port).1.toNat ∧ 49152 ≤ (t.tcpChoosePort 16384 port).2.toNat ∧
      t.tcpPortInUse (t.tcpChoosePort 16384 port).2 = false := by
  obtain ⟨hfirst,hfree | hall⟩ := choosePort_cases t 16384 h
  · exact ⟨hfirst,hfree⟩
  · obtain ⟨k,hk,hunused⟩ := exists_unused t h
    rw [hall k (by omega)] at hunused
    cases hunused

end Ports

/-! No two live blocks have the same name. -/
section Distinct

structure Distinct (t : Table) : Prop where
  tuples : ∀ i j, t.pcbs i = true → t.pcbs j = true → (t.storage i).netif ≠ none →
    (t.storage i).tuple = (t.storage j).tuple → i = j
  bounds : ∀ i j, t.pcbs i = true → t.pcbs j = true → (t.storage i).bound = true →
    (t.storage j).bound = true → (t.storage i).localIp = (t.storage j).localIp →
    (t.storage i).localPort = (t.storage j).localPort → i = j
  port : 49152 ≤ t.nextEphemeral.toNat

theorem Distinct.init : Distinct tcpInit := ⟨by simp [tcpInit],by simp [tcpInit],by decide⟩

theorem Pcb.SameName.fields {p p' : Pcb} (h : p.SameName p') :
    p'.netif = p.netif ∧ p'.localIp = p.localIp ∧ p'.localPort = p.localPort := by
  have := h.tuple
  simp only [Pcb.tuple,Tuple.mk.injEq] at this
  exact ⟨this.1,this.2.1,this.2.2.1⟩

/-- One block gets a name that no other has; the others keep theirs. -/
theorem Distinct.rename (h : Distinct t)
    (hrest : ∀ j, j ≠ i → t'.pcbs j = true → t.pcbs j = true ∧ (t.storage j).SameName (t'.storage j))
    (htuple : (t'.storage i).netif ≠ none → ∀ j, j ≠ i → t.pcbs j = true →
      (t.storage j).tuple ≠ (t'.storage i).tuple)
    (hbound : (t'.storage i).bound = true → ∀ j, j ≠ i → t.pcbs j = true →
      (t.storage j).localIp = (t'.storage i).localIp → (t.storage j).localPort ≠ (t'.storage i).localPort)
    (hport : 49152 ≤ t'.nextEphemeral.toNat) : Distinct t' := by
  have hnetif : ∀ j, (t'.storage i).tuple = (t'.storage j).tuple →
      (t'.storage i).netif = (t'.storage j).netif := fun j he => by
    simp only [Pcb.tuple,Tuple.mk.injEq] at he
    exact he.1
  have hother : ∀ j, j ≠ i → t'.pcbs j = true → (t'.storage i).netif ≠ none →
      (t'.storage i).tuple ≠ (t'.storage j).tuple := fun j hj hlive hn he => by
    obtain ⟨hlive,hs⟩ := hrest j hj hlive
    exact htuple hn j hj hlive (hs.tuple.symm.trans he.symm)
  have hother' : ∀ j, j ≠ i → t'.pcbs j = true → (t'.storage i).bound = true →
      (t'.storage j).localIp = (t'.storage i).localIp →
      (t'.storage j).localPort ≠ (t'.storage i).localPort := fun j hj hlive hb hip hp => by
    obtain ⟨hlive,hs⟩ := hrest j hj hlive
    exact hbound hb j hj hlive (hs.fields.2.1.symm.trans hip) (hs.fields.2.2.symm.trans hp)
  refine ⟨fun j k hj hk hn he => ?_,fun j k hj hk hb hb' hip hp => ?_,hport⟩
  · by_cases hji : j = i
    · subst j
      by_contra hne
      exact hother k (Ne.symm hne) hk hn he
    · by_cases hki : k = i
      · subst k
        refine absurd he.symm (hother j hji hj ?_)
        rw [hnetif j he.symm]
        exact hn
      · obtain ⟨hj,hs⟩ := hrest j hji hj
        obtain ⟨hk,hs'⟩ := hrest k hki hk
        refine h.tuples j k hj hk (by rwa [← hs.fields.1]) ?_
        rw [← hs.tuple,← hs'.tuple,he]
  · by_cases hji : j = i
    · subst j
      by_contra hne
      exact hother' k (Ne.symm hne) hk hb hip.symm hp.symm
    · by_cases hki : k = i
      · subst k
        exact absurd hp (hother' j hji hj hb' hip)
      · obtain ⟨hj,hs⟩ := hrest j hji hj
        obtain ⟨hk,hs'⟩ := hrest k hki hk
        refine h.bounds j k hj hk (by rwa [← hs.bound]) (by rwa [← hs'.bound]) ?_ ?_
        · rw [← hs.fields.2.1,← hs'.fields.2.1,hip]
        · rw [← hs.fields.2.2,← hs'.fields.2.2,hp]

theorem Distinct.sameNames (h : Distinct t) (hs : SameNames t t') : Distinct t' := by
  refine ⟨fun i j hi hj hn he => ?_,fun i j hi hj hb hb' hip hp => ?_,by rw [hs.port]; exact h.port⟩
  · obtain ⟨hi,hsi⟩ := hs.live i hi
    obtain ⟨hj,hsj⟩ := hs.live j hj
    refine h.tuples i j hi hj (by rwa [← hsi.fields.1]) ?_
    rw [← hsi.tuple,← hsj.tuple,he]
  · obtain ⟨hi,hsi⟩ := hs.live i hi
    obtain ⟨hj,hsj⟩ := hs.live j hj
    refine h.bounds i j hi hj (by rwa [← hsi.bound]) (by rwa [← hsj.bound]) ?_ ?_
    · rw [← hsi.fields.2.1,← hsj.fields.2.1,hip]
    · rw [← hsi.fields.2.2,← hsj.fields.2.2,hp]

theorem alloc_cases (t : Table) (a : Bool) :
    (t.tcpAlloc a).2 = none ∧ SameNames t (t.tcpAlloc a).1 ∨
      ∃ j x y z k, t.tcpAlloc a = (t.allocated j a x y z k,some j) ∧ t.pcbs j = false := by
  unfold Table.tcpAlloc
  split
  next => exact .inl ⟨rfl,.refl t⟩
  next j hj =>
    have hdead : t.pcbs j = false := by simpa using List.find?_some hj
    have hfail : ∀ k : Link, SameNames t { t.modify j fun _ => .zeroed with link := k } := by
      refine fun k => ⟨fun i hi => ⟨hi,?_⟩,rfl⟩
      have hij : i ≠ j := fun he => by
        have hlive : t.pcbs i = true := hi
        simp [he,hdead] at hlive
      simpa [Table.modify,hij] using Pcb.SameName.refl (t.storage i)
    dsimp only
    split
    next => exact .inl ⟨rfl,hfail _⟩
    next =>
    split
    next => exact .inl ⟨rfl,hfail _⟩
    next =>
    split
    next => exact .inl ⟨rfl,hfail _⟩
    next => exact .inr ⟨j,_,_,_,_,rfl,hdead⟩

/-- Only the block in slot `i` changes. -/
theorem rest_update {storage : Slot → Pcb} {p : Pcb} (hs : t'.storage = Function.update storage i p)
    (ho : ∀ j, j ≠ i → (t.storage j).SameName (storage j))
    (hp : ∀ j, j ≠ i → t'.pcbs j = true → t.pcbs j = true) (j : Slot) (hj : j ≠ i)
    (hlive : t'.pcbs j = true) : t.pcbs j = true ∧ (t.storage j).SameName (t'.storage j) := by
  refine ⟨hp j hj hlive,?_⟩
  rw [hs,Function.update_of_ne hj]
  exact ho j hj

theorem Distinct.allocated (h : Distinct t) (j : Slot) (a : Bool) (x y z : Sem) (k : Link) :
    Distinct (t.allocated j a x y z k) := by
  refine h.rename (i := j) (rest_update rfl (fun _ _ => .refl _) fun i hi hlive => ?_) ?_ ?_ h.port
  · simpa [Table.allocated,hi] using hlive
  · simp [Table.allocated,Pcb.allocated,Pcb.zeroed]
  · simp [Table.allocated,Pcb.allocated,Pcb.zeroed]

theorem Distinct.alloc (h : Distinct t) (a : Bool) : Distinct (t.tcpAlloc a).1 := by
  rcases alloc_cases t a with ⟨-,hs⟩ | ⟨j,x,y,z,k,he,-⟩
  · exact h.sameNames hs
  · rw [he]
    exact h.allocated j a x y z k

theorem Distinct.bind (h : Distinct t) (hinv : Inv t) (i : Slot) (netif : Netif) (ip : IpAddr)
    (port : Port) : Distinct (t.tcpBind i netif ip port).1 := by
  unfold Table.tcpBind
  split
  next => exact h
  next =>
  split
  next => exact h
  next =>
  split
  next => exact h
  next =>
  dsimp only
  split
  next => exact h
  next =>
  split
  next => exact h
  next hany =>
    have hfree : ∀ j, j ≠ i → t.pcbs j = true → (t.storage j).localIp = netif.ipaddr →
        (t.storage j).localPort ≠ port := fun j hj hlive hip hp => by
      refine hany (List.any_eq_true.2 ⟨j,by simp,?_⟩)
      simp [hlive,hj,hinv.links.opened j,hip,hp]
    refine h.rename (i := i) (rest_update rfl (fun _ _ => .refl _) fun j _ hlive => hlive) ?_ ?_ h.port
    · intro _ j hj hlive he
      simp only [Table.modify,Function.update_self,Pcb.tuple,Tuple.mk.injEq] at he
      exact hfree j hj hlive he.2.1 he.2.2.1
    · intro _ j hj hlive hip
      simp only [Table.modify,Function.update_self] at hip ⊢
      exact hfree j hj hlive hip

theorem Distinct.listen (h : Distinct t) (i : Slot) (backlog : ℤ) :
    Distinct (t.tcpListen i backlog).1 := by
  refine h.sameNames ?_
  unfold Table.tcpListen
  split
  next => exact .refl t
  next =>
  split
  next => exact .refl t
  next =>
  dsimp only
  split
  next => exact .refl t
  next =>
  split
  next => exact .refl t
  next =>
  split
  next => exact .of_eq rfl rfl rfl
  next =>
    have hlink : SameNames t { t with link := t.link.sysSemCreate.1 } := .of_eq rfl rfl rfl
    dsimp only
    exact hlink.edit ⟨rfl,rfl⟩

/-- `tcp_connect_start` refuses, or it names the block after a port that is not in use. -/
theorem connectStart_cases (h : Distinct t) (i : Slot) (netif : Netif) (remote : IpAddr)
    (remotePort : Port) :
    (∃ e, e ≠ .full ∧ t.tcpConnectStart i netif remote remotePort = (t,e)) ∨
    ∃ port next, 49152 ≤ next.toNat ∧ t.tcpPortInUse port = false ∧
      t.tcpConnectStart i netif remote remotePort =
        Table.onConn { t.modify i (t.connecting netif remote port remotePort) with
          nextEphemeral := next, nextIss := t.nextIss+64000#32 } i Table.connectSyn := by
  unfold Table.tcpConnectStart
  split
  next => exact .inl ⟨.param,by simp,rfl⟩
  next =>
  split
  next => exact .inl ⟨.state,by simp,rfl⟩
  next =>
  dsimp only
  split
  next => exact .inl ⟨.state,by simp,rfl⟩
  next =>
  split
  next => exact .inl ⟨.state,by simp,rfl⟩
  next =>
    obtain ⟨hnext,hport,hfree⟩ := choosePort_spec t h.port
    have hne : (t.tcpChoosePort 16384 t.nextEphemeral).2 ≠ 0 := fun he => by simp [he] at hport
    rw [if_neg hne]
    exact .inr ⟨_,_,hnext,hfree,rfl⟩

theorem portInUse_false {port : Port} (hinv : Inv t) (h : t.tcpPortInUse port = false)
    (hj : t.pcbs j = true) : (t.storage j).localPort ≠ port := fun he => by
  rw [Table.tcpPortInUse,List.any_eq_false] at h
  refine h j (by simp) ?_
  simp [hj,hinv.links.opened j,he]

theorem Distinct.connectStart (h : Distinct t) (hinv : Inv t) (i : Slot) (netif : Netif)
    (remote : IpAddr) (remotePort : Port) :
    Distinct (t.tcpConnectStart i netif remote remotePort).1 := by
  rcases connectStart_cases h i netif remote remotePort with ⟨e,-,he⟩ | ⟨port,next,hnext,hfree,he⟩
  · rw [he]
    exact h
  rw [he]
  have hname := connectSyn_name (Table.conn { t.modify i (t.connecting netif remote port remotePort) with
    nextEphemeral := next, nextIss := t.nextIss+64000#32 } i)
  simp only [Table.onConn,Table.setConn,Table.conn,Table.modify,Function.update_self] at hname ⊢
  generalize (Table.connectSyn _).1 = c at hname ⊢
  refine h.rename (i := i) (rest_update (p := c.pcb) rfl (fun j hj => ?_) fun j _ hlive => hlive)
    ?_ ?_ hnext
  · rw [Function.update_of_ne hj]
    exact .refl _
  · simp only [Function.update_self]
    intro hn j hj hlive htuple
    rcases hname with hname | hname
    · rw [hname.tuple] at htuple
      simp only [Pcb.tuple,Tuple.mk.injEq] at htuple
      exact portInUse_false hinv hfree hlive htuple.2.2.1
    · exact hn hname.1
  · simp only [Function.update_self]
    intro hb
    rcases hname with hname | hname
    · have hbound := hname.bound
      rw [hb] at hbound
      cases hbound
    · rw [hname.2] at hb
      cases hb

theorem findPcb_none {netif : NetifId} {src dest : IpAddr} {srcPort destPort : Port} (hinv : Inv t)
    (h : t.tcpFindPcb netif src dest srcPort destPort = none) (hj : t.pcbs j = true) :
    (t.storage j).tuple ≠ ⟨some netif,dest,destPort,src,srcPort⟩ := fun he => by
  have hno := List.find?_eq_none.1 h j (by simp)
  simp only [Pcb.tuple,Tuple.mk.injEq] at he
  obtain ⟨h1,h2,h3,h4,h5⟩ := he
  simp [hj,hinv.links.opened j,h1,h2,h3,h4,h5] at hno

/-- The child of a listener gets a name that `tcp_find_pcb` has just missed. -/
theorem Distinct.passiveSyn (h : Distinct t) (hinv : Inv t) {l : Slot} (hl : t.pcbs l = true)
    {netif : NetifId} {src : IpAddr} {srcPort : Port} (seq : BitVec 32) (window : BitVec 16)
    (hmiss : t.tcpFindPcb netif src (t.storage l).localIp srcPort (t.storage l).localPort = none) :
    Distinct (t.tcpPassiveSyn l netif src srcPort seq window).1 := by
  unfold Table.tcpPassiveSyn
  dsimp only
  split
  next => exact h
  next =>
  rcases alloc_cases t false with ⟨hnone,hs⟩ | ⟨j,x,y,z,k,he,hj⟩
  · simp only [hnone]
    exact h.sameNames hs
  · simp only [he]
    have hlj : l ≠ j := fun hlj => by simp [hlj,hj] at hl
    have hspawn : Distinct (Table.modify { (t.allocated j false x y z k).modify j
        (t.passiveChild l netif src srcPort seq window) with nextIss := t.nextIss+64000#32 } l
        fun q => { q with pendingCount := q.pendingCount+1 }) := by
      refine h.rename (i := j) (fun i hij hlive => ?_) ?_ ?_ h.port
      · refine ⟨by simpa [Table.modify,Table.allocated,hij] using hlive,?_⟩
        by_cases hil : i = l
        · subst i
          simpa [Table.modify,Table.allocated,hij] using ⟨rfl,rfl⟩
        · simpa [Table.modify,Table.allocated,hij,hil] using Pcb.SameName.refl (t.storage i)
      · intro _ i _ hlive
        have := findPcb_none hinv hmiss hlive
        simpa [Table.modify,Table.allocated,hlj.symm,Table.passiveChild,Pcb.tuple] using this
      · simp [Table.modify,Table.allocated,hlj.symm,Table.passiveChild,Pcb.allocated,Pcb.zeroed]
    refine hspawn.sameNames (onErr_fst (P := SameNames _) (.onConn (synAckStart_sameName _)) ?_)
    exact fun t' e hs => hs.trans (Silent.detachChild t' j e).sameNames

theorem Distinct.tcpIn (h : Distinct t) (hinv : Inv t) (netif : NetifId) (src dest : IpAddr)
    (buf : List Byte) : Distinct (t.tcpIn netif src dest buf).1 := by
  unfold Table.tcpIn
  split
  next => exact h
  next s _ =>
  split
  next => exact h
  next =>
  unfold Table.tcpInSegment
  split
  next i _ => exact h.sameNames (.inPcb t i s)
  next hmiss =>
  split
  next => exact h
  next l hf =>
  split
  next => exact h
  next =>
    obtain ⟨hl,-,hport,hip⟩ := findListener_listening hf
    refine h.passiveSyn hinv hl.1 s.seq s.window ?_
    rwa [hport,hip]

theorem Distinct.act (h : Distinct t) (hinv : Inv t) (a : Action) : Distinct (t.act a) := by
  cases a with
  | tcpOpen a => exact h.alloc a
  | tcpBind i netif ip port => exact h.bind hinv i netif ip port
  | tcpListen i backlog => exact h.listen i backlog
  | tcpConnectStart i netif remote port => exact h.connectStart hinv i netif remote port
  | tcpIn netif src dest buf => exact h.tcpIn hinv netif src dest buf
  | tcpAcceptAcquire i => exact h.sameNames (Silent.acceptAcquire t i).sameNames
  | tcpAcceptPeek i => exact h.sameNames (Silent.acceptPeek t i).sameNames
  | acceptToken i =>
    have hs : SameNames t (t.modify i fun p => { p with acceptDone := (sysSemPoll p.acceptDone).1 }) :=
      .modify ⟨rfl,rfl⟩
    exact h.sameNames hs
  | tcpAcceptCommit i c => exact h.sameNames (Silent.acceptCommit t i c).sameNames
  | tcpAcceptRelease i => exact h.sameNames (Silent.acceptRelease t i).sameNames
  | tcpAcceptReleaseChild i c => exact h.sameNames (Silent.acceptReleaseChild t i c).sameNames
  | tcpSendStart i data => exact h.sameNames (.sendStart t i data)
  | tcpWaitAcquire i w => exact h.sameNames (Silent.waitAcquire t i w).sameNames
  | waitToken i w =>
    exact h.sameNames (Silent.setDone t i w fun p => (sysSemPoll (p.done w)).1).sameNames
  | waitLeave i w => exact h.sameNames (Silent.addWaiters t i w (-1)).sameNames
  | tcpRecvAcquire i => exact h.sameNames (Silent.recvAcquire t i).sameNames
  | tcpRecvTake i size => exact h.sameNames (Silent.recvTake t i size).sameNames
  | recvToken i =>
    have hs : SameNames t (t.modify i fun p => { p with recvDone := (sysSemPoll p.recvDone).1 }) :=
      .modify ⟨rfl,rfl⟩
    exact h.sameNames hs
  | tcpRecvLeave i => exact h.sameNames (.modify ⟨rfl,rfl⟩)
  | tcpClose i => exact h.sameNames (.close t i)
  | tcpSocketDetach i => exact h.sameNames (Silent.socketDetach t i).sameNames
  | tcpRetransmitDue i => exact h.sameNames (.retransmitDue t i)
  | tcpTimeWaitProc i => exact h.sameNames (Silent.timeWaitProc t i).sameNames
  | tcpReleaseProc i => exact h.sameNames (Silent.releaseProc t i).sameNames

theorem Distinct.run (h : Distinct t) (hinv : Inv t) (steps : List Table.Step) :
    Distinct (t.run steps) := by
  induction steps generalizing t with
  | nil => exact h
  | cons s steps ih =>
    have hsupply : Distinct (t.supply s.1) := h.sameNames (.of_eq rfl rfl rfl)
    exact ih (hsupply.act (hinv.supply s.1) s.2) (hinv.step s)

end Distinct

/-! What `tcp_in` selects, and what a connect can fail with. -/

/-- The test of `tcp_find_pcb` on one slot. -/
def Table.isPcb (t : Table) (netif : NetifId) (src dest : IpAddr) (srcPort destPort : Port)
    (j : Slot) : Bool :=
  let p := t.storage j
  t.pcbs j && p.opened && p.netif == some netif && p.localPort == destPort &&
    p.remotePort == srcPort && p.localIp == dest && p.remoteIp == src

/-- The test of `tcp_find_listener` on one slot. -/
def Table.isListener (t : Table) (netif : NetifId) (dest : IpAddr) (destPort : Port) (j : Slot) : Bool :=
  let p := t.storage j
  t.pcbs j && p.opened && !p.releasePending && p.state == .listen && p.netif == some netif &&
    p.localPort == destPort && p.localIp == dest

/-- A search for the only slot that passes a test may look at the slots in any order. -/
theorem find?_any_order {α : Type} {test : α → Bool} {l l' : List α} (hl : l.Perm l')
    (h : ∀ a b, test a = true → test b = true → a = b) : l.find? test = l'.find? test := by
  cases hf : l'.find? test with
  | none =>
    rw [List.find?_eq_none] at hf ⊢
    exact fun a ha => hf a (hl.mem_iff.1 ha)
  | some b =>
    have hb := List.find?_some hf
    cases hg : l.find? test with
    | none => exact absurd hb (List.find?_eq_none.1 hg b (hl.mem_iff.2 (List.mem_of_find?_eq_some hf)))
    | some a => rw [h a b (List.find?_some hg) hb]

theorem Distinct.isPcb (h : Distinct t) (netif : NetifId) (src dest : IpAddr) (srcPort destPort : Port)
    (hi : t.isPcb netif src dest srcPort destPort i = true)
    (hj : t.isPcb netif src dest srcPort destPort j = true) : i = j := by
  simp only [Table.isPcb,Bool.and_eq_true,beq_iff_eq] at hi hj
  obtain ⟨⟨⟨⟨⟨⟨h1,-⟩,h2⟩,h3⟩,h4⟩,h5⟩,h6⟩ := hi
  obtain ⟨⟨⟨⟨⟨⟨k1,-⟩,k2⟩,k3⟩,k4⟩,k5⟩,k6⟩ := hj
  exact h.tuples i j h1 k1 (by simp [h2]) (by simp [Pcb.tuple,h2,h3,h4,h5,h6,k2,k3,k4,k5,k6])

/-- The layers below have no error in store that says that something is full. -/
def Link.NeverFull (l : Link) : Prop := ∀ e ∈ l.fates, e ≠ .full

theorem Link.NeverFull.fate {l : Link} (h : l.NeverFull) : l.fate ≠ .full := by
  unfold Link.fate
  cases hf : l.fates with
  | nil => exact (by simp)
  | cons e es => exact h e (by simp [hf])

theorem Link.NeverFull.spend {l : Link} (h : l.NeverFull) : l.spend.NeverFull :=
  fun e he => h e (List.mem_of_mem_tail he)

theorem outputOwned_ne_full {c : Conn} (h : c.link.NeverFull) : c.tcpOutputOwned.2 ≠ .full := by
  unfold Conn.tcpOutputOwned
  split
  next => exact (by simp)
  next =>
  split
  next =>
    unfold Conn.ipv4Out Link.ipv4Out
    split
    next => exact (by simp)
    next =>
    split
    next => exact (by simp)
    next => exact h.spend.fate
  next => exact (by simp)

theorem startOutstanding_ne_full {c : Conn} (h : c.link.NeverFull) (seg : Segment) (last : BitVec 32) :
    (c.tcpStartOutstanding seg last).2 ≠ .full := by
  have hout := outputOwned_ne_full (c := { c with pcb := c.pcb.setOutstanding seg last }) h
  unfold Conn.tcpStartOutstanding
  dsimp only
  generalize Conn.tcpOutputOwned _ = r at hout ⊢
  by_cases hr : r.2 = .ok
  · rw [onOk_ok hr]
    unfold Pcb.tcpArmTimer netTimerAdd
    dsimp only
    cases r.1.pcb.retransTimer with
    | true => rw [onErr_err (by simp)]; simp
    | false => rw [onErr_ok (by simp)]; simp
  · rw [onOk_err hr,onErr_err hr]
    exact hout

theorem connectSyn_ne_full {c : Conn} (h : c.link.NeverFull) : (Table.connectSyn c).2 ≠ .full := by
  unfold Table.connectSyn
  dsimp only
  split
  next => exact (by simp)
  next seg _ =>
    have hstart := startOutstanding_ne_full (c := (c.tcpMakeSegment c.pcb.iss 0 flagSyn []).1) h.spend
      seg (c.tcpMakeSegment c.pcb.iss 0 flagSyn []).1.pcb.sndNxt
    generalize Conn.tcpStartOutstanding _ seg _ = r at hstart ⊢
    by_cases hr : r.2 = .ok
    · rw [onErr_ok hr,onOk_ok hr]
      exact (by simp)
    · rw [onErr_err hr,onOk_err (by exact hr)]
      exact hstart

/-- In every state of every run, what `tcp_in` looks for is unambiguous and a connect finds a port.
An interface is given with each call as it is then, so that its address may change in between. -/
theorem demux_unambiguous (steps : List Table.Step) :
    let t := tcpInit.run steps
    (∀ i j, t.pcbs i = true → t.pcbs j = true → (t.storage i).netif ≠ none →
      (t.storage i).tuple = (t.storage j).tuple → i = j) ∧
    (∀ i j, t.pcbs i = true → t.pcbs j = true → (t.storage i).state = .listen →
      (t.storage j).state = .listen → i = j) ∧
    (∀ i j, t.pcbs i = true → t.pcbs j = true → (t.storage i).bound = true →
      (t.storage j).bound = true → (t.storage i).localIp = (t.storage j).localIp →
      (t.storage i).localPort = (t.storage j).localPort → i = j) ∧
    (∀ order : List Slot, order.Perm slots →
      (∀ netif src dest srcPort destPort,
        order.find? (t.isPcb netif src dest srcPort destPort) =
          t.tcpFindPcb netif src dest srcPort destPort) ∧
      (∀ netif dest destPort,
        order.find? (t.isListener netif dest destPort) = t.tcpFindListener netif dest destPort)) ∧
    49152 ≤ (t.tcpChoosePort 16384 t.nextEphemeral).2.toNat ∧
    (∀ j, t.pcbs j = true → (t.storage j).localPort ≠ (t.tcpChoosePort 16384 t.nextEphemeral).2) ∧
    ∀ fates : List NetErr, (∀ e ∈ fates, e ≠ .full) → ∀ i netif remote remotePort,
      ((t.supply fates).tcpConnectStart i netif remote remotePort).2 ≠ .full := by
  intro t
  have hinv : Inv t := Inv.init.run steps
  have h : Distinct t := Distinct.init.run Inv.init steps
  refine ⟨h.tuples,fun i j hi hj hs hs' => hinv.links.unique ⟨hi,hs⟩ ⟨hj,hs'⟩,h.bounds,
    fun order ho => ⟨fun netif src dest srcPort destPort => ?_,fun netif dest destPort => ?_⟩,?_⟩
  · exact find?_any_order ho fun i j hi hj => h.isPcb netif src dest srcPort destPort hi hj
  · refine find?_any_order ho fun i j hi hj => ?_
    simp only [Table.isListener,Bool.and_eq_true,beq_iff_eq] at hi hj
    exact hinv.links.unique ⟨hi.1.1.1.1.1.1,hi.1.1.1.2⟩ ⟨hj.1.1.1.1.1.1,hj.1.1.1.2⟩
  · obtain ⟨-,hport,hfree⟩ := choosePort_spec t h.port
    refine ⟨hport,fun j hj => portInUse_false hinv hfree hj,?_⟩
    intro fates hfates i netif remote remotePort
    have hsupply : Distinct (t.supply fates) := h.sameNames (.of_eq rfl rfl rfl)
    rcases connectStart_cases hsupply i netif remote remotePort with ⟨e,hne,he⟩ | ⟨port,next,-,-,he⟩
    · rw [he]
      exact hne
    · rw [he]
      exact connectSyn_ne_full hfates

/-- The interface may have no room for the SYN, and `tcp_connect_start` passes that error on. -/
theorem connectStart_full :
    (((tcpInit.run [([],.tcpOpen true)]).supply [.ok,.ok,.full]).tcpConnectStart 0
      ⟨1,true,0x0a000001⟩ 0x0a000002 80).2 = .full := by
  decide +kernel

end Tcp
end QuardStarNet
