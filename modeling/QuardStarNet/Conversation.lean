import QuardStarNet.StreamIntegrity

/-! Who talks to whom: of two hosts joined by one connection each has at most one block
that can send, and all their segments carry the addresses of that connection. This needs
no bound on what was sent and holds over any number of passive opens. -/
namespace QuardStarNet
namespace Tcp

variable {rx : Option Segment} {t t' t'' : Table} {i j l : Slot} {p p' : Pcb} {s : Segment}

/-- Interface, addresses and ports of a block. -/
structure Address where
  netif : Option NetifId
  localIp : IpAddr
  remoteIp : IpAddr
  localPort : Port
  remotePort : Port

def Pcb.address (p : Pcb) : Address := ⟨p.netif,p.localIp,p.remoteIp,p.localPort,p.remotePort⟩

/-- The packet was sent from this address. -/
def Address.Sends (a : Address) (pkt : Packet) : Prop :=
  pkt.dest = a.remoteIp ∧ pkt.seg.srcPort = a.localPort ∧ pkt.seg.destPort = a.remotePort

/-- The outstanding segment carries the ports of its block. -/
def Pcb.Labelled (p : Pcb) : Prop :=
  ∀ seg, p.outstanding = some seg → seg.srcPort = p.localPort ∧ seg.destPort = p.remotePort

/-- The block can send. -/
def Pcb.Talking (p : Pcb) : Prop := ¬p.state.silent

theorem Pcb.Terminated.labelled (h : p.Terminated p') : p'.Labelled ∧ ¬p'.Talking := by
  obtain ⟨u,w,r,n,e,rfl,-⟩ := h
  obtain ⟨a,b,c,he⟩ := Pcb.tcpTerminate_eq { p with sndUna := u, window := w, rcvNxt := r, retryCount := n } e
  rw [he]
  exact ⟨fun seg h => by simp at h,fun h => h (.inl rfl)⟩

theorem Pcb.Labelled.of_none (h : p.outstanding = none) : p.Labelled := fun seg ho => by simp [h] at ho

theorem PcbMove.labelled (hm : PcbMove rx p p') (hS : p.Sound) (h : p.Labelled) : p'.Labelled := by
  cases hm with
  | sems | idled | retry | askClose | closeListen | window | queue | finSeen | peerFin | timeWait | expire =>
    exact h
  | terminate hl hs hn ht => exact ht.labelled.1
  | acked | ackedClose => exact .of_none rfl
  | bind n ip port hs => exact .of_none (by simpa using silent_outstanding hS (.inl hs))

theorem PcbMove.address (hm : PcbMove rx p p') (ht : p.Talking) (ht' : p'.Talking) : p'.address = p.address := by
  cases hm with
  | sems | idled | retry | askClose | closeListen | window | queue | finSeen | peerFin | timeWait | expire |
    acked | ackedClose => rfl
  | terminate hl hs hn h => exact absurd ht' h.labelled.2
  | bind n ip port hs => exact absurd (.inl hs) ht

/-- A block that can send keeps its address and sends from it. -/
theorem ConnMove.talks {c c' : Conn} (hm : ConnMove rx c c') (hS : c.pcb.Sound) (hl : c.pcb.Labelled)
    (ht : c.pcb.Talking) : c'.pcb.Labelled ∧ (c'.pcb.Talking → c'.pcb.address = c.pcb.address) ∧
      ∀ pkt ∈ c'.link.wire, pkt ∈ c.link.wire ∨ c.pcb.address.Sends pkt := by
  have hemit : ∀ {q : Pcb} {seg : Segment} {l l' : Link}, Emitted q seg l l' → q.remoteIp = c.pcb.remoteIp →
      seg.srcPort = c.pcb.localPort ∧ seg.destPort = c.pcb.remotePort →
      ∀ pkt ∈ l'.wire, pkt ∈ l.wire ∨ c.pcb.address.Sends pkt := by
    rintro q seg l l' ⟨n,-,hw⟩ hip hseg pkt hp
    rw [hw,List.mem_append,List.mem_singleton] at hp
    rcases hp with hp | rfl
    · exact .inl hp
    · exact .inr ⟨hip,hseg⟩
  cases hm with
  | pcb hm hw => exact ⟨hm.labelled hS hl,fun ht' => hm.address ht ht',fun pkt hp => .inl (by rwa [← hw])⟩
  | ack hs he => exact ⟨hl,fun _ => rfl,hemit he rfl (by simp [ackSegment])⟩
  | clone ho he => exact ⟨hl,fun _ => rfl,hemit he rfl (hl _ ho)⟩
  | fin hs hn ho he =>
    refine ⟨fun seg h => ?_,fun _ => rfl,hemit he rfl (by simp [finSegment])⟩
    obtain rfl : finSegment c.pcb = seg := by simpa [Pcb.started,Pcb.setOutstanding] using h
    simp [finSegment,Pcb.started,Pcb.setOutstanding]
  | synAck a hrx hs hn hf ha he =>
    exact ⟨.of_none rfl,fun _ => rfl,hemit he rfl (by simp [ackSegment,Pcb.synAcked,Pcb.tcpClearOutstanding])⟩

def Labels (t : Table) : Prop := ∀ j, t.pcbs j = true → (t.storage j).Labelled

/-- What a stream depends on of a block, as far as its talking goes. -/
theorem flow_talking (h : p'.flow = p.flow) : p'.state = p.state ∧ p'.address = p.address ∧
    (p.Labelled → p'.Labelled) := by
  simp only [Pcb.flow,Flow.mk.injEq] at h
  obtain ⟨h1,-,-,-,-,h2,-,h3,h4,h5,h6,h7⟩ := h
  exact ⟨h1,by simp [Pcb.address,h3,h4,h5,h6,h7],fun hl seg ho => by rw [h6,h7]; exact hl seg (h2 ▸ ho)⟩

/-- No block starts to talk or to listen, and those that talk do so from their old address. -/
structure Talks (t t' : Table) : Prop where
  kept : ∀ j, t'.pcbs j = true → (t'.storage j).Talking →
    t.pcbs j = true ∧ (t.storage j).Talking ∧ (t'.storage j).address = (t.storage j).address
  wire : ∀ pkt ∈ t'.link.wire, pkt ∈ t.link.wire ∨
    ∃ j, t.pcbs j = true ∧ (t.storage j).Talking ∧ (t.storage j).address.Sends pkt
  listen : ∀ j, t'.Listening j → t.Listening j
  born : ∀ j, t'.pcbs j = true → t.pcbs j = true ∨ ∃ l, t.Listening l

namespace Talks

theorem trans (h : Talks t t') (h' : Talks t' t'') : Talks t t'' where
  kept j hj ht := by
    obtain ⟨hj',ht',ha'⟩ := h'.kept j hj ht
    obtain ⟨hj₀,ht₀,ha₀⟩ := h.kept j hj' ht'
    exact ⟨hj₀,ht₀,ha'.trans ha₀⟩
  wire pkt hp := by
    rcases h'.wire pkt hp with hp | ⟨j,hj,ht,hs⟩
    · exact h.wire pkt hp
    · obtain ⟨hj₀,ht₀,ha₀⟩ := h.kept j hj ht
      exact .inr ⟨j,hj₀,ht₀,ha₀ ▸ hs⟩
  listen j hj := h.listen j (h'.listen j hj)
  born j hj := by
    rcases h'.born j hj with hj' | ⟨l,hl⟩
    · exact h.born j hj'
    · exact .inr ⟨l,h.listen l hl⟩

theorem same (hf : SameFlows t t') (hl : Labels t) : Talks t t' ∧ Labels t' := by
  have hp : ∀ {j}, t'.pcbs j = true → t.pcbs j = true := fun {j} hj => by rwa [← hf.pcbs]
  refine ⟨⟨fun j hj ht => ?_,fun pkt hpkt => .inl (by rwa [← hf.wire]),fun j hj => ?_,fun j hj => .inl (hp hj)⟩,
    fun j hj => (flow_talking (hf.flow j (hp hj))).2.2 (hl j (hp hj))⟩
  · obtain ⟨hs,ha,-⟩ := flow_talking (hf.flow j (hp hj))
    exact ⟨hp hj,by rwa [Pcb.Talking,← hs],ha⟩
  · exact ⟨hp hj.1,hf.state (hp hj.1) ▸ hj.2⟩

/-- A change of one block. -/
theorem put (hl : Labels t) (p' : Pcb) (hst : t'.storage = Function.update t.storage i p')
    (hp : t'.pcbs = t.pcbs) (hlab : p'.Labelled)
    (hk : p'.Talking → (t.storage i).Talking ∧ p'.address = (t.storage i).address)
    (hli : p'.state = .listen → (t.storage i).state = .listen)
    (hw : ∀ pkt ∈ t'.link.wire, pkt ∈ t.link.wire ∨
      t.pcbs i = true ∧ (t.storage i).Talking ∧ (t.storage i).address.Sends pkt) : Talks t t' ∧ Labels t' := by
  refine ⟨⟨fun j hj ht => ?_,fun pkt hpkt => ?_,fun j hj => ?_,fun j hj => .inl (hp ▸ hj)⟩,fun j hj => ?_⟩
  · rw [hp] at hj
    by_cases hji : j = i
    · subst hji
      rw [hst,Function.update_self] at ht ⊢
      exact ⟨hj,hk ht⟩
    · rw [hst,Function.update_of_ne hji] at ht ⊢
      exact ⟨hj,ht,rfl⟩
  · exact (hw pkt hpkt).imp_right fun h => ⟨i,h⟩
  · refine ⟨hp ▸ hj.1,?_⟩
    have hs := hj.2
    by_cases hji : j = i
    · subst hji
      rw [hst,Function.update_self] at hs
      exact hli hs
    · rwa [hst,Function.update_of_ne hji] at hs
  · rw [hp] at hj
    by_cases hji : j = i
    · rwa [hst,hji,Function.update_self]
    · rw [hst,Function.update_of_ne hji]
      exact hl j hj

theorem detach (hl : Labels t)
    (ht : Pcb.Terminated { t.storage i with listener := none, releasePending := true } p')
    (hst : t'.storage = Function.update (Function.update t.storage l (Table.dropChild i (t.storage l))) i p')
    (hp : t'.pcbs = t.pcbs) (hw : t'.link.wire = t.link.wire) : Talks t t' ∧ Labels t' := by
  have hdrop : SameFlows t { t with storage := Function.update t.storage l (Table.dropChild i (t.storage l)) } :=
    .put (i := l) rfl rfl rfl rfl
  obtain ⟨h₁,hl₁⟩ := same hdrop hl
  have h₂ : Talks _ t' ∧ Labels t' := put hl₁ p' hst hp ht.labelled.1 (fun h => absurd h ht.labelled.2)
    (fun h => by simp [(Terminated.fields ht).2.2] at h) fun pkt hpkt => .inl (hw ▸ hpkt)
  exact ⟨h₁.trans h₂.1,h₂.2⟩

theorem move (hm : Move rx t t') (h : Inv t) (hl : Labels t) : Talks t t' ∧ Labels t' := by
  cases hm with
  | @conn i c' hi hc =>
    have hS := h.sound i hi
    have hlisten : c'.pcb.state = .listen → (t.storage i).state = .listen :=
      (Pcb.Tied.connMove hc).keeps.listen_iff.1
    by_cases hs : (t.storage i).state.silent
    · obtain ⟨hs',hw⟩ := hc.silent hS hs
      exact put hl c'.pcb rfl rfl (.of_none (silent_outstanding (.connMove hc hS) hs'))
        (fun ht => absurd hs' ht) hlisten fun pkt hp => .inl (hw ▸ hp)
    · obtain ⟨hlab,ha,hw⟩ := hc.talks hS (hl i hi) hs
      exact put hl c'.pcb rfl rfl hlab (fun ht => ⟨hs,ha ht⟩) hlisten
        fun pkt hp => (hw pkt hp).imp_right fun h => ⟨hi,hs,h⟩
  | aux timers port l' hw => exact same ⟨rfl,hw,fun _ _ => rfl⟩ hl
  | @dead i p hi hp =>
    refine same ⟨rfl,rfl,fun j hj => ?_⟩ hl
    have hji : j ≠ i := fun he => by simp [he,hi] at hj
    simp [Table.modify,hji]
  | @pend i hi hn hs => exact same (.put (i := i) rfl rfl rfl rfl) hl
  | @release i hi hr =>
    simp only [Table.tcpReleaseNow,hi,hr,not_true,if_false]
    have hne : ∀ j, Function.update t.pcbs i false j = true → j ≠ i ∧ t.pcbs j = true := by
      intro j hj
      have hji : j ≠ i := by
        rintro rfl
        simp at hj
      exact ⟨hji,by simpa [hji] using hj⟩
    refine ⟨⟨fun j hj ht => ?_,fun pkt hp => .inl hp,fun j hj => ?_,fun j hj => .inl (hne j hj).2⟩,fun j hj => ?_⟩
    · obtain ⟨hji,hj'⟩ := hne j hj
      simp only [Table.modify,Function.update_of_ne hji] at ht
      exact ⟨hj',ht,by simp [Table.modify,hji]⟩
    · obtain ⟨hji,hj'⟩ := hne j hj.1
      exact ⟨hj',by simpa [Table.modify,hji] using hj.2⟩
    · obtain ⟨hji,hj'⟩ := hne j hj
      simpa [Table.modify,hji] using hl j hj'
  | detach hc ht => exact detach hl ht rfl rfl rfl

theorem moves (hm : Moves rx t t') (h : Inv t) (hl : Labels t) : Talks t t' ∧ Labels t' := by
  induction hm with
  | refl => exact same (.refl t) hl
  | tail hm' hm ih =>
    obtain ⟨h₁,hl₁⟩ := ih
    obtain ⟨h₂,hl₂⟩ := move hm (h.moves hm') hl₁
    exact ⟨h₁.trans h₂,hl₂⟩

theorem act (h : Inv t) (hl : Labels t) (a : Action) (ha : a.serves = true) :
    Talks t (t.act a) ∧ Labels (t.act a) := by
  cases a with
  | tcpOpen | tcpBind | tcpListen | tcpConnectStart | tcpIn => cases ha
  | tcpAcceptAcquire l => exact same (SameFlows.accepting h l l).1 hl
  | tcpAcceptPeek l => exact same (SameFlows.accepting h l l).2.1 hl
  | tcpAcceptCommit l c => exact same (SameFlows.accepting h l c).2.2.1 hl
  | tcpAcceptRelease l => exact same (SameFlows.accepting h l l).2.2.2.1 hl
  | tcpAcceptReleaseChild l c => exact same (SameFlows.accepting h l c).2.2.2.2 hl
  | acceptToken i => exact same (.put (i := i) rfl rfl rfl rfl) hl
  | tcpWaitAcquire i w => exact same (SameFlows.waiting t i w).1 hl
  | waitToken i w => exact same (SameFlows.waiting t i w).2.1 hl
  | waitLeave i w => exact same (SameFlows.waiting t i w).2.2.1 hl
  | tcpRecvAcquire i => exact same (SameFlows.waiting t i .close).2.2.2 hl
  | recvToken i => exact same (.put (i := i) rfl rfl rfl rfl) hl
  | tcpRecvLeave i => exact same (.put (i := i) rfl rfl rfl rfl) hl
  | tcpSendStart i data =>
    simp only [Table.act]
    rcases tcpSendStart_cases none h i data with ⟨t',e,he,-,-,hm⟩ | ⟨k,he,hi,hs,-,-,n,-,hw⟩
    · rw [he]
      exact moves hm h hl
    · rw [he]
      have ht : (t.storage i).Talking := by
        rintro (h' | h') <;> simp [hs.1] at h'
      refine put hl ((t.storage i).sending data) rfl rfl (fun seg ho => ?_) (fun _ => ⟨ht,rfl⟩) (fun h' => h') fun pkt hp => ?_
      · obtain rfl : dataSegment (t.storage i) data = seg := by
          simpa [Pcb.sending,Pcb.started,Pcb.setOutstanding] using ho
        simp [dataSegment,Pcb.sending,Pcb.started,Pcb.setOutstanding]
      · have hp' : pkt ∈ t.link.wire++[⟨n,(t.storage i).remoteIp,dataSegment (t.storage i) data⟩] := hw ▸ hp
        rw [List.mem_append,List.mem_singleton] at hp'
        rcases hp' with hp' | rfl
        · exact .inl hp'
        · exact .inr ⟨hi,ht,rfl,by simp [dataSegment,Pcb.address],by simp [dataSegment,Pcb.address]⟩
  | tcpRecvTake i size =>
    by_cases hi : t.pcbs i = true
    swap
    · -- reading from a dead slot touches no live block
      simp only [Table.act,Table.recvTake]
      split
      next => exact same (.refl t) hl
      next =>
        refine same ⟨rfl,rfl,fun j hj => ?_⟩ hl
        have hji : j ≠ i := fun he => hi (he ▸ hj)
        simp [Table.modify,hji]
    simp only [Table.act,Table.recvTake]
    split
    next => exact same (.refl t) hl
    next r hr =>
      obtain ⟨hs,ha,ho⟩ : r.1.state = (t.storage i).state ∧ r.1.address = (t.storage i).address ∧
          r.1.outstanding = (t.storage i).outstanding := by
        unfold Pcb.tcpRecvTake at hr
        split at hr
        next => cases hr
        next =>
          cases hr
          exact ⟨rfl,rfl,rfl⟩
      refine put hl r.1 rfl rfl (fun seg hseg => ?_) (fun ht => ⟨by rwa [Pcb.Talking,← hs],ha⟩)
        (fun h' => hs ▸ h') fun pkt hp => .inl hp
      have hports := hl i hi seg (ho.symm.trans hseg)
      simp only [Pcb.address,Address.mk.injEq] at ha
      rwa [ha.2.2.2.1,ha.2.2.2.2]
  | tcpSocketDetach i =>
    simp only [Table.act]
    rcases tcpSocketDetach_cases t i with ⟨e,-,he⟩ | ⟨hd,he,-⟩
    · rw [he]
      exact same (.refl t) hl
    · have hf : SameFlows t (t.modify i fun p => { p with socketAttached := false }) :=
        .put (i := i) rfl rfl rfl rfl
      obtain ⟨h₁,hl₁⟩ := same hf hl
      obtain ⟨h₂,hl₂⟩ := moves (releaseNow_moves none _ i) (h.unattached hd.1) hl₁
      rw [he]
      exact ⟨h₁.trans h₂,hl₂⟩
  | tcpClose i => exact moves (close_moves none h i) h hl
  | tcpRetransmitDue i => exact moves (retransmitDue_moves none h i) h hl
  | tcpTimeWaitProc i => exact moves (timeWaitProc_moves none h i) h hl
  | tcpReleaseProc i => exact moves (releaseProc_moves none h i) h hl

/-- A new block that is closed. -/
theorem extend (hl : Labels t) (hlis : t.Listening l) (hj : t.pcbs j = false)
    (hp : t'.pcbs = Function.update t.pcbs j true) (hw : t'.link.wire = t.link.wire)
    (hf : ∀ i, i ≠ j → (t'.storage i).flow = (t.storage i).flow) (hs : (t'.storage j).state = .closed)
    (ho : (t'.storage j).outstanding = none) : Talks t t' ∧ Labels t' := by
  have hold : ∀ {i}, i ≠ j → t'.pcbs i = true → t.pcbs i = true := fun {i} hij hi => by
    simpa [hp,hij] using hi
  refine ⟨⟨fun i hi ht => ?_,fun pkt hpkt => .inl (hw ▸ hpkt),fun i hi => ?_,fun i _ => .inr ⟨l,hlis⟩⟩,
    fun i hi => ?_⟩
  · by_cases hij : i = j
    · subst hij
      exact absurd (.inl hs) ht
    · obtain ⟨h1,h2,-⟩ := flow_talking (hf i hij)
      exact ⟨hold hij hi,by rwa [Pcb.Talking,← h1],h2⟩
  · have hij : i ≠ j := by
      rintro rfl
      simp [Table.Listening,hs] at hi
    exact ⟨hold hij hi.1,(flow_talking (hf i hij)).1 ▸ hi.2⟩
  · by_cases hij : i = j
    · subst hij
      exact .of_none ho
    · exact (flow_talking (hf i hij)).2.2 (hl i (hold hij hi))

end Talks

/-- The arrival of a segment starts no conversation, unless it opens a connection. -/
theorem Arrival.talks {netif : NetifId} {src dest : IpAddr} (ha : Arrival t s netif src dest t') (h : Inv t)
    (hl : Labels t) :
    (Talks t t' ∧ Labels t') ∨
    ∃ l j p k, t.Listening l ∧ t.pcbs j = false ∧ t' = t.spawned l j (p.started (synAckSegment p) p.sndNxt) k ∧
      p.address = ⟨some netif,dest,src,s.destPort,s.srcPort⟩ ∧ p.outstanding = none ∧
      Emitted p (synAckSegment p) t.link k ∧ t.tcpFindPcb netif src dest s.srcPort s.destPort = none := by
  have hinv := h.arrival ha
  cases ha with
  | moves hm => exact .inl (Talks.moves hm h hl)
  | @completed l i hc hs hr hcomp =>
    have hne := h.links.ne_of_child hc
    have h₁ : SameFlows (t.modify i fun p => p.handshaken s) (t.completed l i s) :=
      .put (i := l) rfl rfl rfl rfl
    have h₂ : Talks t (t.modify i fun p => p.handshaken s) ∧ Labels (t.modify i fun p => p.handshaken s) :=
      Talks.put hl ((t.storage i).handshaken s) rfl rfl (.of_none rfl)
        (fun _ => ⟨by rintro (h' | h') <;> simp [hs] at h',rfl⟩)
        (fun h' => by simp [Pcb.handshaken] at h') fun pkt hp => .inl hp
    obtain ⟨h₃,hl₃⟩ := Talks.same h₁ h₂.2
    exact .inl ⟨h₂.1.trans h₃,hl₃⟩
  | @spawned l j x y z k p hll hr hj hb hf hp hem hmiss hport hip =>
    refine .inr ⟨l,j,p,k,hll,hj,rfl,?_,?_,hem,hmiss⟩
    · simp [hp,Pcb.address,Table.passiveChild,hport,hip]
    · simp [hp,Table.passiveChild,Pcb.allocated,Pcb.zeroed]
  | @spawnFailed l j x y z k p n u e hll hj hb hp hw =>
    left
    have hlj : l ≠ j := fun he => by simp [← he,hll.1] at hj
    let p' : Pcb := { p with retryCount := n, outstandingEnd := u }
    have hp' := passiveChild_links t l netif src s.srcPort s.seq s.window x y z
    rw [← hp] at hp'
    have hL : Links (t.spawned l j p' k) := .spawned h hll hj hp' hb
    have hc : (t.spawned l j p' k).IsChild l j := by simp [Table.IsChild,Table.spawned,p',hp'.2.1]
    rw [detachChild_eq hc.1 hc.2 (hL.ne_of_child hc)] at hinv ⊢
    have hclosed := Pcb.tcpTerminate_state { (t.spawned l j p' k).storage j with
        listener := none, releasePending := true } e
    refine Talks.extend hl hll hj rfl hw (fun i hij => ?_) ?_ ?_
    · by_cases hil : i = l
      · subst hil
        simp [Table.spawned,Table.dropChild,Pcb.flow,hlj]
      · simp [Table.spawned,hij,hil]
    · simpa using hclosed
    · refine silent_outstanding (hinv.sound j hc.1) (.inl ?_)
      simpa using hclosed

/-- The addresses of the connection as each end sees them. -/
def Setup.address (c : Setup) : Party → Address
  | .opener => ⟨some (c.netif .opener).id,(c.netif .opener).ipaddr,(c.netif .listener).ipaddr,
      (c.connect.1.storage 0).localPort,c.port⟩
  | .listener => ⟨some (c.netif .listener).id,(c.netif .listener).ipaddr,(c.netif .opener).ipaddr,
      c.port,(c.connect.1.storage 0).localPort⟩

/-- One conversation between the two hosts. -/
structure Joined (c : Setup) (pr : Pair) : Prop where
  inv : ∀ e, Inv (pr.host e).tcp
  labels : ∀ e, Labels (pr.host e).tcp
  only : ∀ j, (pr.host .opener).tcp.pcbs j = true → j = 0 ∧ ((pr.host .opener).tcp.storage j).state ≠ .listen
  address : ∀ e j, (pr.host e).tcp.pcbs j = true → ((pr.host e).tcp.storage j).Talking →
    ((pr.host e).tcp.storage j).address = c.address e
  unique : ∀ e i j, (pr.host e).tcp.pcbs i = true → ((pr.host e).tcp.storage i).Talking →
    (pr.host e).tcp.pcbs j = true → ((pr.host e).tcp.storage j).Talking → i = j
  inbox : ∀ e, ∀ pkt ∈ pr.inbox e, (c.address e.peer).Sends pkt

namespace Joined

variable {c : Setup} {pr : Pair}

theorem not_listening (h : Joined c pr) (l : Slot) : ¬(pr.host .opener).tcp.Listening l :=
  fun hl => (h.only l hl.1).2 hl.2

/-- One host changed and sent packets, all from the address of the connection. -/
theorem put (h : Joined c pr) (e : Party) {h' : Host} (hinv : Inv h'.tcp) (hlab : Labels h'.tcp)
    (honly : e = .opener → ∀ j, h'.tcp.pcbs j = true → j = 0 ∧ (h'.tcp.storage j).state ≠ .listen)
    (haddr : ∀ j, h'.tcp.pcbs j = true → (h'.tcp.storage j).Talking → (h'.tcp.storage j).address = c.address e)
    (huniq : ∀ i j, h'.tcp.pcbs i = true → (h'.tcp.storage i).Talking → h'.tcp.pcbs j = true →
      (h'.tcp.storage j).Talking → i = j)
    (hwire : ∀ pkt ∈ h'.tcp.link.wire, (c.address e).Sends pkt) : Joined c (pr.sent e h') := by
  have hhost : ∀ e', (pr.sent e h').host e' = if e' = e then h' else pr.host e' := by
    intro e'
    by_cases he : e' = e
    · simp [Pair.sent,he]
    · simp [Pair.sent,he]
  refine ⟨fun e' => ?_,fun e' => ?_,?_,fun e' => ?_,fun e' => ?_,fun e' pkt hpkt => ?_⟩
  · rw [hhost]
    split
    · exact hinv
    · exact h.inv e'
  · rw [hhost]
    split
    · exact hlab
    · exact h.labels e'
  · rw [hhost]
    split
    next he => exact honly he.symm
    next => exact h.only
  · rw [hhost]
    split
    next he => exact he ▸ haddr
    next => exact h.address e'
  · rw [hhost]
    split
    next => exact huniq
    next => exact h.unique e'
  · by_cases he : e' = e.peer
    · subst he
      have hpkt' : pkt ∈ pr.inbox e.peer ∨ pkt ∈ h'.tcp.link.wire := by simpa [Pair.sent] using hpkt
      rcases hpkt' with hold | hnew
      · exact h.inbox _ pkt hold
      · simpa using hwire pkt hnew
    · exact h.inbox e' pkt (by simpa [Pair.sent,he] using hpkt)

theorem sends (h : Joined c pr) (e : Party) (fates : List NetErr) {h' : Host} (hinv : Inv h'.tcp)
    (hlab : Labels h'.tcp) (ht : Talks ((pr.host e).tcp.ready fates) h'.tcp) : Joined c (pr.sent e h') := by
  refine h.put e hinv hlab ?_ (fun j hj hs => ?_) (fun i j hi hsi hj hsj => ?_) fun pkt hpkt => ?_
  · rintro rfl j hj
    have hj₀ : (pr.host .opener).tcp.pcbs j = true := by
      rcases ht.born j hj with hj₀ | ⟨l,hl⟩
      · exact hj₀
      · exact absurd hl (h.not_listening l)
    exact ⟨(h.only j hj₀).1,fun hs => h.not_listening j (ht.listen j ⟨hj,hs⟩)⟩
  · obtain ⟨hj₀,hs₀,ha⟩ := ht.kept j hj hs
    exact ha.trans (h.address e j hj₀ hs₀)
  · obtain ⟨hi₀,hsi₀,-⟩ := ht.kept i hi hsi
    obtain ⟨hj₀,hsj₀,-⟩ := ht.kept j hj hsj
    exact h.unique e i j hi₀ hsi₀ hj₀ hsj₀
  · rcases ht.wire pkt hpkt with hold | ⟨j,hj,hs,hsend⟩
    · simp [Table.ready] at hold
    · have ha := h.address e j hj hs
      exact ha ▸ hsend

theorem call (h : Joined c pr) (e : Party) (fates : List NetErr) (a : Action) :
    Joined c (pr.call e fates a) := by
  unfold Pair.call
  split
  swap
  next => exact h
  next ha =>
    have hinv : Inv ((pr.host e).tcp.ready fates) := (h.inv e).congr rfl rfl rfl
    have hlab : Labels ((pr.host e).tcp.ready fates) := h.labels e
    obtain ⟨ht,hlab'⟩ := Talks.act hinv hlab a ha
    exact h.sends e fates (hinv.act a) hlab' ht

theorem lose (h : Joined c pr) (e : Party) (k : ℕ) : Joined c (pr.lose e k) := by
  refine ⟨h.inv,h.labels,h.only,h.address,h.unique,fun e' pkt hpkt => ?_⟩
  by_cases he : e' = e
  · subst he
    exact h.inbox e' pkt (List.mem_of_mem_eraseIdx (by simpa [Pair.lose] using hpkt))
  · exact h.inbox e' pkt (by simpa [Pair.lose,he] using hpkt)

theorem copy (h : Joined c pr) (e : Party) (k : ℕ) : Joined c (pr.copy e k) := by
  unfold Pair.copy
  split
  next => exact h
  next pkt₀ hk =>
    refine ⟨h.inv,h.labels,h.only,h.address,h.unique,fun e' pkt hpkt => ?_⟩
    by_cases he : e' = e
    · subst he
      have hpkt' : pkt ∈ pr.inbox e' ∨ pkt = pkt₀ := by simpa using hpkt
      rcases hpkt' with hold | rfl
      · exact h.inbox e' pkt hold
      · exact h.inbox e' pkt (List.mem_of_getElem? hk)
    · exact h.inbox e' pkt (by simpa [he] using hpkt)

/-- A talking block is found by the segments of its connection. -/
theorem found (h : Inv t) (hj : t.pcbs j = true) {netif : NetifId} {src dest : IpAddr} {srcPort destPort : Port}
    (ha : (t.storage j).address = ⟨some netif,dest,src,destPort,srcPort⟩) :
    t.tcpFindPcb netif src dest srcPort destPort ≠ none := by
  intro hn
  simp only [Pcb.address,Address.mk.injEq] at ha
  have hno := List.find?_eq_none.1 hn j (mem_slots j)
  simp [hj,h.links.opened,ha] at hno

theorem spawn (h : Joined c pr) {h' : Host} (fates : List NetErr) (hinv : Inv h'.tcp) {pkt : Packet} {p : Pcb}
    {k : Link} (hpkt : (c.address .opener).Sends pkt) (hl : (pr.host .listener).tcp.Listening l)
    (hj : (pr.host .listener).tcp.pcbs j = false)
    (ht : h'.tcp = ((pr.host .listener).tcp.ready fates).spawned l j (p.started (synAckSegment p) p.sndNxt) k)
    (ha : p.address = ⟨some (c.netif .listener).id,pkt.dest,(c.netif .opener).ipaddr,pkt.seg.destPort,
      pkt.seg.srcPort⟩)
    (hem : Emitted p (synAckSegment p) ((pr.host .listener).tcp.ready fates).link k)
    (hmiss : ((pr.host .listener).tcp.ready fates).tcpFindPcb (c.netif .listener).id (c.netif .opener).ipaddr
      pkt.dest pkt.seg.srcPort pkt.seg.destPort = none) : Joined c (pr.sent .listener h') := by
  have hlj : l ≠ j := fun he => by simp [← he,hl.1] at hj
  have haddr : p.address = c.address .listener := by
    obtain ⟨h1,h2,h3⟩ := hpkt
    rw [ha,h1,h2,h3]
    rfl
  -- a second talking block would have been found
  have hnone : ∀ i, (pr.host .listener).tcp.pcbs i = true → ¬((pr.host .listener).tcp.storage i).Talking := by
    intro i hi hs
    have hinv' : Inv ((pr.host .listener).tcp.ready fates) := (h.inv .listener).congr rfl rfl rfl
    refine found hinv' hi ?_ hmiss
    have hi' := h.address .listener i hi hs
    rw [← haddr,ha] at hi'
    exact hi'
  have hnew : h'.tcp.storage j = p.started (synAckSegment p) p.sndNxt := by simp [ht,Table.spawned]
  have hold : ∀ i, i ≠ j → (h'.tcp.storage i).flow = ((pr.host .listener).tcp.storage i).flow := by
    intro i hij
    by_cases hil : i = l
    · subst hil
      simp [ht,Table.spawned,hlj,Table.ready,Pcb.flow]
    · simp [ht,Table.spawned,hij,hil,Table.ready]
  have hlive : ∀ i, i ≠ j → h'.tcp.pcbs i = true → (pr.host .listener).tcp.pcbs i = true := by
    intro i hij hi
    simpa [ht,Table.spawned,hij,Table.ready] using hi
  have honly : ∀ i, h'.tcp.pcbs i = true → (h'.tcp.storage i).Talking → i = j := by
    intro i hi hs
    by_contra hij
    refine hnone i (hlive i hij hi) ?_
    rwa [Pcb.Talking,← (flow_talking (hold i hij)).1]
  refine h.put .listener hinv (fun i hi => ?_) (fun he => by cases he) (fun i hi hs => ?_)
    (fun i i' hi hs hi' hs' => ?_) fun q hq => ?_
  · by_cases hij : i = j
    · subst hij
      rw [hnew]
      intro seg hseg
      obtain rfl : synAckSegment p = seg := by simpa [Pcb.started,Pcb.setOutstanding] using hseg
      simp [synAckSegment,Pcb.started,Pcb.setOutstanding]
    · exact (flow_talking (hold i hij)).2.2 (h.labels .listener i (hlive i hij hi))
  · obtain rfl := honly i hi hs
    rw [hnew]
    exact haddr
  · rw [honly i hi hs,honly i' hi' hs']
  · obtain ⟨n,-,hw⟩ := hem
    have hw' : h'.tcp.link.wire = [⟨n,p.remoteIp,synAckSegment p⟩] := by
      rw [ht]
      exact hw
    obtain rfl : q = ⟨n,p.remoteIp,synAckSegment p⟩ := by simpa [hw'] using hq
    rw [← haddr]
    exact ⟨rfl,by simp [synAckSegment,Pcb.address],by simp [synAckSegment,Pcb.address]⟩

theorem deliver (h : Joined c pr) (e : Party) (fates : List NetErr) (k : ℕ) :
    Joined c (pr.deliver c e fates k) := by
  unfold Pair.deliver
  split
  next => exact h
  next pkt hk =>
    have hinv : Inv ((pr.host e).tcp.ready fates) := (h.inv e).congr rfl rfl rfl
    have hlab : Labels ((pr.host e).tcp.ready fates) := h.labels e
    have ha := arrived_arrival (h.inv e) fates (c.netif e) (c.netif e.peer).ipaddr pkt
    have hinv' : Inv ((pr.host e).receive fates (c.netif e) (c.netif e.peer).ipaddr pkt).tcp := by
      rw [receive_tcp]
      exact hinv.arrival ha
    have hJ : Joined c ((pr.lose e k).sent e
        ((pr.host e).receive fates (c.netif e) (c.netif e.peer).ipaddr pkt)) := by
      rcases ha.talks hinv hlab with ⟨ht,hlab'⟩ | ⟨l,j,p,m,hl,hj,ht,hadd,-,hem,hmiss⟩
      · exact (h.lose e k).sends e fates hinv' (by rwa [receive_tcp]) (by rwa [receive_tcp])
      · cases e with
        | opener => exact absurd hl (h.not_listening l)
        | listener =>
          refine (h.lose .listener k).spawn fates hinv' (h.inbox .listener pkt (List.mem_of_getElem? hk))
            hl hj ?_ hadd hem hmiss
          rw [receive_tcp]
          exact ht
    exact ⟨hJ.inv,hJ.labels,hJ.only,hJ.address,hJ.unique,hJ.inbox⟩

theorem start (hc : c.connect.2 = .ok) : Joined c c.start := by
  obtain ⟨port,next,k,n,q,hq,he,hinv,hi,hst,hw⟩ := connect_eq hc
  obtain ⟨-,hone⟩ := connect_side hc (.blank 0)
  have hzero : ∀ j, c.connect.1.pcbs j = true → j = 0 := fun j hj => by simpa using (hone j hj).symm
  have hB := listen_side c (.blank 0) (.blank 0) ⟨List.prefix_refl _,by decide⟩ (by simp [Half.blank])
  have hsilent : ∀ j, c.listen.pcbs j = true → (c.listen.storage j).state.silent :=
    fun j hj => hB.others j hj (by simp)
  have hq' : q.address = c.address .opener := by
    have hp : (c.connect.1.storage 0).localPort = port := by rw [hst,hq]; rfl
    rw [hq]
    simp [Pcb.address,Setup.address,hp,Table.connecting]
  refine ⟨fun e => ?_,fun e j hj => ?_,fun j hj => ?_,fun e j hj hs => ?_,fun e i j hi' hs hj hs' => ?_,
    fun e pkt hpkt => ?_⟩
  · cases e with
    | opener => exact hinv
    | listener => exact hB.inv
  · cases e with
    | opener =>
      obtain rfl := hzero j hj
      intro seg hseg
      have hseg' : c.connect.1.storage 0 = _ ∧ (c.connect.1.storage 0).outstanding = some seg := ⟨rfl,hseg⟩
      rw [hst] at hseg'
      obtain rfl : synSegment q = seg := by simpa [Pcb.started,Pcb.setOutstanding] using hseg'.2
      change _ = (c.connect.1.storage 0).localPort ∧ _ = (c.connect.1.storage 0).remotePort
      rw [hst]
      simp [synSegment,Pcb.started,Pcb.setOutstanding]
    | listener => exact .of_none (silent_outstanding (hB.inv.sound j hj) (hsilent j hj))
  · obtain rfl := hzero j hj
    refine ⟨rfl,?_⟩
    change (c.connect.1.storage 0).state ≠ _
    simp [hst]
  · cases e with
    | opener =>
      obtain rfl := hzero j hj
      change (c.connect.1.storage 0).address = _
      rw [hst]
      exact hq'
    | listener => exact absurd (hsilent j hj) hs
  · cases e with
    | opener => rw [hzero i hi',hzero j hj]
    | listener => exact absurd (hsilent j hj) hs'
  · cases e with
    | opener => simp [Setup.start] at hpkt
    | listener =>
      obtain rfl : pkt = ⟨n,q.remoteIp,synSegment q⟩ := by simpa [Setup.start,hw] using hpkt
      change (c.address .opener).Sends _
      rw [← hq']
      exact ⟨rfl,by simp [synSegment,Pcb.address],by simp [synSegment,Pcb.address]⟩

theorem run (h : Joined c pr) (events : List Event) : Joined c (pr.run c events) := by
  induction events generalizing pr with
  | nil => exact h
  | cons ev events ih =>
    refine ih ?_
    cases ev with
    | call e fates a => exact h.call e fates a
    | deliver e fates k => exact h.deliver e fates k
    | lose e k => exact h.lose e k
    | copy e k => exact h.copy e k

end Joined
end Tcp
end QuardStarNet
