import QuardStarNet.Conversation

/-! What the timers and the deliveries alone can bring about between two hosts: whether a
handshake whose last ACK was lost recovers, and whether a sender that saw a small window
can go on once the receiver emptied its ring. -/
namespace QuardStarNet
namespace Tcp

variable {t t' t'' : Table} {i j : Slot} {p p' : Pcb} {e : NetErr}

section Fades

/-- The block is as it was or has been terminated. -/
def Pcb.Fades (p p' : Pcb) : Prop :=
  p'.state = p.state ∧ p'.outstanding = p.outstanding ∧ p'.window = p.window ∨
    p'.state = .closed ∧ p'.outstanding = none

theorem Pcb.Fades.refl (p : Pcb) : p.Fades p := .inl ⟨rfl,rfl,rfl⟩

theorem Pcb.Fades.trans {p'' : Pcb} (h : p.Fades p') (h' : p'.Fades p'') : p.Fades p'' := by
  rcases h' with ⟨hs,ho,hw⟩ | h'
  · rcases h with ⟨hs₀,ho₀,hw₀⟩ | ⟨hs₀,ho₀⟩
    · exact .inl ⟨hs.trans hs₀,ho.trans ho₀,hw.trans hw₀⟩
    · exact .inr ⟨hs.trans hs₀,ho.trans ho₀⟩
  · exact .inr h'

theorem Pcb.Fades.terminate (p p' : Pcb) (e : NetErr) : p.Fades (p'.tcpTerminate e) := by
  obtain ⟨a,b,c,he⟩ := p'.tcpTerminate_eq e
  rw [he]
  exact .inr ⟨rfl,rfl⟩

/-- Nothing was sent and no block did more than terminate or go away. -/
structure Fades (t t' : Table) : Prop where
  wire : t'.link.wire = t.link.wire
  pcbs : ∀ j, t'.pcbs j = true → t.pcbs j = true ∧ (t.storage j).Fades (t'.storage j)

namespace Fades

theorem refl (t : Table) : Fades t t := ⟨rfl,fun _ hj => ⟨hj,.refl _⟩⟩

theorem trans (h : Fades t t') (h' : Fades t' t'') : Fades t t'' := by
  refine ⟨h'.wire.trans h.wire,fun j hj => ?_⟩
  obtain ⟨hj',hf'⟩ := h'.pcbs j hj
  obtain ⟨hj₀,hf⟩ := h.pcbs j hj'
  exact ⟨hj₀,hf.trans hf'⟩

theorem modify (t : Table) (i : Slot) {f : Pcb → Pcb} (hf : (t.storage i).Fades (f (t.storage i))) :
    Fades t (t.modify i f) := by
  refine ⟨rfl,fun j hj => ⟨hj,?_⟩⟩
  by_cases hji : j = i
  · subst hji
    simpa [Table.modify] using hf
  · simpa [Table.modify,hji] using Pcb.Fades.refl _

theorem releaseNow (t : Table) (i : Slot) : Fades t (t.tcpReleaseNow i).1 := by
  unfold Table.tcpReleaseNow
  split
  next => exact .refl t
  next =>
  split
  next => exact .refl t
  next =>
    refine ⟨rfl,fun j hj => ?_⟩
    by_cases hji : j = i
    · simp [hji] at hj
    · exact ⟨by simpa [hji] using hj,by simpa [Table.modify,hji] using Pcb.Fades.refl _⟩

theorem requestRelease (t : Table) (i : Slot) : Fades t (t.tcpRequestRelease i).1 := by
  unfold Table.tcpRequestRelease
  split
  next => exact .refl t
  next =>
    have h := modify t i (f := fun p => { p with releasePending := true }) (.inl ⟨rfl,rfl,rfl⟩)
    exact ⟨h.wire,h.pcbs⟩

theorem detachChild (t : Table) (i : Slot) (e : NetErr) : Fades t (t.tcpListenerDetachChild i e) := by
  unfold Table.tcpListenerDetachChild
  split
  next => exact .refl t
  next l _ =>
  split
  next => exact .refl t
  next =>
    let t₁ : Table := t.modify l (Table.dropChild i)
    let t₂ : Table := t₁.modify i fun p => { p with listener := none, releasePending := true }.tcpTerminate e
    let t₃ : Table := { t₂ with detachedListeners := Function.update t₂.detachedListeners i (some l) }
    have h₁ : Fades t t₁ := modify t l (.inl ⟨rfl,rfl,rfl⟩)
    have h₂ : Fades t₁ t₂ := modify t₁ i (.terminate _ _ e)
    have h₃ : Fades t t₃ := h₁.trans ⟨h₂.wire,h₂.pcbs⟩
    have h₄ := h₃.trans (requestRelease t₃ i)
    simp only
    split
    next => exact h₄
    next => exact h₄.trans (releaseNow _ i)

theorem fail (t : Table) (i : Slot) (e : NetErr) : Fades t (t.tcpFail i e).1 := by
  have h : Fades t (t.modify i fun p => p.tcpTerminate e) := modify t i (.terminate _ _ e)
  unfold Table.tcpFail
  simp only
  split
  next => exact h.trans (detachChild _ i e)
  next => exact h

theorem foldl {f : Table → Slot → Table} (hf : ∀ t j, Fades t (f t j)) (js : List Slot) (t : Table) :
    Fades t (js.foldl f t) := by
  induction js generalizing t with
  | nil => exact .refl t
  | cons j js ih => exact (hf t j).trans (ih (f t j))

theorem cleanup (t : Table) (i : Slot) : Fades t (t.tcpListenerCleanup i) := by
  unfold Table.tcpListenerCleanup Table.tcpListenerReleaseDetached
  have h₁ := foldl (f := fun t j =>
    if t.pcbs j ∧ j ≠ i ∧ (t.storage j).listener = some i then t.tcpListenerDetachChild j .state else t)
    (fun t j => ?_) slots t
  · refine h₁.trans (foldl (fun t j => ?_) slots _)
    split
    next => exact releaseNow t j
    next => exact .refl t
  · split
    next => exact detachChild t j .state
    next => exact .refl t

theorem releaseProc (t : Table) (i : Slot) : Fades t (t.tcpReleaseProc i) := by
  have hrel : ∀ t : Table, Fades t
      (Table.tcpReleaseNow { t with releaseTimers := Function.update t.releaseTimers i false } i).1 :=
    fun t => ⟨(releaseNow _ i).wire,(releaseNow { t with
      releaseTimers := Function.update t.releaseTimers i false } i).pcbs⟩
  unfold Table.tcpReleaseProc
  split
  next => exact ⟨rfl,fun _ hj => ⟨hj,.refl _⟩⟩
  next =>
    simp only
    cases hclean : decide ((t.storage i).opened ∧ (t.storage i).releasePending ∧
        (t.storage i).state = .listen ∧ (t.storage i).acceptWaiters = 0) with
    | true =>
      simp only [if_true]
      split
      next => exact (cleanup t i).trans (hrel _)
      next => exact cleanup t i
    | false =>
      simp only [Bool.false_eq_true,if_false]
      split
      next => exact hrel t
      next => exact .refl t

theorem timeWaitProc (h : Inv t) (i : Slot) : Fades t (t.tcpTimeWaitProc i) := by
  unfold Table.tcpTimeWaitProc
  simp only
  split
  next hw =>
    refine trans ?_ (requestRelease _ i)
    refine ⟨rfl,fun j hj => ⟨hj,?_⟩⟩
    by_cases hji : j = i
    · subst hji
      have ho : (t.storage j).outstanding = none := by
        cases ho : (t.storage j).outstanding with
        | none => rfl
        | some seg => simpa [hw.2.1,Owns] using ((h.sound j hj).owned seg ho).1
      exact .inr (by simp [Table.modify,ho])
    · simpa [Table.modify,hji] using Pcb.Fades.refl _
  next => exact modify t i (.inl ⟨rfl,rfl,rfl⟩)

/-- A retransmission sends at most a copy of the outstanding segment. -/
theorem retransmitDue (t : Table) (i : Slot) : ∃ l' : Link,
    Fades { t with link := l' } (t.tcpRetransmitDue i).1 ∧ (l'.wire = t.link.wire ∨
      ∃ seg, t.pcbs i = true ∧ (t.storage i).outstanding = some seg ∧ Emitted (t.storage i) seg t.link l') := by
  unfold Table.tcpRetransmitDue
  split
  next => exact ⟨t.link,.refl t,.inl rfl⟩
  next hi =>
  split
  next => exact ⟨t.link,.refl t,.inl rfl⟩
  next ho =>
    rw [not_not] at hi ho
    obtain ⟨seg,hseg⟩ := Option.ne_none_iff_exists'.1 ho.2
    let t₀ : Table := t.modify i fun p => { p with retransTimer := false }
    obtain ⟨l',e,he,hat⟩ := outputOwned_eq (t := t₀) (i := i) seg (by simpa [t₀,Table.modify] using hseg)
    have hat' : Attempt (t.storage i) seg t.link l' e := by
      simpa [t₀,Attempt,Emitted,Table.modify] using hat
    let t₁ : Table := { t₀ with link := l' }
    have h₁ : Fades { t with link := l' } t₁ :=
      modify { t with link := l' } i (f := fun p => { p with retransTimer := false }) (.inl ⟨rfl,rfl,rfl⟩)
    have h₂ : Fades t₁ (t₁.modify i fun p => { p with retryCount := p.retryCount+1 }) :=
      modify t₁ i (.inl ⟨rfl,rfl,rfl⟩)
    have harm : ∀ t : Table, Fades t (t.onPcb i Pcb.tcpArmTimer).1 := fun t => by
      have h := modify t i (f := fun p => p.tcpArmTimer.1) (.inl ⟨rfl,rfl,rfl⟩)
      exact ⟨h.wire,h.pcbs⟩
    refine ⟨l',?_,hat'.elim (fun h => .inr ⟨seg,hi,hseg,h.2⟩) fun h => .inl h.2⟩
    refine h₁.trans ?_
    have he' : (t.modify i fun p => { p with retransTimer := false }).onConn i Conn.tcpOutputOwned = (t₁,e) := he
    simp only [he']
    by_cases hok : e = .ok
    swap
    · rw [onErr_err hok,onOk_err (by simpa [Table.tcpFail] using hok)]
      exact fail t₁ i e
    rw [onErr_ok hok,onOk_ok hok]
    refine h₂.trans ?_
    simp only
    split
    next => exact fail _ i .tmo
    next =>
      unfold onErr
      split
      next => exact harm _
      next => exact (harm _).trans (fail _ i _)

end Fades
end Fades

section Ignored

variable {s : Segment} {netif : NetifId} {src dest : IpAddr}

/-- A repeated `SYN` or `SYN-ACK` changes nothing once all blocks are ESTABLISHED or closed. -/
theorem tcpIn_syn (h : ∀ j, t.pcbs j = true → (t.storage j).state = .established ∨ (t.storage j).state = .closed)
    (hs : s.has flagSyn = true) : (t.tcpIn netif src dest s.bytes).1 = t := by
  simp only [Table.tcpIn,Segment.ofBytes_bytes]
  split
  next => rfl
  next =>
    unfold Table.tcpInSegment
    split
    next i hi =>
      rcases h i (findPcb_live hi).1 with hi' | hi' <;> simp [Table.tcpInPcb,hi',Table.tcpInStream,hs]
    next =>
      split
      next => rfl
      next l hl =>
        have hl' := (findListener_listening hl).1
        rcases h l hl'.1 with h' | h' <;> simp [hl'.2] at h'

/-- Data that arrives before the handshake is complete is dropped. -/
theorem tcpIn_early (h : ∀ j, t.pcbs j = true → (t.storage j).state = .synReceived ∨ (t.storage j).state.silent)
    (hs : s.payload ≠ []) : (t.tcpIn netif src dest s.bytes).1 = t := by
  have ht : s.total ≠ s.headerSize := by
    intro ht
    simp only [Segment.total] at ht
    exact hs (List.drop_eq_nil_of_le (by omega))
  simp only [Table.tcpIn,Segment.ofBytes_bytes]
  split
  next => rfl
  next =>
    unfold Table.tcpInSegment
    split
    next i hi =>
      rcases h i (findPcb_live hi).1 with hi' | hi' | hi' <;> simp [Table.tcpInPcb,hi',Table.tcpInSynReceived,ht]
    next =>
      split
      next => rfl
      next => simp [ht]

end Ignored

section Recovery

/-- What a recovery may use: sends of the opener, retransmissions and deliveries. -/
def Event.recovers : Event → Bool
  | .call .opener _ (.tcpSendStart ..) => true
  | .call _ _ (.tcpRetransmitDue _) => true
  | .deliver .. => true
  | _ => false

/-- The opener is ESTABLISHED in slot `i`, the child in slot `j` of the listener waits for
the last ACK of the handshake, and nothing is on its way. -/
structure Pair.AckLost (pr : Pair) (i j : Slot) : Prop where
  opener : (pr.host .opener).tcp.pcbs i = true ∧ ((pr.host .opener).tcp.storage i).state = .established
  child : (pr.host .listener).tcp.pcbs j = true ∧ ((pr.host .listener).tcp.storage j).state = .synReceived
  outstanding : ((pr.host .listener).tcp.storage j).outstanding ≠ none ∧
    ((pr.host .listener).tcp.storage j).retryCount < retryMax
  inbox : ∀ e, pr.inbox e = []

/-- The states in which a host whose handshake lost its last ACK is caught. -/
def Party.Caught : Party → TcpState → Prop
  | .opener, s => s = .established ∨ s = .closed
  | .listener, s => s = .synReceived ∨ s.silent

/-- What a caught host sends: the opener data, the listener its SYN-ACK. -/
def Party.Stale : Party → Segment → Prop
  | .opener, s => s.payload ≠ []
  | .listener, s => s.has flagSyn = true

/-- Neither host accepts what the other repeats. -/
structure Stuck (pr : Pair) : Prop where
  inv : ∀ e, Inv (pr.host e).tcp
  caught : ∀ e j, (pr.host e).tcp.pcbs j = true → e.Caught ((pr.host e).tcp.storage j).state
  inbox : ∀ e, ∀ pkt ∈ pr.inbox e, e.peer.Stale pkt.seg

namespace Stuck

variable {c : Setup} {pr : Pair}

theorem closed (e : Party) : e.Caught .closed := by
  cases e with
  | opener => exact .inr rfl
  | listener => exact .inr (.inl rfl)

theorem stale (hp : p.Sound) (e : Party) (hc : e.Caught p.state) {seg : Segment}
    (ho : p.outstanding = some seg) : e.Stale seg := by
  have hown := (hp.owned seg ho).1
  cases e with
  | opener =>
    rcases hc with hc | hc <;> rw [hc] at hown
    · exact List.ne_nil_of_length_pos hown.2.1
    · exact hown.elim
  | listener =>
    rcases hc with hc | hc | hc <;> rw [hc] at hown
    · simp [Party.Stale,Segment.has,hown.1,flagSyn,flagAck]
    · exact hown.elim
    · exact hown.elim

theorem put (h : Stuck pr) (e : Party) {h' : Host} (hinv : Inv h'.tcp)
    (hcaught : ∀ j, h'.tcp.pcbs j = true → e.Caught (h'.tcp.storage j).state)
    (hwire : ∀ pkt ∈ h'.tcp.link.wire, e.Stale pkt.seg) : Stuck (pr.sent e h') := by
  refine ⟨fun e' => ?_,fun e' => ?_,fun e' pkt hpkt => ?_⟩
  · by_cases he : e' = e
    · subst he
      simpa [Pair.sent] using hinv
    · simpa [Pair.sent,he] using h.inv e'
  · by_cases he : e' = e
    · subst he
      simpa [Pair.sent] using hcaught
    · simpa [Pair.sent,he] using h.caught e'
  · by_cases he : e' = e.peer
    · subst he
      have hpkt' : pkt ∈ pr.inbox e.peer ∨ pkt ∈ h'.tcp.link.wire := by simpa [Pair.sent] using hpkt
      rcases hpkt' with hold | hnew
      · exact h.inbox _ pkt hold
      · simpa using hwire pkt hnew
    · exact h.inbox e' pkt (by simpa [Pair.sent,he] using hpkt)

theorem send (h : Stuck pr) (fates : List NetErr) (i : Slot) (data : List Byte) :
    Stuck (pr.call .opener fates (.tcpSendStart i data)) := by
  have hinv : Inv ((pr.host .opener).tcp.ready fates) := (h.inv .opener).congr rfl rfl rfl
  have hinv' := hinv.act (.tcpSendStart i data)
  rcases tcpSendStart_cases none hinv i data with ⟨t',e,he,-,⟨hw,hp,hs⟩,-⟩ | ⟨k,he,hi,hs,h1,-,n,-,hw⟩
  · have ht : ((pr.host .opener).tcp.ready fates).act (.tcpSendStart i data) = t' := by simp [Table.act,he]
    rw [ht] at hinv'
    refine h.put .opener (by simpa [Host.call,ht] using hinv') ?_ ?_
    · simp only [Host.call,ht,hp,hs]
      exact h.caught .opener
    · simp [Host.call,ht,hw]
  · have ht : ((pr.host .opener).tcp.ready fates).act (.tcpSendStart i data) =
        ((pr.host .opener).tcp.ready fates).setConn i
          ⟨(((pr.host .opener).tcp.ready fates).storage i).sending data,k⟩ := by simp [Table.act,he]
    rw [ht] at hinv'
    refine h.put .opener (by simpa [Host.call,ht] using hinv') (fun j hj => ?_) fun pkt hpkt => ?_
    · simp only [Host.call,ht] at hj ⊢
      by_cases hji : j = i
      · subst hji
        simp [Table.setConn,Pcb.sending,Pcb.started,Pcb.setOutstanding,hs.1,Party.Caught]
      · simpa [Table.setConn,hji,Table.ready] using h.caught .opener j hj
    · simp only [Host.call,ht,Table.setConn,hw,Table.ready_wire,List.nil_append,List.mem_singleton] at hpkt
      subst hpkt
      simp only [Party.Stale,dataSegment,Conn.segment_payload]
      exact List.ne_nil_of_length_pos h1

theorem retransmit (h : Stuck pr) (e : Party) (fates : List NetErr) (i : Slot) :
    Stuck (pr.call e fates (.tcpRetransmitDue i)) := by
  have hinv : Inv ((pr.host e).tcp.ready fates) := (h.inv e).congr rfl rfl rfl
  obtain ⟨l',hf,hw⟩ := Fades.retransmitDue ((pr.host e).tcp.ready fates) i
  refine h.put e (hinv.act (.tcpRetransmitDue i)) (fun j hj => ?_) fun pkt hpkt => ?_
  · obtain ⟨hj₀,hs | hs⟩ := hf.pcbs j hj
    · exact hs.1 ▸ h.caught e j hj₀
    · exact hs.1 ▸ closed e
  · have hpkt' : pkt ∈ l'.wire := hf.wire ▸ hpkt
    rcases hw with hw | ⟨seg,hi,ho,n,-,hw⟩
    · simp [hw,Table.ready] at hpkt'
    · obtain rfl : pkt = ⟨n,_,seg⟩ := by simpa [hw,Table.ready] using hpkt'
      exact stale (hinv.sound i hi) e (h.caught e i hi) ho

theorem deliver (h : Stuck pr) (e : Party) (fates : List NetErr) (k : ℕ) :
    Stuck (pr.deliver c e fates k) := by
  unfold Pair.deliver
  split
  next => exact h
  next pkt hk =>
    have hinv : Inv ((pr.host e).tcp.ready fates) := (h.inv e).congr rfl rfl rfl
    have hstale := h.inbox e pkt (List.mem_of_getElem? hk)
    have hsame : ((pr.host e).receive fates (c.netif e) (c.netif e.peer).ipaddr pkt).tcp =
        (pr.host e).tcp.ready fates := by
      rw [receive_tcp]
      cases e with
      | opener => exact tcpIn_syn (h.caught .opener) hstale
      | listener => exact tcpIn_early (h.caught .listener) hstale
    have hl : Stuck (pr.lose e k) := by
      refine ⟨h.inv,h.caught,fun e' q hq => ?_⟩
      by_cases he : e' = e
      · subst he
        exact h.inbox e' q (List.mem_of_mem_eraseIdx (by simpa [Pair.lose] using hq))
      · exact h.inbox e' q (by simpa [Pair.lose,he] using hq)
    have hS := hl.put e (hsame ▸ hinv) (by rw [hsame]; exact h.caught e) (by rw [hsame]; simp [Table.ready])
    exact ⟨hS.inv,hS.caught,hS.inbox⟩

theorem run (h : Stuck pr) (events : List Event) (hev : ∀ ev ∈ events, ev.recovers = true) :
    Stuck (pr.run c events) := by
  induction events generalizing pr with
  | nil => exact h
  | cons ev events ih =>
    refine ih ?_ fun ev' h' => hev ev' (List.mem_cons_of_mem _ h')
    have hr := hev ev List.mem_cons_self
    cases ev with
    | call e fates a =>
      cases a with
      | tcpSendStart i data =>
        cases e with
        | opener => exact h.send fates i data
        | listener => simp [Event.recovers] at hr
      | tcpRetransmitDue i => exact h.retransmit e fates i
      | _ => cases e <;> simp [Event.recovers] at hr
    | deliver e fates k => exact h.deliver e fates k
    | lose e k => simp [Event.recovers] at hr
    | copy e k => simp [Event.recovers] at hr

theorem not_established (h : Stuck pr) (events : List Event) (hev : ∀ ev ∈ events, ev.recovers = true) (j : Slot)
    (hj : ((pr.run c events).host .listener).tcp.pcbs j = true) :
    (((pr.run c events).host .listener).tcp.storage j).state ≠ .established := by
  intro hs
  rcases (h.run events hev).caught .listener j hj with h' | h' | h' <;> simp [hs] at h'

end Stuck

theorem Pair.AckLost.stuck {c : Setup} {pr : Pair} {i j : Slot} (h : pr.AckLost i j) (hJ : Joined c pr) :
    Stuck pr := by
  refine ⟨hJ.inv,fun e k hk => ?_,fun e pkt hpkt => by simp [h.inbox] at hpkt⟩
  cases e with
  | opener =>
    rw [(hJ.only k hk).1,← (hJ.only i h.opener.1).1]
    exact .inl h.opener.2
  | listener =>
    by_cases hs : ((pr.host .listener).tcp.storage k).state.silent
    · exact .inr hs
    · have hj : ((pr.host .listener).tcp.storage j).Talking := by
        simp [Pcb.Talking,TcpState.silent,h.child.2]
      obtain rfl := hJ.unique .listener k j hk hs h.child.1 hj
      exact .inl h.child.2

/-- Once the last ACK of the handshake is lost, sends, retransmissions and deliveries never
complete it: the opener drops a repeated SYN-ACK without an ACK, and the child takes only
a bare ACK. -/
theorem handshake_not_recovered (c : Setup) (hc : c.connect.2 = .ok) (events : List Event) (i j : Slot)
    (h : (c.start.run c events).AckLost i j) : ¬∃ more : List Event, (∀ ev ∈ more, ev.recovers = true) ∧
      (((c.start.run c events).run c more).host .listener).tcp.pcbs j = true ∧
      ((((c.start.run c events).run c more).host .listener).tcp.storage j).state = .established := by
  rintro ⟨more,hev,hj,hs⟩
  exact (h.stuck ((Joined.start hc).run events)).not_established more hev j hj hs

/-- The ACK of the opener is lost. -/
def ackLost : List Event := [.deliver .listener [] 0,.deliver .opener [] 0,.lose .listener 0]

theorem ackLost_run : (lan.start.run lan ackLost).AckLost 0 1 where
  opener := by decide +kernel
  child := by decide +kernel
  outstanding := by decide +kernel
  inbox e := by cases e <;> decide +kernel

theorem handshake_not_recovered_lan : (lan.start.run lan ackLost).AckLost 0 1 ∧
    ¬∃ more : List Event, (∀ ev ∈ more, ev.recovers = true) ∧
      (((lan.start.run lan ackLost).run lan more).host .listener).tcp.pcbs 1 = true ∧
      ((((lan.start.run lan ackLost).run lan more).host .listener).tcp.storage 1).state = .established :=
  ⟨ackLost_run,handshake_not_recovered lan (by decide +kernel) ackLost 0 1 ackLost_run⟩

/-- A run from which the handshake cannot be completed. -/
theorem handshake_unrecoverable : (lan.start.run lan ackLost).AckLost 0 1 ∧
    ∀ more : List Event, (∀ ev ∈ more, ev.recovers = true) →
      (((lan.start.run lan ackLost).run lan more).host .listener).tcp.pcbs 1 = true →
      ((((lan.start.run lan ackLost).run lan more).host .listener).tcp.storage 1).state ≠ .established := by
  refine ⟨ackLost_run,fun more hev hj => ?_⟩
  have hJ : Joined lan (lan.start.run lan ackLost) := (Joined.start (by decide +kernel)).run ackLost
  exact (ackLost_run.stuck hJ).not_established more hev 1 hj

end Recovery

section Window

/-- The expirations of the timers, and deliveries. -/
def Event.expires : Event → Bool
  | .call _ _ (.tcpRetransmitDue _) | .call _ _ (.tcpTimeWaitProc _) | .call _ _ (.tcpReleaseProc _) => true
  | .deliver .. => true
  | _ => false

/-- The end of the connection in slot `i` is ESTABLISHED with nothing to wait for. -/
def Host.Idle (h : Host) (i : Slot) : Prop :=
  h.tcp.pcbs i = true ∧ (h.tcp.storage i).state = .established ∧ (h.tcp.storage i).closeRequested = false ∧
    (h.tcp.storage i).outstanding = none

/-- Both ends are idle, nothing is on its way and the ring of the peer of `e` is empty. -/
structure Pair.Drained (pr : Pair) (e : Party) (a b : Slot) : Prop where
  sender : (pr.host e).Idle a
  receiver : (pr.host e.peer).Idle b
  ring : ((pr.host e.peer).tcp.storage b).recv.count = 0
  inbox : ∀ e, pr.inbox e = []

/-- No host has anything to retransmit, and the end in slot `a` of `e` has the window `w`. -/
structure Resting (e : Party) (a : Slot) (w : BitVec 16) (pr : Pair) : Prop where
  inv : ∀ e, Inv (pr.host e).tcp
  idle : ∀ e j, (pr.host e).tcp.pcbs j = true → ((pr.host e).tcp.storage j).outstanding = none
  inbox : ∀ e, pr.inbox e = []
  window : (pr.host e).tcp.pcbs a = true → ((pr.host e).tcp.storage a).state = .established →
    ((pr.host e).tcp.storage a).window = w

namespace Resting

variable {c : Setup} {pr : Pair} {e : Party} {a : Slot} {w : BitVec 16}

/-- A step of `e'` in which nothing is sent. -/
theorem fade (h : Resting e a w pr) (e' : Party) (fates : List NetErr) {h' : Host} (hinv : Inv h'.tcp)
    (hf : Fades ((pr.host e').tcp.ready fates) h'.tcp) : Resting e a w (pr.sent e' h') := by
  refine ⟨fun f => ?_,fun f => ?_,fun f => ?_,?_⟩
  · by_cases hfe : f = e'
    · subst hfe
      simpa [Pair.sent] using hinv
    · simpa [Pair.sent,hfe] using h.inv f
  · by_cases hfe : f = e'
    · subst hfe
      simp only [Pair.sent,Function.update_self]
      intro j hj
      obtain ⟨hj₀,hs | hs⟩ := hf.pcbs j hj
      · exact hs.2.1.trans (h.idle f j hj₀)
      · exact hs.2
    · simpa [Pair.sent,hfe] using h.idle f
  · by_cases hfe : f = e'.peer
    · subst hfe
      simp [Pair.sent,h.inbox,hf.wire]
    · simpa [Pair.sent,hfe] using h.inbox f
  · by_cases hfe : e = e'
    · subst hfe
      simp only [Pair.sent,Function.update_self]
      intro ha hest
      obtain ⟨ha₀,hs | hs⟩ := hf.pcbs a ha
      · exact hs.2.2.trans (h.window ha₀ (hs.1.symm.trans hest))
      · simp [hs.1] at hest
    · simpa [Pair.sent,hfe] using h.window

theorem retransmit_fades (h : Resting e a w pr) (e' : Party) (fates : List NetErr) (i : Slot) :
    Fades ((pr.host e').tcp.ready fates) (((pr.host e').tcp.ready fates).tcpRetransmitDue i).1 := by
  obtain ⟨l',hf,hw | ⟨seg,hi,ho,-⟩⟩ := Fades.retransmitDue ((pr.host e').tcp.ready fates) i
  · exact ⟨hf.wire.trans hw,hf.pcbs⟩
  · have hidle : (((pr.host e').tcp.ready fates).storage i).outstanding = none := h.idle e' i hi
    simp [hidle] at ho

theorem run (h : Resting e a w pr) (events : List Event) (hev : ∀ ev ∈ events, ev.expires = true) :
    Resting e a w (pr.run c events) := by
  induction events generalizing pr with
  | nil => exact h
  | cons ev events ih =>
    refine ih ?_ fun ev' h' => hev ev' (List.mem_cons_of_mem _ h')
    have hr := hev ev List.mem_cons_self
    cases ev with
    | call e' fates a' =>
      have hinv : Inv ((pr.host e').tcp.ready fates) := (h.inv e').congr rfl rfl rfl
      cases a' with
      | tcpRetransmitDue i => exact h.fade e' fates (hinv.act (.tcpRetransmitDue i)) (h.retransmit_fades e' fates i)
      | tcpTimeWaitProc i => exact h.fade e' fates (hinv.act (.tcpTimeWaitProc i)) (.timeWaitProc hinv i)
      | tcpReleaseProc i => exact h.fade e' fates (hinv.act (.tcpReleaseProc i)) (.releaseProc _ i)
      | _ => simp [Event.expires] at hr
    | deliver e' fates k => simpa [Pair.step,Pair.deliver,h.inbox] using h
    | lose e' k => simp [Event.expires] at hr
    | copy e' k => simp [Event.expires] at hr

theorem send_le (h : Resting e a w pr) {data : List Byte} {fates : List NetErr}
    (hok : (((pr.host e).tcp.ready fates).tcpSendStart a data).2 = .ok) : data.length ≤ w.toNat := by
  have hinv : Inv ((pr.host e).tcp.ready fates) := (h.inv e).congr rfl rfl rfl
  rcases tcpSendStart_cases none hinv a data with ⟨t',e',he,hne,-⟩ | ⟨k,-,hi,hs,-⟩
  · exact absurd (by simpa [he] using hok) hne
  · rw [← h.window hi hs.1]
    exact hs.2.2

end Resting

theorem Pair.Drained.resting {c : Setup} {pr : Pair} {e : Party} {a b : Slot} (h : pr.Drained e a b)
    (hJ : Joined c pr) : Resting e a ((pr.host e).tcp.storage a).window pr := by
  refine ⟨hJ.inv,fun f j hj => ?_,h.inbox,fun _ _ => rfl⟩
  by_cases hs : ((pr.host f).tcp.storage j).state.silent
  · exact silent_outstanding ((hJ.inv f).sound j hj) hs
  · have hidle : ∃ k, (pr.host f).Idle k := by
      rcases Party.eq_or_peer e f with rfl | rfl
      · exact ⟨a,h.sender⟩
      · exact ⟨b,h.receiver⟩
    obtain ⟨k,hk,hest,-,ho⟩ := hidle
    have hk' : ((pr.host f).tcp.storage k).Talking := by simp [Pcb.Talking,TcpState.silent,hest]
    rw [hJ.unique f j k hj hs hk hk']
    exact ho

/-- With buffers and transmissions available an idle block sends what fits the window. -/
theorem tcpSendStart_ok (h : Inv t) (hi : t.pcbs i = true) (hs : (t.storage i).state = .established)
    (ho : (t.storage i).outstanding = none) (hn : (t.storage i).netif ≠ none) {data : List Byte}
    (h1 : 1 ≤ data.length) (h2 : data.length ≤ mss) (hw : data.length ≤ (t.storage i).window.toNat) :
    ((t.ready []).tcpSendStart i data).2 = .ok := by
  obtain ⟨n,hn'⟩ := Option.ne_none_iff_exists'.1 hn
  have hm : mss = 512 := rfl
  have hopen : (t.storage i).opened = true := by rw [h.links.opened,hi]
  have hw' : ¬((t.storage i).window = 0 ∨ (t.storage i).window.toNat < data.length % 65536) := by
    rintro (h0 | h0)
    · rw [h0] at hw
      simp at hw
      simp [hw] at h1
    · omega
  have hr := ((h.sound i hi).idle ho).1
  rw [Table.tcpSendStart,if_neg (by omega),if_neg (by simp [Table.ready,hi])]
  simp only [Table.onConn,Table.conn,Table.ready,Conn.tcpSendData,hopen,hs,ho,hw']
  simp [Conn.tcpSendOwned,Conn.tcpMakeSegment,Link.fate,Link.spend,Conn.tcpStartOutstanding,Pcb.setOutstanding,
    Conn.tcpOutputOwned,Conn.ipv4Out,Link.ipv4Out,hn',onOk,onErr,Pcb.tcpArmTimer,netTimerAdd,hr]

/-- After both ends came to rest and the receiver emptied its ring, the sizes that the
sender can start, after any expirations and deliveries, are those that fit the window it
last saw: the receiver never announces that its ring was emptied. -/
theorem send_start_iff_window (c : Setup) (hc : c.connect.2 = .ok) (events : List Event) (e : Party) (a b : Slot)
    (h : (c.start.run c events).Drained e a b) (data : List Byte) (h1 : 1 ≤ data.length)
    (h2 : data.length ≤ mss) : (∃ more : List Event, (∀ ev ∈ more, ev.expires = true) ∧
      (((((c.start.run c events).run c more).host e).tcp.ready []).tcpSendStart a data).2 = .ok) ↔
      data.length ≤ (((c.start.run c events).host e).tcp.storage a).window.toNat := by
  have hJ := (Joined.start hc).run events
  constructor
  · rintro ⟨more,hev,hok⟩
    exact ((h.resting hJ).run more hev).send_le hok
  · intro hw
    obtain ⟨ha,hest,-,ho⟩ := h.sender
    refine ⟨[],by simp,tcpSendStart_ok (hJ.inv e) ha hest ho ?_ h1 h2 hw⟩
    have hadd := hJ.address e a ha (by simp [Pcb.Talking,TcpState.silent,hest])
    have hn : (((c.start.run c events).host e).tcp.storage a).netif = (c.address e).netif :=
      congrArg Address.netif hadd
    rw [hn]
    cases e <;> simp [Setup.address]

/-- The opener sends `n` bytes, which are acknowledged. -/
def transfer (n : ℕ) : List Event :=
  [.call .opener [] (.tcpSendStart 0 (List.replicate n 0)),.deliver .listener [] 0,.deliver .opener [] 0]

/-- The ring is filled until 511 bytes are free, and then emptied by one read. -/
def emptied : List Event :=
  handshake++transfer 512++transfer 512++transfer 512++transfer 1++[.call .listener [] (.tcpRecvTake 1 2048)]

theorem emptied_state : ((lan.start.run lan emptied).host .opener).Idle 0 ∧
    ((lan.start.run lan emptied).host .listener).Idle 1 ∧
    (((lan.start.run lan emptied).host .listener).tcp.storage 1).recv.count = 0 ∧
    (lan.start.run lan emptied).inbox .opener = [] ∧ (lan.start.run lan emptied).inbox .listener = [] ∧
    (((lan.start.run lan emptied).host .opener).tcp.storage 0).window = 511 := by
  unfold Host.Idle
  decide +kernel

theorem emptied_run : (lan.start.run lan emptied).Drained .opener 0 1 := by
  have h := emptied_state
  generalize lan.start.run lan emptied = pr at h ⊢
  obtain ⟨hA,hB,hr,hi,hi',-⟩ := h
  exact ⟨hA,hB,hr,fun e => by cases e; exacts [hi,hi']⟩

theorem emptied_window : (((lan.start.run lan emptied).host .opener).tcp.storage 0).window = 511 :=
  emptied_state.2.2.2.2.2

theorem send_start_iff_window_emptied : ∃ more : List Event, (∀ ev ∈ more, ev.expires = true) ∧
    (((((lan.start.run lan emptied).run lan more).host .opener).tcp.ready []).tcpSendStart 0
      (List.replicate 511 0)).2 = .ok := by
  refine (send_start_iff_window lan (by decide +kernel) emptied .opener 0 1 emptied_run (List.replicate 511 0)
    (by rw [List.length_replicate]; decide) (by rw [List.length_replicate]; decide)).2 ?_
  rw [List.length_replicate,emptied_window]
  decide

/-- The ring is empty, but a segment of 512 bytes can never be sent. -/
theorem send_stalls : (lan.start.run lan emptied).Drained .opener 0 1 ∧
    ∀ more : List Event, (∀ ev ∈ more, ev.expires = true) →
      (((((lan.start.run lan emptied).run lan more).host .opener).tcp.ready []).tcpSendStart 0
        (List.replicate 512 0)).2 ≠ .ok := by
  refine ⟨emptied_run,fun more hev hok => ?_⟩
  have hR := emptied_run.resting ((Joined.start (by decide +kernel)).run emptied)
  have hle := (hR.run more hev).send_le hok
  rw [List.length_replicate,emptied_window] at hle
  exact absurd hle (by decide)

end Window
end Tcp
end QuardStarNet
