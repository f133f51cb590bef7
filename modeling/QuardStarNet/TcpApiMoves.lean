import QuardStarNet.TcpEvents

/-! Timers, release and closing as moves, and the arrival of a segment as a whole. -/
namespace QuardStarNet
namespace Tcp

variable {rx : Option Segment} {t t' : Table} {i j l : Slot} {s : Segment}

section Release

/-- A listener keeps listening until it is released. -/
theorem Move.listening (hm : Move rx t t') (h : Inv t) (hl : t.Listening l ∨ t.pcbs l = false) :
    t'.Listening l ∨ t'.pcbs l = false := by
  rcases hl with hl | hl
  swap
  · -- no move allocates
    cases hm with
    | @release i hi hr =>
      right
      simp only [Table.tcpReleaseNow,hi,hr,not_true,if_false]
      by_cases hli : l = i
      · simp [hli]
      · simpa [hli] using hl
    | conn | aux | dead | pend | detach => exact .inr hl
  cases hm with
  | @conn i c' hi hc =>
    refine .inl ⟨hl.1,?_⟩
    by_cases hli : l = i
    · subst i
      have := (Pcb.Tied.connMove hc).keeps.listen_iff.2 hl.2
      simpa [Table.setConn] using this
    · simpa [Table.setConn,hli] using hl.2
  | aux => exact .inl hl
  | @dead i p hi hp =>
    have hli : l ≠ i := fun he => by simp [← he,hl.1] at hi
    exact .inl ⟨hl.1,by simpa [Table.modify,hli] using hl.2⟩
  | @pend i hi hn hs =>
    refine .inl ⟨hl.1,?_⟩
    by_cases hli : l = i
    · subst i
      simpa [Table.modify] using hl.2
    · simpa [Table.modify,hli] using hl.2
  | @release i hi hr =>
    simp only [Table.tcpReleaseNow,hi,hr,not_true,if_false]
    by_cases hli : l = i
    · exact .inr (by simp [hli])
    · refine .inl ⟨by simpa [hli] using hl.1,?_⟩
      simpa [Table.modify,hli] using hl.2
  | @detach i k p' hc ht =>
    have hli : l ≠ i := by
      rintro rfl
      have hf := (h.links.child hc).2.1
      simp [hl.2] at hf
    obtain rfl := h.links.unique hl (h.links.child hc).1
    exact .inl ⟨hl.1,by simpa [hli,Table.dropChild] using hl.2⟩

theorem Moves.listening (hm : Moves rx t t') (h : Inv t) (hl : t.Listening l) :
    t'.Listening l ∨ t'.pcbs l = false := by
  have : Inv t' ∧ (t'.Listening l ∨ t'.pcbs l = false) := by
    induction hm with
    | refl => exact ⟨h,.inl hl⟩
    | tail _ hm ih => exact ⟨.move hm ih.1,hm.listening ih.1 ih.2⟩
  exact this.2

theorem releaseNow_moves (rx : Option Segment) (t : Table) (i : Slot) : Moves rx t (t.tcpReleaseNow i).1 := by
  by_cases hi : t.pcbs i = true
  swap
  · rw [Table.tcpReleaseNow,if_pos hi]
    exact .refl
  by_cases hr : t.tcpReleasable i = true
  · exact .single (.release hi hr)
  · rw [Table.tcpReleaseNow,if_neg (by simp [hi]),if_pos hr]
    exact .refl

theorem requestRelease_moves (rx : Option Segment) (hl : (t.storage i).listener = none)
    (hs : (t.storage i).state = .closed ∨ (t.storage i).state = .listen) :
    Moves rx t (t.tcpRequestRelease i).1 := by
  by_cases hi : t.pcbs i = true
  · simp only [Table.tcpRequestRelease,hi,not_true,if_false]
    exact .tail (.single (.pend hi hl hs)) (.aux _ _ _ rfl)
  · rw [Table.tcpRequestRelease,if_pos hi]
    exact .refl

theorem requestRelease_moves_listening (rx : Option Segment) (h : Inv t)
    (hl : t.Listening i ∨ t.pcbs i = false) : Moves rx t (t.tcpRequestRelease i).1 := by
  rcases hl with hl | hl
  · exact requestRelease_moves rx (h.links.listener_none hl) (.inr hl.2)
  · simp only [Table.tcpRequestRelease,hl]
    exact .refl

theorem foldl_moves (rx : Option Segment) {f : Table → Slot → Table} (hf : ∀ t j, Inv t → Moves rx t (f t j)) (js : List Slot)
    (h : Inv t) : Moves rx t (js.foldl f t) := by
  induction js generalizing t with
  | nil => exact .refl
  | cons j js ih => exact (hf t j h).trans (ih (h.moves (hf t j h)))

theorem cleanup_moves (rx : Option Segment) (h : Inv t) (i : Slot) : Moves rx t (t.tcpListenerCleanup i) := by
  unfold Table.tcpListenerCleanup Table.tcpListenerReleaseDetached
  have hm := foldl_moves rx (f := fun t j =>
    if t.pcbs j ∧ j ≠ i ∧ (t.storage j).listener = some i then t.tcpListenerDetachChild j .state else t)
    (fun t j h => ?_) slots h
  · refine hm.trans (foldl_moves rx (fun t j _ => ?_) slots (h.moves hm))
    split
    next => exact releaseNow_moves rx t j
    next => exact .refl
  · split
    next hc => exact detachChild_moves h ⟨hc.1,hc.2.2⟩ _
    next => exact .refl

theorem releaseProc_moves (rx : Option Segment) (h : Inv t) (i : Slot) : Moves rx t (t.tcpReleaseProc i) := by
  have hrel : ∀ t : Table, Moves rx t
      (Table.tcpReleaseNow { t with releaseTimers := Function.update t.releaseTimers i false } i).1 :=
    fun t => .head (.aux _ _ _ rfl) (releaseNow_moves rx _ i)
  unfold Table.tcpReleaseProc
  split
  next => exact .single (.aux _ _ _ rfl)
  next =>
    simp only
    cases hclean : decide ((t.storage i).opened ∧ (t.storage i).releasePending ∧
        (t.storage i).state = .listen ∧ (t.storage i).acceptWaiters = 0) with
    | true =>
      simp only [if_true]
      split
      next => exact (cleanup_moves rx h i).trans (hrel _)
      next => exact cleanup_moves rx h i
    | false =>
      simp only [Bool.false_eq_true,if_false]
      split
      next => exact hrel t
      next => exact .refl

theorem timeWaitProc_moves (rx : Option Segment) (h : Inv t) (i : Slot) : Moves rx t (t.tcpTimeWaitProc i) := by
  unfold Table.tcpTimeWaitProc
  simp only
  split
  next hc =>
    have hi : t.pcbs i = true := (h.links.opened i).symm.trans hc.1
    have hl := h.links.listener_of_state hi (by simp [hc.2.1]) (by simp [hc.2.1])
    refine Moves.trans (.pcb hi (.expire _ hc.2.1 hl)) (requestRelease_moves rx ?_ ?_)
    · simpa [Table.modify] using hl
    · simp [Table.modify]
  next hc =>
    by_cases hi : t.pcbs i = true
    · -- the timer of a live block runs only in TIME_WAIT
      have hS := h.sound i hi
      have ht : (t.storage i).timeWaitTimer = false := by
        by_contra ht
        have hs := hS.timer.1 (by simpa using ht)
        refine hc ⟨(h.links.opened i).trans hi,hs,fun hr => ?_⟩
        simpa [hs] using hS.pending hr
      have hsame : (t.modify i fun p => { p with timeWaitTimer := false }) = t := by
        simp only [Table.modify]
        rw [← ht,Function.update_eq_self]
      rw [hsame]
      exact .refl
    · have hi' : t.pcbs i = false := by simpa using hi
      exact .single (.dead hi' (by simp [h.links.opened,hi']))

end Release

section Retransmit

theorem retransmitDue_moves (rx : Option Segment) (h : Inv t) (i : Slot) :
    Moves rx t (t.tcpRetransmitDue i).1 := by
  unfold Table.tcpRetransmitDue
  split
  next => exact .refl
  next hi =>
  split
  next => exact .refl
  next ho =>
    rw [not_not] at hi ho
    have hS := h.sound i hi
    obtain ⟨seg,hseg⟩ := Option.ne_none_iff_exists'.1 ho.2
    obtain ⟨hown,-,-,-,-,ht⟩ := hS.owned seg hseg
    have hs : (t.storage i).state ≠ .listen := fun hs => by simp [hs,Owns] at hown
    obtain ⟨l',e,he,hat⟩ := outputOwned_eq (t := t.modify i fun p => { p with retransTimer := false })
      (i := i) seg (by simpa [Table.modify] using hseg)
    have hat' : Attempt (t.storage i) seg t.link l' e := by
      simpa [Attempt,Emitted,Table.modify] using hat
    simp only [he]
    have hset : ∀ p, ({ t.modify i (fun _ => p) with link := l' } : Table) = t.setConn i ⟨p,l'⟩ := by
      intro p
      simp [Table.modify,Table.setConn]
    by_cases hok : e = .ok
    swap
    · have hfail : Yields rx t ((t.setConn i ⟨{ t.storage i with retransTimer := false },l'⟩).tcpFail i e)
          fun _ => True :=
        fail_yields h hi hs ⟨_,_,_,_,_,_,_,_,_,_,_,rfl,.inl ⟨rfl,rfl⟩⟩
          (hat'.resolve_left fun h => hok h.1).2 hok
      rw [onErr_err hok,onOk_err (by simpa [Table.tcpFail] using hok)]
      exact hfail.1
    rw [onErr_ok hok,onOk_ok hok]
    -- the clone went out; the retry is counted or was the last
    have hm : Moves rx t { t with link := l' } := hat'.clone_moves hi hseg
    have hI := h.moves hm
    have hretry : ({ t.modify i (fun p => { p with retransTimer := false }) with link := l' } : Table).modify i
        (fun p => { p with retryCount := p.retryCount+1 }) =
        ({ t with link := l' } : Table).setConn i ⟨{ t.storage i with
          retransTimer := false, retryCount := (t.storage i).retryCount+1 },l'⟩ := by
      simp [Table.modify,Table.setConn]
    simp only [hretry]
    have hcount : ((({ t with link := l' } : Table).setConn i ⟨{ t.storage i with
        retransTimer := false, retryCount := (t.storage i).retryCount+1 },l'⟩).storage i).retryCount =
        (t.storage i).retryCount+1 := by
      simp [Table.setConn]
    rw [hcount]
    split
    next =>
      exact hm.trans (fail_yields (P := fun _ => True) (e := .tmo) hI hi hs
        ⟨_,_,_,_,_,_,_,_,_,_,_,rfl,.inl ⟨rfl,rfl⟩⟩ rfl (by simp)).1
    next hlt =>
      have harm : (({ t with link := l' } : Table).setConn i ⟨{ t.storage i with
          retransTimer := false, retryCount := (t.storage i).retryCount+1 },l'⟩).onPcb i Pcb.tcpArmTimer =
          (({ t with link := l' } : Table).setConn i ⟨{ t.storage i with
            retryCount := (t.storage i).retryCount+1 },l'⟩,.ok) := by
        simp [Table.onPcb,Table.onConn,Table.conn,Table.setConn,Pcb.tcpArmTimer,netTimerAdd,← ht]
      rw [harm,onErr_ok rfl]
      refine hm.trans (.conn hi (.pcb (.retry _ ?_ (by omega)) rfl))
      simp [Table.conn,hseg]

end Retransmit

section Close

theorem bind_moves (rx : Option Segment) (t : Table) (i : Slot) (netif : Netif) (ip : IpAddr) (port : Port) :
    Moves rx t (t.tcpBind i netif ip port).1 := by
  unfold Table.tcpBind
  split
  next => exact .refl
  next =>
  split
  next => exact .refl
  next hi =>
  split
  next => exact .refl
  next =>
  simp only
  split
  next => exact .refl
  next hs =>
  split
  next => exact .refl
  next =>
    rw [not_or,not_not] at hi
    rw [not_not] at hs
    exact (Yields.pcb (P := fun _ => True) hi.1 (.bind _ _ _ hs.2.2.1) trivial).1

theorem closeListener_moves (rx : Option Segment) (h : Inv t) (hl : t.Listening i) :
    Moves rx t (t.closeListener i).1 := by
  have hn := h.links.listener_none hl
  unfold Table.closeListener
  simp only
  have hm : Moves rx t (t.modify i fun p => { p with
      closeRequested := true
      releasePending := true
      acceptDone := sysSemNotifyTimes p.acceptDone p.acceptWaiters.toNat
      closeDone := sysSemNotifyTimes p.closeDone p.closeWaiters.toNat }) := by
    have h₁ : Moves rx t (t.modify i fun p => { p with closeRequested := true }) :=
      .pcb hl.1 (.closeListen hl.2 hn)
    have h₂ := h₁.trans (.pcb (t := t.modify i fun p => { p with closeRequested := true })
      (f := fun p => { p with
        acceptDone := sysSemNotifyTimes p.acceptDone p.acceptWaiters.toNat
        closeDone := sysSemNotifyTimes p.closeDone p.closeWaiters.toNat }) hl.1 (.sems _ _ _ _))
    have h₃ : Moves rx t _ := h₂.tail (.pend (i := i) hl.1 (by simpa [Table.modify] using hn)
      (.inr (by simpa [Table.modify] using hl.2)))
    convert h₃ using 1
    simp [Table.modify]
  have hl' := hm.listening h hl
  split
  next =>
    have hI := h.moves hm
    have hm' := cleanup_moves rx hI i
    refine hm.trans (hm'.trans (requestRelease_moves_listening rx (hI.moves hm') ?_))
    rcases hl' with hl' | hl'
    · exact hm'.listening hI hl'
    · exact absurd hl' (by simp [Table.modify,hl.1])
  next => exact hm.trans (requestRelease_moves_listening rx (h.moves hm) hl')

theorem closePending_moves (rx : Option Segment) (h : Inv t) (i : Slot) :
    Moves rx t (t.closePending i).1 := by
  unfold Table.closePending
  simp only
  have hm : Moves rx t (if (t.storage i).state = .listen ∧ (t.storage i).acceptWaiters = 0
      then t.tcpListenerCleanup i else t) := by
    split
    next => exact cleanup_moves rx h i
    next => exact .refl
  split
  next => exact hm.trans (releaseNow_moves rx _ i)
  next => exact hm

theorem abortAndRelease_moves (rx : Option Segment) (h : Inv t) (hi : t.pcbs i = true)
    (hl : (t.storage i).listener = none) (hs : (t.storage i).state ≠ .listen) :
    Moves rx t (t.tcpAbortAndRelease i).1 := by
  have hn : (t.storage i).state ≠ .synReceived := fun hs => h.links.orphan i hi hs hl
  have ht := (Pcb.Doomed.refl (t.storage i)).terminated .state
  refine Moves.trans (.pcb hi (.terminate hl hs hn ht)) (requestRelease_moves rx ?_ ?_)
  · simpa [Table.modify] using (Terminated.fields ht).2.1.trans hl
  · simpa [Table.modify] using Or.inl (Terminated.fields ht).2.2

theorem close_moves (rx : Option Segment) (h : Inv t) (i : Slot) : Moves rx t (t.tcpClose i).1 := by
  unfold Table.tcpClose
  split
  next => exact .refl
  next hi =>
  rw [not_not] at hi
  simp only
  split
  next => exact .refl
  next =>
  split
  next hl =>
    obtain ⟨l,hl⟩ := Option.ne_none_iff_exists'.1 hl
    exact detachChild_moves h ⟨hi,hl⟩ _
  next hl =>
  rw [not_not] at hl
  split
  next => exact closePending_moves rx h i
  next =>
  split
  next => exact .refl
  next hs => exact closeListener_moves rx h ⟨hi,hs⟩
  next hs => exact abortAndRelease_moves rx h hi hl (by simp [hs])
  next hs => exact abortAndRelease_moves rx h hi hl (by simp [hs])
  next hs => exact abortAndRelease_moves rx h hi hl (by simp [hs])
  next hs => exact abortAndRelease_moves rx h hi hl (by simp [hs])
  next hs => exact abortAndRelease_moves rx h hi hl (by simp [hs])
  next hs =>
    split
    next ho => exact (Yields.pcb (P := fun _ => True) hi (.askClose ho hs hl) trivial).1
    next ho =>
      rw [not_not] at ho
      obtain ⟨c,e,he,hm,-,-⟩ := sendFin_eq rx h hi hs hl ho
      rw [he]
      exact .conn hi hm

end Close

section Input

/-- The final ACK of a handshake, as `tcp_in` recognises it. -/
def Segment.Completes (s : Segment) (p : Pcb) : Prop :=
  s.total = s.headerSize ∧ s.flags = flagAck ∧ s.seq = p.rcvNxt ∧ s.ack = p.iss+1

theorem inSynReceived_cases (h : Inv t) (hi : t.pcbs i = true) (hs : (t.storage i).state = .synReceived) :
    Moves (some s) t (t.tcpInSynReceived i s).1 ∨
    ∃ l, t.IsChild l i ∧ (t.storage l).releasePending = false ∧ s.Completes (t.storage i) ∧
      t.tcpInSynReceived i s = (t.completed l i s,.ok) := by
  simp only [Table.tcpInSynReceived]
  split
  next => exact .inl .refl
  next htot =>
  split
  next => exact .inl (inSynReceived_resend h hi hs)
  next =>
  split
  next => exact .inl .refl
  next hc =>
    have hack : s.flags = flagAck ∧ s.seq = (t.storage i).rcvNxt ∧ s.ack = (t.storage i).iss+1 := by
      simpa using hc
    rcases inEstablish_cases h hi hs hack.2.2 with hm | ⟨l,hl,hr,he⟩
    · exact .inl hm.1
    · exact .inr ⟨l,hl,hr,⟨not_not.1 htot,hack⟩,he⟩

theorem inPcb_cases (h : Inv t) (hi : t.pcbs i = true) (s : Segment) :
    Moves (some s) t (t.tcpInPcb i s).1 ∨
    ∃ l, t.IsChild l i ∧ (t.storage i).state = .synReceived ∧ (t.storage l).releasePending = false ∧
      s.Completes (t.storage i) ∧ t.tcpInPcb i s = (t.completed l i s,.ok) := by
  simp only [Table.tcpInPcb]
  cases hs : (t.storage i).state with
  | timeWait => exact .inl (inTimeWait_moves h hi hs)
  | synSent => exact .inl (inSynSent_moves h hi hs)
  | synReceived =>
    rcases inSynReceived_cases (s := s) h hi hs with hm | ⟨l,hl,hr,hc,he⟩
    · exact .inl hm
    · exact .inr ⟨l,hl,rfl,hr,hc,he⟩
  | established | finWait1 | finWait2 =>
    exact .inl (inStream_moves h ⟨hi,by simp [hs,TcpState.streaming]⟩)
  | closed | listen => exact .inl .refl

theorem findPcb_live {netif : NetifId} {src dest : IpAddr} {srcPort destPort : Port}
    (h : t.tcpFindPcb netif src dest srcPort destPort = some i) :
    t.pcbs i = true ∧ (t.storage i).netif = some netif ∧ (t.storage i).localPort = destPort ∧
      (t.storage i).remotePort = srcPort ∧ (t.storage i).localIp = dest ∧ (t.storage i).remoteIp = src := by
  have := List.find?_some h
  simp only [Bool.and_eq_true,beq_iff_eq] at this
  obtain ⟨⟨⟨⟨⟨⟨h1,-⟩,h2⟩,h3⟩,h4⟩,h5⟩,h6⟩ := this
  exact ⟨h1,h2,h3,h4,h5,h6⟩

theorem findListener_listening {netif : NetifId} {dest : IpAddr} {destPort : Port}
    (h : t.tcpFindListener netif dest destPort = some l) :
    t.Listening l ∧ (t.storage l).releasePending = false ∧ (t.storage l).localPort = destPort ∧
      (t.storage l).localIp = dest := by
  have := List.find?_some h
  simp only [Bool.and_eq_true,beq_iff_eq,Bool.not_eq_true'] at this
  obtain ⟨⟨⟨⟨⟨⟨h1,-⟩,h2⟩,h3⟩,-⟩,h4⟩,h5⟩ := this
  exact ⟨⟨h1,h3⟩,h2,h4,h5⟩

/-- What the segment `s` from `src` to `dest` can do to the table. -/
inductive Arrival (t : Table) (s : Segment) (netif : NetifId) (src dest : IpAddr) : Table → Prop
  | moves {t' : Table} : Moves (some s) t t' → Arrival t s netif src dest t'
  | completed {l i : Slot} : t.IsChild l i → (t.storage i).state = .synReceived →
      (t.storage l).releasePending = false → s.Completes (t.storage i) →
      Arrival t s netif src dest (t.completed l i s)
  | spawned {l j : Slot} {x y z : Sem} {k : Link} {p : Pcb} : t.Listening l →
      (t.storage l).releasePending = false → t.pcbs j = false →
      (t.storage l).pendingCount < (t.storage l).backlog → s.flags = flagSyn →
      p = t.passiveChild l netif src s.srcPort s.seq s.window (.allocated false x y z) →
      Emitted p (synAckSegment p) t.link k →
      t.tcpFindPcb netif src dest s.srcPort s.destPort = none → (t.storage l).localPort = s.destPort →
      (t.storage l).localIp = dest →
      Arrival t s netif src dest (t.spawned l j (p.started (synAckSegment p) p.sndNxt) k)
  | spawnFailed {l j : Slot} {x y z : Sem} {k : Link} {p : Pcb} (n : ℕ) (u : BitVec 32) (e : NetErr) :
      t.Listening l → t.pcbs j = false → (t.storage l).pendingCount < (t.storage l).backlog →
      p = t.passiveChild l netif src s.srcPort s.seq s.window (.allocated false x y z) →
      k.wire = t.link.wire →
      Arrival t s netif src dest
        ((t.spawned l j { p with retryCount := n, outstandingEnd := u } k).tcpListenerDetachChild j e)

theorem inSegment_arrival (h : Inv t) (s : Segment) (netif : NetifId) (src dest : IpAddr) :
    Arrival t s netif src dest (t.tcpInSegment s netif src dest).1 := by
  unfold Table.tcpInSegment
  split
  next i hf =>
    rcases inPcb_cases h (findPcb_live hf).1 s with hm | ⟨l,hl,hs,hr,hc,he⟩
    · exact .moves hm
    · rw [he]
      exact .completed hl hs hr hc
  next hmiss =>
  split
  next => exact .moves .refl
  next l hf =>
  split
  next => exact .moves .refl
  next hflags =>
    obtain ⟨hl,hr,hport,hip⟩ := findListener_listening hf
    rw [not_or,not_not,not_not] at hflags
    rcases tcpPassiveSyn_cases (some s) hl.1 netif src s.srcPort s.seq s.window with
      ⟨t',e,he,-,hm⟩ | ⟨j,x,y,z,k,e,n,u,he,hj,hb,hat⟩
    · rw [he]
      exact .moves hm
    · rw [he]
      by_cases hok : e = .ok
      · rw [if_pos hok]
        obtain ⟨-,hem⟩ := hat.resolve_right fun h => h.1 hok
        exact .spawned hl hr hj hb hflags.2 rfl hem hmiss hport hip
      · rw [if_neg hok]
        exact .spawnFailed n u e hl hj hb rfl (hat.resolve_left fun h => hok h.1).2

theorem Inv.arrival {netif : NetifId} {src dest : IpAddr} (ha : Arrival t s netif src dest t') (h : Inv t) :
    Inv t' := by
  cases ha with
  | moves hm => exact h.moves hm
  | completed hc hs hr hcomp => exact h.completed hc hs hcomp.2.2.2
  | spawned hl hr hj hb hf hp hem =>
    subst hp
    exact h.spawned hl hj hb _ _ _ _ _ _ _ _ _
  | spawnFailed n u e hl hj hb hp hw =>
    subst hp
    exact h.spawn_failed hl hj hb ⟨rfl,rfl,rfl,.inl rfl,rfl,rfl,rfl⟩ e

end Input
end Tcp
end QuardStarNet
