import QuardStarNet.TcpRun

/-! The operations on the table that send nothing and give no block a new name. They keep what
`tcp_in` finds a block by, and an outstanding segment is kept or dropped. -/
namespace QuardStarNet
namespace Tcp

/-- What `tcp_in` finds a block by. -/
structure Tuple where
  netif : Option NetifId
  localIp : IpAddr
  localPort : Port
  remoteIp : IpAddr
  remotePort : Port
  deriving DecidableEq

def Pcb.tuple (p : Pcb) : Tuple := ⟨p.netif,p.localIp,p.localPort,p.remoteIp,p.remotePort⟩

/-- A block before and after an operation that keeps its name and sends nothing for it. -/
structure Pcb.Mild (p p' : Pcb) : Prop where
  tuple : p'.tuple = p.tuple
  bound : p'.bound = p.bound
  outstanding : p'.outstanding = none ∨ p'.outstanding = p.outstanding

/-- A table before and after such operations; a block may also be released. -/
structure Silent (t t' : Table) : Prop where
  live : ∀ j, t'.pcbs j = true → t.pcbs j = true ∧ (t.storage j).Mild (t'.storage j)
  dead : ∀ j, t'.pcbs j = false → (t'.storage j).outstanding = none ∨
    t.pcbs j = false ∧ (t'.storage j).outstanding = (t.storage j).outstanding
  port : t'.nextEphemeral = t.nextEphemeral

theorem Pcb.Mild.refl (p : Pcb) : p.Mild p := ⟨rfl,rfl,.inr rfl⟩

theorem Pcb.Mild.trans {p p' p'' : Pcb} (h : p.Mild p') (h' : p'.Mild p'') : p.Mild p'' := by
  refine ⟨h'.tuple.trans h.tuple,h'.bound.trans h.bound,?_⟩
  rcases h'.outstanding with ho | ho
  · exact .inl ho
  · rw [ho]
    exact h.outstanding

theorem Pcb.Mild.terminate (p : Pcb) (e : NetErr) : p.Mild (p.tcpTerminate e) := by
  obtain ⟨a,b,c,he⟩ := p.tcpTerminate_eq e
  rw [he]
  exact ⟨rfl,rfl,.inl rfl⟩

variable {t t' t'' : Table} {i : Slot}

theorem requestRelease_eq (hi : t.pcbs i = true) : t.tcpRequestRelease i =
    ({ t.modify i fun p => { p with releasePending := true } with
      releaseTimers := Function.update t.releaseTimers i true },.ok) := by
  cases hr : t.releaseTimers i <;> simp [Table.tcpRequestRelease,hi,netTimerAdd,hr]

namespace Silent

theorem of_eq (hs : t'.storage = t.storage) (hp : t'.pcbs = t.pcbs)
    (hn : t'.nextEphemeral = t.nextEphemeral) : Silent t t' := by
  refine ⟨fun j hj => ?_,fun j hj => ?_,hn⟩
  · rw [hs,← hp]
    exact ⟨hj,.refl _⟩
  · rw [hs,← hp]
    exact .inr ⟨hj,rfl⟩

theorem refl (t : Table) : Silent t t := of_eq rfl rfl rfl

theorem trans (h : Silent t t') (h' : Silent t' t'') : Silent t t'' := by
  refine ⟨fun j hj => ?_,fun j hj => ?_,h'.port.trans h.port⟩
  · obtain ⟨hj',hm'⟩ := h'.live j hj
    obtain ⟨hj,hm⟩ := h.live j hj'
    exact ⟨hj,hm.trans hm'⟩
  · rcases h'.dead j hj with ho | ⟨hj',ho⟩
    · exact .inl ho
    · rw [ho]
      exact h.dead j hj'

/-- Before the operation, fields other than the blocks changed. -/
theorem after (h : Silent t' t'') (hs : t'.storage = t.storage) (hp : t'.pcbs = t.pcbs)
    (hn : t'.nextEphemeral = t.nextEphemeral) : Silent t t'' := (of_eq hs hp hn).trans h

theorem modify {f : Pcb → Pcb} (hf : (t.storage i).Mild (f (t.storage i))) :
    Silent t (t.modify i f) := by
  refine ⟨fun j hj => ⟨hj,?_⟩,fun j hj => ?_,rfl⟩
  · by_cases hji : j = i
    · subst j
      simpa [Table.modify] using hf
    · simpa [Table.modify,hji] using Pcb.Mild.refl (t.storage j)
  · by_cases hji : j = i
    · subst j
      simpa [Table.modify] using hf.outstanding.imp_right fun ho => ⟨hj,ho⟩
    · exact .inr ⟨hj,by simp [Table.modify,hji]⟩

/-- The step of a loop that may skip a slot. -/
theorem ite {c : Prop} [Decidable c] {r : Table} (h : c → Silent t r) : Silent t (if c then r else t) := by
  split
  next hc => exact h hc
  next => exact refl t

theorem foldl {f : Table → Slot → Table} (hf : ∀ t j, Silent t (f t j)) (js : List Slot) (t : Table) :
    Silent t (js.foldl f t) := by
  induction js generalizing t with
  | nil => exact refl t
  | cons j js ih => exact (hf t j).trans (ih (f t j))

theorem releaseNow (t : Table) (i : Slot) : Silent t (t.tcpReleaseNow i).1 := by
  unfold Table.tcpReleaseNow
  split
  next => exact refl t
  next =>
  split
  next => exact refl t
  next =>
    refine ⟨fun j hj => ?_,fun j hj => ?_,rfl⟩
    · have hji : j ≠ i := fun he => by simp [he] at hj
      simp only [Table.modify,Function.update_of_ne hji] at hj ⊢
      exact ⟨hj,.refl _⟩
    · by_cases hji : j = i
      · subst j
        exact .inl (by simp [Table.modify,Table.released,Pcb.tcpResetConnection,
          Pcb.tcpClearOutstanding])
      · exact .inr ⟨by simpa [hji] using hj,by simp [Table.modify,hji]⟩

theorem requestRelease (t : Table) (i : Slot) : Silent t (t.tcpRequestRelease i).1 := by
  unfold Table.tcpRequestRelease
  split
  next => exact refl t
  next =>
    exact (modify (i := i) (f := fun p => { p with releasePending := true })
      ⟨rfl,rfl,.inr rfl⟩).trans (of_eq rfl rfl rfl)

theorem detachChild (t : Table) (i : Slot) (e : NetErr) : Silent t (t.tcpListenerDetachChild i e) := by
  unfold Table.tcpListenerDetachChild
  split
  next => exact refl t
  next l _ =>
  split
  next => exact refl t
  next =>
    have hdrop : Silent t (t.modify l (Table.dropChild i)) := modify ⟨rfl,rfl,.inr rfl⟩
    have hterm : ∀ t : Table, Silent t (t.modify i fun p =>
        { p with listener := none, releasePending := true }.tcpTerminate e) := fun t =>
      have hoff : (t.storage i).Mild { t.storage i with listener := none, releasePending := true } :=
        ⟨rfl,rfl,.inr rfl⟩
      modify (hoff.trans (.terminate _ e))
    have hlast : ∀ t : Table, Silent t (if (t.tcpRequestRelease i).2 = .ok then
        (t.tcpRequestRelease i).1 else ((t.tcpRequestRelease i).1.tcpReleaseNow i).1) := fun t => by
      split
      next => exact requestRelease t i
      next => exact (requestRelease t i).trans (releaseNow _ i)
    exact (hdrop.trans (hterm _)).trans ((hlast _).after rfl rfl rfl)

theorem releaseDetached (t : Table) (i : Slot) : Silent t (t.tcpListenerReleaseDetached i) :=
  foldl (fun t j => ite fun _ => releaseNow t j) slots t

theorem cleanup (t : Table) (i : Slot) : Silent t (t.tcpListenerCleanup i) :=
  (foldl (fun t j => ite fun _ => detachChild t j .state) slots t).trans (releaseDetached _ i)

theorem iteCleanup (c : Prop) [Decidable c] (t : Table) (i : Slot) :
    Silent t (if c then t.tcpListenerCleanup i else t) := ite fun _ => cleanup t i

theorem fail (t : Table) (i : Slot) (e : NetErr) : Silent t (t.tcpFail i e).1 := by
  have hterm : Silent t (t.modify i fun p => p.tcpTerminate e) := modify (.terminate _ e)
  exact hterm.trans (ite fun _ => detachChild _ i e)

theorem timeWaitProc (t : Table) (i : Slot) : Silent t (t.tcpTimeWaitProc i) := by
  unfold Table.tcpTimeWaitProc
  dsimp only
  split
  next =>
    refine trans (modify ?_) (requestRelease _ i)
    exact ⟨rfl,rfl,.inr rfl⟩
  next => exact modify ⟨rfl,rfl,.inr rfl⟩

theorem releaseProc (t : Table) (i : Slot) : Silent t (t.tcpReleaseProc i) := by
  have hrel : ∀ t : Table, Silent t
      (Table.tcpReleaseNow { t with releaseTimers := Function.update t.releaseTimers i false } i).1 :=
    fun t => (releaseNow _ i).after rfl rfl rfl
  unfold Table.tcpReleaseProc
  split
  next => exact of_eq rfl rfl rfl
  next =>
    dsimp only
    exact (iteCleanup _ t i).trans (ite fun _ => hrel _)

theorem socketDetach (t : Table) (i : Slot) : Silent t (t.tcpSocketDetach i).1 := by
  rcases tcpSocketDetach_cases t i with ⟨e,-,he⟩ | ⟨-,he,-⟩
  · rw [he]
    exact refl t
  · rw [he]
    exact (modify ⟨rfl,rfl,.inr rfl⟩).trans (releaseNow _ i)

theorem abortAndRelease (t : Table) (i : Slot) : Silent t (t.tcpAbortAndRelease i).1 :=
  (modify (.terminate _ _)).trans (requestRelease _ i)

theorem closeListener (t : Table) (i : Slot) : Silent t (t.closeListener i).1 := by
  have hmark : Silent t (t.modify i fun p => { p with
      closeRequested := true
      releasePending := true
      acceptDone := sysSemNotifyTimes p.acceptDone p.acceptWaiters.toNat
      closeDone := sysSemNotifyTimes p.closeDone p.closeWaiters.toNat }) :=
    modify ⟨rfl,rfl,.inr rfl⟩
  exact (hmark.trans (iteCleanup _ _ i)).trans (requestRelease _ i)

theorem closePending (t : Table) (i : Slot) : Silent t (t.closePending i).1 := by
  unfold Table.closePending
  dsimp only
  split
  next => exact (iteCleanup _ t i).trans (releaseNow _ i)
  next => exact iteCleanup _ t i

/-- `tcp_close` sends only for an established block with nothing outstanding. -/
theorem close (t : Table) (i : Slot)
    (h : t.pcbs i = true → (t.storage i).opened = true → (t.storage i).listener = none →
      ¬(t.storage i).releasePending = true → (t.storage i).state = .established →
      (t.storage i).outstanding ≠ none) :
    Silent t (t.tcpClose i).1 := by
  unfold Table.tcpClose
  dsimp only
  split
  next => exact refl t
  next hi =>
  split
  next => exact refl t
  next ho =>
  split
  next => exact detachChild t i .state
  next hl =>
  split
  next => exact closePending t i
  next hr =>
    split
    next => exact refl t
    next => exact closeListener t i
    next => exact abortAndRelease t i
    next => exact abortAndRelease t i
    next => exact abortAndRelease t i
    next => exact abortAndRelease t i
    next => exact abortAndRelease t i
    next hs =>
      rw [if_pos (h (not_not.1 hi) (not_not.1 ho) (not_not.1 hl) hr hs)]
      dsimp only
      exact modify ⟨rfl,rfl,.inr rfl⟩

theorem inEstablish (t : Table) (i : Slot) (s : Segment) : Silent t (t.tcpInEstablish i s).1 := by
  have hshake : Silent t (t.modify i fun p => p.handshaken s) := modify ⟨rfl,rfl,.inl rfl⟩
  unfold Table.tcpInEstablish
  dsimp only
  split
  next => exact hshake.trans (fail _ i .state)
  next l _ =>
    split
    next =>
      have henq : ∀ t : Table, Silent t (t.modify l fun q => q.enqueue i) := fun t =>
        modify ⟨rfl,rfl,.inr rfl⟩
      exact hshake.trans (henq _)
    next => exact hshake.trans (fail _ i .state)

theorem acceptLeave (t : Table) (i : Slot) : Silent t (t.acceptLeave i) := modify ⟨rfl,rfl,.inr rfl⟩

theorem acceptAcquire (t : Table) (i : Slot) : Silent t (t.tcpAcceptAcquire i).1 := by
  rcases acceptAcquire_cases t i with ⟨e,-,he⟩ | ⟨-,-,he⟩
  · rw [he]
    exact refl t
  · rw [he]
    dsimp only
    exact modify ⟨rfl,rfl,.inr rfl⟩

theorem acceptPeek (t : Table) (i : Slot) : Silent t (t.tcpAcceptPeek i).1 := by
  unfold Table.tcpAcceptPeek
  dsimp only
  split
  next => exact refl t
  next =>
  split
  next => exact refl t
  next =>
  split
  next => exact refl t
  next =>
  split
  next => exact refl t
  next =>
  split
  next => exact refl t
  next =>
    dsimp only
    exact modify ⟨rfl,rfl,.inr rfl⟩

theorem acceptCommit (t : Table) (i child : Slot) : Silent t (t.tcpAcceptCommitAcquired i child).1 := by
  have hchild : Silent t (t.modify child Pcb.committed) := modify ⟨rfl,rfl,.inr rfl⟩
  have hleave : ∀ t : Table, Silent t (t.modify i Pcb.dequeue) := fun t =>
    modify ⟨rfl,rfl,.inr rfl⟩
  unfold Table.tcpAcceptCommitAcquired
  dsimp only
  split
  next => exact refl t
  next =>
  split
  next => exact hchild.trans ((hleave _).after rfl rfl rfl)
  next => exact refl t

theorem acceptRelease (t : Table) (i : Slot) : Silent t (t.tcpAcceptReleaseAcquired i).1 := by
  rcases acceptRelease_cases t i with ⟨e,-,he⟩ | ⟨-,-,he⟩
  · rw [he]
    exact refl t
  · rw [he]
    exact acceptLeave t i

theorem acceptReleaseChild (t : Table) (i child : Slot) :
    Silent t (t.tcpAcceptReleaseChildAcquired i child).1 := by
  rcases acceptReleaseChild_cases t i child with ⟨e,-,he⟩ | ⟨-,-,-,-,-,he⟩
  · rw [he]
    exact refl t
  · have hpin : Silent t (t.modify child fun p => { p with acceptPins := p.acceptPins-1 }) :=
      modify ⟨rfl,rfl,.inr rfl⟩
    rw [he]
    exact hpin.trans ((acceptLeave _ i).after rfl rfl rfl)

theorem addWaiters (t : Table) (i : Slot) (w : Pcb.Wait) (n : ℤ) :
    Silent t (t.modify i fun p => p.addWaiters w n) := by
  cases w
  · exact modify ⟨rfl,rfl,.inr rfl⟩
  · exact modify ⟨rfl,rfl,.inr rfl⟩

theorem setDone (t : Table) (i : Slot) (w : Pcb.Wait) (sem : Pcb → Sem) :
    Silent t (t.modify i fun p => p.setDone w (sem p)) := by
  cases w
  · exact modify ⟨rfl,rfl,.inr rfl⟩
  · exact modify ⟨rfl,rfl,.inr rfl⟩

theorem waitAcquire (t : Table) (i : Slot) (w : Pcb.Wait) : Silent t (t.tcpWaitAcquire i w).1 := by
  rcases tcpWaitAcquire_cases t i w with ⟨e,-,he⟩ | ⟨-,he⟩
  · rw [he]
    exact refl t
  · rw [he]
    exact addWaiters t i w 1

theorem recvAcquire (t : Table) (i : Slot) : Silent t (t.tcpRecvAcquire i).1 := by
  rcases tcpRecvAcquire_cases t i with ⟨e,-,he⟩ | ⟨-,he⟩
  · rw [he]
    exact refl t
  · rw [he]
    dsimp only
    exact modify ⟨rfl,rfl,.inr rfl⟩

theorem recvTake (t : Table) (i : Slot) (size : ℕ) : Silent t (t.recvTake i size).1 := by
  unfold Table.recvTake Pcb.tcpRecvTake
  by_cases hc : (t.storage i).recv.count = 0
  · simpa [hc] using refl t
  · simp only [hc,if_false]
    exact modify ⟨rfl,rfl,.inr rfl⟩

end Silent

end Tcp
end QuardStarNet
