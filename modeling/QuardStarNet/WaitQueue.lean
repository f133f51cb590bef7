import QuardStarNet.Tally

/-! A counting semaphore whose waiters sleep. A waiter that finds no token counts itself in
with the lock held, releases the lock and goes to sleep in a section that wakeups cannot
enter; a post adds a token and wakes one sleeper before it releases the lock; sleepers may
also time out. -/
namespace QuardStarNet
namespace WaitQueue

/-- Where a thread is: not waiting, with the lock held and about to sleep, on its way to
sleep without the lock, asleep, or up again after a wakeup or a timeout. -/
inductive Place
  | away | entering | switching | asleep | woken | timedOut
  deriving DecidableEq

/-- The semaphore with its threads. `posting` are the posts between adding their token and
the end of their wakeup; `acquired` and `posted` count what has been taken and added. -/
structure Queue (k : ℕ) (I : Type) where
  place : Fin k → Place
  lock : Option (Fin k ⊕ I)
  count : ℕ
  waiters : ℕ
  acquired : ℕ
  posted : ℕ
  posting : I → Prop

namespace Place

/-- The thread has counted itself in. -/
def present : Place → ℕ
  | .away => 0
  | _ => 1

/-- The thread has been woken and has not looked at the count again. -/
def wakened : Place → ℕ
  | .woken => 1
  | _ => 0

/-- The thread sleeps or is about to. -/
def down : Place → Bool
  | .entering | .switching | .asleep => true
  | _ => false

end Place

variable {k : ℕ} {I : Type}

namespace Queue

/-- A post holds the lock. -/
def posters (q : Queue k I) : ℕ :=
  match q.lock with
  | some (.inr _) => 1
  | _ => 0

inductive Move (q : Queue k I) : Queue k I → Prop
  | take (hf : q.lock = none) (hn : 0 < q.count) :
      Move q { q with count := q.count-1, acquired := q.acquired+1 }
  | wait (t : Fin k) (hf : q.lock = none) (ht : q.place t = .away) (hn : q.count = 0) :
      Move q { q with place := Function.update q.place t .entering, lock := some (.inl t),
                      waiters := q.waiters+1 }
  | takeWoken (t : Fin k) (hf : q.lock = none) (ht : q.place t = .woken) (hn : 0 < q.count) :
      Move q { q with place := Function.update q.place t .away, count := q.count-1,
                      waiters := q.waiters-1, acquired := q.acquired+1 }
  | waitAgain (t : Fin k) (hf : q.lock = none) (ht : q.place t = .woken) (hn : q.count = 0) :
      Move q { q with place := Function.update q.place t .entering, lock := some (.inl t),
                      waiters := q.waiters-1+1 }
  | timeout (t : Fin k) (hf : q.lock = none) (ht : q.place t = .timedOut) :
      Move q { q with place := Function.update q.place t .away, waiters := q.waiters-1 }
  | unlock (t : Fin k) (ht : q.place t = .entering) :
      Move q { q with place := Function.update q.place t .switching, lock := none }
  | sleep (t : Fin k) (ht : q.place t = .switching) :
      Move q { q with place := Function.update q.place t .asleep }
  | expire (place : Fin k → Place)
      (hp : ∀ t, place t = q.place t ∨ q.place t = .asleep ∧ place t = .timedOut) :
      Move q { q with place := place }
  | post (hf : q.lock = none) (hw : q.waiters = 0) :
      Move q { q with count := q.count+1, posted := q.posted+1 }
  | postLock (i : I) (posting : I → Prop) (hf : q.lock = none)
      (hp : ∀ j, posting j ↔ j = i ∨ q.posting j) :
      Move q { q with lock := some (.inr i), count := q.count+1, posted := q.posted+1,
                      posting := posting }
  | postNone (i : I) (posting : I → Prop) (hi : q.posting i)
      (hp : ∀ j, posting j ↔ j ≠ i ∧ q.posting j)
      (hn : ∀ t, q.place t ≠ .asleep ∧ q.place t ≠ .switching) :
      Move q { q with lock := none, posting := posting }
  | postWake (i : I) (posting : I → Prop) (t : Fin k) (hi : q.posting i)
      (hp : ∀ j, posting j ↔ j ≠ i ∧ q.posting j) (ht : q.place t = .asleep) :
      Move q { q with place := Function.update q.place t .woken, lock := none,
                      posting := posting }

/-- Tokens are conserved, the waiters are counted, the lock has one owner, and as long as a
thread is down every token has a wakeup on its way to a thread that will look for it. -/
structure Inv (start : ℕ) (q : Queue k I) : Prop where
  tokens : q.acquired+q.count = start+q.posted
  waiters : q.waiters = tally Place.present q.place
  entering : ∀ t, q.place t = .entering ↔ q.lock = some (.inl t)
  posting : ∀ i, q.posting i ↔ q.lock = some (.inr i)
  covered : (∃ t, (q.place t).down = true) → q.count ≤ tally Place.wakened q.place+q.posters

namespace Inv

variable {q : Queue k I} {start : ℕ}

/-- A thread that leaves a place at which it is not down was not what kept others covered. -/
theorem down_of_update {t : Fin k} {p : Place} (hp : p.down = false)
    (h : ∃ u, (Function.update q.place t p u).down = true) : ∃ u, (q.place u).down = true := by
  obtain ⟨u,hu⟩ := h
  by_cases he : u = t
  · simp [he,hp] at hu
  · exact ⟨u,by simpa [he] using hu⟩

theorem not_entering (h : q.Inv start) (hf : q.lock = none) (t : Fin k) :
    q.place t ≠ .entering := by
  rw [Ne,h.entering,hf]
  simp

/-- Only the thread that moves enters or leaves the place with the lock. -/
theorem entering_update {t : Fin k} {p : Place} (h : q.Inv start) (hf : q.lock = none)
    (u : Fin k) : Function.update q.place t p u = .entering ↔ u = t ∧ p = .entering := by
  by_cases he : u = t
  · simp [he]
  · simpa [he] using h.not_entering hf u

theorem move {q' : Queue k I} (h : q.Inv start) (hm : q.Move q') : q'.Inv start := by
  cases hm with
  | take hf hn =>
    refine ⟨by simp only; have := h.tokens; omega,h.waiters,h.entering,h.posting,fun hd => ?_⟩
    have := h.covered hd
    simp only [posters] at this ⊢
    omega
  | wait t hf ht hn =>
    have hp := tally_update Place.present q.place t .entering
    have hw := h.waiters
    simp only [ht,Place.present] at hp
    refine ⟨h.tokens,by simp only; omega,fun u => ?_,fun i => ?_,fun _ => by simp [hn]⟩
    · rw [h.entering_update hf]
      simp [eq_comm]
    · simp [h.posting,hf]
  | takeWoken t hf ht hn =>
    have hp := tally_update Place.present q.place t .away
    have hk := tally_update Place.wakened q.place t .away
    have hw := h.waiters
    have htok := h.tokens
    simp only [ht,Place.present,Place.wakened] at hp hk
    refine ⟨by simp only; omega,by simp only; omega,fun u => ?_,h.posting,fun hd => ?_⟩
    · rw [h.entering_update hf]
      simp [hf]
    · have := h.covered (down_of_update rfl hd)
      simp only [posters,hf] at this ⊢
      omega
  | waitAgain t hf ht hn =>
    have hp := tally_update Place.present q.place t .entering
    have hw := h.waiters
    simp only [ht,Place.present] at hp
    have hpos := le_tally Place.present q.place t
    simp only [ht,Place.present] at hpos
    refine ⟨h.tokens,by simp only; omega,fun u => ?_,fun i => ?_,fun _ => by simp [hn]⟩
    · rw [h.entering_update hf]
      simp [eq_comm]
    · simp [h.posting,hf]
  | timeout t hf ht =>
    have hp := tally_update Place.present q.place t .away
    have hk := tally_update Place.wakened q.place t .away
    have hw := h.waiters
    simp only [ht,Place.present,Place.wakened] at hp hk
    refine ⟨h.tokens,by simp only; omega,fun u => ?_,h.posting,fun hd => ?_⟩
    · rw [h.entering_update hf]
      simp [hf]
    · have := h.covered (down_of_update rfl hd)
      simp only [posters,hf] at this ⊢
      omega
  | unlock t ht =>
    have hp := tally_update Place.present q.place t .switching
    have hk := tally_update Place.wakened q.place t .switching
    have hw := h.waiters
    have hl := (h.entering t).1 ht
    simp only [ht,Place.present,Place.wakened] at hp hk
    refine ⟨h.tokens,by simp only; omega,fun u => ?_,fun i => by simp [h.posting,hl],fun _ => ?_⟩
    · by_cases he : u = t
      · simp [he]
      · simp [he,h.entering,hl,Ne.symm he]
    · have := h.covered ⟨t,by rw [ht]; rfl⟩
      simp only [posters,hl] at this ⊢
      omega
  | sleep t ht =>
    have hp := tally_update Place.present q.place t .asleep
    have hk := tally_update Place.wakened q.place t .asleep
    have hw := h.waiters
    simp only [ht,Place.present,Place.wakened] at hp hk
    refine ⟨h.tokens,by simp only; omega,fun u => ?_,h.posting,fun _ => ?_⟩
    · rw [← h.entering]
      by_cases he : u = t
      · simp [he,ht]
      · simp [he]
    · have := h.covered ⟨t,by rw [ht]; rfl⟩
      simp only [posters] at this ⊢
      omega
  | expire place hp =>
    have hpres : tally Place.present place = tally Place.present q.place :=
      Finset.sum_congr rfl fun t _ => by rcases hp t with he | ⟨ha,he⟩ <;> simp [*,Place.present]
    have hwake : tally Place.wakened place = tally Place.wakened q.place :=
      Finset.sum_congr rfl fun t _ => by rcases hp t with he | ⟨ha,he⟩ <;> simp [*,Place.wakened]
    refine ⟨h.tokens,hpres ▸ h.waiters,fun t => ?_,h.posting,fun ⟨t,ht⟩ => ?_⟩
    · rw [← h.entering]
      rcases hp t with he | ⟨ha,he⟩ <;> simp [*]
    · rw [hwake]
      refine h.covered ⟨t,?_⟩
      rcases hp t with he | ⟨ha,he⟩
      · rwa [← he]
      · simp only [he] at ht
        cases ht
  | post hf hw =>
    refine ⟨by simp only; have := h.tokens; omega,h.waiters,h.entering,h.posting,fun ⟨t,ht⟩ => ?_⟩
    have hpos := le_tally Place.present q.place t
    rw [← h.waiters,hw] at hpos
    cases hpl : q.place t <;> simp_all [Place.down,Place.present]
  | postLock i posting hf hp =>
    refine ⟨by simp only; have := h.tokens; omega,h.waiters,fun t => ?_,fun j => ?_,fun hd => ?_⟩
    · simp [h.entering,hf]
    · simp [hp,h.posting,hf,eq_comm]
    · have := h.covered hd
      simp only [posters,hf] at this ⊢
      omega
  | postNone i posting hi hp hn =>
    have hl := (h.posting i).1 hi
    refine ⟨h.tokens,h.waiters,fun t => ?_,fun j => ?_,fun ⟨t,ht⟩ => ?_⟩
    · simp [h.entering,hl]
    · simp [hp,h.posting,hl,eq_comm]
    · have hne : q.place t ≠ .entering := by simp [h.entering,hl]
      have := hn t
      cases hpl : q.place t <;> simp_all [Place.down]
  | postWake i posting t hi hp ht =>
    have hl := (h.posting i).1 hi
    have hpr := tally_update Place.present q.place t .woken
    have hk := tally_update Place.wakened q.place t .woken
    have hw := h.waiters
    simp only [ht,Place.present,Place.wakened] at hpr hk
    refine ⟨h.tokens,by simp only; omega,fun u => ?_,fun j => ?_,fun _ => ?_⟩
    · by_cases he : u = t
      · simp [he]
      · simp [he,h.entering,hl]
    · simp [hp,h.posting,hl,eq_comm]
    · have := h.covered ⟨t,by rw [ht]; rfl⟩
      simp only [posters,hl] at this ⊢
      omega

end Inv
end Queue
end WaitQueue
end QuardStarNet
