import Mathlib.Algebra.BigOperators.Group.Finset.Piecewise
import Mathlib.Algebra.Order.BigOperators.Group.Finset

/-! Sums of a weight over finitely many threads, and how they change when one thread moves. -/
namespace QuardStarNet

variable {α : Type} {n : ℕ}

/-- The sum of a weight over the threads. -/
def tally (f : α → ℕ) (pc : Fin n → α) : ℕ := ∑ r, f (pc r)

/-- One thread moves. -/
theorem tally_update (f : α → ℕ) (pc : Fin n → α) (r : Fin n) (c : α) :
    tally f (Function.update pc r c)+f (pc r) = tally f pc+f c := by
  have hupd : ∀ q, f (Function.update pc r c q) = Function.update (fun q => f (pc q)) r (f c) q := by
    intro q
    by_cases hq : q = r
    · simp [hq]
    · simp [hq]
  unfold tally
  rw [Finset.sum_congr rfl fun q _ => hupd q,Finset.sum_update_of_mem (Finset.mem_univ r)]
  have hsum := Finset.sum_sdiff (f := fun q => f (pc q)) (Finset.subset_univ {r})
  rw [Finset.sum_singleton] at hsum
  omega

theorem le_tally (f : α → ℕ) (pc : Fin n → α) (r : Fin n) : f (pc r) ≤ tally f pc :=
  Finset.single_le_sum (f := fun q => f (pc q)) (fun _ _ => Nat.zero_le _) (Finset.mem_univ r)

theorem tally_pos {f : α → ℕ} {pc : Fin n → α} : 0 < tally f pc ↔ ∃ r, 0 < f (pc r) := by
  constructor
  · intro h
    by_contra hn
    push Not at hn
    have hz : tally f pc = 0 := Finset.sum_eq_zero fun r _ => Nat.le_zero.1 (hn r)
    omega
  · rintro ⟨r,hr⟩
    exact hr.trans_le (le_tally f pc r)

theorem tally_le {f : α → ℕ} {m : ℕ} (h : ∀ c, f c ≤ m) (pc : Fin n → α) : tally f pc ≤ n*m := by
  have := Finset.sum_le_card_nsmul Finset.univ (fun r => f (pc r)) m fun r _ => h (pc r)
  simpa [tally] using this

/-- The sum of a weight that is 0 or 1 counts threads. -/
theorem tally_eq_card {f : α → ℕ} {p : α → Prop} [DecidablePred p]
    (h : ∀ c, f c = if p c then 1 else 0) (pc : Fin n → α) :
    tally f pc = (Finset.univ.filter fun r => p (pc r)).card := by
  rw [Finset.card_filter]
  exact Finset.sum_congr rfl fun r _ => h (pc r)

end QuardStarNet
