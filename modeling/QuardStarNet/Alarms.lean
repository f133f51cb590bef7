import Mathlib.Data.List.Basic
import Mathlib.Logic.Function.Basic
import Mathlib.Data.Nat.Basic

/-! Alarms with absolute deadlines: time does not pass over a deadline, and an alarm rings
at the very time for which it was set. -/
namespace QuardStarNet

/-- The time, the deadlines of the alarms that are set, and the alarms that have rung with
the time at which they did. -/
structure Alarms (T : Type) where
  now : ℕ
  due : T → Option ℕ
  rung : List (T × ℕ)

namespace Alarms

variable {T : Type}

/-- The alarms have rung one after the other, and none is overdue. -/
structure Ordered (a : Alarms T) : Prop where
  sorted : (a.rung.map Prod.snd).Pairwise (· ≤ ·)
  past : ∀ c ∈ a.rung, c.2 ≤ a.now
  ahead : ∀ t d, a.due t = some d → a.now ≤ d

variable [DecidableEq T]

inductive Move (a : Alarms T) : Alarms T → Prop
  | pass (v : ℕ) (hv : a.now ≤ v) (hd : ∀ t d, a.due t = some d → v ≤ d) :
      Move a { a with now := v }
  | set (t : T) (d : ℕ) (ht : a.due t = none) (hd : a.now < d) :
      Move a { a with due := Function.update a.due t (some d) }
  | cancel (t : T) : Move a { a with due := Function.update a.due t none }
  | ring (t : T) (ht : a.due t = some a.now) :
      Move a { a with due := Function.update a.due t none, rung := a.rung++[(t,a.now)] }

theorem Move.ordered {a b : Alarms T} (hm : Move a b) (h : a.Ordered) : b.Ordered := by
  cases hm with
  | pass v hv hd => exact ⟨h.sorted,fun c hc => Nat.le_trans (h.past c hc) hv,hd⟩
  | set t d ht hd =>
    refine ⟨h.sorted,h.past,fun u e he => ?_⟩
    by_cases hu : u = t
    · simp only [hu,Function.update_self,Option.some.injEq] at he
      exact he ▸ Nat.le_of_lt hd
    · exact h.ahead u e (by simpa [hu] using he)
  | cancel t =>
    refine ⟨h.sorted,h.past,fun u e he => ?_⟩
    by_cases hu : u = t
    · simp [hu] at he
    · exact h.ahead u e (by simpa [hu] using he)
  | ring t ht =>
    refine ⟨?_,?_,fun u e he => ?_⟩
    · simp only [List.map_append,List.pairwise_append]
      refine ⟨h.sorted,by simp,fun x hx y hy => ?_⟩
      obtain ⟨c,hc,rfl⟩ := List.mem_map.1 hx
      simp only [List.map_cons,List.map_nil,List.mem_singleton] at hy
      exact hy ▸ h.past c hc
    · intro c hc
      rcases List.mem_append.1 hc with hc | hc
      · exact h.past c hc
      · simp only [List.mem_singleton] at hc
        simp [hc]
    · by_cases hu : u = t
      · simp [hu] at he
      · exact h.ahead u e (by simpa [hu] using he)

end Alarms
end QuardStarNet
