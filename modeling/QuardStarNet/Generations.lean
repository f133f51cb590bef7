import Mathlib.Algebra.Ring.Int.Defs
import Mathlib.Algebra.Ring.Nat
import Mathlib.Data.Fintype.Basic
import Mathlib.Logic.Function.Basic

/-! Tables whose cells are reused under names made of an index and a generation. A cell
gets a new generation when it is released, and is retired with the last one. -/
namespace QuardStarNet
namespace Generations

structure Cell where
  generation : ℕ
  used : Bool
  retired : Bool

/-- A released cell; `last` is the largest generation. -/
def Cell.release (last : ℕ) (x : Cell) : Cell where
  generation := if x.generation = last then x.generation else x.generation+1
  used := false
  retired := if x.generation = last then true else x.retired

inductive Event (ι : Type)
  | idle | take (i : ι) | free (i : ι)
  deriving DecidableEq

variable {ι : Type} {last : ℕ} {x y z : ι → Cell} {e : Event ι} {es : List (Event ι)} {i : ι} {g : ℕ}

/-- The name of index `i` and generation `g` stands for the cell that is in use. -/
def Resolves (x : ι → Cell) (i : ι) (g : ℕ) : Prop := (x i).used = true ∧ (x i).generation = g

/-- The name can never stand for a cell again. -/
def Spent (x : ι → Cell) (i : ι) (g : ℕ) : Prop :=
  g < (x i).generation ∨ (x i).generation = g ∧ (x i).used = false ∧ (x i).retired = true

/-- The name has been given out. -/
def Known (x : ι → Cell) (i : ι) (g : ℕ) : Prop := Resolves x i g ∨ Spent x i g

theorem Spent.not_resolves (h : Spent x i g) : ¬Resolves x i g := by
  rintro ⟨hu,hg⟩
  rcases h with h | ⟨-,h,-⟩
  · omega
  · simp [hu] at h

/-- The name under which a free cell would be taken is new. -/
theorem not_known_of_free (hu : (x i).used = false) (hr : (x i).retired = false) :
    ¬Known x i (x i).generation := by
  rintro (⟨h,-⟩ | h | ⟨-,-,h⟩)
  · simp [hu] at h
  · omega
  · simp [hr] at h

variable [DecidableEq ι]

inductive Step (last : ℕ) (x : ι → Cell) : Event ι → (ι → Cell) → Prop
  | idle : Step last x .idle x
  | take (i : ι) : (x i).used = false → (x i).retired = false →
      Step last x (.take i) (Function.update x i { x i with used := true })
  | free (i : ι) : (x i).used = true → Step last x (.free i) (Function.update x i ((x i).release last))

/-- Steps one after another. -/
inductive Run (last : ℕ) : (ι → Cell) → List (Event ι) → (ι → Cell) → Prop
  | nil (x : ι → Cell) : Run last x [] x
  | cons {x y z : ι → Cell} {e : Event ι} {es : List (Event ι)} :
      Step last x e y → Run last y es z → Run last x (e::es) z

namespace Step

theorem spent (h : Step last x e y) (hs : Spent x i g) : Spent y i g := by
  cases h with
  | idle => exact hs
  | take j hu hr =>
    by_cases hij : i = j
    · subst hij
      rcases hs with hs | ⟨-,-,hs⟩
      · exact .inl (by simpa using hs)
      · simp [hr] at hs
    · simpa [Spent,hij] using hs
  | free j hu =>
    by_cases hij : i = j
    · subst hij
      rcases hs with hs | ⟨-,hs,-⟩
      · refine .inl ?_
        simp only [Function.update_self,Cell.release]
        split <;> omega
      · simp [hu] at hs
    · simpa [Spent,hij] using hs

theorem resolves (h : Step last x e y) (hx : Resolves x i g) (he : e ≠ .free i) : Resolves y i g := by
  cases h with
  | idle => exact hx
  | take j hu hr =>
    by_cases hij : i = j
    · subst hij
      simp [hx.1] at hu
    · simpa [Resolves,hij] using hx
  | free j hu =>
    have hij : i ≠ j := fun hij => he (hij ▸ rfl)
    simpa [Resolves,hij] using hx

theorem freed (h : Step last x (.free i) y) (hx : Resolves x i g) : Spent y i g := by
  cases h with
  | free _ hu =>
    obtain ⟨-,rfl⟩ := hx
    by_cases hl : (x i).generation = last
    · exact .inr (by simp [Cell.release,hl])
    · exact .inl (by simp [Cell.release,hl])

theorem taken (h : Step last x (.take i) y) :
    (x i).used = false ∧ ¬Known x i (x i).generation ∧ Resolves y i (x i).generation := by
  cases h with
  | take _ hu hr => exact ⟨hu,not_known_of_free hu hr,by simp [Resolves]⟩

theorem known (h : Step last x e y) (hx : Known x i g) : Known y i g := by
  rcases hx with hx | hx
  · by_cases he : e = .free i
    · subst he
      exact .inr (h.freed hx)
    · exact .inl (h.resolves hx he)
  · exact .inr (h.spent hx)

/-- Generations stay between the first and the last one. -/
theorem bounds (h : Step last x e y) (hx : ∀ i, 1 ≤ (x i).generation ∧ (x i).generation ≤ last) (i : ι) :
    1 ≤ (y i).generation ∧ (y i).generation ≤ last := by
  have hi := hx i
  cases h with
  | idle => exact hi
  | take j hu hr =>
    by_cases hij : i = j
    · subst hij
      simpa using hi
    · simpa [hij] using hi
  | free j hu =>
    by_cases hij : i = j
    · subst hij
      simp only [Function.update_self,Cell.release]
      split <;> omega
    · simpa [hij] using hi

end Step

namespace Run

theorem spent (h : Run last x es y) (hs : Spent x i g) : Spent y i g := by
  induction h with
  | nil x => exact hs
  | cons h _ ih => exact ih (h.spent hs)

theorem known (h : Run last x es y) (hx : Known x i g) : Known y i g := by
  induction h with
  | nil x => exact hx
  | cons h _ ih => exact ih (h.known hx)

/-- A name stands for its cell until the cell is released, and for nothing afterwards. -/
theorem resolves_or_spent (h : Run last x es y) (hx : Resolves x i g) :
    (.free i ∉ es → Resolves y i g) ∧ (.free i ∈ es → Spent y i g) := by
  induction h with
  | nil x => exact ⟨fun _ => hx,by simp⟩
  | @cons x y z e es h hr ih =>
    by_cases he : e = .free i
    · subst he
      exact ⟨by simp,fun _ => hr.spent (h.freed hx)⟩
    · have := ih (h.resolves hx he)
      simpa [Ne.symm he] using this

end Run
end Generations
end QuardStarNet
