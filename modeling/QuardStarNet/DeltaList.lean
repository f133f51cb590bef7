import Mathlib.Algebra.Ring.Int.Defs
import Mathlib.Algebra.Ring.Nat
import Mathlib.Data.List.Nodup
import Mathlib.Data.List.TakeDrop

/-! Lists that keep, with every item, its distance to the item before it. What remains until
an item is the sum of the distances up to it; inserting and erasing an item changes the
distance of one neighbour and leaves what remains until all others. -/
namespace QuardStarNet

/-- An item and its distance to the item before it. -/
structure Delta (T : Type) where
  item : T
  gap : ℕ
  deriving DecidableEq

namespace DeltaList

variable {T : Type}

def items (l : List (Delta T)) : List T := l.map Delta.item

/-- The first item is not reached yet. -/
def Leads (l : List (Delta T)) : Prop := ∀ n ∈ l.head?, 0 < n.gap

/-- The items that are reached once the distance of the first one is used up. -/
def reached (l : List (Delta T)) : List (Delta T) := l.takeWhile fun n => n.gap = 0

def ahead (l : List (Delta T)) : List (Delta T) := l.dropWhile fun n => n.gap = 0

/-- Go forward by at most the distance of the first item. -/
def advance (d : ℕ) : List (Delta T) → List (Delta T)
  | [] => []
  | n :: l => { n with gap := n.gap-d } :: l

/-- Insert an item at distance `c` from the start; at an equal distance it goes behind the
first item there. -/
def insert (t : T) (c : ℕ) : List (Delta T) → List (Delta T)
  | [] => [⟨t,c⟩]
  | n :: l =>
    if n.gap < c then n :: insert t (c-n.gap) l
    else if c = n.gap then n :: ⟨t,0⟩ :: l
    else ⟨t,c⟩ :: { n with gap := n.gap-c } :: l

@[simp] theorem items_nil : items ([] : List (Delta T)) = [] := rfl
@[simp] theorem items_cons (n : Delta T) (l : List (Delta T)) :
    items (n :: l) = n.item :: items l := rfl

theorem reached_append_ahead (l : List (Delta T)) : reached l++ahead l = l :=
  List.takeWhile_append_dropWhile

theorem items_reached_append_ahead (l : List (Delta T)) :
    items (reached l)++items (ahead l) = items l := by
  rw [items,items,← List.map_append,reached_append_ahead,items]

theorem ahead_leads (l : List (Delta T)) : Leads (ahead l) := by
  intro n hn
  have := List.head?_dropWhile_not (fun n : Delta T => decide (n.gap = 0)) l
  unfold ahead at hn
  rw [hn] at this
  simpa [Nat.pos_iff_ne_zero] using this

@[simp] theorem items_advance (d : ℕ) (l : List (Delta T)) : items (advance d l) = items l := by
  cases l <;> rfl

theorem advance_advance (a b : ℕ) (l : List (Delta T)) :
    advance b (advance a l) = advance (a+b) l := by
  cases l with
  | nil => rfl
  | cons n l => simp [advance,Nat.sub_sub]

theorem mem_items_insert {t u : T} {c : ℕ} {l : List (Delta T)} :
    u ∈ items (insert t c l) ↔ u = t ∨ u ∈ items l := by
  induction l generalizing c with
  | nil => simp [insert]
  | cons n l ih =>
    unfold insert
    split
    next => simp [ih,or_left_comm]
    next =>
      split
      · simp [or_left_comm]
      · simp

theorem items_insert_nodup {t : T} {c : ℕ} {l : List (Delta T)} (h : (items l).Nodup)
    (ht : t ∉ items l) : (items (insert t c l)).Nodup := by
  induction l generalizing c with
  | nil => simp [insert]
  | cons n l ih =>
    simp only [items_cons,List.nodup_cons,List.mem_cons,not_or] at h ht
    unfold insert
    split
    next =>
      simp only [items_cons,List.nodup_cons,mem_items_insert,not_or]
      exact ⟨⟨Ne.symm ht.1,h.1⟩,ih h.2 ht.2⟩
    next =>
      split
      · simp [h,ht,Ne.symm ht.1]
      · simp [h,ht]

theorem insert_leads {t : T} {c : ℕ} {l : List (Delta T)} (hc : 0 < c) (hl : Leads l) :
    Leads (insert t c l) := by
  cases l with
  | nil => simpa [insert,Leads] using hc
  | cons n l =>
    have hn : 0 < n.gap := hl n rfl
    unfold insert
    split
    next => simpa [Leads] using hn
    next =>
      split
      · simpa [Leads] using hn
      · simpa [Leads] using hc

variable [DecidableEq T]

/-- Erase an item; the one behind it takes over its distance. -/
def erase (t : T) : List (Delta T) → List (Delta T)
  | [] => []
  | n :: l =>
    if n.item = t then
      match l with
      | [] => []
      | m :: l => { m with gap := m.gap+n.gap } :: l
    else n :: erase t l

/-- What remains until an item. -/
def remaining (t : T) : List (Delta T) → Option ℕ
  | [] => none
  | n :: l => if n.item = t then some n.gap else (remaining t l).map (n.gap+·)

theorem items_erase (t : T) (l : List (Delta T)) : items (erase t l) = (items l).erase t := by
  induction l with
  | nil => rfl
  | cons n l ih =>
    unfold erase
    by_cases h : n.item = t
    · rw [if_pos h]
      cases l <;> simp [h]
    · rw [if_neg h,items_cons,items_cons,ih,List.erase_cons_tail (by simpa using h)]

theorem erase_leads {t : T} {l : List (Delta T)} (hl : Leads l) : Leads (erase t l) := by
  cases l with
  | nil => exact hl
  | cons n l =>
    have hn : 0 < n.gap := hl n rfl
    unfold erase
    split
    next =>
      cases l with
      | nil => simp [Leads]
      | cons m l =>
        have : 0 < m.gap+n.gap := by omega
        simpa [Leads] using this
    next => simpa [Leads] using hn

theorem remaining_eq_none {t : T} {l : List (Delta T)} : remaining t l = none ↔ t ∉ items l := by
  induction l with
  | nil => simp [remaining]
  | cons n l ih =>
    unfold remaining
    by_cases h : n.item = t
    · simp [h]
    · simp [h,ih,Ne.symm h]

theorem remaining_insert_self {t : T} {c : ℕ} {l : List (Delta T)} (ht : t ∉ items l) :
    remaining t (insert t c l) = some c := by
  induction l generalizing c with
  | nil => simp [insert,remaining]
  | cons n l ih =>
    simp only [items_cons,List.mem_cons,not_or] at ht
    unfold insert
    split
    next h => simp [remaining,Ne.symm ht.1,ih ht.2]; omega
    next =>
      split
      next h => simp [remaining,Ne.symm ht.1,h]
      next => simp [remaining]

theorem remaining_insert_of_ne {t u : T} (hu : u ≠ t) (c : ℕ) (l : List (Delta T)) :
    remaining u (insert t c l) = remaining u l := by
  induction l generalizing c with
  | nil => simp [insert,remaining,Ne.symm hu]
  | cons n l ih =>
    unfold insert
    split
    next => simp [remaining,ih]
    next =>
      split
      next => simp [remaining,Ne.symm hu]
      next h h' =>
        by_cases hn : n.item = u
        · simp [remaining,Ne.symm hu,hn]
          omega
        · cases hr : remaining u l <;> simp [remaining,Ne.symm hu,hn,hr]
          omega

theorem remaining_erase_of_ne {t u : T} (hu : u ≠ t) (l : List (Delta T)) :
    remaining u (erase t l) = remaining u l := by
  induction l with
  | nil => rfl
  | cons n l ih =>
    unfold erase
    by_cases h : n.item = t
    · rw [if_pos h]
      have hn : n.item ≠ u := fun he => hu (he.symm.trans h)
      cases l with
      | nil => simp [remaining,hn]
      | cons m l =>
        by_cases hm : m.item = u
        · simp [remaining,hn,hm,Nat.add_comm]
        · cases hr : remaining u l <;> simp [remaining,hn,hm,hr]
          omega
    · rw [if_neg h]
      simp [remaining,ih]

theorem remaining_erase_self {t : T} {l : List (Delta T)} (h : (items l).Nodup) :
    remaining t (erase t l) = none := by
  rw [remaining_eq_none,items_erase]
  exact h.not_mem_erase

/-- The first item is the nearest one. -/
theorem gap_le_of_remaining {n : Delta T} {l : List (Delta T)} {u : T} {r : ℕ}
    (h : remaining u (n :: l) = some r) : n.gap ≤ r := by
  unfold remaining at h
  split at h
  · cases h
    exact Nat.le_refl _
  · obtain ⟨r',-,hr⟩ := Option.map_eq_some_iff.1 h
    omega

theorem remaining_advance {d : ℕ} {n : Delta T} {l : List (Delta T)} (hd : d ≤ n.gap) (u : T) :
    remaining u (advance d (n :: l)) = (remaining u (n :: l)).map (·-d) := by
  by_cases h : n.item = u
  · simp [advance,remaining,h]
  · cases hr : remaining u l <;> simp [advance,remaining,h,hr]
    omega

theorem remaining_append {u : T} {l m : List (Delta T)} (hz : ∀ n ∈ l, n.gap = 0) :
    remaining u (l++m) = if u ∈ items l then some 0 else remaining u m := by
  induction l with
  | nil => simp
  | cons n l ih =>
    have hn : n.gap = 0 := hz n (by simp)
    have ih := ih fun m hm => hz m (by simp [hm])
    by_cases h : n.item = u
    · simp [remaining,h,hn]
    · by_cases hl : u ∈ items l
      · simp [remaining,h,hn,ih,hl]
      · cases hr : remaining u m <;> simp [remaining,h,Ne.symm h,hn,ih,hl,hr]

/-- Nothing remains until a reached item, and the others are as far as before. -/
theorem remaining_reached (u : T) (l : List (Delta T)) :
    remaining u l = if u ∈ items (reached l) then some 0 else remaining u (ahead l) := by
  have hz : ∀ n ∈ reached l, n.gap = 0 := fun n hn => by
    simpa using List.all_eq_true.1 List.all_takeWhile n hn
  rw [← remaining_append hz,reached_append_ahead]

end DeltaList
end QuardStarNet
