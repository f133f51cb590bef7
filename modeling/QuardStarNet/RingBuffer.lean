import Mathlib.Algebra.Ring.Int.Defs
import Mathlib.Algebra.Ring.Nat
import Mathlib.Data.List.OfFn
import Mathlib.Tactic.SplitIfs

/-! Circular buffers over a fixed array, with their first-in first-out contents.
Writes and reads are the two-part block copies of the usual C idiom; removal from
the middle shifts the later cells back in place. -/
namespace QuardStarNet

/-- An array of `cap` cells of which `count`, starting at `head`, are occupied. -/
structure Ring (α : Type) (cap : ℕ) where
  store : Fin cap → α
  head : ℕ
  count : ℕ
  head_lt : head < cap
  count_le : count ≤ cap

namespace Ring

variable {α : Type} {cap : ℕ}

/-- Physical index of the cell `k` places after `start`. -/
def wrap (cap start k : ℕ) : ℕ := (start+k) % cap

theorem wrap_lt {start k : ℕ} (h : 0 < cap) : wrap cap start k < cap := Nat.mod_lt _ h

theorem wrap_cases {start k : ℕ} (hs : start < cap) (hk : k ≤ cap) :
    wrap cap start k = if start+k < cap then start+k else start+k-cap := by
  unfold wrap
  split_ifs with h
  · exact Nat.mod_eq_of_lt h
  · rw [Nat.mod_eq_sub_mod (by omega),Nat.mod_eq_of_lt (by omega)]

theorem wrap_inj {start i j : ℕ} (hs : start < cap) (hi : i < cap) (hj : j < cap) :
    wrap cap start i = wrap cap start j ↔ i = j := by
  rw [wrap_cases hs hi.le,wrap_cases hs hj.le]
  split_ifs <;> omega

theorem wrap_wrap {start i j : ℕ} : wrap cap (wrap cap start i) j = wrap cap start (i+j) := by
  simp [wrap,Nat.add_assoc]

theorem cap_pos (r : Ring α cap) : 0 < cap := Nat.lt_of_le_of_lt (Nat.zero_le _) r.head_lt

variable (r : Ring α cap)

/-- The cell `k` places after the head. -/
def cell (k : ℕ) : α := r.store ⟨wrap cap r.head k,wrap_lt r.cap_pos⟩

/-- The occupied cells, oldest first. -/
def contents : List α := List.ofFn fun k : Fin r.count => r.cell k

@[simp] theorem contents_length : r.contents.length = r.count := by simp [contents]

theorem contents_get {k : ℕ} (h : k < r.contents.length) : r.contents[k] = r.cell k := by
  simp [contents]

theorem contents_eq_nil : r.contents = [] ↔ r.count = 0 := by
  rw [← List.length_eq_zero_iff,contents_length]

/-- Two rings with the same occupied cells have the same contents. -/
theorem contents_congr {r' : Ring α cap} {xs : List α} (hlen : xs.length = r'.count)
    (hcell : ∀ k (h : k < xs.length), r'.cell k = xs[k]) : r'.contents = xs := by
  apply List.ext_getElem
  · simp [hlen]
  · intro k h₁ h₂
    rw [contents_get,hcell k h₂]

/-- Emptying a ring resets the indices and leaves the array as it is. -/
def clear : Ring α cap := { r with head := 0, count := 0, head_lt := r.cap_pos, count_le := Nat.zero_le _ }

@[simp] theorem clear_count : r.clear.count = 0 := rfl

@[simp] theorem clear_contents : r.clear.contents = [] := by
  rw [contents_eq_nil,clear_count]

/-- Append a block: one copy up to the end of the array, one from its start. -/
def write (xs : List α) (h : xs.length ≤ cap-r.count) : Ring α cap where
  store j :=
    let tail := wrap cap r.head r.count
    let first := min (cap-tail) xs.length
    if hj : tail ≤ j.val ∧ j.val < tail+first then xs[j.val-tail]
    else if hj : j.val < xs.length-first then xs[first+j.val]
    else r.store j
  head := r.head
  count := r.count+xs.length
  head_lt := r.head_lt
  count_le := by have := r.count_le; omega

@[simp] theorem write_count (xs : List α) (h : xs.length ≤ cap-r.count) :
    (r.write xs h).count = r.count+xs.length := rfl

@[simp] theorem write_contents (xs : List α) (h : xs.length ≤ cap-r.count) :
    (r.write xs h).contents = r.contents++xs := by
  have hs := r.head_lt
  have hc := r.count_le
  apply contents_congr
  · simp
  · intro k hk
    simp only [List.length_append,contents_length] at hk
    by_cases hold : k < r.count
    · -- an old cell lies outside both copied blocks
      rw [List.getElem_append_left (by simpa using hold),contents_get]
      simp only [cell,write]
      rw [dif_neg,dif_neg]
      · rw [wrap_cases hs (by omega),wrap_cases hs (by omega)]
        split_ifs <;> omega
      · rw [wrap_cases hs (by omega),wrap_cases hs (by omega)]
        split_ifs <;> omega
    · rw [List.getElem_append_right (by simpa using hold)]
      have hx : k-r.count < xs.length := by omega
      simp only [cell,write,contents_length]
      by_cases hfit : wrap cap r.head r.count ≤ wrap cap r.head k ∧
          wrap cap r.head k < wrap cap r.head r.count+min (cap-wrap cap r.head r.count) xs.length
      · rw [dif_pos hfit]
        congr 1
        rw [wrap_cases hs (by omega),wrap_cases hs (by omega)] at *
        split_ifs at * <;> omega
      · have hwrapped : wrap cap r.head k <
            xs.length-min (cap-wrap cap r.head r.count) xs.length := by
          rw [wrap_cases hs (by omega),wrap_cases hs (by omega)] at *
          split_ifs at * <;> omega
        rw [dif_neg hfit,dif_pos hwrapped]
        congr 1
        rw [wrap_cases hs (by omega),wrap_cases hs (by omega)] at *
        split_ifs at * <;> omega

/-- The `n` oldest elements, as two block copies out of the array. -/
def front (n : ℕ) (h : n ≤ r.count) : List α :=
  let first := min (cap-r.head) n
  List.ofFn (fun k : Fin first => r.store ⟨r.head+k.val,by omega⟩) ++
    List.ofFn (fun k : Fin (n-first) => r.store ⟨k.val,by have := r.count_le; omega⟩)

theorem front_eq (n : ℕ) (h : n ≤ r.count) : r.front n h = r.contents.take n := by
  have hs := r.head_lt
  have hc := r.count_le
  apply List.ext_getElem
  · simp [front]; omega
  · intro k h₁ h₂
    simp only [List.length_take,contents_length] at h₂
    rw [List.getElem_take,contents_get]
    simp only [front,cell,List.getElem_append,List.length_ofFn,List.getElem_ofFn]
    split_ifs with hk
    · congr 2
      rw [wrap_cases hs (by omega)]
      split_ifs <;> omega
    · congr 2
      rw [wrap_cases hs (by omega)]
      split_ifs <;> omega

/-- Drop the `n` oldest elements. -/
def drop (n : ℕ) (h : n ≤ r.count) : Ring α cap where
  store := r.store
  head := wrap cap r.head n
  count := r.count-n
  head_lt := wrap_lt r.cap_pos
  count_le := by have := r.count_le; omega

@[simp] theorem drop_count (n : ℕ) (h : n ≤ r.count) : (r.drop n h).count = r.count-n := rfl

@[simp] theorem drop_contents (n : ℕ) (h : n ≤ r.count) :
    (r.drop n h).contents = r.contents.drop n := by
  apply contents_congr
  · simp
  · intro k hk
    rw [List.getElem_drop,contents_get]
    simp [cell,drop,wrap_wrap]

/-- Overwrite one cell, counted from the head. -/
def put (k : ℕ) (x : α) : Ring α cap :=
  { r with store := fun j => if j.val = wrap cap r.head k then x else r.store j }

theorem put_cell {k i : ℕ} (x : α) (hk : k < cap) (hi : i < cap) :
    (r.put k x).cell i = if i = k then x else r.cell i := by
  have h : wrap cap r.head i = wrap cap r.head k ↔ i = k := wrap_inj r.head_lt hi hk
  by_cases he : i = k <;> simp [put,cell,h,he]

/-- Append one element at the tail cell. -/
def push (x : α) (h : r.count < cap) : Ring α cap :=
  { r.put r.count x with count := r.count+1, count_le := h }

theorem push_cell (x : α) (h : r.count < cap) (k : ℕ) : (r.push x h).cell k = (r.put r.count x).cell k :=
  rfl

@[simp] theorem push_count (x : α) (h : r.count < cap) : (r.push x h).count = r.count+1 := rfl

@[simp] theorem push_contents (x : α) (h : r.count < cap) :
    (r.push x h).contents = r.contents++[x] := by
  apply contents_congr
  · simp
  · intro k hk
    simp only [List.length_append,contents_length,List.length_singleton] at hk
    rw [push_cell,put_cell r x h (by omega)]
    split_ifs with he
    · subst k; simp
    · rw [List.getElem_append_left (by simp; omega),contents_get]

/-- Copy the cells `k+1`, ..., `k+n` one place back, in order. -/
def shift (r : Ring α cap) (k : ℕ) : ℕ → Ring α cap
  | 0 => r
  | n+1 => shift (r.put k (r.cell (k+1))) (k+1) n

@[simp] theorem put_count (k : ℕ) (x : α) : (r.put k x).count = r.count := rfl

theorem shift_cell {k n i : ℕ} (hn : k+n < cap) (hi : i < cap) :
    (r.shift k n).cell i = if k ≤ i ∧ i < k+n then r.cell (i+1) else r.cell i := by
  induction n generalizing r k with
  | zero => rw [if_neg (by omega)]; rfl
  | succ n ih =>
    rw [shift,ih _ (by omega)]
    by_cases hlast : k+1 ≤ i ∧ i < k+1+n
    · rw [if_pos hlast,if_pos (by omega),put_cell r _ (by omega) (by omega),if_neg (by omega)]
    · rw [if_neg hlast,put_cell r _ (by omega) hi]
      by_cases he : i = k
      · subst i; simp
      · rw [if_neg he,if_neg (by omega)]

section Blank

variable [Inhabited α]

/-- Every cell outside the occupied window holds the default value. -/
def Blank : Prop := ∀ k, r.count ≤ k → k < cap → r.cell k = default

/-- A freshly zeroed array. -/
def zeroed (h : 0 < cap) : Ring α cap := ⟨fun _ => default,0,0,h,Nat.zero_le _⟩

@[simp] theorem zeroed_count (h : 0 < cap) : (zeroed h : Ring α cap).count = 0 := rfl

@[simp] theorem zeroed_contents (h : 0 < cap) : (zeroed h : Ring α cap).contents = [] := by
  rw [contents_eq_nil,zeroed_count]

theorem zeroed_blank (h : 0 < cap) : (zeroed h : Ring α cap).Blank := fun _ _ _ => rfl

theorem push_blank (x : α) (h : r.count < cap) (hb : r.Blank) : (r.push x h).Blank := by
  intro k hk hc
  rw [push_count] at hk
  rw [push_cell,put_cell r x h hc,if_neg (by omega)]
  exact hb k (by omega) hc

/-- Clear the head cell and advance past it. -/
def pop (h : 0 < r.count) : Ring α cap :=
  (r.put 0 default).drop 1 (by simp only [put]; omega)

@[simp] theorem pop_count (h : 0 < r.count) : (r.pop h).count = r.count-1 := rfl

@[simp] theorem pop_contents (h : 0 < r.count) : (r.pop h).contents = r.contents.tail := by
  have hc := r.count_le
  rw [pop,drop_contents,← List.drop_one]
  apply List.ext_getElem
  · simp [put]
  · intro k h₁ h₂
    simp only [List.length_drop,contents_length] at h₂
    rw [List.getElem_drop,List.getElem_drop,contents_get,contents_get,
      put_cell r _ r.cap_pos (by omega),if_neg (by omega)]

theorem pop_blank (h : 0 < r.count) (hb : r.Blank) : (r.pop h).Blank := by
  have hc := r.count_le
  intro k hk hlt
  have hcell : (r.pop h).cell k = (r.put 0 default).cell (1+k) := by
    simp [pop,drop,cell,put,wrap_wrap]
  rw [pop_count] at hk
  rw [hcell]
  by_cases he : 1+k = cap
  · -- the freed head cell has become the last one
    have hw : wrap cap r.head (1+k) = wrap cap r.head 0 := by
      simp [wrap,he]
    simp [cell,put,hw]
  · rw [put_cell r _ r.cap_pos (by omega),if_neg (by omega)]
    exact hb _ (by omega) (by omega)

/-- Remove the element `k` places after the head and blank the freed tail cell. -/
def removeAt (k : ℕ) (h : k < r.count) : Ring α cap :=
  { (r.shift k (r.count-1-k)).put (r.count-1) default with
    count := r.count-1
    count_le := by have := r.count_le; omega }

@[simp] theorem removeAt_count (k : ℕ) (h : k < r.count) : (r.removeAt k h).count = r.count-1 := rfl

theorem removeAt_cell {k i : ℕ} (h : k < r.count) (hi : i < cap) :
    (r.removeAt k h).cell i =
      if i = r.count-1 then default else if k ≤ i ∧ i < r.count-1 then r.cell (i+1) else r.cell i := by
  have hc := r.count_le
  have hput : (r.removeAt k h).cell i = ((r.shift k (r.count-1-k)).put (r.count-1) default).cell i := rfl
  rw [hput,put_cell _ _ (by omega) hi,shift_cell r (by omega) hi]
  have hend : k+(r.count-1-k) = r.count-1 := by omega
  rw [hend]

@[simp] theorem removeAt_contents (k : ℕ) (h : k < r.count) :
    (r.removeAt k h).contents = r.contents.eraseIdx k := by
  have hc := r.count_le
  apply contents_congr
  · simp [List.length_eraseIdx,h]
  · intro i hi
    simp only [List.length_eraseIdx,contents_length,if_pos h] at hi
    rw [removeAt_cell r h (by omega),if_neg (by omega),List.getElem_eraseIdx]
    split_ifs with h₁ h₂ h₂
    · omega
    · rw [contents_get]
    · rw [contents_get]
    · omega

theorem removeAt_blank (k : ℕ) (h : k < r.count) (hb : r.Blank) : (r.removeAt k h).Blank := by
  intro i hi hlt
  rw [removeAt_count] at hi
  rw [removeAt_cell r h hlt]
  split_ifs with h₁ h₂
  · rfl
  · omega
  · exact hb i (by omega) hlt

end Blank

end Ring
end QuardStarNet
