import Mathlib.Data.List.Basic
import Mathlib.Logic.Function.Basic

/-! Memory as a function of addresses, read through windows. -/
namespace QuardStarNet
namespace Windows

variable {α : Type}

/-- The `n` cells from address `a` on. -/
def window (m : ℕ → α) (a n : ℕ) : List α := (List.range n).map fun i => m (a+i)

/-- Write a list from address `a` on. -/
def write (m : ℕ → α) (a : ℕ) (l : List α) : ℕ → α :=
  fun i => if a ≤ i then l.getD (i-a) (m i) else m i

/-- Copy `n` cells one after the other. -/
def copy (m : ℕ → α) (src dest : ℕ) : ℕ → ℕ → α
  | 0 => m
  | n+1 => Function.update (copy m src dest n) (dest+n) (copy m src dest n (src+n))

@[simp] theorem window_length (m : ℕ → α) (a n : ℕ) : (window m a n).length = n := by
  simp [window]

@[simp] theorem window_zero (m : ℕ → α) (a : ℕ) : window m a 0 = [] := rfl

theorem window_add (m : ℕ → α) (a k n : ℕ) : window m a (k+n) = window m a k++window m (a+k) n := by
  simp [window,List.range_add,Nat.add_assoc]

theorem window_congr {m m' : ℕ → α} {a a' n : ℕ} (h : ∀ i, i < n → m (a+i) = m' (a'+i)) :
    window m a n = window m' a' n :=
  List.map_congr_left fun i hi => h i (List.mem_range.1 hi)

theorem take_window (m : ℕ → α) (a : ℕ) {k n : ℕ} (h : k ≤ n) :
    (window m a n).take k = window m a k := by
  obtain ⟨j,rfl⟩ := Nat.exists_eq_add_of_le h
  rw [window_add,List.take_left' (window_length m a k)]

theorem drop_window (m : ℕ → α) (a : ℕ) {k n : ℕ} (h : k ≤ n) :
    (window m a n).drop k = window m (a+k) (n-k) := by
  obtain ⟨j,rfl⟩ := Nat.exists_eq_add_of_le h
  rw [window_add,List.drop_left' (window_length m a k),Nat.add_sub_cancel_left]

/-- A window in front of what is written. -/
theorem window_write_before {m : ℕ → α} {a b n : ℕ} {l : List α} (h : b+n ≤ a) :
    window (write m a l) b n = window m b n :=
  window_congr fun i hi => if_neg (by omega)

theorem window_write_self (m : ℕ → α) (a : ℕ) (l : List α) :
    window (write m a l) a l.length = l := by
  refine List.ext_getElem (window_length _ _ _) fun i h₁ h₂ => ?_
  simp only [window,List.getElem_map,List.getElem_range,write]
  simp [h₂]

/-- A window behind what is written. -/
theorem window_write_behind {m : ℕ → α} {a b n : ℕ} {l : List α} (h : a+l.length ≤ b) :
    window (write m a l) b n = window m b n :=
  window_congr fun i hi => by
    rw [write,if_pos (by omega),List.getD_eq_getElem?_getD,List.getElem?_eq_none (by omega)]
    rfl

/-- Replace the part of a list from position `pos` on. -/
def overwrite (l : List α) (pos : ℕ) (new : List α) : List α :=
  l.take pos++new++l.drop (pos+new.length)

@[simp] theorem overwrite_nil (l : List α) (pos : ℕ) : overwrite l pos [] = l := by
  simp [overwrite]

theorem overwrite_length {l new : List α} {pos : ℕ} (h : pos+new.length ≤ l.length) :
    (overwrite l pos new).length = l.length := by
  simp only [overwrite,List.length_append,List.length_take,List.length_drop]
  omega

/-- What is replaced lies in the front part. -/
theorem overwrite_append_left {l new : List α} {pos : ℕ} (h : pos+new.length ≤ l.length)
    (l' : List α) : overwrite (l++l') pos new = overwrite l pos new++l' := by
  rw [overwrite,List.take_append_of_le_length (by omega),List.drop_append_of_le_length h,overwrite]
  simp

/-- What is replaced lies behind the front part. -/
theorem overwrite_append_right (l l' : List α) (pos : ℕ) (new : List α) :
    overwrite (l++l') (l.length+pos) new = l++overwrite l' pos new := by
  rw [overwrite,List.take_length_add_append,Nat.add_assoc,List.drop_length_add_append,overwrite]
  simp

/-- Two parts that follow each other. -/
theorem overwrite_overwrite {l : List α} {pos : ℕ} {a c : List α} (h : pos ≤ l.length) :
    overwrite (overwrite l pos a) (pos+a.length) c = overwrite l pos (a++c) := by
  have hfront : (l.take pos++a).length = pos+a.length := by simp; omega
  have hsplit : overwrite l pos a = l.take pos++a++l.drop (pos+a.length) := rfl
  rw [hsplit,← hfront,← Nat.add_zero (l.take pos++a).length,overwrite_append_right,hfront]
  simp [overwrite,Nat.add_assoc]

/-- The whole of a list that is replaced. -/
theorem overwrite_all {l new : List α} (h : l.length = new.length) : overwrite l 0 new = new := by
  simp [overwrite,← h]

/-- A window in which something is written. -/
theorem window_write {m : ℕ → α} {a n pos : ℕ} {l : List α} (h : pos+l.length ≤ n) :
    window (write m (a+pos) l) a n = overwrite (window m a n) pos l := by
  have hn : n = pos+(l.length+(n-(pos+l.length))) := by omega
  rw [overwrite,take_window _ _ (by omega),drop_window _ _ h]
  nth_rewrite 1 [hn]
  rw [window_add,window_add,window_write_before (by omega),window_write_self,
    window_write_behind (by omega),List.append_assoc]
  simp [Nat.add_assoc]

/-- Cells behind the ones copied so far keep their value. -/
theorem copy_above {m : ℕ → α} {src dest n i : ℕ} (h : dest+n ≤ i) : copy m src dest n i = m i := by
  induction n with
  | zero => rfl
  | succ n ih =>
    rw [copy,Function.update_of_ne (by omega)]
    exact ih (by omega)

/-- Copying towards lower addresses moves the window, also when the two overlap. -/
theorem window_copy {m : ℕ → α} {src dest : ℕ} (h : dest ≤ src) (n : ℕ) :
    window (copy m src dest n) dest n = window m src n := by
  induction n with
  | zero => rfl
  | succ n ih =>
    rw [window_add,window_add m src,← ih]
    congr 1
    · exact window_congr fun i hi => Function.update_of_ne (by omega) _ _
    · simp only [window,List.range_one,List.map_cons,List.map_nil,Nat.add_zero,copy,
        Function.update_self]
      rw [copy_above (by omega)]

end Windows
end QuardStarNet
