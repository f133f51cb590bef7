import Mathlib.Algebra.Ring.Int.Defs
import Mathlib.Algebra.Ring.Nat
import Mathlib.Data.Nat.Basic

/-! Byte strings in network order: big-endian fields, and one's-complement sums of
16-bit words up to the modulus 65535. An end-around carry keeps the residue of a sum
and never turns a positive sum into zero, so the folded sum is determined by the
residue alone. -/
namespace QuardStarNet
namespace NetBytes

def be16 (x : BitVec 16) : List (BitVec 8) := [x.extractLsb' 8 8,x.extractLsb' 0 8]

def be32 (x : BitVec 32) : List (BitVec 8) :=
  [x.extractLsb' 24 8,x.extractLsb' 16 8,x.extractLsb' 8 8,x.extractLsb' 0 8]

def of16 (a b : BitVec 8) : BitVec 16 := a++b

def of32 (a b c d : BitVec 8) : BitVec 32 := a++b++c++d

@[simp] theorem be16_length (x : BitVec 16) : (be16 x).length = 2 := rfl

@[simp] theorem be32_length (x : BitVec 32) : (be32 x).length = 4 := rfl

theorem of16_be16 (x : BitVec 16) : of16 (x.extractLsb' 8 8) (x.extractLsb' 0 8) = x := by
  apply BitVec.eq_of_toNat_eq
  have hx := x.isLt
  simp only [of16,BitVec.toNat_append,BitVec.extractLsb'_toNat,Nat.shiftRight_eq_div_pow]
  rw [← Nat.shiftLeft_add_eq_or_of_lt (Nat.mod_lt _ (by decide)),Nat.shiftLeft_eq]
  omega

theorem of32_be32 (x : BitVec 32) :
    of32 (x.extractLsb' 24 8) (x.extractLsb' 16 8) (x.extractLsb' 8 8) (x.extractLsb' 0 8) = x := by
  apply BitVec.eq_of_toNat_eq
  have hx := x.isLt
  simp only [of32,BitVec.toNat_append,BitVec.extractLsb'_toNat,Nat.shiftRight_eq_div_pow]
  rw [← Nat.shiftLeft_add_eq_or_of_lt (Nat.mod_lt _ (by decide)),
    ← Nat.shiftLeft_add_eq_or_of_lt (Nat.mod_lt _ (by decide)),
    ← Nat.shiftLeft_add_eq_or_of_lt (Nat.mod_lt _ (by decide))]
  simp only [Nat.shiftLeft_eq]
  omega

theorem of16_toNat (a b : BitVec 8) : (of16 a b).toNat = a.toNat*256+b.toNat := by
  rw [of16,BitVec.toNat_append,← Nat.shiftLeft_add_eq_or_of_lt b.isLt,Nat.shiftLeft_eq]

theorem be16_of16 (a b : BitVec 8) : be16 (of16 a b) = [a,b] := by
  have ha := a.isLt
  have hb := b.isLt
  have h := of16_toNat a b
  rw [be16,List.cons.injEq,List.cons.injEq]
  refine ⟨?_,?_,rfl⟩
  · apply BitVec.eq_of_toNat_eq
    rw [BitVec.extractLsb'_toNat,h,Nat.shiftRight_eq_div_pow]
    omega
  · apply BitVec.eq_of_toNat_eq
    rw [BitVec.extractLsb'_toNat,h,Nat.shiftRight_eq_div_pow]
    omega

theorem of32_toNat (a b c d : BitVec 8) :
    (of32 a b c d).toNat = ((a.toNat*256+b.toNat)*256+c.toNat)*256+d.toNat := by
  simp only [of32,BitVec.toNat_append]
  rw [← Nat.shiftLeft_add_eq_or_of_lt b.isLt,← Nat.shiftLeft_add_eq_or_of_lt c.isLt,
    ← Nat.shiftLeft_add_eq_or_of_lt d.isLt]
  simp only [Nat.shiftLeft_eq]

theorem be32_of32 (a b c d : BitVec 8) : be32 (of32 a b c d) = [a,b,c,d] := by
  have ha := a.isLt
  have hb := b.isLt
  have hc := c.isLt
  have hd := d.isLt
  have h := of32_toNat a b c d
  simp only [be32,List.cons.injEq]
  refine ⟨?_,?_,?_,?_,trivial⟩
  · apply BitVec.eq_of_toNat_eq
    rw [BitVec.extractLsb'_toNat,h,Nat.shiftRight_eq_div_pow]
    omega
  · apply BitVec.eq_of_toNat_eq
    rw [BitVec.extractLsb'_toNat,h,Nat.shiftRight_eq_div_pow]
    omega
  · apply BitVec.eq_of_toNat_eq
    rw [BitVec.extractLsb'_toNat,h,Nat.shiftRight_eq_div_pow]
    omega
  · apply BitVec.eq_of_toNat_eq
    rw [BitVec.extractLsb'_toNat,h,Nat.shiftRight_eq_div_pow]
    omega

/-- A byte string holds `bytes` at a position. -/
def Holds (data : List (BitVec 8)) (i : ℕ) (bytes : List (BitVec 8)) : Prop := bytes <+: data.drop i

instance (data : List (BitVec 8)) (i : ℕ) (bytes : List (BitVec 8)) : Decidable (Holds data i bytes) :=
  inferInstanceAs (Decidable (bytes <+: data.drop i))

section

variable {data bytes bytes' : List (BitVec 8)} {i j : ℕ}

theorem Holds.left (h : Holds data i (bytes ++ bytes')) : Holds data i bytes :=
  (List.prefix_append bytes bytes').trans h

theorem Holds.right (h : Holds data i (bytes ++ bytes')) (hj : j = i+bytes.length) :
    Holds data j bytes' := by
  obtain ⟨post,hpost⟩ := h
  refine ⟨post,?_⟩
  rw [hj,← List.drop_drop,← hpost,List.append_assoc,List.drop_left]

theorem Holds.bound (h : Holds data i bytes) (hb : bytes ≠ []) : i+bytes.length ≤ data.length := by
  have hle := h.length_le
  have hpos := List.length_pos_iff.2 hb
  rw [List.length_drop] at hle
  omega

end

/-- One end-around carry of a sum wider than 16 bits. -/
def carry (sum : ℕ) : ℕ := sum % 65536+sum/65536

theorem carry_mod (sum : ℕ) : carry sum % 65535 = sum % 65535 := by
  unfold carry; omega

theorem carry_pos {sum : ℕ} (h : 0 < sum) : 0 < carry sum := by
  unfold carry; omega

theorem carry_le {sum : ℕ} : carry sum ≤ 65535+sum/65536 := by
  unfold carry; omega

/-- Repeat the carry while the sum is wider than 16 bits. -/
def fold : ℕ → ℕ → ℕ
  | 0, sum => sum
  | n+1, sum => if sum/65536 = 0 then sum else fold n (carry sum)

theorem fold_mod (n sum : ℕ) : fold n sum % 65535 = sum % 65535 := by
  induction n generalizing sum with
  | zero => rfl
  | succ n ih =>
    rw [fold]
    split
    · rfl
    · rw [ih,carry_mod]

theorem fold_pos (n : ℕ) {sum : ℕ} (h : 0 < sum) : 0 < fold n sum := by
  induction n generalizing sum with
  | zero => exact h
  | succ n ih =>
    rw [fold]
    split
    · exact h
    · exact ih (carry_pos h)

theorem fold_le (n sum : ℕ) : fold n sum ≤ sum := by
  induction n generalizing sum with
  | zero => rfl
  | succ n ih =>
    rw [fold]
    split
    · rfl
    · have hc : carry sum ≤ sum := by unfold carry; omega
      exact Nat.le_trans (ih _) hc

theorem fold_one_lt {sum : ℕ} (h : sum ≤ 131070) : fold 1 sum < 65536 := by
  by_cases hs : sum/65536 = 0
  · rw [fold,if_pos hs]; omega
  · rw [fold,if_neg hs,fold,carry]; omega

/-- Two carries are enough for a sum that fits in 32 bits. -/
theorem fold_two_lt {sum : ℕ} (h : sum < 2^32) : fold 2 sum < 65536 := by
  by_cases hs : sum/65536 = 0
  · rw [fold,if_pos hs]; omega
  · rw [fold,if_neg hs]
    have hc : carry sum ≤ 65535+sum/65536 := carry_le
    exact fold_one_lt (by omega)

/-- Weight of a byte list whose first byte stands at position `offset`: bytes at even
positions are the high halves of their words. -/
def weight : ℕ → List (BitVec 8) → ℕ
  | _, [] => 0
  | offset, b::bs => (if offset % 2 = 0 then b.toNat*256 else b.toNat)+weight (offset+1) bs

/-- A big-endian word at an even position weighs its value. -/
theorem weight_be16 (x : BitVec 16) : weight 0 (be16 x) = x.toNat := by
  have hx := x.isLt
  simp [weight,be16,BitVec.extractLsb'_toNat,Nat.shiftRight_eq_div_pow]
  omega

theorem weight_append (offset : ℕ) (xs ys : List (BitVec 8)) :
    weight offset (xs++ys) = weight offset xs+weight (offset+xs.length) ys := by
  induction xs generalizing offset with
  | nil => simp [weight]
  | cons x xs ih =>
    have hp : offset+1+xs.length = offset+(xs.length+1) := by omega
    simp only [List.cons_append,weight,ih,List.length_cons,hp]
    omega

theorem weight_parity (offset : ℕ) (xs : List (BitVec 8)) :
    weight (offset+2) xs = weight offset xs := by
  induction xs generalizing offset with
  | nil => rfl
  | cons x xs ih =>
    have h : offset+2+1 = offset+1+2 := by omega
    simp only [weight,h,ih]
    simp

theorem weight_even {offset : ℕ} (h : offset % 2 = 0) (xs : List (BitVec 8)) :
    weight offset xs = weight 0 xs := by
  obtain ⟨k,rfl⟩ : ∃ k, offset = 2*k := ⟨offset/2,by omega⟩
  induction k with
  | zero => rfl
  | succ k ih =>
    rw [show 2*(k+1) = 2*k+2 by omega,weight_parity]
    exact ih (by omega)

/-- The big-endian words of a byte string; a byte left over is the high half of the last one. -/
def words : List (BitVec 8) → List (BitVec 16)
  | [] => []
  | [a] => [of16 a 0]
  | a::b::bs => of16 a b::words bs

/-- Sum of two words in one's complement: the carry comes in again at the other end. -/
def onesAdd (x y : BitVec 16) : BitVec 16 := x+y+if x.toNat+y.toNat < 65536 then 0 else 1

/-- The one's-complement sum of a word and the words of a byte string. -/
def onesSum (sum : BitVec 16) (bs : List (BitVec 8)) : BitVec 16 := (words bs).foldl onesAdd sum

theorem onesAdd_toNat (x y : BitVec 16) :
    (onesAdd x y).toNat = if x.toNat+y.toNat < 65536 then x.toNat+y.toNat else x.toNat+y.toNat-65535 := by
  have hx := x.isLt
  have hy := y.isLt
  rw [onesAdd]
  split
  · have h0 : (0 : BitVec 16).toNat = 0 := rfl
    rw [BitVec.toNat_add,BitVec.toNat_add]
    omega
  · have h1 : (1 : BitVec 16).toNat = 1 := rfl
    rw [BitVec.toNat_add,BitVec.toNat_add]
    omega

theorem weight_words (bs : List (BitVec 8)) : weight 0 bs = ((words bs).map BitVec.toNat).sum := by
  fun_induction words bs with
  | case1 => rfl
  | case2 a => simp [weight,of16_toNat]
  | case3 a b bs ih =>
    simp only [weight,weight_parity,ih,List.map_cons,List.sum_cons,of16_toNat]
    simp [Nat.add_assoc]

/-- A one's-complement sum is zero only when everything is, and otherwise has the residue of the
plain sum. -/
theorem onesSum_spec (sum : BitVec 16) (bs : List (BitVec 8)) :
    (onesSum sum bs).toNat % 65535 = (sum.toNat+weight 0 bs) % 65535 ∧
      ((onesSum sum bs).toNat = 0 ↔ sum.toNat+weight 0 bs = 0) := by
  rw [weight_words,onesSum]
  generalize words bs = l
  induction l generalizing sum with
  | nil => simp
  | cons x l ih =>
    obtain ⟨hmod,hzero⟩ := ih (onesAdd sum x)
    have hadd := onesAdd_toNat sum x
    simp only [List.foldl_cons,List.map_cons,List.sum_cons]
    rw [hmod,hzero,hadd]
    split
    · exact ⟨by omega,by omega⟩
    · exact ⟨by omega,by omega⟩

/-- Two words with one residue are equal once they agree on being zero. -/
theorem eq_of_residue {x y : ℕ} (hx : x < 65536) (hy : y < 65536) (h : x % 65535 = y % 65535)
    (hz : x = 0 ↔ y = 0) : x = y := by
  omega

/-- One byte is replaced by a different one. -/
def Corrupt (l l' : List (BitVec 8)) : Prop :=
  ∃ front a b back, a ≠ b ∧ l = front++a::back ∧ l' = front++b::back

theorem Corrupt.length {l l' : List (BitVec 8)} (h : Corrupt l l') : l'.length = l.length := by
  obtain ⟨front,a,b,back,-,rfl,rfl⟩ := h
  simp

theorem Corrupt.append {l l' : List (BitVec 8)} (h : Corrupt l l') (front back : List (BitVec 8)) :
    Corrupt (front++l++back) (front++l'++back) := by
  obtain ⟨front',a,b,back',hne,rfl,rfl⟩ := h
  exact ⟨front++front',a,b,back'++back,hne,by simp,by simp⟩

/-- One byte counts for less than the modulus, in either half of a word. -/
theorem Corrupt.weight_ne {l l' : List (BitVec 8)} (h : Corrupt l l') (offset : ℕ) :
    weight offset l % 65535 ≠ weight offset l' % 65535 := by
  obtain ⟨front,a,b,back,hne,rfl,rfl⟩ := h
  have hab : a.toNat ≠ b.toNat := fun he => hne (BitVec.eq_of_toNat_eq he)
  have ha := a.isLt
  have hb := b.isLt
  rw [weight_append,weight_append,weight,weight]
  split
  · omega
  · omega

end NetBytes
end QuardStarNet
