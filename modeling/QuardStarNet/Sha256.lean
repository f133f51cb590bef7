import QuardStarNet.NetBase
import Mathlib.Data.List.Range

/-! SHA-256 as the file transfer test computes it, and the standard's definition. -/

namespace QuardStarNet
namespace Sha256

abbrev Word := BitVec 32

/-- The eight working variables; also the words of `state` in their order. -/
@[ext] structure Words where
  (a b c d e f g h : Word)
  deriving DecidableEq

namespace Words

def add (x y : Words) : Words :=
  ⟨x.a+y.a,x.b+y.b,x.c+y.c,x.d+y.d,x.e+y.e,x.f+y.f,x.g+y.g,x.h+y.h⟩

theorem add_comm (x y : Words) : x.add y = y.add x := by
  simp [add,BitVec.add_comm]

def toList (x : Words) : List Word := [x.a,x.b,x.c,x.d,x.e,x.f,x.g,x.h]

end Words

def k : List Word := [
  0x428a2f98,0x71374491,0xb5c0fbcf,0xe9b5dba5,0x3956c25b,0x59f111f1,0x923f82a4,0xab1c5ed5,
  0xd807aa98,0x12835b01,0x243185be,0x550c7dc3,0x72be5d74,0x80deb1fe,0x9bdc06a7,0xc19bf174,
  0xe49b69c1,0xefbe4786,0x0fc19dc6,0x240ca1cc,0x2de92c6f,0x4a7484aa,0x5cb0a9dc,0x76f988da,
  0x983e5152,0xa831c66d,0xb00327c8,0xbf597fc7,0xc6e00bf3,0xd5a79147,0x06ca6351,0x14292967,
  0x27b70a85,0x2e1b2138,0x4d2c6dfc,0x53380d13,0x650a7354,0x766a0abb,0x81c2c92e,0x92722c85,
  0xa2bfe8a1,0xa81a664b,0xc24b8b70,0xc76c51a3,0xd192e819,0xd6990624,0xf40e3585,0x106aa070,
  0x19a4c116,0x1e376c08,0x2748774c,0x34b0bcb5,0x391c0cb3,0x4ed8aa4a,0x5b9cca4f,0x682e6ff3,
  0x748f82ee,0x78a5636f,0x84c87814,0x8cc70208,0x90befffa,0xa4506ceb,0xbef9a3f7,0xc67178f2]

def rotr (value : Word) (bits : ℕ) : Word := (value >>> bits) ||| (value <<< (32-bits))

def read32 (data : ℕ → Byte) (i : ℕ) : Word :=
  ((data i).setWidth 32 <<< 24) ||| ((data (i+1)).setWidth 32 <<< 16) |||
    ((data (i+2)).setWidth 32 <<< 8) ||| (data (i+3)).setWidth 32

def write32 (value : Word) : List Byte :=
  [(value >>> 24).setWidth 8,(value >>> 16).setWidth 8,(value >>> 8).setWidth 8,value.setWidth 8]

/-- `sha256_ctx_t`. -/
structure Ctx where
  state : Words
  bits : BitVec 64
  block : ℕ → Byte
  used : ℕ

/-- The loop that extends the message schedule; `w` is the part that is set. -/
def extendRounds : ℕ → List Word → List Word
  | 0,w => w
  | n+1,w =>
    let i := w.length
    let s0 := rotr w[i-15]! 7 ^^^ rotr w[i-15]! 18 ^^^ (w[i-15]! >>> 3)
    let s1 := rotr w[i-2]! 17 ^^^ rotr w[i-2]! 19 ^^^ (w[i-2]! >>> 10)
    extendRounds n (w ++ [w[i-16]!+s0+w[i-7]!+s1])

/-- A round of `transform` with `k[i]` and `w[i]`. -/
def mix (v : Words) (ki wi : Word) : Words :=
  let s1 := rotr v.e 6 ^^^ rotr v.e 11 ^^^ rotr v.e 25
  let ch := (v.e &&& v.f) ^^^ (~~~v.e &&& v.g)
  let temp1 := v.h+s1+ch+ki+wi
  let s0 := rotr v.a 2 ^^^ rotr v.a 13 ^^^ rotr v.a 22
  let maj := (v.a &&& v.b) ^^^ (v.a &&& v.c) ^^^ (v.b &&& v.c)
  let temp2 := s0+maj
  ⟨temp1+temp2,v.a,v.b,v.c,v.d+temp1,v.e,v.f,v.g⟩

/-- The state that `transform` leaves. -/
@[irreducible] def mixBlock (state : Words) (data : ℕ → Byte) : Words :=
  let w := extendRounds 48 ((List.range 16).map fun i => read32 data (i*4))
  state.add ((List.range 64).foldl (fun v i => mix v k[i]! w[i]!) state)

def transform (ctx : Ctx) : Ctx := { ctx with state := mixBlock ctx.state ctx.block }

def sha256Init (block : ℕ → Byte) : Ctx where
  state := ⟨0x6a09e667,0xbb67ae85,0x3c6ef372,0xa54ff53a,0x510e527f,0x9b05688c,0x1f83d9ab,0x5be0cd19⟩
  bits := 0
  block := block
  used := 0

/-- A full block is hashed. -/
def flushFull (ctx : Ctx) : Ctx := if ctx.used = 64 then { transform ctx with used := 0 } else ctx

/-- The inner loop of `sha256_update`. -/
def copyIn (block : ℕ → Byte) (at_ : ℕ) : List Byte → ℕ → Byte
  | [] => block
  | b :: data => copyIn (Function.update block at_ b) (at_+1) data

/-- The loop of `sha256_update`; `none` is a loop that does not end. -/
def updateRounds : ℕ → Ctx → List Byte → Option Ctx
  | _,ctx,[] => some ctx
  | 0,_,_ => none
  | fuel+1,ctx,data =>
    let count := min (64-ctx.used) data.length
    let ctx := { ctx with
      block := copyIn ctx.block ctx.used (data.take count)
      used := ctx.used+count
      bits := ctx.bits+BitVec.ofNat 64 count*8 }
    updateRounds fuel (flushFull ctx) (data.drop count)

def sha256Update (ctx : Ctx) (data : List Byte) : Option Ctx := updateRounds (data.length+1) ctx data

/-- The padding loop of `sha256_final`. -/
def padRounds : ℕ → Ctx → Option Ctx
  | 0,_ => none
  | fuel+1,ctx =>
    if ctx.used = 56 then some ctx
    else
      let ctx := flushFull ctx
      padRounds fuel
        { ctx with block := Function.update ctx.block ctx.used 0,used := ctx.used+1 }

def sha256Final (ctx : Ctx) : Option (List Byte) := do
  let bits := ctx.bits
  let ctx ← padRounds 65
    { ctx with block := Function.update ctx.block ctx.used 0x80,used := ctx.used+1 }
  let ctx := transform { ctx with
    block := copyIn ctx.block 56 ((List.range 8).map fun i => (bits >>> (56-i*8)).setWidth 8) }
  return ctx.state.toList.flatMap write32

/-- One call of `sha256_update` for every part of the message. -/
def sha256 (block : ℕ → Byte) (parts : List (List Byte)) : Option (List Byte) := do
  sha256Final (← parts.foldlM sha256Update (sha256Init block))

/-! ### The standard -/

namespace Fips

/-- The largest number below `2^n` whose power `e` is at most `x`, bit by bit. -/
def root (e x : ℕ) : ℕ → ℕ → ℕ
  | 0,acc => acc
  | n+1,acc => root e x n (if (acc+2^n)^e ≤ x then acc+2^n else acc)

@[irreducible] def primes : List ℕ :=
  (List.range 312).filter fun p => 2 ≤ p && (List.range p).all fun d => d < 2 || p % d != 0

/-- The first 32 bits of the fractional part of the `e`-th root of `p`. -/
def fraction (e p : ℕ) : Word := BitVec.ofNat 32 (root e (p*2^(32*e)) 40 0)

/-- The constants: from the cube roots of the first 64 primes. -/
def K (t : ℕ) : Word := fraction 3 primes[t]!

def ch (x y z : Word) : Word := (x &&& y) ^^^ (~~~x &&& z)
def maj (x y z : Word) : Word := (x &&& y) ^^^ (x &&& z) ^^^ (y &&& z)
def bigSigma0 (x : Word) : Word := x.rotateRight 2 ^^^ x.rotateRight 13 ^^^ x.rotateRight 22
def bigSigma1 (x : Word) : Word := x.rotateRight 6 ^^^ x.rotateRight 11 ^^^ x.rotateRight 25
def sigma0 (x : Word) : Word := x.rotateRight 7 ^^^ x.rotateRight 18 ^^^ (x >>> 3)
def sigma1 (x : Word) : Word := x.rotateRight 17 ^^^ x.rotateRight 19 ^^^ (x >>> 10)

/-- The initial hash value: from the square roots of the first eight primes. -/
def initial : Words :=
  let H i := fraction 2 primes[i]!
  ⟨H 0,H 1,H 2,H 3,H 4,H 5,H 6,H 7⟩

/-- Word `t` of a block. -/
def M (block : List Byte) (t : ℕ) : Word :=
  NetBytes.of32 block[4*t]! block[4*t+1]! block[4*t+2]! block[4*t+3]!

/-- The message schedule. -/
def W (block : List Byte) (t : ℕ) : Word :=
  if t < 16 then M block t
  else sigma1 (W block (t-2))+W block (t-7)+sigma0 (W block (t-15))+W block (t-16)

def step (block : List Byte) (v : Words) (t : ℕ) : Words :=
  let T1 := v.h+bigSigma1 v.e+ch v.e v.f v.g+K t+W block t
  let T2 := bigSigma0 v.a+maj v.a v.b v.c
  ⟨T1+T2,v.a,v.b,v.c,v.d+T1,v.e,v.f,v.g⟩

def compress (H : Words) (block : List Byte) : Words :=
  ((List.range 64).foldl (step block) H).add H

/-- The message, a one bit, zeros up to 56 bytes of a block, and the length in bits. -/
def pad (m : List Byte) : List Byte :=
  m ++ [0x80] ++ List.replicate ((119-m.length % 64) % 64) 0 ++
    (List.range 8).map fun i => (BitVec.ofNat 64 (8*m.length)).extractLsb' (56-8*i) 8

/-- The hash value after the whole blocks of `m`. -/
def hashBlocks (H : Words) (m : List Byte) : Words :=
  (List.range (m.length/64)).foldl (fun H i => compress H ((m.drop (64*i)).take 64)) H

def digest (m : List Byte) : List Byte :=
  (hashBlocks initial (pad m)).toList.flatMap NetBytes.be32

end Fips

open Fips

theorem k_eq : k = (primes.take 64).map (fraction 3) := by decide +kernel

theorem sha256Init_state (block : ℕ → Byte) : (sha256Init block).state = initial := by
  have h : (sha256Init fun _ => 0).state = initial := by decide +kernel
  exact h

theorem shiftLeft_or_toNat (a : Byte) {b : Word} {n : ℕ} (hb : b.toNat < 2^n) (hn : n ≤ 24) :
    (a.setWidth 32 <<< n ||| b).toNat = a.toNat*2^n+b.toNat := by
  have hlt : a.toNat*2^n < 2^32 := calc
    a.toNat*2^n < 2^8*2^n := Nat.mul_lt_mul_of_pos_right a.isLt (Nat.two_pow_pos n)
    _ = 2^(8+n) := (Nat.pow_add 2 8 n).symm
    _ ≤ 2^32 := Nat.pow_le_pow_right (by decide) (by omega)
  have ha : (a.setWidth 32).toNat = a.toNat := BitVec.toNat_setWidth_of_le (by decide)
  rw [BitVec.toNat_or,BitVec.toNat_shiftLeft,ha,Nat.shiftLeft_eq,Nat.mod_eq_of_lt hlt,
    ← Nat.shiftLeft_eq,Nat.shiftLeft_add_eq_or_of_lt hb]

theorem read32_eq (data : ℕ → Byte) (i : ℕ) :
    read32 data i = NetBytes.of32 (data i) (data (i+1)) (data (i+2)) (data (i+3)) := by
  have h1 := (data (i+1)).isLt
  have h2 := (data (i+2)).isLt
  have h3 : ((data (i+3)).setWidth 32).toNat < 2^8 := by
    rw [BitVec.toNat_setWidth_of_le (by decide)]
    exact (data (i+3)).isLt
  have hlow := shiftLeft_or_toNat (data (i+2)) h3 (by decide)
  have hmid := shiftLeft_or_toNat (data (i+1)) (hlow.trans_lt (by omega : _ < 2^16)) (by decide)
  apply BitVec.eq_of_toNat_eq
  rw [NetBytes.of32_toNat,read32,BitVec.or_assoc,BitVec.or_assoc,
    shiftLeft_or_toNat _ (hmid.trans_lt (by omega)) le_rfl,hmid,hlow,
    BitVec.toNat_setWidth_of_le (by decide)]
  omega

theorem byte_eq {w : ℕ} (x : BitVec w) (n : ℕ) : (x >>> n).setWidth 8 = x.extractLsb' n 8 := by
  apply BitVec.eq_of_getLsbD_eq
  intro i hi
  simp [hi]

theorem write32_eq (x : Word) : write32 x = NetBytes.be32 x := by
  rw [write32,NetBytes.be32,byte_eq,byte_eq,byte_eq,← byte_eq x 0]
  rfl

/-- The first `n` bytes of a block. -/
def first (block : ℕ → Byte) (n : ℕ) : List Byte := (List.range n).map block

theorem M_first (block : ℕ → Byte) {t : ℕ} (ht : t < 16) :
    M (first block 64) t = read32 block (t*4) := by
  have hget (i : ℕ) (hi : i < 64) : (first block 64)[i]! = block i := by
    simp [first,hi]
  rw [read32_eq,M,hget _ (by omega),hget _ (by omega),hget _ (by omega),hget _ (by omega),
    Nat.mul_comm]

/-- The in-place loop computes the schedule. -/
theorem extendRounds_eq (block : List Byte) (n : ℕ) {t : ℕ} (ht : 16 ≤ t) :
    extendRounds n ((List.range t).map (W block)) = (List.range (t+n)).map (W block) := by
  induction n generalizing t with
  | zero => rfl
  | succ n ih =>
    have hget (i : ℕ) (hi : i < t) : ((List.range t).map (W block))[i]! = W block i := by
      simp [hi]
    have hnext : W block t = W block (t-16)+sigma0 (W block (t-15))+W block (t-7)+
        sigma1 (W block (t-2)) := by
      rw [W,if_neg (by omega)]
      ac_rfl
    rw [extendRounds,← Nat.add_assoc,Nat.add_right_comm,← ih (by omega),List.range_succ,List.map_append]
    simp only [List.length_map,List.length_range,List.map_singleton,hnext]
    rw [hget _ (by omega),hget _ (by omega),hget _ (by omega),hget _ (by omega)]
    rfl

theorem k_getElem {t : ℕ} (ht : t < 64) : k[t]! = K t := by
  have hlen : primes.length = 64 := by decide +kernel
  rw [k_eq,K,List.take_of_length_le hlen.le]
  simp [hlen,ht]

theorem mixBlock_eq (H : Words) (block : ℕ → Byte) :
    mixBlock H block = compress H (first block 64) := by
  have hw : (List.range 16).map (fun i => read32 block (i*4)) =
      (List.range 16).map (W (first block 64)) := by
    refine List.map_congr_left fun i hi => ?_
    rw [List.mem_range] at hi
    rw [W,if_pos hi,M_first _ hi]
  have hmix (v : Words) (t : ℕ) (ht : t ∈ List.range 64) :
      mix v k[t]! ((List.range (16+48)).map (W (first block 64)))[t]! =
        step (first block 64) v t := by
    rw [List.mem_range] at ht
    rw [k_getElem ht,show ((List.range (16+48)).map (W (first block 64)))[t]! = W (first block 64) t by
      simp [ht]]
    rfl
  rw [mixBlock,compress,Words.add_comm,hw,extendRounds_eq _ _ le_rfl,List.foldl_ext _ _ _ hmix]

/-! ### Blocks and buffer -/

-- A bare `rfl` compares the contexts and starts to evaluate the rounds.
theorem transform_bits (ctx : Ctx) : (transform ctx).bits = ctx.bits := by
  cases ctx
  rw [transform]

theorem hashBlocks_snoc {H : Words} {a c : List Byte} (ha : a.length % 64 = 0)
    (hc : c.length = 64) : hashBlocks H (a ++ c) = compress (hashBlocks H a) c := by
  have hlen : (a ++ c).length/64 = a.length/64+1 := by
    rw [List.length_append]
    omega
  have hlast : ((a ++ c).drop (64*(a.length/64))).take 64 = c := by
    rw [show 64*(a.length/64) = a.length by omega,List.drop_left,List.take_of_length_le hc.le]
  rw [hashBlocks,hlen,List.range_succ,List.foldl_append,List.foldl_cons,List.foldl_nil,hlast]
  refine congrArg (compress · c) (List.foldl_ext _ _ _ fun H i hi => ?_)
  rw [List.mem_range] at hi
  rw [List.drop_append_of_le_length (by omega),
    List.take_append_of_le_length (by rw [List.length_drop]; omega)]

theorem first_copyIn (data : List Byte) (block : ℕ → Byte) (n : ℕ) :
    first (copyIn block n data) (n+data.length) = first block n ++ data := by
  induction data generalizing block n with
  | nil => simp [copyIn]
  | cons c data ih =>
    have hold : first (Function.update block n c) n = first block n := by
      refine List.map_congr_left fun i hi => Function.update_of_ne ?_ _ _
      exact (List.mem_range.1 hi).ne
    have hnew : first (Function.update block n c) (n+1) = first block n ++ [c] := by
      rw [← hold,first,List.range_succ,List.map_append,List.map_singleton,Function.update_self]
      rfl
    rw [copyIn,List.length_cons,Nat.add_comm data.length,← Nat.add_assoc,ih,hnew,List.append_assoc]
    rfl

/-- The context after the whole blocks `a`, with the bytes `b` in its block. -/
structure Holds (ctx : Ctx) (a b : List Byte) : Prop where
  blocks : a.length % 64 = 0
  state : ctx.state = hashBlocks initial a
  buffer : first ctx.block ctx.used = b

variable {ctx : Ctx} {a b m : List Byte}

namespace Holds

theorem used (h : Holds ctx a b) : ctx.used = b.length := by
  rw [← h.buffer,first,List.length_map,List.length_range]

theorem write (h : Holds ctx a b) (data : List Byte) (bits : BitVec 64) :
    Holds ⟨ctx.state,bits,copyIn ctx.block ctx.used data,ctx.used+data.length⟩ a (b ++ data) :=
  ⟨h.blocks,h.state,by rw [first_copyIn,h.buffer]⟩

theorem flushFull (h : Holds ctx a b) (hused : ctx.used ≤ 64) :
    ∃ a' b',Holds (flushFull ctx) a' b' ∧ a' ++ b' = a ++ b ∧
      (Sha256.flushFull ctx).used = ctx.used % 64 ∧ (Sha256.flushFull ctx).bits = ctx.bits := by
  have hlen := h.used
  have hblocks := h.blocks
  by_cases hfull : ctx.used = 64
  · rw [Sha256.flushFull,if_pos hfull]
    refine ⟨a ++ b,[],⟨by rw [List.length_append]; omega,?_,rfl⟩,List.append_nil _,?_,transform_bits ctx⟩
    · rw [hashBlocks_snoc hblocks (by omega),← h.state,← h.buffer,hfull,← mixBlock_eq,transform]
    · simp only [hfull,Nat.mod_self]
  · rw [Sha256.flushFull,if_neg hfull]
    exact ⟨a,b,h,rfl,by omega,rfl⟩

end Holds

/-- The context after the message `m`. -/
structure Message (ctx : Ctx) (m : List Byte) : Prop where
  room : ctx.used < 64
  bits : ctx.bits = BitVec.ofNat 64 (8*m.length)
  parts : ∃ a b,Holds ctx a b ∧ a ++ b = m

theorem updateRounds_message {fuel : ℕ} {data : List Byte} (hfuel : data.length < fuel)
    (h : Message ctx m) : ∃ ctx',updateRounds fuel ctx data = some ctx' ∧ Message ctx' (m ++ data) := by
  induction fuel generalizing ctx m data with
  | zero => omega
  | succ fuel ih =>
    by_cases hd : data = []
    · subst hd
      exact ⟨ctx,rfl,by rwa [List.append_nil]⟩
    have hroom := h.room
    have hpos := List.length_pos_of_ne_nil hd
    obtain ⟨a,b,hholds,rfl⟩ := h.parts
    generalize hcount : min (64-ctx.used) data.length = count
    have htake : (data.take count).length = count := by
      rw [List.length_take]
      omega
    have hwrite := hholds.write (data.take count) (ctx.bits+BitVec.ofNat 64 count*8)
    rw [htake] at hwrite
    obtain ⟨a',b',hflush,heq,hused,hbits⟩ := hwrite.flushFull (by dsimp only; omega)
    have hmessage : Message (flushFull ⟨ctx.state,ctx.bits+BitVec.ofNat 64 count*8,
        copyIn ctx.block ctx.used (data.take count),ctx.used+count⟩) (a ++ b ++ data.take count) := by
      refine ⟨hused ▸ Nat.mod_lt _ (by decide),?_,a',b',hflush,by rw [heq,List.append_assoc]⟩
      rw [hbits,h.bits]
      apply BitVec.eq_of_toNat_eq
      simp [htake]
      omega
    have hrest := ih (by rw [List.length_drop]; omega : (data.drop count).length < fuel) hmessage
    rw [List.append_assoc (a ++ b),List.take_append_drop] at hrest
    rw [updateRounds]
    · rwa [hcount]
    · exact hd

theorem padRounds_holds {fuel z : ℕ} (hfuel : z < fuel) (hz : z < 64) (h : Holds ctx a b)
    (hused : ctx.used ≤ 64) (hend : (ctx.used+z) % 64 = 56) :
    ∃ ctx' a' b',padRounds fuel ctx = some ctx' ∧ ctx'.used = 56 ∧ Holds ctx' a' b' ∧
      a' ++ b' = a ++ b ++ List.replicate z 0 := by
  induction fuel generalizing ctx a b z with
  | zero => omega
  | succ fuel ih =>
    rw [padRounds]
    by_cases h56 : ctx.used = 56
    · obtain rfl : z = 0 := by omega
      exact ⟨ctx,a,b,if_pos h56,h56,h,by simp⟩
    · obtain ⟨z,rfl⟩ := Nat.exists_eq_add_one_of_ne_zero (by omega : z ≠ 0)
      rw [if_neg h56]
      obtain ⟨a',b',hflush,heq,hmod,-⟩ := h.flushFull hused
      obtain ⟨ctx',a'',b'',hpad,hused',hholds,heq'⟩ := @ih _ _ _ z (by omega) (by omega)
        (hflush.write [0] (flushFull ctx).bits) (by simp; omega) (by simp; omega)
      exact ⟨ctx',a'',b'',hpad,hused',hholds,by
        rw [heq',← List.append_assoc,heq,List.append_assoc,List.replicate_succ]; rfl⟩

theorem sha256Final_message (h : Message ctx m) : sha256Final ctx = some (digest m) := by
  have hroom := h.room
  obtain ⟨a,b,hholds,rfl⟩ := h.parts
  have hlen := hholds.used
  have hblocks := hholds.blocks
  obtain ⟨ctx',a',b',hpad,hused,hholds',heq⟩ := padRounds_holds
    (by omega : (119-(a ++ b).length % 64) % 64 < 65) (by omega) (hholds.write [0x80] ctx.bits)
    (by simp; omega) (by simp; omega)
  have hpad : padRounds 65
      { ctx with block := Function.update ctx.block ctx.used 0x80,used := ctx.used+1 } = some ctx' :=
    hpad
  have hbytes : ((List.range 8).map fun i => (ctx.bits >>> (56-i*8)).setWidth 8) =
      (List.range 8).map fun i => (BitVec.ofNat 64 (8*(a ++ b).length)).extractLsb' (56-8*i) 8 := by
    refine List.map_congr_left fun i _ => ?_
    rw [h.bits,byte_eq,Nat.mul_comm]
  have hlast := first_copyIn ((List.range 8).map fun i => (ctx.bits >>> (56-i*8)).setWidth 8)
    ctx'.block 56
  have hbuffer := hholds'.buffer
  rw [hused] at hbuffer
  rw [hbuffer,hbytes,List.length_map,List.length_range] at hlast
  have hlen' : b'.length = 56 := by rw [← hholds'.used,hused]
  simp only [sha256Final,hpad,Option.bind_eq_bind,Option.bind_some,transform]
  rw [mixBlock_eq,hbytes,hlast,hholds'.state,← hashBlocks_snoc hholds'.blocks (by simp [hlen']),
    ← List.append_assoc,heq,digest,pad,funext write32_eq]
  simp only [List.append_assoc]
  rfl

/-- The digest is that of the standard, however the message is split. -/
theorem sha256_eq_digest (block : ℕ → Byte) (parts : List (List Byte)) :
    sha256 block parts = some (digest parts.flatten) := by
  have hrun : ∀ ctx m,Message ctx m → ∃ ctx',parts.foldlM sha256Update ctx = some ctx' ∧
      Message ctx' (m ++ parts.flatten) := by
    induction parts with
    | nil => exact fun ctx m h => ⟨ctx,rfl,by simpa using h⟩
    | cons data parts ih =>
      intro ctx m h
      obtain ⟨ctx₁,hupdate,h₁⟩ := updateRounds_message (Nat.lt_succ_self data.length) h
      obtain ⟨ctx₂,hrest,h₂⟩ := ih ctx₁ (m ++ data) h₁
      refine ⟨ctx₂,?_,by simpa using h₂⟩
      rw [List.foldlM_cons,sha256Update,hupdate]
      exact hrest
  obtain ⟨ctx,hctx,h⟩ := hrun (sha256Init block) [] ⟨Nat.zero_lt_succ _,rfl,[],[],
    ⟨rfl,by simp [hashBlocks,sha256Init_state],rfl⟩,rfl⟩
  rw [sha256,hctx]
  exact sha256Final_message h

example : sha256 (fun _ => 0) [[0x61],[],[0x62,0x63]] = some [
    0xba,0x78,0x16,0xbf,0x8f,0x01,0xcf,0xea,0x41,0x41,0x40,0xde,0x5d,0xae,0x22,0x23,
    0xb0,0x03,0x61,0xa3,0x96,0x17,0x7a,0x9c,0xb4,0x10,0xff,0x61,0xf2,0x00,0x15,0xad] := by
  decide +kernel

end Sha256
end QuardStarNet
