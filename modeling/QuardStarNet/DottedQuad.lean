import QuardStarNet.DnsQuery
import QuardStarNet.HttpResponse
import Mathlib.Data.Nat.Digits.Defs

/-! Addresses as text: `ipaddr_from_str` takes the canonical dotted quads and no other string,
as long as the counter of the digits of an octet stays an `int`. -/
namespace QuardStarNet
namespace DottedQuad

open Dns (CString ipaddrFromBuf ipaddrFromBuf_four)
open Http (isDigit isDigit_iff decimalFrom decimal le_decimalFrom)
open NetBytes

inductive Fault
  | overflow
  deriving DecidableEq

def maxInt : ℕ := 2147483647

/-- A value of the unsigned accumulator; that it wraps counts as a fault. -/
def uint32 (x : ℕ) : Except Fault ℕ := if x < 4294967296 then .ok x else .error .overflow

/-- A value of the counter, an `int` that is never negative. -/
def int32 (x : ℕ) : Except Fault ℕ := if x ≤ maxInt then .ok x else .error .overflow

/-- The loop of `parse_octet` leaves the value, the number of digits and the cursor behind them;
`none` is the return from it. The string ends in the NUL that is no digit. -/
def octetDigits : List Byte → ℕ → ℕ → Except Fault (Option (ℕ × ℕ × List Byte))
  | [],number,digits => .ok (some (number,digits,[]))
  | c :: p,number,digits =>
    if 0x30 ≤ c ∧ c ≤ 0x39 then do
      let number ← uint32 (number*10+(c.toNat-0x30))
      if 255 < number then .ok none
      else do
        let digits ← int32 (digits+1)
        octetDigits p number digits
    else .ok (some (number,digits,c :: p))

def parseOctet (cursor : List Byte) : Except Fault (Option (Byte × List Byte)) := do
  match ← octetDigits cursor 0 0 with
  | none => .ok none
  | some (number,digits,p) =>
    if digits = 0 ∨ (1 < digits ∧ cursor.headD 0 = 0x30) then .ok none
    else .ok (some (BitVec.ofNat 8 number,p))

/-- The loop of `ipaddr_from_str` over the octets that are left. -/
def parseOctets : ℕ → List Byte → List Byte → Except Fault (Option (List Byte × List Byte))
  | 0,cursor,bytes => .ok (some (bytes,cursor))
  | n+1,cursor,bytes => do
    match ← parseOctet cursor with
    | none => .ok none
    | some (value,cursor) =>
      if n ≠ 0 then
        if cursor.headD 0 ≠ 0x2e then .ok none
        else parseOctets n cursor.tail (bytes ++ [value])
      else parseOctets n cursor (bytes ++ [value])

def ipaddrFromStr (dest : Option IpAddr) (str : Option CString) :
    Except Fault (NetErr × Option IpAddr) :=
  match dest,str with
  | some _,some str => do
    match ← parseOctets 4 str.bytes [] with
    | none => .ok (.param,dest)
    | some (bytes,cursor) =>
      if cursor.headD 0 ≠ 0 then .ok (.param,dest) else .ok (.ok,some (ipaddrFromBuf bytes))
  | _,_ => .ok (.param,dest)

/-! ### Numerals -/

/-- The decimal numeral of an octet, without leading zeros. -/
def numeral (b : Byte) : List Byte :=
  if b = 0 then [0x30]
  else ((Nat.digits 10 b.toNat).map fun d => BitVec.ofNat 8 (0x30+d)).reverse

theorem numeral_spec : ∀ b : Byte,
    (numeral b).all isDigit ∧ numeral b ≠ [] ∧ decimal (numeral b) = b.toNat ∧
      (1 < (numeral b).length → (numeral b).headD 0 ≠ 0x30) := by
  decide +kernel

theorem decimal_eq_ofDigits (ds : List Byte) :
    decimal ds = Nat.ofDigits 10 (ds.map fun c => c.toNat-0x30).reverse := by
  induction ds using List.reverseRecOn with
  | nil => rfl
  | append_singleton ds c ih =>
    have hstep : decimal (ds ++ [c]) = decimal ds*10+(c.toNat-0x30) := by
      simp only [decimal,decimalFrom,List.foldl_append,List.foldl_cons,List.foldl_nil]
    rw [hstep,ih,List.map_append,List.reverse_append,List.map_singleton,List.reverse_singleton,
      List.singleton_append,Nat.ofDigits_cons]
    omega

theorem ofNat_digit {c : Byte} (hc : isDigit c = true) : BitVec.ofNat 8 (0x30+(c.toNat-0x30)) = c := by
  have h := (isDigit_iff c).1 hc
  apply BitVec.eq_of_toNat_eq
  rw [BitVec.toNat_ofNat]
  omega

/-- A digit string without a leading zero is the numeral of its value. -/
theorem eq_numeral {ds : List Byte} (hds : ∀ c ∈ ds,isDigit c = true) (hne : ds ≠ [])
    (hzero : 1 < ds.length → ds.headD 0 ≠ 0x30) (hle : decimal ds ≤ 255) :
    ds = numeral (BitVec.ofNat 8 (decimal ds)) := by
  obtain ⟨c,tail,rfl⟩ := List.exists_cons_of_ne_nil hne
  by_cases hc : c = 0x30
  · have htail : tail = [] := by
      by_contra hn
      exact hzero (by simpa using List.length_pos_of_ne_nil hn) hc
    rw [hc,htail]
    decide
  · have hdig := (isDigit_iff c).1 (hds c (by simp))
    have hval : c.toNat-0x30 ≠ 0 := by
      intro h
      exact hc (BitVec.eq_of_toNat_eq (by simp; omega))
    have hdigits := Nat.digits_ofDigits 10 (by decide)
      ((c :: tail).map fun c => c.toNat-0x30).reverse
      (by
        intro d hd
        obtain ⟨b,hb,rfl⟩ := List.mem_map.1 (List.mem_reverse.1 hd)
        have := (isDigit_iff b).1 (hds b hb)
        omega)
      (fun _ => by simpa using hval)
    rw [← decimal_eq_ofDigits] at hdigits
    have hn : (BitVec.ofNat 8 (decimal (c :: tail))).toNat = decimal (c :: tail) := by
      rw [BitVec.toNat_ofNat]
      omega
    have hpos : BitVec.ofNat 8 (decimal (c :: tail)) ≠ 0 := by
      intro h
      rw [h] at hn
      have := le_decimalFrom (0*10+(c.toNat-0x30)) tail
      have hd : decimal (c :: tail) = decimalFrom (0*10+(c.toNat-0x30)) tail := rfl
      simp at hn
      omega
    rw [numeral,if_neg hpos,hn,hdigits,List.map_reverse,List.reverse_reverse,List.map_map]
    refine (List.map_id _).symm.trans (List.map_congr_left fun b hb => ?_)
    exact (ofNat_digit (hds b hb)).symm

/-- A numeral that no further digit follows is the digits at the front of the string. -/
theorem takeWhile_numeral (b : Byte) {rest : List Byte} (hr : isDigit (rest.headD 0) = false) :
    (numeral b ++ rest).takeWhile isDigit = numeral b ∧
      (numeral b ++ rest).dropWhile isDigit = rest := by
  have hall := List.all_eq_true.1 (numeral_spec b).1
  have hrest : rest.takeWhile isDigit = [] ∧ rest.dropWhile isDigit = rest := by
    cases rest with
    | nil => exact ⟨rfl,rfl⟩
    | cons c rest => simp [show isDigit c = false from hr]
  rw [List.takeWhile_append_of_pos hall,List.dropWhile_append_of_pos hall,hrest.1,hrest.2]
  simp

/-! ### One octet -/

/-- The counter leaves the range of `int` before the value shows that the octet is too large. -/
def Overlong (s : List Byte) : Prop :=
  maxInt < (s.takeWhile isDigit).length ∧ decimal ((s.takeWhile isDigit).take (maxInt+1)) ≤ 255

theorem octetDigits_eq {k number digits : ℕ} (s : List Byte) (hn : number ≤ 255)
    (hk : digits+k = maxInt) :
    octetDigits s number digits =
      if k < (s.takeWhile isDigit).length ∧
          decimalFrom number ((s.takeWhile isDigit).take (k+1)) ≤ 255 then .error .overflow
      else if 255 < decimalFrom number (s.takeWhile isDigit) then .ok none
      else .ok (some (decimalFrom number (s.takeWhile isDigit),
        digits+(s.takeWhile isDigit).length,s.dropWhile isDigit)) := by
  induction s generalizing k number digits with
  | nil => simp [octetDigits,decimalFrom,Nat.not_lt.2 hn]
  | cons c s ih =>
    cases hc : isDigit c with
    | false =>
      have hguard : ¬((0x30 : Byte) ≤ c ∧ c ≤ 0x39) := by simpa [isDigit] using hc
      rw [octetDigits,if_neg hguard]
      simp [hc,decimalFrom,Nat.not_lt.2 hn]
    | true =>
      have hguard : (0x30 : Byte) ≤ c ∧ c ≤ 0x39 := by simpa [isDigit] using hc
      have hdig := (isDigit_iff c).1 hc
      have hfrom : ∀ l,decimalFrom number (c :: l) = decimalFrom (number*10+(c.toNat-0x30)) l :=
        fun _ => rfl
      have hround : octetDigits (c :: s) number digits =
          if 255 < number*10+(c.toNat-0x30) then .ok none
          else (int32 (digits+1)).bind (octetDigits s (number*10+(c.toNat-0x30))) := by
        rw [octetDigits,if_pos hguard,uint32,if_pos (by omega)]
        rfl
      rw [hround,List.takeWhile_cons_of_pos hc,List.dropWhile_cons_of_pos hc,List.take_succ_cons,
        hfrom,hfrom,List.length_cons]
      have hmono := fun l => le_decimalFrom (number*10+(c.toNat-0x30)) l
      by_cases hbig : 255 < number*10+(c.toNat-0x30)
      · rw [if_pos hbig,if_neg fun h => absurd (lt_of_lt_of_le hbig (hmono _)) (Nat.not_lt.2 h.2),
          if_pos (lt_of_lt_of_le hbig (hmono _))]
      · rw [if_neg hbig,int32]
        cases k with
        | zero =>
          rw [if_neg (by omega),if_pos ⟨by omega,by simpa [decimalFrom] using Nat.not_lt.1 hbig⟩]
          rfl
        | succ k =>
          rw [if_pos (by omega),Except.bind,ih (Nat.not_lt.1 hbig) (by omega : digits+1+k = maxInt)]
          simp only [Nat.add_lt_add_iff_right,Nat.add_assoc,Nat.add_comm 1]

/-- What the digits at the front of a string make of the octet. -/
def Canonical (ds : List Byte) : Prop :=
  ds ≠ [] ∧ (1 < ds.length → ds.headD 0 ≠ 0x30) ∧ decimal ds ≤ 255

instance (ds : List Byte) : Decidable (Canonical ds) := by
  unfold Canonical
  infer_instance

theorem parseOctet_overlong {s : List Byte} (h : Overlong s) : parseOctet s = .error .overflow := by
  rw [parseOctet,octetDigits_eq s (by decide) (Nat.zero_add maxInt),if_pos (by exact h)]
  rfl

theorem parseOctet_eq {s : List Byte} (h : ¬Overlong s) :
    parseOctet s = .ok (if Canonical (s.takeWhile isDigit)
      then some (BitVec.ofNat 8 (decimal (s.takeWhile isDigit)),s.dropWhile isDigit) else none) := by
  have hhead : 1 < (s.takeWhile isDigit).length → s.headD 0 = (s.takeWhile isDigit).headD 0 := by
    cases s with
    | nil => exact fun _ => rfl
    | cons c s => cases hc : isDigit c <;> simp [hc]
  rw [parseOctet,octetDigits_eq s (by decide) (Nat.zero_add maxInt),if_neg (by exact h),← decimal,
    Nat.zero_add]
  by_cases hbig : 255 < decimal (s.takeWhile isDigit)
  · rw [if_pos hbig,if_neg fun hcan => absurd hbig (Nat.not_lt.2 hcan.2.2)]
    rfl
  · rw [if_neg hbig]
    change (if _ then _ else _) = _
    by_cases hbad : (s.takeWhile isDigit).length = 0 ∨
        (1 < (s.takeWhile isDigit).length ∧ s.headD 0 = 0x30)
    · rw [if_pos hbad,if_neg]
      rintro ⟨hne,hzero,-⟩
      obtain hnil | ⟨hlen,h30⟩ := hbad
      · exact hne (List.length_eq_zero_iff.1 hnil)
      · exact hzero hlen ((hhead hlen).symm.trans h30)
    · rw [if_neg hbad,if_pos]
      refine ⟨fun hnil => hbad (.inl (by rw [hnil]; rfl)),fun hlen h30 => ?_,Nat.not_lt.1 hbig⟩
      exact hbad (.inr ⟨hlen,(hhead hlen).trans h30⟩)

/-- An octet is the numeral at the front of the string, up to the last of its digits. -/
theorem parseOctet_ok {s : List Byte} (h : ¬Overlong s) :
    ∃ r,parseOctet s = .ok r ∧ ∀ b rest,r = some (b,rest) ↔
      s = numeral b ++ rest ∧ isDigit (rest.headD 0) = false := by
  refine ⟨_,parseOctet_eq h,fun b rest => ⟨fun hr => ?_,?_⟩⟩
  · split at hr
    · rename_i hcan
      obtain ⟨rfl,rfl⟩ := Prod.mk.inj (Option.some.inj hr)
      rw [← eq_numeral (List.all_eq_true.1 List.all_takeWhile) hcan.1 hcan.2.1 hcan.2.2]
      refine ⟨List.takeWhile_append_dropWhile.symm,?_⟩
      have hd := List.head?_dropWhile_not isDigit s
      cases heq : s.dropWhile isDigit with
      | nil => decide
      | cons c t => simpa [heq] using hd
    · cases hr
  · rintro ⟨rfl,hb⟩
    obtain ⟨-,hne,hval,hzero⟩ := numeral_spec b
    rw [(takeWhile_numeral b hb).1,(takeWhile_numeral b hb).2,hval,
      if_pos ⟨hne,hzero,by have := b.isLt; omega⟩,BitVec.ofNat_toNat,BitVec.setWidth_eq]

/-! ### Four octets -/

/-- Octets with dots between them. -/
def dots : List Byte → List Byte
  | [] => []
  | [b] => numeral b
  | b :: bs => numeral b ++ 0x2e :: dots bs

/-- One of the next `n` octets, behind canonical ones, is overlong. -/
def OverlongIn : ℕ → List Byte → Prop
  | 0,_ => False
  | n+1,s => Overlong s ∨ ∃ b t,s = numeral b ++ 0x2e :: t ∧ OverlongIn n t

theorem dots_cons (b : Byte) {bs : List Byte} (h : bs ≠ []) :
    dots (b :: bs) = numeral b ++ 0x2e :: dots bs := by
  cases bs with
  | nil => exact absurd rfl h
  | cons c bs => rfl

theorem not_overlong_numeral (b : Byte) {rest : List Byte} (hr : isDigit (rest.headD 0) = false) :
    ¬Overlong (numeral b ++ rest) := by
  rintro ⟨hlen,-⟩
  rw [(takeWhile_numeral b hr).1] at hlen
  have : ∀ b : Byte,(numeral b).length ≤ 3 := by decide +kernel
  have := this b
  rw [maxInt] at hlen
  omega

/-- The loop over `n` octets faults on an overlong one; otherwise it takes `n` octets with dots
between them from the front of the string. -/
theorem parseOctets_spec (n : ℕ) (s bytes : List Byte) :
    (OverlongIn n s → parseOctets n s bytes = .error .overflow) ∧
    (¬OverlongIn n s → ∃ r,parseOctets n s bytes = .ok r ∧ ∀ out rest,r = some (out,rest) ↔
      ∃ bs,bs.length = n ∧ out = bytes ++ bs ∧ s = dots bs ++ rest ∧
        (0 < n → isDigit (rest.headD 0) = false)) := by
  induction n generalizing s bytes with
  | zero =>
    refine ⟨fun h => h.elim,fun _ => ⟨_,rfl,fun out rest => ?_⟩⟩
    constructor
    · rintro h
      obtain ⟨rfl,rfl⟩ := Prod.mk.inj (Option.some.inj h)
      exact ⟨[],rfl,(List.append_nil _).symm,rfl,fun h => absurd h (lt_irrefl 0)⟩
    · rintro ⟨bs,hlen,rfl,rfl,-⟩
      rw [List.length_eq_zero_iff.1 hlen,List.append_nil]
      rfl
  | succ n ih =>
    by_cases hlong : Overlong s
    · refine ⟨fun _ => by rw [parseOctets,parseOctet_overlong hlong]; rfl,fun h => absurd (.inl hlong) h⟩
    obtain ⟨r,hr,hiff⟩ := parseOctet_ok hlong
    -- both readings of the string start with the numeral that `parse_octet` finds
    have hdot : ∀ b t,s = numeral b ++ 0x2e :: t → r = some (b,0x2e :: t) :=
      fun b t h => (hiff b _).2 ⟨h,rfl⟩
    have hdots : ∀ b bs rest,s = dots (b :: bs) ++ rest → isDigit (rest.headD 0) = false →
        r = some (b,if bs = [] then rest else 0x2e :: (dots bs ++ rest)) := by
      intro b bs rest h hrest
      by_cases hbs : bs = []
      · rw [if_pos hbs]
        subst hbs
        exact (hiff b rest).2 ⟨h,hrest⟩
      · rw [if_neg hbs]
        exact hdot b _ (by rw [h,dots_cons b hbs,List.append_assoc,List.cons_append])
    cases r with
    | none =>
      refine ⟨fun h => ?_,fun _ => ⟨none,by rw [parseOctets,hr]; rfl,fun out rest => ?_⟩⟩
      · obtain h | ⟨b,t,hs,-⟩ := h
        · exact absurd h hlong
        · cases hdot b t hs
      · refine ⟨fun h => (by cases h),?_⟩
        rintro ⟨bs,hlen,-,hs,hrest⟩
        obtain ⟨b,bs,rfl⟩ := List.exists_cons_of_length_eq_add_one hlen
        cases hdots b bs rest hs (hrest n.succ_pos)
    | some p =>
      obtain ⟨b,cursor⟩ := p
      obtain ⟨hs,hcur⟩ := (hiff b cursor).1 rfl
      have hround : parseOctets (n+1) s bytes =
          if n ≠ 0 then
            if cursor.headD 0 ≠ 0x2e then .ok none
            else parseOctets n cursor.tail (bytes ++ [b])
          else parseOctets n cursor (bytes ++ [b]) := by
        rw [parseOctets,hr]
        rfl
      rw [hround]
      by_cases hn : n = 0
      · subst hn
        rw [if_neg (not_not.2 rfl)]
        refine ⟨fun h => ?_,fun _ => ⟨_,rfl,fun out rest => ⟨fun h => ?_,?_⟩⟩⟩
        · obtain h | ⟨_,_,_,h⟩ := h
          · exact absurd h hlong
          · exact h.elim
        · obtain ⟨rfl,rfl⟩ := Prod.mk.inj (Option.some.inj h)
          exact ⟨[b],rfl,rfl,hs,fun _ => hcur⟩
        · rintro ⟨bs,hlen,rfl,hs',hrest⟩
          obtain ⟨b',rfl⟩ := List.length_eq_one_iff.1 hlen
          obtain ⟨rfl,rfl⟩ := Prod.mk.inj (Option.some.inj (hdots b' [] rest hs' (hrest one_pos)))
          rfl
      · rw [if_pos hn]
        by_cases hc : cursor.headD 0 = 0x2e
        · obtain ⟨t,rfl⟩ : ∃ t,cursor = 0x2e :: t := by
            cases cursor with
            | nil => exact absurd hc (by decide)
            | cons c t => exact ⟨t,congrArg (· :: t) hc⟩
          rw [if_neg (not_not.2 hc)]
          have hlong' : OverlongIn (n+1) s ↔ OverlongIn n t := by
            constructor
            · rintro (h | ⟨b',t',hs',h⟩)
              · exact absurd h hlong
              · obtain ⟨rfl,ht⟩ := Prod.mk.inj (Option.some.inj (hdot b' t' hs'))
                rwa [(List.cons.inj ht).2]
            · exact fun h => .inr ⟨b,t,hs,h⟩
          obtain ⟨herr,hok⟩ := ih t (bytes ++ [b])
          refine ⟨fun h => herr (hlong'.1 h),fun h => ?_⟩
          obtain ⟨r,hr,hiff'⟩ := hok fun ht => h (hlong'.2 ht)
          refine ⟨r,hr,fun out rest => (hiff' out rest).trans ⟨?_,?_⟩⟩
          · rintro ⟨bs,hlen,rfl,rfl,hrest⟩
            have hbs : bs ≠ [] := fun h => hn (by rw [← hlen,h]; rfl)
            refine ⟨b :: bs,by rw [List.length_cons,hlen],by simp,?_,
              fun _ => hrest (Nat.pos_of_ne_zero hn)⟩
            rw [hs,dots_cons b hbs,List.append_assoc,List.cons_append]
          · rintro ⟨bs,hlen,rfl,hs',hrest⟩
            obtain ⟨b',bs,rfl⟩ := List.exists_cons_of_length_eq_add_one hlen
            have hbs : bs ≠ [] := fun h => hn (by simpa [h] using hlen.symm)
            have h := hdots b' bs rest hs' (hrest n.succ_pos)
            rw [if_neg hbs] at h
            obtain ⟨rfl,ht⟩ := Prod.mk.inj (Option.some.inj h)
            exact ⟨bs,by simpa using hlen,by simp,(List.cons.inj ht).2,fun _ => hrest n.succ_pos⟩
        · rw [if_pos hc]
          refine ⟨fun h => ?_,fun _ => ⟨none,rfl,fun out rest => ⟨fun h => (by cases h),?_⟩⟩⟩
          · obtain h | ⟨b',t',hs',-⟩ := h
            · exact absurd h hlong
            · obtain ⟨-,rfl⟩ := Prod.mk.inj (Option.some.inj (hdot b' t' hs'))
              exact absurd rfl hc
          · rintro ⟨bs,hlen,-,hs',hrest⟩
            obtain ⟨b',bs,rfl⟩ := List.exists_cons_of_length_eq_add_one hlen
            have hbs : bs ≠ [] := fun h => hn (by simpa [h] using hlen.symm)
            have h := hdots b' bs rest hs' (hrest n.succ_pos)
            rw [if_neg hbs] at h
            obtain ⟨-,rfl⟩ := Prod.mk.inj (Option.some.inj h)
            exact absurd rfl hc

/-- The canonical text of four octets. -/
def quad (a b c d : Byte) : List Byte := dots [a,b,c,d]

/-- The canonical text of an address. -/
def printed (addr : IpAddr) : CString :=
  ⟨dots (be32 addr),by
    have hnum : ∀ b : Byte,0#8 ∉ numeral b := by decide +kernel
    simp [be32,dots,hnum]⟩

/-- The string is taken if and only if it is a canonical dotted quad, whose octets are then stored;
a string that is refused leaves the address as it was. -/
def Recognised (dest : IpAddr) (str : CString) : Prop :=
  ∃ code addr,ipaddrFromStr (some dest) (some str) = .ok (code,some addr) ∧
    (code = .ok ↔ ∃ a b c d,str.bytes = quad a b c d) ∧
    (∀ a b c d,str.bytes = quad a b c d → addr = of32 a b c d) ∧ (code ≠ .ok → addr = dest)

theorem ipaddrFromStr_overlong {str : CString} (h : OverlongIn 4 str.bytes) (dest : IpAddr) :
    ipaddrFromStr (some dest) (some str) = .error .overflow := by
  rw [ipaddrFromStr,(parseOctets_spec 4 str.bytes []).1 h]
  rfl

theorem not_overlongIn_dots (n : ℕ) (bs : List Byte) : ¬OverlongIn n (dots bs) := by
  induction n generalizing bs with
  | zero => exact id
  | succ n ih =>
    cases bs with
    | nil =>
      rintro (h | ⟨b,t,h,-⟩)
      · exact absurd h.1 (Nat.not_lt_zero _)
      · simp [dots] at h
    | cons b bs =>
      obtain ⟨rest,hdots,hrest⟩ : ∃ rest,dots (b :: bs) = numeral b ++ rest ∧
          (rest = [] ∨ rest = 0x2e :: dots bs) := by
        by_cases hbs : bs = []
        · exact ⟨[],by rw [hbs,List.append_nil]; rfl,.inl rfl⟩
        · exact ⟨_,dots_cons b hbs,.inr rfl⟩
      have hdigit : isDigit (rest.headD 0) = false := by
        obtain rfl | rfl := hrest <;> rfl
      rw [hdots]
      rintro (h | ⟨b',t,h,hlong⟩)
      · exact not_overlong_numeral b hdigit h
      · have ht := congrArg (List.dropWhile isDigit) h
        rw [(takeWhile_numeral b hdigit).2,(@takeWhile_numeral b' (0x2e :: t) rfl).2] at ht
        obtain rfl | rfl := hrest
        · cases ht
        · rw [← (List.cons.inj ht).2] at hlong
          exact ih bs hlong

theorem ipaddrFromStr_quad {str : CString} {a b c d : Byte} (h : str.bytes = quad a b c d)
    (dest : IpAddr) : ipaddrFromStr (some dest) (some str) = .ok (.ok,some (of32 a b c d)) := by
  have hlong : ¬OverlongIn 4 str.bytes := h ▸ not_overlongIn_dots 4 [a,b,c,d]
  obtain ⟨r,hr,hiff⟩ := (parseOctets_spec 4 str.bytes []).2 hlong
  obtain rfl := (hiff [a,b,c,d] []).2 ⟨[a,b,c,d],rfl,rfl,by simpa [quad] using h,fun _ => rfl⟩
  rw [ipaddrFromStr,hr,← ipaddrFromBuf_four]
  rfl

theorem ipaddrFromStr_refused {str : CString} (hlong : ¬OverlongIn 4 str.bytes)
    (hquad : ¬∃ a b c d,str.bytes = quad a b c d) (dest : IpAddr) :
    ipaddrFromStr (some dest) (some str) = .ok (.param,some dest) := by
  obtain ⟨r,hr,hiff⟩ := (parseOctets_spec 4 str.bytes []).2 hlong
  rw [ipaddrFromStr,hr]
  cases r with
  | none => rfl
  | some p =>
    obtain ⟨out,rest⟩ := p
    obtain ⟨bs,hlen,-,hs,-⟩ := (hiff out rest).1 rfl
    have hend : rest.headD 0 ≠ 0 := by
      intro h
      cases rest with
      | nil =>
        obtain ⟨a,b,c,d,rfl⟩ := List.length_eq_four.1 hlen
        exact hquad ⟨a,b,c,d,by rw [hs,List.append_nil]; rfl⟩
      | cons c rest =>
        refine str.noNul ?_
        rw [hs,← show c = 0 from h]
        simp
    exact if_pos hend

/-- A string for which an address is stored is the text of that address. -/
theorem eq_printed {str : CString} {dest addr : IpAddr}
    (h : ipaddrFromStr (some dest) (some str) = .ok (.ok,some addr)) : str = printed addr := by
  by_cases hlong : OverlongIn 4 str.bytes
  · rw [ipaddrFromStr_overlong hlong] at h
    cases h
  by_cases hquad : ∃ a b c d,str.bytes = quad a b c d
  · obtain ⟨a,b,c,d,hq⟩ := hquad
    rw [ipaddrFromStr_quad hq] at h
    obtain rfl := Option.some.inj (Prod.mk.inj (Except.ok.inj h)).2
    have hbytes : str.bytes = dots (be32 (of32 a b c d)) :=
      hq.trans (congrArg dots (be32_of32 a b c d).symm)
    obtain ⟨bytes,_⟩ := str
    obtain rfl : bytes = _ := hbytes
    rfl
  · rw [ipaddrFromStr_refused hlong hquad] at h
    cases h

/-- 2^31 zeros and three further octets. -/
def zeros : CString :=
  ⟨List.replicate (maxInt+1) 0x30 ++ [0x2e,0x30,0x2e,0x30,0x2e,0x30],by
    rw [List.mem_append,List.mem_replicate]
    decide⟩

theorem overlong_replicate {rest : List Byte} (hr : rest.takeWhile isDigit = []) :
    Overlong (List.replicate (maxInt+1) 0x30 ++ rest) := by
  have hzero : ∀ n,decimal (List.replicate n 0x30) = 0 := by
    intro n
    induction n with
    | zero => rfl
    | succ n ih => exact ih
  have htake : (List.replicate (maxInt+1) (0x30 : Byte) ++ rest).takeWhile isDigit =
      List.replicate (maxInt+1) 0x30 := by
    rw [List.takeWhile_append_of_pos fun c hc => by rw [List.eq_of_mem_replicate hc]; rfl,hr,
      List.append_nil]
  rw [Overlong,htake,List.length_replicate,List.take_of_length_le (by rw [List.length_replicate]),
    hzero]
  exact ⟨Nat.lt_succ_self maxInt,Nat.zero_le 255⟩

end DottedQuad
end QuardStarNet
