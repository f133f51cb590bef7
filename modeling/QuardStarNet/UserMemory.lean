import QuardStarNet.Mappings
import QuardStarNet.NetBase

/-! Copies between the kernel and a user process. Every byte is translated through the process's
page table, which lies in the same memory that the copy writes. -/

namespace QuardStarNet
namespace Paging

/-- Byte `k` of a word in little endian order. -/
def byteOf (w : Word) (k : ℕ) : Byte := (w >>> (8*k)).setWidth 8

def setByte (w : Word) (k : ℕ) (b : Byte) : Word :=
  (w &&& ~~~((0xff : Word) <<< (8*k))) ||| (b.setWidth 64 <<< (8*k))

/-- The word of its frame that holds a byte. -/
def wordIndex (pa : BitVec 64) : Fin 512 := Fin.ofNat 512 (pa.toNat/8)

def satpSv39 : BitVec 64 := 8 <<< 60
def makeSatp (pagetable : PhysPageNum) : BitVec 64 := satpSv39 ||| pagetable
def makePagetable (satp : BitVec 64) : PhysPageNum := satp &&& (satpSv39-1)

/-- `PTE_V | PTE_U | required`. -/
def userFlags (required : BitVec 8) : Word := (pteV ||| pteU ||| required).setWidth 64

/-- `net_recv_args`. -/
structure RecvArgs where
  data : BitVec 64
  length : BitVec 64
  flags : BitVec 32

/-- The number in little endian order. -/
def ofLe (n : ℕ) (bytes : List Byte) : BitVec n :=
  bytes.foldr (fun b acc => (acc <<< 8) ||| b.setWidth n) 0

def RecvArgs.ofBytes (bytes : List Byte) : RecvArgs :=
  ⟨ofLe 64 (bytes.take 8),ofLe 64 ((bytes.drop 8).take 8),ofLe 32 ((bytes.drop 16).take 4)⟩

namespace Frames

def loadByte (s : Frames) (pa : BitVec 64) : Byte :=
  byteOf (s.mem (floorPhys pa) (wordIndex pa)) (pa.toNat % 8)

def storeByte (s : Frames) (pa : BitVec 64) (b : Byte) : Frames :=
  s.store (floorPhys pa) (wordIndex pa)
    (setByte (s.mem (floorPhys pa) (wordIndex pa)) (pa.toNat % 8) b)

/-- The physical address of a user byte, 0 for none. `root` is the table of the current process. -/
def translateUserPtr (s : Frames) (root : PhysPageNum) (uaddr : BitVec 64) (required : BitVec 8) :
    BitVec 64 :=
  if uaddr = 0 then 0
  else if maxva ≤ uaddr then 0
  else
    match s.findPte (makePagetable (makeSatp root)) (floorVirts (virtAddrFromSizeT uaddr)) with
    | none => 0
    | some (ppn,i) =>
      if s.mem ppn i &&& userFlags required ≠ userFlags required then 0
      else pte2pa (s.mem ppn i)+(uaddr &&& (pageSize-1))

/-- The result and the bytes written to the kernel's buffer. -/
def copyFromUser (s : Frames) (root : PhysPageNum) : BitVec 64 → ℕ → ℤ × List Byte
  | _,0 => (0,[])
  | src,len+1 =>
    let p := s.translateUserPtr root src pteR
    if p = 0 then (-1,[])
    else
      let (code,rest) := s.copyFromUser root (src+1) len
      (code,s.loadByte p :: rest)

/-- `bytes` are the `len` bytes of the kernel's buffer. -/
def copyToUser (s : Frames) (root : PhysPageNum) : BitVec 64 → List Byte → ℤ × Frames
  | _,[] => (0,s)
  | dst,b :: bytes =>
    let p := s.translateUserPtr root dst pteW
    if p = 0 then (-1,s) else (s.storeByte p b).copyToUser root (dst+1) bytes

def userRangeCheck (s : Frames) (root : PhysPageNum) (required : BitVec 8) : BitVec 64 → ℕ → ℤ
  | _,0 => 0
  | address,length+1 =>
    if s.translateUserPtr root address required = 0 then -1
    else s.userRangeCheck root required (address+1) length

/-- The loop of `copy_user_cstr` with `n` places left before the last one. -/
def cstrRounds (s : Frames) (root : PhysPageNum) : ℕ → BitVec 64 → List Byte → ℤ × List Byte
  | 0,_,dst => (0,dst ++ [0])
  | n+1,src,dst =>
    let p := s.translateUserPtr root src pteR
    if p = 0 then (-1,dst)
    else
      let b := s.loadByte p
      if b = 0 then (0,dst ++ [b]) else s.cstrRounds root n (src+1) (dst ++ [b])

/-- The result and what was written to `dst`. -/
def copyUserCstr (s : Frames) (root : PhysPageNum) (max : ℕ) (src : BitVec 64) : ℤ × List Byte :=
  if max = 0 then (-1,[]) else s.cstrRounds root (max-1) src []

/-- `__sys_exec`; `exec` is called with the string in `app_name`. -/
def sysExec (s : Frames) (root : PhysPageNum) (exec : List Byte → ℤ) (name : BitVec 64) : ℤ :=
  let (code,appName) := s.copyUserCstr root 128 name
  if code < 0 then -1 else exec (appName.takeWhile (· ≠ 0))

/-- `__sys_recv`. `recv` is `net_socket_recv` on the handle: it is given the room in `data` and
returns its result, the bytes it put into `data` and the memory. -/
def sysRecv (s : Frames) (root : PhysPageNum) (recv : Frames → ℕ → ℤ × List Byte × Frames)
    (userArgs : BitVec 64) : ℤ × Frames :=
  let (code,bytes) := s.copyFromUser root userArgs 24
  let args := RecvArgs.ofBytes bytes
  if code < 0 ∨ args.flags ≠ 0 ∨ args.length = 0 ∨ 512 < args.length ∨ args.data = 0 ∨
      s.userRangeCheck root pteW args.data args.length.toNat < 0 then (NetErr.param.code,s)
  else
    let (result,data,s) := recv s args.length.toNat
    if result < 0 then (result,s)
    else
      let (code,s) := s.copyToUser root args.data (data.take result.toNat)
      if code < 0 then (NetErr.param.code,s) else (result,s)

/-! ### What a process sees -/

/-- The physical byte behind a user address that is mapped with a right. Address 0 and addresses
from `MAXVA` on count as unmapped. -/
def backing (s : Frames) (r : PhysPageNum) (required : BitVec 8) (a : BitVec 64) :
    Option (BitVec 64) :=
  if a = 0 ∨ maxva ≤ a then none
  else (s.lookup r (floorVirts a)).bind fun e =>
    if e &&& userFlags required = userFlags required then
      some (physAddrFromPhysPageNum (pageTableEntryPpn e)+BitVec.ofNat 64 (a.toNat % 4096))
    else none

def Mapped (s : Frames) (r : PhysPageNum) (required : BitVec 8) (a : BitVec 64) : Prop :=
  (s.backing r required a).isSome

/-- The byte at a user address. -/
def sees (s : Frames) (r : PhysPageNum) (required : BitVec 8) (a : BitVec 64) : Option Byte :=
  (s.backing r required a).map s.loadByte

end Frames

/-- The table of a live process among the tables `R`: its user pages lie on distinct frames, none
of them a table. -/
structure UserSpace (s : Frames) (R : Set PhysPageNum) (r : PhysPageNum) : Prop where
  root : r ∈ R
  small : r < 0x100000000000
  reserved : ∀ v e,s.lookup r v = some e → e &&& userFlags 0 = userFlags 0 → e.toNat < 2^54
  frame : ∀ v e,s.lookup r v = some e → e &&& userFlags 0 = userFlags 0 → pageTableEntryPpn e ≠ 0
  separate : ∀ v e,s.lookup r v = some e → e &&& userFlags 0 = userFlags 0 →
    ¬s.IsTable R (pageTableEntryPpn e)
  distinct : ∀ v w e e',s.lookup r v = some e → s.lookup r w = some e' →
    e &&& userFlags 0 = userFlags 0 → e' &&& userFlags 0 = userFlags 0 →
    pageTableEntryPpn e = pageTableEntryPpn e' → v.toNat % 2^27 = w.toNat % 2^27

variable {s s' : Frames} {R : Set PhysPageNum} {r : PhysPageNum} {required : BitVec 8}
  {a b pa : BitVec 64}

/-! ### Bytes of memory -/

theorem getLsbD_ff (n : ℕ) : (0xff : Word).getLsbD n = decide (n < 8) := by
  rw [show (0xff : Word) = (BitVec.allOnes 8).setWidth 64 from rfl,BitVec.getLsbD_setWidth,
    BitVec.getLsbD_allOnes,Bool.and_eq_right_iff_imp]
  simp only [decide_eq_true_eq]
  omega

theorem byteOf_setByte {w : Word} {j k : ℕ} {c : Byte} (hj : j < 8) :
    byteOf (setByte w k c) j = if j = k then c else byteOf w j := by
  apply BitVec.eq_of_getLsbD_eq
  intro i hi
  have hin : 8*j+i < 64 := by omega
  simp only [byteOf,setByte,BitVec.getLsbD_setWidth,BitVec.getLsbD_ushiftRight,BitVec.getLsbD_or,
    BitVec.getLsbD_and,BitVec.getLsbD_not,BitVec.getLsbD_shiftLeft,getLsbD_ff,hi,hin,
    decide_true,Bool.true_and]
  split
  · subst j
    simp [hi,show i < 64 by omega]
  · rcases (by omega : 8*j+i < 8*k ∨ 8*k+8 ≤ 8*j+i) with hout | hout
    · simp [hout,hi]
    · simp [hi,show ¬8*j+i-8*k < 8 by omega,BitVec.getLsbD_of_ge c _ (by omega : 8 ≤ 8*j+i-8*k)]

theorem floorPhys_wordIndex_inj (hf : floorPhys b = floorPhys pa) (hw : wordIndex b = wordIndex pa)
    (hk : b.toNat % 8 = pa.toNat % 8) : b = pa := by
  have hf := congrArg BitVec.toNat hf
  have hw := congrArg Fin.val hw
  rw [floorPhys_toNat,floorPhys_toNat] at hf
  simp only [wordIndex,Fin.val_ofNat] at hw
  exact BitVec.eq_of_toNat_eq (by omega)

theorem loadByte_storeByte {c : Byte} :
    (s.storeByte pa c).loadByte b = if b = pa then c else s.loadByte b := by
  rw [Frames.loadByte,Frames.storeByte,Frames.store_mem]
  by_cases hword : floorPhys b = floorPhys pa ∧ wordIndex b = wordIndex pa
  · rw [hword.1,hword.2,RadixTree.store_same,byteOf_setByte (by omega),Frames.loadByte,
      hword.1,hword.2]
    by_cases hk : b.toNat % 8 = pa.toNat % 8
    · rw [if_pos hk,if_pos (floorPhys_wordIndex_inj hword.1 hword.2 hk)]
    · rw [if_neg hk,if_neg fun h => hk (by rw [h])]
  · rw [RadixTree.store_entry_of_ne (by tauto),if_neg fun h => hword (by simp [h]),Frames.loadByte]

/-! ### Translation -/

theorem makePagetable_makeSatp (h : r < 0x100000000000) : makePagetable (makeSatp r) = r := by
  have hr : r.toNat < 0x100000000000 := h
  apply BitVec.eq_of_toNat_eq
  rw [makePagetable,makeSatp,BitVec.toNat_and,BitVec.toNat_or,
    show (satpSv39-1).toNat = 2^63-1 from rfl,show satpSv39.toNat = 2^63 from rfl,
    Nat.and_two_pow_sub_one_eq_mod,Nat.or_mod_two_pow,Nat.mod_self,Nat.zero_or,
    Nat.mod_eq_of_lt (by omega)]

theorem virtAddrFromSizeT_of_lt (h : a.toNat < 2^38) : virtAddrFromSizeT a = a := by
  apply BitVec.eq_of_toNat_eq
  rw [virtAddrFromSizeT,BitVec.toNat_and,show (0x7fffffffff : BitVec 64).toNat = 2^39-1 from rfl,
    Nat.and_two_pow_sub_one_eq_mod,Nat.mod_eq_of_lt (by omega)]

theorem userFlags_mono {e : Word} (h : e &&& userFlags required = userFlags required) :
    e &&& userFlags 0 = userFlags 0 := by
  have hle : ∀ q : BitVec 8,userFlags 0 = userFlags q &&& userFlags 0 := by decide
  rw [hle required,← BitVec.and_assoc,h]

theorem placed_toNat (e : Word) (a : BitVec 64) :
    (physAddrFromPhysPageNum (pageTableEntryPpn e)+BitVec.ofNat 64 (a.toNat % 4096)).toNat =
      (pageTableEntryPpn e).toNat*4096+a.toNat % 4096 := by
  have hlt : (pageTableEntryPpn e).toNat < 2^44 := by
    rw [pageTableEntryPpn_toNat]
    exact Nat.mod_lt _ (by decide)
  rw [BitVec.toNat_add,shiftLeft_toNat hlt,BitVec.toNat_ofNat]
  omega

theorem pte2pa_placed {e : Word} (h : e.toNat < 2^54) (a : BitVec 64) :
    pte2pa e+(a &&& (pageSize-1)) =
      physAddrFromPhysPageNum (pageTableEntryPpn e)+BitVec.ofNat 64 (a.toNat % 4096) := by
  apply BitVec.eq_of_toNat_eq
  rw [placed_toNat,pte2pa,BitVec.toNat_add,BitVec.toNat_shiftLeft,BitVec.toNat_ushiftRight,
    Nat.shiftRight_eq_div_pow,Nat.shiftLeft_eq,BitVec.toNat_and,pageTableEntryPpn_toNat,
    show (pageSize-1).toNat = 2^12-1 from rfl,Nat.and_two_pow_sub_one_eq_mod]
  omega

theorem backing_eq_some (h : s.backing r required a = some pa) :
    a ≠ 0 ∧ a.toNat < 2^38 ∧ ∃ e,s.lookup r (floorVirts a) = some e ∧
      e &&& userFlags 0 = userFlags 0 ∧
      pa.toNat = (pageTableEntryPpn e).toNat*4096+a.toNat % 4096 := by
  rw [Frames.backing] at h
  split at h
  · cases h
  · rename_i ha
    obtain ⟨e,he,h⟩ := Option.bind_eq_some_iff.1 h
    split at h
    · cases h
      exact ⟨fun h => ha (.inl h),Nat.not_le.1 fun h => ha (.inr h),e,he,userFlags_mono ‹_›,
        placed_toNat e a⟩
    · cases h

namespace UserSpace

theorem translateUserPtr_eq (h : UserSpace s R r) :
    s.translateUserPtr r a required = (s.backing r required a).getD 0 := by
  rw [Frames.translateUserPtr,Frames.backing,makePagetable_makeSatp h.small]
  by_cases h0 : a = 0
  · rw [if_pos h0,if_pos (.inl h0),Option.getD_none]
  by_cases hmax : maxva ≤ a
  · rw [if_neg h0,if_pos hmax,if_pos (.inr hmax),Option.getD_none]
  rw [if_neg h0,if_neg hmax,if_neg (by tauto),virtAddrFromSizeT_of_lt (Nat.not_le.1 hmax)]
  cases hfind : s.findPte r (floorVirts a) with
  | none => simp [Frames.lookup,hfind]
  | some place =>
    have hlook : s.lookup r (floorVirts a) = some (s.mem place.1 place.2) := by
      rw [Frames.lookup,hfind,Option.map_some]
    rw [hlook,Option.bind_some]
    by_cases hflags : s.mem place.1 place.2 &&& userFlags required = userFlags required
    · rw [if_pos hflags,Option.getD_some]
      simp only [hflags,ne_eq,not_true_eq_false,if_false]
      exact pte2pa_placed (h.reserved _ _ hlook (userFlags_mono hflags)) a
    · simp [hflags]

theorem backing_ne_zero (h : UserSpace s R r) (hp : s.backing r required a = some pa) : pa ≠ 0 := by
  obtain ⟨-,-,e,he,hu,hpa⟩ := backing_eq_some hp
  have hframe : (pageTableEntryPpn e).toNat ≠ 0 := fun h0 =>
    h.frame _ _ he hu (BitVec.eq_of_toNat_eq h0)
  rintro rfl
  simp at hpa
  omega

theorem backing_separate (h : UserSpace s R r) (hp : s.backing r required a = some pa) :
    ¬s.IsTable R (floorPhys pa) := by
  obtain ⟨-,-,e,he,hu,hpa⟩ := backing_eq_some hp
  have hframe : floorPhys pa = pageTableEntryPpn e := by
    apply BitVec.eq_of_toNat_eq
    rw [floorPhys_toNat]
    omega
  rw [hframe]
  exact h.separate _ _ he hu

/-- Distinct addresses have distinct bytes behind them. -/
theorem backing_inj (h : UserSpace s R r) (ha : s.backing r required a = some pa)
    (hb : s.backing r required b = some pa) : a = b := by
  obtain ⟨-,hlta,e,he,hue,hpa⟩ := backing_eq_some ha
  obtain ⟨-,hltb,e',he',hue',hpb⟩ := backing_eq_some hb
  have hframe : pageTableEntryPpn e = pageTableEntryPpn e' := BitVec.eq_of_toNat_eq (by omega)
  have hpage := h.distinct _ _ e e' he he' hue hue' hframe
  rw [floorVirts_toNat,floorVirts_toNat] at hpage
  apply BitVec.eq_of_toNat_eq
  rw [hframe] at hpa
  omega

theorem translate_none (h : UserSpace s R r) (hp : s.backing r required a = none) :
    s.translateUserPtr r a required = 0 := by rw [h.translateUserPtr_eq,hp,Option.getD_none]

theorem translate_some (h : UserSpace s R r) (hp : s.backing r required a = some pa) :
    s.translateUserPtr r a required = pa ∧ pa ≠ 0 := by
  rw [h.translateUserPtr_eq,hp,Option.getD_some]
  exact ⟨rfl,h.backing_ne_zero hp⟩

/-- A memory with the same tables. -/
theorem backing_congr (h : UserSpace s R r) (hm : ∀ x,s.IsTable R x → s'.mem x = s.mem x) :
    s'.backing r required a = s.backing r required a := by
  rw [Frames.backing,Frames.backing,lookup_congr hm h.root]

theorem congr (h : UserSpace s R r) (hm : ∀ x,s.IsTable R x → s'.mem x = s.mem x) :
    UserSpace s' R r := by
  have hlook := lookup_congr hm h.root
  refine ⟨h.root,h.small,?_,?_,?_,?_⟩
  · simpa only [hlook] using h.reserved
  · simpa only [hlook] using h.frame
  · simpa only [hlook,Frames.IsTable,RadixTree.Node.congr hm] using h.separate
  · simpa only [hlook] using h.distinct

theorem storeByte_tables (h : UserSpace s R r) (hp : s.backing r required a = some pa) {c : Byte} :
    ∀ x,s.IsTable R x → (s.storeByte pa c).mem x = s.mem x := by
  intro x hx
  rw [Frames.storeByte,Frames.store_mem,RadixTree.store_of_ne]
  rintro rfl
  exact h.backing_separate hp hx

end UserSpace

/-! ### The loops -/

theorem add_ofNat_succ (a : BitVec 64) (i : ℕ) :
    a+BitVec.ofNat 64 (i+1) = a+1+BitVec.ofNat 64 i := by
  rw [Nat.add_comm i,BitVec.ofNat_add,← BitVec.add_assoc]
  rfl

/-- The range starts with its first address. -/
theorem forall_range_succ {P : BitVec 64 → Prop} {n : ℕ} :
    (∀ i < n+1,P (a+BitVec.ofNat 64 i)) ↔ P a ∧ ∀ i < n,P (a+1+BitVec.ofNat 64 i) := by
  constructor
  · intro h
    exact ⟨by simpa using h 0 (by omega),fun i hi => add_ofNat_succ a i ▸ h (i+1) (by omega)⟩
  · rintro ⟨h0,h⟩ i hi
    cases i with
    | zero => simpa using h0
    | succ i => exact add_ofNat_succ a i ▸ h i (by omega)

/-- The call returns 0 when the condition holds, and -1 otherwise. -/
def Settles (code : ℤ) (P : Prop) : Prop := code = 0 ∧ P ∨ code = -1 ∧ ¬P

theorem userRangeCheck_settles (h : UserSpace s R r) {n : ℕ} :
    Settles (s.userRangeCheck r required a n)
      (∀ i < n,s.Mapped r required (a+BitVec.ofNat 64 i)) := by
  induction n generalizing a with
  | zero => exact .inl ⟨rfl,by simp⟩
  | succ n ih =>
    rw [Frames.userRangeCheck,forall_range_succ]
    cases hp : s.backing r required a with
    | none =>
      rw [if_pos (h.translate_none hp)]
      exact .inr ⟨rfl,by simp [Frames.Mapped,hp]⟩
    | some pa =>
      obtain ⟨htr,hne⟩ := h.translate_some hp
      rw [htr,if_neg hne]
      simpa [Frames.Mapped,hp] using @ih (a+1)

/-- `copy_from_user` returns 0 exactly when all bytes are readable, and then hands over what the
process sees; it depends on nothing but the tables and the bytes behind readable pages. -/
structure ReadsUser (s : Frames) (R : Set PhysPageNum) (r : PhysPageNum) (a : BitVec 64) (n : ℕ) :
    Prop where
  code : Settles (s.copyFromUser r a n).1 (∀ i < n,s.Mapped r pteR (a+BitVec.ofNat 64 i))
  seen : (s.copyFromUser r a n).1 = 0 → (s.copyFromUser r a n).2.length = n ∧
    ∀ i < n,(s.copyFromUser r a n).2[i]? = s.sees r pteR (a+BitVec.ofNat 64 i)
  confined : ∀ s' : Frames,(∀ x,s.IsTable R x → s'.mem x = s.mem x) →
    (∀ i < n,∀ pa,s.backing r pteR (a+BitVec.ofNat 64 i) = some pa →
      s'.loadByte pa = s.loadByte pa) → s'.copyFromUser r a n = s.copyFromUser r a n

theorem copyFromUser_spec (h : UserSpace s R r) {n : ℕ} : ReadsUser s R r a n := by
  induction n generalizing a with
  | zero => exact ⟨.inl ⟨rfl,by simp⟩,by simp [Frames.copyFromUser],fun _ _ _ => rfl⟩
  | succ n ih =>
    obtain ⟨hcode,hbytes,hconf⟩ := @ih (a+1)
    cases hp : s.backing r pteR a with
    | none =>
      have htr := h.translate_none hp
      have hout : s.copyFromUser r a (n+1) = (-1,[]) := by rw [Frames.copyFromUser,if_pos htr]
      refine ⟨?_,by simp [hout],fun s' hm _ => ?_⟩
      · rw [hout,forall_range_succ]
        exact .inr ⟨rfl,by simp [Frames.Mapped,hp]⟩
      · rw [hout,Frames.copyFromUser,(h.congr hm).translate_none (by rw [h.backing_congr hm,hp]),
          if_pos rfl]
    | some pa =>
      obtain ⟨htr,hne⟩ := h.translate_some hp
      have hout : s.copyFromUser r a (n+1) = ((s.copyFromUser r (a+1) n).1,
          s.loadByte pa :: (s.copyFromUser r (a+1) n).2) := by
        rw [Frames.copyFromUser,htr,if_neg hne]
      refine ⟨?_,fun h0 => ?_,fun s' hm hb => ?_⟩
      · rw [hout,forall_range_succ]
        simpa [Frames.Mapped,hp] using hcode
      · rw [hout] at h0 ⊢
        obtain ⟨hlen,hsees⟩ := hbytes h0
        refine ⟨by rw [List.length_cons,hlen],fun i hi => ?_⟩
        cases i with
        | zero => simp [Frames.sees,hp]
        | succ i => rw [add_ofNat_succ,List.getElem?_cons_succ,hsees i (by omega)]
      · rw [forall_range_succ (P := fun x => ∀ pa,s.backing r pteR x = some pa →
          s'.loadByte pa = s.loadByte pa)] at hb
        rw [hout,Frames.copyFromUser,((h.congr hm).translate_some (by rw [h.backing_congr hm,hp])).1,
          if_neg hne,hconf s' hm hb.2,hb.1 pa hp]

/-- A mapped range does not meet itself, since it would have to pass address 0. -/
theorem mapped_range_ne {n i : ℕ} (hi : i < n)
    (h : ∀ i < n,s.Mapped r required (a+1+BitVec.ofNat 64 i)) : a+1+BitVec.ofNat 64 i ≠ a := by
  intro heq
  have hwrap : (i+1) % 2^64 = 0 := by
    rw [← add_ofNat_succ] at heq
    have := congrArg BitVec.toNat heq
    rw [BitVec.toNat_add,BitVec.toNat_ofNat] at this
    omega
  have hnull : a+1+BitVec.ofNat 64 (2^64-1-a.toNat) = 0 := by
    apply BitVec.eq_of_toNat_eq
    rw [← add_ofNat_succ,BitVec.toNat_add,BitVec.toNat_ofNat]
    simp
    omega
  have := h (2^64-1-a.toNat) (by omega)
  rw [hnull] at this
  cases this

/-- `copy_to_user` returns 0 exactly when all bytes are writable; the tables stay, only bytes behind
writable pages of the range change, and after a copy that returns 0 they hold the buffer. -/
structure WritesUser (s : Frames) (R : Set PhysPageNum) (r : PhysPageNum) (a : BitVec 64)
    (bytes : List Byte) : Prop where
  code : Settles (s.copyToUser r a bytes).1
    (∀ i < bytes.length,s.Mapped r pteW (a+BitVec.ofNat 64 i))
  tables : ∀ x,s.IsTable R x → (s.copyToUser r a bytes).2.mem x = s.mem x
  confined : ∀ pa,(∀ i < bytes.length,s.backing r pteW (a+BitVec.ofNat 64 i) ≠ some pa) →
    (s.copyToUser r a bytes).2.loadByte pa = s.loadByte pa
  seen : (s.copyToUser r a bytes).1 = 0 → ∀ i < bytes.length,
    (s.copyToUser r a bytes).2.sees r pteW (a+BitVec.ofNat 64 i) = bytes[i]?

theorem copyToUser_spec (h : UserSpace s R r) {bytes : List Byte} : WritesUser s R r a bytes := by
  induction bytes generalizing s a with
  | nil => exact ⟨.inl ⟨rfl,by simp⟩,fun _ _ => rfl,fun _ _ => rfl,by simp⟩
  | cons c bytes ih =>
    cases hp : s.backing r pteW a with
    | none =>
      have hout : s.copyToUser r a (c :: bytes) = (-1,s) := by
        rw [Frames.copyToUser,if_pos (h.translate_none hp)]
      refine ⟨?_,fun _ _ => by rw [hout],fun _ _ => by rw [hout],by simp [hout]⟩
      rw [hout,List.length_cons,forall_range_succ]
      exact .inr ⟨rfl,by simp [Frames.Mapped,hp]⟩
    | some p =>
      obtain ⟨htr,hne⟩ := h.translate_some hp
      have hout : s.copyToUser r a (c :: bytes) = (s.storeByte p c).copyToUser r (a+1) bytes := by
        rw [Frames.copyToUser,htr,if_neg hne]
      have hm := @UserSpace.storeByte_tables s R r pteW a p h hp c
      have hback : ∀ x,(s.storeByte p c).backing r pteW x = s.backing r pteW x :=
        fun x => h.backing_congr hm
      obtain ⟨hcode,hmem,hload,hsees⟩ := @ih (s.storeByte p c) (a+1) (h.congr hm)
      simp only [hback,Frames.Mapped] at hcode hload
      refine ⟨?_,fun x hx => ?_,fun pa hpa => ?_,fun h0 i hi => ?_⟩
      · rw [hout,List.length_cons,forall_range_succ]
        simpa [Frames.Mapped,hp] using hcode
      · rw [hout,hmem x ((RadixTree.Node.congr hm).2 hx),hm x hx]
      · rw [List.length_cons,
          forall_range_succ (P := fun x => s.backing r pteW x ≠ some pa),hp] at hpa
        rw [hout,hload pa hpa.2,loadByte_storeByte,if_neg fun h => hpa.1 (by rw [h])]
      · rw [hout] at h0 ⊢
        have hall := (hcode.resolve_right fun h => by omega).2
        rw [List.length_cons] at hi
        cases i with
        | zero =>
          have hlast := hload p fun j hj heq => mapped_range_ne hj hall (h.backing_inj heq hp)
          rw [loadByte_storeByte,if_pos rfl] at hlast
          rw [show a+BitVec.ofNat 64 0 = a from BitVec.add_zero a,Frames.sees,(h.congr hm).backing_congr hmem,
            hback,hp,Option.map_some,hlast,List.getElem?_cons_zero]
        | succ i => rw [add_ofNat_succ,List.getElem?_cons_succ,hsees h0 i (by omega)]

/-- What `user_range_check` accepted can be written later, while the mappings are the same. -/
theorem copyToUser_of_userRangeCheck (h : UserSpace s R r) (h' : UserSpace s' R r)
    (hsame : ∀ v,s'.lookup r v = s.lookup r v) {n : ℕ} (hcheck : 0 ≤ s.userRangeCheck r pteW a n)
    {bytes : List Byte} (hlen : bytes.length ≤ n) : (s'.copyToUser r a bytes).1 = 0 := by
  have hmapped := ((@userRangeCheck_settles s R r pteW a h n).resolve_right fun hc => by omega).2
  refine ((copyToUser_spec h').code.resolve_right fun hc => hc.2 fun i hi => ?_).1
  have := hmapped i (by omega)
  rwa [Frames.Mapped,Frames.backing,← hsame] at this

/-- `net_socket_recv` on memory `s`: it keeps the mappings and returns an error or the number of
bytes it put into `data`. -/
structure Receives (s : Frames) (R : Set PhysPageNum) (r : PhysPageNum) (n : ℕ)
    (out : ℤ × List Byte × Frames) : Prop where
  space : UserSpace out.2.2 R r
  same : ∀ v,out.2.2.lookup r v = s.lookup r v
  length : 0 ≤ out.1 → out.1 = out.2.1.length ∧ out.1 ≤ n

/-- `__sys_recv` refuses without calling `recv`, fails as `recv` does, or the process gets every
byte. -/
def RecvDelivers (s : Frames) (r : PhysPageNum) (recv : Frames → ℕ → ℤ × List Byte × Frames)
    (userArgs : BitVec 64) : Prop :=
  let args := RecvArgs.ofBytes (s.copyFromUser r userArgs 24).2
  let out := recv s args.length.toNat
  (∀ recv',s.sysRecv r recv' userArgs = (NetErr.param.code,s)) ∨
    (out.1 < 0 ∧ s.sysRecv r recv userArgs = (out.1,out.2.2)) ∨
    0 ≤ out.1 ∧ (s.sysRecv r recv userArgs).1 = out.1 ∧ ∀ i < out.2.1.length,
      (s.sysRecv r recv userArgs).2.sees r pteW (args.data+BitVec.ofNat 64 i) = out.2.1[i]?

theorem sysRecv_delivers (h : UserSpace s R r) {recv : Frames → ℕ → ℤ × List Byte × Frames}
    (hrecv : ∀ n,Receives s R r n (recv s n)) : RecvDelivers s r recv a := by
  simp only [RecvDelivers,Frames.sysRecv]
  split
  · exact .inl fun _ => rfl
  · rename_i hguard
    simp only [not_or,Int.not_lt] at hguard
    obtain ⟨-,-,-,-,-,hcheck⟩ := hguard
    generalize RecvArgs.ofBytes (s.copyFromUser r a 24).2 = args at hcheck ⊢
    obtain ⟨hspace,hsame,hlen⟩ := hrecv args.length.toNat
    generalize recv s args.length.toNat = out at hspace hsame hlen ⊢
    by_cases hneg : out.1 < 0
    · exact .inr (.inl ⟨hneg,by rw [if_pos hneg]⟩)
    · obtain ⟨heq,hle⟩ := hlen (by omega)
      have hcopy := copyToUser_of_userRangeCheck h hspace hsame hcheck
        (by omega : out.2.1.length ≤ _)
      have htake : out.2.1.take out.1.toNat = out.2.1 := List.take_of_length_le (by omega)
      refine .inr (.inr ⟨by omega,?_⟩)
      rw [if_neg hneg,htake,hcopy,if_neg (by decide)]
      exact ⟨rfl,(copyToUser_spec hspace).seen hcopy⟩

/-- Copies between kernel and user touch only the caller's user pages. -/
theorem user_copies_confined (h : UserSpace s R r) :
    (∀ a n,ReadsUser s R r a n) ∧ (∀ a bytes,WritesUser s R r a bytes) ∧
    (∀ a n s' bytes,s.userRangeCheck r pteW a n = 0 → UserSpace s' R r →
      (∀ v,s'.lookup r v = s.lookup r v) → bytes.length ≤ n →
      (s'.copyToUser r a bytes).1 = 0) ∧
    ∀ a recv,(∀ n,Receives s R r n (recv s n)) → RecvDelivers s r recv a :=
  ⟨fun _ _ => copyFromUser_spec h,fun _ _ => copyToUser_spec h,
    fun _ _ _ _ hcheck h' hsame hlen => copyToUser_of_userRangeCheck h h' hsame hcheck.ge hlen,
    fun _ _ hrecv => sysRecv_delivers h hrecv⟩

/-! ### Strings -/

/-- The readable bytes at an address start with `str`, which has no terminator. -/
def Frames.Starts (s : Frames) (r : PhysPageNum) (src : BitVec 64) (str : List Byte) : Prop :=
  (0 : Byte) ∉ str ∧ ∀ i < str.length,s.sees r pteR (src+BitVec.ofNat 64 i) = str[i]?

/-- The string a process passes. -/
def Frames.UserString (s : Frames) (r : PhysPageNum) (src : BitVec 64) (str : List Byte) : Prop :=
  s.Starts r src str ∧ s.sees r pteR (src+BitVec.ofNat 64 str.length) = some 0

/-- The string is copied whole or refused. -/
structure CopiesWhole (s : Frames) (r : PhysPageNum) (max : ℕ) (src : BitVec 64) : Prop where
  whole : (s.copyUserCstr r max src).1 = 0 → ∃ str,str.length < max ∧ s.UserString r src str ∧
    (s.copyUserCstr r max src).2 = str ++ [0]
  refused : (¬∃ str,str.length < max ∧ s.UserString r src str) → (s.copyUserCstr r max src).1 < 0

theorem Frames.Starts.cons {c : Byte} {str : List Byte} (hc : c ≠ 0)
    (hsees : s.sees r pteR a = some c) (h : s.Starts r (a+1) str) : s.Starts r a (c :: str) := by
  refine ⟨List.not_mem_cons_of_ne_of_not_mem hc.symm h.1,fun i hi => ?_⟩
  cases i with
  | zero => simpa using hsees
  | succ i =>
    rw [List.length_cons] at hi
    rw [add_ofNat_succ,List.getElem?_cons_succ,h.2 i (by omega)]

/-- The loop stops at the terminator, at an unreadable byte, or with the buffer full. -/
theorem cstrRounds_spec (h : UserSpace s R r) (n : ℕ) (src : BitVec 64) (dst : List Byte) :
    ∃ str,s.Starts r src str ∧
      (str.length = n ∧ s.cstrRounds r n src dst = (0,dst ++ (str ++ [0])) ∨
        str.length < n ∧ s.sees r pteR (src+BitVec.ofNat 64 str.length) = some 0 ∧
          s.cstrRounds r n src dst = (0,dst ++ (str ++ [0])) ∨
        str.length < n ∧ s.sees r pteR (src+BitVec.ofNat 64 str.length) = none ∧
          (s.cstrRounds r n src dst).1 = -1) := by
  induction n generalizing src dst with
  | zero => exact ⟨[],⟨by simp,by simp⟩,.inl ⟨rfl,rfl⟩⟩
  | succ n ih =>
    have hnil : s.Starts r src [] := ⟨by simp,by simp⟩
    cases hp : s.backing r pteR src with
    | none =>
      refine ⟨[],hnil,.inr (.inr ⟨by simp,by simp [Frames.sees,hp],?_⟩)⟩
      rw [Frames.cstrRounds,if_pos (h.translate_none hp)]
    | some pa =>
      obtain ⟨htr,hne⟩ := h.translate_some hp
      have hsees : s.sees r pteR src = some (s.loadByte pa) := by rw [Frames.sees,hp,Option.map_some]
      rw [Frames.cstrRounds,htr,if_neg hne]
      by_cases hnul : s.loadByte pa = 0
      · refine ⟨[],hnil,.inr (.inl ⟨by simp,by simpa [hnul] using hsees,?_⟩)⟩
        rw [if_pos hnul,hnul,List.nil_append]
      · obtain ⟨str,hstr,hcases⟩ := ih (src+1) (dst ++ [s.loadByte pa])
        refine ⟨s.loadByte pa :: str,hstr.cons hnul hsees,?_⟩
        rw [if_neg hnul,List.length_cons,add_ofNat_succ]
        simpa using hcases

/-- `copy_user_cstr` copies the string whole or refuses it exactly when the terminator or an
unreadable byte comes before the last place of the buffer, or the terminator is due there. -/
theorem copyUserCstr_whole_iff (h : UserSpace s R r) {max : ℕ} (hmax : 0 < max) (src : BitVec 64) :
    CopiesWhole s r max src ↔
      (∃ i < max-1,s.sees r pteR (src+BitVec.ofNat 64 i) = none ∨
        s.sees r pteR (src+BitVec.ofNat 64 i) = some 0) ∨
      s.sees r pteR (src+BitVec.ofNat 64 (max-1)) = some 0 := by
  have hcopy : s.copyUserCstr r max src = s.cstrRounds r (max-1) src [] := by
    rw [Frames.copyUserCstr,if_neg (by omega)]
  obtain ⟨str,hstr,⟨hlen,hout⟩ | ⟨hlen,hend,hout⟩ | ⟨hlen,hend,hout⟩⟩ :=
    cstrRounds_spec h (max-1) src []
  · rw [← hlen]
    constructor
    · intro hw
      obtain ⟨str',-,hstr',hout'⟩ := hw.whole (by rw [hcopy,hout])
      rw [hcopy,hout,List.nil_append] at hout'
      obtain rfl := List.append_cancel_right hout'
      exact .inr hstr'.2
    · rintro (⟨i,hi,hnul⟩ | hend)
      · rw [hstr.2 i hi] at hnul
        rcases hnul with hnul | hnul
        · exact absurd (List.getElem?_eq_none_iff.1 hnul) (by omega)
        · exact absurd (List.mem_of_getElem? hnul) hstr.1
      · exact ⟨fun _ => ⟨str,by omega,⟨hstr,hend⟩,by rw [hcopy,hout]; rfl⟩,
          fun hno => (hno ⟨str,by omega,hstr,hend⟩).elim⟩
  · refine ⟨fun _ => .inl ⟨_,hlen,.inr hend⟩,fun _ => ⟨fun _ => ?_,fun hno => ?_⟩⟩
    · exact ⟨str,by omega,⟨hstr,hend⟩,by rw [hcopy,hout]; rfl⟩
    · exact (hno ⟨str,by omega,hstr,hend⟩).elim
  · refine ⟨fun _ => .inl ⟨_,hlen,.inl hend⟩,fun _ => ⟨fun h0 => ?_,fun _ => ?_⟩⟩
    · rw [hcopy,hout] at h0
      cases h0
    · rw [hcopy,hout]
      decide

section OnePage

/-- Page 1 of the table at frame 1 is mapped to frame 4, where 128 letters and a terminator stand. -/
def onePage : Frames where
  mem x i :=
    if x = 1 ∧ i = 0 then pageTableEntryNew 2 pteV
    else if x = 2 ∧ i = 0 then pageTableEntryNew 3 pteV
    else if x = 3 ∧ i = 1 then pageTableEntryNew 4 (pteV ||| pteR ||| pteW ||| pteU)
    else if x = 4 ∧ i < 16 then 0x6161616161616161
    else 0
  start := 1
  stop := 5
  freelist := 0
  freePages := 0
  freeMap _ := false

theorem onePage_child {x y : PhysPageNum} {i : Fin 512} (h : pteChild (onePage.mem x i) = some y) :
    x = 1 ∧ i = 0 ∧ y = 2 ∨ x = 2 ∧ i = 0 ∧ y = 3 ∨ x = 3 ∧ i = 1 ∧ y = 4 ∨ x = 4 := by
  have hnew : pteChild (pageTableEntryNew 4 (pteV ||| pteR ||| pteW ||| pteU)) = some 4 := by decide
  simp only [onePage] at h
  split_ifs at h with h1 h2 h3 h4
  · rw [pteChild_new (by decide)] at h
    exact .inl ⟨h1.1,h1.2,(Option.some.inj h).symm⟩
  · rw [pteChild_new (by decide)] at h
    exact .inr (.inl ⟨h2.1,h2.2,(Option.some.inj h).symm⟩)
  · rw [hnew] at h
    exact .inr (.inr (.inl ⟨h3.1,h3.2,(Option.some.inj h).symm⟩))
  · exact .inr (.inr (.inr h4.1))
  · cases h

theorem onePage_table {p : List (Fin 512)} {x : PhysPageNum} (hp : p.length ≤ 2)
    (h : onePage.table 1 p = some x) : p = [] ∧ x = 1 ∨ p = [0] ∧ x = 2 ∨ p = [0,0] ∧ x = 3 := by
  match p,hp with
  | [],_ => exact .inl ⟨rfl,(Option.some.inj h).symm⟩
  | [i],_ =>
    rw [Frames.table,RadixTree.walk_cons,Option.bind_eq_some_iff] at h
    obtain ⟨y,hy,h⟩ := h
    cases h
    rcases onePage_child hy with ⟨-,rfl,rfl⟩ | ⟨h,-⟩ | ⟨h,-⟩ | h
    · exact .inr (.inl ⟨rfl,rfl⟩)
    all_goals cases h
  | [i,j],_ =>
    rw [Frames.table,RadixTree.walk_cons,Option.bind_eq_some_iff] at h
    obtain ⟨y,hy,h⟩ := h
    rcases onePage_child hy with ⟨-,rfl,rfl⟩ | ⟨h,-⟩ | ⟨h,-⟩ | h
    · rw [RadixTree.walk_cons,Option.bind_eq_some_iff] at h
      obtain ⟨z,hz,h⟩ := h
      cases h
      rcases onePage_child hz with ⟨h,-⟩ | ⟨-,rfl,rfl⟩ | ⟨h,-⟩ | h
      · cases h
      · exact .inr (.inr ⟨rfl,rfl⟩)
      all_goals cases h
    all_goals cases h

theorem onePage_lookup {v : VirtPageNum} {e : Word} (h : onePage.lookup 1 v = some e) :
    v.toNat % 2^27 = 1 ∧ e = pageTableEntryNew 4 (pteV ||| pteR ||| pteW ||| pteU) := by
  rw [Frames.lookup_eq,Frames.entry,Option.bind_eq_some_iff] at h
  obtain ⟨x,hx,h⟩ := h
  split_ifs at h with hv
  have hchild := onePage_child (if_pos hv)
  rcases onePage_table (indexes_length v).le hx with ⟨hp,-⟩ | ⟨hp,-⟩ | ⟨hp,rfl⟩
  · cases congrArg List.length hp
  · cases congrArg List.length hp
  have hi : (indexes v).2 = 1 := by
    rcases hchild with ⟨h,-⟩ | ⟨h,-⟩ | ⟨-,hi,-⟩ | h
    · cases h
    · cases h
    · exact hi
    · cases h
  rw [hi] at h
  exact ⟨(@indexes_inj v 1).1 (Prod.ext hp hi),(Option.some.inj h).symm⟩

theorem onePage_space : UserSpace onePage {1} 1 := by
  refine ⟨rfl,by decide,?_,?_,?_,?_⟩
  · rintro v e h -
    rw [(onePage_lookup h).2]
    decide
  · rintro v e h -
    rw [(onePage_lookup h).2]
    decide
  · rintro v e h - ⟨r,rfl,p,hp,hx⟩
    rw [(onePage_lookup h).2] at hx
    rcases onePage_table hp hx with ⟨-,h⟩ | ⟨-,h⟩ | ⟨-,h⟩
    all_goals exact absurd h (by decide)
  · intro v w e e' he he' _ _ _
    rw [(onePage_lookup he).1,(onePage_lookup he').1]

theorem user_copies_confined_one_page :
    (onePage.copyFromUser 1 0x1000 2).2 = [0x61,0x61] ∧ ReadsUser onePage {1} 1 0x1000 2 :=
  ⟨by decide +kernel,(user_copies_confined onePage_space).1 0x1000 2⟩

theorem copyUserCstr_whole_short :
    onePage.copyUserCstr 1 128 0x1001 = (0,List.replicate 127 0x61 ++ [0]) ∧
      CopiesWhole onePage 1 128 0x1001 :=
  ⟨by decide +kernel,
    (copyUserCstr_whole_iff onePage_space (by decide) 0x1001).2 (.inr (by decide +kernel))⟩

/-- `exec` gets the first 127 letters of a name of 128. -/
theorem exec_truncates :
    onePage.UserString 1 0x1000 (List.replicate 128 0x61) ∧
      ¬CopiesWhole onePage 1 128 0x1000 ∧
      ∀ exec,onePage.sysExec 1 exec 0x1000 = exec (List.replicate 127 0x61) := by
  have hcopy : onePage.copyUserCstr 1 128 0x1000 = (0,List.replicate 127 0x61 ++ [0]) := by
    decide +kernel
  refine ⟨⟨⟨by decide,by decide +kernel⟩,by decide +kernel⟩,fun h => ?_,fun exec => ?_⟩
  · obtain ⟨str,-,hstr,hout⟩ := h.whole (by rw [hcopy])
    rw [hcopy] at hout
    obtain rfl := List.append_cancel_right hout
    exact absurd hstr.2 (by decide +kernel)
  · simp only [Frames.sysExec,hcopy,Int.lt_irrefl,if_false]
    exact congrArg exec (by decide +kernel)

end OnePage

end Paging
end QuardStarNet
