import QuardStarNet.RadixTree
import QuardStarNet.FrameAllocator
import Mathlib.Data.List.FinRange
import Mathlib.Tactic.IntervalCases

/-! Sv39 page tables in physical memory: entries, the walk of `find_pte` and `find_pte_create`,
mapping, unmapping, copying and freeing address spaces. -/

namespace QuardStarNet
namespace Paging

abbrev VirtPageNum := BitVec 64

/-- The ways the paging code stops the machine. `depth` is a recursion of `freewalk` below the
three levels of a table. -/
inductive Panic
  | memory | size | remap | leaf | depth
  deriving DecidableEq, Repr

def pteV : BitVec 8 := 1
def pteR : BitVec 8 := 2
def pteW : BitVec 8 := 4
def pteX : BitVec 8 := 8
def pteU : BitVec 8 := 16

def maxva : BitVec 64 := 0x4000000000
def trampoline : BitVec 64 := maxva-pageSize
def trapframe : BitVec 64 := trampoline-pageSize

def virtAddrFromSizeT (v : BitVec 64) : BitVec 64 := v &&& 0x7fffffffff
def virtPageNumFromSizeT (v : BitVec 64) : VirtPageNum := v &&& 0x7ffffff
def floorVirts (virtAddr : BitVec 64) : VirtPageNum := virtAddr / pageSize

def pageTableEntryNew (ppn : PhysPageNum) (flags : BitVec 8) : Word :=
  (ppn <<< 10) ||| flags.setWidth 64
def pageTableEntryEmpty : Word := 0
def pageTableEntryPpn (entry : Word) : PhysPageNum := (entry >>> 10) &&& 0xfffffffffff
def pageTableEntryFlags (entry : Word) : BitVec 8 := (entry &&& 0xff).setWidth 8
def pageTableEntryIsValid (entry : Word) : Bool := pageTableEntryFlags entry &&& pteV != 0

def pte2pa (pte : Word) : BitVec 64 := (pte >>> 10) <<< 12
/-- `PTE_FLAGS` kept in a `u8`. -/
def pteFlags (pte : Word) : BitVec 8 := (pte &&& 0x3ff).setWidth 8

def index (vpn : VirtPageNum) : Fin 512 := Fin.ofNat 512 (vpn &&& 0x1ff).toNat

/-- The indices of the two interior levels, and the index of the last one. -/
def indexes (vpn : VirtPageNum) : List (Fin 512) × Fin 512 :=
  ([index ((vpn >>> 9) >>> 9),index (vpn >>> 9)],index vpn)

namespace Frames

def store (s : Frames) (ppn : PhysPageNum) (i : Fin 512) (w : Word) : Frames :=
  { s with mem := RadixTree.store s.mem ppn i w }

/-- The walk of `find_pte`, which returns the place of a valid entry. -/
def findFrom (s : Frames) : PhysPageNum → List (Fin 512) → Fin 512 → Option (PhysPageNum × Fin 512)
  | ppn,[],last => if pageTableEntryIsValid (s.mem ppn last) then some (ppn,last) else none
  | ppn,i :: rest,last =>
    if pageTableEntryIsValid (s.mem ppn i) then
      s.findFrom (pageTableEntryPpn (s.mem ppn i)) rest last
    else none

def findPte (s : Frames) (root : PhysPageNum) (vpn : VirtPageNum) :
    Option (PhysPageNum × Fin 512) :=
  s.findFrom root (indexes vpn).1 (indexes vpn).2

/-- The walk of `find_pte_create`, which hangs a new table below every empty interior entry. -/
def createFrom (s : Frames) :
    PhysPageNum → List (Fin 512) → Fin 512 → Except Panic ((PhysPageNum × Fin 512) × Frames)
  | ppn,[],last => .ok ((ppn,last),s)
  | ppn,i :: rest,last =>
    if pageTableEntryIsValid (s.mem ppn i) then
      s.createFrom (pageTableEntryPpn (s.mem ppn i)) rest last
    else
      let (frame,s) := s.kalloc
      if frame = 0 then .error .memory
      else
        let pte := pageTableEntryNew frame pteV
        (s.store ppn i pte).createFrom (pageTableEntryPpn pte) rest last

def findPteCreate (s : Frames) (root : PhysPageNum) (vpn : VirtPageNum) :
    Except Panic ((PhysPageNum × Fin 512) × Frames) :=
  s.createFrom root (indexes vpn).1 (indexes vpn).2

/-- The mapping loop. It ends when `vpn` equals the last page, so its trip count is their distance
modulo 2^64. -/
def mapFrom (s : Frames) (root : PhysPageNum) (flags : BitVec 8) :
    ℕ → VirtPageNum → PhysPageNum → Except Panic Frames
  | n,vpn,ppn =>
    match s.findPteCreate root vpn with
    | .error e => .error e
    | .ok ((x,i),s) =>
      if pageTableEntryIsValid (s.mem x i) then .error .remap
      else
        let s := s.store x i (pageTableEntryNew ppn (pteV ||| flags))
        match n with
        | 0 => .ok s
        | n+1 => s.mapFrom root flags n (vpn+1) (ppn+1)

def pageTableMap (s : Frames) (root : PhysPageNum) (va pa size : BitVec 64) (flags : BitVec 8) :
    Except Panic Frames :=
  if size = 0 then .error .size
  else
    let ppn := floorPhys pa
    let vpn := floorVirts va
    let last := (va+size-1) / pageSize
    s.mapFrom root flags (last-vpn).toNat vpn ppn

/-- The copying loop of `uvmcopy`; its result is 0, or -1 when a page cannot be allocated. -/
def copyFrom (s : Frames) (old new : PhysPageNum) : ℕ → BitVec 64 → Except Panic (ℤ × Frames)
  | 0,_ => .ok (0,s)
  | n+1,i =>
    match s.findPte old (floorVirts (virtAddrFromSizeT i)) with
    | none => s.copyFrom old new n (i+pageSize)
    | some (x,j) =>
      let phyaddr := pte2pa (s.mem x j)
      let flags := pteFlags (s.mem x j)
      let (ppn,s) := s.kalloc
      if ppn = 0 then .ok (-1,s)
      else
        let paddr := physAddrFromPhysPageNum ppn
        -- the memcpy of one page
        let s := { s with
          mem := Function.update s.mem (floorPhys paddr) (s.mem (floorPhys phyaddr)) }
        match s.pageTableMap new (virtAddrFromSizeT i) (physAddrFromSizeT paddr) pageSize flags with
        | .error e => .error e
        | .ok s => s.copyFrom old new n (i+pageSize)

/-- The loop runs over `i <= sz`, so it also visits the page at `sz`. -/
def uvmcopy (s : Frames) (old new : PhysPageNum) (sz : BitVec 64) : Except Panic (ℤ × Frames) :=
  s.copyFrom old new (sz.toNat/4096+1) 0

/-- The body of the unmapping loop. -/
def unmapPage (s : Frames) (root : PhysPageNum) (doFree : Bool) (vpn : VirtPageNum) : Frames :=
  match s.findPte root vpn with
  | none => s
  | some (x,i) =>
    let s := if doFree then s.kfree (floorPhys (physAddrFromSizeT (pte2pa (s.mem x i)))) else s
    s.store x i pageTableEntryEmpty

def unmapFrom (s : Frames) (root : PhysPageNum) (doFree : Bool) : ℕ → BitVec 64 → Frames
  | 0,_ => s
  | n+1,a => (s.unmapPage root doFree (virtPageNumFromSizeT a)).unmapFrom root doFree n (a+1)

def uvmunmap (s : Frames) (root : PhysPageNum) (vpn : VirtPageNum) (npages : BitVec 64)
    (doFree : Bool) : Frames :=
  s.unmapFrom root doFree ((vpn+npages).toNat-vpn.toNat) vpn

/-- One entry of a table that is being freed; `walk` frees the table below it. -/
def freeEntry (walk : PhysPageNum → Frames → Except Panic Frames) (ppn : PhysPageNum) (s : Frames)
    (i : Fin 512) : Except Panic Frames :=
  let pte := s.mem ppn i
  if pageTableEntryIsValid pte ∧ pte &&& 0xe = 0 then
    match walk (pageTableEntryPpn pte) s with
    | .error e => .error e
    | .ok s => .ok (s.store ppn i pageTableEntryEmpty)
  else if pageTableEntryIsValid pte then .error .leaf
  else .ok s

def freeEntries (walk : PhysPageNum → Frames → Except Panic Frames) (ppn : PhysPageNum) :
    Frames → List (Fin 512) → Except Panic Frames
  | s,[] => .ok s
  | s,i :: rest =>
    match freeEntry walk ppn s i with
    | .error e => .error e
    | .ok s => freeEntries walk ppn s rest

@[irreducible] def entryIndices : List (Fin 512) := List.finRange 512

def freeTable (walk : PhysPageNum → Frames → Except Panic Frames) (ppn : PhysPageNum) (s : Frames) :
    Except Panic Frames :=
  match freeEntries walk ppn s entryIndices with
  | .error e => .error e
  | .ok s => .ok (s.kfree ppn)

/-- `freewalk` with a bound on the depth of the recursion. -/
def freewalk : ℕ → PhysPageNum → Frames → Except Panic Frames
  | 0,_,_ => .error .depth
  | n+1,ppn,s => freeTable (freewalk n) ppn s

def uvmfree (s : Frames) (root : PhysPageNum) (sz : BitVec 64) : Except Panic Frames :=
  let s :=
    if 0 < sz then s.uvmunmap root (floorVirts (virtAddrFromSizeT 0)) (sz / pageSize) true else s
  freewalk 3 root s

def procFreepagetable (s : Frames) (root : PhysPageNum) (sz : BitVec 64) : Except Panic Frames :=
  let s := s.uvmunmap root (floorVirts (virtAddrFromSizeT trampoline)) 1 false
  let s := s.uvmunmap root (floorVirts (virtAddrFromSizeT trapframe)) 1 false
  s.uvmfree root sz

end Frames

theorem entryIndices_nodup : Frames.entryIndices.Nodup := by
  unfold Frames.entryIndices
  exact List.nodup_finRange 512

theorem mem_entryIndices (i : Fin 512) : i ∈ Frames.entryIndices := by
  unfold Frames.entryIndices
  exact List.mem_finRange i

/-! ### Entries -/

theorem pageTableEntryNew_toNat (f : PhysPageNum) (flags : BitVec 8) :
    (pageTableEntryNew f flags).toNat = f.toNat % 2^54 * 2^10+flags.toNat := by
  have hshift : (f <<< 10).toNat = (f.toNat % 2^54) <<< 10 := by
    rw [BitVec.toNat_shiftLeft,Nat.shiftLeft_eq,Nat.shiftLeft_eq]
    omega
  have hflags : (flags.setWidth 64).toNat = flags.toNat := by
    rw [BitVec.toNat_setWidth]
    omega
  rw [pageTableEntryNew,BitVec.toNat_or,hshift,hflags,← Nat.shiftLeft_add_eq_or_of_lt,
    Nat.shiftLeft_eq]
  omega

theorem pageTableEntryPpn_toNat (e : Word) :
    (pageTableEntryPpn e).toNat = e.toNat / 2^10 % 2^44 := by
  rw [pageTableEntryPpn,BitVec.toNat_and,BitVec.toNat_ushiftRight,Nat.shiftRight_eq_div_pow]
  exact Nat.and_two_pow_sub_one_eq_mod _ 44

theorem pageTableEntryPpn_new {f : PhysPageNum} (h : f < 0x100000000000) (flags : BitVec 8) :
    pageTableEntryPpn (pageTableEntryNew f flags) = f := by
  have h' : f.toNat < 2^44 := by simpa using BitVec.lt_def.1 h
  apply BitVec.eq_of_toNat_eq
  rw [pageTableEntryPpn_toNat,pageTableEntryNew_toNat]
  omega

/-- The frame `uvmunmap` frees is the one the entry names. -/
theorem floorPhys_pte2pa (e : Word) :
    floorPhys (physAddrFromSizeT (pte2pa e)) = pageTableEntryPpn e := by
  apply BitVec.eq_of_toNat_eq
  rw [floorPhys_toNat,physAddrFromSizeT_toNat,pageTableEntryPpn_toNat,pte2pa,
    BitVec.toNat_shiftLeft,BitVec.toNat_ushiftRight,Nat.shiftRight_eq_div_pow,Nat.shiftLeft_eq]
  omega

theorem pageTableEntryFlags_new (f : PhysPageNum) (flags : BitVec 8) :
    pageTableEntryFlags (pageTableEntryNew f flags) = flags := by
  apply BitVec.eq_of_toNat_eq
  rw [pageTableEntryFlags,BitVec.toNat_setWidth,BitVec.toNat_and,pageTableEntryNew_toNat,
    show (0xff : BitVec 64).toNat = 2^8-1 from rfl,Nat.and_two_pow_sub_one_eq_mod]
  omega

theorem pageTableEntryIsValid_new (f : PhysPageNum) (flags : BitVec 8) :
    pageTableEntryIsValid (pageTableEntryNew f (pteV ||| flags)) = true := by
  rw [pageTableEntryIsValid,pageTableEntryFlags_new]
  revert flags
  decide

@[simp] theorem pageTableEntryIsValid_zero : pageTableEntryIsValid 0#64 = false := rfl
@[simp] theorem pageTableEntryIsValid_empty : pageTableEntryIsValid pageTableEntryEmpty = false := rfl

/-- Interior entries carry no access right. -/
theorem pageTableEntryNew_interior (f : PhysPageNum) : pageTableEntryNew f pteV &&& 0xe = 0 := by
  apply BitVec.eq_of_getLsbD_eq
  intro i hi
  rw [pageTableEntryNew,BitVec.getLsbD_and,BitVec.getLsbD_or,BitVec.getLsbD_shiftLeft]
  by_cases h : i < 10
  · interval_cases i <;> simp [pteV]
  · have hsmall : (0xe : BitVec 64).getLsbD i = false :=
      Nat.testBit_lt_two_pow (lt_of_lt_of_le (by decide : 14 < 2^10)
        (Nat.pow_le_pow_right (by decide) (by omega)))
    rw [hsmall,Bool.and_false]
    simp

/-! ### Indices -/

theorem virtPageNumFromSizeT_toNat (v : BitVec 64) :
    (virtPageNumFromSizeT v).toNat = v.toNat % 2^27 := by
  rw [virtPageNumFromSizeT,BitVec.toNat_and]
  exact Nat.and_two_pow_sub_one_eq_mod _ 27

theorem index_val (vpn : VirtPageNum) : (index vpn).val = vpn.toNat % 512 := by
  rw [index,Fin.val_ofNat,BitVec.toNat_and]
  rw [show (0x1ff : BitVec 64).toNat = 2^9-1 from rfl,Nat.and_two_pow_sub_one_eq_mod]
  omega

/-- The indices tell apart exactly the pages of the 39-bit address space. -/
theorem indexes_inj {v w : VirtPageNum} :
    indexes v = indexes w ↔ v.toNat % 2^27 = w.toNat % 2^27 := by
  simp only [indexes,Prod.mk.injEq,List.cons.injEq,and_true,Fin.ext_iff,index_val,
    BitVec.toNat_ushiftRight,Nat.shiftRight_eq_div_pow]
  omega

theorem indexes_surj {p : List (Fin 512)} (hp : p.length = 2) (i : Fin 512) :
    ∃ v : VirtPageNum,indexes v = (p,i) := by
  obtain ⟨a,b,rfl⟩ := List.length_eq_two.1 hp
  refine ⟨BitVec.ofNat 64 (a*2^18+b*2^9+i),?_⟩
  simp only [indexes,Prod.mk.injEq,List.cons.injEq,and_true,Fin.ext_iff,index_val,
    BitVec.toNat_ushiftRight,Nat.shiftRight_eq_div_pow,BitVec.toNat_ofNat]
  omega

theorem indexes_length (v : VirtPageNum) : (indexes v).1.length = 2 := rfl

/-! ### Tables as trees -/

/-- The table an entry points to. -/
def pteChild (e : Word) : Option PhysPageNum :=
  if pageTableEntryIsValid e then some (pageTableEntryPpn e) else none

theorem pteChild_new {f : PhysPageNum} (h : f < 0x100000000000) :
    pteChild (pageTableEntryNew f pteV) = some f := by
  rw [pteChild,pageTableEntryPpn_new h,if_pos]
  exact pageTableEntryIsValid_new f 0

theorem pteChild_eq_none {e : Word} : pteChild e = none ↔ pageTableEntryIsValid e = false := by
  rw [pteChild]
  split <;> simp_all

/-- The table at the end of a path of indices. -/
abbrev Frames.table (s : Frames) (r : PhysPageNum) (p : List (Fin 512)) : Option PhysPageNum :=
  RadixTree.walk pteChild s.mem r p

theorem Frames.table_snoc (s : Frames) (r : PhysPageNum) (p : List (Fin 512)) (i : Fin 512) :
    s.table r (p ++ [i]) = (s.table r p).bind fun x => pteChild (s.mem x i) :=
  RadixTree.walk_snoc i

@[simp] theorem Frames.store_mem (s : Frames) (x : PhysPageNum) (i : Fin 512) (w : Word) :
    (s.store x i w).mem = RadixTree.store s.mem x i w := rfl

/-- The valid entry at an index of the table at the end of a path. -/
def Frames.entry (s : Frames) (r : PhysPageNum) (p : List (Fin 512)) (i : Fin 512) : Option Word :=
  (s.table r p).bind fun x => if pageTableEntryIsValid (s.mem x i) then some (s.mem x i) else none

/-- What `find_pte` reads for a page. -/
def Frames.lookup (s : Frames) (r : PhysPageNum) (v : VirtPageNum) : Option Word :=
  (s.findPte r v).map fun place => s.mem place.1 place.2

theorem Frames.findFrom_eq (s : Frames) (r : PhysPageNum) (p : List (Fin 512)) (i : Fin 512) :
    s.findFrom r p i = (s.table r p).bind fun x =>
      if pageTableEntryIsValid (s.mem x i) then some (x,i) else none := by
  induction p generalizing r with
  | nil => rfl
  | cons j p ih =>
    rw [Frames.findFrom,Frames.table,RadixTree.walk_cons,pteChild]
    split
    · exact ih _
    · rfl

theorem Frames.findPte_eq (s : Frames) (r : PhysPageNum) (v : VirtPageNum) :
    s.findPte r v = (s.table r (indexes v).1).bind fun x =>
      if pageTableEntryIsValid (s.mem x (indexes v).2) then some (x,(indexes v).2) else none :=
  s.findFrom_eq r _ _

theorem Frames.lookup_eq (s : Frames) (r : PhysPageNum) (v : VirtPageNum) :
    s.lookup r v = s.entry r (indexes v).1 (indexes v).2 := by
  rw [Frames.lookup,Frames.findPte_eq,Frames.entry]
  cases s.table r (indexes v).1 with
  | none => rfl
  | some x =>
    simp only [Option.bind_some]
    split <;> rfl

end Paging
end QuardStarNet
