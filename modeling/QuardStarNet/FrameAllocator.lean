import Mathlib.Algebra.Ring.Int.Defs
import Mathlib.Algebra.Ring.Nat
import Mathlib.Data.List.Nodup
import Mathlib.Logic.Function.Basic

/-! Physical memory in frames of 512 words, and the allocator that threads its free list through
the first word of every free frame. -/

namespace QuardStarNet
namespace Paging

abbrev PhysPageNum := BitVec 64
abbrev Word := BitVec 64

def pageSize : BitVec 64 := 0x1000

def physAddrFromSizeT (v : BitVec 64) : BitVec 64 := v &&& 0xffffffffffffff
def physAddrFromPhysPageNum (ppn : PhysPageNum) : BitVec 64 := ppn <<< 12
def floorPhys (physAddr : BitVec 64) : PhysPageNum := physAddr / pageSize

instance frameWords_neZero : NeZero 512 := ⟨by decide⟩

/-- Memory and allocator. `freelist` is the physical address of the first free frame, 0 for none;
`freeMap` is indexed by page number. -/
structure Frames where
  mem : PhysPageNum → Fin 512 → Word
  start : BitVec 64
  stop : BitVec 64
  freelist : BitVec 64
  freePages : ℕ
  freeMap : PhysPageNum → Bool

namespace Frames

/-- The frame becomes the head of the free list; its first word links the old head. -/
def pushFree (s : Frames) (ppn : PhysPageNum) : Frames :=
  { s with
    mem := Function.update s.mem ppn (Function.update (s.mem ppn) 0 s.freelist)
    freelist := physAddrFromPhysPageNum ppn
    freePages := s.freePages+1
    freeMap := Function.update s.freeMap ppn true }

/-- The initialisation loop pushes the frames from the top of the range down. -/
def pushBelow (s : Frames) : ℕ → BitVec 64 → Frames
  | 0,_ => s
  | n+1,value => (s.pushFree (value-1)).pushBelow n (value-1)

def stackFrameAllocatorInit (mem : PhysPageNum → Fin 512 → Word) (l r : PhysPageNum) : Frames :=
  pushBelow ⟨mem,l,r,0,0,fun _ => false⟩ (r.toNat-l.toNat) r

/-- The page number is 0 when there is no free frame. -/
def kalloc (s : Frames) : PhysPageNum × Frames :=
  if s.freelist = 0 then (0,s)
  else
    let ppn := floorPhys (physAddrFromSizeT s.freelist)
    let s :=
      { s with
        freelist := s.mem (floorPhys s.freelist) 0
        freePages := s.freePages-1
        freeMap := Function.update s.freeMap ppn false }
    if ppn = 0 then (ppn,s)
    else (ppn,{ s with mem := Function.update s.mem ppn fun _ => 0 })

/-- A frame outside the range or already free is left alone. -/
def kfree (s : Frames) (ppn : PhysPageNum) : Frames :=
  if ppn < s.start ∨ s.stop ≤ ppn then s
  else if s.freeMap ppn then s
  else s.pushFree ppn

def InRange (s : Frames) (f : PhysPageNum) : Prop := s.start ≤ f ∧ f < s.stop

end Frames

theorem shiftLeft_toNat {f : PhysPageNum} (h : f < 0x100000000000) :
    (physAddrFromPhysPageNum f).toNat = f.toNat*4096 := by
  have h' : f.toNat < 2^44 := by simpa using BitVec.lt_def.1 h
  rw [physAddrFromPhysPageNum,BitVec.toNat_shiftLeft,Nat.shiftLeft_eq]
  omega

theorem physAddrFromSizeT_toNat (v : BitVec 64) : (physAddrFromSizeT v).toNat = v.toNat % 2^56 := by
  rw [physAddrFromSizeT,BitVec.toNat_and]
  exact Nat.and_two_pow_sub_one_eq_mod v.toNat 56

theorem floorPhys_toNat (a : BitVec 64) : (floorPhys a).toNat = a.toNat / 4096 := by
  rw [floorPhys,BitVec.toNat_udiv]
  rfl

theorem physAddrFromSizeT_addr {f : PhysPageNum} (h : f < 0x100000000000) :
    physAddrFromSizeT (physAddrFromPhysPageNum f) = physAddrFromPhysPageNum f := by
  have h' : f.toNat < 2^44 := by simpa using BitVec.lt_def.1 h
  apply BitVec.eq_of_toNat_eq
  rw [physAddrFromSizeT_toNat,shiftLeft_toNat h]
  omega

theorem floorPhys_addr {f : PhysPageNum} (h : f < 0x100000000000) :
    floorPhys (physAddrFromPhysPageNum f) = f := by
  apply BitVec.eq_of_toNat_eq
  rw [floorPhys_toNat,shiftLeft_toNat h]
  omega

theorem physAddrFromPhysPageNum_ne_zero {f : PhysPageNum} (h : f < 0x100000000000) (h0 : f ≠ 0) :
    physAddrFromPhysPageNum f ≠ 0 := by
  intro he
  have := floorPhys_addr h
  rw [he] at this
  exact h0 (this.symm.trans (by decide))

/-- The free list read off memory, from the address of its head. -/
def Chain (mem : PhysPageNum → Fin 512 → Word) : BitVec 64 → List PhysPageNum → Prop
  | a,[] => a = 0
  | a,f :: L => a = physAddrFromPhysPageNum f ∧ Chain mem (mem f 0) L

theorem Chain.congr {mem mem' : PhysPageNum → Fin 512 → Word} {a : BitVec 64}
    {L : List PhysPageNum} (hc : Chain mem a L) (h : ∀ f ∈ L,mem' f = mem f) : Chain mem' a L := by
  induction L generalizing a with
  | nil => exact hc
  | cons f L ih =>
    refine ⟨hc.1,?_⟩
    rw [h f (by simp)]
    exact ih hc.2 fun g hg => h g (by simp [hg])

/-- Frame 0 is no frame of the range, since it stands for failure; page numbers fit an entry. -/
structure AllocatorOk (s : Frames) : Prop where
  start_pos : 0 < s.start
  stop_le : s.stop ≤ 0x100000000000
  chain : ∃ L,Chain s.mem s.freelist L ∧ L.Nodup ∧ (∀ f,f ∈ L ↔ s.freeMap f = true) ∧
    L.length = s.freePages
  inside : ∀ f,s.freeMap f = true → s.InRange f

/-- One frame leaves the free list, filled with zeros. -/
structure Takes (s : Frames) (f : PhysPageNum) (s' : Frames) : Prop where
  free : s.freeMap f = true
  ok : AllocatorOk s'
  freeMap : s'.freeMap = Function.update s.freeMap f false
  count : s'.freePages+1 = s.freePages
  mem : s'.mem = Function.update s.mem f fun _ => 0
  start : s'.start = s.start
  stop : s'.stop = s.stop

/-- One frame joins the free list; its contents are then the allocator's. -/
structure Gives (s : Frames) (f : PhysPageNum) (s' : Frames) : Prop where
  ok : AllocatorOk s'
  freeMap : s'.freeMap = Function.update s.freeMap f true
  count : s'.freePages = s.freePages+1
  mem : ∀ g,g ≠ f → s'.mem g = s.mem g
  start : s'.start = s.start
  stop : s'.stop = s.stop

namespace AllocatorOk

variable {s : Frames} {f : PhysPageNum}

theorem lt_of_inRange (h : AllocatorOk s) (hf : s.InRange f) : f < 0x100000000000 := by
  have h1 := hf.2
  have h2 := h.stop_le
  bv_omega

theorem ne_zero_of_inRange (h : AllocatorOk s) (hf : s.InRange f) : f ≠ 0 := by
  have h1 := hf.1
  have h2 := h.start_pos
  bv_omega

/-- Only the contents of free frames matter to the allocator. -/
theorem congr_mem (h : AllocatorOk s) {mem' : PhysPageNum → Fin 512 → Word}
    (hm : ∀ f,s.freeMap f = true → mem' f = s.mem f) : AllocatorOk { s with mem := mem' } := by
  obtain ⟨L,hc,hnd,hmem,hlen⟩ := h.chain
  exact ⟨h.start_pos,h.stop_le,
    ⟨L,hc.congr fun f hf => hm f ((hmem f).1 hf),hnd,hmem,hlen⟩,h.inside⟩

theorem pushFree (h : AllocatorOk s) (hf : s.InRange f) (hfree : s.freeMap f = false) :
    Gives s f (s.pushFree f) := by
  obtain ⟨L,hc,hnd,hmem,hlen⟩ := h.chain
  have hfL : f ∉ L := by
    rw [hmem,hfree]
    simp
  refine ⟨⟨h.start_pos,h.stop_le,⟨f :: L,⟨rfl,?_⟩,List.nodup_cons.2 ⟨hfL,hnd⟩,?_,?_⟩,?_⟩,rfl,rfl,
    ?_,rfl,rfl⟩
  · simp only [Frames.pushFree,Function.update_self]
    refine hc.congr fun g hg => ?_
    rw [Function.update_of_ne]
    rintro rfl
    exact hfL hg
  · intro g
    by_cases hg : g = f
    · simp [Frames.pushFree,hg]
    · simp [Frames.pushFree,hg,hmem]
  · simp [Frames.pushFree,hlen]
  · intro g hg
    by_cases hgf : g = f
    · rw [hgf]
      exact hf
    · exact h.inside g (by simpa [Frames.pushFree,hgf] using hg)
  · intro g hg
    simp [Frames.pushFree,hg]

theorem kfree (h : AllocatorOk s) (hf : s.InRange f) (hfree : s.freeMap f = false) :
    Gives s f (s.kfree f) := by
  have hin : ¬(f < s.start ∨ s.stop ≤ f) := by
    rw [not_or,BitVec.not_lt,BitVec.not_le]
    exact hf
  rw [Frames.kfree,if_neg hin,hfree]
  exact h.pushFree hf hfree

theorem kalloc (h : AllocatorOk s) :
    (s.freePages = 0 ∧ s.kalloc = (0,s)) ∨
      ∃ f s',s.kalloc = (f,s') ∧ f ≠ 0 ∧ Takes s f s' := by
  obtain ⟨L,hc,hnd,hmem,hlen⟩ := h.chain
  cases L with
  | nil =>
    refine .inl ⟨hlen.symm,?_⟩
    have hnull : s.freelist = 0 := hc
    rw [Frames.kalloc,if_pos hnull]
  | cons f L =>
    obtain ⟨hhead,hc⟩ := hc
    have hfree : s.freeMap f = true := (hmem f).1 (by simp)
    have hin := h.inside f hfree
    have hlt := h.lt_of_inRange hin
    have h0 := h.ne_zero_of_inRange hin
    have hpage : s.freelist ≠ 0 := hhead ▸ physAddrFromPhysPageNum_ne_zero hlt h0
    have hppn : floorPhys (physAddrFromSizeT s.freelist) = f := by
      rw [hhead,physAddrFromSizeT_addr hlt,floorPhys_addr hlt]
    have hword : floorPhys s.freelist = f := by rw [hhead,floorPhys_addr hlt]
    obtain ⟨hfL,hnd⟩ := List.nodup_cons.1 hnd
    refine .inr ⟨f,_,by rw [Frames.kalloc,if_neg hpage,hppn,hword,if_neg h0],h0,?_⟩
    refine ⟨hfree,⟨h.start_pos,h.stop_le,⟨L,?_,hnd,?_,?_⟩,?_⟩,rfl,?_,rfl,rfl,rfl⟩
    · refine hc.congr fun g hg => Function.update_of_ne ?_ _ _
      rintro rfl
      exact hfL hg
    · intro g
      by_cases hg : g = f
      · simp [hg,hfL]
      · simp [hg,← hmem]
    · simp only [List.length_cons] at hlen
      show _ = s.freePages-1
      omega
    · intro g hg
      by_cases hgf : g = f
      · simp [hgf] at hg
      · exact h.inside g (by simpa [hgf] using hg)
    · simp only [List.length_cons] at hlen
      show s.freePages-1+1 = s.freePages
      omega

theorem pushBelow (h : AllocatorOk s) {n : ℕ} {value : BitVec 64}
    (hval : value.toNat = s.start.toNat+n) (hstop : value ≤ s.stop)
    (hfree : ∀ g,s.start ≤ g → g < value → s.freeMap g = false) :
    AllocatorOk (s.pushBelow n value) := by
  induction n generalizing s value with
  | zero => exact h
  | succ n ih =>
    have hin : s.InRange (value-1) := ⟨by bv_omega,by bv_omega⟩
    have hg := h.pushFree hin (hfree _ hin.1 (by bv_omega))
    refine ih hg.ok (by rw [hg.start]; bv_omega) (by rw [hg.stop]; bv_omega) fun g h1 h2 => ?_
    rw [hg.freeMap,Function.update_of_ne (by bv_omega)]
    exact hfree g (hg.start ▸ h1) (by bv_omega)

theorem init (mem : PhysPageNum → Fin 512 → Word) {l r : PhysPageNum} (hl : 0 < l) (hlr : l ≤ r)
    (hr : r ≤ 0x100000000000) : AllocatorOk (Frames.stackFrameAllocatorInit mem l r) := by
  apply pushBelow
  · exact ⟨hl,hr,⟨[],rfl,List.nodup_nil,by simp,rfl⟩,by simp⟩
  · show r.toNat = l.toNat+(r.toNat-l.toNat)
    bv_omega
  · exact BitVec.le_refl r
  · simp

end AllocatorOk

end Paging
end QuardStarNet
