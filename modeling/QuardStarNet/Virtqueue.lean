import Mathlib.Algebra.Ring.Int.Defs
import Mathlib.Algebra.Ring.Nat
import Mathlib.Data.BitVec
import Mathlib.Data.List.FinRange
import Mathlib.Logic.Function.Basic

/-! The virtqueue of the virtio drivers (`virtqueue.c`): a table of eight descriptors, the ring of
submitted heads and the ring of used elements, which the device writes. -/
namespace QuardStarNet
namespace Virtq

/-- An index below `VIRTQ_NUM`. -/
abbrev Idx := Fin 8

instance Idx.neZero : NeZero 8 := ⟨by decide⟩

instance Idx.lawfulBEq : LawfulBEq Idx := inferInstance

structure Desc where
  addr : BitVec 64
  len : BitVec 32
  flags : BitVec 16
  next : BitVec 16
  deriving DecidableEq

def Desc.zeroed : Desc := ⟨0,0,0,0⟩

/-- `VRING_DESC_F_NEXT` is set. -/
def Desc.hasNext (d : Desc) : Bool := d.flags &&& 1#16 != 0#16

structure UsedElem where
  id : BitVec 32
  len : BitVec 32
  deriving DecidableEq

/-- `struct virtqueue` with the pages it points to. -/
structure Virtqueue where
  desc : Idx → Desc
  availIdx : BitVec 16
  availRing : Idx → BitVec 16
  deviceIdx : BitVec 16
  usedRing : Idx → UsedElem
  free : Idx → Bool
  active : Idx → Bool
  usedIdx : BitVec 16
  freeCount : BitVec 16

def virtqInit : Virtqueue where
  desc _ := .zeroed
  availIdx := 0
  availRing _ := 0
  deviceIdx := 0
  usedRing _ := ⟨0,0⟩
  free _ := true
  active _ := false
  usedIdx := 0
  freeCount := 8

/-- An index as the `u16` that the rings hold. -/
def name (i : Idx) : BitVec 16 := .ofNat 16 i

/-- The position of a 16 bit ring index. -/
def ringPos (i : BitVec 16) : Idx := Fin.ofNat 8 i.toNat

/-- What `virtq_pop_used_len` returns: 0, -1, or 1 with the head and the length. -/
inductive Popped
  | empty | bad | head (i : Idx) (length : BitVec 32)
  deriving DecidableEq

namespace Virtqueue

variable (q : Virtqueue)

def allocDesc : Virtqueue × Option Idx :=
  match (List.finRange 8).find? q.free with
  | none => (q,none)
  | some i =>
    ({ q with free := Function.update q.free i false, freeCount := q.freeCount-1,
              desc := Function.update q.desc i .zeroed },some i)

def releaseDesc (i : Idx) : Virtqueue :=
  { q with desc := Function.update q.desc i .zeroed, free := Function.update q.free i true,
           freeCount := q.freeCount+1 }

def linkDesc (previous index : Idx) : Virtqueue :=
  let d := q.desc previous
  { q with desc := Function.update q.desc previous { d with flags := d.flags ||| 1#16, next := name index } }

/-- The loop of `virtq_alloc_chain`, with the indices allocated so far. -/
def allocLoop : ℕ → List Idx → Virtqueue → Virtqueue × Option (List Idx)
  | 0,indices,q => (q,some indices)
  | n+1,indices,q =>
    match q.allocDesc with
    | (q,none) => (indices.foldl releaseDesc q,none)
    | (q,some index) =>
      let q := match indices.getLast? with
        | none => q
        | some previous => q.linkDesc previous index
      allocLoop n (indices++[index]) q

/-- The indices of the new chain, or `none` for -1. -/
def allocChain (count : ℤ) : Virtqueue × Option (List Idx) :=
  if count < 1 ∨ 8 < count then (q,none) else allocLoop count.toNat [] q

/-- The first loop of `virtq_free_chain`: the chain so far holds the indices seen, and there is room
for `n` more of them. -/
def walk : ℕ → BitVec 16 → List Idx → Option (List Idx)
  | 0,_,_ => none
  | n+1,index,chain =>
    if hi : index.toNat < 8 then
      let i : Idx := ⟨index.toNat,hi⟩
      if q.free i ∨ i ∈ chain then none
      else if (q.desc i).hasNext then walk n (q.desc i).next (chain++[i])
      else some (chain++[i])
    else none

def freeChain (head : BitVec 16) : Virtqueue × ℤ :=
  if hi : head.toNat < 8 then
    if q.free ⟨head.toNat,hi⟩ ∨ q.active ⟨head.toNat,hi⟩ then (q,-1)
    else
      match q.walk 8 head [] with
      | none => (q,-1)
      | some chain => (chain.foldl releaseDesc q,chain.length)
  else (q,-1)

def submit (head : BitVec 16) : Virtqueue :=
  if hi : head.toNat < 8 then
    if q.free ⟨head.toNat,hi⟩ ∨ q.active ⟨head.toNat,hi⟩ then q
    else
      { q with active := Function.update q.active ⟨head.toNat,hi⟩ true,
               availRing := Function.update q.availRing (ringPos q.availIdx) head,
               availIdx := q.availIdx+1 }
  else q

def popUsedLen : Virtqueue × Popped :=
  if q.usedIdx = q.deviceIdx then (q,.empty)
  else
    let used := q.usedRing (ringPos q.usedIdx)
    let q : Virtqueue := { q with usedIdx := q.usedIdx+1 }
    if hi : used.id.toNat < 8 then
      if ¬q.active ⟨used.id.toNat,hi⟩ then (q,.bad)
      else
        ({ q with active := Function.update q.active ⟨used.id.toNat,hi⟩ false },
          .head ⟨used.id.toNat,hi⟩ used.len)
    else (q,.bad)

/-- The device writes its index and its ring as it likes. -/
def device (idx : BitVec 16) (ring : Idx → UsedElem) : Virtqueue :=
  { q with deviceIdx := idx, usedRing := ring }

/-- The driver fills in a descriptor. -/
def write (i : Idx) (d : Desc) : Virtqueue := { q with desc := Function.update q.desc i d }

end Virtqueue

end Virtq
end QuardStarNet
