import QuardStarNet.DescriptorChains

/-! The block driver (`virtio_disk.c`) with any number of callers of `virtio_blk_transfer`. A step is
one critical section of `disk.lock`, one pass of the loop of the interrupt handler, which keeps the
lock between its passes, or a write of the device. -/
namespace QuardStarNet
namespace Disk

open Virtq

/-- The arguments of `virtio_blk_transfer`. -/
structure Request where
  data : BitVec 64
  sector : BitVec 64
  count : BitVec 32
  write : Bool
  deriving DecidableEq

def Request.bytes (r : Request) : BitVec 32 := r.count*512#32

/-- The checks of `virtio_blk_transfer`. -/
def Request.valid (capacity : BitVec 64) (r : Request) : Bool :=
  if r.data = 0 ∨ r.count = 0 ∨ 0xffffffff/512 < r.count.toNat then false
  else if capacity ≤ r.sector ∨ capacity-r.sector < r.count.setWidth 64 then false
  else true

/-- Where the fields of `disk.info` are in memory. -/
structure Layout where
  request : Idx → BitVec 64
  status : Idx → BitVec 64

/-- `struct block_info`; `answered` tells whether the device has written the status byte since the last
submission. -/
structure Info (ι : Type) where
  type : BitVec 32
  sector : BitVec 64
  status : BitVec 8
  waiter : Option ι
  answered : Bool
  deriving DecidableEq

/-- `struct block_waiter`, on the stack of its caller. `marks` counts how often it was marked done, and
`reply` is the status byte found when its head was popped, with its `answered`. -/
structure Waiter where
  done : Bool
  result : ℤ
  marks : ℕ
  reply : Option (BitVec 8 × Bool)
  deriving DecidableEq

def Waiter.fresh : Waiter := ⟨false,-1,0,none⟩

def Waiter.mark (w : Waiter) (result : ℤ) : Waiter :=
  { w with done := true, result := result, marks := w.marks+1 }

/-- Where a caller is: outside, before its critical section, asleep on `disk.descriptors`, or waiting
for its request, asleep or woken. -/
inductive Pc
  | idle
  | enter (r : Request)
  | shortage (r : Request)
  | await (r : Request) (head : Idx) (asleep : Bool)
  deriving DecidableEq

def Pc.asleep : Pc → Bool
  | .shortage _ => true
  | .await _ _ asleep => asleep
  | _ => false

/-- `task_wake(&waiter->completion, 1)`. -/
def Pc.wakeCompletion : Pc → Pc
  | .await r head _ => .await r head false
  | pc => pc

/-- `task_wake(&disk.descriptors, 1)` for one of the sleepers. -/
def Pc.wakeDescriptors : Pc → Pc
  | .shortage r => .enter r
  | pc => pc

/-- `disk` with its callers; `chains` are the chains allocated and not yet released. -/
structure State (ι : Type) where
  queue : Virtqueue
  info : Idx → Info ι
  pending : ℤ
  failed : Bool
  inIntr : Bool
  pc : ι → Pc
  waiter : ι → Waiter
  chains : List (List Idx)

variable {ι : Type} [DecidableEq ι]

def State.init (ι : Type) : State ι where
  queue := virtqInit
  info _ := ⟨0,0,0,none,false⟩
  pending := 0
  failed := false
  inIntr := false
  pc _ := .idle
  waiter _ := .fresh
  chains := []

namespace State

variable (capacity : BitVec 64) (layout : Layout) (s : State ι)

/-- One pass of the loop of `block_fail_locked`. -/
def failOne (i : Idx) : State ι :=
  match (s.info i).waiter with
  | none => s
  | some t =>
    { s with waiter := Function.update s.waiter t ((s.waiter t).mark (-1))
             info := Function.update s.info i { s.info i with waiter := none }
             pc := Function.update s.pc t (s.pc t).wakeCompletion }

def blockFailLocked : State ι :=
  let s := (List.finRange 8).foldl failOne { s with failed := true }
  { s with pending := 0, pc := fun t => (s.pc t).wakeDescriptors }

/-- `while (!waiter.done) task_sleep(..)` and the return; the second component is the result if the
call returns. -/
def awaitDone (t : ι) (r : Request) (head : Idx) : State ι × Option ℤ :=
  if (s.waiter t).done then ({ s with pc := Function.update s.pc t .idle },some (s.waiter t).result)
  else ({ s with pc := Function.update s.pc t (.await r head true) },none)

/-- The descriptors of a request, filled in. -/
def fillDesc (q : Virtqueue) (r : Request) (i j k : Idx) : Virtqueue :=
  let q := q.write i { q.desc i with addr := layout.request i, len := 16 }
  let flags := if r.write then (q.desc j).flags else (q.desc j).flags ||| 2#16
  let q := q.write j { q.desc j with addr := r.data, len := r.bytes, flags := flags }
  q.write k { q.desc k with addr := layout.status i, len := 1, flags := (q.desc k).flags ||| 2#16 }

/-- The part of `block_transfer` from the allocation of the chain to `virtq_submit`. -/
def submitRequest (t : ι) (r : Request) (q : Virtqueue) (i j k : Idx) : State ι :=
  { s with info := Function.update s.info i
             ⟨if r.write then 1 else 0,r.sector,0xff,some t,false⟩
           queue := (fillDesc layout q r i j k).submit (name i)
           pending := s.pending+1
           chains := [i,j,k] :: s.chains }

/-- `block_transfer` from where it takes the lock, for the first time or after a shortage, to where it
returns or sleeps. -/
def enter (t : ι) (r : Request) : State ι × Option ℤ :=
  if s.failed then ({ s with pc := Function.update s.pc t .idle },some (-1))
  else
    match s.queue.allocChain 3 with
    | (q,some [i,j,k]) => (s.submitRequest layout t r q i j k).awaitDone t r i
    | (q,_) => ({ s with queue := q, pc := Function.update s.pc t (.shortage r) },none)

/-- One pass of the loop of `virtio_disk_intr`. -/
def intrPop : State ι :=
  match s.queue.popUsedLen with
  | (_,.empty) => { s with inIntr := false }
  | (q,.bad) => { { s with queue := q }.blockFailLocked with inIntr := false }
  | (q,.head i _) =>
    match (s.info i).waiter with
    | none => { { s with queue := q }.blockFailLocked with inIntr := false }
    | some t =>
      let result := if (s.info i).status = 0 then 0 else -1
      let w := { (s.waiter t).mark result with reply := some ((s.info i).status,(s.info i).answered) }
      let s := { s with waiter := Function.update s.waiter t w }
      let r := q.freeChain (name i)
      if r.2 ≠ 3 then { { s with queue := r.1 }.blockFailLocked with inIntr := false }
      else
        let pc := Function.update s.pc t (s.pc t).wakeCompletion
        { s with queue := r.1
                 info := Function.update s.info i { s.info i with waiter := none }
                 pending := s.pending-1
                 pc := fun t => (pc t).wakeDescriptors
                 chains := dropChain s.chains i }

end State

inductive Event (ι : Type)
  | call (t : ι) (r : Request)
  | enter (t : ι)
  | resume (t : ι)
  | intr
  | intrPop
  | deviceRing (idx : BitVec 16) (ring : Idx → UsedElem)
  | deviceStatus (i : Idx) (byte : BitVec 8)

/-- The next state, and what `virtio_blk_transfer` returns if the event ends a call of it. An event that
cannot happen changes nothing. -/
def State.act (capacity : BitVec 64) (layout : Layout) (s : State ι) : Event ι → State ι × Option ℤ
  | .call t r =>
    match s.pc t with
    | .idle =>
      if r.valid capacity then
        ({ s with pc := Function.update s.pc t (.enter r), waiter := Function.update s.waiter t .fresh },
          none)
      else (s,some (-1))
    | _ => (s,none)
  | .enter t =>
    match s.pc t,s.inIntr with
    | .enter r,false => s.enter layout t r
    | _,_ => (s,none)
  | .resume t =>
    match s.pc t,s.inIntr with
    | .await r head false,false => s.awaitDone t r head
    | _,_ => (s,none)
  | .intr => if s.inIntr then (s,none) else ({ s with inIntr := true },none)
  | .intrPop => if s.inIntr then (s.intrPop,none) else (s,none)
  | .deviceRing idx ring => ({ s with queue := s.queue.device idx ring },none)
  | .deviceStatus i byte =>
    ({ s with info := Function.update s.info i { s.info i with status := byte, answered := true } },none)

def State.run (capacity : BitVec 64) (layout : Layout) (s : State ι) (events : List (Event ι)) : State ι :=
  events.foldl (fun s e => (s.act capacity layout e).1) s

end Disk
end QuardStarNet
