import QuardStarNet.NetBase
import QuardStarNet.DescriptorChains

/-! The network driver (`virtio_net.c` and `virtio_net_completion.c`) with any number of senders and
receivers. A step is one critical section of `net.lock`, one pass of a loop of the interrupt handler,
which keeps the lock between its passes, or a write of the device. -/
namespace QuardStarNet
namespace VirtioNet

open Virtq

/-- `struct net_completion_ring`; the indices are taken modulo its capacity. -/
structure CompletionRing where
  slots : Fin 8 → BitVec 16
  readIndex : Fin 8
  writeIndex : Fin 8
  count : ℕ

namespace CompletionRing

def init (r : CompletionRing) : CompletionRing := { r with readIndex := 0, writeIndex := 0, count := 0 }

/-- `none` stands for -1. -/
def push (r : CompletionRing) (slot : BitVec 16) : Option CompletionRing :=
  if r.count = 8 then none
  else some { r with slots := Function.update r.slots r.writeIndex slot, writeIndex := r.writeIndex+1,
                     count := r.count+1 }

/-- `none` stands for 0. -/
def pop (r : CompletionRing) : Option (BitVec 16 × CompletionRing) :=
  if r.count = 0 then none
  else some (r.slots r.readIndex,{ r with readIndex := r.readIndex+1, count := r.count-1 })

end CompletionRing

/-- The size of the `bytes` of a slot: `VIRTIO_NET_HDR_SIZE + ETHERNET_MAX_FRAME`. -/
abbrev slotSize : ℕ := 1524

inductive RxState
  | unposted | posted | completed
  deriving DecidableEq

structure RxSlot where
  bytes : Fin slotSize → Byte
  descriptor : Idx
  state : RxState

structure TxSlot where
  bytes : Fin slotSize → Byte
  descriptor : Idx
  inUse : Bool

structure Stats where
  rxPackets : BitVec 64
  txPackets : BitVec 64
  rxDropped : BitVec 64
  txErrors : BitVec 64
  interrupts : BitVec 64
  resets : BitVec 64

/-- The codes that `net_fail_locked` prints. -/
inductive FailCode
  | rxUsedId | rxOwnership | rxLength | rxCompletion | txUsedId | txOwnership | txDescriptor
  deriving DecidableEq

/-- Where the buffers of the slots are in memory. -/
structure Layout where
  rx : Idx → BitVec 64
  tx : Idx → BitVec 64

/-- `net`: `rxWait` and `txWait` tell who sleeps there, `printed` are the codes printed so far. -/
structure Net (ι : Type) where
  rxQueue : Virtqueue
  txQueue : Virtqueue
  rxWait : ι → Bool
  txWait : ι → Bool
  completions : CompletionRing
  rx : Idx → RxSlot
  tx : Idx → TxSlot
  pendingTx : BitVec 32
  stats : Stats
  active : Bool
  failed : Bool
  resetting : Bool
  printed : List FailCode

variable {ι : Type}

namespace Net

variable (layout : Layout) (n : Net ι)

def setRx (slot : Idx) (x : RxSlot) : Net ι := { n with rx := Function.update n.rx slot x }

/-- The slot is posted to the device with the descriptor. -/
def netPostRxLocked (slot : Idx) : Net ι × Bool :=
  match n.rxQueue.allocChain 1 with
  | (q,some [descriptor]) =>
    let q := q.write descriptor { q.desc descriptor with addr := layout.rx slot, len := 1524, flags := 2 }
    ({ n.setRx slot ⟨fun _ => 0,descriptor,.posted⟩ with rxQueue := q.submit (name descriptor) },true)
  | (q,_) => ({ n with rxQueue := q },false)

def netRepostRxLocked (slot : Idx) : Net ι :=
  let x := n.rx slot
  let q := n.rxQueue.write x.descriptor { n.rxQueue.desc x.descriptor with len := 1524 }
  let bytes := fun k : Fin slotSize => if k.val < 10 then 0 else x.bytes k
  { n.setRx slot { x with bytes := bytes, state := .posted } with rxQueue := q.submit (name x.descriptor) }

def netDropRxLocked (slot : Idx) : Net ι :=
  { n with stats.rxDropped := n.stats.rxDropped+1 }.netRepostRxLocked slot

def netFindRxSlotLocked (descriptor : Idx) : Option Idx :=
  (List.finRange 8).find? fun i => (n.rx i).descriptor == descriptor && (n.rx i).state == .posted

def netValidateHeaderLocked (slot : Idx) : Bool :=
  (List.finRange 10).all fun k => (n.rx slot).bytes (k.castLE (by decide)) == 0

def netFindFreeTxSlotLocked : Option Idx := (List.finRange 8).find? fun i => !(n.tx i).inUse

def netFindTxSlotLocked (descriptor : Idx) : Option Idx :=
  (List.finRange 8).find? fun i => (n.tx i).inUse && (n.tx i).descriptor == descriptor

/-- `task_wake(&net.rx_wait, 1)`. -/
def wakeRx : Net ι := { n with rxWait := fun _ => false }

/-- `task_wake(&net.tx_wait, 1)`. -/
def wakeTx : Net ι := { n with txWait := fun _ => false }

def netFailLocked (code : FailCode) : Net ι :=
  let n := if n.failed then n else
    { n with printed := n.printed++[code], stats.txErrors := n.stats.txErrors+1 }
  { n with active := false, failed := true }.wakeRx.wakeTx

/-- How far the device lets `net_start_locked` come. -/
inductive Start
  | noDevice | wrongMac | noRxQueue | noTxQueue | ready
  deriving DecidableEq

def netPostAll : List Idx → Net ι → Net ι × Bool
  | [],n => (n,true)
  | slot :: slots,n =>
    let r := n.netPostRxLocked layout slot
    if r.2 then netPostAll slots r.1 else r

def startFailed : Net ι × ℤ := ({ n with active := false, failed := true },-1)

/-- The first assignments of `net_start_locked`. -/
def cleared : Net ι :=
  { n with completions := n.completions.init, active := false, pendingTx := 0
           rx := fun i => { n.rx i with state := .unposted }
           tx := fun i => { n.tx i with inUse := false } }

/-- Both queues set up. -/
def withQueues : Net ι := { n with rxQueue := virtqInit, txQueue := virtqInit }

def netStartLocked (start : Start) : Net ι × ℤ :=
  let n := n.cleared
  match start with
  | .noDevice | .wrongMac | .noRxQueue => n.startFailed
  | .noTxQueue => { n with rxQueue := virtqInit }.startFailed
  | .ready =>
    let r := netPostAll layout (List.finRange 8) n.withQueues
    if r.2 then ({ r.1 with failed := false, active := true },0) else r.1.startFailed

/-- `virtio_net_reset`; `mmio` tells whether `virtio_mmio_reset` succeeds. -/
def virtioNetReset (mmio : Bool) (start : Start) : Net ι × ℤ :=
  if n.resetting then (n,-1)
  else
    let n := { n with resetting := true, active := false }.wakeRx.wakeTx
    if ¬mmio then ({ n with failed := true, resetting := false },-1)
    else
      let r := n.netStartLocked layout start
      if r.2 = 0 then ({ r.1 with stats.resets := r.1.stats.resets+1, resetting := false },0)
      else ({ r.1 with failed := true, resetting := false },-1)

/-- `virtio_net_send` after its loop has found the slot. -/
def sendSlot (frame : List Byte) (slot : Idx) : Net ι × ℤ :=
  match n.txQueue.allocChain 1 with
  | (q,some [descriptor]) =>
    let bytes := fun k : Fin slotSize => if k.val < 10 then 0 else (frame[k.val-10]?).getD ((n.tx slot).bytes k)
    let len : BitVec 32 := .ofNat 32 (10+frame.length)
    let q := q.write descriptor { q.desc descriptor with addr := layout.tx slot, len := len }
    ({ n with tx := Function.update n.tx slot ⟨bytes,descriptor,true⟩, pendingTx := n.pendingTx+1
              txQueue := q.submit (name descriptor) },0)
  | (q,_) => ({ n with txQueue := q }.netFailLocked .txDescriptor,-1)

/-- `virtio_net_receive` after its loop; the frame is what it copies to the caller. -/
def receiveSlot (capacity : BitVec 32) : Net ι × ℤ × List Byte :=
  match n.completions.pop with
  | none => (n,-1,[])
  | some (completionSlot,ring) =>
    let n := { n with completions := ring }
    let rejected := (if n.active && !n.failed then n.netFailLocked .rxCompletion else n,-1,[])
    if hs : completionSlot.toNat < 8 then
      let slot : Idx := ⟨completionSlot.toNat,hs⟩
      if (n.rx slot).state ≠ .completed then rejected
      else
        let frameLength := (n.rxQueue.desc (n.rx slot).descriptor).len-10#32
        if capacity < frameLength then
          ({ n with stats.rxDropped := n.stats.rxDropped+1 }.netRepostRxLocked slot,-1,[])
        else
          ({ n with stats.rxPackets := n.stats.rxPackets+1 }.netRepostRxLocked slot,0,
            ((List.ofFn (n.rx slot).bytes).drop 10).take frameLength.toNat)
    else rejected

/-- One pass of the first loop of `virtio_net_intr`; `false` ends the loop. -/
def intrRx : Net ι × Bool :=
  match n.rxQueue.popUsedLen with
  | (_,.empty) => (n,false)
  | (q,.bad) => ({ n with rxQueue := q }.netFailLocked .rxUsedId,false)
  | (q,.head descriptor usedLength) =>
    let n := { n with rxQueue := q }
    match n.netFindRxSlotLocked descriptor with
    | none => (n.netFailLocked .rxOwnership,false)
    | some slot =>
      if 1524#32 < usedLength then (n.netFailLocked .rxLength,false)
      else if n.netValidateHeaderLocked slot = false ∨ usedLength < 24#32 then (n.netDropRxLocked slot,true)
      else
        let q := n.rxQueue.write descriptor { n.rxQueue.desc descriptor with len := usedLength }
        let n := { n.setRx slot { n.rx slot with state := .completed } with rxQueue := q }
        match n.completions.push (name slot) with
        | none => (n.netDropRxLocked slot,true)
        | some ring => ({ n with completions := ring }.wakeRx,true)

/-- One pass of the second loop of `virtio_net_intr`. -/
def intrTx : Net ι × Bool :=
  match n.txQueue.popUsedLen with
  | (_,.empty) => (n,false)
  | (q,.bad) => ({ n with txQueue := q }.netFailLocked .txUsedId,false)
  | (q,.head descriptor _) =>
    let n := { n with txQueue := q }
    match n.netFindTxSlotLocked descriptor with
    | none => (n.netFailLocked .txOwnership,false)
    | some slot =>
      let r := n.txQueue.freeChain (name descriptor)
      let n := { n with txQueue := r.1 }
      if r.2 ≠ 1 then (n.netFailLocked .txOwnership,false)
      else
        ({ n with tx := Function.update n.tx slot { n.tx slot with inUse := false }
                  pendingTx := n.pendingTx-1
                  stats.txPackets := n.stats.txPackets+1 }.wakeTx,true)

end Net

/-- Where a caller is: outside, before its critical section, or in the loop that waits, with the number
of resets that it has seen. -/
inductive Pc
  | idle
  | sendEnter (frame : List Byte)
  | sendWait (frame : List Byte) (generation : BitVec 64)
  | receiveEnter (capacity : BitVec 32)
  | receiveWait (capacity : BitVec 32) (generation : BitVec 64)

/-- The loop in which the interrupt handler is. -/
inductive Phase
  | outside | rx | tx
  deriving DecidableEq

structure State (ι : Type) where
  net : Net ι
  pc : ι → Pc
  intr : Phase

/-- What a call returns, with the frame of a receive. -/
abbrev Outcome := ℤ × List Byte

inductive Event (ι : Type)
  | callSend (t : ι) (frame : Option (List Byte))
  | callReceive (t : ι) (null : Bool) (capacity : BitVec 32)
  | locked (t : ι)
  | timeout (t : ι)
  | reset (mmio : Bool) (start : Net.Start)
  | intr
  | intrPass
  | deviceRx (idx : BitVec 16) (ring : Idx → UsedElem)
  | deviceTx (idx : BitVec 16) (ring : Idx → UsedElem)
  | deviceBytes (slot : Idx) (bytes : Fin slotSize → Byte)

namespace State

variable [DecidableEq ι] (layout : Layout) (s : State ι)

def goto (t : ι) (pc : Pc) : State ι := { s with pc := Function.update s.pc t pc }

/-- `virtio_net_send` from the head of its loop, with the lock held. -/
def sendLoop (t : ι) (frame : List Byte) (generation : BitVec 64) : State ι × Option Outcome :=
  if s.net.active && generation == s.net.stats.resets then
    match s.net.netFindFreeTxSlotLocked with
    | none =>
      ({ s with net.txWait := Function.update s.net.txWait t true }.goto t (.sendWait frame generation),none)
    | some slot =>
      if s.net.failed then (s.goto t .idle,some (-1,[]))
      else
        let r := s.net.sendSlot layout frame slot
        ({ s with net := r.1 }.goto t .idle,some (r.2,[]))
  else (s.goto t .idle,some (-1,[]))

/-- `virtio_net_receive` from the head of its loop, with the lock held. -/
def receiveLoop (t : ι) (capacity : BitVec 32) (generation : BitVec 64) : State ι × Option Outcome :=
  if s.net.active && generation == s.net.stats.resets && s.net.completions.count == 0 then
    ({ s with net.rxWait := Function.update s.net.rxWait t true }.goto t (.receiveWait capacity generation),none)
  else if !s.net.active || s.net.failed || generation != s.net.stats.resets then
    (s.goto t .idle,some (-1,[]))
  else
    let r := s.net.receiveSlot capacity
    ({ s with net := r.1 }.goto t .idle,some r.2)

/-- The next state, and what the caller returns if the event ends its call. An event that cannot happen
changes nothing. -/
def act : Event ι → State ι × Option Outcome
  | .callSend t frame =>
    match s.pc t,frame with
    | .idle,some frame =>
      if frame.length < 60 ∨ 1514 < frame.length then (s,some (-1,[]))
      else (s.goto t (.sendEnter frame),none)
    | .idle,none => (s,some (-1,[]))
    | _,_ => (s,none)
  | .callReceive t null capacity =>
    match s.pc t with
    | .idle => if null then (s,some (-1,[])) else (s.goto t (.receiveEnter capacity),none)
    | _ => (s,none)
  | .locked t =>
    if s.intr ≠ .outside then (s,none)
    else
      match s.pc t with
      | .idle => (s,none)
      | .sendEnter frame => s.sendLoop layout t frame s.net.stats.resets
      | .sendWait frame generation =>
        if s.net.txWait t then (s,none) else s.sendLoop layout t frame generation
      | .receiveEnter capacity => s.receiveLoop t capacity s.net.stats.resets
      | .receiveWait capacity generation =>
        if s.net.rxWait t then (s,none) else s.receiveLoop t capacity generation
  | .timeout t =>
    match s.pc t with
    | .receiveWait _ _ =>
      if s.net.rxWait t then
        ({ s with net.rxWait := Function.update s.net.rxWait t false }.goto t .idle,some (-1,[]))
      else (s,none)
    | _ => (s,none)
  | .reset mmio start =>
    if s.intr ≠ .outside then (s,none)
    else ({ s with net := (s.net.virtioNetReset layout mmio start).1 },none)
  | .intr =>
    if s.intr ≠ .outside then (s,none)
    else ({ s with net.stats.interrupts := s.net.stats.interrupts+1, intr := .rx },none)
  | .intrPass =>
    match s.intr with
    | .outside => (s,none)
    | .rx =>
      let r := s.net.intrRx
      ({ s with net := r.1, intr := if r.2 then .rx else .tx },none)
    | .tx =>
      let r := s.net.intrTx
      ({ s with net := r.1, intr := if r.2 then .tx else .outside },none)
  | .deviceRx idx ring => ({ s with net.rxQueue := s.net.rxQueue.device idx ring },none)
  | .deviceTx idx ring => ({ s with net.txQueue := s.net.txQueue.device idx ring },none)
  | .deviceBytes slot bytes =>
    ({ s with net := s.net.setRx slot { s.net.rx slot with bytes := bytes } },none)

def run (events : List (Event ι)) : State ι := events.foldl (fun s e => (s.act layout e).1) s

end State

/-- The driver before `virtio_net_init`, except for `failed`, which that sets first. -/
def Net.blank (ι : Type) : Net ι where
  rxQueue := virtqInit
  txQueue := virtqInit
  rxWait _ := false
  txWait _ := false
  completions := ⟨fun _ => 0,0,0,0⟩
  rx _ := ⟨fun _ => 0,0,.unposted⟩
  tx _ := ⟨fun _ => 0,0,false⟩
  pendingTx := 0
  stats := ⟨0,0,0,0,0,0⟩
  active := false
  failed := true
  resetting := false
  printed := []

/-- `virtio_net_init`. -/
def State.init (ι : Type) (layout : Layout) (start : Net.Start) : State ι :=
  ⟨((Net.blank ι).netStartLocked layout start).1,fun _ => .idle,.outside⟩

end VirtioNet
end QuardStarNet
