import QuardStarNet.PktbufCursor
import QuardStarNet.TcpPcb
import QuardStarNet.Arp

/-! The packet pool and the interfaces: the queues of `netif.c`, the loop and virtio drivers, and
frames going out through `ether_raw_out`. -/
namespace QuardStarNet

open Pktbuf

/-- `NETIF_DEV_CNT`. -/
def netifDevCnt : ℕ := 4
/-- `NETIF_INQ_SIZE`. -/
def netifInqSize : ℕ := 16
/-- `NETIF_OUTQ_SIZE`. -/
def netifOutqSize : ℕ := 16
/-- `ETH_MTU`. -/
def ethMtu : ℤ := 1500
/-- `ETH_DATA_MIN`. -/
def ethDataMin : ℤ := 46
/-- `sizeof(ether_hdr_t)`. -/
def etherHdrSize : ℤ := 14
/-- `ETH_FRAME_MIN`. -/
def ethFrameMin : ℤ := 60
/-- `ETH_FRAME_MAX`, which is also `ETHERNET_MAX_FRAME`. -/
def ethFrameMax : ℤ := 1514

/-- The references to a buffer; a buffer in the free list has none. -/
def Pktbuf.Pool.refs (p : Pool) (b : BufId) : ℕ := if b ∈ p.pktbufList then 0 else (p.bufs b).ref

namespace NetLink

/-- `netif_state_t`. -/
inductive NetifState
  | closed | opened | active
  deriving DecidableEq

/-- `netif_type_t`. -/
inductive NetifType
  | none | ether | loop
  deriving DecidableEq

/-- The drivers whose operations an interface can have. -/
inductive Driver
  | loop | virtio
  deriving DecidableEq

/-- `netif_t`. `xmit` says whose transmit operation `ops` has; `etherLayer` that `link_layer` is
the one of `ether.c` and not null. -/
structure Netif where
  state : NetifState
  type : NetifType
  mtu : ℤ
  hwaddrLen : ℕ
  hwaddr : HwAddr
  ipaddr : IpAddr
  netmask : IpAddr
  xmit : Option Driver
  etherLayer : Bool
  inQ : List BufId
  outQ : List BufId

end NetLink

/-- The pool, the interfaces, outcomes of semaphores and of the device still to come (an exhausted
list means success), the frames that the device took, and whether `pktbuf_free` was ever called on
a buffer without references. -/
structure NetLink where
  pool : Pool
  netifs : Fin netifDevCnt → NetLink.Netif
  fates : List NetErr
  wire : List (List Byte)
  freedTwice : Bool

/-- `fixq_send` that does not wait; `fate` is what the semaphore says. -/
def fixqSend {α : Type} (queue : List α) (size : ℕ) (msg : α) (fate : NetErr) : List α × NetErr :=
  if queue.length = size then (queue,.full)
  else if fate ≠ .ok then (queue,if fate = .tmo then .full else fate)
  else (queue++[msg],.ok)

namespace NetLink

variable (w : NetLink) (n : NetifId) (b : BufId)

/-- The interface that a pointer means; `none` is the null pointer. -/
def netif : Option Netif := if h : n < netifDevCnt then some (w.netifs ⟨n,h⟩) else none

def setNetif (f : Netif → Netif) : NetLink :=
  if h : n < netifDevCnt then
    { w with netifs := Function.update w.netifs ⟨n,h⟩ (f (w.netifs ⟨n,h⟩)) }
  else w

def fate : NetErr := w.fates.headD .ok

def spend : NetLink := { w with fates := w.fates.tail }

/-! Packet buffers. -/

def pktbufAlloc (size : ℤ) : NetLink × Option BufId :=
  let r := w.pool.pktbufAlloc size
  ({ w with pool := r.1 },r.2)

def pktbufFree : NetLink :=
  { w with
    pool := w.pool.pktbufFree b
    freedTwice := w.freedTwice || w.pool.refs b == 0 }

def pktbufIncRef : NetLink := { w with pool := w.pool.pktbufIncRef b }

/-- Run an operation that works on the blocks a buffer has. -/
def onBytes {α : Type} (f : Buf → Buf × α) : NetLink × α :=
  let r := f (w.pool.bufs b)
  ({ w with pool := w.pool.setBuf b r.1 },r.2)

/-- Run an operation that takes blocks from the pool or gives them back. -/
def onBlocks (f : Buf → List Pktblk → (List Pktblk × Buf) × NetErr) : NetLink × NetErr :=
  let r := w.pool.onBuf b f
  ({ w with pool := r.1 },r.2)

def pktbufTotal : ℤ := (w.pool.bufs b).totalSize

def pktbufData : Option (List Byte) := (w.pool.bufs b).pktbufData

def pktbufStore (offset : ℕ) (bytes : List Byte) : NetLink :=
  (w.onBytes b fun x => (x.store offset bytes,())).1

def pktbufResetAcc : NetLink := (w.onBytes b fun x => (x.pktbufResetAcc,())).1

def pktbufWrite (src : List Byte) : NetLink × NetErr := w.onBytes b fun x => x.pktbufWrite src

def pktbufRead (size : ℤ) : NetLink × NetErr × List Byte := w.onBytes b fun x => x.pktbufRead size

def pktbufSeek (offset : ℤ) : NetLink × NetErr := w.onBytes b fun x => x.pktbufSeek offset

def pktbufFill (v : Byte) (size : ℤ) : NetLink × NetErr := w.onBytes b fun x => x.pktbufFill v size

def pktbufChecksum16 (size : ℤ) (preSum : ℕ) : NetLink × BitVec 16 :=
  w.onBytes b fun x => x.pktbufChecksum16 size preSum

def pktbufAddHeader (size : ℤ) (cont : Bool) : NetLink × NetErr :=
  w.onBlocks b fun x free => x.pktbufAddHeader free size cont

def pktbufRemoveHeader (size : ℤ) : NetLink × NetErr :=
  w.onBlocks b fun x free => x.pktbufRemoveHeader free size

def pktbufResize (toSize : ℤ) : NetLink × NetErr :=
  w.onBlocks b fun x free => x.pktbufResize free toSize

def pktbufSetCont (size : ℤ) : NetLink × NetErr :=
  w.onBlocks b fun x free => x.pktbufSetCont free size

/-- `pktbuf_copy`. -/
def pktbufCopy (dest src : BufId) (size : ℤ) : NetLink × NetErr :=
  let x := w.pool.bufs dest
  let y := w.pool.bufs src
  if size < 0 then (w,.param)
  else if size = 0 then (w,.ok)
  else if x.totalBlkRemain < size ∨ y.totalBlkRemain < size then (w,.size)
  else
    let r := Buf.copyLoop size.toNat size.toNat x y
    ({ w with pool := (w.pool.setBuf dest r.1).setBuf src r.2 },.ok)

/-- Go on when a call succeeded; when it failed, free the buffer and pass the error on. -/
def orFree (r : NetLink × NetErr) (k : NetLink → NetLink × NetErr) : NetLink × NetErr :=
  if r.2 = .ok then k r.1 else (r.1.pktbufFree b,r.2)

/-! Queues. -/

/-- `netif_put_in` that does not wait. -/
def netifPutIn : NetLink × NetErr :=
  match w.netif n with
  | none => (w,.param)
  | some nf =>
    let r := fixqSend nf.inQ netifInqSize b w.fate
    (w.spend.setNetif n fun nf => { nf with inQ := r.1 },r.2)

/-- `netif_put_out` that does not wait. -/
def netifPutOut : NetLink × NetErr :=
  match w.netif n with
  | none => (w,.param)
  | some nf =>
    let r := fixqSend nf.outQ netifOutqSize b w.fate
    (w.spend.setNetif n fun nf => { nf with outQ := r.1 },r.2)

/-- `netif_get_in` that does not wait. -/
def netifGetIn : NetLink × Option BufId :=
  match (w.netif n).map Netif.inQ with
  | some (b :: rest) => ((w.setNetif n fun nf => { nf with inQ := rest }).pktbufResetAcc b,some b)
  | _ => (w,none)

/-- `netif_get_out` that does not wait. -/
def netifGetOut : NetLink × Option BufId :=
  match (w.netif n).map Netif.outQ with
  | some (b :: rest) => ((w.setNetif n fun nf => { nf with outQ := rest }).pktbufResetAcc b,some b)
  | _ => (w,none)

/-! Drivers. -/

/-- `loop_xmit`. -/
def loopXmit : NetLink × NetErr :=
  match w.netifGetOut n with
  | (w,none) => (w,.none)
  | (w,some b) => orFree b (w.netifPutIn n b) fun w => (w,.ok)

/-- `virtio_net_send`. -/
def virtioNetSend (frame : List Byte) : NetLink × NetErr :=
  if w.fate = .ok then ({ w.spend with wire := w.wire++[frame] },.ok) else (w.spend,w.fate)

/-- What `netif_virtio_xmit` does with one buffer: the result so far, and whether the loop goes
on. -/
def xmitOne (result : NetErr) : NetLink × NetErr × Bool :=
  let size := w.pktbufTotal b
  if ethFrameMax < size then (w.pktbufFree b,.size,true)
  else
    let r := (w.pktbufResetAcc b).pktbufRead b size
    if size ≠ 0 ∧ r.2.1 ≠ .ok then (r.1.pktbufFree b,.size,true)
    else
      -- a short frame is filled up with zeros
      let frame := r.2.2++List.replicate (ethFrameMin.toNat-r.2.2.length) 0
      let s := r.1.virtioNetSend frame
      if s.2 ≠ .ok then (s.1.pktbufFree b,.io,false) else (s.1.pktbufFree b,result,true)

/-- The loop of `netif_virtio_xmit`; nothing is put in the queue meanwhile. -/
def xmitLoop (n : NetifId) : ℕ → NetErr → NetLink → NetLink × NetErr
  | 0, result, w => (w,result)
  | fuel+1, result, w =>
    match w.netifGetOut n with
    | (w,none) => (w,result)
    | (w,some b) =>
      match w.xmitOne b result with
      | (w,result,true) => xmitLoop n fuel result w
      | (w,result,false) => (w,result)

/-- `netif_virtio_xmit`. -/
def netifVirtioXmit : NetLink × NetErr :=
  match w.netif n with
  | none => (w,.param)
  | some nf => xmitLoop n nf.outQ.length .ok w

/-- The transmit operation of a driver. -/
def Driver.xmit : Driver → NetLink × NetErr
  | .loop => w.loopXmit n
  | .virtio => w.netifVirtioXmit n

/-- Queue a packet and have the driver transmit, as `netif_out` and `ether_raw_out` do. -/
def send (nf : Netif) : NetLink × NetErr :=
  match nf.xmit with
  | none => (w.pktbufFree b,.notSupport)
  | some d => orFree b (w.netifPutOut n b) fun w => d.xmit w n

/-! Frames. -/

/-- A short payload is filled up with zeros. -/
def etherPad (payloadSize : ℤ) : NetLink × NetErr :=
  if payloadSize < ethDataMin then
    onOk (w.pktbufResize b ethDataMin) fun w =>
    onOk ((w.pktbufResetAcc b).pktbufSeek b payloadSize) fun w =>
    w.pktbufFill b 0 (ethDataMin-payloadSize)
  else (w,.ok)

/-- `ether_raw_out`. -/
def etherRawOut (protocol : BitVec 16) (dest : HwAddr) : NetLink × NetErr :=
  match w.netif n with
  | none => (w.pktbufFree b,.param)
  | some nf =>
    if nf.state ≠ .active ∨ nf.hwaddrLen < ethHwaSize then (w.pktbufFree b,.state)
    else
      let payloadSize := w.pktbufTotal b
      if ethMtu < payloadSize then (w.pktbufFree b,.size)
      else
        orFree b (w.etherPad b payloadSize) fun w =>
        orFree b (w.pktbufAddHeader b etherHdrSize true) fun w =>
        match w.pktbufData b with
        | none => (w.pktbufFree b,.size)
        | some _ =>
          let src := nf.hwaddr.take ethHwaSize
          let w := w.pktbufStore b 0 (dest.take ethHwaSize++src++NetBytes.be16 protocol)
          if src = dest.take ethHwaSize then orFree b (w.netifPutIn n b) fun w => (w,.ok)
          else w.send n b nf

/-- What ARP sees of the layers below it. -/
def below : Arp.Below NetLink BufId where
  hwaddr w n := ((w.netif n).map fun nf => nf.hwaddr.take ethHwaSize).getD []
  ipaddr w n := ((w.netif n).map Netif.ipaddr).getD 0
  netmask w n := ((w.netif n).map Netif.netmask).getD 0
  pktbufAlloc := pktbufAlloc
  pktbufFree := pktbufFree
  pktbufIncRef := pktbufIncRef
  pktbufSetCont := pktbufSetCont
  pktbufTotal := pktbufTotal
  pktbufData := pktbufData
  pktbufStore w b bytes := w.pktbufStore b 0 bytes
  etherRawOut w n protocol dest b := w.etherRawOut n b protocol dest

/-- `netif_virtio_poll` when the device delivers `frame`. -/
def netifVirtioPoll (frame : List Byte) : NetLink × NetErr :=
  if (frame.length : ℤ) < ethFrameMin ∨ ethFrameMax < frame.length then (w,.size)
  else
    match w.pktbufAlloc frame.length with
    | (w,none) => (w,.mem)
    | (w,some b) =>
      match w.pktbufWrite b frame with
      | (w,.ok) => orFree b (w.netifPutIn n b) fun w => (w,.ok)
      | (w,_) => (w.pktbufFree b,.size)

end NetLink
end QuardStarNet
