import QuardStarNet.NetStack

/-! The control blocks of `udp.c`: opening, binding and closing them, and datagrams that come in and
are read, one call after the other. -/
namespace QuardStarNet

open Pktbuf

instance : NeZero udpPcbMax := ⟨by decide⟩

instance : NeZero udpRecvMax := ⟨by decide⟩

/-- The fields of `udp_hdr_t`. -/
structure UdpHdr where
  srcPort : Port
  destPort : Port
  totalLen : BitVec 16
  checksum : BitVec 16
  deriving DecidableEq

/-- The header that a pointer to these bytes shows. -/
def UdpHdr.ofBytes (l : List Byte) : UdpHdr :=
  ⟨Arp.half l 0,Arp.half l 2,Arp.half l 4,Arp.half l 6⟩

/-- `udp_header_check`. -/
def udpHeaderCheck (header : UdpHdr) (size : ℤ) : NetErr :=
  if size < udpHeaderSize then .size
  else if (header.totalLen.toNat : ℤ) < udpHeaderSize ∨ size < header.totalLen.toNat then .size
  else .ok

namespace NetStack

/-- Whether a slot has an open block with this local port. -/
def UdpSlot.hasPort (u : UdpSlot) (port : Port) : Bool := u.pcb.any fun p => p.localPort == port

def UdpSlot.recvQueue (u : UdpSlot) : List (Fin udpRecvMax) :=
  (u.pcb.map UdpPcb.recvQueue).getD []

/-- A record is filled in and its place queued. -/
def UdpSlot.queue (u : UdpSlot) (j : Fin udpRecvMax) (r : UdpRecv) : UdpSlot where
  pcb := u.pcb.map fun p => { p with recvQueue := p.recvQueue++[j] }
  records := Function.update u.records j (some r)

def UdpSlot.clear (u : UdpSlot) (j : Fin udpRecvMax) : UdpSlot :=
  { u with records := Function.update u.records j none }

variable (s : NetStack) (i : Fin udpPcbMax) (b : BufId)

def setUdp (f : UdpSlot → UdpSlot) : NetStack :=
  { s with udp := Function.update s.udp i (f (s.udp i)) }

/-- Make the first `size` bytes contiguous; then the bytes that `pktbuf_data` points to. -/
def contData (size : ℤ) : NetStack × Option (List Byte) :=
  match s.onLink fun w => w.pktbufSetCont b size with
  | (s,.ok) => (s,s.link.pktbufData b)
  | (s,_) => (s,none)

/-- Create semaphores until one of them fails. -/
def semCreate : ℕ → NetStack → NetStack × Bool
  | 0, s => (s,true)
  | k+1, s =>
    let t := s.setLink s.link.spend
    if s.link.fate = .ok then semCreate k t else (t,false)

/-- `udp_open` of a block that is not open: its slot. The semaphores are the two of the queue and
`close_done`. -/
def udpOpen : NetStack × Option (Fin udpPcbMax) :=
  match (List.finRange udpPcbMax).find? fun i => (s.udp i).pcb.isNone with
  | none => (s,none)
  | some i =>
    match semCreate 3 s with
    | (s,false) => (s,none)
    | (s,true) => (s.setUdp i fun u => { u with pcb := some ⟨0,[]⟩ },some i)

/-- `udp_bind`. -/
def udpBind (port : Port) : NetStack × NetErr :=
  if (s.udp i).pcb.isNone ∨ port = 0 then (s,.param)
  else if ∃ j, j ≠ i ∧ (s.udp j).hasPort port then (s,.exist)
  else (s.setUdp i fun u => { u with pcb := u.pcb.map fun p => { p with localPort := port } },.ok)

/-- Free the buffer of a record, which is empty then. -/
def udpDrop (j : Fin udpRecvMax) : NetStack :=
  match (s.udp i).records j with
  | none => s
  | some r => (s.pktbufFree r.buf).setUdp i fun u => u.clear j

/-- `udp_close` when nobody waits for a datagram. -/
def udpClose : NetStack × NetErr :=
  match (s.udp i).pcb with
  | none => (s,.param)
  | some pcb =>
    ((pcb.recvQueue.foldl (fun s j => s.udpDrop i j) s).setUdp i fun u => { u with pcb := none },.ok)

/-- The checks of `udp_in`: the header of a datagram that passes them. -/
def udpCheck (src dest : IpAddr) : NetStack × Except NetErr UdpHdr :=
  match s.contData b udpHeaderSize with
  | (s,none) => (s,.error .size)
  | (s,some data) =>
    let header := UdpHdr.ofBytes data
    if udpHeaderCheck header (s.link.pktbufTotal b) ≠ .ok then
      (s,.error (udpHeaderCheck header (s.link.pktbufTotal b)))
    else
      -- a sender may leave the checksum out
      let r := if header.checksum = 0 then (s,0)
        else s.onLink fun w => transportChecksum w b src dest netProtocolUdp header.totalLen
      if r.2 ≠ 0 then (r.1,.error .chksum)
      else
        match r.1.onLink fun w => w.pktbufResize b header.totalLen.toNat with
        | (s,.ok) => (s,.ok header)
        | (s,_) => (s,.error .size)

/-- What `udp_in` does with the block that it finds. -/
def udpQueue (src : IpAddr) (srcPort : Port) : NetStack × NetErr :=
  match (List.finRange udpRecvMax).find? fun j => ((s.udp i).records j).isNone with
  | none => (s,.full)
  | some j =>
    let t := s.setLink s.link.spend
    if (fixqSend (s.udp i).recvQueue udpRecvMax j s.link.fate).2 = .ok then
      (t.setUdp i fun u => u.queue j ⟨b,src,srcPort⟩,.ok)
    else (t,.full)

/-- `udp_in`. -/
def udpIn (src dest : IpAddr) : NetStack × NetErr :=
  match s.udpCheck b src dest with
  | (s,.error err) => (s,err)
  | (s,.ok header) =>
    match (List.finRange udpPcbMax).find? fun i => (s.udp i).hasPort header.destPort with
    | none => (s,.unreach)
    | some i => s.udpQueue i b src header.srcPort

/-- Read at most `size` bytes behind the header of a datagram. -/
def udpRead (size : ℕ) : NetStack × Except NetErr (List Byte) :=
  match s.onLink fun w => w.pktbufRemoveHeader b udpHeaderSize with
  | (s,.ok) =>
    match s.onLink fun w => (w.pktbufResetAcc b).pktbufRead b (min (w.pktbufTotal b) size) with
    | (s,.ok,data) => (s,.ok data)
    | (s,_,_) => (s,.error .size)
  | (s,_) => (s,.error .size)

/-- `udp_recvfrom` when no other thread receives; `wait` says whether the timeout is not negative.
Nothing comes in while it waits. -/
def udpRecvfrom (size : ℕ) (wait : Bool) : NetStack × Except NetErr (List Byte × IpAddr × Port) :=
  match (s.udp i).pcb with
  | none => (s,.error .state)
  | some ⟨_,[]⟩ => (s,.error (if wait then .tmo else .none))
  | some ⟨port,j :: rest⟩ =>
    let s := s.setUdp i fun u => { u with pcb := some ⟨port,rest⟩ }
    match (s.udp i).records j with
    | none => (s,.error .size)
    | some r =>
      let t := s.udpRead r.buf size
      (t.1.udpDrop i j,t.2.map fun data => (data,r.src,r.port))

end NetStack
end QuardStarNet
