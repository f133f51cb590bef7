import QuardStarNet.NetLink
import QuardStarNet.TcpRun

/-! The state of the stack, and packets on their way out: `netif_out`, `ipv4_out`, the echo
requests of `icmpv4.c` and the datagrams of `udp.c`. -/
namespace QuardStarNet

open Pktbuf

/-- `UDP_PCB_MAX`. -/
def udpPcbMax : ℕ := 16
/-- `UDP_RECV_MAX`. -/
def udpRecvMax : ℕ := 8
/-- `UDP_HEADER_SIZE`. -/
def udpHeaderSize : ℤ := 8
/-- `IPV4_HEADER_MIN`. -/
def ipv4HeaderMin : ℤ := 20
/-- `sizeof(icmpv4_hdr_t)`. -/
def icmpv4HdrSize : ℤ := 8

def netProtocolIcmpv4 : Byte := 0x01
def netProtocolUdp : Byte := 0x11
def netProtocolTcp : Byte := 0x06

namespace NetStack

/-- `icmpv4_stats_t`. -/
structure Icmpv4Stats where
  echoRequests : BitVec 32
  echoReplies : BitVec 32
  lastReplyIdentifier : BitVec 16
  lastReplySequence : BitVec 16

/-- `udp_recv_t` with a buffer. -/
structure UdpRecv where
  buf : BufId
  src : IpAddr
  port : Port

/-- `udp_pcb_t`; the queue holds the places of records in `recv_records`. -/
structure UdpPcb where
  localPort : Port
  recvQueue : List (Fin udpRecvMax)

/-- An entry of `pcbs` in `udp.c`, null or a block that is open, and its row of `recv_records`. -/
structure UdpSlot where
  pcb : Option UdpPcb
  records : Fin udpRecvMax → Option UdpRecv

end NetStack

/-- The static data of the stack. `outstanding` has the buffers that the `outstanding` fields of
the TCP control blocks point to; the table has their contents. -/
structure NetStack where
  arp : Arp NetLink BufId
  nextPacketId : BitVec 16
  icmpv4Stats : NetStack.Icmpv4Stats
  udp : Fin udpPcbMax → NetStack.UdpSlot
  tcp : Tcp.Table
  outstanding : Tcp.Slot → Option BufId

namespace NetLink

/-- An interface that is not open. -/
def closedNetif : Netif :=
  ⟨.closed,.none,0,0,List.replicate ethHwaSize 0,0,0,none,false,[],[]⟩

/-- The interface of `loop_init`. -/
def loopNetif : Netif :=
  { closedNetif with
    state := .active
    type := .loop
    mtu := ethMtu
    ipaddr := 0x7f000001
    netmask := 0xff000000
    xmit := some .loop }

/-- The interface `eth0` of `net_stack_init`. -/
def ethNetif (mac : HwAddr) : Netif :=
  { closedNetif with
    state := .active
    type := .ether
    mtu := ethMtu
    hwaddrLen := ethHwaSize
    hwaddr := mac
    ipaddr := 0xc0a86402
    netmask := 0xffffff00
    xmit := some .virtio
    etherLayer := true }

/-- The interfaces in the order in which they are opened. -/
def bootNetif (mac : HwAddr) : ℕ → Netif
  | 0 => loopNetif
  | 1 => ethNetif mac
  | _ => closedNetif

end NetLink

namespace NetStack

/-- `net_stack_init`, with the address of the device and the outcomes to come. -/
def netStackInit (mac : HwAddr) (fates : List NetErr) : NetStack where
  arp := Arp.arpInit ⟨Pool.init,fun n => NetLink.bootNetif mac n,fates,[],false⟩
  nextPacketId := 0
  icmpv4Stats := ⟨0,0,0,0⟩
  udp _ := ⟨none,fun _ => none⟩
  tcp := Tcp.tcpInit
  outstanding _ := none

variable (s : NetStack) (n : NetifId) (b : BufId)

def link : NetLink := s.arp.world

def setLink (w : NetLink) : NetStack := { s with arp := { s.arp with world := w } }

/-- Run an operation of the layer below ARP. -/
def onLink {α : Type} (f : NetLink → NetLink × α) : NetStack × α :=
  let r := f s.link
  (s.setLink r.1,r.2)

def pktbufFree : NetStack := s.setLink (s.link.pktbufFree b)

/-- Go on when a call succeeded; when it failed, free the buffer and pass the error on. -/
def orFree (r : NetStack × NetErr) (k : NetStack → NetStack × NetErr) : NetStack × NetErr :=
  if r.2 = .ok then k r.1 else (r.1.pktbufFree b,r.2)

/-- `arp_resolve`. -/
def arpResolve (dest : IpAddr) : NetStack × NetErr :=
  match s.link.netif n with
  | none => (s.pktbufFree b,.param)
  | some _ =>
    let r := s.arp.arpResolve NetLink.below n dest b
    ({ s with arp := r.1 },r.2)

/-- `netif_out`. -/
def netifOut (dest : IpAddr) : NetStack × NetErr :=
  match s.link.netif n with
  | none => (s.pktbufFree b,.param)
  | some nf =>
    if nf.state ≠ .active then (s.pktbufFree b,.state)
    else if nf.etherLayer then s.arpResolve n b dest
    else s.onLink fun w => w.send n b nf

/-- The header that `ipv4_out` writes, with the given checksum. -/
def ipv4Header (totalLen id : BitVec 16) (protocol : Byte) (src dest : IpAddr)
    (checksum : BitVec 16) : List Byte :=
  [0x45,0]++NetBytes.be16 totalLen++NetBytes.be16 id++NetBytes.be16 0x4000++[64,protocol]++
    NetBytes.be16 checksum++NetBytes.be32 src++NetBytes.be32 dest

/-- `ipv4_out`. -/
def ipv4Out (dest : IpAddr) (protocol : Byte) : NetStack × NetErr :=
  match s.link.netif n with
  | none => (s.pktbufFree b,.param)
  | some nf =>
    if nf.state ≠ .active then (s.pktbufFree b,.state)
    else
      let payloadSize := s.link.pktbufTotal b
      if payloadSize ≤ 0 ∨ nf.mtu-ipv4HeaderMin < payloadSize then (s.pktbufFree b,.size)
      else
        orFree b (s.onLink fun w => w.pktbufAddHeader b ipv4HeaderMin true) fun s =>
        match s.link.pktbufData b with
        | none => (s.pktbufFree b,.size)
        | some _ =>
          let header := ipv4Header (BitVec.ofInt 16 (payloadSize+ipv4HeaderMin)) s.nextPacketId
            protocol nf.ipaddr dest
          let checksum := ~~~(BitVec.ofNat 16 (Tcp.checksum16 0 (header 0) 0))
          let s := { s with nextPacketId := s.nextPacketId+1 }
          (s.setLink (s.link.pktbufStore b 0 (header checksum))).netifOut n b dest

/-- Write `payload` behind a header of `offset` bytes; an error is reported as such. -/
def writeBehind (w : NetLink) (b : BufId) (offset : ℤ) (payload : List Byte) : NetLink × NetErr :=
  if payload = [] then (w,.ok)
  else
    onOk ((w.pktbufResetAcc b).pktbufSeek b offset) fun w => w.pktbufWrite b payload

/-- `icmpv4_out_echo`. -/
def icmpv4OutEcho (dest : IpAddr) (identifier sequence : BitVec 16) (payload : List Byte) :
    NetStack × NetErr :=
  match s.link.netif n with
  | none => (s,.param)
  | some nf =>
    if nf.mtu-ipv4HeaderMin-icmpv4HdrSize < payload.length then (s,.size)
    else
      match s.onLink fun w => w.pktbufAlloc (icmpv4HdrSize+payload.length) with
      | (s,none) => (s,.mem)
      | (s,some b) =>
        let w := s.link.pktbufStore b 0
          ([8,0,0,0]++NetBytes.be16 identifier++NetBytes.be16 sequence)
        match writeBehind w b icmpv4HdrSize payload with
        | (w,.ok) =>
          let r := (w.pktbufResetAcc b).pktbufChecksum16 b (w.pktbufTotal b) 0
          (s.setLink (r.1.pktbufStore b 2 (NetBytes.be16 r.2))).ipv4Out n b dest netProtocolIcmpv4
        | (w,_) => ((s.setLink w).pktbufFree b,.size)

/-- The sum over a pseudo header. -/
def pseudoSum (src dest : IpAddr) (protocol : Byte) (length : BitVec 16) : ℕ :=
  Tcp.checksum16 0 (NetBytes.be32 src++NetBytes.be32 dest++[0,protocol]++NetBytes.be16 length) 0

/-- `udp_checksum`, and `tcp_checksum` with the other protocol number. -/
def transportChecksum (w : NetLink) (b : BufId) (src dest : IpAddr) (protocol : Byte)
    (length : BitVec 16) : NetLink × BitVec 16 :=
  (w.pktbufResetAcc b).pktbufChecksum16 b length.toNat (pseudoSum src dest protocol length)

/-- A checksum of zero is sent as its complement. -/
def sentChecksum (checksum : BitVec 16) : BitVec 16 := if checksum = 0 then 0xffff else checksum

/-- `udp_sendto` from the block in slot `i`. -/
def udpSendto (i : Fin udpPcbMax) (dest : IpAddr) (destPort : Port) (data : List Byte) :
    NetStack × NetErr :=
  match (s.udp i).pcb, s.link.netif n with
  | some pcb, some nf =>
    if destPort = 0 then (s,.param)
    else
      match s.onLink fun w => w.pktbufAlloc (udpHeaderSize+data.length) with
      | (s,none) => (s,.mem)
      | (s,some b) =>
        let length := BitVec.ofInt 16 (udpHeaderSize+data.length)
        let w := s.link.pktbufStore b 0 (NetBytes.be16 pcb.localPort++NetBytes.be16 destPort++
          NetBytes.be16 length++[0,0])
        match writeBehind w b udpHeaderSize data with
        | (w,.ok) =>
          let r := transportChecksum w b nf.ipaddr dest netProtocolUdp length
          (s.setLink (r.1.pktbufStore b 6 (NetBytes.be16 (sentChecksum r.2)))).ipv4Out n b dest
            netProtocolUdp
        | (w,_) => ((s.setLink w).pktbufFree b,.size)
  | _, _ => (s,.param)

end NetStack
end QuardStarNet
