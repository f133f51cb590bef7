import QuardStarNet.TcpBuffers
import QuardStarNet.UdpSockets

/-! Packets on their way in: `ether_in`, `arp_in`, `ipv4_in`, `icmpv4_in` and
`net_stack_process_input`. -/
namespace QuardStarNet

open Pktbuf

/-- `IPV4_HEADER_MAX`. -/
def ipv4HeaderMax : ℕ := 60

/-- `ipaddr_is_match`. -/
def ipaddrIsMatch (dest src netmask : IpAddr) : Bool :=
  ipaddrIsLocalBroadcast dest ||
    ipaddrIsDirectBroadcast dest netmask && dest &&& netmask == src &&& netmask || dest == src

/-- The fields of `ipv4_hdr_t` that `ipv4_in` reads. -/
structure Ipv4Hdr where
  versionIhl : Byte
  totalLen : BitVec 16
  fragOff : BitVec 16
  protocol : Byte
  srcIp : IpAddr
  destIp : IpAddr

/-- The header that a pointer to these bytes shows. -/
def Ipv4Hdr.ofBytes (l : List Byte) : Ipv4Hdr :=
  ⟨l.getD 0 0,Arp.half l 2,Arp.half l 6,l.getD 9 0,Arp.ipaddrAt l 12,Arp.ipaddrAt l 16⟩

def Ipv4Hdr.version (h : Ipv4Hdr) : ℕ := (h.versionIhl >>> 4).toNat

def Ipv4Hdr.headerSize (h : Ipv4Hdr) : ℕ := (h.versionIhl &&& 0x0f).toNat*4

namespace NetStack

variable (s : NetStack) (n : NetifId) (b : BufId)

def pktbufTotal : ℤ := s.link.pktbufTotal b

/-- The sum over the first `size` bytes, as `pktbuf_reset_acc` and `pktbuf_checksum16` give it. -/
def checksumFront (size : ℤ) : NetStack × BitVec 16 :=
  s.onLink fun w => (w.pktbufResetAcc b).pktbufChecksum16 b size 0

/-- `icmpv4_echo_reply`. -/
def icmpv4EchoReply (src : IpAddr) : NetStack × NetErr :=
  match s.contData b icmpv4HdrSize with
  | (s,none) => (s,.size)
  | (s,some _) =>
    let s := s.setLink (s.link.pktbufStore b 0 [0,0,0,0])
    let r := s.checksumFront b (s.pktbufTotal b)
    let w := r.1.link.pktbufStore b 2 (NetBytes.be16 r.2)
    let r := (r.1.setLink (w.pktbufIncRef b)).ipv4Out n b src netProtocolIcmpv4
    if r.2 = .ok then (r.1.pktbufFree b,.ok) else r

/-- A reply to an echo request is counted. -/
def countReply (identifier sequence : BitVec 16) : NetStack :=
  { s with icmpv4Stats := { s.icmpv4Stats with
      echoReplies := s.icmpv4Stats.echoReplies+1
      lastReplyIdentifier := identifier
      lastReplySequence := sequence } }

def countRequest : NetStack :=
  { s with icmpv4Stats := { s.icmpv4Stats with echoRequests := s.icmpv4Stats.echoRequests+1 } }

/-- `icmpv4_in`. -/
def icmpv4In (src _dest : IpAddr) : NetStack × NetErr :=
  if s.pktbufTotal b < icmpv4HdrSize then (s,.size)
  else
    match s.onLink fun w => w.pktbufSetCont b icmpv4HdrSize with
    | (s,.ok) =>
      let r := s.checksumFront b (s.pktbufTotal b)
      if r.2 ≠ 0 then (r.1,.chksum)
      else
        match r.1.link.pktbufData b with
        | none => (r.1,.size)
        | some data =>
          if data.getD 1 0 ≠ 0 then (r.1,.notSupport)
          else if data.getD 0 0 = 0 then
            ((r.1.countReply (Arp.half data 4) (Arp.half data 6)).pktbufFree b,.ok)
          else if data.getD 0 0 ≠ 8 then (r.1,.notSupport)
          else r.1.countRequest.icmpv4EchoReply n b src
    | (s,_) => (s,.size)

/-- The tests that `ipv4_in` makes on the bytes of a packet of `totalSize` bytes before it changes
the buffer. -/
def ipv4Header? (totalSize : ℤ) : NetStack × Except NetErr Ipv4Hdr :=
  if totalSize < ipv4HeaderMin then (s,.error .size)
  else
    match s.contData b ipv4HeaderMin with
    | (s,none) => (s,.error .size)
    | (s,some data) =>
      let header := Ipv4Hdr.ofBytes data
      if header.version ≠ 4 ∨ (header.headerSize : ℤ) < ipv4HeaderMin ∨
          ipv4HeaderMax < header.headerSize ∨ totalSize < header.headerSize then
        (s,.error .format)
      else
        let r := if ipv4HeaderMin < header.headerSize then s.contData b header.headerSize
          else (s,s.link.pktbufData b)
        match r with
        | (s,none) => (s,.error .size)
        | (s,some data) =>
          let header := Ipv4Hdr.ofBytes data
          if header.totalLen.toNat < header.headerSize ∨ totalSize < header.totalLen.toNat then
            (s,.error .size)
          else (s,.ok header)

/-- `ipv4_input_handler_t`. -/
abbrev Handler := NetStack → NetifId → IpAddr → IpAddr → BufId → NetStack × NetErr

/-- `ipv4_in` with the table of handlers. -/
def ipv4InWith (handlers : Byte → Option Handler) : NetStack × NetErr :=
  match s.link.netif n with
  | none => (s,.param)
  | some nf =>
    match s.ipv4Header? b (s.pktbufTotal b) with
    | (s,.error err) => (s,err)
    | (s,.ok header) =>
      match s.onLink fun w => w.pktbufResize b header.totalLen.toNat with
      | (s,.ok) =>
        let r := s.checksumFront b header.headerSize
        if r.2 ≠ 0 then (r.1,.chksum)
        else if header.fragOff &&& 0x3fff ≠ 0 then (r.1,.notSupport)
        else if ¬ipaddrIsMatch header.destIp nf.ipaddr nf.netmask then (r.1,.unreach)
        else
          match handlers header.protocol with
          | none => (r.1,.notSupport)
          | some handler =>
            match r.1.onLink fun w => w.pktbufRemoveHeader b header.headerSize with
            | (s,.ok) =>
              handler (s.setLink (s.link.pktbufResetAcc b)) n header.srcIp header.destIp b
            | (s,_) => (s,.size)
      | (s,_) => (s,.size)

/-- The handlers that `icmpv4_init`, `udp_init` and `tcp_init` register. -/
def handlers (protocol : Byte) : Option Handler :=
  if protocol = netProtocolIcmpv4 then some fun s n src dest b => s.icmpv4In n b src dest
  else if protocol = netProtocolUdp then some fun s _ src dest b => s.udpIn b src dest
  else if protocol = netProtocolTcp then some fun s n src dest b => s.tcpIn n src dest b
  else none

/-- `ipv4_in`. -/
def ipv4In : NetStack × NetErr := s.ipv4InWith n b handlers

/-- `arp_in`. -/
def arpIn : NetStack × NetErr :=
  match s.link.netif n with
  | none => (s,.param)
  | some _ =>
    let r := s.arp.arpIn NetLink.below n b
    ({ s with arp := r.1 },r.2)

/-- `ether_in`. -/
def etherIn : NetStack × NetErr :=
  match s.link.netif n with
  | none => (s,.param)
  | some nf =>
    if s.pktbufTotal b < ethFrameMin ∨ ethFrameMax < s.pktbufTotal b then (s,.size)
    else
      match s.contData b etherHdrSize with
      | (s,none) => (s,.size)
      | (s,some data) =>
        let dest := data.take ethHwaSize
        if ethHwaSize ≤ nf.hwaddrLen ∧ dest ≠ nf.hwaddr.take ethHwaSize ∧
            dest ≠ etherBroadcastAddr then
          (s,.unreach)
        else
          let protocol := Arp.half data 12
          match s.onLink fun w => w.pktbufRemoveHeader b etherHdrSize with
          | (s,.ok) =>
            let s := s.setLink (s.link.pktbufResetAcc b)
            if protocol = netProtocolArp then s.arpIn n b
            else if protocol = netProtocolIpv4 then s.ipv4In n b
            else (s,.notSupport)
          | (s,_) => (s,.size)

/-- The layer that takes the packets of an interface. -/
def layerIn (nf : NetLink.Netif) : NetStack × NetErr :=
  if nf.type = .loop then s.ipv4In n b
  else if nf.type = .ether ∧ nf.etherLayer then s.etherIn n b
  else (s,.notSupport)

/-- `net_stack_process_input`. -/
def netStackProcessInput : NetStack × NetErr :=
  match s.link.netif n with
  | none => (s,.param)
  | some nf =>
    if nf.state ≠ .active then (s,.state)
    else
      match s.onLink fun w => w.netifGetIn n with
      | (s,none) => (s,.none)
      | (s,some b) =>
        let r := s.layerIn n b nf
        if r.2 = .ok then r else (r.1.pktbufFree b,r.2)

/-- `net_stack_poll_once` when the device delivers `frame`; without one it times out. -/
def netStackPollOnce (frame : Option (List Byte)) : NetStack × NetErr :=
  match s.link.netif n with
  | none => (s,.param)
  | some nf =>
    if nf.state ≠ .active then (s,.state)
    else
      match frame with
      | none => (s,.tmo)
      | some frame => onOk (s.onLink fun w => w.netifVirtioPoll n frame) fun s =>
          s.netStackProcessInput n

end NetStack
end QuardStarNet
