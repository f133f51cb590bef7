import QuardStarNet.UdpFrames

/-! A datagram on its way from `ether_in` to `udp_recvfrom`, and the whole way from one host to the
other. -/
namespace QuardStarNet

open Pktbuf Windows NetBytes

namespace NetStack

variable {s t : NetStack} {n m : NetifId} {nf nf' : NetLink.Netif} {b c : BufId} {l : List Byte}

/-! What each layer reads out of the bytes that its peer wrote. -/

theorem ofBytes_ipv4Header (totalLen id : BitVec 16) (protocol : Byte) (src dest : IpAddr)
    (checksum : BitVec 16) (l : List Byte) :
    Ipv4Hdr.ofBytes (ipv4Header totalLen id protocol src dest checksum++l) =
      ⟨0x45,totalLen,0x4000,protocol,src,dest⟩ := by
  have hflags : of16 64 0 = 0x4000 := by decide
  simpa [Ipv4Hdr.ofBytes,ipv4Header,Arp.half,Arp.ipaddrAt,be16,be32,of16_be16,of32_be32] using hflags

/-- The header of `ipv4_out` passes the checksum of `ipv4_in`. -/
theorem ipv4Header_verifies (totalLen id : BitVec 16) (protocol : Byte) (src dest : IpAddr) :
    onesSum 0 (ipv4Header totalLen id protocol src dest
      (~~~(onesSum 0 (ipv4Header totalLen id protocol src dest 0)))) = 0xffff := by
  have hsplit : ∀ checksum, ipv4Header totalLen id protocol src dest checksum =
      ([0x45,0]++be16 totalLen++be16 id++be16 0x4000++[64,protocol])++be16 checksum++
        (be32 src++be32 dest) := fun checksum => by
    simp [ipv4Header]
  rw [hsplit,hsplit]
  exact onesSum_fill (by simp) (.inl rfl)

/-- `ipv4_in` strips what `ipv4_out` put around a payload, and the padding behind it. -/
theorem ipv4In_datagram {id : BitVec 16} {protocol : Byte} {src : IpAddr} {pad : List Byte}
    (handler : Handler) (hh : handlers protocol = some handler) (hn : s.link.netif n = some nf)
    (hl : 20+l.length < 65536)
    (hp : s.link.Packet b (ipv4Datagram id protocol src nf.ipaddr l++pad)) :
    ∃ w, s.link.Edit b w ∧ w.Packet b l ∧
      s.ipv4In n b = handler (s.setLink w) n src nf.ipaddr b := by
  set total := BitVec.ofNat 16 (20+l.length) with htotal
  set header := ipv4Header total id protocol src nf.ipaddr
    (~~~(onesSum 0 (ipv4Header total id protocol src nf.ipaddr 0))) with hheader
  have hlen : header.length = 20 := ipv4Header_length ..
  have hbytes : ipv4Datagram id protocol src nf.ipaddr l++pad = header++(l++pad) := by
    rw [ipv4Datagram,← List.append_assoc]
  obtain ⟨h,hh₀⟩ : ∃ h : Ipv4Hdr, h = ⟨0x45,total,0x4000,protocol,src,nf.ipaddr⟩ := ⟨_,rfl⟩
  have hof : Ipv4Hdr.ofBytes (header++(l++pad)) = h := by
    rw [hh₀]
    exact ofBytes_ipv4Header ..
  have hsize : h.headerSize = 20 := by
    rw [h.headerSize_eq,hh₀]
    show (0x45 : Byte).toNat % 16*4 = 20
    decide
  have hversion : h.version = 4 := by
    rw [h.version_eq,hh₀]
    show (0x45 : Byte).toNat/16 = 4
    decide
  have hnat : h.totalLen.toNat = 20+l.length := by
    rw [hh₀]
    show total.toNat = _
    rw [htotal,BitVec.toNat_ofNat]
    omega
  have hall : (header++(l++pad)).length = 20+l.length+pad.length := by
    rw [List.length_append,List.length_append,hlen,Nat.add_assoc]
  rw [hbytes] at hp
  have hfits : (Ipv4Hdr.ofBytes (header++(l++pad))).Fits (header++(l++pad)).length := by
    rw [hof,hall]
    exact ⟨by omega,hversion,by omega,by omega,by omega,by omega⟩
  obtain ⟨w,w',-,hedit,hpacket,-,-,heq⟩ := ipv4InWith_fits hn hp hfits
  rw [hof,hsize] at heq
  rw [hof,hsize,hnat] at hpacket
  have htake : (header++(l++pad)).take 20 = header := by
    rw [List.take_append_of_le_length (by omega),List.take_of_length_le (by omega)]
  have hpayload : ((header++(l++pad)).take (20+l.length)).drop 20 = l := by
    rw [← hlen,← List.append_assoc,List.take_left' (by simp),List.drop_left]
  have hsum : onesSum 0 ((header++(l++pad)).take 20) = 0xffff := by
    rw [htake]
    exact ipv4Header_verifies ..
  have hmatch : ipaddrIsMatch h.destIp nf.ipaddr nf.netmask = true := by
    rw [hh₀]
    exact (ipaddrIsMatch_iff ..).2 (.inl rfl)
  have hfrag : h.fragOff &&& 0x3fff = 0 := by
    rw [hh₀]
    show (0x4000 : BitVec 16) &&& 0x3fff = 0
    decide
  rw [hpayload] at hpacket
  refine ⟨w',hedit,hpacket,?_⟩
  rw [ipv4In,heq handlers,if_neg (not_not.2 hsum),if_neg (not_not.2 hfrag),if_neg (not_not.2 hmatch),
    hh₀]
  dsimp only
  rw [hh]

theorem sentChecksum_ne (checksum : BitVec 16) : sentChecksum checksum ≠ 0 := by
  unfold sentChecksum
  split
  · decide
  · assumption

theorem udpDatagram_verifies {src dest : IpAddr} {srcPort destPort : Port} {data : List Byte} :
    onesSum (BitVec.ofNat 16 (pseudoSum src dest netProtocolUdp (BitVec.ofNat 16 (8+data.length))))
      (udpDatagram src dest srcPort destPort data) = 0xffff := by
  rw [udpDatagram]
  apply onesSum_fill (by simp)
  unfold sentChecksum
  split
  next hz => exact .inr ⟨(complement_eq_zero _).1 hz,rfl⟩
  next => exact .inl rfl

/-- The tests of `udp_in` on a datagram of `udp_sendto`. -/
theorem udpCheck_datagram {src dest : IpAddr} {srcPort destPort : Port} {data : List Byte}
    (hl : 8+data.length < 65536)
    (hp : s.link.Packet b (udpDatagram src dest srcPort destPort data)) :
    ∃ w header, s.link.Edit b w ∧ w.Packet b (udpDatagram src dest srcPort destPort data) ∧
      s.udpCheck b src dest = (s.setLink w,.ok header) ∧ header.srcPort = srcPort ∧
      header.destPort = destPort := by
  have h8 : udpHeaderSize = (8 : ℕ) := rfl
  set length := BitVec.ofNat 16 (8+data.length) with hlength
  have hnat : length.toNat = 8+data.length := by
    rw [hlength,BitVec.toNat_ofNat]
    omega
  have hlen := udpDatagram_length src dest srcPort destPort data
  have hverify : onesSum (BitVec.ofNat 16 (pseudoSum src dest netProtocolUdp length))
      (udpDatagram src dest srcPort destPort data) = 0xffff := udpDatagram_verifies
  obtain ⟨checksum,hne,hof⟩ : ∃ checksum, checksum ≠ 0 ∧
      UdpHdr.ofBytes (udpDatagram src dest srcPort destPort data) =
        ⟨srcPort,destPort,length,checksum⟩ := by
    have hfields : ∀ x, UdpHdr.ofBytes (be16 srcPort++be16 destPort++be16 length++be16 x++data) =
        ⟨srcPort,destPort,length,x⟩ := fun x => by
      simp [UdpHdr.ofBytes,Arp.half,be16,of16_be16]
    exact ⟨_,sentChecksum_ne _,hfields _⟩
  generalize udpDatagram src dest srcPort destPort data = bytes at *
  obtain ⟨w₁,d,hcont,hedit₁,hpacket₁,-,htake⟩ := contData_spec hp 8 (by omega) (by omega) (by decide)
  have hcont : s.contData b udpHeaderSize = (s.setLink w₁,some d) := hcont
  have hd : UdpHdr.ofBytes d = ⟨srcPort,destPort,length,checksum⟩ := by
    rw [← hof,UdpHdr.ofBytes,half_of_take htake (by omega),half_of_take htake (by omega),
      half_of_take htake (by omega),half_of_take htake (by omega),UdpHdr.ofBytes]
  obtain ⟨w₂,hsum,hrw₂,hpacket₂⟩ := transportChecksum_spec hpacket₁ (hnat.trans hlen.symm) src dest
    netProtocolUdp
  have hshort : length.toNat ≤ bytes.length := by omega
  obtain ⟨w₃,hresize,hedit₃,hpacket₃⟩ := hpacket₂.shrink hshort
  rw [List.take_of_length_le (by omega)] at hpacket₃
  refine ⟨w₃,⟨srcPort,destPort,length,checksum⟩,(hedit₁.trans hrw₂.toEdit).trans hedit₃,hpacket₃,?_,
    rfl,rfl⟩
  have hheader : udpHeaderCheck ⟨srcPort,destPort,length,checksum⟩ bytes.length = .ok := by
    rw [udpHeaderCheck,if_neg (by omega),if_neg (by dsimp only; omega)]
  have hzero : ~~~(0xffff : BitVec 16) = 0 := by decide
  rw [udpCheck,hcont]
  dsimp only
  rw [hd,setLink_link,hpacket₁.total,if_neg (not_not.2 hheader),if_neg hne,onLink,setLink_link,hsum,
    hverify,hzero]
  dsimp only
  rw [if_neg (not_not.2 rfl),onLink,setLink_link,setLink_setLink,hresize]
  rfl

/-- A field of two bytes behind `front`. -/
theorem half_be16 (front : List Byte) (x : BitVec 16) : Arp.half (front++be16 x) front.length = x := by
  simp [Arp.half,be16,List.getD_eq_getElem?_getD,of16_be16]

/-- `ether_in` takes a frame for the interface and hands the datagram in it to `udp_in`. -/
theorem etherIn_udpFrame {mac : HwAddr} {id : BitVec 16} {srcPort destPort : Port}
    {data : List Byte} (hn : s.link.netif n = some nf) (hup : EtherUp nf)
    (hmac : mac.take ethHwaSize = nf.hwaddr.take ethHwaSize)
    (hsrc : (nf'.hwaddr.take ethHwaSize).length = ethHwaSize) (hl : data.length ≤ 1472)
    (hp : s.link.Packet b (udpFrame mac nf' id nf.ipaddr srcPort destPort data)) :
    ∃ w, s.link.Edit b w ∧ w.Packet b (udpDatagram nf'.ipaddr nf.ipaddr srcPort destPort data) ∧
      s.etherIn n b = (s.setLink w).udpIn b nf'.ipaddr nf.ipaddr := by
  have hmin : ethFrameMin = (60 : ℕ) := rfl
  have hmax : ethFrameMax = (1514 : ℕ) := rfl
  have h6 : ethHwaSize = 6 := rfl
  set datagram := udpDatagram nf'.ipaddr nf.ipaddr srcPort destPort data with hdatagram
  have hdlen : datagram.length = 8+data.length := udpDatagram_length ..
  set packet := ipv4Datagram id netProtocolUdp nf'.ipaddr nf.ipaddr datagram with hpacket
  have hplen : packet.length = 20+datagram.length := ipv4Datagram_length ..
  set pad := List.replicate (46-packet.length) (0 : Byte) with hpad
  have hpadlen : pad.length = 46-packet.length := List.length_replicate
  set header := mac.take ethHwaSize++nf'.hwaddr.take ethHwaSize++be16 netProtocolIpv4 with hheader
  have hlen : header.length = 14 := by
    rw [hheader,List.length_append,List.length_append,hmac,hup.hwaddr,hsrc,be16_length]
    rfl
  have hdest : header.take 6 = nf.hwaddr.take ethHwaSize := by
    rw [hheader,List.append_assoc,hmac,← h6,List.take_left' hup.hwaddr]
  have hproto : Arp.half header 12 = netProtocolIpv4 := by
    have hfront : (mac.take ethHwaSize++nf'.hwaddr.take ethHwaSize).length = 12 := by
      rw [List.length_append,hmac,hup.hwaddr,hsrc]
      rfl
    rw [hheader,← hfront]
    exact half_be16 ..
  have hp : s.link.Packet b (header++(packet++pad)) := hp
  clear_value header pad packet datagram
  have hall : (header++(packet++pad)).length = 14+(packet.length+pad.length) := by
    rw [List.length_append,List.length_append,hlen]
  obtain ⟨w₁,d,hcont,hedit₁,hpacket₁,-,htake⟩ := contData_spec hp 14 (by omega) (by omega) (by decide)
  have hcont : s.contData b etherHdrSize = (s.setLink w₁,some d) := hcont
  rw [← hlen,List.take_left,hlen] at htake
  have hdest' : d.take ethHwaSize = nf.hwaddr.take ethHwaSize := by
    rw [← hdest,← htake,List.take_take]
    rfl
  have hproto' : Arp.half d 12 = netProtocolIpv4 := by
    rw [← hproto]
    exact half_of_take (k := 14) (by rw [htake,← hlen,List.take_length]) (by omega)
  have hlong : 14 ≤ (header++(packet++pad)).length := by omega
  obtain ⟨w₂,hremove,hedit₂,hpacket₂⟩ := hpacket₁.removeHeader hlong
  have hremove : w₁.pktbufRemoveHeader b etherHdrSize = (w₂,.ok) := hremove
  rw [← hlen,List.drop_left] at hpacket₂
  have hedit := (hedit₁.trans hedit₂).trans (NetLink.Rewrite.resetAcc (b := b)).toEdit
  rw [hpacket] at hpacket₂
  obtain ⟨w₃,hedit₃,hpacket₃,heq⟩ := ipv4In_datagram (s := s.setLink (w₂.pktbufResetAcc b))
    (fun s _ src dest b => s.udpIn b src dest) rfl ((hedit.netif n).trans hn) (by omega)
    hpacket₂.resetAcc
  refine ⟨w₃,hedit.trans hedit₃,hpacket₃,?_⟩
  rw [etherIn,hn]
  dsimp only
  rw [pktbufTotal,hp.total,if_neg (by omega),hcont]
  dsimp only
  rw [if_neg (fun h => h.2.1 hdest'),onLink,setLink_link,hremove,hproto']
  dsimp only
  rw [if_neg (by decide),if_pos rfl,setLink_setLink,setLink_link,setLink_setLink,heq]
  rfl

/-! The receive queue. -/

/-- The datagram `l` in record `r` is behind `queue` in the queue of a block. -/
structure Waiting (s : NetStack) (i : Fin udpPcbMax) (queue : List (Fin udpRecvMax))
    (j : Fin udpRecvMax) (r : UdpRecv) (l : List Byte) : Prop where
  pcb : ∃ port, (s.udp i).pcb = some ⟨port,queue++[j]⟩
  record : (s.udp i).records j = some r
  others : ∀ k, k ≠ j → ∀ r' ∈ (s.udp i).records k, r'.buf ≠ r.buf
  apart : j ∉ queue
  packet : s.link.Packet r.buf l

variable {i : Fin udpPcbMax} {j : Fin udpRecvMax} {r : UdpRecv} {queue : List (Fin udpRecvMax)}

/-- Reading a datagram works on its buffer only. -/
theorem udpRead_edit (b : BufId) (size : ℕ) :
    ∃ w, s.link.Edit b w ∧ (s.udpRead b size).1 = s.setLink w := by
  have hremove : s.link.Edit b (s.link.pktbufRemoveHeader b udpHeaderSize).1 :=
    .onBlocks fun x free => by simp
  unfold udpRead
  rw [onLink]
  generalize s.link.pktbufRemoveHeader b udpHeaderSize = x at hremove ⊢
  have hread : x.1.Edit b ((x.1.pktbufResetAcc b).pktbufRead b (min (x.1.pktbufTotal b) size)).1 :=
    NetLink.Rewrite.resetAcc.toEdit.trans (.onBytes fun x => by simp)
  obtain ⟨w,err⟩ := x
  cases err with
  | ok =>
    dsimp only
    rw [onLink,setLink_link]
    generalize (w.pktbufResetAcc b).pktbufRead b (min (w.pktbufTotal b) size) = y at hread ⊢
    obtain ⟨w',err,data⟩ := y
    cases err <;> exact ⟨w',hremove.trans hread,rfl⟩
  | _ => exact ⟨w,hremove,rfl⟩

/-- A call of `udp_recvfrom` takes an earlier datagram and leaves this one. -/
theorem Waiting.recvfrom {k : Fin udpRecvMax} (h : s.Waiting i (k :: queue) j r l) (size : ℕ)
    (wait : Bool) : (s.udpRecvfrom i size wait).1.Waiting i queue j r l := by
  obtain ⟨port,hpcb⟩ := h.pcb
  have hk : k ≠ j := fun he => h.apart (by simp [he])
  have hj : j ∉ queue := fun hmem => h.apart (by simp [hmem])
  rw [udpRecvfrom,hpcb]
  dsimp only [List.cons_append]
  split
  next hnone =>
    exact ⟨⟨port,by simp [setUdp]⟩,by simpa [setUdp] using h.record,
      by simpa [setUdp] using h.others,hj,h.packet⟩
  next r' hr' =>
    have hr' : (s.udp i).records k = some r' := by simpa [setUdp] using hr'
    have hne := h.others k hk r' hr'
    obtain ⟨w,hedit,hread⟩ := udpRead_edit
      (s := s.setUdp i fun u => { u with pcb := some ⟨port,queue++[j]⟩ }) r'.buf size
    have hbuf : (w.pktbufFree r'.buf).pool.bufs r.buf = s.link.pool.bufs r.buf :=
      (NetLink.pktbufFree_other hne.symm).trans (hedit.other _ hne.symm)
    have hdrop : ((s.setUdp i fun u => { u with pcb := some ⟨port,queue++[j]⟩ }).setLink w).udpDrop i k =
        (((s.setUdp i fun u => { u with pcb := some ⟨port,queue++[j]⟩ }).setLink w).pktbufFree
          r'.buf).setUdp i fun u => u.clear k := by
      have hrec : (((s.setUdp i fun u => { u with pcb := some ⟨port,queue++[j]⟩ }).setLink w).udp
          i).records k = some r' := by simpa [setUdp,setLink] using hr'
      rw [udpDrop,hrec]
    rw [hread,hdrop]
    refine ⟨⟨port,by simp [setUdp,UdpSlot.clear,setLink,pktbufFree]⟩,?_,fun k' hk' r₁ hr₁ => ?_,hj,?_⟩
    · simpa [setUdp,UdpSlot.clear,setLink,pktbufFree,hk.symm] using h.record
    · by_cases hkk : k' = k
      · simp [setUdp,UdpSlot.clear,setLink,pktbufFree,hkk] at hr₁
      · exact h.others k' hk' r₁ (by simpa [setUdp,UdpSlot.clear,setLink,pktbufFree,hkk] using hr₁)
    · exact ⟨by show ((w.pktbufFree r'.buf).pool.bufs r.buf).Wf; rw [hbuf]; exact h.packet.wf,
        by show ((w.pktbufFree r'.buf).pool.bufs r.buf).bytes = l; rw [hbuf]; exact h.packet.bytes⟩

/-- What `udp_recvfrom` returns for a datagram at the head of the queue. -/
theorem Waiting.result {src dest : IpAddr} {srcPort destPort : Port} {data : List Byte}
    (h : s.Waiting i [] j r (udpDatagram src dest srcPort destPort data)) (size : ℕ) (wait : Bool) :
    (s.udpRecvfrom i size wait).2 = .ok (data.take size,r.src,r.port) := by
  obtain ⟨port,hpcb⟩ := h.pcb
  have hrec : ((s.setUdp i fun u => { u with pcb := some ⟨port,[]⟩ }).udp i).records j = some r := by
    simpa [setUdp] using h.record
  have hlen := udpDatagram_length src dest srcPort destPort data
  have hlong : 8 ≤ (udpDatagram src dest srcPort destPort data).length := by omega
  have hdrop : (udpDatagram src dest srcPort destPort data).drop 8 = data := by
    rw [udpDatagram]
    exact List.drop_left' (by simp)
  obtain ⟨w₁,hremove,hedit₁,hpacket₁⟩ := h.packet.removeHeader hlong
  rw [hdrop] at hpacket₁
  have hremove : s.link.pktbufRemoveHeader r.buf udpHeaderSize = (w₁,.ok) := hremove
  obtain ⟨w₂,hread,-⟩ := hpacket₁.read (Nat.min_le_left data.length size)
  have hmin : min (data.length : ℤ) size = (min data.length size : ℕ) := by omega
  have htake : data.take (min data.length size) = data.take size := by
    rw [Nat.min_comm,← List.take_take,List.take_length]
  rw [htake] at hread
  have hdata : ((s.setUdp i fun u => { u with pcb := some ⟨port,[]⟩ }).udpRead r.buf size).2 =
      .ok (data.take size) := by
    have hlink : (s.setUdp i fun u => { u with pcb := some ⟨port,[]⟩ }).link = s.link := rfl
    rw [udpRead,onLink,hlink,hremove]
    dsimp only
    rw [onLink,setLink_link,hpacket₁.total,hmin,hread]
  rw [udpRecvfrom,hpcb]
  dsimp only [List.nil_append]
  rw [hrec]
  dsimp only
  rw [hdata]
  rfl

/-- The calls that read the datagrams in front of it. -/
theorem Waiting.drain {src dest : IpAddr} {srcPort destPort : Port} {data : List Byte}
    {sizes : List ℕ} (h : s.Waiting i queue j r (udpDatagram src dest srcPort destPort data))
    (hs : sizes.length = queue.length) (size : ℕ) (wait : Bool) :
    ((sizes.foldl (fun t size => (t.udpRecvfrom i size wait).1) s).udpRecvfrom i size wait).2 =
      .ok (data.take size,r.src,r.port) := by
  induction queue generalizing s sizes with
  | nil =>
    rw [List.length_eq_zero_iff.1 hs]
    exact h.result size wait
  | cons k queue ih =>
    obtain ⟨size₀,sizes,rfl⟩ := List.exists_cons_of_length_pos (l := sizes) (by rw [hs]; simp)
    have hs : sizes.length = queue.length := by simpa using hs
    have hnext := ih (h.recvfrom size₀ wait) hs
    exact hnext

/-- `udp_in` puts a datagram behind those that wait. -/
theorem udpIn_waiting {src dest : IpAddr} {srcPort destPort : Port} {data : List Byte}
    {port : Port} (hl : 8+data.length < 65536)
    (hp : s.link.Packet b (udpDatagram src dest srcPort destPort data))
    (hfind : (List.finRange udpPcbMax).find? (fun i => (s.udp i).hasPort destPort) = some i)
    (hpcb : (s.udp i).pcb = some ⟨port,queue⟩) (hroom : queue.length < udpRecvMax)
    (hrecords : ∃ j, (s.udp i).records j = none)
    (hqueue : ∀ j ∈ queue, ((s.udp i).records j).isSome)
    (hapart : ∀ j, ∀ r ∈ (s.udp i).records j, r.buf ≠ b) (hfate : s.link.fate = .ok) :
    (s.udpIn b src dest).2 = .ok ∧ ∃ j, (s.udpIn b src dest).1.Waiting i queue j ⟨b,src,srcPort⟩
      (udpDatagram src dest srcPort destPort data) := by
  obtain ⟨w,header,hedit,hpacket,hcheck,hsport,hdport⟩ := udpCheck_datagram hl hp
  obtain ⟨j,hfree⟩ : ∃ j, (List.finRange udpRecvMax).find? (fun j => ((s.udp i).records j).isNone) =
      some j := by
    obtain ⟨j,hj⟩ := hrecords
    exact Option.isSome_iff_exists.1 (List.find?_isSome.2 ⟨j,List.mem_finRange j,by simp [hj]⟩)
  have hnone : (s.udp i).records j = none := by simpa using List.find?_some hfree
  have hfate' : w.fate = .ok := by
    rw [NetLink.fate,hedit.fates]
    exact hfate
  have hsend : (fixqSend (s.udp i).recvQueue udpRecvMax j w.fate).2 = .ok := by
    have hq : (s.udp i).recvQueue = queue := by rw [UdpSlot.recvQueue,hpcb]; rfl
    rw [hq,fixqSend,if_neg (by omega),if_neg (not_not.2 hfate')]
  have hin : s.udpIn b src dest =
      (((s.setLink w).setLink w.spend).setUdp i fun u => u.queue j ⟨b,src,srcPort⟩,.ok) := by
    rw [udpIn,hcheck]
    dsimp only
    rw [hdport,show (s.setLink w).udp = s.udp from rfl,hfind,hsport]
    dsimp only
    rw [udpQueue,show (s.setLink w).udp = s.udp from rfl,hfree]
    dsimp only
    rw [setLink_link,if_pos hsend]
  rw [hin]
  refine ⟨rfl,j,⟨port,?_⟩,?_,fun k hk r hr => ?_,fun hmem => ?_,?_⟩
  · simp [setUdp,UdpSlot.queue,setLink,hpcb]
  · simp [setUdp,UdpSlot.queue]
  · exact hapart k r (by simpa [setUdp,UdpSlot.queue,setLink,hk] using hr)
  · have := hqueue j hmem
    simp [hnone] at this
  · exact ⟨hpacket.wf,hpacket.bytes⟩

/-! From one host to the other. -/

/-- The host can send a datagram of `size` bytes from interface `n` to `dest`: it knows the hardware
address of `dest`, and has a buffer, blocks, room in the queue and a device that takes frames. -/
structure CanSend (s : NetStack) (n : NetifId) (nf : NetLink.Netif) (dest : IpAddr) (mac : HwAddr)
    (size : ℕ) : Prop where
  netif : s.link.netif n = some nf
  up : EtherUp nf
  resolved : s.arp.Resolved n dest mac
  unicast : (ipaddrIsLocalBroadcast dest || ipaddrIsDirectBroadcast dest nf.netmask) = false
  buffer : s.link.pool.pktbufList ≠ []
  fresh : ∀ b ∈ s.link.pool.pktbufList, b ∉ nf.outQ
  blocks : (8+size+1023)/1024+1 ≤ s.link.pool.blockList.length
  room : nf.outQ.length < netifOutqSize
  fates : ∀ f ∈ s.link.fates, f = .ok

/-- The block in slot `i` is the one that is bound to `port`, and has room for a datagram. -/
structure CanReceive (t : NetStack) (n : NetifId) (nf : NetLink.Netif) (i : Fin udpPcbMax)
    (port : Port) : Prop where
  netif : t.link.netif n = some nf
  up : EtherUp nf
  bound : ∀ k, (t.udp k).hasPort port ↔ k = i
  room : (t.udp i).recvQueue.length < udpRecvMax
  free : ∃ j, (t.udp i).records j = none
  filled : ∀ j ∈ (t.udp i).recvQueue, ((t.udp i).records j).isSome
  fate : t.link.fate = .ok

/-- The last frame that `udp_sendto` gives to the driver, delivered to the other host in any buffer,
is accepted by every layer there. The call of `udp_recvfrom` that comes after those for the datagrams
which wait already returns the payload, cut to the size of the caller's memory, with the address and
the port of the sender. -/
theorem udp_datagram_delivered {k : Fin udpPcbMax} {mac : HwAddr} {p q : Port} {data : List Byte}
    (hA : s.CanSend n nf nf'.ipaddr mac data.length) (hB : t.CanReceive m nf' k q) (hq : q ≠ 0)
    (hpcb : (s.udp i).pcb.map UdpPcb.localPort = some p) (hlen : (data.length : ℤ) ≤ nf.mtu-28)
    (hmac : mac.take ethHwaSize = nf'.hwaddr.take ethHwaSize)
    (hlink : nf.hwaddr.take ethHwaSize ≠ nf'.hwaddr.take ethHwaSize) :
    ∃ front frame, (s.udpSendto n i nf'.ipaddr q data).1.link.wire = s.link.wire++front++[frame] ∧
      ∀ c, t.link.Packet c frame → (∀ j, ∀ r ∈ (t.udp k).records j, r.buf ≠ c) →
        (t.etherIn m c).2 = .ok ∧
        ∀ (sizes : List ℕ) (capacity : ℕ) (wait : Bool),
          sizes.length = (t.udp k).recvQueue.length →
          ((sizes.foldl (fun t size => (t.udpRecvfrom k size wait).1) (t.etherIn m c).1).udpRecvfrom
            k capacity wait).2 = .ok (data.take capacity,nf.ipaddr,p) := by
  have hmtu : nf.mtu = 1500 := hA.up.mtu
  obtain ⟨pcb,hslot,rfl⟩ := Option.map_eq_some_iff.1 hpcb
  obtain ⟨b,rest,hbuf⟩ := List.exists_cons_of_ne_nil hA.buffer
  obtain ⟨front,hwire⟩ := udpSendto_frame hslot hA.netif hA.up hq hlen hbuf hA.blocks hA.fates hA.room
    (hA.fresh b (by simp [hbuf])) hA.resolved hA.unicast (by rw [hmac]; exact hB.up.hwaddr)
    (by rw [hmac]; exact hlink)
  refine ⟨front,_,hwire,fun c hc hheld => ?_⟩
  obtain ⟨w,hedit,hpacket,hether⟩ := etherIn_udpFrame hB.netif hB.up hmac hA.up.hwaddr (by omega) hc
  have hfind : (List.finRange udpPcbMax).find? (fun i => (t.udp i).hasPort q) = some k := by
    cases hf : (List.finRange udpPcbMax).find? (fun i => (t.udp i).hasPort q) with
    | none =>
      have := List.find?_eq_none.1 hf k (List.mem_finRange k)
      exact absurd ((hB.bound k).2 rfl) this
    | some k' =>
      have hk' : (t.udp k').hasPort q = true := by simpa using List.find?_some hf
      rw [(hB.bound k').1 hk']
  obtain ⟨⟨port,queue⟩,hpcb',-⟩ := (Option.any_eq_true _ _).1 ((hB.bound k).2 rfl)
  have hqueue : (t.udp k).recvQueue = queue := by rw [UdpSlot.recvQueue,hpcb']; rfl
  have hroom := hB.room
  have hfilled := hB.filled
  rw [hqueue] at hroom hfilled
  obtain ⟨hok,j,hwait⟩ := udpIn_waiting (s := t.setLink w) (by omega) hpacket hfind hpcb' hroom hB.free
    hfilled hheld (by rw [setLink_link,NetLink.fate,hedit.fates]; exact hB.fate)
  rw [hether]
  refine ⟨hok,fun sizes capacity wait hsizes => ?_⟩
  rw [hqueue] at hsizes
  exact hwait.drain hsizes capacity wait

/-- A host with a block bound to port 40000 that knows the hardware address of 192.168.100.1. -/
def sendingHost : NetStack :=
  let s := netStackInit (List.replicate ethHwaSize 2) []
  { s with
    arp := { s.arp with
      entries := fun _ => ⟨0xc0a86401,List.replicate ethHwaSize 3,.resolved,0,0,1,[]⟩
      cacheList := [0] }
    udp := Function.update s.udp 0 ⟨some ⟨40000,[]⟩,fun _ => none⟩ }

/-- The host at 192.168.100.1, with a block bound to port 53. -/
def receivingHost : NetStack :=
  let s := netStackInit (List.replicate ethHwaSize 3) []
  { s.setLink (s.link.setNetif 1 fun nf => { nf with ipaddr := 0xc0a86401 }) with
    udp := Function.update s.udp 0 ⟨some ⟨53,[]⟩,fun _ => none⟩ }

theorem udp_datagram_delivered_short :
    ∃ front frame, (sendingHost.udpSendto 1 0 0xc0a86401 53 [7,8,9]).1.link.wire = front++[frame] ∧
      ∀ c, receivingHost.link.Packet c frame → (receivingHost.etherIn 1 c).2 = .ok ∧
        ((receivingHost.etherIn 1 c).1.udpRecvfrom 0 2 false).2 = .ok ([7,8],0xc0a86402,40000) := by
  have hup : ∀ nf : NetLink.Netif, ∀ mac ip, mac.length = ethHwaSize →
      nf = { NetLink.ethNetif mac with ipaddr := ip } → EtherUp nf := by
    rintro _ mac ip hmac rfl
    exact ⟨rfl,rfl,rfl,rfl,by simp [NetLink.ethNetif,hmac],rfl,rfl⟩
  have hA : sendingHost.CanSend 1 (NetLink.ethNetif (List.replicate ethHwaSize 2)) 0xc0a86401
      (List.replicate ethHwaSize 3) ([7,8,9] : List Byte).length :=
    ⟨rfl,hup _ (List.replicate ethHwaSize 2) 0xc0a86402 rfl rfl,⟨0,rfl,rfl,rfl⟩,by decide,
      by decide +kernel,fun _ _ => List.not_mem_nil,by decide +kernel,by decide,nofun⟩
  have hB : receivingHost.CanReceive 1
      { NetLink.ethNetif (List.replicate ethHwaSize 3) with ipaddr := 0xc0a86401 } 0 53 :=
    ⟨rfl,hup _ (List.replicate ethHwaSize 3) 0xc0a86401 rfl rfl,by decide,by decide,⟨0,rfl⟩,
      by decide,rfl⟩
  have hlen : (([7,8,9] : List Byte).length : ℤ) ≤
      (NetLink.ethNetif (List.replicate ethHwaSize 2)).mtu-28 := by decide
  obtain ⟨front,frame,hwire,hin⟩ := udp_datagram_delivered (i := 0) (p := 40000) hA hB (by decide) rfl
    hlen rfl (by decide)
  refine ⟨front,frame,hwire,fun c hc => ?_⟩
  obtain ⟨hok,hread⟩ := hin c hc (fun j r hr => by cases hr)
  exact ⟨hok,hread [] 2 false rfl⟩

end NetStack
end QuardStarNet
