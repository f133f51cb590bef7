import QuardStarNet.Ipv4Input

/-! The segments and echo messages that the stack builds verify at a receiver, and a receiver refuses
every one in which a single byte was changed. -/
namespace QuardStarNet

open Pktbuf Windows NetBytes

namespace Tcp

theorem Segment.bytes_ofBytes {l : List Byte} {s : Segment} (h : ofBytes l = some s) :
    s.bytes = l := by
  unfold ofBytes at h
  split at h
  · cases h
    simp [bytes,front,be16_of16,be32_of32]
  · cases h

theorem Segment.ofBytes_of_length {l : List Byte} (h : headerMin ≤ l.length) :
    ∃ s, ofBytes l = some s := by
  unfold ofBytes
  split
  · exact ⟨_,rfl⟩
  · next hno =>
    exfalso
    have hmin : headerMin = 20 := rfl
    iterate 20
      rcases l with _ | ⟨_,l⟩
      · simp at h
        omega
    exact hno _ _ _ _ _ _ _ _ _ _ _ _ _ _ _ _ _ _ _ _ _ rfl

/-- The checksum is zero when the sum of everything is a multiple of 65535. -/
theorem tcpChecksum_eq_zero_iff (l : List Byte) (src dest : IpAddr) :
    tcpChecksum l src dest l.length = 0 ↔
      (weight 0 (pseudo src dest l.length)+weight 0 l) % 65535 = 0 := by
  obtain ⟨hmod,hpos,hlt⟩ := checksum16_pseudo l src dest l.length
  rw [tcpChecksum,if_neg (Nat.lt_irrefl _),List.take_length,← hmod]
  generalize checksum16 0 l (checksum16 0 (pseudo src dest l.length) 0) = sum at hpos hlt
  rw [← BitVec.toNat_inj,BitVec.toNat_not,BitVec.toNat_ofNat]
  show 2^16-1-sum % 2^16 = 0 ↔ _
  omega

/-- What reaches the receiver differs in one byte from a segment between `src` and `dest`. -/
def OneByteOff (l : List Byte) (src dest : IpAddr) (l' : List Byte) (src' dest' : IpAddr) : Prop :=
  Corrupt l l' ∧ src' = src ∧ dest' = dest ∨
    l' = l ∧ Corrupt (be32 src) (be32 src') ∧ dest' = dest ∨
    l' = l ∧ src' = src ∧ Corrupt (be32 dest) (be32 dest')

theorem OneByteOff.length {l l' : List Byte} {src dest src' dest' : IpAddr}
    (h : OneByteOff l src dest l' src' dest') : l'.length = l.length := by
  rcases h with ⟨h,-,-⟩ | ⟨rfl,-⟩ | ⟨rfl,-⟩
  · exact h.length
  · rfl
  · rfl

/-- A checksum does not survive the change of one byte. -/
theorem OneByteOff.tcpChecksum_ne {l l' : List Byte} {src dest src' dest' : IpAddr}
    (h : OneByteOff l src dest l' src' dest') (hl : tcpChecksum l src dest l.length = 0) :
    tcpChecksum l' src' dest' l'.length ≠ 0 := by
  rw [ne_eq,tcpChecksum_eq_zero_iff]
  rw [tcpChecksum_eq_zero_iff] at hl
  rcases h with ⟨h,rfl,rfl⟩ | ⟨rfl,h,rfl⟩ | ⟨rfl,rfl,h⟩
  · have := h.weight_ne 0
    rw [h.length]
    omega
  · have hp : Corrupt (pseudo src dest' l'.length) (pseudo src' dest' l'.length) := by
      simpa [pseudo] using h.append [] (be32 dest'++[0#8,6#8]++be16 (BitVec.ofNat 16 l'.length))
    have := hp.weight_ne 0
    omega
  · have hp : Corrupt (pseudo src' dest l'.length) (pseudo src' dest' l'.length) := by
      simpa [pseudo] using h.append (be32 src') ([0#8,6#8]++be16 (BitVec.ofNat 16 l'.length))
    have := hp.weight_ne 0
    omega

end Tcp

namespace NetStack

open Tcp

variable {s r : NetStack} {i : Slot} {n : NetifId} {b c : BufId} {l : List Byte} {w : NetLink}

/-- The sum over a buffer is the checksum of its bytes. -/
theorem transportChecksum_tcp (hp : w.Packet b l) (hl : l.length < 65536) (src dest : IpAddr) :
    ∃ w', transportChecksum w b src dest netProtocolTcp (BitVec.ofNat 16 l.length) =
        (w',tcpChecksum l src dest l.length) ∧ w.Rewrite b w' ∧ w'.Packet b l := by
  have hlen : (BitVec.ofNat 16 l.length).toNat = l.length := by
    rw [BitVec.toNat_ofNat]
    omega
  obtain ⟨w',hsum,hrw,hpacket⟩ := transportChecksum_spec hp hlen src dest netProtocolTcp
  refine ⟨w',hsum.trans ?_,hrw,hpacket⟩
  have hpre : pseudoSum src dest netProtocolTcp (BitVec.ofNat 16 l.length) =
      (BitVec.ofNat 16 (checksum16 0 (pseudo src dest l.length) 0)).toNat := by
    rw [BitVec.toNat_ofNat]
    exact (Nat.mod_eq_of_lt (checksum16_lt (by omega))).symm
  rw [hpre,BitVec.ofNat_toNat,BitVec.setWidth_eq,tcpChecksum,if_neg (Nat.lt_irrefl _),
    List.take_length]
  have hsame : checksum16 0 (pseudo src dest l.length) 0 =
      (BitVec.ofNat 16 (checksum16 0 (pseudo src dest l.length) 0)).toNat := hpre
  rw [hsame,checksum16_eq_onesSum,BitVec.ofNat_toNat,BitVec.setWidth_eq]
  rw [BitVec.ofNat_toNat,BitVec.setWidth_eq]

/-- `tcp_make_segment` leaves the segment in the buffer. -/
theorem tcpMakeSegment_bytes {seq ack : BitVec 32} {flags : Byte} {data : List Byte}
    (hd : headerMin+data.length < 65536)
    (h : s.tcpMakeSegment i seq ack flags data = (r,some b)) :
    ∃ w, r = s.setLink w ∧
      w.Packet b (Conn.segment (s.tcp.storage i) seq ack flags data).bytes := by
  unfold tcpMakeSegment at h
  split at h
  · cases h
  · next t c halloc =>
    obtain ⟨w₁,hw₁,rfl⟩ := onLink_eq halloc
    rw [← Int.natCast_add] at hw₁
    dsimp only at h
    set p := (s.setLink w₁).tcp.storage i with hp
    set seg := Conn.segment p seq ack flags data with hseg
    have hheader : (seg.front++[0,0]++be16 seg.urgent).length = headerMin := by simp [headerMin]
    obtain ⟨w₂,hwrite,-,hpacket₂,hfront₂⟩ := NetLink.build_packet _ data hheader (by decide) (by decide) hw₁
    have hlen₂ : (seg.front++[0,0]++be16 seg.urgent++data).length = headerMin+data.length := by
      rw [List.length_append,hheader]
    obtain ⟨w₃,hsum,hrw₃,hpacket₃⟩ := transportChecksum_tcp hpacket₂ (by rw [hlen₂]; exact hd)
      p.localIp p.remoteIp
    rw [hlen₂] at hsum
    rw [setLink_link,hwrite] at h
    dsimp only at h
    rw [hsum] at h
    generalize hck : sentChecksum (tcpChecksum (seg.front++[0,0]++be16 seg.urgent++data) p.localIp
      p.remoteIp (headerMin+data.length)) = checksum at h
    obtain ⟨-,hpacket₄⟩ := hpacket₃.store (hrw₃.front hfront₂) 16
      (be16 checksum) (by rw [be16_length]; decide)
    have hfield := NetLink.overwrite_field seg.front (be16 seg.urgent++data) 0 checksum
    rw [Segment.front_length,show be16 0 = [0,0] from by decide,← List.append_assoc] at hfield
    rw [hfield] at hpacket₄
    have hseg_checksum : seg.checksum = checksum := by
      rw [hseg,Conn.segment,Segment.withChecksum,← hck]
      simp only [Segment.bytes,Segment.total,Nat.mod_eq_of_lt hd]
      rfl
    have hbytes : seg.bytes = seg.front++be16 checksum++(be16 seg.urgent++data) := by
      rw [Segment.bytes,← hseg_checksum,List.append_assoc]
      rfl
    cases h
    refine ⟨_,rfl,?_⟩
    show NetLink.Packet _ _ seg.bytes
    rw [hbytes]
    exact hpacket₄.resetAcc

theorem segment_headerCheck (p : Pcb) (seq ack : BitVec 32) (flags : Byte) (data : List Byte) :
    tcpHeaderCheck (Conn.segment p seq ack flags data) = .ok := by
  have hsize : (Conn.segment p seq ack flags data).headerSize = headerMin := by
    show (0x50#8 >>> 4).toNat*4 = headerMin
    decide
  have htotal : headerMin ≤ (Conn.segment p seq ack flags data).total := Nat.le_add_right _ _
  have hoffset : (Conn.segment p seq ack flags data).dataOffset &&& 0x0f#8 = 0 := by
    show (0x50#8 &&& 0x0f#8) = 0
    decide
  rw [tcpHeaderCheck,if_neg (by omega),if_neg (by simpa using hoffset)]

theorem segment_checksum (p : Pcb) (seq ack : BitVec 32) (flags : Byte) (data : List Byte)
    (hd : headerMin+data.length < 65536) :
    tcpChecksum (Conn.segment p seq ack flags data).bytes p.localIp p.remoteIp
      (Conn.segment p seq ack flags data).bytes.length = 0 := by
  rw [Segment.bytes_length]
  have htotal : (Conn.segment p seq ack flags data).total % 65536 =
      (Conn.segment p seq ack flags data).total := Nat.mod_eq_of_lt hd
  rw [← htotal]
  exact Segment.withChecksum_verifies _ p.localIp p.remoteIp rfl hd

/-- `tcp_in` refuses a segment with a wrong checksum before it looks for a control block. -/
theorem tcpIn_rejects {src dest : IpAddr} (hp : r.link.Packet c l) (hl : headerMin ≤ l.length)
    (hlt : l.length < 65536) (hsum : tcpChecksum l src dest l.length ≠ 0) :
    ∃ w err, r.link.Edit c w ∧ err.code < 0 ∧ r.tcpIn n src dest c = (r.setLink w,err) := by
  obtain ⟨w,hw,hedit,hpacket,-⟩ := hp.setCont headerMin (by decide) hl (by decide)
  obtain ⟨seg,hseg⟩ := Segment.ofBytes_of_length hl
  have hbytes := Segment.bytes_ofBytes hseg
  have hcheck : tcpInCheck seg src dest ≠ .ok := by
    have htotal : seg.total % 65536 = l.length := by
      rw [← Segment.bytes_length,hbytes]
      exact Nat.mod_eq_of_lt hlt
    unfold tcpInCheck
    split
    · assumption
    split
    · nofun
    · rw [htotal,hbytes,if_pos hsum]
      nofun
  refine ⟨w,_,hedit,(NetErr.code_neg_iff _).2 hcheck,?_⟩
  have hset : (r.onLink fun w => w.pktbufSetCont c headerMin) = (r.setLink w,.ok) := by
    rw [onLink,hw]
  rw [tcpIn,if_neg (by rw [hp.total]; omega),hset]
  dsimp only
  rw [setLink_link,hpacket.bytes,hseg]
  dsimp only
  rw [if_pos hcheck]

/-! Echo messages. -/

/-- An echo message: what is behind the checksum is the identifier, the sequence number and the
payload. -/
def echoMessage (type : Byte) (rest : List Byte) : List Byte :=
  [type,0]++be16 (~~~(onesSum 0 ([type,0]++be16 0++rest)))++rest

/-- A message verifies, also one of zeros only. -/
theorem echoMessage_verifies (type : Byte) (rest : List Byte) :
    onesSum 0 (echoMessage type rest) = 0xffff := onesSum_fill (by simp) (.inl rfl)

theorem echoMessage_length (type : Byte) (rest : List Byte) :
    (echoMessage type rest).length = 4+rest.length := by
  simp [echoMessage]
  omega

theorem echoMessage_zero (type : Byte) (rest : List Byte) :
    overwrite ([type,0,0,0]++rest) 2 (be16 (~~~(onesSum 0 ([type,0,0,0]++rest)))) =
      echoMessage type rest := by
  have hzero : be16 0 = [0,0] := by decide
  have hsplit : [type,0,0,0]++rest = [type,0]++be16 0++rest := by rw [hzero]; rfl
  rw [hsplit]
  exact NetLink.overwrite_field [type,0] rest 0 _

/-- `icmpv4_in` on a message with a whole header. -/
theorem icmpv4In_eq (n : NetifId) (src dest : IpAddr) (hp : r.link.Packet c l) (hl : 8 ≤ l.length) :
    ∃ w, r.link.Edit c w ∧ w.Packet c l ∧ r.icmpv4In n c src dest =
      if onesSum 0 l ≠ 0xffff then (r.setLink w,.chksum)
      else if l.getD 1 0 ≠ 0 then (r.setLink w,.notSupport)
      else if l.getD 0 0 = 0 then
        (((r.setLink w).countReply (Arp.half l 4) (Arp.half l 6)).pktbufFree c,.ok)
      else if l.getD 0 0 ≠ 8 then (r.setLink w,.notSupport)
      else (r.setLink w).countRequest.icmpv4EchoReply n c src := by
  obtain ⟨w₁,hset,hedit₁,hpacket₁,hfront₁⟩ := hp.setCont 8 (by decide) hl (by decide)
  obtain ⟨w₂,hsum,hrw₂,hpacket₂⟩ := checksumFront_spec (s := r.setLink w₁) hpacket₁ le_rfl
  obtain ⟨d,hd,htake⟩ := hpacket₂.data (hrw₂.front hfront₁)
  refine ⟨w₂,hedit₁.trans hrw₂.toEdit,hpacket₂,?_⟩
  have hset' : (r.onLink fun w => w.pktbufSetCont c icmpv4HdrSize) = (r.setLink w₁,.ok) := by
    rw [onLink]
    exact congrArg (fun x : NetLink × NetErr => (r.setLink x.1,x.2)) hset
  have htotal : (r.setLink w₁).pktbufTotal c = l.length := hpacket₁.total
  have h8 : icmpv4HdrSize = 8 := rfl
  rw [icmpv4In,if_neg (by rw [pktbufTotal,hp.total]; omega),hset']
  dsimp only
  rw [htotal,hsum,List.take_length]
  dsimp only
  rw [setLink_setLink,setLink_link,hd]
  dsimp only
  rw [getD_of_take htake (by omega),getD_of_take htake (by omega),half_of_take htake (by omega),
    half_of_take htake (by omega)]
  simp only [ne_eq,complement_eq_zero]

/-- `icmpv4_in` refuses a message with a wrong checksum and leaves everything else alone. -/
theorem icmpv4In_rejects {src dest : IpAddr} (hp : r.link.Packet c l) (hl : 8 ≤ l.length)
    (hsum : onesSum 0 l ≠ 0xffff) :
    ∃ w err, r.link.Edit c w ∧ err.code < 0 ∧ r.icmpv4In n c src dest = (r.setLink w,err) := by
  obtain ⟨w,hedit,-,heq⟩ := icmpv4In_eq n src dest hp hl
  exact ⟨w,.chksum,hedit,by decide,by rw [heq,if_pos hsum]⟩

/-- `icmpv4_out_echo` hands an echo request to `ipv4_out`. -/
theorem icmpv4OutEcho_eq {nf : NetLink.Netif} {dest : IpAddr} {identifier sequence : BitVec 16}
    {payload : List Byte} (hn : s.link.netif n = some nf)
    (hlen : (payload.length : ℤ) ≤ nf.mtu-ipv4HeaderMin-icmpv4HdrSize)
    (halloc : s.link.pktbufAlloc (8+payload.length : ℕ) = (w,some b)) :
    ∃ w', w'.Packet b (echoMessage 8 (be16 identifier++be16 sequence++payload)) ∧
      s.icmpv4OutEcho n dest identifier sequence payload =
        (s.setLink w').ipv4Out n b dest netProtocolIcmpv4 := by
  have h8 : icmpv4HdrSize = 8 := rfl
  obtain ⟨w₂,hwrite,-,hpacket₂,hfront₂⟩ := NetLink.build_packet
    ([8,0,0,0]++be16 identifier++be16 sequence) payload (k := 8) (by simp)
    (by decide) (by decide) halloc
  obtain ⟨w₃,hsum,hrw₃,hpacket₃⟩ := hpacket₂.checksum le_rfl 0
  rw [List.take_length] at hsum
  obtain ⟨-,hpacket₄⟩ := hpacket₃.store (hrw₃.front hfront₂) 2
    (be16 (~~~(onesSum 0 ([8,0,0,0]++be16 identifier++be16 sequence++payload))))
    (by rw [be16_length]; decide)
  have hbytes := echoMessage_zero 8 (be16 identifier++be16 sequence++payload)
  simp only [← List.append_assoc] at hbytes
  rw [hbytes] at hpacket₄
  refine ⟨_,by simpa only [← List.append_assoc] using hpacket₄,?_⟩
  have halloc' : (s.onLink fun w => w.pktbufAlloc (icmpv4HdrSize+payload.length)) =
      (s.setLink w,some b) := by
    rw [Int.natCast_add] at halloc
    rw [onLink]
    exact congrArg (fun x : NetLink × Option BufId => (s.setLink x.1,x.2)) halloc
  have hwrite' : writeBehind (w.pktbufStore b 0 ([8,0,0,0]++be16 identifier++be16 sequence)) b
      icmpv4HdrSize payload = (w₂,.ok) := hwrite
  rw [icmpv4OutEcho,hn]
  dsimp only
  rw [if_neg (by omega),halloc']
  dsimp only
  rw [setLink_link,hwrite']
  dsimp only
  rw [hpacket₂.total]
  have hsum : (w₂.pktbufResetAcc b).pktbufChecksum16 b
      ([8,0,0,0]++be16 identifier++be16 sequence++payload).length 0 = _ := hsum
  rw [hsum]
  rfl

/-- `icmpv4_echo_reply` hands an echo reply to `ipv4_out`. -/
theorem icmpv4EchoReply_eq {src : IpAddr} (hp : s.link.Packet b l) (hl : 8 ≤ l.length) :
    ∃ w, s.link.Edit b w ∧ w.Packet b (echoMessage 0 (l.drop 4)) ∧
      s.icmpv4EchoReply n b src =
        let r := (s.setLink (w.pktbufIncRef b)).ipv4Out n b src netProtocolIcmpv4
        if r.2 = .ok then (r.1.pktbufFree b,.ok) else r := by
  obtain ⟨w₁,d,hcont,hedit₁,hpacket₁,hfront₁,-⟩ := contData_spec hp 8 (by decide) hl
    (by decide)
  obtain ⟨hrw₂,hpacket₂⟩ := hpacket₁.store hfront₁ 0 [0,0,0,0] (by decide)
  have hbytes : overwrite l 0 [0,0,0,0] = [0,0,0,0]++l.drop 4 := by simp [overwrite]
  rw [hbytes] at hpacket₂
  obtain ⟨w₃,hsum,hrw₃,hpacket₃⟩ := checksumFront_spec
    (s := s.setLink (w₁.pktbufStore b 0 [0,0,0,0])) hpacket₂ le_rfl
  rw [setLink_link] at hrw₃
  rw [List.take_length,setLink_setLink] at hsum
  obtain ⟨hrw₄,hpacket₄⟩ := hpacket₃.store ((hrw₂.trans hrw₃).front hfront₁) 2
    (be16 (~~~(onesSum 0 ([0,0,0,0]++l.drop 4)))) (by rw [be16_length]; decide)
  rw [echoMessage_zero] at hpacket₄
  refine ⟨_,hedit₁.trans ((hrw₂.trans hrw₃).trans hrw₄).toEdit,hpacket₄,?_⟩
  have hcont' : s.contData b icmpv4HdrSize = (s.setLink w₁,some d) := hcont
  have htotal : (s.setLink (w₁.pktbufStore b 0 [0,0,0,0])).pktbufTotal b =
      ([0,0,0,0]++l.drop 4).length := hpacket₂.total
  rw [icmpv4EchoReply,hcont']
  dsimp only
  rw [setLink_link,setLink_setLink,htotal,hsum]
  rfl

/-- `icmpv4_in` takes `l` for an echo message, and refuses it with a byte changed. -/
structure EchoChecked (l : List Byte) : Prop where
  takes : ∀ (r : NetStack) (n : NetifId) (c : BufId) (src dest : IpAddr), r.link.Packet c l →
    ∃ w, r.link.Edit c w ∧ w.Packet c l ∧ r.icmpv4In n c src dest =
      if l.getD 0 0 = 0 then
        (((r.setLink w).countReply (Arp.half l 4) (Arp.half l 6)).pktbufFree c,.ok)
      else (r.setLink w).countRequest.icmpv4EchoReply n c src
  refuses : ∀ (r : NetStack) (n : NetifId) (c : BufId) (src dest : IpAddr) (l' : List Byte),
    Corrupt l l' → r.link.Packet c l' →
      ∃ w err, r.link.Edit c w ∧ err.code < 0 ∧ r.icmpv4In n c src dest = (r.setLink w,err)

theorem echoMessage_checked {type : Byte} {rest : List Byte} (ht : type = 0 ∨ type = 8)
    (hr : 4 ≤ rest.length) : EchoChecked (echoMessage type rest) := by
  have hlen := echoMessage_length type rest
  have hsum := echoMessage_verifies type rest
  have htype : (echoMessage type rest).getD 0 0 = type := rfl
  have hcode : (echoMessage type rest).getD 1 0 = 0 := rfl
  refine ⟨fun r n c src dest hp => ?_,fun r n c src dest l' hc hp => ?_⟩
  · obtain ⟨w,hedit,hpacket,heq⟩ := icmpv4In_eq n src dest hp (by omega)
    refine ⟨w,hedit,hpacket,?_⟩
    rw [heq,if_neg (not_not.2 hsum),if_neg (not_not.2 hcode),htype]
    rcases ht with rfl | rfl
    · rw [if_pos rfl,if_pos rfl]
    · rw [if_neg (by decide),if_neg (by decide),if_neg (by decide)]
  · refine icmpv4In_rejects hp (by rw [hc.length]; omega) fun hsum' => ?_
    rw [onesSum_eq_ones_iff] at hsum hsum'
    have h0 : (0 : BitVec 16).toNat = 0 := rfl
    have := hc.weight_ne 0
    omega

/-- Every segment that `tcp_make_segment` builds passes the header check and has a checksum of zero
at a receiver with the same addresses. When one byte of it, or of an address, is different there,
`tcp_in` returns an error and only the buffer has changed. The same holds for the echo messages. -/
theorem emitted_messages_verified :
    (∀ (s s' : NetStack) (i : Slot) (b : BufId) (seq ack : BitVec 32) (flags : Byte)
        (data : List Byte), data.length ≤ mss → s.tcpMakeSegment i seq ack flags data = (s',some b) →
      let src := (s.tcp.storage i).localIp
      let dest := (s.tcp.storage i).remoteIp
      ∃ l seg, s'.link.Packet b l ∧ Segment.ofBytes l = some seg ∧ tcpHeaderCheck seg = .ok ∧
        tcpChecksum l src dest l.length = 0 ∧
        ∀ (r : NetStack) (n : NetifId) (c : BufId) (l' : List Byte) (src' dest' : IpAddr),
          OneByteOff l src dest l' src' dest' → r.link.Packet c l' →
            ∃ w err, r.link.Edit c w ∧ err.code < 0 ∧ r.tcpIn n src' dest' c = (r.setLink w,err)) ∧
    (∀ (s : NetStack) (n : NetifId) (nf : NetLink.Netif) (dest : IpAddr)
        (identifier sequence : BitVec 16) (payload : List Byte) (w : NetLink) (b : BufId),
      s.link.netif n = some nf → (payload.length : ℤ) ≤ nf.mtu-ipv4HeaderMin-icmpv4HdrSize →
      s.link.pktbufAlloc (8+payload.length : ℕ) = (w,some b) →
      ∃ (w' : NetLink) (l : List Byte), w'.Packet b l ∧ EchoChecked l ∧
        s.icmpv4OutEcho n dest identifier sequence payload =
          (s.setLink w').ipv4Out n b dest netProtocolIcmpv4) ∧
    ∀ (s : NetStack) (n : NetifId) (b : BufId) (src : IpAddr) (l : List Byte),
      s.link.Packet b l → 8 ≤ l.length →
      ∃ (w : NetLink) (l' : List Byte), w.Packet b l' ∧ EchoChecked l' ∧ s.icmpv4EchoReply n b src =
        let r := (s.setLink (w.pktbufIncRef b)).ipv4Out n b src netProtocolIcmpv4
        if r.2 = .ok then (r.1.pktbufFree b,.ok) else r := by
  refine ⟨?_,?_,?_⟩
  · intro s s' i b seq ack flags data hd hmake src dest
    have hmss : mss = 512 := rfl
    have hmin : headerMin = 20 := rfl
    obtain ⟨w,rfl,hpacket⟩ := tcpMakeSegment_bytes (by omega) hmake
    have hlen : (Conn.segment (s.tcp.storage i) seq ack flags data).bytes.length =
        headerMin+data.length := Segment.bytes_length _
    have hsum := segment_checksum (s.tcp.storage i) seq ack flags data (by omega)
    refine ⟨_,_,hpacket,Segment.ofBytes_bytes _,segment_headerCheck _ _ _ _ _,hsum,?_⟩
    intro r n c l' src' dest' hoff hp
    have hlen' := hoff.length
    exact tcpIn_rejects hp (by omega) (by omega) (hoff.tcpChecksum_ne hsum)
  · intro s n nf dest identifier sequence payload w b hn hlen halloc
    obtain ⟨w',hpacket,heq⟩ := icmpv4OutEcho_eq hn hlen halloc
    exact ⟨w',_,hpacket,echoMessage_checked (.inr rfl) (by simp; omega),heq⟩
  · intro s n b src l hp hl
    obtain ⟨w,-,hpacket,heq⟩ := icmpv4EchoReply_eq hp hl
    exact ⟨w,_,hpacket,echoMessage_checked (.inl rfl) (by rw [List.length_drop]; omega),heq⟩

theorem emitted_messages_verified_boot :
    let s := netStackInit (List.replicate 6 2) []
    ∃ s' l, s.tcpMakeSegment 0 5 6 (flagPsh ||| flagAck) [1,2,3] = (s',some 0) ∧
      s'.link.Packet 0 l ∧ tcpChecksum l 0 0 l.length = 0 := by
  intro s
  have hmake : (s.tcpMakeSegment 0 5 6 (flagPsh ||| flagAck) [1,2,3]).2 = some 0 := by
    decide +kernel
  obtain ⟨l,seg,hpacket,-,-,hsum,-⟩ := emitted_messages_verified.1 s _ 0 0 5 6
    (flagPsh ||| flagAck) [1,2,3] (by decide) (Prod.ext rfl hmake)
  exact ⟨_,l,Prod.ext rfl hmake,hpacket,hsum⟩

end NetStack
end QuardStarNet
