import QuardStarNet.PacketBytes

/-! `ipv4_in` hands on exactly the payloads of the datagrams that are well formed and meant for the
interface. -/
namespace QuardStarNet

open Pktbuf Windows NetBytes

theorem getD_of_take {d l : List Byte} {k i : ℕ} (h : d.take k = l.take k) (hi : i < k) :
    d.getD i 0 = l.getD i 0 := by
  have := congrArg (fun l : List Byte => l.getD i 0) h
  simpa [List.getD_eq_getElem?_getD,List.getElem?_take,hi] using this

theorem half_of_take {d l : List Byte} {k i : ℕ} (h : d.take k = l.take k) (hi : i+1 < k) :
    Arp.half d i = Arp.half l i := by
  rw [Arp.half,getD_of_take h (by omega),getD_of_take h hi,Arp.half]

theorem ipaddrAt_of_take {d l : List Byte} {k i : ℕ} (h : d.take k = l.take k) (hi : i+3 < k) :
    Arp.ipaddrAt d i = Arp.ipaddrAt l i := by
  rw [Arp.ipaddrAt,getD_of_take h (by omega),getD_of_take h (show i+1 < k by omega),
    getD_of_take h (show i+2 < k by omega),getD_of_take h hi,Arp.ipaddrAt]

namespace Ipv4Hdr

/-- The fields are in the first twenty bytes. -/
theorem ofBytes_of_take {d l : List Byte} {k : ℕ} (h : d.take k = l.take k) (hk : 20 ≤ k) :
    ofBytes d = ofBytes l := by
  rw [ofBytes,getD_of_take h (by omega),half_of_take h (by omega),half_of_take h (by omega),
    getD_of_take h (show 9 < k by omega),ipaddrAt_of_take h (by omega),
    ipaddrAt_of_take h (by omega),ofBytes]

theorem version_eq (h : Ipv4Hdr) : h.version = h.versionIhl.toNat/16 := by
  rw [version,BitVec.toNat_ushiftRight,Nat.shiftRight_eq_div_pow]

theorem headerSize_eq (h : Ipv4Hdr) : h.headerSize = h.versionIhl.toNat % 16*4 := by
  rw [headerSize,BitVec.toNat_and]
  congr 1
  exact Nat.and_two_pow_sub_one_eq_mod _ 4

/-- The header is one of a datagram inside `size` bytes. -/
structure Fits (h : Ipv4Hdr) (size : ℕ) : Prop where
  long : 20 ≤ size
  version : h.version = 4
  least : 20 ≤ h.headerSize
  header : h.headerSize ≤ size
  lower : h.headerSize ≤ h.totalLen.toNat
  upper : h.totalLen.toNat ≤ size

end Ipv4Hdr

/-- The whole of what `ipv4_in` asks of the bytes of a packet. -/
structure Ipv4Accepts (nf : NetLink.Netif) (l : List Byte) : Prop where
  long : 20 ≤ l.length
  version : (l.getD 0 0).toNat/16 = 4
  ihl : 5 ≤ (l.getD 0 0).toNat % 16
  header : (l.getD 0 0).toNat % 16*4 ≤ l.length
  lower : (l.getD 0 0).toNat % 16*4 ≤ (Ipv4Hdr.ofBytes l).totalLen.toNat
  upper : (Ipv4Hdr.ofBytes l).totalLen.toNat ≤ l.length
  checksum : onesSum 0 (l.take ((l.getD 0 0).toNat % 16*4)) = 0xffff
  moreFragments : (Ipv4Hdr.ofBytes l).fragOff.getLsbD 13 = false
  fragmentOffset : (Ipv4Hdr.ofBytes l).fragOff.toNat % 8192 = 0
  dest : (Ipv4Hdr.ofBytes l).destIp = nf.ipaddr ∨ (Ipv4Hdr.ofBytes l).destIp = 0xffffffff ∨
    (Ipv4Hdr.ofBytes l).destIp = nf.ipaddr &&& nf.netmask ||| ~~~nf.netmask

theorem directBroadcast_iff (dest src netmask : IpAddr) :
    dest &&& ~~~netmask = BitVec.allOnes 32 &&& ~~~netmask ∧ dest &&& netmask = src &&& netmask ↔
      dest = src &&& netmask ||| ~~~netmask := by
  constructor
  · rintro ⟨hhost,hnet⟩
    ext i hi
    have h₁ := congrArg (fun v : IpAddr => v.getLsbD i) hhost
    have h₂ := congrArg (fun v : IpAddr => v.getLsbD i) hnet
    simp only [BitVec.getLsbD_and,BitVec.getLsbD_not,BitVec.getLsbD_allOnes,hi,decide_true,
      Bool.true_and] at h₁ h₂
    simp only [← BitVec.getLsbD_eq_getElem,BitVec.getLsbD_or,BitVec.getLsbD_and,BitVec.getLsbD_not,
      hi,decide_true,Bool.true_and]
    cases hm : netmask.getLsbD i
    · simpa [hm] using h₁
    · simpa [hm] using h₂
  · rintro rfl
    constructor
    · ext i hi
      simp only [← BitVec.getLsbD_eq_getElem,BitVec.getLsbD_or,BitVec.getLsbD_and,
        BitVec.getLsbD_not,BitVec.getLsbD_allOnes,hi,decide_true,Bool.true_and]
      cases netmask.getLsbD i <;> simp
    · ext i hi
      simp only [← BitVec.getLsbD_eq_getElem,BitVec.getLsbD_or,BitVec.getLsbD_and,
        BitVec.getLsbD_not,hi,decide_true,Bool.true_and]
      cases netmask.getLsbD i <;> simp

/-- `ipaddr_is_match`: the own address, or one of the two broadcast addresses. -/
theorem ipaddrIsMatch_iff (dest src netmask : IpAddr) :
    ipaddrIsMatch dest src netmask = true ↔
      dest = src ∨ dest = 0xffffffff ∨ dest = src &&& netmask ||| ~~~netmask := by
  have hall : BitVec.allOnes 32 = 0xffffffff#32 := by decide
  rw [← directBroadcast_iff]
  simp only [ipaddrIsMatch,ipaddrIsLocalBroadcast,ipaddrIsDirectBroadcast,Bool.or_eq_true,
    Bool.and_eq_true,beq_iff_eq,hall]
  tauto

/-- The mask of `ipv4_in` covers the MF bit and the fragment offset. -/
theorem fragOff_iff (x : BitVec 16) :
    x &&& 0x3fff = 0 ↔ x.getLsbD 13 = false ∧ x.toNat % 8192 = 0 := by
  have hand : (x &&& 0x3fff).toNat = x.toNat % 16384 := by
    rw [BitVec.toNat_and]
    exact Nat.and_two_pow_sub_one_eq_mod _ 14
  have hbit : x.getLsbD 13 = false ↔ x.toNat/8192 % 2 = 0 := by
    rw [BitVec.getLsbD,Nat.testBit_eq_decide_div_mod_eq]
    simp
  rw [← BitVec.toNat_inj,hand,hbit]
  show x.toNat % 16384 = 0 ↔ _
  omega

/-- The tests of `ipv4_in`, put together. -/
theorem ipv4Accepts_iff (nf : NetLink.Netif) (l : List Byte) :
    Ipv4Accepts nf l ↔ (Ipv4Hdr.ofBytes l).Fits l.length ∧
      onesSum 0 (l.take (Ipv4Hdr.ofBytes l).headerSize) = 0xffff ∧
      (Ipv4Hdr.ofBytes l).fragOff &&& 0x3fff = 0 ∧
      ipaddrIsMatch (Ipv4Hdr.ofBytes l).destIp nf.ipaddr nf.netmask = true := by
  have hsize := (Ipv4Hdr.ofBytes l).headerSize_eq
  have hversion := (Ipv4Hdr.ofBytes l).version_eq
  have hfirst : (Ipv4Hdr.ofBytes l).versionIhl = l.getD 0 0 := rfl
  rw [hfirst] at hsize hversion
  rw [ipaddrIsMatch_iff,fragOff_iff,hsize]
  constructor
  · intro h
    exact ⟨⟨h.long,hversion.trans h.version,by have := h.ihl; omega,hsize ▸ h.header,
      hsize ▸ h.lower,h.upper⟩,h.checksum,⟨h.moreFragments,h.fragmentOffset⟩,h.dest⟩
  · rintro ⟨h,hsum,⟨hmore,hoff⟩,hdest⟩
    have hleast := h.least
    exact ⟨h.long,hversion ▸ h.version,by omega,hsize ▸ h.header,hsize ▸ h.lower,h.upper,hsum,hmore,
      hoff,hdest⟩

namespace NetStack

variable {s : NetStack} {n : NetifId} {b : BufId} {l : List Byte} {size : ℕ} {nf : NetLink.Netif}

/-- The front of a packet that is long enough. -/
theorem contData_spec (hp : s.link.Packet b l) (size : ℕ) (h0 : 0 < size) (hl : size ≤ l.length)
    (hb : size ≤ pktbufBlkSize) :
    ∃ w d, s.contData b size = (s.setLink w,some d) ∧ s.link.Edit b w ∧ w.Packet b l ∧
      (w.pool.bufs b).Front size 0 ∧ d.take size = l.take size := by
  obtain ⟨w,hw,hedit,hpacket,hfront⟩ := hp.setCont size h0 hl hb
  obtain ⟨d,hd,htake⟩ := hpacket.data hfront
  refine ⟨w,d,?_,hedit,hpacket,hfront,htake⟩
  have hset : (s.onLink fun w => w.pktbufSetCont b size) = (s.setLink w,.ok) := by
    rw [onLink,hw]
  rw [contData,hset]
  exact congrArg _ hd

theorem checksumFront_spec (hp : s.link.Packet b l) (hl : size ≤ l.length) :
    ∃ w, s.checksumFront b size = (s.setLink w,~~~(onesSum 0 (l.take size))) ∧
      s.link.Rewrite b w ∧ w.Packet b l := by
  obtain ⟨w,hw,hrw,hpacket⟩ := hp.checksum hl 0
  refine ⟨w,?_,hrw,hpacket⟩
  have hw : (s.link.pktbufResetAcc b).pktbufChecksum16 b size 0 = _ := hw
  rw [checksumFront,onLink,hw]

/-- The first tests of `ipv4_in` pass when the header fits, and leave the bytes alone. -/
theorem ipv4Header_spec (hp : s.link.Packet b l) :
    ∃ w, s.link.Edit b w ∧ w.Packet b l ∧
      ((Ipv4Hdr.ofBytes l).Fits l.length ∧
          s.ipv4Header? b l.length = (s.setLink w,.ok (Ipv4Hdr.ofBytes l)) ∨
        ¬(Ipv4Hdr.ofBytes l).Fits l.length ∧
          ∃ err, err ≠ .ok ∧ s.ipv4Header? b l.length = (s.setLink w,.error err)) := by
  have hmin : ipv4HeaderMin = 20 := rfl
  have hmax : ipv4HeaderMax = 60 := rfl
  have hblk : pktbufBlkSize = 1024 := rfl
  unfold ipv4Header?
  by_cases hlong : l.length < 20
  · rw [if_pos (by omega)]
    exact ⟨s.link,.refl _,hp,.inr ⟨fun h => absurd h.long (by omega),.size,by simp,rfl⟩⟩
  rw [if_neg (by omega)]
  obtain ⟨w,d,hcont,hedit,hpacket,hfront,htake⟩ :=
    contData_spec hp 20 (by omega) (by omega) (by omega)
  have hcont : s.contData b ipv4HeaderMin = (s.setLink w,some d) := hcont
  rw [hcont]
  dsimp only
  rw [Ipv4Hdr.ofBytes_of_take htake le_rfl]
  generalize hh : Ipv4Hdr.ofBytes l = h at *
  have hle := h.headerSize_eq
  split
  next hbad =>
    refine ⟨w,hedit,hpacket,.inr ⟨fun hf => ?_,.format,by simp,rfl⟩⟩
    have := hf.version
    have := hf.least
    have := hf.header
    omega
  next hgood =>
    -- the rest of the header is made contiguous when there are options
    have hopt : ∃ w' d', (if ipv4HeaderMin < h.headerSize then (s.setLink w).contData b h.headerSize
        else (s.setLink w,(s.setLink w).link.pktbufData b)) = (s.setLink w',some d') ∧
        s.link.Edit b w' ∧ w'.Packet b l ∧ Ipv4Hdr.ofBytes d' = h := by
      split
      next hopt =>
        obtain ⟨w',d',hcont',hedit',hpacket',-,htake'⟩ := contData_spec (s := s.setLink w)
          hpacket h.headerSize (by omega) (by omega) (by omega)
        exact ⟨w',d',hcont',hedit.trans hedit',hpacket',
          by rw [Ipv4Hdr.ofBytes_of_take htake' (by omega),hh]⟩
      next =>
        obtain ⟨d',hd',htake'⟩ := hpacket.data hfront
        exact ⟨w,d',by rw [setLink_link,hd'],hedit,hpacket,
          by rw [Ipv4Hdr.ofBytes_of_take htake' le_rfl,hh]⟩
    obtain ⟨w',d',hr,hedit',hpacket',hd'⟩ := hopt
    rw [hr]
    dsimp only
    rw [hd']
    refine ⟨w',hedit',hpacket',?_⟩
    split
    next hbad =>
      refine .inr ⟨fun hf => ?_,.size,by simp,rfl⟩
      have := hf.lower
      have := hf.upper
      omega
    next hgood' => exact .inl ⟨⟨by omega,by omega,by omega,by omega,by omega,by omega⟩,rfl⟩

theorem complement_eq_zero (x : BitVec 16) : ~~~x = 0 ↔ x = 0xffff := by
  rw [← BitVec.not_inj (x := x)]
  rfl

/-- `ipv4_in` on a packet whose header fits. -/
theorem ipv4InWith_fits (hn : s.link.netif n = some nf) (hp : s.link.Packet b l)
    (hfits : (Ipv4Hdr.ofBytes l).Fits l.length) :
    let h := Ipv4Hdr.ofBytes l
    ∃ w w', s.link.Edit b w ∧ s.link.Edit b w' ∧
      w'.Packet b ((l.take h.totalLen.toNat).drop h.headerSize) ∧
      (w'.pool.bufs b).Placed ∧ (w'.pool.bufs b).pos = 0 ∧
      ∀ handlers : Byte → Option Handler, s.ipv4InWith n b handlers =
        if onesSum 0 (l.take h.headerSize) ≠ 0xffff then (s.setLink w,.chksum)
        else if h.fragOff &&& 0x3fff ≠ 0 then (s.setLink w,.notSupport)
        else if ¬ipaddrIsMatch h.destIp nf.ipaddr nf.netmask then (s.setLink w,.unreach)
        else match handlers h.protocol with
          | none => (s.setLink w,.notSupport)
          | some handler => handler (s.setLink w') n h.srcIp h.destIp b := by
  intro h
  obtain ⟨w₀,hedit₀,hpacket₀,⟨-,hheader⟩ | ⟨hno,-⟩⟩ := ipv4Header_spec hp
  case inr => exact absurd hfits hno
  obtain ⟨w₁,hresize,hedit₁,hpacket₁⟩ := hpacket₀.shrink hfits.upper
  have hlen : (l.take h.totalLen.toNat).length = h.totalLen.toNat :=
    List.length_take_of_le hfits.upper
  have hlower : h.headerSize ≤ (l.take h.totalLen.toNat).length := by
    rw [hlen]
    exact hfits.lower
  obtain ⟨w₂,hsum,hrw₂,hpacket₂⟩ := checksumFront_spec (s := s.setLink w₁) hpacket₁ hlower
  rw [List.take_take,Nat.min_eq_left hfits.lower,setLink_setLink] at hsum
  obtain ⟨w₃,hremove,hedit₃,hpacket₃⟩ := hpacket₂.removeHeader hlower
  have hw := (hedit₀.trans hedit₁).trans hrw₂.toEdit
  have hbuf : (w₃.pktbufResetAcc b).pool.bufs b = (w₃.pool.bufs b).pktbufResetAcc :=
    NetLink.onBytes_bufs _
  refine ⟨w₂,w₃.pktbufResetAcc b,hw,(hw.trans hedit₃).trans NetLink.Rewrite.resetAcc.toEdit,
    hpacket₃.resetAcc,?_,?_,fun handlers => ?_⟩
  · rw [hbuf]
    exact .resetAcc hpacket₃.wf
  · rw [hbuf]
    rfl
  have hresize' : ((s.setLink w₀).onLink fun w => w.pktbufResize b h.totalLen.toNat) =
      (s.setLink w₁,.ok) := by
    rw [onLink,setLink_link,hresize,setLink_setLink]
  have hremove' : ((s.setLink w₂).onLink fun w => w.pktbufRemoveHeader b h.headerSize) =
      (s.setLink w₃,.ok) := by
    rw [onLink,setLink_link,hremove,setLink_setLink]
  rw [ipv4InWith,hn]
  dsimp only
  rw [pktbufTotal,hp.total,hheader]
  dsimp only
  rw [hresize']
  dsimp only
  rw [hsum]
  dsimp only
  rw [hremove']
  simp only [ne_eq,complement_eq_zero,setLink_link,setLink_setLink]
  rfl

/-- `ipv4_in` runs a handler, once, with the addresses and exactly the payload of the datagram, when
the packet is well formed, meant for the interface and of a protocol with a handler. Any other
packet gets a negative code that does not depend on what the handlers do. -/
theorem ipv4In_exact (handlers : Byte → Option Handler) (hn : s.link.netif n = some nf)
    (hp : s.link.Packet b l) :
    let h := Ipv4Hdr.ofBytes l
    let headerLength := (l.getD 0 0).toNat % 16*4
    (∀ handler, Ipv4Accepts nf l → handlers h.protocol = some handler →
      ∃ w, s.link.Edit b w ∧ w.Packet b ((l.take h.totalLen.toNat).drop headerLength) ∧
        (w.pool.bufs b).Placed ∧ (w.pool.bufs b).pos = 0 ∧
        s.ipv4InWith n b handlers = handler (s.setLink w) n h.srcIp h.destIp b) ∧
    (¬(Ipv4Accepts nf l ∧ (handlers h.protocol).isSome) →
      ∃ w err, s.link.Edit b w ∧ err.code < 0 ∧ ∀ handlers' : Byte → Option Handler,
        (∀ p, (handlers' p).isSome = (handlers p).isSome) →
          s.ipv4InWith n b handlers' = (s.setLink w,err)) := by
  intro h headerLength
  have hsize : h.headerSize = headerLength := h.headerSize_eq
  rw [ipv4Accepts_iff]
  constructor
  · rintro handler ⟨hfits,hsum,hfrag,hdest⟩ hhandler
    obtain ⟨w,w',-,hedit,hpacket,hplaced,hpos,heq⟩ := ipv4InWith_fits hn hp hfits
    refine ⟨w',hedit,hsize ▸ hpacket,hplaced,hpos,?_⟩
    rw [heq,if_neg (not_not.2 hsum),if_neg (not_not.2 hfrag),if_neg (not_not.2 hdest),hhandler]
  · intro hno
    by_cases hfits : h.Fits l.length
    · obtain ⟨w,w',hedit,-,-,-,-,heq⟩ := ipv4InWith_fits hn hp hfits
      by_cases hsum : onesSum 0 (l.take h.headerSize) = 0xffff
      · by_cases hfrag : h.fragOff &&& 0x3fff = 0
        · by_cases hdest : ipaddrIsMatch h.destIp nf.ipaddr nf.netmask = true
          · refine ⟨w,.notSupport,hedit,by decide,fun handlers' hsame => ?_⟩
            have hnone : handlers' h.protocol = none := by
              rw [← Option.not_isSome_iff_eq_none,hsame]
              exact fun hsome => hno ⟨⟨hfits,hsum,hfrag,hdest⟩,hsome⟩
            rw [heq,if_neg (not_not.2 hsum),if_neg (not_not.2 hfrag),if_neg (not_not.2 hdest),hnone]
          · refine ⟨w,.unreach,hedit,by decide,fun handlers' _ => ?_⟩
            rw [heq,if_neg (not_not.2 hsum),if_neg (not_not.2 hfrag),if_pos hdest]
        · refine ⟨w,.notSupport,hedit,by decide,fun handlers' _ => ?_⟩
          rw [heq,if_neg (not_not.2 hsum),if_pos hfrag]
      · refine ⟨w,.chksum,hedit,by decide,fun handlers' _ => ?_⟩
        rw [heq,if_pos hsum]
    · obtain ⟨w,hedit,-,⟨hyes,-⟩ | ⟨-,err,herr,hheader⟩⟩ := ipv4Header_spec hp
      · exact absurd hyes hfits
      · refine ⟨w,err,hedit,(NetErr.code_neg_iff err).2 herr,fun handlers' _ => ?_⟩
        rw [ipv4InWith,hn]
        dsimp only
        rw [pktbufTotal,hp.total,hheader]

/-- A datagram with four bytes of options and two of payload, and one byte behind it. -/
def optionBytes : List Byte :=
  [0x46,0,0,26,0,0,0x40,0,64,17,0x39,0xcf,127,0,0,1,127,0,0,1,1,1,1,1,0xaa,0xbb,0]

/-- The datagram in two blocks, cut in the middle of the header. -/
def optionBuf : Buf where
  totalSize := 27
  blkList := [⟨0,14,0,fun i => optionBytes.getD i 0⟩,⟨1,13,100,fun i => optionBytes.getD (i-86) 0⟩]
  ref := 1
  pos := 0
  currBlk := some 0
  blkOffset := 0

def optionStack : NetStack :=
  let s := netStackInit (List.replicate 6 2) []
  s.setLink { s.link with pool := s.link.pool.setBuf 0 optionBuf }

theorem optionStack_packet : optionStack.link.Packet 0 optionBytes := by
  have hbuf : optionStack.link.pool.bufs 0 = optionBuf := by simp [optionStack,Pool.setBuf]
  refine ⟨?_,?_⟩
  · rw [hbuf]
    refine ⟨rfl,?_⟩
    simp only [optionBuf,List.forall_mem_cons]
    exact ⟨⟨by decide,by decide⟩,⟨by decide,by decide⟩,by simp⟩
  · rw [hbuf]
    decide

theorem optionBytes_accepted : Ipv4Accepts NetLink.loopNetif optionBytes :=
  ⟨by decide,by decide,by decide,by decide,by decide,by decide,by decide +kernel,by decide,
    by decide,.inl (by decide)⟩

theorem ipv4In_exact_options :
    ∃ w, w.Packet 0 [0xaa,0xbb] ∧ optionStack.ipv4InWith 0 0 handlers =
      (optionStack.setLink w).udpIn 0 0x7f000001 0x7f000001 := by
  have hn : optionStack.link.netif 0 = some NetLink.loopNetif := rfl
  obtain ⟨w,-,hpacket,-,-,heq⟩ := (ipv4In_exact handlers hn optionStack_packet).1
    (fun s _ src dest b => s.udpIn b src dest) optionBytes_accepted rfl
  exact ⟨w,hpacket,heq⟩

end NetStack
end QuardStarNet
