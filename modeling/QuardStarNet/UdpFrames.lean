import QuardStarNet.Ipv4Input

/-! A datagram on its way from `udp_sendto` to the driver. -/
namespace QuardStarNet

open Pktbuf Windows NetBytes

/-! Blocks for headers and padding. -/

namespace Pktbuf

theorem allocLoop_length {addFront : Bool} {free free' blks blks' : List Pktblk} {size : ℕ}
    (h : allocLoop addFront free size blks = (free',some blks')) :
    free.length = free'.length+(size+1023)/1024 := by
  have hblk : pktbufBlkSize = 1024 := rfl
  induction free generalizing size blks with
  | nil =>
    cases size with
    | zero => cases h; rfl
    | succ size => cases h
  | cons b free ih =>
    cases size with
    | zero => cases h; rfl
    | succ size =>
      rw [allocLoop] at h
      have := ih h
      rw [List.length_cons]
      omega

/-- Enough blocks are taken from the free list. -/
theorem pktblockAllocList_ok {size : ℕ} {free : List Pktblk}
    (h : (size+1023)/1024 ≤ free.length) (addFront : Bool) :
    ∃ free' blks, pktblockAllocList size addFront free = (free',some blks) ∧
      free.length = free'.length+(size+1023)/1024 := by
  have hblk : pktbufBlkSize = 1024 := rfl
  cases hr : pktblockAllocList size addFront free with
  | mk free' r =>
    cases r with
    | none =>
      have := (pktblockAllocList_none hr).2
      rw [hblk] at this
      omega
    | some blks => exact ⟨free',blks,rfl,allocLoop_length hr⟩

/-- Bytes that fit in one block. -/
theorem pktblockAllocList_one {size : ℕ} (h0 : 0 < size) (h : size ≤ pktbufBlkSize) (addFront : Bool)
    (b : Pktblk) (free : List Pktblk) :
    pktblockAllocList size addFront (b :: free) = (free,some [{ b with
      size := size, data := if addFront then pktbufBlkSize-size else 0 }]) := by
  obtain ⟨size,rfl⟩ := Nat.exists_eq_succ_of_ne_zero (Nat.ne_of_gt h0)
  rw [pktblockAllocList,allocLoop,Nat.min_eq_left h,Nat.sub_self]
  cases free <;> cases addFront <;> rfl

namespace Buf

variable {x : Buf}

/-- The last block has room for `t` more bytes behind its window. -/
def Back (x : Buf) (t : ℕ) : Prop := ∃ b ∈ x.blkList.getLast?, t ≤ b.tailFree

/-- The first block has no room in front of its window. -/
def Flush (x : Buf) : Prop := ∃ b ∈ x.blkList.head?, b.data = 0

theorem Back.congr {y : Buf} {t : ℕ} (h : x.Back t) (hs : y.shapes = x.shapes) : y.Back t := by
  obtain ⟨b,hb,ht⟩ := h
  have hlast : y.shapes.getLast? = some (b.id,b.size,b.data) := by
    rw [hs,shapes,List.getLast?_map,hb]
    rfl
  rw [shapes,List.getLast?_map] at hlast
  obtain ⟨c,hc,he⟩ := Option.map_eq_some_iff.1 hlast
  obtain ⟨-,hsize,hdata⟩ : c.id = b.id ∧ c.size = b.size ∧ c.data = b.data := by simpa using he
  exact ⟨c,hc,by rw [Pktblk.tailFree,hsize,hdata]; exact ht⟩

theorem Flush.congr {y : Buf} (h : x.Flush) (hs : y.shapes = x.shapes) : y.Flush := by
  obtain ⟨b,hb,hd⟩ := h
  have hhead : y.shapes.head? = some (b.id,b.size,b.data) := by
    rw [hs,shapes,List.head?_map,hb]
    rfl
  rw [shapes,List.head?_map] at hhead
  obtain ⟨c,hc,he⟩ := Option.map_eq_some_iff.1 hhead
  obtain ⟨-,-,hdata⟩ : c.id = b.id ∧ c.size = b.size ∧ c.data = b.data := by simpa using he
  exact ⟨c,hc,hdata.trans hd⟩

end Buf
end Pktbuf

namespace NetLink

variable {w w' : NetLink} {b : BufId} {l : List Byte} {size : ℕ}

/-- `pktbuf_alloc` when there are a buffer and blocks. -/
theorem pktbufAlloc_ok {rest : List BufId} (size : ℕ) (h0 : 0 < size) (hbuf : w.pool.pktbufList = b :: rest)
    (hblocks : (size+1023)/1024 ≤ w.pool.blockList.length) :
    ∃ w', w.pktbufAlloc size = (w',some b) ∧ w'.netifs = w.netifs ∧ w'.fates = w.fates ∧
      w'.wire = w.wire ∧
      w.pool.blockList.length = w'.pool.blockList.length+(size+1023)/1024 ∧
      (w'.pool.bufs b).Flush ∧
      (size ≤ pktbufBlkSize → (w'.pool.bufs b).Back (pktbufBlkSize-size)) := by
  obtain ⟨free,blks,halloc,hlen⟩ := pktblockAllocList_ok hblocks false
  refine ⟨(w.pktbufAlloc size).1,?_,rfl,rfl,rfl,?_⟩
  · refine Prod.ext rfl ?_
    rw [pktbufAlloc,Pool.pktbufAlloc,if_neg (by omega),hbuf]
    dsimp only
    rw [if_neg (by omega),Int.toNat_natCast,halloc]
  rw [pktbufAlloc,Pool.pktbufAlloc,if_neg (by omega),hbuf]
  dsimp only
  rw [if_neg (by omega),Int.toNat_natCast,halloc]
  dsimp only
  refine ⟨hlen,?_,fun hsmall => ?_⟩
  · obtain ⟨blk,hblk,-,hdata⟩ := pktblockAllocList_head halloc h0
    exact ⟨blk,by simpa [Pool.setBuf,Buf.pktbufInsertBlkList] using hblk,hdata⟩
  · obtain ⟨c,free',hlist⟩ := List.exists_cons_of_length_pos (l := w.pool.blockList) (by omega)
    rw [hlist,pktblockAllocList_one h0 hsmall] at halloc
    obtain ⟨-,hblks⟩ := Prod.mk.inj halloc
    obtain rfl := Option.some.inj hblks
    refine ⟨{ c with size := size, data := 0 },by simp [Pool.setBuf,Buf.pktbufInsertBlkList],?_⟩
    rw [Pktblk.tailFree]
    dsimp only
    omega

/-- A header in a block of its own. -/
theorem Packet.addHeader_block (h : w.Packet b l) (hx : (w.pool.bufs b).Flush)
    (size : ℕ) (h0 : 0 < size) (hs : size ≤ pktbufBlkSize) (hfree : 0 < w.pool.blockList.length) :
    ∃ w' header, w.pktbufAddHeader b size true = (w',.ok) ∧ w.Edit b w' ∧ header.length = size ∧
      w'.Packet b (header++l) ∧ (w'.pool.bufs b).Front size (pktbufBlkSize-size) ∧
      (w'.pool.bufs b).blkList.getLast? = (w.pool.bufs b).blkList.getLast? := by
  obtain ⟨blk,hblk,hdata⟩ := hx
  obtain ⟨rest,hrest⟩ := List.head?_eq_some_iff.1 hblk
  obtain ⟨c,free,hlist⟩ := List.exists_cons_of_length_pos hfree
  obtain ⟨hkeep,hok,-,-⟩ := pktbufAddHeader_spec h.wf w.pool.blockList size true
  have hadd : (w.pool.bufs b).pktbufAddHeader w.pool.blockList size true =
      ((free,((w.pool.bufs b).pktbufInsertBlkList
        [{ c with size := size, data := pktbufBlkSize-size }] false).pktbufResetAcc),.ok) := by
    rw [Buf.pktbufAddHeader,if_neg (by omega),if_neg (by omega),Int.toNat_natCast,Buf.addHeader,hrest]
    dsimp only
    rw [if_neg (by omega),if_pos rfl,if_neg (by omega),Buf.allocInsert,hlist,Bool.not_false,
      pktblockAllocList_one h0 hs]
    rfl
  have hres : ((w.pool.bufs b).pktbufAddHeader w.pool.blockList size true).2 = .ok := by rw [hadd]
  obtain ⟨header,hlen,hbytes⟩ := hok hres
  refine ⟨(w.pktbufAddHeader b size true).1,header,Prod.ext rfl hres,.onBlocks fun x free => by simp,
    by omega,⟨?_,?_⟩,?_,?_⟩
  · rw [pktbufAddHeader,onBlocks_bufs]
    exact hkeep.wf
  · rw [pktbufAddHeader,onBlocks_bufs,hbytes,h.bytes]
  · rw [pktbufAddHeader,onBlocks_bufs,hadd]
    exact ⟨_,rfl,Nat.le_refl _,Nat.le_refl _⟩
  · rw [pktbufAddHeader,onBlocks_bufs,hadd]
    simp [Buf.pktbufInsertBlkList,hrest]

/-- A header in the room in front of the first block. -/
theorem Packet.addHeader_room (h : w.Packet b l) {k r : ℕ} (hx : (w.pool.bufs b).Front k r)
    (size : ℕ) (h0 : 0 < size) (hs : size ≤ r) :
    ∃ w' header, w.pktbufAddHeader b size true = (w',.ok) ∧ w.Edit b w' ∧ header.length = size ∧
      w'.Packet b (header++l) ∧ (w'.pool.bufs b).Front size 0 := by
  obtain ⟨blk,hblk,-,hr⟩ := hx
  obtain ⟨rest,hrest⟩ := List.head?_eq_some_iff.1 hblk
  obtain ⟨hkeep,hok,-,-⟩ := pktbufAddHeader_spec h.wf w.pool.blockList size true
  have hadd : (w.pool.bufs b).pktbufAddHeader w.pool.blockList size true =
      ((w.pool.blockList,({ w.pool.bufs b with
        blkList := { blk with size := blk.size+size, data := blk.data-size } :: rest
        totalSize := (w.pool.bufs b).totalSize+size }).pktbufResetAcc),.ok) := by
    rw [Buf.pktbufAddHeader,if_neg (by omega),if_neg (by omega),Int.toNat_natCast,Buf.addHeader,hrest]
    dsimp only
    rw [if_pos (by omega)]
  have hres : ((w.pool.bufs b).pktbufAddHeader w.pool.blockList size true).2 = .ok := by rw [hadd]
  obtain ⟨header,hlen,hbytes⟩ := hok hres
  refine ⟨(w.pktbufAddHeader b size true).1,header,Prod.ext rfl hres,.onBlocks fun x free => by simp,
    by omega,⟨?_,?_⟩,?_⟩
  · rw [pktbufAddHeader,onBlocks_bufs]
    exact hkeep.wf
  · rw [pktbufAddHeader,onBlocks_bufs,hbytes,h.bytes]
  · rw [pktbufAddHeader,onBlocks_bufs,hadd]
    exact ⟨_,rfl,Nat.le_add_left _ _,Nat.zero_le _⟩

/-- `pktbuf_resize` to a larger size that the last block has room for. -/
theorem Packet.grow (h : w.Packet b l) {k r : ℕ} (hx : (w.pool.bufs b).Front k r)
    (hlt : l.length < size) (hback : (w.pool.bufs b).Back (size-l.length)) :
    ∃ w' rest, w.pktbufResize b size = (w',.ok) ∧ w.Edit b w' ∧ rest.length = size-l.length ∧
      w'.Packet b (l++rest) ∧ (w'.pool.bufs b).Front k r := by
  obtain ⟨tail,htail,hroom⟩ := hback
  obtain ⟨front,hfront⟩ := List.getLast?_eq_some_iff.1 htail
  have hlen := h.length
  have htailpos := (h.wf.fits tail (by simp [hfront])).pos
  have htotal : tail.size ≤ (w.pool.bufs b).totalSize := by
    rw [h.wf.total,hfront]
    simp
  obtain ⟨hkeep,hok,-,-⟩ := pktbufResize_spec h.wf w.pool.blockList size
  have hgrow : (w.pool.bufs b).pktbufResize w.pool.blockList size =
      ((w.pool.blockList,({ w.pool.bufs b with
        blkList := front++[{ tail with size := tail.size+(size-(w.pool.bufs b).totalSize) }]
        totalSize := (w.pool.bufs b).totalSize+(size-(w.pool.bufs b).totalSize) }).pktbufResetAcc),
        .ok) := by
    rw [Buf.pktbufResize,if_neg (by omega),if_neg (by omega),if_neg (by omega),if_neg (by omega),
      if_pos (by omega),htail]
    dsimp only
    rw [Buf.grow,Int.toNat_natCast]
    dsimp only
    rw [if_pos (by omega),hfront,List.dropLast_concat]
  have hres : ((w.pool.bufs b).pktbufResize w.pool.blockList size).2 = .ok := by rw [hgrow]
  obtain ⟨rest,hbytes,hsize⟩ := hok hres
  rw [h.bytes,Int.toNat_natCast,List.take_of_length_le (Nat.le_of_lt hlt)] at hbytes
  refine ⟨(w.pktbufResize b size).1,rest,Prod.ext rfl hres,.onBlocks fun x free => by simp,
    ?_,⟨?_,?_⟩,?_⟩
  · rw [hbytes,List.length_append] at hsize
    omega
  · rw [pktbufResize,onBlocks_bufs]
    exact hkeep.wf
  · rw [pktbufResize,onBlocks_bufs,hbytes]
  · rw [pktbufResize,onBlocks_bufs,hgrow]
    obtain ⟨blk,hblk,hk,hr⟩ := hx
    rw [hfront] at hblk
    cases front with
    | nil =>
      obtain rfl : tail = blk := by simpa using hblk
      exact ⟨_,rfl,by dsimp only; omega,hr⟩
    | cons c front => exact ⟨blk,hblk,hk,hr⟩

/-- The frame of `ether_raw_out`, filled up with zeros when it is short. -/
def etherFrame (dest src : HwAddr) (protocol : BitVec 16) (payload : List Byte) : List Byte :=
  dest.take ethHwaSize++src.take ethHwaSize++be16 protocol++
    (payload++List.replicate (46-payload.length) 0)

theorem etherPad_spec (h : w.Packet b l) {k r : ℕ} (hx : (w.pool.bufs b).Front k r)
    (hback : l.length < 46 → (w.pool.bufs b).Back (46-l.length)) :
    ∃ w', w.etherPad b l.length = (w',.ok) ∧ w.Edit b w' ∧
      w'.Packet b (l++List.replicate (46-l.length) 0) ∧ (w'.pool.bufs b).Front k r := by
  have hmin : ethDataMin = (46 : ℕ) := rfl
  unfold etherPad
  split
  next hlt =>
    have hlt : l.length < 46 := by omega
    obtain ⟨w₁,rest,hresize,hedit₁,hrest,hpacket₁,hfront₁⟩ := h.grow hx hlt (hback hlt)
    have hlen : (l++rest).length = 46 := by rw [List.length_append,hrest]; omega
    obtain ⟨w₂,hseek,hrw₂,hpacket₂,hplaced,hpos⟩ := hpacket₁.seek l.length
      (by rw [hlen]; omega)
    obtain ⟨w₃,hfill,hrw₃,hpacket₃⟩ := hpacket₂.wrote hpos
      (f := fun x => x.pktbufFill 0 ((46-l.length : ℕ) : ℤ)) (fun x => by simp)
      (Buf.pktbufFill_spec hpacket₂.wf hplaced 0 (by rw [hpos,hpacket₂.length,hlen]; omega))
    have hbytes : overwrite (l++rest) l.length (List.replicate (46-l.length) 0) =
        l++List.replicate (46-l.length) 0 := by
      have := overwrite_append_right l rest 0 (List.replicate (46-l.length) (0 : Byte))
      rw [Nat.add_zero] at this
      rw [this,overwrite_all (by rw [hrest,List.length_replicate])]
    rw [hbytes] at hpacket₃
    refine ⟨w₃,?_,hedit₁.trans (hrw₂.trans hrw₃).toEdit,hpacket₃,(hrw₂.trans hrw₃).front hfront₁⟩
    have hsub : ethDataMin-(l.length : ℤ) = ((46-l.length : ℕ) : ℤ) := by omega
    have hresize : w.pktbufResize b ethDataMin = (w₁,.ok) := hresize
    rw [hsub,hresize,onOk,if_pos rfl]
    dsimp only
    rw [hseek,onOk,if_pos rfl]
    exact hfill
  next hge =>
    have hzero : 46-l.length = 0 := by omega
    exact ⟨w,rfl,.refl w,by simpa [hzero] using h,hx⟩

/-- `ether_raw_out` puts the frame together and hands it to the driver. -/
theorem etherRawOut_eq {n : NetifId} {nf : Netif} {k r : ℕ} (protocol : BitVec 16) {dest : HwAddr}
    (hn : w.netif n = some nf) (hactive : nf.state = .active) (hhw : ethHwaSize ≤ nf.hwaddrLen)
    (hsrc : (nf.hwaddr.take ethHwaSize).length = ethHwaSize)
    (hdest : (dest.take ethHwaSize).length = ethHwaSize)
    (hne : nf.hwaddr.take ethHwaSize ≠ dest.take ethHwaSize) (h : w.Packet b l)
    (hl : l.length ≤ 1500) (hx : (w.pool.bufs b).Front k r) (hr : 14 ≤ r)
    (hback : l.length < 46 → (w.pool.bufs b).Back (46-l.length)) :
    ∃ w', w.etherRawOut n b protocol dest = w'.send n b nf ∧ w.Edit b w' ∧
      w'.Packet b (etherFrame dest nf.hwaddr protocol l) := by
  have hmtu : ethMtu = 1500 := rfl
  obtain ⟨w₁,hpad,hedit₁,hpacket₁,hfront₁⟩ := etherPad_spec h hx hback
  obtain ⟨w₂,header,hadd,hedit₂,hlen,hpacket₂,hfront₂⟩ := hpacket₁.addHeader_room hfront₁
    14 (by omega) hr
  obtain ⟨d,hd,-⟩ := hpacket₂.data hfront₂
  have hnew : (dest.take ethHwaSize++nf.hwaddr.take ethHwaSize++be16 protocol).length = 14 := by
    rw [List.length_append,List.length_append,hsrc,hdest,be16_length]
    rfl
  obtain ⟨hrw₃,hpacket₃⟩ := hpacket₂.store hfront₂ 0
    (dest.take ethHwaSize++nf.hwaddr.take ethHwaSize++be16 protocol) (by rw [hnew])
  rw [overwrite_append_left (by rw [hnew,hlen]),overwrite_all (by rw [hnew,hlen])] at hpacket₃
  refine ⟨_,?_,(hedit₁.trans hedit₂).trans hrw₃.toEdit,hpacket₃⟩
  have hadd : w₁.pktbufAddHeader b etherHdrSize true = (w₂,.ok) := hadd
  rw [etherRawOut,hn]
  dsimp only
  rw [if_neg (by simp [hactive]; omega),h.total,if_neg (by omega),hpad,orFree,if_pos rfl]
  dsimp only
  rw [hadd,orFree,if_pos rfl]
  dsimp only
  rw [hd]
  dsimp only
  rw [if_neg hne]

/-! The driver. -/

theorem pktbufFree_other {p : Pool} {c d : BufId} (h : d ≠ c) : (p.pktbufFree c).bufs d = p.bufs d := by
  unfold Pool.pktbufFree
  dsimp only
  split
  · rfl
  split
  · simp [Pool.setBuf,h]
  · simp [Pool.setBuf,h]

theorem fate_of_ok (h : ∀ f ∈ w.fates, f = .ok) : w.fate = .ok := by
  unfold fate
  cases hf : w.fates with
  | nil => rfl
  | cons f fs => exact h f (by simp [hf])

/-- What the driver does with one packet changes no other, and the loop goes on while the device
takes frames. -/
theorem xmitOne_ok (hf : ∀ f ∈ w.fates, f = .ok) (c : BufId) (result : NetErr) :
    ∃ w' result' extra, w.xmitOne c result = (w',result',true) ∧ w'.wire = w.wire++extra ∧
      w'.netifs = w.netifs ∧ (∀ f ∈ w'.fates, f = .ok) ∧
      ∀ d, d ≠ c → w'.pool.bufs d = w.pool.bufs d := by
  have hread : w.Edit c ((w.pktbufResetAcc c).pktbufRead c (w.pktbufTotal c)).1 :=
    Rewrite.resetAcc.toEdit.trans (.onBytes fun x => by simp)
  unfold xmitOne
  dsimp only
  generalize (w.pktbufResetAcc c).pktbufRead c (w.pktbufTotal c) = r at hread ⊢
  have hfates : ∀ f ∈ r.1.fates, f = .ok := by rwa [hread.fates]
  split
  · exact ⟨_,_,[],rfl,by simp [pktbufFree],rfl,hf,fun d hd => pktbufFree_other hd⟩
  split
  · exact ⟨_,_,[],rfl,by simpa [pktbufFree] using hread.wire,hread.netifs,hfates,
      fun d hd => (pktbufFree_other hd).trans (hread.other d hd)⟩
  · rw [virtioNetSend,if_pos (fate_of_ok hfates)]
    dsimp only
    rw [if_neg (not_not.2 rfl)]
    exact ⟨_,_,[r.2.2++List.replicate (ethFrameMin.toNat-r.2.2.length) 0],rfl,
      congrArg (fun l => l++[_]) hread.wire,hread.netifs,
      fun f hmem => hfates f (List.mem_of_mem_tail hmem),
      fun d hd => (pktbufFree_other hd).trans (hread.other d hd)⟩

/-- A packet of the size of a frame is sent as it is. -/
theorem xmitOne_frame (hf : ∀ f ∈ w.fates, f = .ok) (h : w.Packet b l) (hmin : 60 ≤ l.length)
    (hmax : l.length ≤ 1514) (result : NetErr) :
    ∃ w', w.xmitOne b result = (w',result,true) ∧ w'.wire = w.wire++[l] ∧ w'.netifs = w.netifs := by
  obtain ⟨w₁,hread,hrw⟩ := h.read le_rfl
  rw [List.take_length] at hread
  have hpad : ethFrameMin.toNat-l.length = 0 := by
    have : ethFrameMin.toNat = 60 := rfl
    omega
  have hfates : ∀ f ∈ w₁.fates, f = .ok := by rwa [hrw.fates]
  have hsmall : ¬ethFrameMax < (l.length : ℤ) := by
    have : ethFrameMax = 1514 := rfl
    omega
  unfold xmitOne
  dsimp only
  rw [h.total,if_neg hsmall,hread]
  dsimp only
  rw [if_neg (by simp),hpad,List.replicate_zero,List.append_nil,virtioNetSend,
    if_pos (fate_of_ok hfates)]
  dsimp only
  rw [if_neg (not_not.2 rfl)]
  exact ⟨_,rfl,congrArg (fun l' => l'++[l]) hrw.wire,hrw.netifs⟩

/-- The queue that packets leave through. -/
def outQueue (w : NetLink) (n : NetifId) : Option (List BufId) := (w.netif n).map Netif.outQ

theorem setNetif_netif {n : NetifId} {f : Netif → Netif} {nf : Netif} (hn : w.netif n = some nf) :
    (w.setNetif n f).netif n = some (f nf) := by
  unfold netif at hn
  split at hn
  · next hlt =>
    obtain rfl : w.netifs ⟨n,hlt⟩ = nf := by simpa using hn
    simp [netif,setNetif,hlt]
  · cases hn

/-- Taking the head of the queue. -/
theorem netifGetOut_cons {n : NetifId} {c : BufId} {rest : List BufId}
    (h : w.outQueue n = some (c :: rest)) :
    ∃ w', w.netifGetOut n = (w',some c) ∧ w'.outQueue n = some rest ∧ w'.fates = w.fates ∧
      w'.wire = w.wire ∧ (∀ d, d ≠ c → w'.pool.bufs d = w.pool.bufs d) ∧
      ∀ l, w.Packet c l → w'.Packet c l := by
  obtain ⟨nf,hn,hq⟩ := Option.map_eq_some_iff.1 h
  have hset := setNetif_netif (f := fun nf => { nf with outQ := rest }) hn
  have hrw : (w.setNetif n fun nf => { nf with outQ := rest }).Rewrite c
      ((w.setNetif n fun nf => { nf with outQ := rest }).pktbufResetAcc c) := .resetAcc
  have hpool : (w.setNetif n fun nf => { nf with outQ := rest }).pool = w.pool ∧
      (w.setNetif n fun nf => { nf with outQ := rest }).fates = w.fates ∧
      (w.setNetif n fun nf => { nf with outQ := rest }).wire = w.wire := by
    unfold setNetif
    split
    · exact ⟨rfl,rfl,rfl⟩
    · exact ⟨rfl,rfl,rfl⟩
  refine ⟨(w.setNetif n fun nf => { nf with outQ := rest }).pktbufResetAcc c,?_,?_,
    hrw.fates.trans hpool.2.1,hrw.wire.trans hpool.2.2,fun d hd => ?_,fun l hl => ?_⟩
  · have h : (w.netif n).map Netif.outQ = some (c :: rest) := h
    rw [netifGetOut,h]
  · rw [outQueue,hrw.toEdit.netif,hset]
    rfl
  · rw [hrw.other d hd,hpool.1]
  · have hp : (w.setNetif n fun nf => { nf with outQ := rest }).Packet c l :=
      ⟨by rw [hpool.1]; exact hl.wf,by rw [hpool.1]; exact hl.bytes⟩
    exact hp.resetAcc

/-- The loop of the driver sends what is in the queue, up to its last packet. -/
theorem xmitLoop_last {n : NetifId} {queue : List BufId} {fuel : ℕ} {result : NetErr}
    (hfuel : queue.length < fuel) (hf : ∀ f ∈ w.fates, f = .ok)
    (hq : w.outQueue n = some (queue++[b])) (hb : b ∉ queue) (h : w.Packet b l)
    (hmin : 60 ≤ l.length) (hmax : l.length ≤ 1514) :
    ∃ front, (xmitLoop n fuel result w).1.wire = w.wire++front++[l] := by
  induction queue generalizing w fuel result with
  | nil =>
    obtain ⟨fuel,rfl⟩ := Nat.exists_eq_succ_of_ne_zero (Nat.ne_of_gt hfuel)
    obtain ⟨w₁,hget,hq₁,hfates₁,hwire₁,-,hpacket₁⟩ := netifGetOut_cons hq
    obtain ⟨w₂,hone,hwire₂,hnetifs₂⟩ := xmitOne_frame (by rwa [hfates₁]) (hpacket₁ l h) hmin hmax
      result
    have hq₂ : (w₂.netif n).map Netif.outQ = some [] := by
      rw [netif,hnetifs₂]
      exact hq₁
    refine ⟨[],?_⟩
    rw [xmitLoop,hget]
    dsimp only
    rw [hone]
    dsimp only
    have hend : (xmitLoop n fuel result w₂).1 = w₂ := by
      cases fuel with
      | zero => rfl
      | succ fuel => rw [xmitLoop,netifGetOut,hq₂]
    rw [hend,hwire₂,hwire₁,List.append_nil]
  | cons c queue ih =>
    obtain ⟨fuel,rfl⟩ := Nat.exists_eq_succ_of_ne_zero (Nat.ne_of_gt (Nat.zero_lt_of_lt hfuel))
    have hne : b ≠ c := fun he => hb (by simp [he])
    obtain ⟨w₁,hget,hq₁,hfates₁,hwire₁,hother₁,-⟩ := netifGetOut_cons hq
    obtain ⟨w₂,result₂,extra,hone,hwire₂,hnetifs₂,hfates₂,hother₂⟩ :=
      xmitOne_ok (by rwa [hfates₁]) c result
    have hbuf : w₂.pool.bufs b = w.pool.bufs b := (hother₂ b hne).trans (hother₁ b hne)
    obtain ⟨front,hloop⟩ := @ih w₂ fuel result₂ (by simpa using hfuel) hfates₂
      (by rw [outQueue,netif,hnetifs₂]; exact hq₁) (fun hmem => hb (by simp [hmem]))
      ⟨by rw [hbuf]; exact h.wf,by rw [hbuf]; exact h.bytes⟩
    refine ⟨extra++front,?_⟩
    rw [xmitLoop,hget]
    dsimp only
    rw [hone]
    dsimp only
    rw [hloop,hwire₂,hwire₁]
    simp

/-- A frame that is queued for the virtio driver goes to the device. -/
theorem send_frame {n : NetifId} {nf : Netif} (hn : w.netif n = some nf)
    (hx : nf.xmit = some .virtio) (hf : ∀ f ∈ w.fates, f = .ok)
    (hroom : nf.outQ.length < netifOutqSize) (hb : b ∉ nf.outQ) (h : w.Packet b l)
    (hmin : 60 ≤ l.length) (hmax : l.length ≤ 1514) :
    ∃ front, (w.send n b nf).1.wire = w.wire++front++[l] := by
  have hput : fixqSend nf.outQ netifOutqSize b w.fate = (nf.outQ++[b],.ok) := by
    rw [fixqSend,if_neg (by omega),if_neg (not_not.2 (fate_of_ok hf))]
  have hput' : w.netifPutOut n b =
      (w.spend.setNetif n fun nf' => { nf' with outQ := nf.outQ++[b] },.ok) := by
    rw [netifPutOut,hn]
    dsimp only
    rw [hput]
  have hset := setNetif_netif (w := w.spend) (f := fun nf' => { nf' with outQ := nf.outQ++[b] }) hn
  have hsame : (w.spend.setNetif n fun nf' => { nf' with outQ := nf.outQ++[b] }).pool = w.pool ∧
      (w.spend.setNetif n fun nf' => { nf' with outQ := nf.outQ++[b] }).fates = w.fates.tail ∧
      (w.spend.setNetif n fun nf' => { nf' with outQ := nf.outQ++[b] }).wire = w.wire := by
    unfold setNetif
    split
    · exact ⟨rfl,rfl,rfl⟩
    · exact ⟨rfl,rfl,rfl⟩
  generalize (w.spend.setNetif n fun nf' => { nf' with outQ := nf.outQ++[b] }) = w₁ at hput' hset hsame
  obtain ⟨hpool,hfates,hwire⟩ := hsame
  obtain ⟨front,hloop⟩ := @xmitLoop_last w₁ b l n nf.outQ (nf.outQ++[b]).length .ok (by simp)
    (by rw [hfates]; exact fun f hmem => hf f (List.mem_of_mem_tail hmem))
    (by rw [outQueue,hset]; rfl) hb ⟨by rw [hpool]; exact h.wf,by rw [hpool]; exact h.bytes⟩ hmin hmax
  refine ⟨front,?_⟩
  rw [send,hx]
  dsimp only
  rw [hput',orFree,if_pos rfl]
  dsimp only
  rw [Driver.xmit,netifVirtioXmit,hset]
  dsimp only
  rw [hloop,hwire]

end NetLink

namespace Arp

variable {W B : Type} (L : Below W B)

/-- The cache has the hardware address of a host. -/
def Resolved (a : Arp W B) (n : NetifId) (ip : IpAddr) (mac : HwAddr) : Prop :=
  ∃ i, (a.cacheList.find? fun i => (a.entries i).key = (n,ip)) = some i ∧
    (a.entries i).state = .resolved ∧ (a.entries i).haddr = mac

/-- `arp_resolve` passes a packet on when the address is known. -/
theorem arpResolve_resolved {a : Arp W B} {n : NetifId} {ip : IpAddr} {mac : HwAddr}
    (h : a.Resolved n ip mac) (hb : a.isBroadcast L n ip = false) (buf : B) :
    (a.arpResolve L n ip buf).1.world = (L.etherRawOut a.world n netProtocolIpv4 mac buf).1 := by
  obtain ⟨i,hi,hstate,hmac⟩ := h
  have hkey : (a.entries i).key = (n,ip) := by simpa using List.find?_some hi
  have hfind : a.arpFindEntry n ip = ({ a with cacheList := i :: a.cacheList.erase i },some i) := by
    rw [arpFindEntry,hi]
  have hagain : (i :: a.cacheList.erase i).find? (fun i => (a.entries i).key = (n,ip)) = some i := by
    rw [List.find?_cons_of_pos (by simpa using hkey)]
  rw [arpResolve,arpFind,if_neg (by simp [hb]),hfind]
  dsimp only
  rw [if_pos hstate]
  dsimp only
  rw [resolveUnicast,arpFindEntry,hagain]
  dsimp only [note]
  rw [if_pos hstate,hmac]
  rfl

end Arp

namespace NetStack

variable {s : NetStack} {n : NetifId} {nf : NetLink.Netif} {b : BufId} {l : List Byte}

/-- An Ethernet interface as `netif_virtio_open` and `netif_set_active` leave it. -/
structure EtherUp (nf : NetLink.Netif) : Prop where
  state : nf.state = .active
  type : nf.type = .ether
  mtu : nf.mtu = ethMtu
  hwaddrLen : nf.hwaddrLen = ethHwaSize
  hwaddr : (nf.hwaddr.take ethHwaSize).length = ethHwaSize
  xmit : nf.xmit = some .virtio
  etherLayer : nf.etherLayer = true

theorem ipv4Header_length (totalLen id : BitVec 16) (protocol : Byte) (src dest : IpAddr)
    (checksum : BitVec 16) : (ipv4Header totalLen id protocol src dest checksum).length = 20 := by
  simp [ipv4Header]

/-- The datagram that `ipv4_out` makes of a payload. -/
def ipv4Datagram (id : BitVec 16) (protocol : Byte) (src dest : IpAddr) (payload : List Byte) :
    List Byte :=
  let header := ipv4Header (BitVec.ofNat 16 (20+payload.length)) id protocol src dest
  header (~~~(onesSum 0 (header 0)))++payload

/-- `ipv4_out` puts the header in front of a payload that fits. -/
theorem ipv4Out_eq (dest : IpAddr) (protocol : Byte) (hn : s.link.netif n = some nf)
    (hup : EtherUp nf) (hp : s.link.Packet b l) (h0 : 0 < l.length) (hl : l.length ≤ 1480)
    (hflush : (s.link.pool.bufs b).Flush) (hfree : 0 < s.link.pool.blockList.length) :
    ∃ w, s.ipv4Out n b dest protocol =
        ({ s with nextPacketId := s.nextPacketId+1 }.setLink w).netifOut n b dest ∧
      s.link.Edit b w ∧ w.Packet b (ipv4Datagram s.nextPacketId protocol nf.ipaddr dest l) ∧
      (w.pool.bufs b).Front 20 1004 ∧
      ∀ t, (s.link.pool.bufs b).Back t → (w.pool.bufs b).Back t := by
  have hmin : ipv4HeaderMin = (20 : ℕ) := rfl
  have hmtu : nf.mtu = 1500 := hup.mtu
  obtain ⟨w₁,header,hadd,hedit₁,hlen,hpacket₁,hfront₁,hlast₁⟩ := hp.addHeader_block hflush
    20 (by omega) (by decide) hfree
  obtain ⟨d,hd,-⟩ := hpacket₁.data hfront₁
  set new := ipv4Header (BitVec.ofNat 16 (20+l.length)) s.nextPacketId protocol nf.ipaddr dest with hnew
  have hnewlen : ∀ checksum, (new checksum).length = 20 := fun checksum => ipv4Header_length ..
  obtain ⟨hrw₂,hpacket₂⟩ := hpacket₁.store hfront₁ 0
    (new (~~~(onesSum 0 (new 0)))) (by rw [hnewlen])
  rw [overwrite_append_left (by rw [hnewlen,hlen]),overwrite_all (by rw [hnewlen,hlen])] at hpacket₂
  refine ⟨_,?_,hedit₁.trans hrw₂.toEdit,hpacket₂,hrw₂.front hfront₁,fun t ht => ?_⟩
  · have hadd' : (s.onLink fun w => w.pktbufAddHeader b ipv4HeaderMin true) =
        (s.setLink w₁,.ok) := by
      rw [onLink]
      exact congrArg (fun x : NetLink × NetErr => (s.setLink x.1,x.2)) hadd
    have hsize : BitVec.ofInt 16 ((l.length : ℤ)+ipv4HeaderMin) = BitVec.ofNat 16 (20+l.length) := by
      rw [hmin,← Int.natCast_add,BitVec.ofInt_natCast,Nat.add_comm]
    have hck : ~~~(BitVec.ofNat 16 (Tcp.checksum16 0 (new 0) 0)) = ~~~(onesSum 0 (new 0)) := by
      have := Tcp.checksum16_eq_onesSum 0 (new 0)
      rw [show (0 : BitVec 16).toNat = 0 from rfl] at this
      rw [this,BitVec.ofNat_toNat,BitVec.setWidth_eq]
    rw [ipv4Out,hn]
    dsimp only
    rw [if_neg (by simp [hup.state]),hp.total,if_neg (by omega),hadd',orFree,if_pos rfl]
    dsimp only
    rw [setLink_link,hd]
    dsimp only
    rw [hsize]
    show (NetStack.setLink _ (w₁.pktbufStore b 0 (new (~~~(BitVec.ofNat 16
      (Tcp.checksum16 0 (new 0) 0)))))).netifOut n b dest = _
    rw [hck]
    rfl
  · obtain ⟨blk,hblk,hroom⟩ := ht
    exact Buf.Back.congr ⟨blk,hlast₁.trans hblk,hroom⟩ hrw₂.shapes

/-- The bytes of a datagram. -/
def udpDatagram (src dest : IpAddr) (srcPort destPort : Port) (data : List Byte) : List Byte :=
  let length := BitVec.ofNat 16 (8+data.length)
  let front := be16 srcPort++be16 destPort++be16 length
  front++be16 (sentChecksum (~~~(onesSum (BitVec.ofNat 16 (pseudoSum src dest netProtocolUdp length))
    (front++be16 0++data))))++data

/-- `udp_sendto` hands the datagram to `ipv4_out`. -/
theorem udpSendto_eq {i : Fin udpPcbMax} {pcb : UdpPcb} (dest : IpAddr) {destPort : Port}
    {data : List Byte} {rest : List BufId} (hpcb : (s.udp i).pcb = some pcb)
    (hn : s.link.netif n = some nf) (hport : destPort ≠ 0) (hlen : 8+data.length < 65536)
    (hbuf : s.link.pool.pktbufList = b :: rest)
    (hblocks : (8+data.length+1023)/1024+1 ≤ s.link.pool.blockList.length) :
    ∃ w, s.udpSendto n i dest destPort data = (s.setLink w).ipv4Out n b dest netProtocolUdp ∧
      w.netifs = s.link.netifs ∧ w.fates = s.link.fates ∧ w.wire = s.link.wire ∧
      w.Packet b (udpDatagram nf.ipaddr dest pcb.localPort destPort data) ∧
      0 < w.pool.blockList.length ∧ (w.pool.bufs b).Flush ∧
      (8+data.length ≤ 1024 → (w.pool.bufs b).Back (1024-(8+data.length))) := by
  have h8 : udpHeaderSize = (8 : ℕ) := rfl
  obtain ⟨w₁,halloc,hnetifs₁,hfates₁,hwire₁,hblocks₁,hflush₁,hback₁⟩ := NetLink.pktbufAlloc_ok
    (8+data.length) (by omega) hbuf (by omega)
  set length := BitVec.ofNat 16 (8+data.length) with hlength
  set front := be16 pcb.localPort++be16 destPort++be16 length with hfront
  have hzero : be16 0 = [0,0] := by decide
  have hheader : (front++[0,0]).length = 8 := by simp [hfront]
  obtain ⟨w₂,hwrite,hrw₂,hpacket₂,hfront₂⟩ := NetLink.build_packet _ data hheader (by decide)
    (by decide) halloc
  have hlen₂ : length.toNat = (front++[0,0]++data).length := by
    rw [List.length_append,hheader,hlength,BitVec.toNat_ofNat]
    omega
  obtain ⟨w₃,hsum,hrw₃,hpacket₃⟩ := transportChecksum_spec hpacket₂ hlen₂ nf.ipaddr dest
    netProtocolUdp
  rw [← hzero] at hpacket₃ hsum
  set checksum := sentChecksum (~~~(onesSum (BitVec.ofNat 16 (pseudoSum nf.ipaddr dest netProtocolUdp
    length)) (front++be16 0++data))) with hchecksum
  obtain ⟨hrw₄,hpacket₄⟩ := hpacket₃.store (hrw₃.front hfront₂) 6
    (be16 checksum) (by rw [be16_length])
  have hfield := NetLink.overwrite_field front data 0 checksum
  rw [show front.length = 6 by simp [hfront]] at hfield
  rw [hfield] at hpacket₄
  have hrw := (hrw₂.trans hrw₃).trans hrw₄
  refine ⟨_,?_,hrw.netifs.trans hnetifs₁,hrw.fates.trans hfates₁,hrw.wire.trans hwire₁,hpacket₄,
    by rw [hrw.blockList]; omega,hflush₁.congr hrw.shapes,
    fun hsmall => (hback₁ hsmall).congr hrw.shapes⟩
  have halloc' : (s.onLink fun w => w.pktbufAlloc (udpHeaderSize+data.length)) =
      (s.setLink w₁,some b) := by
    rw [onLink,h8,← Int.natCast_add,halloc]
  have hofInt : BitVec.ofInt 16 (udpHeaderSize+data.length) = length := by
    rw [h8,← Int.natCast_add,BitVec.ofInt_natCast]
  have hwrite' : writeBehind (w₁.pktbufStore b 0 (front++[0,0])) b udpHeaderSize data = (w₂,.ok) :=
    hwrite
  rw [udpSendto,hpcb,hn]
  dsimp only
  rw [if_neg hport,halloc']
  dsimp only
  rw [hofInt,setLink_link,← hfront,hwrite']
  dsimp only
  rw [hsum]
  rfl

/-- `netif_out` on an Ethernet interface to a host whose address is known. -/
theorem netifOut_link {dest : IpAddr} {mac : HwAddr} (hn : s.link.netif n = some nf)
    (hup : EtherUp nf) (hres : s.arp.Resolved n dest mac)
    (hunicast : (ipaddrIsLocalBroadcast dest || ipaddrIsDirectBroadcast dest nf.netmask) = false)
    (b : BufId) :
    (s.netifOut n b dest).1.link = (s.link.etherRawOut n b netProtocolIpv4 mac).1 := by
  have hb : s.arp.isBroadcast NetLink.below n dest = false := by
    have hmask : NetLink.below.netmask s.link n = nf.netmask := by simp [NetLink.below,hn]
    rw [← hunicast,← hmask]
    rfl
  rw [netifOut,hn]
  dsimp only
  rw [if_neg (by simp [hup.state]),if_pos hup.etherLayer,arpResolve,hn]
  exact Arp.arpResolve_resolved NetLink.below hres hb b

/-- The frame that carries a datagram. -/
def udpFrame (mac : HwAddr) (nf : NetLink.Netif) (id : BitVec 16) (dest : IpAddr)
    (srcPort destPort : Port) (data : List Byte) : List Byte :=
  NetLink.etherFrame mac nf.hwaddr netProtocolIpv4
    (ipv4Datagram id netProtocolUdp nf.ipaddr dest
      (udpDatagram nf.ipaddr dest srcPort destPort data))

theorem udpDatagram_length (src dest : IpAddr) (srcPort destPort : Port) (data : List Byte) :
    (udpDatagram src dest srcPort destPort data).length = 8+data.length := by
  simp [udpDatagram]
  omega

theorem ipv4Datagram_length (id : BitVec 16) (protocol : Byte) (src dest : IpAddr)
    (payload : List Byte) :
    (ipv4Datagram id protocol src dest payload).length = 20+payload.length := by
  rw [ipv4Datagram,List.length_append,ipv4Header_length]

/-- With a buffer, the blocks for the datagram and one for the headers, room in the queue and a
device that takes frames, `udp_sendto` hands the frame of the datagram to the device. -/
theorem udpSendto_frame {i : Fin udpPcbMax} {pcb : UdpPcb} {dest : IpAddr} {destPort : Port}
    {data : List Byte} {rest : List BufId} {mac : HwAddr} (hpcb : (s.udp i).pcb = some pcb)
    (hn : s.link.netif n = some nf) (hup : EtherUp nf) (hport : destPort ≠ 0)
    (hlen : (data.length : ℤ) ≤ nf.mtu-28) (hbuf : s.link.pool.pktbufList = b :: rest)
    (hblocks : (8+data.length+1023)/1024+1 ≤ s.link.pool.blockList.length)
    (hfates : ∀ f ∈ s.link.fates, f = .ok) (hroom : nf.outQ.length < netifOutqSize)
    (hqueue : b ∉ nf.outQ) (hres : s.arp.Resolved n dest mac)
    (hunicast : (ipaddrIsLocalBroadcast dest || ipaddrIsDirectBroadcast dest nf.netmask) = false)
    (hmac : (mac.take ethHwaSize).length = ethHwaSize)
    (hne : nf.hwaddr.take ethHwaSize ≠ mac.take ethHwaSize) :
    ∃ front, (s.udpSendto n i dest destPort data).1.link.wire =
      s.link.wire++front++[udpFrame mac nf s.nextPacketId dest pcb.localPort destPort data] := by
  have hmtu : nf.mtu = 1500 := hup.mtu
  obtain ⟨w₁,heq₁,hnetifs₁,hfates₁,hwire₁,hpacket₁,hfree₁,hflush₁,hback₁⟩ := udpSendto_eq dest
    hpcb hn hport (by omega) hbuf hblocks
  have hudp := udpDatagram_length nf.ipaddr dest pcb.localPort destPort data
  have hn₁ : (s.setLink w₁).link.netif n = some nf := by
    rw [setLink_link,NetLink.netif,hnetifs₁]
    exact hn
  obtain ⟨w₂,heq₂,hedit₂,hpacket₂,hfront₂,hback₂⟩ := ipv4Out_eq (s := s.setLink w₁) dest
    netProtocolUdp hn₁ hup hpacket₁ (by omega) (by omega) hflush₁ hfree₁
  rw [setLink_link] at hedit₂ hn₁ hback₂
  have hpacket₂ : w₂.Packet b (ipv4Datagram s.nextPacketId netProtocolUdp nf.ipaddr dest
      (udpDatagram nf.ipaddr dest pcb.localPort destPort data)) := hpacket₂
  have hip := ipv4Datagram_length s.nextPacketId netProtocolUdp nf.ipaddr dest
    (udpDatagram nf.ipaddr dest pcb.localPort destPort data)
  have hn₂ : w₂.netif n = some nf := (hedit₂.netif n).trans hn₁
  obtain ⟨w₃,heq₃,hedit₃,hpacket₃⟩ := NetLink.etherRawOut_eq
    netProtocolIpv4 hn₂ hup.state (Nat.le_of_eq hup.hwaddrLen.symm) hup.hwaddr hmac hne
    hpacket₂ (by rw [hip]; omega) hfront₂ (by decide) fun hshort => by
      rw [hip] at hshort ⊢
      obtain ⟨blk,hblk,ht⟩ := hback₂ _ (hback₁ (by omega))
      exact ⟨blk,hblk,by omega⟩
  have hframe : (NetLink.etherFrame mac nf.hwaddr netProtocolIpv4 (ipv4Datagram s.nextPacketId
      netProtocolUdp nf.ipaddr dest (udpDatagram nf.ipaddr dest pcb.localPort destPort data))).length =
      14+max 46 (28+data.length) := by
    rw [NetLink.etherFrame,List.length_append,List.length_append,List.length_append,hmac,hup.hwaddr,
      List.length_append,List.length_replicate,hip,hudp,be16_length]
    have : ethHwaSize = 6 := rfl
    omega
  obtain ⟨front,hsend⟩ := NetLink.send_frame ((hedit₃.netif n).trans hn₂) hup.xmit
    (by rw [hedit₃.fates,hedit₂.fates,hfates₁]; exact hfates) hroom hqueue hpacket₃
    (by rw [hframe]; omega) (by rw [hframe]; omega)
  refine ⟨front,?_⟩
  let s₂ : NetStack := { s.setLink w₁ with nextPacketId := (s.setLink w₁).nextPacketId+1 }
  have hlink := @netifOut_link (s₂.setLink w₂) n nf dest mac hn₂ hup hres hunicast b
  rw [heq₁,heq₂,hlink,setLink_link,heq₃,hsend,hedit₃.wire,hedit₂.wire,hwire₁]
  rfl

end NetStack
end QuardStarNet
