import QuardStarNet.Checksums
import QuardStarNet.NetInput
import QuardStarNet.PacketWork

/-! The bytes of one packet as the layers work on it. -/
namespace QuardStarNet

open Pktbuf Windows NetBytes

namespace Pktbuf
namespace Buf

variable {x y : Buf} {k r t : ℕ}

/-- The first block shows `k` bytes and has room for `r` more in front of them. -/
def Front (x : Buf) (k r : ℕ) : Prop := ∃ b ∈ x.blkList.head?, k ≤ b.size ∧ r ≤ b.data

theorem Front.congr (h : x.Front k r) (hs : y.shapes = x.shapes) : y.Front k r := by
  obtain ⟨b,hb,hk,hr⟩ := h
  have hhead : y.shapes.head? = some (b.id,b.size,b.data) := by
    rw [hs,shapes,List.head?_map,hb]
    rfl
  rw [shapes,List.head?_map] at hhead
  obtain ⟨c,hc,he⟩ := Option.map_eq_some_iff.1 hhead
  obtain ⟨-,hsize,hdata⟩ : c.id = b.id ∧ c.size = b.size ∧ c.data = b.data := by simpa using he
  exact ⟨c,hc,by omega,by omega⟩

end Buf

/-- The loop of `pktblock_alloc_list` appends when it does not add in front. -/
theorem allocLoop_append {free free' blks blks' : List Pktblk} {size : ℕ}
    (h : allocLoop false free size blks = (free',some blks')) : ∃ rest, blks' = blks++rest := by
  induction free generalizing size blks with
  | nil =>
    cases size with
    | zero =>
      cases h
      exact ⟨[],by simp⟩
    | succ size => cases h
  | cons b free ih =>
    cases size with
    | zero =>
      cases h
      exact ⟨[],by simp⟩
    | succ size =>
      rw [allocLoop] at h
      obtain ⟨rest,hrest⟩ := ih h
      rw [if_neg Bool.false_ne_true,List.append_assoc] at hrest
      exact ⟨_,hrest⟩

/-- The first block is as full as it can be. -/
theorem pktblockAllocList_head {free free' blks : List Pktblk} {size : ℕ}
    (h : pktblockAllocList size false free = (free',some blks)) (h0 : 0 < size) :
    ∃ b ∈ blks.head?, min size pktbufBlkSize ≤ b.size ∧ b.data = 0 := by
  obtain ⟨size,rfl⟩ := Nat.exists_eq_succ_of_ne_zero (Nat.ne_of_gt h0)
  cases free with
  | nil => cases h
  | cons b free =>
    rw [pktblockAllocList,allocLoop] at h
    obtain ⟨rest,rfl⟩ := allocLoop_append h
    exact ⟨_,rfl,Nat.le_refl _,rfl⟩

/-- A buffer as `pktbuf_alloc` gives it. -/
theorem Pool.pktbufAlloc_some {p p' : Pool} {b : BufId} {size : ℕ}
    (h : p.pktbufAlloc size = (p',some b)) :
    p.pktbufList = b :: p'.pktbufList ∧ (p'.bufs b).Wf ∧ (p'.bufs b).bytes.length = size ∧
      (p'.bufs b).ref = 1 ∧ (0 < size → (p'.bufs b).Front (min size pktbufBlkSize) 0) ∧
      ∀ c, c ≠ b → p'.bufs c = p.bufs c := by
  unfold pktbufAlloc at h
  rw [if_neg (by omega)] at h
  split at h
  · cases h
  · next c rest hlist =>
    dsimp only at h
    split at h
    · next hz =>
      cases h
      refine ⟨hlist,?_,?_,?_,fun hpos => absurd hpos (by omega),fun c hc => by simp [setBuf,hc]⟩
      · simpa [setBuf] using Buf.Wf.resetAcc ⟨rfl,by simp⟩
      · simp [setBuf,Buf.bytes]
        omega
      · simp [setBuf]
    · rw [Int.toNat_natCast] at h
      split at h
      · cases h
      · next free blks halloc =>
        cases h
        obtain ⟨-,htotal,hfits⟩ := pktblockAllocList_some halloc
        refine ⟨hlist,?_,?_,?_,fun hpos => ?_,fun c hc => by simp [setBuf,hc]⟩
        · have hwf : (({ p.bufs b with ref := 1, totalSize := 0, blkList := [] } :
              Buf).pktbufInsertBlkList blks true).pktbufResetAcc.Wf :=
            Buf.Wf.resetAcc ⟨by simp [Buf.pktbufInsertBlkList],
              by simpa [Buf.pktbufInsertBlkList] using hfits⟩
          simpa [setBuf] using hwf
        · simp [setBuf,Buf.bytes,Buf.pktbufInsertBlkList,htotal]
        · simp [setBuf,Buf.pktbufInsertBlkList]
        · obtain ⟨blk,hblk,hsize,-⟩ := pktblockAllocList_head halloc hpos
          exact ⟨blk,by simpa [setBuf,Buf.pktbufInsertBlkList] using hblk,hsize,Nat.zero_le _⟩

end Pktbuf

namespace NetLink

/-- Only the contents of one buffer and the free blocks changed. -/
structure Edit (b : BufId) (w w' : NetLink) : Prop where
  netifs : w'.netifs = w.netifs
  fates : w'.fates = w.fates
  wire : w'.wire = w.wire
  freedTwice : w'.freedTwice = w.freedTwice
  pktbufList : w'.pool.pktbufList = w.pool.pktbufList
  other : ∀ c, c ≠ b → w'.pool.bufs c = w.pool.bufs c
  ref : (w'.pool.bufs b).ref = (w.pool.bufs b).ref

/-- Only bytes of one buffer changed, in the blocks that it has. -/
structure Rewrite (b : BufId) (w w' : NetLink) : Prop extends Edit b w w' where
  blockList : w'.pool.blockList = w.pool.blockList
  shapes : (w'.pool.bufs b).shapes = (w.pool.bufs b).shapes

/-- Buffer `b` holds the bytes `l`. -/
structure Packet (w : NetLink) (b : BufId) (l : List Byte) : Prop where
  wf : (w.pool.bufs b).Wf
  bytes : (w.pool.bufs b).bytes = l

variable {w w' w'' : NetLink} {b : BufId} {l : List Byte} {size : ℕ}

namespace Edit

theorem refl (w : NetLink) : w.Edit b w := ⟨rfl,rfl,rfl,rfl,rfl,fun _ _ => rfl,rfl⟩

theorem trans (h : w.Edit b w') (h' : w'.Edit b w'') : w.Edit b w'' :=
  ⟨h'.netifs.trans h.netifs,h'.fates.trans h.fates,h'.wire.trans h.wire,
    h'.freedTwice.trans h.freedTwice,h'.pktbufList.trans h.pktbufList,
    fun c hc => (h'.other c hc).trans (h.other c hc),h'.ref.trans h.ref⟩

theorem setBuf {x : Buf} (hx : x.ref = (w.pool.bufs b).ref) (blocks : List Pktblk) :
    w.Edit b { w with pool := { w.pool.setBuf b x with blockList := blocks } } :=
  ⟨rfl,rfl,rfl,rfl,rfl,fun c hc => by simp [Pool.setBuf,hc],by simpa [Pool.setBuf] using hx⟩

theorem onBytes {α : Type} {f : Buf → Buf × α} (hf : ∀ x, (f x).1.ref = x.ref) :
    w.Edit b (w.onBytes b f).1 := setBuf (hf _) w.pool.blockList

theorem onBlocks {f : Buf → List Pktblk → (List Pktblk × Buf) × NetErr}
    (hf : ∀ x free, (f x free).1.2.ref = x.ref) : w.Edit b (w.onBlocks b f).1 :=
  setBuf (hf _ _) _

theorem netif (h : w.Edit b w') (n : NetifId) : w'.netif n = w.netif n := by
  rw [NetLink.netif,h.netifs,NetLink.netif]

end Edit

@[simp] theorem onBytes_bufs {α : Type} (f : Buf → Buf × α) :
    (w.onBytes b f).1.pool.bufs b = (f (w.pool.bufs b)).1 := by
  simp [onBytes,Pool.setBuf]

namespace Rewrite

theorem refl (w : NetLink) : w.Rewrite b w := ⟨.refl w,rfl,rfl⟩

theorem trans (h : w.Rewrite b w') (h' : w'.Rewrite b w'') : w.Rewrite b w'' :=
  ⟨h.toEdit.trans h'.toEdit,h'.blockList.trans h.blockList,h'.shapes.trans h.shapes⟩

theorem onBytes {α : Type} {f : Buf → Buf × α} (hf : ∀ x, (f x).1.ref = x.ref)
    (hs : (f (w.pool.bufs b)).1.shapes = (w.pool.bufs b).shapes) : w.Rewrite b (w.onBytes b f).1 :=
  ⟨.onBytes hf,rfl,by rw [onBytes_bufs]; exact hs⟩

theorem resetAcc : w.Rewrite b (w.pktbufResetAcc b) :=
  onBytes (fun _ => Buf.pktbufResetAcc_ref _) rfl

theorem front (h : w.Rewrite b w') {k r : ℕ} (hf : (w.pool.bufs b).Front k r) :
    (w'.pool.bufs b).Front k r := hf.congr h.shapes

end Rewrite

@[simp] theorem onBlocks_bufs (f : Buf → List Pktblk → (List Pktblk × Buf) × NetErr) :
    (w.onBlocks b f).1.pool.bufs b = (f (w.pool.bufs b) w.pool.blockList).1.2 := by
  simp [onBlocks,Pool.onBuf,Pool.setBuf]

namespace Packet

theorem total (h : w.Packet b l) : w.pktbufTotal b = l.length := by
  rw [pktbufTotal,← h.wf.bytes_length,h.bytes]

theorem length (h : w.Packet b l) : (w.pool.bufs b).totalSize = l.length := by
  rw [← h.wf.bytes_length,h.bytes]

/-- What `pktbuf_data` points to. -/
theorem data (h : w.Packet b l) {k r : ℕ} (hf : (w.pool.bufs b).Front k r) :
    ∃ d, w.pktbufData b = some d ∧ d.take k = l.take k := by
  obtain ⟨blk,hblk,hk,-⟩ := hf
  obtain ⟨rest,hrest⟩ := List.head?_eq_some_iff.1 hblk
  refine ⟨blk.bytes,by rw [pktbufData,Buf.pktbufData,hblk]; rfl,?_⟩
  rw [← h.bytes,Buf.bytes,hrest,blkBytes_cons,List.take_append_of_le_length (by simpa using hk)]

theorem resetAcc (h : w.Packet b l) : (w.pktbufResetAcc b).Packet b l := by
  refine ⟨?_,?_⟩
  · rw [pktbufResetAcc,onBytes_bufs]
    exact h.wf.resetAcc
  · rw [pktbufResetAcc,onBytes_bufs]
    exact h.bytes

/-- `pktbuf_set_cont`. -/
theorem setCont (h : w.Packet b l) (size : ℕ) (h0 : 0 < size) (hl : size ≤ l.length)
    (hb : size ≤ pktbufBlkSize) :
    ∃ w', w.pktbufSetCont b size = (w',.ok) ∧ w.Edit b w' ∧ w'.Packet b l ∧
      (w'.pool.bufs b).Front size 0 := by
  obtain ⟨hkeep,hok,-,hiff⟩ := pktbufSetCont_spec h.wf w.pool.blockList size
  have hres : ((w.pool.bufs b).pktbufSetCont w.pool.blockList size).2 = .ok :=
    hiff.2 ⟨by omega,by rw [h.bytes]; omega,by omega⟩
  obtain ⟨hbytes,hfront⟩ := hok hres
  obtain ⟨blk,hblk,hsize⟩ := hfront (by omega)
  refine ⟨(w.pktbufSetCont b size).1,Prod.ext rfl hres,.onBlocks fun x free => by simp,
    ⟨?_,?_⟩,?_⟩
  · rw [pktbufSetCont,onBlocks_bufs]
    exact hkeep.wf
  · rw [pktbufSetCont,onBlocks_bufs,hbytes,h.bytes]
  · rw [pktbufSetCont,onBlocks_bufs]
    exact ⟨blk,hblk,by omega,Nat.zero_le _⟩

/-- `pktbuf_resize` to a smaller size. -/
theorem shrink (h : w.Packet b l) (hl : size ≤ l.length) :
    ∃ w', w.pktbufResize b size = (w',.ok) ∧ w.Edit b w' ∧ w'.Packet b (l.take size) := by
  obtain ⟨hkeep,hok,-,hres⟩ := pktbufResize_spec h.wf w.pool.blockList size
  have hres := hres (by omega) (.inr (by rw [h.bytes]; omega))
  obtain ⟨rest,hbytes,hlen⟩ := hok hres
  refine ⟨(w.pktbufResize b size).1,Prod.ext rfl hres,.onBlocks fun x free => by simp,?_,?_⟩
  · rw [pktbufResize,onBlocks_bufs]
    exact hkeep.wf
  · rw [pktbufResize,onBlocks_bufs,hbytes,h.bytes,Int.toNat_natCast]
    rw [hbytes,h.bytes,Int.toNat_natCast,List.length_append,List.length_take] at hlen
    have hrest : rest = [] := List.length_eq_zero_iff.1 (by omega)
    rw [hrest,List.append_nil]

/-- `pktbuf_remove_header`. -/
theorem removeHeader (h : w.Packet b l) (hl : size ≤ l.length) :
    ∃ w', w.pktbufRemoveHeader b size = (w',.ok) ∧ w.Edit b w' ∧ w'.Packet b (l.drop size) := by
  obtain ⟨hkeep,hok,-,hiff⟩ := pktbufRemoveHeader_spec h.wf w.pool.blockList size
  have hres := hiff.2 ⟨by omega,by rw [h.bytes]; omega⟩
  refine ⟨(w.pktbufRemoveHeader b size).1,Prod.ext rfl hres,.onBlocks fun x free => by simp,?_,?_⟩
  · rw [pktbufRemoveHeader,onBlocks_bufs]
    exact hkeep.wf
  · rw [pktbufRemoveHeader,onBlocks_bufs,hok hres,h.bytes,Int.toNat_natCast]

/-- `pktbuf_checksum16` from the start of the buffer. -/
theorem checksum (h : w.Packet b l) (hl : size ≤ l.length) (preSum : BitVec 16) :
    ∃ w', (w.pktbufResetAcc b).pktbufChecksum16 b size preSum.toNat =
        (w',~~~(onesSum preSum (l.take size))) ∧ w.Rewrite b w' ∧ w'.Packet b l := by
  have hbuf : (w.pktbufResetAcc b).pool.bufs b = (w.pool.bufs b).pktbufResetAcc := onBytes_bufs _
  have hfit : (w.pool.bufs b).pktbufResetAcc.pos+size ≤ (w.pool.bufs b).pktbufResetAcc.totalSize := by
    show 0+size ≤ (w.pool.bufs b).totalSize
    rw [h.length]
    omega
  obtain ⟨hadv,hsum⟩ := Buf.pktbufSum16_spec h.wf.resetAcc (.resetAcc h.wf) hfit preSum true
  rw [Buf.pktbufSum16_true] at hadv hsum
  refine ⟨((w.pktbufResetAcc b).pktbufChecksum16 b size preSum.toNat).1,Prod.ext rfl ?_,
    Rewrite.resetAcc.trans (.onBytes (fun x => by simp) ?_),⟨?_,?_⟩⟩
  · rw [pktbufChecksum16,onBytes]
    dsimp only
    rw [hbuf,hsum,if_pos rfl,Buf.ahead]
    congr 3
    exact h.bytes
  · rw [hbuf,Buf.shapes,hadv.list]
    rfl
  · rw [pktbufChecksum16,onBytes_bufs,hbuf]
    exact hadv.wf h.wf.resetAcc
  · rw [pktbufChecksum16,onBytes_bufs,hbuf,hadv.bytes]
    exact h.bytes

/-- `pktbuf_read` from the start of the buffer. -/
theorem read (h : w.Packet b l) (hl : size ≤ l.length) :
    ∃ w', (w.pktbufResetAcc b).pktbufRead b size = (w',.ok,l.take size) ∧ w.Rewrite b w' := by
  have hbuf : (w.pktbufResetAcc b).pool.bufs b = (w.pool.bufs b).pktbufResetAcc := onBytes_bufs _
  have hfit : (w.pool.bufs b).pktbufResetAcc.pos+size ≤ (w.pool.bufs b).pktbufResetAcc.totalSize := by
    show 0+size ≤ (w.pool.bufs b).totalSize
    rw [h.length]
    omega
  obtain ⟨hadv,hread⟩ := Buf.pktbufRead_spec h.wf.resetAcc (.resetAcc h.wf) hfit
  refine ⟨((w.pktbufResetAcc b).pktbufRead b size).1,Prod.ext rfl ?_,
    Rewrite.resetAcc.trans (.onBytes (fun x => by simp) ?_)⟩
  · rw [pktbufRead,onBytes]
    dsimp only
    rw [hbuf,hread,Buf.ahead]
    congr 2
    exact h.bytes
  · rw [hbuf,Buf.shapes,hadv.list]
    rfl

/-- Bytes stored behind the pointer of `pktbuf_data`. -/
theorem store (h : w.Packet b l) {k r : ℕ} (hf : (w.pool.bufs b).Front k r) (offset : ℕ)
    (new : List Byte) (hs : offset+new.length ≤ k) :
    w.Rewrite b (w.pktbufStore b offset new) ∧
      (w.pktbufStore b offset new).Packet b (overwrite l offset new) := by
  obtain ⟨blk,hblk,hk,-⟩ := hf
  obtain ⟨rest,hrest⟩ := List.head?_eq_some_iff.1 hblk
  obtain ⟨hshapes,hbytes⟩ := Buf.store_spec hrest (Nat.le_trans hs hk)
  refine ⟨.onBytes (fun _ => Buf.store_ref _ _) hshapes,?_,?_⟩
  · rw [pktbufStore,onBytes_bufs]
    exact h.wf.congr hshapes rfl
  · rw [pktbufStore,onBytes_bufs,hbytes,h.bytes]

/-- `pktbuf_seek` from the start of the buffer. -/
theorem seek (h : w.Packet b l) (offset : ℕ) (ho : offset ≤ l.length) :
    ∃ w', (w.pktbufResetAcc b).pktbufSeek b offset = (w',.ok) ∧ w.Rewrite b w' ∧ w'.Packet b l ∧
      (w'.pool.bufs b).Placed ∧ (w'.pool.bufs b).pos = offset := by
  have hbuf : (w.pktbufResetAcc b).pool.bufs b = (w.pool.bufs b).pktbufResetAcc := onBytes_bufs _
  have hfit : offset ≤ (w.pool.bufs b).pktbufResetAcc.totalSize := by
    show offset ≤ (w.pool.bufs b).totalSize
    rw [h.length]
    exact ho
  obtain ⟨hok,hplaced,hpos,hlist,hsize⟩ := Buf.pktbufSeek_spec h.wf.resetAcc (.resetAcc h.wf) hfit
  have hshapes : ((w.pool.bufs b).pktbufResetAcc.pktbufSeek offset).1.shapes =
      (w.pool.bufs b).pktbufResetAcc.shapes := congrArg (List.map _) hlist
  refine ⟨((w.pktbufResetAcc b).pktbufSeek b offset).1,Prod.ext rfl ?_,
    Rewrite.resetAcc.trans (.onBytes (fun x => by simp) ?_),⟨?_,?_⟩,?_,?_⟩
  · rw [pktbufSeek,NetLink.onBytes]
    dsimp only
    rw [hbuf,hok]
  · rw [hbuf,hshapes]
  · rw [pktbufSeek,onBytes_bufs,hbuf]
    exact h.wf.resetAcc.congr hshapes hsize
  · rw [pktbufSeek,onBytes_bufs,hbuf,Buf.bytes,hlist]
    exact h.bytes
  · rw [pktbufSeek,onBytes_bufs,hbuf]
    exact hplaced
  · rw [pktbufSeek,onBytes_bufs,hbuf]
    exact hpos

/-- A call that writes `new` at the cursor. -/
theorem wrote (h : w.Packet b l) {offset : ℕ} (hpos : (w.pool.bufs b).pos = offset)
    {f : Buf → Buf × NetErr} {new : List Byte} (hf : ∀ x, (f x).1.ref = x.ref)
    (hw : (f (w.pool.bufs b)).2 = .ok ∧ (w.pool.bufs b).Wrote new (f (w.pool.bufs b)).1) :
    ∃ w', w.onBytes b f = (w',.ok) ∧ w.Rewrite b w' ∧ w'.Packet b (overwrite l offset new) := by
  obtain ⟨hok,hwrote⟩ := hw
  refine ⟨(w.onBytes b f).1,Prod.ext rfl hok,.onBytes hf hwrote.shapes,?_,?_⟩
  · rw [onBytes_bufs]
    exact hwrote.wf h.wf
  · rw [onBytes_bufs,hwrote.bytes,h.bytes,hpos]

/-- Data written behind a header. -/
theorem writeBehind (h : w.Packet b l) (offset : ℕ) (new : List Byte)
    (hs : offset+new.length ≤ l.length) :
    ∃ w', NetStack.writeBehind w b offset new = (w',.ok) ∧ w.Rewrite b w' ∧
      w'.Packet b (overwrite l offset new) := by
  unfold NetStack.writeBehind
  split
  next hz =>
    subst hz
    exact ⟨w,rfl,.refl w,by simpa using h⟩
  next =>
    obtain ⟨w₁,hseek,hrw₁,hpacket₁,hplaced,hpos⟩ := h.seek offset (by omega)
    obtain ⟨w₂,hwrite,hrw₂,hpacket₂⟩ := hpacket₁.wrote hpos (f := fun x => x.pktbufWrite new)
      (fun x => by simp) (Buf.pktbufWrite_spec hpacket₁.wf hplaced
        (by rw [hpos,hpacket₁.length]; exact hs))
    refine ⟨w₂,?_,hrw₁.trans hrw₂,hpacket₂⟩
    rw [hseek]
    exact hwrite

end Packet

/-- A packet as `pktbuf_alloc` gives it. -/
theorem pktbufAlloc_some (h : w.pktbufAlloc size = (w',some b)) :
    ∃ l, w'.Packet b l ∧ l.length = size ∧
      (0 < size → (w'.pool.bufs b).Front (min size pktbufBlkSize) 0) := by
  have hpool : w.pool.pktbufAlloc size = (w'.pool,some b) := by
    obtain ⟨rfl,hb⟩ : _ ∧ _ := by simpa [pktbufAlloc] using h
    exact Prod.ext rfl hb
  obtain ⟨-,hwf,hlen,-,hfront,-⟩ := Pool.pktbufAlloc_some hpool
  exact ⟨_,⟨hwf,rfl⟩,hlen,hfront⟩

/-- A buffer of the right length, filled with a header and data. -/
theorem overwrite_header {l header data : List Byte} (h : l.length = header.length+data.length) :
    overwrite (overwrite l 0 header) header.length data = header++data := by
  have := @overwrite_overwrite _ l 0 header data (Nat.zero_le _)
  rw [Nat.zero_add] at this
  rw [this,overwrite_all (by simpa using h)]

/-- A field of two bytes filled in behind `front`. -/
theorem overwrite_field (front back : List Byte) (x y : BitVec 16) :
    overwrite (front++be16 x++back) front.length (be16 y) = front++be16 y++back := by
  have hfield : overwrite (be16 x++back) 0 (be16 y) = be16 y++back := by
    rw [overwrite_append_left (by simp),overwrite_all (by simp)]
  rw [List.append_assoc,← Nat.add_zero front.length,overwrite_append_right,hfield,List.append_assoc]

/-- A new buffer takes a header and, behind it, data. -/
theorem build_packet (header data : List Byte) {k : ℕ} (hk : header.length = k) (h0 : 0 < k)
    (hb : k ≤ pktbufBlkSize) (h : w.pktbufAlloc (k+data.length : ℕ) = (w',some b)) :
    ∃ w'', NetStack.writeBehind (w'.pktbufStore b 0 header) b k data = (w'',.ok) ∧
      w'.Rewrite b w'' ∧ w''.Packet b (header++data) ∧ (w''.pool.bufs b).Front k 0 := by
  subst hk
  obtain ⟨l,hpacket,hlen,hfront⟩ := pktbufAlloc_some h
  have hfront := hfront (by omega)
  obtain ⟨hrw₁,hpacket₁⟩ := hpacket.store hfront 0 header (by omega)
  obtain ⟨w'',hwrite,hrw₂,hpacket₂⟩ := hpacket₁.writeBehind header.length data
    (by rw [overwrite_length (by omega)]; omega)
  rw [overwrite_header hlen] at hpacket₂
  obtain ⟨blk,hblk,hsize,-⟩ := (hrw₁.trans hrw₂).front hfront
  exact ⟨w'',hwrite,hrw₁.trans hrw₂,hpacket₂,blk,hblk,by omega,Nat.zero_le _⟩

end NetLink

namespace NetStack

/-- The sum over a pseudo header and a packet. -/
theorem transportChecksum_spec {w : NetLink} {b : BufId} {l : List Byte} (hp : w.Packet b l)
    {length : BitVec 16} (hl : length.toNat = l.length) (src dest : IpAddr) (protocol : Byte) :
    ∃ w', transportChecksum w b src dest protocol length =
        (w',~~~(onesSum (BitVec.ofNat 16 (pseudoSum src dest protocol length)) l)) ∧
      w.Rewrite b w' ∧ w'.Packet b l := by
  have hpre : (BitVec.ofNat 16 (pseudoSum src dest protocol length)).toNat =
      pseudoSum src dest protocol length := by
    rw [BitVec.toNat_ofNat]
    exact Nat.mod_eq_of_lt (Tcp.checksum16_lt (by omega))
  obtain ⟨w',hsum,hrw,hpacket⟩ := hp.checksum le_rfl
    (BitVec.ofNat 16 (pseudoSum src dest protocol length))
  rw [hpre,List.take_length,← hl] at hsum
  exact ⟨w',hsum,hrw,hpacket⟩

end NetStack
end QuardStarNet
