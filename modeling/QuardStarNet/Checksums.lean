import QuardStarNet.CursorBytes

/-! The checksum of a packet buffer is the one's-complement sum of RFC 1071 over its bytes,
however they are cut into blocks. -/
namespace QuardStarNet

open NetBytes

namespace Tcp

theorem checksum16_le (offset : ℕ) (bs : List Byte) (sum : ℕ) :
    checksum16 offset bs sum ≤ sum+weight offset bs := by
  induction bs generalizing offset sum with
  | nil => simp [checksum16,weight]
  | cons b bs ih =>
    have hfold := fold_le 2 (sum+if offset % 2 = 0 then b.toNat <<< 8 else b.toNat)
    have hshift : b.toNat <<< 8 = b.toNat*256 := by rw [Nat.shiftLeft_eq]
    rw [checksum16,weight,netChecksumFold]
    rw [hshift] at hfold ⊢
    exact Nat.le_trans (ih _ _) (by omega)

/-- Folding after every byte gives the sum of words. -/
theorem checksum16_eq_onesSum (sum : BitVec 16) (bs : List Byte) :
    checksum16 0 bs sum.toNat = (onesSum sum bs).toNat := by
  obtain ⟨hmod,hzero⟩ := onesSum_spec sum bs
  refine eq_of_residue (checksum16_lt sum.isLt) (BitVec.isLt _) ?_ ?_
  · rw [checksum16_mod,hmod]
  · rw [hzero]
    constructor
    · intro hz
      by_contra hne
      exact absurd (checksum16_pos (Nat.pos_of_ne_zero hne)) (by omega)
    · intro hz
      have := checksum16_le 0 bs sum.toNat
      omega

theorem checksum16_append (offset : ℕ) (xs ys : List Byte) (sum : ℕ) :
    checksum16 offset (xs++ys) sum = checksum16 (offset+xs.length) ys (checksum16 offset xs sum) := by
  induction xs generalizing offset sum with
  | nil => rfl
  | cons b xs ih =>
    rw [List.cons_append,checksum16,checksum16,ih,List.length_cons]
    congr 1
    omega

end Tcp

namespace NetBytes

/-- A sum verifies when it is a multiple of 65535 and not zero. -/
theorem onesSum_eq_ones_iff (sum : BitVec 16) (l : List Byte) :
    onesSum sum l = 0xffff ↔
      (sum.toNat+weight 0 l) % 65535 = 0 ∧ sum.toNat+weight 0 l ≠ 0 := by
  obtain ⟨hmod,hzero⟩ := onesSum_spec sum l
  have hlt := (onesSum sum l).isLt
  rw [← BitVec.toNat_inj]
  show (onesSum sum l).toNat = 65535 ↔ _
  omega

/-- A message verifies once the complement of its sum is in its checksum field, where a complement
of zero may stand as all ones. -/
theorem onesSum_fill {sum checksum : BitVec 16} {front back : List Byte}
    (heven : front.length % 2 = 0)
    (h : checksum = ~~~(onesSum sum (front++be16 0++back)) ∨
      onesSum sum (front++be16 0++back) = 0xffff ∧ checksum = 0xffff) :
    onesSum sum (front++be16 checksum++back) = 0xffff := by
  have hfield : ∀ x : BitVec 16, weight 0 (front++be16 x++back) =
      weight 0 front+x.toNat+weight (front.length+2) back := fun x => by
    have hword : weight front.length (be16 x) = x.toNat := by
      rw [weight_even heven,weight_be16]
    rw [weight_append,weight_append,Nat.zero_add,hword]
    simp
  have h0 : (0 : BitVec 16).toNat = 0 := rfl
  obtain ⟨hmod,hzero⟩ := onesSum_spec sum (front++be16 0++back)
  have hlt := (onesSum sum (front++be16 0++back)).isLt
  rw [hfield,h0] at hmod hzero
  rw [onesSum_eq_ones_iff,hfield]
  rcases h with rfl | ⟨hones,rfl⟩
  · rw [BitVec.toNat_not]
    omega
  · have hones : (onesSum sum (front++be16 0++back)).toNat = 65535 := congrArg BitVec.toNat hones
    have hf : (0xffff : BitVec 16).toNat = 65535 := rfl
    omega

end NetBytes

namespace Pktbuf
namespace Buf

variable {x : Buf}

/-- The loop of `pktbuf_checksum16` sums the bytes ahead as one string: the offset keeps the
parity across blocks. -/
theorem checksumLoop_spec (hw : x.Wf) (hx : x.Placed) (size preSum : ℕ)
    (hs : x.pos+size ≤ x.totalSize) :
    let r := blockLoop (fun n x acc => (x,acc.1+n,Tcp.checksum16 acc.1 (x.peek n) acc.2))
      size size x (0,preSum)
    x.Advanced size r.1 ∧ r.2.2 = Tcp.checksum16 0 (x.ahead.take size) preSum := by
  have hloop := blockLoop_read
    (g := fun (acc : ℕ × ℕ) l => (acc.1+l.length,Tcp.checksum16 acc.1 l acc.2))
    (fun acc => by simp [Tcp.checksum16])
    (fun acc l l' => by simp [Tcp.checksum16_append,Nat.add_assoc])
    (fun n x acc => (x,acc.1+n,Tcp.checksum16 acc.1 (x.peek n) acc.2))
    (fun n x acc hn => by simp only [hn]) (Nat.le_refl size) hw hx (0,preSum) hs
  exact ⟨hloop.1,congrArg Prod.snd hloop.2⟩

/-- `pktbuf_checksum16` moves the cursor behind the bytes that it sums. -/
theorem pktbufSum16_spec (hw : x.Wf) (hx : x.Placed) {size : ℕ} (hs : x.pos+size ≤ x.totalSize)
    (preSum : BitVec 16) (complement : Bool) :
    x.Advanced size (x.pktbufSum16 size preSum.toNat complement).1 ∧
      (x.pktbufSum16 size preSum.toNat complement).2 =
        if complement then ~~~(onesSum preSum (x.ahead.take size))
        else onesSum preSum (x.ahead.take size) := by
  obtain ⟨hadv,hsum⟩ := checksumLoop_spec hw hx size preSum.toNat hs
  unfold pktbufSum16
  rw [if_neg (by omega),if_neg (by rw [totalBlkRemain]; omega),Int.toNat_natCast]
  refine ⟨hadv,?_⟩
  dsimp only
  rw [hsum,Tcp.checksum16_eq_onesSum,BitVec.ofNat_toNat,BitVec.setWidth_eq]

/-- `pktbuf_checksum16` of `size` bytes from any cursor position is their one's-complement sum,
or its complement. -/
theorem pktbufChecksum_onesSum (hw : x.Wf) (hx : x.Placed) {size : ℕ}
    (hs : x.pos+size ≤ x.totalSize) (preSum : BitVec 16) :
    (x.pktbufSum16 size preSum.toNat false).2 = onesSum preSum ((x.bytes.drop x.pos).take size) ∧
      (x.pktbufSum16 size preSum.toNat true).2 =
        ~~~(onesSum preSum ((x.bytes.drop x.pos).take size)) :=
  ⟨(pktbufSum16_spec hw hx hs preSum false).2,(pktbufSum16_spec hw hx hs preSum true).2⟩

/-- Six bytes in blocks of one, three and two, with the cursor in the second block. -/
def oddBlocks : Buf where
  totalSize := 6
  blkList := [⟨0,1,1023,fun _ => 0x12⟩,⟨1,3,7,fun i => BitVec.ofNat 8 (0x20*i)⟩,⟨2,2,0,fun _ => 0xff⟩]
  ref := 1
  pos := 2
  currBlk := some 1
  blkOffset := 8

theorem oddBlocks_wf : oddBlocks.Wf :=
  ⟨rfl,by simp only [oddBlocks,List.forall_mem_cons]; exact ⟨⟨by decide,by decide⟩,⟨by decide,by decide⟩,
    ⟨by decide,by decide⟩,nofun⟩⟩

theorem oddBlocks_placed : oddBlocks.Placed :=
  .inside [⟨0,1,1023,fun _ => 0x12⟩] ⟨1,3,7,fun i => BitVec.ofNat 8 (0x20*i)⟩
    [⟨2,2,0,fun _ => 0xff⟩] rfl rfl (by decide) (by decide) rfl

theorem pktbufChecksum_onesSum_oddBlocks :
    (oddBlocks.pktbufSum16 3 (0xfffe#16).toNat false).2 = 0xff1f#16 ∧
      (oddBlocks.pktbufSum16 3 (0xfffe#16).toNat true).2 = 0x00e0#16 := by
  have hs : oddBlocks.pos+3 ≤ oddBlocks.totalSize := by decide
  exact pktbufChecksum_onesSum oddBlocks_wf oddBlocks_placed hs 0xfffe#16

end Buf
end Pktbuf
end QuardStarNet
