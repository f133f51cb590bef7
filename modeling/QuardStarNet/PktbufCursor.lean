import QuardStarNet.Pktbuf
import QuardStarNet.TcpSegment

/-! Reading and writing packet buffers at their cursor. A loop of the source that moves on by at
least one byte a turn has as many turns here as there are bytes to do. -/
namespace QuardStarNet
namespace Pktbuf
namespace Buf

variable (x : Buf)

/-- `total_blk_remain`. -/
def totalBlkRemain : ℤ := x.totalSize-x.pos

/-- The block that `curr_blk` points to. -/
def currBlock : Option Pktblk := x.currBlk.bind fun i => x.blkList[i]?

/-- `curr_blk_remain`. -/
def currBlkRemain : ℕ :=
  match x.currBlock with
  | none => 0
  | some b => b.data+b.size-x.blkOffset

/-- `move_forward`. -/
def moveForward (size : ℕ) : Buf :=
  match x.currBlk, x.currBlock with
  | some i, some curr =>
    if size = 0 then x
    else if curr.data+curr.size ≤ x.blkOffset+size then
      match x.blkList[i+1]? with
      | some next => { x with pos := x.pos+size, currBlk := some (i+1), blkOffset := next.data }
      | none => { x with pos := x.pos+size, currBlk := none, blkOffset := 0 }
    else { x with pos := x.pos+size, blkOffset := x.blkOffset+size }
  | _, _ => x

/-- The bytes at the cursor, in the current block. -/
def peek (size : ℕ) : List Byte :=
  match x.currBlock with
  | none => []
  | some b => Windows.window b.payload x.blkOffset size

/-- Store bytes at the cursor, in the current block. -/
def poke (bytes : List Byte) : Buf :=
  match x.currBlk with
  | none => x
  | some i =>
    { x with blkList := x.blkList.modify i fun b =>
        { b with payload := Windows.write b.payload x.blkOffset bytes } }

/-- The bytes that `pktbuf_data` points to. -/
def pktbufData : Option (List Byte) := x.blkList.head?.map Pktblk.bytes

/-- Store bytes behind the pointer of `pktbuf_data`. -/
def store (offset : ℕ) (bytes : List Byte) : Buf :=
  { x with blkList := x.blkList.modifyHead fun b =>
      { b with payload := Windows.write b.payload (b.data+offset) bytes } }

/-- The loop over the blocks that `pktbuf_read`, `pktbuf_write` and the others share: `turn` does
what there is to do in the current block. -/
def blockLoop {α : Type} (turn : ℕ → Buf → α → Buf × α) : ℕ → ℕ → Buf → α → Buf × α
  | 0, _, x, acc => (x,acc)
  | fuel+1, size, x, acc =>
    if size = 0 then (x,acc)
    else
      let currSize := min size x.currBlkRemain
      let r := turn currSize x acc
      blockLoop turn fuel (size-currSize) (r.1.moveForward currSize) r.2

/-- `pktbuf_write`; what is left of the source moves along. -/
def pktbufWrite (src : List Byte) : Buf × NetErr :=
  if src = [] then (x,.ok)
  else if x.totalBlkRemain < src.length then (x,.size)
  else
    ((blockLoop (fun n x (src : List Byte) => (x.poke (src.take n),src.drop n)) src.length src.length
      x src).1,.ok)

/-- `pktbuf_read`, with the bytes that it copies out. -/
def pktbufRead (size : ℤ) : Buf × NetErr × List Byte :=
  if size < 0 then (x,.param,[])
  else if size = 0 then (x,.ok,[])
  else if x.totalBlkRemain < size then (x,.size,[])
  else
    let r := blockLoop (fun n x dest => (x,dest++x.peek n)) size.toNat size.toNat x []
    (r.1,.ok,r.2)

/-- The loop of `pktbuf_seek`. -/
def seekLoop (moveBytes : ℕ) : Buf :=
  (blockLoop (fun _ x (u : Unit) => (x,u)) moveBytes moveBytes x ()).1

/-- `pktbuf_seek`; to move back it starts from the first block. -/
def pktbufSeek (offset : ℤ) : Buf × NetErr :=
  if offset < 0 then (x,.param)
  else if x.pos = offset then (x,.ok)
  else if x.totalSize < offset then (x,.size)
  else if offset < x.pos then (x.pktbufResetAcc.seekLoop offset.toNat,.ok)
  else (x.seekLoop (offset.toNat-x.pos),.ok)

/-- `pktbuf_fill`. -/
def pktbufFill (v : Byte) (size : ℤ) : Buf × NetErr :=
  if size < 0 then (x,.param)
  else if size = 0 then (x,.ok)
  else if x.totalBlkRemain < size then (x,.size)
  else
    ((blockLoop (fun n x (u : Unit) => (x.poke (List.replicate n v),u)) size.toNat size.toNat
      x ()).1,.ok)

/-- `pktbuf_checksum16` with the complement taken; the loop keeps the offset and the sum. -/
def pktbufChecksum16 (size : ℤ) (preSum : ℕ) : Buf × BitVec 16 :=
  if size < 0 then (x,0)
  else if x.totalBlkRemain < size then (x,0)
  else
    let r := blockLoop (fun n x acc => (x,acc.1+n,Tcp.checksum16 acc.1 (x.peek n) acc.2))
      size.toNat size.toNat x (0,preSum)
    (r.1,~~~(BitVec.ofNat 16 r.2.2))

/-- `pktbuf_checksum16` with its last parameter. -/
def pktbufSum16 (size : ℤ) (preSum : ℕ) (complement : Bool) : Buf × BitVec 16 :=
  if size < 0 then (x,0)
  else if x.totalBlkRemain < size then (x,0)
  else
    let r := blockLoop (fun n x acc => (x,acc.1+n,Tcp.checksum16 acc.1 (x.peek n) acc.2))
      size.toNat size.toNat x (0,preSum)
    (r.1,if complement then ~~~(BitVec.ofNat 16 r.2.2) else BitVec.ofNat 16 r.2.2)

theorem pktbufSum16_true (size : ℤ) (preSum : ℕ) :
    x.pktbufSum16 size preSum true = x.pktbufChecksum16 size preSum := rfl

/-- The loop of `pktbuf_copy`. -/
def copyLoop : ℕ → ℕ → Buf → Buf → Buf × Buf
  | 0, _, dest, src => (dest,src)
  | fuel+1, size, dest, src =>
    if size = 0 then (dest,src)
    else
      let copySize := min size (min dest.currBlkRemain src.currBlkRemain)
      copyLoop fuel (size-copySize) ((dest.poke (src.peek copySize)).moveForward copySize)
        (src.moveForward copySize)

/-! Nothing here changes the number of references. -/

variable {x}

@[simp] theorem store_ref (offset : ℕ) (bytes : List Byte) : (x.store offset bytes).ref = x.ref :=
  rfl

@[simp] theorem moveForward_ref (size : ℕ) : (x.moveForward size).ref = x.ref := by
  unfold moveForward
  split
  · split
    · rfl
    · split
      · split
        · rfl
        · rfl
      · rfl
  · rfl

@[simp] theorem poke_ref (bytes : List Byte) : (x.poke bytes).ref = x.ref := by
  unfold poke
  split
  · rfl
  · rfl

theorem blockLoop_ref {α : Type} {turn : ℕ → Buf → α → Buf × α}
    (h : ∀ n x acc, (turn n x acc).1.ref = x.ref) (fuel size : ℕ) (x : Buf) (acc : α) :
    (blockLoop turn fuel size x acc).1.ref = x.ref := by
  induction fuel generalizing size x acc with
  | zero => rfl
  | succ fuel ih =>
    rw [blockLoop]
    split
    · rfl
    · rw [ih,moveForward_ref,h]

@[simp] theorem pktbufWrite_ref (src : List Byte) : (x.pktbufWrite src).1.ref = x.ref := by
  unfold pktbufWrite
  split
  · rfl
  · split
    · rfl
    · exact blockLoop_ref (by simp) _ _ _ _

@[simp] theorem pktbufRead_ref (size : ℤ) : (x.pktbufRead size).1.ref = x.ref := by
  unfold pktbufRead
  split
  · rfl
  · split
    · rfl
    · split
      · rfl
      · exact blockLoop_ref (by simp) _ _ _ _

@[simp] theorem pktbufSeek_ref (offset : ℤ) : (x.pktbufSeek offset).1.ref = x.ref := by
  have hloop : ∀ (y : Buf) n, (y.seekLoop n).ref = y.ref := fun y n =>
    blockLoop_ref (fun _ _ _ => rfl) _ _ _ _
  unfold pktbufSeek
  split
  · rfl
  · split
    · rfl
    · split
      · rfl
      · split
        · exact hloop _ _
        · exact hloop _ _

@[simp] theorem pktbufFill_ref (v : Byte) (size : ℤ) : (x.pktbufFill v size).1.ref = x.ref := by
  unfold pktbufFill
  split
  · rfl
  · split
    · rfl
    · split
      · rfl
      · exact blockLoop_ref (by simp) _ _ _ _

@[simp] theorem pktbufChecksum16_ref (size : ℤ) (preSum : ℕ) :
    (x.pktbufChecksum16 size preSum).1.ref = x.ref := by
  unfold pktbufChecksum16
  split
  · rfl
  · split
    · rfl
    · exact blockLoop_ref (by simp) _ _ _ _

theorem allocInsert_ref {y : Buf} (hy : y.ref = x.ref) (free : List Pktblk) (size : ℕ)
    (addLast : Bool) : (x.allocInsert y free size addLast).1.2.ref = x.ref := by
  unfold allocInsert
  split
  · rfl
  · exact hy

theorem addHeader_ref (free : List Pktblk) (size : ℕ) (cont : Bool) :
    (x.addHeader free size cont).1.2.ref = x.ref := by
  unfold addHeader
  split
  · exact allocInsert_ref rfl _ _ _
  · dsimp only
    split
    · rfl
    · split
      · split
        · rfl
        · exact allocInsert_ref rfl _ _ _
      · apply allocInsert_ref
        rfl

@[simp] theorem pktbufAddHeader_ref (free : List Pktblk) (size : ℤ) (cont : Bool) :
    (x.pktbufAddHeader free size cont).1.2.ref = x.ref := by
  unfold pktbufAddHeader
  split
  · rfl
  · split
    · rfl
    · exact addHeader_ref _ _ _

@[simp] theorem pktbufRemoveHeader_ref (free : List Pktblk) (size : ℤ) :
    (x.pktbufRemoveHeader free size).1.2.ref = x.ref := by
  unfold pktbufRemoveHeader
  split
  · rfl
  · split
    · rfl
    · split
      · rfl
      · rfl

theorem grow_ref (free : List Pktblk) (toSize : ℕ) (tail : Pktblk) :
    (x.grow free toSize tail).1.2.ref = x.ref := by
  unfold grow
  dsimp only
  split
  · rfl
  · apply allocInsert_ref
    rfl

theorem shrink_ref (free : List Pktblk) (toSize : ℕ) : (x.shrink free toSize).1.2.ref = x.ref := by
  unfold shrink
  split
  · rfl
  · rfl

@[simp] theorem pktbufResize_ref (free : List Pktblk) (toSize : ℤ) :
    (x.pktbufResize free toSize).1.2.ref = x.ref := by
  unfold pktbufResize
  split
  · rfl
  split
  · rfl
  split
  · rfl
  split
  · exact allocInsert_ref rfl _ _ _
  split
  · split
    · rfl
    · exact grow_ref _ _ _
  · exact shrink_ref _ _

@[simp] theorem pktbufSetCont_ref (free : List Pktblk) (size : ℤ) :
    (x.pktbufSetCont free size).1.2.ref = x.ref := by
  unfold pktbufSetCont
  split
  · rfl
  split
  · rfl
  split
  · rfl
  split
  · rfl
  split
  · rfl
  split
  · rfl
  · rfl

end Buf
end Pktbuf
end QuardStarNet
