import QuardStarNet.NetBase
import QuardStarNet.Windows

/-! The packet buffers of `pktbuf.c`. A block is in one list at a time, the free list or the list
of a buffer, and stands there with its contents; buffers are shared by reference and have
names. -/
namespace QuardStarNet
namespace Pktbuf

/-- `PKTBUF_BLK_SIZE`. -/
def pktbufBlkSize : ℕ := 1024
/-- `PKTBUF_BLK_CNT`. -/
def pktbufBlkCnt : ℕ := 256
/-- `PKTBUF_BUF_CNT`. -/
def pktbufBufCnt : ℕ := 128

/-- `pktblk_t`, the block `id` of `block_buffer`; `data` is an offset in the payload. -/
structure Pktblk where
  id : ℕ
  size : ℕ
  data : ℕ
  payload : ℕ → Byte

/-- An index in `pktbuf_buffer`. -/
abbrev BufId := ℕ

/-- `pktbuf_t`. `currBlk` is the position of the current block in the list and `blkOffset` an
offset in its payload. -/
structure Buf where
  totalSize : ℕ
  blkList : List Pktblk
  ref : ℕ
  pos : ℕ
  currBlk : Option ℕ
  blkOffset : ℕ

/-- The two free lists and the buffers. -/
structure Pool where
  blockList : List Pktblk
  pktbufList : List BufId
  bufs : BufId → Buf

def Pktblk.bytes (b : Pktblk) : List Byte := Windows.window b.payload b.data b.size

/-- `curr_blk_tail_free`. -/
def Pktblk.tailFree (b : Pktblk) : ℕ := pktbufBlkSize-b.data-b.size

def blkBytes (l : List Pktblk) : List Byte := l.flatMap Pktblk.bytes

def blkTotal (l : List Pktblk) : ℕ := (l.map Pktblk.size).sum

/-- The bytes of a buffer. -/
def Buf.bytes (x : Buf) : List Byte := blkBytes x.blkList

/-! Lists of blocks. -/

/-- The loop of `pktblock_alloc_list`. When the pool runs out, `pktblock_free_list` gives back
what was allocated. -/
def allocLoop (addFront : Bool) : List Pktblk → ℕ → List Pktblk → List Pktblk × Option (List Pktblk)
  | free, 0, blks => (free,some blks)
  | [], _+1, blks => (blks,none)
  | b :: free, size+1, blks =>
    let currSize := min (size+1) pktbufBlkSize
    let new := { b with size := currSize, data := if addFront then pktbufBlkSize-currSize else 0 }
    allocLoop addFront free (size+1-currSize) (if addFront then new :: blks else blks++[new])

/-- `pktblock_alloc_list` for a positive size. -/
def pktblockAllocList (size : ℕ) (addFront : Bool) (free : List Pktblk) :
    List Pktblk × Option (List Pktblk) :=
  allocLoop addFront free size []

/-- The loop of `pktbuf_remove_header`: the blocks freed, those kept, and `total_size`. -/
def removeLoop : ℕ → List Pktblk → ℕ → List Pktblk × List Pktblk × ℕ
  | _, [], total => ([],[],total)
  | size, b :: l, total =>
    if size = 0 then ([],b :: l,total)
    else if size < b.size then
      ([],{ b with data := b.data+size, size := b.size-size } :: l,total-size)
    else
      let r := removeLoop (size-b.size) l (total-b.size)
      (b :: r.1,r.2)

/-- The loop of `pktbuf_resize` that finds the last block to keep, with the blocks in front of
it and those behind. -/
def findTail (toSize : ℕ) : ℕ → List Pktblk → Option (List Pktblk × Pktblk × List Pktblk)
  | _, [] => none
  | total, b :: l =>
    if toSize ≤ total+b.size then some ([],b,l)
    else (findTail toSize (total+b.size) l).map fun r => (b :: r.1,r.2)

/-- The loop of `pktbuf_set_cont`: bytes move from the blocks behind the first one to its
payload, from `dest` on. It gives the payload, the bytes moved, the blocks freed and the blocks
that stay; a block that is not used up ends the loop. -/
def contLoop : ℕ → ℕ → (ℕ → Byte) → List Pktblk → (ℕ → Byte) × ℕ × List Pktblk × List Pktblk
  | _, _, payload, [] => (payload,0,[],[])
  | remain, dest, payload, c :: l =>
    if remain = 0 then (payload,0,[],c :: l)
    else
      let currSize := min c.size remain
      let payload := Windows.write payload dest (Windows.window c.payload c.data currSize)
      let c' := { c with data := c.data+currSize, size := c.size-currSize }
      if c'.size = 0 then
        let r := contLoop (remain-currSize) (dest+currSize) payload l
        (r.1,currSize+r.2.1,c' :: r.2.2.1,r.2.2.2)
      else (payload,currSize,[],c' :: l)

namespace Buf

variable (x : Buf)

/-- `pktbuf_reset_acc`. -/
def pktbufResetAcc : Buf :=
  { x with
    pos := 0
    currBlk := if x.blkList = [] then none else some 0
    blkOffset := match x.blkList with
      | [] => 0
      | b :: _ => b.data }

@[simp] theorem pktbufResetAcc_ref : x.pktbufResetAcc.ref = x.ref := rfl

/-- `pktbuf_insert_blk_list`. -/
def pktbufInsertBlkList (blks : List Pktblk) (addLast : Bool) : Buf :=
  { x with
    blkList := if addLast then x.blkList++blks else blks++x.blkList
    totalSize := x.totalSize+blkTotal blks }

/-- Allocate blocks for `size` bytes and put them at one end of `y`; without enough blocks the
buffer stays `x`. -/
def allocInsert (y : Buf) (free : List Pktblk) (size : ℕ) (addLast : Bool) :
    (List Pktblk × Buf) × NetErr :=
  match pktblockAllocList size (!addLast) free with
  | (free,none) => ((free,x),.mem)
  | (free,some blks) => ((free,(y.pktbufInsertBlkList blks addLast).pktbufResetAcc),.ok)

/-- `pktbuf_add_header` past its checks. -/
def addHeader (free : List Pktblk) (size : ℕ) (cont : Bool) : (List Pktblk × Buf) × NetErr :=
  match x.blkList with
  | [] => x.allocInsert x free size false
  | block :: l =>
    let resvSize := block.data
    if size ≤ resvSize then
      let block := { block with size := block.size+size, data := block.data-size }
      ((free,{ x with blkList := block :: l, totalSize := x.totalSize+size }.pktbufResetAcc),.ok)
    else if cont then
      if pktbufBlkSize < size then ((free,x),.size) else x.allocInsert x free size false
    else
      let block := { block with data := 0, size := block.size+resvSize }
      x.allocInsert { x with blkList := block :: l, totalSize := x.totalSize+resvSize } free
        (size-resvSize) false

/-- `pktbuf_add_header`. -/
def pktbufAddHeader (free : List Pktblk) (size : ℤ) (cont : Bool) : (List Pktblk × Buf) × NetErr :=
  if size < 0 then ((free,x),.param)
  else if size = 0 then ((free,x),.ok)
  else x.addHeader free size.toNat cont

/-- `pktbuf_remove_header`. -/
def pktbufRemoveHeader (free : List Pktblk) (size : ℤ) : (List Pktblk × Buf) × NetErr :=
  if size < 0 then ((free,x),.param)
  else if size = 0 then ((free,x),.ok)
  else if x.totalSize < size then ((free,x),.size)
  else
    let r := removeLoop size.toNat x.blkList x.totalSize
    ((free++r.1,{ x with blkList := r.2.1, totalSize := r.2.2 }.pktbufResetAcc),.ok)

/-- `pktbuf_resize` to a larger size of a buffer with blocks. -/
def grow (free : List Pktblk) (toSize : ℕ) (tail : Pktblk) : (List Pktblk × Buf) × NetErr :=
  let incSize := toSize-x.totalSize
  let remainSize := tail.tailFree
  if incSize ≤ remainSize then
    let tail := { tail with size := tail.size+incSize }
    ((free,{ x with blkList := x.blkList.dropLast++[tail],
                    totalSize := x.totalSize+incSize }.pktbufResetAcc),.ok)
  else
    let tail := { tail with size := tail.size+remainSize }
    x.allocInsert { x with blkList := x.blkList.dropLast++[tail],
                           totalSize := x.totalSize+remainSize } free (incSize-remainSize) true

/-- `pktbuf_resize` to a smaller size. -/
def shrink (free : List Pktblk) (toSize : ℕ) : (List Pktblk × Buf) × NetErr :=
  match findTail toSize 0 x.blkList with
  | none => ((free,x),.size)
  | some (front,tail,behind) =>
    let tail := { tail with size := tail.size-(x.totalSize-blkTotal behind-toSize) }
    ((free++behind,{ x with blkList := front++[tail], totalSize := toSize }.pktbufResetAcc),.ok)

/-- `pktbuf_resize`; a buffer with bytes has a last block. -/
def pktbufResize (free : List Pktblk) (toSize : ℤ) : (List Pktblk × Buf) × NetErr :=
  if toSize < 0 then ((free,x),.param)
  else if toSize = x.totalSize then ((free,x),.ok)
  else if toSize = 0 then
    ((free++x.blkList,{ x with blkList := [], totalSize := 0 }.pktbufResetAcc),.ok)
  else if x.totalSize = 0 then x.allocInsert x free toSize.toNat true
  else if x.totalSize < toSize then
    match x.blkList.getLast? with
    | none => ((free,x),.sys)
    | some tail => x.grow free toSize.toNat tail
  else x.shrink free toSize.toNat

/-- `pktbuf_set_cont`. -/
def pktbufSetCont (free : List Pktblk) (size : ℤ) : (List Pktblk × Buf) × NetErr :=
  if size < 0 then ((free,x),.param)
  else if size = 0 then ((free,x),.ok)
  else if x.totalSize < size then ((free,x),.size)
  else if pktbufBlkSize < size then ((free,x),.size)
  else
    match x.blkList with
    | [] => ((free,x),.size)
    | first :: l =>
      if size ≤ first.size then ((free,x.pktbufResetAcc),.ok)
      else
        -- the first block is shifted to the start of its payload, byte by byte
        let payload := Windows.copy first.payload first.data 0 first.size
        let r := contLoop (size.toNat-first.size) first.size payload l
        let first := { first with data := 0, size := first.size+r.2.1, payload := r.1 }
        ((free++r.2.2.1,{ x with blkList := first :: r.2.2.2 }.pktbufResetAcc),.ok)

end Buf

namespace Pool

variable (p : Pool)

/-- `pktbuf_init` with the given numbers of blocks and buffers. -/
def pktbufInit (blkCnt bufCnt : ℕ) : Pool where
  blockList := (List.range blkCnt).map fun i => ⟨i,0,0,fun _ => 0⟩
  pktbufList := List.range bufCnt
  bufs _ := ⟨0,[],0,0,none,0⟩

/-- The pool of the kernel. -/
def init : Pool := pktbufInit pktbufBlkCnt pktbufBufCnt

def setBuf (b : BufId) (x : Buf) : Pool := { p with bufs := Function.update p.bufs b x }

/-- Run an operation on one buffer. -/
def onBuf (b : BufId) (f : Buf → List Pktblk → (List Pktblk × Buf) × NetErr) : Pool × NetErr :=
  let r := f (p.bufs b) p.blockList
  ({ p.setBuf b r.1.2 with blockList := r.1.1 },r.2)

/-- `pktbuf_free`. -/
def pktbufFree (b : BufId) : Pool :=
  let x := p.bufs b
  if x.ref = 0 then p
  else if x.ref = 1 then
    { p.setBuf b { x with ref := 0 } with
      blockList := p.blockList++x.blkList
      pktbufList := p.pktbufList++[b] }
  else p.setBuf b { x with ref := x.ref-1 }

/-- `pktbuf_inc_ref`. -/
def pktbufIncRef (b : BufId) : Pool :=
  let x := p.bufs b
  if x.ref = 0 then p else p.setBuf b { x with ref := x.ref+1 }

/-- `pktbuf_alloc`; `none` is the null pointer. -/
def pktbufAlloc (size : ℤ) : Pool × Option BufId :=
  if size < 0 then (p,none)
  else
    match p.pktbufList with
    | [] => (p,none)
    | b :: rest =>
      let x := { p.bufs b with ref := 1, totalSize := 0, blkList := [] }
      if size = 0 then ({ p.setBuf b x.pktbufResetAcc with pktbufList := rest },some b)
      else
        match pktblockAllocList size.toNat false p.blockList with
        | (free,none) =>
          ({ p.setBuf b x with blockList := free, pktbufList := rest++[b] },none)
        | (free,some blks) =>
          ({ p.setBuf b (x.pktbufInsertBlkList blks true).pktbufResetAcc with
              blockList := free
              pktbufList := rest },some b)

def pktbufAddHeader (b : BufId) (size : ℤ) (cont : Bool) : Pool × NetErr :=
  p.onBuf b fun x free => x.pktbufAddHeader free size cont

def pktbufRemoveHeader (b : BufId) (size : ℤ) : Pool × NetErr :=
  p.onBuf b fun x free => x.pktbufRemoveHeader free size

def pktbufResize (b : BufId) (toSize : ℤ) : Pool × NetErr :=
  p.onBuf b fun x free => x.pktbufResize free toSize

def pktbufSetCont (b : BufId) (size : ℤ) : Pool × NetErr :=
  p.onBuf b fun x free => x.pktbufSetCont free size

/-- `pktbuf_join`. -/
def pktbufJoin (dest src : BufId) : Pool × NetErr :=
  if dest = src then (p,.param)
  else
    let x := (p.bufs dest).pktbufInsertBlkList (p.bufs src).blkList true
    let p := (p.setBuf dest x).setBuf src { p.bufs src with blkList := [] }
    ((p.pktbufFree src).setBuf dest x.pktbufResetAcc,.ok)

end Pool
end Pktbuf
end QuardStarNet
