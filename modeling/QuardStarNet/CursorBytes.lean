import QuardStarNet.PktbufBytes
import QuardStarNet.PktbufCursor

/-! The cursor of a packet buffer as a position in its bytes. -/
namespace QuardStarNet
namespace Pktbuf
namespace Buf

open Windows

/-- The cursor of `x` stands at byte `x.pos`: in front of a byte of some block, or behind the last
block. -/
inductive Placed (x : Buf) : Prop
  | inside (front : List Pktblk) (b : Pktblk) (behind : List Pktblk)
      (list : x.blkList = front++b :: behind) (curr : x.currBlk = some front.length)
      (low : b.data ≤ x.blkOffset) (high : x.blkOffset < b.data+b.size)
      (pos : x.pos = blkTotal front+(x.blkOffset-b.data))
  | finish (curr : x.currBlk = none) (pos : x.pos = x.totalSize)

/-- The bytes from the cursor on. -/
def ahead (x : Buf) : List Byte := x.bytes.drop x.pos

variable {x y : Buf}

theorem Placed.resetAcc (h : x.Wf) : x.pktbufResetAcc.Placed := by
  cases hx : x.blkList with
  | nil =>
    refine .finish (by simp [pktbufResetAcc,hx]) ?_
    have ht := h.total
    rw [hx,blkTotal_nil] at ht
    exact ht.symm
  | cons b l =>
    have hb := (h.fits b (by simp [hx])).pos
    exact .inside [] b l hx (by simp [pktbufResetAcc,hx]) (by simp [pktbufResetAcc,hx])
      (by simp [pktbufResetAcc,hx]; omega) (by simp [pktbufResetAcc,hx])

theorem currBlock_inside {front behind : List Pktblk} {b : Pktblk}
    (list : x.blkList = front++b :: behind) (curr : x.currBlk = some front.length) :
    x.currBlock = some b := by
  simp [currBlock,curr,list]

theorem currBlock_finish (curr : x.currBlk = none) : x.currBlock = none := by
  simp [currBlock,curr]

/-- The bytes ahead start with what is left of the current block. -/
theorem ahead_inside {front behind : List Pktblk} {b : Pktblk}
    (list : x.blkList = front++b :: behind) (low : b.data ≤ x.blkOffset)
    (high : x.blkOffset < b.data+b.size) (pos : x.pos = blkTotal front+(x.blkOffset-b.data)) :
    x.ahead = window b.payload x.blkOffset (b.data+b.size-x.blkOffset)++blkBytes behind := by
  have hk : x.blkOffset-b.data ≤ b.size := by omega
  rw [ahead,Buf.bytes,list,blkBytes_append,blkBytes_cons,pos,← blkBytes_length front,
    List.drop_append,List.drop_of_length_le (by omega),List.nil_append,Nat.add_sub_cancel_left,
    List.drop_append_of_le_length (by simpa using hk),Pktblk.bytes,drop_window _ _ hk]
  congr 2
  · omega
  · omega

/-- There is something to do in the current block as long as bytes are left. -/
theorem Placed.remain_pos (h : x.Placed) (hlt : x.pos < x.totalSize) : 0 < x.currBlkRemain := by
  cases h with
  | inside front b behind list curr low high pos =>
    rw [currBlkRemain,currBlock_inside list curr]
    dsimp only
    omega
  | finish curr pos => omega

/-- Reading in the current block reads the bytes ahead. -/
theorem Placed.peek_eq (h : x.Placed) {n : ℕ} (hn : n ≤ x.currBlkRemain) :
    x.peek n = x.ahead.take n ∧ (x.peek n).length = n := by
  cases h with
  | inside front b behind list curr low high pos =>
    rw [currBlkRemain,currBlock_inside list curr] at hn
    have hpeek : x.peek n = window b.payload x.blkOffset n := by
      rw [peek,currBlock_inside list curr]
    rw [hpeek,ahead_inside list low high pos,List.take_append_of_le_length (by simpa using hn),
      take_window _ _ hn]
    exact ⟨rfl,window_length _ _ _⟩
  | finish curr pos =>
    rw [currBlkRemain,currBlock_finish curr] at hn
    obtain rfl : n = 0 := by simpa using hn
    simp [peek,currBlock_finish curr]

/-- The cursor moved on by `n` bytes and nothing else changed. -/
structure Advanced (x : Buf) (n : ℕ) (y : Buf) : Prop where
  placed : y.Placed
  list : y.blkList = x.blkList
  total : y.totalSize = x.totalSize
  ref : y.ref = x.ref
  pos : y.pos = x.pos+n

theorem Advanced.refl (h : x.Placed) : x.Advanced 0 x := ⟨h,rfl,rfl,rfl,rfl⟩

theorem Advanced.trans {z : Buf} {m n : ℕ} (h : x.Advanced m y) (h' : y.Advanced n z) :
    x.Advanced (m+n) z :=
  ⟨h'.placed,h'.list.trans h.list,h'.total.trans h.total,h'.ref.trans h.ref,
    by rw [h'.pos,h.pos]; omega⟩

theorem Advanced.bytes {n : ℕ} (h : x.Advanced n y) : y.bytes = x.bytes := by
  rw [Buf.bytes,h.list]; rfl

theorem Advanced.ahead {n : ℕ} (h : x.Advanced n y) : y.ahead = x.ahead.drop n := by
  rw [Buf.ahead,h.bytes,h.pos,Buf.ahead,List.drop_drop]

theorem Advanced.wf {n : ℕ} (h : x.Advanced n y) (hw : x.Wf) : y.Wf :=
  ⟨by rw [h.total,h.list,hw.total],fun b hb => hw.fits b (h.list ▸ hb)⟩

/-- `move_forward` inside the current block, or to the start of the next one. -/
theorem Placed.moveForward (h : x.Placed) (hw : x.Wf) {n : ℕ} (hn : n ≤ x.currBlkRemain) :
    x.Advanced n (x.moveForward n) := by
  cases h with
  | finish curr pos =>
    rw [currBlkRemain,currBlock_finish curr] at hn
    obtain rfl : n = 0 := by simpa using hn
    have hm : x.moveForward 0 = x := by simp [Buf.moveForward,curr]
    rw [hm]
    exact .refl (.finish curr pos)
  | inside front b behind list curr low high pos =>
    have hcurr := currBlock_inside list curr
    rw [currBlkRemain,hcurr] at hn
    dsimp only at hn
    by_cases hz : n = 0
    · subst hz
      have hm : x.moveForward 0 = x := by simp [Buf.moveForward,curr,hcurr]
      rw [hm]
      exact .refl (.inside front b behind list curr low high pos)
    by_cases hend : b.data+b.size ≤ x.blkOffset+n
    · have hpos : x.pos+n = blkTotal front+b.size := by omega
      cases behind with
      | nil =>
        have hnext : x.blkList[front.length+1]? = none := by simp [list]
        have hm : x.moveForward n = { x with pos := x.pos+n, currBlk := none, blkOffset := 0 } := by
          simp [Buf.moveForward,curr,hcurr,hz,hend,hnext]
        rw [hm]
        refine ⟨.finish rfl ?_,rfl,rfl,rfl,rfl⟩
        show x.pos+n = x.totalSize
        rw [hpos,hw.total,list]
        simp
      | cons c behind =>
        have hnext : x.blkList[front.length+1]? = some c := by
          rw [list,List.getElem?_append_right (by omega)]
          simp
        have hm : x.moveForward n =
            { x with pos := x.pos+n, currBlk := some (front.length+1), blkOffset := c.data } := by
          simp [Buf.moveForward,curr,hcurr,hz,hend,hnext]
        have hc := (hw.fits c (by simp [list])).pos
        rw [hm]
        refine ⟨.inside (front++[b]) c behind (by simp [list]) (by simp) le_rfl
          (by dsimp only; omega) ?_,rfl,rfl,rfl,rfl⟩
        simp [hpos]
    · have hm : x.moveForward n = { x with pos := x.pos+n, blkOffset := x.blkOffset+n } := by
        simp [Buf.moveForward,curr,hcurr,hz,hend]
      rw [hm]
      refine ⟨.inside front b behind list curr ?_ ?_ ?_,rfl,rfl,rfl,rfl⟩
      · dsimp only; omega
      · dsimp only; omega
      · dsimp only; omega

/-- The rule for the loop over the blocks: a property that each turn keeps holds at the end, when
there are as many turns as bytes. -/
theorem blockLoop_induct {α : Type} (turn : ℕ → Buf → α → Buf × α) {P : ℕ → Buf → α → Prop}
    (step : ∀ size x acc, P size x acc → 0 < size → 0 < x.currBlkRemain ∧
      ∀ n, n = min size x.currBlkRemain →
        P (size-n) ((turn n x acc).1.moveForward n) (turn n x acc).2)
    {fuel size : ℕ} (hf : size ≤ fuel) (x : Buf) (acc : α) (h : P size x acc) :
    P 0 (blockLoop turn fuel size x acc).1 (blockLoop turn fuel size x acc).2 := by
  induction fuel generalizing size x acc with
  | zero =>
    obtain rfl : size = 0 := by omega
    exact h
  | succ fuel ih =>
    rw [blockLoop]
    split
    next hz => exact hz ▸ h
    next hz =>
      obtain ⟨hpos,hturn⟩ := step size x acc h (by omega)
      exact ih (by omega) _ _ (hturn _ rfl)

/-- A loop that only reads goes through the bytes ahead, piece by piece. -/
theorem blockLoop_read {α : Type} {g : α → List Byte → α} (hnil : ∀ acc, g acc [] = acc)
    (happ : ∀ acc l l', g acc (l++l') = g (g acc l) l') (turn : ℕ → Buf → α → Buf × α)
    (hturn : ∀ n x acc, (x.peek n).length = n → turn n x acc = (x,g acc (x.peek n)))
    {fuel size : ℕ} (hf : size ≤ fuel) (hw : x.Wf) (hx : x.Placed) (acc : α)
    (hs : x.pos+size ≤ x.totalSize) :
    x.Advanced size (blockLoop turn fuel size x acc).1 ∧
      (blockLoop turn fuel size x acc).2 = g acc (x.ahead.take size) := by
  -- what has been read so far is the part of the bytes ahead that is no longer to do
  have hloop := blockLoop_induct turn (P := fun k y a => k ≤ size ∧ x.Advanced (size-k) y ∧
    a = g acc (x.ahead.take (size-k))) ?step hf x acc ?start
  · simpa using hloop.2
  case step =>
    rintro k y a ⟨hk,hy,rfl⟩ hpos
    have hyw := hy.wf hw
    have hlt : y.pos < y.totalSize := by rw [hy.pos,hy.total]; omega
    refine ⟨hy.placed.remain_pos hlt,?_⟩
    rintro n rfl
    obtain ⟨hpeek,hlen⟩ := hy.placed.peek_eq (Nat.min_le_right k y.currBlkRemain)
    have hstep := hy.trans (hy.placed.moveForward hyw (Nat.min_le_right k y.currBlkRemain))
    have hsub : size-(k-min k y.currBlkRemain) = size-k+min k y.currBlkRemain := by omega
    rw [hturn _ _ _ hlen,hsub]
    refine ⟨by omega,hstep,?_⟩
    rw [← happ,hpeek,hy.ahead,← List.take_add]
  case start => exact ⟨le_rfl,by simpa using Advanced.refl hx,by simp [hnil]⟩

/-- `pktbuf_read` copies out the bytes at the cursor. -/
theorem pktbufRead_spec (hw : x.Wf) (hx : x.Placed) {size : ℕ} (hs : x.pos+size ≤ x.totalSize) :
    x.Advanced size (x.pktbufRead size).1 ∧ (x.pktbufRead size).2 = (.ok,x.ahead.take size) := by
  unfold pktbufRead
  rw [if_neg (by omega)]
  split
  next hz =>
    obtain rfl : size = 0 := by omega
    exact ⟨.refl hx,by simp⟩
  next hz =>
    rw [if_neg (by rw [totalBlkRemain]; omega),Int.toNat_natCast]
    obtain ⟨hadv,hacc⟩ := blockLoop_read (g := fun dest l => dest++l) (by simp) (by simp)
      (fun n x dest => (x,dest++x.peek n)) (fun _ _ _ _ => rfl) le_rfl hw hx [] hs
    exact ⟨hadv,by simpa using hacc⟩

theorem seekLoop_spec (hw : x.Wf) (hx : x.Placed) (size : ℕ) (hs : x.pos+size ≤ x.totalSize) :
    x.Advanced size (x.seekLoop size) :=
  (blockLoop_read (g := fun (u : Unit) _ => u) (fun _ => rfl) (fun _ _ _ => rfl)
    _ (fun _ _ _ _ => rfl) le_rfl hw hx () hs).1

/-- `pktbuf_seek` puts the cursor at any position of the buffer. -/
theorem pktbufSeek_spec (hw : x.Wf) (hx : x.Placed) {offset : ℕ} (hs : offset ≤ x.totalSize) :
    (x.pktbufSeek offset).2 = .ok ∧ (x.pktbufSeek offset).1.Placed ∧
      (x.pktbufSeek offset).1.pos = offset ∧ (x.pktbufSeek offset).1.blkList = x.blkList ∧
      (x.pktbufSeek offset).1.totalSize = x.totalSize := by
  unfold pktbufSeek
  rw [if_neg (by omega)]
  split
  next he => exact ⟨rfl,hx,by dsimp only; omega,rfl,rfl⟩
  next hne =>
    rw [if_neg (by omega),Int.toNat_natCast]
    split
    next hlt =>
      have h := seekLoop_spec hw.resetAcc (.resetAcc hw) offset
        (by show 0+offset ≤ x.totalSize; omega)
      exact ⟨rfl,h.placed,by rw [h.pos]; exact Nat.zero_add _,h.list,h.total⟩
    next hlt =>
      have h := seekLoop_spec hw hx (offset-x.pos) (by omega)
      exact ⟨rfl,h.placed,by rw [h.pos]; omega,h.list,h.total⟩

/-! Writing. -/

/-- What stays the same of the blocks when bytes are written to them. -/
def shapes (x : Buf) : List (ℕ × ℕ × ℕ) := x.blkList.map fun b => (b.id,b.size,b.data)

theorem blkTotal_congr {l l' : List Pktblk}
    (h : l'.map (fun b => (b.id,b.size,b.data)) = l.map fun b => (b.id,b.size,b.data)) :
    blkTotal l' = blkTotal l := by
  have := congrArg (List.map fun t : ℕ × ℕ × ℕ => t.2.1) h
  simp only [List.map_map] at this
  exact congrArg List.sum this

theorem Wf.congr (h : x.Wf) (hs : y.shapes = x.shapes) (ht : y.totalSize = x.totalSize) : y.Wf := by
  refine ⟨by rw [ht,h.total,← blkTotal_congr hs],fun b hb => ?_⟩
  have hmem : (b.id,b.size,b.data) ∈ x.shapes := hs ▸ List.mem_map.2 ⟨b,hb,rfl⟩
  obtain ⟨c,hc,he⟩ := List.mem_map.1 hmem
  obtain ⟨-,hsize,hdata⟩ : c.id = b.id ∧ c.size = b.size ∧ c.data = b.data := by simpa using he
  exact ⟨hsize ▸ (h.fits c hc).pos,hsize ▸ hdata ▸ (h.fits c hc).bound⟩

/-- The cursor stays placed when the blocks keep their shapes. -/
theorem Placed.congr (h : x.Placed) (hs : y.shapes = x.shapes) (ht : y.totalSize = x.totalSize)
    (hc : y.currBlk = x.currBlk) (ho : y.blkOffset = x.blkOffset) (hp : y.pos = x.pos) :
    y.Placed := by
  cases h with
  | finish curr pos => exact .finish (hc.trans curr) (by rw [hp,pos,ht])
  | inside front b behind list curr low high pos =>
    have hs : y.blkList.map (fun b => (b.id,b.size,b.data)) = _ := hs
    rw [shapes,list,List.map_append,List.map_cons] at hs
    obtain ⟨front',rest,hlist,hfront,hrest⟩ := List.map_eq_append_iff.1 hs
    obtain ⟨b',behind',rfl,hb,-⟩ := List.map_eq_cons_iff.1 hrest
    obtain ⟨-,hsize,hdata⟩ : b'.id = b.id ∧ b'.size = b.size ∧ b'.data = b.data := by simpa using hb
    have hlen : front'.length = front.length := by simpa using congrArg List.length hfront
    exact .inside front' b' behind' hlist (by rw [hc,curr,hlen]) (by omega) (by omega)
      (by rw [hp,pos,blkTotal_congr hfront,ho,hdata])

/-- Writing `l` at the cursor gave `y`. -/
structure Wrote (x : Buf) (l : List Byte) (y : Buf) : Prop where
  placed : y.Placed
  shapes : y.shapes = x.shapes
  total : y.totalSize = x.totalSize
  ref : y.ref = x.ref
  pos : y.pos = x.pos+l.length
  bytes : y.bytes = overwrite x.bytes x.pos l

theorem Wrote.refl (h : x.Placed) : x.Wrote [] x := ⟨h,rfl,rfl,rfl,rfl,by simp⟩

theorem Wrote.wf {l : List Byte} (h : x.Wrote l y) (hw : x.Wf) : y.Wf := hw.congr h.shapes h.total

/-- Bytes stored in the current block. -/
theorem Placed.poke (h : x.Placed) {l : List Byte} (hl : l.length ≤ x.currBlkRemain) :
    (x.poke l).shapes = x.shapes ∧ (x.poke l).currBlkRemain = x.currBlkRemain ∧
      (x.poke l).bytes = overwrite x.bytes x.pos l := by
  cases h with
  | finish curr pos =>
    rw [currBlkRemain,currBlock_finish curr] at hl
    obtain rfl : l = [] := List.length_eq_zero_iff.1 (Nat.le_zero.1 hl)
    have hpoke : x.poke [] = x := by simp [Buf.poke,curr]
    simp [hpoke]
  | inside front b behind list curr low high pos =>
    have hcurr := currBlock_inside list curr
    have hpoke : x.poke l = { x with blkList := front++
        { b with payload := write b.payload x.blkOffset l } :: behind } := by
      rw [Buf.poke,curr]
      dsimp only
      rw [list,List.modify_eq_take_cons_drop (by simp)]
      simp
    rw [currBlkRemain,hcurr] at hl
    dsimp only at hl
    rw [hpoke]
    refine ⟨by simp [shapes,list],?_,?_⟩
    · simp only [currBlkRemain,hcurr]
      rw [currBlock_inside (x := { x with blkList := front++
        { b with payload := write b.payload x.blkOffset l } :: behind }) rfl curr]
    · obtain ⟨k,hk⟩ := Nat.exists_eq_add_of_le low
      have hkl : k+l.length ≤ b.bytes.length := by rw [Pktblk.bytes_length]; omega
      have hwin : ({ b with payload := write b.payload x.blkOffset l } : Pktblk).bytes =
          overwrite b.bytes k l := by
        rw [Pktblk.bytes_length] at hkl
        simp only [Pktblk.bytes,hk]
        exact window_write hkl
      have hpos : x.pos = (blkBytes front).length+k := by rw [blkBytes_length,pos,hk]; omega
      rw [hpos,Buf.bytes,Buf.bytes,list,blkBytes_append,blkBytes_cons,hwin,blkBytes_append,
        overwrite_append_right,blkBytes_cons,overwrite_append_left hkl]

@[simp] theorem poke_totalSize (l : List Byte) : (x.poke l).totalSize = x.totalSize := by
  unfold poke
  split
  · rfl
  · rfl

theorem poke_cursor (l : List Byte) : (x.poke l).currBlk = x.currBlk ∧
    (x.poke l).blkOffset = x.blkOffset ∧ (x.poke l).pos = x.pos := by
  unfold poke
  split
  · exact ⟨rfl,rfl,rfl⟩
  · exact ⟨rfl,rfl,rfl⟩

/-- One turn of a loop that writes. -/
theorem Wrote.step {done l : List Byte} (h : x.Wrote done y) (hw : x.Wf)
    (hp : x.pos ≤ x.bytes.length) (hl : l.length ≤ y.currBlkRemain) :
    x.Wrote (done++l) ((y.poke l).moveForward l.length) := by
  obtain ⟨hshapes,hremain,hbytes⟩ := h.placed.poke hl
  obtain ⟨hc,ho,hpos⟩ := poke_cursor (x := y) l
  have hplaced := h.placed.congr hshapes (poke_totalSize l) hc ho hpos
  have hwf := (h.wf hw).congr hshapes (poke_totalSize l)
  have hmove := hplaced.moveForward hwf (hremain ▸ hl)
  refine ⟨hmove.placed,?_,?_,?_,?_,?_⟩
  · rw [← h.shapes,← hshapes]
    exact congrArg (List.map _) hmove.list
  · rw [hmove.total,poke_totalSize,h.total]
  · rw [hmove.ref,poke_ref,h.ref]
  · rw [hmove.pos,hpos,h.pos,List.length_append,Nat.add_assoc]
  · rw [hmove.bytes,hbytes,h.bytes,h.pos,overwrite_overwrite hp]

theorem Wrote.remain_pos {done : List Byte} (h : x.Wrote done y)
    (hlt : x.pos+done.length < x.totalSize) : 0 < y.currBlkRemain :=
  h.placed.remain_pos (by rw [h.pos,h.total]; exact hlt)

/-- `pktbuf_write` replaces the bytes at the cursor. -/
theorem pktbufWrite_spec (hw : x.Wf) (hx : x.Placed) {src : List Byte}
    (hs : x.pos+src.length ≤ x.totalSize) :
    (x.pktbufWrite src).2 = .ok ∧ x.Wrote src (x.pktbufWrite src).1 := by
  have hlen := hw.bytes_length
  unfold pktbufWrite
  split
  next hz =>
    subst hz
    exact ⟨rfl,.refl hx⟩
  next hz =>
    rw [if_neg (by rw [totalBlkRemain]; omega)]
    refine ⟨rfl,?_⟩
    -- what is left of the source is what has not been written yet
    have hloop := blockLoop_induct (fun n x (src : List Byte) => (x.poke (src.take n),src.drop n))
      (P := fun k y rest => rest.length = k ∧ ∃ done, src = done++rest ∧ x.Wrote done y)
      ?step (Nat.le_refl src.length) x src ⟨rfl,[],rfl,.refl hx⟩
    · obtain ⟨hrest,done,hdone,hy⟩ := hloop
      rw [List.length_eq_zero_iff.1 hrest,List.append_nil] at hdone
      rwa [← hdone] at hy
    case step =>
      rintro k y rest ⟨rfl,done,rfl,hy⟩ hpos
      rw [List.length_append] at hs
      refine ⟨hy.remain_pos (by omega),?_⟩
      rintro n rfl
      have hn : (rest.take (min rest.length y.currBlkRemain)).length =
          min rest.length y.currBlkRemain := by simp
      refine ⟨by simp,done++rest.take (min rest.length y.currBlkRemain),by simp,?_⟩
      have hstep := hy.step hw (by omega) (Nat.le_trans (Nat.le_of_eq hn) (Nat.min_le_right _ _))
      rwa [hn] at hstep

/-- `pktbuf_fill` writes one byte over and over. -/
theorem pktbufFill_spec (hw : x.Wf) (hx : x.Placed) (v : Byte) {size : ℕ}
    (hs : x.pos+size ≤ x.totalSize) :
    (x.pktbufFill v size).2 = .ok ∧ x.Wrote (List.replicate size v) (x.pktbufFill v size).1 := by
  have hlen := hw.bytes_length
  unfold pktbufFill
  rw [if_neg (by omega)]
  split
  next hz =>
    obtain rfl : size = 0 := by omega
    exact ⟨rfl,.refl hx⟩
  next hz =>
    rw [if_neg (by rw [totalBlkRemain]; omega),Int.toNat_natCast]
    refine ⟨rfl,?_⟩
    have hloop := blockLoop_induct (fun n x (u : Unit) => (x.poke (List.replicate n v),u))
      (P := fun k y _ => k ≤ size ∧ x.Wrote (List.replicate (size-k) v) y)
      ?step (Nat.le_refl size) x () ⟨Nat.le_refl _,by simpa using Wrote.refl hx⟩
    · simpa using hloop.2
    case step =>
      rintro k y - ⟨hk,hy⟩ hpos
      refine ⟨hy.remain_pos (by rw [List.length_replicate]; omega),?_⟩
      rintro n rfl
      have hstep := hy.step (l := List.replicate (min k y.currBlkRemain) v) hw (by omega)
        (by rw [List.length_replicate]; omega)
      rw [List.length_replicate,List.replicate_append_replicate] at hstep
      have hsub : size-(k-min k y.currBlkRemain) = size-k+min k y.currBlkRemain := by omega
      rw [hsub]
      exact ⟨by omega,hstep⟩

/-- Bytes stored behind the pointer of `pktbuf_data`. -/
theorem store_spec {b : Pktblk} {l : List Pktblk} (list : x.blkList = b :: l) {offset : ℕ}
    {new : List Byte} (hs : offset+new.length ≤ b.size) :
    (x.store offset new).shapes = x.shapes ∧
      (x.store offset new).bytes = overwrite x.bytes offset new := by
  have hstore : x.store offset new = { x with blkList :=
      { b with payload := write b.payload (b.data+offset) new } :: l } := by
    simp [store,list]
  rw [hstore]
  refine ⟨by simp [shapes,list],?_⟩
  have hwin : ({ b with payload := write b.payload (b.data+offset) new } : Pktblk).bytes =
      overwrite b.bytes offset new := window_write hs
  rw [Buf.bytes,Buf.bytes,list,blkBytes_cons,hwin,blkBytes_cons,
    overwrite_append_left (by rw [Pktblk.bytes_length]; exact hs)]

end Buf
end Pktbuf
end QuardStarNet
