import QuardStarNet.CursorBytes

/-! Every call at the cursor acts on the bytes of the buffers laid end to end, unless
`pktbuf_copy` gets one buffer for both of its arguments. -/
namespace QuardStarNet
namespace Pktbuf
namespace Buf

open Windows

/-- The loop over the blocks with a bound on its turns; `none` says that it has not ended. -/
def blockTurns {α : Type} (turn : ℕ → Buf → α → Buf × α) : ℕ → ℕ → Buf → α → Option (Buf × α)
  | 0, size, x, acc => if size = 0 then some (x,acc) else none
  | turns+1, size, x, acc =>
    if size = 0 then some (x,acc)
    else
      let currSize := min size x.currBlkRemain
      let r := turn currSize x acc
      blockTurns turn turns (size-currSize) (r.1.moveForward currSize) r.2

/-- The code that `pktbuf_read`, `pktbuf_write` and `pktbuf_fill` share; `null` says that the
pointer of the caller is null, and `emit` gives the bytes copied out. -/
def transferIn {α : Type} (turns : ℕ) (null : Bool) (turn : ℕ → Buf → α → Buf × α) (acc : α)
    (emit : α → List Byte) (size : ℤ) (x : Buf) : Option (Buf × NetErr × List Byte) :=
  if size < 0 ∨ (0 < size ∧ null) then some (x,.param,[])
  else if size = 0 then some (x,.ok,[])
  else if x.totalBlkRemain < size then some (x,.size,[])
  else (blockTurns turn turns size.toNat x acc).map fun r => (r.1,.ok,emit r.2)

/-- `pktbuf_read`. -/
def readIn (turns : ℕ) (null : Bool) (size : ℤ) : Buf → Option (Buf × NetErr × List Byte) :=
  transferIn turns null (fun n x dest => (x,dest++x.peek n)) [] id size

/-- The first bytes that a pointer leads to. -/
def sourceBytes (src : Option (ℕ → Byte)) (n : ℕ) : List Byte :=
  (List.range n).map (src.getD fun _ => 0)

/-- `pktbuf_write`. -/
def writeIn (turns : ℕ) (src : Option (ℕ → Byte)) (size : ℤ) :
    Buf → Option (Buf × NetErr × List Byte) :=
  transferIn turns src.isNone (fun n x src => (x.poke (src.take n),src.drop n))
    (sourceBytes src size.toNat) (fun _ => []) size

/-- `pktbuf_fill`. -/
def fillIn (turns : ℕ) (v : Byte) (size : ℤ) : Buf → Option (Buf × NetErr × List Byte) :=
  transferIn turns false (fun n x (u : Unit) => (x.poke (List.replicate n v),u)) () (fun _ => []) size

/-- `pktbuf_seek`. -/
def seekIn (turns : ℕ) (offset : ℤ) (x : Buf) : Option (Buf × NetErr × List Byte) :=
  let loop := fun (x : Buf) moveBytes =>
    (blockTurns (fun _ x (u : Unit) => (x,u)) turns moveBytes x ()).map fun r => (r.1,.ok,[])
  if offset < 0 then some (x,.param,[])
  else if x.pos = offset then some (x,.ok,[])
  else if x.totalSize < offset then some (x,.size,[])
  else if offset < x.pos then loop x.pktbufResetAcc offset.toNat
  else loop x (offset.toNat-x.pos)

end Buf

open Function (update)

variable {ι : Type} [DecidableEq ι]

/-- A turn of the loop of `pktbuf_copy`; the two buffers may be one. -/
def copyTurn (dest src : ι) (n : ℕ) (bufs : ι → Buf) : ι → Buf :=
  let bufs := update bufs dest ((bufs dest).poke ((bufs src).peek n))
  let bufs := update bufs dest ((bufs dest).moveForward n)
  update bufs src ((bufs src).moveForward n)

def copyTurns (dest src : ι) : ℕ → ℕ → (ι → Buf) → Option (ι → Buf)
  | 0, size, bufs => if size = 0 then some bufs else none
  | turns+1, size, bufs =>
    if size = 0 then some bufs
    else
      let copySize := min size (min (bufs dest).currBlkRemain (bufs src).currBlkRemain)
      copyTurns dest src turns (size-copySize) (copyTurn dest src copySize bufs)

/-- `pktbuf_copy`. -/
def copyIn (turns : ℕ) (dest src : ι) (size : ℤ) (bufs : ι → Buf) :
    Option ((ι → Buf) × NetErr × List Byte) :=
  if size < 0 then some (bufs,.param,[])
  else if size = 0 then some (bufs,.ok,[])
  else if (bufs dest).totalBlkRemain < size ∨ (bufs src).totalBlkRemain < size then
    some (bufs,.size,[])
  else (copyTurns dest src turns size.toNat bufs).map fun bufs => (bufs,.ok,[])

/-- The calls at the cursor. A buffer that is `none` is a null pointer, and so is `src`; of the
memory that `pktbuf_read` copies to only matters whether there is any. -/
inductive Call (ι : Type)
  | resetAcc (buf : Option ι)
  | seek (buf : Option ι) (offset : ℤ)
  | read (buf : Option ι) (null : Bool) (size : ℤ)
  | write (buf : Option ι) (src : Option (ℕ → Byte)) (size : ℤ)
  | fill (buf : Option ι) (v : Byte) (size : ℤ)
  | copy (dest src : Option ι) (size : ℤ)

def onBuf (bufs : ι → Buf) (buf : Option ι) (f : Buf → Option (Buf × NetErr × List Byte)) :
    Option ((ι → Buf) × NetErr × List Byte) :=
  match buf with
  | none => some (bufs,.param,[])
  | some i => (f (bufs i)).map fun r => (update bufs i r.1,r.2)

/-- A call whose loops have at most `turns` turns. -/
def Call.exec (turns : ℕ) (bufs : ι → Buf) : Call ι → Option ((ι → Buf) × NetErr × List Byte)
  | resetAcc none => some (bufs,.ok,[])
  | resetAcc (some i) => some (update bufs i (bufs i).pktbufResetAcc,.ok,[])
  | seek buf offset => onBuf bufs buf (Buf.seekIn turns offset)
  | read buf null size => onBuf bufs buf (Buf.readIn turns null size)
  | write buf src size => onBuf bufs buf (Buf.writeIn turns src size)
  | fill buf v size => onBuf bufs buf (Buf.fillIn turns v size)
  | copy (some dest) (some src) size => copyIn turns dest src size bufs
  | copy _ _ _ => some (bufs,.param,[])

/-! ### Flat buffers -/

/-- A buffer as a byte sequence and a position in it. -/
structure Flat where
  bytes : List Byte
  pos : ℕ

namespace Flat

/-- The next bytes. -/
def get (f : Flat) (n : ℕ) : List Byte := (f.bytes.drop f.pos).take n

def skip (f : Flat) (n : ℕ) : Flat := ⟨f.bytes,f.pos+n⟩

/-- Bytes in the place of the next ones. -/
def put (f : Flat) (l : List Byte) : Flat := ⟨Windows.overwrite f.bytes f.pos l,f.pos+l.length⟩

/-- A call that moves `size` bytes. -/
def transfer (null : Bool) (size : ℤ) (act : Flat → ℕ → Flat × List Byte) (f : Flat) :
    Flat × NetErr × List Byte :=
  if size < 0 ∨ (0 < size ∧ null) then (f,.param,[])
  else if f.bytes.length < f.pos+size then (f,.size,[])
  else ((act f size.toNat).1,.ok,(act f size.toNat).2)

def seek (offset : ℤ) (f : Flat) : Flat × NetErr × List Byte :=
  if offset < 0 then (f,.param,[])
  else if f.bytes.length < offset then (f,.size,[])
  else (⟨f.bytes,offset.toNat⟩,.ok,[])

def onFlat (fs : ι → Flat) (buf : Option ι) (g : Flat → Flat × NetErr × List Byte) :
    (ι → Flat) × NetErr × List Byte :=
  match buf with
  | none => (fs,.param,[])
  | some i => (update fs i (g (fs i)).1,(g (fs i)).2)

/-- What a call does with flat buffers. -/
def call (fs : ι → Flat) : Call ι → (ι → Flat) × NetErr × List Byte
  | .resetAcc none => (fs,.ok,[])
  | .resetAcc (some i) => (update fs i ⟨(fs i).bytes,0⟩,.ok,[])
  | .seek buf offset => onFlat fs buf (seek offset)
  | .read buf null size => onFlat fs buf (transfer null size fun f n => (f.skip n,f.get n))
  | .write buf src size =>
    onFlat fs buf (transfer src.isNone size fun f n => (f.put (Buf.sourceBytes src n),[]))
  | .fill buf v size => onFlat fs buf (transfer false size fun f n => (f.put (List.replicate n v),[]))
  | .copy (some dest) (some src) size =>
    if size < 0 then (fs,.param,[])
    else if (fs dest).bytes.length < (fs dest).pos+size ∨
        (fs src).bytes.length < (fs src).pos+size then (fs,.size,[])
    else
      (update (update fs src ((fs src).skip size.toNat)) dest
        ((fs dest).put ((fs src).get size.toNat)),.ok,[])
  | .copy _ _ _ => (fs,.param,[])

end Flat

/-- A buffer in use, whose cursor stands at byte `pos`. -/
structure Good (x : Buf) : Prop where
  wf : x.Wf
  placed : x.Placed
  used : x.ref ≠ 0

def Buf.flat (x : Buf) : Flat := ⟨x.bytes,x.pos⟩

/-- The call ends, with good buffers and the effect that it has on flat ones; an error changes
nothing. -/
def Acts (bufs : ι → Buf) (call : Call ι) (bufs' : ι → Buf) : Prop :=
  ∃ turns code out, call.exec turns bufs = some (bufs',code,out) ∧ (∀ i, Good (bufs' i)) ∧
    Flat.call (fun i => (bufs i).flat) call = (fun i => (bufs' i).flat,code,out) ∧
    (code ≠ .ok → bufs' = bufs)

/-- `pktbuf_copy` gets two buffers, or nothing to do, or all that is left of a buffer if that is in
one block. -/
def Call.Apart (bufs : ι → Buf) : Call ι → Prop
  | copy (some dest) (some src) size => dest = src → size ≤ 0 ∨ (bufs src).totalBlkRemain < size ∨
      (size = (bufs src).totalBlkRemain ∧ size = (bufs src).currBlkRemain)
  | _ => True

/-! ### The loops end -/

namespace Buf

variable {x y : Buf}

/-- `y` differs from `x` in the contents of its blocks at most. -/
structure Same (x y : Buf) : Prop where
  shapes : y.shapes = x.shapes
  total : y.totalSize = x.totalSize
  curr : y.currBlk = x.currBlk
  offset : y.blkOffset = x.blkOffset
  pos : y.pos = x.pos
  remain : y.currBlkRemain = x.currBlkRemain

theorem Same.refl (x : Buf) : x.Same x := ⟨rfl,rfl,rfl,rfl,rfl,rfl⟩

theorem Same.poke (h : x.Placed) {l : List Byte} (hl : l.length ≤ x.currBlkRemain) :
    x.Same (x.poke l) :=
  have ⟨hshapes,hremain,_⟩ := h.poke hl
  have ⟨hc,ho,hp⟩ := poke_cursor (x := x) l
  ⟨hshapes,poke_totalSize l,hc,ho,hp,hremain⟩

theorem Same.moveForward (h : x.Same y) (hw : x.Wf) (hx : x.Placed) {n : ℕ}
    (hn : n ≤ x.currBlkRemain) : y.Wf ∧ y.Advanced n (y.moveForward n) :=
  have hy := hw.congr h.shapes h.total
  ⟨hy,(hx.congr h.shapes h.total h.curr h.offset h.pos).moveForward hy (h.remain ▸ hn)⟩

/-- No turn is without progress, so the loop ends within as many turns as there are bytes. -/
theorem blockTurns_eq {α : Type} {turn : ℕ → Buf → α → Buf × α}
    (hturn : ∀ n (x : Buf) acc, x.Placed → n ≤ x.currBlkRemain → x.Same (turn n x acc).1) (turns : ℕ)
    {size : ℕ} (hs : size ≤ turns) (hw : x.Wf) (hx : x.Placed) (hfit : x.pos+size ≤ x.totalSize)
    (acc : α) : blockTurns turn turns size x acc = some (blockLoop turn turns size x acc) := by
  induction turns generalizing size x acc with
  | zero => rw [blockTurns,if_pos (by omega),blockLoop]
  | succ turns ih =>
    rw [blockTurns,blockLoop]
    split
    · rfl
    next hz =>
      have hpos := hx.remain_pos (by omega)
      have hmin := Nat.min_le_right size x.currBlkRemain
      have hsame := hturn _ x acc hx hmin
      obtain ⟨hw',hadv⟩ := hsame.moveForward hw hx hmin
      refine ih (by omega) (hadv.wf hw') hadv.placed ?_ _
      rw [hadv.pos,hadv.total,hsame.pos,hsame.total]
      omega

theorem good_advanced {n : ℕ} (h : Good x) (hy : x.Advanced n y) :
    Good y ∧ y.flat = x.flat.skip n :=
  ⟨⟨hy.wf h.wf,hy.placed,hy.ref ▸ h.used⟩,by rw [flat,hy.bytes,hy.pos]; rfl⟩

theorem good_wrote {l : List Byte} (h : Good x) (hy : x.Wrote l y) :
    Good y ∧ y.flat = x.flat.put l :=
  ⟨⟨hy.wf h.wf,hy.placed,hy.ref ▸ h.used⟩,by rw [flat,hy.bytes,hy.pos]; rfl⟩

/-- On the buffer `x`, `f` ends and does what `g` does with the flat buffer. -/
def Refines (x : Buf) (f : ℕ → Buf → Option (Buf × NetErr × List Byte))
    (g : Flat → Flat × NetErr × List Byte) : Prop :=
  ∃ turns y code out, f turns x = some (y,code,out) ∧ Good y ∧ g x.flat = (y.flat,code,out) ∧
    (code ≠ .ok → y = x)

theorem Placed.pos_le (h : x.Placed) (hw : x.Wf) : x.pos ≤ x.totalSize := by
  cases h with
  | finish curr pos => exact Nat.le_of_eq pos
  | inside front b behind list curr low high pos =>
    rw [hw.total,list,blkTotal_append,blkTotal_cons]
    omega

/-- A call that moves bytes does what its loop does when all of them are there. -/
theorem transferIn_refines {α : Type} {turn : ℕ → Buf → α → Buf × α} {acc : α}
    {emit : α → List Byte} {act : Flat → ℕ → Flat × List Byte} (null : Bool) (size : ℤ)
    (h : Good x) (hturn : ∀ n (x : Buf) acc, x.Placed → n ≤ x.currBlkRemain → x.Same (turn n x acc).1)
    (hzero : act x.flat 0 = (x.flat,[]))
    (hloop : ∀ n : ℕ, size = n → 0 < n → x.pos+n ≤ x.totalSize →
      Good (blockLoop turn n n x acc).1 ∧
        act x.flat n = ((blockLoop turn n n x acc).1.flat,emit (blockLoop turn n n x acc).2)) :
    x.Refines (fun turns => transferIn turns null turn acc emit size)
      (Flat.transfer null size act) := by
  have hlen : x.flat.bytes.length = x.totalSize := h.wf.bytes_length
  have hle := h.placed.pos_le h.wf
  have hpos : x.flat.pos = x.pos := rfl
  have hremain : x.totalBlkRemain = x.totalSize-x.pos := rfl
  unfold Refines transferIn Flat.transfer
  rw [hlen,hpos]
  by_cases hbad : size < 0 ∨ (0 < size ∧ null)
  · exact ⟨0,x,.param,[],if_pos hbad,h,if_pos hbad,fun _ => rfl⟩
  simp only [if_neg hbad]
  obtain ⟨n,rfl⟩ := Int.eq_ofNat_of_zero_le (by omega : 0 ≤ size)
  rcases Nat.eq_zero_or_pos n with rfl | hn
  · exact ⟨0,x,.ok,[],if_pos rfl,h,by rw [if_neg (by omega),Int.toNat_natCast,hzero],fun _ => rfl⟩
  by_cases hshort : (x.totalSize : ℤ) < x.pos+n
  · exact ⟨0,x,.size,[],by rw [if_neg (by omega),if_pos (by omega)],h,if_pos hshort,fun _ => rfl⟩
  · obtain ⟨hgood,hact⟩ := hloop n rfl hn (by omega)
    refine ⟨n,_,.ok,emit (blockLoop turn n n x acc).2,?_,hgood,?_,fun hne => absurd rfl hne⟩
    · rw [if_neg (by omega),if_neg (by omega),Int.toNat_natCast,
        blockTurns_eq hturn n le_rfl h.wf h.placed (by omega) acc]
      rfl
    · rw [if_neg hshort,Int.toNat_natCast,hact]

theorem readIn_refines (h : Good x) (null : Bool) (size : ℤ) :
    x.Refines (fun turns => readIn turns null size)
      (Flat.transfer null size fun f n => (f.skip n,f.get n)) := by
  refine transferIn_refines null size h (fun _ x _ _ _ => .refl x) (by simp [Flat.skip,Flat.get]) ?_
  intro n _ _ hfit
  obtain ⟨hadv,hacc⟩ := blockLoop_read (g := fun dest l => dest++l) (by simp) (by simp)
    (fun n x dest => (x,dest++x.peek n)) (fun _ _ _ _ => rfl) le_rfl h.wf h.placed [] hfit
  obtain ⟨hgood,hflat⟩ := good_advanced h hadv
  rw [hflat,hacc]
  exact ⟨hgood,rfl⟩

theorem writeIn_refines (h : Good x) (src : Option (ℕ → Byte)) (size : ℤ) :
    x.Refines (fun turns => writeIn turns src size)
      (Flat.transfer src.isNone size fun f n => (f.put (sourceBytes src n),[])) := by
  refine transferIn_refines src.isNone size h
    (fun n x acc hx hn => .poke hx (by rw [List.length_take]; omega))
    (by simp [Flat.put,sourceBytes]) ?_
  rintro n rfl hn hfit
  have hsrc : (sourceBytes src n).length = n := by simp [sourceBytes]
  have hspec : x.Wrote (sourceBytes src n) (x.pktbufWrite (sourceBytes src n)).1 :=
    (pktbufWrite_spec h.wf h.placed (by omega)).2
  rw [pktbufWrite,if_neg (fun hnil => by simp [hnil] at hsrc; omega),
    if_neg (by rw [totalBlkRemain]; omega),hsrc] at hspec
  obtain ⟨hgood,hflat⟩ := good_wrote h hspec
  rw [Int.toNat_natCast,hflat]
  exact ⟨hgood,rfl⟩

theorem fillIn_refines (h : Good x) (v : Byte) (size : ℤ) :
    x.Refines (fun turns => fillIn turns v size)
      (Flat.transfer false size fun f n => (f.put (List.replicate n v),[])) := by
  refine transferIn_refines false size h
    (fun n x acc hx hn => .poke hx (by rwa [List.length_replicate])) (by simp [Flat.put]) ?_
  rintro n - hn hfit
  have hspec := (pktbufFill_spec h.wf h.placed v hfit).2
  rw [pktbufFill,if_neg (by omega),if_neg (by omega),if_neg (by rw [totalBlkRemain]; omega),
    Int.toNat_natCast] at hspec
  obtain ⟨hgood,hflat⟩ := good_wrote h hspec
  rw [hflat]
  exact ⟨hgood,rfl⟩

theorem seekIn_refines (h : Good x) (offset : ℤ) :
    x.Refines (fun turns => seekIn turns offset) (Flat.seek offset) := by
  have hlen : x.flat.bytes.length = x.totalSize := h.wf.bytes_length
  have hle := h.placed.pos_le h.wf
  unfold Refines seekIn Flat.seek
  rw [hlen]
  by_cases hneg : offset < 0
  · exact ⟨0,x,.param,[],if_pos hneg,h,if_pos hneg,fun _ => rfl⟩
  simp only [if_neg hneg]
  obtain ⟨n,rfl⟩ := Int.eq_ofNat_of_zero_le (by omega : 0 ≤ offset)
  by_cases hat : x.pos = n
  · refine ⟨0,x,.ok,[],if_pos (by omega),h,?_,fun _ => rfl⟩
    rw [if_neg (by omega),Int.toNat_natCast,← hat]
    rfl
  by_cases hfar : (x.totalSize : ℤ) < n
  · exact ⟨0,x,.size,[],by rw [if_neg (by omega),if_pos hfar],h,if_pos hfar,fun _ => rfl⟩
  simp only [if_neg hfar,if_neg (by omega : ¬(x.pos : ℤ) = n),Int.toNat_natCast]
  -- the loop runs from the start of the buffer or from the cursor
  have hloop : ∀ (y : Buf) (k : ℕ), Good y → y.bytes = x.bytes → y.pos+k = n →
      y.totalSize = x.totalSize → ∃ z code out,
        ((blockTurns (fun _ x (u : Unit) => (x,u)) k k y ()).map fun r => (r.1,NetErr.ok,[])) =
            some (z,code,out) ∧
          Good z ∧ ((⟨x.flat.bytes,n⟩ : Flat),NetErr.ok,([] : List Byte)) = (z.flat,code,out) ∧
          (code ≠ .ok → z = x) := by
    intro y k hy hbytes hk htotal
    have hadv := seekLoop_spec hy.wf hy.placed k (by omega)
    obtain ⟨hgood,hflat⟩ := good_advanced hy hadv
    rw [blockTurns_eq (fun _ x _ _ _ => .refl x) k le_rfl hy.wf hy.placed (by omega)]
    refine ⟨_,_,_,rfl,hgood,?_,fun hne => absurd rfl hne⟩
    rw [show (blockLoop (fun _ x (u : Unit) => (x,u)) k k y ()).1 = y.seekLoop k from rfl,hflat,
      Flat.skip,flat,flat,hbytes,hk]
  by_cases hback : (n : ℤ) < x.pos
  · simp only [if_pos hback]
    exact ⟨n,hloop _ n ⟨h.wf.resetAcc,.resetAcc h.wf,h.used⟩ rfl (Nat.zero_add n) rfl⟩
  · simp only [if_neg hback]
    exact ⟨n-x.pos,hloop x _ h rfl (by omega) rfl⟩

end Buf

open Buf

variable {bufs : ι → Buf}

theorem good_update (h : ∀ i, Good (bufs i)) {i : ι} {y : Buf} (hy : Good y) (j : ι) :
    Good (update bufs i y j) := by
  by_cases hj : j = i
  · rw [hj,Function.update_self]
    exact hy
  · rw [Function.update_of_ne hj]
    exact h j

theorem flat_update (i : ι) (y : Buf) :
    (fun j => (update bufs i y j).flat) = update (fun j => (bufs j).flat) i y.flat :=
  Function.comp_update Buf.flat bufs i y

theorem acts_onBuf {call : Call ι} {f : ℕ → Buf → Option (Buf × NetErr × List Byte)}
    {g : Flat → Flat × NetErr × List Byte} (h : ∀ i, Good (bufs i)) (buf : Option ι)
    (hexec : ∀ turns, call.exec turns bufs = onBuf bufs buf (f turns))
    (hcall : Flat.call (fun i => (bufs i).flat) call = Flat.onFlat (fun i => (bufs i).flat) buf g)
    (hf : ∀ i, (bufs i).Refines f g) : ∃ bufs', Acts bufs call bufs' := by
  cases buf with
  | none => exact ⟨bufs,0,.param,[],hexec 0,h,hcall,fun _ => rfl⟩
  | some i =>
    obtain ⟨turns,y,code,out,hy,hgood,hg,herr⟩ := hf i
    refine ⟨update bufs i y,turns,code,out,?_,good_update h hgood,?_,fun hne => ?_⟩
    · rw [hexec,onBuf,hy]
      rfl
    · rw [hcall,Flat.onFlat,hg,flat_update]
    · rw [herr hne,Function.update_eq_self]

/-! ### Copies -/

/-- Two buffers: the bytes ahead of the one are written to the other. -/
theorem copyTurns_spec {dest src : ι} (hne : dest ≠ src) {x₀ y₀ : Buf} (hx₀ : x₀.Wf) (hy₀ : y₀.Wf)
    {turns size k : ℕ} {done : List Byte} {bufs : ι → Buf} (hs : size ≤ turns)
    (hd : x₀.Wrote done (bufs dest)) (hk : y₀.Advanced k (bufs src))
    (hdone : done = y₀.ahead.take k) (hfit : (bufs dest).pos+size ≤ x₀.totalSize)
    (hfit' : (bufs src).pos+size ≤ y₀.totalSize) :
    ∃ bufs', copyTurns dest src turns size bufs = some bufs' ∧
      x₀.Wrote (y₀.ahead.take (k+size)) (bufs' dest) ∧ y₀.Advanced (k+size) (bufs' src) ∧
      ∀ i, i ≠ dest → i ≠ src → bufs' i = bufs i := by
  induction turns generalizing size k done bufs with
  | zero =>
    obtain rfl : size = 0 := by omega
    exact ⟨bufs,if_pos rfl,hdone ▸ hd,hk,fun _ _ _ => rfl⟩
  | succ turns ih =>
    rw [copyTurns]
    split
    next hz =>
      subst hz
      exact ⟨bufs,rfl,hdone ▸ hd,hk,fun _ _ _ => rfl⟩
    next hz =>
      have hrd := hd.placed.remain_pos (by rw [hd.total]; omega)
      have hrs := hk.placed.remain_pos (by rw [hk.total]; omega)
      generalize hn : min size (min (bufs dest).currBlkRemain (bufs src).currBlkRemain) = n
      obtain ⟨hpeek,hlen⟩ := hk.placed.peek_eq (n := n) (by omega)
      have hwrote := hd.step (l := (bufs src).peek n) hx₀
        (by rw [hx₀.bytes_length]; have := hd.pos; omega) (by omega)
      have hadv := hk.trans (hk.placed.moveForward (hk.wf hy₀) (n := n) (by omega))
      rw [hlen] at hwrote
      have hturn : copyTurn dest src n bufs =
          update (update bufs dest (((bufs dest).poke ((bufs src).peek n)).moveForward n)) src
            ((bufs src).moveForward n) := by
        simp only [copyTurn,Function.update_self,Function.update_idem,
          Function.update_of_ne hne.symm]
      have hdest : copyTurn dest src n bufs dest =
          ((bufs dest).poke ((bufs src).peek n)).moveForward n := by
        rw [hturn,Function.update_of_ne hne,Function.update_self]
      have hsrc : copyTurn dest src n bufs src = (bufs src).moveForward n := by
        rw [hturn,Function.update_self]
      rw [← hdest] at hwrote
      rw [← hsrc] at hadv
      obtain ⟨bufs',hrun,hw,ha,hrest⟩ := @ih (size-n) (k+n) _ _ (by omega)
        hwrote hadv
        (by rw [hpeek,hk.ahead,hdone,← List.take_add])
        (by rw [hwrote.pos,List.length_append,hlen]; have := hd.pos; omega)
        (by rw [hadv.pos]; have := hk.pos; omega)
      rw [show k+n+(size-n) = k+size by omega] at hw ha
      refine ⟨bufs',hrun,hw,ha,fun i hi hi' => (hrest i hi hi').trans ?_⟩
      rw [hturn,Function.update_of_ne hi',Function.update_of_ne hi]

theorem acts_copy_ne (h : ∀ i, Good (bufs i)) {dest src : ι} (hne : dest ≠ src) {n : ℕ}
    (hd : (bufs dest).pos+n ≤ (bufs dest).totalSize) (hs : (bufs src).pos+n ≤ (bufs src).totalSize) :
    ∃ bufs', copyTurns dest src n n bufs = some bufs' ∧ (∀ i, Good (bufs' i)) ∧
      (fun i => (bufs' i).flat) = update (update (fun i => (bufs i).flat) src ((bufs src).flat.skip n))
        dest ((bufs dest).flat.put ((bufs src).flat.get n)) := by
  obtain ⟨bufs',hrun,hw,ha,hrest⟩ := copyTurns_spec hne (h dest).wf (h src).wf (le_refl n)
    (.refl (h dest).placed) (.refl (h src).placed) rfl hd hs
  rw [Nat.zero_add] at hw ha
  obtain ⟨hgd,hfd⟩ := good_wrote (h dest) hw
  obtain ⟨hgs,hfs⟩ := good_advanced (h src) ha
  have hcase : ∀ i, i = dest ∨ i = src ∨ i ≠ dest ∧ i ≠ src := fun i => by
    by_cases h₁ : i = dest <;> by_cases h₂ : i = src <;> simp [h₁,h₂]
  refine ⟨bufs',hrun,fun i => ?_,funext fun i => ?_⟩
  · obtain rfl | rfl | ⟨hi,hi'⟩ := hcase i
    · exact hgd
    · exact hgs
    · rw [hrest i hi hi']
      exact h i
  · obtain rfl | rfl | ⟨hi,hi'⟩ := hcase i
    · rw [hfd,Function.update_self]
      rfl
    · rw [hfs,Function.update_of_ne hne.symm,Function.update_self]
    · rw [hrest i hi hi',Function.update_of_ne hi,Function.update_of_ne hi']

theorem copyTurn_self (i : ι) (n : ℕ) : copyTurn i i n bufs =
    update bufs i ((((bufs i).poke ((bufs i).peek n)).moveForward n).moveForward n) := by
  simp only [copyTurn,Function.update_self,Function.update_idem]

theorem pos_le_moveForward (x : Buf) (n : ℕ) : x.pos ≤ (x.moveForward n).pos := by
  unfold Buf.moveForward
  repeat' split
  all_goals simp

theorem moveForward_pos {x : Buf} {n : ℕ} (hn : x.currBlkRemain = 0 → n = 0) :
    (x.moveForward n).pos = x.pos+n := by
  unfold Buf.moveForward
  split
  next =>
    repeat' split
    all_goals simp [*]
  next hcurr =>
    have hnone : x.currBlock = none := by
      cases hb : x.currBlock with
      | none => rfl
      | some b =>
        cases hc : x.currBlk with
        | none => simp [currBlock,hc] at hb
        | some i => exact absurd hb (hcurr i b hc)
    rw [currBlkRemain,hnone] at hn
    simp [hn rfl]

theorem poke_currBlkRemain (x : Buf) (l : List Byte) :
    (x.poke l).currBlkRemain = x.currBlkRemain := by
  obtain ⟨hc,ho,-⟩ := poke_cursor (x := x) l
  unfold currBlkRemain currBlock
  rw [hc,ho]
  cases hcurr : x.currBlk with
  | none => rfl
  | some i =>
    simp only [Buf.poke,hcurr,Option.bind_some,List.getElem?_modify_eq]
    cases x.blkList[i]? <;> rfl

/-- A turn of a copy of a buffer to itself moves the cursor on, and again where it can. -/
theorem copyTurn_self_pos {i : ι} {n : ℕ} (hn : n ≤ (bufs i).currBlkRemain) :
    (bufs i).pos+n ≤ (copyTurn i i n bufs i).pos := by
  rw [copyTurn_self,Function.update_self]
  refine le_trans (le_of_eq ?_) (pos_le_moveForward _ n)
  rw [moveForward_pos (by rw [poke_currBlkRemain]; omega),(poke_cursor _).2.2]

theorem copyTurns_self_pos {i : ι} {turns size : ℕ} {bufs bufs' : ι → Buf}
    (hrun : copyTurns i i turns size bufs = some bufs') : (bufs i).pos+size ≤ (bufs' i).pos := by
  induction turns generalizing size bufs with
  | zero =>
    rw [copyTurns] at hrun
    split at hrun
    next hz => simp_all
    next => cases hrun
  | succ turns ih =>
    rw [copyTurns] at hrun
    split at hrun
    next hz => simp_all
    next hz =>
      have hturn := @copyTurn_self_pos _ _ bufs i
        (min size (min (bufs i).currBlkRemain (bufs i).currBlkRemain)) (by omega)
      have := ih hrun
      omega

theorem moveForward_finish {x : Buf} (h : x.Placed) (hw : x.Wf) (hp : x.pos = x.totalSize) (n : ℕ) :
    x.moveForward n = x := by
  cases h with
  | finish curr pos => simp [Buf.moveForward,curr]
  | inside front b behind list curr low high pos =>
    rw [hw.total,list,blkTotal_append,blkTotal_cons] at hp
    omega

/-- A copy of a buffer to itself acts on its bytes if and only if one turn reaches the end: only
then the second move finds no block. -/
theorem copy_self_iff (h : ∀ i, Good (bufs i)) {i : ι} {n : ℕ} (hn : 0 < n)
    (hfit : (bufs i).pos+n ≤ (bufs i).totalSize) :
    (∃ turns bufs', copyTurns i i turns n bufs = some bufs' ∧ (∀ j, Good (bufs' j)) ∧
      (fun j => (bufs' j).flat) =
        update (fun j => (bufs j).flat) i ((bufs i).flat.put ((bufs i).flat.get n))) ↔
      (bufs i).pos+n = (bufs i).totalSize ∧ n = (bufs i).currBlkRemain := by
  have hget : ((bufs i).flat.get n).length = n := by
    have := (h i).wf.bytes_length
    simp [Flat.get,Buf.flat]
    omega
  have hpos := (h i).placed.remain_pos (by omega)
  -- the buffer after the first of the two moves of a turn
  have hmove : ∀ m, m ≤ (bufs i).currBlkRemain →
      (bufs i).Wrote ((bufs i).flat.get m) (((bufs i).poke ((bufs i).peek m)).moveForward m) := by
    intro m hm
    obtain ⟨hpeek,hlen⟩ := (h i).placed.peek_eq hm
    have hw := (Wrote.refl (h i).placed).step (l := (bufs i).peek m) (h i).wf
      (by rw [(h i).wf.bytes_length]; omega) (by omega)
    rw [hlen,List.nil_append,hpeek] at hw
    rw [hpeek]
    exact hw
  constructor
  · rintro ⟨turns,bufs',hrun,-,hflat⟩
    have hfinal : (bufs' i).pos = (bufs i).pos+n := by
      have hi := congrArg Flat.pos (congrFun hflat i)
      rw [Function.update_self] at hi
      exact hi.trans (by rw [Flat.put,hget]; rfl)
    cases turns with
    | zero =>
      rw [copyTurns,if_neg (by omega)] at hrun
      cases hrun
    | succ turns =>
      rw [copyTurns,if_neg (by omega),Nat.min_self] at hrun
      have hlast := copyTurns_self_pos hrun
      generalize hm : min n (bufs i).currBlkRemain = m at *
      have hw := hmove m (by omega)
      have hyp : (((bufs i).poke ((bufs i).peek m)).moveForward m).pos = (bufs i).pos+m := by
        rw [moveForward_pos (by rw [poke_currBlkRemain]; omega),(poke_cursor _).2.2]
      have hend : (bufs i).pos+m = (bufs i).totalSize := by
        by_contra hne
        have hrem := hw.placed.remain_pos (by rw [hyp,hw.total]; omega)
        rw [copyTurn_self,Function.update_self,moveForward_pos (by omega),hyp] at hlast
        omega
      have hall := (h i).placed.moveForward (h i).wf (le_refl (bufs i).currBlkRemain)
      have hle := hall.placed.pos_le (hall.wf (h i).wf)
      rw [hall.pos,hall.total] at hle
      omega
  · rintro ⟨hend,hblk⟩
    have hw := hmove n (by omega)
    have hgood := good_wrote (h i) hw
    have hturn : copyTurn i i n bufs =
        update bufs i (((bufs i).poke ((bufs i).peek n)).moveForward n) := by
      rw [copyTurn_self,moveForward_finish hgood.1.placed hgood.1.wf
        (by rw [hw.pos,hw.total,hget,hend])]
    refine ⟨1,copyTurn i i n bufs,?_,hturn ▸ good_update h hgood.1,?_⟩
    · rw [copyTurns,if_neg (by omega),Nat.min_self,← hblk,Nat.min_self]
      exact if_pos (Nat.sub_self n)
    · rw [hturn,flat_update,hgood.2]

theorem acts_copy_iff (h : ∀ i, Good (bufs i)) (dest src : ι) (size : ℤ) :
    (∃ bufs', Acts bufs (.copy (some dest) (some src) size) bufs') ↔
      (Call.copy (some dest) (some src) size).Apart bufs := by
  have hlen : ∀ i, (bufs i).flat.bytes.length = (bufs i).totalSize := fun i => (h i).wf.bytes_length
  have hpos : ∀ i, (bufs i).flat.pos = (bufs i).pos := fun _ => rfl
  have hle := fun i => (h i).placed.pos_le (h i).wf
  have hremain : ∀ i, (bufs i).totalBlkRemain = (bufs i).totalSize-(bufs i).pos := fun _ => rfl
  have hd := hremain dest
  have hs := hremain src
  by_cases hsmall : size ≤ 0
  · refine iff_of_true ?_ fun _ => .inl hsmall
    by_cases hneg : size < 0
    · exact ⟨bufs,0,.param,[],if_pos hneg,h,if_pos hneg,fun _ => rfl⟩
    · obtain rfl : size = 0 := by omega
      refine ⟨bufs,0,.ok,[],rfl,h,?_,fun _ => rfl⟩
      have := hle dest
      have := hle src
      simp only [Flat.call,hlen,hpos]
      rw [if_neg (by omega),if_neg (by omega)]
      simp [Flat.skip,Flat.put,Flat.get]
  by_cases hshort : (bufs dest).totalBlkRemain < size ∨ (bufs src).totalBlkRemain < size
  · refine iff_of_true ⟨bufs,0,.size,[],?_,h,?_,fun _ => rfl⟩ ?_
    · simp only [Call.exec,copyIn]
      rw [if_neg (by omega),if_neg (by omega),if_pos hshort]
    · simp only [Flat.call,hlen,hpos]
      rw [if_neg (by omega),if_pos (by omega)]
    · rintro rfl
      exact .inr (.inl (by omega))
  obtain ⟨n,rfl⟩ := Int.eq_ofNat_of_zero_le (by omega : 0 ≤ size)
  have hexec : ∀ turns, (Call.copy (some dest) (some src) n).exec turns bufs =
      (copyTurns dest src turns n bufs).map fun bufs => (bufs,.ok,[]) := by
    intro turns
    simp only [Call.exec,copyIn]
    rw [if_neg (by omega),if_neg (by omega),if_neg hshort,Int.toNat_natCast]
  have hcall : Flat.call (fun i => (bufs i).flat) (.copy (some dest) (some src) n) =
      (update (update (fun i => (bufs i).flat) src ((bufs src).flat.skip n)) dest
        ((bufs dest).flat.put ((bufs src).flat.get n)),.ok,[]) := by
    simp only [Flat.call,hlen,hpos]
    rw [if_neg (by omega),if_neg (by omega),Int.toNat_natCast]
  have hacts : (∃ bufs', Acts bufs (.copy (some dest) (some src) n) bufs') ↔
      ∃ turns bufs', copyTurns dest src turns n bufs = some bufs' ∧ (∀ i, Good (bufs' i)) ∧
        (fun i => (bufs' i).flat) = update (update (fun i => (bufs i).flat) src
          ((bufs src).flat.skip n)) dest ((bufs dest).flat.put ((bufs src).flat.get n)) := by
    constructor
    · rintro ⟨bufs',turns,code,out,hrun,hgood,hflat,-⟩
      rw [hexec,Option.map_eq_some_iff] at hrun
      obtain ⟨_,hrun,rfl,-⟩ := hrun
      rw [hcall] at hflat
      exact ⟨turns,bufs',hrun,hgood,(Prod.mk.inj hflat).1.symm⟩
    · rintro ⟨turns,bufs',hrun,hgood,hflat⟩
      exact ⟨bufs',turns,.ok,[],by rw [hexec,hrun]; rfl,hgood,by rw [hcall,hflat],
        fun hne => absurd rfl hne⟩
  rw [hacts]
  by_cases hne : dest = src
  · subst hne
    simp only [Function.update_idem]
    rw [copy_self_iff h (by omega) (by omega)]
    constructor
    · exact fun ⟨hend,hblk⟩ _ => .inr (.inr ⟨by omega,by omega⟩)
    · intro hap
      obtain hz | hlt | ⟨hend,hblk⟩ := hap rfl
      · omega
      · omega
      · exact ⟨by omega,by omega⟩
  · obtain ⟨bufs',hrun⟩ := acts_copy_ne h hne (n := n) (by omega) (by omega)
    exact iff_of_true ⟨n,bufs',hrun⟩ fun heq => absurd heq hne

/-- A call acts on the flat buffers if and only if it copies no buffer to itself. -/
theorem acts_iff (h : ∀ i, Good (bufs i)) (call : Call ι) :
    (∃ bufs', Acts bufs call bufs') ↔ call.Apart bufs := by
  cases call with
  | resetAcc buf =>
    refine iff_of_true ?_ trivial
    cases buf with
    | none => exact ⟨bufs,0,.ok,[],rfl,h,rfl,fun _ => rfl⟩
    | some i =>
      have hgood : Good (bufs i).pktbufResetAcc := ⟨(h i).wf.resetAcc,.resetAcc (h i).wf,(h i).used⟩
      exact ⟨_,0,.ok,[],rfl,good_update h hgood,by rw [flat_update]; rfl,fun hne => absurd rfl hne⟩
  | seek buf offset =>
    exact iff_of_true
      (acts_onBuf h buf (fun _ => rfl) rfl fun i => seekIn_refines (h i) offset) trivial
  | read buf null size =>
    exact iff_of_true
      (acts_onBuf h buf (fun _ => rfl) rfl fun i => readIn_refines (h i) null size) trivial
  | write buf src size =>
    exact iff_of_true
      (acts_onBuf h buf (fun _ => rfl) rfl fun i => writeIn_refines (h i) src size) trivial
  | fill buf v size =>
    exact iff_of_true
      (acts_onBuf h buf (fun _ => rfl) rfl fun i => fillIn_refines (h i) v size) trivial
  | copy dest src size =>
    cases dest with
    | none => exact iff_of_true ⟨bufs,0,.param,[],rfl,h,rfl,fun _ => rfl⟩ trivial
    | some dest =>
      cases src with
      | none => exact iff_of_true ⟨bufs,0,.param,[],rfl,h,rfl,fun _ => rfl⟩ trivial
      | some src => exact acts_copy_iff h dest src size

/-! ### Sequences of calls -/

/-- No call of a sequence copies a buffer to itself, whatever the calls before it gave. -/
def RunApart : List (Call ι) → (ι → Buf) → Prop
  | [], _ => True
  | call :: calls, bufs => call.Apart bufs ∧
      ∀ turns bufs' r, call.exec turns bufs = some (bufs',r) → RunApart calls bufs'

/-- Every call of a sequence acts on the flat buffers. -/
def RunActs : List (Call ι) → (ι → Buf) → Prop
  | [], _ => True
  | call :: calls, bufs => ∃ bufs', Acts bufs call bufs' ∧ RunActs calls bufs'

/-- From good buffers a call acts on their bytes if and only if it copies no buffer to itself, and
so does every call of a sequence without such copies. -/
theorem cursor_calls_iff (h : ∀ i, Good (bufs i)) :
    (∀ call, (∃ bufs', Acts bufs call bufs') ↔ call.Apart bufs) ∧
      ∀ calls, RunApart calls bufs → RunActs calls bufs := by
  refine ⟨acts_iff h,fun calls => ?_⟩
  induction calls generalizing bufs with
  | nil => exact fun _ => trivial
  | cons call calls ih =>
    rintro ⟨hap,hrest⟩
    obtain ⟨bufs',hacts⟩ := (acts_iff h call).2 hap
    have ⟨turns,code,out,hexec,hgood,_⟩ := hacts
    exact ⟨bufs',hacts,ih hgood (hrest turns bufs' _ hexec)⟩

/-- A buffer with one block of three bytes. -/
def threeBytes : Buf := ⟨3,[⟨0,3,0,fun _ => 0⟩],1,0,some 0,0⟩

theorem threeBytes_good (_ : Unit) : Good threeBytes := by
  refine ⟨⟨rfl,?_⟩,.inside [] _ [] rfl rfl (by decide) (by decide) rfl,by decide⟩
  intro b hb
  obtain rfl := List.mem_singleton.1 hb
  exact ⟨by decide,by decide⟩

theorem threeBytes_calls :
    RunActs [.copy (some ()) (some ()) 3,.seek (some ()) 1,.copy (some ()) (some ()) (-1)]
      (fun _ : Unit => threeBytes) :=
  (cursor_calls_iff threeBytes_good).2 _ ⟨fun _ => .inr (.inr (by decide)),fun _ _ _ _ =>
    ⟨trivial,fun _ _ _ _ => ⟨fun _ => .inl (by decide),fun _ _ _ _ => trivial⟩⟩⟩

/-- Two of three bytes copied from the buffer to itself. -/
theorem copy_self_diverges :
    ¬∃ bufs', Acts (fun _ : Unit => threeBytes) (.copy (some ()) (some ()) 2) bufs' := by
  rw [acts_iff threeBytes_good]
  intro h
  exact absurd (h rfl) (by decide)

end Pktbuf
end QuardStarNet
