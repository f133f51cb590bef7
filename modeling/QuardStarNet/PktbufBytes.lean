import QuardStarNet.Pktbuf
import Mathlib.Data.List.Perm.Basic

/-! Packet buffers refine byte sequences. -/
namespace QuardStarNet
namespace Pktbuf

open Windows

/-- A block of a buffer is not empty and its window lies inside its payload. -/
structure Pktblk.Fits (b : Pktblk) : Prop where
  pos : 0 < b.size
  bound : b.data+b.size ≤ pktbufBlkSize

/-- The representation invariant of a buffer. -/
structure Buf.Wf (x : Buf) : Prop where
  total : x.totalSize = blkTotal x.blkList
  fits : ∀ b ∈ x.blkList, b.Fits

/-- The blocks of a list, by their place in `block_buffer`. -/
def ids (l : List Pktblk) : List ℕ := l.map Pktblk.id

@[simp] theorem ids_nil : ids [] = [] := rfl
@[simp] theorem ids_cons (b : Pktblk) (l : List Pktblk) : ids (b :: l) = b.id :: ids l := rfl
@[simp] theorem ids_append (l l' : List Pktblk) : ids (l++l') = ids l++ids l' := List.map_append

@[simp] theorem blkTotal_nil : blkTotal [] = 0 := rfl
@[simp] theorem blkTotal_cons (b : Pktblk) (l : List Pktblk) :
    blkTotal (b :: l) = b.size+blkTotal l := rfl
@[simp] theorem blkTotal_append (l l' : List Pktblk) :
    blkTotal (l++l') = blkTotal l+blkTotal l' := by simp [blkTotal]

@[simp] theorem blkBytes_nil : blkBytes [] = [] := rfl
@[simp] theorem blkBytes_cons (b : Pktblk) (l : List Pktblk) :
    blkBytes (b :: l) = b.bytes++blkBytes l := rfl
@[simp] theorem blkBytes_append (l l' : List Pktblk) :
    blkBytes (l++l') = blkBytes l++blkBytes l' := List.flatMap_append

@[simp] theorem Pktblk.bytes_length (b : Pktblk) : b.bytes.length = b.size := window_length _ _ _

@[simp] theorem blkBytes_length (l : List Pktblk) : (blkBytes l).length = blkTotal l := by
  induction l with
  | nil => rfl
  | cons b l ih => simp [ih]

theorem Buf.Wf.bytes_length {x : Buf} (h : x.Wf) : x.bytes.length = x.totalSize := by
  rw [h.total,Buf.bytes,blkBytes_length]

/-! The loops. -/

/-- One turn of `pktblock_alloc_list` adds a block at one end. -/
theorem alloc_next (addFront : Bool) (new : Pktblk) (blks : List Pktblk) :
    (ids (if addFront then new :: blks else blks++[new])).Perm (new.id :: ids blks) ∧
      blkTotal (if addFront then new :: blks else blks++[new]) = new.size+blkTotal blks ∧
      ∀ b ∈ (if addFront then new :: blks else blks++[new]), b = new ∨ b ∈ blks := by
  cases addFront with
  | true => simp
  | false =>
    simp only [Bool.false_eq_true,if_false,ids_append,ids_cons,ids_nil,blkTotal_append,
      blkTotal_cons,blkTotal_nil,List.mem_append,List.mem_singleton]
    exact ⟨List.perm_append_singleton _ _,by omega,fun b hb => hb.symm⟩

theorem allocLoop_some {addFront : Bool} {free free' blks blks' : List Pktblk} {size : ℕ}
    (h : allocLoop addFront free size blks = (free',some blks')) (hb : ∀ b ∈ blks, b.Fits) :
    (ids free'++ids blks').Perm (ids free++ids blks) ∧ blkTotal blks' = blkTotal blks+size ∧
      ∀ b ∈ blks', b.Fits := by
  induction free generalizing size blks with
  | nil =>
    cases size with
    | zero =>
      cases h
      exact ⟨.refl _,rfl,hb⟩
    | succ size => cases h
  | cons b free ih =>
    cases size with
    | zero =>
      cases h
      exact ⟨.refl _,rfl,hb⟩
    | succ size =>
      have hblk : pktbufBlkSize = 1024 := rfl
      rw [allocLoop] at h
      obtain ⟨hids,htot,hmem⟩ := alloc_next addFront { b with
        size := min (size+1) pktbufBlkSize
        data := if addFront then pktbufBlkSize-min (size+1) pktbufBlkSize else 0 } blks
      obtain ⟨hp,ht,hf⟩ := ih h fun c hc => by
        rcases hmem c hc with rfl | hc
        · exact ⟨by simp only; omega,by dsimp only; split <;> omega⟩
        · exact hb c hc
      refine ⟨hp.trans ((hids.append_left _).trans List.perm_middle),?_,hf⟩
      rw [ht,htot]
      dsimp only
      omega

theorem allocLoop_none {addFront : Bool} {free free' blks : List Pktblk} {size : ℕ}
    (h : allocLoop addFront free size blks = (free',none)) :
    (ids free').Perm (ids free++ids blks) ∧ pktbufBlkSize*free.length < size := by
  induction free generalizing size blks with
  | nil =>
    cases size with
    | zero => cases h
    | succ size =>
      cases h
      exact ⟨.refl _,by simp⟩
  | cons b free ih =>
    cases size with
    | zero => cases h
    | succ size =>
      rw [allocLoop] at h
      obtain ⟨hp,hlt⟩ := ih h
      refine ⟨hp.trans (((alloc_next addFront _ blks).1.append_left _).trans List.perm_middle),?_⟩
      rw [List.length_cons,Nat.mul_succ]
      omega

/-- The bytes kept by `pktbuf_remove_header`. -/
theorem removeLoop_spec {size total : ℕ} {l : List Pktblk} (hl : ∀ b ∈ l, b.Fits)
    (hs : size ≤ blkTotal l) (ht : total = blkTotal l) :
    let r := removeLoop size l total
    ids r.1++ids r.2.1 = ids l ∧ blkBytes r.2.1 = (blkBytes l).drop size ∧
      r.2.2 = blkTotal r.2.1 ∧ ∀ b ∈ r.2.1, b.Fits := by
  induction l generalizing size total with
  | nil => simp [removeLoop,ht]
  | cons b l ih =>
    have hb := hl b (by simp)
    have hl' : ∀ c ∈ l, c.Fits := fun c hc => hl c (by simp [hc])
    rw [blkTotal_cons] at hs ht
    unfold removeLoop
    split
    next h => exact ⟨rfl,by simp [h],by simp [ht],hl⟩
    next h =>
      split
      next hlt =>
        refine ⟨rfl,?_,?_,fun c hc => ?_⟩
        · rw [blkBytes_cons,blkBytes_cons,List.drop_append_of_le_length (by simp; omega),
            Pktblk.bytes,Pktblk.bytes,drop_window _ _ (Nat.le_of_lt hlt)]
        · simp only [blkTotal_cons]
          omega
        · rcases List.mem_cons.1 hc with rfl | hc
          · have := hb.bound
            exact ⟨by simp only; omega,by simp only; omega⟩
          · exact hl' c hc
      next hge =>
        have hs' : size-b.size ≤ blkTotal l := by omega
        have ht' : total-b.size = blkTotal l := by omega
        obtain ⟨h₁,h₂,h₃,h₄⟩ := ih hl' hs' ht'
        refine ⟨by simp [h₁],?_,h₃,h₄⟩
        have hz : b.bytes.drop size = [] := List.drop_of_length_le (by simp; omega)
        rw [h₂,blkBytes_cons,List.drop_append,Pktblk.bytes_length,hz,List.nil_append]

theorem findTail_some {toSize total : ℕ} {l front behind : List Pktblk} {tail : Pktblk}
    (h : findTail toSize total l = some (front,tail,behind)) :
    l = front++tail :: behind ∧ toSize ≤ total+blkTotal front+tail.size ∧
      (front ≠ [] ∨ total < toSize → total+blkTotal front < toSize) := by
  induction l generalizing total front with
  | nil => cases h
  | cons b l ih =>
    unfold findTail at h
    split at h
    next hle =>
      cases h
      exact ⟨rfl,by simpa using hle,fun h => by simpa using h⟩
    next hgt =>
      obtain ⟨⟨front',tail',behind'⟩,hr,he⟩ := Option.map_eq_some_iff.1 h
      cases he
      obtain ⟨rfl,h₁,h₂⟩ := ih hr
      refine ⟨rfl,by simp only [blkTotal_cons]; omega,fun _ => ?_⟩
      have := h₂ (.inr (by omega))
      simp only [blkTotal_cons]
      omega

theorem findTail_none {toSize total : ℕ} {l : List Pktblk} (h : findTail toSize total l = none) :
    l = [] ∨ total+blkTotal l < toSize := by
  induction l generalizing total with
  | nil => exact .inl rfl
  | cons b l ih =>
    unfold findTail at h
    split at h
    next => cases h
    next hgt =>
      rcases ih (Option.map_eq_none_iff.1 h) with rfl | h
      · exact .inr (by simp; omega)
      · exact .inr (by simp only [blkTotal_cons]; omega)

/-- The bytes moved by `pktbuf_set_cont` are those behind the first block. -/
theorem contLoop_spec {remain : ℕ} {l : List Pktblk} (hl : ∀ b ∈ l, b.Fits)
    (hs : remain ≤ blkTotal l) (dest : ℕ) (payload : ℕ → Byte) :
    let r := contLoop remain dest payload l
    (ids r.2.2.1++ids r.2.2.2).Perm (ids l) ∧ r.2.1 = remain ∧
      window r.1 0 dest = window payload 0 dest ∧
      window r.1 dest remain++blkBytes r.2.2.2 = blkBytes l ∧
      ∀ b ∈ r.2.2.2, b.Fits := by
  induction l generalizing remain dest payload with
  | nil =>
    have : remain = 0 := by simpa using hs
    subst this
    simp [contLoop]
  | cons c l ih =>
    have hc := hl c (by simp)
    have hl' : ∀ b ∈ l, b.Fits := fun b hb => hl b (by simp [hb])
    rw [blkTotal_cons] at hs
    unfold contLoop
    by_cases hr : remain = 0
    · subst hr
      simpa using hl
    rw [if_neg hr]
    by_cases hn : c.size ≤ remain
    · -- the whole block moves
      obtain ⟨k,rfl⟩ := Nat.exists_eq_add_of_le hn
      have hmin : min c.size (c.size+k) = c.size := Nat.min_eq_left hn
      have hself := window_write_self payload dest (window c.payload c.data c.size)
      rw [window_length] at hself
      have hbefore : window (write payload dest (window c.payload c.data c.size)) 0 dest =
          window payload 0 dest := window_write_before (by omega)
      dsimp only
      rw [hmin,if_pos (Nat.sub_self _),Nat.add_sub_cancel_left]
      generalize write payload dest (window c.payload c.data c.size) = payload' at *
      obtain ⟨h₁,h₂,h₃,h₄,h₅⟩ := @ih k hl' (by omega) (dest+c.size) payload'
      generalize contLoop k (dest+c.size) payload' l = r at *
      rw [window_add,window_add,Nat.zero_add] at h₃
      obtain ⟨h₃,h₃'⟩ := List.append_inj h₃ (by simp)
      refine ⟨by simpa using h₁,by rw [h₂],h₃.trans hbefore,?_,h₅⟩
      rw [window_add,h₃',hself,List.append_assoc,h₄]
      rfl
    · -- the front of the block moves and the loop ends
      have hmin : min c.size remain = remain := Nat.min_eq_right (by omega)
      dsimp only
      rw [hmin,if_neg (by omega)]
      have hlen : (window c.payload c.data remain).length = remain := window_length _ _ _
      have hself := window_write_self payload dest (window c.payload c.data remain)
      rw [hlen] at hself
      have hsplit : c.size = remain+(c.size-remain) := by omega
      refine ⟨.refl _,rfl,window_write_before (by omega),?_,fun b hb => ?_⟩
      · rw [hself,blkBytes_cons,blkBytes_cons,← List.append_assoc]
        congr 1
        rw [Pktblk.bytes,Pktblk.bytes,← window_add,← hsplit]
      · rcases List.mem_cons.1 hb with rfl | hb
        · have := hc.bound
          exact ⟨by simp only; omega,by simp only; omega⟩
        · exact hl' b hb

theorem pktblockAllocList_some {size : ℕ} {addFront : Bool} {free free' blks : List Pktblk}
    (h : pktblockAllocList size addFront free = (free',some blks)) :
    (ids free'++ids blks).Perm (ids free) ∧ blkTotal blks = size ∧ ∀ b ∈ blks, b.Fits := by
  obtain ⟨hp,ht,hf⟩ := allocLoop_some h (by simp)
  exact ⟨by simpa using hp,by simpa using ht,hf⟩

theorem pktblockAllocList_none {size : ℕ} {addFront : Bool} {free free' : List Pktblk}
    (h : pktblockAllocList size addFront free = (free',none)) :
    (ids free').Perm (ids free) ∧ pktbufBlkSize*free.length < size := by
  obtain ⟨hp,hlt⟩ := allocLoop_none h
  exact ⟨by simpa using hp,hlt⟩

/-! Operations on one buffer. -/

/-- The operation conserves the blocks, the representation invariant and the references. -/
structure Keeps (free : List Pktblk) (x : Buf) (r : List Pktblk × Buf) : Prop where
  blocks : (ids r.1++ids r.2.blkList).Perm (ids free++ids x.blkList)
  wf : r.2.Wf
  ref : r.2.ref = x.ref

section Operations

variable {x : Buf} {free : List Pktblk}

@[simp] theorem Buf.pktbufResetAcc_blkList (x : Buf) : x.pktbufResetAcc.blkList = x.blkList := rfl
@[simp] theorem Buf.pktbufResetAcc_bytes (x : Buf) : x.pktbufResetAcc.bytes = x.bytes := rfl

theorem Buf.Wf.resetAcc (h : x.Wf) : x.pktbufResetAcc.Wf := ⟨h.total,h.fits⟩

theorem Keeps.refl (h : x.Wf) : Keeps free x (free,x) := ⟨.refl _,h,rfl⟩

/-- New blocks at one end of a buffer; a failed allocation only changes the order of the free
list. -/
theorem allocInsert_spec {y : Buf} (h : x.Wf) (hy : y.Wf) (hi : ids y.blkList = ids x.blkList)
    (hr : y.ref = x.ref) (free : List Pktblk) (size : ℕ) (addLast : Bool) :
    let r := x.allocInsert y free size addLast
    Keeps free x r.1 ∧
      (r.2 = .ok → ∃ new : List Byte, new.length = size ∧
        r.1.2.bytes = if addLast then y.bytes++new else new++y.bytes) ∧
      (r.2 ≠ .ok → r.1.2 = x) ∧ (size ≤ pktbufBlkSize*free.length → r.2 = .ok) := by
  unfold Buf.allocInsert
  split
  next free' ha =>
    obtain ⟨hp,hlt⟩ := pktblockAllocList_none ha
    exact ⟨⟨hp.append_right _,h,rfl⟩,nofun,fun _ => rfl,fun hs => absurd hlt (by omega)⟩
  next free' blks ha =>
    obtain ⟨hp,ht,hf⟩ := pktblockAllocList_some ha
    refine ⟨⟨?_,Buf.Wf.resetAcc ⟨?_,fun b hb => ?_⟩,hr⟩,fun _ => ⟨blkBytes blks,by simp [ht],?_⟩,
      fun hn => absurd rfl hn,fun _ => rfl⟩
    · have hfront : (ids free'++(ids blks++ids x.blkList)).Perm (ids free++ids x.blkList) := by
        rw [← List.append_assoc]
        exact hp.append_right _
      cases addLast with
      | true =>
        simp only [Buf.pktbufResetAcc_blkList,Buf.pktbufInsertBlkList,if_true,ids_append,hi]
        exact (List.perm_append_comm.append_left _).trans hfront
      | false => simpa [Buf.pktbufInsertBlkList,hi] using hfront
    · cases addLast <;> simp [Buf.pktbufInsertBlkList,hy.total,Nat.add_comm]
    · have : b ∈ y.blkList ∨ b ∈ blks := by
        cases addLast <;> simp [Buf.pktbufInsertBlkList] at hb <;> tauto
      exact this.elim (hy.fits b) (hf b)
    · cases addLast <;> simp [Buf.bytes,Buf.pktbufInsertBlkList]

/-- The first block of a buffer takes `n` bytes more in front of its window. -/
theorem Buf.Wf.extendFront {b : Pktblk} {l : List Pktblk} {n : ℕ} (h : x.Wf)
    (hx : x.blkList = b :: l) (hn : n ≤ b.data) :
    ({ x with blkList := { b with size := b.size+n, data := b.data-n } :: l,
              totalSize := x.totalSize+n } : Buf).Wf := by
  have hb := h.fits b (by simp [hx])
  refine ⟨?_,fun c hc => ?_⟩
  · simp only [h.total,hx,blkTotal_cons]
    omega
  · rcases List.mem_cons.1 hc with rfl | hc
    · have := hb.pos
      have := hb.bound
      exact ⟨by simp only; omega,by simp only; omega⟩
    · exact h.fits c (by simp [hx,hc])

/-- The window of the first block grows towards the front. -/
theorem bytes_extendFront {b : Pktblk} {n : ℕ} (hn : n ≤ b.data) :
    ({ b with size := b.size+n, data := b.data-n } : Pktblk).bytes =
      window b.payload (b.data-n) n++b.bytes := by
  simp only [Pktblk.bytes]
  rw [Nat.add_comm b.size n,window_add,Nat.sub_add_cancel hn]

/-- `pktbuf_add_header` puts `size` bytes in front. -/
theorem addHeader_spec (h : x.Wf) (free : List Pktblk) (size : ℕ) (cont : Bool) :
    let r := x.addHeader free size cont
    Keeps free x r.1 ∧
      (r.2 = .ok → ∃ header, header.length = size ∧ r.1.2.bytes = header++x.bytes) ∧
      (r.2 ≠ .ok → r.1.2 = x) ∧
      (size ≤ pktbufBlkSize*free.length → (cont = true → size ≤ pktbufBlkSize) → r.2 = .ok) := by
  unfold Buf.addHeader
  split
  next hx =>
    obtain ⟨h₁,h₂,h₃,h₄⟩ := allocInsert_spec h h rfl rfl free size false
    exact ⟨h₁,h₂,h₃,fun hs _ => h₄ hs⟩
  next block l hx =>
    dsimp only
    split
    next hs =>
      refine ⟨⟨by simp [hx],(h.extendFront hx hs).resetAcc,rfl⟩,fun _ => ?_,
        fun hn => absurd rfl hn,fun _ _ => rfl⟩
      refine ⟨window block.payload (block.data-size) size,window_length _ _ _,?_⟩
      rw [Buf.pktbufResetAcc_bytes,Buf.bytes,Buf.bytes,hx,blkBytes_cons,blkBytes_cons,
        bytes_extendFront hs,List.append_assoc]
    next hs =>
      split
      next hc =>
        split
        next hlt => exact ⟨.refl h,nofun,fun _ => rfl,fun _ hle => absurd (hle hc) (by omega)⟩
        next =>
          obtain ⟨h₁,h₂,h₃,h₄⟩ := allocInsert_spec h h rfl rfl free size false
          exact ⟨h₁,h₂,h₃,fun hs _ => h₄ hs⟩
      next hc =>
        have hwf := h.extendFront hx (Nat.le_refl block.data)
        have hb := bytes_extendFront (Nat.le_refl block.data)
        rw [Nat.sub_self] at hwf hb
        obtain ⟨h₁,h₂,h₃,h₄⟩ := allocInsert_spec h hwf (by simp [hx]) rfl free
          (size-block.data) false
        refine ⟨h₁,fun hok => ?_,h₃,fun hle _ => h₄ (by omega)⟩
        obtain ⟨new,hlen,hbytes⟩ := h₂ hok
        refine ⟨new++window block.payload 0 block.data,by simp [hlen]; omega,hbytes.trans ?_⟩
        simp [Buf.bytes,hx,hb]

theorem pktbufAddHeader_spec (h : x.Wf) (free : List Pktblk) (size : ℤ) (cont : Bool) :
    let r := x.pktbufAddHeader free size cont
    Keeps free x r.1 ∧
      (r.2 = .ok → ∃ header : List Byte, header.length = size ∧ r.1.2.bytes = header++x.bytes) ∧
      (r.2 ≠ .ok → r.1.2 = x) ∧
      (0 ≤ size → size ≤ pktbufBlkSize*free.length → (cont = true → size ≤ pktbufBlkSize) →
        r.2 = .ok) := by
  unfold Buf.pktbufAddHeader
  split
  next hneg => exact ⟨.refl h,nofun,fun _ => rfl,fun hs => absurd hneg (by omega)⟩
  next hneg =>
    split
    next hz => exact ⟨.refl h,fun _ => ⟨[],by simp [hz],rfl⟩,fun hn => absurd rfl hn,fun _ _ _ => rfl⟩
    next hz =>
      obtain ⟨n,rfl⟩ := Int.eq_ofNat_of_zero_le (Int.not_lt.1 hneg)
      rw [Int.toNat_natCast]
      obtain ⟨h₁,h₂,h₃,h₄⟩ := addHeader_spec h free n cont
      refine ⟨h₁,fun hok => ?_,h₃,fun _ hs hc => h₄ (by exact_mod_cast hs)
        fun hcont => by exact_mod_cast hc hcont⟩
      obtain ⟨header,hlen,hbytes⟩ := h₂ hok
      exact ⟨header,by rw [hlen],hbytes⟩

/-- `pktbuf_remove_header` drops bytes from the front. -/
theorem pktbufRemoveHeader_spec (h : x.Wf) (free : List Pktblk) (size : ℤ) :
    let r := x.pktbufRemoveHeader free size
    Keeps free x r.1 ∧ (r.2 = .ok → r.1.2.bytes = x.bytes.drop size.toNat) ∧
      (r.2 ≠ .ok → r.1.2 = x) ∧ (r.2 = .ok ↔ 0 ≤ size ∧ size ≤ x.bytes.length) := by
  rw [h.bytes_length]
  unfold Buf.pktbufRemoveHeader
  split
  next hneg => exact ⟨.refl h,nofun,fun _ => rfl,by simp; omega⟩
  next hneg =>
    split
    next hz =>
      subst hz
      exact ⟨.refl h,fun _ => rfl,fun hn => absurd rfl hn,by simp⟩
    next hz =>
      split
      next hlt => exact ⟨.refl h,nofun,fun _ => rfl,by simp; omega⟩
      next hlt =>
        obtain ⟨n,rfl⟩ := Int.eq_ofNat_of_zero_le (Int.not_lt.1 hneg)
        have hn : n ≤ blkTotal x.blkList := by rw [← h.total]; omega
        rw [Int.toNat_natCast]
        obtain ⟨h₁,h₂,h₃,h₄⟩ := removeLoop_spec h.fits hn h.total
        refine ⟨⟨?_,Buf.Wf.resetAcc ⟨h₃,h₄⟩,rfl⟩,fun _ => h₂,fun hn => absurd rfl hn,by simp; omega⟩
        simp only [Buf.pktbufResetAcc_blkList,ids_append,List.append_assoc,h₁]
        exact .refl _

/-- The last block of a buffer takes `n` bytes more behind its window. -/
theorem Buf.Wf.extendLast {l : List Pktblk} {b : Pktblk} {n : ℕ} (h : x.Wf)
    (hx : x.blkList = l++[b]) (hn : n ≤ b.tailFree) :
    ({ x with blkList := l++[{ b with size := b.size+n }], totalSize := x.totalSize+n } : Buf).Wf := by
  have hb := h.fits b (by simp [hx])
  have hpos := hb.pos
  have hbound := hb.bound
  unfold Pktblk.tailFree at hn
  refine ⟨?_,fun c hc => ?_⟩
  · simp only [h.total,hx,blkTotal_append,blkTotal_cons,blkTotal_nil]
    omega
  · simp only [List.mem_append,List.mem_singleton] at hc
    rcases hc with hc | rfl
    · exact h.fits c (by simp [hx,hc])
    · exact ⟨by simp only; omega,by simp only; omega⟩

theorem bytes_extendLast (b : Pktblk) (n : ℕ) :
    ({ b with size := b.size+n } : Pktblk).bytes = b.bytes++window b.payload (b.data+b.size) n := by
  simp only [Pktblk.bytes]
  rw [window_add]

theorem grow_spec {toSize : ℕ} {tail : Pktblk} (h : x.Wf) (free : List Pktblk)
    (ht : x.blkList.getLast? = some tail) (hlt : x.totalSize < toSize) :
    let r := x.grow free toSize tail
    Keeps free x r.1 ∧
      (r.2 = .ok → ∃ rest : List Byte, x.bytes.length+rest.length = toSize ∧
        r.1.2.bytes = x.bytes++rest) ∧
      (r.2 ≠ .ok → r.1.2 = x) ∧ (toSize ≤ pktbufBlkSize*free.length → r.2 = .ok) := by
  obtain ⟨l,hx⟩ := List.getLast?_eq_some_iff.1 ht
  have hl : x.blkList.dropLast = l := by rw [hx,List.dropLast_concat]
  rw [h.bytes_length]
  unfold Buf.grow
  rw [hl]
  dsimp only
  split
  next hle =>
    refine ⟨⟨by simp [hx],(h.extendLast hx hle).resetAcc,rfl⟩,fun _ => ?_,
      fun hn => absurd rfl hn,fun _ => rfl⟩
    refine ⟨window tail.payload (tail.data+tail.size) (toSize-x.totalSize),?_,?_⟩
    · rw [window_length]
      omega
    · simp [Buf.bytes,hx,bytes_extendLast]
  next hgt =>
    have hwf := h.extendLast hx (Nat.le_refl _)
    obtain ⟨h₁,h₂,h₃,h₄⟩ := allocInsert_spec h hwf (by simp [hx]) rfl free
      (toSize-x.totalSize-tail.tailFree) true
    refine ⟨h₁,fun hok => ?_,h₃,fun hle => h₄ (by omega)⟩
    obtain ⟨new,hlen,hbytes⟩ := h₂ hok
    refine ⟨window tail.payload (tail.data+tail.size) tail.tailFree++new,?_,hbytes.trans ?_⟩
    · rw [List.length_append,window_length,hlen]
      omega
    · simp [Buf.bytes,hx,bytes_extendLast]

theorem shrink_spec {toSize : ℕ} (h : x.Wf) (free : List Pktblk) (hpos : 0 < toSize)
    (hlt : toSize < x.totalSize) :
    let r := x.shrink free toSize
    Keeps free x r.1 ∧ r.2 = .ok ∧ r.1.2.bytes = x.bytes.take toSize := by
  unfold Buf.shrink
  split
  next hf =>
    rw [h.total] at hlt
    rcases findTail_none hf with hn | hn
    · simp [hn] at hlt
    · omega
  next front tail behind hf =>
    obtain ⟨hx,hle,hfront⟩ := findTail_some hf
    have hfront := hfront (.inr hpos)
    have htotal : x.totalSize = blkTotal front+tail.size+blkTotal behind := by
      rw [h.total,hx]
      simp [Nat.add_assoc]
    have hsize : tail.size-(x.totalSize-blkTotal behind-toSize) = toSize-blkTotal front := by omega
    have ht := h.fits tail (by simp [hx])
    rw [hsize]
    refine ⟨⟨?_,Buf.Wf.resetAcc ⟨?_,fun b hb => ?_⟩,rfl⟩,rfl,?_⟩
    · simp only [Buf.pktbufResetAcc_blkList,ids_append,ids_cons,ids_nil,hx,List.append_assoc]
      refine List.Perm.append_left _ ?_
      refine (List.perm_append_comm).trans ?_
      simp
    · simp only [blkTotal_append,blkTotal_cons,blkTotal_nil]
      omega
    · simp only [List.mem_append,List.mem_singleton] at hb
      rcases hb with hb | rfl
      · exact h.fits b (by simp [hx,hb])
      · have := ht.bound
        exact ⟨by simp only; omega,by simp only; omega⟩
    · rw [Buf.pktbufResetAcc_bytes,Buf.bytes,Buf.bytes,hx,blkBytes_append,blkBytes_append,
        blkBytes_cons,blkBytes_cons,blkBytes_nil,List.append_nil,List.take_append,
        List.take_of_length_le (by simp; omega),blkBytes_length,
        List.take_append_of_le_length (by simp; omega)]
      simp only [Pktblk.bytes]
      rw [take_window _ _ (by omega)]

/-- `pktbuf_resize` keeps the front. -/
theorem pktbufResize_spec (h : x.Wf) (free : List Pktblk) (toSize : ℤ) :
    let r := x.pktbufResize free toSize
    Keeps free x r.1 ∧
      (r.2 = .ok → ∃ rest : List Byte, r.1.2.bytes = x.bytes.take toSize.toNat++rest ∧
        r.1.2.bytes.length = toSize) ∧
      (r.2 ≠ .ok → r.1.2 = x) ∧
      (0 ≤ toSize → toSize ≤ pktbufBlkSize*free.length ∨ toSize ≤ x.bytes.length → r.2 = .ok) := by
  have hlen := h.bytes_length
  unfold Buf.pktbufResize
  split
  next hneg => exact ⟨.refl h,nofun,fun _ => rfl,fun hs => absurd hneg (by omega)⟩
  next hneg =>
    obtain ⟨n,rfl⟩ := Int.eq_ofNat_of_zero_le (Int.not_lt.1 hneg)
    rw [Int.toNat_natCast]
    split
    next he =>
      have he : n = x.totalSize := by exact_mod_cast he
      refine ⟨.refl h,fun _ => ⟨[],?_,by rw [hlen,he]⟩,fun hn => absurd rfl hn,fun _ _ => rfl⟩
      rw [he,← hlen]
      simp
    next hne =>
      split
      next hz =>
        have hz : n = 0 := by exact_mod_cast hz
        refine ⟨⟨by simp,Buf.Wf.resetAcc ⟨rfl,by simp⟩,rfl⟩,fun _ => ⟨[],by simp [Buf.bytes,hz],
          by simp [Buf.bytes,hz]⟩,fun hn => absurd rfl hn,fun _ _ => rfl⟩
      next hz =>
        split
        next hx =>
          have hx' : x.bytes = [] := List.length_eq_zero_iff.1 (hlen.trans hx)
          obtain ⟨h₁,h₂,h₃,h₄⟩ := allocInsert_spec h h rfl rfl free n true
          refine ⟨h₁,fun hok => ?_,h₃,fun _ hs => h₄ ?_⟩
          · obtain ⟨new,hnew,hbytes⟩ := h₂ hok
            simp only [if_true,hx',List.nil_append] at hbytes
            exact ⟨new,by simp [hbytes,hx'],by rw [hbytes,hnew]⟩
          · rw [hlen,hx] at hs
            omega
        next hx =>
          split
          next hlt =>
            have hlt : x.totalSize < n := by exact_mod_cast hlt
            split
            next hnone =>
              have := h.total
              rw [List.getLast?_eq_none_iff.1 hnone] at this
              exact absurd this hx
            next tail ht =>
              obtain ⟨h₁,h₂,h₃,h₄⟩ := grow_spec h free ht hlt
              refine ⟨h₁,fun hok => ?_,h₃,fun _ hs => h₄ (by omega)⟩
              obtain ⟨rest,hrest,hbytes⟩ := h₂ hok
              refine ⟨rest,?_,by rw [hbytes,List.length_append,hrest]⟩
              rw [hbytes,List.take_of_length_le (by omega)]
          next hge =>
            have hlt : n < x.totalSize := by omega
            obtain ⟨h₁,h₂,h₃⟩ := shrink_spec h free (by omega) hlt
            refine ⟨h₁,fun _ => ⟨[],by rw [h₃,List.append_nil],?_⟩,fun hn => absurd h₂ hn,
              fun _ _ => h₂⟩
            rw [h₃,List.length_take,hlen,Nat.min_eq_left (Nat.le_of_lt hlt)]

/-- The part of `pktbuf_set_cont` that moves bytes. -/
theorem gather_spec {first : Pktblk} {l : List Pktblk} {n : ℕ} (h : x.Wf)
    (hx : x.blkList = first :: l) (hgt : first.size < n) (hle : n ≤ blkTotal (first :: l))
    (hn : n ≤ pktbufBlkSize) (free : List Pktblk) :
    let r := contLoop (n-first.size) first.size
      (copy first.payload first.data 0 first.size) l
    let first' := { first with data := 0, size := first.size+r.2.1, payload := r.1 }
    let x' := { x with blkList := first' :: r.2.2.2 }.pktbufResetAcc
    Keeps free x (free++r.2.2.1,x') ∧ x'.bytes = x.bytes ∧ n ≤ first'.size := by
  have hl : ∀ b ∈ l, b.Fits := fun b hb => h.fits b (by simp [hx,hb])
  have hrest : n-first.size ≤ blkTotal l := by
    rw [blkTotal_cons] at hle
    omega
  have hcopy : window (copy first.payload first.data 0 first.size) 0 first.size = first.bytes :=
    window_copy (Nat.zero_le _) _
  obtain ⟨h₁,h₂,h₃,h₄,h₅⟩ := contLoop_spec hl hrest first.size
    (copy first.payload first.data 0 first.size)
  generalize contLoop (n-first.size) first.size
    (copy first.payload first.data 0 first.size) l = r at *
  dsimp only
  have hsize : first.size+r.2.1 = n := by rw [h₂]; omega
  rw [hsize]
  have hbytes : blkBytes ({ first with data := 0, size := n, payload := r.1 } :: r.2.2.2) =
      x.bytes := by
    have hsplit : n = first.size+(n-first.size) := by omega
    rw [Buf.bytes,hx,blkBytes_cons,blkBytes_cons,← h₄,← hcopy,← h₃,← List.append_assoc]
    simp only [Pktblk.bytes]
    nth_rewrite 1 [hsplit]
    rw [window_add,Nat.zero_add]
  refine ⟨⟨?_,Buf.Wf.resetAcc ⟨?_,fun b hb => ?_⟩,rfl⟩,hbytes,Nat.le_refl _⟩
  · simp only [Buf.pktbufResetAcc_blkList,ids_append,ids_cons,hx,List.append_assoc]
    exact (List.perm_middle.trans (h₁.cons _)).append_left _
  · rw [← blkBytes_length,hbytes,h.bytes_length]
  · rcases List.mem_cons.1 hb with rfl | hb
    · exact ⟨by simp only; omega,by simp only; omega⟩
    · exact h₅ b hb

/-- `pktbuf_set_cont` moves bytes to the first block and leaves the sequence as it is. -/
theorem pktbufSetCont_spec (h : x.Wf) (free : List Pktblk) (size : ℤ) :
    let r := x.pktbufSetCont free size
    Keeps free x r.1 ∧
      (r.2 = .ok → r.1.2.bytes = x.bytes ∧
        (0 < size → ∃ b ∈ r.1.2.blkList.head?, size ≤ b.size)) ∧
      (r.2 ≠ .ok → r.1.2 = x) ∧
      (r.2 = .ok ↔ 0 ≤ size ∧ size ≤ x.bytes.length ∧ size ≤ pktbufBlkSize) := by
  rw [h.bytes_length]
  unfold Buf.pktbufSetCont
  split
  next hneg => exact ⟨.refl h,nofun,fun _ => rfl,by simp; omega⟩
  next hneg =>
    split
    next hz =>
      subst hz
      exact ⟨.refl h,fun _ => ⟨rfl,by simp⟩,fun hn => absurd rfl hn,by simp⟩
    next hz =>
      split
      next hlt => exact ⟨.refl h,nofun,fun _ => rfl,by simp; omega⟩
      next hlt =>
        split
        next hbig => exact ⟨.refl h,nofun,fun _ => rfl,by simp; omega⟩
        next hbig =>
          split
          next hx =>
            have := h.total
            rw [hx,blkTotal_nil] at this
            omega
          next first l hx =>
            split
            next hle =>
              exact ⟨⟨.refl _,h.resetAcc,rfl⟩,fun _ => ⟨rfl,fun _ => ⟨first,by simp [hx],hle⟩⟩,
                fun hn => absurd rfl hn,by simp; omega⟩
            next hgt =>
              obtain ⟨n,rfl⟩ := Int.eq_ofNat_of_zero_le (Int.not_lt.1 hneg)
              have hgt : first.size < n := by omega
              have hn : n ≤ pktbufBlkSize := by omega
              rw [Int.toNat_natCast]
              obtain ⟨hkeep,hbytes,hhead⟩ := gather_spec h hx hgt
                (by have := h.total; rw [hx] at this; rw [← this]; omega) hn free
              exact ⟨hkeep,fun _ => ⟨hbytes,fun _ => ⟨_,rfl,by exact_mod_cast hhead⟩⟩,
                fun hn => absurd rfl hn,by simp; omega⟩

end Operations

end Pktbuf
end QuardStarNet
