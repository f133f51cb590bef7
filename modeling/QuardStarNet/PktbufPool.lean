import QuardStarNet.PktbufBytes
import QuardStarNet.PoolSplit

/-! The pool of packet buffers: every block is in the free list or in one live buffer, and every
operation changes the bytes of the buffers as specified. -/
namespace QuardStarNet
namespace Pktbuf

namespace Pool

/-- The buffers in use, of a pool with `bufCnt` buffers. -/
def live (bufCnt : ℕ) (p : Pool) : List BufId :=
  (List.range bufCnt).filter fun b => b ∉ p.pktbufList

/-- The blocks of a buffer. -/
def held (p : Pool) (b : BufId) : List ℕ := ids (p.bufs b).blkList

/-- The invariant of a pool with `blkCnt` blocks and `bufCnt` buffers. -/
structure Inv (blkCnt bufCnt : ℕ) (p : Pool) : Prop where
  blocks : PoolSplit (ids p.blockList) (p.live bufCnt) p.held (List.range blkCnt)
  free : p.pktbufList.Nodup
  bound : ∀ b ∈ p.pktbufList, b < bufCnt
  wf : ∀ b ∈ p.live bufCnt, (p.bufs b).Wf
  ref : ∀ b ∈ p.live bufCnt, 0 < (p.bufs b).ref

variable {blkCnt bufCnt : ℕ} {p p' : Pool} {b : BufId}

theorem mem_live : b ∈ p.live bufCnt ↔ b < bufCnt ∧ b ∉ p.pktbufList := by simp [live]

theorem live_nodup (bufCnt : ℕ) (p : Pool) : (p.live bufCnt).Nodup := List.nodup_range.filter _

theorem pktbufInit_inv (blkCnt bufCnt : ℕ) : Inv blkCnt bufCnt (pktbufInit blkCnt bufCnt) := by
  have hlive : (pktbufInit blkCnt bufCnt).live bufCnt = [] := by
    refine List.eq_nil_iff_forall_not_mem.2 fun b hb => ?_
    obtain ⟨h₁,h₂⟩ := mem_live.1 hb
    exact h₂ (List.mem_range.2 h₁)
  refine ⟨?_,List.nodup_range,fun b hb => List.mem_range.1 hb,?_,?_⟩
  · rw [hlive]
    simp [PoolSplit,pktbufInit,ids,Function.comp_def]
  · simp [hlive]
  · simp [hlive]

theorem held_setBuf (p : Pool) (b : BufId) (x : Buf) :
    (p.setBuf b x).held = Function.update p.held b (ids x.blkList) := by
  funext c
  by_cases hc : c = b
  · simp [held,setBuf,hc]
  · simp [held,setBuf,hc]

/-- An operation on one buffer that keeps the blocks and references. -/
theorem Inv.onBuf {f : Buf → List Pktblk → (List Pktblk × Buf) × NetErr} (h : Inv blkCnt bufCnt p)
    (hb : b ∈ p.live bufCnt) (hk : Keeps p.blockList (p.bufs b) (f (p.bufs b) p.blockList).1) :
    Inv blkCnt bufCnt (p.onBuf b f).1 := by
  refine ⟨?_,h.free,h.bound,fun c hc => ?_,fun c hc => ?_⟩
  · have := h.blocks.exchange (live_nodup bufCnt p) hb hk.blocks
    rwa [← held_setBuf] at this
  · by_cases he : c = b
    · subst he
      simpa [Pool.onBuf,setBuf] using hk.wf
    · simpa [Pool.onBuf,setBuf,he] using h.wf c hc
  · by_cases he : c = b
    · subst he
      simpa [Pool.onBuf,setBuf,hk.ref] using h.ref c hc
    · simpa [Pool.onBuf,setBuf,he] using h.ref c hc

theorem live_take {rest : List BufId} (h : Inv blkCnt bufCnt p) (hp : p.pktbufList = b :: rest)
    (hp' : p'.pktbufList = rest) : (p'.live bufCnt).Perm (b :: p.live bufCnt) := by
  have hn := h.free
  rw [hp,List.nodup_cons] at hn
  have hb : b ∉ p.live bufCnt := by simp [mem_live,hp]
  refine (List.perm_ext_iff_of_nodup (live_nodup _ _) (List.nodup_cons.2 ⟨hb,live_nodup _ _⟩)).2
    fun c => ?_
  have hbound := h.bound b (by simp [hp])
  simp only [mem_live,List.mem_cons,hp,hp',not_or]
  by_cases hc : c = b
  · simp [hc,hn.1,hbound]
  · simp [hc]

theorem live_give (hp : p'.pktbufList = p.pktbufList++[b]) (hb : b ∈ p.live bufCnt) :
    (p.live bufCnt).Perm (b :: p'.live bufCnt) := by
  have hb' : b ∉ p'.live bufCnt := by simp [mem_live,hp]
  refine (List.perm_ext_iff_of_nodup (live_nodup _ _) (List.nodup_cons.2 ⟨hb',live_nodup _ _⟩)).2
    fun c => ?_
  simp only [mem_live,List.mem_cons,hp,List.mem_append,not_or]
  rw [mem_live] at hb
  by_cases hc : c = b
  · simp [hc,hb]
  · simp [hc]

/-- A buffer that was free is given the blocks `x.blkList`. -/
theorem Inv.take {rest : List BufId} {x : Buf} {free : List Pktblk} (h : Inv blkCnt bufCnt p)
    (hp : p.pktbufList = b :: rest) (hb : (ids free++ids x.blkList).Perm (ids p.blockList))
    (hx : x.Wf) (hr : 0 < x.ref) :
    Inv blkCnt bufCnt { p.setBuf b x with blockList := free, pktbufList := rest } := by
  have hlive : (live bufCnt { p.setBuf b x with blockList := free, pktbufList := rest }).Perm
      (b :: p.live bufCnt) := live_take h hp rfl
  have hn := h.free
  rw [hp] at hn
  have hbl : b ∉ p.live bufCnt := by simp [mem_live,hp]
  have hother : ∀ c ∈ p.live bufCnt, c ≠ b := fun c hc he => hbl (he ▸ hc)
  refine ⟨?_,(List.nodup_cons.1 hn).2,fun c hc => h.bound c (by simp [hp,hc]),fun c hc => ?_,
    fun c hc => ?_⟩
  · refine PoolSplit.perm ?_ (.refl _) hlive
    rw [PoolSplit.cons_iff]
    change PoolSplit (ids free++(p.setBuf b x).held b) _ (p.setBuf b x).held _
    rw [held_setBuf,Function.update_self]
    refine (h.blocks.perm hb (.refl _)).congr fun c hc => Function.update_of_ne (hother c hc) _ _
  · rcases List.mem_cons.1 (hlive.mem_iff.1 hc) with rfl | hc
    · simpa [setBuf] using hx
    · simpa [setBuf,hother c hc] using h.wf c hc
  · rcases List.mem_cons.1 (hlive.mem_iff.1 hc) with rfl | hc
    · simpa [setBuf] using hr
    · simpa [setBuf,hother c hc] using h.ref c hc

/-- What `pktbuf_alloc` does. -/
theorem pktbufAlloc_spec (h : Inv blkCnt bufCnt p) (size : ℤ) :
    Inv blkCnt bufCnt (p.pktbufAlloc size).1 ∧
      match (p.pktbufAlloc size).2 with
      | some b =>
        b ∉ p.live bufCnt ∧ ((p.pktbufAlloc size).1.live bufCnt).Perm (b :: p.live bufCnt) ∧
          ((p.pktbufAlloc size).1.bufs b).ref = 1 ∧
          ((p.pktbufAlloc size).1.bufs b).bytes.length = size ∧
          ∀ c, c ≠ b → (p.pktbufAlloc size).1.bufs c = p.bufs c
      | none =>
        (p.pktbufAlloc size).1.live bufCnt = p.live bufCnt ∧
          (∀ c ∈ p.live bufCnt, (p.pktbufAlloc size).1.bufs c = p.bufs c) ∧
          (0 ≤ size → size ≤ pktbufBlkSize*p.blockList.length → p.pktbufList = []) := by
  unfold pktbufAlloc
  split
  next hneg => exact ⟨h,rfl,fun _ _ => rfl,fun hs => absurd hneg (by omega)⟩
  next hneg =>
    obtain ⟨n,rfl⟩ := Int.eq_ofNat_of_zero_le (Int.not_lt.1 hneg)
    rw [Int.toNat_natCast]
    split
    next hp => exact ⟨h,rfl,fun _ _ => rfl,fun _ _ => hp⟩
    next b rest hp =>
      have hbl : b ∉ p.live bufCnt := by simp [mem_live,hp]
      dsimp only
      split
      next hz =>
        have hz : n = 0 := by exact_mod_cast hz
        refine ⟨h.take hp (by simp [setBuf]) (Buf.Wf.resetAcc ⟨rfl,by simp⟩) Nat.one_pos,hbl,
          live_take h hp rfl,by simp [setBuf],by simp [setBuf,Buf.bytes,hz],
          fun c hc => by simp [setBuf,hc]⟩
      next hz =>
        split
        next free ha =>
          obtain ⟨hperm,hlt⟩ := pktblockAllocList_none ha
          have hlive : ∀ x, live bufCnt { p.setBuf b x with
              blockList := free, pktbufList := rest++[b] } = p.live bufCnt := fun x =>
            List.filter_congr fun c _ => by simp [hp,or_comm]
          have hbufs : ∀ x, ∀ c ∈ p.live bufCnt, (p.setBuf b x).bufs c = p.bufs c := fun x c hc =>
            Function.update_of_ne (show c ≠ b from fun he => hbl (he ▸ hc)) _ _
          refine ⟨⟨?_,?_,fun c hc => h.bound c (by simpa [hp,or_comm] using hc),fun c hc => ?_,
            fun c hc => ?_⟩,hlive _,hbufs _,fun _ hs => absurd hlt (by omega)⟩
          · rw [hlive]
            refine (h.blocks.perm hperm (.refl _)).congr fun c hc => ?_
            change ids ((p.setBuf b _).bufs c).blkList = ids (p.bufs c).blkList
            rw [hbufs _ c hc]
          · have := h.free
            rw [hp] at this
            exact (List.perm_append_singleton b rest).nodup_iff.2 this
          · rw [hlive] at hc
            change ((p.setBuf b _).bufs c).Wf
            rw [hbufs _ c hc]
            exact h.wf c hc
          · rw [hlive] at hc
            change 0 < ((p.setBuf b _).bufs c).ref
            rw [hbufs _ c hc]
            exact h.ref c hc
        next free blks ha =>
          obtain ⟨hperm,ht,hf⟩ := pktblockAllocList_some ha
          refine ⟨h.take hp (by simpa [Buf.pktbufInsertBlkList] using hperm) ?_ Nat.one_pos,hbl,
            live_take h hp rfl,by simp [setBuf,Buf.pktbufInsertBlkList],?_,
            fun c hc => by simp [setBuf,hc]⟩
          · exact Buf.Wf.resetAcc ⟨by simp [Buf.pktbufInsertBlkList],
              by simpa [Buf.pktbufInsertBlkList] using hf⟩
          · simp [setBuf,Buf.bytes,Buf.pktbufInsertBlkList,ht]

/-- The references to a buffer that stays in use change. -/
theorem Inv.setRef (h : Inv blkCnt bufCnt p) {r : ℕ} (hr : 0 < r) :
    Inv blkCnt bufCnt (p.setBuf b { p.bufs b with ref := r }) := by
  have hlist : ∀ c, ((p.setBuf b { p.bufs b with ref := r }).bufs c).blkList = (p.bufs c).blkList :=
    fun c => by
      by_cases hc : c = b <;> simp [setBuf,hc]
  refine ⟨h.blocks.congr fun c _ => by rw [held,hlist,held],h.free,h.bound,fun c hc => ?_,
    fun c hc => ?_⟩
  · by_cases he : c = b
    · subst he
      simpa [setBuf] using ⟨(h.wf c hc).total,(h.wf c hc).fits⟩
    · simpa [setBuf,he] using h.wf c hc
  · by_cases he : c = b
    · simpa [setBuf,he] using hr
    · simpa [setBuf,he] using h.ref c hc

/-- The blocks of a buffer go to the free list and the buffer is no longer in use. -/
theorem Inv.give {x : Buf} (h : Inv blkCnt bufCnt p) (hb : b ∈ p.live bufCnt) :
    Inv blkCnt bufCnt { p.setBuf b x with
      blockList := p.blockList++(p.bufs b).blkList, pktbufList := p.pktbufList++[b] } := by
  have hlive : (p.live bufCnt).Perm (b :: live bufCnt { p.setBuf b x with
      blockList := p.blockList++(p.bufs b).blkList, pktbufList := p.pktbufList++[b] }) :=
    live_give rfl hb
  have hn := hlive.nodup_iff.1 (live_nodup _ _)
  have hother : ∀ c ∈ live bufCnt { p.setBuf b x with
      blockList := p.blockList++(p.bufs b).blkList, pktbufList := p.pktbufList++[b] }, c ≠ b :=
    fun c hc he => (List.nodup_cons.1 hn).1 (he ▸ hc)
  obtain ⟨hb₁,hb₂⟩ := mem_live.1 hb
  refine ⟨?_,?_,fun c hc => ?_,fun c hc => ?_,fun c hc => ?_⟩
  · have := PoolSplit.cons_iff.1 (h.blocks.perm (.refl _) hlive.symm)
    rw [held,← ids_append] at this
    exact this.congr fun c hc => by simp [held,setBuf,hother c hc]
  · exact (List.perm_append_singleton b _).nodup_iff.2 (List.nodup_cons.2 ⟨hb₂,h.free⟩)
  · rcases List.mem_append.1 hc with hc | hc
    · exact h.bound c hc
    · rw [List.mem_singleton.1 hc]
      exact hb₁
  · simpa [setBuf,hother c hc] using h.wf c (hlive.mem_iff.2 (by simp [hc]))
  · simpa [setBuf,hother c hc] using h.ref c (hlive.mem_iff.2 (by simp [hc]))

/-- `pktbuf_free` gives up one reference, and with the last one the buffer. -/
theorem pktbufFree_spec (h : Inv blkCnt bufCnt p) (hb : b ∈ p.live bufCnt) :
    Inv blkCnt bufCnt (p.pktbufFree b) ∧ (∀ c, c ≠ b → (p.pktbufFree b).bufs c = p.bufs c) ∧
      if (p.bufs b).ref = 1 then (p.live bufCnt).Perm (b :: (p.pktbufFree b).live bufCnt)
      else (p.pktbufFree b).live bufCnt = p.live bufCnt ∧
        (p.pktbufFree b).bufs b = { p.bufs b with ref := (p.bufs b).ref-1 } := by
  have hr := h.ref b hb
  unfold pktbufFree
  dsimp only
  rw [if_neg (by omega)]
  split
  next h₁ => exact ⟨h.give hb,fun c hc => by simp [setBuf,hc],live_give rfl hb⟩
  next h₁ => exact ⟨h.setRef (by omega),fun c hc => by simp [setBuf,hc],rfl,by simp [setBuf]⟩

theorem pktbufIncRef_spec (h : Inv blkCnt bufCnt p) (hb : b ∈ p.live bufCnt) :
    Inv blkCnt bufCnt (p.pktbufIncRef b) ∧ (p.pktbufIncRef b).live bufCnt = p.live bufCnt ∧
      (∀ c, c ≠ b → (p.pktbufIncRef b).bufs c = p.bufs c) ∧
      (p.pktbufIncRef b).bufs b = { p.bufs b with ref := (p.bufs b).ref+1 } := by
  have hr := h.ref b hb
  unfold pktbufIncRef
  dsimp only
  rw [if_neg (by omega)]
  exact ⟨h.setRef (by omega),rfl,fun c hc => by simp [setBuf,hc],by simp [setBuf]⟩

/-- `pktbuf_join` gives up the source and lets the destination take its blocks. -/
theorem pktbufJoin_eq {dest src : BufId} (hne : dest ≠ src) (hr : (p.bufs src).ref = 1) :
    let x := ((p.bufs dest).pktbufInsertBlkList (p.bufs src).blkList true).pktbufResetAcc
    let q := { p.setBuf src { p.bufs src with blkList := [], ref := 0 } with
      blockList := p.blockList++(p.bufs src).blkList, pktbufList := p.pktbufList++[src] }
    p.pktbufJoin dest src = q.onBuf dest fun _ _ => ((p.blockList,x),.ok) := by
  have hs : ∀ x y, (((p.setBuf dest x).setBuf src y).bufs src) = y := fun x y => by simp [setBuf]
  unfold pktbufJoin pktbufFree
  rw [if_neg hne]
  dsimp only
  rw [hs,if_neg (by simp [hr]),if_pos hr]
  refine Prod.ext ?_ rfl
  simp only [Pool.onBuf,setBuf,Pool.mk.injEq,List.append_nil,true_and]
  funext c
  by_cases hc : c = dest
  · subst hc
    simp
  · simp only [Function.update_of_ne hc]
    by_cases hc' : c = src
    · subst hc'
      simp
    · simp [hc',hc]

/-- `pktbuf_join` appends the bytes of a buffer with one reference and gives it up. -/
theorem pktbufJoin_spec {dest src : BufId} (h : Inv blkCnt bufCnt p) (hd : dest ∈ p.live bufCnt)
    (hs : src ∈ p.live bufCnt) (hne : dest ≠ src) (hr : (p.bufs src).ref = 1) :
    let r := p.pktbufJoin dest src
    Inv blkCnt bufCnt r.1 ∧ r.2 = .ok ∧ (p.live bufCnt).Perm (src :: r.1.live bufCnt) ∧
      (r.1.bufs dest).bytes = (p.bufs dest).bytes++(p.bufs src).bytes ∧
      (r.1.bufs dest).ref = (p.bufs dest).ref ∧
      ∀ c, c ≠ dest → c ≠ src → r.1.bufs c = p.bufs c := by
  intro r
  have hq := h.give (x := { p.bufs src with blkList := [], ref := 0 }) hs
  have hr' : r = _ := pktbufJoin_eq hne hr
  have hdq : dest ∈ live bufCnt { p.setBuf src { p.bufs src with blkList := [], ref := 0 } with
      blockList := p.blockList++(p.bufs src).blkList, pktbufList := p.pktbufList++[src] } := by
    rw [mem_live] at hd ⊢
    simpa [hne] using hd
  have hwd := h.wf dest hd
  have hws := h.wf src hs
  rw [hr']
  refine ⟨hq.onBuf hdq ⟨?_,Buf.Wf.resetAcc ⟨?_,?_⟩,?_⟩,rfl,live_give rfl hs,?_,?_,
    fun c hc hc' => by simp [Pool.onBuf,setBuf,hc,hc']⟩
  · simp only [setBuf,Function.update_of_ne hne,Buf.pktbufResetAcc_blkList,Buf.pktbufInsertBlkList,
      if_true,ids_append,List.append_assoc]
    exact List.perm_append_comm.append_left _
  · simp [Buf.pktbufInsertBlkList,hwd.total]
  · intro b hb
    simp only [Buf.pktbufInsertBlkList,if_true,List.mem_append] at hb
    exact hb.elim (hwd.fits b) (hws.fits b)
  · simp [setBuf,hne,Buf.pktbufInsertBlkList]
  · simp [Pool.onBuf,setBuf,Buf.bytes,Buf.pktbufInsertBlkList]
  · simp [Pool.onBuf,setBuf,Buf.pktbufInsertBlkList]

/-! Runs. -/

inductive Op
  | alloc (size : ℤ)
  | addHeader (b : BufId) (size : ℤ) (cont : Bool)
  | removeHeader (b : BufId) (size : ℤ)
  | resize (b : BufId) (toSize : ℤ)
  | setCont (b : BufId) (size : ℤ)
  | join (dest src : BufId)
  | incRef (b : BufId)
  | free (b : BufId)

/-- The caller has the buffers of its call: they are in use, and the source of a join has no
other reference. -/
def Legal (bufCnt : ℕ) (p : Pool) : Op → Prop
  | .alloc _ => True
  | .addHeader b _ _ | .removeHeader b _ | .resize b _ | .setCont b _ | .incRef b | .free b =>
    b ∈ p.live bufCnt
  | .join dest src => dest ∈ p.live bufCnt ∧ src ∈ p.live bufCnt ∧ (p.bufs src).ref = 1

instance (bufCnt : ℕ) (p : Pool) (op : Op) : Decidable (Legal bufCnt p op) := by
  cases op <;> unfold Legal <;> infer_instance

def exec (p : Pool) : Op → Pool
  | .alloc size => (p.pktbufAlloc size).1
  | .addHeader b size cont => (p.pktbufAddHeader b size cont).1
  | .removeHeader b size => (p.pktbufRemoveHeader b size).1
  | .resize b toSize => (p.pktbufResize b toSize).1
  | .setCont b size => (p.pktbufSetCont b size).1
  | .join dest src => (p.pktbufJoin dest src).1
  | .incRef b => p.pktbufIncRef b
  | .free b => p.pktbufFree b

def step (bufCnt : ℕ) (p : Pool) (op : Op) : Pool := if Legal bufCnt p op then p.exec op else p

def run (bufCnt : ℕ) (p : Pool) (ops : List Op) : Pool := ops.foldl (step bufCnt) p

/-- The operation concerned the bytes of `b` only. -/
def Only (bufCnt : ℕ) (b : BufId) (p p' : Pool) : Prop :=
  p'.live bufCnt = p.live bufCnt ∧ (p'.bufs b).ref = (p.bufs b).ref ∧
    ∀ c, c ≠ b → p'.bufs c = p.bufs c

/-- What an operation means for the byte sequences of the buffers. -/
def Meaning (bufCnt : ℕ) (p : Pool) : Op → Prop
  | .alloc size =>
    let r := p.pktbufAlloc size
    match r.2 with
    | some b => b ∉ p.live bufCnt ∧ (r.1.live bufCnt).Perm (b :: p.live bufCnt) ∧
        (r.1.bufs b).ref = 1 ∧ (r.1.bufs b).bytes.length = size ∧
        ∀ c, c ≠ b → r.1.bufs c = p.bufs c
    | none => r.1.live bufCnt = p.live bufCnt ∧ (∀ c ∈ p.live bufCnt, r.1.bufs c = p.bufs c) ∧
        (0 ≤ size → size ≤ pktbufBlkSize*p.blockList.length → p.pktbufList = [])
  | .addHeader b size cont =>
    let r := p.pktbufAddHeader b size cont
    Only bufCnt b p r.1 ∧
      (r.2 = .ok → ∃ header : List Byte, header.length = size ∧
        (r.1.bufs b).bytes = header++(p.bufs b).bytes) ∧
      (r.2 ≠ .ok → r.1.bufs b = p.bufs b) ∧
      (0 ≤ size → size ≤ pktbufBlkSize*p.blockList.length → (cont = true → size ≤ pktbufBlkSize) →
        r.2 = .ok)
  | .removeHeader b size =>
    let r := p.pktbufRemoveHeader b size
    Only bufCnt b p r.1 ∧
      (r.2 = .ok → (r.1.bufs b).bytes = (p.bufs b).bytes.drop size.toNat) ∧
      (r.2 ≠ .ok → r.1.bufs b = p.bufs b) ∧
      (r.2 = .ok ↔ 0 ≤ size ∧ size ≤ (p.bufs b).bytes.length)
  | .resize b toSize =>
    let r := p.pktbufResize b toSize
    Only bufCnt b p r.1 ∧
      (r.2 = .ok → ∃ rest : List Byte, (r.1.bufs b).bytes = (p.bufs b).bytes.take toSize.toNat++rest ∧
        (r.1.bufs b).bytes.length = toSize) ∧
      (r.2 ≠ .ok → r.1.bufs b = p.bufs b) ∧
      (0 ≤ toSize →
        toSize ≤ pktbufBlkSize*p.blockList.length ∨ toSize ≤ (p.bufs b).bytes.length → r.2 = .ok)
  | .setCont b size =>
    let r := p.pktbufSetCont b size
    Only bufCnt b p r.1 ∧
      (r.2 = .ok → (r.1.bufs b).bytes = (p.bufs b).bytes ∧
        (0 < size → ∃ blk ∈ (r.1.bufs b).blkList.head?, size ≤ blk.size)) ∧
      (r.2 ≠ .ok → r.1.bufs b = p.bufs b) ∧
      (r.2 = .ok ↔ 0 ≤ size ∧ size ≤ (p.bufs b).bytes.length ∧ size ≤ pktbufBlkSize)
  | .join dest src =>
    let r := p.pktbufJoin dest src
    if dest = src then r = (p,.param)
    else r.2 = .ok ∧ (p.live bufCnt).Perm (src :: r.1.live bufCnt) ∧
      (r.1.bufs dest).bytes = (p.bufs dest).bytes++(p.bufs src).bytes ∧
      (r.1.bufs dest).ref = (p.bufs dest).ref ∧
      ∀ c, c ≠ dest → c ≠ src → r.1.bufs c = p.bufs c
  | .incRef b =>
    let p' := p.pktbufIncRef b
    p'.live bufCnt = p.live bufCnt ∧ (∀ c, c ≠ b → p'.bufs c = p.bufs c) ∧
      p'.bufs b = { p.bufs b with ref := (p.bufs b).ref+1 }
  | .free b =>
    let p' := p.pktbufFree b
    (∀ c, c ≠ b → p'.bufs c = p.bufs c) ∧
      if (p.bufs b).ref = 1 then (p.live bufCnt).Perm (b :: p'.live bufCnt)
      else p'.live bufCnt = p.live bufCnt ∧
        p'.bufs b = { p.bufs b with ref := (p.bufs b).ref-1 }

theorem onBuf_bufs (p : Pool) (b : BufId) (f : Buf → List Pktblk → (List Pktblk × Buf) × NetErr) :
    (p.onBuf b f).1.bufs b = (f (p.bufs b) p.blockList).1.2 := by
  simp [Pool.onBuf,setBuf]

theorem onBuf_only {f : Buf → List Pktblk → (List Pktblk × Buf) × NetErr}
    (hk : Keeps p.blockList (p.bufs b) (f (p.bufs b) p.blockList).1) :
    Only bufCnt b p (p.onBuf b f).1 :=
  ⟨rfl,by rw [onBuf_bufs,hk.ref],fun c hc => by simp [Pool.onBuf,setBuf,hc]⟩

/-- An operation keeps the invariant and means what it should. -/
theorem exec_spec {op : Op} (h : Inv blkCnt bufCnt p) (hl : Legal bufCnt p op) :
    Inv blkCnt bufCnt (p.exec op) ∧ Meaning bufCnt p op := by
  cases op with
  | alloc size => exact pktbufAlloc_spec h size
  | addHeader b size cont =>
    obtain ⟨hk,hs⟩ := pktbufAddHeader_spec (h.wf b hl) p.blockList size cont
    refine ⟨h.onBuf hl hk,onBuf_only hk,?_⟩
    rw [pktbufAddHeader,onBuf_bufs]
    exact hs
  | removeHeader b size =>
    obtain ⟨hk,hs⟩ := pktbufRemoveHeader_spec (h.wf b hl) p.blockList size
    refine ⟨h.onBuf hl hk,onBuf_only hk,?_⟩
    rw [pktbufRemoveHeader,onBuf_bufs]
    exact hs
  | resize b toSize =>
    obtain ⟨hk,hs⟩ := pktbufResize_spec (h.wf b hl) p.blockList toSize
    refine ⟨h.onBuf hl hk,onBuf_only hk,?_⟩
    rw [pktbufResize,onBuf_bufs]
    exact hs
  | setCont b size =>
    obtain ⟨hk,hs⟩ := pktbufSetCont_spec (h.wf b hl) p.blockList size
    refine ⟨h.onBuf hl hk,onBuf_only hk,?_⟩
    rw [pktbufSetCont,onBuf_bufs]
    exact hs
  | join dest src =>
    obtain ⟨hd,hs,hr⟩ := hl
    unfold Meaning exec
    dsimp only
    by_cases hne : dest = src
    · rw [if_pos hne,pktbufJoin,if_pos hne]
      exact ⟨h,rfl⟩
    · rw [if_neg hne]
      exact pktbufJoin_spec h hd hs hne hr
  | incRef b => exact pktbufIncRef_spec h hl
  | free b => exact pktbufFree_spec h hl

theorem run_inv (h : Inv blkCnt bufCnt p) (ops : List Op) : Inv blkCnt bufCnt (p.run bufCnt ops) := by
  induction ops generalizing p with
  | nil => exact h
  | cons op ops ih =>
    refine ih ?_
    unfold step
    split
    next hl => exact (exec_spec h hl).1
    next => exact h

/-- The blocks of a pool are split between its free list and its buffers, and every operation a
caller may make changes the byte sequences as specified. -/
theorem pktbufs_refine_bytes (blkCnt bufCnt : ℕ) (ops : List Op) :
    let p := (pktbufInit blkCnt bufCnt).run bufCnt ops
    Inv blkCnt bufCnt p ∧
      p.blockList.length+((p.live bufCnt).map fun b => (p.bufs b).blkList.length).sum = blkCnt ∧
      ∀ op, Legal bufCnt p op → Meaning bufCnt p op := by
  intro p
  have h : Inv blkCnt bufCnt p := run_inv (pktbufInit_inv blkCnt bufCnt) ops
  refine ⟨h,?_,fun op hl => (exec_spec h hl).2⟩
  have := h.blocks.count_eq
  simpa [held,ids] using this

end Pool
end Pktbuf
end QuardStarNet
