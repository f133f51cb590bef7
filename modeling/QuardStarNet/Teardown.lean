import QuardStarNet.Mappings

/-! Taking address spaces apart: `uvmunmap` clears leaf entries and may free what they map,
`freewalk` frees the tables of a tree that has no leaf entry left. -/

namespace QuardStarNet
namespace Paging

open RadixTree

variable {s s' s'' : Frames} {R : Set PhysPageNum} {r r₀ x y f : PhysPageNum} {n : ℕ}
  {i : Fin 512} {v : VirtPageNum} {doFree : Bool} {P Q : VirtPageNum → Prop}

/-! ### Unmapping -/

/-- The pages `P` of `r₀` lose their entries, and the frames of the range that they mapped are
freed when `doFree` is set. -/
structure Unmaps (R : Set PhysPageNum) (r₀ : PhysPageNum) (doFree : Bool) (P : VirtPageNum → Prop)
    (s s' : Frames) : Prop where
  ok : TablesOk s' R
  start : s'.start = s.start
  stop : s'.stop = s.stop
  table : ∀ r ∈ R,∀ p,p.length ≤ 2 → s'.table r p = s.table r p
  cleared : ∀ v,P v → s'.lookup r₀ v = none
  kept : ∀ r ∈ R,∀ v,r ≠ r₀ ∨ ¬P v → s'.lookup r v = s.lookup r v
  freeMap : ∀ f,s'.freeMap f = true ↔ s.freeMap f = true ∨ doFree = true ∧ s.InRange f ∧
    ∃ v e,P v ∧ s.lookup r₀ v = some e ∧ pageTableEntryPpn e = f
  frame : ∀ x,¬s.IsTable {r₀} x → s'.freeMap x = s.freeMap x → s'.mem x = s.mem x

namespace Unmaps

theorem isTable_iff (h : Unmaps R r₀ doFree P s s') {R' : Set PhysPageNum} (hR : R' ⊆ R) :
    s'.IsTable R' x ↔ s.IsTable R' x := by
  constructor <;> rintro ⟨r,hr,p,hp,hw⟩
  · exact ⟨r,hr,p,hp,(h.table r (hR hr) p hp).symm.trans hw⟩
  · exact ⟨r,hr,p,hp,(h.table r (hR hr) p hp).trans hw⟩

theorem inRange_iff (h : Unmaps R r₀ doFree P s s') : s'.InRange f ↔ s.InRange f := by
  rw [Frames.InRange,Frames.InRange,h.start,h.stop]

theorem refl (h : TablesOk s R) : Unmaps R r₀ doFree (fun _ => False) s s :=
  ⟨h,rfl,rfl,fun _ _ _ _ => rfl,fun _ => False.elim,fun _ _ _ _ => rfl,by simp,fun _ _ _ => rfl⟩

theorem trans (hr₀ : r₀ ∈ R) (h₁ : Unmaps R r₀ doFree P s s') (h₂ : Unmaps R r₀ doFree Q s' s'') :
    Unmaps R r₀ doFree (fun v => P v ∨ Q v) s s'' where
  ok := h₂.ok
  start := h₂.start.trans h₁.start
  stop := h₂.stop.trans h₁.stop
  table r hr p hp := (h₂.table r hr p hp).trans (h₁.table r hr p hp)
  cleared v hv := by
    by_cases hQ : Q v
    · exact h₂.cleared v hQ
    · rw [h₂.kept r₀ hr₀ v (.inr hQ),h₁.cleared v (hv.resolve_right hQ)]
  kept r hr v hv := by
    rw [h₂.kept r hr v (hv.imp_right fun h hQ => h (.inr hQ)),
      h₁.kept r hr v (hv.imp_right fun h hP => h (.inl hP))]
  freeMap f := by
    rw [h₂.freeMap,h₁.freeMap,h₁.inRange_iff]
    constructor
    · rintro ((hf | ⟨hd,hin,v,e,hv,he,hf⟩) | ⟨hd,hin,v,e,hv,he,hf⟩)
      · exact .inl hf
      · exact .inr ⟨hd,hin,v,e,.inl hv,he,hf⟩
      · by_cases hP : P v
        · simp [h₁.cleared v hP] at he
        · rw [h₁.kept r₀ hr₀ v (.inr hP)] at he
          exact .inr ⟨hd,hin,v,e,.inr hv,he,hf⟩
    · rintro (hf | ⟨hd,hin,v,e,hv,he,hf⟩)
      · exact .inl (.inl hf)
      · by_cases hP : P v
        · exact .inl (.inr ⟨hd,hin,v,e,hP,he,hf⟩)
        · refine .inr ⟨hd,hin,v,e,hv.resolve_left hP,?_,hf⟩
          rw [h₁.kept r₀ hr₀ v (.inr hP),he]
  frame x hx hfree := by
    have hmid : s'.freeMap x = s.freeMap x := by
      cases h : s.freeMap x with
      | true => exact (h₁.freeMap x).2 (.inl h)
      | false =>
        rw [h] at hfree
        by_contra hcon
        rw [Bool.not_eq_false] at hcon
        simp [(h₂.freeMap x).2 (.inl hcon)] at hfree
    have hx' : ¬s'.IsTable {r₀} x := by
      rwa [h₁.isTable_iff (Set.singleton_subset_iff.2 hr₀)]
    rw [h₂.frame x hx' (hfree.trans hmid.symm),h₁.frame x hx hmid]

theorem congr (h : Unmaps R r₀ doFree P s s') (hPQ : ∀ v,P v ↔ Q v) : Unmaps R r₀ doFree Q s s' := by
  obtain rfl : P = Q := funext fun v => propext (hPQ v)
  exact h

end Unmaps

/-- Freeing a frame that is no table. -/
theorem TablesOk.kfree (h : TablesOk s R) (hf : ¬s.IsTable R f) :
    TablesOk (s.kfree f) R ∧ (s.kfree f).start = s.start ∧ (s.kfree f).stop = s.stop ∧
      (∀ g,(s.kfree f).freeMap g = true ↔ s.freeMap g = true ∨ s.InRange g ∧ g = f) ∧
      ∀ g,g ≠ f ∨ (s.kfree f).freeMap g = s.freeMap g → (s.kfree f).mem g = s.mem g := by
  by_cases hin : s.InRange f ∧ s.freeMap f = false
  · have hg := h.alloc.kfree hin.1 hin.2
    refine ⟨h.gives hg hf,hg.start,hg.stop,fun g => ?_,fun g hgf => hg.mem g ?_⟩
    · rw [hg.freeMap]
      by_cases hgf : g = f
      · simp [hgf,hin.1]
      · simp [hgf]
    · rintro rfl
      simp [hg.freeMap,hin.2] at hgf
  · have hsame : s.kfree f = s := by
      rw [Frames.kfree]
      split
      · rfl
      next hout =>
        rw [not_or,BitVec.not_lt,BitVec.not_le] at hout
        rw [if_pos]
        by_contra hcon
        exact hin ⟨hout,by simpa using hcon⟩
    rw [hsame]
    refine ⟨h,rfl,rfl,fun g => ⟨.inl,?_⟩,fun _ _ => rfl⟩
    rintro (hg | ⟨hg,rfl⟩)
    · exact hg
    · by_contra hcon
      exact hin ⟨hg,by simpa using hcon⟩

theorem findPte_eq_some {x : PhysPageNum} {i : Fin 512} (h : s.findPte r v = some (x,i)) :
    i = (indexes v).2 ∧ s.table r (indexes v).1 = some x ∧ s.lookup r v = some (s.mem x i) := by
  have hl : s.lookup r v = some (s.mem x i) := by rw [Frames.lookup,h]; rfl
  rw [Frames.findPte_eq,Option.bind_eq_some_iff] at h
  obtain ⟨y,hy,h⟩ := h
  split at h
  · obtain ⟨rfl,rfl⟩ := Prod.mk.inj (Option.some.inj h)
    exact ⟨rfl,hy,hl⟩
  · simp at h

theorem lookup_of_mod_eq {u v : VirtPageNum} (h : u.toNat % 2^27 = v.toNat % 2^27) :
    s.lookup r u = s.lookup r v := by
  rw [Frames.lookup_eq,Frames.lookup_eq,indexes_inj.2 h]

theorem clearPage_spec (h : TablesOk s R) (hr₀ : r₀ ∈ R) (hx : s.table r₀ (indexes v).1 = some x) :
    Unmaps R r₀ false (fun u => u.toNat % 2^27 = v.toNat % 2^27) s
      (s.store x (indexes v).2 pageTableEntryEmpty) := by
  have hlen := indexes_length v
  have hok := (Extends.store_leaf h hr₀ hlen hx (i := (indexes v).2) (w := pageTableEntryEmpty)).ok
  refine ⟨hok,rfl,rfl,fun r hr p hp => table_store_leaf h hr₀ hlen hx hr hp,fun u hu => ?_,
    fun r hr u hu => ?_,by simp [Frames.store],fun y hy _ => store_of_ne ?_⟩
  · rw [lookup_store_leaf h hr₀ hx hr₀,if_pos ⟨rfl,hu⟩]
    simp
  · rw [lookup_store_leaf h hr₀ hx hr,if_neg]
    rintro ⟨rfl,h'⟩
    exact hu.elim (· rfl) (· h')
  · rintro rfl
    exact hy ⟨r₀,rfl,_,hlen.le,hx⟩

/-- One page unmapped; what it maps is no table when it is to be freed. -/
theorem unmapPage_spec (h : TablesOk s R) (hr₀ : r₀ ∈ R)
    (hleaf : doFree = true → ∀ e,s.lookup r₀ v = some e → ¬s.IsTable R (pageTableEntryPpn e)) :
    Unmaps R r₀ doFree (fun u => u.toNat % 2^27 = v.toNat % 2^27) s (s.unmapPage r₀ doFree v) := by
  rw [Frames.unmapPage]
  cases hfind : s.findPte r₀ v with
  | none =>
    have hnone : s.lookup r₀ v = none := by rw [Frames.lookup,hfind]; rfl
    refine ⟨h,rfl,rfl,fun _ _ _ _ => rfl,fun u hu => (lookup_of_mod_eq hu).trans hnone,
      fun _ _ _ _ => rfl,fun f => ⟨.inl,?_⟩,fun _ _ _ => rfl⟩
    rintro (hf | ⟨-,-,u,e,hu,he,-⟩)
    · exact hf
    · rw [lookup_of_mod_eq hu,hnone] at he
      simp at he
  | some place =>
    obtain ⟨x,i⟩ := place
    obtain ⟨rfl,hx,hl⟩ := findPte_eq_some hfind
    simp only [floorPhys_pte2pa]
    cases doFree with
    | false =>
      rw [if_neg (by simp)]
      exact clearPage_spec h hr₀ hx
    | true =>
      rw [if_pos rfl]
      have hnot := hleaf rfl _ hl
      obtain ⟨hok,hstart,hstop,hfree,hmem⟩ := h.kfree hnot
      have hm : ∀ y,s.IsTable R y →
          (s.kfree (pageTableEntryPpn (s.mem x (indexes v).2))).mem y = s.mem y := by
        intro y hy
        refine hmem y (.inl ?_)
        rintro rfl
        exact hnot hy
      have hlen := (indexes_length v).le
      have hc := clearPage_spec hok hr₀ ((table_congr hm hr₀ hlen).trans hx)
      refine ⟨hc.ok,hc.start.trans hstart,hc.stop.trans hstop,fun r hr p hp => ?_,hc.cleared,
        fun r hr u hu => ?_,fun f => ?_,fun y hy hyf => ?_⟩
      · rw [hc.table r hr p hp,table_congr hm hr hp]
      · rw [hc.kept r hr u hu,lookup_congr hm hr]
      · rw [hc.freeMap,hfree]
        simp only [Bool.false_eq_true,false_and,or_false,true_and]
        refine or_congr_right (and_congr_right fun _ => ⟨?_,?_⟩)
        · rintro rfl
          exact ⟨v,_,rfl,hl,rfl⟩
        · rintro ⟨u,e,hu,he,rfl⟩
          rw [lookup_of_mod_eq hu,hl] at he
          rw [Option.some.inj he]
      · have hy' : ¬(s.kfree (pageTableEntryPpn (s.mem x (indexes v).2))).IsTable {r₀} y := by
          rintro ⟨r,hr,p,hp,hw⟩
          rw [Set.mem_singleton_iff] at hr
          subst hr
          exact hy ⟨r,rfl,p,hp,(table_congr hm hr₀ hp).symm.trans hw⟩
        have hkeep := hmem y (.inr hyf)
        rw [hc.frame y hy' rfl,hkeep]

/-- The pages a loop of `n` rounds from `a` on visits. -/
def Visited (a : BitVec 64) (n : ℕ) (v : VirtPageNum) : Prop :=
  ∃ k < n,v.toNat % 2^27 = (a.toNat+k) % 2^27

theorem visited_succ {a : BitVec 64} :
    Visited a (n+1) v ↔ v.toNat % 2^27 = (virtPageNumFromSizeT a).toNat % 2^27 ∨ Visited (a+1) n v := by
  have hnext : (a+1).toNat = (a.toNat+1) % 2^64 := by rw [BitVec.toNat_add]; rfl
  rw [virtPageNumFromSizeT_toNat]
  constructor
  · rintro ⟨k,hk,hv⟩
    cases k with
    | zero => exact .inl (by omega)
    | succ k => exact .inr ⟨k,by omega,by omega⟩
  · rintro (hv | ⟨k,hk,hv⟩)
    · exact ⟨0,by omega,by omega⟩
    · exact ⟨k+1,by omega,by omega⟩

theorem unmapFrom_spec {a : BitVec 64} (h : TablesOk s R) (hr₀ : r₀ ∈ R)
    (hleaf : doFree = true → ∀ v e,Visited a n v → s.lookup r₀ v = some e →
      ¬s.IsTable R (pageTableEntryPpn e)) :
    Unmaps R r₀ doFree (Visited a n) s (s.unmapFrom r₀ doFree n a) := by
  induction n generalizing s a with
  | zero => exact (Unmaps.refl h).congr fun v => by simp [Visited]
  | succ n ih =>
    rw [Frames.unmapFrom]
    have h₁ : Unmaps R r₀ doFree _ s (s.unmapPage r₀ doFree (virtPageNumFromSizeT a)) :=
      unmapPage_spec h hr₀ fun hd e he => hleaf hd _ e (visited_succ.2 (.inl rfl)) he
    have h₂ := ih (s := s.unmapPage r₀ doFree (virtPageNumFromSizeT a)) (a := a+1) h₁.ok
      fun hd v e hv he => ?_
    · exact (h₁.trans hr₀ h₂).congr fun v => visited_succ.symm
    · rw [h₁.isTable_iff subset_rfl]
      by_cases hsame : v.toNat % 2^27 = (virtPageNumFromSizeT a).toNat % 2^27
      · simp [h₁.cleared v hsame] at he
      · rw [h₁.kept r₀ hr₀ v (.inr hsame)] at he
        exact hleaf hd v e (visited_succ.2 (.inr hv)) he

/-! ### Freeing the tables -/

/-- The tree of height `n` below `x`, ready to be freed: its tables are allocated and met once,
and its deepest tables hold no valid entry. -/
structure Bare (s : Frames) (n : ℕ) (x : PhysPageNum) : Prop where
  forest : Forest pteChild s.mem n {x}
  inRange : ∀ y,Node pteChild s.mem n {x} y → s.InRange y
  used : ∀ y,Node pteChild s.mem n {x} y → s.freeMap y = false
  interior : ∀ p y i,p.length < n → s.table x p = some y →
    pageTableEntryIsValid (s.mem y i) = true → s.mem y i &&& 0xe = 0
  empty : ∀ p y i,p.length = n → s.table x p = some y → pageTableEntryIsValid (s.mem y i) = false

/-- The frames `D` are freed and only their contents change. -/
structure Releases (D : Set PhysPageNum) (s s' : Frames) : Prop where
  alloc : AllocatorOk s'
  start : s'.start = s.start
  stop : s'.stop = s.stop
  freeMap : ∀ f,s'.freeMap f = true ↔ s.freeMap f = true ∨ f ∈ D
  frame : ∀ f,f ∉ D → s'.mem f = s.mem f

theorem Releases.of_gives (h : Gives s f s') : Releases {f} s s' := by
  refine ⟨h.ok,h.start,h.stop,fun g => ?_,fun g hg => h.mem g hg⟩
  rw [h.freeMap]
  by_cases hg : g = f
  · simp [hg]
  · simp [hg]

theorem Bare.congr (h : Bare s n x) (hm : ∀ y,Node pteChild s.mem n {x} y → s'.mem y = s.mem y)
    (hf : ∀ y,Node pteChild s.mem n {x} y → s'.freeMap y = false) (hstart : s'.start = s.start)
    (hstop : s'.stop = s.stop) : Bare s' n x := by
  have hnode : ∀ y,Node pteChild s'.mem n {x} y ↔ Node pteChild s.mem n {x} y :=
    fun y => Node.congr hm
  have hwalk : ∀ p,p.length ≤ n → s'.table x p = s.table x p :=
    fun p hp => walk_congr_nodes (Set.mem_singleton x) hp hm
  refine ⟨h.forest.congr hm,fun y hy => ?_,fun y hy => hf y ((hnode y).1 hy),
    fun p y i hp hy hv => ?_,fun p y i hp hy => ?_⟩
  · rw [Frames.InRange,hstart,hstop]
    exact h.inRange y ((hnode y).1 hy)
  · rw [hwalk p hp.le] at hy
    rw [hm y ⟨x,rfl,p,hp.le,hy⟩] at hv ⊢
    exact h.interior p y i hp hy hv
  · rw [hwalk p hp.le] at hy
    rw [hm y ⟨x,rfl,p,hp.le,hy⟩]
    exact h.empty p y i hp hy

theorem Bare.below (h : Bare s (n+1) x) (hy : pteChild (s.mem x i) = some y) : Bare s n y := by
  have hnode : ∀ z,Node pteChild s.mem n {y} z → Node pteChild s.mem (n+1) {x} z :=
    fun z hz => node_succ.2 (.inr ⟨i,y,hy,hz⟩)
  have hwalk : ∀ p z,s.table y p = some z → s.table x (i :: p) = some z := by
    intro p z hz
    rw [Frames.table,walk_cons,hy]
    exact hz
  exact ⟨h.forest.descend hy,fun z hz => h.inRange z (hnode z hz),fun z hz => h.used z (hnode z hz),
    fun p z j hp hz => h.interior (i :: p) z j (by simpa using hp) (hwalk p z hz),
    fun p z j hp hz => h.empty (i :: p) z j (by simpa using hp) (hwalk p z hz)⟩

/-- What the loop over the entries of `x` still needs of those it has not visited. -/
structure Pending (s : Frames) (n : ℕ) (x : PhysPageNum) (l : List (Fin 512)) : Prop where
  alloc : AllocatorOk s
  used : s.freeMap x = false
  rights : ∀ i ∈ l,pageTableEntryIsValid (s.mem x i) = true → s.mem x i &&& 0xe = 0
  bare : ∀ i ∈ l,∀ y,pteChild (s.mem x i) = some y → Bare s n y
  apart : ∀ i ∈ l,∀ y,pteChild (s.mem x i) = some y → ¬Node pteChild s.mem n {y} x
  disjoint : ∀ i ∈ l,∀ j ∈ l,∀ y z f,pteChild (s.mem x i) = some y → pteChild (s.mem x j) = some z →
    Node pteChild s.mem n {y} f → Node pteChild s.mem n {z} f → i = j

/-- The tables below the entries `l` of `x`. -/
def Below (s : Frames) (n : ℕ) (x : PhysPageNum) (l : List (Fin 512)) : Set PhysPageNum :=
  { f | ∃ i ∈ l,∃ y,pteChild (s.mem x i) = some y ∧ Node pteChild s.mem n {y} f }

theorem pteChild_of_valid {e : Word} (h : pageTableEntryIsValid e = true) :
    pteChild e = some (pageTableEntryPpn e) := if_pos h

namespace Pending

variable {l : List (Fin 512)}

theorem tail (h : Pending s n x (i :: l)) : Pending s n x l :=
  ⟨h.alloc,h.used,fun j hj => h.rights j (.tail i hj),fun j hj => h.bare j (.tail i hj),
    fun j hj => h.apart j (.tail i hj),
    fun j hj k hk => h.disjoint j (.tail i hj) k (.tail i hk)⟩

/-- The tree below one entry is freed and the entry cleared; the others stay as they were. -/
theorem next (h : Pending s n x (i :: l)) (hil : i ∉ l) (hy : pteChild (s.mem x i) = some y)
    (hr : Releases { f | Node pteChild s.mem n {y} f } s s') :
    Pending (s'.store x i pageTableEntryEmpty) n x l ∧
      Below (s'.store x i pageTableEntryEmpty) n x l = Below s n x l := by
  have hxy := h.apart i (.head l) y hy
  have hxfree : s'.freeMap x = false := by
    by_contra hcon
    rw [Bool.not_eq_false,hr.freeMap,h.used] at hcon
    simp [hxy] at hcon
  have hword : ∀ j ∈ l,(s'.store x i pageTableEntryEmpty).mem x j = s.mem x j := by
    intro j hj
    have hji : j ≠ i := by
      rintro rfl
      exact hil hj
    rw [Frames.store_mem,store_entry_of_ne (.inr hji),hr.frame x hxy]
  have hout : ∀ j ∈ l,∀ z,pteChild (s.mem x j) = some z → ∀ f,Node pteChild s.mem n {z} f →
      f ≠ x ∧ ¬Node pteChild s.mem n {y} f := by
    intro j hj z hz f hf
    constructor
    · rintro rfl
      exact h.apart j (.tail i hj) z hz hf
    · intro hfy
      have hij := h.disjoint i (.head l) j (.tail i hj) y z f hy hz hfy hf
      exact hil (hij ▸ hj)
  have hmem : ∀ j ∈ l,∀ z,pteChild (s.mem x j) = some z → ∀ f,Node pteChild s.mem n {z} f →
      (s'.store x i pageTableEntryEmpty).mem f = s.mem f := by
    intro j hj z hz f hf
    obtain ⟨hfx,hfy⟩ := hout j hj z hz f hf
    rw [Frames.store_mem,store_of_ne hfx,hr.frame f hfy]
  have hfree : ∀ j ∈ l,∀ z,pteChild (s.mem x j) = some z → ∀ f,Node pteChild s.mem n {z} f →
      (s'.store x i pageTableEntryEmpty).freeMap f = false := by
    intro j hj z hz f hf
    have hused := (h.bare j (.tail i hj) z hz).used f hf
    show s'.freeMap f = false
    by_contra hcon
    rw [Bool.not_eq_false,hr.freeMap,hused] at hcon
    simp [(hout j hj z hz f hf).2] at hcon
  have hnode : ∀ j ∈ l,∀ z,pteChild (s.mem x j) = some z → ∀ f,
      Node pteChild (s'.store x i pageTableEntryEmpty).mem n {z} f ↔ Node pteChild s.mem n {z} f :=
    fun j hj z hz f => Node.congr (hmem j hj z hz)
  refine ⟨⟨hr.alloc.store hxfree,hxfree,fun j hj hv => ?_,fun j hj z hz => ?_,fun j hj z hz => ?_,
    fun j hj k hk z z' f hz hz' hf hf' => ?_⟩,?_⟩
  · rw [hword j hj] at hv ⊢
    exact h.rights j (.tail i hj) hv
  · rw [hword j hj] at hz
    exact (h.bare j (.tail i hj) z hz).congr (hmem j hj z hz) (hfree j hj z hz) hr.start hr.stop
  · rw [hword j hj] at hz
    rw [hnode j hj z hz]
    exact h.apart j (.tail i hj) z hz
  · rw [hword j hj] at hz
    rw [hword k hk] at hz'
    rw [hnode j hj z hz] at hf
    rw [hnode k hk z' hz'] at hf'
    exact h.disjoint j (.tail i hj) k (.tail i hk) z z' f hz hz' hf hf'
  · ext f
    constructor
    · rintro ⟨j,hj,z,hz,hf⟩
      rw [hword j hj] at hz
      exact ⟨j,hj,z,hz,(hnode j hj z hz f).1 hf⟩
    · rintro ⟨j,hj,z,hz,hf⟩
      exact ⟨j,hj,z,by rwa [hword j hj],(hnode j hj z hz f).2 hf⟩

end Pending

/-- The loop over entries, given what the recursive call does to the trees below them. -/
theorem freeEntries_spec {walk : PhysPageNum → Frames → Except Panic Frames}
    (hwalk : ∀ s y,AllocatorOk s → Bare s n y →
      ∃ s',walk y s = .ok s' ∧ Releases { f | Node pteChild s.mem n {y} f } s s')
    {l : List (Fin 512)} (hl : l.Nodup) (h : Pending s n x l) :
    ∃ s',Frames.freeEntries walk x s l = .ok s' ∧ AllocatorOk s' ∧ s'.start = s.start ∧
      s'.stop = s.stop ∧ (∀ f,s'.freeMap f = true ↔ s.freeMap f = true ∨ f ∈ Below s n x l) ∧
      ∀ f,f ≠ x → f ∉ Below s n x l → s'.mem f = s.mem f := by
  induction l generalizing s with
  | nil => exact ⟨s,rfl,h.alloc,rfl,rfl,by simp [Below],fun _ _ _ => rfl⟩
  | cons i l ih =>
    obtain ⟨hil,hl⟩ := List.nodup_cons.1 hl
    rw [Frames.freeEntries,Frames.freeEntry]
    have hcons : ∀ f,f ∈ Below s n x (i :: l) ↔
        (∃ y,pteChild (s.mem x i) = some y ∧ Node pteChild s.mem n {y} f) ∨ f ∈ Below s n x l := by
      intro f
      simp [Below]
    cases hv : pageTableEntryIsValid (s.mem x i) with
    | false =>
      have hsame : ∀ f,f ∈ Below s n x (i :: l) ↔ f ∈ Below s n x l := by
        intro f
        rw [hcons,pteChild_eq_none.2 hv]
        simp
      simp only [Bool.false_eq_true,false_and,if_false,hsame]
      exact ih hl h.tail
    | true =>
      have hy := pteChild_of_valid hv
      obtain ⟨s₁,he,hr⟩ := hwalk s _ h.alloc (h.bare i (.head l) _ hy)
      obtain ⟨hnext,hbelow⟩ := h.next hil hy hr
      obtain ⟨s',he',ha,hstart,hstop,hfree,hmem⟩ := ih hl hnext
      rw [if_pos ⟨rfl,h.rights i (.head l) hv⟩,he]
      refine ⟨s',he',ha,hstart.trans hr.start,hstop.trans hr.stop,fun f => ?_,fun f hfx hf => ?_⟩
      · have hmid : (s₁.store x i pageTableEntryEmpty).freeMap f = true ↔
            s.freeMap f = true ∨ Node pteChild s.mem n {pageTableEntryPpn (s.mem x i)} f := hr.freeMap f
        rw [hfree,hbelow,hmid,hcons,hy]
        simp [or_assoc]
      · rw [hcons,hy] at hf
        rw [hbelow] at hmem
        have hf' : ¬Node pteChild s.mem n {pageTableEntryPpn (s.mem x i)} f := by
          intro hc
          exact hf (.inl ⟨_,rfl,hc⟩)
        rw [hmem f hfx fun hc => hf (.inr hc),Frames.store_mem,store_of_ne hfx,hr.frame f hf']

theorem freeEntries_blank {walk : PhysPageNum → Frames → Except Panic Frames}
    (h : ∀ i,pageTableEntryIsValid (s.mem x i) = false) (l : List (Fin 512)) :
    Frames.freeEntries walk x s l = .ok s := by
  induction l with
  | nil => rfl
  | cons i l ih => simp [Frames.freeEntries,Frames.freeEntry,h i,ih]

theorem Bare.pending (ha : AllocatorOk s) (h : Bare s (n+1) x) (l : List (Fin 512)) :
    Pending s n x l :=
  ⟨ha,h.used x (.root rfl),fun i _ => h.interior [] x i (by simp) rfl,fun _ _ _ hy => h.below hy,
    fun _ _ _ hy hx => h.forest.ne_root hy hx rfl,
    fun _ _ _ _ _ _ _ hy hz => h.forest.disjoint hy hz⟩

theorem freewalk_of_entries
    (h : Frames.freeEntries (Frames.freewalk n) x s Frames.entryIndices = .ok s') :
    Frames.freewalk (n+1) x s = .ok (s'.kfree x) := by
  rw [Frames.freewalk,Frames.freeTable,h]

/-- `freewalk` frees the tables of a bare tree and nothing else. -/
theorem freewalk_spec (ha : AllocatorOk s) (h : Bare s n x) :
    ∃ s',Frames.freewalk (n+1) x s = .ok s' ∧ Releases { f | Node pteChild s.mem n {x} f } s s' := by
  induction n generalizing s x with
  | zero =>
    have hblank : ∀ i,pageTableEntryIsValid (s.mem x i) = false := fun i => h.empty [] x i rfl rfl
    have hroot : { f | Node pteChild s.mem 0 {x} f } = {x} := by
      ext f
      constructor
      · rintro ⟨r,hr,p,hp,hw⟩
        obtain rfl := List.eq_nil_of_length_eq_zero (Nat.le_zero.1 hp)
        exact (Option.some.inj hw).symm.trans hr
      · rintro rfl
        exact .root rfl
    rw [hroot]
    exact ⟨s.kfree x,freewalk_of_entries (freeEntries_blank hblank _),
      .of_gives (ha.kfree (h.inRange x (.root rfl)) (h.used x (.root rfl)))⟩
  | succ n ih =>
    obtain ⟨s₁,he,ha₁,hstart,hstop,hfree,hmem⟩ :=
      freeEntries_spec (fun s y ha hy => ih ha hy) entryIndices_nodup (h.pending ha _)
    have hall : ∀ f,Node pteChild s.mem (n+1) {x} f ↔
        f = x ∨ f ∈ Below s n x Frames.entryIndices := by
      intro f
      rw [node_succ]
      simp [Below,mem_entryIndices]
    have hx : x ∉ Below s n x Frames.entryIndices := by
      rintro ⟨i,-,y,hy,hxy⟩
      exact h.forest.ne_root hy hxy rfl
    have hused : s₁.freeMap x = false := by
      by_contra hcon
      rw [Bool.not_eq_false,hfree,h.used x (.root rfl)] at hcon
      simp [hx] at hcon
    have hin : s₁.InRange x := by
      rw [Frames.InRange,hstart,hstop]
      exact h.inRange x (.root rfl)
    have hg := ha₁.kfree hin hused
    refine ⟨s₁.kfree x,freewalk_of_entries he,hg.ok,hg.start.trans hstart,hg.stop.trans hstop,fun f => ?_,fun f hf => ?_⟩
    · rw [Set.mem_ofPred_eq,hall,hg.freeMap]
      by_cases hfx : f = x
      · simp [hfx]
      · simp [hfx,hfree]
    · rw [Set.mem_ofPred_eq,hall,not_or] at hf
      rw [hg.mem f hf.1,hmem f hf.1 hf.2]

/-- A table without leaf entries is bare. -/
theorem TablesOk.bare (h : TablesOk s R) (hr₀ : r₀ ∈ R) (hnone : ∀ v,s.lookup r₀ v = none) :
    Bare s 2 r₀ := by
  have hsub : {r₀} ⊆ R := Set.singleton_subset_iff.2 hr₀
  refine ⟨h.forest.mono hsub,fun y hy => h.inRange y (hy.mono hsub),fun y hy => h.used y (hy.mono hsub),
    fun p y i => h.interior r₀ hr₀ p y i,fun p y i hp hy => ?_⟩
  obtain ⟨v,hv⟩ := indexes_surj hp i
  have := invalid_of_lookup (hnone v) (y := y)
  rw [hv] at this
  exact this hy

/-- Freeing the tables of a root without leaf entries. -/
theorem TablesOk.freewalk (h : TablesOk s R) (hr₀ : r₀ ∈ R) (hnone : ∀ v,s.lookup r₀ v = none) :
    ∃ s',Frames.freewalk 3 r₀ s = .ok s' ∧ Releases { f | s.IsTable {r₀} f } s s' ∧
      TablesOk s' (R \ {r₀}) := by
  obtain ⟨s',he,hr⟩ := freewalk_spec h.alloc (h.bare hr₀ hnone)
  have hrest := h.mono (Set.sdiff_subset : R \ {r₀} ⊆ R)
  have hout : ∀ x,s.IsTable (R \ {r₀}) x → ¬s.IsTable {r₀} x := by
    rintro x ⟨r,hr,p,hp,hw⟩ ⟨r',hr',q,hq,hw'⟩
    rw [Set.mem_singleton_iff] at hr'
    subst hr'
    exact hr.2 (h.forest hr.1 hr₀ hp hq hw hw').1
  refine ⟨s',he,hr,hrest.congr hr.alloc hr.start hr.stop (fun x hx => hr.frame x (hout x hx))
    fun x hx => ?_⟩
  by_contra hcon
  rw [Bool.not_eq_false,hr.freeMap,hrest.used x hx] at hcon
  simp [hout x hx] at hcon

end Paging
end QuardStarNet
