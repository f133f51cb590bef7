import QuardStarNet.PageTable

/-! What mapping does to the tables in memory. The tables of a set of roots form a forest in the
allocated part of memory; `find_pte_create` and the mapping loop extend one tree of it by frames
of the free list and leave the rest of memory alone. -/

namespace QuardStarNet
namespace Paging

open RadixTree

variable {s s' s'' : Frames} {R : Set PhysPageNum} {r r₀ x y f : PhysPageNum}
  {p path rest : List (Fin 512)} {i last : Fin 512} {w : Word}

/-- Writing to a frame in use. -/
theorem AllocatorOk.store (h : AllocatorOk s) (hx : s.freeMap x = false) :
    AllocatorOk (s.store x i w) := by
  refine h.congr_mem fun g hg => ?_
  rw [store_of_ne]
  rintro rfl
  simp [hx] at hg

/-- A frame that is a table of one of the roots. -/
abbrev Frames.IsTable (s : Frames) (R : Set PhysPageNum) (x : PhysPageNum) : Prop :=
  Node pteChild s.mem 2 R x

theorem table_congr (hm : ∀ x,s.IsTable R x → s'.mem x = s.mem x) (hr : r ∈ R)
    (hp : p.length ≤ 2) : s'.table r p = s.table r p :=
  walk_congr_nodes hr hp hm

/-- A page's entry is read off the tables. -/
theorem lookup_congr (hm : ∀ x,s.IsTable R x → s'.mem x = s.mem x) (hr : r ∈ R) (v : VirtPageNum) :
    s'.lookup r v = s.lookup r v := by
  have hlen := (indexes_length v).le
  rw [Frames.lookup_eq,Frames.lookup_eq,Frames.entry,Frames.entry,table_congr hm hr hlen]
  cases hx : s.table r (indexes v).1 with
  | none => rfl
  | some x => rw [Option.bind_some,Option.bind_some,hm x ⟨r,hr,_,hlen,hx⟩]

/-- The tables of the roots `R` are allocated frames, each met by one path of one root; interior
entries carry no access right. -/
structure TablesOk (s : Frames) (R : Set PhysPageNum) : Prop where
  alloc : AllocatorOk s
  forest : Forest pteChild s.mem 2 R
  inRange : ∀ x,s.IsTable R x → s.InRange x
  used : ∀ x,s.IsTable R x → s.freeMap x = false
  interior : ∀ r ∈ R,∀ p x i,p.length < 2 → s.table r p = some x →
    pageTableEntryIsValid (s.mem x i) = true → s.mem x i &&& 0xe = 0

/-- From `s` to `s'` the tree of `r₀` grows by frames of the free list, and nothing outside that
tree changes. -/
structure Extends (R : Set PhysPageNum) (r₀ : PhysPageNum) (s s' : Frames) : Prop where
  ok : TablesOk s' R
  start : s'.start = s.start
  stop : s'.stop = s.stop
  freed : ∀ f,s'.freeMap f = true → s.freeMap f = true
  keep : ∀ r ∈ R,∀ p x,p.length ≤ 2 → s.table r p = some x → s'.table r p = some x
  other : ∀ r ∈ R,r ≠ r₀ → ∀ p,p.length ≤ 2 → s'.table r p = s.table r p
  fresh : ∀ p x,p.length ≤ 2 → s'.table r₀ p = some x → s.table r₀ p = some x ∨ s.freeMap x = true
  spent : ∀ f,s.freeMap f = true → s'.freeMap f = false → s'.IsTable {r₀} f
  frame : ∀ x,¬s'.IsTable {r₀} x → s'.mem x = s.mem x

namespace TablesOk

theorem table_isTable (hr : r ∈ R) (hp : p.length ≤ 2) (hx : s.table r p = some x) :
    s.IsTable R x := ⟨r,hr,p,hp,hx⟩

theorem not_isTable_of_free (h : TablesOk s R) (hf : s.freeMap f = true) : ¬s.IsTable R f := by
  intro ht
  simp [h.used f ht] at hf

/-- Changes that leave the tables' contents alone and free none of them. -/
theorem congr (h : TablesOk s R) (ha : AllocatorOk s') (hstart : s'.start = s.start)
    (hstop : s'.stop = s.stop) (hm : ∀ x,s.IsTable R x → s'.mem x = s.mem x)
    (hf : ∀ x,s.IsTable R x → s'.freeMap x = false) : TablesOk s' R := by
  have hnode : ∀ x,s'.IsTable R x ↔ s.IsTable R x := fun x => Node.congr hm
  refine ⟨ha,h.forest.congr hm,fun x hx => ?_,fun x hx => hf x ((hnode x).1 hx),?_⟩
  · rw [Frames.InRange,hstart,hstop]
    exact h.inRange x ((hnode x).1 hx)
  · intro r hr p x i hp hx hv
    rw [Frames.table,walk_congr_nodes hr (by omega) hm] at hx
    have hxm := hm x (table_isTable hr (by omega) hx)
    rw [hxm] at hv ⊢
    exact h.interior r hr p x i hp hx hv

theorem takes_mem (h : TablesOk s R) (ht : Takes s f s') : ∀ x,s.IsTable R x → s'.mem x = s.mem x := by
  intro x hx
  rw [ht.mem,Function.update_of_ne]
  rintro rfl
  exact h.not_isTable_of_free ht.free hx

theorem takes_used (h : TablesOk s R) (ht : Takes s f s') :
    ∀ x,s.IsTable R x → s'.freeMap x = false := by
  intro x hx
  rw [ht.freeMap]
  by_cases hxf : x = f
  · simp [hxf]
  · rw [Function.update_of_ne hxf]
    exact h.used x hx

theorem takes (h : TablesOk s R) (ht : Takes s f s') : TablesOk s' R :=
  h.congr ht.ok ht.start ht.stop (h.takes_mem ht) (h.takes_used ht)

theorem gives_mem (ht : Gives s f s') (hf : ¬s.IsTable R f) :
    ∀ x,s.IsTable R x → s'.mem x = s.mem x := by
  intro x hx
  refine ht.mem x ?_
  rintro rfl
  exact hf hx

theorem gives (h : TablesOk s R) (ht : Gives s f s') (hf : ¬s.IsTable R f) : TablesOk s' R := by
  refine h.congr ht.ok ht.start ht.stop (gives_mem ht hf) fun x hx => ?_
  rw [ht.freeMap,Function.update_of_ne]
  · exact h.used x hx
  · rintro rfl
    exact hf hx

theorem takes_blank (ht : Takes s f s') (i : Fin 512) : pteChild (s'.mem f i) = none := by
  rw [ht.mem]
  simp [pteChild]

/-- A frame just allocated is the root of an empty tree. -/
theorem newRoot (h : TablesOk s R) (ht : Takes s f s') : TablesOk s' (insert f R) := by
  have h' := h.takes ht
  have hnot : ¬s'.IsTable R f := by
    rw [Frames.IsTable,Node.congr (h.takes_mem ht)]
    exact h.not_isTable_of_free ht.free
  have hin : s'.InRange f := by
    rw [Frames.InRange,ht.start,ht.stop]
    exact h.alloc.inside f ht.free
  have hnode : ∀ x,s'.IsTable (insert f R) x → x = f ∨ s'.IsTable R x := by
    rintro x ⟨r,rfl | hr,p,hp,hx⟩
    · cases p with
      | nil => exact .inl (Option.some.inj hx).symm
      | cons i p => simp [walk_cons,takes_blank ht] at hx
    · exact .inr ⟨r,hr,p,hp,hx⟩
  refine ⟨h'.alloc,h'.forest.insert_root hnot (takes_blank ht),fun x hx => ?_,fun x hx => ?_,?_⟩
  · rcases hnode x hx with rfl | hx
    · exact hin
    · exact h'.inRange x hx
  · rcases hnode x hx with rfl | hx
    · simp [ht.freeMap]
    · exact h'.used x hx
  · rintro r (rfl | hr) p x i hp hx hv
    · cases p with
      | nil =>
        rw [← Option.some.inj hx,ht.mem] at hv
        simp at hv
      | cons j p => simp [walk_cons,takes_blank ht] at hx
    · exact h'.interior r hr p x i hp hx hv

theorem mono {R' : Set PhysPageNum} (h : TablesOk s R) (hR : R' ⊆ R) : TablesOk s R' :=
  ⟨h.alloc,h.forest.mono hR,fun x hx => h.inRange x (hx.mono hR),fun x hx => h.used x (hx.mono hR),
    fun r hr => h.interior r (hR hr)⟩

end TablesOk

namespace Extends

theorem refl (h : TablesOk s R) : Extends R r₀ s s :=
  ⟨h,rfl,rfl,fun _ => id,fun _ _ _ _ _ => id,fun _ _ _ _ _ => rfl,fun _ _ _ => .inl,
    fun f hf hf' => by simp [hf] at hf',fun _ _ => rfl⟩

theorem isTable (hE : Extends R r₀ s s') (hr₀ : r₀ ∈ R) (hx : s.IsTable {r₀} x) :
    s'.IsTable {r₀} x := by
  obtain ⟨r,hr,p,hp,hw⟩ := hx
  rw [Set.mem_singleton_iff] at hr
  subst hr
  exact ⟨r,rfl,p,hp,hE.keep r hr₀ p x hp hw⟩

theorem trans (hr₀ : r₀ ∈ R) (h₁ : Extends R r₀ s s') (h₂ : Extends R r₀ s' s'') :
    Extends R r₀ s s'' where
  ok := h₂.ok
  start := h₂.start.trans h₁.start
  stop := h₂.stop.trans h₁.stop
  freed f hf := h₁.freed f (h₂.freed f hf)
  keep r hr p x hp hx := h₂.keep r hr p x hp (h₁.keep r hr p x hp hx)
  other r hr hne p hp := (h₂.other r hr hne p hp).trans (h₁.other r hr hne p hp)
  fresh p x hp hx := by
    rcases h₂.fresh p x hp hx with hx | hx
    · exact h₁.fresh p x hp hx
    · exact .inr (h₁.freed x hx)
  spent f hf hf'' := by
    cases hf' : s'.freeMap f with
    | true => exact h₂.spent f hf' hf''
    | false => exact h₂.isTable hr₀ (h₁.spent f hf hf')
  frame x hx := by
    rw [h₂.frame x hx,h₁.frame x fun hx' => hx (h₂.isTable hr₀ hx')]

/-- The tables of other roots are no tables of `r₀`, so their entries stay. -/
theorem entry_other (hE : Extends R r₀ s s') (hr₀ : r₀ ∈ R) (hr : r ∈ R) (hne : r ≠ r₀)
    (hp : p.length ≤ 2) : s'.entry r p i = s.entry r p i := by
  rw [Frames.entry,Frames.entry,hE.other r hr hne p hp]
  cases hx : s.table r p with
  | none => rfl
  | some x =>
    have hmem : s'.mem x = s.mem x := by
      refine hE.frame x ?_
      rintro ⟨r',hr',q,hq,hxq⟩
      rw [Set.mem_singleton_iff] at hr'
      subst hr'
      exact hne (hE.ok.forest hr hr₀ hp hq (hE.keep r hr p x hp hx) hxq).1
    simp only [Option.bind_some,hmem]

end Extends

/-! ### Leaf entries -/

section StoreLeaf

variable (h : TablesOk s R) (hr₀ : r₀ ∈ R) (hpath : path.length = 2)
  (hx : s.table r₀ path = some x)

include h hr₀ hpath hx

theorem table_store_leaf (hr : r ∈ R) (hp : p.length ≤ 2) :
    (s.store x i w).table r p = s.table r p :=
  h.forest.walk_store_leaf hr₀ hpath hx hr hp

/-- Rewriting a leaf entry keeps every tree. -/
theorem Extends.store_leaf : Extends R r₀ s (s.store x i w) := by
  have hwalk {r : PhysPageNum} {p : List (Fin 512)} (hr : r ∈ R) (hp : p.length ≤ 2) :
      (s.store x i w).table r p = s.table r p := table_store_leaf h hr₀ hpath hx hr hp
  have hnode : ∀ y,(s.store x i w).IsTable R y ↔ s.IsTable R y := by
    intro y
    constructor <;> rintro ⟨r,hr,p,hp,hw⟩
    · exact ⟨r,hr,p,hp,(hwalk hr hp).symm.trans hw⟩
    · exact ⟨r,hr,p,hp,(hwalk hr hp).trans hw⟩
  have hxt := TablesOk.table_isTable hr₀ hpath.le hx
  have hok : TablesOk (s.store x i w) R := by
    refine ⟨h.alloc.store (h.used x hxt),h.forest.of_walk fun r hr p hp => hwalk hr hp,
      fun y hy => h.inRange y ((hnode y).1 hy),fun y hy => h.used y ((hnode y).1 hy),?_⟩
    intro r hr q y j hq hy hv
    rw [hwalk hr (by omega)] at hy
    have hyx : y ≠ x := by
      rintro rfl
      have hlen := congrArg List.length (h.forest hr hr₀ hq.le hpath.le hy hx).2
      omega
    have hmem : (s.store x i w).mem y = s.mem y := store_of_ne hyx
    rw [hmem] at hv ⊢
    exact h.interior r hr q y j hq hy hv
  refine ⟨hok,rfl,rfl,fun _ => id,fun r hr q y hq hy => by rwa [hwalk hr hq],
    fun r hr _ q hq => hwalk hr hq,fun q y hq hy => .inl (by rwa [← hwalk hr₀ hq]),
    fun g hg hg' => absurd (hg'.symm.trans hg) (by simp),fun y hy => store_of_ne ?_⟩
  rintro rfl
  exact hy ⟨r₀,rfl,path,hpath.le,(hwalk hr₀ hpath.le).trans hx⟩

theorem entry_store_leaf (hr : r ∈ R) (hp : p.length = 2) {j : Fin 512} :
    (s.store x i w).entry r p j =
      if r = r₀ ∧ p = path ∧ j = i then (if pageTableEntryIsValid w then some w else none)
      else s.entry r p j := by
  rw [Frames.entry,table_store_leaf h hr₀ hpath hx hr hp.le]
  by_cases hsame : r = r₀ ∧ p = path
  · obtain ⟨rfl,rfl⟩ := hsame
    by_cases hj : j = i
    · subst hj
      simp [hx,Frames.store]
    · simp [hx,Frames.store,hj,Frames.entry,store_entry_of_ne (.inr hj)]
  · rw [if_neg fun hc => hsame ⟨hc.1,hc.2.1⟩,Frames.entry]
    cases hy : s.table r p with
    | none => rfl
    | some y =>
      have hyx : y ≠ x := by
        rintro rfl
        exact hsame (h.forest hr hr₀ hp.le hpath.le hy hx)
      simp [Frames.store,store_of_ne hyx]

end StoreLeaf

/-! ### Interior entries -/

section Install

variable (h : TablesOk s R) (hr₀ : r₀ ∈ R) (hpath : path.length < 2)
  (hx : s.table r₀ path = some x) (hempty : pageTableEntryIsValid (s.mem x i) = false)
  (ht : Takes s f s')

include h hr₀ hpath hx hempty ht

theorem table_install (hr : r ∈ R) (hp : p.length ≤ 2) :
    (s'.store x i (pageTableEntryNew f pteV)).table r p =
      if r = r₀ ∧ p = path ++ [i] then some f else s.table r p := by
  have hm := h.takes_mem ht
  have hxt := TablesOk.table_isTable hr₀ hpath.le hx
  have hin := h.alloc.inside f ht.free
  rw [Frames.table,Frames.store,
    Forest.walk_install (h.takes ht).forest hr₀ hpath (by rwa [walk_congr_nodes hr₀ hpath.le hm])
      (by rw [hm x hxt,pteChild_eq_none,hempty]) (pteChild_new (h.alloc.lt_of_inRange hin))
      (by rw [Node.congr hm]; exact h.not_isTable_of_free ht.free) (TablesOk.takes_blank ht) hr hp,
    walk_congr_nodes hr hp hm]

/-- Hanging a frame of the free list below an empty interior entry. -/
theorem Extends.install : Extends R r₀ s (s'.store x i (pageTableEntryNew f pteV)) := by
  have hwalk {r : PhysPageNum} {p : List (Fin 512)} (hr : r ∈ R) (hp : p.length ≤ 2) :=
    table_install h hr₀ hpath hx hempty ht hr hp
  have hm := h.takes_mem ht
  have hxt := TablesOk.table_isTable hr₀ hpath.le hx
  have hin := h.alloc.inside f ht.free
  have hlt := h.alloc.lt_of_inRange hin
  have hnf := h.not_isTable_of_free ht.free
  have h' := h.takes ht
  have hxf : x ≠ f := fun he => hnf (he ▸ hxt)
  have hlen : (path ++ [i]).length ≤ 2 := by
    rw [List.length_append,List.length_singleton]
    omega
  have hf : (s'.store x i (pageTableEntryNew f pteV)).IsTable {r₀} f :=
    ⟨r₀,rfl,path ++ [i],hlen,(hwalk hr₀ hlen).trans (if_pos ⟨rfl,rfl⟩)⟩
  have hnode : ∀ y,(s'.store x i (pageTableEntryNew f pteV)).IsTable R y → y = f ∨ s.IsTable R y := by
    rintro y ⟨r,hr,p,hp,hw⟩
    replace hw := (hwalk hr hp).symm.trans hw
    split at hw
    · exact .inl (Option.some.inj hw).symm
    · exact .inr ⟨r,hr,p,hp,hw⟩
  have hkeep : ∀ r ∈ R,∀ p y,p.length ≤ 2 → s.table r p = some y →
      (s'.store x i (pageTableEntryNew f pteV)).table r p = some y := by
    intro r hr p y hp hy
    rw [hwalk hr hp,if_neg,hy]
    rintro ⟨rfl,rfl⟩
    rw [Frames.table_snoc,hx,Option.bind_some,pteChild_eq_none.2 hempty] at hy
    simp at hy
  have hok : TablesOk (s'.store x i (pageTableEntryNew f pteV)) R := by
    refine ⟨h'.alloc.store (h.takes_used ht x hxt),?_,fun y hy => ?_,fun y hy => ?_,?_⟩
    · exact h'.forest.install hr₀ hpath (by rwa [walk_congr_nodes hr₀ hpath.le hm])
        (by rw [hm x hxt,pteChild_eq_none,hempty]) (pteChild_new hlt)
        (by rwa [Node.congr hm]) (TablesOk.takes_blank ht)
    · show s'.InRange y
      rw [Frames.InRange,ht.start,ht.stop]
      rcases hnode y hy with rfl | hy
      · exact hin
      · exact h.inRange y hy
    · show s'.freeMap y = false
      rcases hnode y hy with rfl | hy
      · simp [ht.freeMap]
      · exact h.takes_used ht y hy
    · intro r hr q y j hq hy hv
      rw [hwalk hr hq.le] at hy
      split at hy
      · obtain rfl := Option.some.inj hy
        rw [show (s'.store x i (pageTableEntryNew f pteV)).mem f = s'.mem f from
          store_of_ne hxf.symm,ht.mem] at hv
        simp at hv
      · have hyt := TablesOk.table_isTable hr hq.le hy
        by_cases hplace : y = x ∧ j = i
        · obtain ⟨rfl,rfl⟩ := hplace
          simp only [Frames.store,store_same]
          exact pageTableEntryNew_interior f
        · have hmem : (s'.store x i (pageTableEntryNew f pteV)).mem y j = s.mem y j := by
            rw [Frames.store_mem,store_entry_of_ne (by tauto),hm y hyt]
          rw [hmem] at hv ⊢
          exact h.interior r hr q y j hq hy hv
  have hother : ∀ r ∈ R,r ≠ r₀ → ∀ p,p.length ≤ 2 →
      (s'.store x i (pageTableEntryNew f pteV)).table r p = s.table r p := by
    intro r hr hne p hp
    rw [hwalk hr hp,if_neg fun hc => hne hc.1]
  refine ⟨hok,ht.start,ht.stop,fun g hg => ?_,hkeep,hother,fun q y hq hy => ?_,
    fun g hg hg' => ?_,fun y hy => ?_⟩
  · have hg' : s'.freeMap g = true := hg
    rw [ht.freeMap] at hg'
    by_cases hgf : g = f
    · simp [hgf] at hg'
    · simpa [hgf] using hg'
  · rw [hwalk hr₀ hq] at hy
    split at hy
    · rw [← Option.some.inj hy]
      exact .inr ht.free
    · exact .inl hy
  · have hg'' : s'.freeMap g = false := hg'
    rw [ht.freeMap] at hg''
    by_cases hgf : g = f
    · rw [hgf]
      exact hf
    · rw [Function.update_of_ne hgf,hg] at hg''
      simp at hg''
  · have hyf : y ≠ f := by
      intro he
      rw [he] at hy
      exact hy hf
    have hyx : y ≠ x := by
      rintro rfl
      exact hy ⟨r₀,rfl,path,hpath.le,hkeep r₀ hr₀ path y hpath.le hx⟩
    rw [Frames.store_mem,store_of_ne hyx,ht.mem,Function.update_of_ne hyf]

/-- A new table is blank, so no page gains or loses an entry. -/
theorem entry_install (hp : p.length = 2) {j : Fin 512} :
    (s'.store x i (pageTableEntryNew f pteV)).entry r₀ p j = s.entry r₀ p j := by
  have hm := h.takes_mem ht
  have hxt := TablesOk.table_isTable hr₀ hpath.le hx
  have hnf := h.not_isTable_of_free ht.free
  rw [Frames.entry,table_install h hr₀ hpath hx hempty ht hr₀ hp.le,Frames.entry]
  by_cases hnew : p = path ++ [i]
  · have hnone : s.table r₀ p = none := by
      rw [hnew,Frames.table_snoc,hx,Option.bind_some,pteChild_eq_none.2 hempty]
    have hxf : f ≠ x := fun he => hnf (he ▸ hxt)
    rw [hnone,if_pos ⟨rfl,hnew⟩]
    simp [Frames.store,store_of_ne hxf,ht.mem]
  · rw [if_neg fun hc => hnew hc.2]
    cases hy : s.table r₀ p with
    | none => rfl
    | some y =>
      have hyx : y ≠ x := by
        rintro rfl
        have hlen := congrArg List.length (h.forest hr₀ hr₀ hp.le hpath.le hy hx).2
        omega
      have hmem : (s'.store x i (pageTableEntryNew f pteV)).mem y = s.mem y := by
        rw [Frames.store_mem,store_of_ne hyx,hm y ⟨r₀,hr₀,p,hp.le,hy⟩]
      simp only [Option.bind_some,hmem]

end Install

/-! ### The walk of `find_pte_create` and the mapping loop -/

theorem table_child (hx : s.table r path = some x) (hv : pageTableEntryIsValid (s.mem x i) = true) :
    s.table r (path ++ [i]) = some (pageTableEntryPpn (s.mem x i)) := by
  rw [Frames.table_snoc,hx,Option.bind_some,pteChild,if_pos hv]

/-- The walk stops for want of memory, or it reaches the table at the end of the path; then no
page has gained or lost an entry. -/
theorem createFrom_spec (h : TablesOk s R) (hr₀ : r₀ ∈ R) (hx : s.table r₀ path = some x)
    (hlen : path.length+rest.length = 2) :
    (s.createFrom x rest last = .error .memory ∧ s.freePages < rest.length) ∨
      ∃ y s',s.createFrom x rest last = .ok ((y,last),s') ∧ Extends R r₀ s s' ∧
        s'.table r₀ (path ++ rest) = some y ∧
        (∀ p i,p.length = 2 → s'.entry r₀ p i = s.entry r₀ p i) ∧
        s.freePages ≤ s'.freePages+rest.length := by
  induction rest generalizing s path x with
  | nil =>
    exact .inr ⟨x,s,rfl,.refl h,by rwa [List.append_nil],fun _ _ _ => rfl,by simp⟩
  | cons i rest ih =>
    rw [List.length_cons] at hlen
    have hlen' : (path ++ [i]).length+rest.length = 2 := by
      rw [List.length_append,List.length_singleton]
      omega
    have happ : path ++ i :: rest = path ++ [i] ++ rest := by simp
    rw [Frames.createFrom,happ,List.length_cons]
    cases hv : pageTableEntryIsValid (s.mem x i) with
    | true =>
      rw [if_pos rfl]
      rcases ih h (table_child hx hv) hlen' with ⟨he,hc⟩ | ⟨y,s',he,hE,hy,hent,hc⟩
      · exact .inl ⟨he,by omega⟩
      · exact .inr ⟨y,s',he,hE,hy,hent,by omega⟩
    | false =>
      rw [if_neg (by simp)]
      rcases h.alloc.kalloc with ⟨h0,hk⟩ | ⟨f,s₁,hk,hf0,ht⟩
      · exact .inl ⟨by simp [hk],by omega⟩
      · have hE := Extends.install h hr₀ (by omega) hx hv ht
        have hcount := ht.count
        have hlt := h.alloc.lt_of_inRange (h.alloc.inside f ht.free)
        have hnew : (s₁.store x i (pageTableEntryNew f pteV)).table r₀ (path ++ [i]) = some f := by
          rw [table_install h hr₀ (by omega) hx hv ht hr₀ (by omega),if_pos ⟨rfl,rfl⟩]
        have hsame : (s₁.store x i (pageTableEntryNew f pteV)).freePages = s₁.freePages := rfl
        simp only [hk,if_neg hf0,pageTableEntryPpn_new hlt]
        rcases ih hE.ok hnew hlen' with ⟨he,hc⟩ | ⟨y,s',he,hE',hy,hent,hc⟩
        · exact .inl ⟨he,by omega⟩
        · refine .inr ⟨y,s',he,hE.trans hr₀ hE',hy,fun p j hp => ?_,by omega⟩
          rw [hent p j hp,entry_install h hr₀ (by omega) hx hv ht hp]

theorem findPteCreate_spec (h : TablesOk s R) (hr₀ : r₀ ∈ R) (v : VirtPageNum) :
    (s.findPteCreate r₀ v = .error .memory ∧ s.freePages < 2) ∨
      ∃ y s',s.findPteCreate r₀ v = .ok ((y,(indexes v).2),s') ∧ Extends R r₀ s s' ∧
        s'.table r₀ (indexes v).1 = some y ∧ (∀ u,s'.lookup r₀ u = s.lookup r₀ u) ∧
        s.freePages ≤ s'.freePages+2 := by
  have hroot : s.table r₀ [] = some r₀ := rfl
  have hlen : ([] : List (Fin 512)).length+(indexes v).1.length = 2 := rfl
  rcases createFrom_spec h hr₀ hroot hlen with he | ⟨y,s',he,hE,hy,hent,hc⟩
  · exact .inl he
  · refine .inr ⟨y,s',he,hE,hy,fun u => ?_,hc⟩
    rw [Frames.lookup_eq,Frames.lookup_eq]
    exact hent _ _ (indexes_length u)

/-- A page without a leaf entry has an invalid word in its place. -/
theorem invalid_of_lookup {v : VirtPageNum} (hv : s.lookup r v = none)
    (hy : s.table r (indexes v).1 = some y) :
    pageTableEntryIsValid (s.mem y (indexes v).2) = false := by
  rw [Frames.lookup_eq,Frames.entry,hy,Option.bind_some] at hv
  by_contra hcon
  rw [Bool.not_eq_false] at hcon
  simp [hcon] at hv

theorem lookup_store_leaf (h : TablesOk s R) (hr₀ : r₀ ∈ R) {v : VirtPageNum}
    (hx : s.table r₀ (indexes v).1 = some x) (hr : r ∈ R) (u : VirtPageNum) :
    (s.store x (indexes v).2 w).lookup r u =
      if r = r₀ ∧ u.toNat % 2^27 = v.toNat % 2^27 then
        (if pageTableEntryIsValid w then some w else none)
      else s.lookup r u := by
  rw [Frames.lookup_eq,Frames.lookup_eq,
    entry_store_leaf h hr₀ (indexes_length v) hx hr (indexes_length u)]
  refine if_congr (and_congr_right fun _ => ?_) rfl rfl
  rw [← indexes_inj,Prod.ext_iff]

/-- One round of the mapping loop. -/
theorem mapPage_spec {v : VirtPageNum} (h : TablesOk s R) (hr₀ : r₀ ∈ R)
    (hfree : s.lookup r₀ v = none) (hw : pageTableEntryIsValid w = true) :
    (s.findPteCreate r₀ v = .error .memory ∧ s.freePages < 2) ∨
      ∃ y s₁,s.findPteCreate r₀ v = .ok ((y,(indexes v).2),s₁) ∧
        pageTableEntryIsValid (s₁.mem y (indexes v).2) = false ∧
        Extends R r₀ s (s₁.store y (indexes v).2 w) ∧
        (∀ u,(s₁.store y (indexes v).2 w).lookup r₀ u =
          if u.toNat % 2^27 = v.toNat % 2^27 then some w else s.lookup r₀ u) ∧
        s.freePages ≤ (s₁.store y (indexes v).2 w).freePages+2 := by
  rcases findPteCreate_spec h hr₀ v with he | ⟨y,s₁,he,hE,hy,hlook,hc⟩
  · exact .inl he
  · have hinv := invalid_of_lookup ((hlook v).trans hfree) hy
    have hleaf := Extends.store_leaf hE.ok hr₀ (indexes_length v) hy (i := (indexes v).2) (w := w)
    refine .inr ⟨y,s₁,he,hinv,hE.trans hr₀ hleaf,fun u => ?_,hc⟩
    rw [lookup_store_leaf hE.ok hr₀ hy hr₀,if_pos hw,hlook]
    simp

/-- The loop maps the pages `vpn .. vpn+n` to the frames from `ppn` on. -/
theorem mapFrom_spec {flags : BitVec 8} {n : ℕ} {vpn : VirtPageNum} (ppn : PhysPageNum)
    (h : TablesOk s R) (hr₀ : r₀ ∈ R) (hn : vpn.toNat+n < 2^27)
    (hfree : ∀ v : VirtPageNum,vpn.toNat ≤ v.toNat → v.toNat ≤ vpn.toNat+n → s.lookup r₀ v = none) :
    (s.mapFrom r₀ flags n vpn ppn = .error .memory ∧ s.freePages < 2*(n+1)) ∨
      ∃ s',s.mapFrom r₀ flags n vpn ppn = .ok s' ∧ Extends R r₀ s s' ∧
        (∀ k ≤ n,s'.lookup r₀ (vpn+BitVec.ofNat 64 k) =
          some (pageTableEntryNew (ppn+BitVec.ofNat 64 k) (pteV ||| flags))) ∧
        (∀ v : VirtPageNum,¬(vpn.toNat ≤ v.toNat % 2^27 ∧ v.toNat % 2^27 ≤ vpn.toNat+n) →
          s'.lookup r₀ v = s.lookup r₀ v) ∧
        s.freePages ≤ s'.freePages+2*(n+1) := by
  induction n generalizing s vpn ppn with
  | zero =>
    rw [Frames.mapFrom]
    rcases mapPage_spec h hr₀ (hfree vpn (by omega) (by omega)) (pageTableEntryIsValid_new ppn flags)
      with ⟨he,hc⟩ | ⟨y,s₁,he,hinv,hE,hlook,hc⟩
    · exact .inl ⟨by simp [he],by omega⟩
    · refine .inr ⟨_,by simp [he,hinv],hE,fun k hk => ?_,fun v hv => ?_,by omega⟩
      · obtain rfl : k = 0 := by omega
        simp [hlook]
      · rw [hlook,if_neg (by omega)]
  | succ n ih =>
    rw [Frames.mapFrom]
    rcases mapPage_spec h hr₀ (hfree vpn (by omega) (by omega)) (pageTableEntryIsValid_new ppn flags)
      with ⟨he,hc⟩ | ⟨y,s₁,he,hinv,hE,hlook,hc⟩
    · exact .inl ⟨by simp [he],by omega⟩
    · have hnext : (vpn+1).toNat = vpn.toNat+1 := by bv_omega
      have hfree' : ∀ v : VirtPageNum,(vpn+1).toNat ≤ v.toNat → v.toNat ≤ (vpn+1).toNat+n →
          (s₁.store y (indexes vpn).2 (pageTableEntryNew ppn (pteV ||| flags))).lookup r₀ v = none := by
        intro v h1 h2
        rw [hlook,if_neg (by omega)]
        exact hfree v (by omega) (by omega)
      simp only [he,hinv,Bool.false_eq_true,if_false]
      rcases ih (ppn+1) hE.ok (by omega) hfree' with ⟨he',hc'⟩ | ⟨s',he',hE',hnew,hold,hc'⟩
      · exact .inl ⟨he',by omega⟩
      · refine .inr ⟨s',he',hE.trans hr₀ hE',fun k hk => ?_,fun v hv => ?_,by omega⟩
        · cases k with
          | zero =>
            rw [hold _ (by simp; omega),hlook]
            simp
          | succ k =>
            have hv : vpn+BitVec.ofNat 64 (k+1) = vpn+1+BitVec.ofNat 64 k := by bv_omega
            have hp : ppn+BitVec.ofNat 64 (k+1) = ppn+1+BitVec.ofNat 64 k := by bv_omega
            rw [hv,hp]
            exact hnew k (by omega)
        · rw [hold v (by omega),hlook,if_neg (by omega)]

theorem floorVirts_toNat (a : BitVec 64) : (floorVirts a).toNat = a.toNat/4096 := by
  rw [floorVirts,BitVec.toNat_udiv]
  rfl

/-- The trip count of the mapping loop. -/
theorem map_trips {va size : BitVec 64} (h0 : size ≠ 0) (hva : va.toNat+size.toNat ≤ 2^39) :
    ((va+size-1) / pageSize-floorVirts va).toNat =
      (va.toNat+size.toNat-1)/4096-va.toNat/4096 := by
  have hpos : 0 < size.toNat := by bv_omega
  have hsum : (va+size-1).toNat = va.toNat+size.toNat-1 := by bv_omega
  have hlast : ((va+size-1) / pageSize).toNat = (va.toNat+size.toNat-1)/4096 := by
    rw [BitVec.toNat_udiv,hsum]
    rfl
  rw [BitVec.toNat_sub,hlast,floorVirts_toNat]
  omega

/-- `PageTable_map` on unmapped pages below 2^39: it fails only for want of memory; otherwise page
`k` of the range maps to frame `floor(pa)+k` and every other page is as before. -/
theorem pageTableMap_spec {va pa size : BitVec 64} {flags : BitVec 8} (h : TablesOk s R)
    (hr₀ : r₀ ∈ R) (h0 : size ≠ 0) (hva : va.toNat+size.toNat ≤ 2^39)
    (hfree : ∀ v : VirtPageNum,va.toNat/4096 ≤ v.toNat → v.toNat ≤ (va.toNat+size.toNat-1)/4096 →
      s.lookup r₀ v = none) :
    (s.pageTableMap r₀ va pa size flags = .error .memory ∧
        s.freePages < 2*((va.toNat+size.toNat-1)/4096-va.toNat/4096+1)) ∨
      ∃ s',s.pageTableMap r₀ va pa size flags = .ok s' ∧ Extends R r₀ s s' ∧
        (∀ k ≤ (va.toNat+size.toNat-1)/4096-va.toNat/4096,
          s'.lookup r₀ (floorVirts va+BitVec.ofNat 64 k) =
            some (pageTableEntryNew (floorPhys pa+BitVec.ofNat 64 k) (pteV ||| flags))) ∧
        ∀ v : VirtPageNum,¬(va.toNat/4096 ≤ v.toNat % 2^27 ∧
            v.toNat % 2^27 ≤ (va.toNat+size.toNat-1)/4096) → s'.lookup r₀ v = s.lookup r₀ v := by
  have hpos : 0 < size.toNat := by bv_omega
  rw [Frames.pageTableMap,if_neg h0]
  simp only [map_trips h0 hva]
  have hvpn := floorVirts_toNat va
  have hloop := @mapFrom_spec s R r₀ flags ((va.toNat+size.toNat-1)/4096-va.toNat/4096)
    (floorVirts va) (floorPhys pa) h hr₀ (by omega) fun v h1 h2 => hfree v (by omega) (by omega)
  rcases hloop with he | ⟨s',he,hE,hnew,hold,-⟩
  · exact .inl he
  · exact .inr ⟨s',he,hE,hnew,fun v hv => hold v (by omega)⟩

end Paging
end QuardStarNet
