import QuardStarNet.Teardown

/-! Page tables and the frame allocator over whole runs: whatever was allocated, mapped, unmapped
and freed before, `PageTable_map` maps exactly its pages and touches only its own tables. -/

namespace QuardStarNet
namespace Paging

/-- Memory and the roots of the live page tables. Frames are freed and written as data only when
they are no table. -/
inductive Reachable : Frames → Set PhysPageNum → Prop
  | boot (mem : PhysPageNum → Fin 512 → Word) {l h : PhysPageNum} (hl : 0 < l) (hlh : l ≤ h)
      (hh : h ≤ 0x100000000000) : Reachable (Frames.stackFrameAllocatorInit mem l h) ∅
  | kalloc {s R} : Reachable s R → Reachable s.kalloc.2 R
  | root {s R} : Reachable s R → s.kalloc.1 ≠ 0 → Reachable s.kalloc.2 (insert s.kalloc.1 R)
  | kfree {s R f} : Reachable s R → ¬s.IsTable R f → Reachable (s.kfree f) R
  | store {s R x i w} : Reachable s R → s.freeMap x = false → ¬s.IsTable R x →
      Reachable (s.store x i w) R
  | map {s R r va pa size flags s'} : Reachable s R → r ∈ R →
      s.pageTableMap r va pa size flags = .ok s' → Reachable s' R
  | unmap {s R r vpn npages doFree} : Reachable s R → r ∈ R →
      (doFree = true → ∀ v e,s.lookup r v = some e → ¬s.IsTable R (pageTableEntryPpn e)) →
      Reachable (s.uvmunmap r vpn npages doFree) R
  | freewalk {s R r s'} : Reachable s R → r ∈ R → (∀ v,s.lookup r v = none) →
      Frames.freewalk 3 r s = .ok s' → Reachable s' (R \ {r})

variable {s s' : Frames} {R : Set PhysPageNum} {r f : PhysPageNum}

/-- Mapping that returns, whatever its arguments, only extends its own tree. -/
theorem mapFrom_extends {flags : BitVec 8} {n : ℕ} {vpn : VirtPageNum} {ppn : PhysPageNum}
    (h : TablesOk s R) (hr : r ∈ R) (hok : s.mapFrom r flags n vpn ppn = .ok s') :
    Extends R r s s' := by
  induction n generalizing s vpn ppn with
  | zero =>
    rw [Frames.mapFrom] at hok
    rcases findPteCreate_spec h hr vpn with ⟨he,-⟩ | ⟨y,s₁,he,hE,hy,-,-⟩
    · simp [he] at hok
    · simp only [he] at hok
      split at hok
      · simp at hok
      · obtain rfl := Except.ok.inj hok
        exact hE.trans hr (.store_leaf hE.ok hr (indexes_length vpn) hy)
  | succ n ih =>
    rw [Frames.mapFrom] at hok
    rcases findPteCreate_spec h hr vpn with ⟨he,-⟩ | ⟨y,s₁,he,hE,hy,-,-⟩
    · simp [he] at hok
    · simp only [he] at hok
      split at hok
      · simp at hok
      · have hleaf := Extends.store_leaf hE.ok hr (indexes_length vpn) hy (i := (indexes vpn).2)
          (w := pageTableEntryNew ppn (pteV ||| flags))
        exact (hE.trans hr hleaf).trans hr (ih hleaf.ok hok)

theorem pageTableMap_extends {va pa size : BitVec 64} {flags : BitVec 8} (h : TablesOk s R)
    (hr : r ∈ R) (hok : s.pageTableMap r va pa size flags = .ok s') : Extends R r s s' := by
  rw [Frames.pageTableMap] at hok
  split at hok
  · simp at hok
  · exact mapFrom_extends h hr hok

/-- Every run keeps the tables a forest of allocated frames. -/
theorem Reachable.tablesOk (h : Reachable s R) : TablesOk s R := by
  induction h with
  | boot mem hl hlh hh =>
    exact ⟨.init mem hl hlh hh,fun _ hr => hr.elim,fun _ ⟨_,hr,_⟩ => hr.elim,
      fun _ ⟨_,hr,_⟩ => hr.elim,fun _ hr => hr.elim⟩
  | kalloc _ ih =>
    rcases ih.alloc.kalloc with ⟨-,hk⟩ | ⟨f,s',hk,-,ht⟩
    · rwa [hk]
    · rw [hk]
      exact ih.takes ht
  | root _ h0 ih =>
    rcases ih.alloc.kalloc with ⟨-,hk⟩ | ⟨f,s',hk,-,ht⟩
    · rw [hk] at h0
      exact (h0 rfl).elim
    · rw [hk]
      exact ih.newRoot ht
  | kfree _ hf ih => exact (ih.kfree hf).1
  | store _ hx ht ih =>
    refine ih.congr (ih.alloc.store hx) rfl rfl (fun y hy => RadixTree.store_of_ne ?_) ih.used
    rintro rfl
    exact ht hy
  | map _ hr hok ih => exact (pageTableMap_extends ih hr hok).ok
  | unmap _ hr hleaf ih => exact (unmapFrom_spec ih hr fun hd v e _ he => hleaf hd v e he).ok
  | freewalk _ hr hnone hok ih =>
    obtain ⟨s',he,-,hT⟩ := ih.freewalk hr hnone
    obtain rfl := Except.ok.inj (hok.symm.trans he)
    exact hT

/-- `PageTable_map` on unmapped pages below 2^39, from any reachable state: it stops for want of
memory, and then fewer than two frames a page were free, or it maps exactly its pages. -/
theorem pageTableMap_exact {va pa size : BitVec 64} {flags : BitVec 8} (hs : Reachable s R)
    (hr : r ∈ R) (hsize : size ≠ 0) (hva : va.toNat+size.toNat ≤ 2^39)
    (hfree : ∀ v : VirtPageNum,va.toNat/4096 ≤ v.toNat → v.toNat ≤ (va.toNat+size.toNat-1)/4096 →
      s.lookup r v = none) :
    (s.pageTableMap r va pa size flags = .error .memory ∧
        s.freePages < 2*((va.toNat+size.toNat-1)/4096-va.toNat/4096+1)) ∨
      ∃ s',s.pageTableMap r va pa size flags = .ok s' ∧
        (∀ k ≤ (va.toNat+size.toNat-1)/4096-va.toNat/4096,∃ e,
          s'.lookup r (floorVirts va+BitVec.ofNat 64 k) = some e ∧
          (pageTableEntryPpn e).toNat = (pa.toNat/4096+k) % 2^44 ∧
          pageTableEntryFlags e = pteV ||| flags) ∧
        (∀ v : VirtPageNum,¬(va.toNat/4096 ≤ v.toNat % 2^27 ∧
            v.toNat % 2^27 ≤ (va.toNat+size.toNat-1)/4096) → s'.lookup r v = s.lookup r v) ∧
        (∀ r' ∈ R,r' ≠ r → ∀ p i,p.length ≤ 2 →
          s'.table r' p = s.table r' p ∧ s'.entry r' p i = s.entry r' p i) ∧
        (∀ x,¬s'.IsTable {r} x → s'.mem x = s.mem x) ∧
        ∀ x,s'.IsTable {r} x → ¬s.IsTable {r} x → s.freeMap x = true ∧ ¬s.IsTable R x := by
  have hT := hs.tablesOk
  rcases @pageTableMap_spec s R r va pa size flags hT hr hsize hva hfree
    with he | ⟨s',he,hE,hnew,hold⟩
  · exact .inl he
  · refine .inr ⟨s',he,fun k hk => ⟨_,hnew k hk,?_,pageTableEntryFlags_new _ _⟩,hold,
      fun r' hr' hne p i hp => ⟨hE.other r' hr' hne p hp,hE.entry_other hr hr' hne hp⟩,hE.frame,?_⟩
    · rw [pageTableEntryPpn_toNat,pageTableEntryNew_toNat,BitVec.toNat_add,BitVec.toNat_ofNat,
        floorPhys_toNat]
      have := (pteV ||| flags).isLt
      omega
    · rintro x ⟨r',hr',p,hp,hx⟩ hnot
      rw [Set.mem_singleton_iff] at hr'
      subst hr'
      rcases hE.fresh p x hp hx with hx | hx
      · exact (hnot ⟨r',rfl,p,hp,hx⟩).elim
      · exact ⟨hx,hT.not_isTable_of_free hx⟩

section FreeFrameMapped

theorem ok_of_isSome {q : Except Panic Frames} (h : q.toOption.isSome = true) (s : Frames) :
    q = .ok (q.toOption.getD s) := by
  cases q with
  | error e => simp [Except.toOption] at h
  | ok s' => rfl

/-- Six frames, the first of them the root of an empty table. -/
def oneTable : Frames := (Frames.stackFrameAllocatorInit (fun _ _ => 0) 1 7).kalloc.2

/-- The table maps page 0 to frame 4, which is still free. -/
def freeMapped : Frames := (oneTable.pageTableMap 1 0 0x4000 0x1000 pteR).toOption.getD oneTable

theorem oneTable_reachable : Reachable oneTable (insert 1 ∅) := by
  have hboot := Reachable.boot (fun _ _ => 0) (l := 1) (h := 7) (by decide) (by decide) (by decide)
  have hroot : (Frames.stackFrameAllocatorInit (fun _ _ => 0) 1 7).kalloc.1 = 1 := by decide +kernel
  have hs := hboot.root (by rw [hroot]; decide)
  rwa [hroot] at hs

theorem freeMapped_reachable : Reachable freeMapped (insert 1 ∅) :=
  oneTable_reachable.map (Set.mem_insert 1 ∅) (ok_of_isSome (by decide +kernel) oneTable)

/-- A later mapping takes the mapped frame 4 for an interior table. -/
theorem mapped_frame_becomes_table :
    ∃ s R r va pa size flags s' x v e,Reachable s R ∧ r ∈ R ∧ size ≠ 0 ∧
      va.toNat+size.toNat ≤ 2^39 ∧ s.lookup r (floorVirts va) = none ∧
      s.pageTableMap r va pa size flags = .ok s' ∧ s.lookup r v = some e ∧ pageTableEntryPpn e = x ∧
      s'.IsTable {r} x ∧ ¬s.IsTable {r} x := by
  refine ⟨freeMapped,insert 1 ∅,1,0x40000000,0x5000,0x1000,pteR,_,4,0,
    pageTableEntryNew 4 (pteV ||| pteR),freeMapped_reachable,Set.mem_insert 1 ∅,by decide,by decide,
    by decide +kernel,ok_of_isSome (by decide +kernel) freeMapped,by decide +kernel,by decide +kernel,
    ⟨1,rfl,[1],by decide,by decide +kernel⟩,?_⟩
  have hfree : freeMapped.freeMap 4 = true := by decide +kernel
  exact (freeMapped_reachable.tablesOk.mono (by simp)).not_isTable_of_free hfree

end FreeFrameMapped

/-- A page of the second gigabyte of that table. -/
theorem pageTableMap_exact_second_gigabyte :
    ∃ s',freeMapped.pageTableMap 1 0x40000000 0x5000 0x1000 pteR = .ok s' ∧
      ∃ e,s'.lookup 1 0x40000 = some e ∧ (pageTableEntryPpn e).toNat = 5 := by
  have hfree : ∀ v : VirtPageNum,(0x40000000 : BitVec 64).toNat/4096 ≤ v.toNat →
      v.toNat ≤ ((0x40000000 : BitVec 64).toNat+(0x1000 : BitVec 64).toNat-1)/4096 →
      freeMapped.lookup 1 v = none := by
    intro v h1 h2
    have hv : v = 0x40000 := by
      apply BitVec.eq_of_toNat_eq
      simp at h1 h2 ⊢
      omega
    rw [hv]
    decide +kernel
  rcases @pageTableMap_exact freeMapped (insert 1 ∅) 1 0x40000000 0x5000 0x1000 pteR
    freeMapped_reachable (Set.mem_insert 1 ∅) (by decide) (by decide) hfree with ⟨-,h⟩ | ⟨s',he,hnew,-⟩
  · exact absurd h (by decide +kernel)
  · obtain ⟨e,hl,hp,-⟩ := hnew 0 (by decide)
    exact ⟨s',he,e,hl,hp⟩

end Paging
end QuardStarNet
