import Mathlib.Data.Finset.Card
import Mathlib.Data.Fintype.Card
import Mathlib.Data.List.Pairwise
import QuardStarNet.Virtqueue

/-! How the descriptors of a virtqueue are owned: a descriptor is free or in one of the chains that
have been allocated and not yet released, whatever the device writes. -/
namespace QuardStarNet
namespace Virtq

/-- The descriptors of the list point to one another in this order and the last one to nothing. -/
def Linked (desc : Idx → Desc) : List Idx → Prop
  | [] => True
  | [i] => (desc i).hasNext = false
  | i :: j :: l => (desc i).hasNext = true ∧ (desc i).next = name j ∧ Linked desc (j :: l)

/-- Every descriptor is free or in one of the chains, which are linked. -/
structure Inv (q : Virtqueue) (chains : List (List Idx)) : Prop where
  count : q.freeCount.toNat+chains.flatten.length = 8
  nodup : chains.flatten.Nodup
  mem : ∀ i, i ∈ chains.flatten ↔ q.free i = false
  linked : ∀ c ∈ chains, Linked q.desc c
  heads : ∀ i, q.active i = true → ∃ c ∈ chains, c.head? = some i

/-- The chains without the one that begins with `i`. -/
def dropChain (chains : List (List Idx)) (i : Idx) : List (List Idx) :=
  match chains.find? fun c => c.head? == some i with
  | none => chains
  | some c => chains.erase c

variable {q : Virtqueue} {chains chains' : List (List Idx)} {c : List Idx} {i j : Idx}

theorem toNat_pred {x : BitVec 16} (h : 0 < x.toNat) : (x-1).toNat = x.toNat-1 := by bv_omega

theorem pred_add_succ (x : BitVec 16) (n : ℕ) : x-1+.ofNat 16 (n+1) = x+.ofNat 16 n := by bv_omega

theorem toNat_name (i : Idx) : (name i).toNat = i := by
  have := i.isLt
  rw [name,BitVec.toNat_ofNat,Nat.mod_eq_of_lt (by omega)]

theorem name_injective : Function.Injective name := fun i j h => by
  have := congrArg BitVec.toNat h
  rw [toNat_name,toNat_name] at this
  exact Fin.ext this

theorem heads_sublist (chains : List (List Idx)) :
    (chains.filterMap List.head?).Sublist chains.flatten := by
  induction chains with
  | nil => simp
  | cons c chains ih =>
    cases c with
    | nil => exact ih
    | cons i l => exact (ih.trans (List.sublist_append_right l _)).cons_cons i

theorem Linked.congr {desc desc' : Idx → Desc} {l : List Idx} (h : Linked desc l)
    (hd : ∀ i ∈ l, (desc' i).hasNext = (desc i).hasNext ∧ (desc' i).next = (desc i).next) :
    Linked desc' l := by
  induction l with
  | nil => trivial
  | cons i l ih =>
    have hi := hd i (by simp)
    cases l with
    | nil => exact hi.1.trans h
    | cons j l =>
      obtain ⟨hnext,hj,hrest⟩ := h
      exact ⟨hi.1.trans hnext,hi.2.trans hj,ih hrest fun k hk => hd k (by simp [hk])⟩

/-- A new last descriptor is linked to the end of a chain. -/
theorem Linked.snoc {desc desc' : Idx → Desc} {l : List Idx} {p : Idx} (h : Linked desc l)
    (hn : l.Nodup) (hp : l.getLast? = some p) (hnew : (desc' i).hasNext = false)
    (hlink : (desc' p).hasNext = true ∧ (desc' p).next = name i)
    (hd : ∀ j ∈ l, j ≠ p → desc' j = desc j) : Linked desc' (l++[i]) := by
  induction l with
  | nil => simp at hp
  | cons a l ih =>
    cases l with
    | nil =>
      obtain rfl : a = p := by simpa using hp
      exact ⟨hlink.1,hlink.2,hnew⟩
    | cons b l =>
      obtain ⟨hnext,hb,hrest⟩ := h
      have hlast : (b :: l).getLast? = some p := by simpa using hp
      have hmem : p ∈ b :: l := List.mem_of_getLast? hlast
      have ha : desc' a = desc a := hd a (by simp) fun he => (List.nodup_cons.1 hn).1 (he ▸ hmem)
      refine ⟨by rw [ha,hnext],by rw [ha,hb],?_⟩
      exact ih hrest (List.nodup_cons.1 hn).2 hlast fun j hj => hd j (by simp [hj])

theorem init_inv : Inv virtqInit [] where
  count := rfl
  nodup := by simp
  mem i := by simp [virtqInit]
  linked := by simp
  heads i hi := by simp [virtqInit] at hi

namespace Inv

theorem perm (h : Inv q chains) (hp : chains.Perm chains') : Inv q chains' where
  count := by rw [← hp.flatten.length_eq]; exact h.count
  nodup := hp.flatten.nodup_iff.1 h.nodup
  mem i := by rw [← hp.flatten.mem_iff]; exact h.mem i
  linked c hc := h.linked c (hp.mem_iff.2 hc)
  heads i hi := by
    obtain ⟨c,hc,hh⟩ := h.heads i hi
    exact ⟨c,hp.mem_iff.1 hc,hh⟩

theorem notFree (h : Inv q chains) (hc : c ∈ chains) (hi : i ∈ c) : q.free i = false :=
  (h.mem i).1 (List.mem_flatten.2 ⟨c,hc,hi⟩)

theorem active_notFree (h : Inv q chains) (hi : q.active i = true) : q.free i = false := by
  obtain ⟨c,hc,hh⟩ := h.heads i hi
  exact h.notFree hc (List.mem_of_head? hh)

/-- Two chains with a common descriptor are the same. -/
theorem eq_of_mem (h : Inv q chains) {c d : List Idx} (hc : c ∈ chains) (hd : d ∈ chains) (hi : i ∈ c)
    (hj : i ∈ d) : c = d := by
  by_contra hne
  have hpair := (List.nodup_flatten.1 h.nodup).2
  have hsymm : Std.Symm (List.Disjoint (α := Idx)) := ⟨fun _ _ hx => hx.symm⟩
  exact hpair.forall hc hd hne hi hj

theorem dropChain_perm (h : Inv q chains) (hc : c ∈ chains) (hi : c.head? = some i) :
    chains.Perm (c :: dropChain chains i) := by
  have hfind : chains.find? (fun c => c.head? == some i) = some c := by
    cases hf : chains.find? fun c => c.head? == some i with
    | none => simpa [hi] using List.find?_eq_none.1 hf c hc
    | some d =>
      have hd : d.head? = some i := by simpa using List.find?_some hf
      rw [h.eq_of_mem hc (List.mem_of_find?_eq_some hf) (List.mem_of_head? hi) (List.mem_of_head? hd)]
  rw [dropChain,hfind]
  exact List.perm_cons_erase hc

/-- A chain whose head is not submitted has no submitted descriptor at all. -/
theorem idle_chain (h : Inv q chains) (hc : c ∈ chains) (hi : c.head? = some i)
    (hidle : q.active i = false) (hj : j ∈ c) : q.active j = false := by
  by_contra hact
  obtain ⟨d,hd,hh⟩ := h.heads j (by simpa using hact)
  obtain rfl := h.eq_of_mem hc hd hj (List.mem_of_head? hh)
  rw [hi] at hh
  obtain rfl := Option.some.inj hh
  simp [hidle] at hact

/-- What the device writes and what the driver fills in does not matter. -/
theorem congr {q' : Virtqueue} (h : Inv q chains) (hfree : q'.free = q.free)
    (hcount : q'.freeCount = q.freeCount) (hactive : ∀ i, q'.active i = true → q.active i = true)
    (hd : ∀ i, (q'.desc i).hasNext = (q.desc i).hasNext ∧ (q'.desc i).next = (q.desc i).next) :
    Inv q' chains where
  count := hcount ▸ h.count
  nodup := h.nodup
  mem i := hfree ▸ h.mem i
  linked c hc := (h.linked c hc).congr fun i _ => hd i
  heads i hi := h.heads i (hactive i hi)

theorem device (h : Inv q chains) (idx : BitVec 16) (ring : Idx → UsedElem) :
    Inv (q.device idx ring) chains := h.congr rfl rfl (fun _ hi => hi) fun _ => ⟨rfl,rfl⟩

theorem write (h : Inv q chains) {d : Desc} (hnext : d.hasNext = (q.desc i).hasNext)
    (hd : d.next = (q.desc i).next) : Inv (q.write i d) chains := by
  refine h.congr rfl rfl (fun _ hi => hi) fun j => ?_
  by_cases hj : j = i
  · subst hj
    simp [Virtqueue.write,hnext,hd]
  · simp [Virtqueue.write,hj]

end Inv

theorem release_all (l : List Idx) (q : Virtqueue) :
    l.foldl Virtqueue.releaseDesc q = { q with
      desc := fun i => if i ∈ l then .zeroed else q.desc i
      free := fun i => q.free i || decide (i ∈ l)
      freeCount := q.freeCount+.ofNat 16 l.length } := by
  induction l generalizing q with
  | nil => simp
  | cons i l ih =>
    rw [List.foldl_cons,ih]
    simp only [Virtqueue.releaseDesc,Virtqueue.mk.injEq,true_and,List.length_cons]
    refine ⟨?_,?_,?_⟩
    · funext j
      by_cases hj : j = i <;> simp [hj]
    · funext j
      by_cases hj : j = i <;> simp [hj]
    · rw [BitVec.ofNat_add,BitVec.add_assoc,BitVec.add_comm (BitVec.ofNat 16 l.length)]
      rfl

namespace Inv

theorem count_free (h : Inv q chains) :
    q.freeCount.toNat = (Finset.univ.filter fun i => q.free i = true).card := by
  have htaken : chains.flatten.toFinset = Finset.univ.filter fun i => ¬q.free i = true := by
    ext i
    simpa using h.mem i
  have hlen : chains.flatten.toFinset.card = chains.flatten.length :=
    List.toFinset_card_of_nodup h.nodup
  have hsum := Finset.card_filter_add_card_filter_not (s := Finset.univ) fun i => q.free i = true
  rw [← htaken,hlen,Finset.card_fin] at hsum
  have := h.count
  omega

theorem release (h : Inv q (c :: chains)) (hidle : ∀ i ∈ c, q.active i = false) :
    Inv (c.foldl Virtqueue.releaseDesc q) chains := by
  have hcount := h.count
  obtain ⟨hnc,hn,hdis⟩ := List.nodup_append.1 (List.flatten_cons ▸ h.nodup)
  rw [List.flatten_cons,List.length_append] at hcount
  rw [release_all]
  refine ⟨?_,hn,fun i => ?_,fun d hd => ?_,fun i hi => ?_⟩
  · have hlen : (BitVec.ofNat 16 c.length).toNat = c.length := by
      rw [BitVec.toNat_ofNat,Nat.mod_eq_of_lt (by omega)]
    rw [BitVec.toNat_add,hlen,Nat.mod_eq_of_lt (by omega)]
    omega
  · have hi := h.mem i
    rw [List.flatten_cons,List.mem_append] at hi
    by_cases hc : i ∈ c
    · simpa [hc] using fun l hl hil => hdis i hc i (List.mem_flatten.2 ⟨l,hl,hil⟩) rfl
    · simpa [hc] using hi
  · refine (h.linked d (by simp [hd])).congr fun i hi => ?_
    have hic : i ∉ c := fun hc => hdis i hc i (List.mem_flatten.2 ⟨d,hd,hi⟩) rfl
    simp [hic]
  · obtain ⟨d,hd,hh⟩ := h.heads i hi
    rcases List.mem_cons.1 hd with rfl | hd
    · have := hidle i (List.mem_of_head? hh)
      simp only at hi
      simp [hi] at this
    · exact ⟨d,hd,hh⟩

/-- One more descriptor joins the chain that is being made. -/
theorem take {desc : Idx → Desc} (h : Inv q (c :: chains)) (hi : q.free i = true)
    (hc : Linked desc (c++[i])) (hd : ∀ d ∈ chains, ∀ j ∈ d, desc j = q.desc j)
    (hidle : ∀ j ∈ c, q.active j = false) :
    Inv { q with free := Function.update q.free i false, freeCount := q.freeCount-1, desc := desc }
      ((c++[i]) :: chains) := by
  have hcount := h.count
  have hfree := h.count_free
  have hpos : 0 < q.freeCount.toNat := by
    rw [hfree]
    exact Finset.card_pos.2 ⟨i,by simpa using hi⟩
  have hnew : i ∉ (c :: chains).flatten := fun hmem => by
    simp [(h.mem i).1 hmem] at hi
  have hperm : (((c++[i]) :: chains).flatten).Perm (i :: (c :: chains).flatten) := by
    simp only [List.flatten_cons,List.append_assoc]
    exact List.perm_middle
  refine ⟨?_,?_,fun j => ?_,fun d hdm => ?_,fun j hj => ?_⟩
  · rw [hperm.length_eq,List.length_cons,toNat_pred hpos]
    omega
  · exact hperm.nodup_iff.2 (List.nodup_cons.2 ⟨hnew,h.nodup⟩)
  · rw [hperm.mem_iff,List.mem_cons,h.mem j]
    by_cases hj : j = i <;> simp [hj]
  · rcases List.mem_cons.1 hdm with rfl | hdm
    · exact hc
    · exact (h.linked d (by simp [hdm])).congr fun j hj => by simp [hd d hdm j hj]
  · obtain ⟨d,hdm,hh⟩ := h.heads j hj
    rcases List.mem_cons.1 hdm with rfl | hdm
    · have := hidle j (List.mem_of_head? hh)
      simp only at hj
      simp [hj] at this
    · exact ⟨d,by simp [hdm],hh⟩

end Inv

/-- The operations on descriptors leave the rings and the submitted heads alone. -/
structure Kept (q q' : Virtqueue) : Prop where
  active : q'.active = q.active
  availIdx : q'.availIdx = q.availIdx
  availRing : q'.availRing = q.availRing
  deviceIdx : q'.deviceIdx = q.deviceIdx
  usedRing : q'.usedRing = q.usedRing
  usedIdx : q'.usedIdx = q.usedIdx

theorem Kept.refl (q : Virtqueue) : Kept q q := ⟨rfl,rfl,rfl,rfl,rfl,rfl⟩

theorem Kept.trans {q q' q'' : Virtqueue} (h : Kept q q') (h' : Kept q' q'') : Kept q q'' :=
  ⟨h'.active.trans h.active,h'.availIdx.trans h.availIdx,h'.availRing.trans h.availRing,
    h'.deviceIdx.trans h.deviceIdx,h'.usedRing.trans h.usedRing,h'.usedIdx.trans h.usedIdx⟩

theorem Kept.release (l : List Idx) (q : Virtqueue) : Kept q (l.foldl Virtqueue.releaseDesc q) := by
  rw [release_all]
  exact ⟨rfl,rfl,rfl,rfl,rfl,rfl⟩

theorem allocDesc_cases (q : Virtqueue) :
    q.allocDesc = (q,none) ∧ (∀ i, q.free i = false) ∨
    ∃ i, q.free i = true ∧ q.allocDesc =
      ({ q with free := Function.update q.free i false, freeCount := q.freeCount-1,
                desc := Function.update q.desc i .zeroed },some i) := by
  unfold Virtqueue.allocDesc
  cases hf : (List.finRange 8).find? q.free with
  | none => exact .inl ⟨rfl,fun i => by simpa using List.find?_eq_none.1 hf i (by simp)⟩
  | some i => exact .inr ⟨i,List.find?_some hf,rfl⟩

/-- What `virtq_alloc_chain` has done when it succeeds. -/
structure Allocated (q q' : Virtqueue) (acc new : List Idx) (chains : List (List Idx)) : Prop where
  inv : Inv q' ((acc++new) :: chains)
  kept : Kept q q'
  wasFree : ∀ i ∈ new, q.free i = true
  free : ∀ i, q'.free i = (q.free i && !decide (i ∈ new))
  desc : ∀ i ∉ acc++new, q'.desc i = q.desc i

/-- What `virtq_alloc_chain` has done when it fails for want of descriptors. -/
structure Restored (q q' : Virtqueue) (acc : List Idx) (n : ℕ) (chains : List (List Idx)) : Prop where
  inv : Inv q' chains
  kept : Kept q q'
  free : ∀ i, q'.free i = (q.free i || decide (i ∈ acc))
  freeCount : q'.freeCount = q.freeCount+.ofNat 16 acc.length
  short : q.freeCount.toNat < n
  desc : ∀ i ∉ acc, q.free i = false → q'.desc i = q.desc i

/-- The descriptor after one pass of the loop of `virtq_alloc_chain`. -/
def grown (q : Virtqueue) (acc : List Idx) (i : Idx) : Virtqueue :=
  let q : Virtqueue := { q with free := Function.update q.free i false, freeCount := q.freeCount-1,
                                desc := Function.update q.desc i .zeroed }
  match acc.getLast? with
  | none => q
  | some previous => q.linkDesc previous i

theorem grown_desc (q : Virtqueue) (acc : List Idx) (i : Idx) (hj : j ∉ acc++[i]) :
    (grown q acc i).desc j = q.desc j := by
  simp only [List.mem_append,List.mem_singleton,not_or] at hj
  unfold grown
  cases hp : acc.getLast? with
  | none => simp [hj.2]
  | some p =>
    have hjp : j ≠ p := fun he => hj.1 (he ▸ List.mem_of_getLast? hp)
    simp [Virtqueue.linkDesc,hjp,hj.2]

theorem grown_kept (q : Virtqueue) (acc : List Idx) (i : Idx) : Kept q (grown q acc i) := by
  unfold grown
  cases acc.getLast? <;> exact ⟨rfl,rfl,rfl,rfl,rfl,rfl⟩

theorem grown_eq (q : Virtqueue) (acc : List Idx) (i : Idx) : grown q acc i =
    { q with free := Function.update q.free i false, freeCount := q.freeCount-1,
             desc := (grown q acc i).desc } := by
  unfold grown
  cases acc.getLast? <;> rfl

theorem Inv.grown {acc : List Idx} (h : Inv q (acc :: chains)) (hi : q.free i = true)
    (hidle : ∀ j ∈ acc, q.active j = false) : Inv (grown q acc i) ((acc++[i]) :: chains) := by
  have hn := (List.nodup_append.1 (List.flatten_cons ▸ h.nodup)).1
  have hnew : ∀ d ∈ acc :: chains, i ∉ d := fun d hd hid => by simp [h.notFree hd hid] at hi
  have hdis := (List.nodup_append.1 (List.flatten_cons ▸ h.nodup)).2.2
  rw [grown_eq]
  refine h.take hi ?_ (fun d hd j hj => grown_desc q acc i ?_) hidle
  · cases hp : acc.getLast? with
    | none =>
      obtain rfl := List.getLast?_eq_none_iff.1 hp
      simp [Virtq.grown,Linked,Desc.hasNext,Desc.zeroed]
    | some p =>
      have hpi : p ≠ i := fun he => hnew acc (by simp) (he ▸ List.mem_of_getLast? hp)
      refine (h.linked acc (by simp)).snoc hn hp ?_ ?_ fun j hj hjp => ?_
      · simp [Virtq.grown,hp,Virtqueue.linkDesc,hpi.symm,Desc.hasNext,Desc.zeroed]
      · simp only [Virtq.grown,hp,Virtqueue.linkDesc,Function.update_self,Desc.hasNext,and_true]
        rw [BitVec.and_comm,BitVec.and_or_distrib_left]
        simp
      · have hji : j ≠ i := fun he => hnew acc (by simp) (he ▸ hj)
        simp [Virtq.grown,hp,Virtqueue.linkDesc,hjp,hji]
  · rw [List.mem_append,List.mem_singleton,not_or]
    exact ⟨fun hja => hdis j hja j (List.mem_flatten.2 ⟨d,hd,hj⟩) rfl,
      fun he => hnew d (by simp [hd]) (he ▸ hj)⟩

theorem allocLoop_cases {acc : List Idx} (n : ℕ) (h : Inv q (acc :: chains))
    (hidle : ∀ j ∈ acc, q.active j = false) :
    (∃ q' new, Virtqueue.allocLoop n acc q = (q',some (acc++new)) ∧ new.length = n ∧
      Allocated q q' acc new chains) ∨
    ∃ q', Virtqueue.allocLoop n acc q = (q',none) ∧ Restored q q' acc n chains := by
  induction n generalizing q acc with
  | zero =>
    refine .inl ⟨q,[],by simp [Virtqueue.allocLoop],rfl,by simpa using h,.refl q,by simp,by simp,?_⟩
    exact fun _ _ => rfl
  | succ n ih =>
    rcases allocDesc_cases q with ⟨he,hfull⟩ | ⟨i,hi,he⟩
    · refine .inr ⟨acc.foldl Virtqueue.releaseDesc q,by simp [Virtqueue.allocLoop,he],h.release hidle,
        .release acc q,?_,?_,?_,?_⟩
      · simp [release_all]
      · simp [release_all]
      · have : q.freeCount.toNat = 0 := by
          rw [h.count_free]
          simp [hfull]
        omega
      · intro j hj _
        simp [release_all,hj]
    · have hstep : Virtqueue.allocLoop (n+1) acc q = Virtqueue.allocLoop n (acc++[i]) (grown q acc i) := by
        rw [Virtqueue.allocLoop,he]
        rfl
      have hpos : 0 < q.freeCount.toNat := by
        rw [h.count_free]
        exact Finset.card_pos.2 ⟨i,by simpa using hi⟩
      have hkept := grown_kept q acc i
      have hfree : (grown q acc i).free = Function.update q.free i false := by rw [grown_eq]
      have hcount : (grown q acc i).freeCount = q.freeCount-1 := by rw [grown_eq]
      have hidle' : ∀ j ∈ acc++[i], (grown q acc i).active j = false := by
        intro j hj
        rw [hkept.active]
        rcases List.mem_append.1 hj with hj | hj
        · exact hidle j hj
        · obtain rfl := List.mem_singleton.1 hj
          by_contra hact
          simp [h.active_notFree (by simpa using hact)] at hi
      rw [hstep]
      rcases ih (h.grown hi hidle) hidle' with ⟨q',new,heq,hlen,ha⟩ | ⟨q',heq,hr⟩
      · refine .inl ⟨q',i :: new,by simp [heq],by simp [hlen],by simpa using ha.inv,
          hkept.trans ha.kept,?_,?_,?_⟩
        · intro j hj
          rcases List.mem_cons.1 hj with rfl | hj
          · exact hi
          · have := ha.wasFree j hj
            rw [hfree] at this
            by_cases hji : j = i
            · exact hji ▸ hi
            · simpa [hji] using this
        · intro j
          rw [ha.free j,hfree]
          by_cases hji : j = i <;> simp [hji]
        · intro j hj
          have hj' : j ∉ (acc++[i])++new := by simpa using hj
          rw [ha.desc j hj']
          refine grown_desc q acc i fun hmem => hj' (List.mem_append_left _ hmem)
      · refine .inr ⟨q',heq,hr.inv,hkept.trans hr.kept,?_,?_,?_,?_⟩
        · intro j
          rw [hr.free j,hfree]
          by_cases hji : j = i <;> simp [hji,hi]
        · rw [hr.freeCount,hcount,List.length_append,List.length_singleton,pred_add_succ]
        · have hshort := hr.short
          rw [hcount,toNat_pred hpos] at hshort
          omega
        · intro j hj hjf
          have hji : j ≠ i := fun he => by simp [he,hi] at hjf
          rw [hr.desc j (by simp [hj,hji]) (by simp [hfree,hji,hjf])]
          exact grown_desc q acc i (by simp [hj,hji])

/-- A chain is allocated, or the free descriptors and their number are as before. -/
theorem allocChain_cases (h : Inv q chains) (count : ℤ) :
    (∃ q' l, q.allocChain count = (q',some l) ∧ (l.length : ℤ) = count ∧ l ≠ [] ∧
      Allocated q q' [] l chains) ∨
    ∃ q', q.allocChain count = (q',none) ∧ Inv q' chains ∧ Kept q q' ∧ q'.free = q.free ∧
      q'.freeCount = q.freeCount ∧ (∀ i, q.free i = false → q'.desc i = q.desc i) ∧
      (1 ≤ count ∧ count ≤ 8 → (q.freeCount.toNat : ℤ) < count) := by
  unfold Virtqueue.allocChain
  by_cases hbad : count < 1 ∨ 8 < count
  · rw [if_pos hbad]
    exact .inr ⟨q,rfl,h,.refl q,rfl,rfl,fun _ _ => rfl,by omega⟩
  · rw [if_neg hbad]
    have h0 : Inv q ([] :: chains) := by
      refine ⟨by simpa using h.count,by simpa using h.nodup,by simpa using h.mem,?_,fun i hi => ?_⟩
      · simpa [Linked] using h.linked
      · obtain ⟨c,hc,hh⟩ := h.heads i hi
        exact ⟨c,by simp [hc],hh⟩
    rcases allocLoop_cases count.toNat h0 (by simp) with ⟨q',l,he,hlen,ha⟩ | ⟨q',he,hr⟩
    · refine .inl ⟨q',l,by simpa using he,by omega,?_,ha⟩
      rintro rfl
      simp only [List.length_nil] at hlen
      omega
    · refine .inr ⟨q',he,hr.inv,hr.kept,?_,by simpa using hr.freeCount,fun i => hr.desc i (by simp),?_⟩
      · funext i
        simpa using hr.free i
      · have := hr.short
        omega

/-- From a descriptor on, the loop of `virtq_free_chain` collects the rest of its chain. -/
theorem walk_linked (pre : List Idx) {l : List Idx} {n : ℕ} (h : Linked q.desc (i :: l))
    (hfree : ∀ j ∈ i :: l, q.free j = false) (hn : (pre++i :: l).Nodup) (hl : (i :: l).length ≤ n) :
    q.walk n (name i) pre = some (pre++i :: l) := by
  induction l generalizing i pre n with
  | nil =>
    obtain ⟨n,rfl⟩ : ∃ m, n = m+1 := ⟨n-1,by simp at hl; omega⟩
    have hi : i ∉ pre := fun hp => by
      have := (List.nodup_append.1 hn).2.2 i hp i (by simp)
      exact this rfl
    have hnext : (q.desc i).hasNext = false := h
    simp [Virtqueue.walk,toNat_name,hfree i (by simp),hi,hnext]
  | cons j l ih =>
    obtain ⟨n,rfl⟩ : ∃ m, n = m+1 := ⟨n-1,by simp at hl; omega⟩
    have hi : i ∉ pre := fun hp => by
      have := (List.nodup_append.1 hn).2.2 i hp i (by simp)
      exact this rfl
    obtain ⟨hnext,hj,hrest⟩ := h
    have hwalk := ih (pre++[i]) (n := n) hrest (fun k hk => hfree k (by simp [hk]))
      (by simpa using hn) (by simpa using hl)
    simp [Virtqueue.walk,toNat_name,hfree i (by simp),hi,hnext,hj,hwalk]

theorem nodup_length_le {l : List Idx} (h : l.Nodup) : l.length ≤ 8 := by
  simpa using h.length_le_card

/-- `virtq_free_chain` at the head of a chain releases this chain. -/
theorem freeChain_head (h : Inv q chains) (hc : c ∈ chains) (hi : c.head? = some i)
    (hidle : q.active i = false) :
    q.freeChain (name i) = (c.foldl Virtqueue.releaseDesc q,(c.length : ℤ)) := by
  obtain ⟨l,rfl⟩ : ∃ l, c = i :: l := by
    cases c with
    | nil => simp at hi
    | cons a l =>
      obtain rfl : a = i := by simpa using hi
      exact ⟨l,rfl⟩
  have hn : (i :: l).Nodup := (List.nodup_flatten.1 h.nodup).1 _ hc
  have hwalk := walk_linked [] (h.linked _ hc) (fun j hj => h.notFree hc hj) (by simpa using hn)
    (nodup_length_le hn)
  have hfree := h.notFree (i := i) hc (by simp)
  unfold Virtqueue.freeChain
  simp [toNat_name,hfree,hidle,hwalk]

theorem freeChain_neg (q : Virtqueue) (head : BitVec 16) (hneg : (q.freeChain head).2 = -1) :
    (q.freeChain head).1 = q := by
  unfold Virtqueue.freeChain at hneg ⊢
  split
  next hi =>
    rw [dif_pos hi] at hneg
    split
    next => rfl
    next hno =>
      rw [if_neg hno] at hneg
      split
      next => rfl
      next l hw =>
        rw [hw] at hneg
        simp only at hneg
        omega
  next => rfl

theorem submit_cases (q : Virtqueue) (head : BitVec 16) :
    q.submit head = q ∨ ∃ i, head = name i ∧ q.free i = false ∧ q.active i = false ∧
      q.submit head =
        { q with active := Function.update q.active i true,
                 availRing := Function.update q.availRing (ringPos q.availIdx) head,
                 availIdx := q.availIdx+1 } := by
  unfold Virtqueue.submit
  split
  next hi =>
    split
    next => exact .inl rfl
    next hno =>
      simp only [not_or,Bool.not_eq_true] at hno
      exact .inr ⟨⟨head.toNat,hi⟩,BitVec.eq_of_toNat_eq (toNat_name ⟨_,hi⟩).symm,hno.1,hno.2,rfl⟩
  next => exact .inl rfl

theorem submit_name (hfree : q.free i = false) (hidle : q.active i = false) : q.submit (name i) =
    { q with active := Function.update q.active i true,
             availRing := Function.update q.availRing (ringPos q.availIdx) (name i),
             availIdx := q.availIdx+1 } := by
  unfold Virtqueue.submit
  simp [toNat_name,hfree,hidle]

/-- Submitting the head of a chain keeps the chains. -/
theorem Inv.submit (h : Inv q chains) (hc : c ∈ chains) (hi : c.head? = some i) :
    Inv (q.submit (name i)) chains := by
  rcases submit_cases q (name i) with he | ⟨j,hname,-,-,he⟩
  · rwa [he]
  · obtain rfl := name_injective hname
    rw [he]
    refine ⟨h.count,h.nodup,h.mem,h.linked,fun k hk => ?_⟩
    by_cases hkj : k = i
    · subst hkj
      exact ⟨c,hc,hi⟩
    · exact h.heads k (by simpa [hkj] using hk)

theorem popUsedLen_cases (q : Virtqueue) :
    q.popUsedLen = (q,.empty) ∨ q.popUsedLen = ({ q with usedIdx := q.usedIdx+1 },.bad) ∨
    ∃ i, q.active i = true ∧ (q.usedRing (ringPos q.usedIdx)).id = .ofNat 32 i ∧ q.usedIdx ≠ q.deviceIdx ∧
      q.popUsedLen = ({ q with usedIdx := q.usedIdx+1, active := Function.update q.active i false },
        .head i (q.usedRing (ringPos q.usedIdx)).len) := by
  unfold Virtqueue.popUsedLen
  split
  next => exact .inl rfl
  next hne =>
    dsimp only
    split
    next hi =>
      split
      next => exact .inr (.inl rfl)
      next hact =>
        refine .inr (.inr ⟨_,by simpa using hact,?_,hne,rfl⟩)
        exact BitVec.eq_of_toNat_eq (by rw [BitVec.toNat_ofNat,Nat.mod_eq_of_lt (by omega)])
    next => exact .inr (.inl rfl)

theorem Inv.popUsedLen (h : Inv q chains) : Inv q.popUsedLen.1 chains := by
  rcases popUsedLen_cases q with he | he | ⟨i,hi,-,-,he⟩ <;> rw [he]
  · exact h
  · exact h.congr rfl rfl (fun _ hi => hi) fun _ => ⟨rfl,rfl⟩
  · refine h.congr rfl rfl (fun j hj => ?_) fun _ => ⟨rfl,rfl⟩
    by_cases hji : j = i
    · exact hji ▸ hi
    · simpa [hji] using hj

/-! Runs of a driver and a device. -/

/-- A queue, and what has happened to it: its chains, and how often each head was submitted and
popped. -/
structure State where
  q : Virtqueue
  chains : List (List Idx)
  submits : Idx → ℕ
  pops : Idx → ℕ

def State.init : State := ⟨virtqInit,[],fun _ => 0,fun _ => 0⟩

inductive Event
  | allocChain (count : ℤ)
  | submit (head : BitVec 16)
  | popUsedLen
  | freeChain (head : BitVec 16)
  | device (idx : BitVec 16) (ring : Idx → UsedElem)
  | write (i : Idx) (d : Desc)

namespace State

/-- Heads of chains are submitted, no inner descriptor of a chain is passed to `virtq_free_chain`, and
the driver keeps the links of its descriptors. -/
def Legal (s : State) : Event → Prop
  | .submit head => ∃ c ∈ s.chains, ∃ i ∈ c.head?, head = name i
  | .freeChain head => ∀ c ∈ s.chains, ∀ i ∈ c.tail, head ≠ name i
  | .write i d => d.hasNext = (s.q.desc i).hasNext ∧ d.next = (s.q.desc i).next
  | _ => True

instance (s : State) (e : Event) : Decidable (s.Legal e) := by
  cases e <;> unfold Legal <;> infer_instance

def act (s : State) : Event → State
  | .allocChain count =>
    let r := s.q.allocChain count
    { s with q := r.1, chains := r.2.toList++s.chains }
  | .submit head =>
    let q := s.q.submit head
    { s with q := q, submits := fun i => s.submits i+if q.active i && !s.q.active i then 1 else 0 }
  | .popUsedLen =>
    let r := s.q.popUsedLen
    { s with q := r.1, pops := match r.2 with
        | .head i _ => Function.update s.pops i (s.pops i+1)
        | _ => s.pops }
  | .freeChain head =>
    let r := s.q.freeChain head
    { s with q := r.1,
             chains := if r.2 = -1 then s.chains else dropChain s.chains (Fin.ofNat 8 head.toNat) }
  | .device idx ring => { s with q := s.q.device idx ring }
  | .write i d => { s with q := s.q.write i d }

/-- Events that are not legal are left out. -/
def run (s : State) (events : List Event) : State :=
  events.foldl (fun s e => if s.Legal e then s.act e else s) s

end State

structure State.Ok (s : State) : Prop where
  inv : Inv s.q s.chains
  nonempty : ∀ c ∈ s.chains, c ≠ []
  counts : ∀ i, s.submits i = s.pops i+(s.q.active i).toNat

namespace State.Ok

variable {s : State}

theorem allocChain (h : s.Ok) (count : ℤ) : (s.act (.allocChain count)).Ok := by
  dsimp only [act]
  rcases allocChain_cases h.inv count with ⟨q',l,he,-,hl,ha⟩ | ⟨q',he,hinv,hk,-⟩ <;> rw [he]
  · refine ⟨by simpa using ha.inv,fun c hc => ?_,fun i => ?_⟩
    · rcases List.mem_cons.1 (by simpa using hc) with rfl | hc
      · exact hl
      · exact h.nonempty c hc
    · simpa [ha.kept.active] using h.counts i
  · exact ⟨hinv,h.nonempty,fun i => by simpa [hk.active] using h.counts i⟩

theorem submit (h : s.Ok) {head : BitVec 16} (hl : s.Legal (.submit head)) :
    (s.act (.submit head)).Ok := by
  obtain ⟨c,hc,i,hi,rfl⟩ := hl
  refine ⟨h.inv.submit hc hi,h.nonempty,fun j => ?_⟩
  have hj := h.counts j
  dsimp only [act]
  rcases submit_cases s.q (name i) with he | ⟨k,-,-,hk,he⟩
  · simpa [he] using hj
  · by_cases hjk : j = k
    · subst hjk
      simp [he,hk] at hj ⊢
      omega
    · simp [he,hjk,hj]

theorem popUsedLen (h : s.Ok) : (s.act .popUsedLen).Ok := by
  refine ⟨h.inv.popUsedLen,h.nonempty,fun j => ?_⟩
  have hj := h.counts j
  dsimp only [act]
  rcases popUsedLen_cases s.q with he | he | ⟨i,hi,-,-,he⟩
  · simpa [he] using hj
  · simpa [he] using hj
  · by_cases hji : j = i
    · subst hji
      simpa [he,hi] using hj
    · simp [he,hji,hj]

/-- The chain that `virtq_free_chain` is called for, if it does not fail. -/
theorem exists_chain (h : s.Ok) {head : BitVec 16} (hl : s.Legal (.freeChain head))
    (hr : (s.q.freeChain head).2 ≠ -1) :
    ∃ c ∈ s.chains, ∃ i, c.head? = some i ∧ s.q.active i = false ∧ head = name i := by
  have hi : head.toNat < 8 := by
    by_contra hno
    simp [Virtqueue.freeChain,hno] at hr
  have hhead : head = name ⟨head.toNat,hi⟩ := BitVec.eq_of_toNat_eq (toNat_name ⟨_,hi⟩).symm
  have hidle : s.q.free ⟨head.toNat,hi⟩ = false ∧ s.q.active ⟨head.toNat,hi⟩ = false := by
    by_contra hno
    have hbad : s.q.free ⟨head.toNat,hi⟩ = true ∨ s.q.active ⟨head.toNat,hi⟩ = true := by
      rwa [not_and_or,Bool.not_eq_false,Bool.not_eq_false] at hno
    simp [Virtqueue.freeChain,hi,hbad] at hr
  obtain ⟨c,hc,hmem⟩ := List.mem_flatten.1 ((h.inv.mem _).2 hidle.1)
  refine ⟨c,hc,⟨head.toNat,hi⟩,?_,hidle.2,hhead⟩
  cases c with
  | nil => simp at hmem
  | cons a l =>
    rcases List.mem_cons.1 hmem with he | hmem
    · simp [he]
    · exact absurd hhead (hl _ hc _ hmem)

theorem freeChain (h : s.Ok) {head : BitVec 16} (hl : s.Legal (.freeChain head)) :
    (s.act (.freeChain head)).Ok := by
  dsimp only [act]
  by_cases hr : (s.q.freeChain head).2 = -1
  · rw [if_pos hr,freeChain_neg s.q head hr]
    exact ⟨h.inv,h.nonempty,h.counts⟩
  · rw [if_neg hr]
    obtain ⟨c,hc,i,hi,hidle,rfl⟩ := h.exists_chain hl hr
    have hindex : Fin.ofNat 8 (name i).toNat = i := by
      rw [toNat_name,Fin.ofNat_val_eq_self]
    have hperm := h.inv.dropChain_perm hc hi
    rw [freeChain_head h.inv hc hi hidle,hindex]
    refine ⟨(h.inv.perm hperm).release fun j => h.inv.idle_chain hc hi hidle,fun d hd => ?_,fun j => ?_⟩
    · exact h.nonempty d (hperm.mem_iff.2 (by simp [hd]))
    · simpa [(Kept.release c s.q).active] using h.counts j

theorem step (h : s.Ok) {e : Event} (hl : s.Legal e) : (s.act e).Ok := by
  cases e with
  | allocChain count => exact h.allocChain count
  | submit head => exact h.submit hl
  | popUsedLen => exact h.popUsedLen
  | freeChain head => exact h.freeChain hl
  | device idx ring => exact ⟨h.inv.device idx ring,h.nonempty,h.counts⟩
  | write i d => exact ⟨h.inv.write hl.1 hl.2,h.nonempty,h.counts⟩

theorem run (h : s.Ok) (events : List Event) : (s.run events).Ok := by
  induction events generalizing s with
  | nil => exact h
  | cons e events ih =>
    rw [State.run,List.foldl_cons]
    split
    next hl => exact ih (h.step hl)
    next => exact ih h

end State.Ok

theorem State.Ok.init : State.init.Ok := ⟨init_inv,by simp [State.init],fun _ => rfl⟩

/-- In every state of every run: the free descriptors are counted, no submitted head is free, the other
descriptors form disjoint chains; a failed allocation changes nothing of this; a pop hands out only what
was submitted and not yet popped; and a release takes one whole chain or nothing. -/
theorem queue_owned (events : List Event) :
    let s := State.init.run events
    s.q.freeCount.toNat = (Finset.univ.filter fun i => s.q.free i = true).card ∧
    (∀ i, s.q.active i = true → s.q.free i = false) ∧
    (s.chains.flatten.Nodup ∧ (∀ i, i ∈ s.chains.flatten ↔ s.q.free i = false) ∧
      ∀ c ∈ s.chains, c ≠ [] ∧ Linked s.q.desc c) ∧
    (∀ count, (s.q.allocChain count).2 = none →
      (s.q.allocChain count).1.free = s.q.free ∧ (s.q.allocChain count).1.freeCount = s.q.freeCount) ∧
    (∀ i, s.submits i = s.pops i+(s.q.active i).toNat) ∧
    (∀ i length, s.q.popUsedLen.2 = .head i length →
      s.pops i < s.submits i ∧ s.q.popUsedLen.1.free = s.q.free ∧
        s.q.popUsedLen.1.active = Function.update s.q.active i false) ∧
    ((∀ i length, s.q.popUsedLen.2 ≠ .head i length) →
      s.q.popUsedLen.1.free = s.q.free ∧ s.q.popUsedLen.1.active = s.q.active) ∧
    (∀ c ∈ s.chains, ∀ i, c.head? = some i → s.q.active i = false →
      (s.q.freeChain (name i)).2 = c.length ∧
        ∀ j, (s.q.freeChain (name i)).1.free j = (s.q.free j || decide (j ∈ c))) ∧
    ∀ (q : Virtqueue) head, (q.freeChain head).2 = -1 → (q.freeChain head).1 = q := by
  intro s
  have h : s.Ok := State.Ok.init.run events
  refine ⟨h.inv.count_free,fun i => h.inv.active_notFree,⟨h.inv.nodup,h.inv.mem,
    fun c hc => ⟨h.nonempty c hc,h.inv.linked c hc⟩⟩,fun count hfail => ?_,h.counts,
    fun i length hpop => ?_,fun hno => ?_,fun c hc i hi hidle => ?_,freeChain_neg⟩
  · rcases allocChain_cases h.inv count with ⟨q',l,he,-⟩ | ⟨q',he,-,-,hfree,hcount,-⟩
    · simp [he] at hfail
    · rw [he]
      exact ⟨hfree,hcount⟩
  · rcases popUsedLen_cases s.q with he | he | ⟨j,hj,-,-,he⟩ <;> rw [he] at hpop ⊢
    · simp at hpop
    · simp at hpop
    · obtain ⟨rfl,-⟩ := Popped.head.inj hpop
      have := h.counts j
      rw [hj,Bool.toNat_true] at this
      exact ⟨by omega,rfl,rfl⟩
  · rcases popUsedLen_cases s.q with he | he | ⟨j,-,-,-,he⟩
    · rw [he]
      exact ⟨rfl,rfl⟩
    · rw [he]
      exact ⟨rfl,rfl⟩
    · exact absurd (congrArg Prod.snd he) (hno _ _)
  · rw [freeChain_head h.inv hc hi hidle,release_all]
    exact ⟨rfl,fun _ => rfl⟩

/-- A descriptor inside a chain is accepted as a head: part of a chain that the device works on becomes
free, and its head, popped later, cannot be released. -/
theorem freeChain_inside :
    let q := (virtqInit.allocChain 2).1.submit 0
    let q' := (q.freeChain 1).1.device 1 fun _ => ⟨0,0⟩
    (virtqInit.allocChain 2).2 = some [0,1] ∧ q.active 0 = true ∧ (q.freeChain 1).2 = 1 ∧
      ((q'.desc 0).hasNext = true ∧ (q'.desc 0).next = name 1 ∧ q'.free 1 = true) ∧
      q'.popUsedLen.2 = .head 0 0 ∧ (q'.popUsedLen.1.freeChain 0).2 = -1 := by
  decide +kernel

end Virtq
end QuardStarNet
