import QuardStarNet.VirtioNet

/-! The buffer accounting of the network driver: every receive slot is with the device or in the
completion ring, every send slot in use has its own descriptor, across interrupts, sleeping callers,
dropped frames and resets. -/
namespace QuardStarNet
namespace VirtioNet

open Virtq

/-! The completion ring as a list of slots. -/

structure CompletionRing.Holds (r : CompletionRing) (l : List Idx) : Prop where
  count : r.count = l.length
  room : l.length ≤ 8
  write : r.writeIndex = r.readIndex+Fin.ofNat 8 l.length
  cells : ∀ k (h : k < l.length), r.slots (r.readIndex+Fin.ofNat 8 k) = name l[k]

namespace CompletionRing.Holds

variable {r : CompletionRing} {l : List Idx} {i : Idx}

theorem init (r : CompletionRing) : r.init.Holds [] :=
  ⟨rfl,by simp,rfl,fun k h => by simp at h⟩

theorem push (h : r.Holds l) (hl : l.length < 8) : ∃ r', r.push (name i) = some r' ∧ r'.Holds (l++[i]) := by
  have hcount := h.count
  refine ⟨{ r with slots := Function.update r.slots r.writeIndex (name i), writeIndex := r.writeIndex+1,
                   count := r.count+1 },if_neg (by omega),by simp [hcount],by simp; omega,?_,fun k hk => ?_⟩
  · simp only [h.write,List.length_append,List.length_singleton]
    apply Fin.ext
    simp [Fin.add_def]
    omega
  · simp only [List.length_append,List.length_singleton] at hk
    by_cases hlast : k = l.length
    · subst hlast
      simp [h.write]
    · have hlt : k < l.length := by omega
      have hne : r.readIndex+Fin.ofNat 8 k ≠ r.writeIndex := fun he => by
        rw [h.write] at he
        have := congrArg Fin.val (add_left_cancel he)
        simp only [Fin.val_ofNat] at this
        omega
      dsimp only
      rw [Function.update_of_ne hne,h.cells k hlt,List.getElem_append_left hlt]

theorem pop (h : r.Holds (i :: l)) : ∃ r', r.pop = some (name i,r') ∧ r'.Holds l := by
  have hcount := h.count
  have hroom := h.room
  have hfirst := h.cells 0 (by simp)
  simp only [List.length_cons] at hcount hroom
  refine ⟨{ r with readIndex := r.readIndex+1, count := r.count-1 },?_,by simp [hcount],by omega,?_,
    fun k hk => ?_⟩
  · rw [CompletionRing.pop,if_neg (by omega)]
    simpa using hfirst
  · simp only [h.write,List.length_cons]
    apply Fin.ext
    simp [Fin.add_def]
    omega
  · have hcell := h.cells (k+1) (by simpa using hk)
    rw [List.getElem_cons_succ] at hcell
    rw [← hcell]
    refine congrArg r.slots (Fin.ext ?_)
    simp [Fin.add_def]
    omega

end CompletionRing.Holds

/-! The receive side. -/

/-- A slot is with the device, or completed with a length that fits. -/
def RxSlot.Fine (q : Virtqueue) (x : RxSlot) : Prop :=
  x.state = .posted ∧ q.active x.descriptor = true ∨
    x.state = .completed ∧ q.active x.descriptor = false ∧ 24 ≤ (q.desc x.descriptor).len.toNat ∧
      (q.desc x.descriptor).len.toNat ≤ 1524

/-- Every slot is fine, and the ring has the completed ones, except for the slot in hand. -/
structure RxExcept (q : Virtqueue) (rx : Idx → RxSlot) (ring : CompletionRing) (hand : Option Idx) : Prop where
  taken : ∀ d, q.free d = false
  own : Function.Injective fun i => (rx i).descriptor
  fine : ∀ i, some i ≠ hand → (rx i).Fine q
  idle : ∀ i, some i = hand → q.active (rx i).descriptor = false
  ring : ∃ l : List Idx, ring.Holds l ∧ l.Nodup ∧ ∀ i, i ∈ l ↔ some i ≠ hand ∧ (rx i).state = .completed

/-- The receive side of the driver. -/
abbrev RxOk (q : Virtqueue) (rx : Idx → RxSlot) (ring : CompletionRing) : Prop := RxExcept q rx ring none

namespace RxExcept

variable {q q' : Virtqueue} {rx rx' : Idx → RxSlot} {ring ring' : CompletionRing} {slot i j : Idx}
  {hand : Option Idx} {x : RxSlot}

/-- The slot in hand gets a new state, and the queue changes at its descriptor only. -/
theorem put (h : RxExcept q rx ring (some slot)) (hd : x.descriptor = (rx slot).descriptor)
    (hfree : q'.free = q.free)
    (hq : ∀ d, d ≠ x.descriptor → q'.active d = q.active d ∧ q'.desc d = q.desc d)
    (hx : x.Fine q') (hring : ∃ l : List Idx, ring'.Holds l ∧ l.Nodup ∧
      ∀ i, i ∈ l ↔ if i = slot then x.state = .completed else (rx i).state = .completed) :
    RxOk q' (Function.update rx slot x) ring' := by
  have hdesc : ∀ i, (Function.update rx slot x i).descriptor = (rx i).descriptor := fun i => by
    by_cases hi : i = slot
    · subst hi
      simpa using hd
    · simp [hi]
  refine ⟨fun d => hfree ▸ h.taken d,fun i j hij => h.own ?_,fun i _ => ?_,by simp,?_⟩
  · simpa [hdesc] using hij
  · by_cases hi : i = slot
    · subst hi
      simpa using hx
    · have hne : (rx i).descriptor ≠ x.descriptor := fun he => hi (h.own (he.trans hd))
      have hfine := h.fine i (by simpa using hi)
      simp only [ne_eq,hi,not_false_eq_true,Function.update_of_ne]
      unfold RxSlot.Fine at hfine ⊢
      rwa [(hq _ hne).1,(hq _ hne).2]
  · obtain ⟨l,hl,hn,hmem⟩ := hring
    refine ⟨l,hl,hn,fun i => ?_⟩
    rw [hmem i]
    by_cases hi : i = slot <;> simp [hi]

/-- The device has given back the slot's descriptor. -/
theorem popped (h : RxOk q rx ring) {d : Idx} (hact : q.active d = true)
    (hfree : q'.free = q.free) (hactive : q'.active = Function.update q.active d false)
    (hdesc : q'.desc = q.desc) :
    ∃ slot, (rx slot).descriptor = d ∧ (rx slot).state = .posted ∧ RxExcept q' rx ring (some slot) := by
  obtain ⟨slot,hslot⟩ := Finite.injective_iff_surjective.1 h.own d
  simp only at hslot
  have hposted : (rx slot).state = .posted := by
    rcases h.fine slot (by simp) with hf | ⟨-,hidle,-⟩
    · exact hf.1
    · simp [hslot,hact] at hidle
  refine ⟨slot,hslot,hposted,fun d => hfree ▸ h.taken d,h.own,fun i hi => ?_,fun i hi => ?_,?_⟩
  · have hne : (rx i).descriptor ≠ d := fun he => hi (by rw [h.own (he.trans hslot.symm)])
    have hfine := h.fine i (by simp)
    unfold RxSlot.Fine at hfine ⊢
    rwa [hactive,hdesc,Function.update_of_ne hne]
  · obtain rfl := Option.some.inj hi
    simp [hactive,hslot]
  · obtain ⟨l,hl,hn,hmem⟩ := h.ring
    refine ⟨l,hl,hn,fun i => ?_⟩
    rw [hmem i]
    by_cases hi : i = slot
    · simp [hi,hposted]
    · simp [hi]

/-- A receiver has taken the slot from the completion ring. -/
theorem received (h : RxOk q rx ring) (hc : ring.count ≠ 0) : ∃ slot ring',
    ring.pop = some (name slot,ring') ∧ (rx slot).state = .completed ∧
      24 ≤ (q.desc (rx slot).descriptor).len.toNat ∧ (q.desc (rx slot).descriptor).len.toNat ≤ 1524 ∧
      RxExcept q rx ring' (some slot) := by
  obtain ⟨l,hl,hn,hmem⟩ := h.ring
  cases l with
  | nil => exact absurd hl.count hc
  | cons slot l =>
    obtain ⟨ring',hpop,hl'⟩ := hl.pop
    have hcompleted := ((hmem slot).1 (by simp)).2
    rcases h.fine slot (by simp) with hf | ⟨-,hidle,hlow,hhigh⟩
    · simp [hcompleted] at hf
    · refine ⟨slot,ring',hpop,hcompleted,hlow,hhigh,h.taken,h.own,fun i _ => h.fine i (by simp),
        fun i hi => ?_,l,hl',(List.nodup_cons.1 hn).2,fun i => ?_⟩
      · obtain rfl := Option.some.inj hi
        exact hidle
      · have hi := hmem i
        have hnot := (List.nodup_cons.1 hn).1
        by_cases his : i = slot
        · simp [his,hnot]
        · simpa [his] using hi

/-- The slot in hand goes back to the device. -/
theorem repost (h : RxExcept q rx ring (some slot)) (hd : x.descriptor = (rx slot).descriptor)
    (hx : x.state = .posted) (e : Desc) :
    RxOk ((q.write x.descriptor e).submit (name x.descriptor)) (Function.update rx slot x) ring := by
  have hidle : q.active x.descriptor = false := hd ▸ h.idle slot rfl
  have hsubmit := submit_name (q := q.write x.descriptor e) (i := x.descriptor) (h.taken _) hidle
  rw [hsubmit]
  refine h.put hd rfl (fun d hne => by simp [Virtqueue.write,hne]) (.inl ⟨hx,by simp⟩) ?_
  obtain ⟨l,hl,hn,hmem⟩ := h.ring
  refine ⟨l,hl,hn,fun i => ?_⟩
  rw [hmem i]
  by_cases hi : i = slot <;> simp [hi,hx]

/-- The slot in hand is completed: the ring has room for it. -/
theorem complete (h : RxExcept q rx ring (some slot)) (hd : x.descriptor = (rx slot).descriptor)
    (hx : x.state = .completed) {e : Desc} (hlow : 24 ≤ e.len.toNat) (hhigh : e.len.toNat ≤ 1524) :
    ∃ ring', ring.push (name slot) = some ring' ∧
      RxOk (q.write x.descriptor e) (Function.update rx slot x) ring' := by
  obtain ⟨l,hl,hn,hmem⟩ := h.ring
  have hnot : slot ∉ l := by simp [hmem]
  have hlen : l.length < 8 := nodup_length_le (List.nodup_cons.2 ⟨hnot,hn⟩)
  obtain ⟨ring',hpush,hl'⟩ := hl.push (i := slot) hlen
  refine ⟨ring',hpush,h.put hd rfl (fun d hne => by simp [Virtqueue.write,hne]) (.inr ⟨hx,?_,?_⟩)
    ⟨_,hl',?_,fun i => ?_⟩⟩
  · exact hd ▸ h.idle slot rfl
  · simpa [Virtqueue.write] using ⟨hlow,hhigh⟩
  · refine List.nodup_append.2 ⟨hn,by simp,fun a ha b hb he => hnot ?_⟩
    rwa [← List.mem_singleton.1 hb,← he]
  · rw [List.mem_append,List.mem_singleton,hmem i]
    by_cases hi : i = slot <;> simp [hi,hx]

/-- While a slot is with the device the ring has room. -/
theorem room (h : RxOk q rx ring) (hs : (rx slot).state = .posted) : ring.count < 8 := by
  obtain ⟨l,hl,hn,hmem⟩ := h.ring
  have hnot : slot ∉ l := by simp [hmem,hs]
  rw [hl.count]
  exact nodup_length_le (List.nodup_cons.2 ⟨hnot,hn⟩)

end RxExcept

/-! The send side. -/

def txUsed (tx : Idx → TxSlot) : List Idx := (List.finRange 8).filter fun i => (tx i).inUse

def txChains (tx : Idx → TxSlot) : List (List Idx) := (txUsed tx).map fun i => [(tx i).descriptor]

/-- Every slot in use has a submitted descriptor of its own, and no other descriptor is taken. -/
structure TxOk (q : Virtqueue) (tx : Idx → TxSlot) (pending : BitVec 32) : Prop where
  inv : Inv q (txChains tx)
  submitted : ∀ i, (tx i).inUse = true → q.active (tx i).descriptor = true
  pending : pending.toNat = (txUsed tx).length

namespace TxOk

variable {q q' : Virtqueue} {tx : Idx → TxSlot} {pending : BitVec 32} {slot i j d : Idx} {x : TxSlot}

theorem mem_txUsed : i ∈ txUsed tx ↔ (tx i).inUse = true := by simp [txUsed]

theorem flatten_txChains (tx : Idx → TxSlot) :
    (txChains tx).flatten = (txUsed tx).map fun i => (tx i).descriptor := by
  rw [txChains,← List.flatMap_def]
  exact List.flatMap_pure_eq_map ..

theorem txUsed_nodup (tx : Idx → TxSlot) : (txUsed tx).Nodup := (List.nodup_finRange 8).filter _

/-- A slot that is taken into use joins the list of those in use. -/
theorem txUsed_take (tx : Idx → TxSlot) (slot : Idx) (x : TxSlot) (hfree : (tx slot).inUse = false) (hx : x.inUse = true) :
    (txUsed (Function.update tx slot x)).Perm (slot :: txUsed tx) := by
  have hnot : slot ∉ txUsed tx := by simp [mem_txUsed,hfree]
  refine (List.perm_ext_iff_of_nodup (txUsed_nodup _) (List.nodup_cons.2 ⟨hnot,txUsed_nodup tx⟩)).2 fun i => ?_
  by_cases hi : i = slot <;> simp [mem_txUsed,hi,hx]

theorem txChains_take (tx : Idx → TxSlot) (slot : Idx) (x : TxSlot) (hfree : (tx slot).inUse = false) (hx : x.inUse = true) :
    (txChains (Function.update tx slot x)).Perm ([x.descriptor] :: txChains tx) := by
  have hperm := (txUsed_take tx slot x hfree hx).map fun i => [(Function.update tx slot x i).descriptor]
  have hrest : (txUsed tx).map (fun i => [(Function.update tx slot x i).descriptor]) = txChains tx :=
    List.map_congr_left fun i hi => by
      have : i ≠ slot := fun he => by simp [mem_txUsed,he,hfree] at hi
      simp [this]
  rwa [List.map_cons,hrest,Function.update_self] at hperm

theorem eq_of_descriptor (h : TxOk q tx pending) (hi : (tx i).inUse = true) (hj : (tx j).inUse = true)
    (he : (tx i).descriptor = (tx j).descriptor) : i = j := by
  have hn := h.inv.nodup
  rw [flatten_txChains] at hn
  exact List.inj_on_of_nodup_map hn (mem_txUsed.2 hi) (mem_txUsed.2 hj) he

theorem count (h : TxOk q tx pending) : q.freeCount.toNat+(txUsed tx).length = 8 := by
  have := h.inv.count
  rwa [flatten_txChains,List.length_map] at this

theorem descriptor_taken (h : TxOk q tx pending) (hi : (tx i).inUse = true) :
    q.free (tx i).descriptor = false := h.inv.active_notFree (h.submitted i hi)

theorem init (tx : Idx → TxSlot) (hidle : ∀ i, (tx i).inUse = false) : TxOk virtqInit tx 0 := by
  have hused : txUsed tx = [] := by simp [txUsed,hidle]
  exact ⟨by simpa [txChains,hused] using init_inv,fun i hi => by simp [hidle i] at hi,by simp [hused]⟩

/-- With a free slot there is a free descriptor, and the frame can be submitted. -/
theorem send (h : TxOk q tx pending) (hslot : (tx slot).inUse = false) :
    ∃ q' d, q.allocChain 1 = (q',some [d]) ∧
      ∀ e : Desc, e.hasNext = (q'.desc d).hasNext → e.next = (q'.desc d).next → ∀ bytes,
        TxOk ((q'.write d e).submit (name d)) (Function.update tx slot ⟨bytes,d,true⟩) (pending+1) := by
  have hnot : slot ∉ txUsed tx := by simp [mem_txUsed,hslot]
  have hroom : (txUsed tx).length < 8 := nodup_length_le (List.nodup_cons.2 ⟨hnot,txUsed_nodup tx⟩)
  have hcount := h.count
  rcases allocChain_cases h.inv 1 with ⟨q',l,he,hlen,-,ha⟩ | ⟨q',-,-,-,-,-,-,hshort⟩
  · obtain ⟨d,rfl⟩ := List.length_eq_one_iff.1 (by exact_mod_cast hlen)
    refine ⟨q',d,he,fun e hnext hd bytes => ?_⟩
    have hinv : Inv (q'.write d e) ([d] :: txChains tx) := Inv.write ha.inv hnext hd
    have hidle : q'.active d = false := by
      rw [ha.kept.active]
      by_contra hact
      have := h.inv.active_notFree (i := d) (by simpa using hact)
      simp [ha.wasFree d (by simp)] at this
    have hsubmit := hinv.submit (c := [d]) (i := d) (by simp) (by simp)
    refine ⟨hsubmit.perm (txChains_take tx slot ⟨bytes,d,true⟩ hslot rfl).symm,fun i hi => ?_,?_⟩
    · rw [submit_name (hinv.notFree (c := [d]) (by simp) (by simp)) hidle]
      by_cases hi' : i = slot
      · simp [hi']
      · simp only [ne_eq,hi',not_false_eq_true,Function.update_of_ne] at hi ⊢
        have hne : (tx i).descriptor ≠ d := fun he => by
          have := h.descriptor_taken hi
          simp [he,ha.wasFree d (by simp)] at this
        simpa [hne,Virtqueue.write,ha.kept.active] using h.submitted i hi
    · have hpend := h.pending
      rw [(txUsed_take tx slot _ hslot rfl).length_eq,List.length_cons,← hpend,BitVec.toNat_add]
      exact Nat.mod_eq_of_lt (by simp; omega)
  · have := hshort (by omega)
    omega

/-- The device has used a frame: its slot is found and released. -/
theorem sent (h : TxOk q tx pending) (hact : q.active d = true) (hinv : Inv q' (txChains tx))
    (hactive : q'.active = Function.update q.active d false) :
    ∃ slot, (tx slot).inUse = true ∧ (tx slot).descriptor = d ∧ (q'.freeChain (name d)).2 = 1 ∧
      TxOk (q'.freeChain (name d)).1 (Function.update tx slot { tx slot with inUse := false }) (pending-1) := by
  obtain ⟨c,hc,hhead⟩ := h.inv.heads d hact
  obtain ⟨slot,hslot,rfl⟩ := List.mem_map.1 hc
  obtain rfl : (tx slot).descriptor = d := by simpa using hhead
  have huse := mem_txUsed.1 hslot
  have hidle : q'.active (tx slot).descriptor = false := by simp [hactive]
  have hfree := freeChain_head hinv hc hhead hidle
  have hback : Function.update (Function.update tx slot { tx slot with inUse := false }) slot (tx slot) = tx := by
    simp
  have hperm := txChains_take (Function.update tx slot { tx slot with inUse := false }) slot (tx slot)
    (by simp) huse
  have hlen := (txUsed_take (Function.update tx slot { tx slot with inUse := false }) slot (tx slot)
    (by simp) huse).length_eq
  rw [hback] at hperm hlen
  have hrel := (hinv.perm hperm).release fun x hx => by
    rw [List.mem_singleton.1 hx]
    exact hidle
  refine ⟨slot,huse,rfl,by rw [hfree]; rfl,by rw [hfree]; exact hrel,fun i hi => ?_,?_⟩
  · rw [hfree,(Kept.release _ q').active,hactive]
    by_cases his : i = slot
    · simp [his] at hi
    · simp only [ne_eq,his,not_false_eq_true,Function.update_of_ne] at hi ⊢
      have hne : (tx i).descriptor ≠ (tx slot).descriptor := fun he => his (h.eq_of_descriptor hi huse he)
      rw [Function.update_of_ne hne]
      exact h.submitted i hi
  · have hpend := h.pending
    rw [hlen,List.length_cons] at hpend
    have hless : (pending-1).toNat = pending.toNat-1 := by bv_omega
    omega

theorem find_eq (h : TxOk q tx pending) (huse : (tx slot).inUse = true) :
    (List.finRange 8).find? (fun i => (tx i).inUse && (tx i).descriptor == (tx slot).descriptor) =
      some slot := by
  cases hf : (List.finRange 8).find? fun i => (tx i).inUse && (tx i).descriptor == (tx slot).descriptor with
  | none => simpa [huse] using List.find?_eq_none.1 hf slot (by simp)
  | some i =>
    have hi := List.find?_some hf
    simp only [Bool.and_eq_true,beq_iff_eq] at hi
    rw [h.eq_of_descriptor hi.1 huse hi.2]

end TxOk

/-! The driver starts. -/

variable {ι : Type} {layout : Layout} {n n' : Net ι}

/-- The slots posted so far. -/
structure PostOk (q : Virtqueue) (rx : Idx → RxSlot) (posted : List Idx) : Prop where
  inv : Inv q (posted.map fun i => [(rx i).descriptor])
  nodup : posted.Nodup
  fine : ∀ i ∈ posted, (rx i).state = .posted ∧ q.active (rx i).descriptor = true

theorem PostOk.length_flatten {q : Virtqueue} {rx : Idx → RxSlot} {posted : List Idx}
    (h : PostOk q rx posted) : q.freeCount.toNat+posted.length = 8 := by
  have hflat : (posted.map fun i => [(rx i).descriptor]).flatten = posted.map fun i => (rx i).descriptor := by
    rw [← List.flatMap_def]
    exact List.flatMap_pure_eq_map ..
  have := h.inv.count
  rwa [hflat,List.length_map] at this

/-- The fields that posting a slot does not change. -/
structure PostKept (n n' : Net ι) : Prop where
  txQueue : n'.txQueue = n.txQueue
  tx : n'.tx = n.tx
  pendingTx : n'.pendingTx = n.pendingTx
  completions : n'.completions = n.completions
  printed : n'.printed = n.printed
  resetting : n'.resetting = n.resetting
  stats : n'.stats = n.stats

theorem PostOk.postRx {posted : List Idx} {slot : Idx} (h : PostOk n.rxQueue n.rx posted) (layout : Layout)
    (hslot : slot ∉ posted) :
    (n.netPostRxLocked layout slot).2 = true ∧ PostKept n (n.netPostRxLocked layout slot).1 ∧
      PostOk (n.netPostRxLocked layout slot).1.rxQueue (n.netPostRxLocked layout slot).1.rx (slot :: posted) := by
  have hroom : posted.length < 8 := nodup_length_le (List.nodup_cons.2 ⟨hslot,h.nodup⟩)
  have hcount := h.length_flatten
  unfold Net.netPostRxLocked
  rcases allocChain_cases h.inv 1 with ⟨q,l,he,hlen,-,ha⟩ | ⟨q,-,-,-,-,-,-,hshort⟩
  · obtain ⟨d,rfl⟩ := List.length_eq_one_iff.1 (by exact_mod_cast hlen)
    rw [he]
    have hlast : (q.desc d).hasNext = false := ha.inv.linked [d] (by simp)
    have hinv : Inv (q.write d { q.desc d with addr := layout.rx slot, len := 1524, flags := 2 })
        ([d] :: posted.map fun i => [(n.rx i).descriptor]) := Inv.write ha.inv (by rw [hlast]; simp [Desc.hasNext]) rfl
    have hne : ∀ i ∈ posted, i ≠ slot := fun i hi he => hslot (he ▸ hi)
    have hidle : q.active d = false := by
      rw [ha.kept.active]
      by_contra hact
      have := h.inv.active_notFree (i := d) (by simpa using hact)
      simp [ha.wasFree d (by simp)] at this
    refine ⟨rfl,⟨rfl,rfl,rfl,rfl,rfl,rfl,rfl⟩,?_,List.nodup_cons.2 ⟨hslot,h.nodup⟩,fun i hi => ?_⟩
    · have hsubmit := hinv.submit (c := [d]) (i := d) (by simp) (by simp)
      have hrest : posted.map (fun i => [(Function.update n.rx slot ⟨fun _ => 0,d,.posted⟩ i).descriptor]) =
          posted.map fun i => [(n.rx i).descriptor] :=
        List.map_congr_left fun i hi => by simp [hne i hi]
      dsimp only [Net.setRx]
      rw [List.map_cons,hrest,Function.update_self]
      exact hsubmit
    · dsimp only [Net.setRx]
      rw [submit_name (hinv.notFree (c := [d]) (by simp) (by simp)) hidle]
      by_cases his : i = slot
      · simp [his]
      · have hold := h.fine i ((List.mem_cons.1 hi).resolve_left his)
        have hdiff : (n.rx i).descriptor ≠ d := fun he => by
          have := h.inv.active_notFree hold.2
          simp [he,ha.wasFree d (by simp)] at this
        simpa [his,hdiff,Virtqueue.write,ha.kept.active] using hold
  · have := hshort (by omega)
    omega

theorem PostKept.trans {n'' : Net ι} (h : PostKept n n') (h' : PostKept n' n'') : PostKept n n'' :=
  ⟨h'.1.trans h.1,h'.2.trans h.2,h'.3.trans h.3,h'.4.trans h.4,h'.5.trans h.5,h'.6.trans h.6,h'.7.trans h.7⟩

theorem PostOk.postAll {posted : List Idx} (h : PostOk n.rxQueue n.rx posted) (layout : Layout)
    (slots : List Idx) (hn : (slots++posted).Nodup) :
    (Net.netPostAll layout slots n).2 = true ∧ PostKept n (Net.netPostAll layout slots n).1 ∧
      PostOk (Net.netPostAll layout slots n).1.rxQueue (Net.netPostAll layout slots n).1.rx
        (slots.reverse++posted) := by
  induction slots generalizing n posted with
  | nil => exact ⟨rfl,⟨rfl,rfl,rfl,rfl,rfl,rfl,rfl⟩,h⟩
  | cons slot slots ih =>
    rw [List.cons_append,List.nodup_cons,List.mem_append,not_or] at hn
    obtain ⟨hok,hkept,hpost⟩ := h.postRx layout hn.1.2
    have hn' : (slots++slot :: posted).Nodup :=
      List.perm_middle.nodup_iff.2 (List.nodup_cons.2 ⟨by simpa using hn.1,hn.2⟩)
    obtain ⟨hok',hkept',hpost'⟩ := ih hpost hn'
    rw [Net.netPostAll]
    simp only [hok,if_true]
    exact ⟨hok',hkept.trans hkept',by simpa using hpost'⟩

/-- After all slots are posted the receive side is in order. -/
theorem PostOk.rxOk {q : Virtqueue} {rx : Idx → RxSlot} {ring : CompletionRing} {posted : List Idx}
    (h : PostOk q rx posted) (hall : ∀ i, i ∈ posted) (hring : ring.Holds []) : RxOk q rx ring := by
  have hn := h.inv.nodup
  have hflat : (posted.map fun i => [(rx i).descriptor]).flatten = posted.map fun i => (rx i).descriptor := by
    rw [← List.flatMap_def]
    exact List.flatMap_pure_eq_map ..
  have hinj : Function.Injective fun i => (rx i).descriptor := fun i j he => by
    rw [hflat] at hn
    exact List.inj_on_of_nodup_map hn (hall i) (hall j) he
  refine ⟨fun d => ?_,hinj,fun i _ => .inl (h.fine i (hall i)),by simp,[],hring,by simp,fun i => ?_⟩
  · obtain ⟨i,rfl⟩ := Finite.injective_iff_surjective.1 hinj d
    exact h.inv.active_notFree (h.fine i (hall i)).2
  · simp [(h.fine i (hall i)).1]

/-! The driver as a whole. -/

/-- The codes that an unruly device can bring about. -/
def FailCode.Device (c : FailCode) : Prop := c = .rxUsedId ∨ c = .rxLength ∨ c = .txUsedId

structure Net.Sound (n : Net ι) : Prop where
  active : n.active = !n.failed
  rx : n.failed = false → RxOk n.rxQueue n.rx n.completions
  tx : n.failed = false → TxOk n.txQueue n.tx n.pendingTx
  printed : ∀ c ∈ n.printed, c.Device

/-- The driver between two critical sections. -/
structure Net.Ok (n : Net ι) : Prop extends Net.Sound n where
  idle : n.resetting = false

/-- Nothing that concerns failures has changed. -/
structure SameFlags (n n' : Net ι) : Prop where
  active : n'.active = n.active
  failed : n'.failed = n.failed
  printed : n'.printed = n.printed
  resetting : n'.resetting = n.resetting

namespace Net.Ok

theorem same (h : n.Ok) (hs : SameFlags n n')
    (hrx : n.failed = false → RxOk n'.rxQueue n'.rx n'.completions)
    (htx : n.failed = false → TxOk n'.txQueue n'.tx n'.pendingTx) : n'.Ok :=
  ⟨⟨by rw [hs.active,hs.failed,h.active],fun hf => hrx (hs.failed ▸ hf),fun hf => htx (hs.failed ▸ hf),
    hs.printed ▸ h.printed⟩,hs.resetting ▸ h.idle⟩

/-- A failure is in order if the device is to blame, or if the driver has failed before. -/
theorem fail (h : n.Ok) (hs : SameFlags n n') {code : FailCode} (hc : n.failed = false → code.Device) :
    (n'.netFailLocked code).Ok := by
  unfold Net.netFailLocked
  split
  next => exact ⟨⟨rfl,nofun,nofun,hs.printed ▸ h.printed⟩,hs.resetting ▸ h.idle⟩
  next hf =>
    refine ⟨⟨rfl,nofun,nofun,fun c hm => ?_⟩,hs.resetting ▸ h.idle⟩
    have hm' : c ∈ n'.printed ∨ c = code := by simpa [Net.wakeRx,Net.wakeTx] using hm
    rcases hm' with hm | rfl
    · exact h.printed c (hs.printed ▸ hm)
    · exact hc (by simpa [hs.failed] using hf)

/-- Both queues are set up and all receive slots posted. -/
theorem posted (hrx : PostOk n.rxQueue n.rx []) (hring : n.completions.Holds [])
    (htx : TxOk n.txQueue n.tx n.pendingTx) (hp : ∀ c ∈ n.printed, c.Device) (layout : Layout) :
    (Net.netPostAll layout (List.finRange 8) n).2 = true ∧
      PostKept n (Net.netPostAll layout (List.finRange 8) n).1 ∧
      Net.Sound { (Net.netPostAll layout (List.finRange 8) n).1 with failed := false, active := true } := by
  obtain ⟨hok,hkept,hall⟩ := hrx.postAll layout (List.finRange 8) (by simpa using List.nodup_finRange 8)
  generalize Net.netPostAll layout (List.finRange 8) n = r at hok hkept hall ⊢
  refine ⟨hok,hkept,rfl,fun _ => ?_,fun _ => ?_,fun c hc => hp c ?_⟩
  · exact hall.rxOk (by simp) (by rw [hkept.completions]; exact hring)
  · dsimp only
    rw [hkept.txQueue,hkept.tx,hkept.pendingTx]
    exact htx
  · rw [← hkept.printed]
    exact hc

theorem start (layout : Layout) (hp : ∀ c ∈ n.printed, c.Device) (start : Net.Start) :
    (n.netStartLocked layout start).1.Sound ∧
      (n.netStartLocked layout start).1.resetting = n.resetting ∧
      ((n.netStartLocked layout start).2 = 0 ∨ (n.netStartLocked layout start).1.active = false) := by
  have hfailed : ∀ n' : Net ι, n'.printed = n.printed → n'.startFailed.1.Sound :=
    fun n' hp' => ⟨rfl,nofun,nofun,fun c hc => hp c (hp' ▸ hc)⟩
  unfold Net.netStartLocked
  cases start with
  | noDevice => exact ⟨hfailed _ rfl,rfl,.inr rfl⟩
  | wrongMac => exact ⟨hfailed _ rfl,rfl,.inr rfl⟩
  | noRxQueue => exact ⟨hfailed _ rfl,rfl,.inr rfl⟩
  | noTxQueue => exact ⟨hfailed _ rfl,rfl,.inr rfl⟩
  | ready =>
    have hpost : PostOk n.cleared.withQueues.rxQueue n.cleared.withQueues.rx [] :=
      ⟨init_inv,by simp,by simp⟩
    obtain ⟨hok,hkept,hfine⟩ := posted hpost (.init _) (.init _ fun _ => rfl) hp layout
    dsimp only
    generalize Net.netPostAll layout (List.finRange 8) n.cleared.withQueues = r at hok hkept hfine ⊢
    rw [if_pos hok]
    exact ⟨hfine,hkept.resetting,.inl rfl⟩

theorem reset (h : n.Ok) (mmio : Bool) (start : Net.Start) : (n.virtioNetReset layout mmio start).1.Ok := by
  unfold Net.virtioNetReset
  rw [if_neg (by simp [h.idle])]
  dsimp only
  split
  next => exact ⟨⟨rfl,nofun,nofun,h.printed⟩,rfl⟩
  next =>
    obtain ⟨hstart,-,hres⟩ := Net.Ok.start layout
      (n := { n with resetting := true, active := false }.wakeRx.wakeTx) h.printed start
    generalize Net.netStartLocked layout _ start = r at hstart hres ⊢
    split
    next => exact ⟨⟨hstart.active,hstart.rx,hstart.tx,hstart.printed⟩,rfl⟩
    next hne =>
      have hoff := hres.resolve_left hne
      exact ⟨⟨hoff,nofun,nofun,hstart.printed⟩,rfl⟩

theorem sendSlot (h : n.Ok) {slot : Idx} (hslot : (n.tx slot).inUse = false) (hf : n.failed = false)
    (frame : List Byte) : (n.sendSlot layout frame slot).1.Ok := by
  obtain ⟨q,d,he,hsend⟩ := (h.tx hf).send hslot
  unfold Net.sendSlot
  rw [he]
  refine h.same ⟨rfl,rfl,rfl,rfl⟩ (fun _ => h.rx hf) fun _ => ?_
  exact hsend { q.desc d with addr := layout.tx slot, len := .ofNat 32 (10+frame.length) } rfl rfl _

theorem repost {slot : Idx} (h : n.Ok) (hs : SameFlags n n')
    (hrx : n.failed = false → RxExcept n'.rxQueue n'.rx n'.completions (some slot))
    (htx : n.failed = false → TxOk n'.txQueue n'.tx n'.pendingTx) : (n'.netRepostRxLocked slot).Ok := by
  refine h.same ⟨hs.1,hs.2,hs.3,hs.4⟩ (fun hf => ?_) htx
  exact (hrx hf).repost (x := { n'.rx slot with
    bytes := fun k => if k.val < 10 then 0 else (n'.rx slot).bytes k, state := .posted }) rfl rfl _

theorem receiveSlot (h : n.Ok) (hf : n.failed = false) (hc : n.completions.count ≠ 0)
    (capacity : BitVec 32) : (n.receiveSlot capacity).1.Ok := by
  obtain ⟨slot,ring,hpop,hcompleted,-,-,hhand⟩ := (h.rx hf).received hc
  unfold Net.receiveSlot
  rw [hpop]
  dsimp only
  have hlt : (name slot).toNat < 8 := by
    rw [toNat_name]
    exact slot.isLt
  have hslot : (⟨(name slot).toNat,hlt⟩ : Idx) = slot := Fin.ext (toNat_name slot)
  rw [dif_pos hlt,hslot,if_neg (by simpa using hcompleted)]
  split
  next => exact h.repost ⟨rfl,rfl,rfl,rfl⟩ (fun _ => hhand) h.tx
  next => exact h.repost ⟨rfl,rfl,rfl,rfl⟩ (fun _ => hhand) h.tx

theorem find_rx {slot : Idx} (h : RxOk n.rxQueue n.rx n.completions) (hs : (n.rx slot).state = .posted) :
    n.netFindRxSlotLocked (n.rx slot).descriptor = some slot := by
  unfold Net.netFindRxSlotLocked
  cases hf : (List.finRange 8).find? fun i =>
      (n.rx i).descriptor == (n.rx slot).descriptor && (n.rx i).state == .posted with
  | none => simpa [hs] using List.find?_eq_none.1 hf slot (by simp)
  | some i =>
    have hi := List.find?_some hf
    simp only [Bool.and_eq_true,beq_iff_eq] at hi
    rw [h.own hi.1]

theorem intrRx (h : n.Ok) : n.intrRx.1.Ok := by
  unfold Net.intrRx
  rcases popUsedLen_cases n.rxQueue with he | he | ⟨d,hd,-,-,he⟩
  · rw [he]
    exact h
  · rw [he]
    refine h.fail ?_ fun _ => .inl rfl
    exact ⟨rfl,rfl,rfl,rfl⟩
  · rw [he]
    dsimp only
    have hpop : n.failed = false → ∃ slot, (n.rx slot).descriptor = d ∧ (n.rx slot).state = .posted ∧
        RxExcept { n.rxQueue with
          usedIdx := n.rxQueue.usedIdx+1, active := Function.update n.rxQueue.active d false }
          n.rx n.completions (some slot) := fun hf => (h.rx hf).popped hd rfl rfl rfl
    split
    next hnone =>
      refine h.fail ?_ fun hf => ?_
      · exact ⟨rfl,rfl,rfl,rfl⟩
      obtain ⟨slot,rfl,hposted,-⟩ := hpop hf
      have hfind := find_rx (h.rx hf) hposted
      simp only [Net.netFindRxSlotLocked] at hfind hnone
      simp [hfind] at hnone
    next slot hsome =>
      -- before a failure the slot that is found is the one in hand
      have hhand : n.failed = false → (n.rx slot).descriptor = d ∧ RxExcept { n.rxQueue with
          usedIdx := n.rxQueue.usedIdx+1, active := Function.update n.rxQueue.active d false }
          n.rx n.completions (some slot) := fun hf => by
        obtain ⟨slot',rfl,hposted,hex⟩ := hpop hf
        have hfind := find_rx (h.rx hf) hposted
        simp only [Net.netFindRxSlotLocked] at hfind hsome
        rw [hfind] at hsome
        obtain rfl := Option.some.inj hsome
        exact ⟨rfl,hex⟩
      split
      next =>
        refine h.fail ?_ fun _ => .inr (.inl rfl)
        exact ⟨rfl,rfl,rfl,rfl⟩
      next hlong =>
      split
      next => exact h.repost ⟨rfl,rfl,rfl,rfl⟩ (fun hf => (hhand hf).2) h.tx
      next hshort =>
        simp only [not_or,BitVec.not_lt] at hshort hlong
        have hcomplete : n.failed = false → ∃ ring, n.completions.push (name slot) = some ring ∧
            RxOk (Virtqueue.write { n.rxQueue with
              usedIdx := n.rxQueue.usedIdx+1, active := Function.update n.rxQueue.active d false } d
              { n.rxQueue.desc d with len := (n.rxQueue.usedRing (ringPos n.rxQueue.usedIdx)).len })
              (Function.update n.rx slot { n.rx slot with state := .completed }) ring := fun hf => by
          obtain ⟨rfl,hex⟩ := hhand hf
          exact hex.complete (x := { n.rx slot with state := .completed }) rfl rfl hshort.2 hlong
        split
        next hfull =>
          refine h.repost ⟨rfl,rfl,rfl,rfl⟩ (fun hf => ?_) h.tx
          obtain ⟨ring,hring,-⟩ := hcomplete hf
          simp [Net.setRx,hring] at hfull
        next ring hpush =>
          refine h.same ⟨rfl,rfl,rfl,rfl⟩ (fun hf => ?_) h.tx
          obtain ⟨ring',hring,hok⟩ := hcomplete hf
          obtain rfl := Option.some.inj (hring.symm.trans hpush)
          exact hok

theorem intrTx (h : n.Ok) : n.intrTx.1.Ok := by
  unfold Net.intrTx
  have hpop : n.failed = false → Inv n.txQueue.popUsedLen.1 (txChains n.tx) := fun hf =>
    (h.tx hf).inv.popUsedLen
  rcases popUsedLen_cases n.txQueue with he | he | ⟨d,hd,-,-,he⟩
  · rw [he]
    exact h
  · rw [he]
    refine h.fail ?_ fun _ => .inr (.inr rfl)
    exact ⟨rfl,rfl,rfl,rfl⟩
  · rw [he] at hpop ⊢
    dsimp only at hpop ⊢
    have hsent := fun hf => (h.tx hf).sent hd (hpop hf) rfl
    split
    next hnone =>
      refine h.fail ?_ fun hf => ?_
      · exact ⟨rfl,rfl,rfl,rfl⟩
      obtain ⟨slot,huse,rfl,-⟩ := hsent hf
      have hfind := (h.tx hf).find_eq huse
      simp [Net.netFindTxSlotLocked,hfind] at hnone
    next slot hsome =>
      split
      next hne =>
        refine h.fail ?_ fun hf => ?_
        · exact ⟨rfl,rfl,rfl,rfl⟩
        obtain ⟨_,-,-,hone,-⟩ := hsent hf
        exact absurd hone hne
      next =>
        refine h.same ⟨rfl,rfl,rfl,rfl⟩ h.rx fun hf => ?_
        obtain ⟨slot',huse,rfl,-,hok⟩ := hsent hf
        have hfind := (h.tx hf).find_eq huse
        simp only [Net.netFindTxSlotLocked,hfind,Option.some.injEq] at hsome
        subst hsome
        exact hok

theorem device_rx (h : n.Ok) (idx : BitVec 16) (ring : Idx → UsedElem) :
    Net.Ok { n with rxQueue := n.rxQueue.device idx ring } :=
  h.same ⟨rfl,rfl,rfl,rfl⟩ (fun hf => ⟨(h.rx hf).1,(h.rx hf).2,(h.rx hf).3,(h.rx hf).4,(h.rx hf).5⟩) h.tx

theorem device_tx (h : n.Ok) (idx : BitVec 16) (ring : Idx → UsedElem) :
    Net.Ok { n with txQueue := n.txQueue.device idx ring } :=
  h.same ⟨rfl,rfl,rfl,rfl⟩ h.rx fun hf =>
    ⟨(h.tx hf).inv.device idx ring,(h.tx hf).submitted,(h.tx hf).pending⟩

theorem device_bytes (h : n.Ok) (slot : Idx) (bytes : Fin slotSize → Byte) :
    (n.setRx slot { n.rx slot with bytes := bytes }).Ok := by
  refine h.same ⟨rfl,rfl,rfl,rfl⟩ (fun hf => ?_) h.tx
  have hrx := h.rx hf
  have hsame : ∀ i, ((n.setRx slot { n.rx slot with bytes := bytes }).rx i).descriptor = (n.rx i).descriptor ∧
      ((n.setRx slot { n.rx slot with bytes := bytes }).rx i).state = (n.rx i).state := fun i => by
    by_cases hi : i = slot
    · subst hi
      simp [Net.setRx]
    · simp [Net.setRx,hi]
  refine ⟨hrx.taken,fun i j he => hrx.own ?_,fun i hi => ?_,fun i hi => by simp at hi,?_⟩
  · simpa only [(hsame _).1] using he
  · have hfine := hrx.fine i hi
    unfold RxSlot.Fine at hfine ⊢
    rw [(hsame i).1,(hsame i).2]
    exact hfine
  · obtain ⟨l,hl,hn,hmem⟩ := hrx.ring
    refine ⟨l,hl,hn,fun i => ?_⟩
    rw [hmem i,(hsame i).2]

end Net.Ok

/-! Runs. -/

/-- The wait queues have no part in the accounting. -/
theorem Net.Ok.waits (h : n.Ok) (rxWait txWait : ι → Bool) :
    Net.Ok { n with rxWait := rxWait, txWait := txWait } :=
  h.same ⟨rfl,rfl,rfl,rfl⟩ h.rx h.tx

variable [DecidableEq ι] {s : State ι}

theorem sendLoop_ok (h : s.net.Ok) (t : ι) (frame : List Byte) (generation : BitVec 64) :
    (s.sendLoop layout t frame generation).1.net.Ok := by
  unfold State.sendLoop
  split
  next =>
    split
    next => exact h.waits ..
    next slot hslot =>
      split
      next => exact h
      next hf =>
        refine h.sendSlot ?_ (by simpa using hf) frame
        simpa using List.find?_some hslot
  next => exact h

theorem receiveLoop_ok (h : s.net.Ok) (t : ι) (capacity : BitVec 32) (generation : BitVec 64) :
    (s.receiveLoop t capacity generation).1.net.Ok := by
  unfold State.receiveLoop
  split
  next => exact h.waits ..
  next hwait =>
    split
    next => exact h
    next hgo =>
      simp only [Bool.or_eq_true,not_or,Bool.not_eq_true',Bool.not_eq_false,bne_iff_ne,ne_eq,
        not_not,Bool.not_eq_true] at hgo
      refine h.receiveSlot hgo.1.2 (fun hc => hwait ?_) capacity
      simp [hgo.1.1,hgo.2,hc]

theorem act_ok (h : s.net.Ok) (e : Event ι) : (s.act layout e).1.net.Ok := by
  cases e with
  | callSend t frame =>
    dsimp only [State.act]
    split
    next => split <;> exact h
    next => exact h
    next => exact h
  | callReceive t null capacity =>
    dsimp only [State.act]
    split
    next => split <;> exact h
    next => exact h
  | locked t =>
    dsimp only [State.act]
    split
    next => exact h
    next =>
      split
      next => exact h
      next => exact sendLoop_ok h ..
      next =>
        split
        next => exact h
        next => exact sendLoop_ok h ..
      next => exact receiveLoop_ok h ..
      next =>
        split
        next => exact h
        next => exact receiveLoop_ok h ..
  | timeout t =>
    dsimp only [State.act]
    split
    next =>
      split
      next => exact h.waits ..
      next => exact h
    next => exact h
  | reset mmio start =>
    dsimp only [State.act]
    split
    next => exact h
    next => exact h.reset mmio start
  | intr =>
    dsimp only [State.act]
    split
    next => exact h
    next => exact h.same ⟨rfl,rfl,rfl,rfl⟩ h.rx h.tx
  | intrPass =>
    dsimp only [State.act]
    split
    next => exact h
    next => exact h.intrRx
    next => exact h.intrTx
  | deviceRx idx ring => exact h.device_rx idx ring
  | deviceTx idx ring => exact h.device_tx idx ring
  | deviceBytes slot bytes => exact h.device_bytes slot bytes

theorem run_ok (h : s.net.Ok) (events : List (Event ι)) : (s.run layout events).net.Ok := by
  induction events generalizing s with
  | nil => exact h
  | cons e events ih => exact ih (act_ok h e)

omit [DecidableEq ι] in
theorem init_ok (layout : Layout) (start : Net.Start) : (State.init ι layout start).net.Ok := by
  obtain ⟨hsound,hidle,-⟩ := Net.Ok.start layout (n := Net.blank ι) (by simp [Net.blank]) start
  exact ⟨hsound,hidle⟩

/-- The slots in the ring, oldest first. -/
def CompletionRing.contents (r : CompletionRing) : List (BitVec 16) :=
  (List.range r.count).map fun k => r.slots (r.readIndex+Fin.ofNat 8 k)

theorem CompletionRing.Holds.contents {r : CompletionRing} {l : List Idx} (h : r.Holds l) :
    r.contents = l.map name := by
  refine List.ext_getElem (by simp [CompletionRing.contents,h.count]) fun k hk hk' => ?_
  have hl : k < l.length := by simpa using hk'
  simpa [CompletionRing.contents] using h.cells k hl

theorem card_txUsed (tx : Idx → TxSlot) :
    (txUsed tx).length = (Finset.univ.filter fun i => (tx i).inUse = true).card := by
  have hset : (Finset.univ.filter fun i => (tx i).inUse = true) = (txUsed tx).toFinset := by
    ext i
    simp [TxOk.mem_txUsed]
  rw [hset,List.toFinset_card_of_nodup (TxOk.txUsed_nodup tx)]

/-- In every state of every run in which the driver is active: each receive slot is posted with its own
active descriptor or stands in the completion ring once with a length that fits, the send slots in use
and the active descriptors match, so that a push finds room and a received frame lies in its slot; and
no failure but those for which the device is to blame has ever been reported. -/
theorem buffers_accounted (layout : Layout) (start : Net.Start) (events : List (Event ι)) :
    let n := ((State.init ι layout start).run layout events).net
    (n.active = true → n.failed = false →
      (∀ i, (n.rx i).state = .posted ∧ n.rxQueue.active (n.rx i).descriptor = true ∧
          n.completions.contents.count (name i) = 0 ∨
        (n.rx i).state = .completed ∧ n.rxQueue.active (n.rx i).descriptor = false ∧
          n.completions.contents.count (name i) = 1 ∧
          24 ≤ (n.rxQueue.desc (n.rx i).descriptor).len.toNat ∧
          (n.rxQueue.desc (n.rx i).descriptor).len.toNat ≤ 1524) ∧
      (Function.Injective fun i => (n.rx i).descriptor) ∧
      (∀ i j, (n.tx i).inUse = true → (n.tx j).inUse = true →
        (n.tx i).descriptor = (n.tx j).descriptor → i = j) ∧
      (∀ d, n.txQueue.active d = true ↔ ∃ i, (n.tx i).inUse = true ∧ (n.tx i).descriptor = d) ∧
      n.pendingTx.toNat = (Finset.univ.filter fun i => (n.tx i).inUse = true).card ∧
      n.pendingTx.toNat = 8-n.txQueue.freeCount.toNat ∧
      (∀ i, (n.rx i).state = .posted → n.completions.push (name i) ≠ none) ∧
      (∀ slot ring, n.completions.pop = some (slot,ring) → ∃ i, slot = name i ∧
        (n.rx i).state = .completed ∧
        ((n.rxQueue.desc (n.rx i).descriptor).len-10#32).toNat =
          (n.rxQueue.desc (n.rx i).descriptor).len.toNat-10 ∧
        10+((n.rxQueue.desc (n.rx i).descriptor).len-10#32).toNat ≤ slotSize)) ∧
    ∀ c ∈ n.printed, c ≠ .txDescriptor ∧ c ≠ .rxOwnership ∧ c ≠ .txOwnership ∧ c ≠ .rxCompletion := by
  intro n
  have h : n.Ok := run_ok (init_ok layout start) events
  refine ⟨fun _ hf => ?_,fun c hc => ?_⟩
  · have hrx := h.rx hf
    have htx := h.tx hf
    obtain ⟨l,hl,hn,hmem⟩ := hrx.ring
    have hcount : ∀ i, n.completions.contents.count (name i) = l.count i := fun i => by
      rw [hl.contents,List.count_map_of_injective l name name_injective]
    refine ⟨fun i => ?_,hrx.own,fun i j => htx.eq_of_descriptor,fun d => ⟨fun hd => ?_,?_⟩,?_,?_,?_,?_⟩
    · rw [hcount i]
      rcases hrx.fine i (by simp) with ⟨hs,ha⟩ | ⟨hs,ha,hlen⟩
      · exact .inl ⟨hs,ha,List.count_eq_zero_of_not_mem (by simp [hmem,hs])⟩
      · exact .inr ⟨hs,ha,List.count_eq_one_of_mem hn ((hmem i).2 ⟨by simp,hs⟩),hlen⟩
    · obtain ⟨c,hc,hhead⟩ := htx.inv.heads d hd
      obtain ⟨i,hi,rfl⟩ := List.mem_map.1 hc
      exact ⟨i,TxOk.mem_txUsed.1 hi,by simpa using hhead⟩
    · rintro ⟨i,hi,rfl⟩
      exact htx.submitted i hi
    · rw [htx.pending,card_txUsed]
    · have := htx.count
      rw [htx.pending]
      omega
    · intro i hi
      have := hrx.room hi
      simp [CompletionRing.push,this.ne]
    · intro slot ring hpop
      have hc : n.completions.count ≠ 0 := fun hc => by simp [CompletionRing.pop,hc] at hpop
      obtain ⟨i,ring',hpop',hs,hlow,hhigh,-⟩ := hrx.received hc
      obtain ⟨rfl,-⟩ := Prod.mk.inj (Option.some.inj (hpop.symm.trans hpop'))
      have hsub : ((n.rxQueue.desc (n.rx i).descriptor).len-10#32).toNat =
          (n.rxQueue.desc (n.rx i).descriptor).len.toNat-10 :=
        BitVec.toNat_sub_of_le (by rw [BitVec.le_def]; simp; omega)
      refine ⟨i,rfl,hs,hsub,?_⟩
      rw [hsub,slotSize]
      omega
  · rcases h.printed c hc with rfl | rfl | rfl <;> simp

end VirtioNet
end QuardStarNet
