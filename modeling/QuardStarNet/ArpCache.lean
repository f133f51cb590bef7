import QuardStarNet.Arp
import Mathlib.Data.List.Nodup

/-! Whatever is called in whatever order, the ARP cache keeps its lists apart and treats the
packets given to it as a mailbox does. -/
namespace QuardStarNet
namespace Arp

variable {W B : Type}

/-- The packets in the wait list of an entry. -/
def held (a : Arp W B) (i : ℕ) : List B := (a.entries i).bufList

/-- All packets in wait lists. -/
def waiting (a : Arp W B) : List B := a.cacheList.flatMap a.held

/-- The address an entry stands for. -/
def Entry.addr (e : Entry B) : Option HwAddr := if e.state = .resolved then some e.haddr else none

/-- The lists of a cache whose entries `spare` are in the hands of the code. -/
structure Wf (spare : List ℕ) (a : Arp W B) : Prop where
  blocks : (a.cacheList++(a.cacheBlocks++spare)).Perm (List.range arpCacheSize)
  keys : ∀ i ∈ a.cacheList, ∀ j ∈ a.cacheList, (a.entries i).key = (a.entries j).key → i = j
  used : ∀ i ∈ a.cacheList, (a.entries i).state ≠ .free
  resolved : ∀ i ∈ a.cacheList, (a.entries i).state = .resolved → a.held i = []
  room : ∀ i ∈ a.cacheList, (a.held i).length ≤ arpMaxPktWait
  distinct : a.waiting.Nodup

/-- The wait list and the address that the cache has for each key. -/
structure IsView (a : Arp W B) (q : Key → List B) (ad : Key → Option HwAddr) : Prop where
  queue : ∀ i ∈ a.cacheList, q (a.entries i).key = a.held i
  queueOut : ∀ j, (∀ i ∈ a.cacheList, (a.entries i).key ≠ j) → q j = []
  addr : ∀ i ∈ a.cacheList, ad (a.entries i).key = (a.entries i).addr
  addrOut : ∀ j, (∀ i ∈ a.cacheList, (a.entries i).key ≠ j) → ad j = none

/-- Packets in hand for the key `k` are behind those that wait. -/
def withHand (q : Key → List B) (k : Key) (hand : List B) : Key → List B :=
  Function.update q k (q k++hand)

/-- The cache stands for a mailbox, while the entries `spare` and the packets `hand` for `k` are
in the hands of the code. -/
def Inv (spare : List ℕ) (k : Key) (hand : List B) (a : Arp W B) : Prop :=
  Wf spare a ∧ ∃ q ad, IsView a q ad ∧ Mailbox.Reachable ⟨withHand q k hand,ad,a.trace⟩

variable {L : Below W B} {a : Arp W B} {q : Key → List B} {ad : Key → Option HwAddr}
  {spare : List ℕ} {k : Key} {hand l : List B} {i : ℕ} {e : Entry B} {b : B}

theorem withHand_nil (q : Key → List B) (k : Key) : withHand q k [] = q := by simp [withHand]

theorem withHand_self (q : Key → List B) (k : Key) (hand : List B) :
    withHand q k hand k = q k++hand := by simp [withHand]

/-- A change of the hand is a change of the queue. -/
theorem update_withHand (q : Key → List B) (k : Key) (hand l : List B) :
    Function.update (withHand q k hand) k (q k++l) = withHand q k l := by simp [withHand]

theorem arpInit_inv (w : W) (k : Key) : Inv [] k [] (arpInit w : Arp W B) := by
  refine ⟨⟨by simp [arpInit],by simp [arpInit],by simp [arpInit],by simp [arpInit],
    by simp [arpInit],by simp [arpInit,waiting]⟩,fun _ => [],fun _ => none,
    ⟨by simp [arpInit],fun _ _ => rfl,by simp [arpInit],fun _ _ => rfl⟩,?_⟩
  rw [withHand_nil]
  exact .refl

theorem Wf.nodup (h : Wf spare a) : a.cacheList.Nodup :=
  (List.nodup_append.1 (h.blocks.nodup_iff.2 List.nodup_range)).1

theorem Wf.spare_notMem (h : Wf (i :: spare) a) : i ∉ a.cacheList := by
  intro hi
  have := List.nodup_append.1 (h.blocks.nodup_iff.2 List.nodup_range)
  exact this.2.2 i hi i (by simp) rfl

/-- Nothing depends on the state below, and of the records only the mailbox does. -/
theorem Wf.retrace (h : Wf spare a) (w : W) (t : List (Note B)) :
    Wf spare { a with world := w, trace := t } :=
  ⟨h.blocks,h.keys,h.used,h.resolved,h.room,h.distinct⟩

theorem IsView.retrace (h : IsView a q ad) (w : W) (t : List (Note B)) :
    IsView { a with world := w, trace := t } q ad :=
  ⟨h.queue,h.queueOut,h.addr,h.addrOut⟩

theorem Inv.world (h : Inv spare k hand a) (w : W) : Inv spare k hand { a with world := w } := by
  obtain ⟨hw,q,ad,hv,hr⟩ := h
  exact ⟨hw.retrace w _,q,ad,hv.retrace w _,hr⟩

/-- With nothing in hand, it is in hand for any key. -/
theorem Inv.any (h : Inv spare k [] a) (j : Key) : Inv spare j [] a := by
  obtain ⟨hw,q,ad,hv,hr⟩ := h
  rw [withHand_nil] at hr
  exact ⟨hw,q,ad,hv,by rwa [withHand_nil]⟩

/-- The entries of the list may be in any order. -/
theorem Inv.perm {l : List ℕ} (h : Inv spare k hand a) (hl : l.Perm a.cacheList) :
    Inv spare k hand { a with cacheList := l } := by
  obtain ⟨hw,q,ad,hv,hr⟩ := h
  have hmem : ∀ i, i ∈ l ↔ i ∈ a.cacheList := fun i => hl.mem_iff
  refine ⟨⟨(hl.append_right _).trans hw.blocks,?_,?_,?_,?_,
    (hl.flatMap_right _).nodup_iff.2 hw.distinct⟩,q,ad,⟨?_,?_,?_,?_⟩,hr⟩
  all_goals simp only [hmem]
  exacts [hw.keys,hw.used,hw.resolved,hw.room,hv.queue,hv.queueOut,hv.addr,hv.addrOut]

/-! One entry changes. -/

@[simp] theorem cacheList_setEntry (a : Arp W B) (i : ℕ) (e : Entry B) :
    (a.setEntry i e).cacheList = a.cacheList := rfl

theorem entries_setEntry (a : Arp W B) (i j : ℕ) (e : Entry B) :
    (a.setEntry i e).entries j = if j = i then e else a.entries j :=
  Function.update_apply a.entries i e j

theorem held_setEntry (a : Arp W B) (i : ℕ) (e : Entry B) :
    (a.setEntry i e).held = Function.update a.held i e.bufList := by
  funext j
  grind [held,entries_setEntry,Function.update_apply]

theorem flatMap_update {l : List ℕ} (f : ℕ → List B) (hi : i ∉ l) (x : List B) :
    l.flatMap (Function.update f i x) = l.flatMap f :=
  List.flatMap_congr fun j hj => Function.update_of_ne (show j ≠ i from fun he => hi (he ▸ hj)) _ _

/-- The wait lists, with that of the entry `i` in front. -/
theorem waiting_perm (hi : i ∈ a.cacheList) :
    a.waiting.Perm (a.held i++(a.cacheList.erase i).flatMap a.held) := by
  have := (List.perm_cons_erase hi).flatMap_right a.held
  rwa [List.flatMap_cons] at this

theorem waiting_setEntry (hn : a.cacheList.Nodup) (hi : i ∈ a.cacheList) (e : Entry B) :
    (a.setEntry i e).waiting.Perm (e.bufList++(a.cacheList.erase i).flatMap a.held) := by
  have : (a.setEntry i e).waiting.Perm ((a.setEntry i e).held i++
    (a.cacheList.erase i).flatMap (a.setEntry i e).held) := waiting_perm hi
  rwa [held_setEntry,Function.update_self,flatMap_update _ hn.not_mem_erase] at this

/-- An entry of the list changes but for its key. -/
theorem Wf.edit (h : Wf spare a) (hi : i ∈ a.cacheList) (hkey : e.key = (a.entries i).key)
    (hused : e.state ≠ .free) (hres : e.state = .resolved → e.bufList = [])
    (hroom : e.bufList.length ≤ arpMaxPktWait)
    (hdist : (e.bufList++(a.cacheList.erase i).flatMap a.held).Nodup) :
    Wf spare (a.setEntry i e) := by
  refine ⟨h.blocks,?_,?_,?_,?_,(waiting_setEntry h.nodup hi e).nodup_iff.2 hdist⟩
  all_goals
    obtain ⟨-,h2,h3,h4,h5,-⟩ := h
    clear hdist
    simp only [held_setEntry,cacheList_setEntry,entries_setEntry,Function.update_apply]
    grind

theorem IsView.edit (h : IsView a q ad) (hw : Wf spare a) (hi : i ∈ a.cacheList)
    (hkey : e.key = (a.entries i).key) :
    IsView (a.setEntry i e) (Function.update q e.key e.bufList)
      (Function.update ad e.key e.addr) := by
  obtain ⟨h1,h2,h3,h4⟩ := h
  have hkeys := hw.keys
  constructor <;>
    simp only [held_setEntry,cacheList_setEntry,entries_setEntry,Function.update_apply] <;> grind

/-- Change the counters of an entry. -/
theorem Inv.retouch (h : Inv spare k hand a) (hi : i ∈ a.cacheList)
    (he : e = { a.entries i with tmo := e.tmo, retry := e.retry }) :
    Inv spare k hand (a.setEntry i e) := by
  obtain ⟨hw,q,ad,hv,hr⟩ := h
  have hbuf : e.bufList = a.held i := by rw [he]; rfl
  have hstate : e.state = (a.entries i).state := by rw [he]
  have hkey : e.key = (a.entries i).key := by rw [he]; rfl
  have haddr : e.addr = (a.entries i).addr := by rw [he]; rfl
  refine ⟨hw.edit hi hkey (hstate ▸ hw.used i hi) (fun hs => hbuf ▸ hw.resolved i hi (hstate ▸ hs))
    (hbuf ▸ hw.room i hi) (hbuf ▸ (waiting_perm hi).nodup_iff.1 hw.distinct),_,_,
    hv.edit hw hi hkey,?_⟩
  rw [hkey,hbuf,haddr,← hv.queue i hi,← hv.addr i hi,Function.update_eq_self,
    Function.update_eq_self]
  exact hr

/-- The wait list of an entry is taken in hand. -/
theorem Inv.unload (h : Inv spare k [] a) (hi : i ∈ a.cacheList) :
    Inv spare (a.entries i).key (a.held i) (a.setEntry i { a.entries i with bufList := [] }) := by
  obtain ⟨hw,q,ad,hv,hr⟩ := h
  have hd : ((a.cacheList.erase i).flatMap a.held).Nodup :=
    (List.nodup_append.1 ((waiting_perm hi).nodup_iff.1 hw.distinct)).2.1
  refine ⟨hw.edit hi rfl (hw.used i hi) (fun _ => rfl) (Nat.zero_le _) (by simpa using hd),_,_,
    hv.edit hw hi rfl,?_⟩
  rw [withHand_nil] at hr
  have hq : withHand (Function.update q (a.entries i).key []) (a.entries i).key (a.held i) = q := by
    simp [withHand,← hv.queue i hi]
  have had : Function.update ad (a.entries i).key (a.entries i).addr = ad := by
    rw [← hv.addr i hi,Function.update_eq_self]
  change Mailbox.Reachable ⟨withHand (Function.update q (a.entries i).key []) _ _,
    Function.update ad (a.entries i).key (a.entries i).addr,a.trace⟩
  rwa [hq,had]

/-- The packet in hand joins the wait list of its entry. -/
theorem Inv.append (h : Inv spare k [b] a) (hi : i ∈ a.cacheList) (hk : (a.entries i).key = k)
    (hs : (a.entries i).state ≠ .resolved) (hroom : (a.held i).length < arpMaxPktWait)
    (hb : b ∉ a.waiting) :
    Inv spare k [] (a.setEntry i { a.entries i with bufList := (a.entries i).bufList++[b] }) := by
  obtain ⟨hw,q,ad,hv,hr⟩ := h
  have hd : ((a.entries i).bufList++[b]++(a.cacheList.erase i).flatMap a.held).Nodup := by
    have hp : ((a.entries i).bufList++[b]++(a.cacheList.erase i).flatMap a.held).Perm
        (b :: a.waiting) := by
      rw [List.append_assoc]
      exact List.perm_middle.trans ((waiting_perm hi).symm.cons b)
    exact hp.nodup_iff.2 (List.nodup_cons.2 ⟨hb,hw.distinct⟩)
  refine ⟨hw.edit hi rfl (hw.used i hi) (fun h => absurd h hs)
    (by rw [List.length_append]; exact hroom) hd,_,_,hv.edit hw hi rfl,?_⟩
  have had : Function.update ad (a.entries i).key (a.entries i).addr = ad := by
    rw [← hv.addr i hi,Function.update_eq_self]
  have hq : Function.update q (a.entries i).key ((a.entries i).bufList++[b]) = withHand q k [b] := by
    rw [withHand,← hk,hv.queue i hi,held]
  change Mailbox.Reachable ⟨withHand (Function.update q (a.entries i).key
    ((a.entries i).bufList++[b])) k [],Function.update ad (a.entries i).key (a.entries i).addr,_⟩
  rwa [withHand_nil,hq,had]

/-- The address of an entry with an empty wait list becomes known. -/
theorem Inv.learn (h : Inv spare k hand a) (hi : i ∈ a.cacheList) (hk : (a.entries i).key = k)
    (hheld : a.held i = []) (hkey : e.key = k) (hbuf : e.bufList = []) (hs : e.state = .resolved) :
    Inv spare k hand ((a.setEntry i e).note (.learned k e.haddr)) := by
  obtain ⟨hw,q,ad,hv,hr⟩ := h
  have hd := (waiting_perm hi).nodup_iff.1 hw.distinct
  rw [hheld] at hd
  have hw' : Wf spare (a.setEntry i e) :=
    hw.edit hi (hkey.trans hk.symm) (by simp [hs]) (fun _ => hbuf) (by simp [hbuf])
      (by rw [hbuf]; exact hd)
  refine ⟨hw'.retrace _ _,_,_,(hv.edit hw hi (hkey.trans hk.symm)).retrace _ _,?_⟩
  have hq : Function.update q e.key e.bufList = q := by
    rw [hkey,hbuf,← hheld,← hv.queue i hi,hk,Function.update_eq_self]
  have had : e.addr = some e.haddr := by simp [Entry.addr,hs]
  rw [hq,had,hkey]
  exact hr.move (.learn k e.haddr)

/-- An entry is no longer sure of its address. -/
theorem Inv.forget (h : Inv spare k [] a) (hi : i ∈ a.cacheList) (hkey : e.key = (a.entries i).key)
    (hbuf : e.bufList = a.held i) (hs : e.state = .waiting) :
    Inv spare k [] ((a.setEntry i e).note (.forgotten e.key)) := by
  obtain ⟨hw,q,ad,hv,hr⟩ := h
  have hw' : Wf spare (a.setEntry i e) :=
    hw.edit hi hkey (by simp [hs]) (by simp [hs]) (hbuf ▸ hw.room i hi)
      (hbuf ▸ (waiting_perm hi).nodup_iff.1 hw.distinct)
  refine ⟨hw'.retrace _ _,_,_,(hv.edit hw hi hkey).retrace _ _,?_⟩
  have hq : Function.update q e.key e.bufList = q := by
    rw [hkey,hbuf,← hv.queue i hi,Function.update_eq_self]
  have had : e.addr = none := by simp [Entry.addr,hs]
  rw [hq,had]
  exact hr.move (.forget e.key)

/-! An entry leaves the list or joins it. -/

/-- An entry that is in no list can be written to. -/
theorem Inv.scratch (h : Inv (i :: spare) k hand a) : Inv (i :: spare) k hand (a.setEntry i e) := by
  obtain ⟨hw,q,ad,hv,hr⟩ := h
  have hi := hw.spare_notMem
  have hwait : (a.setEntry i e).waiting = a.waiting := by
    rw [waiting,held_setEntry]
    exact flatMap_update a.held hi e.bufList
  obtain ⟨h1,h2,h3,h4,h5,h6⟩ := hw
  obtain ⟨v1,v2,v3,v4⟩ := hv
  refine ⟨?_,q,ad,?_,hr⟩ <;> constructor <;> simp only [hwait,held_setEntry,cacheList_setEntry,
    entries_setEntry,Function.update_apply] <;> first | assumption | grind

/-- An entry with an empty wait list leaves the list. -/
theorem Inv.unlink {l : List ℕ} (h : Inv spare k hand a) (hl : a.cacheList.Perm (i :: l))
    (hheld : a.held i = []) :
    Inv (i :: spare) k hand { a.note (.forgotten (a.entries i).key) with cacheList := l } := by
  obtain ⟨hw,q,ad,hv,hr⟩ := h
  have hmem : ∀ j, j ∈ a.cacheList ↔ j = i ∨ j ∈ l := fun j => by simp [hl.mem_iff]
  have hil := (List.nodup_cons.1 (hl.nodup_iff.1 hw.nodup)).1
  have hblocks : (l++(a.cacheBlocks++i :: spare)).Perm (a.cacheList++(a.cacheBlocks++spare)) := by
    refine .trans ?_ (hl.append_right _).symm
    have : (l++(a.cacheBlocks++i :: spare)).Perm (l++i :: (a.cacheBlocks++spare)) :=
      List.perm_middle.append_left l
    exact this.trans List.perm_middle
  have hdist : (l.flatMap a.held).Nodup := by
    simpa [hheld] using (hl.flatMap_right a.held).nodup_iff.1 hw.distinct
  obtain ⟨h1,h2,h3,h4,h5,h6⟩ := hw
  obtain ⟨v1,v2,v3,v4⟩ := hv
  refine ⟨⟨hblocks.trans h1,?_,?_,?_,?_,hdist⟩,q,Function.update ad (a.entries i).key none,?_,
    hr.move (.forget _)⟩
  · grind [note]
  · grind [note]
  · grind [note,held]
  · grind [note,held]
  · clear hdist hblocks hl h1 h6
    constructor <;> simp only [note,Function.update_apply] <;> grind [held]

/-- A waiting entry for a new key joins the list. -/
theorem Inv.link (h : Inv (i :: spare) k hand a) (hs : (a.entries i).state = .waiting)
    (hheld : a.held i = []) (hkey : ∀ j ∈ a.cacheList, (a.entries j).key ≠ (a.entries i).key) :
    Inv spare k hand { a with cacheList := i :: a.cacheList } := by
  obtain ⟨hw,q,ad,hv,hr⟩ := h
  have hblocks : (i :: a.cacheList++(a.cacheBlocks++spare)).Perm
      (a.cacheList++(a.cacheBlocks++i :: spare)) :=
    List.perm_middle.symm.trans (List.perm_middle.symm.append_left a.cacheList)
  have hdist : (a.held i++a.waiting).Nodup := by simpa [hheld] using hw.distinct
  obtain ⟨h1,h2,h3,h4,h5,h6⟩ := hw
  obtain ⟨v1,v2,v3,v4⟩ := hv
  refine ⟨⟨hblocks.trans h1,?_,?_,?_,?_,hdist⟩,q,ad,?_,hr⟩
  · grind
  · grind
  · grind [held]
  · grind [held]
  · constructor <;> grind [held,Entry.addr]

/-- The free list may be in any order, and entries in hand may be put there or taken out. -/
theorem Inv.blocks {l spare' : List ℕ} (h : Inv spare k hand a)
    (hl : (l++spare').Perm (a.cacheBlocks++spare)) :
    Inv spare' k hand { a with cacheBlocks := l } := by
  obtain ⟨hw,q,ad,hv,hr⟩ := h
  exact ⟨⟨(hl.append_left _).trans hw.blocks,hw.keys,hw.used,hw.resolved,hw.room,hw.distinct⟩,
    q,ad,⟨hv.queue,hv.queueOut,hv.addr,hv.addrOut⟩,hr⟩

/-! Packets. -/

theorem Inv.give (h : Inv spare k [] a) (j : Key) (b : B) :
    Inv spare j [b] (a.note (.given j b)) := by
  obtain ⟨hw,q,ad,hv,hr⟩ := h
  refine ⟨hw.retrace _ _,q,ad,hv.retrace _ _,?_⟩
  rw [withHand_nil] at hr
  exact hr.move (.give j b)

theorem Inv.discard (h : Inv spare k (b :: l) a) : Inv spare k l (discard L k a b) := by
  obtain ⟨hw,q,ad,hv,hr⟩ := h
  refine ⟨hw.retrace _ _,q,ad,hv.retrace _ _,?_⟩
  rw [← update_withHand q k (b :: l)]
  exact hr.move (.free k b (q k) l (withHand_self q k _))

theorem Inv.discards (h : Inv spare k l a) : Inv spare k [] (l.foldl (Arp.discard L k) a) := by
  induction l generalizing a with
  | nil => exact h
  | cons b l ih => exact ih h.discard

/-- A packet in hand goes to the address of its entry. -/
theorem Inv.pass (h : Inv spare k (b :: l) a) (hi : i ∈ a.cacheList) (hk : (a.entries i).key = k)
    (hs : (a.entries i).state = .resolved) :
    Inv spare k l (a.pass L k (a.entries i).haddr b).1 := by
  obtain ⟨hw,q,ad,hv,hr⟩ := h
  refine ⟨hw.retrace _ _,q,ad,hv.retrace _ _,?_⟩
  have hq : q k = [] := by rw [← hk,hv.queue i hi,hw.resolved i hi hs]
  have had : ad k = some (a.entries i).haddr := by simp [← hk,hv.addr i hi,Entry.addr,hs]
  have := hr.move (.pass k _ b l had (by simp [withHand_self,hq]))
  rwa [← List.nil_append l,← hq,update_withHand] at this

/-! The functions of the cache. -/

/-- Freeing packets changes neither the entries nor the lists. -/
theorem discards_eq (l : List B) (a : Arp W B) : ∃ w t, l.foldl (Arp.discard L k) a =
    { a with world := w, trace := t } := by
  induction l generalizing a with
  | nil => exact ⟨_,_,rfl⟩
  | cons b l ih =>
    obtain ⟨w,t,h⟩ := ih (Arp.discard L k a b)
    exact ⟨w,t,by rw [List.foldl_cons,h]; rfl⟩

theorem arpFreeWaiting_eq (L : Below W B) (a : Arp W B) (i : ℕ) : ∃ w t, a.arpFreeWaiting L i =
    { a.setEntry i { a.entries i with bufList := [] } with world := w, trace := t } :=
  discards_eq _ _

theorem Inv.arpFreeWaiting (h : Inv spare k [] a) (hi : i ∈ a.cacheList) :
    Inv spare k [] (a.arpFreeWaiting L i) :=
  (h.unload hi).discards.any k

/-- An entry of the list is freed, and the other entries stay as they are. -/
theorem arpFreeEntry_spec (h : Inv spare k [] a) (hi : i ∈ a.cacheList) :
    Inv spare k [] (a.arpFreeEntry L i) ∧ (a.arpFreeEntry L i).cacheList = a.cacheList.erase i := by
  have hfree := h.arpFreeWaiting (L := L) hi
  obtain ⟨w,t,he⟩ := arpFreeWaiting_eq L a i
  have hl : (a.arpFreeWaiting L i).cacheList = a.cacheList := by rw [he]; rfl
  have hheld : (a.arpFreeWaiting L i).held i = [] := by simp [he,held,setEntry]
  have hi' : i ∈ (a.arpFreeWaiting L i).cacheList := hl ▸ hi
  rw [Arp.arpFreeEntry,if_neg (hfree.1.used i hi')]
  refine ⟨?_,by rw [← hl]; rfl⟩
  exact (hfree.unlink (List.perm_cons_erase hi') hheld).scratch.blocks
    (by rw [List.append_assoc]; exact .refl _)

/-- What `arp_find_entry` finds. -/
theorem arpFindEntry_spec (a : Arp W B) (n : NetifId) (ip : IpAddr) :
    ∃ l, (a.arpFindEntry n ip).1 = { a with cacheList := l } ∧ l.Perm a.cacheList ∧
      match (a.arpFindEntry n ip).2 with
      | some i => i ∈ l ∧ (a.entries i).key = (n,ip)
      | none => ∀ i ∈ l, (a.entries i).key ≠ (n,ip) := by
  unfold arpFindEntry
  split
  next hf => exact ⟨_,rfl,.refl _,by simpa using hf⟩
  next i hf =>
    refine ⟨_,rfl,(List.perm_cons_erase (List.mem_of_find?_eq_some hf)).symm,by simp,?_⟩
    simpa using List.find?_some hf

/-- Evict an entry of the list, as `arp_alloc_entry` does. -/
theorem Inv.evict {l : List ℕ} (h : Inv spare k [] a) (hl : a.cacheList.Perm (i :: l)) :
    Inv (i :: spare) k [] (Arp.arpFreeWaiting L
      { a.note (.forgotten (a.entries i).key) with cacheList := l } i) := by
  have hi : i ∈ a.cacheList := hl.mem_iff.2 (by simp)
  have hun := (h.unload hi).unlink hl (by simp [held,setEntry])
  have hkey : ((a.setEntry i { a.entries i with bufList := [] }).entries i).key =
      (a.entries i).key := by simp [setEntry,Entry.key]
  rw [hkey] at hun
  exact hun.discards.any k

/-- What `arp_alloc_entry` gives. -/
theorem arpAllocEntry_spec (h : Inv spare k [] a) (force : Bool) :
    (∀ j ∈ (a.arpAllocEntry L force).1.cacheList, j ∈ a.cacheList ∧
      (a.arpAllocEntry L force).1.entries j = a.entries j) ∧
    match (a.arpAllocEntry L force).2 with
    | some i => Inv (i :: spare) k [] (a.arpAllocEntry L force).1 ∧
        (a.arpAllocEntry L force).1.entries i = .zeroed
    | none => Inv spare k [] (a.arpAllocEntry L force).1 := by
  unfold arpAllocEntry
  split
  next i rest hb =>
    have hinv : Inv (i :: spare) k [] { a with cacheBlocks := rest } :=
      h.blocks (by rw [hb]; exact List.perm_middle)
    refine ⟨fun j hj => ⟨hj,?_⟩,hinv.scratch,by simp [setEntry]⟩
    have hji : j ≠ i := fun he => hinv.1.spare_notMem (he ▸ hj)
    simp [setEntry,hji]
  next hb =>
    split
    next hl => exact ⟨fun j hj => ⟨hj,rfl⟩,h⟩
    next i hl =>
      have hlast : a.cacheList.getLast? = some i := by
        cases force
        · simp at hl
        · simpa using hl
      have hp : a.cacheList.Perm (i :: a.cacheList.dropLast) := by
        rw [← List.dropLast_append_getLast? i hlast,List.dropLast_concat]
        exact List.perm_append_singleton i _
      have hinv := h.evict (L := L) hp
      obtain ⟨w,t,he⟩ := arpFreeWaiting_eq L
        { a.note (.forgotten (a.entries i).key) with cacheList := a.cacheList.dropLast } i
      refine ⟨fun j hj => ?_,hinv.scratch,by simp [setEntry]⟩
      have hji : j ≠ i := fun hji => hinv.1.spare_notMem (hji ▸ hj)
      dsimp only at hj ⊢
      rw [he] at hj ⊢
      exact ⟨List.dropLast_subset _ hj,by simp [setEntry,note,hji]⟩

/-- The waiting packets go out, or the rest of them is freed. -/
theorem Inv.sendLoop (mac : HwAddr) (h : Inv spare k l a) (hi : i ∈ a.cacheList)
    (hk : (a.entries i).key = k) (hs : (a.entries i).state = .resolved)
    (hmac : (a.entries i).haddr = mac) : Inv spare k [] (sendLoop L k mac a l).1 := by
  induction l generalizing a with
  | nil => exact h
  | cons b l ih =>
    have hpass := h.pass (L := L) hi hk hs
    rw [hmac] at hpass
    rw [Arp.sendLoop]
    split
    · exact hpass.discards
    · exact ih hpass hi hk hs hmac

/-- The address of an entry is set, and the packets that wait for it go out. -/
theorem Inv.resolve (h : Inv spare k [] a) {n : NetifId} {ip : IpAddr} (hi : i ∈ a.cacheList)
    (hk : (a.entries i).key = (n,ip)) (mac : HwAddr) : Inv spare k []
      (((a.arpSetEntry i n ip mac .resolved).note (.learned (n,ip) mac)).arpSendWaiting L i).1 := by
  have hun := h.unload hi
  rw [hk] at hun
  have hlearn := hun.learn (i := i)
    (e := { (a.arpSetEntry i n ip mac .resolved).entries i with bufList := [] }) hi
    (by simpa [setEntry,Entry.key] using hk) (by simp [held,setEntry])
    (by simp [arpSetEntry,setEntry,Entry.key]) rfl (by simp [arpSetEntry,setEntry])
  have hsend := hlearn.sendLoop mac (L := L) (i := i) hi
    (by simp [arpSetEntry,note,setEntry,Entry.key]) (by simp [arpSetEntry,note,setEntry])
    (by simp [arpSetEntry,note,setEntry])
  exact Inv.any (k := (n,ip))
    (by simpa [Arp.arpSendWaiting,arpSetEntry,note,setEntry,Entry.key,held] using hsend) k

/-- A new entry waits for the address of its key. -/
theorem Inv.enter (h : Inv (i :: spare) k [] a) (hz : a.entries i = .zeroed) {n : NetifId}
    {ip : IpAddr} (hkey : ∀ j ∈ a.cacheList, (a.entries j).key ≠ (n,ip)) (mac : HwAddr) :
    Inv spare k []
      { a.arpSetEntry i n ip mac .waiting with cacheList := i :: a.cacheList } := by
  have hi := h.1.spare_notMem
  refine h.scratch.link (by simp [setEntry]) (by simp [held,setEntry,hz,Entry.zeroed])
    fun j hj => ?_
  have hji : j ≠ i := fun he => hi (he ▸ hj)
  simpa [setEntry,hji,Entry.key] using hkey j hj

theorem Inv.arpCacheInsert (h : Inv spare k [] a) (n : NetifId) (ip : IpAddr) (mac : HwAddr)
    (force : Bool) : Inv spare k [] (a.arpCacheInsert L n ip mac force).1 := by
  obtain ⟨l,hfind,hl,hfound⟩ := arpFindEntry_spec a n ip
  have h₁ := h.perm hl
  rw [← hfind] at h₁
  unfold Arp.arpCacheInsert
  split
  next a₁ i hf =>
    rw [hf] at hfind hfound h₁
    cases hfind
    exact h₁.resolve hfound.1 hfound.2 mac
  next a₁ hf =>
    rw [hf] at hfind hfound h₁
    cases hfind
    obtain ⟨hkeep,halloc⟩ := arpAllocEntry_spec (L := L) h₁ force
    split
    next a₂ ha =>
      rw [ha] at halloc
      exact halloc
    next a₂ i ha =>
      rw [ha] at halloc hkeep
      obtain ⟨h₂,hz⟩ := halloc
      have h₃ := h₂.enter hz (fun j hj => (hkeep j hj).2 ▸ hfound j (hkeep j hj).1) mac
      have hk : ((a₂.arpSetEntry i n ip mac .waiting).entries i).key = (n,ip) := by
        simp [arpSetEntry,setEntry,Entry.key]
      have h₄ := h₃.resolve (L := L) (i := i) (by simp) hk mac
      simpa [arpSetEntry,setEntry,note] using h₄

/-- A request changes only the state below. -/
theorem arpMakeRequest_eq (L : Below W B) (a : Arp W B) (n : NetifId) (ip : IpAddr) :
    ∃ w, (a.arpMakeRequest L n ip).1 = { a with world := w } := by
  unfold arpMakeRequest
  split
  · exact ⟨_,rfl⟩
  · split
    · exact ⟨_,rfl⟩
    · exact ⟨_,rfl⟩

theorem Inv.arpMakeRequest (h : Inv spare k hand a) (n : NetifId) (ip : IpAddr) :
    Inv spare k hand (a.arpMakeRequest L n ip).1 := by
  obtain ⟨w,hw⟩ := arpMakeRequest_eq L a n ip
  rw [hw]
  exact h.world w

theorem arpMakeRequest_cacheList (L : Below W B) (a : Arp W B) (n : NetifId) (ip : IpAddr) :
    (a.arpMakeRequest L n ip).1.cacheList = a.cacheList := by
  obtain ⟨w,hw⟩ := arpMakeRequest_eq L a n ip
  rw [hw]

theorem arpMakeReply_eq (L : Below W B) (a : Arp W B) (n : NetifId) (buf : B) :
    ∃ w, (a.arpMakeReply L n buf).1 = { a with world := w } := by
  unfold arpMakeReply
  split
  · split
    · exact ⟨_,rfl⟩
    · exact ⟨_,rfl⟩
  · exact ⟨_,rfl⟩

theorem Inv.arpAnswer (h : Inv spare k hand a) (n : NetifId) (opcode : BitVec 16) (buf : B) :
    Inv spare k hand (a.arpAnswer L n opcode buf).1 := by
  unfold Arp.arpAnswer
  dsimp only
  split
  · obtain ⟨w,hw⟩ := arpMakeReply_eq L a n buf
    rw [hw]
    exact h.world w
  · exact h.world _

theorem Inv.arpIn (h : Inv spare k [] a) (n : NetifId) (buf : B) :
    Inv spare k [] (a.arpIn L n buf).1 := by
  unfold Arp.arpIn
  split
  next w hc =>
    dsimp only
    split
    · exact h.world w
    next data hd =>
      split
      · exact h.world w
      · have hins := (h.world w).arpCacheInsert (L := L) n (Pkt.ofBytes data).sendPaddr
          (Pkt.ofBytes data).sendHaddr (decide ((Pkt.ofBytes data).opcode = arpRequest))
        split
        next a₁ ha =>
          rw [ha] at hins
          exact hins.arpAnswer n _ buf
        next a₁ err _ ha =>
          rw [ha] at hins
          exact hins
  · exact h.world _

theorem arpFind_eq (L : Below W B) (a : Arp W B) (n : NetifId) (ip : IpAddr) :
    ∃ l, (a.arpFind L n ip).1 = { a with cacheList := l } ∧ l.Perm a.cacheList := by
  unfold arpFind
  split
  · exact ⟨_,rfl,.refl _⟩
  · obtain ⟨l,hfind,hl,-⟩ := arpFindEntry_spec a n ip
    split
    next a₁ i hf =>
      rw [hf] at hfind
      exact ⟨l,hfind,hl⟩
    next a₁ hf =>
      rw [hf] at hfind
      exact ⟨l,hfind,hl⟩

/-- Run a step on every entry that is in the list at the start. -/
theorem Inv.forEach {f : Arp W B → ℕ → Arp W B}
    (hf : ∀ a i, Inv spare k [] a → i ∈ a.cacheList →
      Inv spare k [] (f a i) ∧ ∀ j ∈ a.cacheList, j ≠ i → j ∈ (f a i).cacheList)
    {l : List ℕ} (hn : l.Nodup) (h : Inv spare k [] a) (hl : ∀ i ∈ l, i ∈ a.cacheList) :
    Inv spare k [] (l.foldl f a) := by
  induction l generalizing a with
  | nil => exact h
  | cons i l ih =>
    obtain ⟨hi,hn⟩ := List.nodup_cons.1 hn
    obtain ⟨hinv,hkeep⟩ := hf a i h (hl i (by simp))
    refine ih hn hinv fun j hj => hkeep j (hl j (by simp [hj])) ?_
    rintro rfl
    exact hi hj

theorem tmoEntry_spec (h : Inv spare k [] a) (hi : i ∈ a.cacheList) :
    Inv spare k [] (tmoEntry L a i) ∧ ∀ j ∈ a.cacheList, j ≠ i → j ∈ (tmoEntry L a i).cacheList := by
  unfold tmoEntry
  dsimp only
  split
  · exact ⟨h.retouch hi rfl,fun j hj _ => hj⟩
  · split
    · refine ⟨Inv.arpMakeRequest ?_ _ _,fun j hj _ => ?_⟩
      · exact h.forget hi rfl rfl rfl
      · rw [arpMakeRequest_cacheList]
        exact hj
    · split
      · obtain ⟨hinv,hl⟩ := arpFreeEntry_spec (L := L) (i := i)
          (h.retouch (e := { a.entries i with
            tmo := (a.entries i).tmo-1, retry := (a.entries i).retry-1 }) hi rfl) hi
        refine ⟨hinv,fun j hj hji => ?_⟩
        rw [hl]
        exact (List.mem_erase_of_ne hji).2 hj
      · refine ⟨Inv.arpMakeRequest (h.retouch hi rfl) _ _,fun j hj _ => ?_⟩
        rw [arpMakeRequest_cacheList]
        exact hj
    · exact ⟨h.retouch hi rfl,fun j hj _ => hj⟩

theorem Inv.arpCacheTmo (h : Inv spare k [] a) : Inv spare k [] (a.arpCacheTmo L) :=
  .forEach (fun _ _ => tmoEntry_spec) h.1.nodup h fun _ hi => hi

theorem Inv.arpClear (h : Inv spare k [] a) (n : NetifId) : Inv spare k [] (a.arpClear L n) := by
  refine .forEach (fun a i h hi => ?_) h.1.nodup h fun _ hi => hi
  unfold clearEntry
  split
  · obtain ⟨hinv,hl⟩ := arpFreeEntry_spec (L := L) h hi
    refine ⟨hinv,fun j hj hji => ?_⟩
    rw [hl]
    exact (List.mem_erase_of_ne hji).2 hj
  · exact ⟨h,fun j hj _ => hj⟩

/-- A packet for a key that is not in the list. -/
theorem Inv.resolveNew (h : Inv spare k [] a) {n : NetifId} {ip : IpAddr}
    (hkey : ∀ j ∈ a.cacheList, (a.entries j).key ≠ (n,ip)) (hb : b ∉ a.waiting) :
    Inv spare k [] (a.resolveNew L n ip b).1 := by
  obtain ⟨hkeep,halloc⟩ := arpAllocEntry_spec (L := L) h true
  unfold Arp.resolveNew
  split
  next a₁ ha =>
    rw [ha] at halloc
    exact (halloc.give (n,ip) b).discard.any k
  next a₁ i ha =>
    rw [ha] at halloc hkeep
    obtain ⟨h₁,hz⟩ := halloc
    dsimp only at h₁ hz hkeep ⊢
    have hi := h₁.1.spare_notMem
    have h₂ := (h₁.enter hz (fun j hj => (hkeep j hj).2 ▸ hkey j (hkeep j hj).1)
      (List.replicate ethHwaSize 0)).give (n,ip) b
    -- the evicted entry is gone and the new one is empty, so `b` still waits nowhere
    have hb₂ : b ∉ a₁.cacheList.flatMap (a₁.arpSetEntry i n ip (List.replicate ethHwaSize 0)
        .waiting).held := by
      rw [arpSetEntry,held_setEntry,flatMap_update _ hi]
      intro hmem
      obtain ⟨j,hj,hbj⟩ := List.mem_flatMap.1 hmem
      refine hb (List.mem_flatMap.2 ⟨j,(hkeep j hj).1,?_⟩)
      rwa [held,← (hkeep j hj).2]
    have h₃ := h₂.append (i := i) List.mem_cons_self (by simp [note,arpSetEntry,setEntry,Entry.key])
      (by simp [note,arpSetEntry,setEntry])
      (by simp [held,note,arpSetEntry,setEntry,hz,Entry.zeroed,arpMaxPktWait])
      (by
        refine fun hmem => (List.mem_append.1 hmem).elim (fun hmem => ?_) hb₂
        simp [held,note,arpSetEntry,setEntry,hz,Entry.zeroed] at hmem)
    have h₄ := h₃.arpMakeRequest (L := L) n ip
    split
    next a₄ hr =>
      rw [show a₄ = _ from (congrArg Prod.fst hr).symm]
      exact h₄.any k
    next a₄ err _ hr =>
      rw [show a₄ = _ from (congrArg Prod.fst hr).symm]
      refine (arpFreeEntry_spec h₄ ?_).1.any k
      rw [arpMakeRequest_cacheList]
      exact List.mem_cons_self

theorem Inv.resolveUnicast (h : Inv spare k [] a) (n : NetifId) (ip : IpAddr) (hb : b ∉ a.waiting) :
    Inv spare k [] (a.resolveUnicast L n ip b).1 := by
  obtain ⟨l,hfind,hl,hfound⟩ := arpFindEntry_spec a n ip
  have h₁ := h.perm hl
  have hb₁ : b ∉ waiting { a with cacheList := l } := fun hmem =>
    hb ((hl.flatMap_right a.held).mem_iff.1 hmem)
  rw [← hfind] at h₁ hb₁
  unfold Arp.resolveUnicast
  split
  next a₁ i hf =>
    rw [hf] at hfind hfound h₁ hb₁
    cases hfind
    obtain ⟨hi,hk⟩ := hfound
    have hg := h₁.give (n,ip) b
    dsimp only
    split
    next hs => exact (hg.pass (i := i) hi hk hs).any k
    next hs =>
      split
      · exact hg.discard.any k
      next hroom => exact (hg.append (i := i) hi hk hs (Nat.lt_of_not_le hroom) hb₁).any k
  next a₁ hf =>
    rw [hf] at hfind hfound h₁ hb₁
    cases hfind
    exact h₁.resolveNew hfound hb₁

theorem Inv.arpResolve (h : Inv spare k [] a) (n : NetifId) (ip : IpAddr) (hb : b ∉ a.waiting) :
    Inv spare k [] (a.arpResolve L n ip b).1 := by
  obtain ⟨l,hfind,hl⟩ := arpFind_eq L a n ip
  have h₁ := h.perm hl
  have hb₁ : b ∉ waiting { a with cacheList := l } := fun hmem =>
    hb ((hl.flatMap_right a.held).mem_iff.1 hmem)
  rw [← hfind] at h₁ hb₁
  unfold Arp.arpResolve
  split
  next a₁ hf =>
    rw [hf] at h₁
    exact h₁.world _
  next a₁ r _ hf =>
    rw [hf] at h₁ hb₁
    exact h₁.resolveUnicast n ip hb₁

/-! Runs. -/

/-- The calls of the users of ARP, and anything that happens below it. -/
inductive Op (W B : Type)
  | resolve (n : NetifId) (ip : IpAddr) (buf : B)
  | input (n : NetifId) (buf : B)
  | tmo
  | find (n : NetifId) (ip : IpAddr)
  | clear (n : NetifId)
  | below (w : W)

def exec (L : Below W B) (a : Arp W B) : Op W B → Arp W B
  | .resolve n ip buf => (a.arpResolve L n ip buf).1
  | .input n buf => (a.arpIn L n buf).1
  | .tmo => a.arpCacheTmo L
  | .find n ip => (a.arpFind L n ip).1
  | .clear n => a.arpClear L n
  | .below w => { a with world := w }

/-- The caller gives a packet that it owns, so one that is in no wait list. -/
def Legal (a : Arp W B) : Op W B → Prop
  | .resolve _ _ buf => buf ∉ a.waiting
  | _ => True

def LegalRun (L : Below W B) (a : Arp W B) : List (Op W B) → Prop
  | [] => True
  | op :: ops => Legal a op ∧ LegalRun L (a.exec L op) ops

instance [DecidableEq B] (a : Arp W B) : (op : Op W B) → Decidable (Legal a op)
  | .resolve _ _ buf => inferInstanceAs (Decidable (buf ∉ a.waiting))
  | .input .. | .tmo | .find .. | .clear _ | .below _ => isTrue trivial

instance decLegalRun [DecidableEq B] (L : Below W B) :
    (a : Arp W B) → (ops : List (Op W B)) → Decidable (LegalRun L a ops)
  | _, [] => isTrue trivial
  | a, op :: ops =>
    have : Decidable (LegalRun L (a.exec L op) ops) := decLegalRun L _ ops
    inferInstanceAs (Decidable (Legal a op ∧ LegalRun L (a.exec L op) ops))

def run (L : Below W B) (a : Arp W B) (ops : List (Op W B)) : Arp W B := ops.foldl (exec L) a

theorem exec_inv {op : Op W B} (h : Inv spare k [] a) (hop : Legal a op) :
    Inv spare k [] (a.exec L op) := by
  cases op with
  | resolve n ip buf => exact h.arpResolve n ip hop
  | input n buf => exact h.arpIn n buf
  | tmo => exact h.arpCacheTmo
  | find n ip =>
    obtain ⟨l,hfind,hl⟩ := arpFind_eq L a n ip
    have := h.perm hl
    rwa [← hfind] at this
  | clear n => exact h.arpClear n
  | below w => exact h.world w

theorem run_inv {ops : List (Op W B)} (h : Inv spare k [] a) (hops : LegalRun L a ops) :
    Inv spare k [] (a.run L ops) := by
  induction ops generalizing a with
  | nil => exact h
  | cons op ops ih => exact ih (exec_inv h hops.1) hops.2

/-- The discipline of the cache and of the packets given to it: `blocks` and `keys` say that each
entry is in one list and each address in one entry of `cache_list`, `resolved` to `distinct` what
the wait lists hold, `once` and `order` what became of the packets given for each address, and
`fresh` that each went to the address learned last and not forgotten since. -/
structure Disciplined (a : Arp W B) : Prop where
  blocks : (a.cacheList++a.cacheBlocks).Perm (List.range arpCacheSize)
  keys : ∀ i ∈ a.cacheList, ∀ j ∈ a.cacheList, (a.entries i).key = (a.entries j).key → i = j
  resolved : ∀ i ∈ a.cacheList, (a.entries i).state = .resolved → (a.entries i).bufList = []
  room : ∀ i ∈ a.cacheList, (a.entries i).bufList.length ≤ arpMaxPktWait
  distinct : (a.cacheList.flatMap fun i => (a.entries i).bufList).Nodup
  once : ∀ k, (Mailbox.passedTo k a.trace++Mailbox.freedTo k a.trace++
    (a.cacheList.filter fun i => (a.entries i).key = k).flatMap fun i => (a.entries i).bufList).Perm
      (Mailbox.givenTo k a.trace)
  order : ∀ k, (Mailbox.passedTo k a.trace).Sublist (Mailbox.givenTo k a.trace)
  fresh : Mailbox.Fresh a.trace

/-- The wait list that a view has for a key. -/
theorem IsView.queue_eq (hv : IsView a q ad) (hw : Wf spare a) (k : Key) :
    (a.cacheList.filter fun i => (a.entries i).key = k).flatMap a.held = q k := by
  by_cases hk : ∃ i ∈ a.cacheList, (a.entries i).key = k
  · obtain ⟨i,hi,rfl⟩ := hk
    have hone : a.cacheList.filter (fun j => (a.entries j).key = (a.entries i).key) = [i] := by
      refine List.perm_singleton.1 ((List.perm_ext_iff_of_nodup (hw.nodup.filter _)
        (List.nodup_singleton i)).2 fun j => ?_)
      simp only [List.mem_filter,decide_eq_true_eq,List.mem_singleton]
      refine ⟨fun hj => hw.keys j hj.1 i hi hj.2,?_⟩
      rintro rfl
      exact ⟨hi,rfl⟩
    simp [hone,hv.queue i hi]
  · have hne : ∀ i ∈ a.cacheList, (a.entries i).key ≠ k := fun i hi he => hk ⟨i,hi,he⟩
    have hnil : a.cacheList.filter (fun i => (a.entries i).key = k) = [] := by
      simpa [List.filter_eq_nil_iff] using hne
    simp [hnil,hv.queueOut k hne]

theorem Inv.disciplined (h : Inv [] k [] a) : Disciplined a := by
  obtain ⟨hw,q,ad,hv,hr⟩ := h
  rw [withHand_nil] at hr
  have hok := hr.ok
  refine ⟨by simpa using hw.blocks,hw.keys,hw.resolved,hw.room,hw.distinct,fun k => ?_,fun k => ?_,
    hok.fresh⟩
  · have : (Mailbox.passedTo k a.trace++Mailbox.freedTo k a.trace++q k).Perm
        (Mailbox.givenTo k a.trace) := hok.once k
    rwa [← hv.queue_eq hw k] at this
  · exact (List.sublist_append_left _ _).trans (hok.order k)

/-- Any calls in any order, over any link layer, keep the discipline. -/
theorem arp_discipline (L : Below W B) (w : W) (ops : List (Op W B))
    (h : LegalRun L (arpInit w) ops) : Disciplined ((arpInit w).run L ops) :=
  (run_inv (arpInit_inv w (0,0)) h).disciplined

/-- A link layer whose buffers all hold a reply from 10.0.0.2. -/
def replies : Below Unit ℕ where
  hwaddr _ _ := [2,0,0,0,0,1]
  ipaddr _ _ := 0x0a000001
  netmask _ _ := 0xffffff00
  pktbufAlloc _ _ := ((),some 9)
  pktbufFree _ _ := ()
  pktbufIncRef _ _ := ()
  pktbufSetCont _ _ _ := ((),.ok)
  pktbufTotal _ _ := 28
  pktbufData _ _ := some (Pkt.bytes
    ⟨1,0x0800,6,4,2,[2,0,0,0,0,2],0x0a000002,[2,0,0,0,0,1],0x0a000001⟩)
  pktbufStore _ _ _ := ()
  etherRawOut _ _ _ _ _ := ((),.ok)

/-- Two packets wait for the reply, and a third one follows them. -/
def twoWait : List (Op Unit ℕ) :=
  [.resolve 0 0x0a000002 1,.tmo,.resolve 0 0x0a000002 2,.input 0 5,.resolve 0 0x0a000002 3]

theorem arp_discipline_two_wait : LegalRun replies (arpInit ()) twoWait ∧
    Mailbox.passedTo (0,0x0a000002) ((arpInit ()).run replies twoWait).trace = [1,2,3] ∧
      Disciplined ((arpInit ()).run replies twoWait) :=
  ⟨by decide,by decide,arp_discipline replies () twoWait (by decide)⟩

end Arp
end QuardStarNet
