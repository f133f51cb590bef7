import QuardStarNet.ControlBlock
import Mathlib.Data.Finset.Card
import Mathlib.Data.Fintype.Basic

/-! Listeners and their children: the pointers between control blocks, the count of
pending children and the accept queue, and the moves that change them. -/
namespace QuardStarNet
namespace Tcp
namespace Table

variable (t : Table)

/-- The slot holds a live block in LISTEN. -/
def Listening (l : Slot) : Prop := t.pcbs l = true ∧ (t.storage l).state = .listen

/-- The slot holds a live block whose listener is `l`. -/
def IsChild (l i : Slot) : Prop := t.pcbs i = true ∧ (t.storage i).listener = some l

instance (l : Slot) : Decidable (t.Listening l) := inferInstanceAs (Decidable (_ ∧ _))

instance (l : Slot) : DecidablePred (t.IsChild l) := fun _ => inferInstanceAs (Decidable (_ ∧ _))

def children (l : Slot) : Finset Slot := Finset.univ.filter (t.IsChild l)

@[simp] theorem mem_children {l i : Slot} : i ∈ t.children l ↔ t.IsChild l i := by simp [children]

end Table

/-- A child that has not been accepted. -/
def Pcb.Fresh (p : Pcb) : Prop :=
  (p.state = .synReceived ∨ p.state = .established) ∧ p.releasePending = false ∧
    p.socketAttached = false ∧ p.closeRequested = false

/-- The counts and the queue of the listener in slot `l` agree with its children. -/
structure Accepting (t : Table) (l : Slot) : Prop where
  pending : (t.storage l).pendingCount = (t.children l).card
  bounded : (t.storage l).pendingCount ≤ (t.storage l).backlog ∧ (t.storage l).backlog ≤ 4
  queue : ∀ o, o ∈ (t.storage l).acceptQueue.contents ↔
    ∃ i, o = some i ∧ t.IsChild l i ∧ (t.storage i).state = .established
  nodup : (t.storage l).acceptQueue.contents.Nodup
  blank : (t.storage l).acceptQueue.Blank

/-- The pointers between the blocks of a table are consistent. -/
structure Links (t : Table) : Prop where
  opened : ∀ i, (t.storage i).opened = t.pcbs i
  dead : ∀ i, t.pcbs i = false → t.detachedListeners i = none
  child : ∀ {l i}, t.IsChild l i → t.Listening l ∧ (t.storage i).Fresh
  detached : ∀ {i l}, t.detachedListeners i = some l → t.Listening l
  orphan : ∀ i, t.pcbs i = true → (t.storage i).state = .synReceived → (t.storage i).listener ≠ none
  unique : ∀ {l l'}, t.Listening l → t.Listening l' → l = l'
  accepting : ∀ {l}, t.Listening l → Accepting t l

/-- A change of a block that the pointers of the table do not see. -/
structure Pcb.Keeps (p p' : Pcb) : Prop where
  opened : p'.opened = p.opened
  listener : p'.listener = p.listener
  accepting : p.state = .listen → p'.acceptQueue = p.acceptQueue ∧
    p'.pendingCount = p.pendingCount ∧ p'.backlog = p.backlog
  fresh : p.listener ≠ none → p.Fresh → p'.Fresh
  state : p'.state = p.state ∨ p.listener = none ∧ p.state ≠ .listen ∧ p'.state ≠ .listen ∧
    p.state ≠ .synReceived ∧ p'.state ≠ .synReceived

namespace Pcb

variable {p p' : Pcb}

theorem Keeps.refl (p : Pcb) : p.Keeps p := ⟨rfl,rfl,fun _ => ⟨rfl,rfl,rfl⟩,fun _ h => h,.inl rfl⟩

theorem Tied.keeps (h : p.Tied p') : p.Keeps p' where
  opened := congrArg Ties.opened h.ties
  listener := congrArg Ties.listener h.ties
  accepting _ := ⟨congrArg Ties.acceptQueue h.ties,congrArg Ties.pendingCount h.ties,
    congrArg Ties.backlog h.ties⟩
  fresh hl hf := by
    have hs : p'.state = p.state := h.state.resolve_right fun hn => hl hn.1
    have hr : p'.releasePending = p.releasePending := congrArg Ties.releasePending h.ties
    have ha : p'.socketAttached = p.socketAttached := congrArg Ties.socketAttached h.ties
    refine ⟨by rw [hs]; exact hf.1,by rw [hr]; exact hf.2.1,by rw [ha]; exact hf.2.2.1,?_⟩
    by_contra hc
    have hc' := h.closeRequested hl (by simpa using hc)
    simp [hf.2.2.2] at hc'
  state := h.state

theorem Keeps.listen_iff (h : p.Keeps p') : p'.state = .listen ↔ p.state = .listen := by
  rcases h.state with hs | ⟨-,h1,h2,-⟩
  · rw [hs]
  · simp [h1,h2]

theorem Keeps.synReceived_iff (h : p.Keeps p') : p'.state = .synReceived ↔ p.state = .synReceived := by
  rcases h.state with hs | ⟨-,-,-,h1,h2⟩
  · rw [hs]
  · simp [h1,h2]

theorem Keeps.state_of_child (h : p.Keeps p') (hl : p.listener ≠ none) : p'.state = p.state :=
  h.state.resolve_right fun hn => hl hn.1

end Pcb

variable {t t' : Table} {i l : Slot}

theorem Accepting.congr (h : Accepting t l) (hq : (t'.storage l).acceptQueue = (t.storage l).acceptQueue)
    (hp : (t'.storage l).pendingCount = (t.storage l).pendingCount)
    (hb : (t'.storage l).backlog = (t.storage l).backlog)
    (hc : ∀ i, t'.IsChild l i ↔ t.IsChild l i)
    (hs : ∀ i, t.IsChild l i → (t'.storage i).state = (t.storage i).state) : Accepting t' l where
  pending := by
    have : t'.children l = t.children l := by ext i; simp [hc]
    rw [hp,this,h.pending]
  bounded := by rw [hp,hb]; exact h.bounded
  queue o := by
    rw [hq,h.queue]
    refine exists_congr fun i => and_congr_right fun _ => ?_
    rw [hc]
    exact and_congr_right fun hi => by rw [hs i hi]
  nodup := by rw [hq]; exact h.nodup
  blank := by rw [hq]; exact h.blank

namespace Links

/-- Changes that keep every live block's pointers keep the table consistent. -/
theorem keeps (h : Links t) (hp : t'.pcbs = t.pcbs)
    (hd : t'.detachedListeners = t.detachedListeners)
    (hk : ∀ i, t.pcbs i = true → (t.storage i).Keeps (t'.storage i))
    (hdead : ∀ i, t.pcbs i = false → (t'.storage i).opened = false) : Links t' := by
  have hlisten : ∀ l, t'.Listening l ↔ t.Listening l := by
    intro l
    simp only [Table.Listening,hp]
    exact and_congr_right fun hl => (hk l hl).listen_iff
  have hchild : ∀ l i, t'.IsChild l i ↔ t.IsChild l i := by
    intro l i
    simp only [Table.IsChild,hp]
    exact and_congr_right fun hi => by rw [(hk i hi).listener]
  refine ⟨?_,?_,?_,?_,?_,?_,?_⟩
  · intro i
    rw [hp]
    cases hi : t.pcbs i with
    | false => exact hdead i hi
    | true => rw [(hk i hi).opened,h.opened,hi]
  · intro i hi
    rw [hp] at hi
    rw [hd]
    exact h.dead i hi
  · intro l i hi
    rw [hchild] at hi
    obtain ⟨hl,hf⟩ := h.child hi
    exact ⟨(hlisten l).2 hl,(hk i hi.1).fresh (by simp [hi.2]) hf⟩
  · intro i l hi
    rw [hd] at hi
    exact (hlisten l).2 (h.detached hi)
  · intro i hi hs
    rw [hp] at hi
    rw [(hk i hi).listener]
    exact h.orphan i hi ((hk i hi).synReceived_iff.1 hs)
  · intro l l' hl hl'
    exact h.unique ((hlisten l).1 hl) ((hlisten l').1 hl')
  · intro l hl
    rw [hlisten] at hl
    obtain ⟨hq,hpend,hback⟩ := (hk l hl.1).accepting hl.2
    exact (h.accepting hl).congr hq hpend hback (hchild l)
      fun i hi => (hk i hi.1).state_of_child (by simp [hi.2])

/-- A listening block is nobody's child. -/
theorem listener_none (h : Links t) (hl : t.Listening l) : (t.storage l).listener = none := by
  cases hp : (t.storage l).listener with
  | none => rfl
  | some k =>
    have hf := (h.child (l := k) ⟨hl.1,hp⟩).2.1
    simp [hl.2] at hf

theorem hasChildren_iff : t.tcpListenerHasChildren l = true ↔
    (∃ j, t.IsChild l j) ∨ ∃ j, t.detachedListeners j = some l := by
  simp only [Table.tcpListenerHasChildren,List.any_eq_true,mem_slots,true_and,Bool.or_eq_true,
    Bool.and_eq_true,beq_iff_eq,Table.IsChild]
  exact exists_or

/-- Nothing points to a slot that does not listen. -/
theorem free_of_not_listening (h : Links t) (hi : ¬t.Listening i) :
    (∀ j, ¬t.IsChild i j) ∧ ∀ j, t.detachedListeners j ≠ some i :=
  ⟨fun _ hj => hi (h.child hj).1,fun _ hj => hi (h.detached hj)⟩

/-- Changing one slot that nothing points to, from and to a block that is no child. -/
theorem swap (h : Links t) (i : Slot)
    (hother : ∀ j, j ≠ i → t'.storage j = t.storage j ∧ t'.pcbs j = t.pcbs j ∧
      t'.detachedListeners j = t.detachedListeners j)
    (hfree : (∀ j, ¬t.IsChild i j) ∧ ∀ j, t.detachedListeners j ≠ some i)
    (hchild : ∀ l, ¬t.IsChild l i)
    (hopen : (t'.storage i).opened = t'.pcbs i)
    (hlive : t'.pcbs i = true → (t'.storage i).listener = none ∧ (t'.storage i).state ≠ .listen ∧
      (t'.storage i).state ≠ .synReceived)
    (hdet : t'.detachedListeners i = none ∨
      t'.pcbs i = true ∧ ∃ l, t'.detachedListeners i = some l ∧ l ≠ i ∧ t.Listening l) : Links t' := by
  have hlisten : ∀ l, t'.Listening l ↔ l ≠ i ∧ t.Listening l := by
    intro l
    by_cases hl : l = i
    · subst l
      simp only [Table.Listening,ne_eq,not_true,false_and,iff_false]
      rintro ⟨hp,hs⟩
      exact (hlive hp).2.1 hs
    · simp [Table.Listening,hl,(hother l hl).1,(hother l hl).2.1]
  have hsame : ∀ l j, t'.IsChild l j ↔ t.IsChild l j := by
    intro l j
    by_cases hj : j = i
    · subst j
      refine ⟨?_,fun hc => absurd hc (hchild l)⟩
      rintro ⟨hp,hs⟩
      simp [(hlive hp).1] at hs
    · simp [Table.IsChild,(hother j hj).1,(hother j hj).2.1]
  refine ⟨?_,?_,?_,?_,?_,?_,?_⟩
  · intro j
    by_cases hj : j = i
    · rw [hj,hopen]
    · rw [(hother j hj).1,(hother j hj).2.1,h.opened]
  · intro j hp
    by_cases hj : j = i
    · subst j
      exact hdet.resolve_right fun hd => by simp [hp] at hd
    · rw [(hother j hj).2.1] at hp
      rw [(hother j hj).2.2,h.dead j hp]
  · intro l j hc
    rw [hsame] at hc
    have hj : j ≠ i := fun he => hchild l (he ▸ hc)
    have hl : l ≠ i := fun he => hfree.1 j (he ▸ hc)
    rw [hlisten,(hother j hj).1]
    exact ⟨⟨hl,(h.child hc).1⟩,(h.child hc).2⟩
  · intro j l hd
    rw [hlisten]
    by_cases hj : j = i
    · subst j
      rcases hdet with hn | ⟨-,k,hk,hne,hl⟩
      · simp [hn] at hd
      · obtain rfl : k = l := by simpa [hk] using hd
        exact ⟨hne,hl⟩
    · rw [(hother j hj).2.2] at hd
      exact ⟨fun he => hfree.2 j (he ▸ hd),h.detached hd⟩
  · intro j hp hs
    by_cases hj : j = i
    · subst j
      exact absurd hs (hlive hp).2.2
    · rw [(hother j hj).1] at hs ⊢
      rw [(hother j hj).2.1] at hp
      exact h.orphan j hp hs
  · intro l l' hl hl'
    exact h.unique ((hlisten l).1 hl).2 ((hlisten l').1 hl').2
  · intro l hl
    obtain ⟨hne,hl⟩ := (hlisten l).1 hl
    have hst := (hother l hne).1
    refine (h.accepting hl).congr (by rw [hst]) (by rw [hst]) (by rw [hst]) (hsame l) fun j hj => ?_
    rw [(hother j fun he => hchild l (he ▸ hj)).1]

theorem release (h : Links t) (hi : t.pcbs i = true) (hr : t.tcpReleasable i) :
    Links (t.tcpReleaseNow i).1 := by
  have hfree : (∀ j, ¬t.IsChild i j) ∧ ∀ j, t.detachedListeners j ≠ some i := by
    have : ¬t.tcpListenerHasChildren i = true := by
      simp only [Table.tcpReleasable,decide_eq_true_eq] at hr
      exact hr.2.2.2.2.2.2.2.1
    simpa [hasChildren_iff] using this
  have hnone : (t.storage i).listener = none := by
    simp only [Table.tcpReleasable,decide_eq_true_eq] at hr
    exact hr.2.2.1
  simp only [Table.tcpReleaseNow,hi,hr,not_true,if_false,Table.modify]
  apply h.swap i
  · intro j hj
    simp [hj]
  · exact hfree
  · rintro l ⟨-,hl⟩
    simp [hnone] at hl
  · simp [Table.released]
  · simp
  · simp

theorem removeQueued_contents (q : Ring (Option Slot) 4) (i : Slot) (h : q.contents.Nodup) :
    (Table.tcpListenerRemoveQueued q i).contents = q.contents.erase (some i) := by
  unfold Table.tcpListenerRemoveQueued
  split
  next hf =>
    refine (List.erase_of_not_mem fun hm => ?_).symm
    obtain ⟨k,hk,he⟩ := List.getElem_of_mem hm
    rw [Ring.contents_get] at he
    rw [Ring.contents_length] at hk
    have := List.find?_eq_none.1 hf k (by simpa using hk)
    simp [he] at this
  next found hf =>
    have hlt : found < q.count := by simpa using List.mem_of_find?_eq_some hf
    have he : q.cell found = some i := by simpa using List.find?_some hf
    rw [dif_pos hlt,Ring.removeAt_contents,← he,← Ring.contents_get _ (by simpa using hlt)]
    exact (h.erase_getElem _ _).symm

theorem removeQueued_blank (q : Ring (Option Slot) 4) (i : Slot) (h : q.Blank) :
    (Table.tcpListenerRemoveQueued q i).Blank := by
  unfold Table.tcpListenerRemoveQueued
  split
  · exact h
  · split
    · exact q.removeAt_blank _ _ h
    · exact h

end Links

theorem Links.ne_of_child (h : Links t) (hc : t.IsChild l i) : i ≠ l := by
  rintro rfl
  have hf := (h.child hc).2.1
  simp [(h.child hc).1.2] at hf

/-- One block enters, leaves or stays under the listener `l`; nothing else changes. -/
structure Relinks (t t' : Table) (i l : Slot) : Prop where
  listening : t.Listening l
  ne : i ≠ l
  live : t.pcbs i = true
  pcbs : t'.pcbs = t.pcbs
  others : ∀ j, j ≠ i → j ≠ l → t'.storage j = t.storage j
  listener : (t'.storage l).opened = true ∧ (t'.storage l).state = .listen ∧
    (t'.storage l).listener = none
  before : (t.storage i).state ≠ .listen ∧
    ((t.storage i).listener = none ∨ (t.storage i).listener = some l)
  after : (t'.storage i).opened = true ∧ (t'.storage i).state ≠ .listen ∧
    ((t'.storage i).listener = none ∧ (t'.storage i).state ≠ .synReceived ∨
      (t'.storage i).listener = some l ∧ (t'.storage i).Fresh)
  detached : ∀ j, t'.detachedListeners j = t.detachedListeners j ∨
    j = i ∧ (t'.detachedListeners j = none ∨ t'.detachedListeners j = some l)

namespace Relinks

variable (r : Relinks t t' i l)

include r

theorem state_other {j : Slot} (hj : j ≠ i) : (t'.storage j).state = (t.storage j).state := by
  by_cases hl : j = l
  · subst j
    rw [r.listener.2.1,r.listening.2]
  · rw [r.others j hj hl]

theorem listening_iff (k : Slot) : t'.Listening k ↔ t.Listening k := by
  simp only [Table.Listening,r.pcbs]
  refine and_congr_right fun _ => ?_
  by_cases hk : k = i
  · subst k
    simp [r.before.1,r.after.2.1]
  · rw [r.state_other hk]

theorem child_other (h : Links t) {j : Slot} (hj : j ≠ i) (k : Slot) :
    t'.IsChild k j ↔ t.IsChild k j := by
  simp only [Table.IsChild,r.pcbs]
  refine and_congr_right fun _ => ?_
  by_cases hl : j = l
  · subst j
    rw [r.listener.2.2,h.listener_none r.listening]
  · rw [r.others j hj hl]

theorem links (h : Links t) (ha : Accepting t' l) : Links t' where
  opened j := by
    rw [r.pcbs]
    by_cases hj : j = i
    · rw [hj,r.after.1,r.live]
    · by_cases hl : j = l
      · rw [hl,r.listener.1,r.listening.1]
      · rw [r.others j hj hl,h.opened]
  dead j hj := by
    rw [r.pcbs] at hj
    have hji : j ≠ i := fun he => by simp [he,r.live] at hj
    rw [(r.detached j).resolve_right fun hd => hji hd.1,h.dead j hj]
  child := by
    intro k j hc
    rw [r.listening_iff]
    by_cases hj : j = i
    · subst j
      rcases r.after.2.2 with ⟨hn,-⟩ | ⟨hn,hf⟩
      · simp [Table.IsChild,hn] at hc
      · obtain rfl : l = k := by simpa [hn] using hc.2
        exact ⟨r.listening,hf⟩
    · rw [r.child_other h hj] at hc
      have hjl : j ≠ l := by
        rintro rfl
        have := hc.2
        simp [h.listener_none r.listening] at this
      rw [r.others j hj hjl]
      exact h.child hc
  detached := by
    intro j k hd
    rw [r.listening_iff]
    rcases r.detached j with he | ⟨-,he | he⟩
    · exact h.detached (he ▸ hd)
    · simp [he] at hd
    · obtain rfl : l = k := by simpa [he] using hd
      exact r.listening
  orphan j hj hs := by
    rw [r.pcbs] at hj
    by_cases hji : j = i
    · subst j
      rcases r.after.2.2 with ⟨-,hn⟩ | ⟨hn,-⟩
      · exact absurd hs hn
      · simp [hn]
    · by_cases hjl : j = l
      · subst j
        simp [r.listener.2.1] at hs
      · rw [r.others j hji hjl] at hs ⊢
        exact h.orphan j hj hs
  unique hk hk' := h.unique ((r.listening_iff _).1 hk) ((r.listening_iff _).1 hk')
  accepting := by
    intro k hk
    obtain rfl := h.unique ((r.listening_iff k).1 hk) r.listening
    exact ha

end Relinks

namespace Links

/-- A child leaves its listener and is closed. -/
theorem detach (h : Links t) (r : Relinks t t' i l) (hc : t.IsChild l i)
    (hq : t'.storage l = Table.dropChild i (t.storage l)) (hp : (t'.storage i).listener = none) :
    Links t' := by
  have ha := h.accepting r.listening
  have hchild : ∀ j, t'.IsChild l j ↔ j ≠ i ∧ t.IsChild l j := by
    intro j
    by_cases hj : j = i
    · subst j
      simp [Table.IsChild,hp]
    · simp [hj,r.child_other h hj]
  have hcard : (t'.children l).card+1 = (t.children l).card := by
    have : t'.children l = (t.children l).erase i := by
      ext j
      simp [hchild]
    rw [this]
    exact Finset.card_erase_add_one (by simpa using hc)
  have hpend : (t'.storage l).pendingCount = (t.storage l).pendingCount-1 := by
    rw [hq,Table.dropChild,ha.pending]
    simp only
    rw [if_pos (by omega)]
  have hqueue : (t'.storage l).acceptQueue.contents = (t.storage l).acceptQueue.contents.erase (some i) := by
    rw [hq]
    exact removeQueued_contents _ _ ha.nodup
  refine r.links h ⟨?_,?_,?_,?_,?_⟩
  · rw [hpend,ha.pending]
    omega
  · have := ha.bounded
    rw [hpend,hq]
    simp only [Table.dropChild]
    omega
  · intro o
    rw [hqueue,ha.nodup.mem_erase_iff,ha.queue]
    constructor
    · rintro ⟨ho,j,rfl,hj,he⟩
      have hji : j ≠ i := fun h' => ho (by rw [h'])
      exact ⟨j,rfl,(hchild j).2 ⟨hji,hj⟩,by rw [r.state_other hji,he]⟩
    · rintro ⟨j,rfl,hj,he⟩
      obtain ⟨hji,hj⟩ := (hchild j).1 hj
      rw [r.state_other hji] at he
      exact ⟨by simpa using hji,j,rfl,hj,he⟩
  · rw [hqueue]
    exact ha.nodup.erase _
  · rw [hq]
    exact removeQueued_blank _ _ ha.blank

/-- A new child in SYN_RECEIVED. -/
theorem spawn (h : Links t) (r : Relinks t t' i l) (hn : (t.storage i).listener = none)
    (hq : t'.storage l = { t.storage l with pendingCount := (t.storage l).pendingCount+1 })
    (hb : (t.storage l).pendingCount < (t.storage l).backlog)
    (hp : (t'.storage i).listener = some l ∧ (t'.storage i).state = .synReceived) : Links t' := by
  have ha := h.accepting r.listening
  have hnew : ¬t.IsChild l i := by simp [Table.IsChild,hn]
  have hchild : ∀ j, t'.IsChild l j ↔ j = i ∨ t.IsChild l j := by
    intro j
    by_cases hj : j = i
    · subst j
      simp [Table.IsChild,hp.1,r.pcbs,r.live]
    · simp [hj,r.child_other h hj]
  have hcard : (t'.children l).card = (t.children l).card+1 := by
    have : t'.children l = insert i (t.children l) := by
      ext j
      simp [hchild]
    rw [this]
    exact Finset.card_insert_of_notMem (by simpa using hnew)
  refine r.links h ⟨?_,?_,?_,?_,?_⟩
  · rw [hq,hcard,← ha.pending.symm]
    simp
  · have := ha.bounded
    rw [hq]
    simp only
    omega
  · intro o
    rw [hq]
    rw [ha.queue]
    refine exists_congr fun j => and_congr_right fun _ => ?_
    by_cases hj : j = i
    · subst j
      simp [hnew,hp.2]
    · rw [hchild,r.state_other hj]
      simp [hj]
  · rw [hq]
    exact ha.nodup
  · rw [hq]
    exact ha.blank

/-- A child finishes its handshake and joins the queue. -/
theorem establish (h : Links t) (r : Relinks t t' i l) (hc : t.IsChild l i)
    (hsyn : (t.storage i).state = .synReceived) (hlt : (t.storage l).acceptQueue.count < 4) (a : Sem)
    (hq : t'.storage l = { t.storage l with
      acceptQueue := (t.storage l).acceptQueue.push (some i) hlt, acceptDone := a })
    (hp : (t'.storage i).listener = some l ∧ (t'.storage i).state = .established) : Links t' := by
  have ha := h.accepting r.listening
  have hchild : ∀ j, t'.IsChild l j ↔ t.IsChild l j := by
    intro j
    by_cases hj : j = i
    · subst j
      simp [Table.IsChild,hp.1,r.pcbs,r.live,hc.2]
    · exact r.child_other h hj l
  have hnew : some i ∉ (t.storage l).acceptQueue.contents := by
    rw [ha.queue]
    rintro ⟨j,hj,-,he⟩
    obtain rfl : i = j := by simpa using hj
    simp [hsyn] at he
  have hqueue : (t'.storage l).acceptQueue.contents = (t.storage l).acceptQueue.contents++[some i] := by
    rw [hq]
    exact Ring.push_contents _ _ _
  refine r.links h ⟨?_,?_,?_,?_,?_⟩
  · have : t'.children l = t.children l := by ext j; simp [hchild]
    rw [hq,this]
    exact ha.pending
  · rw [hq]
    exact ha.bounded
  · intro o
    rw [hqueue,List.mem_append,ha.queue,List.mem_singleton]
    constructor
    · rintro (⟨j,rfl,hj,he⟩ | rfl)
      · have hji : j ≠ i := fun h' => by simp [h',hsyn] at he
        exact ⟨j,rfl,(hchild j).2 hj,by rw [r.state_other hji,he]⟩
      · exact ⟨i,rfl,(hchild i).2 hc,hp.2⟩
    · rintro ⟨j,rfl,hj,he⟩
      by_cases hji : j = i
      · exact .inr (by rw [hji])
      · rw [r.state_other hji] at he
        exact .inl ⟨j,rfl,(hchild j).1 hj,he⟩
  · rw [hqueue,List.nodup_append]
    exact ⟨ha.nodup,by simp,fun a ha b hb => by rintro rfl; simp at hb; exact hnew (hb ▸ ha)⟩
  · rw [hq]
    exact Ring.push_blank _ _ _ ha.blank

/-- The child at the head of the queue is accepted. -/
theorem commit (h : Links t) (r : Relinks t t' i l) (hc : t.IsChild l i)
    (hpos : 0 < (t.storage l).acceptQueue.count) (hhead : (t.storage l).acceptQueue.cell 0 = some i)
    (n : ℤ)
    (hq : t'.storage l = { t.storage l with
      acceptQueue := (t.storage l).acceptQueue.pop hpos
      pendingCount := (t.storage l).pendingCount-1
      acceptWaiters := n })
    (hp : (t'.storage i).listener = none) : Links t' := by
  have ha := h.accepting r.listening
  have hlen : 0 < (t.storage l).acceptQueue.contents.length := by simpa using hpos
  have hcons : (t.storage l).acceptQueue.contents = some i::(t.storage l).acceptQueue.contents.tail := by
    have h0 : (t.storage l).acceptQueue.contents[0] = some i := by rw [Ring.contents_get,hhead]
    obtain ⟨x,xs,he⟩ := List.exists_cons_of_length_pos hlen
    simp only [he,List.getElem_cons_zero] at h0
    simp [he,h0]
  have hchild : ∀ j, t'.IsChild l j ↔ j ≠ i ∧ t.IsChild l j := by
    intro j
    by_cases hj : j = i
    · subst j
      simp [Table.IsChild,hp]
    · simp [hj,r.child_other h hj]
  have hqueue : (t'.storage l).acceptQueue.contents = (t.storage l).acceptQueue.contents.tail := by
    rw [hq]
    exact Ring.pop_contents _ hpos
  have hnodup := ha.nodup
  rw [hcons,List.nodup_cons] at hnodup
  refine r.links h ⟨?_,?_,?_,?_,?_⟩
  · have hcard : (t'.children l).card+1 = (t.children l).card := by
      have : t'.children l = (t.children l).erase i := by
        ext j
        simp [hchild]
      rw [this]
      exact Finset.card_erase_add_one (by simpa using hc)
    rw [hq]
    simp only
    rw [ha.pending]
    omega
  · have := ha.bounded
    rw [hq]
    simp only
    omega
  · intro o
    have ho := ha.queue o
    rw [hcons,List.mem_cons] at ho
    rw [hqueue]
    constructor
    · intro hm
      obtain ⟨j,rfl,hj,he⟩ := ho.1 (.inr hm)
      have hji : j ≠ i := fun h' => hnodup.1 (h' ▸ hm)
      exact ⟨j,rfl,(hchild j).2 ⟨hji,hj⟩,by rw [r.state_other hji,he]⟩
    · rintro ⟨j,rfl,hj,he⟩
      obtain ⟨hji,hj⟩ := (hchild j).1 hj
      rw [r.state_other hji] at he
      exact (ho.2 ⟨j,rfl,hj,he⟩).resolve_left (by simpa using hji)
  · rw [hqueue]
    exact hnodup.2
  · rw [hq]
    exact Ring.pop_blank _ hpos ha.blank

/-- A bound block starts to listen. -/
theorem listen (h : Links t) (hi : t.pcbs i = true) (hs : (t.storage i).state = .closed)
    (hone : ∀ l, ¬t.Listening l) (hpcbs : t'.pcbs = t.pcbs)
    (hdet : t'.detachedListeners = t.detachedListeners)
    (hother : ∀ j, j ≠ i → t'.storage j = t.storage j) (b : ℤ) (hb : 1 ≤ b ∧ b ≤ 4) (a : Sem)
    (hq : t'.storage i = { t.storage i with
      acceptDone := a
      acceptQueue := .zeroed (by decide)
      pendingCount := 0
      backlog := b
      acceptWaiters := 0
      state := .listen }) : Links t' := by
  have hnone : ∀ l j, ¬t.IsChild l j := fun l j hc => hone l (h.child hc).1
  have hlistener : ∀ j, (t'.storage j).listener = (t.storage j).listener := by
    intro j
    by_cases hj : j = i
    · rw [hj,hq]
    · rw [hother j hj]
  have hchild : ∀ l j, ¬t'.IsChild l j := by
    intro l j
    simp only [Table.IsChild,hpcbs,hlistener]
    exact hnone l j
  have hlisten : ∀ l, t'.Listening l → l = i := by
    rintro l ⟨hp,hl⟩
    by_contra hne
    rw [hpcbs] at hp
    rw [hother l hne] at hl
    exact hone l ⟨hp,hl⟩
  refine ⟨?_,?_,fun hc => absurd hc (hchild _ _),?_,?_,?_,?_⟩
  · intro j
    rw [hpcbs,← h.opened j]
    by_cases hj : j = i
    · rw [hj,hq]
    · rw [hother j hj]
  · intro j hj
    rw [hpcbs] at hj
    rw [hdet,h.dead j hj]
  · intro j l hd
    rw [hdet] at hd
    exact absurd (h.detached hd) (hone l)
  · intro j hj hsj
    rw [hpcbs] at hj
    by_cases hji : j = i
    · rw [hji,hq] at hsj
      simp at hsj
    · rw [hother j hji] at hsj ⊢
      exact h.orphan j hj hsj
  · intro l l' hl hl'
    rw [hlisten l hl,hlisten l' hl']
  · intro l hl
    obtain rfl := hlisten l hl
    have hempty : t'.children l = ∅ := by
      ext j
      simp [hchild]
    refine ⟨?_,?_,?_,?_,?_⟩
    · simp [hq,hempty]
    · simp only [hq]
      omega
    · intro o
      simp [hq,hchild]
    · simp [hq]
    · rw [hq]
      exact Ring.zeroed_blank _

end Links
end Tcp
end QuardStarNet
