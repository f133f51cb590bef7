import Mathlib.Data.Fintype.Card
import Mathlib.Tactic.Choose
import QuardStarNet.Dns

/-! Names in a DNS message. A name at a position is a list of labels, read along the message and
through compression pointers; `parse_name` succeeds exactly on such names. -/
namespace QuardStarNet
namespace Dns

/-- The labels of the name at a position and the position behind it; a name that loops has no
derivation. The first index counts the labels, pointers and the final zero that are read. -/
inductive NameAt (packet : List Byte) : ℕ → ℕ → List (List Byte) → ℕ → Prop
  | root {pos : ℕ} (h : itemAt packet pos = .root) : NameAt packet 1 pos [] (pos+1)
  | label {n pos next : ℕ} {l : List Byte} {labels : List (List Byte)}
      (h : itemAt packet pos = .label l) (rest : NameAt packet n (pos+1+l.length) labels next) :
      NameAt packet (n+1) pos (l :: labels) next
  | pointer {n pos target next : ℕ} {labels : List (List Byte)}
      (h : itemAt packet pos = .pointer target) (rest : NameAt packet n target labels next) :
      NameAt packet (n+1) pos labels (pos+2)

variable {packet : List Byte} {nameSize : Option ℕ} {st : NameScan} {pos next n : ℕ}
  {labels : List (List Byte)}

theorem lt_of_itemAt (h : itemAt packet pos ≠ .bad) : pos < packet.length := by
  by_contra hpos
  exact h (by rw [itemAt,List.drop_eq_nil_of_le (Nat.not_lt.1 hpos),itemOf])

namespace NameAt

theorem pos_lt (h : NameAt packet n pos labels next) : pos < packet.length := by
  cases h with
  | root h => exact lt_of_itemAt (by simp [h])
  | label h => exact lt_of_itemAt (by simp [h])
  | pointer h => exact lt_of_itemAt (by simp [h])

theorem pos_lt_next (h : NameAt packet n pos labels next) : pos < next := by
  induction h with
  | root => omega
  | label h rest ih => omega
  | pointer => omega

theorem size_pos (h : NameAt packet n pos labels next) : 0 < n := by
  cases h <;> omega

theorem ne_nil (h : NameAt packet n pos labels next) : ∀ l ∈ labels,l ≠ [] := by
  induction h with
  | root => simp
  | label h rest ih => exact List.forall_mem_cons.2 ⟨(itemAt_label h).1,ih⟩
  | pointer h rest ih => exact ih

/-- What stands at a position decides how the name goes on. -/
theorem unique {m next' : ℕ} {labels' : List (List Byte)} (h : NameAt packet n pos labels next)
    (h' : NameAt packet m pos labels' next') : n = m ∧ labels = labels' ∧ next = next' := by
  induction h generalizing m next' labels' with
  | root h => cases h' <;> simp_all
  | label h rest ih =>
    cases h' with
    | root g => simp [h] at g
    | label g rest' =>
      obtain rfl := Item.label.inj (h.symm.trans g)
      obtain ⟨rfl,rfl,rfl⟩ := ih rest'
      exact ⟨rfl,rfl,rfl⟩
    | pointer g => simp [h] at g
  | pointer h rest ih =>
    cases h' with
    | root g => simp [h] at g
    | label g => simp [h] at g
    | pointer g rest' =>
      obtain rfl := Item.pointer.inj (h.symm.trans g)
      obtain ⟨rfl,rfl,rfl⟩ := ih rest'
      exact ⟨rfl,rfl,rfl⟩

/-- Along the way a name of every smaller size is met. -/
theorem of_size_le (h : NameAt packet n pos labels next) {k : ℕ} (hk : 0 < k) (hkn : k ≤ n) :
    ∃ pos labels next,NameAt packet k pos labels next := by
  induction h with
  | root h =>
    obtain rfl : k = 1 := by omega
    exact ⟨_,_,_,.root h⟩
  | label h rest ih =>
    rcases Nat.le_succ_iff.1 hkn with hk | rfl
    · exact ih hk
    · exact ⟨_,_,_,.label h rest⟩
  | pointer h rest ih =>
    rcases Nat.le_succ_iff.1 hkn with hk | rfl
    · exact ih hk
    · exact ⟨_,_,_,.pointer h rest⟩

/-- No position is met twice, so a name is read in at most as many rounds as there are bytes. -/
theorem size_le (h : NameAt packet n pos labels next) : n ≤ packet.length := by
  have hmet : ∀ k : Fin n,∃ p : Fin packet.length,∃ labels next,
      NameAt packet (k+1) p labels next := by
    intro k
    obtain ⟨p,ls,nx,hp⟩ := h.of_size_le (Nat.succ_pos k) k.isLt
    exact ⟨⟨p,hp.pos_lt⟩,ls,nx,hp⟩
  choose place hplace using hmet
  have hinj : Function.Injective place := by
    intro i j hij
    obtain ⟨_,_,hi⟩ := hplace i
    obtain ⟨_,_,hj⟩ := hplace j
    rw [hij] at hi
    have hsize := (hi.unique hj).1
    exact Fin.ext (by omega)
  simpa using Fintype.card_le_of_injective place hinj

end NameAt

/-! ### Names are parsed -/

theorem length_le_dotted (output : List Byte) (labels : List (List Byte)) :
    output.length ≤ (dotted output labels).length := by
  induction labels generalizing output with
  | nil => rfl
  | cons l labels ih =>
    refine le_trans ?_ (ih (dotBefore output ++ l))
    by_cases h : output = []
    · simp [h]
    · simp [dotBefore,h]

theorem Fits.first {output l : List Byte} (h : Fits nameSize output (l :: labels)) :
    Fits nameSize output [l] :=
  fun size hsize => lt_of_le_of_lt (length_le_dotted _ labels) (h size hsize)

theorem Fits.pass {l : List Byte} (h : Fits nameSize st.output (l :: labels)) :
    Fits nameSize (st.pass nameSize l).output labels := by
  rintro size hsize
  obtain rfl := Option.mem_def.1 hsize
  simpa [NameScan.pass,written,dotted] using h size rfl

theorem written_pass (nameSize : Option ℕ) (st : NameScan) (l : List Byte) (labels : List (List Byte))
    (last : List Byte) : written nameSize (st.pass nameSize l).output labels last =
      written nameSize st.output (l :: labels) last := by
  cases nameSize with
  | none => rfl
  | some size => simp [NameScan.pass,written,dotted]

theorem parseLabel_root (h : itemAt packet st.cursor = .root) (hfit : Fits nameSize st.output []) :
    parseLabel packet nameSize st = .ok (.done .ok (NameScan.finish
      { st with cursor := st.cursor+1, output := written nameSize st.output [] [0] })) := by
  obtain ⟨r,he,hr⟩ := parseLabel_reads packet nameSize st
  cases hr <;> simp_all [Refuses]

theorem parseLabel_label {l : List Byte} (h : itemAt packet st.cursor = .label l)
    (hfit : Fits nameSize st.output [l]) : parseLabel packet nameSize st =
      .ok (.again (NameScan.pass nameSize { st with cursor := st.cursor+1 } l)) := by
  obtain ⟨r,he,hr⟩ := parseLabel_reads packet nameSize st
  cases hr <;> simp_all [Refuses]

theorem parseLabel_pointer {target : ℕ} (h : itemAt packet st.cursor = .pointer target)
    (hj : st.jumps < packet.length) : parseLabel packet nameSize st =
      .ok (.again (NameScan.jump { st with cursor := st.cursor+2, jumps := st.jumps+1 } target)) := by
  obtain ⟨r,he,hr⟩ := parseLabel_reads packet nameSize st
  cases hr <;> simp_all [Refuses]

/-- A scan that stands before a name reads it to its end. -/
theorem parseRounds_of_nameAt (h : NameAt packet n pos labels next) {rounds : ℕ} {st : NameScan}
    (hpos : st.cursor = pos) (hrounds : n ≤ rounds) (hjumps : st.jumps+n ≤ packet.length)
    (hfit : Fits nameSize st.output labels) :
    ∃ st',parseRounds packet nameSize rounds st = .ok (.ok,st') ∧
      st'.output = written nameSize st.output labels [0] ∧
      st'.next = if st.jumped then st.next else some next := by
  induction h generalizing rounds st with
  | root h =>
    subst hpos
    obtain ⟨rounds,rfl⟩ : ∃ m,rounds = m+1 := ⟨rounds-1,by omega⟩
    rw [parseRounds,parseLabel_root h hfit]
    exact ⟨_,rfl,rfl,rfl⟩
  | label h rest ih =>
    subst hpos
    obtain ⟨rounds,rfl⟩ : ∃ m,rounds = m+1 := ⟨rounds-1,by omega⟩
    rw [parseRounds,parseLabel_label h hfit.first]
    have hfit' := @Fits.pass nameSize { st with cursor := st.cursor+1 } _ _ hfit
    obtain ⟨st',he,hout,hnext⟩ := ih rfl (Nat.le_of_succ_le_succ hrounds)
      (by dsimp only [NameScan.pass]; omega) hfit'
    exact ⟨st',he,hout.trans (written_pass _ _ _ _ _),hnext⟩
  | pointer h rest ih =>
    subst hpos
    obtain ⟨rounds,rfl⟩ : ∃ m,rounds = m+1 := ⟨rounds-1,by omega⟩
    have hsize := rest.size_pos
    rw [parseRounds,parseLabel_pointer h (by omega)]
    obtain ⟨st',he,hout,hnext⟩ := @ih rounds
      (NameScan.jump { st with cursor := st.cursor+2, jumps := st.jumps+1 } _) rfl (by omega)
      (by dsimp only [NameScan.jump]; omega) hfit
    exact ⟨st',he,hout,by simpa [NameScan.jump] using hnext⟩

theorem parseName_of_nameAt (h : NameAt packet n pos labels next) (hfit : Fits nameSize [] labels) :
    ∃ st,parseName packet pos nameSize = .ok (.ok,st) ∧
      st.output = written nameSize [] labels [0] ∧ st.next = some next := by
  have hsize := h.size_le
  have hrounds : n ≤ (packet.length+1)*(packet.length+1) := by
    rw [Nat.succ_mul]
    omega
  rw [parseName,if_neg (Nat.not_le.2 h.pos_lt)]
  exact parseRounds_of_nameAt h rfl hrounds (by dsimp only; omega) hfit

/-- A scan that succeeds stood before a name. -/
theorem nameAt_of_parseRounds {rounds : ℕ} {st' : NameScan}
    (h : parseRounds packet nameSize rounds st = .ok (.ok,st')) :
    ∃ n labels next,NameAt packet n st.cursor labels next ∧
      st'.output = written nameSize st.output labels [0] ∧
      st'.next = if st.jumped then st.next else some next := by
  induction rounds generalizing st with
  | zero => simp [parseRounds] at h
  | succ rounds ih =>
    obtain ⟨r,he,hr⟩ := parseLabel_reads packet nameSize st
    rw [parseRounds,he] at h
    cases hr with
    | refused hcode =>
      obtain ⟨hc,-⟩ := Prod.mk.inj (Except.ok.inj h)
      exact absurd hc hcode
    | root hb =>
      obtain ⟨-,rfl⟩ := Prod.mk.inj (Except.ok.inj h)
      exact ⟨1,[],st.cursor+1,.root hb,rfl,rfl⟩
    | label hb =>
      obtain ⟨n,labels,next,hn,hout,hnext⟩ := ih h
      exact ⟨n+1,_,next,.label hb hn,hout.trans (written_pass _ _ _ _ _),hnext⟩
    | pointer hb =>
      obtain ⟨n,labels,next,hn,hout,hnext⟩ := ih h
      exact ⟨n+1,labels,st.cursor+2,.pointer hb hn,hout,by simpa [NameScan.jump] using hnext⟩

theorem nameAt_of_parseName {st : NameScan} (h : parseName packet pos nameSize = .ok (.ok,st)) :
    ∃ n labels next,NameAt packet n pos labels next ∧
      st.output = written nameSize [] labels [0] ∧ st.next = some next := by
  rw [parseName] at h
  by_cases hoff : packet.length ≤ pos
  · rw [if_pos hoff] at h
    simp at h
  · rw [if_neg hoff] at h
    exact nameAt_of_parseRounds h

end Dns
end QuardStarNet
