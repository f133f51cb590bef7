import Mathlib.Data.List.Perm.Basic
import Mathlib.Logic.Function.Basic
import Mathlib.Logic.Relation

/-! Packets that wait, each at its destination, until the address of the destination is known.
The trace says what was given and what became of it. -/
namespace QuardStarNet

namespace Mailbox

inductive Note (κ α β : Type)
  | given (k : κ) (b : β)
  | passed (k : κ) (x : α) (b : β)
  | freed (k : κ) (b : β)
  | learned (k : κ) (x : α)
  | forgotten (k : κ)

end Mailbox

structure Mailbox (κ α β : Type) where
  queue : κ → List β
  addr : κ → Option α
  trace : List (Mailbox.Note κ α β)

namespace Mailbox

variable {κ α β : Type} [DecidableEq κ]

def givenTo (k : κ) (t : List (Note κ α β)) : List β :=
  t.filterMap fun
    | .given j b => if j = k then some b else none
    | _ => none

def passedTo (k : κ) (t : List (Note κ α β)) : List β :=
  t.filterMap fun
    | .passed j _ b => if j = k then some b else none
    | _ => none

def freedTo (k : κ) (t : List (Note κ α β)) : List β :=
  t.filterMap fun
    | .freed j b => if j = k then some b else none
    | _ => none

/-- The address that was learned last and not forgotten since. -/
def known (k : κ) (t : List (Note κ α β)) : Option α :=
  t.foldl (fun r n => match n with
    | .learned j x => if j = k then some x else r
    | .forgotten j => if j = k then none else r
    | _ => r) none

/-- Every packet was passed to the address known at that moment. -/
def Fresh (t : List (Note κ α β)) : Prop :=
  ∀ t₁ k x b t₂, t = t₁++.passed k x b :: t₂ → known k t₁ = some x

theorem Fresh.snoc {t : List (Note κ α β)} {n : Note κ α β} (h : Fresh t)
    (hn : ∀ k x b, n = .passed k x b → known k t = some x) : Fresh (t++[n]) := by
  intro t₁ k x b t₂ he
  rcases List.eq_nil_or_concat t₂ with rfl | ⟨t₂,y,rfl⟩
  · obtain ⟨rfl,hy⟩ := List.append_inj' he rfl
    exact hn k x b (by simpa using hy)
  · have he' : t++[n] = (t₁++.passed k x b :: t₂)++[y] := by simpa using he
    exact h t₁ k x b t₂ (List.append_inj' he' rfl).1

variable {m m' : Mailbox κ α β}

/-- What can happen to a mailbox. -/
inductive Move (m : Mailbox κ α β) : Mailbox κ α β → Prop
  | give (k : κ) (b : β) : Move m
      { m with queue := Function.update m.queue k (m.queue k++[b]), trace := m.trace++[.given k b] }
  | pass (k : κ) (x : α) (b : β) (l : List β) (hx : m.addr k = some x) (hq : m.queue k = b :: l) :
      Move m { m with queue := Function.update m.queue k l, trace := m.trace++[.passed k x b] }
  | free (k : κ) (b : β) (l₁ l₂ : List β) (hq : m.queue k = l₁++b :: l₂) :
      Move m { m with queue := Function.update m.queue k (l₁++l₂), trace := m.trace++[.freed k b] }
  | learn (k : κ) (x : α) : Move m
      { m with addr := Function.update m.addr k (some x), trace := m.trace++[.learned k x] }
  | forget (k : κ) : Move m
      { m with addr := Function.update m.addr k none, trace := m.trace++[.forgotten k] }

def empty : Mailbox κ α β := ⟨fun _ => [],fun _ => none,[]⟩

def Reachable : Mailbox κ α β → Prop := Relation.ReflTransGen Move empty

/-- What a mailbox guarantees of the packets given for each destination. -/
structure Ok (m : Mailbox κ α β) : Prop where
  once : ∀ k, (passedTo k m.trace++freedTo k m.trace++m.queue k).Perm (givenTo k m.trace)
  order : ∀ k, (passedTo k m.trace++m.queue k).Sublist (givenTo k m.trace)
  known : ∀ k, known k m.trace = m.addr k
  fresh : Fresh m.trace

theorem Move.ok (hm : Move m m') (h : Ok m) : Ok m' := by
  cases hm with
  | give k b =>
    refine ⟨fun j => ?_,fun j => ?_,fun j => ?_,h.fresh.snoc (by simp)⟩
    · by_cases hj : j = k
      · subst hj
        simpa [passedTo,freedTo,givenTo] using (h.once j).append_right [b]
      · simpa [passedTo,freedTo,givenTo,hj,Ne.symm hj] using h.once j
    · by_cases hj : j = k
      · subst hj
        simpa [passedTo,givenTo] using (h.order j).append_right [b]
      · simpa [passedTo,givenTo,hj,Ne.symm hj] using h.order j
    · simpa [Mailbox.known] using h.known j
  | pass k x b l hx hq =>
    refine ⟨fun j => ?_,fun j => ?_,fun j => ?_,h.fresh.snoc ?_⟩
    · by_cases hj : j = k
      · subst hj
        have := h.once j
        rw [hq] at this
        refine .trans ?_ (by simpa [givenTo] using this)
        have hp : (b :: (freedTo j m.trace++l)).Perm (freedTo j m.trace++b :: l) :=
          List.perm_middle.symm
        simpa [passedTo,freedTo] using hp.append_left (passedTo j m.trace)
      · simpa [passedTo,freedTo,givenTo,hj,Ne.symm hj] using h.once j
    · by_cases hj : j = k
      · subst hj
        simpa [passedTo,givenTo,hq] using h.order j
      · simpa [passedTo,givenTo,hj,Ne.symm hj] using h.order j
    · simpa [Mailbox.known] using h.known j
    · intro j y c he
      cases he
      rw [h.known,hx]
  | free k b l₁ l₂ hq =>
    refine ⟨fun j => ?_,fun j => ?_,fun j => ?_,h.fresh.snoc (by simp)⟩
    · by_cases hj : j = k
      · subst hj
        have := h.once j
        rw [hq] at this
        refine .trans ?_ (by simpa [givenTo] using this)
        have hp : (b :: (l₁++l₂)).Perm (l₁++b :: l₂) := List.perm_middle.symm
        simpa [passedTo,freedTo] using
          (hp.append_left (freedTo j m.trace)).append_left (passedTo j m.trace)
      · simpa [passedTo,freedTo,givenTo,hj,Ne.symm hj] using h.once j
    · by_cases hj : j = k
      · subst hj
        have hsub : (passedTo j m.trace++(l₁++l₂)).Sublist (passedTo j m.trace++(l₁++b :: l₂)) :=
          ((List.sublist_cons_self b l₂).append_left l₁).append_left _
        simpa [passedTo,givenTo] using hsub.trans (hq ▸ h.order j)
      · simpa [passedTo,givenTo,hj,Ne.symm hj] using h.order j
    · simpa [Mailbox.known] using h.known j
  | learn k x =>
    refine ⟨fun j => by simpa [passedTo,freedTo,givenTo] using h.once j,
      fun j => by simpa [passedTo,givenTo] using h.order j,fun j => ?_,h.fresh.snoc (by simp)⟩
    have := h.known j
    by_cases hj : j = k
    · simp [Mailbox.known,hj]
    · simpa [Mailbox.known,hj,Ne.symm hj] using this
  | forget k =>
    refine ⟨fun j => by simpa [passedTo,freedTo,givenTo] using h.once j,
      fun j => by simpa [passedTo,givenTo] using h.order j,fun j => ?_,h.fresh.snoc (by simp)⟩
    have := h.known j
    by_cases hj : j = k
    · simp [Mailbox.known,hj]
    · simpa [Mailbox.known,hj,Ne.symm hj] using this

theorem Reachable.move (h : Reachable m) (hm : Move m m') : Reachable m' := h.tail hm

theorem Reachable.ok (h : Reachable m) : Ok m := by
  induction h with
  | refl => exact ⟨fun _ => .refl _,fun _ => .refl _,fun _ => rfl,by intro t₁; simp [empty]⟩
  | tail _ hm ih => exact hm.ok ih

end Mailbox
end QuardStarNet
