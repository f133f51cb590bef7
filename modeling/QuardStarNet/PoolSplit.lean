import Mathlib.Algebra.Ring.Int.Defs
import Mathlib.Algebra.Ring.Nat
import Mathlib.Data.List.Perm.Basic
import Mathlib.Data.List.Nodup
import Mathlib.Logic.Function.Basic

/-! Pools whose items are in a free list or with one of several owners. -/
namespace QuardStarNet

/-- Every item of `all` is once in the free list or once with one owner. -/
def PoolSplit {κ β : Type} (free : List κ) (owners : List β) (held : β → List κ) (all : List κ) :
    Prop :=
  (free++owners.flatMap held).Perm all

namespace PoolSplit

variable {κ β : Type} {free free' : List κ} {owners owners' : List β} {held held' : β → List κ}
  {all : List κ} {b c : β}

theorem congr (h : PoolSplit free owners held all) (hh : ∀ c ∈ owners, held' c = held c) :
    PoolSplit free owners held' all := by
  unfold PoolSplit at *
  rwa [List.flatMap_congr hh]

theorem perm (h : PoolSplit free owners held all) (hf : free'.Perm free)
    (ho : owners'.Perm owners) : PoolSplit free' owners' held all :=
  (hf.append (ho.flatMap_right held)).trans h

/-- What an owner holds is taken out of the split. -/
theorem cons_iff : PoolSplit free (b :: owners) held all ↔
    PoolSplit (free++held b) owners held all := by
  simp [PoolSplit]

theorem count_eq (h : PoolSplit free owners held all) :
    free.length+(owners.map fun b => (held b).length).sum = all.length := by
  have := List.Perm.length_eq h
  rwa [List.length_append,List.length_flatMap] at this

variable [DecidableEq β]

/-- An owner and the free list exchange items. -/
theorem exchange {l : List κ} (h : PoolSplit free owners held all) (hn : owners.Nodup)
    (hb : b ∈ owners) (hp : (free'++l).Perm (free++held b)) :
    PoolSplit free' owners (Function.update held b l) all := by
  have ho := List.perm_cons_erase hb
  have hrest : PoolSplit (free'++l) (owners.erase b) held all :=
    (cons_iff.1 (h.perm (.refl _) ho.symm)).perm hp (.refl _)
  have hcons : PoolSplit free' (b :: owners.erase b) (Function.update held b l) all := by
    rw [cons_iff,Function.update_self]
    refine hrest.congr fun c hc => Function.update_of_ne ?_ _ _
    rintro rfl
    exact hn.not_mem_erase hc
  exact hcons.perm (.refl _) ho

end PoolSplit
end QuardStarNet
