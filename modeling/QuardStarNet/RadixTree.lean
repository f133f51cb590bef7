import Mathlib.Data.Set.Insert
import Mathlib.Data.List.Infix
import Mathlib.Logic.Function.Basic

/-! Trees of tables kept in one shared memory. A table is a row of words, a word may point to a
child table, and a path of indices walks down from a root. A set of roots is a forest of depth `d`
when no table is met twice by the walks of length at most `d`. -/

namespace QuardStarNet
namespace RadixTree

variable {N ι W : Type} {child : W → Option N} {mem mem' : N → ι → W} {d : ℕ} {R : Set N}
  {r r₀ x y f : N} {p q path : List ι}

/-- The table at the end of a path of indices. -/
def walk (child : W → Option N) (mem : N → ι → W) : N → List ι → Option N
  | x,[] => some x
  | x,i :: p => (child (mem x i)).bind fun y => walk child mem y p

@[simp] theorem walk_nil : walk child mem x [] = some x := rfl

theorem walk_cons (i : ι) :
    walk child mem x (i :: p) = (child (mem x i)).bind fun y => walk child mem y p := rfl

theorem walk_append :
    walk child mem x (p ++ q) = (walk child mem x p).bind fun y => walk child mem y q := by
  induction p generalizing x with
  | nil => rfl
  | cons i p ih =>
    simp only [List.cons_append,walk_cons,Option.bind_assoc]
    congr 1
    funext y
    exact ih

theorem walk_snoc (i : ι) :
    walk child mem x (p ++ [i]) = (walk child mem x p).bind fun y => child (mem y i) := by
  rw [walk_append]
  congr 1
  funext y
  simp [walk_cons]

/-- A walk only reads the entries it goes through. -/
theorem walk_congr (h : ∀ q i y,q ++ [i] <+: p → walk child mem x q = some y → mem' y i = mem y i) :
    walk child mem' x p = walk child mem x p := by
  induction p generalizing x with
  | nil => rfl
  | cons i p ih =>
    have hi : mem' x i = mem x i := h [] i x ⟨p,rfl⟩ rfl
    rw [walk_cons,walk_cons,hi]
    cases hc : child (mem x i) with
    | none => rfl
    | some y =>
      refine ih fun q j z hq hz => h (i :: q) j z ?_ (by simpa [walk_cons,hc] using hz)
      obtain ⟨t,rfl⟩ := hq
      exact ⟨t,rfl⟩

/-- No table is met twice. -/
def Forest (child : W → Option N) (mem : N → ι → W) (d : ℕ) (R : Set N) : Prop :=
  ∀ ⦃r⦄, r ∈ R → ∀ ⦃r'⦄, r' ∈ R → ∀ ⦃p q x⦄, p.length ≤ d → q.length ≤ d →
    walk child mem r p = some x → walk child mem r' q = some x → r = r' ∧ p = q

/-- The tables of the trees with roots `R`. -/
def Node (child : W → Option N) (mem : N → ι → W) (d : ℕ) (R : Set N) (x : N) : Prop :=
  ∃ r ∈ R, ∃ p, p.length ≤ d ∧ walk child mem r p = some x

theorem walk_congr_nodes (hr : r ∈ R) (hp : p.length ≤ d)
    (h : ∀ y,Node child mem d R y → mem' y = mem y) :
    walk child mem' r p = walk child mem r p := by
  refine walk_congr fun q i y hq hy => ?_
  have hlen := hq.length_le
  rw [List.length_append,List.length_singleton] at hlen
  rw [h y ⟨r,hr,q,by omega,hy⟩]

theorem Node.congr (h : ∀ y,Node child mem d R y → mem' y = mem y) :
    Node child mem' d R x ↔ Node child mem d R x := by
  constructor
  · rintro ⟨r,hr,p,hp,hw⟩
    exact ⟨r,hr,p,hp,by rwa [walk_congr_nodes hr hp h] at hw⟩
  · rintro ⟨r,hr,p,hp,hw⟩
    exact ⟨r,hr,p,hp,by rwa [walk_congr_nodes hr hp h]⟩

theorem Node.mono {R' : Set N} (h : R ⊆ R') (hx : Node child mem d R x) :
    Node child mem d R' x := by
  obtain ⟨r,hr,hw⟩ := hx
  exact ⟨r,h hr,hw⟩

theorem Node.root (hr : r ∈ R) : Node child mem d R r := ⟨r,hr,[],Nat.zero_le _,rfl⟩

/-- A tree is its root and the trees below its entries. -/
theorem node_succ : Node child mem (d+1) {x} f ↔
    f = x ∨ ∃ i y,child (mem x i) = some y ∧ Node child mem d {y} f := by
  constructor
  · rintro ⟨r,hr,p,hp,hw⟩
    rw [Set.mem_singleton_iff] at hr
    subst hr
    cases p with
    | nil => exact .inl (Option.some.inj hw).symm
    | cons i p =>
      rw [walk_cons,Option.bind_eq_some_iff] at hw
      obtain ⟨y,hy,hw⟩ := hw
      exact .inr ⟨i,y,hy,y,rfl,p,by simpa using hp,hw⟩
  · rintro (rfl | ⟨i,y,hy,r,hr,p,hp,hw⟩)
    · exact .root rfl
    · rw [Set.mem_singleton_iff] at hr
      subst hr
      exact ⟨x,rfl,i :: p,by simpa using hp,by rw [walk_cons,hy]; exact hw⟩

namespace Forest

theorem of_walk (hF : Forest child mem d R) {child' : W → Option N}
    (h : ∀ r ∈ R,∀ p,p.length ≤ d → walk child' mem' r p = walk child mem r p) :
    Forest child' mem' d R := by
  intro r hr r' hr' p q x hp hq hx hy
  exact hF hr hr' hp hq (by rwa [← h r hr p hp]) (by rwa [← h r' hr' q hq])

/-- Writes to memory that is no table of the forest leave it alone. -/
theorem congr (hF : Forest child mem d R) (h : ∀ y,Node child mem d R y → mem' y = mem y) :
    Forest child mem' d R :=
  hF.of_walk fun _ hr _ hp => walk_congr_nodes hr hp h

theorem mono {R' : Set N} (hF : Forest child mem d R) (h : R' ⊆ R) : Forest child mem d R' :=
  fun _ hr _ hr' => hF (h hr) (h hr')

/-- A table without children that no walk meets is a new tree. -/
theorem insert_root (hF : Forest child mem d R) (hf : ¬Node child mem d R f)
    (blank : ∀ i,child (mem f i) = none) : Forest child mem d (insert f R) := by
  have alone : ∀ {p x},walk child mem f p = some x → p = [] ∧ x = f := by
    intro p x hw
    cases p with
    | nil => exact ⟨rfl,(Option.some.inj hw).symm⟩
    | cons i p => simp [walk_cons,blank] at hw
  intro r hr r' hr' p q x hp hq hx hy
  rcases hr with rfl | hr <;> rcases hr' with rfl | hr'
  · exact ⟨rfl,(alone hx).1.trans (alone hy).1.symm⟩
  · obtain ⟨-,rfl⟩ := alone hx
    exact (hf ⟨r',hr',q,hq,hy⟩).elim
  · obtain ⟨-,rfl⟩ := alone hy
    exact (hf ⟨r,hr,p,hp,hx⟩).elim
  · exact hF hr hr' hp hq hx hy

/-- The trees below the entries of a root. -/
theorem descend (hF : Forest child mem (d+1) {x}) {i : ι} (hy : child (mem x i) = some y) :
    Forest child mem d {y} := by
  intro r hr r' hr' p q z hp hq hx hz
  rw [Set.mem_singleton_iff] at hr hr'
  subst r r'
  have hcons : ∀ {t},walk child mem x (i :: t) = walk child mem y t := by simp [walk_cons,hy]
  have h := hF rfl rfl (by simpa using hp : (i :: p).length ≤ d+1)
    (by simpa using hq : (i :: q).length ≤ d+1) (by rwa [hcons]) (by rwa [hcons])
  exact ⟨rfl,(List.cons.inj h.2).2⟩

/-- A root is not met below itself. -/
theorem ne_root (hF : Forest child mem (d+1) {x}) {i : ι} (hy : child (mem x i) = some y)
    (hf : Node child mem d {y} f) : f ≠ x := by
  obtain ⟨r,hr,p,hp,hw⟩ := hf
  rw [Set.mem_singleton_iff] at hr
  subst hr
  rintro rfl
  have hdown : walk child mem f (i :: p) = some f := by rw [walk_cons,hy]; exact hw
  have hnil : ([] : List ι).length ≤ d+1 := Nat.zero_le _
  have h := hF rfl rfl hnil (by simpa using hp : (i :: p).length ≤ d+1) rfl hdown
  simp at h

/-- The trees below two entries have no table in common. -/
theorem disjoint (hF : Forest child mem (d+1) {x}) {i j : ι} {z : N} (hy : child (mem x i) = some y)
    (hz : child (mem x j) = some z) (hfy : Node child mem d {y} f) (hfz : Node child mem d {z} f) :
    i = j := by
  obtain ⟨r,hr,p,hp,hw⟩ := hfy
  obtain ⟨r',hr',q,hq,hw'⟩ := hfz
  rw [Set.mem_singleton_iff] at hr hr'
  subst r r'
  have h := hF rfl rfl (by simpa using hp : (i :: p).length ≤ d+1)
    (by simpa using hq : (j :: q).length ≤ d+1) (by rw [walk_cons,hy]; exact hw)
    (by rw [walk_cons,hz]; exact hw')
  exact (List.cons.inj h.2).1

end Forest

section Store

variable [DecidableEq N] [DecidableEq ι]

/-- One entry of one table rewritten. -/
def store (mem : N → ι → W) (x : N) (i : ι) (w : W) : N → ι → W :=
  Function.update mem x (Function.update (mem x) i w)

variable {i : ι} {w : W}

@[simp] theorem store_same : store mem x i w x i = w := by simp [store]

theorem store_of_ne (h : y ≠ x) : store mem x i w y = mem y := by simp [store,h]

theorem store_entry_of_ne {j : ι} (h : y ≠ x ∨ j ≠ i) : store mem x i w y j = mem y j := by
  by_cases hy : y = x
  · subst hy
    simp [store,h.resolve_left (by simp)]
  · rw [store_of_ne hy]

namespace Forest

/-- Rewriting an entry changes only the walks that go through it. -/
theorem walk_store (hF : Forest child mem d R) (hr₀ : r₀ ∈ R) (hpath : path.length ≤ d)
    (hx : walk child mem r₀ path = some x) (hr : r ∈ R) (hq : q.length ≤ d)
    (h : r = r₀ → ¬path ++ [i] <+: q) :
    walk child (store mem x i w) r q = walk child mem r q := by
  refine walk_congr fun t j y ht hy => store_entry_of_ne ?_
  by_contra hcon
  obtain ⟨rfl,rfl⟩ : y = x ∧ j = i := by simpa [not_or] using hcon
  have hlen := ht.length_le
  rw [List.length_append,List.length_singleton] at hlen
  obtain ⟨rfl,rfl⟩ := hF hr hr₀ (by omega) hpath hy hx
  exact h rfl ht

/-- The entries of the deepest tables point to no table. -/
theorem walk_store_leaf (hF : Forest child mem d R) (hr₀ : r₀ ∈ R) (hpath : path.length = d)
    (hx : walk child mem r₀ path = some x) (hr : r ∈ R) (hq : q.length ≤ d) :
    walk child (store mem x i w) r q = walk child mem r q := by
  refine walk_store hF hr₀ hpath.le hx hr hq fun _ hpre => ?_
  have hlen := hpre.length_le
  rw [List.length_append,List.length_singleton] at hlen
  omega

/-- Hanging a new table below an empty entry adds one path. -/
theorem walk_install (hF : Forest child mem d R) (hr₀ : r₀ ∈ R) (hpath : path.length < d)
    (hx : walk child mem r₀ path = some x) (empty : child (mem x i) = none)
    (hw : child w = some f) (hf : ¬Node child mem d R f) (blank : ∀ j,child (mem f j) = none)
    (hr : r ∈ R) (hq : q.length ≤ d) :
    walk child (store mem x i w) r q =
      if r = r₀ ∧ q = path ++ [i] then some f else walk child mem r q := by
  by_cases hpre : r = r₀ ∧ path ++ [i] <+: q
  · obtain ⟨rfl,t,rfl⟩ := hpre
    have hxf : f ≠ x := by
      rintro rfl
      exact hf ⟨r,hr,path,hpath.le,hx⟩
    have hstay : walk child (store mem x i w) r path = some x := by
      rw [walk_store hF hr hpath.le hx hr hpath.le fun _ h => ?_,hx]
      have hlen := h.length_le
      rw [List.length_append,List.length_singleton] at hlen
      omega
    have hnew : walk child (store mem x i w) r (path ++ [i]) = some f := by
      rw [walk_snoc,hstay]
      simpa using hw
    have hold : walk child mem r (path ++ [i]) = none := by
      rw [walk_snoc,hx]
      exact empty
    cases t with
    | nil => simp [hnew]
    | cons j t =>
      rw [walk_append,hnew,if_neg (by simp),walk_append,hold]
      simp [walk_cons,store_of_ne hxf,blank]
  · rw [walk_store hF hr₀ hpath.le hx hr hq fun he h => hpre ⟨he,h⟩,if_neg]
    rintro ⟨rfl,rfl⟩
    exact hpre ⟨rfl,List.prefix_rfl⟩

theorem install (hF : Forest child mem d R) (hr₀ : r₀ ∈ R) (hpath : path.length < d)
    (hx : walk child mem r₀ path = some x) (empty : child (mem x i) = none)
    (hw : child w = some f) (hf : ¬Node child mem d R f) (blank : ∀ j,child (mem f j) = none) :
    Forest child (store mem x i w) d R := by
  have hwalk {r : N} {q : List ι} (hr : r ∈ R) (hq : q.length ≤ d) :=
    walk_install hF hr₀ hpath hx empty hw hf blank hr hq
  intro r hr r' hr' p q y hp hq hy hz
  rw [hwalk hr hp] at hy
  rw [hwalk hr' hq] at hz
  split at hy <;> split at hz
  next h h' => exact ⟨h.1.trans h'.1.symm,h.2.trans h'.2.symm⟩
  next => exact (hf ⟨r',hr',q,hq,by rwa [← Option.some.inj hy] at hz⟩).elim
  next => exact (hf ⟨r,hr,p,hp,by rwa [← Option.some.inj hz] at hy⟩).elim
  next => exact hF hr hr' hp hq hy hz

end Forest

end Store

end RadixTree
end QuardStarNet
