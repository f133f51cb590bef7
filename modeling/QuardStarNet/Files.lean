import Mathlib.Data.BitVec
import QuardStarNet.NetBase
import QuardStarNet.Generations

/-! The table of open files (`file.c`). A handle is made of a slot and of its generation; the FatFs
calls return what they like. -/
namespace QuardStarNet
namespace Files

/-- A `net_err_t` as the `int` that the functions return. -/
def errInt (e : NetErr) : BitVec 32 := .ofInt 32 e.code

inductive FResult
  | ok | error (code : ℕ)
  deriving DecidableEq

/-- What the FatFs calls made during one call of this module return. -/
structure FatFs where
  fOpen : FResult
  fExpand : FResult
  fRead : FResult
  fWrite : FResult
  fSync : FResult
  fClose : FResult
  transferred : BitVec 32
  buffer : List Byte

/-- `file_entry_t` without the FatFs object. -/
structure Entry where
  generation : BitVec 32
  used : Bool
  writable : Bool
  ownerPid : ℤ
  deriving DecidableEq

abbrev Index := Fin 4
abbrev Table := Index → Entry

def fileInit : Table := fun _ => ⟨1,false,false,-1⟩

/-- The loop of `file_path`, over the bytes before the terminating zero. -/
def pathLoop (capacity : ℕ) : ℕ → List Byte → Bool
  | _,[] => true
  | length,c :: rest =>
    if c = 0x2f ∨ c = 0x5c ∨ c = 0x3a ∨ c = 0x2e ∧ rest.head? = some 0x2e then false
    else if capacity < length+1+4 then false
    else pathLoop capacity (length+1) rest

def filePath (capacity : ℕ) (name : Option (List Byte)) : Option (List Byte) :=
  match name with
  | none => none
  | some name =>
    if capacity < 5 ∨ pathLoop capacity 0 name = false ∨ name = [] then none
    else some ([0x30,0x3a,0x2f]++name++[0])

/-- The end of `file_close`, and of one pass of `file_close_owner`. -/
def Entry.closed (e : Entry) : Entry where
  generation := if e.generation+1 = 0 then 1 else e.generation+1
  used := false
  writable := false
  ownerPid := -1

namespace Table

variable (s : Table) (pid : ℤ) (fs : FatFs)

def fileHandle (index : Index) : BitVec 32 := (s index).generation <<< 2 ||| .ofNat 32 index

/-- `file_find` for the current process `pid`. -/
def fileFind (handle : BitVec 32) : Option Index :=
  if handle.toInt < 0 then none
  else
    let index : Index := Fin.ofNat 4 (handle &&& 3#32).toNat
    if ¬(s index).used ∨ (s index).generation ≠ handle >>> 2 ∨ (s index).ownerPid ≠ pid then none
    else some index

def fileOpen (name : Option (List Byte)) (writable : ℤ) : Table × BitVec 32 :=
  if writable ≠ 0 ∧ writable ≠ 1 ∨ filePath 64 name = none then (s,errInt .param)
  else
    match (List.finRange 4).find? fun i => !(s i).used with
    | none => (s,errInt .full)
    | some index =>
      let result := if fs.fOpen = .ok ∧ writable ≠ 0 then fs.fExpand else fs.fOpen
      if result ≠ .ok then (s,errInt .io)
      else
        let s : Table := Function.update s index
          { s index with used := true, writable := writable ≠ 0, ownerPid := pid }
        (s,s.fileHandle index)

/-- The returned number and the bytes copied to the caller. -/
def fileRead (handle : BitVec 32) (null : Bool) (length : ℕ) : BitVec 32 × List Byte :=
  if null ∨ length = 0 ∨ 0xffffffff < length then (errInt .param,[])
  else
    match s.fileFind pid handle with
    | none => (errInt .param,[])
    | some index =>
      if (s index).writable then (errInt .param,[])
      else if 512 < length then (errInt .size,[])
      else if fs.fRead = .ok then (fs.transferred,fs.buffer.take fs.transferred.toNat)
      else (errInt .io,[])

def fileWrite (handle : BitVec 32) (data : Option (List Byte)) : BitVec 32 :=
  match data with
  | none => errInt .param
  | some data =>
    if data.length = 0 ∨ 0xffffffff < data.length then errInt .param
    else
      match s.fileFind pid handle with
      | none => errInt .param
      | some index =>
        if ¬(s index).writable then errInt .param
        else if 512 < data.length then errInt .full
        else if fs.fWrite ≠ .ok then errInt .io
        else if fs.transferred.toNat = data.length then fs.transferred
        else errInt .full

def fileSync (handle : BitVec 32) : BitVec 32 :=
  match s.fileFind pid handle with
  | none => errInt .param
  | some index =>
    if ¬(s index).writable then errInt .param
    else if fs.fSync = .ok then errInt .ok
    else errInt .io

def fileClose (handle : BitVec 32) : Table × BitVec 32 :=
  match s.fileFind pid handle with
  | none => (s,errInt .param)
  | some index =>
    let result := if (s index).writable then fs.fSync else .ok
    let result := if result = .ok then fs.fClose else result
    (Function.update s index (s index).closed,if result = .ok then errInt .ok else errInt .io)

/-- Every pass of the loop looks at its own entry only. -/
def fileCloseOwner : Table := fun index =>
  if ¬(s index).used ∨ (s index).ownerPid ≠ pid then s index else (s index).closed

end Table

inductive Op
  | fileOpen (name : Option (List Byte)) (writable : ℤ)
  | fileRead (handle : BitVec 32) (null : Bool) (length : ℕ)
  | fileWrite (handle : BitVec 32) (data : Option (List Byte))
  | fileSync (handle : BitVec 32)
  | fileClose (handle : BitVec 32)
  | fileCloseOwner (pid : ℤ)

/-- One call under `file_lock`, by the process `pid`. -/
structure Call where
  pid : ℤ
  fs : FatFs
  op : Op

namespace Table

def call (s : Table) (c : Call) : Table × BitVec 32 :=
  match c.op with
  | .fileOpen name writable => s.fileOpen c.pid c.fs name writable
  | .fileRead handle null length => (s,(s.fileRead c.pid c.fs handle null length).1)
  | .fileWrite handle data => (s,s.fileWrite c.pid c.fs handle data)
  | .fileSync handle => (s,s.fileSync c.pid c.fs handle)
  | .fileClose handle => s.fileClose c.pid c.fs handle
  | .fileCloseOwner pid => (s.fileCloseOwner pid,0)

def run (s : Table) (calls : List Call) : Table := calls.foldl (fun s c => (s.call c).1) s

/-- The call is an open that succeeds: it takes the slot. -/
def opens (s : Table) (c : Call) (i : Index) : Bool := !(s i).used && ((s.call c).1 i).used

end Table

/-- The call closes the handle of the process `pid`, by itself or with all its files. -/
def Call.ends (c : Call) (pid : ℤ) (handle : BitVec 32) : Prop :=
  c.op = .fileClose handle ∧ c.pid = pid ∨ c.op = .fileCloseOwner pid

/-- In the run of these calls every open gives its caller a new handle, which stands for its entry,
for the caller only, until it is closed, and no entry is in use without such a handle. -/
structure HandlesPrivate (calls : List Call) : Prop where
  opened : ∀ before c after i, calls = before++c :: after → (fileInit.run before).opens c i = true →
    let handle := ((fileInit.run before).call c).2
    0 ≤ handle.toInt ∧
    (∀ b d a j, before = b++d :: a → (fileInit.run b).opens d j = true →
      ((fileInit.run b).call d).2 ≠ handle) ∧
    ∀ mid rest, after = mid++rest →
      let s := fileInit.run (before++c :: mid)
      ((∀ d ∈ mid, ¬d.ends c.pid handle) →
        s.fileFind c.pid handle = some i ∧ ∀ pid ≠ c.pid, s.fileFind pid handle = none) ∧
      ((∃ d ∈ mid, d.ends c.pid handle) → ∀ pid, s.fileFind pid handle = none)
  returned : ∀ before rest i, calls = before++rest → (fileInit.run before i).used = true →
    ∃ b c a, before = b++c :: a ∧ (fileInit.run b).opens c i = true ∧
      c.pid = (fileInit.run before i).ownerPid ∧ 0 ≤ ((fileInit.run b).call c).2.toInt ∧
      (fileInit.run before).fileFind c.pid ((fileInit.run b).call c).2 = some i

/-! Handles as numbers. -/

theorem toInt_nonneg_iff (h : BitVec 32) : 0 ≤ h.toInt ↔ h.toNat < 2^31 := by
  rw [BitVec.toInt_eq_toNat_cond]
  split <;> omega

variable {s : Table} {c : Call} {i j : Index} {pid : ℤ} {h : BitVec 32}

theorem fileHandle_toNat (hlow : (s i).generation.toNat < 2^30) :
    (s.fileHandle i).toNat = 4*(s i).generation.toNat+i := by
  have hi : i.val < 2^2 := i.isLt
  have hshift : ((s i).generation <<< 2).toNat = (s i).generation.toNat <<< 2 := by
    rw [BitVec.toNat_shiftLeft,Nat.shiftLeft_eq]
    omega
  rw [Table.fileHandle,BitVec.toNat_or,hshift,BitVec.toNat_ofNat,Nat.mod_eq_of_lt (by omega),
    ← Nat.shiftLeft_add_eq_or_of_lt hi,Nat.shiftLeft_eq]
  omega

theorem fileFind_eq_some_iff : s.fileFind pid h = some i ↔
    h.toNat < 2^31 ∧ h.toNat % 4 = i ∧ (s i).used = true ∧ (s i).generation.toNat = h.toNat/4 ∧
      (s i).ownerPid = pid := by
  have hindex : Fin.ofNat 4 (h &&& 3#32).toNat = i ↔ h.toNat % 4 = i := by
    have hand : (h &&& 3#32).toNat = h.toNat % 4 := by
      rw [BitVec.toNat_and]
      exact Nat.and_two_pow_sub_one_eq_mod h.toNat 2
    rw [hand,Fin.ext_iff,Fin.val_ofNat,Nat.mod_mod]
  have hgen : ∀ g : BitVec 32, g = h >>> 2 ↔ g.toNat = h.toNat/4 := fun g => by
    rw [← BitVec.toNat_inj,BitVec.toNat_ushiftRight,Nat.shiftRight_eq_div_pow]
  have hneg : ¬h.toInt < 0 ↔ h.toNat < 2^31 := by rw [Int.not_lt,toInt_nonneg_iff]
  unfold Table.fileFind
  dsimp only
  rw [← hneg,← hindex]
  split
  next hn => simp [hn]
  next hn =>
  split
  next hno =>
    refine ⟨nofun,?_⟩
    rintro ⟨-,rfl,hu,hg,ho⟩
    rcases hno with hno | hno | hno
    · exact absurd hu hno
    · exact absurd ((hgen _).2 hg) hno
    · exact absurd ho hno
  next hyes =>
    simp only [not_or,not_not,hgen] at hyes
    simp only [Option.some.injEq]
    refine ⟨?_,fun hx => hx.2.1⟩
    rintro rfl
    exact ⟨hn,rfl,hyes.1,hyes.2.1,hyes.2.2⟩

/-- What a name of a low generation stands for. -/
theorem fileFind_name {g : ℕ} (hg : g < 2^29) (hh : h.toNat = 4*g+i) : s.fileFind pid h = some j ↔
    j = i ∧ (s i).used = true ∧ (s i).generation.toNat = g ∧ (s i).ownerPid = pid := by
  have hi := i.isLt
  rw [fileFind_eq_some_iff]
  constructor
  · rintro ⟨-,hj,hrest⟩
    have hij : j = i := Fin.ext (by omega)
    subst hij
    exact ⟨rfl,hrest.1,by omega,hrest.2.2⟩
  · rintro ⟨rfl,hu,hgen,ho⟩
    exact ⟨by omega,by omega,hu,by omega,ho⟩

/-! What a call does to one slot. -/

inductive SlotMove (s : Table) (c : Call) (i : Index) : Entry → Prop
  | stay : ((s i).used = true → (s i).generation.toNat < 2^29 →
      ¬c.ends (s i).ownerPid (s.fileHandle i)) → SlotMove s c i (s i)
  | opened (writable : Bool) : (s i).used = false → (s.call c).2 = s.fileHandle i →
      SlotMove s c i ⟨(s i).generation,true,writable,c.pid⟩
  | closed : (s i).used = true → ((s i).generation.toNat < 2^29 →
      c.ends (s i).ownerPid (s.fileHandle i)) → SlotMove s c i (s i).closed

theorem fileFind_fileHandle (hu : (s i).used = true) (hlow : (s i).generation.toNat < 2^29) :
    s.fileFind pid (s.fileHandle i) = some j ↔ j = i ∧ (s i).ownerPid = pid := by
  rw [fileFind_name hlow (fileHandle_toNat (by omega))]
  simp [hu]

theorem eq_fileHandle (hf : s.fileFind pid h = some i) (hlow : (s i).generation.toNat < 2^29) :
    h = s.fileHandle i := by
  obtain ⟨-,hi,-,hg,-⟩ := fileFind_eq_some_iff.1 hf
  have := fileHandle_toNat (s := s) (i := i) (by omega)
  exact BitVec.eq_of_toNat_eq (by omega)

/-- A call that closes nothing leaves what it does not open. -/
theorem SlotMove.same (he : ∀ pid h, ¬c.ends pid h) : SlotMove s c i (s i) :=
  .stay fun _ _ => he _ _

theorem SlotMove.fileOpen {name : Option (List Byte)} {writable : ℤ}
    (hc : c.op = .fileOpen name writable) : SlotMove s c i ((s.call c).1 i) := by
  have hends : ∀ pid h, ¬c.ends pid h := fun pid h => by simp [Call.ends,hc]
  have hcall : s.call c = s.fileOpen c.pid c.fs name writable := by rw [Table.call,hc]
  unfold Table.fileOpen at hcall
  split at hcall
  next => rw [hcall]; exact .same hends
  next =>
  split at hcall
  next => rw [hcall]; exact .same hends
  next j hfind =>
  dsimp only at hcall
  generalize (if c.fs.fOpen = .ok ∧ writable ≠ 0 then c.fs.fExpand else c.fs.fOpen) = result at hcall
  split at hcall
  next => rw [hcall]; exact .same hends
  next =>
    have hfree : (s j).used = false := by simpa using List.find?_some hfind
    by_cases hij : i = j
    · subst hij
      have hresult : (s.call c).2 = s.fileHandle i := by simp [hcall,Table.fileHandle]
      simpa [hcall] using SlotMove.opened (decide (writable ≠ 0)) hfree hresult
    · simpa [hcall,hij] using SlotMove.same hends

theorem SlotMove.fileClose (hc : c.op = .fileClose h) : SlotMove s c i ((s.call c).1 i) := by
  have hcall : s.call c = s.fileClose c.pid c.fs h := by rw [Table.call,hc]
  have hends : ∀ pid h', c.ends pid h' ↔ h = h' ∧ c.pid = pid := fun pid h' => by simp [Call.ends,hc]
  -- a handle that is not closed was not found in this slot
  have hstay : s.fileFind c.pid h ≠ some i → SlotMove s c i (s i) := fun hne => by
    refine .stay fun hu hlow he => hne ?_
    obtain ⟨rfl,hpid⟩ := (hends _ _).1 he
    exact (fileFind_fileHandle hu hlow).2 ⟨rfl,hpid.symm⟩
  rw [hcall,Table.fileClose]
  split
  next hf => exact hstay (by simp [hf])
  next j hf =>
    by_cases hij : i = j
    · subst hij
      obtain ⟨-,-,hu,-,ho⟩ := fileFind_eq_some_iff.1 hf
      simpa using SlotMove.closed hu fun hlow => (hends _ _).2 ⟨eq_fileHandle hf hlow,ho.symm⟩
    · simpa [hij] using hstay (by simpa [hf] using Ne.symm hij)

theorem SlotMove.fileCloseOwner (hc : c.op = .fileCloseOwner pid) :
    SlotMove s c i ((s.call c).1 i) := by
  have hcall : (s.call c).1 = s.fileCloseOwner pid := by rw [Table.call,hc]
  have hends : ∀ pid' h, c.ends pid' h ↔ pid = pid' := fun pid' h => by simp [Call.ends,hc]
  rw [hcall,Table.fileCloseOwner]
  split
  next hno =>
    refine .stay fun hu _ he => ?_
    rcases hno with hno | hno
    · exact hno hu
    · exact hno ((hends _ _).1 he).symm
  next hyes =>
    simp only [not_or,not_not] at hyes
    exact .closed hyes.1 fun _ => (hends _ _).2 hyes.2.symm

theorem call_slot (s : Table) (c : Call) (i : Index) : SlotMove s c i ((s.call c).1 i) := by
  cases hc : c.op with
  | fileOpen name writable => exact .fileOpen hc
  | fileClose h => exact .fileClose hc
  | fileCloseOwner pid => exact .fileCloseOwner hc
  | _ =>
    have : (s.call c).1 = s := by rw [Table.call,hc]
    rw [this]
    exact .same fun pid h => by simp [Call.ends,hc]

theorem opens_slot (ho : s.opens c i = true) : (s i).used = false ∧ (s.call c).2 = s.fileHandle i ∧
    ∃ writable, (s.call c).1 i = ⟨(s i).generation,true,writable,c.pid⟩ := by
  simp only [Table.opens,Bool.and_eq_true,Bool.not_eq_true'] at ho
  obtain ⟨hfree,hused⟩ := ho
  generalize he : (s.call c).1 i = e at hused
  have hmove := call_slot s c i
  rw [he] at hmove
  cases hmove with
  | stay _ => simp [hfree] at hused
  | opened writable _ hresult => exact ⟨hfree,hresult,writable,rfl⟩
  | closed _ _ => simp [Entry.closed] at hused

/-! Runs whose opens all find a generation of at most 29 bits. -/

/-- One slot as a cell of its own. -/
def Entry.cell (e : Entry) : Unit → Generations.Cell := fun _ => ⟨e.generation.toNat,e.used,false⟩

def Low (s : Table) : Prop :=
  ∀ i, (s i).generation.toNat ≤ 2^29 ∧ ((s i).used = true → (s i).generation.toNat < 2^29)

def Calm (s : Table) (calls : List Call) : Prop :=
  ∀ before c after i, calls = before++c :: after → (s.run before).opens c i = true →
    (s.run before i).generation.toNat < 2^29

theorem run_append (s : Table) (a b : List Call) : s.run (a++b) = (s.run a).run b := List.foldl_append ..

section Calm

variable {calls a b : List Call} {g : ℕ}

theorem Calm.head (hc : Calm s (c :: calls)) (ho : s.opens c i = true) :
    (s i).generation.toNat < 2^29 := hc [] c calls i rfl ho

theorem Calm.tail (hc : Calm s (c :: calls)) : Calm (s.call c).1 calls := fun b d a i he =>
  hc (c :: b) d a i (by simp [he])

theorem Calm.left (hc : Calm s (a++b)) : Calm s a := fun b' d a' i he =>
  hc b' d (a'++b) i (by simp [he])

theorem Calm.right (hc : Calm s (a++b)) : Calm (s.run a) b := fun b' d a' i he => by
  rw [← run_append]
  exact hc (a++b') d a' i (by simp [he])

theorem closed_generation {e : Entry} (he : e.generation.toNat < 2^29) :
    e.closed.generation.toNat = e.generation.toNat+1 := by
  have hsucc : (e.generation+1).toNat = e.generation.toNat+1 := by
    rw [BitVec.toNat_add]
    exact Nat.mod_eq_of_lt (by simp; omega)
  have hne : e.generation+1 ≠ 0 := fun h0 => by
    rw [h0] at hsucc
    simp at hsucc
  rw [Entry.closed,if_neg hne,hsucc]

theorem Low.call (hl : Low s) (hc : ∀ i, s.opens c i = true → (s i).generation.toNat < 2^29) :
    Low (s.call c).1 := by
  intro i
  have hi := hl i
  have hopen := hc i
  simp only [Table.opens] at hopen
  generalize he : (s.call c).1 i = e at hopen ⊢
  have hmove := call_slot s c i
  rw [he] at hmove
  cases hmove with
  | stay _ => exact hi
  | opened writable hfree _ => exact ⟨hi.1,fun _ => hopen (by simp [hfree])⟩
  | closed hu _ =>
    rw [closed_generation (hi.2 hu)]
    have := hi.2 hu
    exact ⟨by omega,by simp [Entry.closed]⟩

/-- A call is one event of the slot, and it frees the slot just when it ends its handle. -/
theorem cell_step (hl : Low s) (c : Call) (i : Index) : ∃ e : Generations.Event Unit,
    Generations.Step (2^29) (s i).cell e ((s.call c).1 i).cell ∧
    ((s i).used = true → (e = .free () ↔ c.ends (s i).ownerPid (s.fileHandle i))) ∧
    ((s i).used = true → e ≠ .free () → (s.call c).1 i = s i) := by
  have hi := hl i
  have hmove := call_slot s c i
  generalize (s.call c).1 i = e at hmove
  cases hmove with
  | stay hkeep => exact ⟨.idle,.idle,fun hu => by simp [hkeep hu (hi.2 hu)],fun _ _ => rfl⟩
  | opened writable hfree _ =>
    refine ⟨.take (),?_,by simp [hfree],by simp [hfree]⟩
    have htake : Generations.Step (2^29) (s i).cell (.take ()) _ := .take () hfree rfl
    convert htake using 1
    funext x
    simp [Entry.cell]
  | closed hu hends =>
    refine ⟨.free (),?_,fun _ => by simp [hends (hi.2 hu)],by simp⟩
    have hfree : Generations.Step (2^29) (s i).cell (.free ()) _ := .free () hu
    convert hfree using 1
    funext x
    have hlt := hi.2 hu
    have hne : ((s i).cell ()).generation ≠ 2^29 := hlt.ne
    simp only [Function.update_self,Generations.Cell.release,hne,if_false]
    rw [Entry.cell,closed_generation hlt]
    rfl

theorem Low.run (hl : Low s) (hc : Calm s calls) : Low (s.run calls) := by
  induction calls generalizing s with
  | nil => exact hl
  | cons c calls ih => exact ih (hl.call fun i => hc.head) hc.tail

theorem run_spent (hl : Low s) (hc : Calm s calls) (hs : Generations.Spent (s i).cell () g) :
    Generations.Spent (s.run calls i).cell () g := by
  induction calls generalizing s with
  | nil => exact hs
  | cons c calls ih =>
    obtain ⟨e,hstep,-⟩ := cell_step hl c i
    exact ih (hl.call fun i => hc.head) hc.tail (hstep.spent hs)

theorem run_known (hl : Low s) (hc : Calm s calls) (hk : Generations.Known (s i).cell () g) :
    Generations.Known (s.run calls i).cell () g := by
  induction calls generalizing s with
  | nil => exact hk
  | cons c calls ih =>
    obtain ⟨e,hstep,-⟩ := cell_step hl c i
    exact ih (hl.call fun i => hc.head) hc.tail (hstep.known hk)

/-- The process has the slot open. -/
structure Holds (s : Table) (i : Index) (g : ℕ) (pid : ℤ) : Prop where
  used : (s i).used = true
  generation : (s i).generation.toNat = g
  owner : (s i).ownerPid = pid

/-- The holder of a handle keeps it until a call ends it, and then the handle is spent. -/
theorem Holds.run (hh : Holds s i g pid) (hl : Low s) (hc : Calm s calls) (hn : h.toNat = 4*g+i) :
    ((∀ d ∈ calls, ¬d.ends pid h) → Holds (s.run calls) i g pid) ∧
    ((∃ d ∈ calls, d.ends pid h) → Generations.Spent (s.run calls i).cell () g) := by
  induction calls generalizing s with
  | nil => exact ⟨fun _ => hh,by simp⟩
  | cons c calls ih =>
    have hl' : Low (s.call c).1 := hl.call fun i => hc.head
    obtain ⟨e,hstep,hends,hkeep⟩ := cell_step hl c i
    have hgen := hh.generation
    have hlow := (hl i).2 hh.used
    have hhandle : s.fileHandle i = h :=
      BitVec.eq_of_toNat_eq (by rw [fileHandle_toNat (by omega),hn,hgen])
    have hends := hends hh.used
    rw [hh.owner,hhandle] at hends
    by_cases hfree : e = .free ()
    · subst hfree
      have hspent := run_spent hl' hc.tail (hstep.freed ⟨hh.used,hgen⟩)
      exact ⟨fun hno => absurd (hends.1 rfl) (hno c (by simp)),fun _ => hspent⟩
    · have hsame := hkeep hh.used hfree
      have hrest := ih ⟨hsame ▸ hh.used,hsame ▸ hgen,hsame ▸ hh.owner⟩ hl' hc.tail
      refine ⟨fun hno => hrest.1 fun d hd => hno d (by simp [hd]),?_⟩
      rintro ⟨d,hd,hde⟩
      rcases List.mem_cons.1 hd with rfl | hd
      · exact absurd (hends.2 hde) hfree
      · exact hrest.2 ⟨d,hd,hde⟩

theorem Holds.fileFind (hh : Holds s i g pid) (hg : g < 2^29) (hn : h.toNat = 4*g+i) :
    s.fileFind pid h = some i ∧ ∀ p ≠ pid, s.fileFind p h = none := by
  refine ⟨(fileFind_name hg hn).2 ⟨rfl,hh.used,hh.generation,hh.owner⟩,fun p hp => ?_⟩
  refine Option.eq_none_iff_forall_ne_some.2 fun j hj => ?_
  exact hp (((fileFind_name hg hn).1 hj).2.2.2.symm.trans hh.owner)

theorem fileFind_spent (hs : Generations.Spent (s i).cell () g) (hg : g < 2^29)
    (hn : h.toNat = 4*g+i) : s.fileFind pid h = none := by
  refine Option.eq_none_iff_forall_ne_some.2 fun j hj => ?_
  obtain ⟨-,hu,hgen,-⟩ := (fileFind_name hg hn).1 hj
  exact hs.not_resolves ⟨hu,hgen⟩

end Calm

theorem init_low : Low fileInit := fun i => by simp [fileInit]

/-- Every entry in use was opened by its owner, who got the entry's handle. -/
theorem used_returned (calls : List Call) (hu : (fileInit.run calls i).used = true) :
    ∃ b d a, calls = b++d :: a ∧ (fileInit.run b).opens d i = true ∧
      d.pid = (fileInit.run calls i).ownerPid ∧
      ((fileInit.run b).call d).2 = (fileInit.run calls).fileHandle i := by
  induction calls using List.reverseRecOn with
  | nil => simp [Table.run,fileInit] at hu
  | append_singleton calls c ih =>
    have hrun : fileInit.run (calls++[c]) = ((fileInit.run calls).call c).1 := run_append ..
    rw [hrun] at hu ⊢
    by_cases ho : (fileInit.run calls).opens c i = true
    · obtain ⟨-,hresult,writable,he⟩ := opens_slot ho
      refine ⟨calls,c,[],rfl,ho,by rw [he],?_⟩
      rw [hresult,Table.fileHandle,Table.fileHandle,he]
    · have hused : (fileInit.run calls i).used = true := by
        simpa [Table.opens,hu] using ho
      have hmove := call_slot (fileInit.run calls) c i
      have hsame : ((fileInit.run calls).call c).1 i = fileInit.run calls i := by
        generalize ((fileInit.run calls).call c).1 i = e at hmove hu
        cases hmove with
        | stay _ => rfl
        | opened _ hfree _ => simp [hused] at hfree
        | closed _ _ => simp [Entry.closed] at hu
      obtain ⟨b,d,a,hsplit,hopen,hpid,hresult⟩ := ih hused
      refine ⟨b,d,a++[c],by simp [hsplit],hopen,by rw [hpid,hsame],?_⟩
      rw [hresult,Table.fileHandle,Table.fileHandle,hsame]

/-- An open at a low generation is the only one with its handle. -/
theorem opens_new {before b a : List Call} {d : Call} (hc : Calm fileInit (before++[c]))
    (ho : (fileInit.run before).opens c i = true) (hb : before = b++d :: a)
    (hd : (fileInit.run b).opens d j = true) :
    ((fileInit.run b).call d).2 ≠ ((fileInit.run before).call c).2 := by
  have hcb : Calm fileInit (b++d :: a) := hb ▸ hc.left
  have hl : Low (fileInit.run b) := init_low.run hcb.left
  have hgen : (fileInit.run before i).generation.toNat < 2^29 := hc before c [] i rfl ho
  have hgen' : (fileInit.run b j).generation.toNat < 2^29 := hcb b d a j rfl hd
  obtain ⟨hfree,hresult,-⟩ := opens_slot ho
  obtain ⟨-,hresult',writable,he⟩ := opens_slot hd
  rw [hresult,hresult']
  intro heq
  have htoNat := congrArg BitVec.toNat heq
  rw [fileHandle_toNat (by omega),fileHandle_toNat (by omega)] at htoNat
  have hji : j = i := Fin.ext (by omega)
  subst hji
  have hsame : (fileInit.run b j).generation.toNat = (fileInit.run before j).generation.toNat := by
    omega
  -- the earlier open made the name known, and a free slot has an unknown one
  have hknown : Generations.Known (((fileInit.run b).call d).1 j).cell ()
      (fileInit.run b j).generation.toNat := .inl ⟨by simp [he,Entry.cell],by simp [he,Entry.cell]⟩
  have hlater := run_known (hl.call fun k => hcb.right.head) hcb.right.tail hknown
  have hrun : fileInit.run before = ((fileInit.run b).call d).1.run a := by rw [hb,run_append]; rfl
  rw [← hrun,hsame] at hlater
  exact Generations.not_known_of_free (x := (fileInit.run before j).cell) hfree rfl hlater

/-- Handles are private exactly in the runs whose opens all find a generation of at most 29 bits:
from the next one on a handle is negative or has lost bits of the generation. -/
theorem handles_private_iff (calls : List Call) : HandlesPrivate calls ↔
    ∀ before c after i, calls = before++c :: after → (fileInit.run before).opens c i = true →
      (fileInit.run before i).generation.toNat < 2^29 := by
  constructor
  · intro hp before c after i hsplit ho
    obtain ⟨-,-,hresolves⟩ := hp.opened before c after i hsplit ho
    obtain ⟨-,-,writable,he⟩ := opens_slot ho
    have hfind := ((hresolves [] after rfl).1 (by simp)).1
    obtain ⟨hpos,-,-,hgen,-⟩ := fileFind_eq_some_iff.1 hfind
    have hrun : fileInit.run (before++[c]) = ((fileInit.run before).call c).1 := run_append ..
    rw [hrun,he] at hgen
    simp only at hgen
    omega
  · intro hc
    change Calm fileInit calls at hc
    refine ⟨fun before c after i hsplit ho => ?_,fun before rest i hsplit hu => ?_⟩
    · have hgen := hc before c after i hsplit ho
      obtain ⟨hfree,hresult,writable,he⟩ := opens_slot ho
      have hn := fileHandle_toNat (s := fileInit.run before) (i := i) (by omega)
      rw [← hresult] at hn
      have hi := i.isLt
      have hcb : Calm fileInit (before++c :: after) := hsplit ▸ hc
      refine ⟨(toInt_nonneg_iff _).2 (by omega),fun b d a j hb hd => ?_,fun mid rest hmid => ?_⟩
      · have hone : before++c :: after = (before++[c])++after := by simp
        exact opens_new (hone ▸ hcb).left ho hb hd
      · subst hmid
        have hcm : Calm ((fileInit.run before).call c).1 mid := hcb.right.tail.left
        have hl : Low ((fileInit.run before).call c).1 :=
          (init_low.run hcb.left).call fun k => hcb.right.head
        have hheld : Holds ((fileInit.run before).call c).1 i _ c.pid :=
          ⟨by simp [he],by rw [he],by rw [he]⟩
        have hrun : fileInit.run (before++c :: mid) = ((fileInit.run before).call c).1.run mid := by
          rw [run_append]
          rfl
        rw [hrun]
        obtain ⟨hkept,hended⟩ := hheld.run hl hcm hn
        exact ⟨fun hno => (hkept hno).fileFind hgen hn,fun hsome p => fileFind_spent (hended hsome) hgen hn⟩
    · have hl : Low (fileInit.run before) := init_low.run (hsplit ▸ hc : Calm _ (before++rest)).left
      obtain ⟨b,d,a,hb,ho,hpid,hresult⟩ := used_returned before hu
      have hgen := (hl i).2 hu
      have hi := i.isLt
      refine ⟨b,d,a,hb,ho,hpid,?_,?_⟩
      · rw [hresult,toInt_nonneg_iff,fileHandle_toNat (by omega)]
        omega
      · rw [hresult,fileFind_fileHandle hu hgen]
        exact ⟨rfl,hpid.symm⟩

/-! A run that opens one slot 2^29 times. -/

def FatFs.quiet : FatFs := ⟨.ok,.ok,.ok,.ok,.ok,.ok,0,[]⟩

/-- The process 1 opens the file `a` for reading. -/
def openA : Call := ⟨1,.quiet,.fileOpen (some [0x61]) 0⟩

/-- The process opens the file and exits, `n` times. -/
def visits : ℕ → List Call
  | 0 => []
  | n+1 => visits n++[openA,⟨1,.quiet,.fileCloseOwner 1⟩]

/-- The table in which only the first slot has been used. -/
def aged (g : BitVec 32) : Table := Function.update fileInit 0 ⟨g,false,false,-1⟩

theorem aged_open (g : BitVec 32) :
    (aged g).call openA = (Function.update fileInit 0 ⟨g,true,false,1⟩,g <<< 2) := by
  have hpath : filePath 64 (some [97#8]) ≠ none := by decide
  have hfind : (List.finRange 4).find? (fun i => !(aged g i).used) = some 0 := rfl
  simp [Table.call,openA,Table.fileOpen,hpath,hfind,FatFs.quiet]
  simp [aged,Table.fileHandle]

theorem run_visits (n : ℕ) (hn : n < 2^32-1) :
    fileInit.run (visits n) = aged (.ofNat 32 (n+1)) := by
  induction n with
  | zero =>
    funext i
    by_cases hi : i = 0 <;> simp [visits,Table.run,aged,fileInit,hi]
  | succ n ih =>
    have hsucc : BitVec.ofNat 32 (n+1)+1#32 = .ofNat 32 (n+1+1) := by
      rw [BitVec.ofNat_add (n+1) 1]
    have hne : BitVec.ofNat 32 (n+1+1) ≠ 0 := fun h0 => by
      have := congrArg BitVec.toNat h0
      rw [BitVec.toNat_ofNat,Nat.mod_eq_of_lt (by omega)] at this
      simp at this
    rw [visits,run_append,ih (by omega)]
    change ((((aged (.ofNat 32 (n+1))).call openA).1).call ⟨1,.quiet,.fileCloseOwner 1⟩).1 = _
    rw [aged_open]
    funext i
    by_cases hi : i = 0
    · subst hi
      simp [Table.call,Table.fileCloseOwner,aged,Entry.closed,hsucc]
      exact fun h0 => absurd h0 hne
    · simp [Table.call,Table.fileCloseOwner,aged,hi,fileInit]

/-- The open after 2^29-1 of these returns a negative number, though the slot is taken. -/
theorem handle_turns_negative : ¬HandlesPrivate (visits (2^29-1)++[openA]) := by
  intro hp
  have hrun := run_visits (2^29-1) (by omega)
  have ho : (fileInit.run (visits (2^29-1))).opens openA 0 = true := by
    rw [hrun,Table.opens,aged_open]
    rfl
  have hpos := (hp.opened (visits (2^29-1)) openA [] 0 rfl ho).1
  rw [hrun,aged_open] at hpos
  revert hpos
  decide

end Files
end QuardStarNet
