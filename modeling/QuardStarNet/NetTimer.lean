import QuardStarNet.DeltaList
import QuardStarNet.NetBase
import Mathlib.Data.Prod.Lex
import Mathlib.Order.WellFounded
import Mathlib.Data.Nat.Find

/-! The timers of `timer.c`. A step is one call of its functions by the code around it, which
also runs in the callbacks, or one turn of the loops of `net_timer_check_tmo`. -/
namespace QuardStarNet
namespace NetTimer

/-- `NET_TIMER_RELOAD`. -/
def netTimerReload : UInt32 := 1

/-- What `net_timer_add` keeps in a `net_timer_t`; `curr` stands with the timer in the list. -/
structure Timer (P A : Type) where
  flags : UInt32
  reload : ℕ
  proc : P
  arg : A

/-- A callback that was entered, with the virtual time. -/
structure Call (T P A : Type) where
  timer : T
  proc : P
  arg : A
  time : ℕ

/-- A call of `net_timer_check_tmo` that has not returned: what is left of its `diff_ms`, its
`wait_list`, and the timer whose callback runs. -/
structure Frame (T : Type) where
  diffMs : ℕ
  waitList : List T
  running : Option T

/-- `pending` are the calls of `net_timer_check_tmo`, the innermost first. `now` is the virtual
time and `log` the callbacks entered so far. -/
structure Timers (T P A : Type) where
  timers : T → Timer P A
  timerList : List (Delta T)
  pending : List (Frame T)
  now : ℕ
  log : List (Call T P A)

/-- `clearReload` is a callback that clears the flag in its timer, `turn` the next turn of the
innermost `net_timer_check_tmo`. -/
inductive Event (T P A : Type)
  | add (t : T) (proc : P) (arg : A) (ms : ℤ) (flags : UInt32)
  | remove (t : T)
  | clearReload (t : T)
  | check (diffMs : ℤ)
  | turn

variable {T P A : Type}

def Timer.reloads (x : Timer P A) : Bool := x.flags &&& netTimerReload ≠ 0

/-- `insert_timer`. -/
def insertTimer (t : T) (curr : ℕ) (l : List (Delta T)) : List (Delta T) :=
  DeltaList.insert t curr l

namespace Timers

/-- `net_timer_init`; the contents of timers not yet added do not matter. -/
def init (timers : T → Timer P A) : Timers T P A where
  timers := timers
  timerList := []
  pending := []
  now := 0
  log := []

/-- The timers in the wait lists of all pending calls. -/
def waiting (s : Timers T P A) : List T := s.pending.flatMap Frame.waitList

/-- The code around the timers runs: no call is pending, or a callback of the innermost one
is running. -/
def atUser (s : Timers T P A) : Bool :=
  match s.pending with
  | [] => true
  | f :: _ => f.running.isSome

def netTimerFirstTmo (s : Timers T P A) : ℕ :=
  match s.timerList with
  | [] => 0
  | n :: _ => n.gap

/-- `net_timer_check_tmo` up to its loop. -/
def netTimerCheckTmo (s : Timers T P A) (diffMs : ℤ) : Timers T P A × NetErr :=
  if diffMs < 0 then (s,.param)
  else ({ s with pending := ⟨diffMs.toNat,[],none⟩ :: s.pending },.ok)

/-- The outer loop of `net_timer_check_tmo`: return, or move the timers that expire next to
the wait list. -/
def expire (s : Timers T P A) (f : Frame T) (fs : List (Frame T)) : Timers T P A :=
  match s.timerList with
  | [] => { s with pending := fs, now := s.now+f.diffMs }
  | n :: l =>
    if f.diffMs = 0 ∧ n.gap ≠ 0 then { s with pending := fs }
    else if f.diffMs < n.gap then
      { s with timerList := { n with gap := n.gap-f.diffMs } :: l, pending := fs,
               now := s.now+f.diffMs }
    else
      let l' := { n with gap := 0 } :: l
      { s with timerList := DeltaList.ahead l',
               pending := { f with diffMs := f.diffMs-n.gap,
                                   waitList := DeltaList.items (DeltaList.reached l') } :: fs,
               now := s.now+n.gap }

/-- The callback of the first timer of the wait list is entered. -/
def enter (s : Timers T P A) (f : Frame T) (fs : List (Frame T)) (t : T) (wait : List T) :
    Timers T P A :=
  { s with pending := { f with waitList := wait, running := some t } :: fs,
           log := s.log++[⟨t,(s.timers t).proc,(s.timers t).arg,s.now⟩] }

variable [DecidableEq T]

/-- `timer_is_scheduled`. -/
def timerIsScheduled (s : Timers T P A) (t : T) : Bool :=
  t ∈ DeltaList.items s.timerList ∨ t ∈ s.waiting

/-- `net_timer_add` of a timer with a name and a callback. -/
def netTimerAdd (s : Timers T P A) (t : T) (proc : P) (arg : A) (ms : ℤ) (flags : UInt32) :
    Timers T P A × NetErr :=
  if ms ≤ 0 then (s,.param)
  else if s.timerIsScheduled t then (s,.exist)
  else ({ s with timers := Function.update s.timers t ⟨flags,ms.toNat,proc,arg⟩,
                 timerList := insertTimer t ms.toNat s.timerList },.ok)

/-- `net_timer_remove`. -/
def netTimerRemove (s : Timers T P A) (t : T) : Timers T P A :=
  { s with timerList := DeltaList.erase t s.timerList }

def clearReload (s : Timers T P A) (t : T) : Timers T P A :=
  let x := s.timers t
  { s with timers := Function.update s.timers t { x with flags := x.flags &&& ~~~netTimerReload } }

/-- The callback of `t` returns and a reload timer is inserted again. -/
def leave (s : Timers T P A) (f : Frame T) (fs : List (Frame T)) (t : T) : Timers T P A :=
  let s' := { s with pending := { f with running := none } :: fs }
  if (s.timers t).reloads ∧ ¬ s'.timerIsScheduled t then
    { s' with timerList := insertTimer t (s.timers t).reload s.timerList }
  else s'

/-- The next turn of the innermost pending call. -/
def turn (s : Timers T P A) : Timers T P A :=
  match s.pending with
  | [] => s
  | f :: fs =>
    match f.running, f.waitList with
    | some t, _ => s.leave f fs t
    | none, t :: wait => s.enter f fs t wait
    | none, [] => s.expire f fs

def step (s : Timers T P A) : Event T P A → Timers T P A
  | .add t proc arg ms flags => if s.atUser then (s.netTimerAdd t proc arg ms flags).1 else s
  | .remove t => if s.atUser then s.netTimerRemove t else s
  | .clearReload t => if s.atUser then s.clearReload t else s
  | .check diffMs => if s.atUser then (s.netTimerCheckTmo diffMs).1 else s
  | .turn => s.turn

def run (s : Timers T P A) (es : List (Event T P A)) : Timers T P A := es.foldl step s

/-! What one step can do. -/

inductive Turns (s : Timers T P A) : Timers T P A → Prop
  | idle (hp : s.pending = []) : Turns s s
  | reload (f : Frame T) (fs : List (Frame T)) (t : T) (hp : s.pending = f :: fs)
      (hf : f.running = some t) (hr : (s.timers t).reloads = true)
      (ht : s.timerIsScheduled t = false) :
      Turns s { s with pending := { f with running := none } :: fs,
                       timerList := insertTimer t (s.timers t).reload s.timerList }
  | leave (f : Frame T) (fs : List (Frame T)) (t : T) (hp : s.pending = f :: fs)
      (hf : f.running = some t)
      (ht : (s.timers t).reloads = false ∨ s.timerIsScheduled t = true) :
      Turns s { s with pending := { f with running := none } :: fs }
  | enter (f : Frame T) (fs : List (Frame T)) (t : T) (wait : List T) (hp : s.pending = f :: fs)
      (hf : f.running = none) (hw : f.waitList = t :: wait) : Turns s (s.enter f fs t wait)
  | empty (f : Frame T) (fs : List (Frame T)) (hp : s.pending = f :: fs) (hf : f.running = none)
      (hw : f.waitList = []) (hl : s.timerList = []) :
      Turns s { s with pending := fs, now := s.now+f.diffMs }
  | finish (f : Frame T) (fs : List (Frame T)) (n : Delta T) (l : List (Delta T))
      (hp : s.pending = f :: fs) (hf : f.running = none) (hw : f.waitList = [])
      (hl : s.timerList = n :: l) (hd : f.diffMs < n.gap) :
      Turns s { s with timerList := DeltaList.advance f.diffMs (n :: l), pending := fs,
                       now := s.now+f.diffMs }
  | collect (f : Frame T) (fs : List (Frame T)) (n : Delta T) (l : List (Delta T))
      (hp : s.pending = f :: fs) (hf : f.running = none) (hw : f.waitList = [])
      (hl : s.timerList = n :: l) (hd : n.gap ≤ f.diffMs) :
      Turns s { s with
        timerList := DeltaList.ahead (DeltaList.advance n.gap (n :: l)),
        pending := ⟨f.diffMs-n.gap,DeltaList.items (DeltaList.reached
          (DeltaList.advance n.gap (n :: l))),none⟩ :: fs,
        now := s.now+n.gap }

inductive Acts (s : Timers T P A) : Timers T P A → Prop
  | stay : Acts s s
  | add (t : T) (x : Timer P A) (hr : 0 < x.reload) (ht : s.timerIsScheduled t = false) :
      Acts s { s with timers := Function.update s.timers t x,
                      timerList := insertTimer t x.reload s.timerList }
  | remove (t : T) : Acts s (s.netTimerRemove t)
  | clear (t : T) : Acts s (s.clearReload t)
  | check (diffMs : ℕ) (hu : s.atUser = true) :
      Acts s { s with pending := ⟨diffMs,[],none⟩ :: s.pending }
  | turn (s' : Timers T P A) (h : Turns s s') : Acts s s'

variable {s : Timers T P A}

theorem timerIsScheduled_false {t : T} : s.timerIsScheduled t = false ↔
    t ∉ DeltaList.items s.timerList ∧ t ∉ s.waiting := by
  simp [timerIsScheduled]

theorem leave_eq {f : Frame T} {fs : List (Frame T)} (hp : s.pending = f :: fs) (t : T) :
    s.leave f fs t = if (s.timers t).reloads = true ∧ ¬ s.timerIsScheduled t = true then
      { s with pending := { f with running := none } :: fs,
               timerList := insertTimer t (s.timers t).reload s.timerList }
    else { s with pending := { f with running := none } :: fs } := by
  have hsch : ({ s with pending := { f with running := none } :: fs } :
      Timers T P A).timerIsScheduled t = s.timerIsScheduled t := by
    simp [timerIsScheduled,waiting,hp]
  unfold leave
  dsimp only
  rw [hsch]

theorem leave_turns {f : Frame T} {fs : List (Frame T)} {t : T} (hp : s.pending = f :: fs)
    (hf : f.running = some t) : Turns s (s.leave f fs t) := by
  rw [leave_eq hp]
  split
  next h => exact .reload f fs t hp hf h.1 (by simpa using h.2)
  next h =>
    refine .leave f fs t hp hf ?_
    rw [not_and_or,not_not] at h
    exact h.imp (by simp) id

omit [DecidableEq T] in
theorem expire_empty {f : Frame T} {fs : List (Frame T)} (hl : s.timerList = []) :
    s.expire f fs = { s with pending := fs, now := s.now+f.diffMs } := by
  unfold expire
  rw [hl]

omit [DecidableEq T] in
theorem expire_finish {f : Frame T} {fs : List (Frame T)} {n : Delta T} {l : List (Delta T)}
    (hl : s.timerList = n :: l) (hd : f.diffMs < n.gap) :
    s.expire f fs = { s with timerList := DeltaList.advance f.diffMs (n :: l), pending := fs,
                             now := s.now+f.diffMs } := by
  unfold expire
  rw [hl]
  dsimp only
  by_cases h : f.diffMs = 0 ∧ n.gap ≠ 0
  · simp [h.1,Nat.ne_of_gt (h.1 ▸ hd),DeltaList.advance,← hl]
  · rw [if_neg h,if_pos hd]
    rfl

omit [DecidableEq T] in
theorem expire_collect {f : Frame T} {fs : List (Frame T)} {n : Delta T} {l : List (Delta T)}
    (hl : s.timerList = n :: l) (hd : n.gap ≤ f.diffMs) :
    s.expire f fs = { s with
      timerList := DeltaList.ahead (DeltaList.advance n.gap (n :: l)),
      pending := ⟨f.diffMs-n.gap,DeltaList.items (DeltaList.reached
        (DeltaList.advance n.gap (n :: l))),f.running⟩ :: fs,
      now := s.now+n.gap } := by
  unfold expire
  rw [hl]
  dsimp only
  rw [if_neg (by omega),if_neg (by omega)]
  simp [DeltaList.advance]

theorem expire_turns {f : Frame T} {fs : List (Frame T)} (hp : s.pending = f :: fs)
    (hf : f.running = none) (hw : f.waitList = []) : Turns s (s.expire f fs) := by
  cases hl : s.timerList with
  | nil => exact expire_empty hl ▸ .empty f fs hp hf hw hl
  | cons n l =>
    by_cases hd : f.diffMs < n.gap
    · exact expire_finish hl hd ▸ .finish f fs n l hp hf hw hl hd
    · have hd := Nat.not_lt.1 hd
      rw [expire_collect hl hd,hf]
      exact .collect f fs n l hp hf hw hl hd

theorem turn_turns (s : Timers T P A) : Turns s s.turn := by
  unfold turn
  split
  next hp => exact .idle hp
  next f fs hp =>
    split
    next hf => exact leave_turns hp hf
    next hf hw => exact .enter f fs _ _ hp hf hw
    next hf hw => exact expire_turns hp hf hw

theorem netTimerAdd_acts (s : Timers T P A) (t : T) (proc : P) (arg : A) (ms : ℤ)
    (flags : UInt32) : Acts s (s.netTimerAdd t proc arg ms flags).1 := by
  unfold netTimerAdd
  split
  next => exact .stay
  next hms =>
    split
    next => exact .stay
    next ht => exact .add t ⟨flags,ms.toNat,proc,arg⟩ (by simp; omega) (by simpa using ht)

theorem step_acts (s : Timers T P A) (e : Event T P A) : Acts s (s.step e) := by
  unfold step
  split
  next => split; exact netTimerAdd_acts s _ _ _ _ _; exact .stay
  next t => split; exact .remove t; exact .stay
  next t => split; exact .clear t; exact .stay
  next diffMs =>
    split
    next hu =>
      unfold netTimerCheckTmo
      split
      · exact .stay
      · exact .check _ hu
    next => exact .stay
  next => exact .turn _ (turn_turns s)

/-- The timer is scheduled, or its callback runs. -/
def Held (s : Timers T P A) (t : T) : Prop :=
  t ∈ DeltaList.items s.timerList ∨ t ∈ s.waiting ∨ ∃ f ∈ s.pending, f.running = some t

/-- No timer is scheduled twice, the first timer of the list has time left, and timers that
may fire again have a positive period. -/
structure Inv (s : Timers T P A) : Prop where
  nodup : (DeltaList.items s.timerList++s.waiting).Nodup
  leads : DeltaList.Leads s.timerList
  period : ∀ t, s.Held t → 0 < (s.timers t).reload

omit [DecidableEq T] in
theorem init_inv (timers : T → Timer P A) : (init timers).Inv where
  nodup := by simp [init,waiting]
  leads := by simp [init,DeltaList.Leads]
  period := by simp [init,Held,waiting]

omit [DecidableEq T] in
theorem Inv.list_nodup (h : s.Inv) : (DeltaList.items s.timerList).Nodup :=
  (List.nodup_append.1 h.nodup).1

omit [DecidableEq T] in
/-- A timer that is not scheduled is inserted. -/
theorem nodup_insert {t : T} {c : ℕ} {l : List (Delta T)} {w : List T}
    (h : (DeltaList.items l++w).Nodup) (ht : t ∉ DeltaList.items l) (hw : t ∉ w) :
    (DeltaList.items (insertTimer t c l)++w).Nodup := by
  obtain ⟨h₁,h₂,h₃⟩ := List.nodup_append.1 h
  refine List.nodup_append.2 ⟨DeltaList.items_insert_nodup h₁ ht,h₂,fun a ha b hb => ?_⟩
  rcases DeltaList.mem_items_insert.1 ha with rfl | ha
  · rintro rfl
    exact hw hb
  · exact h₃ a ha b hb

omit [DecidableEq T] in
/-- The timers that expire next, in front of the wait lists of the calls around. -/
theorem items_collect {n : Delta T} {l : List (Delta T)} :
    DeltaList.items (DeltaList.reached (DeltaList.advance n.gap (n :: l)))++
      DeltaList.items (DeltaList.ahead (DeltaList.advance n.gap (n :: l))) =
        DeltaList.items (n :: l) := by
  rw [DeltaList.items_reached_append_ahead,DeltaList.items_advance]

theorem Turns.inv {s' : Timers T P A} (ht : Turns s s') (h : s.Inv) : s'.Inv := by
  obtain ⟨hn,hl,hp⟩ := h
  cases ht with
  | idle => exact ⟨hn,hl,hp⟩
  | reload f fs t hpe hf hr ht =>
    rw [timerIsScheduled_false] at ht
    have ht' : 0 < (s.timers t).reload := hp t (.inr (.inr ⟨f,by simp [hpe],hf⟩))
    refine ⟨?_,DeltaList.insert_leads ht' hl,fun u hu => ?_⟩
    · simpa [waiting,hpe] using nodup_insert hn ht.1 ht.2
    · by_cases he : u = t
      · simpa [he] using ht'
      · refine hp u ?_
        simp only [Held,insertTimer,DeltaList.mem_items_insert,he,false_or,waiting,hpe,
          List.flatMap_cons] at hu ⊢
        grind
  | leave f fs t hpe hf ht =>
    refine ⟨by simpa [waiting,hpe] using hn,hl,fun u hu => hp u ?_⟩
    simp only [Held,waiting,hpe,List.flatMap_cons] at hu ⊢
    grind
  | enter f fs t wait hpe hf hw =>
    simp only [waiting,hpe,List.flatMap_cons,hw] at hn
    refine ⟨?_,hl,fun u hu => hp u ?_⟩
    · refine hn.sublist (List.Sublist.append_left ?_ _)
      simp [Timers.enter,waiting]
    · simp only [Held,Timers.enter,waiting,hpe,List.flatMap_cons] at hu ⊢
      grind
  | empty f fs hpe hf hw hli =>
    refine ⟨by simpa [waiting,hpe,hw] using hn,hl,fun u hu => hp u ?_⟩
    simp only [Held,waiting,hpe,List.flatMap_cons] at hu ⊢
    grind
  | finish f fs n l hpe hf hw hli hd =>
    refine ⟨?_,?_,fun u hu => hp u ?_⟩
    · simpa [waiting,hpe,hw,hli] using hn
    · intro m hm
      cases hm
      change 0 < n.gap-f.diffMs
      omega
    · simp only [Held,waiting,hpe,hli,List.flatMap_cons,DeltaList.items_advance] at hu ⊢
      grind
  | collect f fs n l hpe hf hw hli hd =>
    refine ⟨?_,DeltaList.ahead_leads _,fun u hu => hp u ?_⟩
    · simp only [waiting,hpe,hw,hli,List.flatMap_cons,List.nil_append] at hn ⊢
      refine (List.Perm.nodup_iff ?_).2 hn
      rw [← items_collect,← List.append_assoc]
      exact List.perm_append_comm.append_right _
    · have hm : u ∈ DeltaList.items s.timerList ↔
          u ∈ DeltaList.items (DeltaList.reached (DeltaList.advance n.gap (n :: l))) ∨
            u ∈ DeltaList.items (DeltaList.ahead (DeltaList.advance n.gap (n :: l))) := by
        rw [hli,← items_collect,List.mem_append]
      simp only [Held,waiting,hpe,List.flatMap_cons] at hu ⊢
      grind

/-- One step keeps the invariant. -/
theorem Acts.inv {s' : Timers T P A} (ha : Acts s s') (h : s.Inv) : s'.Inv := by
  obtain ⟨hn,hl,hp⟩ := h
  cases ha with
  | stay => exact ⟨hn,hl,hp⟩
  | add t x hr ht =>
    rw [timerIsScheduled_false] at ht
    refine ⟨nodup_insert hn ht.1 ht.2,DeltaList.insert_leads hr hl,fun u hu => ?_⟩
    by_cases he : u = t
    · simpa [he] using hr
    · have := hp u (by simpa [Held,insertTimer,DeltaList.mem_items_insert,he,waiting] using hu)
      simpa [he] using this
  | remove t =>
    refine ⟨?_,DeltaList.erase_leads hl,fun u hu => hp u ?_⟩
    · have hsub : (DeltaList.items (DeltaList.erase t s.timerList)++s.waiting).Sublist
          (DeltaList.items s.timerList++s.waiting) := by
        rw [DeltaList.items_erase]
        exact (List.erase_sublist).append_right _
      exact hn.sublist hsub
    · refine hu.imp_left fun hm => ?_
      rw [netTimerRemove,DeltaList.items_erase] at hm
      exact List.mem_of_mem_erase hm
  | clear t =>
    refine ⟨hn,hl,fun u hu => ?_⟩
    have := hp u hu
    by_cases he : u = t <;> simpa [clearReload,he] using this
  | check diffMs hu =>
    exact ⟨by simpa [waiting] using hn,hl,fun u hu => hp u (by simpa [Held,waiting] using hu)⟩
  | turn _ ht => exact ht.inv ⟨hn,hl,hp⟩

theorem run_inv (h : s.Inv) (es : List (Event T P A)) : (s.run es).Inv := by
  induction es generalizing s with
  | nil => exact h
  | cons e es ih => exact ih ((step_acts s e).inv h)

/-- What the pending calls still have to do: the time they have left, then the callbacks of
their wait lists. -/
def load (s : Timers T P A) : ℕ ×ₗ ℕ :=
  toLex ((s.pending.map Frame.diffMs).sum,
    (s.pending.map fun f => 2*f.waitList.length+f.running.toList.length+1).sum)

theorem Turns.load_lt {s' : Timers T P A} (ht : Turns s s') (hi : s.Inv) (hp : s.pending ≠ []) :
    s'.load < s.load := by
  unfold load
  rw [Prod.Lex.toLex_lt_toLex]
  cases ht with
  | idle h => exact absurd h hp
  | reload f fs t hpe hf hr ht => simp [hpe,hf]
  | leave f fs t hpe hf ht => simp [hpe,hf]
  | enter f fs t wait hpe hf hw => simp [hpe,hf,hw,Timers.enter]; omega
  | empty f fs hpe hf hw hl => simp [hpe,hf,hw]; omega
  | finish f fs n l hpe hf hw hl hd => simp [hpe,hf,hw]; omega
  | collect f fs n l hpe hf hw hl hd =>
    have : 0 < n.gap := hi.leads n (by simp [hl])
    simp [hpe]
    omega

/-- The calls by user code other than `net_timer_check_tmo` only change the timers and their
list. -/
theorem step_user {e : Event T P A} (he : e ≠ .turn) (hc : ∀ d, e ≠ .check d) :
    (s.step e).pending = s.pending ∧ (s.step e).now = s.now ∧ (s.step e).log = s.log := by
  cases e with
  | add t proc arg ms flags =>
    unfold step netTimerAdd
    dsimp only
    split <;> try exact ⟨rfl,rfl,rfl⟩
    split <;> try exact ⟨rfl,rfl,rfl⟩
    split <;> exact ⟨rfl,rfl,rfl⟩
  | remove t => unfold step; dsimp only; split <;> exact ⟨rfl,rfl,rfl⟩
  | clearReload t => unfold step; dsimp only; split <;> exact ⟨rfl,rfl,rfl⟩
  | check d => exact absurd rfl (hc d)
  | turn => exact absurd rfl he

theorem step_check_log (s : Timers T P A) (d : ℤ) : (s.step (.check d)).log = s.log := by
  unfold step netTimerCheckTmo
  dsimp only
  split <;> try rfl
  split <;> rfl

theorem run_append (s : Timers T P A) (es es' : List (Event T P A)) :
    s.run (es++es') = (s.run es).run es' := List.foldl_append

/-- Whatever the callbacks do short of checking the timers, the pending calls return once every
callback does. -/
theorem run_returns (hi : s.Inv) (e : ℕ → Event T P A) (hc : ∀ i d, e i ≠ .check d)
    (ht : ∀ i, ∃ j, i ≤ j ∧ e j = .turn) :
    ∃ n, (s.run ((List.range n).map e)).pending = [] := by
  classical
  induction h : s.load using WellFoundedLT.induction generalizing s e with
  | ind a ih =>
    by_cases hp : s.pending = []
    · exact ⟨0,hp⟩
    have hex : ∃ j, e j = .turn := let ⟨j,_,hj⟩ := ht 0; ⟨j,hj⟩
    -- up to the next turn nothing changes in the pending calls
    have hbefore : ∀ i ≤ Nat.find hex, (s.run ((List.range i).map e)).pending = s.pending := by
      intro i hle
      induction i with
      | zero => rfl
      | succ i ih =>
        rw [List.range_succ,List.map_append,run_append]
        exact (step_user (Nat.find_min hex (by omega)) (hc i)).1.trans (ih (by omega))
    let m := Nat.find hex
    have hm : (s.run ((List.range m).map e)).pending = s.pending := hbefore m (Nat.le_refl _)
    have hs : s.run ((List.range (m+1)).map e) = (s.run ((List.range m).map e)).turn := by
      rw [List.range_succ,List.map_append,run_append,List.map_singleton,Nat.find_spec hex]
      rfl
    have hlt := (turn_turns (s.run ((List.range m).map e))).load_lt (run_inv hi _) (hm ▸ hp)
    rw [← hs] at hlt
    have hload : (s.run ((List.range m).map e)).load = a := by rw [← h,load,load,hm]
    obtain ⟨n,hn⟩ := ih _ (hload ▸ hlt) (run_inv hi _) (fun i => e (m+1+i)) (fun i => hc _)
      (fun i => by
        obtain ⟨j,hj,hj'⟩ := ht (m+1+i)
        exact ⟨j-(m+1),by omega,by rw [← hj']; congr 1; omega⟩) rfl
    refine ⟨m+1+n,?_⟩
    rw [List.range_add,List.map_append,run_append,List.map_map]
    exact hn

end Timers
end NetTimer
end QuardStarNet
