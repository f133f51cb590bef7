import QuardStarNet.KernelMoves
import QuardStarNet.Tally

/-! The sleep locks of `wait.c`: any number of tasks that acquire and release one lock, and sleep
for other reasons in between. A step runs from one spinlock operation to the next; a task that is
`Ready` may be dispatched at any time, as on any number of harts. -/
namespace QuardStarNet
namespace SleepLock

open Kernel (Task TaskState firstTask)

/-- The addresses that stand in `wait_channel`: `lock->wait`, or another one. -/
inductive Channel
  | wait | other
  deriving DecidableEq

/-- Where the kernel code of a task is: outside the calls without and with the lock, or in front of
the next spinlock operation of a call. `slept` is the context that `task_sleep` has saved. -/
inductive Pc
  | user | owner
  | acquire | sleepEnter | sleepSwitch | slept | relock
  | release | wake | unlock
  | halted
  deriving DecidableEq

structure Tcb where
  taskState : TaskState
  pid : ℤ
  waitChannel : Option Channel
  pc : Pc

/-- A `struct sleeplock`; `lock` is the task that holds its spinlock. -/
structure Lock (n : ℕ) where
  lock : Option (Task n)
  locked : Bool
  ownerPid : ℤ
  waiters : ℕ

/-- `taskLock` is the task that holds `task_lock` between two steps. -/
structure State (n : ℕ) where
  tasks : Task n → Tcb
  lk : Lock n
  taskLock : Option (Task n)

/-- `exec` is the next step of a running task, which sleeps elsewhere on demand if it is outside
the calls; `wakeElsewhere` is whatever ends that sleep. -/
inductive Step (n : ℕ)
  | exec (t : Task n) (elsewhere : Bool)
  | preempt (t : Task n)
  | dispatch (t : Task n)
  | wakeElsewhere (t : Task n)

variable {n : ℕ}

/-- `sleeplock_init`. -/
def sleeplockInit (n : ℕ) : Lock n := ⟨none,false,-1,0⟩

namespace State

def set (s : State n) (t : Task n) (x : Tcb) : State n :=
  { s with tasks := Function.update s.tasks t x }

def setPc (s : State n) (t : Task n) (pc : Pc) : State n := s.set t { s.tasks t with pc := pc }

/-- The loop of `sleeplock_acquire` from its test on, with the spinlock held. -/
def acquireLoop (s : State n) (t : Task n) : State n :=
  if s.lk.locked then
    { s with lk := { s.lk with lock := some t,waiters := s.lk.waiters+1 } }.setPc t .sleepEnter
  else
    { s with lk := { s.lk with lock := none,locked := true,ownerPid := (s.tasks t).pid } }.setPc t
      .owner

/-- `task_wake_locked` for `lock->wait`: the first task of the array that sleeps there. -/
def taskWakeLocked (s : State n) : State n :=
  match firstTask fun t =>
      (s.tasks t).taskState = .sleeping ∧ (s.tasks t).waitChannel = some .wait with
  | none => s
  | some t => s.set t { s.tasks t with taskState := .ready }

/-- A sleep for another reason. -/
def sleepElsewhere (s : State n) (t : Task n) : State n :=
  if s.taskLock.isSome then s
  else s.set t { s.tasks t with taskState := .sleeping,waitChannel := some .other }

/-- The part of `sleeplock_release` before its `task_wake`. -/
def sleeplockRelease (s : State n) (t : Task n) : State n :=
  if s.lk.locked = false ∨ s.lk.ownerPid ≠ (s.tasks t).pid then s.setPc t .halted
  else if s.lk.waiters ≠ 0 then
    { s with lk := { s.lk with lock := some t,locked := false,ownerPid := -1 } }.setPc t .wake
  else { s with lk := { s.lk with locked := false,ownerPid := -1 } }.setPc t .user

/-- The check of `task_sleep` that its task is running is that of the whole function here. -/
def exec (s : State n) (t : Task n) (elsewhere : Bool) : State n :=
  if (s.tasks t).taskState ≠ .running then s
  else
    match (s.tasks t).pc with
    | .user => if elsewhere then s.sleepElsewhere t else s.setPc t .acquire
    | .owner => if elsewhere then s.sleepElsewhere t else s.setPc t .release
    | .acquire => if s.lk.lock.isSome then s else s.acquireLoop t
    | .sleepEnter =>
      if s.taskLock.isSome then s
      else { s with lk := { s.lk with lock := none },taskLock := some t }.setPc t .sleepSwitch
    | .sleepSwitch =>
      { s with taskLock := none }.set t { s.tasks t with
        taskState := .sleeping,waitChannel := some .wait,pc := .slept }
    | .slept => s
    | .relock =>
      if s.lk.lock.isSome then s
      else { s with lk := { s.lk with waiters := s.lk.waiters-1 } }.acquireLoop t
    | .release => if s.lk.lock.isSome then s else s.sleeplockRelease t
    | .wake => if s.taskLock.isSome then s else s.taskWakeLocked.setPc t .unlock
    | .unlock => { s with lk := { s.lk with lock := none } }.setPc t .user
    | .halted => s

/-- The scheduler switches to a task, which goes on up to its `spin_unlock(&task_lock)`. -/
def dispatch (s : State n) (t : Task n) : State n :=
  if (s.tasks t).taskState ≠ .ready ∨ s.taskLock.isSome then s
  else s.set t { s.tasks t with
    taskState := .running,waitChannel := none
    pc := if (s.tasks t).pc = .slept then .relock else (s.tasks t).pc }

def step (s : State n) : Step n → State n
  | .exec t elsewhere => s.exec t elsewhere
  | .preempt t =>
    if (s.tasks t).taskState ≠ .running ∨ s.taskLock.isSome then s
    else s.set t { s.tasks t with taskState := .ready }
  | .dispatch t => s.dispatch t
  | .wakeElsewhere t =>
    if (s.tasks t).waitChannel ≠ some .other ∨ (s.tasks t).taskState ≠ .sleeping ∨
        s.taskLock.isSome then s
    else s.set t { s.tasks t with taskState := .ready }

end State

/-- The tasks start outside the calls. -/
inductive Reachable : State n → Prop
  | init (pid : Task n → ℤ) :
      Reachable ⟨fun t => ⟨.running,pid t,none,.user⟩,sleeplockInit n,none⟩
  | step {s} (a : Step n) : Reachable s → Reachable (s.step a)

/-- The task is between a returned `sleeplock_acquire` and its release. -/
def Tcb.holds (x : Tcb) : Prop := x.pc = .owner ∨ x.pc = .release

/-- The task is asleep on `lock->wait`. -/
def Tcb.asleep (x : Tcb) : Prop := x.taskState = .sleeping ∧ x.waitChannel = some .wait

/-- The task has been woken and has not tested `locked` again. -/
def Tcb.woken (x : Tcb) : Prop := x.pc = .slept ∧ x.taskState = .ready ∨ x.pc = .relock

/-- The task counts in `waiters`. -/
def Tcb.present (x : Tcb) : ℕ :=
  match x.pc with
  | .sleepEnter | .sleepSwitch | .slept | .relock => 1
  | _ => 0

/-- The spinlocks, the owner and the waiters are what the places of the tasks say; nobody goes to
sleep with the lock free, and as long as somebody is down beside a free lock a wakeup is due or a
woken task is on its way. -/
structure Inv (s : State n) : Prop where
  waiters : s.lk.waiters = tally Tcb.present s.tasks
  lock : ∀ t,s.lk.lock = some t ↔
    (s.tasks t).pc = .sleepEnter ∨ (s.tasks t).pc = .wake ∨ (s.tasks t).pc = .unlock
  taskLock : ∀ t,s.taskLock = some t ↔ (s.tasks t).pc = .sleepSwitch
  owner : s.lk.locked = true → ∃ t,(s.tasks t).holds
  holds : ∀ t,(s.tasks t).holds → s.lk.locked = true ∧ s.lk.ownerPid = (s.tasks t).pid ∧
    ∀ u,(s.tasks u).holds → u = t
  entering : ∀ t,(s.tasks t).pc = .sleepEnter → s.lk.locked = true
  alive : ∀ t,(s.tasks t).pc ≠ .halted
  asleep : ∀ t,(s.tasks t).asleep → (s.tasks t).pc = .slept
  slept : ∀ t,(s.tasks t).pc = .slept → (s.tasks t).asleep ∨ (s.tasks t).taskState = .ready
  covered : s.lk.locked = false → ∀ t,(s.tasks t).pc = .sleepSwitch ∨ (s.tasks t).asleep →
    ∃ u,(s.tasks u).pc = .wake ∨ (s.tasks u).woken

variable {s : State n} {t : Task n}

namespace Inv

theorem present_eq_zero (h : Inv s) (h0 : s.lk.waiters = 0) (t : Task n) :
    (s.tasks t).present = 0 := by
  have := le_tally Tcb.present s.tasks t
  have := h.waiters
  omega

/-- A task takes the free lock or goes to sleep, and if it has slept before it is counted out. -/
theorem acquireLoop (h : Inv s) (ht : (s.tasks t).pc = .acquire ∨ (s.tasks t).pc = .relock)
    (hf : s.lk.lock = none) :
    Inv (State.acquireLoop ⟨s.tasks,{ s.lk with waiters := s.lk.waiters-(s.tasks t).present },
      s.taskLock⟩ t) := by
  have hin := tally_update Tcb.present s.tasks t { s.tasks t with pc := .sleepEnter }
  have hout := tally_update Tcb.present s.tasks t { s.tasks t with pc := .owner }
  have hle := le_tally Tcb.present s.tasks t
  obtain ⟨h1,h2,h3,h4,h5,h6,h7,h8,h9,h10⟩ := h
  rw [State.acquireLoop]
  split
  all_goals constructor
  all_goals simp only [State.setPc,State.set,Function.update_apply]
  all_goals grind [Tcb.present,Tcb.holds,Tcb.asleep,Tcb.woken]

/-- The owner gives the lock up; it wakes a sleeper unless there is none. -/
theorem release (h : Inv s) (ht : (s.tasks t).pc = .release) (hf : s.lk.lock = none) :
    Inv (s.sleeplockRelease t) := by
  have h0 := h.present_eq_zero
  have hw := tally_update Tcb.present s.tasks t { s.tasks t with pc := .wake }
  have hw' := tally_update Tcb.present s.tasks t { s.tasks t with pc := .user }
  obtain ⟨h1,h2,h3,h4,h5,h6,h7,h8,h9,h10⟩ := h
  rw [State.sleeplockRelease,if_neg (by grind [Tcb.holds])]
  split
  all_goals constructor
  all_goals simp only [State.setPc,State.set,Function.update_apply]
  all_goals grind [Tcb.present,Tcb.holds,Tcb.asleep,Tcb.woken]

theorem wake (h : Inv s) (ht : (s.tasks t).pc = .wake) (hf : s.taskLock = none) :
    Inv (s.taskWakeLocked.setPc t .unlock) := by
  have hw := tally_update Tcb.present s.tasks t { s.tasks t with pc := .unlock }
  rw [State.taskWakeLocked]
  split
  · rename_i hnone
    have hnone := Kernel.firstTask_none hnone
    obtain ⟨h1,h2,h3,h4,h5,h6,h7,h8,h9,h10⟩ := h
    constructor
    all_goals simp only [State.setPc,State.set,Function.update_apply]
    all_goals grind [Tcb.present,Tcb.holds,Tcb.asleep,Tcb.woken]
  · rename_i u hsome
    have hsome := Kernel.firstTask_some hsome
    have hw' := tally_update Tcb.present s.tasks u { s.tasks u with taskState := .ready }
    have hw'' := tally_update Tcb.present (Function.update s.tasks u { s.tasks u with taskState := .ready }) t { s.tasks t with pc := .unlock }
    obtain ⟨h1,h2,h3,h4,h5,h6,h7,h8,h9,h10⟩ := h
    constructor
    all_goals simp only [State.setPc,State.set,Function.update_apply]
    all_goals grind [Tcb.present,Tcb.holds,Tcb.asleep,Tcb.woken]

theorem sleepElsewhere (h : Inv s) (ht : (s.tasks t).pc = .user ∨ (s.tasks t).pc = .owner) :
    Inv (s.sleepElsewhere t) := by
  have hw := tally_update Tcb.present s.tasks t
    { s.tasks t with taskState := .sleeping,waitChannel := some .other }
  rw [State.sleepElsewhere]
  split
  · exact h
  obtain ⟨h1,h2,h3,h4,h5,h6,h7,h8,h9,h10⟩ := h
  constructor
  all_goals simp only [State.set,Function.update_apply]
  all_goals grind [Tcb.present,Tcb.holds,Tcb.asleep,Tcb.woken]

theorem call (h : Inv s) {pc : Pc} (ht : (s.tasks t).pc = .user ∧ pc = .acquire ∨
    (s.tasks t).pc = .owner ∧ pc = .release) : Inv (s.setPc t pc) := by
  have hw := tally_update Tcb.present s.tasks t { s.tasks t with pc := pc }
  obtain ⟨h1,h2,h3,h4,h5,h6,h7,h8,h9,h10⟩ := h
  constructor
  all_goals simp only [State.setPc,State.set,Function.update_apply]
  all_goals grind [Tcb.present,Tcb.holds,Tcb.asleep,Tcb.woken]

/-- The task takes `task_lock` and then lets the spinlock go. -/
theorem sleepEnter (h : Inv s) (ht : (s.tasks t).pc = .sleepEnter) (hf : s.taskLock = none) :
    Inv ({ s with lk := { s.lk with lock := none },taskLock := some t }.setPc t .sleepSwitch) := by
  have hw := tally_update Tcb.present s.tasks t { s.tasks t with pc := .sleepSwitch }
  obtain ⟨h1,h2,h3,h4,h5,h6,h7,h8,h9,h10⟩ := h
  constructor
  all_goals simp only [State.setPc,State.set,Function.update_apply]
  all_goals grind [Tcb.present,Tcb.holds,Tcb.asleep,Tcb.woken]

/-- The other steps of a task concern the spinlocks. -/
theorem exec (h : Inv s) (t : Task n) (elsewhere : Bool) : Inv (s.exec t elsewhere) := by
  have hw (x : Tcb) := tally_update Tcb.present s.tasks t x
  have hfree {o : Option (Task n)} : ¬o.isSome = true → o = none := by simp
  rw [State.exec]
  split
  · exact h
  rename_i hrun
  cases hpc : (s.tasks t).pc with
  | slept | halted => exact h
  | acquire =>
    dsimp only
    split
    · exact h
    · simpa [Tcb.present,hpc] using h.acquireLoop (.inl hpc) (hfree ‹_›)
  | relock =>
    dsimp only
    split
    · exact h
    · simpa [Tcb.present,hpc] using h.acquireLoop (.inr hpc) (hfree ‹_›)
  | release =>
    dsimp only
    split
    · exact h
    · exact h.release hpc (hfree ‹_›)
  | wake =>
    dsimp only
    split
    · exact h
    · exact h.wake hpc (hfree ‹_›)
  | sleepEnter =>
    dsimp only
    split
    · exact h
    · exact h.sleepEnter hpc (hfree ‹_›)
  | user | owner =>
    dsimp only
    split
    · exact h.sleepElsewhere (by simp [hpc])
    · exact h.call (by simp [hpc])
  | sleepSwitch | unlock =>
    obtain ⟨h1,h2,h3,h4,h5,h6,h7,h8,h9,h10⟩ := h
    constructor
    all_goals simp only [State.setPc,State.set,Function.update_apply]
    all_goals grind [Tcb.present,Tcb.holds,Tcb.asleep,Tcb.woken]

/-- What the scheduler does to a task. -/
theorem step (h : Inv s) (a : Step n) : Inv (s.step a) := by
  have hw (t : Task n) (x : Tcb) := tally_update Tcb.present s.tasks t x
  cases a with
  | exec t elsewhere => exact h.exec t elsewhere
  | preempt t | dispatch t | wakeElsewhere t =>
    simp only [State.step,State.dispatch]
    split
    · exact h
    obtain ⟨h1,h2,h3,h4,h5,h6,h7,h8,h9,h10⟩ := h
    constructor
    all_goals simp only [State.set,Function.update_apply]
    all_goals grind [Tcb.present,Tcb.holds,Tcb.asleep,Tcb.woken]

end Inv

theorem Reachable.inv (h : Reachable s) : Inv s := by
  induction h with
  | init pid =>
    constructor
    all_goals simp [sleeplockInit,Tcb.holds,Tcb.asleep,tally,Tcb.present]
  | step a _ ih => exact ih.step a

theorem Reachable.run (h : Reachable s) (steps : List (Step n)) :
    Reachable (steps.foldl State.step s) := by
  induction steps generalizing s with
  | nil => exact h
  | cons a steps ih => exact ih (h.step a)

/-- Sleep locks exclude and make progress. -/
theorem sleeplock_safe (h : Reachable s) :
    (∀ t u,(s.tasks t).holds → (s.tasks u).holds → t = u) ∧
      (s.lk.locked = true ↔ ∃ t,(s.tasks t).holds) ∧
      (∀ t,(s.tasks t).holds → s.lk.ownerPid = (s.tasks t).pid) ∧
      (∀ t,(s.tasks t).pc ≠ .halted) ∧
      ¬(s.lk.locked = false ∧ (∃ t,(s.tasks t).asleep) ∧ (∀ t,¬(s.tasks t).woken) ∧
        ∀ t,(s.tasks t).pc ≠ .wake) := by
  obtain ⟨-,-,-,howner,hholds,-,halive,-,-,hcovered⟩ := h.inv
  refine ⟨fun t u ht hu => (hholds u hu).2.2 t ht,⟨howner,fun ⟨t,ht⟩ => (hholds t ht).1⟩,
    fun t ht => (hholds t ht).2.1,halive,?_⟩
  rintro ⟨hfree,⟨t,ht⟩,hwoken,hwake⟩
  obtain ⟨u,hu | hu⟩ := hcovered hfree t (.inr ht)
  · exact hwake u hu
  · exact hwoken u hu

/-- Task 1 sleeps while task 0, which had the lock, is about to wake it. -/
def handover : State 1 :=
  ([.exec 0 false,.exec 0 false,.exec 1 false,.exec 1 false,.exec 1 false,.exec 1 false,
    .exec 0 false,.exec 0 false] : List (Step 1)).foldl State.step
    ⟨fun t => ⟨.running,t.val,none,.user⟩,sleeplockInit 1,none⟩

theorem sleeplock_safe_handover :
    handover.lk.locked = false ∧ (handover.tasks 1).asleep ∧
      ¬((∀ t,¬(handover.tasks t).woken) ∧ ∀ t,(handover.tasks t).pc ≠ .wake) := by
  have hasleep : (handover.tasks 1).asleep := ⟨by decide,by decide⟩
  have hreach : Reachable handover := Reachable.run (.init fun t => t.val) _
  exact ⟨by decide,hasleep,fun h => (sleeplock_safe hreach).2.2.2.2 ⟨by decide,⟨1,hasleep⟩,h⟩⟩

end SleepLock
end QuardStarNet
