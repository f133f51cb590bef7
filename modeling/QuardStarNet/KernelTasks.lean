import Mathlib.Data.Fintype.Basic
import Mathlib.Data.List.FinRange
import Mathlib.Logic.Function.Basic

/-! The tasks of `task.c` with the semaphores of `wait.c`: any number of harts in
`scheduler`, any number of tasks and of callers of `sem_post`. A step runs from one spinlock
operation to the next, so `__switch` and the code on its other side belong to the step that
holds `task_lock` across it. -/
namespace QuardStarNet
namespace Kernel

/-- Indices into `tasks`, whose length `MAX_TASKS` is `n+1`. -/
abbrev Task (n : ℕ) := Fin (n+1)

/-- The task that no other has created. -/
abbrev root (n : ℕ) : Task n := 0

inductive TaskState
  | unInit | creating | ready | running | sleeping | zombie
  deriving DecidableEq

/-- The reasons for which a hart stops for good in the modelled code. -/
inductive Panic
  | noRunningProcess | scheduleNotRunning | sleepNotRunning | notOwner | initExiting
  | nullParent | zombieExit | badContext
  deriving DecidableEq

/-- `WAIT_FOREVER`. -/
def waitForever : UInt64 := 0xFFFFFFFFFFFFFFFF

/-- A `struct semaphore`; its spinlock knows the task or the other caller that holds it. -/
structure Semaphore (n : ℕ) (I : Type) where
  lock : Option (Task n ⊕ I)
  count : ℕ
  waiters : ℕ

/-- `sem_init`. -/
def semInit (n : ℕ) (I : Type) (count : ℕ) : Semaphore n I where
  lock := none
  count := count
  waiters := 0

/-- The semaphores of the kernel: `child_exit` of every task and the others. -/
inductive SemId (n : ℕ) (S : Type)
  | childExit (t : Task n)
  | named (s : S)
  deriving DecidableEq

/-- The semaphore that a task waits for: its own `child_exit` in `wait`, or another one. -/
inductive SemRef (S : Type)
  | childExit
  | named (s : S)
  deriving DecidableEq

def SemRef.id {n : ℕ} {S : Type} (t : Task n) : SemRef S → SemId n S
  | .childExit => .childExit t
  | .named s => .named s

/-- The addresses that stand in `wait_channel`. -/
inductive Channel (n : ℕ) (S D : Type)
  | sem (m : SemId n S)
  | driver (d : D)
  deriving DecidableEq

/-- The callers of `task_sleep`: `sem_timedwait`, and drivers with channels of their own. -/
inductive Sleeper (S D : Type)
  | sem (r : SemRef S)
  | driver (d : D)
  deriving DecidableEq

def Sleeper.channel {n : ℕ} {S D : Type} (t : Task n) : Sleeper S D → Channel n S D
  | .sem r => .sem (r.id t)
  | .driver d => .driver d

/-- Where the kernel code of a task is. `firstRun`, `yielded`, `slept` and `dead` are the
contexts that `__switch` has saved; `user` is any code between two calls and holds the
result of the last one. -/
inductive Pc (n : ℕ) (S D : Type)
  | firstRun
  | user (a0 : ℤ)
  | yielded (a0 : ℤ)
  | semLock (r : SemRef S) (deadline : UInt64)
  | sleepEnter (w : Sleeper S D) (deadline : UInt64)
  | sleepSwitch (w : Sleeper S D) (deadline : UInt64)
  | slept (w : Sleeper S D) (deadline : UInt64)
  | relock (w : Sleeper S D) (deadline : UInt64) (result : ℤ)
  | forkPublish (np : Task n)
  | waitScan
  | exitRead
  | exitLock (parent : Task n)
  | exitBody (parent : Task n)
  | exitSwitch
  | dead
  | halted (p : Panic)
  deriving DecidableEq

/-- Where `sem_timedwait` returns to with `result`. -/
def SemRef.ret {n : ℕ} {S D : Type} (result : ℤ) : SemRef S → Pc n S D
  | .childExit => .waitScan
  | .named _ => .user result

/-- A `TaskControlBlock` with its saved or running context. -/
structure Tcb (n : ℕ) (C S D : Type) where
  taskState : TaskState
  pid : ℕ
  parent : Option (Task n)
  kernelEntry : Bool
  lastHart : Option C
  waitChannel : Option (Channel n S D)
  waitDeadline : UInt64
  waitResult : ℤ
  pc : Pc n S D

/-- A `struct cpu`, and the kernel stack it executes on: a task's, or its scheduler's. -/
structure Cpu (n : ℕ) where
  proc : Option (Task n)
  idle : Bool
  stack : Option (Task n)

/-- The state of the kernel. `taskLock` is the task that still holds `task_lock` between two
steps, `posts` the calls of `sem_post` between `count++` and the end of `task_wake`;
`acquired` and `posted` count the waits that returned 0 and the posts. -/
structure State (n : ℕ) (C S D I : Type) where
  tasks : Task n → Tcb n C S D
  cpus : C → Cpu n
  sems : SemId n S → Semaphore n I
  taskLock : Option (Task n)
  posts : I → Option S
  nextpid : ℕ
  acquired : S → ℕ
  posted : S → ℕ

/-- What a task may call next. -/
inductive Call (S D : Type)
  | schedule
  | semTimedwait (s : S) (deadline : UInt64)
  | taskSleep (d : D) (deadline : UInt64)
  | fork
  | taskCreateKernel
  | exit
  | wait

/-- `exec` is the next step of the task on hart `c`, which makes the call if it is between
two; `post` and `postWake` are the two halves of a `sem_post`, `wake` a driver's `task_wake`. -/
inductive Step (C S D I : Type)
  | dispatch (c : C) (now : UInt64)
  | exec (c : C) (call : Call S D)
  | post (i : I) (s : S)
  | postWake (i : I)
  | wake (d : D) (wakeAll : Bool)

variable {n : ℕ} {C S D I : Type}

/-- The first task of the array with the property, as the loops over `tasks` find it. -/
def firstTask (p : Task n → Bool) : Option (Task n) := (List.finRange (n+1)).find? p

namespace Tcb

/-- `task_reset_wait` without its `sem_init`. -/
def resetWait (x : Tcb n C S D) : Tcb n C S D :=
  { x with waitChannel := none, waitDeadline := waitForever, waitResult := 0 }

/-- A slot of `tasks` after `procinit`. -/
def unused : Tcb n C S D where
  taskState := .unInit
  pid := 0
  parent := none
  kernelEntry := false
  lastHart := none
  waitChannel := none
  waitDeadline := waitForever
  waitResult := 0
  pc := .dead

/-- `freeproc_locked`; the memory that it gives back is left out. -/
def freeprocLocked (x : Tcb n C S D) : Tcb n C S D :=
  { x with parent := none, kernelEntry := false, lastHart := none, waitChannel := none,
           waitDeadline := waitForever, waitResult := 0, taskState := .unInit }

/-- The slot that `allocproc` has reserved. -/
def reserve (x : Tcb n C S D) (pid : ℕ) : Tcb n C S D :=
  { x.resetWait with taskState := .creating, pid := pid, lastHart := none }

/-- The slot that `task_create_kernel` has filled in. -/
def kernelTask (x : Tcb n C S D) (pid : ℕ) : Tcb n C S D :=
  { x.resetWait with taskState := .ready, pid := pid, parent := none, kernelEntry := true,
                     pc := .firstRun }

/-- The slot that `__sys_fork` makes `Ready`. -/
def publish (x : Tcb n C S D) (parent : Task n) : Tcb n C S D :=
  { x with parent := some parent, taskState := .ready, pc := .firstRun }

/-- A task that `__switch` has entered on hart `c`, up to its `spin_unlock(&task_lock)`. -/
def resume (x : Tcb n C S D) (c : C) : Tcb n C S D :=
  let x := { x with taskState := .running, lastHart := some c }
  match x.pc with
  | .firstRun => { x with pc := .user 0 }
  | .yielded a0 => { x with pc := .user a0 }
  | .slept w deadline => { x with waitChannel := none, waitDeadline := waitForever,
                                  pc := .relock w deadline x.waitResult }
  | .dead => { x with pc := .halted .zombieExit }
  | _ => { x with pc := .halted .badContext }

/-- The task is asleep on a channel. -/
def asleepOn [DecidableEq S] [DecidableEq D] (ch : Channel n S D) (x : Tcb n C S D) : Bool :=
  x.taskState = .sleeping ∧ x.waitChannel = some ch

def woken (x : Tcb n C S D) (result : ℤ) : Tcb n C S D :=
  { x with waitResult := result, taskState := .ready }

end Tcb

/-- `task_wake_locked`; the interrupts it sends to idle harts are left out. -/
def taskWakeLocked [DecidableEq S] [DecidableEq D] (ch : Channel n S D) (wakeAll : Bool)
    (tasks : Task n → Tcb n C S D) : Task n → Tcb n C S D :=
  if wakeAll then fun t => if (tasks t).asleepOn ch then (tasks t).woken 0 else tasks t
  else match firstTask fun t => (tasks t).asleepOn ch with
    | none => tasks
    | some t => Function.update tasks t ((tasks t).woken 0)

/-- `task_wake_expired_locked`. -/
def taskWakeExpiredLocked (now : UInt64) (tasks : Task n → Tcb n C S D) :
    Task n → Tcb n C S D := fun t =>
  if (tasks t).taskState = .sleeping ∧ (tasks t).waitDeadline ≠ waitForever ∧
      (tasks t).waitDeadline ≤ now then (tasks t).woken (-1)
  else tasks t

/-- `pick_runnable` with `other_cpu_idle`: a task that last ran on another hart first, and
none at all if the first `Ready` task ran here last and another hart is idle. -/
def pickRunnable [DecidableEq C] [Fintype C] (c : C) (cpus : C → Cpu n)
    (tasks : Task n → Tcb n C S D) : Option (Task n) :=
  match firstTask fun t => (tasks t).taskState = .ready ∧ (tasks t).lastHart ≠ none ∧
      (tasks t).lastHart ≠ some c with
  | some t => some t
  | none => match firstTask fun t => (tasks t).taskState = .ready with
    | none => none
    | some t =>
      if (tasks t).lastHart = some c ∧ ∃ c', c' ≠ c ∧ (cpus c').idle = true then none
      else some t

/-- `children_proc_clear_locked`. -/
def childrenProcClearLocked (p : Task n) (tasks : Task n → Tcb n C S D) :
    Task n → Tcb n C S D := fun t =>
  if (tasks t).parent = some p then { tasks t with parent := some 0 } else tasks t

namespace State

def setTask (s : State n C S D I) (t : Task n) (x : Tcb n C S D) : State n C S D I :=
  { s with tasks := Function.update s.tasks t x }

def setPc (s : State n C S D I) (t : Task n) (pc : Pc n S D) : State n C S D I :=
  s.setTask t { s.tasks t with pc := pc }

def halt (s : State n C S D I) (t : Task n) (p : Panic) : State n C S D I :=
  s.setPc t (.halted p)

def setSem [DecidableEq S] (s : State n C S D I) (m : SemId n S) (v : Semaphore n I) :
    State n C S D I :=
  { s with sems := Function.update s.sems m v }

def setCpu [DecidableEq C] (s : State n C S D I) (c : C) (v : Cpu n) : State n C S D I :=
  { s with cpus := Function.update s.cpus c v }

/-- The ghost count of a wait that returns 0. -/
def tookToken [DecidableEq S] (s : State n C S D I) : SemRef S → State n C S D I
  | .childExit => s
  | .named m => { s with acquired := Function.update s.acquired m (s.acquired m+1) }

/-- `__switch` from task `t` to the scheduler of hart `c`, which clears `proc` and releases
`task_lock`. -/
def switchOut [DecidableEq C] (s : State n C S D I) (c : C) (t : Task n) (x : Tcb n C S D) :
    State n C S D I :=
  { (s.setTask t x).setCpu c { s.cpus c with proc := none, stack := none } with
    taskLock := none }

/-- `spin_unlock` by a task. -/
def spinUnlock [DecidableEq S] [DecidableEq I] (s : State n C S D I) (t : Task n)
    (m : SemId n S) (pc : Pc n S D) : State n C S D I :=
  if (s.sems m).lock = some (.inl t) then
    (s.setSem m { s.sems m with lock := none }).setPc t pc
  else s.halt t .notOwner

/-- The loop of `sem_timedwait` from its test on, with the lock of the semaphore held. -/
def semLoop [DecidableEq S] (s : State n C S D I) (t : Task n) (r : SemRef S)
    (deadline : UInt64) : State n C S D I :=
  let m := r.id t
  let v := s.sems m
  if v.count = 0 then
    (s.setSem m { v with lock := some (.inl t), waiters := v.waiters+1 }).setPc t
      (.sleepEnter (.sem r) deadline)
  else ((s.setSem m { v with count := v.count-1 }).tookToken r).setPc t (r.ret 0)

/-- `sem_timedwait` takes the lock of the semaphore. -/
def semTimedwait [DecidableEq S] (s : State n C S D I) (t : Task n) (r : SemRef S)
    (deadline : UInt64) : State n C S D I :=
  if (s.sems (r.id t)).lock.isSome then s else s.semLoop t r deadline

/-- `task_sleep` takes the lock of its caller again and returns. A driver's lock is left
out, so that its task goes on at any time. -/
def sleepReturn [DecidableEq S] (s : State n C S D I) (t : Task n) (deadline : UInt64)
    (result : ℤ) : Sleeper S D → State n C S D I
  | .driver _ => s.setPc t (.user result)
  | .sem r =>
    let v := s.sems (r.id t)
    if v.lock.isSome then s
    else
      let s' := s.setSem (r.id t) { v with waiters := v.waiters-1 }
      if result < 0 then s'.setPc t (r.ret (-1)) else s'.semLoop t r deadline

/-- `task_sleep` takes `task_lock` and releases the lock of its caller. -/
def sleepEnter [DecidableEq S] [DecidableEq I] (s : State n C S D I) (t : Task n)
    (w : Sleeper S D) (deadline : UInt64) : State n C S D I :=
  if s.taskLock.isSome then s
  else
    let s' := { s with taskLock := some t }
    match w with
    | .driver _ => s'.setPc t (.sleepSwitch w deadline)
    | .sem r => s'.spinUnlock t (r.id t) (.sleepSwitch w deadline)

/-- The rest of `task_sleep` up to its `__switch`. -/
def sleepSwitch [DecidableEq C] (s : State n C S D I) (c : C) (t : Task n) (w : Sleeper S D)
    (deadline : UInt64) : State n C S D I :=
  if (s.tasks t).taskState ≠ .running then { s with taskLock := none }.halt t .sleepNotRunning
  else s.switchOut c t { s.tasks t with
    waitChannel := some (w.channel t), waitDeadline := deadline, waitResult := 0,
    taskState := .sleeping, pc := .slept w deadline }

def schedule [DecidableEq C] (s : State n C S D I) (c : C) (t : Task n) (a0 : ℤ) :
    State n C S D I :=
  if s.taskLock.isSome then s
  else if (s.tasks t).taskState ≠ .running then s.halt t .scheduleNotRunning
  else s.switchOut c t { s.tasks t with taskState := .ready, pc := .yielded a0 }

/-- `allocproc`. -/
def fork [DecidableEq S] (s : State n C S D I) (t : Task n) : State n C S D I :=
  if s.taskLock.isSome then s
  else match firstTask fun u => (s.tasks u).taskState = .unInit with
    | none => s.setPc t (.user (-1))
    | some np =>
      ({ s.setTask np ((s.tasks np).reserve s.nextpid) with nextpid := s.nextpid+1 }.setSem
        (.childExit np) (semInit n I 0)).setPc t (.forkPublish np)

/-- The second lock section of `__sys_fork`. -/
def forkPublish (s : State n C S D I) (t np : Task n) : State n C S D I :=
  if s.taskLock.isSome then s
  else (s.setTask np ((s.tasks np).publish t)).setPc t (.user (s.tasks np).pid)

def taskCreateKernel [DecidableEq S] (s : State n C S D I) (t : Task n) : State n C S D I :=
  if s.taskLock.isSome then s
  else match firstTask fun u => (s.tasks u).taskState = .unInit with
    | none => s.setPc t (.user (-1))
    | some np =>
      ({ s.setTask np ((s.tasks np).kernelTask s.nextpid) with nextpid := s.nextpid+1 }.setSem
        (.childExit np) (semInit n I 0)).setPc t (.user 0)

/-- One turn of the loop of `wait` up to its `sem_wait`. -/
def waitScan (s : State n C S D I) (t : Task n) : State n C S D I :=
  if s.taskLock.isSome then s
  else match firstTask fun u => (s.tasks u).parent = some t ∧ (s.tasks u).taskState = .zombie with
    | some u => (s.setTask u (s.tasks u).freeprocLocked).setPc t (.user (s.tasks u).pid)
    | none =>
      if ∃ u, (s.tasks u).parent = some t then s.setPc t (.semLock .childExit waitForever)
      else s.setPc t (.user (-1))

/-- `exit_current_and_run_next` up to `lock_parent_exit`. Tasks of the kernel do not call it. -/
def exitCall (s : State n C S D I) (t : Task n) : State n C S D I :=
  if (s.tasks t).kernelEntry then s
  else if (s.tasks t).pid = 0 then s.halt t .initExiting
  else s.setPc t .exitRead

/-- `lock_parent_exit` reads the parent. -/
def exitRead (s : State n C S D I) (t : Task n) : State n C S D I :=
  if s.taskLock.isSome then s
  else match (s.tasks t).parent with
    | none => s.halt t .nullParent
    | some q => s.setPc t (.exitLock q)

/-- `lock_parent_exit` locks the semaphore of the parent. -/
def exitLock [DecidableEq S] (s : State n C S D I) (t q : Task n) : State n C S D I :=
  let v := s.sems (.childExit q)
  if v.lock.isSome then s
  else (s.setSem (.childExit q) { v with lock := some (.inl t) }).setPc t (.exitBody q)

/-- The tasks after the exit of `t` with parent `q`, whose semaphore was `v`. -/
def exitTasks [DecidableEq S] [DecidableEq D] (s : State n C S D I) (t q : Task n)
    (v : Semaphore n I) : Task n → Tcb n C S D :=
  let tasks := childrenProcClearLocked t
    (Function.update s.tasks t { s.tasks t with taskState := .zombie })
  if v.waiters ≠ 0 then taskWakeLocked (.sem (.childExit q)) false tasks else tasks

/-- `lock_parent_exit` compares the parent under `task_lock`; if it is the same,
`exit_current_and_run_next` goes on up to its `__switch`. -/
def exitBody [DecidableEq S] [DecidableEq D] [DecidableEq I] (s : State n C S D I)
    (t q : Task n) : State n C S D I :=
  if s.taskLock.isSome then s
  else if (s.tasks t).parent = some q then
    let v := s.sems (.childExit q)
    { s.setSem (.childExit q) { v with count := v.count+1 } with
      tasks := s.exitTasks t q v, taskLock := some t }.spinUnlock t (.childExit q) .exitSwitch
  else s.spinUnlock t (.childExit q) .exitRead

/-- The next step of task `t` on hart `c`. -/
def execTask [DecidableEq C] [DecidableEq S] [DecidableEq D] [DecidableEq I]
    (s : State n C S D I) (c : C) (t : Task n) (call : Call S D) : State n C S D I :=
  match (s.tasks t).pc with
  | .user a0 => match call with
    | .schedule => s.schedule c t a0
    | .semTimedwait m deadline => s.setPc t (.semLock (.named m) deadline)
    | .taskSleep d deadline => s.setPc t (.sleepEnter (.driver d) deadline)
    | .fork => s.fork t
    | .taskCreateKernel => s.taskCreateKernel t
    | .exit => s.exitCall t
    | .wait => s.setPc t .waitScan
  | .semLock r deadline => s.semTimedwait t r deadline
  | .sleepEnter w deadline => s.sleepEnter t w deadline
  | .sleepSwitch w deadline => s.sleepSwitch c t w deadline
  | .relock w deadline result => s.sleepReturn t deadline result w
  | .forkPublish np => s.forkPublish t np
  | .waitScan => s.waitScan t
  | .exitRead => s.exitRead t
  | .exitLock q => s.exitLock t q
  | .exitBody q => s.exitBody t q
  | .exitSwitch => s.switchOut c t { s.tasks t with pc := .dead }
  | _ => s

/-- `current_proc` must name the task whose code runs. -/
def exec [DecidableEq C] [DecidableEq S] [DecidableEq D] [DecidableEq I]
    (s : State n C S D I) (c : C) (call : Call S D) : State n C S D I :=
  match (s.cpus c).stack with
  | none => s
  | some t =>
    if (s.cpus c).proc = some t then s.execTask c t call else s.halt t .noRunningProcess

/-- One turn of `scheduler` on hart `c`. -/
def dispatch [DecidableEq C] [Fintype C] (s : State n C S D I) (c : C) (now : UInt64) :
    State n C S D I :=
  if s.taskLock.isSome ∨ (s.cpus c).stack.isSome then s
  else
    let tasks := taskWakeExpiredLocked now s.tasks
    match pickRunnable c s.cpus tasks with
    | none => { s with tasks := tasks }.setCpu c { s.cpus c with idle := true }
    | some p =>
      ({ s with tasks := tasks }.setTask p ((tasks p).resume c)).setCpu c
        { proc := some p, idle := false, stack := some p }

/-- `sem_post` up to its `task_wake`. -/
def post [DecidableEq S] [DecidableEq I] (s : State n C S D I) (i : I) (m : S) :
    State n C S D I :=
  let v := s.sems (.named m)
  if v.lock.isSome ∨ (s.posts i).isSome then s
  else
    let s' := { s with posted := Function.update s.posted m (s.posted m+1) }
    if v.waiters ≠ 0 then
      { s'.setSem (.named m) { v with lock := some (.inr i), count := v.count+1 } with
        posts := Function.update s.posts i (some m) }
    else s'.setSem (.named m) { v with count := v.count+1 }

/-- `task_wake` in `sem_post` and what follows it. -/
def postWake [DecidableEq S] [DecidableEq D] [DecidableEq I] (s : State n C S D I) (i : I) :
    State n C S D I :=
  match s.posts i with
  | none => s
  | some m =>
    if s.taskLock.isSome then s
    else { s.setSem (.named m) { s.sems (.named m) with lock := none } with
      tasks := taskWakeLocked (.sem (.named m)) false s.tasks,
      posts := Function.update s.posts i none }

/-- `task_wake`. -/
def taskWake [DecidableEq S] [DecidableEq D] (s : State n C S D I) (d : D)
    (wakeAll : Bool) : State n C S D I :=
  if s.taskLock.isSome then s
  else { s with tasks := taskWakeLocked (.driver d) wakeAll s.tasks }

variable [DecidableEq C] [Fintype C] [DecidableEq S] [DecidableEq D] [DecidableEq I]

def step (s : State n C S D I) : Step C S D I → State n C S D I
  | .dispatch c now => s.dispatch c now
  | .exec c call => s.exec c call
  | .post i m => s.post i m
  | .postWake i => s.postWake i
  | .wake d wakeAll => s.taskWake d wakeAll

def run (s : State n C S D I) (steps : List (Step C S D I)) : State n C S D I :=
  steps.foldl step s

end State

/-- The state after `procinit` and `app_init(0)`, with every hart about to enter
`scheduler`. -/
def init (n : ℕ) (C S D I : Type) (counts : S → ℕ) : State n C S D I where
  tasks t := if t = 0 then { Tcb.unused with taskState := .ready, pc := .firstRun }
    else .unused
  cpus _ := { proc := none, idle := false, stack := none }
  sems
    | .childExit _ => semInit n I 0
    | .named m => semInit n I (counts m)
  taskLock := none
  posts _ := none
  nextpid := 1
  acquired _ := 0
  posted _ := 0

end Kernel
end QuardStarNet
