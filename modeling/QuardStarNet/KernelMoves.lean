import QuardStarNet.KernelTasks

/-! What one step of the kernel can do: every step is one of the moves of `Acts`, with the
locks it found free and the place in the code where it began. -/
namespace QuardStarNet
namespace Kernel

variable {n : ℕ} {C S D I : Type}

theorem firstTask_some {p : Task n → Bool} {t : Task n} (h : firstTask p = some t) :
    p t = true :=
  List.find?_some h

theorem firstTask_none {p : Task n → Bool} (h : firstTask p = none) (t : Task n) :
    p t = false := by
  have := List.find?_eq_none.1 h t (List.mem_finRange t)
  simpa using this

theorem pickRunnable_ready [DecidableEq C] [Fintype C] {c : C} {tasks : Task n → Tcb n C S D} {cpus : C → Cpu n}
    {p : Task n} (h : pickRunnable c cpus tasks = some p) : (tasks p).taskState = .ready := by
  unfold pickRunnable at h
  split at h
  next t hf =>
    cases h
    have := firstTask_some hf
    simp only [decide_eq_true_eq] at this
    exact this.1
  next =>
    split at h
    next => cases h
    next t hf =>
      have := firstTask_some hf
      simp only [decide_eq_true_eq] at this
      split at h
      · cases h
      · cases h
        exact this

/-- A hart leaves ready tasks only to an idle one. -/
theorem pickRunnable_yields [DecidableEq C] [Fintype C] (c : C) (cpus : C → Cpu n)
    (tasks : Task n → Tcb n C S D) : (∀ t,(tasks t).taskState ≠ .ready) ∨
      ∃ c',(c' = c ∨ (cpus c').idle = true) ∧ (pickRunnable c' cpus tasks).isSome := by
  unfold pickRunnable
  cases hf : firstTask fun t => (tasks t).taskState = .ready with
  | none => grind [firstTask_none hf]
  | some u =>
    by_cases h : (tasks u).lastHart = some c ∧ ∃ c' ≠ c,(cpus c').idle = true
    · obtain ⟨hu,c',hc,hi⟩ := h
      exact .inr ⟨c',.inr hi,by split <;> simp [hu,hc.symm]⟩
    · exact .inr ⟨c,.inl rfl,by split <;> simp [h]⟩

/-- The places of a running task at which it has to do with no semaphore that it waits for
and with no other task. -/
def Pc.quiet : Pc n S D → Bool
  | .user _ | .semLock (.named _) _ | .sleepEnter (.driver _) _ | .relock (.driver _) _ _
  | .waitScan | .exitRead | .exitLock _ | .exitBody _ => true
  | _ => false

/-- The places in `exit_current_and_run_next` before the task is a zombie. -/
def Pc.exits : Pc n S D → Bool
  | .exitRead | .exitLock _ | .exitBody _ => true
  | _ => false

@[simp] theorem SemRef.ret_quiet (r : SemRef S) (result : ℤ) :
    (r.ret result : Pc n S D).quiet = true := by
  cases r <;> rfl

section update_pc

variable (tasks : Task n → Tcb n C S D) (t u : Task n) (pc : Pc n S D)

@[simp] theorem update_pc_taskState :
    (Function.update tasks t { tasks t with pc := pc } u).taskState = (tasks u).taskState := by
  by_cases h : u = t <;> simp [h]

@[simp] theorem update_pc_parent :
    (Function.update tasks t { tasks t with pc := pc } u).parent = (tasks u).parent := by
  by_cases h : u = t <;> simp [h]

end update_pc

namespace State

section simp_tasks

variable (s : State n C S D I) (t : Task n) (x : Tcb n C S D) (pc : Pc n S D) (c : C)
  (v : Cpu n)

@[simp] theorem setTask_tasks : (s.setTask t x).tasks = Function.update s.tasks t x := rfl
@[simp] theorem setTask_cpus : (s.setTask t x).cpus = s.cpus := rfl
@[simp] theorem setTask_sems : (s.setTask t x).sems = s.sems := rfl
@[simp] theorem setTask_taskLock : (s.setTask t x).taskLock = s.taskLock := rfl
@[simp] theorem setTask_posts : (s.setTask t x).posts = s.posts := rfl
@[simp] theorem setTask_acquired : (s.setTask t x).acquired = s.acquired := rfl
@[simp] theorem setTask_posted : (s.setTask t x).posted = s.posted := rfl

@[simp] theorem setPc_tasks :
    (s.setPc t pc).tasks = Function.update s.tasks t { s.tasks t with pc := pc } := rfl
@[simp] theorem setPc_cpus : (s.setPc t pc).cpus = s.cpus := rfl
@[simp] theorem setPc_sems : (s.setPc t pc).sems = s.sems := rfl
@[simp] theorem setPc_taskLock : (s.setPc t pc).taskLock = s.taskLock := rfl
@[simp] theorem setPc_posts : (s.setPc t pc).posts = s.posts := rfl
@[simp] theorem setPc_acquired : (s.setPc t pc).acquired = s.acquired := rfl
@[simp] theorem setPc_posted : (s.setPc t pc).posted = s.posted := rfl

variable [DecidableEq C]

@[simp] theorem setCpu_tasks : (s.setCpu c v).tasks = s.tasks := rfl
@[simp] theorem setCpu_cpus : (s.setCpu c v).cpus = Function.update s.cpus c v := rfl
@[simp] theorem setCpu_sems : (s.setCpu c v).sems = s.sems := rfl
@[simp] theorem setCpu_taskLock : (s.setCpu c v).taskLock = s.taskLock := rfl
@[simp] theorem setCpu_posts : (s.setCpu c v).posts = s.posts := rfl
@[simp] theorem setCpu_acquired : (s.setCpu c v).acquired = s.acquired := rfl
@[simp] theorem setCpu_posted : (s.setCpu c v).posted = s.posted := rfl

@[simp] theorem switchOut_tasks : (s.switchOut c t x).tasks = Function.update s.tasks t x := rfl
@[simp] theorem switchOut_cpus : (s.switchOut c t x).cpus =
    Function.update s.cpus c { s.cpus c with proc := none, stack := none } := rfl
@[simp] theorem switchOut_sems : (s.switchOut c t x).sems = s.sems := rfl
@[simp] theorem switchOut_taskLock : (s.switchOut c t x).taskLock = none := rfl
@[simp] theorem switchOut_posts : (s.switchOut c t x).posts = s.posts := rfl
@[simp] theorem switchOut_acquired : (s.switchOut c t x).acquired = s.acquired := rfl
@[simp] theorem switchOut_posted : (s.switchOut c t x).posted = s.posted := rfl

end simp_tasks

section simp_sems

variable (s : State n C S D I) (m : SemId n S) (w : Semaphore n I) (r : SemRef S)
  [DecidableEq S]

@[simp] theorem setSem_tasks : (s.setSem m w).tasks = s.tasks := rfl
@[simp] theorem setSem_cpus : (s.setSem m w).cpus = s.cpus := rfl
@[simp] theorem setSem_sems : (s.setSem m w).sems = Function.update s.sems m w := rfl
@[simp] theorem setSem_taskLock : (s.setSem m w).taskLock = s.taskLock := rfl
@[simp] theorem setSem_posts : (s.setSem m w).posts = s.posts := rfl
@[simp] theorem setSem_acquired : (s.setSem m w).acquired = s.acquired := rfl
@[simp] theorem setSem_posted : (s.setSem m w).posted = s.posted := rfl

@[simp] theorem tookToken_tasks : (s.tookToken r).tasks = s.tasks := by cases r <;> rfl
@[simp] theorem tookToken_cpus : (s.tookToken r).cpus = s.cpus := by cases r <;> rfl
@[simp] theorem tookToken_sems : (s.tookToken r).sems = s.sems := by cases r <;> rfl
@[simp] theorem tookToken_taskLock : (s.tookToken r).taskLock = s.taskLock := by cases r <;> rfl
@[simp] theorem tookToken_posts : (s.tookToken r).posts = s.posts := by cases r <;> rfl
@[simp] theorem tookToken_posted : (s.tookToken r).posted = s.posted := by cases r <;> rfl

end simp_sems

/-- Hart `c` executes the code of task `t`, and `current_proc` says so. -/
structure On (s : State n C S D I) (c : C) (t : Task n) : Prop where
  stack : (s.cpus c).stack = some t
  proc : (s.cpus c).proc = some t

end State

open State

variable [DecidableEq C] [DecidableEq S] [DecidableEq D]

inductive Acts (s : State n C S D I) : State n C S D I → Prop
  | stay : Acts s s
  | idle (c : C) (now : UInt64) (hl : s.taskLock = none) (hc : (s.cpus c).stack = none) :
      Acts s ({ s with tasks := taskWakeExpiredLocked now s.tasks }.setCpu c
        { s.cpus c with idle := true })
  | take (c : C) (now : UInt64) (p : Task n) (hl : s.taskLock = none)
      (hc : (s.cpus c).stack = none)
      (hp : (taskWakeExpiredLocked now s.tasks p).taskState = .ready) :
      Acts s (({ s with tasks := taskWakeExpiredLocked now s.tasks }.setTask p
        ((taskWakeExpiredLocked now s.tasks p).resume c)).setCpu c
        { proc := some p, idle := false, stack := some p })
  | stray (c : C) (t : Task n) (hs : (s.cpus c).stack = some t) (hp : (s.cpus c).proc ≠ some t) :
      Acts s (s.halt t .noRunningProcess)
  | move (c : C) (t : Task n) (pc : Pc n S D) (on : s.On c t) (hq : (s.tasks t).pc.quiet = true)
      (hq' : pc.quiet = true ∨ ∃ p, pc = .halted p ∧ p ≠ .sleepNotRunning ∧
        (p = .scheduleNotRunning → (s.tasks t).taskState ≠ .running))
      (hx : pc.exits = true → (s.tasks t).pc.exits = true ∨ (s.tasks t).pid ≠ 0) :
      Acts s (s.setPc t pc)
  | yield (c : C) (t : Task n) (a0 : ℤ) (on : s.On c t) (hpc : (s.tasks t).pc = .user a0)
      (hl : s.taskLock = none) :
      Acts s (s.switchOut c t { s.tasks t with taskState := .ready, pc := .yielded a0 })
  | semTake (c : C) (t : Task n) (r : SemRef S) (deadline : UInt64) (on : s.On c t)
      (hpc : (s.tasks t).pc = .semLock r deadline) (hf : (s.sems (r.id t)).lock = none)
      (hn : 0 < (s.sems (r.id t)).count) :
      Acts s (((s.setSem (r.id t) { s.sems (r.id t) with
        count := (s.sems (r.id t)).count-1 }).tookToken r).setPc t (r.ret 0))
  | semWait (c : C) (t : Task n) (r : SemRef S) (deadline : UInt64) (on : s.On c t)
      (hpc : (s.tasks t).pc = .semLock r deadline) (hf : (s.sems (r.id t)).lock = none)
      (hn : (s.sems (r.id t)).count = 0) :
      Acts s ((s.setSem (r.id t) { s.sems (r.id t) with
        lock := some (.inl t), waiters := (s.sems (r.id t)).waiters+1 }).setPc t
        (.sleepEnter (.sem r) deadline))
  | expired (c : C) (t : Task n) (r : SemRef S) (deadline : UInt64) (result : ℤ)
      (on : s.On c t) (hpc : (s.tasks t).pc = .relock (.sem r) deadline result)
      (hf : (s.sems (r.id t)).lock = none) (hr : result < 0) :
      Acts s ((s.setSem (r.id t) { s.sems (r.id t) with
        waiters := (s.sems (r.id t)).waiters-1 }).setPc t (r.ret (-1)))
  | wokenTake (c : C) (t : Task n) (r : SemRef S) (deadline : UInt64) (result : ℤ)
      (on : s.On c t) (hpc : (s.tasks t).pc = .relock (.sem r) deadline result)
      (hf : (s.sems (r.id t)).lock = none) (hr : 0 ≤ result)
      (hn : 0 < (s.sems (r.id t)).count) :
      Acts s (((s.setSem (r.id t) { s.sems (r.id t) with
        count := (s.sems (r.id t)).count-1,
        waiters := (s.sems (r.id t)).waiters-1 }).tookToken r).setPc t (r.ret 0))
  | wokenWait (c : C) (t : Task n) (r : SemRef S) (deadline : UInt64) (result : ℤ)
      (on : s.On c t) (hpc : (s.tasks t).pc = .relock (.sem r) deadline result)
      (hf : (s.sems (r.id t)).lock = none) (hr : 0 ≤ result)
      (hn : (s.sems (r.id t)).count = 0) :
      Acts s ((s.setSem (r.id t) { s.sems (r.id t) with
        lock := some (.inl t), waiters := (s.sems (r.id t)).waiters-1+1 }).setPc t
        (.sleepEnter (.sem r) deadline))
  | enterDriver (c : C) (t : Task n) (d : D) (deadline : UInt64) (on : s.On c t)
      (hpc : (s.tasks t).pc = .sleepEnter (.driver d) deadline) (hl : s.taskLock = none) :
      Acts s ({ s with taskLock := some t }.setPc t (.sleepSwitch (.driver d) deadline))
  | enter (c : C) (t : Task n) (r : SemRef S) (deadline : UInt64) (on : s.On c t)
      (hpc : (s.tasks t).pc = .sleepEnter (.sem r) deadline) (hl : s.taskLock = none)
      (ho : (s.sems (r.id t)).lock = some (.inl t)) :
      Acts s ((({ s with taskLock := some t } : State n C S D I).setSem (r.id t)
        { s.sems (r.id t) with lock := none }).setPc t (.sleepSwitch (.sem r) deadline))
  | enterPanic (c : C) (t : Task n) (r : SemRef S) (deadline : UInt64) (on : s.On c t)
      (hpc : (s.tasks t).pc = .sleepEnter (.sem r) deadline) (hl : s.taskLock = none)
      (ho : (s.sems (r.id t)).lock ≠ some (.inl t)) :
      Acts s ({ s with taskLock := some t }.halt t .notOwner)
  | sleep (c : C) (t : Task n) (w : Sleeper S D) (deadline : UInt64) (on : s.On c t)
      (hpc : (s.tasks t).pc = .sleepSwitch w deadline)
      (hr : (s.tasks t).taskState = .running) :
      Acts s (s.switchOut c t { s.tasks t with
        waitChannel := some (w.channel t), waitDeadline := deadline, waitResult := 0,
        taskState := .sleeping, pc := .slept w deadline })
  | sleepPanic (c : C) (t : Task n) (w : Sleeper S D) (deadline : UInt64) (on : s.On c t)
      (hpc : (s.tasks t).pc = .sleepSwitch w deadline)
      (hr : (s.tasks t).taskState ≠ .running) :
      Acts s ({ s with taskLock := none }.halt t .sleepNotRunning)
  | reserve (c : C) (t np : Task n) (a0 : ℤ) (on : s.On c t) (hpc : (s.tasks t).pc = .user a0)
      (hl : s.taskLock = none) (hnp : (s.tasks np).taskState = .unInit) :
      Acts s (({ s.setTask np ((s.tasks np).reserve s.nextpid) with
        nextpid := s.nextpid+1 }.setSem (.childExit np) (semInit n I 0)).setPc t
        (.forkPublish np))
  | publish (c : C) (t np : Task n) (on : s.On c t) (hpc : (s.tasks t).pc = .forkPublish np)
      (hl : s.taskLock = none) :
      Acts s ((s.setTask np ((s.tasks np).publish t)).setPc t (.user (s.tasks np).pid))
  | create (c : C) (t np : Task n) (a0 : ℤ) (on : s.On c t) (hpc : (s.tasks t).pc = .user a0)
      (hl : s.taskLock = none) (hnp : (s.tasks np).taskState = .unInit) :
      Acts s (({ s.setTask np ((s.tasks np).kernelTask s.nextpid) with
        nextpid := s.nextpid+1 }.setSem (.childExit np) (semInit n I 0)).setPc t (.user 0))
  | reap (c : C) (t u : Task n) (on : s.On c t) (hpc : (s.tasks t).pc = .waitScan)
      (hl : s.taskLock = none) (hu : (s.tasks u).taskState = .zombie) :
      Acts s ((s.setTask u (s.tasks u).freeprocLocked).setPc t (.user (s.tasks u).pid))
  | scan (c : C) (t : Task n) (on : s.On c t) (hpc : (s.tasks t).pc = .waitScan)
      (hl : s.taskLock = none)
      (hz : ∀ u, (s.tasks u).parent = some t → (s.tasks u).taskState ≠ .zombie) :
      Acts s (s.setPc t (.semLock .childExit waitForever))
  | lockParent (c : C) (t q : Task n) (on : s.On c t) (hpc : (s.tasks t).pc = .exitLock q)
      (hf : (s.sems (.childExit q)).lock = none) :
      Acts s ((s.setSem (.childExit q) { s.sems (.childExit q) with
        lock := some (.inl t) }).setPc t (.exitBody q))
  | unlockParent (c : C) (t q : Task n) (on : s.On c t) (hpc : (s.tasks t).pc = .exitBody q)
      (hl : s.taskLock = none) :
      Acts s ((s.setSem (.childExit q) { s.sems (.childExit q) with
        lock := none }).setPc t .exitRead)
  | exit (c : C) (t q : Task n) (pc : Pc n S D) (lock : Option (Task n ⊕ I)) (on : s.On c t)
      (hpc : (s.tasks t).pc = .exitBody q) (hl : s.taskLock = none)
      (hq : (s.tasks t).parent = some q) (hpc' : pc = .exitSwitch ∨ pc = .halted .notOwner) :
      Acts s (({ s with tasks := s.exitTasks t q (s.sems (.childExit q)),
                        taskLock := some t } : State n C S D I).setSem (.childExit q)
        { s.sems (.childExit q) with
          lock := lock, count := (s.sems (.childExit q)).count+1 }|>.setPc t pc)
  | bury (c : C) (t : Task n) (on : s.On c t) (hpc : (s.tasks t).pc = .exitSwitch) :
      Acts s (s.switchOut c t { s.tasks t with pc := .dead })
  | post (m : S) (hf : (s.sems (.named m)).lock = none) (hw : (s.sems (.named m)).waiters = 0) :
      Acts s (({ s with posted := Function.update s.posted m (s.posted m+1) } :
          State n C S D I).setSem (.named m)
        { s.sems (.named m) with count := (s.sems (.named m)).count+1 })
  | postLock [DecidableEq I] (i : I) (m : S) (hf : (s.sems (.named m)).lock = none)
      (hi : s.posts i = none) (hw : (s.sems (.named m)).waiters ≠ 0) :
      Acts s (({ s with posted := Function.update s.posted m (s.posted m+1),
                        posts := Function.update s.posts i (some m) } :
          State n C S D I).setSem (.named m)
        { s.sems (.named m) with lock := some (.inr i), count := (s.sems (.named m)).count+1 })
  | postWake [DecidableEq I] (i : I) (m : S) (hi : s.posts i = some m)
      (hl : s.taskLock = none) :
      Acts s (({ s with tasks := taskWakeLocked (.sem (.named m)) false s.tasks,
                        posts := Function.update s.posts i none } :
          State n C S D I).setSem (.named m) { s.sems (.named m) with lock := none })
  | wake (d : D) (wakeAll : Bool) (hl : s.taskLock = none) :
      Acts s { s with tasks := taskWakeLocked (.driver d) wakeAll s.tasks }

namespace State

variable {s : State n C S D I} {c : C} {t : Task n}

theorem dispatch_acts [Fintype C] (s : State n C S D I) (c : C) (now : UInt64) :
    Acts s (s.dispatch c now) := by
  unfold dispatch
  split
  next => exact .stay
  next hg =>
    simp only [not_or,Bool.not_eq_true,Option.isSome_eq_false_iff,Option.isNone_iff_eq_none] at hg
    dsimp only
    split
    next => exact .idle c now hg.1 hg.2
    next p hp => exact .take c now p hg.1 hg.2 (pickRunnable_ready hp)

theorem schedule_acts {a0 : ℤ} (on : s.On c t) (hpc : (s.tasks t).pc = .user a0) :
    Acts s (s.schedule c t a0) := by
  unfold schedule
  split
  next => exact .stay
  next hl =>
    split
    next hr =>
      exact .move c t (.halted .scheduleNotRunning) on (by rw [hpc]; rfl)
        (.inr ⟨_,rfl,by simp,fun _ => hr⟩) (by simp [Pc.exits])
    next hr => exact .yield c t a0 on hpc (by simpa using hl)

theorem semLock_acts {r : SemRef S} {deadline : UInt64} (on : s.On c t)
    (hpc : (s.tasks t).pc = .semLock r deadline) : Acts s (s.semTimedwait t r deadline) := by
  unfold semTimedwait semLoop
  split
  next => exact .stay
  next hf =>
    have hf : (s.sems (r.id t)).lock = none := by simpa using hf
    dsimp only
    split
    next hn => exact .semWait c t r deadline on hpc hf hn
    next hn => exact .semTake c t r deadline on hpc hf (by omega)

theorem sleepReturn_acts {w : Sleeper S D} {deadline : UInt64} {result : ℤ} (on : s.On c t)
    (hpc : (s.tasks t).pc = .relock w deadline result) :
    Acts s (s.sleepReturn t deadline result w) := by
  cases w with
  | driver d => exact .move c t _ on (by rw [hpc]; rfl) (.inl rfl) (by simp [Pc.exits])
  | sem r =>
    unfold sleepReturn
    dsimp only
    split
    next => exact .stay
    next hf =>
      have hf : (s.sems (r.id t)).lock = none := by simpa using hf
      split
      next hr => exact .expired c t r deadline result on hpc hf hr
      next hr =>
        unfold semLoop
        dsimp only [setSem_sems]
        rw [Function.update_self]
        split
        next hn =>
          have := Acts.wokenWait c t r deadline result on hpc hf (by omega) hn
          simpa [setSem,setPc,setTask] using this
        next hn =>
          have := Acts.wokenTake c t r deadline result on hpc hf (by omega)
            (Nat.pos_of_ne_zero hn)
          simpa [setSem,setPc,setTask] using this

theorem spinUnlock_acts [DecidableEq I] {r : SemRef S} {deadline : UInt64} (on : s.On c t)
    (hpc : (s.tasks t).pc = .sleepEnter (.sem r) deadline) (hl : s.taskLock = none) :
    Acts s ({ s with taskLock := some t }.spinUnlock t (r.id t)
      (.sleepSwitch (.sem r) deadline)) := by
  unfold spinUnlock
  split
  next ho => exact .enter c t r deadline on hpc hl ho
  next ho => exact .enterPanic c t r deadline on hpc hl ho

theorem sleepEnter_acts [DecidableEq I] {w : Sleeper S D} {deadline : UInt64} (on : s.On c t)
    (hpc : (s.tasks t).pc = .sleepEnter w deadline) : Acts s (s.sleepEnter t w deadline) := by
  unfold sleepEnter
  split
  next => exact .stay
  next hl =>
    have hl : s.taskLock = none := by simpa using hl
    cases w with
    | driver d => exact .enterDriver c t d deadline on hpc hl
    | sem r => exact spinUnlock_acts on hpc hl

theorem sleepSwitch_acts {w : Sleeper S D} {deadline : UInt64} (on : s.On c t)
    (hpc : (s.tasks t).pc = .sleepSwitch w deadline) :
    Acts s (s.sleepSwitch c t w deadline) := by
  unfold sleepSwitch
  split
  next hr => exact .sleepPanic c t w deadline on hpc hr
  next hr => exact .sleep c t w deadline on hpc (not_not.1 hr)

theorem fork_acts {a0 : ℤ} (on : s.On c t) (hpc : (s.tasks t).pc = .user a0) :
    Acts s (s.fork t) := by
  unfold fork
  split
  next => exact .stay
  next hl =>
    split
    next => exact .move c t _ on (by rw [hpc]; rfl) (.inl rfl) (by simp [Pc.exits])
    next np hf => exact .reserve c t np a0 on hpc (by simpa using hl) (by simpa using firstTask_some hf)

theorem taskCreateKernel_acts {a0 : ℤ} (on : s.On c t) (hpc : (s.tasks t).pc = .user a0) :
    Acts s (s.taskCreateKernel t) := by
  unfold taskCreateKernel
  split
  next => exact .stay
  next hl =>
    split
    next => exact .move c t _ on (by rw [hpc]; rfl) (.inl rfl) (by simp [Pc.exits])
    next np hf => exact .create c t np a0 on hpc (by simpa using hl) (by simpa using firstTask_some hf)

theorem forkPublish_acts {np : Task n} (on : s.On c t)
    (hpc : (s.tasks t).pc = .forkPublish np) : Acts s (s.forkPublish t np) := by
  unfold forkPublish
  split
  next => exact .stay
  next hl => exact .publish c t np on hpc (by simpa using hl)

theorem waitScan_acts (on : s.On c t) (hpc : (s.tasks t).pc = .waitScan) :
    Acts s (s.waitScan t) := by
  unfold waitScan
  split
  next => exact .stay
  next hl =>
    have hl : s.taskLock = none := by simpa using hl
    split
    next u hf =>
      have hu := firstTask_some hf
      simp only [decide_eq_true_eq] at hu
      exact .reap c t u on hpc hl hu.2
    next hf =>
      split
      next => exact .scan c t on hpc hl fun u hp hz => by simpa [hp,hz] using firstTask_none hf u
      next => exact .move c t _ on (by rw [hpc]; rfl) (.inl rfl) (by simp [Pc.exits])

theorem exitCall_acts {a0 : ℤ} (on : s.On c t) (hpc : (s.tasks t).pc = .user a0) :
    Acts s (s.exitCall t) := by
  have hq : (s.tasks t).pc.quiet = true := by rw [hpc]; rfl
  unfold exitCall
  split
  next => exact .stay
  next =>
    split
    next => exact .move c t (.halted .initExiting) on hq (.inr ⟨_,rfl,by simp,by simp⟩) (by simp [Pc.exits])
    next hpid => exact .move c t _ on hq (.inl rfl) fun _ => .inr hpid

theorem exitRead_acts (on : s.On c t) (hpc : (s.tasks t).pc = .exitRead) :
    Acts s (s.exitRead t) := by
  have hq : (s.tasks t).pc.quiet = true := by rw [hpc]; rfl
  unfold exitRead
  split
  next => exact .stay
  next =>
    split
    next => exact .move c t (.halted .nullParent) on hq (.inr ⟨_,rfl,by simp,by simp⟩) (by simp [Pc.exits])
    next => exact .move c t _ on hq (.inl rfl) fun _ => .inl (by rw [hpc]; rfl)

theorem exitLock_acts {q : Task n} (on : s.On c t) (hpc : (s.tasks t).pc = .exitLock q) :
    Acts s (s.exitLock t q) := by
  unfold exitLock
  dsimp only
  split
  next => exact .stay
  next hf => exact .lockParent c t q on hpc (by simpa using hf)

theorem exitBody_acts [DecidableEq I] {q : Task n} (on : s.On c t)
    (hpc : (s.tasks t).pc = .exitBody q) : Acts s (s.exitBody t q) := by
  unfold exitBody spinUnlock
  split
  next => exact .stay
  next hl =>
    have hl : s.taskLock = none := by simpa using hl
    split
    next hq =>
      dsimp only
      split
      next =>
        have := Acts.exit c t q .exitSwitch none on hpc hl hq (.inl rfl)
        simpa [setSem,setPc,setTask] using this
      next => exact .exit c t q _ (s.sems (.childExit q)).lock on hpc hl hq (.inr rfl)
    next =>
      split
      next => exact .unlockParent c t q on hpc hl
      next =>
        exact .move c t (.halted .notOwner) on (by rw [hpc]; rfl) (.inr ⟨_,rfl,by simp,by simp⟩)
          (by simp [Pc.exits])

theorem execTask_acts [DecidableEq I] (on : s.On c t) (call : Call S D) :
    Acts s (s.execTask c t call) := by
  unfold execTask
  split
  next a0 hpc =>
    have hq : (s.tasks t).pc.quiet = true := by rw [hpc]; rfl
    cases call with
    | schedule => exact schedule_acts on hpc
    | semTimedwait m deadline => exact .move c t _ on hq (.inl rfl) (by simp [Pc.exits])
    | taskSleep d deadline => exact .move c t _ on hq (.inl rfl) (by simp [Pc.exits])
    | fork => exact fork_acts on hpc
    | taskCreateKernel => exact taskCreateKernel_acts on hpc
    | exit => exact exitCall_acts on hpc
    | wait => exact .move c t _ on hq (.inl rfl) (by simp [Pc.exits])
  next hpc => exact semLock_acts on hpc
  next hpc => exact sleepEnter_acts on hpc
  next hpc => exact sleepSwitch_acts on hpc
  next hpc => exact sleepReturn_acts on hpc
  next hpc => exact forkPublish_acts on hpc
  next hpc => exact waitScan_acts on hpc
  next hpc => exact exitRead_acts on hpc
  next hpc => exact exitLock_acts on hpc
  next hpc => exact exitBody_acts on hpc
  next hpc => exact .bury c t on hpc
  next => exact .stay

theorem post_acts [DecidableEq I] (s : State n C S D I) (i : I) (m : S) : Acts s (s.post i m) := by
  unfold post
  dsimp only
  split
  next => exact .stay
  next hg =>
    simp only [not_or,Bool.not_eq_true,Option.isSome_eq_false_iff,Option.isNone_iff_eq_none] at hg
    split
    next hw => exact .postLock i m hg.1 hg.2 hw
    next hw => exact .post m hg.1 (not_not.1 hw)

theorem postWake_acts [DecidableEq I] (s : State n C S D I) (i : I) : Acts s (s.postWake i) := by
  unfold postWake
  split
  next => exact .stay
  next m hi =>
    split
    next => exact .stay
    next hl => exact .postWake i m hi (by simpa using hl)

/-- Every step of the kernel is one of the moves. -/
theorem step_acts [Fintype C] [DecidableEq I] (s : State n C S D I) (e : Step C S D I) :
    Acts s (s.step e) := by
  cases e with
  | dispatch c now => exact dispatch_acts s c now
  | exec c call =>
    change Acts s (s.exec c call)
    unfold exec
    split
    next => exact .stay
    next t hs =>
      split
      next hp => exact execTask_acts ⟨hs,hp⟩ call
      next hp => exact .stray c t hs hp
  | post i m => exact post_acts s i m
  | postWake i => exact postWake_acts s i
  | wake d wakeAll =>
    change Acts s (s.taskWake d wakeAll)
    unfold taskWake
    split
    next => exact .stay
    next hl => exact .wake d wakeAll (by simpa using hl)

end State
end Kernel
end QuardStarNet
