import QuardStarNet.KernelMoves

/-! The scheduler on many harts. A task that executes is `Running` and stands in `proc` of
one hart; it is recycled only after the hart that ran it has left its kernel stack. -/
namespace QuardStarNet
namespace Kernel

variable {n : ℕ} {C S D I : Type}

/-- A context that `__switch` can enter. -/
def Pc.saved : Pc n S D → Bool
  | .firstRun | .yielded _ | .slept _ _ => true
  | _ => false

/-- A place in the code that a hart executes. -/
def Pc.live : Pc n S D → Bool
  | .firstRun | .yielded _ | .slept _ _ | .dead | .exitSwitch => false
  | _ => true

/-- The places between taking `task_lock` and `__switch`. -/
def Pc.switches : Pc n S D → Bool
  | .sleepSwitch _ _ | .exitSwitch => true
  | _ => false

def Pc.isHalted : Pc n S D → Bool
  | .halted _ => true
  | _ => false

/-- The places that a task reaches by its own code alone. -/
def Pc.works : Pc n S D → Bool
  | .forkPublish _ | .sleepSwitch _ _ => false
  | .halted p => p ≠ .scheduleNotRunning ∧ p ≠ .sleepNotRunning
  | pc => pc.live

/-- The state of a task and the place in its code belong together. -/
def Tcb.Fits (t : Task n) (x : Tcb n C S D) : Prop :=
  match x.taskState with
  | .unInit | .creating => x.pc = .dead
  | .ready => x.pc.saved = true
  | .running => x.pc.live = true
  | .sleeping => ∃ w deadline, x.pc = .slept w deadline ∧ x.waitChannel = some (w.channel t)
  | .zombie => x.pc = .exitSwitch ∨ x.pc = .dead ∨ x.pc.isHalted = true

/-- The task is as it was, or it was asleep and is `Ready` now; only its parent may differ
otherwise. -/
def Tcb.Woken (x y : Tcb n C S D) : Prop :=
  y.pc = x.pc ∧ (y.taskState = x.taskState ∧ y.waitChannel = x.waitChannel ∧
    y.waitResult = x.waitResult ∨ x.taskState = .sleeping ∧ y.taskState = .ready)

/-- What holds between harts, tasks and `task_lock` in every state. -/
structure Sched (tasks : Task n → Tcb n C S D) (cpus : C → Cpu n) (lock : Option (Task n)) :
    Prop where
  stack : ∀ c, (cpus c).stack = (cpus c).proc
  inj : ∀ c c' t, (cpus c).proc = some t → (cpus c').proc = some t → c = c'
  running : ∀ t, (tasks t).taskState = .running → ∃ c, (cpus c).proc = some t
  onCpu : ∀ c t, (cpus c).proc = some t → (tasks t).taskState = .running ∨
    (tasks t).taskState = .zombie ∧ lock = some t
  fits : ∀ t, (tasks t).Fits t
  holder : ∀ t, lock = some t → (tasks t).pc.switches = true ∨ (tasks t).pc.isHalted = true
  switching : ∀ t, (tasks t).pc.switches = true → lock = some t
  forking : ∀ t np, (tasks t).pc = .forkPublish np → (tasks np).taskState = .creating
  forkOne : ∀ t t' np, (tasks t).pc = .forkPublish np → (tasks t').pc = .forkPublish np → t = t'
  doomed : ∀ t, (tasks t).taskState = .zombie → (tasks t).pc = .dead ∨ lock = some t
  panic : ∀ t, (tasks t).pc ≠ .halted .scheduleNotRunning ∧
    (tasks t).pc ≠ .halted .sleepNotRunning

namespace Sched

variable {tasks : Task n → Tcb n C S D} {cpus : C → Cpu n} {lock : Option (Task n)} {c : C}
  {t : Task n}

theorem works_live {pc : Pc n S D} (h : pc.works = true) : pc.live = true := by
  cases pc <;> simp_all [Pc.works,Pc.live]

theorem works_switches {pc : Pc n S D} (h : pc.works = true) : pc.switches = false := by
  cases pc <;> simp_all [Pc.works,Pc.live,Pc.switches]

theorem works_fork {pc : Pc n S D} (h : pc.works = true) (np : Task n) :
    pc ≠ .forkPublish np := by
  rintro rfl
  cases h

theorem works_panic {pc : Pc n S D} (h : pc.works = true) :
    pc ≠ .halted .scheduleNotRunning ∧ pc ≠ .halted .sleepNotRunning := by
  constructor <;> rintro rfl <;> cases h

/-- A hart that executes the code of a task, not yet stopped and not about to leave, runs a
`Running` task that does not hold `task_lock`. -/
theorem on_running (h : Sched tasks cpus lock) (hc : (cpus c).proc = some t)
    (hpc : (tasks t).pc.works = true) (hh : (tasks t).pc.isHalted = false) :
    (tasks t).taskState = .running ∧ lock ≠ some t := by
  have hlock : lock ≠ some t := fun hl => by
    rcases h.holder t hl with h' | h'
    · simp [works_switches hpc] at h'
    · simp [hh] at h'
  exact ⟨(h.onCpu c t hc).resolve_right fun h' => hlock h'.2,hlock⟩

theorem sleep_running (h : Sched tasks cpus lock) {w : Sleeper S D} {deadline : UInt64}
    (hc : (cpus c).proc = some t) (hpc : (tasks t).pc = .sleepSwitch w deadline) :
    (tasks t).taskState = .running := by
  refine (h.onCpu c t hc).resolve_right fun hz => ?_
  have := h.fits t
  simp [Tcb.Fits,hz.1,hpc,Pc.isHalted] at this

/-- A running task goes on in its own code. -/
theorem work (h : Sched tasks cpus lock) {pc : Pc n S D} (hr : (tasks t).taskState = .running)
    (hlock : lock ≠ some t) (hpc : pc.works = true) :
    Sched (Function.update tasks t { tasks t with pc := pc }) cpus lock := by
  have hlive := works_live hpc
  have hsw := works_switches hpc
  have hnf := works_fork hpc
  have hnp := works_panic hpc
  obtain ⟨h1,h2,h3,h4,h5,h6,h7,h8,h9,h10,h11⟩ := h
  constructor <;> grind [Function.update_apply,Tcb.Fits]

theorem on_work (h : Sched tasks cpus lock) {pc : Pc n S D} (hc : (cpus c).proc = some t)
    (hpc : (tasks t).pc.works = true) (hh : (tasks t).pc.isHalted = false)
    (hpc' : pc.works = true) :
    Sched (Function.update tasks t { tasks t with pc := pc }) cpus lock := by
  obtain ⟨hr,hl⟩ := h.on_running hc hpc hh
  exact h.work hr hl hpc'

/-- Sleeping tasks may be woken and parents may change. -/
theorem wakes {tasks' : Task n → Tcb n C S D} (h : Sched tasks cpus lock)
    (hw : ∀ u, (tasks u).Woken (tasks' u)) : Sched tasks' cpus lock := by
  obtain ⟨h1,h2,h3,h4,h5,h6,h7,h8,h9,h10,h11⟩ := h
  constructor <;> grind [Tcb.Woken,Tcb.Fits,Pc.saved]

theorem idle [DecidableEq C] (h : Sched tasks cpus lock) (b : Bool) :
    Sched tasks (Function.update cpus c { cpus c with idle := b }) lock := by
  have hp : ∀ c', (Function.update cpus c { cpus c with idle := b } c').proc = (cpus c').proc ∧
      (Function.update cpus c { cpus c with idle := b } c').stack = (cpus c').stack := by
    intro c'
    by_cases he : c' = c
    · subst he
      simp
    · simp [he]
  obtain ⟨h1,h2,h3,h4,h5,h6,h7,h8,h9,h10,h11⟩ := h
  constructor <;> simpa [hp]

theorem resume_works {x : Tcb n C S D} (h : x.pc.saved = true) (c : C) :
    (x.resume c).pc.works = true := by
  unfold Tcb.resume
  revert h
  cases hx : x.pc <;> simp [Pc.saved,Pc.works,Pc.live]

@[simp] theorem resume_taskState (x : Tcb n C S D) (c : C) :
    (x.resume c).taskState = .running := by
  unfold Tcb.resume
  cases hx : x.pc <;> rfl

theorem proc_other [DecidableEq C] {c' : C} {u : Task n} {v : Cpu n}
    (hc' : (cpus c').proc = some u) (hc : (cpus c).proc ≠ some u) :
    (Function.update cpus c v c').proc = some u := by
  rwa [Function.update_of_ne]
  rintro rfl
  exact hc hc'

/-- The scheduler of hart `c` enters a `Ready` task. -/
theorem take [DecidableEq C] (h : Sched tasks cpus none) (hc : (cpus c).stack = none)
    (ht : (tasks t).taskState = .ready) :
    Sched (Function.update tasks t ((tasks t).resume c))
      (Function.update cpus c { proc := some t, idle := false, stack := some t }) none := by
  have hs : (tasks t).pc.saved = true := by simpa [Tcb.Fits,ht] using h.fits t
  have hw := resume_works hs c
  have hlive := works_live hw
  have hsw := works_switches hw
  have hnf := works_fork hw
  have hnp := works_panic hw
  have hr := resume_taskState (tasks t) c
  generalize (tasks t).resume c = x at hlive hsw hnf hnp hr ⊢
  have hrun : ∀ u, (Function.update tasks t x u).taskState = .running → ∃ c', (Function.update
      cpus c { proc := some t, idle := false, stack := some t } c').proc = some u := by
    intro u hu
    by_cases he : u = t
    · exact ⟨c,by simp [he]⟩
    · rw [Function.update_of_ne he] at hu
      exact (h.running u hu).imp fun c' hc' => proc_other hc' (by simp [← h.stack,hc])
  obtain ⟨h1,h2,h3,h4,h5,h6,h7,h8,h9,h10,h11⟩ := h
  constructor <;> grind [Function.update_apply,Tcb.Fits]

/-- The task on hart `c` switches to the scheduler, which releases `task_lock`. -/
theorem leave [DecidableEq C] (h : Sched tasks cpus lock) {x : Tcb n C S D}
    (hc : (cpus c).proc = some t) (hl : ∀ u, lock = some u → u = t)
    (hx : x.Fits t) (hr : x.taskState ≠ .running)
    (hpc : x.pc.saved = true ∧ x.taskState ≠ .zombie ∨ x.pc = .dead) :
    Sched (Function.update tasks t x)
      (Function.update cpus c { cpus c with proc := none, stack := none }) none := by
  have hsw : x.pc.switches = false := by
    cases hx : x.pc <;> simp_all [Pc.saved,Pc.switches]
  have hnf : ∀ np, x.pc ≠ .forkPublish np := by
    cases hx : x.pc <;> simp_all [Pc.saved]
  have hnp : ∀ p, x.pc ≠ .halted p := by
    cases hx : x.pc <;> simp_all [Pc.saved]
  have hrun : ∀ u, (Function.update tasks t x u).taskState = .running → ∃ c', (Function.update
      cpus c { cpus c with proc := none, stack := none } c').proc = some u := by
    intro u hu
    by_cases he : u = t
    · simp [he,hr] at hu
    · rw [Function.update_of_ne he] at hu
      exact (h.running u hu).imp fun c' hc' => proc_other hc' (by simp [hc,Ne.symm he])
  obtain ⟨h1,h2,h3,h4,h5,h6,h7,h8,h9,h10,h11⟩ := h
  constructor <;> grind [Function.update_apply]

/-- `task_sleep` holds `task_lock`. -/
theorem enter (h : Sched tasks cpus none) {pc : Pc n S D}
    (hr : (tasks t).taskState = .running)
    (hpc : (∃ w deadline, pc = .sleepSwitch w deadline) ∨ pc = .halted .notOwner) :
    Sched (Function.update tasks t { tasks t with pc := pc }) cpus (some t) := by
  obtain ⟨h1,h2,h3,h4,h5,h6,h7,h8,h9,h10,h11⟩ := h
  constructor <;> grind [Function.update_apply,Tcb.Fits,Pc.live,Pc.switches,Pc.isHalted]

theorem reserve (h : Sched tasks cpus none) {np : Task n} {x : Tcb n C S D}
    (hr : (tasks t).taskState = .running) (hnp : (tasks np).taskState = .unInit)
    (hx : x.taskState = .creating) (hpc : x.pc = (tasks np).pc) :
    Sched (Function.update (Function.update tasks np x) t
      { Function.update tasks np x t with pc := .forkPublish np }) cpus none := by
  obtain ⟨h1,h2,h3,h4,h5,h6,h7,h8,h9,h10,h11⟩ := h
  constructor <;> grind [Function.update_apply,Tcb.Fits,Pc.live,Pc.switches]

/-- `__sys_fork` makes the new task `Ready`. -/
theorem publish (h : Sched tasks cpus none) {np : Task n} {x : Tcb n C S D} {a0 : ℤ}
    (hr : (tasks t).taskState = .running) (hf : (tasks t).pc = .forkPublish np)
    (hx : x.taskState = .ready) (hpc : x.pc = .firstRun) :
    Sched (Function.update (Function.update tasks np x) t
      { Function.update tasks np x t with pc := .user a0 }) cpus none := by
  obtain ⟨h1,h2,h3,h4,h5,h6,h7,h8,h9,h10,h11⟩ := h
  constructor <;> grind [Function.update_apply,Tcb.Fits,Pc.live,Pc.switches,Pc.saved]

/-- An unused slot becomes a `Ready` task at once. -/
theorem create (h : Sched tasks cpus none) {np : Task n} {x : Tcb n C S D} {a0 : ℤ}
    (hr : (tasks t).taskState = .running) (hnp : (tasks np).taskState = .unInit)
    (hx : x.taskState = .ready) (hpc : x.pc = .firstRun) :
    Sched (Function.update (Function.update tasks np x) t
      { Function.update tasks np x t with pc := .user a0 }) cpus none := by
  obtain ⟨h1,h2,h3,h4,h5,h6,h7,h8,h9,h10,h11⟩ := h
  constructor <;> grind [Function.update_apply,Tcb.Fits,Pc.live,Pc.switches,Pc.saved]

/-- A zombie that has left its hart is freed. -/
theorem reap (h : Sched tasks cpus none) {u : Task n} {x : Tcb n C S D} {a0 : ℤ}
    (hr : (tasks t).taskState = .running) (hu : (tasks u).taskState = .zombie)
    (hx : x.taskState = .unInit) (hpc : x.pc = (tasks u).pc) :
    Sched (Function.update (Function.update tasks u x) t
      { Function.update tasks u x t with pc := .user a0 }) cpus none := by
  obtain ⟨h1,h2,h3,h4,h5,h6,h7,h8,h9,h10,h11⟩ := h
  constructor <;> grind [Function.update_apply,Tcb.Fits,Pc.live,Pc.switches]

/-- A task becomes a zombie and holds `task_lock` until its switch. -/
theorem exit {tasks' : Task n → Tcb n C S D} (h : Sched tasks cpus none)
    (hr : (tasks t).taskState = .running) (hw : ∀ u, u ≠ t → (tasks u).Woken (tasks' u))
    (hx : (tasks' t).taskState = .zombie)
    (hpc : (tasks' t).pc = .exitSwitch ∨ (tasks' t).pc = .halted .notOwner) :
    Sched tasks' cpus (some t) := by
  obtain ⟨h1,h2,h3,h4,h5,h6,h7,h8,h9,h10,h11⟩ := h
  constructor <;> grind [Tcb.Woken,Tcb.Fits,Pc.saved,Pc.switches,Pc.isHalted]

end Sched

theorem taskWakeLocked_cases [DecidableEq S] [DecidableEq D] (ch : Channel n S D) (wakeAll : Bool)
    (tasks : Task n → Tcb n C S D) (u : Task n) :
    taskWakeLocked ch wakeAll tasks u = tasks u ∨
      ((tasks u).taskState = .sleeping ∧ (tasks u).waitChannel = some ch ∧
        taskWakeLocked ch wakeAll tasks u = (tasks u).woken 0) := by
  unfold taskWakeLocked
  split
  next =>
    dsimp only
    split
    next h =>
      simp only [Tcb.asleepOn,decide_eq_true_eq] at h
      exact .inr ⟨h.1,h.2,rfl⟩
    next => exact .inl rfl
  next =>
    cases ht : firstTask fun t => (tasks t).asleepOn ch with
    | none => exact .inl rfl
    | some t =>
      have := firstTask_some ht
      simp only [Tcb.asleepOn,decide_eq_true_eq] at this
      by_cases he : u = t
      · subst he
        exact .inr ⟨this.1,this.2,by simp⟩
      · exact .inl (by simp [he])

theorem taskWakeLocked_woken [DecidableEq S] [DecidableEq D] (ch : Channel n S D)
    (wakeAll : Bool) (tasks : Task n → Tcb n C S D) (u : Task n) :
    (tasks u).Woken (taskWakeLocked ch wakeAll tasks u) := by
  rcases taskWakeLocked_cases ch wakeAll tasks u with h | ⟨hs,-,h⟩
  · rw [h]
    exact ⟨rfl,.inl ⟨rfl,rfl,rfl⟩⟩
  · rw [h]
    exact ⟨rfl,.inr ⟨hs,rfl⟩⟩

theorem taskWakeExpiredLocked_woken (now : UInt64) (tasks : Task n → Tcb n C S D) (u : Task n) :
    (tasks u).Woken (taskWakeExpiredLocked now tasks u) := by
  unfold taskWakeExpiredLocked
  split
  next h => exact ⟨rfl,.inr ⟨h.1,rfl⟩⟩
  next => exact ⟨rfl,.inl ⟨rfl,rfl,rfl⟩⟩

namespace State

variable [DecidableEq S] [DecidableEq D] (s : State n C S D I) (t q : Task n)
  (v : Semaphore n I)

theorem exitTasks_self : (s.exitTasks t q v t).taskState = .zombie := by
  have h : (childrenProcClearLocked t (Function.update s.tasks t
      { s.tasks t with taskState := .zombie }) t).taskState = .zombie := by
    unfold childrenProcClearLocked
    split <;> simp
  unfold exitTasks
  dsimp only
  split
  next =>
    rcases taskWakeLocked_cases (.sem (.childExit q)) false (childrenProcClearLocked t
      (Function.update s.tasks t { s.tasks t with taskState := .zombie })) t with h' | ⟨hs,-,-⟩
    · rw [h',h]
    · rw [h] at hs
      cases hs
  next => exact h

theorem exitTasks_woken {u : Task n} (hu : u ≠ t) : (s.tasks u).Woken (s.exitTasks t q v u) := by
  have h : (s.tasks u).Woken (childrenProcClearLocked t (Function.update s.tasks t
      { s.tasks t with taskState := .zombie }) u) := by
    unfold childrenProcClearLocked
    split <;> simp [hu,Tcb.Woken]
  unfold exitTasks
  dsimp only
  split
  next =>
    rcases taskWakeLocked_cases (.sem (.childExit q)) false (childrenProcClearLocked t
      (Function.update s.tasks t { s.tasks t with taskState := .zombie })) u with h' | ⟨hs,-,h'⟩
    · rwa [h']
    · rw [h']
      rcases h with ⟨hpc,⟨hst,-⟩ | ⟨-,hr⟩⟩
      · exact ⟨hpc,.inr ⟨hst ▸ hs,rfl⟩⟩
      · rw [hr] at hs
        cases hs
  next => exact h

end State

namespace Acts

variable {s s' : State n C S D I}

theorem woken_unInit {x y : Tcb n C S D} (h : x.Woken y) (hx : x.taskState ≠ .unInit) :
    y.taskState ≠ .unInit := by
  rcases h.2 with ⟨hs,-⟩ | ⟨-,hr⟩
  · rwa [hs]
  · simp [hr]

theorem quiet_works {pc : Pc n S D} (h : pc.quiet = true) : pc.works = true := by
  cases pc <;> simp_all [Pc.quiet,Pc.works,Pc.live]

theorem quiet_isHalted {pc : Pc n S D} (h : pc.quiet = true) : pc.isHalted = false := by
  cases pc <;> simp_all [Pc.quiet,Pc.isHalted]

variable [DecidableEq C] [DecidableEq S] [DecidableEq D]

/-- One step of the kernel keeps the harts, the tasks and `task_lock` together. -/
theorem sched (ha : Acts s s') (h : Sched s.tasks s.cpus s.taskLock) :
    Sched s'.tasks s'.cpus s'.taskLock := by
  cases ha with
  | stay | post | postLock => exact h
  | idle c now hl hc => exact (h.wakes (taskWakeExpiredLocked_woken now s.tasks)).idle true
  | take c now p hl hc hp =>
    have h' := h.wakes (taskWakeExpiredLocked_woken now s.tasks)
    rw [hl] at h'
    simpa [hl] using h'.take hc hp
  | stray c t hs hp => exact absurd (h.stack c ▸ hs) hp
  | postWake | wake => exact h.wakes (taskWakeLocked_woken _ _ s.tasks)
  | move c t pc on hq hq' hx =>
    have hr := h.on_running on.proc (quiet_works hq) (quiet_isHalted hq)
    refine h.work hr.1 hr.2 ?_
    rcases hq' with hq' | ⟨p,rfl,hs,hn⟩
    · exact quiet_works hq'
    · have hp : p ≠ .scheduleNotRunning := fun he => hn he hr.1
      simp [Pc.works,hs,hp]
  | yield c t a0 on hpc hl =>
    exact h.leave on.proc (by simp [hl]) (by simp [Tcb.Fits,Pc.saved]) (by simp) (by simp [Pc.saved])
  | semTake c t r deadline on hpc | wokenTake c t r deadline result on hpc =>
    simpa using h.on_work on.proc (by rw [hpc]; rfl) (by rw [hpc]; rfl) (quiet_works (r.ret_quiet 0))
  | expired c t r deadline result on hpc =>
    exact h.on_work on.proc (by rw [hpc]; rfl) (by rw [hpc]; rfl) (quiet_works (r.ret_quiet (-1)))
  | semWait c t r deadline on hpc | wokenWait c t r deadline result on hpc | scan c t on hpc
  | lockParent c t q on hpc | unlockParent c t q on hpc =>
    exact h.on_work on.proc (by rw [hpc]; rfl) (by rw [hpc]; rfl) rfl
  | enterDriver c t d deadline on hpc hl | enter c t r deadline on hpc hl =>
    have hr := h.on_running on.proc (by rw [hpc]; rfl) (by rw [hpc]; rfl)
    rw [hl] at h
    exact h.enter hr.1 (.inl ⟨_,_,rfl⟩)
  | enterPanic c t r deadline on hpc hl ho =>
    have hr := h.on_running on.proc (by rw [hpc]; rfl) (by rw [hpc]; rfl)
    rw [hl] at h
    exact h.enter hr.1 (.inr rfl)
  | sleep c t w deadline on hpc hr =>
    have hlock := h.switching t (by rw [hpc]; rfl)
    exact h.leave on.proc (by simp [hlock,eq_comm]) ⟨w,deadline,rfl,rfl⟩ (by simp)
      (.inl ⟨rfl,by simp⟩)
  | sleepPanic c t w deadline on hpc hr => exact absurd (h.sleep_running on.proc hpc) hr
  | reserve c t np a0 on hpc hl hnp =>
    have hr := h.on_running on.proc (by rw [hpc]; rfl) (by rw [hpc]; rfl)
    rw [hl] at h
    simpa [hl] using h.reserve (x := (s.tasks np).reserve s.nextpid) hr.1 hnp rfl rfl
  | publish c t np on hpc hl =>
    have hr : (s.tasks t).taskState = .running := (h.onCpu c t on.proc).resolve_right (by simp [hl])
    rw [hl] at h
    simpa [hl] using h.publish hr hpc rfl rfl
  | create c t np a0 on hpc hl hnp =>
    have hr := h.on_running on.proc (by rw [hpc]; rfl) (by rw [hpc]; rfl)
    rw [hl] at h
    simpa [hl] using h.create hr.1 hnp rfl rfl
  | reap c t u on hpc hl hu =>
    have hr := h.on_running on.proc (by rw [hpc]; rfl) (by rw [hpc]; rfl)
    rw [hl] at h
    simpa [hl] using h.reap (x := (s.tasks u).freeprocLocked) hr.1 hu rfl rfl
  | exit c t q pc lock on hpc hl hq hpc' =>
    have hr := h.on_running on.proc (by rw [hpc]; rfl) (by rw [hpc]; rfl)
    rw [hl] at h
    refine h.exit hr.1 (fun u hu => ?_) ?_ ?_
    · simpa [hu] using s.exitTasks_woken t q _ hu
    · simpa using s.exitTasks_self t q _
    · simpa using hpc'
  | bury c t on hpc =>
    have hlock := h.switching t (by rw [hpc]; rfl)
    have hz : (s.tasks t).taskState = .zombie := by
      have := h.fits t
      rcases h.onCpu c t on.proc with hr | hz
      · simp [Tcb.Fits,hr,hpc,Pc.live] at this
      · exact hz.1
    exact h.leave on.proc (by simp [hlock,eq_comm]) (by simp [Tcb.Fits,hz]) (by simp [hz]) (.inr rfl)

/-- A slot of `tasks` becomes free only by `freeproc_locked` of a zombie, and no hart is on
its kernel stack then. -/
theorem recycles (ha : Acts s s') (h : Sched s.tasks s.cpus s.taskLock) {u : Task n}
    (hu : (s.tasks u).taskState ≠ .unInit) (hu' : (s'.tasks u).taskState = .unInit) :
    (s.tasks u).taskState = .zombie ∧ ∀ c, (s.cpus c).stack ≠ some u := by
  cases ha with
  | reap c t v on hpc hl hv =>
    by_cases he : u = v
    · subst he
      refine ⟨hv,fun c' hc' => ?_⟩
      rw [h.stack] at hc'
      rcases h.onCpu c' u hc' with hr | ⟨-,hk⟩
      · rw [hr] at hv
        cases hv
      · rw [hl] at hk
        cases hk
    · exact absurd (by simpa [he] using hu') hu
  | idle c now hl hc =>
    exact absurd hu' (woken_unInit (taskWakeExpiredLocked_woken now s.tasks u) hu)
  | postWake | wake => exact absurd hu' (woken_unInit (taskWakeLocked_woken _ _ s.tasks u) hu)
  | take c now p hl hc hp =>
    have hw := woken_unInit (taskWakeExpiredLocked_woken now s.tasks u) hu
    by_cases he : u = p
    · simp [he] at hu'
    · exact absurd (by simpa [he] using hu') hw
  | yield c t | sleep c t =>
    by_cases he : u = t
    · simp [he] at hu'
    · exact absurd (by simpa [he] using hu') hu
  | reserve c t np a0 on hpc hl hnp | create c t np a0 on hpc hl hnp =>
    by_cases he : u = np
    · exact absurd (he ▸ hnp) hu
    · exact absurd (by simpa [he] using hu') hu
  | publish c t np on hpc hl =>
    by_cases he : u = np
    · simp [he,Tcb.publish] at hu'
    · exact absurd (by simpa [he] using hu') hu
  | exit c t q pc lock on hpc hl hq hpc' =>
    simp only [State.setPc_tasks,State.setSem_tasks,update_pc_taskState] at hu'
    by_cases he : u = t
    · subst he
      simp [s.exitTasks_self] at hu'
    · exact absurd hu' (woken_unInit (s.exitTasks_woken t q _ he) hu)
  | _ => exact absurd (by simpa [State.halt] using hu') hu

end Acts

theorem init_sched (n : ℕ) (C S D I : Type) (counts : S → ℕ) :
    Sched (init n C S D I counts).tasks (init n C S D I counts).cpus
      (init n C S D I counts).taskLock := by
  have hpc : ∀ t : Task n, (init n C S D I counts).tasks t =
      if t = 0 then { Tcb.unused with taskState := .ready, pc := .firstRun } else .unused :=
    fun t => rfl
  constructor <;> intros <;> simp_all [init] <;> grind [Tcb.unused,Tcb.Fits,Pc.saved,Pc.switches]

section run

variable [DecidableEq C] [Fintype C] [DecidableEq S] [DecidableEq D] [DecidableEq I]

theorem run_sched (counts : S → ℕ) (steps : List (Step C S D I)) :
    Sched ((init n C S D I counts).run steps).tasks ((init n C S D I counts).run steps).cpus
      ((init n C S D I counts).run steps).taskLock := by
  induction steps using List.reverseRecOn with
  | nil => exact init_sched n C S D I counts
  | append_singleton steps e ih =>
    rw [State.run,List.foldl_concat]
    exact (State.step_acts _ e).sched ih

/-- In every interleaving, whenever `task_lock` is free, different harts have different
tasks in `proc` and these are the `Running` ones; a slot becomes free only from a zombie
whose kernel stack no hart is on; and no task is found not running in `schedule` or in
`task_sleep`. -/
theorem scheduler_safe (counts : S → ℕ) (steps : List (Step C S D I)) :
    let s := (init n C S D I counts).run steps
    (s.taskLock = none →
      (∀ c c' t, (s.cpus c).proc = some t → (s.cpus c').proc = some t → c = c') ∧
      (∀ t, (∃ c, (s.cpus c).proc = some t) ↔ (s.tasks t).taskState = .running) ∧
      ∀ c t, (s.cpus c).proc = some t →
        (s.tasks t).taskState ∉ [.zombie,.sleeping,.creating,.unInit]) ∧
    (∀ e t, (s.tasks t).taskState ≠ .unInit → ((s.step e).tasks t).taskState = .unInit →
      (s.tasks t).taskState = .zombie ∧ ∀ c, (s.cpus c).stack ≠ some t) ∧
    ∀ t, (s.tasks t).pc ≠ .halted .scheduleNotRunning ∧
      (s.tasks t).pc ≠ .halted .sleepNotRunning := by
  intro s
  have h : Sched s.tasks s.cpus s.taskLock := run_sched counts steps
  refine ⟨fun hl => ?_,fun e t => (State.step_acts s e).recycles h,h.panic⟩
  have hr : ∀ c t, (s.cpus c).proc = some t → (s.tasks t).taskState = .running :=
    fun c t hc => (h.onCpu c t hc).resolve_right (by simp [hl])
  exact ⟨h.inj,fun t => ⟨fun ⟨c,hc⟩ => hr c t hc,h.running t⟩,fun c t hc => by simp [hr c t hc]⟩

end run

end Kernel
end QuardStarNet
