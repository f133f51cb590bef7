import QuardStarNet.Scheduler

/-! `wait` and the exits of children. An exit posts to the parent it has at that moment, but
the children it leaves behind go to `tasks[0]` without a post, also those that are zombies
already. -/
namespace QuardStarNet
namespace Kernel

variable {n : ℕ} {C S D I : Type}

/-- The places in `wait` after a scan that found no zombie, up to the next one. -/
def Pc.inWait : Pc n S D → Bool
  | .semLock .childExit _ | .sleepEnter (.sem .childExit) _ | .sleepSwitch (.sem .childExit) _
  | .slept (.sem .childExit) _ | .relock (.sem .childExit) _ _ => true
  | _ => false

/-- The task has its parent and its pid still. -/
def Tcb.Same (x y : Tcb n C S D) : Prop := y.parent = x.parent ∧ y.pid = x.pid

/-- The first task has no parent and does not exit, and nobody is its own parent. -/
structure Rooted (tasks : Task n → Tcb n C S D) : Prop where
  parent : (tasks 0).parent = none
  pid : (tasks 0).pid = 0
  alive : (tasks 0).taskState ∉ [.unInit,.creating,.zombie]
  stays : (tasks 0).pc.exits = false
  irrefl : ∀ u, (tasks u).parent ≠ some u

namespace Rooted

variable {tasks tasks' : Task n → Tcb n C S D} {t : Task n}

theorem setTask {x : Tcb n C S D} (h : Rooted tasks) (hx : (tasks t).Same x)
    (hs : x.taskState ∉ [.unInit,.creating,.zombie]) (hpc : x.pc.exits = false) :
    Rooted (Function.update tasks t x) := by
  obtain ⟨h1,h2,h3,h4,h5⟩ := h
  constructor <;> grind [Function.update_apply,Tcb.Same]

theorem setPc {pc : Pc n S D} (h : Rooted tasks) (hpc : t = 0 → pc.exits = false) :
    Rooted (Function.update tasks t { tasks t with pc := pc }) := by
  obtain ⟨h1,h2,h3,h4,h5⟩ := h
  constructor <;> grind [Function.update_apply]

/-- Another task than the first changes. -/
theorem other {x : Tcb n C S D} (h : Rooted tasks) (ht : t ≠ 0) (hx : x.parent ≠ some t) :
    Rooted (Function.update tasks t x) := by
  obtain ⟨h1,h2,h3,h4,h5⟩ := h
  constructor <;> grind [Function.update_apply]

theorem wakes (h : Rooted tasks) (hw : ∀ u, (tasks u).Woken (tasks' u))
    (hs : ∀ u, (tasks u).Same (tasks' u)) : Rooted tasks' := by
  obtain ⟨h1,h2,h3,h4,h5⟩ := h
  constructor <;> grind [Tcb.Woken,Tcb.Same]

end Rooted

namespace State

/-- `u` is a zombie whose parent is `t`. -/
def ZombieChild (s : State n C S D I) (t u : Task n) : Prop :=
  (s.tasks u).parent = some t ∧ (s.tasks u).taskState = .zombie

instance (s : State n C S D I) (t u : Task n) : Decidable (s.ZombieChild t u) :=
  inferInstanceAs (Decidable (_ ∧ _))

/-- `t` is blocked in `wait` without a token and no child of it is about to post one, but a
child of it is dead. -/
def SleepsPastChild (s : State n C S D I) (t : Task n) : Prop :=
  ((s.tasks t).taskState = .sleeping ∧
    (s.tasks t).waitChannel = some (.sem (.childExit t)) ∧
    (s.sems (.childExit t)).count = 0) ∧
  (∀ u, (s.tasks u).parent = some t →
    (s.tasks u).pc.exits = false ∧ (s.tasks u).pc ≠ .exitSwitch) ∧
  ∃ u, s.ZombieChild t u

instance [DecidableEq S] [DecidableEq D] (s : State n C S D I) (t : Task n) :
    Decidable (s.SleepsPastChild t) :=
  inferInstanceAs (Decidable (_ ∧ _ ∧ _))

/-- A task in `wait` without a token has no dead child. -/
def Reaped (s : State n C S D I) : Prop :=
  ∀ t, (s.tasks t).pc.inWait = true → (s.sems (.childExit t)).count = 0 →
    ∀ u, ¬ s.ZombieChild t u

/-- A step that only makes dead children fewer and lets tasks go on in `wait` with no token
less. -/
structure Calm (s s' : State n C S D I) : Prop where
  child : ∀ t u, s'.ZombieChild t u → s.ZombieChild t u
  waits : ∀ t, (s'.tasks t).pc.inWait = true → (s.tasks t).pc.inWait = true
  count : ∀ t, (s'.tasks t).pc.inWait = true → (s'.sems (.childExit t)).count = 0 →
    (s.sems (.childExit t)).count = 0

theorem Calm.reaped {s s' : State n C S D I} (h : Calm s s') (hs : s.Reaped) : s'.Reaped :=
  fun t ht hc u hu => hs t (h.waits t ht) (h.count t ht hc) u (h.child t u hu)

/-- A task that is not a child of `tasks[0]` exits and leaves a zombie to it while `tasks[0]`
is in `wait` without a token. -/
def Strands [DecidableEq C] [Fintype C] [DecidableEq S] [DecidableEq D] [DecidableEq I]
    (s : State n C S D I) (e : Step C S D I) : Prop :=
  ∃ u z, (s.tasks u).taskState ≠ .zombie ∧ ((s.step e).tasks u).taskState = .zombie ∧
    (s.tasks u).parent ≠ some (root n) ∧ s.ZombieChild u z ∧ (s.tasks (root n)).pc.inWait = true ∧
    (s.sems (.childExit (root n))).count = 0

instance [DecidableEq C] [Fintype C] [DecidableEq S] [DecidableEq D] [DecidableEq I]
    (s : State n C S D I) (e : Step C S D I) : Decidable (s.Strands e) :=
  inferInstanceAs (Decidable (∃ _ _, _))

end State

theorem quiet_inWait {pc : Pc n S D} (h : pc.quiet = true) : pc.inWait = false := by
  cases pc with
  | semLock r deadline => cases r <;> simp_all [Pc.quiet,Pc.inWait]
  | sleepEnter w deadline => cases w <;> simp_all [Pc.quiet,Pc.inWait]
  | relock w deadline result => cases w <;> simp_all [Pc.quiet,Pc.inWait]
  | _ => simp_all [Pc.quiet,Pc.inWait]

namespace State.Calm

variable {s s' : State n C S D I} {t : Task n}

/-- One task goes on in its code, and no `child_exit` loses a token that it still waits for. -/
theorem setPc (pc : Pc n S D)
    (ht : s'.tasks = Function.update s.tasks t { s.tasks t with pc := pc })
    (hpc : pc.inWait = true → (s.tasks t).pc.inWait = true)
    (hc : ∀ u, (u = t → pc.inWait = true) → (s'.sems (.childExit u)).count = 0 →
      (s.sems (.childExit u)).count = 0) : Calm s s' := by
  constructor <;> simp only [ZombieChild,ht,Function.update_apply] <;> grind

/-- Sleepers wake up. -/
theorem wakes (hw : ∀ u, (s.tasks u).Woken (s'.tasks u))
    (hp : ∀ u, (s.tasks u).Same (s'.tasks u))
    (hc : ∀ u, (s'.sems (.childExit u)).count = (s.sems (.childExit u)).count) : Calm s s' := by
  constructor <;> grind [ZombieChild,Tcb.Woken,Tcb.Same]

/-- One task changes its place and its state, but does not become a zombie. -/
theorem setTask {x : Tcb n C S D} (ht : s'.tasks = Function.update s.tasks t x)
    (hz : x.taskState ≠ .zombie) (hpc : x.pc.inWait = true → (s.tasks t).pc.inWait = true)
    (hc : ∀ u, (u = t → x.pc.inWait = true) → (s'.sems (.childExit u)).count = 0 →
      (s.sems (.childExit u)).count = 0) : Calm s s' := by
  constructor <;> simp only [ZombieChild,ht,Function.update_apply] <;> grind

theorem same (ht : s'.tasks = s.tasks)
    (hc : ∀ u, (s'.sems (.childExit u)).count = (s.sems (.childExit u)).count) : Calm s s' := by
  constructor <;> simp [ZombieChild,ht,hc]

theorem trans {s'' : State n C S D I} (h : Calm s s') (h' : Calm s' s'') : Calm s s'' where
  child t u hu := h.child t u (h'.child t u hu)
  waits t ht := h.waits t (h'.waits t ht)
  count t ht hc := h.count t (h'.waits t ht) (h'.count t ht hc)

end State.Calm

theorem taskWakeLocked_same [DecidableEq S] [DecidableEq D] (ch : Channel n S D)
    (wakeAll : Bool) (tasks : Task n → Tcb n C S D) (u : Task n) :
    (tasks u).Same (taskWakeLocked ch wakeAll tasks u) := by
  rcases taskWakeLocked_cases ch wakeAll tasks u with h | ⟨-,-,h⟩ <;> rw [h] <;> exact ⟨rfl,rfl⟩

theorem taskWakeExpiredLocked_same (now : UInt64) (tasks : Task n → Tcb n C S D) (u : Task n) :
    (tasks u).Same (taskWakeExpiredLocked now tasks u) := by
  unfold taskWakeExpiredLocked
  split <;> exact ⟨rfl,rfl⟩

theorem resume_same (x : Tcb n C S D) (c : C) : x.Same (x.resume c) := by
  unfold Tcb.resume
  cases hx : x.pc <;> exact ⟨rfl,rfl⟩

theorem resume_exits {x : Tcb n C S D} (h : x.pc.saved = true) (c : C) :
    (x.resume c).pc.exits = false := by
  unfold Tcb.resume
  revert h
  cases hx : x.pc <;> simp [Pc.saved,Pc.exits]

namespace State

variable [DecidableEq S] [DecidableEq D] (s : State n C S D I) (t q u : Task n)
  (v : Semaphore n I)

/-- The parents after an exit. -/
theorem exitTasks_parent : (s.exitTasks t q v u).parent =
    if (s.tasks u).parent = some t then some 0 else (s.tasks u).parent := by
  have h : (childrenProcClearLocked t (Function.update s.tasks t
      { s.tasks t with taskState := .zombie }) u).parent =
        if (s.tasks u).parent = some t then some 0 else (s.tasks u).parent := by
    unfold childrenProcClearLocked
    by_cases hu : u = t
    · subst hu
      split <;> simp_all
    · split <;> simp_all
  unfold exitTasks
  dsimp only
  split
  · rw [(taskWakeLocked_same _ _ _ u).1,h]
  · exact h

theorem exitTasks_pid : (s.exitTasks t q v u).pid = (s.tasks u).pid := by
  have h : (childrenProcClearLocked t (Function.update s.tasks t
      { s.tasks t with taskState := .zombie }) u).pid = (s.tasks u).pid := by
    unfold childrenProcClearLocked
    by_cases hu : u = t
    · subst hu
      split <;> simp
    · split <;> simp [hu]
  unfold exitTasks
  dsimp only
  split
  · rw [(taskWakeLocked_same _ _ _ u).2,h]
  · exact h

end State

theorem ret_exits (r : SemRef S) (result : ℤ) : (r.ret result : Pc n S D).exits = false := by
  cases r <;> rfl

theorem resume_inWait (x : Tcb n C S D) (c : C) (h : (x.resume c).pc.inWait = true) :
    x.pc.inWait = true := by
  unfold Tcb.resume at h
  revert h
  cases hx : x.pc with
  | slept w deadline => cases w with
    | driver d => simp [Pc.inWait]
    | sem r => cases r <;> simp [Pc.inWait]
  | _ => simp [Pc.inWait]

theorem childExit_count [DecidableEq S] {sems : SemId n S → Semaphore n I} {k : SemId n S}
    {v : Semaphore n I} {u : Task n}
    (h : (Function.update sems k v (.childExit u)).count = 0) (hv : v.count = (sems k).count) :
    (sems (.childExit u)).count = 0 := by
  by_cases hk : .childExit u = k
  · rw [← hk] at hv h
    simpa [← hv] using h
  · rwa [Function.update_of_ne hk] at h

/-- A token is taken from the `child_exit` of a task only when that task leaves `wait`. -/
theorem took_count [DecidableEq S] {sems : SemId n S → Semaphore n I} {t : Task n} {r : SemRef S}
    {v : Semaphore n I} (u : Task n)
    (hu : u = t → (r.ret 0 : Pc n S D).inWait = true)
    (hc : (Function.update sems (r.id t) v (.childExit u)).count = 0) :
    (sems (.childExit u)).count = 0 := by
  have hne : u ≠ t := fun he => by simpa [quiet_inWait] using hu he
  rwa [Function.update_of_ne] at hc
  cases r <;> simp [SemRef.id,hne]

namespace Acts

variable [DecidableEq C] [DecidableEq S] [DecidableEq D] {s s' : State n C S D I}

/-- One step of the kernel leaves `tasks[0]` at the root. -/
theorem rooted (ha : Acts s s') (h : Sched s.tasks s.cpus s.taskLock) (hr : Rooted s.tasks) :
    Rooted s'.tasks := by
  have hne : ∀ {t}, (s.tasks t).taskState ∈ [.unInit,.creating,.zombie] → t ≠ 0 :=
    fun ht he => hr.alive (he ▸ ht)
  cases ha with
  | stay | post | postLock => exact hr
  | idle c now hl hc =>
    exact hr.wakes (taskWakeExpiredLocked_woken now s.tasks) (taskWakeExpiredLocked_same now s.tasks)
  | take c now p hl hc hp =>
    have h₁ := hr.wakes (taskWakeExpiredLocked_woken now s.tasks)
      (taskWakeExpiredLocked_same now s.tasks)
    have hs := (h.wakes (taskWakeExpiredLocked_woken now s.tasks)).fits p
    simp only [Tcb.Fits,hp] at hs
    exact h₁.setTask (resume_same _ c) (by simp) (resume_exits hs c)
  | stray c t hs hp => exact absurd (h.stack c ▸ hs) hp
  | sleepPanic c t w deadline on hpc hrun => exact absurd (h.sleep_running on.proc hpc) hrun
  | postWake | wake =>
    exact hr.wakes (taskWakeLocked_woken _ _ s.tasks) (taskWakeLocked_same _ _ s.tasks)
  | move c t pc on hq hq' hx =>
    refine hr.setPc fun ht => ?_
    subst ht
    cases he : pc.exits with
    | false => rfl
    | true => rcases hx he with h' | h' <;> simp [hr.stays,hr.pid] at h'
  | yield | sleep => exact hr.setTask ⟨rfl,rfl⟩ (by simp) rfl
  | semTake c t r | wokenTake c t r => simpa using hr.setPc (t := t) fun _ => ret_exits r 0
  | expired c t r => exact hr.setPc fun _ => ret_exits r (-1)
  | semWait | wokenWait | enterDriver | enter | enterPanic | scan | bury =>
    exact hr.setPc fun _ => rfl
  | reserve c t np a0 on hpc hl hnp =>
    have h₁ := hr.other (t := np) (x := (s.tasks np).reserve s.nextpid) (hne (by simp [hnp]))
      (hr.irrefl np)
    exact h₁.setPc fun _ => rfl
  | publish c t np on hpc hl =>
    have hnp := h.forking t np hpc
    have htn : t ≠ np := by
      rintro rfl
      rcases h.onCpu c t on.proc with h' | h' <;> simp [hnp] at h'
    have h₁ := hr.other (t := np) (x := (s.tasks np).publish t) (hne (by simp [hnp]))
      (by simpa [Tcb.publish] using htn)
    exact h₁.setPc fun _ => rfl
  | create c t np a0 on hpc hl hnp =>
    have h₁ := hr.other (t := np) (x := (s.tasks np).kernelTask s.nextpid) (hne (by simp [hnp]))
      (by simp [Tcb.kernelTask])
    exact h₁.setPc fun _ => rfl
  | reap c t u on hpc hl hu =>
    have h₁ := hr.other (t := u) (x := (s.tasks u).freeprocLocked) (hne (by simp [hu]))
      (by simp [Tcb.freeprocLocked])
    exact h₁.setPc fun _ => rfl
  | lockParent c t q on hpc | unlockParent c t q on hpc =>
    exact hr.setPc fun ht => by simpa [← ht,hpc,Pc.exits] using hr.stays
  | exit c t q pc lock on hpc hl hq hpc' =>
    have ht : t ≠ 0 := fun he => by simpa [← he,hpc,Pc.exits] using hr.stays
    have hw := s.exitTasks_woken t q (s.sems (.childExit q)) ht.symm
    have h₁ : Rooted (s.exitTasks t q (s.sems (.childExit q))) := by
      obtain ⟨h1,h2,h3,h4,h5⟩ := hr
      constructor <;> grind [Tcb.Woken,State.exitTasks_parent,State.exitTasks_pid]
    exact h₁.setPc fun he => absurd he ht

/-- What a step does to `wait`: nothing of importance, a scan that found no zombie, or an
exit. -/
theorem calm_or (ha : Acts s s') (h : Sched s.tasks s.cpus s.taskLock) :
    State.Calm s s' ∨
    (∃ t, s' = s.setPc t (.semLock .childExit waitForever) ∧ ∀ u, ¬ s.ZombieChild t u) ∨
    ∃ t q pc lock, (s.tasks t).parent = some q ∧ (pc = .exitSwitch ∨ pc = .halted .notOwner) ∧
      (s.tasks t).taskState = .running ∧
      s' = (({ s with tasks := s.exitTasks t q (s.sems (.childExit q)),
                      taskLock := some t } : State n C S D I).setSem (.childExit q)
        { s.sems (.childExit q) with
          lock := lock, count := (s.sems (.childExit q)).count+1 }).setPc t pc := by
  cases ha with
  | stay => exact .inl (.same rfl fun _ => rfl)
  | post | postLock => exact .inl (.same rfl fun _ => by simp)
  | idle c now hl hc =>
    exact .inl (.wakes (taskWakeExpiredLocked_woken now s.tasks)
      (taskWakeExpiredLocked_same now s.tasks) fun _ => rfl)
  | take c now p hl hc hp =>
    have h₁ : State.Calm s { s with tasks := taskWakeExpiredLocked now s.tasks } :=
      .wakes (taskWakeExpiredLocked_woken now s.tasks) (taskWakeExpiredLocked_same now s.tasks)
        fun _ => rfl
    exact .inl (h₁.trans (.setTask (t := p) rfl (by simp) (resume_inWait _ c) fun _ _ h => h))
  | stray c t hs hp => exact absurd (h.stack c ▸ hs) hp
  | sleepPanic c t w deadline on hpc hr => exact absurd (h.sleep_running on.proc hpc) hr
  | postWake | wake =>
    exact .inl (.wakes (taskWakeLocked_woken _ _ s.tasks) (taskWakeLocked_same _ _ s.tasks)
      fun _ => by simp)
  | move c t pc on hq hq' hx =>
    refine .inl (.setPc _ rfl (fun hw => ?_) fun _ _ h => h)
    rcases hq' with hq' | ⟨p,rfl,-⟩
    · simp [quiet_inWait hq'] at hw
    · cases hw
  | yield => exact .inl (.setTask rfl (by simp) (by simp [Pc.inWait]) fun _ _ h => h)
  | enterDriver | enterPanic | bury => exact .inl (.setPc _ rfl (by simp [Pc.inWait]) fun _ _ h => h)
  | lockParent | unlockParent =>
    exact .inl (.setPc _ rfl (by simp [Pc.inWait]) fun u _ h => childExit_count h rfl)
  | semTake c t r | wokenTake c t r =>
    exact .inl (.setPc (t := t) (r.ret 0) (by simp) (by simp [quiet_inWait]) (by simpa using took_count))
  | expired => exact .inl (.setPc _ rfl (by simp [quiet_inWait]) fun u _ h => childExit_count h rfl)
  | semWait c t r | wokenWait c t r | enter c t r =>
    refine .inl (.setPc _ rfl (fun hw => ?_) fun u _ h => childExit_count h rfl)
    cases r <;> simp_all [Pc.inWait]
  | sleep c t w deadline on hpc hr =>
    refine .inl (.setTask rfl (by simp) (fun hw => ?_) fun _ _ h => h)
    rw [hpc]
    cases w with
    | driver d => cases hw
    | sem r => cases r <;> first | rfl | cases hw
  | reserve c t np a0 on hpc hl hnp =>
    have hd : (s.tasks np).pc = .dead := by simpa [Tcb.Fits,hnp] using h.fits np
    have h₁ : State.Calm s ({ s.setTask np ((s.tasks np).reserve s.nextpid) with
        nextpid := s.nextpid+1 }.setSem (.childExit np) (semInit n I 0)) :=
      .setTask (t := np) rfl (by simp [Tcb.reserve]) (by simp [Tcb.reserve,Tcb.resetWait,hd,Pc.inWait])
        fun u hu hc => by
          by_cases he : u = np
          · simp [Tcb.reserve,Tcb.resetWait,hd,Pc.inWait,he] at hu
          · simpa [he] using hc
    exact .inl (h₁.trans (.setPc _ rfl (by simp [Pc.inWait]) fun _ _ h => h))
  | publish c t np on hpc hl =>
    have h₁ : State.Calm s (s.setTask np ((s.tasks np).publish t)) :=
      .setTask (t := np) rfl (by simp [Tcb.publish]) (by simp [Tcb.publish,Pc.inWait]) fun _ _ h => h
    exact .inl (h₁.trans (.setPc _ rfl (by simp [Pc.inWait]) fun _ _ h => h))
  | create c t np a0 on hpc hl hnp =>
    have h₁ : State.Calm s ({ s.setTask np ((s.tasks np).kernelTask s.nextpid) with
        nextpid := s.nextpid+1 }.setSem (.childExit np) (semInit n I 0)) :=
      .setTask (t := np) rfl (by simp [Tcb.kernelTask]) (by simp [Tcb.kernelTask,Pc.inWait])
        fun u hu hc => by
          by_cases he : u = np
          · simp [Tcb.kernelTask,Pc.inWait,he] at hu
          · simpa [he] using hc
    exact .inl (h₁.trans (.setPc _ rfl (by simp [Pc.inWait]) fun _ _ h => h))
  | reap c t u on hpc hl hu =>
    have hd : (s.tasks u).pc = .dead := (h.doomed u hu).resolve_right (by simp [hl])
    have h₁ : State.Calm s (s.setTask u (s.tasks u).freeprocLocked) :=
      .setTask (t := u) rfl (by simp [Tcb.freeprocLocked])
        (by simp [Tcb.freeprocLocked,hd,Pc.inWait]) fun _ _ h => h
    exact .inl (h₁.trans (.setPc _ rfl (by simp [Pc.inWait]) fun _ _ h => h))
  | scan c t on hpc hl hz => exact .inr (.inl ⟨t,rfl,fun u hu => hz u hu.1 hu.2⟩)
  | exit c t q pc lock on hpc hl hq hpc' =>
    have hr := h.on_running on.proc (by rw [hpc]; rfl) (by rw [hpc]; rfl)
    exact .inr (.inr ⟨t,q,pc,lock,hq,hpc',hr.1,rfl⟩)

theorem reaped (ha : Acts s s') (h : Sched s.tasks s.cpus s.taskLock) (hr : Rooted s.tasks)
    (hj : s.Reaped)
    (hn : ∀ u z, (s.tasks u).taskState ≠ .zombie → (s'.tasks u).taskState = .zombie →
      (s.tasks u).parent ≠ some 0 → s.ZombieChild u z → (s.tasks 0).pc.inWait = true →
      (s.sems (.childExit 0)).count ≠ 0) : s'.Reaped := by
  rcases ha.calm_or h with hc | ⟨t,rfl,hz⟩ | ⟨t,q,pc,lock,hq,hpc,hrun,rfl⟩
  · exact hc.reaped hj
  · -- the scan has just found no zombie among the children of `t`
    intro w hw hc u hu
    have hu' : s.ZombieChild w u := ⟨by simpa using hu.1,by simpa using hu.2⟩
    by_cases he : w = t
    · exact hz u (he ▸ hu')
    · exact hj w (by simpa [he] using hw) hc u hu'
  · -- the exit of `t` posts to `q`, and the zombies of `t` go to the first task
    intro w hw hc u ⟨hp,hz⟩
    have hwt : w ≠ t := by
      rintro rfl
      rcases hpc with rfl | rfl <;> simp [Pc.inWait] at hw
    have hwq : w ≠ q := by
      rintro rfl
      simp at hc
    have hw' : (s.tasks w).pc.inWait = true := by
      rw [← (s.exitTasks_woken t q (s.sems (.childExit q)) hwt).1]
      simpa [hwt] using hw
    have hc' : (s.sems (.childExit w)).count = 0 := by simpa [hwq] using hc
    simp only [State.setPc_tasks,State.setSem_tasks,update_pc_parent] at hp
    rw [s.exitTasks_parent] at hp
    by_cases hut : u = t
    · subst hut
      have : q ≠ u := fun he => hr.irrefl u (he ▸ hq)
      simp [hq,this] at hp
      exact hwq hp.symm
    · have hz' : (s.tasks u).taskState = .zombie := by
        simp only [State.setPc_tasks,State.setSem_tasks,update_pc_taskState] at hz
        rcases (s.exitTasks_woken t q (s.sems (.childExit q)) hut).2 with ⟨hs,-⟩ | ⟨-,hs⟩
        · rw [← hs,hz]
        · simp [hs] at hz
      split at hp
      next hpu =>
        cases hp
        exact hn t u (by simp [hrun]) (by simp [s.exitTasks_self]) (by simpa [hq] using hwq.symm)
          ⟨hpu,hz'⟩ hw' hc'
      next => exact hj w hw' hc' u ⟨hp,hz'⟩

end Acts

theorem init_rooted (counts : S → ℕ) : Rooted (init n C S D I counts).tasks := by
  refine ⟨rfl,rfl,by simp [init],rfl,fun u => ?_⟩
  simp only [init]
  split <;> simp [Tcb.unused]

theorem init_reaped (counts : S → ℕ) : (init n C S D I counts).Reaped := by
  intro t ht
  have : ((init n C S D I counts).tasks t).pc.inWait = false := by
    simp only [init]
    split <;> rfl
  simp [this] at ht

section run

variable [DecidableEq C] [Fintype C] [DecidableEq S] [DecidableEq D] [DecidableEq I]

/-- No step of the run leaves a zombie to `tasks[0]` behind its back. -/
def State.Tidy (s : State n C S D I) : List (Step C S D I) → Prop
  | [] => True
  | e :: steps => ¬ s.Strands e ∧ (s.step e).Tidy steps

instance State.decTidy (s : State n C S D I) :
    (steps : List (Step C S D I)) → Decidable (s.Tidy steps)
  | [] => inferInstanceAs (Decidable True)
  | e :: steps =>
    have := State.decTidy (s.step e) steps
    inferInstanceAs (Decidable (_ ∧ _))

theorem State.Tidy.reaped {s : State n C S D I} {steps : List (Step C S D I)}
    (h : s.Tidy steps) (hs : Sched s.tasks s.cpus s.taskLock) (hr : Rooted s.tasks)
    (hj : s.Reaped) : Sched (s.run steps).tasks (s.run steps).cpus (s.run steps).taskLock ∧
      (s.run steps).Reaped := by
  induction steps generalizing s with
  | nil => exact ⟨hs,hj⟩
  | cons e steps ih =>
    have ha := State.step_acts s e
    exact ih h.2 (ha.sched hs) (ha.rooted hs hr) (ha.reaped hs hr hj fun u z h₁ h₂ h₃ h₄ h₅ h₆ =>
      h.1 ⟨u,z,h₁,h₂,h₃,h₄,h₅,h₆⟩)

/-- `tasks[0]` never exits. -/
theorem first_task_stays (counts : S → ℕ) (steps : List (Step C S D I)) :
    Rooted ((init n C S D I counts).run steps).tasks := by
  induction steps using List.reverseRecOn with
  | nil => exact init_rooted counts
  | append_singleton steps e ih =>
    rw [State.run,List.foldl_concat]
    exact (State.step_acts _ e).rooted (run_sched counts steps) ih

/-- As long as no task leaves a zombie to `tasks[0]` while that waits without a token, no
task sleeps in `wait` past a dead child. -/
theorem wait_sees_children (counts : S → ℕ) (steps : List (Step C S D I))
    (h : (init n C S D I counts).Tidy steps) (t : Task n) :
    ¬ ((init n C S D I counts).run steps).SleepsPastChild t := by
  rintro ⟨⟨hasleep,hchannel,hcount⟩,-,u,hu⟩
  obtain ⟨hs,hj⟩ := h.reaped (init_sched n C S D I counts) (init_rooted counts)
    (init_reaped counts)
  refine hj t ?_ hcount u hu
  have hf := hs.fits t
  simp only [Tcb.Fits,hasleep] at hf
  obtain ⟨w,deadline,hpc,hch⟩ := hf
  rw [hchannel] at hch
  rw [hpc]
  cases w with
  | driver d => cases hch
  | sem r =>
    cases r with
    | childExit => rfl
    | named m => cases hch

end run

/-- `tasks[0]` forks 1 and waits, 1 forks 2 and waits, 2 forks 3 and sleeps; 3 exits, then 2
does without having waited for it. -/
def strandedSteps : List (Step Unit Unit Empty Empty) :=
  let exec := Step.exec ()
  let wait := [exec .wait,exec .wait,exec .wait,exec .wait,exec .wait]
  let exit := [exec .exit,exec .exit,exec .exit,exec .exit,exec .exit]
  [.dispatch () 0,exec .fork,exec .fork]++wait++
  [.dispatch () 0,exec .fork,exec .fork]++wait++
  [.dispatch () 0,exec .fork,exec .fork,exec (.semTimedwait () 5),exec .wait,exec .wait,exec .wait]++
  .dispatch () 0 :: exit++.dispatch () 5 :: exec .exit :: exit

/-- Up to the exit of 3 nothing is lost: 0 and 1 sleep, and 2 has a token for 3. -/
theorem wait_sees_children_nested :
    (init 3 Unit Unit Empty Empty fun _ => 0).Tidy (strandedSteps.take 29) ∧
    ((init 3 Unit Unit Empty Empty fun _ => 0).run (strandedSteps.take 29)).ZombieChild 2 3 ∧
    ¬ ((init 3 Unit Unit Empty Empty fun _ => 0).run (strandedSteps.take 29)).SleepsPastChild 2 :=
  have h : (init 3 Unit Unit Empty Empty fun _ => 0).Tidy (strandedSteps.take 29) := by
    decide +kernel
  ⟨h,by decide +kernel,wait_sees_children (fun _ => 0) _ h 2⟩

/-- The first task sleeps in `wait` while its inherited child 3 is a zombie. -/
theorem wait_sleeps_past_child :
    ((init 3 Unit Unit Empty Empty fun _ => 0).run strandedSteps).SleepsPastChild 0 := by
  decide +kernel

end Kernel
end QuardStarNet
