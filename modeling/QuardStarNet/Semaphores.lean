import QuardStarNet.Scheduler
import QuardStarNet.WaitQueue
import Mathlib.Data.Set.Card

/-! Every semaphore of the kernel that is not a `child_exit` is a wait queue: the steps of
`sem_timedwait`, `task_sleep`, the scheduler and `sem_post` are moves of it. -/
namespace QuardStarNet
namespace Kernel

open WaitQueue

variable {n : ℕ} {C S D I : Type}

theorem SemRef.id_ne {r : SemRef S} {m : S} (t : Task n) (hr : r ≠ .named m) :
    .named m ≠ r.id t := by
  cases r with
  | childExit => simp [SemRef.id]
  | named m' => simpa [SemRef.id,eq_comm] using hr

theorem slept_named {m : S} {x : Tcb n C S D} {t : Task n} (hx : x.Fits t)
    (hs : x.taskState = .sleeping) (hc : x.waitChannel = some (.sem (.named m))) :
    ∃ deadline, x.pc = .slept (.sem (.named m)) deadline := by
  simp only [Tcb.Fits,hs] at hx
  obtain ⟨w,deadline,hpc,hch⟩ := hx
  rw [hc] at hch
  cases w with
  | driver d => cases hch
  | sem r =>
    cases r with
    | childExit => cases hch
    | named m' =>
      cases hch
      exact ⟨deadline,hpc⟩

variable [DecidableEq S]

/-- Where a task is with respect to a semaphore. A task that has slept and is up again goes
by the result it will return from `task_sleep`. -/
def Tcb.place (m : S) (x : Tcb n C S D) : Place :=
  match x.pc with
  | .sleepEnter (.sem (.named m')) _ => if m' = m then .entering else .away
  | .sleepSwitch (.sem (.named m')) _ => if m' = m then .switching else .away
  | .slept (.sem (.named m')) _ =>
    if m' ≠ m then .away
    else if x.taskState = .sleeping then .asleep
    else if x.waitResult < 0 then .timedOut else .woken
  | .relock (.sem (.named m')) _ result =>
    if m' ≠ m then .away else if result < 0 then .timedOut else .woken
  | _ => .away

/-- The places in `sem_timedwait` on a semaphore. -/
def Pc.waits (m : S) : Pc n S D → Bool
  | .semLock (.named m') _ | .sleepEnter (.sem (.named m')) _ | .sleepSwitch (.sem (.named m')) _
  | .slept (.sem (.named m')) _ | .relock (.sem (.named m')) _ _ => m' = m
  | _ => false

/-- The places between `waiters++` and `waiters--`. -/
def Pc.counted (m : S) : Pc n S D → Bool
  | .sleepEnter (.sem (.named m')) _ | .sleepSwitch (.sem (.named m')) _
  | .slept (.sem (.named m')) _ | .relock (.sem (.named m')) _ _ => m' = m
  | _ => false

/-- A semaphore of the kernel as a wait queue. -/
def State.queue (s : State n C S D I) (m : S) : Queue (n+1) I where
  place t := (s.tasks t).place m
  lock := (s.sems (.named m)).lock
  count := (s.sems (.named m)).count
  waiters := (s.sems (.named m)).waiters
  acquired := s.acquired m
  posted := s.posted m
  posting i := s.posts i = some m

section place

variable {m : S} {x y : Tcb n C S D} {tasks : Task n → Tcb n C S D} {t : Task n}

theorem place_quiet (h : x.pc.quiet = true) : x.place m = .away := by
  unfold Tcb.place
  split <;> simp_all [Pc.quiet]

theorem place_update (tasks : Task n → Tcb n C S D) (t : Task n) (x : Tcb n C S D) :
    (fun u => (Function.update tasks t x u).place m) =
      Function.update (fun u => (tasks u).place m) t (x.place m) := by
  funext u
  by_cases h : u = t
  · subst h
    simp
  · simp [h]

theorem place_update_eq (h : x.place m = (tasks t).place m) :
    (fun u => (Function.update tasks t x u).place m) = fun u => (tasks u).place m := by
  rw [place_update,h]
  exact Function.update_eq_self t _

theorem place_update_to {p : Place} (h : x.place m = p) :
    (fun u => (Function.update tasks t x u).place m) =
      Function.update (fun u => (tasks u).place m) t p := by
  rw [place_update,h]

theorem place_resume (hr : x.taskState = .ready) (hs : x.pc.saved = true) (c : C) :
    (x.resume c).place m = x.place m := by
  unfold Tcb.resume
  cases hpc : x.pc with
  | firstRun => simp [Tcb.place,hpc]
  | yielded a0 => simp [Tcb.place,hpc]
  | slept w deadline =>
    cases w with
    | driver d => simp [Tcb.place,hpc]
    | sem r =>
      cases r with
      | childExit => simp [Tcb.place,hpc]
      | named m' => simp [Tcb.place,hpc,hr]
  | _ => simp [Pc.saved,hpc] at hs

/-- A wakeup on another channel does not concern the semaphore. -/
theorem place_woken_other {r : ℤ} (hx : x.Fits t) (hs : x.taskState = .sleeping)
    (hc : x.waitChannel ≠ some (.sem (.named m))) : (x.woken r).place m = x.place m := by
  simp only [Tcb.Fits,hs] at hx
  obtain ⟨w,deadline,hpc,hch⟩ := hx
  cases w with
  | driver d => simp [Tcb.place,Tcb.woken,hpc]
  | sem ref =>
    cases ref with
    | childExit => simp [Tcb.place,Tcb.woken,hpc]
    | named m' =>
      have hm : m' ≠ m := by
        rintro rfl
        exact hc hch
      simp [Tcb.place,Tcb.woken,hpc,hm]

theorem place_asleep_iff (hx : x.Fits t) :
    x.place m = .asleep ↔ x.taskState = .sleeping ∧ x.waitChannel = some (.sem (.named m)) := by
  constructor
  · intro h
    unfold Tcb.place at h
    split at h <;> grind [Tcb.Fits,Sleeper.channel,SemRef.id]
  · rintro ⟨hs,hc⟩
    obtain ⟨deadline,hpc⟩ := slept_named hx hs hc
    simp [Tcb.place,hpc,hs]

theorem place_woken {r : ℤ} (hx : x.Fits t) (hs : x.taskState = .sleeping)
    (hc : x.waitChannel = some (.sem (.named m))) :
    (x.woken r).place m = if r < 0 then .timedOut else .woken := by
  obtain ⟨deadline,hpc⟩ := slept_named hx hs hc
  simp [Tcb.place,Tcb.woken,hpc]

theorem place_switching (h : x.place m = .switching) : x.pc.switches = true := by
  unfold Tcb.place at h
  split at h <;> grind [Pc.switches]

theorem place_expired (now : UInt64) (ht : (tasks t).Fits t) :
    (taskWakeExpiredLocked now tasks t).place m = (tasks t).place m ∨
      (tasks t).place m = .asleep ∧ (taskWakeExpiredLocked now tasks t).place m = .timedOut := by
  unfold taskWakeExpiredLocked
  split
  next h =>
    by_cases hc : (tasks t).waitChannel = some (.sem (.named m))
    · exact .inr ⟨(place_asleep_iff ht).2 ⟨h.1,hc⟩,by simp [place_woken ht h.1 hc]⟩
    · exact .inl (place_woken_other ht h.1 hc)
  next => exact .inl rfl

theorem place_sem_ne {r : SemRef S} (hr : r ≠ .named m)
    (hpc : (∃ d, x.pc = .sleepEnter (.sem r) d) ∨ (∃ d, x.pc = .sleepSwitch (.sem r) d) ∨
      (∃ d, x.pc = .slept (.sem r) d) ∨ ∃ d res, x.pc = .relock (.sem r) d res) :
    x.place m = .away := by
  cases r with
  | childExit =>
    rcases hpc with ⟨d,h⟩ | ⟨d,h⟩ | ⟨d,h⟩ | ⟨d,res,h⟩ <;> simp [Tcb.place,h]
  | named m' =>
    have hm : m' ≠ m := fun he => hr (he ▸ rfl)
    rcases hpc with ⟨d,h⟩ | ⟨d,h⟩ | ⟨d,h⟩ | ⟨d,res,h⟩ <;> simp [Tcb.place,h,hm]

theorem place_update_two {u : Task n} (hx : x.place m = (tasks u).place m)
    (hy : y.place m = (tasks t).place m) :
    (fun v => (Function.update (Function.update tasks u x) t y v).place m) =
      fun v => (tasks v).place m := by
  have hx' := place_update_eq hx
  rw [place_update_eq (hy.trans (congrFun hx' t).symm),hx']

variable [DecidableEq D]

theorem place_wake_other {ch : Channel n S D} (hc : ch ≠ .sem (.named m)) (wakeAll : Bool)
    (ht : (tasks t).Fits t) : (taskWakeLocked ch wakeAll tasks t).place m = (tasks t).place m := by
  rcases taskWakeLocked_cases ch wakeAll tasks t with h | ⟨hs,hch,h⟩
  · rw [h]
  · rw [h]
    exact place_woken_other ht hs (by simpa [hch] using hc)

theorem place_exit {s : State n C S D I} {q u : Task n} {v : Semaphore n I} (hu : u ≠ t)
    (hf : (s.tasks u).Fits u) : (s.exitTasks t q v u).place m = (s.tasks u).place m := by
  have h : ∃ p, childrenProcClearLocked t (Function.update s.tasks t
      { s.tasks t with taskState := .zombie }) u = { s.tasks u with parent := p } := by
    unfold childrenProcClearLocked
    split
    · exact ⟨some 0,by simp [hu]⟩
    · exact ⟨(s.tasks u).parent,by simp [hu]⟩
  obtain ⟨p,h⟩ := h
  have hp : ({ s.tasks u with parent := p } : Tcb n C S D).place m = (s.tasks u).place m := rfl
  unfold State.exitTasks
  dsimp only
  split
  · rw [place_wake_other (by simp) false (by rw [h]; exact hf),h,hp]
  · rw [h,hp]

end place

theorem tookToken_acquired_ne {s : State n C S D I} {r : SemRef S} {m : S} (hr : r ≠ .named m) :
    (s.tookToken r).acquired m = s.acquired m := by
  cases r with
  | childExit => rfl
  | named m' =>
    have hm : m ≠ m' := fun he => hr (he ▸ rfl)
    simp [State.tookToken,hm]

namespace State

variable {s s' : State n C S D I} {m : S}

/-- A step that does to the fields what a move does is that move. -/
theorem queue_moved {q : Queue (n+1) I} (hm : (s.queue m).Move q)
    (hp : (fun t => (s'.tasks t).place m) = q.place)
    (hs : s'.sems (.named m) = ⟨q.lock,q.count,q.waiters⟩) (ha : s'.acquired m = q.acquired)
    (hd : s'.posted m = q.posted) (hi : (fun i => s'.posts i = some m) = q.posting) :
    s'.queue m = s.queue m ∨ (s.queue m).Move (s'.queue m) := by
  have : s'.queue m = q := by simp only [queue,hp,hs,ha,hd,hi]
  exact .inr (this ▸ hm)

theorem queue_eq (hp : (fun t => (s'.tasks t).place m) = fun t => (s.tasks t).place m)
    (hs : s'.sems (.named m) = s.sems (.named m)) (ha : s'.acquired m = s.acquired m)
    (hd : s'.posted m = s.posted m)
    (hi : (fun i => s'.posts i = some m) = fun i => s.posts i = some m) :
    s'.queue m = s.queue m := by
  simp only [queue,hp,hs,ha,hd,hi]

/-- A task that waits for another semaphore. -/
theorem queue_other {t : Task n} {x : Tcb n C S D} {r : SemRef S} {v : Semaphore n I}
    (hr : r ≠ .named m) (ht : s'.tasks = Function.update s.tasks t x)
    (hx : (s.tasks t).place m = .away) (hx' : x.place m = .away)
    (hs : s'.sems = Function.update s.sems (r.id t) v) (ha : s'.acquired m = s.acquired m)
    (hd : s'.posted = s.posted) (hi : s'.posts = s.posts) :
    s'.queue m = s.queue m ∨ (s.queue m).Move (s'.queue m) := by
  refine .inl (queue_eq ?_ ?_ ha (by rw [hd]) (by rw [hi]))
  · rw [ht]
    exact place_update_eq (hx'.trans hx.symm)
  · rw [hs,Function.update_of_ne (r.id_ne t hr)]

end State

namespace Acts

variable [DecidableEq D] {s s' : State n C S D I} {m : S} {start : ℕ}

/-- `task_wake` of a post wakes the first task asleep on the semaphore, if there is one. -/
theorem postWake_move [DecidableEq I] {i : I} (h : Sched s.tasks s.cpus s.taskLock)
    (hi : s.posts i = some m) (hl : s.taskLock = none) :
    let s' := ({ s with tasks := taskWakeLocked (.sem (.named m)) false s.tasks,
                        posts := Function.update s.posts i none } :
          State n C S D I).setSem (.named m) { s.sems (.named m) with lock := none }
    s'.queue m = s.queue m ∨ (s.queue m).Move (s'.queue m) := by
  intro s'
  have hp : ∀ j, s'.posts j = some m ↔ j ≠ i ∧ (s.queue m).posting j := by
    intro j
    by_cases hj : j = i
    · simp [s',hj]
    · simp [s',hj,State.queue]
  cases hf : firstTask fun t => (s.tasks t).asleepOn (.sem (.named m)) with
  | none =>
    have ht : s'.tasks = s.tasks := by simp [s',taskWakeLocked,hf]
    refine State.queue_moved (.postNone i _ hi hp fun t => ⟨?_,?_⟩) (by rw [ht]; rfl)
      (by simp [s',State.queue]) rfl rfl rfl
    · have := firstTask_none hf t
      rw [State.queue,Ne,place_asleep_iff (h.fits t)]
      simpa [Tcb.asleepOn] using this
    · intro hsw
      have := h.switching t (place_switching hsw)
      simp [hl] at this
  | some t =>
    have ht : s'.tasks = Function.update s.tasks t ((s.tasks t).woken 0) := by
      simp [s',taskWakeLocked,hf]
    have hs := firstTask_some hf
    simp only [Tcb.asleepOn,decide_eq_true_eq] at hs
    refine State.queue_moved (.postWake i _ t hi hp ((place_asleep_iff (h.fits t)).2 hs)) ?_
      (by simp [s',State.queue]) rfl rfl rfl
    rw [ht]
    exact place_update_to (by simp [place_woken (h.fits t) hs.1 hs.2])

variable [DecidableEq C]

/-- One step of the kernel is at most one move of each semaphore. -/
theorem queue_move (ha : Acts s s') (h : Sched s.tasks s.cpus s.taskLock)
    (hq : (s.queue m).Inv start) : s'.queue m = s.queue m ∨ (s.queue m).Move (s'.queue m) := by
  cases ha with
  | stay => exact .inl rfl
  | idle c now hl hc => exact .inr (.expire _ fun t => place_expired now (h.fits t))
  | take c now p hl hc hp =>
    refine .inr ?_
    have hf := (h.wakes (taskWakeExpiredLocked_woken now s.tasks)).fits p
    have hs : (taskWakeExpiredLocked now s.tasks p).pc.saved = true := by
      simpa [Tcb.Fits,hp] using hf
    have := Queue.Move.expire (q := s.queue m) _ fun t => place_expired (m := m) now (h.fits t)
    convert this using 1
    refine State.queue_eq (s := { s with tasks := taskWakeExpiredLocked now s.tasks }) ?_ rfl rfl rfl rfl
    exact place_update_eq (place_resume hp hs c)
  | stray c t hs hp => exact absurd (h.stack c ▸ hs) hp
  | move c t pc on hq₁ hq₂ hx =>
    refine .inl (State.queue_eq (place_update_eq ?_) rfl rfl rfl rfl)
    rw [place_quiet hq₁]
    rcases hq₂ with hq₂ | ⟨p,rfl,-⟩
    · exact place_quiet hq₂
    · rfl
  | yield c t a0 on hpc | enterDriver c t d deadline on hpc | scan c t on hpc | bury c t on hpc =>
    exact .inl (State.queue_eq (place_update_eq (by simp [Tcb.place,hpc])) rfl rfl rfl rfl)
  | lockParent c t q on hpc | unlockParent c t q on hpc =>
    exact .inl (State.queue_eq (place_update_eq (by simp [Tcb.place,hpc])) (by simp) rfl rfl rfl)
  | semTake c t r deadline on hpc hf hn =>
    have hp : (s.tasks t).place m = .away := by cases r <;> simp [Tcb.place,hpc]
    by_cases hr : r = .named m
    · subst hr
      have hp' : (fun u => (Function.update s.tasks t { s.tasks t with pc := .user 0 } u).place m) =
          fun u => (s.tasks u).place m := place_update_eq hp.symm
      exact State.queue_moved (.take hf hn) hp' (by simp [State.queue,SemRef.id])
        (by simp [State.queue,State.tookToken]) rfl rfl
    · exact State.queue_other (x := { s.tasks t with pc := r.ret 0 }) hr (by simp) hp
        (place_quiet (r.ret_quiet 0)) (by rw [State.setPc_sems,State.tookToken_sems]; rfl)
        (tookToken_acquired_ne hr) (by simp) (by simp)
  | semWait c t r deadline on hpc hf hn =>
    have hp : (s.tasks t).place m = .away := by cases r <;> simp [Tcb.place,hpc]
    by_cases hr : r = .named m
    · subst hr
      exact State.queue_moved (.wait t hf hp hn) (place_update_to (by simp [Tcb.place]))
        (by simp [State.queue,SemRef.id]) rfl rfl rfl
    · exact State.queue_other hr rfl hp (place_sem_ne hr (.inl ⟨deadline,rfl⟩)) rfl rfl rfl rfl
  | expired c t r deadline result on hpc hf hres =>
    by_cases hr : r = .named m
    · subst hr
      exact State.queue_moved (.timeout t hf (by simp [State.queue,Tcb.place,hpc,hres]))
        (place_update_to rfl) (by simp [State.queue,SemRef.id]) rfl rfl rfl
    · exact State.queue_other hr rfl (place_sem_ne hr (.inr (.inr (.inr ⟨deadline,result,hpc⟩))))
        (place_quiet (r.ret_quiet (-1))) rfl rfl rfl rfl
  | wokenTake c t r deadline result on hpc hf hres hn =>
    by_cases hr : r = .named m
    · subst hr
      exact State.queue_moved (.takeWoken t hf (by simp [State.queue,Tcb.place,hpc,hres]) hn)
        (place_update_to rfl) (by simp [State.queue,SemRef.id])
        (by simp [State.queue,State.tookToken]) rfl rfl
    · exact State.queue_other (x := { s.tasks t with pc := r.ret 0 }) hr (by simp)
        (place_sem_ne hr (.inr (.inr (.inr ⟨deadline,result,hpc⟩)))) (place_quiet (r.ret_quiet 0))
        (by rw [State.setPc_sems,State.tookToken_sems]; rfl) (tookToken_acquired_ne hr) (by simp)
        (by simp)
  | wokenWait c t r deadline result on hpc hf hres hn =>
    by_cases hr : r = .named m
    · subst hr
      exact State.queue_moved (.waitAgain t hf (by simp [State.queue,Tcb.place,hpc,hres]) hn)
        (place_update_to (by simp [Tcb.place])) (by simp [State.queue,SemRef.id]) rfl rfl rfl
    · exact State.queue_other hr rfl (place_sem_ne hr (.inr (.inr (.inr ⟨deadline,result,hpc⟩))))
        (place_sem_ne hr (.inl ⟨deadline,rfl⟩)) rfl rfl rfl rfl
  | enter c t r deadline on hpc hl ho =>
    by_cases hr : r = .named m
    · subst hr
      exact State.queue_moved (.unlock t (by simp [State.queue,Tcb.place,hpc]))
        (place_update_to (by simp [Tcb.place])) (by simp [State.queue,SemRef.id]) rfl rfl rfl
    · exact State.queue_other hr rfl (place_sem_ne hr (.inl ⟨deadline,hpc⟩))
        (place_sem_ne hr (.inr (.inl ⟨deadline,rfl⟩))) rfl rfl rfl rfl
  | enterPanic c t r deadline on hpc hl ho =>
    by_cases hr : r = .named m
    · subst hr
      have hp : (s.queue m).place t = .entering := by simp [State.queue,Tcb.place,hpc]
      exact absurd ((hq.entering t).1 hp) ho
    · have hp := place_sem_ne (x := s.tasks t) hr (.inl ⟨deadline,hpc⟩)
      exact .inl (State.queue_eq (place_update_eq (by rw [hp]; rfl)) rfl rfl rfl rfl)
  | sleep c t w deadline on hpc hr =>
    cases w with
    | driver d =>
      exact .inl (State.queue_eq (place_update_eq (by simp [Tcb.place,hpc])) rfl rfl rfl rfl)
    | sem r =>
      by_cases hm : r = .named m
      · subst hm
        exact State.queue_moved (.sleep t (by simp [State.queue,Tcb.place,hpc]))
          (place_update_to (by simp [Tcb.place])) rfl rfl rfl rfl
      · refine .inl (State.queue_eq (place_update_eq ?_) rfl rfl rfl rfl)
        rw [place_sem_ne hm (.inr (.inl ⟨deadline,hpc⟩)),
          place_sem_ne hm (.inr (.inr (.inl ⟨deadline,rfl⟩)))]
  | sleepPanic c t w deadline on hpc hr => exact absurd (h.sleep_running on.proc hpc) hr
  | reserve c t np a0 on hpc hl hnp | create c t np a0 on hpc hl hnp =>
    have hd : (s.tasks np).pc = .dead := by simpa [Tcb.Fits,hnp] using h.fits np
    refine .inl (State.queue_eq (place_update_two ?_ (by simp [Tcb.place,hpc])) (by simp) rfl rfl rfl)
    simp [Tcb.place,Tcb.reserve,Tcb.resetWait,Tcb.kernelTask,hd]
  | publish c t np on hpc hl =>
    have hd : (s.tasks np).pc = .dead := by
      simpa [Tcb.Fits,h.forking t np hpc] using h.fits np
    refine .inl (State.queue_eq (place_update_two ?_ (by simp [Tcb.place,hpc])) rfl rfl rfl rfl)
    simp [Tcb.place,Tcb.publish,hd]
  | reap c t u on hpc hl hu =>
    have hd : (s.tasks u).pc = .dead := (h.doomed u hu).resolve_right (by simp [hl])
    refine .inl (State.queue_eq (place_update_two ?_ (by simp [Tcb.place,hpc])) rfl rfl rfl rfl)
    simp [Tcb.place,Tcb.freeprocLocked,hd]
  | exit c t q pc lock on hpc hl hpar hpc' =>
    refine .inl (State.queue_eq (funext fun u => ?_) (by simp) rfl rfl rfl)
    by_cases hu : u = t
    · subst hu
      rcases hpc' with rfl | rfl <;> simp [Tcb.place,hpc]
    · simpa [hu] using place_exit hu (h.fits u)
  | post m' hf hw =>
    by_cases hm : m' = m
    · subst hm
      exact State.queue_moved (.post hf hw) rfl (by simp [State.queue]) rfl (by simp [State.queue]) rfl
    · exact .inl (State.queue_eq rfl (by simp [Ne.symm hm]) rfl (by simp [Ne.symm hm]) rfl)
  | postLock i m' hf hi hw =>
    by_cases hm : m' = m
    · subst hm
      refine State.queue_moved (.postLock i _ hf fun j => ?_) rfl (by simp [State.queue]) rfl
        (by simp [State.queue]) rfl
      by_cases hj : j = i
      · simp [hj]
      · simp [hj,State.queue]
    · refine .inl (State.queue_eq rfl (by simp [Ne.symm hm]) rfl (by simp [Ne.symm hm])
        (funext fun j => ?_))
      by_cases hj : j = i
      · simp [hj,hi,hm]
      · simp [hj]
  | postWake i m' hi hl =>
    by_cases hm : m' = m
    · subst hm
      exact postWake_move h hi hl
    · refine .inl (State.queue_eq (funext fun t => ?_) (by simp [Ne.symm hm]) rfl rfl
        (funext fun j => ?_))
      · exact place_wake_other (by simpa using hm) false (h.fits t)
      · by_cases hj : j = i
        · simp [hj,hi,hm]
        · simp [hj]
  | wake d wakeAll hl =>
    refine .inl (State.queue_eq (funext fun t => ?_) rfl rfl rfl rfl)
    exact place_wake_other (by simp) wakeAll (h.fits t)

omit [DecidableEq C] [DecidableEq D] in
theorem update_count {sems : SemId n S → Semaphore n I} {k : SemId n S} {v : Semaphore n I}
    (hv : v.count = (sems k).count) :
    (Function.update sems k v (.named m)).count = (sems (.named m)).count := by
  by_cases h : .named m = k
  · rw [← h] at hv ⊢
    simpa using hv
  · rw [Function.update_of_ne h]

/-- A wait that returns -1 leaves the tokens as they are. -/
theorem count_of_timeout (ha : Acts s s') {t : Task n} (ht : (s.tasks t).pc.waits m = true)
    (ht' : (s'.tasks t).pc = .user (-1)) :
    (s'.sems (.named m)).count = (s.sems (.named m)).count := by
  have hne : (s.tasks t).pc ≠ .user (-1) := fun he => by simp [he,Pc.waits] at ht
  cases ha with
  | semTake c u r deadline on hpc | wokenTake c u r deadline result on hpc =>
    by_cases he : t = u
    · subst he
      cases r <;> simp [hpc,Pc.waits,SemRef.ret] at ht ht'
    · exact absurd (by simpa [he] using ht') hne
  | post | postLock => exact absurd ht' hne
  | semWait | expired | wokenWait | enter | postWake => exact update_count rfl
  | reserve | create | lockParent | unlockParent | exit => simp
  | _ => rfl

end Acts

theorem place_away_iff (x : Tcb n C S D) (m : S) : x.place m ≠ .away ↔ x.pc.counted m = true := by
  unfold Tcb.place Pc.counted
  split <;> simp_all <;> grind

/-- The posts at work on a semaphore: none, or the one that holds its lock. -/
theorem posters_eq {s : State n C S D I} {m : S} {start : ℕ} (h : (s.queue m).Inv start) :
    (s.queue m).posters = {i | s.posts i = some m}.ncard := by
  have hset : {i | s.posts i = some m} = {i | (s.queue m).lock = some (.inr i)} :=
    Set.ext fun i => h.posting i
  rw [hset,Queue.posters]
  rcases hl : (s.queue m).lock with - | t | j
  · simp
  · simp
  · have : {i | (some (.inr j) : Option (Task n ⊕ I)) = some (.inr i)} = {j} := by
      ext i
      simp [eq_comm]
    rw [this,Set.ncard_singleton]

theorem init_queue (counts : S → ℕ) (m : S) :
    ((init n C S D I counts).queue m).Inv (counts m) := by
  have hp : ∀ t, ((init n C S D I counts).queue m).place t = .away := by
    intro t
    simp only [State.queue,init]
    split <;> rfl
  refine ⟨?_,?_,fun t => ?_,fun i => ?_,?_⟩
  · simp [State.queue,init,semInit]
  · have : tally Place.present ((init n C S D I counts).queue m).place = 0 :=
      Finset.sum_eq_zero fun t _ => by rw [hp]; rfl
    rw [this]
    rfl
  · rw [hp]
    simp [State.queue,init,semInit]
  · simp [State.queue,init,semInit]
  · rintro ⟨t,ht⟩
    simp [hp,Place.down] at ht

section run

variable [DecidableEq C] [Fintype C] [DecidableEq D] [DecidableEq I]

theorem run_queue (counts : S → ℕ) (m : S) (steps : List (Step C S D I)) :
    (((init n C S D I counts).run steps).queue m).Inv (counts m) := by
  induction steps using List.reverseRecOn with
  | nil => exact init_queue counts m
  | append_singleton steps e ih =>
    rw [State.run,List.foldl_concat]
    rcases (State.step_acts _ e).queue_move (run_sched counts steps) ih with h | h
    · exact h ▸ ih
    · exact ih.move h

/-- In every interleaving the tokens of a semaphore are conserved, a wait that times out
takes none, `waiters` counts the tasks that wait, and while a task sleeps there are at least
as many tasks woken and posts at work as there are tokens. -/
theorem semaphore_loses_nothing (counts : S → ℕ) (steps : List (Step C S D I)) (m : S) :
    let s := (init n C S D I counts).run steps
    let v := s.sems (.named m)
    s.acquired m+v.count = counts m+s.posted m ∧
    (∀ e t, (s.tasks t).pc.waits m = true → ((s.step e).tasks t).pc = .user (-1) →
      ((s.step e).sems (.named m)).count = v.count) ∧
    v.waiters = (Finset.univ.filter fun t => (s.tasks t).pc.counted m = true).card ∧
    ((∃ t, (s.tasks t).taskState = .sleeping ∧
        (s.tasks t).waitChannel = some (.sem (.named m))) →
      v.count ≤ (Finset.univ.filter fun t => (s.tasks t).place m = .woken).card+
        {i | s.posts i = some m}.ncard) := by
  intro s v
  have h : (s.queue m).Inv (counts m) := run_queue counts m steps
  refine ⟨h.tokens,fun e t ht ht' => (State.step_acts s e).count_of_timeout ht ht',?_,?_⟩
  · have hw := h.waiters
    rw [tally_eq_card (p := fun p => p ≠ .away) (by rintro (_|_) <;> rfl)] at hw
    simpa only [State.queue,place_away_iff] using hw
  · rintro ⟨t,ht⟩
    have hf : (s.tasks t).Fits t := (run_sched counts steps).fits t
    have hp : (s.queue m).place t = .asleep := (place_asleep_iff hf).2 ht
    have hc := h.covered ⟨t,by rw [hp]; rfl⟩
    rwa [posters_eq h,tally_eq_card (p := fun p => p = .woken) (by rintro (_|_) <;> rfl)] at hc

end run
end Kernel
end QuardStarNet
