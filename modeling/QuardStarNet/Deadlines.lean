import QuardStarNet.Alarms
import QuardStarNet.NetTimer
import Mathlib.Order.Bounds.Defs

/-! The list of `timer.c` keeps differences, but every timer fires at its absolute deadline.
Callbacks may add and remove timers; they do not remove a timer that expires at the instant
being served and do not check the timers themselves. -/
namespace QuardStarNet
namespace NetTimer
namespace Timers

variable {T P A : Type} [DecidableEq T]

/-- The absolute deadline of a scheduled timer. Those in a wait list expire now. -/
def due (s : Timers T P A) (t : T) : Option ℕ :=
  if t ∈ s.waiting then some s.now else (DeltaList.remaining t s.timerList).map (s.now+·)

/-- The timers as alarms with absolute deadlines. -/
def alarms (s : Timers T P A) : Alarms T where
  now := s.now
  due := s.due
  rung := s.log.map fun c => (c.timer,c.time)

/-- What a callback does not do: it does not remove a timer that expires at the instant being
served and does not check the timers. -/
def Polite (s : Timers T P A) : Event T P A → Prop
  | .remove t => ∀ f ∈ s.pending, t ∉ f.waitList ∧
      (f.running = some t → t ∈ DeltaList.items s.timerList)
  | .check _ => s.pending = []
  | _ => True

def PoliteRun (s : Timers T P A) : List (Event T P A) → Prop
  | [] => True
  | e :: es => s.Polite e ∧ (s.step e).PoliteRun es

/-- At most one `net_timer_check_tmo` is pending. -/
def Flat (s : Timers T P A) : Prop := s.pending.length ≤ 1

variable {s s' : Timers T P A}

omit [DecidableEq T] in
theorem Flat.tail {f : Frame T} {fs : List (Frame T)} (hf : s.Flat) (hp : s.pending = f :: fs) :
    fs = [] := by
  unfold Flat at hf
  rw [hp,List.length_cons] at hf
  exact List.length_eq_zero_iff.1 (by omega)

theorem due_eq_none {t : T} : s.due t = none ↔ s.timerIsScheduled t = false := by
  rw [timerIsScheduled_false,due]
  split
  next h => simp [h]
  next h => simp [h,DeltaList.remaining_eq_none]

/-- No deadline has passed. -/
theorem now_le_due {t : T} {d : ℕ} (h : s.due t = some d) : s.now ≤ d := by
  unfold due at h
  split at h
  · cases h
    exact Nat.le_refl _
  · obtain ⟨r,-,rfl⟩ := Option.map_eq_some_iff.1 h
    exact Nat.le_add_right _ _

/-- When no call is pending, all deadlines are ahead. -/
theorem now_lt_due {t : T} {d : ℕ} (hi : s.Inv) (hp : s.pending = []) (h : s.due t = some d) :
    s.now < d := by
  unfold due at h
  rw [if_neg (by simp [waiting,hp])] at h
  obtain ⟨r,hr,rfl⟩ := Option.map_eq_some_iff.1 h
  cases hl : s.timerList with
  | nil => simp [hl,DeltaList.remaining] at hr
  | cons n l =>
    have hn : 0 < n.gap := hi.leads n (by simp [hl])
    have := DeltaList.gap_le_of_remaining (hl ▸ hr)
    omega

/-- Inserting a timer sets its deadline and no other. -/
theorem due_insert {t : T} {c : ℕ} (ht : s.timerIsScheduled t = false)
    (hl : s'.timerList = insertTimer t c s.timerList) (hw : s'.waiting = s.waiting)
    (hn : s'.now = s.now) : s'.due = Function.update s.due t (some (s.now+c)) := by
  rw [timerIsScheduled_false] at ht
  funext u
  by_cases he : u = t
  · subst he
    simp [due,hl,hw,hn,ht.2,insertTimer,DeltaList.remaining_insert_self ht.1]
  · simp [due,hl,hw,hn,he,insertTimer,DeltaList.remaining_insert_of_ne he]

/-- Removing a timer that is in no wait list cancels its deadline and no other. -/
theorem due_remove {t : T} (hi : s.Inv) (ht : t ∉ s.waiting) :
    (s.netTimerRemove t).due = Function.update s.due t none := by
  funext u
  rw [due,netTimerRemove]
  change (if u ∈ s.waiting then some s.now
    else (DeltaList.remaining u (DeltaList.erase t s.timerList)).map (s.now+·)) = _
  by_cases he : u = t
  · subst he
    simp [ht,DeltaList.remaining_erase_self hi.list_nodup]
  · rw [Function.update_of_ne he,DeltaList.remaining_erase_of_ne he,due]

/-- The callback of the timer runs. -/
def Runs (s : Timers T P A) (t : T) : Prop := ∃ f ∈ s.pending, f.running = some t

omit [DecidableEq T] in
theorem Flat.runs_iff {f : Frame T} {fs : List (Frame T)} {t : T} (hf : s.Flat)
    (hp : s.pending = f :: fs) : s.Runs t ↔ f.running = some t := by
  simp [Runs,hp,hf.tail hp]

/-- What a turn does in terms of deadlines: time passes, a callback is entered at its deadline,
or a reload timer whose callback returned is due again after its period. -/
inductive Effect (s s' : Timers T P A) : Prop
  | pass (hd : s'.due = s.due) (hn : s.now ≤ s'.now) (hl : s'.log = s.log)
      (hr : ∀ t, s.Runs t → (s.timers t).reloads = true → s.due t ≠ none)
  | fire (t : T) (ht : s.due t = some s.now) (hd : s'.due = Function.update s.due t none)
      (hn : s'.now = s.now)
      (hl : s'.log = s.log++[⟨t,(s.timers t).proc,(s.timers t).arg,s.now⟩])
      (hr : s'.Runs t) (hq : ∀ u, ¬ s.Runs u)
  | rearm (t : T) (hr : ∀ u, s.Runs u ↔ u = t) (hrel : (s.timers t).reloads = true)
      (ht : s.due t = none)
      (hd : s'.due = Function.update s.due t (some (s.now+(s.timers t).reload)))
      (hn : s'.now = s.now) (hl : s'.log = s.log)

theorem Turns.effect (ht : Turns s s') (hi : s.Inv) (hf : s.Flat) : Effect s s' := by
  have hquiet : ∀ {f fs}, s.pending = f :: fs → f.running = none → ∀ t, ¬ s.Runs t :=
    fun hp hr t h => by simp [(hf.runs_iff hp).1 h] at hr
  cases ht with
  | idle hp => exact .pass rfl (Nat.le_refl _) rfl fun t ⟨f,hm,_⟩ => by simp [hp] at hm
  | reload f fs t hp hr hrel ht =>
    refine .rearm t (fun u => ?_) hrel (due_eq_none.2 ht)
      (due_insert ht rfl (by simp [waiting,hp]) rfl) rfl rfl
    rw [hf.runs_iff hp,hr,Option.some.injEq,eq_comm]
  | leave f fs t hp hr ht =>
    refine .pass ?_ (Nat.le_refl _) rfl fun u hu hrel hd => ?_
    · funext u
      simp [due,waiting,hp]
    · have : t = u := Option.some.inj (hr.symm.trans ((hf.runs_iff hp).1 hu))
      rw [due_eq_none] at hd
      subst this
      simp [hrel,hd] at ht
  | enter f fs t wait hp hr hw =>
    have hfs := hf.tail hp
    have hs : s.waiting = t :: wait := by simp [waiting,hp,hw,hfs]
    have hs' : (s.enter f fs t wait).waiting = wait := by simp [waiting,Timers.enter,hfs]
    have hn := hi.nodup
    rw [hs,List.nodup_append] at hn
    refine .fire t (by simp [due,hs]) ?_ rfl rfl
      ⟨{ f with waitList := wait, running := some t },by simp [Timers.enter],rfl⟩ (hquiet hp hr)
    funext u
    rw [due,hs']
    change (if u ∈ wait then some s.now
      else (DeltaList.remaining u s.timerList).map (s.now+·)) = _
    by_cases he : u = t
    · subst he
      have hu : u ∉ DeltaList.items s.timerList := fun h => hn.2.2 u h u (by simp) rfl
      simp [(List.nodup_cons.1 hn.2.1).1,DeltaList.remaining_eq_none.2 hu]
    · rw [Function.update_of_ne he,due,hs]
      simp [he]
  | empty f fs hp hr hw hl =>
    have hfs := hf.tail hp
    refine .pass ?_ (Nat.le_add_right _ _) rfl fun t h => absurd h (hquiet hp hr t)
    funext u
    simp [due,waiting,hp,hw,hfs,hl,DeltaList.remaining]
  | finish f fs n l hp hr hw hl hd =>
    have hfs := hf.tail hp
    refine .pass ?_ (Nat.le_add_right _ _) rfl fun t h => absurd h (hquiet hp hr t)
    funext u
    simp only [due,waiting,hp,hw,hfs,hl,List.flatMap_cons,List.flatMap_nil,List.append_nil,
      List.not_mem_nil,if_false,DeltaList.remaining_advance (Nat.le_of_lt hd)]
    cases hr : DeltaList.remaining u (n :: l) with
    | none => rfl
    | some r =>
      have := DeltaList.gap_le_of_remaining hr
      simp only [Option.map_some,Option.some.injEq]
      omega
  | collect f fs n l hp hr hw hl hd =>
    have hfs := hf.tail hp
    refine .pass ?_ (Nat.le_add_right _ _) rfl fun t h => absurd h (hquiet hp hr t)
    funext u
    simp only [due,waiting,hp,hw,hfs,hl,List.flatMap_cons,List.flatMap_nil,List.append_nil,
      List.not_mem_nil,if_false]
    have hrem := DeltaList.remaining_reached u (DeltaList.advance n.gap (n :: l))
    rw [DeltaList.remaining_advance (Nat.le_refl _)] at hrem
    cases hr : DeltaList.remaining u (n :: l) with
    | none =>
      rw [hr] at hrem
      split at hrem
      next => cases hrem
      next hu => rw [if_neg hu,← hrem]; rfl
    | some r =>
      have := DeltaList.gap_le_of_remaining hr
      rw [hr] at hrem
      split at hrem
      next hu =>
        simp only [Option.map_some,Option.some.injEq] at hrem
        rw [if_pos hu]
        simp only [Option.map_some,Option.some.injEq]
        omega
      next hu =>
        rw [if_neg hu,← hrem]
        simp only [Option.map_some,Option.some.injEq]
        omega

/-- What an event does in terms of deadlines. -/
def Tracks (s : Timers T P A) (e : Event T P A) (s' : Timers T P A) : Prop :=
  match e with
  | .add t _ _ ms _ =>
    if s.atUser ∧ 0 < ms ∧ s.due t = none then
      s'.alarms = { s.alarms with due := Function.update s.due t (some (s.now+ms.toNat)) }
    else s' = s
  | .remove t =>
    if s.atUser then s'.alarms = { s.alarms with due := Function.update s.due t none }
    else s' = s
  | .clearReload _ => s'.alarms = s.alarms
  | .check _ => s'.alarms = s.alarms
  | .turn => s.Effect s'

theorem alarms_eq {d : T → Option ℕ} (hd : s'.due = d) (hn : s'.now = s.now)
    (hl : s'.log = s.log) : s'.alarms = { s.alarms with due := d } := by
  simp [alarms,hd,hn,hl]

theorem step_tracks (hi : s.Inv) (hf : s.Flat) {e : Event T P A} (hp : s.Polite e) :
    s.Tracks e (s.step e) := by
  cases e with
  | add t proc arg ms flags =>
    unfold Tracks step netTimerAdd
    simp only [due_eq_none]
    by_cases hu : s.atUser = true
    · by_cases hm : ms ≤ 0
      · simp [hu,hm,Int.not_lt.2 hm]
      · by_cases ht : s.timerIsScheduled t = true
        · simp [hu,hm,ht]
        · rw [if_pos hu,if_neg hm,if_neg ht,if_pos ⟨hu,by omega,by simpa using ht⟩]
          exact alarms_eq (due_insert (by simpa using ht) rfl rfl rfl) rfl rfl
    · simp [hu]
  | remove t =>
    unfold Tracks step
    dsimp only
    by_cases hu : s.atUser = true
    · rw [if_pos hu,if_pos hu]
      refine alarms_eq (due_remove hi fun h => ?_) rfl rfl
      obtain ⟨f,hf,ht⟩ := List.mem_flatMap.1 h
      exact (hp f hf).1 ht
    · simp [hu]
  | clearReload t =>
    unfold Tracks step
    dsimp only
    split <;> rfl
  | check d =>
    unfold Tracks step netTimerCheckTmo
    dsimp only
    split
    · split
      · rfl
      · exact alarms_eq (by funext u; simp [due,waiting]) rfl rfl
    · rfl
  | turn => exact (turn_turns s).effect hi hf

theorem Effect.move (he : s.Effect s') (hi : s.Inv) : s.alarms.Move s'.alarms := by
  cases he with
  | pass hd hn hl hr =>
    have := Alarms.Move.pass (a := s.alarms) s'.now hn fun t d h =>
      now_le_due (s := s') (by rw [hd]; exact h)
    simpa [alarms,hd,hl] using this
  | fire t ht hd hn hl hr hq =>
    have := Alarms.Move.ring (a := s.alarms) t ht
    simpa [alarms,hd,hn,hl] using this
  | rearm t hr hrel ht hd hn hl =>
    obtain ⟨f,hm,hf⟩ := (hr t).2 rfl
    have hpos : 0 < (s.timers t).reload := hi.period t (.inr (.inr ⟨f,hm,hf⟩))
    have := Alarms.Move.set (a := s.alarms) t (s.now+(s.timers t).reload) ht
      (Nat.lt_add_of_pos_right hpos)
    simpa [alarms,hd,hn,hl] using this

/-- Every step is one of the moves of alarms with absolute deadlines, or changes nothing. -/
theorem Tracks.move {e : Event T P A} (ht : s.Tracks e s') (hi : s.Inv) :
    s'.alarms = s.alarms ∨ s.alarms.Move s'.alarms := by
  cases e with
  | add t proc arg ms flags =>
    unfold Tracks at ht
    dsimp only at ht
    split at ht
    next h =>
      rw [ht]
      exact .inr (.set t _ h.2.2 (Nat.lt_add_of_pos_right (by omega)))
    next => exact .inl (by rw [ht])
  | remove t =>
    unfold Tracks at ht
    dsimp only at ht
    split at ht
    next => rw [ht]; exact .inr (.cancel t)
    next => exact .inl (by rw [ht])
  | clearReload t => exact .inl ht
  | check d => exact .inl ht
  | turn => exact .inr (Effect.move ht hi)

/-! Runs. -/

theorem Turns.pending_le (ht : Turns s s') : s'.pending.length ≤ s.pending.length := by
  cases ht <;> simp [*,Timers.enter]

theorem step_flat {e : Event T P A} (hf : s.Flat) (hp : s.Polite e) : (s.step e).Flat := by
  unfold Flat at hf ⊢
  by_cases hc : ∃ d, e = .check d
  · obtain ⟨d,rfl⟩ := hc
    unfold step netTimerCheckTmo
    dsimp only
    have : s.pending = [] := hp
    split
    · split <;> simp [this]
    · exact hf
  · by_cases ht : e = .turn
    · subst ht
      exact Nat.le_trans (turn_turns s).pending_le hf
    · rw [(step_user ht fun d h => hc ⟨d,h⟩).1]
      exact hf

/-- The invariants of a polite run. -/
structure Kept (s : Timers T P A) : Prop where
  inv : s.Inv
  flat : s.Flat
  ordered : s.alarms.Ordered

theorem init_kept (timers : T → Timer P A) : (init timers).Kept where
  inv := init_inv timers
  flat := Nat.zero_le _
  ordered := ⟨by simp [alarms,init],by simp [alarms,init],
    by simp [alarms,init,due,waiting,DeltaList.remaining]⟩

theorem step_kept {e : Event T P A} (h : s.Kept) (hp : s.Polite e) : (s.step e).Kept where
  inv := (step_acts s e).inv h.inv
  flat := step_flat h.flat hp
  ordered := by
    rcases (step_tracks h.inv h.flat hp).move h.inv with he | hm
    · rw [he]; exact h.ordered
    · exact hm.ordered h.ordered

theorem run_kept (h : s.Kept) {es : List (Event T P A)} (hp : s.PoliteRun es) :
    (s.run es).Kept := by
  induction es generalizing s with
  | nil => exact h
  | cons e es ih => exact ih (step_kept h hp.1) hp.2

/-- The time that an event gives to `net_timer_check_tmo`. -/
def spent : Event T P A → ℕ
  | .check d => d.toNat
  | _ => 0

/-- The virtual time when the pending calls will have returned. -/
def horizon (s : Timers T P A) : ℕ := s.now+(s.pending.map Frame.diffMs).sum

theorem Turns.horizon_eq (ht : Turns s s') : s'.horizon = s.horizon := by
  unfold horizon
  cases ht with
  | idle => rfl
  | reload f fs t hp => simp [hp]
  | leave f fs t hp => simp [hp]
  | enter f fs t wait hp => simp [hp,Timers.enter]
  | empty f fs hp => simp [hp]; omega
  | finish f fs n l hp => simp [hp]; omega
  | collect f fs n l hp => simp [hp]; omega

theorem step_horizon {e : Event T P A} (hp : s.Polite e) :
    (s.step e).horizon = s.horizon+spent e := by
  have huser : ∀ e : Event T P A, e ≠ .turn → (∀ d, e ≠ .check d) →
      (s.step e).horizon = s.horizon := fun e ht hc => by
    obtain ⟨hp,hn,-⟩ := step_user (s := s) ht hc
    rw [horizon,hp,hn,horizon]
  cases e with
  | add t proc arg ms flags => exact huser _ (by simp) (by simp)
  | remove t => exact huser _ (by simp) (by simp)
  | clearReload t => exact huser _ (by simp) (by simp)
  | check d =>
    have hp : s.pending = [] := hp
    unfold step netTimerCheckTmo
    dsimp only
    rw [if_pos (by simp [atUser,hp])]
    split
    next h => simp [spent,Int.toNat_of_nonpos (Int.le_of_lt h)]
    next => simp [horizon,spent,hp]
  | turn => exact (turn_turns s).horizon_eq

theorem run_horizon {es : List (Event T P A)} (hp : s.PoliteRun es) :
    (s.run es).horizon = s.horizon+(es.map spent).sum := by
  induction es generalizing s with
  | nil => rfl
  | cons e es ih =>
    have := ih hp.2
    rw [step_horizon hp.1] at this
    rw [List.map_cons,List.sum_cons,← Nat.add_assoc]
    exact this

/-- The event is not a call with the timer. -/
def Spares (t : T) : Event T P A → Prop
  | .add u _ _ _ _ => u ≠ t
  | .remove u => u ≠ t
  | .clearReload u => u ≠ t
  | _ => True

/-- The times at which the callback of the timer was entered. -/
def callTimes (s : Timers T P A) (t : T) : List ℕ :=
  (s.log.filter fun c => c.timer = t).map Call.time

/-- The reload timer is due at `d`, or its callback runs and it was due one period ago. -/
def Periodic (s : Timers T P A) (t : T) (d p : ℕ) : Prop :=
  s.due t = some d ∨ (s.Runs t ∧ s.due t = none ∧ s.now+p = d)

theorem Turns.timers_eq (ht : Turns s s') : s'.timers = s.timers := by
  cases ht <;> rfl

theorem step_timers {e : Event T P A} {t : T} (hs : Spares t e) :
    (s.step e).timers t = s.timers t := by
  cases e with
  | add u proc arg ms flags =>
    have hu : t ≠ u := Ne.symm hs
    unfold step netTimerAdd
    dsimp only
    split <;> try rfl
    split <;> try rfl
    split <;> simp [hu]
  | remove u => unfold step; dsimp only; split <;> rfl
  | clearReload u =>
    have hu : t ≠ u := Ne.symm hs
    unfold step
    dsimp only
    split <;> simp [Timers.clearReload,hu]
  | check d =>
    unfold step netTimerCheckTmo
    dsimp only
    split <;> try rfl
    split <;> rfl
  | turn => rw [← (turn_turns s).timers_eq]; rfl

theorem callTimes_eq {t : T} (hl : s'.log = s.log) : s'.callTimes t = s.callTimes t := by
  rw [callTimes,hl,callTimes]

/-- A call that leaves the deadline of a timer alone. -/
theorem Tracks.due_eq {e : Event T P A} {t : T} (ht : s.Tracks e s') (hs : Spares t e)
    (he : e ≠ .turn) : s'.due t = s.due t := by
  have halarms : ∀ d, s'.alarms = { s.alarms with due := d } → s'.due = d := fun d h =>
    congrArg Alarms.due h
  cases e with
  | add u proc arg ms flags =>
    unfold Tracks at ht
    dsimp only at ht
    split at ht
    next => rw [halarms _ ht,Function.update_of_ne (Ne.symm hs)]
    next => rw [ht]
  | remove u =>
    unfold Tracks at ht
    dsimp only at ht
    split at ht
    next => rw [halarms _ ht,Function.update_of_ne (Ne.symm hs)]
    next => rw [ht]
  | clearReload u => exact congrFun (halarms _ ht) t
  | check d => exact congrFun (halarms _ ht) t
  | turn => exact absurd rfl he

theorem Effect.periodic {t : T} {d p : ℕ} (he : s.Effect s') (hrel : (s.timers t).reloads = true)
    (hper : (s.timers t).reload = p) (hq : s.Periodic t d p) :
    s'.callTimes t = s.callTimes t ∧ s'.Periodic t d p ∨
      s'.callTimes t = s.callTimes t++[d] ∧ s'.Periodic t (d+p) p := by
  cases he with
  | pass hd hn hl hr =>
    refine .inl ⟨callTimes_eq hl,?_⟩
    rcases hq with hq | ⟨hrun,hq,-⟩
    · exact .inl (by rw [hd,hq])
    · exact absurd hq (hr t hrun hrel)
  | fire u hu hd hn hl hr hno =>
    rcases hq with hq | ⟨hrun,-,-⟩
    · by_cases hut : u = t
      · subst hut
        have hdn : d = s.now := Option.some.inj (hq.symm.trans hu)
        refine .inr ⟨by simp [callTimes,hl,hdn],.inr ⟨hr,by simp [hd],by rw [hn,hdn]⟩⟩
      · refine .inl ⟨by simp [callTimes,hl,hut],.inl ?_⟩
        rw [hd,Function.update_of_ne (Ne.symm hut),hq]
    · exact absurd hrun (hno t)
  | rearm u hr hurel hu hd hn hl =>
    refine .inl ⟨callTimes_eq hl,.inl ?_⟩
    rcases hq with hq | ⟨hrun,-,hq⟩
    · have hut : t ≠ u := by
        rintro rfl
        rw [hu] at hq
        cases hq
      rw [hd,Function.update_of_ne hut,hq]
    · rw [(hr t).1 hrun] at hper
      rw [hd,(hr t).1 hrun,Function.update_self,hper,hq]

theorem step_periodic {e : Event T P A} {t : T} {d p : ℕ} (h : s.Kept) (hp : s.Polite e)
    (hs : Spares t e) (hrel : (s.timers t).reloads = true) (hper : (s.timers t).reload = p)
    (hq : s.Periodic t d p) :
    (s.step e).callTimes t = s.callTimes t ∧ (s.step e).Periodic t d p ∨
      (s.step e).callTimes t = s.callTimes t++[d] ∧ (s.step e).Periodic t (d+p) p := by
  have htr := step_tracks h.inv h.flat hp
  by_cases ht : e = .turn
  · subst ht
    exact Effect.periodic htr hrel hper hq
  · have hdue := htr.due_eq hs ht
    by_cases hc : ∃ d, e = .check d
    · obtain ⟨c,rfl⟩ := hc
      have hidle : s.pending = [] := hp
      refine .inl ⟨callTimes_eq (step_check_log s c),.inl ?_⟩
      rcases hq with hq | ⟨⟨f,hf,-⟩,-,-⟩
      · rw [hdue,hq]
      · simp [hidle] at hf
    · obtain ⟨hpe,hn,hl⟩ := step_user (s := s) ht fun c hc' => hc ⟨c,hc'⟩
      refine .inl ⟨callTimes_eq hl,?_⟩
      unfold Periodic Runs
      rw [hdue,hpe,hn]
      exact hq

/-- Calls of a reload timer that nothing touches are one period apart. -/
theorem run_periodic {es : List (Event T P A)} {t : T} {d p : ℕ} (h : s.Kept)
    (hp : s.PoliteRun es) (hs : ∀ e ∈ es, Spares t e) (hrel : (s.timers t).reloads = true)
    (hper : (s.timers t).reload = p) (hq : s.Periodic t d p) :
    ∃ k, (s.run es).callTimes t = s.callTimes t++(List.range k).map (d+·*p) ∧
      (s.run es).Periodic t (d+k*p) p := by
  induction es generalizing s d with
  | nil => exact ⟨0,by simp [run],by simpa [run] using hq⟩
  | cons e es ih =>
    have he : Spares t e := hs e (by simp)
    have htm := step_timers (s := s) he
    have ih := fun {d'} (hq' : (s.step e).Periodic t d' p) => ih (step_kept h hp.1) hp.2
      (fun e he => hs e (by simp [he])) (by rw [htm,hrel]) (by rw [htm,hper]) hq'
    rcases step_periodic h hp.1 he hrel hper hq with ⟨hc,hq'⟩ | ⟨hc,hq'⟩
    · obtain ⟨k,hk,hq'⟩ := ih hq'
      exact ⟨k,by rw [← hc]; exact hk,hq'⟩
    · obtain ⟨k,hk,hq'⟩ := ih hq'
      refine ⟨k+1,?_,?_⟩
      · rw [hc] at hk
        refine hk.trans ?_
        rw [List.range_succ_eq_map,List.map_cons,List.map_map,Nat.zero_mul,Nat.add_zero,
          List.append_assoc,List.singleton_append]
        congr 2
        refine List.map_congr_left fun i _ => ?_
        simp only [Function.comp,Nat.succ_mul]
        omega
      · have : d+(k+1)*p = d+p+k*p := by rw [Nat.succ_mul]; omega
        rw [this]
        exact hq'

/-! One check or two. -/

/-- The pending calls have `b` more left. -/
def late (b : ℕ) (s : Timers T P A) : Timers T P A :=
  { s with pending := s.pending.map fun f => { f with diffMs := f.diffMs+b } }

/-- The innermost call returns at its next turn. -/
def Returns (s : Timers T P A) (f : Frame T) : Prop :=
  f.running = none ∧ f.waitList = [] ∧ ∀ n ∈ s.timerList.head?, f.diffMs < n.gap

omit [DecidableEq T] in
theorem late_waiting (b : ℕ) (s : Timers T P A) : (s.late b).waiting = s.waiting := by
  simp [late,waiting,List.flatMap_map]

omit [DecidableEq T] in
theorem late_atUser (b : ℕ) (s : Timers T P A) : (s.late b).atUser = s.atUser := by
  unfold late atUser
  cases s.pending <;> rfl

theorem late_scheduled (b : ℕ) (s : Timers T P A) (t : T) :
    (s.late b).timerIsScheduled t = s.timerIsScheduled t := by
  unfold timerIsScheduled
  rw [late_waiting]
  rfl

theorem late_step_user {b : ℕ} {e : Event T P A} (he : e ≠ .turn) (hc : ∀ d, e ≠ .check d) :
    (s.late b).step e = (s.step e).late b := by
  cases e with
  | add t proc arg ms flags =>
    unfold step netTimerAdd
    simp only [late_atUser,late_scheduled]
    split <;> try rfl
    split <;> try rfl
    split <;> rfl
  | remove t => simp only [step,late_atUser]; split <;> rfl
  | clearReload t => simp only [step,late_atUser]; split <;> rfl
  | check d => exact absurd rfl (hc d)
  | turn => exact absurd rfl he

/-- Unless it returns, a call does the same when it has more left. -/
theorem late_turn {b : ℕ} {f : Frame T} (hp : s.pending = [f]) (hr : ¬ s.Returns f) :
    (s.late b).turn = s.turn.late b ∧ ∃ f', s.turn.pending = [f'] := by
  obtain ⟨d,wait,running⟩ := f
  have hpl : (s.late b).pending = [⟨d+b,wait,running⟩] := by simp [late,hp]
  unfold turn
  rw [hpl,hp]
  dsimp only
  match running, wait with
  | some t, wait =>
    dsimp only
    rw [leave_eq hp,leave_eq hpl,late_scheduled]
    change (if (s.timers t).reloads = true ∧ ¬ s.timerIsScheduled t = true then _ else _) = _ ∧ _
    split <;> exact ⟨rfl,_,rfl⟩
  | none, t :: wait => exact ⟨rfl,_,rfl⟩
  | none, [] =>
    dsimp only
    cases hl : s.timerList with
    | nil => exact absurd ⟨rfl,rfl,by simp [hl]⟩ hr
    | cons n l =>
      have hd : n.gap ≤ d := Nat.not_lt.1 fun h => hr ⟨rfl,rfl,by simpa [hl] using h⟩
      have hll : (s.late b).timerList = n :: l := hl
      rw [expire_collect hl hd,expire_collect hll (Nat.le_trans hd (Nat.le_add_right _ _))]
      refine ⟨?_,_,rfl⟩
      have : d+b-n.gap = d-n.gap+b := by omega
      simp [late,this]

/-- A call that has `b` more left than one that returns goes on as a new call with `b`. -/
theorem late_returns {b : ℕ} {f : Frame T} (hp : s.pending = [f]) (hr : s.Returns f) :
    s.turn.pending = [] ∧ (s.late b).turn = (s.turn.step (.check b)).turn := by
  obtain ⟨hf,hw,hl⟩ := hr
  have hturn : s.turn = s.expire f [] := by
    unfold turn
    simp [hp,hf,hw]
  have hlate : (s.late b).turn = (s.late b).expire { f with diffMs := f.diffMs+b } [] := by
    unfold turn
    simp [late,hp,hf,hw]
  have hcheck : ∀ s' : Timers T P A, s'.pending = [] → (s'.step (.check b)).turn =
      ({ s' with pending := [⟨b,[],none⟩] } : Timers T P A).expire ⟨b,[],none⟩ [] := by
    intro s' hp'
    have hb : ¬ (b : ℤ) < 0 := by omega
    simp [step,turn,netTimerCheckTmo,atUser,hp',hb]
  rw [hturn,hlate]
  cases hlist : s.timerList with
  | nil =>
    have hll : (s.late b).timerList = [] := hlist
    rw [expire_empty hlist,expire_empty hll,hcheck _ rfl,expire_empty (by exact hlist)]
    simp [late,Nat.add_assoc]
  | cons n l =>
    have hd : f.diffMs < n.gap := hl n (by simp [hlist])
    have hll : (s.late b).timerList = n :: l := hlist
    rw [expire_finish hlist hd,hcheck _ rfl]
    refine ⟨rfl,?_⟩
    have hadv : DeltaList.advance f.diffMs (n :: l) = { n with gap := n.gap-f.diffMs } :: l := rfl
    by_cases hb : f.diffMs+b < n.gap
    · rw [expire_finish hll hb,expire_finish (by exact hadv) (by dsimp only; omega),
        ← hadv,DeltaList.advance_advance]
      simp [late,Nat.add_assoc]
    · have hb := Nat.not_lt.1 hb
      rw [expire_collect hll hb,expire_collect (by exact hadv) (by dsimp only; omega),
        ← hadv,DeltaList.advance_advance]
      have h₁ : f.diffMs+(n.gap-f.diffMs) = n.gap := by omega
      have h₂ : f.diffMs+b-n.gap = b-(n.gap-f.diffMs) := by omega
      simp [late,hf,Nat.add_assoc,h₁,h₂]

/-- Two calls of `net_timer_check_tmo` in a row do what one call with the sum does. -/
theorem run_late {b : ℕ} {f : Frame T} (es : List (Event T P A)) (hp : s.pending = [f])
    (hc : ∀ e ∈ es, ∀ d, e ≠ .check d) (hidle : ((s.late b).run es).pending = []) :
    ∃ es₁ es₂, es = es₁++es₂ ∧ (s.run (es₁++[.turn])).pending = [] ∧
      (s.run (es₁++[.turn])).run (.check b :: es₂) = (s.late b).run es := by
  induction es generalizing s f with
  | nil => simp [run,late,hp] at hidle
  | cons e es ih =>
    have hce : ∀ d, e ≠ .check d := hc e (by simp)
    have hces : ∀ e ∈ es, ∀ d, e ≠ .check d := fun e he => hc e (by simp [he])
    have hgo : (s.late b).step e = (s.step e).late b → (∃ f', (s.step e).pending = [f']) →
        ∃ es₁ es₂, e :: es = es₁++es₂ ∧ (s.run (es₁++[.turn])).pending = [] ∧
          (s.run (es₁++[.turn])).run (.check b :: es₂) = (s.late b).run (e :: es) := by
      rintro hs ⟨f',hp'⟩
      have hrun : (s.late b).run (e :: es) = ((s.step e).late b).run es := by rw [← hs]; rfl
      rw [hrun] at hidle ⊢
      obtain ⟨es₁,es₂,rfl,hdone,heq⟩ := ih hp' hces hidle
      exact ⟨e :: es₁,es₂,rfl,hdone,heq⟩
    by_cases ht : e = .turn
    · subst ht
      by_cases hr : s.Returns f
      · obtain ⟨hdone,heq⟩ := late_returns (b := b) hp hr
        refine ⟨[],.turn :: es,rfl,hdone,?_⟩
        change ((s.turn.step (.check b)).turn).run es = ((s.late b).turn).run es
        rw [heq]
      · obtain ⟨hs,hp'⟩ := late_turn (b := b) hp hr
        exact hgo hs hp'
    · exact hgo (late_step_user ht hce) ⟨f,(step_user ht hce).1.trans hp⟩

theorem run_check_add {a b : ℕ} (es : List (Event T P A)) (hp : s.pending = [])
    (hc : ∀ e ∈ es, ∀ d, e ≠ .check d)
    (hidle : (s.run (.check (a+b : ℕ) :: es)).pending = []) :
    ∃ es₁ es₂, es = es₁++es₂ ∧ (s.run (.check a :: es₁++[.turn])).pending = [] ∧
      s.run (.check a :: es₁++.turn :: .check b :: es₂) = s.run (.check (a+b : ℕ) :: es) := by
  have hcheck : ∀ c : ℕ, s.step (.check c) = { s with pending := [⟨c,[],none⟩] } := fun c => by
    have hc : ¬ (c : ℤ) < 0 := by omega
    simp [step,netTimerCheckTmo,atUser,hp,hc]
  have hlate : s.step (.check (a+b : ℕ)) = (s.step (.check a)).late b := by
    rw [hcheck,hcheck]
    rfl
  change (((s.step (.check (a+b : ℕ))).run es)).pending = [] at hidle
  rw [hlate] at hidle
  obtain ⟨es₁,es₂,rfl,hdone,heq⟩ := run_late es (by rw [hcheck]) hc hidle
  refine ⟨es₁,es₂,rfl,hdone,?_⟩
  change (s.step (.check a)).run (es₁++.turn :: .check b :: es₂) =
    (s.step (.check (a+b : ℕ))).run (es₁++es₂)
  rw [hlate,← heq,← run_append,List.append_assoc]
  rfl

theorem netTimerFirstTmo_eq_zero (h : ∀ t, s.timerIsScheduled t = false) :
    s.netTimerFirstTmo = 0 := by
  unfold netTimerFirstTmo
  cases hl : s.timerList with
  | nil => rfl
  | cons n l => simpa [hl] using (timerIsScheduled_false.1 (h n.item)).1

/-- `net_timer_first_tmo` is the time to the first deadline outside the batch being expired. -/
theorem netTimerFirstTmo_least (hi : s.Inv) {t : T} {d : ℕ} (ht : t ∉ s.waiting)
    (hd : s.due t = some d) :
    IsLeast {d | ∃ t, t ∉ s.waiting ∧ s.due t = some d} (s.now+s.netTimerFirstTmo) := by
  have hrem : ∀ u d, u ∉ s.waiting → s.due u = some d →
      ∃ r, DeltaList.remaining u s.timerList = some r ∧ s.now+r = d := fun u d hu h => by
    rw [due,if_neg hu] at h
    exact Option.map_eq_some_iff.1 h
  obtain ⟨r,hr,-⟩ := hrem t d ht hd
  unfold netTimerFirstTmo
  cases hl : s.timerList with
  | nil => simp [hl,DeltaList.remaining] at hr
  | cons n l =>
    have hn : n.item ∉ s.waiting := fun h =>
      (List.nodup_append.1 hi.nodup).2.2 n.item (by simp [hl]) n.item h rfl
    refine ⟨⟨n.item,hn,?_⟩,?_⟩
    · simp [due,hn,hl,DeltaList.remaining]
    · rintro d' ⟨u,hu,hd'⟩
      obtain ⟨r',hr',rfl⟩ := hrem u d' hu hd'
      have := DeltaList.gap_le_of_remaining (hl ▸ hr')
      exact Nat.add_le_add_left this _

/-- What absolute deadlines mean for the timers after the events `es`. -/
structure Punctual (es : List (Event T P A)) (s : Timers T P A) : Prop where
  /-- Every event does to the deadlines what it says. -/
  tracks : ∀ e, s.Polite e → s.Tracks e (s.step e)
  /-- Callbacks were entered in the order of their deadlines and no deadline was missed. -/
  ordered : s.alarms.Ordered
  /-- When no call is pending, every deadline up to now has been served. -/
  served : s.pending = [] → ∀ t d, s.due t = some d → s.now < d
  /-- Virtual time is the sum of the consumed `diff_ms`. -/
  time : s.now+(s.pending.map Frame.diffMs).sum = (es.map spent).sum
  /-- A pending call returns once its callbacks do. -/
  returns : ∀ e : ℕ → Event T P A, (∀ i d, e i ≠ .check d) →
    (∀ i, ∃ j, i ≤ j ∧ e j = .turn) → ∃ n, (s.run ((List.range n).map e)).pending = []
  /-- A reload timer fires once in every period. -/
  periodic : ∀ t d es', s.due t = some d → (s.timers t).reloads = true → s.PoliteRun es' →
    (∀ e ∈ es', Spares t e) → ∃ k,
      (s.run es').callTimes t =
        s.callTimes t++(List.range k).map (fun i => d+i*(s.timers t).reload) ∧
      ((s.run es').pending = [] → (s.run es').due t = some (d+k*(s.timers t).reload))
  /-- Two checks in a row do what one with the sum does, callbacks included. -/
  split : ∀ (a b : ℕ) es', s.pending = [] → (∀ e ∈ es', ∀ d, e ≠ .check d) →
    (s.run (.check (a+b : ℕ) :: es')).pending = [] →
    ∃ es₁ es₂, es' = es₁++es₂ ∧ (s.run (.check a :: es₁++[.turn])).pending = [] ∧
      s.run (.check a :: es₁++.turn :: .check b :: es₂) = s.run (.check (a+b : ℕ) :: es')
  /-- `net_timer_first_tmo` is zero or the time to the first deadline. -/
  first : ((∀ t, s.timerIsScheduled t = false) → s.netTimerFirstTmo = 0) ∧
    ∀ t d, t ∉ s.waiting → s.due t = some d →
      IsLeast {d | ∃ t, t ∉ s.waiting ∧ s.due t = some d} (s.now+s.netTimerFirstTmo)

/-- The timer list refines absolute deadlines. -/
theorem timers_punctual (timers : T → Timer P A) (es : List (Event T P A))
    (hp : (init timers).PoliteRun es) : Punctual es ((init timers).run es) := by
  have hk := run_kept (init_kept timers) hp
  refine ⟨fun e => step_tracks hk.inv hk.flat,hk.ordered,fun hp t d => now_lt_due hk.inv hp,?_,
    run_returns hk.inv,fun t d es' hd hrel hp' hs => ?_,fun a b es' => run_check_add es',
    netTimerFirstTmo_eq_zero,fun t d => netTimerFirstTmo_least hk.inv⟩
  · have := run_horizon hp
    simpa [horizon,init] using this
  · obtain ⟨k,hk,hq⟩ := run_periodic hk hp' hs hrel rfl (.inl hd)
    refine ⟨k,hk,fun hidle => hq.resolve_right ?_⟩
    rintro ⟨⟨f,hf,-⟩,-,-⟩
    simp [hidle] at hf

/-- One check serves two periods of a reload timer. -/
def twoPeriods : List (Event Bool Unit Unit) :=
  [.add true () () 10 netTimerReload,.check 25,.turn,.turn,.turn,.turn,.turn,.turn,.turn]

theorem timers_punctual_two_periods :
    let s := (init fun _ => ⟨0,0,(),()⟩).run twoPeriods
    s.callTimes true = [10,20] ∧ s.due true = some 30 ∧ s.now = 25 ∧ Punctual twoPeriods s :=
  ⟨by decide,by decide,by decide,timers_punctual _ twoPeriods
    ⟨trivial,rfl,trivial,trivial,trivial,trivial,trivial,trivial,trivial,trivial⟩⟩

end Timers
end NetTimer
end QuardStarNet
