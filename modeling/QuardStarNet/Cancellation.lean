import QuardStarNet.Deadlines

/-! What `net_timer_remove` cancels. It searches the timer list only: a timer in the wait list of
a pending `net_timer_check_tmo` still fires, and a reload timer whose callback runs is inserted
again when the callback returns. -/
namespace QuardStarNet
namespace NetTimer
namespace Timers

variable {T P A : Type} [DecidableEq T]

/-- The callbacks of the timer entered so far. -/
def callsOf (s : Timers T P A) (t : T) : List (Call T P A) := s.log.filter fun c => c.timer = t

/-- The event adds the timer successfully. -/
def Adds (s : Timers T P A) (t : T) : Event T P A → Prop
  | .add u proc arg ms flags =>
    u = t ∧ s.atUser = true ∧ (s.netTimerAdd u proc arg ms flags).2 = .ok
  | _ => False

/-- No event of the run adds the timer successfully. -/
def NeverAdds (s : Timers T P A) (t : T) : List (Event T P A) → Prop
  | [] => True
  | e :: es => ¬ s.Adds t e ∧ (s.step e).NeverAdds t es

/-- Removing the timer now cancels it: it is not scheduled, is not called until it is added
again, and can be added again at once. -/
def Cancels (s : Timers T P A) (t : T) : Prop :=
  (s.netTimerRemove t).timerIsScheduled t = false ∧
  (∀ es, (s.netTimerRemove t).NeverAdds t es →
    ((s.netTimerRemove t).run es).callsOf t = s.callsOf t) ∧
  ∀ proc arg (ms : ℤ) flags, 0 < ms →
    ((s.netTimerRemove t).netTimerAdd t proc arg ms flags).2 = .ok

/-- The callback of the reload timer runs. -/
def Reloading (s : Timers T P A) (t : T) : Prop := s.Runs t ∧ (s.timers t).reloads = true

/-- The timer is scheduled or about to be inserted again. -/
def Alive (s : Timers T P A) (t : T) : Prop :=
  t ∈ DeltaList.items s.timerList ∨ t ∈ s.waiting ∨ s.Reloading t

variable {s s' : Timers T P A} {t : T}

/-- A turn of `net_timer_check_tmo` calls a timer that is alive, or leaves it as it is. -/
theorem Turns.alive (h : Turns s s') (t : T) :
    (s'.callsOf t = s.callsOf t ∧ (s'.Alive t ↔ s.Alive t)) ∨
      (s.Alive t ∧ ∃ c, s'.callsOf t = s.callsOf t++[c]) := by
  cases h with
  | idle => exact .inl ⟨rfl,Iff.rfl⟩
  | reload f fs u hp hf hrel ht =>
    refine .inl ⟨rfl,?_⟩
    simp only [Alive,Reloading,Runs,waiting,hp,insertTimer,DeltaList.mem_items_insert]
    grind
  | leave f fs u hp hf ht =>
    refine .inl ⟨rfl,?_⟩
    have hsch : s.timerIsScheduled u = true ↔
        u ∈ DeltaList.items s.timerList ∨ u ∈ s.waiting := by simp [timerIsScheduled]
    rw [hsch] at ht
    simp only [Alive,Reloading,Runs,waiting,hp] at ht ⊢
    grind
  | enter f fs u wait hp hf hw =>
    by_cases hu : u = t
    · refine .inr ⟨.inr (.inl (by simp [waiting,hp,hw,hu])),?_⟩
      simp [callsOf,Timers.enter,hu]
    · refine .inl ⟨by simp [callsOf,Timers.enter,hu],?_⟩
      simp only [Alive,Reloading,Runs,waiting,hp,Timers.enter,List.flatMap_cons,hw]
      grind
  | empty f fs hp hf hw hl =>
    refine .inl ⟨rfl,?_⟩
    simp only [Alive,Reloading,Runs,waiting,hp,List.flatMap_cons,hw]
    grind
  | finish f fs n l hp hf hw hl hd =>
    refine .inl ⟨rfl,?_⟩
    simp only [Alive,Reloading,Runs,waiting,hp,hl,List.flatMap_cons,hw,DeltaList.items_advance]
    grind
  | collect f fs n l hp hf hw hl hd =>
    refine .inl ⟨rfl,?_⟩
    have hm : t ∈ DeltaList.items s.timerList ↔
        t ∈ DeltaList.items (DeltaList.reached (DeltaList.advance n.gap (n :: l))) ∨
          t ∈ DeltaList.items (DeltaList.ahead (DeltaList.advance n.gap (n :: l))) := by
      rw [hl,← items_collect,List.mem_append]
    simp only [Alive,Reloading,Runs,waiting,hp,hm,List.flatMap_cons,hw]
    grind

/-! What stays cancelled. -/

omit [DecidableEq T] in
theorem reloads_cleared (x : Timer P A) :
    ({ x with flags := x.flags &&& ~~~netTimerReload } : Timer P A).reloads = false := by
  have : x.flags &&& ~~~netTimerReload &&& netTimerReload = 0 := by
    rw [UInt32.and_assoc]
    exact UInt32.and_zero
  simp [Timer.reloads,this]

theorem step_gone {e : Event T P A} (hg : ¬ s.Alive t) (ha : ¬ s.Adds t e) :
    ¬ (s.step e).Alive t ∧ (s.step e).callsOf t = s.callsOf t := by
  cases e with
  | add u proc arg ms flags =>
    unfold step
    dsimp only
    split
    next hu =>
      have hadd : u = t → (s.netTimerAdd u proc arg ms flags).2 ≠ .ok := fun he hok =>
        ha ⟨he,hu,hok⟩
      revert hadd
      unfold netTimerAdd
      split
      · exact fun _ => ⟨hg,rfl⟩
      split
      · exact fun _ => ⟨hg,rfl⟩
      intro hadd
      have hut : t ≠ u := fun he => hadd he.symm rfl
      refine ⟨?_,rfl⟩
      simpa [Alive,Reloading,Runs,waiting,insertTimer,DeltaList.mem_items_insert,hut] using hg
    next => exact ⟨hg,rfl⟩
  | remove u =>
    unfold step
    dsimp only
    split
    next =>
      refine ⟨fun h => hg ?_,rfl⟩
      refine h.imp_left fun hm => ?_
      rw [netTimerRemove,DeltaList.items_erase] at hm
      exact List.mem_of_mem_erase hm
    next => exact ⟨hg,rfl⟩
  | clearReload u =>
    unfold step
    dsimp only
    split
    next =>
      refine ⟨fun h => hg ?_,rfl⟩
      refine h.imp_right (Or.imp_right ?_)
      rintro ⟨hr,hrel⟩
      refine ⟨hr,?_⟩
      by_cases hu : t = u
      · subst hu
        simp [Timers.clearReload,reloads_cleared] at hrel
      · simpa [Timers.clearReload,hu] using hrel
    next => exact ⟨hg,rfl⟩
  | check d =>
    unfold step netTimerCheckTmo
    dsimp only
    split
    · split
      · exact ⟨hg,rfl⟩
      · refine ⟨?_,rfl⟩
        simpa [Alive,Reloading,Runs,waiting] using hg
    · exact ⟨hg,rfl⟩
  | turn =>
    rcases (turn_turns s).alive t with ⟨hc,ht⟩ | ⟨ht,-⟩
    · exact ⟨ht.not.2 hg,hc⟩
    · exact absurd ht hg

theorem run_gone {es : List (Event T P A)} (hg : ¬ s.Alive t) (ha : s.NeverAdds t es) :
    (s.run es).callsOf t = s.callsOf t := by
  induction es generalizing s with
  | nil => rfl
  | cons e es ih =>
    obtain ⟨hg',hc⟩ := step_gone hg ha.1
    exact (ih hg' ha.2).trans hc

/-! What is still called. -/

/-- The timer was called since. -/
def Called (s s' : Timers T P A) (t : T) : Prop :=
  (s.callsOf t).length < (s'.callsOf t).length

theorem turns_calls_le (s : Timers T P A) (t : T) (n : ℕ) :
    (s.callsOf t).length ≤ ((s.run (List.replicate n .turn)).callsOf t).length := by
  induction n generalizing s with
  | zero => exact Nat.le_refl _
  | succ n ih =>
    refine Nat.le_trans ?_ (ih s.turn)
    rcases (turn_turns s).alive t with ⟨hc,-⟩ | ⟨-,c,hc⟩ <;> simp [hc]

/-- Turns keep a timer alive until it is called. -/
theorem turns_alive (ha : s.Alive t) (n : ℕ) :
    (s.run (List.replicate n .turn)).Alive t ∨ s.Called (s.run (List.replicate n .turn)) t := by
  induction n generalizing s with
  | zero => exact .inl ha
  | succ n ih =>
    rcases (turn_turns s).alive t with ⟨hc,ht⟩ | ⟨-,c,hc⟩
    · refine (ih (ht.2 ha)).imp id fun h => ?_
      unfold Called at h ⊢
      rw [hc] at h
      exact h
    · refine .inr (Nat.lt_of_lt_of_le ?_ (turns_calls_le s.turn t n))
      simp [hc]

/-- Turns keep the deadline of a timer until it is called. -/
theorem turns_due {d : ℕ} (hi : s.Inv) (hf : s.Flat) (hd : s.due t = some d) (n : ℕ) :
    (s.run (List.replicate n .turn)).due t = some d ∨
      s.Called (s.run (List.replicate n .turn)) t := by
  induction n generalizing s with
  | zero => exact .inl hd
  | succ n ih =>
    have hle := turns_calls_le s.turn t n
    have hgo : s.turn.due t = some d → (s.callsOf t).length ≤ (s.turn.callsOf t).length →
        (s.run (List.replicate (n+1) .turn)).due t = some d ∨
          s.Called (s.run (List.replicate (n+1) .turn)) t := fun hd' hc =>
      (ih ((turn_turns s).inv hi) (step_flat (e := .turn) hf trivial) hd').imp id
        (Nat.lt_of_le_of_lt hc)
    cases (turn_turns s).effect hi hf with
    | pass hd' hn hl => exact hgo (by rw [hd',hd]) (by simp [callsOf,hl])
    | fire u hu hd' hn hl =>
      by_cases hut : u = t
      · refine .inr (Nat.lt_of_lt_of_le ?_ hle)
        simp [callsOf,hl,hut]
      · refine hgo ?_ (by simp [callsOf,hl,hut])
        rw [hd',Function.update_of_ne (Ne.symm hut),hd]
    | rearm u hr hrel hu hd' hn hl =>
      have hut : t ≠ u := by
        rintro rfl
        rw [hu] at hd
        cases hd
      exact hgo (by rw [hd',Function.update_of_ne hut,hd]) (by simp [callsOf,hl])

theorem turns_return (hi : s.Inv) : ∃ n, (s.run (List.replicate n .turn)).pending = [] := by
  obtain ⟨n,hn⟩ := run_returns hi (fun _ => .turn) (by simp) fun i => ⟨i,Nat.le_refl _,rfl⟩
  exact ⟨n,by simpa using hn⟩

theorem politeRun_turns (s : Timers T P A) (n : ℕ) : s.PoliteRun (List.replicate n .turn) := by
  induction n generalizing s with
  | zero => trivial
  | succ n ih => exact ⟨trivial,ih s.turn⟩

/-- A timer that is scheduled while no call is pending is called by a check that reaches its
deadline. -/
theorem check_calls (hi : s.Inv) (hp : s.pending = []) (ha : s.Alive t) :
    ∃ (d : ℕ) (n : ℕ), s.Called (s.run (.check d :: List.replicate n .turn)) t := by
  have hsch : s.due t ≠ none := by
    rw [ne_eq,due_eq_none,timerIsScheduled_false]
    rintro ⟨h₁,h₂⟩
    rcases ha with h | h | ⟨⟨f,hf,-⟩,-⟩
    · exact h₁ h
    · exact h₂ h
    · simp [hp] at hf
  obtain ⟨d,hd⟩ := Option.ne_none_iff_exists'.1 hsch
  have hpol : s.Polite (.check (d-s.now : ℕ)) := hp
  have hflat : s.Flat := by simp [Flat,hp]
  let s₁ := s.step (.check (d-s.now : ℕ))
  have hi₁ : s₁.Inv := (step_acts s _).inv hi
  have hd₁ : s₁.due t = some d :=
    ((step_tracks hi hflat hpol).due_eq trivial (by simp)).trans hd
  have hc₁ : s₁.callsOf t = s.callsOf t :=
    congrArg (List.filter _) (step_check_log s _)
  obtain ⟨n,hn⟩ := turns_return hi₁
  refine ⟨d-s.now,n,?_⟩
  rcases turns_due hi₁ (step_flat hflat hpol) hd₁ n with h | h
  · -- the check has returned at the deadline and left it in the past
    have hlt := now_lt_due (run_inv hi₁ _) hn h
    have hrun : s.PoliteRun (.check (d-s.now : ℕ) :: List.replicate n .turn) :=
      ⟨hpol,politeRun_turns _ n⟩
    have hz := run_horizon hrun
    have hle := now_le_due hd
    have hnow : (s₁.run (List.replicate n .turn)).now = d := by
      change (s₁.run (List.replicate n .turn)).horizon = _ at hz
      simp only [horizon,hn,hp] at hz
      simp [spent] at hz
      omega
    omega
  · unfold Called at h ⊢
    rw [hc₁] at h
    exact h

theorem neverAdds_of {es : List (Event T P A)}
    (h : ∀ e ∈ es, e = .turn ∨ ∃ d, e = .check d) : s.NeverAdds t es := by
  induction es generalizing s with
  | nil => trivial
  | cons e es ih =>
    refine ⟨?_,ih fun e he => h e (by simp [he])⟩
    rcases h e (by simp) with rfl | ⟨d,rfl⟩ <;> exact id

/-- A timer that is alive is called again without being added. -/
theorem alive_called (hi : s.Inv) (ha : s.Alive t) :
    ∃ es, s.NeverAdds t es ∧ s.Called (s.run es) t := by
  obtain ⟨n,hn⟩ := turns_return hi
  rcases turns_alive ha n with h | h
  · obtain ⟨d,m,hc⟩ := check_calls (run_inv hi _) hn h
    refine ⟨List.replicate n .turn++.check d :: List.replicate m .turn,neverAdds_of ?_,?_⟩
    · intro e he
      simp only [List.mem_append,List.mem_cons,List.mem_replicate] at he
      rcases he with he | he | he
      · exact .inl he.2
      · exact .inr ⟨_,he⟩
      · exact .inl he.2
    · rw [run_append]
      exact Nat.lt_of_le_of_lt (turns_calls_le s t n) hc
  · exact ⟨_,neverAdds_of fun e he => .inl (List.eq_of_mem_replicate he),h⟩

/-- Removing a timer cancels it exactly if it is not in the wait list of a pending call and is
not a reload timer whose callback runs. -/
theorem remove_cancels_iff (timers : T → Timer P A) (es : List (Event T P A)) (t : T) :
    ((init timers).run es).Cancels t ↔
      t ∉ ((init timers).run es).waiting ∧ ¬ ((init timers).run es).Reloading t := by
  have hi := run_inv (init_inv timers) es
  generalize (init timers).run es = s at hi
  have hi' : (s.netTimerRemove t).Inv := (Acts.remove t).inv hi
  have hitems : t ∉ DeltaList.items (s.netTimerRemove t).timerList := by
    rw [netTimerRemove,DeltaList.items_erase]
    exact hi.list_nodup.not_mem_erase
  constructor
  · rintro ⟨hsch,hcalls,-⟩
    refine ⟨(timerIsScheduled_false.1 hsch).2,fun hr => ?_⟩
    obtain ⟨es,hna,hc⟩ := alive_called (t := t) hi' (.inr (.inr hr))
    rw [Called,hcalls es hna] at hc
    exact Nat.lt_irrefl _ hc
  · rintro ⟨hw,hr⟩
    have hsch : (s.netTimerRemove t).timerIsScheduled t = false :=
      timerIsScheduled_false.2 ⟨hitems,hw⟩
    refine ⟨hsch,fun es hna => run_gone ?_ hna,fun proc arg ms flags hms => ?_⟩
    · rintro (h | h | h)
      · exact hitems h
      · exact hw h
      · exact hr h
    · unfold netTimerAdd
      rw [if_neg (by omega),if_neg (by simp [hsch])]

/-- Two timers expire together and the callback of the first one runs. -/
def batch : Timers Bool Unit Unit :=
  (init fun _ => ⟨0,0,(),()⟩).run
    [.add false () () 10 0,.add true () () 10 0,.check 10,.turn,.turn]

/-- A reload timer expires and its callback runs. -/
def ownCallback : Timers Bool Unit Unit :=
  (init fun _ => ⟨0,0,(),()⟩).run [.add true () () 10 netTimerReload,.check 10,.turn,.turn]

/-- The first callback removes the second timer, which stays scheduled, cannot be added and is
called; the callback of a reload timer removes it, and it is called again after its period. -/
theorem remove_misses_batch_and_reload :
    (batch.atUser = true ∧ (batch.netTimerRemove true).timerIsScheduled true = true ∧
      ((batch.netTimerRemove true).netTimerAdd true () () 5 0).2 = .exist ∧
      (batch.run [.remove true,.turn,.turn]).callTimes true = [10] ∧ ¬ batch.Cancels true) ∧
    (ownCallback.atUser = true ∧ ownCallback.callTimes true = [10] ∧
      (ownCallback.run [.remove true,.turn,.turn,.check 10,.turn,.turn]).callTimes true = [10,20] ∧
      ¬ ownCallback.Cancels true) := by
  refine ⟨⟨by decide,by decide,by decide,by decide,fun h => absurd h.1 (by decide)⟩,
    by decide,by decide,by decide,fun h => ?_⟩
  have hc := h.2.1 [.turn,.turn,.check 10,.turn,.turn] ⟨id,id,id,id,id,trivial⟩
  exact absurd (congrArg List.length hc) (by decide)

end Timers
end NetTimer
end QuardStarNet
