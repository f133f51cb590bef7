import QuardStarNet.NetExec
import Mathlib.Data.Fintype.Card

/-! The executor runs what is submitted exactly once: what is known of a request that a call holds
and of one that none holds, which every step of a thread or of the worker keeps, and what that says
about calls and runs. -/
namespace QuardStarNet
namespace NetExec

variable {T P A : Type}

def Worker.slot? : Worker → Option ReqId
  | .recvNotify i | .got i | .run i | .running i _ | .ran i => some i
  | .idle | .recvWait | .recvTake => none

/-- The worker has set `started` in request `i` and not yet completed it. -/
def Worker.Begun : Worker → ReqId → Prop
  | .run i, i' | .running i _, i' | .ran i, i' => i = i'
  | _, _ => False

/-- The request is not in the queue yet. -/
def Stage.Unsent : Stage → Prop
  | .sendCheck | .sendWait | .sendPut => True
  | .sendFailed err => err ≠ .ok
  | _ => False

/-- The call has no result yet. -/
def Stage.Awaits (started : Bool) : Stage → Prop
  | .sendNotify | .wait => True
  | .check err => err ≠ .ok
  | .waitAgain => started = true
  | _ => False

def Stage.Ready (stage : Stage) : Prop := stage = .check .ok ∨ stage = .final .ok

/-- The request is that of the call. -/
def Req.Filled (r : Req P A) (j : Job P A) : Prop :=
  r.proc = some j.proc ∧ r.arg = some j.arg ∧ r.call = j.call ∧ r.abandoned = false

/-- A request that no call holds. -/
def Req.Spare (r : Req P A) (busy begun : Prop) : Prop :=
  r.done = some 0 ∧ (r.proc = none ∧ ¬busy ∨
    r.proc ≠ none ∧ r.abandoned = true ∧ r.completed = false ∧ busy ∧ ¬begun)

/-- A request that a call holds -/
def Req.Held (r : Req P A) (busy begun : Prop) (j : Job P A) (stage : Stage) : Prop :=
  r.Filled j ∧
    (¬busy ∧ r.done = some 0 ∧ r.started = false ∧ r.completed = false ∧ stage.Unsent ∨
      busy ∧ r.done = some 0 ∧ (r.started = true ↔ begun) ∧ r.completed = false ∧ stage.Awaits r.started ∨
      ¬busy ∧ r.done = some 1 ∧ r.started = true ∧ r.completed = true ∧ stage.Awaits true ∨
      ¬busy ∧ r.done = some 0 ∧ r.completed = true ∧ stage.Ready)

/-- The requests in the queue, and the one that the worker has taken out of it. -/
def Exec.busy (s : Exec T P A) : List ReqId := s.queue.contents++s.worker.slot?.toList

def Thread.req? : Thread P A → Option ReqId
  | .within _ i _ => some i
  | _ => none

theorem Thread.req?_eq_some {th : Thread P A} {i : ReqId} (h : th.req? = some i) : ∃ j stage, th = .within j i stage := by
  cases th <;> simp_all [req?]

structure Inv (s : Exec T P A) : Prop where
  nodup : s.busy.Nodup
  owner : ∀ t t' i, (s.threads t).req? = some i → (s.threads t').req? = some i → t = t'
  held : ∀ t j i stage, s.threads t = .within j i stage →
    (s.requests i).Held (i ∈ s.busy) (s.worker.Begun i) j stage
  spare : ∀ i, (∀ t, (s.threads t).req? ≠ some i) →
    (s.requests i).Spare (i ∈ s.busy) (s.worker.Begun i)

variable {s s' : Exec T P A} {t : T} {j : Job P A} {i : ReqId} {stage : Stage}

theorem Worker.Begun.slot {w : Worker} {i : ReqId} (h : w.Begun i) : w.slot? = some i := by
  cases w <;> simp [Begun] at h <;> simp [slot?,h]

theorem Stage.Awaits.start {b : Bool} (h : stage.Awaits b) : stage.Awaits true := by
  cases stage <;> trivial

namespace Inv

theorem init : Inv (Exec.init : Exec T P A) where
  nodup := by simp [Exec.busy,Exec.init,Worker.slot?]
  owner := by simp [Exec.init,Thread.req?]
  held t j i stage := by simp [Exec.init]
  spare i := by simp [Exec.busy,Exec.init,Worker.slot?,Req.Spare]

theorem contents_pop (h : 0 < s.queue.count) : s.queue.contents = s.queue.cell 0::(s.queue.pop h).contents := by
  have hlen : 0 < s.queue.contents.length := by simpa using h
  rw [Ring.pop_contents,← Ring.contents_get s.queue hlen]
  exact (List.cons_head_tail (List.ne_nil_of_length_pos hlen)).symm.trans (by simp [List.head_eq_getElem])


attribute [local grind =] Thread.req? Function.update_apply Worker.slot? Worker.Begun Req.Filled Stage.Unsent Stage.Awaits
  Stage.Ready Req.Held Req.Spare sysSemNotify
attribute [local grind →] Stage.Awaits.start Thread.req?_eq_some Worker.Begun.slot

theorem worked (h : Inv s) : Inv s.work := by
  obtain ⟨h1,h2,h3,h4⟩ := h
  unfold Exec.work
  cases hw : s.worker <;> simp only [Exec.enter]
  all_goals (repeat' split)
  all_goals simp only [Exec.busy,hw,Worker.slot?,Option.toList] at h1 h3 h4
  case recvTake.isTrue hc =>
    have hp := contents_pop hc
    constructor <;> simp only [Exec.busy,Exec.setWorker,Worker.slot?,Option.toList] <;> grind
  all_goals
    constructor <;> (try simp only [Exec.busy,Exec.setWorker,Exec.setReq,Exec.log,hw,Worker.slot?,Option.toList]) <;> grind

/-- The request that the worker has begun belongs to a call that waits for it. -/
theorem begun (h : Inv s) (hb : s.worker.Begun i) : ∃ t j stage, s.threads t = .within j i stage ∧
    (s.requests i).Filled j ∧ (s.requests i).completed = false := by
  have hslot := hb.slot
  obtain ⟨h1,h2,h3,h4⟩ := h
  have h5 : ∃ t, (s.threads t).req? = some i := by grind [Exec.busy]
  grind [Exec.busy]

/-- The queue has a place for a request that is not in it. -/
theorem queue_lt (h : Inv s) (hi : i ∉ s.busy) : s.queue.count < 8 := by
  have hn : (i::s.queue.contents).Nodup :=
    List.nodup_cons.2 ⟨fun hc => hi (List.mem_append_left _ hc),(List.nodup_append.1 h.nodup).1⟩
  have := List.Nodup.length_le_card hn
  simp only [List.length_cons,Ring.contents_length,Fintype.card_fin] at this
  omega

/-- A free request is not held, has no token and is not in the queue. -/
theorem free (h : Inv s) (hproc : (s.requests i).proc = none) :
    (∀ t, (s.threads t).req? ≠ some i) ∧ (s.requests i).done = some 0 ∧ i ∉ s.busy := by
  obtain ⟨h1,h2,h3,h4⟩ := h
  have h5 : ∀ t, (s.threads t).req? ≠ some i := by grind
  grind

variable [DecidableEq T]

theorem reserve (h : Inv s) (ht : s.threads t = .reserve j) : Inv (s.reserve t j) := by
  unfold Exec.reserve
  split
  next =>
    obtain ⟨h1,h2,h3,h4⟩ := h
    constructor <;> simp only [Exec.ret,Exec.goto,Exec.log,Exec.busy,Function.update_apply] <;> grind [Exec.busy]
  next i hi =>
    have hproc : (s.requests i).proc = none := by simpa using List.find?_some hi
    have hfree := h.free hproc
    obtain ⟨h1,h2,h3,h4⟩ := h
    constructor <;> simp only [Exec.setReq,Exec.goto,Exec.busy,Function.update_apply] <;> grind [Exec.busy]

theorem finish (h : Inv s) {err : NetErr} (ht : s.threads t = .within j i stage)
    (hstage : stage = .check err ∨ stage = .final err)
    (hs : err ≠ .ok → (s.requests i).started = true → (s.requests i).completed = true) :
    Inv (s.finish t j i err) := by
  have h3 := h.held t j i stage ht
  unfold Exec.finish
  simp only
  split
  all_goals
    obtain ⟨h1,h2,h3,h4⟩ := h
    constructor <;> simp only [Exec.ret,Exec.setReq,Exec.log,Exec.goto,Exec.busy,Function.update_apply] <;> grind [Exec.busy,sysSemPoll]

theorem sysSemTimedWait_zero {timeoutMs : ℤ} {expired : Bool} {r : Sem × NetErr}
    (h : sysSemTimedWait (some 0) timeoutMs expired = some r) : r = (some 0,.tmo) ∧ timeoutMs ≠ 0 := by
  grind [sysSemTimedWait,sysSemWait]

theorem sysSemTimedWait_one {timeoutMs : ℤ} {expired : Bool} {r : Sem × NetErr}
    (h : sysSemTimedWait (some 1) timeoutMs expired = some r) :
    r = (some 0,.ok) ∨ r = (some 1,.tmo) ∧ 0 < timeoutMs := by
  grind [sysSemTimedWait,sysSemWait]

theorem within (h : Inv s) (ht : s.threads t = .within j i stage) (expired : Bool) :
    Inv (s.within t j i expired stage) := by
  have h0 := h.held t j i stage ht
  have hlt := h.queue_lt (i := i)
  cases stage <;> simp only [Exec.within,Exec.waitOn]
  case final => apply h.finish ht <;> grind
  case check =>
    split
    next =>
      obtain ⟨h1,h2,h3,h4⟩ := h
      constructor <;> simp only [Exec.goto,Exec.busy,Function.update_apply] <;> grind [Exec.busy]
    next => apply h.finish ht <;> grind
  case wait =>
    split
    next => exact h
    next r hr =>
      have hd : (s.requests i).done = some 0 ∨ (s.requests i).done = some 1 := by grind
      have hr : (s.requests i).done = some 0 ∧ r = (some 0,.tmo) ∨
        (s.requests i).done = some 1 ∧ (r = (some 0,.ok) ∨ r = (some 1,.tmo)) := by
        rcases hd with hd | hd <;> rw [hd] at hr
        · exact .inl ⟨hd,(sysSemTimedWait_zero hr).1⟩
        · exact .inr ⟨hd,(sysSemTimedWait_one hr).imp id And.left⟩
      obtain ⟨h1,h2,h3,h4⟩ := h
      constructor <;> simp only [Exec.setReq,Exec.goto,Exec.busy,Function.update_apply] <;> grind [Exec.busy]
  case waitAgain =>
    split
    next => exact h
    next r hr =>
      have hd : (s.requests i).done = some 0 ∨ (s.requests i).done = some 1 := by grind
      have hr : (s.requests i).done = some 1 ∧ r = (some 0,.ok) := by
        rcases hd with hd | hd <;> rw [hd] at hr
        · exact absurd rfl (sysSemTimedWait_zero hr).2
        · exact ⟨hd,(sysSemTimedWait_one hr).resolve_right (by simp)⟩
      obtain ⟨h1,h2,h3,h4⟩ := h
      constructor <;> simp only [Exec.setReq,Exec.goto,Exec.busy,Function.update_apply] <;> grind [Exec.busy]
  all_goals
    try split
    try exact h
  all_goals
    obtain ⟨h1,h2,h3,h4⟩ := h
    constructor <;> (try simp only [Exec.ret,Exec.setReq,Exec.log,Exec.goto,Exec.busy,Function.update_apply]) <;>
      grind [Exec.busy,Ring.push_contents]

theorem thread (h : Inv s) (t : T) (expired : Bool) : Inv (s.thread t expired) := by
  unfold Exec.thread
  split
  next => exact h
  next j ht => exact h.reserve ht
  next j i stage ht => exact h.within ht expired

theorem submit (h : Inv s) (t : T) (proc : Option P) (arg : A) (timeoutMs : ℤ) :
    Inv (s.submit t proc arg timeoutMs) := by
  unfold Exec.submit
  repeat' split
  all_goals try exact h
  all_goals
    obtain ⟨h1,h2,h3,h4⟩ := h
    constructor <;> simp only [Exec.ret,Exec.log,Exec.goto,Exec.busy,Function.update_apply] <;> grind [Exec.busy]

end Inv

section Trace

/-- The events of call `k`, oldest first. -/
def Exec.seen (s : Exec T P A) (k : ℕ) : List (Event P A) := s.trace.filter fun e => e.call? = k

def Thread.job? : Thread P A → Option (Job P A)
  | .idle => none
  | .reserve j | .within j _ _ => some j

/-- What happened so far to the `proc` of a request. -/
def Job.body (j : Job P A) (i : ReqId) : Bool → Worker → List (Event P A)
  | true, _ => [.enter j.call j.proc j.arg,.leave j.call]
  | false, .running i' _ => if i' = i then [.enter j.call j.proc j.arg] else []
  | false, .ran i' => if i' = i then [.enter j.call j.proc j.arg,.leave j.call] else []
  | false, _ => []

def Exec.body (s : Exec T P A) (j : Job P A) (i : ReqId) : List (Event P A) :=
  j.body i (s.requests i).completed s.worker

def Exec.progress (s : Exec T P A) : Thread P A → List (Event P A)
  | .within j i _ => s.body j i
  | _ => []

/-- The events of a call that has returned: its `proc` ran once before an `NET_ERR_OK`, and
never with an error. -/
def Settled (k : ℕ) (events : List (Event P A)) : Prop :=
  (∃ p a, events = [.call k (some p) a,.enter k p a,.leave k,.ret k .ok]) ∨
    ∃ p a err, err ≠ .ok ∧ events = [.call k p a,.ret k err]

/-- The call whose `proc` is running after an event; `none` when two would run at once. -/
def turn : Option (Option ℕ) → Event P A → Option (Option ℕ)
  | some none, .enter k _ _ => some (some k)
  | some (some k), .leave k' => if k = k' then some none else none
  | running, .call .. => running
  | running, .ret .. => running
  | _, _ => none

def Worker.current : Worker → Option ℕ
  | .running _ k => some k
  | _ => none

/-- The worker is neither in a `proc` nor has it just left one. -/
def Worker.outside : Worker → Bool
  | .running _ _ | .ran _ => false
  | _ => true

theorem body_outside {w : Worker} (hw : w.outside = true) {b : Bool} : j.body i b w = j.body i b .idle := by
  cases b <;> cases w <;> first | rfl | cases hw

structure Log (s : Exec T P A) : Prop where
  fresh : ∀ e ∈ s.trace, e.call? < s.calls
  ids : ∀ t t' j j', (s.threads t).job? = some j → (s.threads t').job? = some j' → j.call = j'.call → t = t'
  active : ∀ t j, (s.threads t).job? = some j → j.call < s.calls ∧
    s.seen j.call = .call j.call (some j.proc) j.arg::s.progress (s.threads t)
  settled : ∀ k < s.calls, (∀ t j, (s.threads t).job? = some j → j.call ≠ k) → Settled k (s.seen k)
  serial : s.trace.foldl turn (some none) = some s.worker.current
  running : ∀ i k, s.worker = .running i k → k = (s.requests i).call

/-- New events of call `m`. -/
theorem seen_append {es : List (Event P A)} {m : ℕ} (htr : s'.trace = s.trace++es) (hes : ∀ e ∈ es, e.call? = m)
    (k : ℕ) : s'.seen k = s.seen k++if m = k then es else [] := by
  simp only [Exec.seen,htr,List.filter_append]
  congr 1
  by_cases h : m = k
  · rw [if_pos h,List.filter_eq_self]
    exact fun e he => by simp [hes e he,h]
  · rw [if_neg h,List.filter_eq_nil_iff]
    exact fun e he => by simp [hes e he,h]

namespace Log

theorem init : Log (Exec.init : Exec T P A) where
  fresh e he := by simp [Exec.init] at he
  ids t t' j j' hj := by simp [Exec.init,Thread.job?] at hj
  active t j hj := by simp [Exec.init,Thread.job?] at hj
  settled k hk := by simp [Exec.init] at hk
  serial := rfl
  running i k hw := by simp [Exec.init] at hw

/-- A step that nobody sees. -/
theorem quiet (h : Log s) (htr : s'.trace = s.trace) (hc : s'.calls = s.calls)
    (hjob : ∀ t, (s'.threads t).job? = (s.threads t).job?)
    (hprog : ∀ t, s'.progress (s'.threads t) = s.progress (s.threads t))
    (hcur : s'.worker.current = s.worker.current)
    (hrun : ∀ i k, s'.worker = .running i k → k = (s'.requests i).call) : Log s' := by
  have hseen : ∀ k, s'.seen k = s.seen k := by simp [Exec.seen,htr]
  obtain ⟨h1,h2,h3,h4,h5,h6⟩ := h
  constructor
  case settled => grind
  all_goals clear h4; grind

/-- The call of thread `t` returns. -/
theorem ret (h : Log s) (hj : (s.threads t).job? = some j) {err : NetErr}
    (htr : s'.trace = s.trace++[.ret j.call err]) (hc : s'.calls = s.calls) (ht : (s'.threads t).job? = none)
    (hothers : ∀ t', t' ≠ t → s'.threads t' = s.threads t' ∧ s'.progress (s.threads t') = s.progress (s.threads t'))
    (hw : s'.worker = s.worker) (hrun : ∀ i k, s.worker = .running i k → (s'.requests i).call = (s.requests i).call)
    (hend : err = .ok ∧ s.progress (s.threads t) = [.enter j.call j.proc j.arg,.leave j.call] ∨
      err ≠ .ok ∧ s.progress (s.threads t) = []) : Log s' := by
  have happ := seen_append htr (m := j.call) (by simp [Event.call?])
  have hne : ∀ t' j', (s'.threads t').job? = some j' → t' ≠ t ∧ (s.threads t').job? = some j' := by
    intro t' j' hj'
    by_cases htt : t' = t <;> grind
  obtain ⟨h1,h2,h3,h4,h5,h6⟩ := h
  constructor
  case serial => grind [turn]
  case settled =>
    intro k hk hno
    by_cases hkj : j.call = k
    · grind [Settled]
    · rw [happ,if_neg hkj,List.append_nil]
      refine h4 k (by omega) fun t' j' hj' => ?_
      by_cases htt : t' = t <;> grind
  all_goals clear h4; grind [Event.call?]

/-- The worker enters or leaves the `proc` of the request that thread `t` holds. -/
theorem worker (h : Log s) (ht : s.threads t = .within j i stage) {e : Event P A} (he : e.call? = j.call)
    (htr : s'.trace = s.trace++[e]) (hc : s'.calls = s.calls) (hth : ∀ t, s'.threads t = s.threads t)
    (hprog : s'.body j i = s.body j i++[e])
    (hothers : ∀ t', t' ≠ t → s'.progress (s.threads t') = s.progress (s.threads t'))
    (hser : turn (some s.worker.current) e = some s'.worker.current)
    (hrun : ∀ i k, s'.worker = .running i k → k = (s'.requests i).call) : Log s' := by
  have hj : (s.threads t).job? = some j := by simp [ht,Thread.job?]
  have happ := seen_append htr (m := j.call) (by simpa using he)
  obtain ⟨h1,h2,h3,h4,h5,h6⟩ := h
  constructor
  case settled =>
    intro k hk hno
    simp only [hth] at hno
    rw [happ,if_neg (hno t j hj),List.append_nil]
    exact h4 k (hc ▸ hk) hno
  case active =>
    intro t' j' hj'
    rw [hth] at hj' ⊢
    have := h3 t' j' hj'
    by_cases htt : t' = t <;> grind [Exec.progress]
  all_goals clear h4; grind

/-- The idle thread `t` makes call number `s.calls`, which goes on or is refused at once. -/
theorem called (h : Log s) (ht : (s.threads t).job? = none) (es : List (Event P A))
    (hes : ∀ e ∈ es, e.call? = s.calls) (hturn : ∀ w, es.foldl turn (some w) = some w)
    (htr : s'.trace = s.trace++es) (hc : s'.calls = s.calls+1) (hothers : ∀ t', t' ≠ t → s'.threads t' = s.threads t')
    (hreq : s'.requests = s.requests) (hw : s'.worker = s.worker)
    (hnew : (∃ p arg timeoutMs, s'.threads t = .reserve ⟨s.calls,p,arg,timeoutMs⟩ ∧ es = [.call s.calls (some p) arg]) ∨
      (s'.threads t).job? = none ∧ Settled s.calls es) : Log s' := by
  have happ := seen_append htr hes
  have hnone : s.seen s.calls = [] := by
    rw [Exec.seen,List.filter_eq_nil_iff]
    have := h.fresh
    grind
  have hprog : ∀ th, s'.progress th = s.progress th := by
    intro th
    cases th <;> simp [Exec.progress,Exec.body,hreq,hw]
  have hjob : ∀ t' j', (s'.threads t').job? = some j' →
      t' = t ∧ j'.call = s.calls ∧ es = [.call j'.call (some j'.proc) j'.arg] ∧ s'.progress (s'.threads t') = [] ∨
      t' ≠ t ∧ (s.threads t').job? = some j' ∧ j'.call < s.calls ∧ s'.threads t' = s.threads t' := by
    have := h.active
    intro t' j' hj'
    by_cases htt : t' = t <;> grind [Thread.job?,Exec.progress]
  obtain ⟨h1,h2,h3,h4,h5,h6⟩ := h
  constructor
  case settled =>
    intro k hk hno
    by_cases hkc : s.calls = k
    · subst hkc
      rcases hnew with ⟨p,arg,timeoutMs,hnew,-⟩ | ⟨-,hset⟩
      · exact absurd rfl (hno t ⟨s.calls,p,arg,timeoutMs⟩ (by rw [hnew]; rfl))
      · rwa [happ,if_pos rfl,hnone]
    · rw [happ,if_neg hkc,List.append_nil]
      refine h4 k (by omega) fun t' j' hj' => ?_
      by_cases htt : t' = t <;> grind
  case active =>
    intro t' j' hj'
    rw [hc,happ]
    rcases hjob t' j' hj' with ⟨rfl,hk,hes',hp⟩ | ⟨htt,hj₀,hlt,hsame⟩
    · rw [if_pos hk.symm,hk,hnone,hp,List.nil_append,hes',hk]
      exact ⟨Nat.lt_succ_self _,rfl⟩
    · rw [if_neg (by omega),List.append_nil,hprog,hsame]
      exact ⟨by omega,(h3 t' j' hj₀).2⟩
  all_goals clear h4; grind

theorem submit [DecidableEq T] (h : Log s) (t : T) (proc : Option P) (arg : A) (timeoutMs : ℤ) :
    Log (s.submit t proc arg timeoutMs) := by
  unfold Exec.submit
  split
  next ht =>
    have hj : (s.threads t).job? = none := by simp [ht,Thread.job?]
    have hturn : ∀ (k : ℕ) (p : Option P) err w, [Event.call k p arg,.ret k err].foldl turn (some w) = some w ∧
        [Event.call k p arg].foldl turn (some w) = some w := by
      intro k p err w
      cases w <;> exact ⟨rfl,rfl⟩
    cases proc with
    | none =>
      refine h.called hj [.call s.calls none arg,.ret s.calls .param] ?_ (fun w => (hturn _ _ _ w).1) ?_ rfl ?_ rfl rfl
        (.inr ⟨?_,.inr ⟨none,arg,.param,nofun,rfl⟩⟩)
      all_goals simp +contextual [Event.call?,Exec.ret,Exec.log,Exec.goto,Thread.job?]
    | some p =>
      refine h.called hj [.call s.calls (some p) arg] ?_ (fun w => (hturn _ _ .ok w).2) rfl rfl ?_ rfl rfl
        (.inl ⟨p,arg,timeoutMs,?_,rfl⟩)
      all_goals simp +contextual [Event.call?,Exec.log,Exec.goto]
  next => exact h

theorem body_completed (hc : (s.requests i).completed = true) :
    s.body j i = [.enter j.call j.proc j.arg,.leave j.call] := by simp [Exec.body,hc,Job.body]

theorem body_not_begun (hc : (s.requests i).completed = false) (hb : ¬s.worker.Begun i) : s.body j i = [] := by
  rw [Exec.body,hc]
  cases hw : s.worker <;> grind [Job.body,Worker.Begun]

attribute [local grind =] Function.update_apply Worker.Begun Req.Filled Req.Held Req.Spare Thread.req? Thread.job? Job.body Exec.body
  Exec.progress Worker.current Event.call?
attribute [local grind →] Thread.req?_eq_some

/-- A change of request `i` is not seen by threads that do not hold it. -/
theorem progress_other (s' : Exec T P A) (hH : ∀ t', (s.threads t').req? = some i → t' = t)
    (hreq : ∀ i', i' ≠ i → s'.requests i' = s.requests i')
    (hw : ∀ (j' : Job P A) i' b, i' ≠ i → j'.body i' b s'.worker = j'.body i' b s.worker) (t' : T) (htt : t' ≠ t) :
    s'.progress (s.threads t') = s.progress (s.threads t') := by
  cases hpc : s.threads t' <;> grind

/-- The worker goes on outside of any `proc`. -/
theorem outside (h : Log s) (htr : s'.trace = s.trace) (hc : s'.calls = s.calls) (ht : s'.threads = s.threads)
    (hreq : ∀ i, (s'.requests i).completed = (s.requests i).completed) (hw : s.worker.outside = true)
    (hw' : s'.worker.outside = true) : Log s' := by
  have hcur : ∀ w : Worker, w.outside = true → w.current = none := by
    intro w hw
    cases w <;> first | rfl | cases hw
  have hbody : ∀ (j : Job P A) i, s'.body j i = s.body j i := by
    intro j i
    rw [Exec.body,Exec.body,hreq,body_outside hw',body_outside hw]
  refine h.quiet htr hc (fun t => by rw [ht]) (fun t => ?_) (by rw [hcur _ hw,hcur _ hw']) fun i k hk => ?_
  · rw [ht]
    cases s.threads t with
    | idle | reserve => rfl
    | within j i stage => exact hbody j i
  · simp [hk,Worker.outside] at hw'

/-- No two calls hold one request. -/
theorem holder (hI : Inv s) (ht : s.threads t = .within j i stage) (t' : T) (h : (s.threads t').req? = some i) :
    t' = t :=
  hI.owner t' t i h (by rw [ht]; rfl)

theorem worked (h : Log s) (hI : Inv s) : Log s.work := by
  unfold Exec.work
  cases hw : s.worker with
  | run i =>
    obtain ⟨t,j,stage,ht,hf,hc⟩ := hI.begun (i := i) (by simp [hw,Worker.Begun])
    have he : s.enter i = (s.log (.enter j.call j.proc j.arg)).setWorker (.running i j.call) := by
      simp [Exec.enter,hf.1,hf.2.1,hf.2.2.1]
    simp only [he]
    refine h.worker ht rfl rfl rfl (fun _ => rfl) ?_ (progress_other _ (holder hI ht) (fun _ _ => rfl) ?_) ?_ ?_
    · simp [Exec.body,Exec.setWorker,Exec.log,hc,hw,Job.body]
    · intro j' i' b hi
      cases b <;> simp [Exec.setWorker,Job.body,hw,Ne.symm hi]
    · simp [hw,Worker.current,turn,Exec.setWorker]
    · simp only [Exec.setWorker,Exec.log]
      grind
  | running i k =>
    obtain ⟨t,j,stage,ht,hf,hc⟩ := hI.begun (i := i) (by simp [hw,Worker.Begun])
    obtain rfl : k = j.call := (h.running i k hw).trans hf.2.2.1
    refine h.worker ht rfl rfl rfl (fun _ => rfl) ?_ (progress_other _ (holder hI ht) (fun _ _ => rfl) ?_) ?_ nofun
    · simp [Exec.body,Exec.setWorker,Exec.log,hc,hw,Job.body]
    · intro j' i' b hi
      cases b <;> simp [Exec.setWorker,Job.body,hw,Ne.symm hi]
    · simp [hw,Worker.current,turn,Exec.setWorker]
  | ran i =>
    obtain ⟨t,j,stage,ht,hf,hc⟩ := hI.begun (i := i) (by simp [hw,Worker.Begun])
    refine h.quiet rfl rfl (fun _ => rfl) (fun t' => ?_) (by rw [hw]; rfl) nofun
    by_cases htt : t' = t
    · subst htt
      simp [Exec.setWorker,Exec.setReq,ht,Exec.progress,Exec.body,hc,hw,Job.body,hf.2.2.2]
    · refine progress_other _ (holder hI ht) (fun i' hi => ?_) (fun j' i' b hi => ?_) t' htt
      · simp [Exec.setWorker,Exec.setReq,hi]
      · cases b <;> simp [Exec.setWorker,Job.body,hw,Ne.symm hi]
  | _ =>
    simp only
    try split
    all_goals try exact h
    all_goals
      refine h.outside rfl rfl rfl (fun i' => ?_) (by rw [hw]; rfl) rfl
      simp only [Exec.setWorker,Exec.setReq] <;> grind

variable [DecidableEq T]

/-- The thread that holds request `i` goes on to another stage. -/
theorem step (h : Log s) (ht : s.threads t = .within j i stage) (stage' : Stage) (htr : s'.trace = s.trace)
    (hc : s'.calls = s.calls) (hw : s'.worker = s.worker)
    (hthreads : s'.threads = Function.update s.threads t (.within j i stage'))
    (hreq : ∀ i', (s'.requests i').completed = (s.requests i').completed ∧ (s'.requests i').call = (s.requests i').call) :
    Log s' := by
  have hrun := h.running
  refine h.quiet htr hc (fun t' => ?_) (fun t' => ?_) (by rw [hw]) (by grind)
  · rw [hthreads]
    grind
  · rw [hthreads]
    by_cases htt : t' = t
    · subst htt
      grind
    · cases hpc : s.threads t' <;> simp only [Function.update_of_ne htt,hpc,Exec.progress,Exec.body,hw,hreq]

/-- The call that holds request `i` returns. -/
theorem returns (h : Log s) (hI : Inv s) (ht : s.threads t = .within j i stage) {err : NetErr} (r' : Req P A)
    (hr : r'.call = (s.requests i).call)
    (hend : err = .ok ∧ s.body j i = [.enter j.call j.proc j.arg,.leave j.call] ∨ err ≠ .ok ∧ s.body j i = []) :
    Log ((s.setReq i r').ret t j.call err) := by
  refine h.ret (t := t) (by simp [ht,Thread.job?]) rfl rfl (by simp [Exec.ret,Exec.goto,Exec.log,Thread.job?])
    (fun t' htt => ⟨by simp [Exec.ret,Exec.goto,Exec.log,Exec.setReq,htt],?_⟩) rfl ?_ (by rwa [ht])
  · refine progress_other ((s.setReq i r').ret t j.call err) (holder hI ht) (fun i' hi => ?_)
      (fun _ _ _ _ => rfl) t' htt
    simp [Exec.ret,Exec.goto,Exec.log,Exec.setReq,hi]
  · simp only [Exec.ret,Exec.goto,Exec.log,Exec.setReq]
    grind

theorem reserve (h : Log s) (hI : Inv s) (ht : s.threads t = .reserve j) : Log (s.reserve t j) := by
  unfold Exec.reserve
  split
  next =>
    refine h.ret (t := t) (by simp [ht,Thread.job?]) rfl rfl (by simp [Exec.ret,Exec.goto,Exec.log,Thread.job?])
      (fun t' htt => ⟨by simp [Exec.ret,Exec.goto,Exec.log,htt],?_⟩) rfl (fun _ _ _ => rfl)
      (.inr ⟨nofun,by rw [ht]; rfl⟩)
    cases s.threads t' <;> rfl
  next i hi =>
    have hproc : (s.requests i).proc = none := by simpa using List.find?_some hi
    obtain ⟨hH,-,hb⟩ := hI.free hproc
    have hbeg : ¬s.worker.Begun i := fun hg => hb (by simp [Exec.busy,hg.slot])
    have hrun := h.running
    refine h.quiet rfl rfl (fun t' => ?_) (fun t' => ?_) rfl ?_ <;> simp only [Exec.goto,Exec.setReq]
    · grind
    · by_cases htt : t' = t
      · subst htt
        rw [Function.update_self,ht]
        exact body_not_begun (by simp) hbeg
      · have := hH t'
        rw [Function.update_of_ne htt]
        cases hpc : s.threads t' <;> grind
    · grind

theorem finish (h : Log s) (hI : Inv s) {err : NetErr} (ht : s.threads t = .within j i stage)
    (hstage : stage = .check err ∨ stage = .final err)
    (hs : err ≠ .ok → (s.requests i).started = true → (s.requests i).completed = true) :
    Log (s.finish t j i err) := by
  have hph := hI.held t j i stage ht
  unfold Exec.finish
  simp only
  split
  next hc => exact h.returns hI ht _ rfl (.inl ⟨rfl,body_completed hc⟩)
  next hc =>
    have := body_not_begun (j := j) (s := s) (i := i)
    refine h.returns hI ht _ ?_ ?_
    · rfl
    · grind [Stage.Unsent,Stage.Awaits,Stage.Ready]

theorem within (h : Log s) (hI : Inv s) (ht : s.threads t = .within j i stage) (expired : Bool) :
    Log (s.within t j i expired stage) := by
  have hph := hI.held t j i stage ht
  cases stage <;> simp only [Exec.within,Exec.waitOn]
  case sendFailed err =>
    have := body_not_begun (j := j) (s := s) (i := i)
    refine h.returns hI ht _ ?_ ?_
    · rfl
    · grind [Stage.Unsent,Stage.Awaits,Stage.Ready,Exec.busy,Worker.Begun.slot]
  case final => apply h.finish hI ht <;> grind [Stage.Unsent,Stage.Awaits,Stage.Ready]
  case check =>
    split
    next => exact h.step ht _ rfl rfl rfl rfl fun _ => ⟨rfl,rfl⟩
    next => apply h.finish hI ht <;> grind
  all_goals
    repeat' split
    all_goals try exact h
  all_goals
    refine h.step ht _ rfl rfl rfl rfl fun i' => ?_
    simp only [Exec.goto,Exec.setReq] <;> grind

theorem thread (h : Log s) (hI : Inv s) (t : T) (expired : Bool) : Log (s.thread t expired) := by
  unfold Exec.thread
  split
  next => exact h
  next j ht => exact h.reserve hI ht
  next j i stage ht => exact h.within hI ht expired

end Log
/-- Every run of the executor keeps both invariants. -/
theorem run_inv [DecidableEq T] (steps : List (Step T P A)) (h : Inv s) (hl : Log s) :
    Inv (s.run steps) ∧ Log (s.run steps) := by
  induction steps generalizing s with
  | nil => exact ⟨h,hl⟩
  | cons c steps ih =>
    cases c with
    | submit t proc arg timeoutMs => exact ih (h.submit t proc arg timeoutMs) (hl.submit t proc arg timeoutMs)
    | thread t expired => exact ih (h.thread t expired) (hl.thread h t expired)
    | worker => exact ih h.worked (hl.worked h)

/-- A call that has returned is settled. -/
theorem Log.returned (h : Log s) {k : ℕ} {err : NetErr} (hr : .ret k err ∈ s.trace) : Settled k (s.seen k) := by
  have hmem : .ret k err ∈ s.seen k := by simp [Exec.seen,hr,Event.call?]
  refine h.settled k (h.fresh _ hr) fun t j hj hk => ?_
  subst hk
  rw [(h.active t j hj).2,List.mem_cons] at hmem
  rcases hmem with hmem | hmem
  · cases hmem
  · cases hpc : s.threads t with
    | idle | reserve => simp [hpc,Exec.progress] at hmem
    | within j' i' stage' =>
      simp only [hpc,Exec.progress,Exec.body] at hmem
      generalize (s.requests i').completed = b,s.worker = w at hmem
      cases b <;> cases w <;> simp [Job.body] at hmem

/-- In every run of any number of submitting threads and one worker: a call that returned
`NET_ERR_OK` had its `proc` run once with its argument between the call and the return; one
that returned an error never has it run; no two `proc`s overlap; and a free request has no
token and is not in the queue. -/
theorem exec_exactly_once [DecidableEq T] (steps : List (Step T P A)) :
    let s := (Exec.init : Exec T P A).run steps
    (∀ k, .ret k .ok ∈ s.trace → ∃ p a, s.seen k = [.call k (some p) a,.enter k p a,.leave k,.ret k .ok]) ∧
    (∀ k err, err ≠ .ok → .ret k err ∈ s.trace → ∃ p a, s.seen k = [.call k p a,.ret k err]) ∧
    s.trace.foldl turn (some none) ≠ none ∧
    ∀ i, (s.requests i).proc = none → (s.requests i).done = some 0 ∧ i ∉ s.queue.contents := by
  intro s
  obtain ⟨hI,hl⟩ := run_inv steps (Inv.init (T := T) (P := P) (A := A)) Log.init
  have hmem : ∀ {k err}, .ret k err ∈ s.trace → .ret k err ∈ s.seen k := fun hr => by
    simp [Exec.seen,hr,Event.call?]
  refine ⟨fun k hr => ?_,fun k err hne hr => ?_,?_,fun i hi => ?_⟩
  · rcases hl.returned hr with h | ⟨p,a,err,hne,h⟩
    · exact h
    · have := hmem hr
      grind
  · rcases hl.returned hr with ⟨p,a,h⟩ | ⟨p,a,err',-,h⟩
    · have := hmem hr
      grind
    · have := hmem hr
      grind
  · rw [show s.trace.foldl turn (some none) = _ from hl.serial]
    nofun
  · obtain ⟨-,hd,hb⟩ := hI.free hi
    exact ⟨hd,fun hq => hb (List.mem_append_left _ hq)⟩

/-- The first call is run; the second times out in the queue and its request is dropped. -/
example : ((Exec.init : Exec ℕ ℕ ℕ).run
    ([.submit 0 (some 7) 70 0]++List.replicate 4 (.thread 0 false)++
      [.submit 1 (some 8) 80 5]++List.replicate 4 (.thread 1 false)++[.thread 1 true]++List.replicate 8 .worker++
      [.thread 0 false,.thread 0 false,.thread 1 false]++List.replicate 5 .worker)).trace =
    [.call 0 (some 7) 70,.call 1 (some 8) 80,.enter 0 7 70,.leave 0,.ret 0 .ok,.ret 1 .tmo] := by
  decide +kernel

end Trace
end NetExec
end QuardStarNet
