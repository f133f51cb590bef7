import QuardStarNet.TcpRun
import QuardStarNet.Tally

/-! Threads in `tcp_recv_bytes_acquired` on one block, with an infinite timeout, against the
notifier of a terminal transition. Every lock section and every semaphore operation is a
step. -/
namespace QuardStarNet

namespace Tcp

/-- Where a thread is in `tcp_recv_bytes_acquired`: not yet acquired, before the section of
the ring, before the section that tests for a terminal state, before the poll that follows
it, in the wait, before the last section, or returned. -/
inductive RecvPc
  | idle | top | check | drain | wait | leave | done
  deriving DecidableEq

/-- The notifier: before the terminal transition, before its count of the waiters (on entry
to TIME_WAIT or after a failure), or with tokens left to post. -/
inductive Notifier
  | idle | closing (timeWait : Bool) | posting (left : ℕ)
  deriving DecidableEq

structure Receivers (n : ℕ) where
  pcb : Pcb
  pc : Fin n → RecvPc
  notifier : Notifier

inductive RecvStep (n : ℕ)
  | acquire (r : Fin n) | take (r : Fin n) (size : ℕ) | check (r : Fin n) | drain (r : Fin n)
  | wait (r : Fin n) | leave (r : Fin n)
  | arrive (payload : List Byte) | progress (state : TcpState)
  | fail (error : NetErr) | enterTimeWait | count | post

/-- The states of a connection on which a receiver may wait. -/
def TcpState.receiving (st : TcpState) : Bool :=
  st = .synSent ∨ st = .established ∨ st = .finWait1 ∨ st = .finWait2

/-- A block on which receivers may wait. -/
def Pcb.Receiving (p : Pcb) : Prop :=
  p.opened = true ∧ p.releasePending = false ∧ p.error = .ok ∧ p.state.receiving = true ∧
    p.terminalNotified = false

/-- The first section of `tcp_fail` and of `tcp_abort_and_release`. -/
def Pcb.tcpFailed (p : Pcb) (error : NetErr) : Pcb :=
  { p.tcpClearOutstanding with
    timeWaitTimer := false
    error := error
    state := .closed
    closeRequested := false }

/-- `tcp_notify_terminal` but for the tokens of the receivers. -/
def Pcb.tcpNotified (p : Pcb) : Pcb :=
  { p with
    terminalNotified := true
    connectDone := sysSemNotifyTimes p.connectDone (Pcb.tokens p.connectWaiters)
    closeDone := sysSemNotifyTimes p.closeDone (Pcb.tokens p.closeWaiters) }

namespace Receivers

variable {n : ℕ}

def start (n : ℕ) (p : Pcb) : Receivers n := ⟨p,fun _ => .idle,.idle⟩

variable (s : Receivers n)

/-- Thread `r` goes on at `c`, with `p` for the block. -/
def move (r : Fin n) (c : RecvPc) (p : Pcb) : Receivers n := { s with pcb := p, pc := Function.update s.pc r c }

def step : RecvStep n → Receivers n
  | .acquire r =>
    if s.pc r = .idle ∧ s.pcb.tcpRecvAcquire.2 = .ok then s.move r .top s.pcb.tcpRecvAcquire.1 else s
  | .take r size =>
    if s.pc r = .top ∧ 0 < size then
      match s.pcb.tcpRecvTake size with
      | some q => s.move r .leave q.1
      | none => s.move r .check s.pcb
    else s
  | .check r =>
    if s.pc r = .check then s.move r (if s.pcb.tcpRecvTerminal then .drain else .wait) s.pcb else s
  | .drain r =>
    if s.pc r = .drain then s.move r .leave { s.pcb with recvDone := (sysSemPoll s.pcb.recvDone).1 }
    else s
  | .wait r =>
    if s.pc r = .wait then
      match sysSemWait s.pcb.recvDone 0 with
      | none => s
      | some (sem,err) => s.move r (if err = .ok then .top else .leave) { s.pcb with recvDone := sem }
    else s
  | .leave r => if s.pc r = .leave then s.move r .done s.pcb.tcpRecvLeave else s
  | .arrive payload =>
    if s.notifier = .idle ∧ 0 < payload.length then { s with pcb := (s.pcb.tcpQueueData payload).1 } else s
  | .progress state =>
    if s.notifier = .idle ∧ state.receiving then { s with pcb := { s.pcb with state := state } } else s
  | .fail error =>
    if s.notifier = .idle ∧ error ≠ .ok then
      { s with pcb := s.pcb.tcpFailed error, notifier := .closing false }
    else s
  | .enterTimeWait =>
    if s.notifier = .idle then
      { s with pcb := { s.pcb with state := .timeWait }, notifier := .closing true }
    else s
  | .count =>
    match s.notifier with
    | .closing true =>
      -- the timer is armed after the tokens; no receiver looks at it
      { s with
        pcb := { s.pcb with peerFinSeen := false, timeWaitTimer := true }
        notifier := .posting s.pcb.recvWaiters.toNat }
    | .closing false =>
      if s.pcb.terminalNotified then { s with notifier := .posting 0 }
      else { s with pcb := s.pcb.tcpNotified, notifier := .posting s.pcb.recvWaiters.toNat }
    | _ => s
  | .post =>
    match s.notifier with
    | .posting (left+1) =>
      { s with pcb := { s.pcb with recvDone := sysSemNotify s.pcb.recvDone }, notifier := .posting left }
    | _ => s

def run (steps : List (RecvStep n)) : Receivers n := steps.foldl step s

/-- The notifier has finished, and a receiver is blocked while no other is running. -/
def Stranded : Prop :=
  s.notifier = .posting 0 ∧ s.pcb.recvDone = some 0 ∧ (∃ r, s.pc r = .wait) ∧
    ∀ r, s.pc r = .wait ∨ s.pc r = .idle ∨ s.pc r = .done

instance : Decidable s.Stranded := inferInstanceAs (Decidable (_ ∧ _ ∧ _ ∧ _))

/-- The notifier has finished and no receiver can go on. -/
def Settled : Prop :=
  s.notifier = .posting 0 ∧
    ∀ r, s.pc r = .idle ∨ s.pc r = .done ∨ s.pc r = .wait ∧ s.pcb.recvDone = some 0

section Uninterrupted

variable {s}

theorem run_append (xs ys : List (RecvStep n)) : s.run (xs++ys) = (s.run xs).run ys := List.foldl_append

theorem run_posts (k : ℕ) (hk : s.notifier = .posting k) : (s.run (List.replicate k .post)).pcb =
    { s.pcb with recvDone := sysSemNotifyTimes s.pcb.recvDone k } := by
  induction k generalizing s with
  | zero => rfl
  | succ k ih =>
    have hstep : s.step .post = { s with
        pcb := { s.pcb with recvDone := sysSemNotify s.pcb.recvDone }, notifier := .posting k } := by
      simp only [step,hk]
    rw [List.replicate_succ,run,List.foldl_cons,hstep]
    exact ih rfl

end Uninterrupted

section Weights

/-- Threads that `recv_waiters` counts. -/
def active : RecvPc → ℕ
  | .idle | .done => 0
  | _ => 1

/-- Threads in the wait. -/
def blocked : RecvPc → ℕ
  | .wait => 1
  | _ => 0

/-- Threads past the loop that `recv_waiters` still counts. -/
def leaving : RecvPc → ℕ
  | .leave => 1
  | _ => 0

/-- Tokens that a thread may still take: one to wake and one in the poll on its way out. -/
def demand : RecvPc → ℕ
  | .wait => 2
  | .top | .check | .drain => 1
  | _ => 0

/-- Threads that may still take data, and then post a token. -/
def ready : RecvPc → ℕ
  | .wait | .top => 1
  | _ => 0

/-- The count of `recv_done`. -/
def tokens : ℕ := s.pcb.recvDone.getD 0

/-- Tokens that the notifier may still post. -/
def due : ℕ :=
  match s.notifier with
  | .idle => 0
  | .closing _ => n
  | .posting left => left

theorem demand_active (pc : Fin n → RecvPc) :
    tally demand pc+tally leaving pc = tally active pc+tally blocked pc := by
  unfold tally
  rw [← Finset.sum_add_distrib,← Finset.sum_add_distrib]
  refine Finset.sum_congr rfl fun r _ => ?_
  cases pc r <;> rfl

end Weights

/-- What holds in every state of every run. -/
structure Valid (s : Receivers n) : Prop where
  sem : s.pcb.recvDone = some s.tokens
  waiters : s.pcb.recvWaiters = tally active s.pc
  receiving : s.notifier = .idle →
    s.pcb.Receiving ∧ s.tokens ≤ 1 ∧ (s.pcb.recv.count = 0 → s.tokens = 0)
  terminal : s.notifier ≠ .idle → s.pcb.state = .closed ∨ s.pcb.state = .timeWait
  notified : s.notifier = .closing false → s.pcb.terminalNotified = false
  bounded : s.notifier ≠ .idle → s.tokens+s.due+tally ready s.pc ≤ 2*n+1

section Valid

variable {s} {p : Pcb} {r : Fin n} {c : RecvPc}

theorem poll_eq (m : ℕ) : (sysSemPoll (some m)).1 = some (m-1) := by
  cases m <;> rfl

theorem notify_eq {m : ℕ} (h : m < 2147483647) : sysSemNotify (some m) = some (m+1) := by
  simp [sysSemNotify,h]

/-- The section of the ring: data is taken together with a token, and the token is put back
when data is left. -/
theorem take_cases (p : Pcb) (size : ℕ) {m : ℕ} (hm : p.recvDone = some m) (hmax : m < 2147483647) :
    p.recv.count = 0 ∧ p.tcpRecvTake size = none ∨
    0 < p.recv.count ∧ ∃ ring bytes, ring.count = p.recv.count-size ∧ p.tcpRecvTake size =
      some ({ p with recv := ring, recvDone := some (if ring.count = 0 then m-1 else m-1+1) },bytes) := by
  by_cases hc : p.recv.count = 0
  · exact .inl ⟨hc,by simp [Pcb.tcpRecvTake,hc]⟩
  · refine .inr ⟨Nat.pos_of_ne_zero hc,p.recv.drop (min size p.recv.count) (Nat.min_le_right _ _),
      p.recv.front (min size p.recv.count) (Nat.min_le_right _ _),?_,?_⟩
    · rw [Ring.drop_count]
      omega
    · simp only [Pcb.tcpRecvTake,hc,if_false,hm,poll_eq,Option.some.injEq,Prod.mk.injEq]
      rw [notify_eq (by omega)]
      simp only [and_true]
      split_ifs <;> simp_all

theorem Valid.tokens_lt (h : s.Valid) (hn : n < 2^29) : s.tokens < 2147483647 := by
  by_cases hi : s.notifier = .idle
  · have := (h.receiving hi).2.1
    omega
  · have := h.bounded hi
    omega

/-- One thread moves and takes or puts back a token. -/
theorem Valid.move (h : s.Valid) {m : ℕ} (hm : p.recvDone = some m)
    (hw : p.recvWaiters+active (s.pc r) = s.pcb.recvWaiters+active c)
    (hr : s.pcb.Receiving → p.Receiving) (hs : p.state = s.pcb.state)
    (hn : p.terminalNotified = s.pcb.terminalNotified)
    (hi : s.notifier = .idle → m ≤ 1 ∧ (p.recv.count = 0 → m = 0))
    (hb : s.notifier ≠ .idle → m+ready c ≤ s.tokens+ready (s.pc r)) : (s.move r c p).Valid := by
  have ht : (s.move r c p).tokens = m := by simp [tokens,Receivers.move,hm]
  refine ⟨by rw [ht]; exact hm,?_,fun hidle => ?_,fun hne => ?_,fun hc => ?_,fun hne => ?_⟩
  · have := tally_update active s.pc r c
    have := h.waiters
    simp only [Receivers.move]
    omega
  · rw [ht]
    exact ⟨hr (h.receiving hidle).1,hi hidle⟩
  · exact (show p.state = s.pcb.state from hs) ▸ h.terminal hne
  · exact hn.trans (h.notified hc)
  · have := tally_update ready s.pc r c
    have := h.bounded hne
    have := hb hne
    have hd : (s.move r c p).due = s.due := rfl
    rw [ht,hd]
    simp only [Receivers.move]
    omega

theorem Valid.acquire (h : s.Valid) (r : Fin n) : (s.step (.acquire r)).Valid := by
  simp only [step]
  split
  swap
  · exact h
  next hc =>
  obtain ⟨hpc,hok⟩ := hc
  have hm := h.sem
  have hi : s.notifier = .idle := by
    -- a terminal block refuses the acquire
    by_contra hne
    have hst := h.terminal hne
    simp only [Pcb.tcpRecvAcquire] at hok
    split_ifs at hok with h₁ h₂ h₃
    · exact h₃ hok
    · rcases hst with hst | hst <;> simp [hst] at h₂
  rcases s.pcb.recvAcquire_cases with ⟨e,he,hr⟩ | hr
  · simp [hr,he] at hok
  · rw [hr]
    refine h.move hm ?_ id rfl rfl (fun hi => (h.receiving hi).2) fun hne => absurd hi hne
    simp [hpc,active]

theorem Valid.take (h : s.Valid) (hn : n < 2^29) (r : Fin n) (size : ℕ) : (s.step (.take r size)).Valid := by
  simp only [step]
  split
  swap
  · exact h
  next hc =>
  obtain ⟨hpc,-⟩ := hc
  rcases take_cases s.pcb size h.sem (h.tokens_lt hn) with ⟨-,ht⟩ | ⟨-,ring,bytes,hring,ht⟩
  · rw [ht]
    exact h.move h.sem (by simp [hpc,active]) id rfl rfl (fun hi => (h.receiving hi).2)
      fun _ => by simp [hpc,ready]
  · rw [ht]
    refine h.move rfl (by simp [hpc,active]) id rfl rfl (fun hi => ?_) fun _ => ?_
    · have := (h.receiving hi).2.1
      refine ⟨by split_ifs <;> omega,fun hz => ?_⟩
      rw [if_pos hz]
      omega
    · simp only [hpc,ready]
      split_ifs <;> omega

theorem Valid.check (h : s.Valid) (r : Fin n) : (s.step (.check r)).Valid := by
  simp only [step]
  split
  swap
  · exact h
  next hpc =>
  refine h.move h.sem ?_ id rfl rfl (fun hi => (h.receiving hi).2) fun hne => ?_
  · split_ifs <;> simp [hpc,active]
  · have ht : s.pcb.tcpRecvTerminal = true := by
      rcases h.terminal hne with hst | hst <;> simp [Pcb.tcpRecvTerminal,hst]
    simp [ht,hpc,ready]

theorem Valid.drain (h : s.Valid) (r : Fin n) : (s.step (.drain r)).Valid := by
  simp only [step]
  split
  swap
  · exact h
  next hpc =>
  refine h.move (m := s.tokens-1) (by rw [h.sem,poll_eq]) (by simp [hpc,active]) id rfl rfl (fun hi => ?_) fun _ => ?_
  · obtain ⟨-,h1,h2⟩ := h.receiving hi
    exact ⟨by omega,fun hc => by have := h2 hc; omega⟩
  · simp only [hpc,ready]
    omega

theorem Valid.wait (h : s.Valid) (r : Fin n) : (s.step (.wait r)).Valid := by
  simp only [step]
  split
  swap
  · exact h
  next hpc =>
  rw [h.sem]
  cases hm : s.tokens with
  | zero => simpa [sysSemWait] using h
  | succ m =>
    simp only [sysSemWait,if_true]
    refine h.move rfl (by simp [hpc,active]) id rfl rfl (fun hi => ?_) fun _ => ?_
    · obtain ⟨-,h1,h2⟩ := h.receiving hi
      exact ⟨by omega,fun hc => by have := h2 hc; omega⟩
    · simp only [hpc,ready,hm]
      omega

theorem Valid.leave (h : s.Valid) (r : Fin n) : (s.step (.leave r)).Valid := by
  simp only [step]
  split
  swap
  · exact h
  next hpc =>
  exact h.move h.sem (by simp [hpc,active,Pcb.tcpRecvLeave]) id rfl rfl (fun hi => (h.receiving hi).2)
    fun _ => by simp [hpc,ready]

/-- Data arrives while the connection is open. -/
theorem Valid.arrive (h : s.Valid) (payload : List Byte) : (s.step (.arrive payload)).Valid := by
  simp only [step]
  split
  swap
  · exact h
  next hc =>
  obtain ⟨hi,hpos⟩ := hc
  obtain ⟨hr,h1,h2⟩ := h.receiving hi
  simp only [Pcb.tcpQueueData]
  split
  · exact h
  split
  swap
  · exact h
  next hfit =>
  have hm : (s.pcb.queued payload hfit).recvDone =
      some (if s.pcb.recv.count = 0 then 1 else s.tokens) := by
    by_cases hz : s.pcb.recv.count = 0
    · simp [Pcb.queued,hz,h.sem,h2 hz,notify_eq]
    · simp [Pcb.queued,hz,h.sem]
  have ht : ({ s with pcb := s.pcb.queued payload hfit } : Receivers n).tokens =
      if s.pcb.recv.count = 0 then 1 else s.tokens := by simp [tokens,hm]
  refine ⟨by rw [ht]; exact hm,h.waiters,fun _ => ⟨hr,?_,fun hz => ?_⟩,fun hne => absurd hi hne,
    fun hc => by simp [hi] at hc,fun hne => absurd hi hne⟩
  · rw [ht]
    split_ifs <;> omega
  · have hz : s.pcb.recv.count+payload.length = 0 := hz
    omega

theorem Valid.progress (h : s.Valid) (st : TcpState) : (s.step (.progress st)).Valid := by
  simp only [step]
  split
  swap
  · exact h
  next hc =>
  obtain ⟨hi,hst⟩ := hc
  obtain ⟨⟨h1,h2,h3,-,h5⟩,h6⟩ := h.receiving hi
  exact ⟨h.sem,h.waiters,fun _ => ⟨⟨h1,h2,h3,hst,h5⟩,h6⟩,fun hne => absurd hi hne,
    fun hc => by simp [hi] at hc,fun hne => absurd hi hne⟩

/-- The terminal transition itself wakes nobody. -/
theorem Valid.close (h : s.Valid) (hi : s.notifier = .idle) {p : Pcb} {tw : Bool}
    (hm : p.recvDone = s.pcb.recvDone) (hw : p.recvWaiters = s.pcb.recvWaiters)
    (hst : p.state = .closed ∨ p.state = .timeWait) (hn : p.terminalNotified = s.pcb.terminalNotified) :
    Valid { s with pcb := p, notifier := .closing tw } := by
  obtain ⟨hr,h1,-⟩ := h.receiving hi
  have ht : ({ s with pcb := p, notifier := .closing tw } : Receivers n).tokens = s.tokens := by
    simp [tokens,hm]
  refine ⟨by rw [ht,← h.sem]; exact hm,by rw [← h.waiters]; exact hw,by simp,fun _ => hst,fun _ => ?_,fun _ => ?_⟩
  · exact hn.trans hr.2.2.2.2
  · have := tally_le (f := ready) (m := 1) (by intro c; cases c <;> decide) s.pc
    rw [ht]
    simp only [due]
    omega

theorem Valid.count (h : s.Valid) : (s.step .count).Valid := by
  have hle := tally_le (f := active) (m := 1) (by intro c; cases c <;> decide) s.pc
  have hw := h.waiters
  simp only [step]
  split
  next hc =>
    have hne : s.notifier ≠ .idle := by simp [hc]
    have hb := h.bounded hne
    refine ⟨h.sem,h.waiters,by simp,fun _ => h.terminal hne,by simp,fun _ => ?_⟩
    simp only [due,hc,tokens] at hb ⊢
    omega
  next hc =>
    have hne : s.notifier ≠ .idle := by simp [hc]
    have hb := h.bounded hne
    rw [if_neg (by simp [h.notified hc])]
    refine ⟨h.sem,h.waiters,by simp,fun _ => h.terminal hne,by simp,fun _ => ?_⟩
    simp only [due,hc,tokens,Pcb.tcpNotified] at hb ⊢
    omega
  next => exact h

theorem Valid.post (h : s.Valid) (hn : n < 2^29) : (s.step .post).Valid := by
  simp only [step]
  split
  swap
  · exact h
  next left hc =>
  have hne : s.notifier ≠ .idle := by simp [hc]
  have hb := h.bounded hne
  have hm : sysSemNotify s.pcb.recvDone = some (s.tokens+1) := by rw [h.sem,notify_eq (h.tokens_lt hn)]
  have ht : ({ s with pcb := { s.pcb with recvDone := sysSemNotify s.pcb.recvDone }, notifier := .posting left } :
      Receivers n).tokens = s.tokens+1 := by simp [tokens,hm]
  refine ⟨by rw [ht]; exact hm,h.waiters,by simp,fun _ => h.terminal hne,by simp,fun _ => ?_⟩
  rw [ht]
  simp only [due,hc] at hb ⊢
  omega

theorem Valid.step (h : s.Valid) (hn : n < 2^29) (c : RecvStep n) : (s.step c).Valid := by
  cases c with
  | acquire r => exact h.acquire r
  | take r size => exact h.take hn r size
  | check r => exact h.check r
  | drain r => exact h.drain r
  | wait r => exact h.wait r
  | leave r => exact h.leave r
  | arrive payload => exact h.arrive payload
  | progress st => exact h.progress st
  | fail error =>
    simp only [Receivers.step]
    split
    next hc => exact h.close hc.1 rfl rfl (.inl rfl) rfl
    next => exact h
  | enterTimeWait =>
    simp only [Receivers.step]
    split
    next hi => exact h.close hi rfl rfl (.inr rfl) rfl
    next => exact h
  | count => exact h.count
  | post => exact h.post hn

theorem Valid.run (h : s.Valid) (hn : n < 2^29) (steps : List (RecvStep n)) : (s.run steps).Valid := by
  induction steps generalizing s with
  | nil => exact h
  | cons c steps ih => exact ih (h.step hn c)

theorem Valid.start (hr : p.Receiving) (hw : p.recvWaiters = 0) (hd : p.recvDone = some 0) :
    (start n p).Valid := by
  refine ⟨by simp [Receivers.start,tokens,hd],?_,fun _ => ⟨hr,by simp [Receivers.start,tokens,hd]⟩,
    fun hne => absurd rfl hne,by rintro ⟨⟩,fun hne => absurd rfl hne⟩
  simp [Receivers.start,hw,tally,active]

end Valid

section Balance

variable {s}

/-- The tokens suffice for every thread, though each but the last waiter takes two. -/
def Supplied (s : Receivers n) : Prop :=
  (∃ k, s.notifier = .posting k) ∧ (0 < tally blocked s.pc → tally demand s.pc ≤ s.tokens+s.due+1)

/-- They do not. -/
def Short (s : Receivers n) : Prop :=
  (∃ k, s.notifier = .posting k) ∧ 0 < tally blocked s.pc ∧ s.tokens+s.due+2 ≤ tally demand s.pc

theorem tokens_move (s : Receivers n) (r : Fin n) (c : RecvPc) {p : Pcb} {m : ℕ} (hm : p.recvDone = some m) :
    (s.move r c p).tokens = m ∧ (s.move r c p).due = s.due := ⟨by simp [tokens,move,hm],rfl⟩

/-- A thread that moves takes no more tokens than its demand falls, and does not start to
wait. -/
theorem Supplied.move (h : s.Supplied) {r : Fin n} {c : RecvPc} {p : Pcb} {m : ℕ} (hm : p.recvDone = some m)
    (hd : s.tokens+demand c ≤ m+demand (s.pc r)) (hb : blocked c ≤ blocked (s.pc r)) :
    (s.move r c p).Supplied := by
  refine ⟨h.1,fun hpos => ?_⟩
  have h1 := tally_update demand s.pc r c
  have h2 := tally_update blocked s.pc r c
  obtain ⟨h3,h4⟩ := tokens_move s r c hm
  rw [h3,h4]
  simp only [Receivers.move] at hpos ⊢
  have := h.2 (by omega)
  omega

theorem Supplied.step (h : s.Supplied) (hv : s.Valid) (hn : n < 2^29) (c : RecvStep n) :
    (s.step c).Supplied := by
  obtain ⟨k,hk⟩ := h.1
  have hne : s.notifier ≠ .idle := by simp [hk]
  have hterm : s.pcb.tcpRecvTerminal = true := by
    rcases hv.terminal hne with hst | hst <;> simp [Pcb.tcpRecvTerminal,hst]
  cases c with
  | acquire r =>
    simp only [Receivers.step]
    split
    swap
    · exact h
    next hc =>
    have hok := hc.2
    simp only [Pcb.tcpRecvAcquire] at hok
    split_ifs at hok with h₁ h₂ h₃
    · exact absurd hok h₃
    · rcases hv.terminal hne with hst | hst <;> simp [hst] at h₂
  | take r size =>
    simp only [Receivers.step]
    split
    swap
    · exact h
    next hc =>
    rcases take_cases s.pcb size hv.sem (hv.tokens_lt hn) with ⟨-,ht⟩ | ⟨-,ring,bytes,-,ht⟩
    · rw [ht]
      exact h.move hv.sem (by simp [hc.1,demand]) (by simp [hc.1,blocked])
    · rw [ht]
      refine h.move rfl ?_ (by simp [hc.1,blocked])
      simp only [hc.1,demand]
      split_ifs <;> omega
  | check r =>
    simp only [Receivers.step,hterm,if_true]
    split
    next hc => exact h.move hv.sem (by simp [hc,demand]) (by simp [hc,blocked])
    next => exact h
  | drain r =>
    simp only [Receivers.step]
    split
    next hc =>
      refine h.move (m := s.tokens-1) (by rw [hv.sem,poll_eq]) ?_ (by simp [hc,blocked])
      simp only [hc,demand]
      omega
    next => exact h
  | wait r =>
    simp only [Receivers.step]
    split
    swap
    · exact h
    next hc =>
    rw [hv.sem]
    cases hm : s.tokens with
    | zero => simpa [sysSemWait] using h
    | succ m =>
      simp only [sysSemWait,if_true]
      refine h.move rfl ?_ (by simp [hc,blocked])
      simp only [hc,demand,hm]
      omega
  | leave r =>
    simp only [Receivers.step]
    split
    next hc => exact h.move hv.sem (by simp [hc,demand]) (by simp [hc,blocked])
    next => exact h
  | post =>
    simp only [Receivers.step,hk]
    cases k with
    | zero => exact h
    | succ k =>
      have hm : sysSemNotify s.pcb.recvDone = some (s.tokens+1) := by rw [hv.sem,notify_eq (hv.tokens_lt hn)]
      refine ⟨⟨k,rfl⟩,fun hpos => ?_⟩
      have := h.2 hpos
      simp only [due,hk] at this
      simp only [tokens,hm,due,Option.getD_some] at this ⊢
      omega
  | arrive | progress | fail | enterTimeWait => simpa [Receivers.step,hk] using h
  | count => simpa [Receivers.step,hk] using h

theorem Supplied.run (h : s.Supplied) (hv : s.Valid) (hn : n < 2^29) (steps : List (RecvStep n)) :
    (s.run steps).Supplied := by
  induction steps generalizing s with
  | nil => exact h
  | cons c steps ih => exact ih (h.step hv hn c) (hv.step hn c)

theorem Supplied.not_stranded (h : s.Supplied) : ¬s.Stranded := by
  rintro ⟨hn,hz,⟨r,hr⟩,-⟩
  have hb := le_tally blocked s.pc r
  have hd := le_tally demand s.pc r
  rw [hr] at hb hd
  have := h.2 hb
  simp only [tokens,hz,due,hn,Option.getD_some] at this
  simp only [demand] at hd
  omega

/-- Steps that a thread still has to make. -/
def rank : RecvPc → ℕ
  | .wait => 5
  | .top => 4
  | .check => 3
  | .drain => 2
  | .leave => 1
  | _ => 0

theorem Short.move (h : s.Short) {r : Fin n} {c : RecvPc} {p : Pcb} {m : ℕ} (hm : p.recvDone = some m)
    (hd : m+demand (s.pc r) ≤ s.tokens+demand c ∨ m = 0)
    (hb : 0 < tally blocked (Function.update s.pc r c)) (hr : rank c < rank (s.pc r)) (hdue : s.due = 0) :
    (s.move r c p).Short ∧
      tally rank (s.move r c p).pc+(s.move r c p).due < tally rank s.pc+s.due := by
  have h1 := tally_update demand s.pc r c
  have h2 := tally_update rank s.pc r c
  have h3 : tally blocked (Function.update s.pc r c)+tally blocked (Function.update s.pc r c) ≤
      tally demand (Function.update s.pc r c) := by
    unfold tally
    rw [← Finset.sum_add_distrib]
    refine Finset.sum_le_sum fun q _ => ?_
    cases Function.update s.pc r c q <;> decide
  obtain ⟨h4,h5⟩ := tokens_move s r c hm
  have := h.2.2
  refine ⟨⟨h.1,hb,?_⟩,?_⟩
  · rw [h4,h5]
    simp only [Receivers.move]
    omega
  · rw [h5]
    simp only [Receivers.move]
    omega

theorem blocked_update {r : Fin n} {c : RecvPc} (h : 0 < tally blocked s.pc) (hr : s.pc r ≠ .wait) :
    0 < tally blocked (Function.update s.pc r c) := by
  have h1 := tally_update blocked s.pc r c
  have h2 : blocked (s.pc r) = 0 := by cases hp : s.pc r <;> simp_all [blocked]
  omega

/-- When the tokens do not suffice, some step uses them up faster. -/
theorem Short.step (h : s.Short) (hv : s.Valid) (hn : n < 2^29) (hs : ¬s.Stranded) :
    ∃ c, (s.step c).Short ∧ tally rank (s.step c).pc+(s.step c).due < tally rank s.pc+s.due := by
  obtain ⟨k,hk⟩ := h.1
  have hpos := h.2.1
  have hne : s.notifier ≠ .idle := by simp [hk]
  cases k with
  | succ k =>
    refine ⟨.post,?_⟩
    have hm : sysSemNotify s.pcb.recvDone = some (s.tokens+1) := by rw [hv.sem,notify_eq (hv.tokens_lt hn)]
    have := h.2.2
    simp only [due,hk] at this
    simp only [Receivers.step,hk,Short,tokens,hm,due,Option.getD_some] at this ⊢
    exact ⟨⟨⟨k,rfl⟩,hpos,by omega⟩,by omega⟩
  | zero =>
    have hdue : s.due = 0 := by simp [due,hk]
    by_cases hrun : ∃ r, s.pc r ≠ .wait ∧ s.pc r ≠ .idle ∧ s.pc r ≠ .done
    · obtain ⟨r,hw,hi,hd⟩ := hrun
      have hb : ∀ c, 0 < tally blocked (Function.update s.pc r c) := fun c => blocked_update hpos hw
      cases hpc : s.pc r with
      | wait => exact absurd hpc hw
      | idle => exact absurd hpc hi
      | done => exact absurd hpc hd
      | top =>
        -- a reader that takes all the data posts no token
        refine ⟨.take r (s.pcb.recv.count+1),?_⟩
        simp only [Receivers.step,hpc,true_and,Nat.zero_lt_succ,if_true]
        rcases take_cases s.pcb (s.pcb.recv.count+1) hv.sem (hv.tokens_lt hn) with
          ⟨-,ht⟩ | ⟨-,ring,bytes,hring,ht⟩
        · rw [ht]
          exact h.move hv.sem (by simp [hpc,demand]) (hb _) (by simp [hpc,rank]) hdue
        · rw [ht]
          have hz : ring.count = 0 := by omega
          refine h.move rfl ?_ (hb _) (by simp [hpc,rank]) hdue
          simp only [hz,if_true,hpc,demand]
          omega
      | check =>
        have hterm : s.pcb.tcpRecvTerminal = true := by
          rcases hv.terminal hne with hst | hst <;> simp [Pcb.tcpRecvTerminal,hst]
        refine ⟨.check r,?_⟩
        simp only [Receivers.step,hpc,hterm,if_true]
        exact h.move hv.sem (by simp [hpc,demand]) (hb _) (by simp [hpc,rank]) hdue
      | drain =>
        refine ⟨.drain r,?_⟩
        simp only [Receivers.step,hpc,if_true]
        refine h.move (m := s.tokens-1) (by rw [hv.sem,poll_eq]) ?_ (hb _) (by simp [hpc,rank]) hdue
        simp only [hpc,demand]
        omega
      | leave =>
        refine ⟨.leave r,?_⟩
        simp only [Receivers.step,hpc,if_true]
        exact h.move hv.sem (by simp [hpc,demand]) (hb _) (by simp [hpc,rank]) hdue
    · -- everyone waits: a token is left, or this is the end
      have hall : ∀ r, s.pc r = .wait ∨ s.pc r = .idle ∨ s.pc r = .done := by
        intro r
        by_contra hr
        push Not at hr
        exact hrun ⟨r,hr⟩
      obtain ⟨r,hr⟩ := tally_pos.1 hpos
      have hpc : s.pc r = .wait := by
        cases hp : s.pc r <;> simp_all [blocked]
      cases hm : s.tokens with
      | zero => exact absurd ⟨hk,by rw [hv.sem,hm],⟨r,hpc⟩,hall⟩ hs
      | succ m =>
        refine ⟨.wait r,?_⟩
        simp only [Receivers.step,hpc,if_true,hv.sem,hm,sysSemWait]
        refine h.move rfl (by simp [hpc,demand,hm]) ?_ (by simp [hpc,rank]) hdue
        have h1 := tally_update blocked s.pc r .top
        have h2 : tally demand s.pc = tally blocked s.pc+tally blocked s.pc := by
          unfold tally
          rw [← Finset.sum_add_distrib]
          refine Finset.sum_congr rfl fun q _ => ?_
          rcases hall q with hq | hq | hq <;> simp [hq,demand,blocked]
        have := h.2.2
        simp only [hpc,blocked] at h1
        omega

theorem Short.stranded (h : s.Short) (hv : s.Valid) (hn : n < 2^29) : ∃ steps, (s.run steps).Stranded := by
  induction hm : tally rank s.pc+s.due using Nat.strong_induction_on generalizing s with
  | _ m ih =>
    by_cases hs : s.Stranded
    · exact ⟨[],hs⟩
    · obtain ⟨c,hc,hlt⟩ := h.step hv hn hs
      obtain ⟨steps,hst⟩ := ih _ (hm ▸ hlt) hc (hv.step hn c) rfl
      exact ⟨c::steps,hst⟩

end Balance

/-- Receivers that are not stranded all return. -/
theorem Valid.waiters_zero {s : Receivers n} (hv : s.Valid) (hs : ¬s.Stranded) (hq : s.Settled) :
    s.pcb.recvWaiters = 0 := by
  have hz : tally active s.pc = 0 := by
    by_contra hne
    obtain ⟨r,hr⟩ := tally_pos.1 (Nat.pos_of_ne_zero hne)
    rcases hq.2 r with h | h | ⟨h,hsem⟩
    · simp [h,active] at hr
    · simp [h,active] at hr
    · refine hs ⟨hq.1,hsem,⟨r,h⟩,fun q => ?_⟩
      rcases hq.2 q with h | h | ⟨h,-⟩ <;> simp [h]
  rw [hv.waiters,hz]
  rfl

end Receivers

/-- After the notifier's count no receiver is ever stranded, and they all return, exactly
when at most one receiver more is in the wait than there are tokens and receivers on
their way out. -/
theorem receivers_not_stranded_iff (n : ℕ) (hn : n < 2^29) (p : Pcb) (hp : p.Receiving)
    (hw : p.recvWaiters = 0) (hd : p.recvDone = some 0) (steps : List (RecvStep n)) (timeWait : Bool)
    (hc : ((Receivers.start n p).run steps).notifier = .closing timeWait) :
    let s := (Receivers.start n p).run steps
    (∀ rest, ¬((s.step .count).run rest).Stranded ∧
      (((s.step .count).run rest).Settled → ((s.step .count).run rest).pcb.recvWaiters = 0)) ↔
      tally Receivers.blocked s.pc ≤ s.tokens+tally Receivers.leaving s.pc+1 := by
  intro s
  have hv : s.Valid := (Receivers.Valid.start hp hw hd).run hn steps
  have hv' := hv.count
  -- the count posts one token for every active receiver
  have hcount : (s.step .count).notifier = .posting (tally Receivers.active s.pc) ∧
      (s.step .count).tokens = s.tokens ∧ (s.step .count).pc = s.pc := by
    have hc : s.notifier = .closing timeWait := hc
    have hwait := hv.waiters
    cases timeWait with
    | true => simp [Receivers.step,hc,hwait,Receivers.tokens]
    | false => simp [Receivers.step,hc,hv.notified hc,hwait,Receivers.tokens,Pcb.tcpNotified]
  obtain ⟨hnot,htok,hpc⟩ := hcount
  have hdue : (s.step .count).due = tally Receivers.active s.pc := by simp [Receivers.due,hnot]
  have hsum := Receivers.demand_active s.pc
  constructor
  · intro h
    by_contra hlt
    have hshort : (s.step .count).Short := by
      refine ⟨⟨_,hnot⟩,?_,?_⟩
      · rw [hpc]
        omega
      · rw [htok,hdue,hpc]
        omega
    obtain ⟨rest,hst⟩ := hshort.stranded hv' hn
    exact (h rest).1 hst
  · intro h rest
    have hsup : (s.step .count).Supplied := by
      refine ⟨⟨_,hnot⟩,fun _ => ?_⟩
      rw [htok,hdue,hpc]
      omega
    have hns := (hsup.run hv' hn rest).not_stranded
    exact ⟨hns,(hv'.run hn rest).waiters_zero hns⟩

/-- The block of a connection that has just been opened. -/
def connectedPcb : Pcb :=
  (tcpInit.run [([],.tcpOpen true),([],.tcpConnectStart 0 ⟨1,true,0x0a000001⟩ 0x0a000002 80),
    ([],.tcpIn 1 0x0a000002 0x0a000001 (peerBytes 80 49152 7000 1001 (flagSyn ||| flagAck) []))]).storage 0

/-- Thread `r` acquires and goes to wait. -/
def blocks {n : ℕ} (r : Fin n) : List (RecvStep n) := [.acquire r,.take r 1,.check r]

/-- One receiver waits when the connection times out, and returns. -/
theorem receivers_not_stranded_one :
    ¬((((Receivers.start 1 connectedPcb).run (blocks 0++[.fail .tmo])).step .count).run
      [.post,.wait 0,.take 0 1,.check 0,.drain 0]).Stranded := by
  have hp : connectedPcb.Receiving := by
    refine ⟨?_,?_,?_,?_,?_⟩ <;> decide +kernel
  have hw : connectedPcb.recvWaiters = 0 := by decide +kernel
  have hd : connectedPcb.recvDone = some 0 := by decide +kernel
  have hc : ((Receivers.start 1 connectedPcb).run (blocks 0++[.fail .tmo])).notifier = .closing false := by
    decide +kernel
  have hb : tally Receivers.blocked ((Receivers.start 1 connectedPcb).run (blocks 0++[.fail .tmo])).pc ≤
      ((Receivers.start 1 connectedPcb).run (blocks 0++[.fail .tmo])).tokens+
        tally Receivers.leaving ((Receivers.start 1 connectedPcb).run (blocks 0++[.fail .tmo])).pc+1 := by
    decide +kernel
  exact ((receivers_not_stranded_iff 1 (by decide) connectedPcb hp hw hd _ false hc).2 hb _).1

/-- Two receivers wait when the connection times out. The first takes the token that wakes
it and, on its way out, the token of the second. -/
theorem receiver_stranded :
    let s := (Receivers.start 2 connectedPcb).run (blocks 0++blocks 1++[.fail .tmo,.count,
      .post,.wait 0,.take 0 1,.check 0,.post,.drain 0,.leave 0])
    s.Stranded ∧ s.pc 0 = .done ∧ s.pc 1 = .wait ∧ s.pcb.recvWaiters = 1 := by
  decide +kernel

end Tcp
end QuardStarNet
