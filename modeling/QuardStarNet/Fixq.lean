import QuardStarNet.NetExec
import QuardStarNet.Tally

/-! The queue of `fixq.c` between any number of threads. Every step is one lock section or one
operation on a semaphore; the lock section that stores or takes a message is the moment at which
the call takes effect. -/
namespace QuardStarNet
namespace Fixq

variable {n : ℕ} {M : Type}

/-- Where a thread is, with the number of its call. -/
inductive Phase (M : Type)
  | idle
  | sendCheck (call : ℕ) (msg : M) (timeout : ℤ)
  | sendWait (call : ℕ) (msg : M) (timeout : ℤ)
  | sendPut (call : ℕ) (msg : M)
  | sendNotify (call : ℕ)
  | recvCheck (call : ℕ) (timeout : ℤ)
  | recvWait (call : ℕ) (timeout : ℤ)
  | recvTake (call : ℕ)
  | recvNotify (call : ℕ) (msg : Option M)

inductive Result (M : Type)
  | sent (err : NetErr)
  | got (msg : Option M)

/-- `fixq_t` and the threads. The numbers of the calls, `stored` and `taken` (what the lock
sections stored and took, in their order), `returned` and `overwritten` (a store hit an occupied
cell) only record what happened. -/
structure State (n : ℕ) (M : Type) where
  size : ℕ
  buf : ℕ → Option M
  inPos : ℕ
  outPos : ℕ
  count : ℕ
  sendSem : Sem
  recvSem : Sem
  phase : Fin n → Phase M
  calls : ℕ
  stored : List (ℕ × M)
  taken : List (ℕ × Option M)
  returned : List (ℕ × Result M)
  overwritten : Bool

/-- `fixq_init`, with the semaphores it creates. -/
def fixqInit (size : ℕ) : State n M where
  size := size
  buf _ := none
  inPos := 0
  outPos := 0
  count := 0
  sendSem := some size
  recvSem := some 0
  phase _ := .idle
  calls := 0
  stored := []
  taken := []
  returned := []
  overwritten := false

namespace State

variable (s : State n M) (t : Fin n)

def goto (p : Phase M) : State n M := { s with phase := Function.update s.phase t p }

def ret (call : ℕ) (r : Result M) : State n M :=
  { s.goto t .idle with returned := s.returned ++ [(call,r)] }

/-- A call of `fixq_send`; `none` is a null message. -/
def fixqSend (msg : Option M) (timeout : ℤ) : State n M :=
  let s' := { s with calls := s.calls+1 }
  match msg with
  | none => s'.ret t s.calls (.sent .param)
  | some m =>
    if timeout < 0 then s'.goto t (.sendCheck s.calls m timeout)
    else s'.goto t (.sendWait s.calls m timeout)

def fixqRecv (timeout : ℤ) : State n M :=
  let s' := { s with calls := s.calls+1 }
  if timeout < 0 then s'.goto t (.recvCheck s.calls timeout)
  else s'.goto t (.recvWait s.calls timeout)

/-- The lock section of `fixq_send`. -/
def put (call : ℕ) (msg : M) : State n M :=
  { s.goto t (.sendNotify call) with
    buf := Function.update s.buf s.inPos (some msg)
    inPos := (s.inPos+1) % s.size
    count := s.count+1
    stored := s.stored ++ [(call,msg)]
    overwritten := s.overwritten || decide (∃ i < s.count,(s.outPos+i) % s.size = s.inPos) }

/-- The lock section of `fixq_recv`. -/
def take (call : ℕ) : State n M :=
  if s.count = 0 then s.ret t call (.got none)
  else
    { s.goto t (.recvNotify call (s.buf s.outPos)) with
      outPos := (s.outPos+1) % s.size
      count := s.count-1
      taken := s.taken ++ [(call,s.buf s.outPos)] }

/-- The next step of a call; `expired` says that a timed wait ends by its timeout. -/
def advance (expired : Bool) : State n M :=
  match s.phase t with
  | .idle => s
  | .sendCheck k m timeout =>
    if s.count = s.size then s.ret t k (.sent .full) else s.goto t (.sendWait k m timeout)
  | .sendWait k m timeout =>
    match NetExec.sysSemTimedWait s.sendSem timeout expired with
    | none => s
    | some (sem,err) =>
      if err ≠ .ok then
        s.ret t k (.sent (if timeout < 0 ∧ err = .tmo then .full else err))
      else { s.goto t (.sendPut k m) with sendSem := sem }
  | .sendPut k m => s.put t k m
  | .sendNotify k => { s.ret t k (.sent .ok) with recvSem := sysSemNotify s.recvSem }
  | .recvCheck k timeout =>
    if s.count = 0 then s.ret t k (.got none) else s.goto t (.recvWait k timeout)
  | .recvWait k timeout =>
    match NetExec.sysSemTimedWait s.recvSem timeout expired with
    | none => s
    | some (sem,err) =>
      if err ≠ .ok then s.ret t k (.got none)
      else { s.goto t (.recvTake k) with recvSem := sem }
  | .recvTake k => s.take t k
  | .recvNotify k msg => { s.ret t k (.got msg) with sendSem := sysSemNotify s.sendSem }

end State

inductive Step (n : ℕ) (M : Type)
  | send (t : Fin n) (msg : Option M) (timeout : ℤ)
  | recv (t : Fin n) (timeout : ℤ)
  | wake
  | go (t : Fin n) (expired : Bool)

def State.step (s : State n M) : Step n M → State n M
  | .send t msg timeout =>
    match s.phase t with
    | .idle => s.fixqSend t msg timeout
    | _ => s
  | .recv t timeout =>
    match s.phase t with
    | .idle => s.fixqRecv t timeout
    | _ => s
  | .wake => { s with recvSem := sysSemNotify s.recvSem }
  | .go t expired => s.advance t expired

def State.run (s : State n M) (steps : List (Step n M)) : State n M := steps.foldl State.step s

/-! ### What a step can do -/

/-- A phase that has not yet stored or taken anything, with its call. -/
def Phase.waiting : Phase M → Option ℕ
  | .sendCheck k _ _ | .sendWait k _ _ | .recvCheck k _ | .recvWait k _ => some k
  | _ => none

/-- The result of a call that ends without effect. -/
def Phase.fails (p : Phase M) (r : Result M) : Prop :=
  match p with
  | .sendCheck _ _ _ | .sendWait _ _ _ => ∃ e,r = .sent e ∧ e ≠ .ok
  | .recvCheck _ _ | .recvWait _ _ => r = .got none
  | _ => False

inductive Move (s : State n M) : State n M → Prop
  | stay : Move s s
  | call (t : Fin n) (p : Phase M) (hp : p.waiting = some s.calls) (ht : s.phase t = .idle) :
      Move s ({ s with calls := s.calls+1 }.goto t p)
  | refuse (t : Fin n) (ht : s.phase t = .idle) :
      Move s ({ s with calls := s.calls+1 }.ret t s.calls (.sent .param))
  | pass (t : Fin n) (k : ℕ) (p : Phase M) (ht : (s.phase t).waiting = some k)
      (hp : p.waiting = some k) : Move s (s.goto t p)
  | fail (t : Fin n) (k : ℕ) (r : Result M) (ht : (s.phase t).waiting = some k)
      (hr : (s.phase t).fails r) : Move s (s.ret t k r)
  | sendToken (t : Fin n) (k : ℕ) (m : M) (timeout : ℤ) (a : ℕ) (ht : s.phase t = .sendWait k m timeout)
      (ha : s.sendSem = some (a+1)) : Move s { s.goto t (.sendPut k m) with sendSem := some a }
  | put (t : Fin n) (k : ℕ) (m : M) (ht : s.phase t = .sendPut k m) : Move s (s.put t k m)
  | sent (t : Fin n) (k : ℕ) (ht : s.phase t = .sendNotify k) :
      Move s { s.ret t k (.sent .ok) with recvSem := sysSemNotify s.recvSem }
  | recvToken (t : Fin n) (k : ℕ) (timeout : ℤ) (b : ℕ) (ht : s.phase t = .recvWait k timeout)
      (hb : s.recvSem = some (b+1)) : Move s { s.goto t (.recvTake k) with recvSem := some b }
  | empty (t : Fin n) (k : ℕ) (ht : s.phase t = .recvTake k) (h0 : s.count = 0) :
      Move s (s.ret t k (.got none))
  | take (t : Fin n) (k : ℕ) (ht : s.phase t = .recvTake k) (h0 : s.count ≠ 0) : Move s (s.take t k)
  | got (t : Fin n) (k : ℕ) (msg : Option M) (ht : s.phase t = .recvNotify k msg) :
      Move s { s.ret t k (.got msg) with sendSem := sysSemNotify s.sendSem }
  | wake : Move s { s with recvSem := sysSemNotify s.recvSem }

/-- A wait takes a token, goes on or fails. -/
theorem wait_cases {sem sem' : Sem} {timeout : ℤ} {expired : Bool} {err : NetErr}
    (h : NetExec.sysSemTimedWait sem timeout expired = some (sem',err)) :
    err ≠ .ok ∨ ∃ a,sem = some (a+1) ∧ sem' = some a := by
  rcases sem with _ | _ | a <;> grind [NetExec.sysSemTimedWait,sysSemWait]

theorem step_move (s : State n M) (c : Step n M) : Move s (s.step c) := by
  cases c with
  | send t msg timeout =>
    rw [State.step]
    split
    next ht =>
      cases msg with
      | none => exact .refuse t ht
      | some m =>
        simp only [State.fixqSend]
        split <;> exact .call t _ rfl ht
    next => exact .stay
  | recv t timeout =>
    rw [State.step]
    split
    next ht =>
      rw [State.fixqRecv]
      split <;> exact .call t _ rfl ht
    next => exact .stay
  | wake => exact .wake
  | go t expired =>
    rw [State.step,State.advance]
    cases ht : s.phase t with
    | idle => exact .stay
    | sendCheck k m timeout =>
      dsimp only
      split
      · exact .fail t k _ (by rw [ht]; rfl) (by rw [ht]; exact ⟨.full,rfl,by simp⟩)
      · exact .pass t k _ (by rw [ht]; rfl) rfl
    | sendWait k m timeout =>
      dsimp only
      split
      next => exact .stay
      next sem err hw =>
        split
        next herr =>
          refine .fail t k _ (by rw [ht]; rfl) ?_
          rw [ht]
          exact ⟨_,rfl,by split <;> simp [herr]⟩
        next herr =>
          obtain ⟨a,ha,rfl⟩ := (wait_cases hw).resolve_left herr
          exact .sendToken t k m timeout a ht ha
    | sendPut k m => exact .put t k m ht
    | sendNotify k => exact .sent t k ht
    | recvCheck k timeout =>
      dsimp only
      split
      · exact .fail t k _ (by rw [ht]; rfl) (by rw [ht]; rfl)
      · exact .pass t k _ (by rw [ht]; rfl) rfl
    | recvWait k timeout =>
      dsimp only
      split
      next => exact .stay
      next sem err hw =>
        split
        next => exact .fail t k _ (by rw [ht]; rfl) (by rw [ht]; rfl)
        next herr =>
          obtain ⟨a,ha,rfl⟩ := (wait_cases hw).resolve_left herr
          exact .recvToken t k timeout a ht ha
    | recvTake k =>
      by_cases h0 : s.count = 0
      · dsimp only
        rw [State.take,if_pos h0]
        exact .empty t k ht h0
      · exact .take t k ht h0
    | recvNotify k msg => exact .got t k msg ht

/-! ### Tokens -/

def Phase.holdsSend : Phase M → ℕ
  | .sendPut _ _ => 1
  | _ => 0

/-- A receiver that has made room and not yet said so. -/
def Phase.owesSend : Phase M → ℕ
  | .recvNotify _ _ => 1
  | _ => 0

def Phase.holdsRecv : Phase M → ℕ
  | .recvTake _ => 1
  | _ => 0

/-- A sender that has stored its message and not yet said so. -/
def Phase.owesRecv : Phase M → ℕ
  | .sendNotify _ => 1
  | _ => 0

theorem waiting_weights {p : Phase M} {k : ℕ} (h : p.waiting = some k) :
    p.holdsSend = 0 ∧ p.owesSend = 0 ∧ p.holdsRecv = 0 ∧ p.owesRecv = 0 := by
  cases p <;> first | exact ⟨rfl,rfl,rfl,rfl⟩ | simp [Phase.waiting] at h

/-- Every cell of the queue is accounted for exactly by the sending side; extra wake-ups make the
receiving side an inequality. -/
structure Tokens (s : State n M) (a b : ℕ) : Prop where
  send : s.sendSem = some a
  recv : s.recvSem = some b
  room : a+tally Phase.holdsSend s.phase+s.count+tally Phase.owesSend s.phase = s.size
  news : s.count ≤ b+tally Phase.holdsRecv s.phase+tally Phase.owesRecv s.phase
  size_le : s.size ≤ 2147483647

theorem Tokens.count_le {s : State n M} {a b : ℕ} (h : Tokens s a b) : s.count ≤ s.size := by
  have := h.room
  omega

theorem Tokens.count_lt {s : State n M} {a b : ℕ} (h : Tokens s a b) {t : Fin n} {k : ℕ} {m : M}
    (ht : s.phase t = .sendPut k m) : s.count < s.size := by
  have hroom := h.room
  have hone := le_tally Phase.holdsSend s.phase t
  rw [ht] at hone
  simp only [Phase.holdsSend] at hone
  omega

/-- One thread moves from its phase to `p`. -/
theorem Tokens.shift {s s' : State n M} {a b a' b' : ℕ} (h : Tokens s a b) {t : Fin n} {p : Phase M}
    (hphase : s'.phase = Function.update s.phase t p) (hsize : s'.size = s.size)
    (hsend : s'.sendSem = some a') (hrecv : s'.recvSem = some b')
    (room : a'+p.holdsSend+s'.count+p.owesSend =
      a+(s.phase t).holdsSend+s.count+(s.phase t).owesSend)
    (news : s'.count+b+(s.phase t).holdsRecv+(s.phase t).owesRecv ≤
        s.count+b'+p.holdsRecv+p.owesRecv ∨ s'.count ≤ b') : Tokens s' a' b' := by
  have h1 := tally_update Phase.holdsSend s.phase t p
  have h2 := tally_update Phase.owesSend s.phase t p
  have h3 := tally_update Phase.holdsRecv s.phase t p
  have h4 := tally_update Phase.owesRecv s.phase t p
  have hroom := h.room
  have hnews := h.news
  refine ⟨hsend,hrecv,?_,?_,hsize ▸ h.size_le⟩
  · rw [hphase,hsize]
    omega
  · rw [hphase]
    omega

theorem notify_le {b m : ℕ} (h : m ≤ 2147483647) :
    ∃ b',sysSemNotify (some b) = some b' ∧ (b' = b+1 ∨ b' = b ∧ m ≤ b') := by
  rw [sysSemNotify]
  split
  · exact ⟨b+1,rfl,.inl rfl⟩
  · exact ⟨b,rfl,.inr ⟨rfl,by omega⟩⟩

attribute [local simp] Phase.holdsSend Phase.owesSend Phase.holdsRecv Phase.owesRecv State.goto
  State.ret State.put

theorem Tokens.move {s s' : State n M} {a b : ℕ} (h : Tokens s a b) (hm : Move s s') :
    ∃ a' b',Tokens s' a' b' := by
  have hcount := h.count_le
  have hsize := h.size_le
  cases hm with
  | stay => exact ⟨a,b,h⟩
  | call t p hp ht =>
    obtain ⟨w1,w2,w3,w4⟩ := waiting_weights hp
    exact ⟨a,b,h.shift rfl rfl h.send h.recv (by rw [ht,w1,w2]; rfl) (.inl (by rw [ht,w3,w4]; rfl))⟩
  | refuse t ht => exact ⟨a,b,h.shift rfl rfl h.send h.recv (by simp [ht]) (by simp [ht])⟩
  | pass t k p ht hp =>
    obtain ⟨w1,w2,w3,w4⟩ := waiting_weights hp
    obtain ⟨v1,v2,v3,v4⟩ := waiting_weights ht
    exact ⟨a,b,h.shift rfl rfl h.send h.recv (by rw [w1,w2,v1,v2]; rfl)
      (.inl (by rw [w3,w4,v3,v4]; rfl))⟩
  | fail t k r ht hr =>
    obtain ⟨v1,v2,v3,v4⟩ := waiting_weights ht
    exact ⟨a,b,h.shift rfl rfl h.send h.recv (by rw [v1,v2]; rfl) (.inl (by rw [v3,v4]; rfl))⟩
  | sendToken t k m timeout a₁ ht ha =>
    obtain rfl : a = a₁+1 := Option.some.inj (h.send.symm.trans ha)
    exact ⟨a₁,b,h.shift rfl rfl rfl h.recv (by simp [ht]) (by simp [ht])⟩
  | put t k m ht =>
    exact ⟨a,b,h.shift rfl rfl h.send h.recv (by simp [ht]; omega) (by simp [ht]; omega)⟩
  | sent t k ht =>
    obtain ⟨b',hb,hb'⟩ := notify_le (b := b) (m := s.count) (by omega)
    exact ⟨a,b',h.shift rfl rfl h.send (by rw [h.recv,hb]) (by simp [ht]) (by simp [ht]; omega)⟩
  | recvToken t k timeout b₁ ht hb =>
    obtain rfl : b = b₁+1 := Option.some.inj (h.recv.symm.trans hb)
    exact ⟨a,b₁,h.shift rfl rfl h.send rfl (by simp [ht]) (by simp [ht]; omega)⟩
  | empty t k ht h0 =>
    exact ⟨a,b,h.shift rfl rfl h.send h.recv (by simp [ht]) (by simp [h0])⟩
  | take t k ht h0 =>
    rw [State.take,if_neg h0]
    exact ⟨a,b,h.shift rfl rfl h.send h.recv (by simp [ht]; omega) (by simp [ht]; omega)⟩
  | got t k msg ht =>
    have hroom := h.room
    have hone := le_tally Phase.owesSend s.phase t
    simp only [ht,Phase.owesSend] at hone
    have hnot : sysSemNotify (some a) = some (a+1) := by
      rw [sysSemNotify,if_pos (by omega)]
    exact ⟨a+1,b,h.shift rfl rfl (by rw [h.send,hnot]) h.recv (by simp [ht]; omega) (by simp [ht])⟩
  | wake =>
    obtain ⟨b',hb,hb'⟩ := notify_le (b := b) (m := s.count) (by omega)
    have hnews := h.news
    exact ⟨a,b',h.send,by rw [h.recv,hb],h.room,by dsimp only; omega,hsize⟩

/-! ### Order -/

/-- The occupied cells, oldest first. -/
def State.contents (s : State n M) : List (Option M) :=
  (List.range s.count).map fun i => s.buf ((s.outPos+i) % s.size)

structure Fifo (s : State n M) : Prop where
  out_lt : s.outPos < s.size
  in_eq : s.inPos = (s.outPos+s.count) % s.size
  fifo : s.stored.map (fun x => some x.2) = s.taken.map Prod.snd ++ s.contents
  kept : s.overwritten = false

/-- Steps that touch neither the ring nor the records of it. -/
theorem Fifo.congr {s s' : State n M} (h : Fifo s) (hbuf : s'.buf = s.buf) (hin : s'.inPos = s.inPos)
    (hout : s'.outPos = s.outPos) (hcount : s'.count = s.count) (hsize : s'.size = s.size)
    (hstored : s'.stored = s.stored) (htaken : s'.taken = s.taken)
    (hover : s'.overwritten = s.overwritten) : Fifo s' := by
  refine ⟨by rw [hout,hsize]; exact h.out_lt,by rw [hin,hout,hcount,hsize]; exact h.in_eq,?_,
    by rw [hover]; exact h.kept⟩
  rw [hstored,htaken,State.contents,hbuf,hout,hcount,hsize]
  exact h.fifo

theorem Fifo.put {s : State n M} (h : Fifo s) (hlt : s.count < s.size) (t : Fin n) (k : ℕ) (m : M) :
    Fifo (s.put t k m) := by
  have hfree : ∀ i < s.count,(s.outPos+i) % s.size ≠ s.inPos := by
    intro i hi he
    rw [h.in_eq] at he
    exact absurd ((Ring.wrap_inj h.out_lt (hi.trans hlt) hlt).1 he) hi.ne
  refine ⟨h.out_lt,?_,?_,?_⟩
  · show (s.inPos+1) % s.size = (s.outPos+(s.count+1)) % s.size
    rw [h.in_eq,Nat.mod_add_mod,Nat.add_assoc]
  · have hcells : (s.put t k m).contents = s.contents ++ [some m] := by
      rw [State.contents,State.contents]
      simp only [State.put,State.goto]
      rw [List.range_succ,List.map_append,List.map_singleton,← h.in_eq,Function.update_self]
      congr 1
      refine List.map_congr_left fun i hi => Function.update_of_ne (hfree i ?_) _ _
      exact List.mem_range.1 hi
    rw [hcells]
    simp only [State.put,List.map_append,List.map_singleton,h.fifo,List.append_assoc]
    rfl
  · simp only [State.put,h.kept,Bool.false_or,decide_eq_false_iff_not]
    rintro ⟨i,hi,he⟩
    exact hfree i hi he

theorem Fifo.take {s : State n M} (h : Fifo s) (h0 : s.count ≠ 0) (t : Fin n) (k : ℕ) :
    Fifo (s.take t k) := by
  obtain ⟨c,hc⟩ := Nat.exists_eq_succ_of_ne_zero h0
  have hpos : 0 < s.size := Nat.lt_of_le_of_lt (Nat.zero_le _) h.out_lt
  rw [State.take,if_neg h0]
  refine ⟨Nat.mod_lt _ hpos,?_,?_,h.kept⟩
  · show s.inPos = ((s.outPos+1) % s.size+(s.count-1)) % s.size
    rw [h.in_eq,Nat.mod_add_mod]
    congr 1
    omega
  · have hcells : s.contents = s.buf s.outPos ::
        (List.range (s.count-1)).map fun i => s.buf (((s.outPos+1) % s.size+i) % s.size) := by
      rw [State.contents,hc,List.range_succ_eq_map,List.map_cons,List.map_map,Nat.add_zero,
        Nat.mod_eq_of_lt h.out_lt]
      congr 1
      refine List.map_congr_left fun i _ => ?_
      simp only [Function.comp,Nat.mod_add_mod]
      congr 2
      omega
    show s.stored.map _ = (s.taken ++ [(k,s.buf s.outPos)]).map Prod.snd ++ State.contents _
    rw [h.fifo,hcells]
    simp [State.contents,State.goto]

theorem Fifo.move {s s' : State n M} {a b : ℕ} (h : Fifo s) (ht : Tokens s a b) (hm : Move s s') :
    Fifo s' := by
  cases hm with
  | put t k m hp => exact h.put (ht.count_lt hp) t k m
  | take t k hp h0 => exact h.take h0 t k
  | _ => exact h.congr rfl rfl rfl rfl rfl rfl rfl rfl

/-! ### Calls and their results -/

/-- The call a thread is in. -/
def Phase.call : Phase M → Option ℕ
  | .idle => none
  | .sendCheck k _ _ | .sendWait k _ _ | .sendPut k _ | .sendNotify k => some k
  | .recvCheck k _ | .recvWait k _ | .recvTake k | .recvNotify k _ => some k

/-- The calls whose lock section is behind them. -/
def State.Acted (s : State n M) (k : ℕ) : Prop := k ∈ s.stored.map Prod.fst ∨ k ∈ s.taken.map Prod.fst

/-- A phase fits the records: before its lock section a call has left no trace, after it its
message is recorded. -/
def Phase.Fits (s : State n M) : Phase M → Prop
  | .idle => True
  | .sendNotify k => k ∈ s.stored.map Prod.fst
  | .recvNotify k msg => (k,msg) ∈ s.taken
  | .sendCheck k _ _ | .sendWait k _ _ | .sendPut k _ | .recvCheck k _ | .recvWait k _
  | .recvTake k => ¬s.Acted k

/-- What a returned result says about the records. -/
def Result.Fits (s : State n M) (k : ℕ) : Result M → Prop
  | .sent err => err = .ok ↔ k ∈ s.stored.map Prod.fst
  | .got msg => (k,msg) ∈ s.taken ∨ msg = none ∧ k ∉ s.taken.map Prod.fst

structure Calls (s : State n M) : Prop where
  stored_nodup : (s.stored.map Prod.fst).Nodup
  taken_nodup : (s.taken.map Prod.fst).Nodup
  acted_lt : ∀ k,s.Acted k → k < s.calls
  phase_lt : ∀ t k,(s.phase t).call = some k → k < s.calls
  returned_lt : ∀ k r,(k,r) ∈ s.returned → k < s.calls
  alone : ∀ t u k,(s.phase t).call = some k → (s.phase u).call = some k → t = u
  open_ : ∀ t k r,(s.phase t).call = some k → (k,r) ∉ s.returned
  fits : ∀ t,(s.phase t).Fits s
  results : ∀ k r,(k,r) ∈ s.returned → r.Fits s k

theorem waiting_call {p : Phase M} {k : ℕ} (h : p.waiting = some k) : p.call = some k := by
  cases p <;> first | exact h | simp [Phase.waiting] at h

theorem waiting_fits {p : Phase M} {k : ℕ} (h : p.waiting = some k) (s : State n M) :
    p.Fits s ↔ ¬s.Acted k := by
  cases p <;> simp_all [Phase.waiting,Phase.Fits]

/-- The records gain only the call `k`. -/
structure Grows (s s' : State n M) (k : ℕ) : Prop where
  stored : s.stored ⊆ s'.stored
  taken : s.taken ⊆ s'.taken
  stored_new : ∀ j ∈ s'.stored.map Prod.fst,j ≠ k → j ∈ s.stored.map Prod.fst
  taken_new : ∀ j ∈ s'.taken.map Prod.fst,j ≠ k → j ∈ s.taken.map Prod.fst

theorem Grows.of_eq {s s' : State n M} (k : ℕ) (hs : s'.stored = s.stored)
    (ht : s'.taken = s.taken) : Grows s s' k := by
  constructor <;> simp +contextual [hs,ht]

theorem Grows.acted {s s' : State n M} {k j : ℕ} (h : Grows s s' k) (hj : j ≠ k) :
    s'.Acted j ↔ s.Acted j := by
  have hs := List.map_subset Prod.fst h.stored (a := j)
  have ht := List.map_subset Prod.fst h.taken (a := j)
  grind [State.Acted,Grows]

theorem Grows.phase_fits {s s' : State n M} {k : ℕ} (h : Grows s s' k) {p : Phase M}
    (hp : p.call ≠ some k) (hf : p.Fits s) : p.Fits s' := by
  cases p with
  | sendNotify j => exact List.map_subset _ h.stored hf
  | recvNotify j msg => exact h.taken hf
  | _ => grind [Phase.Fits,Phase.call,h.acted]

theorem Grows.result_fits {s s' : State n M} {k j : ℕ} (h : Grows s s' k) {r : Result M}
    (hj : j ≠ k) (hf : r.Fits s j) : r.Fits s' j := by
  have hs := List.map_subset Prod.fst h.stored (a := j)
  cases r <;> grind [Result.Fits,Grows]

/-- A thread goes on with its call; the records may gain that call. -/
theorem Calls.goto {s s' : State n M} (h : Calls s) {t : Fin n} {p : Phase M} {k : ℕ}
    (ht : (s.phase t).call = some k) (hphase : s'.phase = Function.update s.phase t p)
    (hp : p.call = some k) (hfits : p.Fits s') (hg : Grows s s' k)
    (hstored : (s'.stored.map Prod.fst).Nodup) (htaken : (s'.taken.map Prod.fst).Nodup)
    (hcalls : s'.calls = s.calls) (hret : s'.returned = s.returned) : Calls s' := by
  replace hphase : ∀ u,s'.phase u = if u = t then p else s.phase u := by
    simp [hphase,Function.update_apply]
  have hacted := @hg.acted
  have hfit := @hg.phase_fits
  have hres := @hg.result_fits
  obtain ⟨h1,h2,h3,h4,h5,h6,h7,h8,h9⟩ := h
  constructor <;> grind

/-- A call returns. -/
theorem Calls.ret {s s' : State n M} (h : Calls s) {t : Fin n} {k : ℕ} {r : Result M}
    (ht : (s.phase t).call = some k) (hr : r.Fits s k)
    (hphase : s'.phase = Function.update s.phase t .idle) (hstored : s'.stored = s.stored)
    (htaken : s'.taken = s.taken) (hcalls : s'.calls = s.calls)
    (hret : s'.returned = s.returned ++ [(k,r)]) : Calls s' := by
  replace hphase : ∀ u,s'.phase u = if u = t then .idle else s.phase u := by
    simp [hphase,Function.update_apply]
  have hacted : ∀ j,s'.Acted j ↔ s.Acted j := by grind [State.Acted]
  have hfit : ∀ p : Phase M,p.Fits s' ↔ p.Fits s := by
    intro p
    cases p <;> grind [Phase.Fits]
  have hres : ∀ j,∀ r : Result M,r.Fits s' j ↔ r.Fits s j := by
    intro j r
    cases r <;> grind [Result.Fits]
  obtain ⟨h1,h2,h3,h4,h5,h6,h7,h8,h9⟩ := h
  constructor <;> grind [Phase.Fits,Phase.call]

/-- A call begins. -/
theorem Calls.begin {s : State n M} (h : Calls s) {t : Fin n} {p : Phase M}
    (hp : p.waiting = some s.calls) : Calls ({ s with calls := s.calls+1 }.goto t p) := by
  have hnew := waiting_call hp
  have hgrow : Grows s ({ s with calls := s.calls+1 }.goto t p) s.calls := .of_eq s.calls rfl rfl
  have hacted := @hgrow.acted
  have hfit := @hgrow.phase_fits
  have hres := @hgrow.result_fits
  have hfits := waiting_fits hp ({ s with calls := s.calls+1 }.goto t p)
  have hphase : ∀ u,({ s with calls := s.calls+1 }.goto t p).phase u =
    if u = t then p else s.phase u := Function.update_apply s.phase t p
  have hfresh : ¬s.Acted s.calls := fun ha => (h.acted_lt _ ha).false
  obtain ⟨h1,h2,h3,h4,h5,h6,h7,h8,h9⟩ := h
  constructor <;> grind [State.goto,State.Acted]

theorem Calls.move {s s' : State n M} (h : Calls s) (hm : Move s s') : Calls s' := by
  cases hm with
  | stay => exact h
  | call t p hp ht => exact h.begin hp
  | refuse t ht =>
    -- as if the call had begun and returned at once
    have hbegin := h.begin (t := t) (p := .recvCheck s.calls 0) rfl
    have hfit := hbegin.fits t
    refine hbegin.ret (t := t) (k := s.calls) (r := .sent .param) (by simp [Phase.call]) ?_ (by simp)
      rfl rfl rfl rfl
    simp_all [Phase.Fits,Result.Fits,State.Acted]
  | pass t k p ht hp =>
    have hfit := (waiting_fits ht s).1 (h.fits t)
    exact h.goto (waiting_call ht) rfl (waiting_call hp) ((waiting_fits hp _).2 hfit)
      (.of_eq k rfl rfl) h.stored_nodup h.taken_nodup rfl rfl
  | fail t k r ht hr =>
    have hfit := (waiting_fits ht s).1 (h.fits t)
    refine h.ret (waiting_call ht) ?_ rfl rfl rfl rfl rfl
    cases hp : s.phase t <;> grind [Phase.fails,Result.Fits,State.Acted]
  | put t k m ht =>
    have hfit : ¬s.Acted k := by simpa [ht,Phase.Fits] using h.fits t
    refine h.goto (k := k) (by rw [ht]; rfl) rfl rfl (by simp [Phase.Fits])
      ⟨List.subset_append_left _ _,fun _ => id,?_,fun _ hj _ => hj⟩ ?_ h.taken_nodup rfl rfl
    · intro j hj hjk
      simpa [hjk] using hj
    · simpa using h.stored_nodup.append (List.nodup_singleton k) (by simpa using fun hs => hfit (.inl hs))
  | take t k ht h0 =>
    have hfit : ¬s.Acted k := by simpa [ht,Phase.Fits] using h.fits t
    rw [State.take,if_neg h0]
    refine h.goto (k := k) (by rw [ht]; rfl) rfl rfl (by simp [Phase.Fits])
      ⟨fun _ => id,List.subset_append_left _ _,fun _ hj _ => hj,?_⟩ h.stored_nodup ?_ rfl rfl
    · intro j hj hjk
      simpa [hjk] using hj
    · simpa using h.taken_nodup.append (List.nodup_singleton k) (by simpa using fun hs => hfit (.inr hs))
  | wake => exact ⟨h.stored_nodup,h.taken_nodup,h.acted_lt,h.phase_lt,h.returned_lt,h.alone,h.open_,
      h.fits,h.results⟩
  | sendToken t k m timeout a ht ha =>
    have hfit := h.fits t
    rw [ht] at hfit
    exact h.goto (k := k) (by rw [ht]; rfl) rfl rfl hfit (.of_eq k rfl rfl) h.stored_nodup h.taken_nodup
      rfl rfl
  | recvToken t k timeout b ht hb =>
    have hfit := h.fits t
    rw [ht] at hfit
    exact h.goto (k := k) (by rw [ht]; rfl) rfl rfl hfit (.of_eq k rfl rfl) h.stored_nodup h.taken_nodup
      rfl rfl
  | sent t k ht =>
    have hfit := h.fits t
    exact h.ret (k := k) (by rw [ht]; rfl) (by simp_all [Phase.Fits,Result.Fits]) rfl rfl rfl rfl rfl
  | empty t k ht h0 =>
    have hfit := h.fits t
    exact h.ret (k := k) (by rw [ht]; rfl) (by simp_all [Phase.Fits,Result.Fits,State.Acted]) rfl rfl
      rfl rfl rfl
  | got t k msg ht =>
    have hfit := h.fits t
    exact h.ret (k := k) (by rw [ht]; rfl) (by simp_all [Phase.Fits,Result.Fits]) rfl rfl rfl rfl rfl

/-! ### Runs -/

structure Inv (s : State n M) : Prop where
  tokens : ∃ a b,Tokens s a b
  fifo : Fifo s
  calls : Calls s

theorem Inv.init {size : ℕ} (hpos : 0 < size) (hle : size ≤ 2147483647) :
    Inv (fixqInit size : State n M) := by
  refine ⟨⟨size,0,rfl,rfl,?_,Nat.zero_le _,hle⟩,⟨hpos,(Nat.zero_mod size).symm,rfl,rfl⟩,
    ⟨List.nodup_nil,List.nodup_nil,?_,?_,?_,?_,?_,fun _ => trivial,?_⟩⟩
  · simp [fixqInit,tally,Phase.holdsSend,Phase.owesSend]
  all_goals simp [fixqInit,State.Acted,Phase.call]

theorem Inv.step {s : State n M} (h : Inv s) (c : Step n M) : Inv (s.step c) := by
  obtain ⟨a,b,ht⟩ := h.tokens
  have hm := step_move s c
  exact ⟨ht.move hm,h.fifo.move ht hm,h.calls.move hm⟩

theorem Inv.run {s : State n M} (h : Inv s) (steps : List (Step n M)) : Inv (s.run steps) := by
  induction steps generalizing s with
  | nil => exact h
  | cons c steps ih => exact ih (h.step c)

theorem size_move {s s' : State n M} (h : Move s s') : s'.size = s.size := by
  cases h with
  | take t k ht h0 => rw [State.take,if_neg h0]; rfl
  | _ => rfl

theorem size_run (s : State n M) (steps : List (Step n M)) : (s.run steps).size = s.size := by
  induction steps generalizing s with
  | nil => rfl
  | cons c steps ih => exact (ih _).trans (size_move (step_move s c))

/-- A thread between the first lock section of `fixq_send` and its return. -/
def Phase.sending : Phase M → Bool
  | .sendCheck _ _ _ | .sendWait _ _ _ | .sendPut _ _ | .sendNotify _ => true
  | _ => false

def Phase.hasToken : Phase M → Bool
  | .recvTake _ => true
  | _ => false

/-- A receiver that waits for ever. -/
def State.Blocked (s : State n M) (t : Fin n) : Prop :=
  s.recvSem = some 0 ∧ ∃ k,s.phase t = .recvWait k 0

/-- Receivers that hold a token of `recv_sem`. -/
def State.tokenHolders (s : State n M) : ℕ := (Finset.univ.filter fun t => (s.phase t).hasToken).card

theorem tokenHolders_eq (s : State n M) : tally Phase.holdsRecv s.phase = s.tokenHolders := by
  have hone : ∀ p : Phase M,p.holdsRecv = if p.hasToken = true then 1 else 0 := by
    intro p
    cases p <;> rfl
  exact tally_eq_card hone s.phase

theorem owesRecv_of_idle {s : State n M} (h : ∀ t,(s.phase t).sending = false) :
    tally Phase.owesRecv s.phase = 0 := by
  refine Finset.sum_eq_zero fun t _ => ?_
  have ht := h t
  cases hp : s.phase t <;> simp_all [Phase.sending,Phase.owesRecv]

/-- The queue between any number of threads, in any interleaving, with any timeouts and wake-ups. -/
theorem fixq_linearizable {size : ℕ} (hpos : 0 < size) (hle : size ≤ 2147483647)
    (steps : List (Step n M)) :
    let s := (fixqInit size : State n M).run steps
    s.count ≤ size ∧ s.overwritten = false ∧
      s.taken.map Prod.snd <+: s.stored.map (fun x => some x.2) ∧
      (s.stored.map Prod.fst).Nodup ∧ (s.taken.map Prod.fst).Nodup ∧
      (∀ k err,(k,.sent err) ∈ s.returned → (err = .ok ↔ k ∈ s.stored.map Prod.fst)) ∧
      (∀ k m,(k,.got (some m)) ∈ s.returned → (k,some m) ∈ s.taken) ∧
      (∀ k,(k,.got none) ∈ s.returned → k ∉ s.taken.map Prod.fst) ∧
      ((∀ t,(s.phase t).sending = false) → ∃ tokens,s.recvSem = some tokens ∧
        s.count ≤ tokens+s.tokenHolders ∧ ∀ t,s.Blocked t → s.count ≤ s.tokenHolders) := by
  intro s
  have hI : Inv s := (Inv.init hpos hle).run steps
  obtain ⟨⟨a,b,ht⟩,hf,hc⟩ := hI
  have hsize : s.size = size := size_run _ steps
  have hsome : ∀ k msg,(k,msg) ∈ s.taken → msg ≠ none := by
    rintro k msg hk rfl
    have hmem : none ∈ s.stored.map (fun x => some x.2) := by
      rw [hf.fifo]
      exact List.mem_append_left _ (List.mem_map.2 ⟨_,hk,rfl⟩)
    simp at hmem
  refine ⟨hsize ▸ ht.count_le,hf.kept,⟨_,hf.fifo.symm⟩,hc.stored_nodup,hc.taken_nodup,
    fun k err hk => hc.results k _ hk,fun k m hk => ?_,fun k hk => ?_,fun hidle => ?_⟩
  · rcases hc.results k _ hk with hk | ⟨hn,-⟩
    · exact hk
    · simp at hn
  · rcases hc.results k _ hk with hk | ⟨-,hk⟩
    · exact (hsome k none hk rfl).elim
    · exact hk
  · have hnews := ht.news
    rw [owesRecv_of_idle hidle,tokenHolders_eq] at hnews
    refine ⟨b,ht.recv,hnews,fun t hb => ?_⟩
    have hzero : b = 0 := Option.some.inj (ht.recv.symm.trans hb.1)
    omega

/-- A queue of one cell and a message from thread 2, with two receivers of which the first has got
the token. -/
def handedOver : List (Step 3 ℕ) :=
  [.recv 0 0,.recv 1 0,.send 2 (some 7) 0,.go 2 false,.go 2 false,.go 2 false,.go 0 false]

/-- While that receiver is on its way to the lock, the message is queued and the other receiver is
blocked. -/
theorem blocked_beside_message :
    let s := (fixqInit 1 : State 3 ℕ).run handedOver
    (∀ t,(s.phase t).sending = false) ∧ s.count = 1 ∧ s.tokenHolders = 1 ∧ s.Blocked 1 :=
  ⟨by decide,rfl,by decide,rfl,1,rfl⟩

theorem fixq_linearizable_handed_over :
    ((fixqInit 1 : State 3 ℕ).run handedOver).count ≤ 1 :=
  (fixq_linearizable (by decide) (by decide) handedOver).1

/-- While no call is past its wait, senders block only at a full queue and receivers only at an
empty one. -/
theorem fixq_blocks {size : ℕ} (hpos : 0 < size) (hle : size ≤ 2147483647) (steps : List (Step n M)) :
    let s := (fixqInit size : State n M).run steps
    (∀ t,s.phase t = .idle ∨ ∃ k,(s.phase t).waiting = some k) →
      s.sendSem = some (size-s.count) ∧ (s.recvSem = some 0 → s.count = 0) := by
  intro s hrest
  obtain ⟨⟨a,b,ht⟩,-,-⟩ : Inv s := (Inv.init hpos hle).run steps
  have hsize : s.size = size := size_run _ steps
  have hw t : (s.phase t).holdsSend = 0 ∧ (s.phase t).owesSend = 0 ∧ (s.phase t).holdsRecv = 0 ∧
      (s.phase t).owesRecv = 0 :=
    (hrest t).elim (fun h => h ▸ ⟨rfl,rfl,rfl,rfl⟩) fun ⟨_,h⟩ => waiting_weights h
  have hroom := ht.room
  have hnews := ht.news
  simp only [tally,hw,Finset.sum_const_zero] at hroom hnews
  rw [ht.send,ht.recv,Option.some_inj,Option.some_inj]
  omega

/-- The cell is full, and the next sender has to wait. -/
theorem fixq_blocks_full : ((fixqInit 1 : State 1 ℕ).run (.send 0 (some 7) 0 ::
    List.replicate 3 (.go 0 false)++[.send 0 (some 8) 0])).sendSem = some 0 :=
  (fixq_blocks (by decide) (by decide) _ fun t => .inr ⟨1,by rw [Subsingleton.elim t 0]; rfl⟩).1

end Fixq
end QuardStarNet
