import QuardStarNet.NetBase
import QuardStarNet.RingBuffer

/-! The executor of `net_exec.c` on its queue of `fixq.c`: any number of threads submit
requests with timeouts and one worker runs them. Every step is one lock section or one
operation on a semaphore. -/
namespace QuardStarNet
namespace NetExec

/-- Indices below `NET_EXEC_QUEUE_SIZE`. -/
abbrev ReqId := Fin 8

/-- `sys_sem_wait` where others act in between; `none` is a wait that goes on. A wait with
a positive timeout may end by it at any time, also when a token has just arrived. -/
def sysSemTimedWait (sem : Sem) (timeoutMs : ℤ) (expired : Bool) : Option (Sem × NetErr) :=
  if 0 < timeoutMs ∧ expired ∧ sem ≠ none then some (sem,.tmo)
  else if 0 < timeoutMs then sysSemWait sem 0
  else sysSemWait sem timeoutMs

/-- `net_exec_req_t`, with the number of the call that filled it in. -/
structure Req (P A : Type) where
  proc : Option P
  arg : Option A
  done : Sem
  completed : Bool
  abandoned : Bool
  started : Bool
  call : ℕ

/-- The arguments of a call of `net_exec_submit`, and its number. -/
structure Job (P A : Type) where
  call : ℕ
  proc : P
  arg : A
  timeoutMs : ℤ

/-- Where a call of `net_exec_submit` that has a request is: in `fixq_send` up to
`sendNotify`, then at the waits for `done` and at the lock sections that follow them. -/
inductive Stage
  | sendCheck | sendWait | sendPut | sendNotify | sendFailed (err : NetErr)
  | wait | check (err : NetErr) | waitAgain | final (err : NetErr)
  deriving DecidableEq

inductive Thread (P A : Type)
  | idle
  | reserve (j : Job P A)
  | within (j : Job P A) (i : ReqId) (stage : Stage)

/-- Where the worker is in `net_exec_run_once`; `running` and `ran` keep the number of the
call whose `proc` was entered. -/
inductive Worker
  | idle | recvWait | recvTake
  | recvNotify (i : ReqId)
  | got (i : ReqId)
  | run (i : ReqId)
  | running (i : ReqId) (call : ℕ)
  | ran (i : ReqId)
  deriving DecidableEq

/-- What can be seen from outside: calls and their returns, and the beginning and the end of
each run of a `proc`. -/
inductive Event (P A : Type)
  | call (k : ℕ) (proc : Option P) (arg : A)
  | enter (k : ℕ) (proc : P) (arg : A)
  | leave (k : ℕ)
  | ret (k : ℕ) (err : NetErr)
  deriving DecidableEq

def Event.call? {P A : Type} : Event P A → ℕ
  | .call k _ _ | .enter k _ _ | .leave k | .ret k _ => k

/-- The static data of `net_exec.c`, the threads and the worker, and what happened so far. -/
structure Exec (T P A : Type) where
  requests : ReqId → Req P A
  queue : Ring ReqId 8
  sendSem : Sem
  recvSem : Sem
  threads : T → Thread P A
  worker : Worker
  calls : ℕ
  trace : List (Event P A)

/-- A thread calls `net_exec_submit`, a thread goes on, or the worker goes on. -/
inductive Step (T P A : Type)
  | submit (t : T) (proc : Option P) (arg : A) (timeoutMs : ℤ)
  | thread (t : T) (expired : Bool)
  | worker

namespace Exec

variable {T P A : Type}

/-- The state after `net_exec_init`. -/
def init : Exec T P A where
  requests _ := ⟨none,none,some 0,false,false,false,0⟩
  queue := .zeroed (by decide)
  sendSem := some 8
  recvSem := some 0
  threads _ := .idle
  worker := .idle
  calls := 0
  trace := []

variable (s : Exec T P A)

def setReq (i : ReqId) (r : Req P A) : Exec T P A := { s with requests := Function.update s.requests i r }

def log (e : Event P A) : Exec T P A := { s with trace := s.trace++[e] }

def setWorker (w : Worker) : Exec T P A := { s with worker := w }

/-- The worker calls the `proc` that it finds in the request. -/
def enter (i : ReqId) : Exec T P A :=
  let r := s.requests i
  match r.proc, r.arg with
  | some p, some a => (s.log (.enter r.call p a)).setWorker (.running i r.call)
  | _, _ => s

/-- One step of `net_exec_run_once`, or the start of the next call of it. -/
def work : Exec T P A :=
  match s.worker with
  | .idle => if s.queue.count = 0 then s else s.setWorker .recvWait
  | .recvWait =>
    let r := sysSemPoll s.recvSem
    if r.2 = .ok then { s with recvSem := r.1 }.setWorker .recvTake else s.setWorker .idle
  | .recvTake =>
    if h : 0 < s.queue.count then { s with queue := s.queue.pop h }.setWorker (.recvNotify (s.queue.cell 0))
    else s.setWorker .idle
  | .recvNotify i => { s with sendSem := sysSemNotify s.sendSem }.setWorker (.got i)
  | .got i =>
    let r := s.requests i
    if r.abandoned then (s.setReq i { r with proc := none }).setWorker .idle
    else (s.setReq i { r with started := true }).setWorker (.run i)
  | .run i => s.enter i
  | .running i k => (s.log (.leave k)).setWorker (.ran i)
  | .ran i =>
    let r := s.requests i
    (s.setReq i (if r.abandoned then { r with proc := none }
      else { r with completed := true, done := sysSemNotify r.done })).setWorker .idle

variable [DecidableEq T]

def goto (t : T) (pc : Thread P A) : Exec T P A := { s with threads := Function.update s.threads t pc }

/-- The call of thread `t` returns. -/
def ret (t : T) (k : ℕ) (err : NetErr) : Exec T P A := (s.goto t .idle).log (.ret k err)

def submit (t : T) (proc : Option P) (arg : A) (timeoutMs : ℤ) : Exec T P A :=
  match s.threads t with
  | .idle =>
    let s' : Exec T P A := { s.log (.call s.calls proc arg) with calls := s.calls+1 }
    match proc with
    | none => s'.ret t s.calls .param
    | some p => s'.goto t (.reserve ⟨s.calls,p,arg,timeoutMs⟩)
  | _ => s

/-- The first lock section of `net_exec_submit`. -/
def reserve (t : T) (j : Job P A) : Exec T P A :=
  match (List.finRange 8).find? fun i => (s.requests i).proc.isNone with
  | none => s.ret t j.call .full
  | some i =>
    (s.setReq i { s.requests i with
      proc := some j.proc
      arg := some j.arg
      completed := false
      abandoned := false
      started := false
      call := j.call }).goto t (.within j i (if j.timeoutMs < 0 then .sendCheck else .sendWait))

/-- The end of `net_exec_submit`, in the lock section. -/
def finish (t : T) (j : Job P A) (i : ReqId) (err : NetErr) : Exec T P A :=
  let r := s.requests i
  if r.completed then
    (s.setReq i { r with
      done := if err ≠ .ok then (sysSemPoll r.done).1 else r.done
      proc := none }).ret t j.call .ok
  else (s.setReq i { r with abandoned := true }).ret t j.call err

/-- The thread waits on a semaphore, stored by `put`, and goes on with the result. -/
def waitOn (sem : Sem) (timeoutMs : ℤ) (expired : Bool) (put : Sem → Exec T P A) (t : T) (next : NetErr → Thread P A) :
    Exec T P A :=
  match sysSemTimedWait sem timeoutMs expired with
  | none => s
  | some r => (put r.1).goto t (next r.2)

def within (t : T) (j : Job P A) (i : ReqId) (expired : Bool) : Stage → Exec T P A
  | .sendCheck => s.goto t (.within j i (if s.queue.count = 8 then .sendFailed .full else .sendWait))
  | .sendWait =>
    s.waitOn s.sendSem j.timeoutMs expired (fun sem => { s with sendSem := sem }) t fun err =>
      .within j i (if err = .ok then .sendPut
        else .sendFailed (if j.timeoutMs < 0 ∧ err = .tmo then .full else err))
  | .sendPut =>
    -- the queue has a place for every request, so that this test is never false
    if h : s.queue.count < 8 then { s with queue := s.queue.push i h }.goto t (.within j i .sendNotify) else s
  | .sendNotify => { s with recvSem := sysSemNotify s.recvSem }.goto t (.within j i .wait)
  | .sendFailed err => (s.setReq i { s.requests i with proc := none }).ret t j.call err
  | .wait =>
    s.waitOn (s.requests i).done j.timeoutMs expired (fun sem => s.setReq i { s.requests i with done := sem }) t
      fun err => .within j i (.check err)
  | .check err =>
    let r := s.requests i
    if err ≠ .ok ∧ r.started ∧ ¬r.completed then s.goto t (.within j i .waitAgain) else s.finish t j i err
  | .waitAgain =>
    s.waitOn (s.requests i).done 0 expired (fun sem => s.setReq i { s.requests i with done := sem }) t
      fun err => .within j i (.final err)
  | .final err => s.finish t j i err

def thread (t : T) (expired : Bool) : Exec T P A :=
  match s.threads t with
  | .idle => s
  | .reserve j => s.reserve t j
  | .within j i stage => s.within t j i expired stage

def step : Step T P A → Exec T P A
  | .submit t proc arg timeoutMs => s.submit t proc arg timeoutMs
  | .thread t expired => s.thread t expired
  | .worker => s.work

def run (steps : List (Step T P A)) : Exec T P A := steps.foldl (fun s c => s.step c) s

end Exec
end NetExec
end QuardStarNet
