import QuardStarNet.NetBytes

/-! Types shared by the protocol modules: error codes, addresses, counting semaphores,
and the packet pool and interface as the transport layer sees them. -/
namespace QuardStarNet

abbrev Byte := BitVec 8
abbrev IpAddr := BitVec 32
abbrev Port := BitVec 16
abbrev NetifId := ℕ

/-- `net_err_t`. Every code but `ok` is negative. -/
inductive NetErr
  | ok | sys | mem | full | tmo | none | size | param | exist | state | io
  | notSupport | unreach | chksum | format
  deriving DecidableEq

def NetErr.code : NetErr → ℤ
  | .ok => 0
  | .sys => -1
  | .mem => -2
  | .full => -3
  | .tmo => -4
  | .none => -5
  | .size => -6
  | .param => -7
  | .exist => -8
  | .state => -9
  | .io => -10
  | .notSupport => -11
  | .unreach => -14
  | .chksum => -15
  | .format => -28

theorem NetErr.code_neg_iff (e : NetErr) : e.code < 0 ↔ e ≠ .ok := by
  cases e <;> simp [NetErr.code]

/-- The fields of `netif_t` that the transport layer reads. -/
structure Netif where
  id : NetifId
  active : Bool
  ipaddr : IpAddr
  deriving DecidableEq

/-- A semaphore count; `none` is `SYS_SEM_INVALID`. -/
abbrev Sem := Option ℕ

def sysSemNotify : Sem → Sem
  | none => none
  | some n => some (if n < 2147483647 then n+1 else n)

def sysSemNotifyTimes (sem : Sem) : ℕ → Sem
  | 0 => sem
  | n+1 => sysSemNotifyTimes (sysSemNotify sem) n

/-- `sys_sem_wait` in a run where nobody else acts; `none` is a wait that never returns.
A negative timeout polls, zero waits for ever. -/
def sysSemWait (sem : Sem) (timeoutMs : ℤ) : Option (Sem × NetErr) :=
  match sem with
  | none => some (none,.param)
  | some (n+1) => some (some n,.ok)
  | some 0 => if timeoutMs = 0 then none else some (some 0,.tmo)

/-- `sys_sem_wait(sem, -1)`, which never blocks. -/
def sysSemPoll : Sem → Sem × NetErr
  | none => (none,.param)
  | some (n+1) => (some n,.ok)
  | some 0 => (some 0,.tmo)

/-- Take every token, as repeated polls do. -/
def tcpDrainSem : Sem → Sem
  | none => none
  | some _ => some 0

end QuardStarNet
