import QuardStarNet.TcpApiMoves

/-! Runs of the TCP module: any sequence of lock sections of its calls, of timer
callbacks and of arriving segments, with any failures of the packet pool and of the
interfaces. The invariant holds in every state of every run. -/
namespace QuardStarNet
namespace Tcp

/-- One lock section of the TCP module. A call that blocks is several actions, and the
tokens it takes from a semaphore are actions of their own. -/
inductive Action
  | tcpOpen (socketAttached : Bool)
  | tcpBind (i : Slot) (netif : Netif) (localIp : IpAddr) (port : Port)
  | tcpListen (i : Slot) (backlog : ℤ)
  | tcpAcceptAcquire (i : Slot)
  | tcpAcceptPeek (i : Slot)
  | acceptToken (i : Slot)
  | tcpAcceptCommit (i child : Slot)
  | tcpAcceptRelease (i : Slot)
  | tcpAcceptReleaseChild (i child : Slot)
  | tcpConnectStart (i : Slot) (netif : Netif) (remote : IpAddr) (remotePort : Port)
  | tcpSendStart (i : Slot) (data : List Byte)
  | tcpWaitAcquire (i : Slot) (w : Pcb.Wait)
  | waitToken (i : Slot) (w : Pcb.Wait)
  | waitLeave (i : Slot) (w : Pcb.Wait)
  | tcpRecvAcquire (i : Slot)
  | tcpRecvTake (i : Slot) (size : ℕ)
  | recvToken (i : Slot)
  | tcpRecvLeave (i : Slot)
  | tcpClose (i : Slot)
  | tcpSocketDetach (i : Slot)
  | tcpRetransmitDue (i : Slot)
  | tcpTimeWaitProc (i : Slot)
  | tcpReleaseProc (i : Slot)
  | tcpIn (netif : NetifId) (src dest : IpAddr) (buf : List Byte)

namespace Table

variable (t : Table)

/-- A reader takes bytes from a ring that is not empty. -/
def recvTake (i : Slot) (size : ℕ) : Table × List Byte :=
  match (t.storage i).tcpRecvTake size with
  | none => (t,[])
  | some r => (t.modify i fun _ => r.1,r.2)

def act : Action → Table
  | .tcpOpen a => (t.tcpAlloc a).1
  | .tcpBind i netif localIp port => (t.tcpBind i netif localIp port).1
  | .tcpListen i backlog => (t.tcpListen i backlog).1
  | .tcpAcceptAcquire i => (t.tcpAcceptAcquire i).1
  | .tcpAcceptPeek i => (t.tcpAcceptPeek i).1
  | .acceptToken i => t.modify i fun p => { p with acceptDone := (sysSemPoll p.acceptDone).1 }
  | .tcpAcceptCommit i child => (t.tcpAcceptCommitAcquired i child).1
  | .tcpAcceptRelease i => (t.tcpAcceptReleaseAcquired i).1
  | .tcpAcceptReleaseChild i child => (t.tcpAcceptReleaseChildAcquired i child).1
  | .tcpConnectStart i netif remote remotePort => (t.tcpConnectStart i netif remote remotePort).1
  | .tcpSendStart i data => (t.tcpSendStart i data).1
  | .tcpWaitAcquire i w => (t.tcpWaitAcquire i w).1
  | .waitToken i w => t.modify i fun p => p.setDone w (sysSemPoll (p.done w)).1
  | .waitLeave i w => t.modify i fun p => p.addWaiters w (-1)
  | .tcpRecvAcquire i => (t.tcpRecvAcquire i).1
  | .tcpRecvTake i size => (t.recvTake i size).1
  | .recvToken i => t.modify i fun p => { p with recvDone := (sysSemPoll p.recvDone).1 }
  | .tcpRecvLeave i => t.modify i Pcb.tcpRecvLeave
  | .tcpClose i => (t.tcpClose i).1
  | .tcpSocketDetach i => (t.tcpSocketDetach i).1
  | .tcpRetransmitDue i => (t.tcpRetransmitDue i).1
  | .tcpTimeWaitProc i => t.tcpTimeWaitProc i
  | .tcpReleaseProc i => t.tcpReleaseProc i
  | .tcpIn netif src dest buf => (t.tcpIn netif src dest buf).1

/-- The outcomes that the packet pool and the interfaces have in store. -/
def supply (fates : List NetErr) : Table := { t with link := { t.link with fates := fates } }

/-- An action with the outcomes of the allocations and transmissions it attempts. -/
abbrev Step := List NetErr × Action

def step (s : Step) : Table := (t.supply s.1).act s.2

def run (steps : List Step) : Table := steps.foldl step t

end Table

variable {t t' : Table} {i j l : Slot}

section Users

theorem Inv.congr (h : Inv t) (hs : t'.storage = t.storage) (hp : t'.pcbs = t.pcbs)
    (hd : t'.detachedListeners = t.detachedListeners) : Inv t' := by
  refine ⟨h.links.keeps hp hd (fun j _ => ?_) fun j hj => ?_,fun j hj => ?_⟩
  · rw [hs]
    exact .refl _
  · rw [hs,h.links.opened,hj]
  · rw [hs]
    exact h.sound j (by rwa [← hp])

theorem Inv.supply (h : Inv t) (fates : List NetErr) : Inv (t.supply fates) := h.congr rfl rfl rfl

theorem Inv.addWaiters (h : Inv t) (i : Slot) (w : Pcb.Wait) (n : ℤ) :
    Inv (t.modify i fun p => p.addWaiters w n) := by
  cases w
  · exact h.users (i := i) rfl rfl rfl rfl
  · exact h.users (i := i) rfl rfl rfl rfl

theorem Pcb.waitAcquire_cases (p : Pcb) (w : Pcb.Wait) :
    (∃ e, e ≠ .ok ∧ p.tcpWaitCompletionAcquire w = (p,e)) ∨
      p.tcpWaitCompletionAcquire w = (p.addWaiters w 1,.ok) := by
  unfold Pcb.tcpWaitCompletionAcquire
  split_ifs with h₁ h₂ h₃
  · exact .inl ⟨.state,by simp,rfl⟩
  · exact .inr rfl
  · exact .inl ⟨p.error,h₃,rfl⟩
  · exact .inl ⟨.state,by simp,rfl⟩
  · exact .inr rfl
  · exact .inl ⟨.state,by simp,rfl⟩
  · exact .inr rfl

theorem Pcb.recvAcquire_cases (p : Pcb) :
    (∃ e, e ≠ .ok ∧ p.tcpRecvAcquire = (p,e)) ∨
      p.tcpRecvAcquire = ({ p with recvWaiters := p.recvWaiters+1 },.ok) := by
  unfold Pcb.tcpRecvAcquire
  split_ifs with h₁ h₂ h₃
  · exact .inl ⟨.state,by simp,rfl⟩
  · exact .inl ⟨p.error,h₃,rfl⟩
  · exact .inl ⟨.state,by simp,rfl⟩
  · exact .inr rfl

/-- Acquiring a wait adds one waiter or changes nothing. -/
theorem tcpWaitAcquire_cases (t : Table) (i : Slot) (w : Pcb.Wait) :
    (∃ e, e ≠ .ok ∧ t.tcpWaitAcquire i w = (t,e)) ∨
      t.pcbs i = true ∧ t.tcpWaitAcquire i w = (t.modify i fun p => p.addWaiters w 1,.ok) := by
  unfold Table.tcpWaitAcquire
  split
  next => exact .inl ⟨.param,by simp,rfl⟩
  next hi =>
    rw [not_not] at hi
    rcases (t.storage i).waitAcquire_cases w with ⟨e,he,hr⟩ | hr
    · exact .inl ⟨e,he,by simp [Table.onPcb,Table.onConn,Table.conn,Table.setConn,hr]⟩
    · exact .inr ⟨hi,by simp [Table.onPcb,Table.onConn,Table.conn,Table.setConn,Table.modify,hr]⟩

theorem tcpRecvAcquire_cases (t : Table) (i : Slot) :
    (∃ e, e ≠ .ok ∧ t.tcpRecvAcquire i = (t,e)) ∨
      t.pcbs i = true ∧
        t.tcpRecvAcquire i = (t.modify i fun p => { p with recvWaiters := p.recvWaiters+1 },.ok) := by
  unfold Table.tcpRecvAcquire
  split
  next => exact .inl ⟨.param,by simp,rfl⟩
  next hi =>
    rw [not_not] at hi
    rcases (t.storage i).recvAcquire_cases with ⟨e,he,hr⟩ | hr
    · exact .inl ⟨e,he,by simp [Table.onPcb,Table.onConn,Table.conn,Table.setConn,hr]⟩
    · exact .inr ⟨hi,by simp [Table.onPcb,Table.onConn,Table.conn,Table.setConn,Table.modify,hr]⟩

theorem Inv.waitAcquire (h : Inv t) (i : Slot) (w : Pcb.Wait) : Inv (t.tcpWaitAcquire i w).1 := by
  rcases tcpWaitAcquire_cases t i w with ⟨e,-,he⟩ | ⟨-,he⟩
  · rwa [he]
  · rw [he]
    exact h.addWaiters i w 1

theorem Inv.recvAcquire (h : Inv t) (i : Slot) : Inv (t.tcpRecvAcquire i).1 := by
  rcases tcpRecvAcquire_cases t i with ⟨e,-,he⟩ | ⟨-,he⟩
  · rwa [he]
  · rw [he]
    exact h.users (i := i) rfl rfl rfl rfl

theorem Inv.recvTake (h : Inv t) (i : Slot) (size : ℕ) : Inv (t.recvTake i size).1 := by
  unfold Table.recvTake Pcb.tcpRecvTake
  by_cases hc : (t.storage i).recv.count = 0
  · simpa [hc] using h
  · simp only [hc,if_false]
    exact h.users (i := i) rfl rfl rfl rfl

theorem Inv.waitToken (h : Inv t) (i : Slot) (w : Pcb.Wait) :
    Inv (t.modify i fun p => p.setDone w (sysSemPoll (p.done w)).1) := by
  cases w
  · exact h.users (i := i) rfl rfl rfl rfl
  · exact h.users (i := i) rfl rfl rfl rfl

/-- The tests of `tcp_socket_detach`. -/
def Table.Detachable (t : Table) (i : Slot) : Prop :=
  t.pcbs i = true ∧ (t.storage i).socketAttached = true ∧
    (t.modify i fun p => { p with socketAttached := false }).tcpReleasable i = true

theorem tcpSocketDetach_cases (t : Table) (i : Slot) :
    (∃ e, e ≠ .ok ∧ t.tcpSocketDetach i = (t,e)) ∨
      t.Detachable i ∧
        t.tcpSocketDetach i = (t.modify i fun p => { p with socketAttached := false }).tcpReleaseNow i ∧
        (t.tcpSocketDetach i).2 = .ok := by
  unfold Table.tcpSocketDetach
  split
  next => exact .inl ⟨.param,by simp,rfl⟩
  next hi =>
  rw [not_not] at hi
  simp only
  split
  next => exact .inl ⟨.state,by simp,rfl⟩
  next hu =>
    rw [not_not] at hu
    obtain ⟨-,h2,h3,h4,h5,h6,h7,h8,h9,h10⟩ := hu
    have hch : (t.modify i fun p => { p with socketAttached := false }).tcpListenerHasChildren i =
        t.tcpListenerHasChildren i := by
      simp only [Table.tcpListenerHasChildren,Table.modify]
      congr 1
      funext j
      by_cases hj : j = i
      · simp [hj]
      · simp [hj]
    have hr : (t.modify i fun p => { p with socketAttached := false }).tcpReleasable i = true := by
      simp only [Table.tcpReleasable,hch,decide_eq_true_eq]
      simp only [Table.modify,Function.update_self]
      exact ⟨h3,by simp,h4,h5,h7,h8,h9,h10,h6⟩
    have hi' : (t.modify i fun p => { p with socketAttached := false }).pcbs i = true := hi
    refine .inr ⟨⟨hi,h2,hr⟩,rfl,?_⟩
    simp [Table.tcpReleaseNow,hi',hr]

theorem Inv.unattached (h : Inv t) (hi : t.pcbs i = true) :
    Inv (t.modify i fun p => { p with socketAttached := false }) := by
  have hS := h.sound i hi
  exact h.modify hi { t.storage i with socketAttached := false }
    ⟨rfl,rfl,fun _ => ⟨rfl,rfl,rfl⟩,fun _ hf => ⟨hf.1,hf.2.1,rfl,hf.2.2.2⟩,.inl rfl⟩
    ⟨hS.owned,hS.idle,hS.settled,hS.opening,hS.closing,hS.timer,hS.pending⟩ rfl rfl rfl

theorem Inv.socketDetach (h : Inv t) (i : Slot) : Inv (t.tcpSocketDetach i).1 := by
  rcases tcpSocketDetach_cases t i with ⟨e,-,he⟩ | ⟨hd,he,-⟩
  · rwa [he]
  · rw [he]
    exact (h.unattached hd.1).moves (releaseNow_moves none _ i)

end Users

section Step

theorem Inv.init : Inv tcpInit := by
  refine ⟨⟨fun _ => rfl,fun _ _ => rfl,?_,?_,?_,?_,?_⟩,?_⟩ <;> simp [tcpInit,Table.IsChild,Table.Listening]

theorem Inv.tcpIn (h : Inv t) (netif : NetifId) (src dest : IpAddr) (buf : List Byte) :
    Inv (t.tcpIn netif src dest buf).1 := by
  unfold Table.tcpIn
  split
  next => exact h
  next s _ =>
    split
    next => exact h
    next => exact .arrival (inSegment_arrival h s netif src dest) h

theorem Inv.act (h : Inv t) (a : Action) : Inv (t.act a) := by
  cases a with
  | tcpOpen a =>
    rcases tcpAlloc_cases none t a with ⟨t',he,hm⟩ | ⟨j,x,y,z,k,he,hj,-⟩
    · simpa [Table.act,he] using h.moves hm
    · simpa [Table.act,he] using h.allocated hj a x y z k
  | tcpBind i netif ip port => exact h.moves (bind_moves none t i netif ip port)
  | tcpListen i b =>
    rcases tcpListen_cases none t i b with ⟨t',e,he,hm⟩ | ⟨a,k,he,hi,-,hs,hone,hb,hb',-⟩
    · simpa [Table.act,he] using h.moves hm
    · simpa [Table.act,he] using h.listening hi hs hone ⟨hb,hb'⟩ a k
  | tcpAcceptAcquire i => exact h.acceptAcquire i
  | tcpAcceptPeek i => exact h.acceptPeek i
  | acceptToken i => exact h.users (i := i) rfl rfl rfl rfl
  | tcpAcceptCommit i c =>
    rcases acceptCommit_cases h i c with ⟨e,-,he⟩ | ⟨hc,he⟩
    · simpa [Table.act,he] using h
    · simpa [Table.act,he] using h.accepted hc
  | tcpAcceptRelease i => exact h.acceptRelease i
  | tcpAcceptReleaseChild i c => exact h.acceptReleaseChild i c
  | tcpConnectStart i netif remote port =>
    rcases tcpConnectStart_cases none h i netif remote port with
      ⟨t',e,he,-,hm⟩ | ⟨p,n,k,e,he,hi,hc,-⟩
    · simpa [Table.act,he] using h.moves hm
    · simpa [Table.act,he] using h.connected hi hc netif remote p port n k e
  | tcpSendStart i data =>
    rcases tcpSendStart_cases none h i data with ⟨t',e,he,-,-,hm⟩ | ⟨k,he,hi,hs,h1,h2,-⟩
    · simpa [Table.act,he] using h.moves hm
    · simpa [Table.act,he] using h.sending hi hs ⟨h1,h2⟩ k
  | tcpWaitAcquire i w => exact h.waitAcquire i w
  | waitToken i w => exact h.waitToken i w
  | waitLeave i w => exact h.addWaiters i w (-1)
  | tcpRecvAcquire i => exact h.recvAcquire i
  | tcpRecvTake i n => exact h.recvTake i n
  | recvToken i => exact h.users (i := i) rfl rfl rfl rfl
  | tcpRecvLeave i => exact h.users (i := i) rfl rfl rfl rfl
  | tcpClose i => exact h.moves (close_moves none h i)
  | tcpSocketDetach i => exact h.socketDetach i
  | tcpRetransmitDue i => exact h.moves (retransmitDue_moves none h i)
  | tcpTimeWaitProc i => exact h.moves (timeWaitProc_moves none h i)
  | tcpReleaseProc i => exact h.moves (releaseProc_moves none h i)
  | tcpIn netif src dest buf => exact h.tcpIn netif src dest buf

theorem Inv.step (h : Inv t) (s : Table.Step) : Inv (t.step s) := (h.supply s.1).act s.2

theorem Inv.run (h : Inv t) (steps : List Table.Step) : Inv (t.run steps) := by
  induction steps generalizing t with
  | nil => exact h
  | cons s steps ih => exact ih (h.step s)

end Step

/-- Sequence numbers that an outstanding segment takes. -/
theorem Pcb.Sound.span {p : Pcb} (h : p.Sound) {seg : Segment} (ho : p.outstanding = some seg) :
    (p.sndNxt-p.sndUna).toNat = (if seg.has flagSyn ∨ seg.has flagFin then 1 else seg.payload.length) ∧
      (¬(seg.has flagSyn ∨ seg.has flagFin) → 1 ≤ seg.payload.length ∧ seg.payload.length ≤ mss) := by
  obtain ⟨hown,-,-,hn,-⟩ := h.owned seg ho
  have hlen : (if seg.has flagSyn ∨ seg.has flagFin then 1 else seg.payload.length) = seg.seqLength := rfl
  have hdata : ¬(seg.has flagSyn ∨ seg.has flagFin) → 1 ≤ seg.payload.length ∧ seg.payload.length ≤ mss := by
    intro hf
    -- only the segment of ESTABLISHED carries neither SYN nor FIN
    cases hs : p.state <;> simp only [hs,Owns] at hown
    case established => exact hown.2
    all_goals
      refine absurd ?_ hf
      rw [Segment.has,Segment.has,hown.1]
      decide
  refine ⟨?_,hdata⟩
  have hlt : seg.seqLength < 2^32 := by
    unfold Segment.seqLength
    split
    next => decide
    next hf =>
      have := (hdata hf).2
      simp only [mss] at this
      omega
  rw [hlen,hn,BitVec.add_comm,BitVec.add_sub_cancel,BitVec.toNat_ofNat,Nat.mod_eq_of_lt hlt]

/-- The bookkeeping of every live block in every state of every run. -/
theorem run_block_sound (steps : List Table.Step) (i : Slot) (hi : (tcpInit.run steps).pcbs i = true) :
    let p := (tcpInit.run steps).storage i
    (∀ seg, p.outstanding = some seg →
      p.outstandingEnd = p.sndNxt ∧
      (p.sndNxt-p.sndUna).toNat = (if seg.has flagSyn ∨ seg.has flagFin then 1 else seg.payload.length) ∧
      (¬(seg.has flagSyn ∨ seg.has flagFin) → 1 ≤ seg.payload.length ∧ seg.payload.length ≤ mss) ∧
      p.retryCount < retryMax ∧ p.retransTimer = true ∧ seg.seq = p.sndUna) ∧
    (p.outstanding = none → p.retransTimer = false) ∧
    (p.state = .synSent ∨ p.state = .synReceived ∨ p.state = .finWait1 → p.outstanding ≠ none) ∧
    (p.state = .closed ∨ p.state = .listen ∨ p.state = .finWait2 ∨ p.state = .timeWait →
      p.outstanding = none) ∧
    (p.outstanding = none → p.state = .established ∨ p.state = .finWait2 ∨ p.state = .timeWait →
      p.sndUna = p.sndNxt) ∧
    (p.state = .established → p.closeRequested = true → p.outstanding ≠ none) ∧
    (p.timeWaitTimer = true ↔ p.state = .timeWait) ∧
    (p.releasePending = true → p.state = .closed ∨ p.state = .listen) := by
  intro p
  have h : p.Sound := (Inv.init.run steps).sound i hi
  refine ⟨fun seg ho => ?_,fun ho => (h.idle ho).1,?_,?_,h.settled,h.closing,h.timer,h.pending⟩
  · obtain ⟨-,hend,hseq,-,hretry,htimer⟩ := h.owned seg ho
    exact ⟨hend,(h.span ho).1,(h.span ho).2,hretry,htimer,hseq⟩
  · rintro (hs | hs | hs) ho
    · exact (h.idle ho).2.1 hs
    · exact (h.idle ho).2.2.1 hs
    · exact (h.idle ho).2.2.2 hs
  · intro hs
    by_contra ho
    obtain ⟨seg,hseg⟩ := Option.ne_none_iff_exists'.1 ho
    have hown := (h.owned seg hseg).1
    rcases hs with hs | hs | hs | hs <;> simp [hs,Owns] at hown

/-- A segment of a peer at 10.0.0.2 to a host at 10.0.0.1. -/
def peerSegment (srcPort destPort : Port) (seq ack : BitVec 32) (flags : Byte) (data : List Byte) : Segment :=
  Segment.withChecksum ⟨srcPort,destPort,seq,ack,0x50,flags,2048,0,0,data⟩ 0x0a000002 0x0a000001

def peerBytes (srcPort destPort : Port) (seq ack : BitVec 32) (flags : Byte) (data : List Byte) : List Byte :=
  (peerSegment srcPort destPort seq ack flags data).bytes

/-- A block that opens a connection has its SYN outstanding. -/
theorem run_block_sound_connect :
    let t := tcpInit.run [([],.tcpOpen true),([],.tcpConnectStart 0 ⟨1,true,0x0a000001⟩ 0x0a000002 80)]
    t.pcbs 0 = true ∧ (t.storage 0).state = .synSent ∧ (t.storage 0).outstanding ≠ none := by
  refine ⟨by decide +kernel,by decide +kernel,?_⟩
  exact (run_block_sound [([],.tcpOpen true),([],.tcpConnectStart 0 ⟨1,true,0x0a000001⟩ 0x0a000002 80)] 0
    (by decide +kernel)).2.2.1 (.inl (by decide +kernel))

end Tcp
end QuardStarNet
