import QuardStarNet.TcpRun

/-! The order of the accept queue. A queue only loses entries, except when a handshake
completes, which appends its child; so the queue lists its children in the order in which
their handshakes completed. -/
namespace QuardStarNet
namespace Tcp

variable {rx : Option Segment} {t t' t'' : Table} {i j l : Slot}

def Table.queue (t : Table) (l : Slot) : List (Option Slot) := (t.storage l).acceptQueue.contents

/-- No queue gains an entry. -/
def QueueShrinks (t t' : Table) : Prop :=
  ∀ l, t'.Listening l → t'.queue l = [] ∨ t.Listening l ∧ (t'.queue l).Sublist (t.queue l)

namespace QueueShrinks

theorem refl (t : Table) : QueueShrinks t t := fun _ hl => .inr ⟨hl,.refl _⟩

theorem trans (h₁ : QueueShrinks t t') (h₂ : QueueShrinks t' t'') : QueueShrinks t t'' := by
  intro l hl
  rcases h₂ l hl with he | ⟨hl',hs⟩
  · exact .inl he
  rcases h₁ l hl' with he | ⟨hl,hs'⟩
  · rw [he,List.sublist_nil] at hs
    exact .inl hs
  · exact .inr ⟨hl,hs.trans hs'⟩

/-- A change of one slot other than a listener's queue. -/
theorem update (p' : Pcb) (hs : t'.storage = Function.update t.storage i p')
    (hp : ∀ l, l ≠ i → t'.pcbs l = t.pcbs l)
    (hi : t'.pcbs i = true → p'.state = .listen →
      p'.acceptQueue.contents = [] ∨ t.Listening i ∧ p'.acceptQueue = (t.storage i).acceptQueue) :
    QueueShrinks t t' := by
  rintro l ⟨hpl,hsl⟩
  simp only [Table.queue,hs] at hsl ⊢
  by_cases hli : l = i
  · subst l
    rw [Function.update_self] at hsl ⊢
    rcases hi hpl hsl with he | ⟨hl,hq⟩
    · exact .inl he
    · exact .inr ⟨hl,by rw [hq]⟩
  · rw [Function.update_of_ne hli] at hsl ⊢
    exact .inr ⟨⟨(hp l hli).symm.trans hpl,hsl⟩,.refl _⟩

theorem keeps {p' : Pcb} (hk : (t.storage i).Keeps p') (hs : t'.storage = Function.update t.storage i p')
    (hp : t'.pcbs = t.pcbs) : QueueShrinks t t' := by
  refine .update p' hs (fun l _ => by rw [hp]) fun hi hl => ?_
  have hl' := hk.listen_iff.1 hl
  exact .inr ⟨⟨hp ▸ hi,hl'⟩,(hk.accepting hl').1⟩

/-- The detaching of a child takes it out of the queue. -/
theorem detach {p' : Pcb} (hn : (t.queue l).Nodup) (hl : t.Listening l) (hp : p'.state = .closed)
    (hs : t'.storage = Function.update (Function.update t.storage l (Table.dropChild i (t.storage l))) i p')
    (hpcbs : t'.pcbs = t.pcbs) : QueueShrinks t t' := by
  rintro k ⟨hpk,hsk⟩
  simp only [Table.queue,hs] at hsk ⊢
  rw [hpcbs] at hpk
  have hki : k ≠ i := by
    rintro rfl
    simp [hp] at hsk
  rw [Function.update_of_ne hki] at hsk ⊢
  by_cases hkl : k = l
  · subst k
    refine .inr ⟨hl,?_⟩
    rw [Function.update_self,Table.dropChild,Links.removeQueued_contents _ _ hn]
    exact List.erase_sublist
  · rw [Function.update_of_ne hkl] at hsk ⊢
    exact .inr ⟨⟨hpk,hsk⟩,.refl _⟩

theorem move (h : Inv t) (hm : Move rx t t') : QueueShrinks t t' := by
  cases hm with
  | conn hi hc => exact .keeps (Pcb.Tied.connMove hc).keeps rfl rfl
  | aux => exact .refl t
  | @dead i p hi hp => exact .update p rfl (fun _ _ => rfl) fun hi' => by simp [Table.modify,hi] at hi'
  | @pend i hi hl hs =>
    exact .update { t.storage i with releasePending := true } rfl (fun _ _ => rfl)
      fun _ hs' => .inr ⟨⟨hi,hs'⟩,rfl⟩
  | @release i hi hr =>
    simp only [Table.tcpReleaseNow,hi,hr,not_true,if_false]
    exact .update _ rfl (fun l hl => by simp [hl]) fun hi' => by simp at hi'
  | @detach i l p' hc ht =>
    have hl := (h.links.child hc).1
    exact .detach (h.links.accepting hl).nodup hl (Terminated.fields ht).2.2 rfl rfl

theorem moves (h : Inv t) (hm : Moves rx t t') : QueueShrinks t t' := by
  induction hm with
  | refl => exact .refl t
  | tail hm' hm ih => exact ih.trans (.move (h.moves hm') hm)

theorem users {p' : Pcb} {r : Ring Byte recvMax} {a b c d n : ℤ} {w x y z : Sem}
    (hp : p' = (t.storage i).withUsers r a b c d n w x y z) (hs : t'.storage = Function.update t.storage i p')
    (hpcbs : t'.pcbs = t.pcbs) : QueueShrinks t t' := by
  subst hp
  exact .keeps ((t.storage i).withUsers_keeps r a b c d n w x y z) hs hpcbs

theorem addWaiters (t : Table) (i : Slot) (w : Pcb.Wait) (n : ℤ) :
    QueueShrinks t (t.modify i fun p => p.addWaiters w n) := by
  cases w
  · exact .users (i := i) rfl rfl rfl
  · exact .users (i := i) rfl rfl rfl

theorem spawned (j : Slot) (p : Pcb) (k : Link) (hl : t.Listening l) (hp : p.state ≠ .listen) :
    QueueShrinks t (t.spawned l j p k) := by
  rintro m ⟨hpm,hsm⟩
  simp only [Table.queue,Table.spawned] at hpm hsm ⊢
  have hmj : m ≠ j := by
    rintro rfl
    simp [hp] at hsm
  rw [Function.update_of_ne hmj] at hpm hsm ⊢
  by_cases hml : m = l
  · subst m
    exact .inr ⟨hl,by rw [Function.update_self]⟩
  · rw [Function.update_of_ne hml] at hsm ⊢
    exact .inr ⟨⟨hpm,hsm⟩,.refl _⟩

theorem spawn_failed {p : Pcb} {k : Link} (h : Inv t) (hl : t.Listening l) (hj : t.pcbs j = false)
    (hp : p.listener = some l ∧ p.state = .synReceived) (e : NetErr) :
    QueueShrinks t ((t.spawned l j p k).tcpListenerDetachChild j e) := by
  have hne : j ≠ l := fun hjl => by simp [hjl,hl.1] at hj
  refine .trans (.spawned j p k hl (by simp [hp.2])) ?_
  rw [detachChild_eq (by simp [Table.spawned]) (by simp [Table.spawned,hp.1]) hne]
  have hq : (t.spawned l j p k).queue l = t.queue l := by simp [Table.queue,Table.spawned,hne.symm]
  refine .detach (by rw [hq]; exact (h.links.accepting hl).nodup) ?_ (Pcb.tcpTerminate_state _ _) rfl rfl
  simpa [Table.Listening,Table.spawned,hne.symm] using hl

theorem accepted (hc : Committable t l i) : QueueShrinks t (t.accepted l i) := by
  rintro m ⟨hpm,hsm⟩
  simp only [Table.queue,Table.accepted] at hpm hsm ⊢
  have hmi : m ≠ i := by
    rintro rfl
    simp [Pcb.committed,hc.state] at hsm
  rw [Function.update_of_ne hmi] at hsm ⊢
  by_cases hml : m = l
  · subst m
    refine .inr ⟨hc.listening,?_⟩
    rw [Function.update_self,Pcb.dequeue]
    simp only [hc.nonempty,dif_pos,Ring.pop_contents]
    exact List.tail_sublist _
  · rw [Function.update_of_ne hml] at hsm ⊢
    exact .inr ⟨⟨hpm,hsm⟩,.refl _⟩

theorem acceptLeave (t : Table) (i : Slot) : QueueShrinks t (t.acceptLeave i) :=
  .users (i := i) rfl rfl rfl

end QueueShrinks

/-- An action shrinks the queues, or completes the handshake of one child. -/
theorem act_queue (h : Inv t) (a : Action) : QueueShrinks t (t.act a) ∨
    ∃ l i s, t.IsChild l i ∧ (t.storage i).state = .synReceived ∧ t.act a = t.completed l i s := by
  cases a with
  | tcpIn netif src dest buf =>
    simp only [Table.act,Table.tcpIn]
    split
    next => exact .inl (.refl t)
    next s _ =>
    split
    next => exact .inl (.refl t)
    next =>
      generalize hr : (t.tcpInSegment s netif src dest).1 = t'
      have ha := inSegment_arrival h s netif src dest
      rw [hr] at ha
      cases ha with
      | moves hm => exact .inl (.moves h hm)
      | completed hc hs hrel hcomp => exact .inr ⟨_,_,s,hc,hs,rfl⟩
      | spawned hl _ hj hb hf hp hem =>
        subst hp
        exact .inl (.spawned _ _ _ hl (by rintro ⟨⟩))
      | spawnFailed n u e hl hj hb hp hw =>
        subst hp
        exact .inl (.spawn_failed h hl hj ⟨rfl,rfl⟩ e)
  | tcpOpen a =>
    left
    rcases tcpAlloc_cases none t a with ⟨t',he,hm⟩ | ⟨j,x,y,z,k,he,hj,-⟩
    · simpa [Table.act,he] using QueueShrinks.moves h hm
    · simp only [Table.act,he]
      exact .update (.allocated a x y z) rfl (fun l hl => by simp [Table.allocated,hl]) (by rintro _ ⟨⟩)
  | tcpBind i netif ip port => exact .inl (.moves h (bind_moves none t i netif ip port))
  | tcpListen i b =>
    left
    rcases tcpListen_cases none t i b with ⟨t',e,he,hm⟩ | ⟨a,k,he,-⟩
    · simpa [Table.act,he] using QueueShrinks.moves h hm
    · simp only [Table.act,he]
      exact .update ((t.storage i).listening b a) rfl (fun _ _ => rfl)
        fun _ _ => .inl (by simp [Pcb.listening])
  | tcpAcceptAcquire i =>
    left
    rcases acceptAcquire_cases t i with ⟨e,-,he⟩ | ⟨-,-,he⟩
    · simpa [Table.act,he] using QueueShrinks.refl t
    · simp only [Table.act,he]
      exact .users (i := i) rfl rfl rfl
  | tcpAcceptPeek i =>
    left
    rcases acceptPeek_cases h i with ⟨r,-,he⟩ | ⟨c,-,-,he⟩
    · simpa [Table.act,he] using QueueShrinks.refl t
    · simp only [Table.act,he]
      exact .users (i := c) rfl rfl rfl
  | acceptToken i => exact .inl (.users (i := i) rfl rfl rfl)
  | tcpAcceptCommit i c =>
    left
    rcases acceptCommit_cases h i c with ⟨e,-,he⟩ | ⟨hc,he⟩
    · simpa [Table.act,he] using QueueShrinks.refl t
    · simpa [Table.act,he] using QueueShrinks.accepted hc
  | tcpAcceptRelease i =>
    left
    rcases acceptRelease_cases t i with ⟨e,-,he⟩ | ⟨-,-,he⟩
    · simpa [Table.act,he] using QueueShrinks.refl t
    · simpa [Table.act,he] using QueueShrinks.acceptLeave t i
  | tcpAcceptReleaseChild i c =>
    left
    rcases acceptReleaseChild_cases t i c with ⟨e,-,he⟩ | ⟨-,-,-,-,-,he⟩
    · simpa [Table.act,he] using QueueShrinks.refl t
    · simp only [Table.act,he]
      have hpin : QueueShrinks t (t.unpinned c) := .users (i := c) rfl rfl rfl
      exact hpin.trans (.acceptLeave _ i)
  | tcpConnectStart i netif remote port =>
    left
    rcases tcpConnectStart_cases none h i netif remote port with ⟨t',e,he,-,hm⟩ | ⟨p,n,k,e,he,hi,hc,-⟩
    · simpa [Table.act,he] using QueueShrinks.moves h hm
    · simp only [Table.act,he]
      refine .update _ rfl (fun _ _ => rfl) fun _ hs => ?_
      split at hs
      · cases hs
      · cases hs
  | tcpSendStart i data =>
    left
    rcases tcpSendStart_cases none h i data with ⟨t',e,he,-,-,hm⟩ | ⟨k,he,hi,hs,h1,h2,-⟩
    · simpa [Table.act,he] using QueueShrinks.moves h hm
    · simp only [Table.act,he]
      refine .update ((t.storage i).sending data) rfl (fun _ _ => rfl) fun _ hl => ?_
      have : (t.storage i).state = .listen := hl
      simp [hs.1] at this
  | tcpWaitAcquire i w =>
    left
    rcases tcpWaitAcquire_cases t i w with ⟨e,-,he⟩ | ⟨-,he⟩
    · simpa [Table.act,he] using QueueShrinks.refl t
    · simpa [Table.act,he] using QueueShrinks.addWaiters t i w 1
  | waitToken i w =>
    left
    cases w
    · exact .users (i := i) rfl rfl rfl
    · exact .users (i := i) rfl rfl rfl
  | waitLeave i w => exact .inl (.addWaiters t i w (-1))
  | tcpRecvAcquire i =>
    left
    rcases tcpRecvAcquire_cases t i with ⟨e,-,he⟩ | ⟨-,he⟩
    · simpa [Table.act,he] using QueueShrinks.refl t
    · simp only [Table.act,he]
      exact .users (i := i) rfl rfl rfl
  | tcpRecvTake i n =>
    left
    simp only [Table.act,Table.recvTake,Pcb.tcpRecvTake]
    by_cases hc : (t.storage i).recv.count = 0
    · simpa [hc] using QueueShrinks.refl t
    · simp only [hc,if_false]
      exact .users (i := i) rfl rfl rfl
  | recvToken i => exact .inl (.users (i := i) rfl rfl rfl)
  | tcpRecvLeave i => exact .inl (.users (i := i) rfl rfl rfl)
  | tcpClose i => exact .inl (.moves h (close_moves none h i))
  | tcpSocketDetach i =>
    left
    rcases tcpSocketDetach_cases t i with ⟨e,-,he⟩ | ⟨hd,he,-⟩
    · simpa [Table.act,he] using QueueShrinks.refl t
    · simp only [Table.act,he]
      have hfree : QueueShrinks t (t.modify i fun p => { p with socketAttached := false }) :=
        .update { t.storage i with socketAttached := false } rfl (fun _ _ => rfl)
          fun _ hs => .inr ⟨⟨hd.1,hs⟩,rfl⟩
      exact hfree.trans (.moves (h.unattached hd.1) (releaseNow_moves none _ i))
  | tcpRetransmitDue i => exact .inl (.moves h (retransmitDue_moves none h i))
  | tcpTimeWaitProc i => exact .inl (.moves h (timeWaitProc_moves none h i))
  | tcpReleaseProc i => exact .inl (.moves h (releaseProc_moves none h i))

/-- A run together with the time at which each slot last completed a passive open. -/
structure History where
  table : Table
  clock : ℕ
  stamp : Slot → ℕ

namespace History

def init : History := ⟨tcpInit,0,fun _ => 0⟩

def step (h : History) (s : Table.Step) : History where
  table := h.table.step s
  clock := h.clock+1
  stamp i := if (h.table.storage i).state = .synReceived ∧
    ((h.table.step s).storage i).state = .established then h.clock else h.stamp i

def run (h : History) (steps : List Table.Step) : History := steps.foldl step h

theorem run_table (h : History) (steps : List Table.Step) : (h.run steps).table = h.table.run steps := by
  induction steps generalizing h with
  | nil => rfl
  | cons s steps ih => exact ih (h.step s)

/-- The queues are sorted by stamp, and no stamp lies in the future. -/
def Sorted (h : History) : Prop :=
  ∀ l, h.table.Listening l →
    ∃ is : List Slot, h.table.queue l = is.map some ∧ (is.map h.stamp).Pairwise (· < ·) ∧
      ∀ i ∈ is, h.stamp i < h.clock

theorem sorted_step {h : History} (hI : Inv h.table) (hs : h.Sorted) (s : Table.Step) : (h.step s).Sorted := by
  have hI' := hI.supply s.1
  -- an entry of a queue is ESTABLISHED already, so its stamp stays
  have hstamp : ∀ l, h.table.Listening l → ∀ i, some i ∈ h.table.queue l → (h.step s).stamp i = h.stamp i := by
    intro l hl i hi
    obtain ⟨j,hj,-,he⟩ := ((hI.links.accepting hl).queue _).1 hi
    obtain rfl : i = j := by simpa using hj
    simp [step,he]
  have hkeep : ∀ l, h.table.Listening l → ∀ is : List Slot, is.map some = h.table.queue l →
      is.map (h.step s).stamp = is.map h.stamp := by
    intro l hl is his
    refine List.map_congr_left fun i hi => hstamp l hl i ?_
    rw [← his]
    exact List.mem_map_of_mem hi
  intro l hl
  rcases act_queue hI' s.2 with hq | ⟨k,i,seg,hc,hsyn,he⟩
  · rcases hq l hl with hq | ⟨hl₀,hsub⟩
    · exact ⟨[],hq,by simp,by simp⟩
    have hl₀ : h.table.Listening l := hl₀
    obtain ⟨is,his,hpair,hlt⟩ := hs l hl₀
    have hsub : ((h.step s).table.queue l).Sublist (is.map some) := by
      rw [← his]
      exact hsub
    obtain ⟨js,hjs,he⟩ := List.sublist_map_iff.1 hsub
    have hmap := hkeep l hl₀ is his.symm
    refine ⟨js,he,?_,fun j hj => ?_⟩
    · refine List.Pairwise.sublist (hjs.map _) ?_
      rwa [hmap]
    · have hj' := hjs.subset hj
      rw [hstamp l hl₀ j (by rw [his]; exact List.mem_map_of_mem hj')]
      exact Nat.lt_succ_of_lt (hlt j hj')
  · have hne := hI'.links.ne_of_child hc
    obtain ⟨hlk,-⟩ := hI'.links.child hc
    have hlk₀ : h.table.Listening k := hlk
    have htab : (h.step s).table = (h.table.supply s.1).completed k i seg := he
    have hlt := hI'.links.queue_lt hc hsyn
    have hkl : k = l := by
      have hst : ((h.step s).table.storage k).state = .listen := by
        rw [htab]
        simpa [Table.completed,Table.modify,hne.symm,Pcb.enqueue] using hlk.2
      have hpk : (h.step s).table.pcbs k = true := by
        rw [htab]
        exact hlk.1
      have hk : (h.step s).table.Listening k := ⟨hpk,hst⟩
      exact (hI.step s).links.unique hk hl
    subst hkl
    obtain ⟨is,his,hpair,hlt'⟩ := hs k hlk₀
    have hqueue : (h.step s).table.queue k = (is++[i]).map some := by
      rw [htab,List.map_append,← his]
      simp only [Table.queue,Table.completed,Table.modify,Function.update_self,Function.update_of_ne hne.symm,
        Pcb.enqueue,dif_pos hlt,Ring.push_contents]
      rfl
    have hnew : (h.step s).stamp i = h.clock := by
      have hsyn' : (h.table.storage i).state = .synReceived := hsyn
      have hest : ((h.table.step s).storage i).state = .established := by
        have : (h.table.step s) = (h.table.supply s.1).completed k i seg := he
        rw [this]
        simp [Table.completed,Table.modify,hne,Pcb.handshaken]
      simp [step,hsyn',hest]
    have hmap := hkeep k hlk₀ is his.symm
    refine ⟨is++[i],hqueue,?_,?_⟩
    · rw [List.map_append,List.pairwise_append,hmap]
      refine ⟨hpair,by simp,?_⟩
      simp only [List.map_cons,List.map_nil,List.mem_singleton,List.mem_map]
      rintro _ ⟨j,hj,rfl⟩ _ rfl
      rw [hnew]
      exact hlt' j hj
    · intro j hj
      rcases List.mem_append.1 hj with hj | hj
      · rw [hstamp k hlk₀ j (by rw [his]; exact List.mem_map_of_mem hj)]
        exact Nat.lt_succ_of_lt (hlt' j hj)
      · obtain rfl : j = i := by simpa using hj
        rw [hnew]
        exact Nat.lt_succ_self _

theorem sorted_run (steps : List Table.Step) : (init.run steps).Sorted := by
  have : ∀ h : History, Inv h.table → h.Sorted → (h.run steps).Sorted := by
    induction steps with
    | nil => exact fun _ _ hs => hs
    | cons s steps ih => exact fun h hI hs => ih (h.step s) (hI.step s) (sorted_step hI hs s)
  refine this init .init ?_
  rintro l ⟨hl,-⟩
  cases hl

end History

/-- Listeners, their children and their queues agree in every state of every run. The
stamps are the steps at which the handshakes completed. -/
theorem run_listener_consistent (steps : List Table.Step) :
    let t := tcpInit.run steps
    (∀ l, t.Listening l →
      let q := (t.storage l).acceptQueue
      (t.storage l).pendingCount =
        (Finset.univ.filter fun i => t.pcbs i = true ∧ (t.storage i).listener = some l).card ∧
      (t.storage l).pendingCount ≤ (t.storage l).backlog ∧ (t.storage l).backlog ≤ Table.acceptMax ∧
      (∃ is : List Slot, q.contents = is.map some ∧ is.Nodup ∧
        (∀ i, i ∈ is ↔
          t.pcbs i = true ∧ (t.storage i).listener = some l ∧ (t.storage i).state = .established) ∧
        (is.map (History.init.run steps).stamp).Pairwise (· < ·)) ∧
      (∀ k, q.count ≤ k → k < 4 → q.cell k = none) ∧
      (∀ i, t.pcbs i = true → (t.storage i).listener = some l → (t.storage i).state = .synReceived →
        q.count < 4)) ∧
    ∀ i l, t.pcbs i = true → (t.storage i).listener = some l ∨ t.detachedListeners i = some l →
      t.pcbs l = true ∧ (t.storage l).state = .listen := by
  intro t
  have h : Inv t := Inv.init.run steps
  refine ⟨fun l hl => ?_,fun i l hi hd => ?_⟩
  · have ha := h.links.accepting hl
    obtain ⟨is,his,hpair,-⟩ := History.sorted_run steps l (by rwa [History.run_table])
    rw [History.run_table] at his
    have his : (t.storage l).acceptQueue.contents = is.map some := his
    refine ⟨ha.pending,ha.bounded.1,ha.bounded.2,⟨is,his,?_,fun i => ?_,hpair⟩,ha.blank,fun i hi hc hs => ?_⟩
    · have hn := ha.nodup
      rw [his] at hn
      exact hn.of_map _
    · have hq := ha.queue (some i)
      rw [his,List.mem_map_of_injective (Option.some_injective _)] at hq
      rw [hq]
      constructor
      · rintro ⟨j,hj,hc,hs⟩
        obtain rfl : i = j := by simpa using hj
        exact ⟨hc.1,hc.2,hs⟩
      · rintro ⟨hi,hc,hs⟩
        exact ⟨i,rfl,⟨hi,hc⟩,hs⟩
    · exact h.links.queue_lt ⟨hi,hc⟩ hs
  · rcases hd with hd | hd
    · exact (h.links.child ⟨hi,hd⟩).1
    · exact h.links.detached hd

end Tcp
end QuardStarNet
