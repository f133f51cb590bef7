import QuardStarNet.TcpRun

/-! What the rest of the kernel holds of a control block: waiters, accept reservations,
pins and the socket. A section that is nobody's acquire or release leaves all of it
alone, and clears a slot only when nothing of it is held. -/
namespace QuardStarNet
namespace Tcp

/-- The counts of the users of a block. -/
structure Users where
  acceptWaiters : ℤ
  acceptPins : ℤ
  connectWaiters : ℤ
  recvWaiters : ℤ
  closeWaiters : ℤ
  socketAttached : Bool
  deriving DecidableEq

def Users.idle : Users := ⟨0,0,0,0,0,false⟩

def Pcb.users (p : Pcb) : Users :=
  ⟨p.acceptWaiters,p.acceptPins,p.connectWaiters,p.recvWaiters,p.closeWaiters,p.socketAttached⟩

/-- A change that no user of a block makes. -/
structure Quiet (t t' : Table) : Prop where
  kept : ∀ i, t.pcbs i = true →
    t'.pcbs i = true ∧ (t'.storage i).users = (t.storage i).users ∧ (∀ l, t.Tied l i → t'.Tied l i) ∨
    t'.pcbs i = false ∧ (t.storage i).users = .idle
  fresh : ∀ i, t.pcbs i = false → t'.pcbs i = true → (t'.storage i).users = .idle
  listening : ∀ l, t.Listening l → t'.Listening l ∨ t'.pcbs l = false
  child : ∀ l i, t.pcbs i = true → t'.IsChild l i → t.IsChild l i

variable {rx : Option Segment} {t t' t'' : Table} {i j l : Slot}

namespace Quiet

theorem refl (t : Table) : Quiet t t where
  kept _ hi := .inl ⟨hi,rfl,fun _ h => h⟩
  fresh i h h' := by simp [h] at h'
  listening _ h := .inl h
  child _ _ _ h := h

/-- Changes compose when the second allocates no slot. -/
theorem trans (h₁ : Quiet t t') (h₂ : Quiet t' t'') (hn : ∀ i, t''.pcbs i = true → t'.pcbs i = true) :
    Quiet t t'' where
  kept i hi := by
    rcases h₁.kept i hi with ⟨hi',hu,ht⟩ | ⟨hi',hu⟩
    · rcases h₂.kept i hi' with ⟨hi'',hu',ht'⟩ | ⟨hi'',hu'⟩
      · exact .inl ⟨hi'',hu'.trans hu,fun l h => ht' l (ht l h)⟩
      · exact .inr ⟨hi'',hu.symm.trans hu'⟩
    · refine .inr ⟨?_,hu⟩
      by_contra hc
      simpa [hi'] using hn i (by simpa using hc)
  fresh i hi hi'' := by
    have hi' := hn i hi''
    rcases h₂.kept i hi' with ⟨-,hu,-⟩ | ⟨hd,-⟩
    · rw [hu,h₁.fresh i hi hi']
    · simp [hd] at hi''
  listening l hl := by
    rcases h₁.listening l hl with hl' | hl'
    · exact h₂.listening l hl'
    · refine .inr ?_
      by_contra hc
      simpa [hl'] using hn l (by simpa using hc)
  child l i hi hc := h₁.child l i hi (h₂.child l i (hn i hc.1) hc)

/-- A change of one block that stays live and keeps its users and its listener. -/
theorem update {p' : Pcb} (hst : t'.storage = Function.update t.storage i p') (hp : t'.pcbs = t.pcbs)
    (hd : t'.detachedListeners = t.detachedListeners) (hu : p'.users = (t.storage i).users)
    (hl : p'.listener = (t.storage i).listener)
    (hs : (t.storage i).state = .listen → p'.state = .listen) : Quiet t t' := by
  have hlis : ∀ j, (t'.storage j).listener = (t.storage j).listener := by
    intro j
    by_cases hj : j = i
    · rw [hst,hj,Function.update_self,hl]
    · rw [hst,Function.update_of_ne hj]
  refine ⟨fun j hj => .inl ⟨by rw [hp,hj],?_,fun k hk => ?_⟩,fun j hj hj' => ?_,fun k hk => .inl ⟨?_,?_⟩,
    fun k j hj hc => ⟨hj,?_⟩⟩
  · by_cases hji : j = i
    · rw [hst,hji,Function.update_self,hu]
    · rw [hst,Function.update_of_ne hji]
  · rwa [Table.Tied,hlis,hd]
  · simp [hp,hj] at hj'
  · rw [hp,hk.1]
  · by_cases hki : k = i
    · subst k
      rw [hst,Function.update_self]
      exact hs hk.2
    · rw [hst,Function.update_of_ne hki,hk.2]
  · rw [← hlis,hc.2]

theorem ties (p' : Pcb) (ht : (t.storage i).Tied p') (hst : t'.storage = Function.update t.storage i p')
    (hp : t'.pcbs = t.pcbs) (hd : t'.detachedListeners = t.detachedListeners) : Quiet t t' := by
  refine .update hst hp hd ?_ (congrArg Ties.listener ht.ties) ht.keeps.listen_iff.2
  have h := ht.ties
  simp only [Pcb.ties,Ties.mk.injEq] at h
  obtain ⟨-,-,-,-,-,h1,h2,h3,h4,h5,h6,-⟩ := h
  simp [Pcb.users,h1,h2,h3,h4,h5,h6]

/-- A change of dead slots and of what no user sees. -/
theorem same (hst : ∀ j, t.pcbs j = true → t'.storage j = t.storage j) (hp : t'.pcbs = t.pcbs)
    (hd : t'.detachedListeners = t.detachedListeners) : Quiet t t' := by
  refine ⟨fun j hj => .inl ⟨by rw [hp,hj],by rw [hst j hj],fun k hk => ?_⟩,fun j hj hj' => ?_,
    fun k hk => .inl ⟨?_,?_⟩,fun k j hj hc => ⟨hj,?_⟩⟩
  · rwa [Table.Tied,hst j hj,hd]
  · simp [hp,hj] at hj'
  · rw [hp,hk.1]
  · rw [hst k hk.1,hk.2]
  · rw [← hst j hj,hc.2]

theorem terminated_users {p p' : Pcb} (h : p.Terminated p') : p'.users = p.users := by
  obtain ⟨u,w,r,n,e,rfl,-⟩ := h
  obtain ⟨a,b,c,he⟩ := Pcb.tcpTerminate_eq { p with sndUna := u, window := w, rcvNxt := r, retryCount := n } e
  rw [he]
  rfl

/-- The detaching of a child turns its pointer into a detached one. -/
theorem detach {p' : Pcb} (h : Links t) (hc : t.IsChild l i)
    (hu : p'.users = (t.storage i).users) (hn : p'.listener = none)
    (hst : t'.storage = Function.update (Function.update t.storage l (Table.dropChild i (t.storage l))) i p')
    (hp : t'.pcbs = t.pcbs)
    (hd : t'.detachedListeners = Function.update t.detachedListeners i (some l)) : Quiet t t' := by
  obtain ⟨hl,hf⟩ := h.child hc
  have hs : (t.storage i).state ≠ .listen := by
    rcases hf.1 with hf | hf <;> simp [hf]
  have hother : ∀ j, j ≠ i → (t'.storage j).users = (t.storage j).users ∧
      (t'.storage j).listener = (t.storage j).listener ∧ (t'.storage j).state = (t.storage j).state := by
    intro j hj
    by_cases hjl : j = l
    · subst j
      rw [hst,Function.update_of_ne hj,Function.update_self]
      exact ⟨rfl,rfl,rfl⟩
    · rw [hst,Function.update_of_ne hj,Function.update_of_ne hjl]
      exact ⟨rfl,rfl,rfl⟩
  have hi' : t'.storage i = p' := by rw [hst,Function.update_self]
  refine ⟨fun j hj => .inl ⟨by rw [hp,hj],?_,fun k hk => ?_⟩,fun j hj hj' => ?_,fun k hk => .inl ⟨?_,?_⟩,
    fun k j hj hcj => ⟨hj,?_⟩⟩
  · by_cases hji : j = i
    · rw [hji,hi',hu]
    · exact (hother j hji).1
  · by_cases hji : j = i
    · subst j
      refine .inr ?_
      rw [hd,Function.update_self]
      rcases hk with hk | hk
      · rw [← hc.2,hk]
      · rw [h.unique (h.detached hk) hl]
    · rwa [Table.Tied,(hother j hji).2.1,hd,Function.update_of_ne hji]
  · simp [hp,hj] at hj'
  · rw [hp,hk.1]
  · have hki : k ≠ i := by
      rintro rfl
      exact hs hk.2
    rw [(hother k hki).2.2,hk.2]
  · by_cases hji : j = i
    · subst j
      have := hcj.2
      rw [hi',hn] at this
      cases this
    · rw [← (hother j hji).2.1,hcj.2]

theorem release (hi : t.pcbs i = true) (hr : t.tcpReleasable i) : Quiet t (t.tcpReleaseNow i).1 := by
  simp only [Table.tcpReleaseNow,hi,hr,not_true,if_false]
  have hu : (t.storage i).users = .idle := by
    simp only [Table.tcpReleasable,decide_eq_true_eq] at hr
    obtain ⟨-,h1,-,h2,h3,h4,h5,-,h6⟩ := hr
    simp [Pcb.users,Users.idle,h2,h3,h4,h5,h6,Bool.eq_false_iff.2 h1]
  refine ⟨fun j hj => ?_,fun j hj hj' => ?_,fun k hk => ?_,fun k j hj hc => ?_⟩
  · by_cases hji : j = i
    · subst j
      exact .inr ⟨by simp,hu⟩
    · refine .inl ⟨by simpa [hji] using hj,by simp [Table.modify,hji],fun k hk => ?_⟩
      simpa [Table.Tied,Table.modify,hji] using hk
  · by_cases hji : j = i
    · simp [hji] at hj'
    · simp [hji,hj] at hj'
  · by_cases hki : k = i
    · exact .inr (by simp [hki])
    · exact .inl ⟨by simpa [hki] using hk.1,by simpa [Table.modify,hki] using hk.2⟩
  · have hji : j ≠ i := by
      rintro rfl
      simp [Table.IsChild] at hc
    simpa [Table.IsChild,Table.modify,hji] using hc

theorem move (hm : Move rx t t') (h : Inv t) : Quiet t t' ∧ ∀ i, t'.pcbs i = true → t.pcbs i = true := by
  cases hm with
  | conn hi hc => exact ⟨.ties _ (.connMove hc) rfl rfl rfl,fun _ h => h⟩
  | aux => exact ⟨.same (fun _ _ => rfl) rfl rfl,fun _ h => h⟩
  | @dead i p hi hp =>
    refine ⟨.same (fun j hj => ?_) rfl rfl,fun _ h => h⟩
    have hji : j ≠ i := fun he => by simp [he,hi] at hj
    simp [Table.modify,hji]
  | @pend i hi hl hs =>
    exact ⟨.update (i := i) rfl rfl rfl rfl rfl fun h => h,fun _ h => h⟩
  | @release i hi hr =>
    refine ⟨.release hi hr,fun j hj => ?_⟩
    simp only [Table.tcpReleaseNow,hi,hr,not_true,if_false] at hj
    by_cases hji : j = i
    · simp [hji] at hj
    · simpa [hji] using hj
  | @detach i l p' hc ht =>
    have hu := terminated_users ht
    exact ⟨.detach h.links hc hu (Terminated.fields ht).2.1 rfl rfl rfl,fun _ h => h⟩

theorem moves_live (h : Inv t) (hm : Moves rx t t') :
    Quiet t t' ∧ ∀ i, t'.pcbs i = true → t.pcbs i = true := by
  induction hm with
  | refl => exact ⟨.refl t,fun _ h => h⟩
  | tail hm' hm ih =>
    obtain ⟨hq,hn⟩ := move hm (h.moves hm')
    exact ⟨ih.1.trans hq hn,fun i hi => ih.2 i (hn i hi)⟩

theorem moves (h : Inv t) (hm : Moves rx t t') : Quiet t t' := (moves_live h hm).1

theorem allocated (hj : t.pcbs j = false) (x y z : Sem) (k : Link) :
    Quiet t (t.allocated j false x y z k) := by
  have hlive : ∀ i, t.pcbs i = true → i ≠ j := fun i hi he => by simp [← he,hi] at hj
  refine ⟨fun i hi => .inl ⟨?_,?_,fun m hm => ?_⟩,fun i hi hi' => ?_,fun m hm => .inl ⟨?_,?_⟩,
    fun m i hi hc => ⟨hi,?_⟩⟩
  · simpa [Table.allocated,hlive i hi] using hi
  · simp [Table.allocated,hlive i hi]
  · simpa [Table.Tied,Table.allocated,hlive i hi] using hm
  · by_cases hij : i = j
    · subst i
      simp [Table.allocated,Pcb.allocated,Pcb.users,Pcb.zeroed,Users.idle]
    · simp [Table.allocated,hij,hi] at hi'
  · simpa [Table.allocated,hlive m hm.1] using hm.1
  · simpa [Table.allocated,hlive m hm.1] using hm.2
  · simpa [Table.allocated,hlive i hi] using hc.2

/-- A new child and the count of its listener. -/
theorem spawned (hl : t.Listening l) (hj : t.pcbs j = false) {p : Pcb} (k : Link)
    (hu : p.users = .idle) : Quiet t (t.spawned l j p k) := by
  have hne : l ≠ j := fun he => by simp [← he,hl.1] at hj
  have hother : ∀ i, i ≠ j → ((t.spawned l j p k).storage i).users = (t.storage i).users ∧
      ((t.spawned l j p k).storage i).listener = (t.storage i).listener ∧
      ((t.spawned l j p k).storage i).state = (t.storage i).state := by
    intro i hi
    by_cases hil : i = l
    · subst i
      simp [Table.spawned,hne,Pcb.users]
    · simp [Table.spawned,hi,hil]
  have hlive : ∀ i, t.pcbs i = true → i ≠ j := fun i hi he => by simp [← he,hi] at hj
  refine ⟨fun i hi => .inl ⟨?_,(hother i (hlive i hi)).1,fun m hm => ?_⟩,fun i hi hi' => ?_,
    fun m hm => .inl ⟨?_,?_⟩,fun m i hi hc => ⟨hi,?_⟩⟩
  · simpa [Table.spawned,hlive i hi] using hi
  · rw [Table.Tied,(hother i (hlive i hi)).2.1]
    simpa [Table.Tied,Table.spawned,hlive i hi] using hm
  · by_cases hij : i = j
    · rw [hij,Table.spawned]
      simpa using hu
    · simp [Table.spawned,hij,hi] at hi'
  · simpa [Table.spawned,hlive m hm.1] using hm.1
  · rw [(hother m (hlive m hm.1)).2.2,hm.2]
  · rw [← (hother i (hlive i hi)).2.1,hc.2]

theorem arrival {s : Segment} {netif : NetifId} {src dest : IpAddr} (ha : Arrival t s netif src dest t')
    (h : Inv t) : Quiet t t' := by
  cases ha with
  | moves hm => exact .moves h hm
  | @completed l i hc hs hr hcomp =>
    have h₁ : Quiet t (t.modify i fun p => p.handshaken s) :=
      .update (i := i) rfl rfl rfl rfl rfl fun he => by simp [hs] at he
    have h₂ : Quiet (t.modify i fun p => p.handshaken s) (t.completed l i s) :=
      .update (i := l) rfl rfl rfl rfl rfl fun he => he
    exact h₁.trans h₂ fun _ h => h
  | spawned hl hr hj hb hf hp hem =>
    subst hp
    exact .spawned hl hj _ rfl
  | @spawnFailed l j x y z k p n u e hl hj hb hp hw =>
    subst hp
    have hp := passiveChild_links t l netif src s.srcPort s.seq s.window x y z
    let p := { t.passiveChild l netif src s.srcPort s.seq s.window (.allocated false x y z) with
      retryCount := n, outstandingEnd := u }
    have hL : Links (t.spawned l j p k) := .spawned h hl hj hp hb
    have hc : (t.spawned l j p k).IsChild l j := by simp [Table.IsChild,Table.spawned,p,hp.2.1]
    refine (Quiet.spawned hl hj k (p := p) rfl).trans ?_ fun i hi => ?_
    · rw [detachChild_eq hc.1 hc.2 (hL.ne_of_child hc)]
      have ht := (Pcb.Doomed.refl { (t.spawned l j p k).storage j with
        listener := none, releasePending := true }).terminated e
      have hu := terminated_users ht
      exact .detach hL hc hu (Terminated.fields ht).2.1 rfl rfl rfl
    · rwa [detachChild_eq hc.1 hc.2 (hL.ne_of_child hc)] at hi

/-- A connection may be started on a block that no acceptor holds. -/
theorem connected (h : Inv t) (hi : t.pcbs i = true) (hc : (t.storage i).Connectable)
    (hw : (t.storage i).acceptWaiters = 0) (hp : (t.storage i).acceptPins = 0) (netif : Netif)
    (remote : IpAddr) (port remotePort next : Port) (k : Link) (e : NetErr) :
    Quiet t (t.connected i (t.connecting netif remote port remotePort (t.storage i)) next k e) := by
  have hs := hc.2.2.2.2.1
  have hl := h.links.listener_of_state hi (by simp [hs]) (by simp [hs])
  refine .update (i := i) rfl rfl rfl ?_ ?_ fun he => by simp [hs] at he
  · split
    · simp [Pcb.users,Pcb.started,Pcb.setOutstanding,Table.connecting,Pcb.tcpResetConnection,hw,hp]
    · simp [Pcb.users,Table.connecting,Pcb.tcpResetConnection,hw,hp]
  · split
    · simp [Pcb.started,Pcb.setOutstanding,Table.connecting,Pcb.tcpResetConnection,hl]
    · simp [Pcb.tcpResetConnection,hl]

theorem startsListening (b : ℤ) (a : Sem) (k : Link) (hw : (t.storage i).acceptWaiters = 0) :
    Quiet t { t.modify i fun p => p.listening b a with link := k } :=
  .update (i := i) rfl rfl rfl (by simp [Pcb.users,Pcb.listening,hw]) rfl fun _ => rfl

theorem sending (data : List Byte) (k : Link) : Quiet t (t.setConn i ⟨(t.storage i).sending data,k⟩) :=
  .update (i := i) rfl rfl rfl rfl rfl fun he => he

end Quiet
end Tcp
end QuardStarNet
