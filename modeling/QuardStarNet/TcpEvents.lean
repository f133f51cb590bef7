import QuardStarNet.TcpInputMoves

/-! The changes of the table that are more than internal moves: blocks are allocated,
connected and set to listen, children are spawned, finish their handshake and are
accepted, data is sent. Each of them keeps the invariant. -/
namespace QuardStarNet
namespace Tcp

variable {rx : Option Segment} {t t' : Table} {i j l : Slot} {s : Segment}

section Alloc

/-- A block as `tcp_alloc_locked` hands it out. -/
def Pcb.allocated (a : Bool) (x y z : Sem) : Pcb :=
  { Pcb.zeroed with
    connectDone := x, recvDone := y, closeDone := z, opened := true, socketAttached := a }

/-- The table after slot `j` was allocated. -/
def Table.allocated (t : Table) (j : Slot) (a : Bool) (x y z : Sem) (k : Link) : Table :=
  { t with
    storage := Function.update t.storage j (.allocated a x y z)
    pcbs := Function.update t.pcbs j true
    detachedListeners := Function.update t.detachedListeners j none
    link := k }

theorem tcpAlloc_cases (rx : Option Segment) (t : Table) (a : Bool) :
    (∃ t', t.tcpAlloc a = (t',none) ∧ Moves rx t t') ∨
      ∃ j x y z k, t.tcpAlloc a = (t.allocated j a x y z k,some j) ∧ t.pcbs j = false ∧
        k.wire = t.link.wire := by
  unfold Table.tcpAlloc
  split
  next => exact .inl ⟨t,rfl,.refl⟩
  next j hj =>
    have hdead : t.pcbs j = false := by simpa using List.find?_some hj
    have hfail : ∀ k : Link, k.wire = t.link.wire →
        Moves rx t { t.modify j fun _ => .zeroed with link := k } := by
      intro k hk
      exact .head (.dead (p := .zeroed) hdead rfl) (Moves.link hk)
    simp only
    split
    next => exact .inl ⟨_,rfl,hfail _ rfl⟩
    next =>
    split
    next => exact .inl ⟨_,rfl,hfail _ rfl⟩
    next =>
    split
    next => exact .inl ⟨_,rfl,hfail _ rfl⟩
    next => exact .inr ⟨j,_,_,_,_,rfl,hdead,rfl⟩

theorem Inv.allocated (h : Inv t) (hj : t.pcbs j = false) (a : Bool) (x y z : Sem) (k : Link) :
    Inv (t.allocated j a x y z k) := by
  have hn : ¬t.Listening j := fun hl => by simp [hl.1] at hj
  refine ⟨h.links.swap j ?_ (h.links.free_of_not_listening hn) ?_ ?_ ?_ ?_,fun i hi => ?_⟩
  · intro i hi
    simp [Table.allocated,hi]
  · rintro l ⟨hl,-⟩
    simp [hj] at hl
  · simp [Table.allocated,Pcb.allocated]
  · simp [Table.allocated,Pcb.allocated,Pcb.zeroed]
  · simp [Table.allocated]
  · by_cases hij : i = j
    · subst i
      simp only [Table.allocated,Function.update_self]
      exact .of_closed rfl rfl rfl rfl
    · simpa [Table.allocated,hij] using h.sound i (by simpa [Table.allocated,hij] using hi)

end Alloc

section Connect

def synSegment (p : Pcb) : Segment := Conn.segment p p.iss 0 flagSyn []

theorem connectSyn_spec (c : Conn) (ho : c.pcb.outstanding = none) (hr : c.pcb.retransTimer = false) :
    ∃ l' e, Table.connectSyn c = (⟨if e = .ok then
        { c.pcb.started (synSegment c.pcb) c.pcb.sndNxt with state := .synSent }
      else c.pcb.tcpResetConnection,l'⟩,e) ∧ Attempt c.pcb (synSegment c.pcb) c.link l' e := by
  by_cases hf : c.link.fate = .ok
  · obtain ⟨l',e,he,ha⟩ := Conn.tcpStartOutstanding_spec ⟨c.pcb,c.link.spend⟩ hr (synSegment c.pcb)
      c.pcb.sndNxt
    refine ⟨l',e,?_,ha⟩
    simp only [Table.connectSyn,Conn.tcpMakeSegment,hf,if_true]
    rw [show Conn.segment c.pcb c.pcb.iss 0 flagSyn [] = synSegment c.pcb from rfl,he]
    by_cases hok : e = .ok
    · simp [hok,onErr,onOk]
    · simp [hok,onErr,onOk,Pcb.tcpResetConnection,Pcb.tcpClearOutstanding,ho,hr]
  · exact ⟨c.link.spend,.mem,by simp [Table.connectSyn,Conn.tcpMakeSegment,hf],.inr ⟨by simp,rfl⟩⟩

/-- The tests of `tcp_connect_start` that look at the block. -/
def Pcb.Connectable (p : Pcb) : Prop :=
  p.releasePending = false ∧ p.connectWaiters = 0 ∧ p.recvWaiters = 0 ∧ p.closeWaiters = 0 ∧
    p.state = .closed ∧ p.bound = false ∧ p.outstanding = none

/-- The table after `tcp_connect_start` set up the block `q` and sent its SYN, or failed
to and reset it. -/
def Table.connected (t : Table) (i : Slot) (q : Pcb) (next : Port) (k : Link) (e : NetErr) : Table :=
  { t with
    storage := Function.update t.storage i (if e = .ok then
        { q.started (synSegment q) q.sndNxt with state := .synSent }
      else q.tcpResetConnection)
    nextEphemeral := next
    nextIss := t.nextIss+64000#32
    link := k }

theorem tcpConnectStart_cases (rx : Option Segment) (h : Inv t) (i : Slot) (netif : Netif) (remote : IpAddr)
    (remotePort : Port) :
    (∃ t' e, t.tcpConnectStart i netif remote remotePort = (t',e) ∧ e ≠ .ok ∧ Moves rx t t') ∨
    ∃ port next k e, let q := t.connecting netif remote port remotePort (t.storage i)
      t.tcpConnectStart i netif remote remotePort = (t.connected i q next k e,e) ∧
      t.pcbs i = true ∧ (t.storage i).Connectable ∧ Attempt q (synSegment q) t.link k e := by
  unfold Table.tcpConnectStart
  split
  next => exact .inl ⟨_,_,rfl,by simp,.refl⟩
  next =>
  split
  next => exact .inl ⟨_,_,rfl,by simp,.refl⟩
  next hi =>
  simp only
  split
  next => exact .inl ⟨_,_,rfl,by simp,.refl⟩
  next hu =>
  split
  next => exact .inl ⟨_,_,rfl,by simp,.refl⟩
  next =>
  generalize t.tcpChoosePort 16384 t.nextEphemeral = r
  split
  next => exact .inl ⟨_,_,rfl,by simp,.single (.aux t.releaseTimers r.1 t.link rfl)⟩
  next =>
    rw [not_not] at hi
    have hc : (t.storage i).opened = true ∧ (t.storage i).Connectable := by
      simpa [Pcb.Connectable] using hu
    have ho : (t.storage i).outstanding = none := hc.2.2.2.2.2.2.2
    obtain ⟨k,e,he,ha⟩ := connectSyn_spec
      ⟨t.connecting netif remote r.2 remotePort (t.storage i),t.link⟩ ho ((h.sound i hi).idle ho).1
    have hq : ({ t with nextEphemeral := r.1 } : Table).connecting netif remote r.2 remotePort
        (t.storage i) = t.connecting netif remote r.2 remotePort (t.storage i) := rfl
    refine .inr ⟨r.2,r.1,k,e,?_,hi,hc.2,ha⟩
    simp only [Table.onConn,Table.conn,Table.modify,Function.update_self,hq,he,Table.setConn,
      Function.update_idem,Table.connected]

theorem Inv.connected (h : Inv t) (hi : t.pcbs i = true) (hc : (t.storage i).Connectable)
    (netif : Netif) (remote : IpAddr) (port remotePort next : Port) (k : Link) (e : NetErr) :
    Inv (t.connected i (t.connecting netif remote port remotePort (t.storage i)) next k e) := by
  have hs := hc.2.2.2.2.1
  have hn : ¬t.Listening i := fun hl => by simp [hl.2] at hs
  have hl := h.links.listener_of_state hi (by simp [hs]) (by simp [hs])
  have hS := h.sound i hi
  have ht : (t.storage i).timeWaitTimer = false := by
    by_contra ht
    simpa [hs] using hS.timer.1 (by simpa using ht)
  refine ⟨h.links.swap i ?_ (h.links.free_of_not_listening hn) ?_ ?_ ?_ ?_,fun j hj => ?_⟩
  · intro j hj
    simp [Table.connected,hj]
  · rintro l ⟨-,hc⟩
    simp [hl] at hc
  · by_cases he : e = .ok
    · simp [Table.connected,he,Pcb.started,Pcb.setOutstanding,Table.connecting,Pcb.tcpResetConnection,
        h.links.opened]
    · simp [Table.connected,he,Table.connecting,Pcb.tcpResetConnection,h.links.opened]
  · intro _
    by_cases he : e = .ok
    · simp [Table.connected,he,Pcb.started,Pcb.setOutstanding,Table.connecting,Pcb.tcpResetConnection]
    · simp [Table.connected,he,Pcb.tcpResetConnection]
  · cases hd : t.detachedListeners i with
    | none => exact .inl hd
    | some l =>
      have hl := h.links.detached hd
      exact .inr ⟨hi,l,hd,fun he => hn (he ▸ hl),hl⟩
  · by_cases hji : j = i
    · subst j
      simp only [Table.connected,Function.update_self]
      split
      next =>
        let q := t.connecting netif remote port remotePort (t.storage i)
        have hlen : (synSegment q).seqLength = 1 := by
          simp [synSegment,Segment.seqLength,Segment.has]
          decide
        have hseq : (synSegment q).seq = q.sndUna := by simp [synSegment,q,Table.connecting]
        have hS' : q.Sound := .of_closed rfl hc.2.2.2.2.2.2 (hS.idle hc.2.2.2.2.2.2).1 ht
        have := hS'.started (synSegment q) .synSent ⟨Conn.segment_flags ..,Conn.segment_payload ..⟩
          hseq (by decide) (by simp [q,Table.connecting,Pcb.tcpResetConnection]) hc.1
          fun _ => ⟨by rw [hlen]; rfl,rfl⟩
        rw [hlen] at this
        exact this
      next =>
        exact .of_closed rfl hc.2.2.2.2.2.2 (hS.idle hc.2.2.2.2.2.2).1 ht
    · simpa [Table.connected,hji] using h.sound j hj

end Connect
section Listen

theorem tcpListen_cases (rx : Option Segment) (t : Table) (i : Slot) (b : ℤ) :
    (∃ t' e, t.tcpListen i b = (t',e) ∧ Moves rx t t') ∨
    ∃ a k, t.tcpListen i b = ({ t.modify i fun p => p.listening b a with link := k },.ok) ∧
      t.pcbs i = true ∧ (t.storage i).releasePending = false ∧ (t.storage i).state = .closed ∧
      (∀ j, j ≠ i → t.pcbs j = true → (t.storage j).opened = true → (t.storage j).state ≠ .listen) ∧
      1 ≤ b ∧ b ≤ 4 ∧ k.wire = t.link.wire := by
  unfold Table.tcpListen
  split
  next => exact .inl ⟨_,_,rfl,.refl⟩
  next hb =>
  split
  next => exact .inl ⟨_,_,rfl,.refl⟩
  next hi =>
  simp only
  split
  next => exact .inl ⟨_,_,rfl,.refl⟩
  next hu =>
  split
  next => exact .inl ⟨_,_,rfl,.refl⟩
  next hone =>
  split
  next => exact .inl ⟨_,_,rfl,.link rfl⟩
  next =>
    rw [not_not] at hi hu
    simp only [Table.acceptMax] at hb
    refine .inr ⟨_,_,rfl,hi,by simpa using hu.2.1,hu.2.2.1,?_,by omega,by omega,rfl⟩
    intro j hj hp ho hs
    refine hone (List.any_eq_true.2 ⟨j,by simp,?_⟩)
    simp [hp,hj,ho,hs]

theorem Inv.listening (h : Inv t) (hi : t.pcbs i = true) (hs : (t.storage i).state = .closed)
    (hone : ∀ j, j ≠ i → t.pcbs j = true → (t.storage j).opened = true → (t.storage j).state ≠ .listen)
    {b : ℤ} (hb : 1 ≤ b ∧ b ≤ 4) (a : Sem) (k : Link) :
    Inv { t.modify i fun p => p.listening b a with link := k } := by
  have hnone : ∀ l, ¬t.Listening l := by
    rintro l ⟨hl,hst⟩
    by_cases hli : l = i
    · simp [hli,hs] at hst
    · exact hone l hli hl (by rw [h.links.opened,hl]) hst
  refine ⟨h.links.listen hi hs hnone rfl rfl ?_ b hb a ?_,fun j hj => ?_⟩
  · intro j hj
    simp [Table.modify,hj]
  · simp [Table.modify,Pcb.listening]
  · by_cases hji : j = i
    · subst j
      have hS := h.sound i hi
      have ho : (t.storage i).outstanding = none := by
        cases ho : (t.storage i).outstanding with
        | none => rfl
        | some seg => simpa [hs,Owns] using (hS.owned seg ho).1
      have ht : (t.storage i).timeWaitTimer = false := by
        by_contra ht
        simpa [hs] using hS.timer.1 (by simpa using ht)
      simp only [Table.modify,Function.update_self]
      refine ⟨fun seg hseg => ?_,fun _ => ?_,?_,?_,?_,?_,?_⟩
      · simp [Pcb.listening,ho] at hseg
      · simp [Pcb.listening,(hS.idle ho).1]
      · simp [Pcb.listening]
      · simp [Pcb.listening]
      · simp [Pcb.listening]
      · simp [Pcb.listening,ht]
      · simp [Pcb.listening]
    · simpa [Table.modify,hji] using h.sound j hj

end Listen

section Spawn

def synAckSegment (p : Pcb) : Segment := Conn.segment p p.iss p.rcvNxt (flagSyn ||| flagAck) []

theorem synAckStart_spec (c : Conn) (ho : c.pcb.outstanding = none) (hr : c.pcb.retransTimer = false) :
    ∃ l' e n x, Table.synAckStart c = (⟨if e = .ok then
        c.pcb.started (synAckSegment c.pcb) c.pcb.sndNxt
      else { c.pcb with retryCount := n, outstandingEnd := x },l'⟩,e) ∧
      Attempt c.pcb (synAckSegment c.pcb) c.link l' e := by
  by_cases hf : c.link.fate = .ok
  · obtain ⟨l',e,he,ha⟩ := Conn.tcpStartOutstanding_spec ⟨c.pcb,c.link.spend⟩ hr (synAckSegment c.pcb)
      c.pcb.sndNxt
    refine ⟨l',e,0,0,?_,ha⟩
    simp only [Table.synAckStart,Conn.tcpMakeSegment,hf,if_true]
    rw [show Conn.segment c.pcb c.pcb.iss c.pcb.rcvNxt (flagSyn ||| flagAck) [] =
      synAckSegment c.pcb from rfl,he]
    by_cases hok : e = .ok
    · simp [hok]
    · simp [hok,Pcb.tcpClearOutstanding,ho,hr]
  · exact ⟨c.link.spend,.mem,c.pcb.retryCount,c.pcb.outstandingEnd,
      by simp [Table.synAckStart,Conn.tcpMakeSegment,hf],.inr ⟨by simp,rfl⟩⟩

/-- The table after the block `p` was set up in slot `j` as a child of `l`. -/
def Table.spawned (t : Table) (l j : Slot) (p : Pcb) (k : Link) : Table :=
  { t with
    storage := Function.update (Function.update t.storage l
      { t.storage l with pendingCount := (t.storage l).pendingCount+1 }) j p
    pcbs := Function.update t.pcbs j true
    detachedListeners := Function.update t.detachedListeners j none
    nextIss := t.nextIss+64000#32
    link := k }

theorem tcpPassiveSyn_cases (rx : Option Segment) (hl : t.pcbs l = true) (netif : NetifId) (src : IpAddr)
    (srcPort : Port) (seq : BitVec 32) (window : BitVec 16) :
    (∃ t' e, t.tcpPassiveSyn l netif src srcPort seq window = (t',e) ∧ e ≠ .ok ∧ Moves rx t t') ∨
    ∃ j x y z k e n u,
      let p := t.passiveChild l netif src srcPort seq window (.allocated false x y z)
      t.tcpPassiveSyn l netif src srcPort seq window =
        (if e = .ok then t.spawned l j (p.started (synAckSegment p) p.sndNxt) k
          else (t.spawned l j { p with retryCount := n, outstandingEnd := u } k).tcpListenerDetachChild j e,
          e) ∧
      t.pcbs j = false ∧ (t.storage l).pendingCount < (t.storage l).backlog ∧
      Attempt p (synAckSegment p) t.link k e := by
  unfold Table.tcpPassiveSyn
  simp only
  split
  next => exact .inl ⟨_,_,rfl,by simp,.refl⟩
  next hu =>
  rcases tcpAlloc_cases rx t false with ⟨t',he,hm⟩ | ⟨j,x,y,z,k₀,he,hj,hw⟩
  · simp only [he]
    exact .inl ⟨_,_,rfl,by simp,hm⟩
  · have hne : l ≠ j := fun hlj => by simp [hlj,hj] at hl
    let p := t.passiveChild l netif src srcPort seq window (.allocated false x y z)
    obtain ⟨k,e,n,u,hsa,hat⟩ := synAckStart_spec ⟨p,k₀⟩ rfl rfl
    have hat' : Attempt p (synAckSegment p) t.link k e := by
      simpa [Attempt,Emitted,hw] using hat
    refine .inr ⟨j,x,y,z,k,e,n,u,?_,hj,by omega,hat'⟩
    have hc : (Table.modify { (t.allocated j false x y z k₀).modify j
        (t.passiveChild l netif src srcPort seq window) with nextIss := t.nextIss+64000#32 } l
        fun q => { q with pendingCount := q.pendingCount+1 }).onConn j Table.synAckStart =
        (t.spawned l j (if e = .ok then p.started (synAckSegment p) p.sndNxt
          else { p with retryCount := n, outstandingEnd := u }) k,e) := by
      have hp : (Table.modify { (t.allocated j false x y z k₀).modify j
          (t.passiveChild l netif src srcPort seq window) with nextIss := t.nextIss+64000#32 } l
          fun q => { q with pendingCount := q.pendingCount+1 }).conn j = ⟨p,k₀⟩ := by
        simp [Table.conn,Table.modify,Table.allocated,hne.symm,p]
      simp only [Table.onConn,hp,hsa]
      simp [Table.setConn,Table.modify,Table.allocated,Table.spawned,Function.update_comm hne,hne]
    simp only [he,hc]
    by_cases hok : e = .ok
    · rw [onErr_ok hok]
      simp [hok,p]
    · rw [onErr_err hok]
      simp [hok,p]

theorem Relinks.spawned (h : Links t) (hl : t.Listening l) (hj : t.pcbs j = false) {p : Pcb} {k : Link}
    (hp : p.opened = true ∧ p.listener = some l ∧ p.state = .synReceived ∧ p.Fresh) (x y z : Sem) :
    Relinks (t.allocated j false x y z t.link) (t.spawned l j p k) j l := by
  have hne : j ≠ l := fun hjl => by simp [hjl,hl.1] at hj
  exact
    { listening := by simpa [Table.Listening,Table.allocated,hne.symm] using hl
      ne := hne
      live := by simp [Table.allocated]
      pcbs := by simp [Table.allocated,Table.spawned]
      others := fun i hi hil => by simp [Table.allocated,Table.spawned,hi,hil]
      listener := by simp [Table.spawned,hne.symm,h.opened,hl.1,hl.2,h.listener_none hl]
      before := by simp [Table.allocated,Pcb.allocated,Pcb.zeroed]
      after := by simp [Table.spawned,hp.1,hp.2.1,hp.2.2.1,hp.2.2.2]
      detached := fun i => by simp [Table.allocated,Table.spawned] }

theorem Links.spawned (h : Inv t) (hl : t.Listening l) (hj : t.pcbs j = false) {p : Pcb} {k : Link}
    (hp : p.opened = true ∧ p.listener = some l ∧ p.state = .synReceived ∧ p.Fresh)
    (hb : (t.storage l).pendingCount < (t.storage l).backlog) : Links (t.spawned l j p k) := by
  have hne : j ≠ l := fun hjl => by simp [hjl,hl.1] at hj
  refine (h.allocated hj false none none none t.link).links.spawn
    (.spawned h.links hl hj hp none none none) ?_ ?_ ?_ ?_
  · simp [Table.allocated,Pcb.allocated,Pcb.zeroed]
  · simp [Table.spawned,Table.allocated,hne.symm]
  · simpa [Table.allocated,hne.symm] using hb
  · simp [Table.spawned,hp.2.1,hp.2.2.1]

theorem passiveChild_links (t : Table) (l : Slot) (netif : NetifId) (src : IpAddr) (srcPort : Port)
    (seq : BitVec 32) (window : BitVec 16) (x y z : Sem) :
    let p := t.passiveChild l netif src srcPort seq window (.allocated false x y z)
    p.opened = true ∧ p.listener = some l ∧ p.state = .synReceived ∧ p.Fresh :=
  ⟨rfl,rfl,rfl,.inl rfl,rfl,rfl,rfl⟩

theorem sound_spawned (h : Inv t) {p : Pcb} (i : Slot) (hi : Function.update t.pcbs j true i = true)
    (hij : i ≠ j) : ((t.spawned l j p t.link).storage i).Sound := by
  rw [Function.update_of_ne hij] at hi
  by_cases hil : i = l
  · subst i
    have hS := h.sound l hi
    simp only [Table.spawned,Function.update_of_ne hij,Function.update_self]
    exact ⟨hS.owned,hS.idle,hS.settled,hS.opening,hS.closing,hS.timer,hS.pending⟩
  · simpa [Table.spawned,hij,hil] using h.sound i hi

/-- A child with its SYN-ACK in flight. -/
theorem Inv.spawned (h : Inv t) (hl : t.Listening l) (hj : t.pcbs j = false)
    (hb : (t.storage l).pendingCount < (t.storage l).backlog) (netif : NetifId) (src : IpAddr)
    (srcPort : Port) (seq : BitVec 32) (window : BitVec 16) (x y z : Sem) (k : Link) :
    let p := t.passiveChild l netif src srcPort seq window (.allocated false x y z)
    Inv (t.spawned l j (p.started (synAckSegment p) p.sndNxt) k) := by
  intro p
  refine ⟨.spawned h hl hj (passiveChild_links t l netif src srcPort seq window x y z) hb,
    fun i hi => ?_⟩
  by_cases hij : i = j
  · subst i
    have hlen : (synAckSegment p).seqLength = 1 := by
      simp [synAckSegment,Segment.seqLength,Segment.has]
      decide
    have hS : ({ p with state := .closed } : Pcb).Sound := .of_closed rfl rfl rfl rfl
    have := hS.started (synAckSegment p) .synReceived ⟨Conn.segment_flags ..,Conn.segment_payload ..⟩
      (Conn.segment_seq ..) (by decide) (by simp) rfl fun _ => ⟨by rw [hlen]; rfl,rfl⟩
    rw [hlen] at this
    simp only [Table.spawned,Function.update_self]
    exact this
  · exact sound_spawned h i hi hij

/-- A child whose SYN-ACK could not be sent is detached at once. -/
theorem Inv.spawn_failed (h : Inv t) (hl : t.Listening l) (hj : t.pcbs j = false)
    (hb : (t.storage l).pendingCount < (t.storage l).backlog) {p : Pcb} {k : Link}
    (hp : p.opened = true ∧ p.listener = some l ∧ p.state = .synReceived ∧ p.Fresh) (e : NetErr) :
    Inv ((t.spawned l j p k).tcpListenerDetachChild j e) := by
  have hne : j ≠ l := fun hjl => by simp [hjl,hl.1] at hj
  have hL : Links (t.spawned l j p k) := .spawned h hl hj hp hb
  have hc : (t.spawned l j p k).IsChild l j := by simp [Table.IsChild,Table.spawned,hp.2.1]
  have hterm : Pcb.Terminated { p with listener := none, releasePending := true }
      ({ p with listener := none, releasePending := true }.tcpTerminate e) :=
    ⟨_,_,_,_,e,rfl,.inl ⟨rfl,rfl⟩⟩
  obtain ⟨ho,hn,hs⟩ := Terminated.fields hterm
  have hst : (t.spawned l j p k).storage j = p := by simp [Table.spawned]
  rw [detachChild_eq hc.1 hc.2 hne,hst]
  refine ⟨hL.detached_to hc ⟨ho.trans hp.1,hn,hs⟩ _ _,fun i hi => ?_⟩
  refine sound_detached hne (.terminated hterm) (fun i hi hij => ?_) ?_ i hi
  · exact sound_spawned h i hi hij
  · exact sound_spawned h l (by simpa [hne.symm] using hl.1) hne.symm

end Spawn
section Establish

/-- A child that still waits for its final ACK finds room in the queue. -/
theorem Links.queue_lt (h : Links t) (hc : t.IsChild l i) (hs : (t.storage i).state = .synReceived) :
    (t.storage l).acceptQueue.count < 4 := by
  have ha := h.accepting (h.child hc).1
  have hsub : (t.storage l).acceptQueue.contents.toFinset ⊆ ((t.children l).erase i).image some := by
    intro o ho
    obtain ⟨j,rfl,hj,he⟩ := (ha.queue o).1 (by simpa using ho)
    have hji : j ≠ i := fun h' => by simp [h',hs] at he
    simpa [hji] using hj
  have hlen : (t.storage l).acceptQueue.count ≤ ((t.children l).erase i).card := by
    calc (t.storage l).acceptQueue.count
        = (t.storage l).acceptQueue.contents.toFinset.card := by
          rw [List.toFinset_card_of_nodup ha.nodup,Ring.contents_length]
      _ ≤ (((t.children l).erase i).image some).card := Finset.card_le_card hsub
      _ ≤ ((t.children l).erase i).card := Finset.card_image_le
  have hcard := Finset.card_erase_add_one (s := t.children l) (a := i) (by simpa using hc)
  have hp := ha.pending
  have hb := ha.bounded
  omega

/-- The table after the child `i` of `l` finished its handshake. -/
def Table.completed (t : Table) (l i : Slot) (s : Segment) : Table :=
  (t.modify i fun p => p.handshaken s).modify l fun q => q.enqueue i

theorem inEstablish_cases (h : Inv t) (hi : t.pcbs i = true) (hs : (t.storage i).state = .synReceived)
    (hack : s.ack = (t.storage i).iss+1) :
    Moves (some s) t (t.tcpInEstablish i s).1 ∧ (t.tcpInEstablish i s).2 ≠ .ok ∨
    ∃ l, t.IsChild l i ∧ (t.storage l).releasePending = false ∧
      t.tcpInEstablish i s = (t.completed l i s,.ok) := by
  obtain ⟨l,hl⟩ := Option.ne_none_iff_exists'.1 (h.links.orphan i hi hs)
  have hc : t.IsChild l i := ⟨hi,hl⟩
  have hne := h.links.ne_of_child hc
  have hlt := h.links.queue_lt hc hs
  have hl' : ((t.modify i fun p => p.handshaken s).storage i).listener = some l := by
    simpa [Table.modify,Pcb.handshaken,Pcb.tcpClearOutstanding] using hl
  have hq : (t.modify i fun p => p.handshaken s).storage l = t.storage l := by
    simp [Table.modify,hne.symm]
  cases hr : (t.storage l).releasePending with
  | true =>
    left
    have he : t.tcpInEstablish i s =
        (t.setConn i ⟨(t.storage i).handshaken s,t.link⟩).tcpFail i .state := by
      simp only [Table.tcpInEstablish,hl',hq,hr]
      simp
      rfl
    rw [he]
    refine ⟨(fail_yields (P := fun _ => True) (e := .state) h hi (by simp [hs]) ?_ rfl (by rintro ⟨⟩)).1,by rintro ⟨⟩⟩
    exact ⟨_,_,_,_,_,_,_,_,_,_,_,rfl,.inr ⟨hack,.inr hs⟩⟩
  | false =>
    refine .inr ⟨l,hc,hr,?_⟩
    simp only [Table.tcpInEstablish,hl',hq,hr,hlt]
    simp [Table.completed]

theorem Inv.completed (h : Inv t) (hc : t.IsChild l i) (hs : (t.storage i).state = .synReceived)
    (hack : s.ack = (t.storage i).iss+1) : Inv (t.completed l i s) := by
  have hne := h.links.ne_of_child hc
  have hlt := h.links.queue_lt hc hs
  obtain ⟨hl,hf⟩ := h.links.child hc
  have hi' : (t.completed l i s).storage i = (t.storage i).handshaken s := by
    simp [Table.completed,Table.modify,hne]
  have hl' : (t.completed l i s).storage l = { t.storage l with
      acceptQueue := (t.storage l).acceptQueue.push (some i) hlt
      acceptDone := sysSemNotify (t.storage l).acceptDone } := by
    simp [Table.completed,Table.modify,hne.symm,Pcb.enqueue,hlt]
  have hr : Relinks t (t.completed l i s) i l :=
    { listening := hl
      ne := hne
      live := hc.1
      pcbs := rfl
      others := fun j h1 h2 => by simp [Table.completed,Table.modify,h1,h2]
      listener := by simp [hl',h.links.opened,hl.1,hl.2,h.links.listener_none hl]
      before := ⟨by simp [hs],.inr hc.2⟩
      after := by
        rw [hi']
        exact ⟨(h.links.opened i).trans hc.1,by rintro ⟨⟩,.inr ⟨hc.2,.inr rfl,hf.2⟩⟩
      detached := fun j => .inl rfl }
  refine ⟨h.links.establish hr hc hs hlt _ hl' (by simp [hi',Pcb.handshaken,Pcb.tcpClearOutstanding,hc.2]),
    fun j hj => ?_⟩
  by_cases hji : j = i
  · subst j
    have hS := h.sound i hc.1
    rw [hi']
    refine ⟨fun seg hseg => ?_,fun _ => ?_,fun _ _ => ?_,?_,fun _ hq => ?_,?_,fun hr => ?_⟩
    · simp [Pcb.handshaken,Pcb.tcpClearOutstanding] at hseg
    · simp [Pcb.handshaken,Pcb.tcpClearOutstanding]
    · exact hack.trans (hS.opening (.inr hs)).1.symm
    · simp [Pcb.handshaken]
    · have := hf.2.2.2
      simp [Pcb.handshaken,Pcb.tcpClearOutstanding,this] at hq
    · have := hS.timer
      simp_all [Pcb.handshaken,Pcb.tcpClearOutstanding]
    · have := hf.2.1
      simp [Pcb.handshaken,Pcb.tcpClearOutstanding,this] at hr
  · by_cases hjl : j = l
    · subst j
      have hS := h.sound l hl.1
      rw [hl']
      exact ⟨hS.owned,hS.idle,hS.settled,hS.opening,hS.closing,hS.timer,hS.pending⟩
    · rw [hr.others j hji hjl]
      exact h.sound j hj

end Establish
section Accept

/-- A block with other received data, other counts of users and other semaphore values. -/
def Pcb.withUsers (p : Pcb) (ring : Ring Byte recvMax) (connect recv close accept pins : ℤ)
    (w x y z : Sem) : Pcb :=
  { p with
    recv := ring
    connectWaiters := connect, recvWaiters := recv, closeWaiters := close
    acceptWaiters := accept, acceptPins := pins
    connectDone := w, recvDone := x, closeDone := y, acceptDone := z }

theorem Pcb.withUsers_keeps (p : Pcb) (r : Ring Byte recvMax) (a b c d n : ℤ) (w x y z : Sem) :
    p.Keeps (p.withUsers r a b c d n w x y z) :=
  ⟨rfl,rfl,fun _ => ⟨rfl,rfl,rfl⟩,fun _ hf => hf,.inl rfl⟩

theorem Inv.users (h : Inv t) {i : Slot} {p' : Pcb} {r : Ring Byte recvMax} {a b c d n : ℤ} {w x y z : Sem}
    (hp : p' = (t.storage i).withUsers r a b c d n w x y z) (hs : t'.storage = Function.update t.storage i p')
    (hpcbs : t'.pcbs = t.pcbs) (hd : t'.detachedListeners = t.detachedListeners) : Inv t' := by
  subst hp
  by_cases hi : t.pcbs i = true
  · have hS := h.sound i hi
    exact h.modify hi _ ((t.storage i).withUsers_keeps r a b c d n w x y z)
      ⟨hS.owned,hS.idle,hS.settled,hS.opening,hS.closing,hS.timer,hS.pending⟩ hs hpcbs hd
  · have hne : ∀ j, t.pcbs j = true → j ≠ i := fun j hj he => hi (he ▸ hj)
    refine ⟨h.links.keeps hpcbs hd (fun j hj => ?_) fun j hj => ?_,fun j hj => ?_⟩
    · simpa [hs,hne j hj] using Pcb.Keeps.refl (t.storage j)
    · by_cases hji : j = i
      · simpa [hs,hji,Pcb.withUsers,h.links.opened] using hi
      · simp [hs,hji,h.links.opened,hj]
    · rw [hpcbs] at hj
      simpa [hs,hne j hj] using h.sound j hj

/-- A reservation is made, or nothing changes. -/
theorem acceptAcquire_cases (t : Table) (i : Slot) :
    (∃ e, e ≠ .ok ∧ t.tcpAcceptAcquire i = (t,e)) ∨
      t.Listening i ∧ (t.storage i).releasePending = false ∧ t.tcpAcceptAcquire i =
        (t.modify i fun p => { p with acceptWaiters := p.acceptWaiters+1 },.ok) := by
  unfold Table.tcpAcceptAcquire
  split
  next => exact .inl ⟨.param,by simp,rfl⟩
  next hi =>
  simp only
  split
  next => exact .inl ⟨.state,by simp,rfl⟩
  next hu =>
    rw [not_or,not_or,not_not,not_not] at hu
    exact .inr ⟨⟨not_not.1 hi,hu.2.2⟩,by simpa using hu.2.1,rfl⟩

theorem Inv.acceptAcquire (h : Inv t) (i : Slot) : Inv (t.tcpAcceptAcquire i).1 := by
  rcases acceptAcquire_cases t i with ⟨e,-,he⟩ | ⟨-,-,he⟩
  · rwa [he]
  · rw [he]
    exact h.users (i := i) rfl rfl rfl rfl

theorem Accepting.head (h : Accepting t l) (hc : (t.storage l).acceptQueue.count ≠ 0) :
    ∃ i, (t.storage l).acceptQueue.cell 0 = some i ∧ t.IsChild l i ∧ (t.storage i).state = .established := by
  have hlen : 0 < (t.storage l).acceptQueue.contents.length := by
    rw [Ring.contents_length]
    omega
  obtain ⟨i,hi,hchild,hs⟩ := (h.queue _).1 (List.getElem_mem hlen)
  rw [Ring.contents_get] at hi
  exact ⟨i,hi,hchild,hs⟩

/-- The head of the queue is pinned, or nothing changes. -/
theorem acceptPeek_cases (h : Inv t) (i : Slot) :
    (∃ r, (∀ c, r ≠ .child c) ∧ t.tcpAcceptPeek i = (t,r)) ∨
      ∃ c, t.IsChild i c ∧ (t.storage c).state = .established ∧ t.tcpAcceptPeek i =
        (t.modify c fun p => { p with acceptPins := p.acceptPins+1 },.child c) := by
  unfold Table.tcpAcceptPeek
  simp only
  split
  next => exact .inl ⟨.error .state,by simp,rfl⟩
  next hu =>
  split
  next => exact .inl ⟨.error .state,by simp,rfl⟩
  next =>
  split
  next => exact .inl ⟨.wait,by simp,rfl⟩
  next hcount =>
    have hl : t.Listening i := by
      rw [not_or,not_or,not_not,not_not] at hu
      exact ⟨(h.links.opened i).symm.trans hu.1,hu.2.1⟩
    obtain ⟨c,hcell,hc,hs⟩ := (h.links.accepting hl).head hcount
    simp only [hcell]
    split
    next => exact .inl ⟨.error .state,by simp,rfl⟩
    next => exact .inr ⟨c,hc,hs,rfl⟩

theorem Inv.acceptPeek (h : Inv t) (i : Slot) : Inv (t.tcpAcceptPeek i).1 := by
  rcases acceptPeek_cases h i with ⟨r,-,he⟩ | ⟨c,-,-,he⟩
  · rwa [he]
  · rw [he]
    exact h.users (i := c) rfl rfl rfl rfl

theorem Inv.acceptLeave (h : Inv t) (i : Slot) : Inv (t.acceptLeave i) :=
  h.users (i := i) rfl rfl rfl rfl

theorem acceptRelease_cases (t : Table) (i : Slot) :
    (∃ e, e ≠ .ok ∧ t.tcpAcceptReleaseAcquired i = (t,e)) ∨
      t.Listening i ∧ 0 < (t.storage i).acceptWaiters ∧
        t.tcpAcceptReleaseAcquired i = (t.acceptLeave i,.ok) := by
  unfold Table.tcpAcceptReleaseAcquired
  split
  next => exact .inl ⟨.param,by simp,rfl⟩
  next hi =>
  simp only
  split
  next => exact .inl ⟨.state,by simp,rfl⟩
  next hu =>
    rw [not_or,not_or,not_le] at hu
    exact .inr ⟨⟨not_not.1 hi,not_not.1 hu.2.2⟩,hu.2.1,rfl⟩

theorem Inv.acceptRelease (h : Inv t) (i : Slot) : Inv (t.tcpAcceptReleaseAcquired i).1 := by
  rcases acceptRelease_cases t i with ⟨e,-,he⟩ | ⟨-,-,he⟩
  · rwa [he]
  · rw [he]
    exact h.acceptLeave i

/-- The child points to the listener, or did before it was detached or accepted. -/
def Table.Tied (t : Table) (l i : Slot) : Prop :=
  (t.storage i).listener = some l ∨ t.detachedListeners i = some l

/-- The table after a pin of the child was given back. -/
def Table.unpinned (t : Table) (child : Slot) : Table :=
  { t.modify child fun p => { p with acceptPins := p.acceptPins-1 } with
    detachedListeners :=
      if (t.storage child).acceptPins-1 = 0 ∧ (t.storage child).socketAttached then
        Function.update t.detachedListeners child none
      else t.detachedListeners }

theorem acceptReleaseChild_cases (t : Table) (l i : Slot) :
    (∃ e, e ≠ .ok ∧ t.tcpAcceptReleaseChildAcquired l i = (t,e)) ∨
      t.Listening l ∧ 0 < (t.storage l).acceptWaiters ∧ t.pcbs i = true ∧ t.Tied l i ∧
        0 < (t.storage i).acceptPins ∧
        t.tcpAcceptReleaseChildAcquired l i = ((t.unpinned i).acceptLeave l,.ok) := by
  unfold Table.tcpAcceptReleaseChildAcquired
  split
  next => exact .inl ⟨.param,by simp,rfl⟩
  next hi =>
  simp only
  split
  next => exact .inl ⟨.state,by simp,rfl⟩
  next hu =>
  split
  next => exact .inl ⟨.state,by simp,rfl⟩
  next hp =>
    rw [not_or,not_not,not_not] at hi
    rw [not_or,not_or,not_le] at hu
    rw [not_or,not_or,not_not,not_not,not_le] at hp
    exact .inr ⟨⟨hi.1,not_not.1 hu.2.2⟩,hu.2.1,hi.2,hp.2.1,hp.2.2,rfl⟩

/-- Dropping a detached link is harmless. -/
theorem Inv.undetach (h : Inv t) (i : Slot) :
    Inv { t with detachedListeners := Function.update t.detachedListeners i none } := by
  have hL := h.links
  refine ⟨⟨hL.opened,fun j hj => ?_,hL.child,fun {j l} hd => ?_,hL.orphan,hL.unique,fun hl => ?_⟩,h.sound⟩
  · by_cases hji : j = i
    · simp [hji]
    · simpa [hji] using hL.dead j hj
  · by_cases hji : j = i
    · simp [hji] at hd
    · exact hL.detached (i := j) (by simpa [hji] using hd)
  · exact (hL.accepting hl).congr rfl rfl rfl (fun _ => Iff.rfl) fun _ _ => rfl

theorem Inv.unpinned (h : Inv t) (i : Slot) : Inv (t.unpinned i) := by
  have hpin : Inv (t.modify i fun p => { p with acceptPins := p.acceptPins-1 }) :=
    h.users (i := i) rfl rfl rfl rfl
  unfold Table.unpinned
  split
  next => exact hpin.undetach i
  next => exact hpin

theorem Inv.acceptReleaseChild (h : Inv t) (i child : Slot) :
    Inv (t.tcpAcceptReleaseChildAcquired i child).1 := by
  rcases acceptReleaseChild_cases t i child with ⟨e,-,he⟩ | ⟨-,-,-,-,-,he⟩
  · rwa [he]
  · rw [he]
    exact (h.unpinned child).acceptLeave i

/-- The tests of `tcp_accept_commit_acquired`. -/
structure Committable (t : Table) (l i : Slot) : Prop where
  listening : t.Listening l
  child : t.IsChild l i
  pending : (t.storage l).releasePending = false
  waiting : 0 < (t.storage l).acceptWaiters
  nonempty : 0 < (t.storage l).acceptQueue.count
  head : (t.storage l).acceptQueue.cell 0 = some i
  state : (t.storage i).state = .established
  pinned : 0 < (t.storage i).acceptPins

/-- The table after the child `i` of `l` was accepted. -/
def Table.accepted (t : Table) (l i : Slot) : Table :=
  { t with
    storage := Function.update (Function.update t.storage l (t.storage l).dequeue) i (t.storage i).committed
    detachedListeners := Function.update t.detachedListeners i
      (if 0 < (t.storage i).acceptPins-1 then some l else none) }

theorem acceptCommit_cases (h : Inv t) (l i : Slot) :
    (∃ e, e ≠ .ok ∧ t.tcpAcceptCommitAcquired l i = (t,e)) ∨
      Committable t l i ∧ t.tcpAcceptCommitAcquired l i = (t.accepted l i,.ok) := by
  unfold Table.tcpAcceptCommitAcquired
  split
  next => exact .inl ⟨.param,by simp,rfl⟩
  next hl =>
  simp only
  split
  next hu =>
    rw [not_not] at hl
    obtain ⟨-,h2,h3,h4,h5,h6,h7,-,-,h10,-,h12,h13⟩ := hu
    have hc : t.IsChild l i := ⟨h7,h10⟩
    have hne := h.links.ne_of_child hc
    refine .inr ⟨⟨⟨hl,h3⟩,hc,by simpa using h2,h4,h5,h6,h12,h13⟩,?_⟩
    simp [Table.modify,Table.accepted,hne.symm,Pcb.committed,Function.update_comm hne]
  next => exact .inl ⟨.state,by simp,rfl⟩

theorem Inv.accepted (h : Inv t) (hc : Committable t l i) : Inv (t.accepted l i) := by
  have hne := h.links.ne_of_child hc.child
  obtain ⟨hl,hf⟩ := h.links.child hc.child
  have hi' : (t.accepted l i).storage i = (t.storage i).committed := by simp [Table.accepted]
  have hl' : (t.accepted l i).storage l = { t.storage l with
      acceptQueue := (t.storage l).acceptQueue.pop hc.nonempty
      pendingCount := (t.storage l).pendingCount-1
      acceptWaiters := (t.storage l).acceptWaiters-1 } := by
    simp [Table.accepted,hne.symm,Pcb.dequeue,hc.nonempty]
  have hr : Relinks t (t.accepted l i) i l :=
    { listening := hl
      ne := hne
      live := hc.child.1
      pcbs := rfl
      others := fun j h1 h2 => by simp [Table.accepted,h1,h2]
      listener := by simp [hl',h.links.opened,hl.1,hl.2,h.links.listener_none hl]
      before := ⟨by simp [hc.state],.inr hc.child.2⟩
      after := by
        rw [hi']
        refine ⟨(h.links.opened i).trans hc.child.1,?_,.inl ⟨rfl,?_⟩⟩
        · simp [Pcb.committed,hc.state]
        · simp [Pcb.committed,hc.state]
      detached := fun j => by
        by_cases hj : j = i
        · subst j
          refine .inr ⟨rfl,?_⟩
          simp only [Table.accepted,Function.update_self]
          split <;> simp
        · exact .inl (by simp [Table.accepted,hj]) }
  refine ⟨h.links.commit hr hc.child hc.nonempty hc.head _ hl' (by simp [hi',Pcb.committed]),
    fun j hj => ?_⟩
  by_cases hji : j = i
  · subst j
    have hS := h.sound i hj
    rw [hi']
    exact ⟨hS.owned,hS.idle,hS.settled,hS.opening,hS.closing,hS.timer,hS.pending⟩
  · by_cases hjl : j = l
    · subst j
      have hS := h.sound l hl.1
      rw [hl']
      exact ⟨hS.owned,hS.idle,hS.settled,hS.opening,hS.closing,hS.timer,hS.pending⟩
    · rw [hr.others j hji hjl]
      exact h.sound j hj

end Accept

section Data

/-- The segment of `tcp_send_start`. -/
def dataSegment (p : Pcb) (data : List Byte) : Segment :=
  Conn.segment p p.sndNxt p.rcvNxt (flagPsh ||| flagAck) data

/-- The block with `data` in flight. -/
def Pcb.sending (p : Pcb) (data : List Byte) : Pcb :=
  { p.started (dataSegment p data) (p.sndNxt+BitVec.ofNat 32 data.length) with
    sndNxt := p.sndNxt+BitVec.ofNat 32 data.length }

/-- The tests of `tcp_send_start` that look at the block. -/
def Pcb.Sendable (p : Pcb) (data : List Byte) : Prop :=
  p.state = .established ∧ p.outstanding = none ∧ data.length ≤ p.window.toNat

/-- Nothing went out and no block changed its state. -/
def Unsent (t t' : Table) : Prop :=
  t'.link.wire = t.link.wire ∧ t'.pcbs = t.pcbs ∧ ∀ j, (t'.storage j).state = (t.storage j).state

theorem tcpSendStart_cases (rx : Option Segment) (h : Inv t) (i : Slot) (data : List Byte) :
    (∃ t' e, t.tcpSendStart i data = (t',e) ∧ e ≠ .ok ∧ Unsent t t' ∧ Moves rx t t') ∨
    ∃ k, t.tcpSendStart i data = (t.setConn i ⟨(t.storage i).sending data,k⟩,.ok) ∧
      t.pcbs i = true ∧ (t.storage i).Sendable data ∧ 1 ≤ data.length ∧ data.length ≤ mss ∧
      Emitted (t.storage i) (dataSegment (t.storage i) data) t.link k := by
  have hsame : Unsent t t := ⟨rfl,rfl,fun _ => rfl⟩
  have hself : t.setConn i (t.conn i) = t := by simp [Table.setConn,Table.conn]
  unfold Table.tcpSendStart
  split
  next => exact .inl ⟨_,_,rfl,by simp,hsame,.refl⟩
  next hlen =>
  split
  next => exact .inl ⟨_,_,rfl,by simp,hsame,.refl⟩
  next hi =>
  rw [not_not] at hi
  simp only [Table.onConn,Conn.tcpSendData]
  split
  next => exact .inl ⟨_,_,rfl,by simp,by rw [hself]; exact ⟨hsame,.refl⟩⟩
  next hs =>
  split
  next => exact .inl ⟨_,_,rfl,by simp,by rw [hself]; exact ⟨hsame,.refl⟩⟩
  next ho =>
  split
  next => exact .inl ⟨_,_,rfl,by simp,by rw [hself]; exact ⟨hsame,.refl⟩⟩
  next hw =>
    rw [not_not] at hs ho
    have ho' : (t.storage i).outstanding = none := ho
    obtain ⟨l',e,n,x,he,hat⟩ := (t.conn i).tcpSendOwned_spec ((h.sound i hi).idle ho').1 ho'
      (t.storage i).rcvNxt (flagPsh ||| flagAck) data ((t.storage i).sndNxt+BitVec.ofNat 32 data.length) id
    have he' : (t.conn i).tcpSendOwned (t.conn i).pcb.rcvNxt (flagPsh ||| flagAck) data
        ((t.conn i).pcb.sndNxt+BitVec.ofNat 32 data.length) id = _ := he
    rw [he']
    rcases hat with ⟨hok,hem⟩ | ⟨hok,hwire⟩
    · refine .inr ⟨l',?_,hi,⟨hs.2,ho',?_⟩,by omega,by omega,hem⟩
      · simp only [hok,if_true]
        rfl
      · have : (t.conn i).pcb.window = (t.storage i).window := rfl
        have hm : mss = 512 := rfl
        rw [this] at hw
        omega
    · refine .inl ⟨_,_,rfl,hok,?_⟩
      simp only [hok,if_false]
      refine ⟨⟨hwire,rfl,fun j => ?_⟩,.conn hi (.pcb (.idled n x ho') hwire)⟩
      by_cases hji : j = i
      · subst hji
        simp [Table.setConn,Table.conn]
      · simp [Table.setConn,hji]

theorem Pcb.Sound.sending {p : Pcb} (h : p.Sound) {data : List Byte} (hs : p.Sendable data)
    (hlen : 1 ≤ data.length ∧ data.length ≤ mss) : (p.sending data).Sound := by
  have hu := h.settled hs.2.1 (.inl hs.1)
  have hr : p.releasePending = false := by
    by_contra hr
    simpa [hs.1] using h.pending (by simpa using hr)
  have hseq : (dataSegment p data).seqLength = data.length := by
    simp [dataSegment,Segment.seqLength,Segment.has,flagPsh,flagAck,flagSyn,flagFin]
  have := h.started (dataSegment p data) .established
    ⟨Conn.segment_flags ..,by simpa [dataSegment] using hlen⟩ (by simp [dataSegment,hu]) (by decide)
    (by simp [hs.1]) hr (by simp)
  rw [hseq,hu,← hs.1] at this
  exact this

theorem Inv.sending (h : Inv t) (hi : t.pcbs i = true) {data : List Byte}
    (hs : (t.storage i).Sendable data) (hlen : 1 ≤ data.length ∧ data.length ≤ mss) (k : Link) :
    Inv (t.setConn i ⟨(t.storage i).sending data,k⟩) :=
  h.modify hi ((t.storage i).sending data) ⟨rfl,rfl,fun _ => ⟨rfl,rfl,rfl⟩,fun _ hf => hf,.inl rfl⟩
    ((h.sound i hi).sending hs hlen) rfl rfl rfl

end Data
end Tcp
end QuardStarNet
