import QuardStarNet.Listener

/-! The moves of the whole table, and the proof that the operations of `tcp.c` are made
of them. Opening, connecting, listening, passive opens and the accept calls change more
and are treated by themselves. -/
namespace QuardStarNet
namespace Tcp

/-- One internal change of the table while `rx` is being processed. -/
inductive Move (rx : Option Segment) (t : Table) : Table → Prop
  | conn {i c'} : t.pcbs i = true → ConnMove rx (t.conn i) c' → Move rx t (t.setConn i c')
  | aux (timers : Slot → Bool) (port : Port) (l' : Link) : l'.wire = t.link.wire →
      Move rx t { t with releaseTimers := timers, nextEphemeral := port, link := l' }
  | dead {i p} : t.pcbs i = false → p.opened = false → Move rx t (t.modify i fun _ => p)
  | pend {i} : t.pcbs i = true → (t.storage i).listener = none →
      (t.storage i).state = .closed ∨ (t.storage i).state = .listen →
      Move rx t (t.modify i fun p => { p with releasePending := true })
  | release {i} : t.pcbs i = true → t.tcpReleasable i → Move rx t (t.tcpReleaseNow i).1
  | detach {i l p'} : t.IsChild l i →
      Pcb.Terminated { t.storage i with listener := none, releasePending := true } p' →
      Move rx t { t with
        storage := Function.update (Function.update t.storage l (Table.dropChild i (t.storage l))) i p'
        detachedListeners := Function.update t.detachedListeners i (some l) }

def Moves (rx : Option Segment) : Table → Table → Prop := Relation.ReflTransGen (Move rx)

/-- The invariant of the TCP module. -/
structure Inv (t : Table) : Prop where
  links : Links t
  sound : ∀ i, t.pcbs i = true → (t.storage i).Sound

section Moves

variable {rx : Option Segment} {t t' t'' : Table} {i l : Slot}

theorem Terminated.fields {p p' : Pcb} (h : p.Terminated p') : p'.opened = p.opened ∧
    p'.listener = p.listener ∧ p'.state = .closed := by
  obtain ⟨u,w,r,n,e,rfl,-⟩ := h
  obtain ⟨a,b,c,he⟩ := Pcb.tcpTerminate_eq
    { p with sndUna := u, window := w, rcvNxt := r, retryCount := n } e
  rw [he]
  exact ⟨rfl,rfl,rfl⟩

/-- A change of one live block that keeps its pointers and its bookkeeping. -/
theorem Inv.modify (h : Inv t) (hi : t.pcbs i = true) (p' : Pcb) (hk : (t.storage i).Keeps p')
    (hs : p'.Sound) (hst : t'.storage = Function.update t.storage i p') (hp : t'.pcbs = t.pcbs)
    (hd : t'.detachedListeners = t.detachedListeners) : Inv t' := by
  refine ⟨h.links.keeps hp hd ?_ ?_,?_⟩
  · intro j _
    by_cases hj : j = i
    · subst j
      simpa [hst] using hk
    · simpa [hst,hj] using Pcb.Keeps.refl (t.storage j)
  · intro j hj
    have hji : j ≠ i := fun he => by simp [he,hi] at hj
    rw [hst,Function.update_of_ne hji,h.links.opened,hj]
  · intro j hj
    rw [hp] at hj
    by_cases hji : j = i
    · subst j
      simpa [hst] using hs
    · simpa [hst,hji] using h.sound j hj

theorem Links.detached_to (h : Links t) (hc : t.IsChild l i) {p' : Pcb}
    (hp : p'.opened = true ∧ p'.listener = none ∧ p'.state = .closed) (timers : Slot → Bool) (k : Link) :
    Links { t with
      storage := Function.update (Function.update t.storage l (Table.dropChild i (t.storage l))) i p'
      detachedListeners := Function.update t.detachedListeners i (some l)
      releaseTimers := timers
      link := k } := by
  have hne := h.ne_of_child hc
  obtain ⟨hl,hf⟩ := h.child hc
  have hr : Relinks t { t with
      storage := Function.update (Function.update t.storage l (Table.dropChild i (t.storage l))) i p'
      detachedListeners := Function.update t.detachedListeners i (some l)
      releaseTimers := timers
      link := k } i l :=
    { listening := hl
      ne := hne
      live := hc.1
      pcbs := rfl
      others := fun j h1 h2 => by simp [h1,h2]
      listener := by simp [hne.symm,Table.dropChild,h.opened,hl.1,hl.2,h.listener_none hl]
      before := ⟨fun he => by rcases hf.1 with hf | hf <;> simp [hf] at he,.inr hc.2⟩
      after := by simp [hp.1,hp.2.1,hp.2.2]
      detached := fun j => by
        by_cases hj : j = i
        · simp [hj]
        · simp [hj] }
  exact h.detach hr hc (by simp [hne.symm]) (by simp [hp.2.1])

theorem sound_detached {p' : Pcb} (hne : i ≠ l) (hp : p'.Sound)
    (hs : ∀ j, t.pcbs j = true → j ≠ i → (t.storage j).Sound) (hl : (t.storage l).Sound) (j : Slot)
    (hj : t.pcbs j = true) :
    (Function.update (Function.update t.storage l (Table.dropChild i (t.storage l))) i p' j).Sound := by
  by_cases hji : j = i
  · subst j
    simpa using hp
  · by_cases hjl : j = l
    · subst j
      simp only [Function.update_of_ne hne.symm,Function.update_self]
      exact ⟨hl.owned,hl.idle,hl.settled,hl.opening,hl.closing,hl.timer,hl.pending⟩
    · simpa [hji,hjl] using hs j hj hji

theorem Inv.move (hm : Move rx t t') (h : Inv t) : Inv t' := by
  cases hm with
  | conn hi hc => 
    exact h.modify hi _ (Pcb.Tied.connMove hc).keeps (.connMove hc (h.sound _ hi)) rfl rfl rfl
  | aux timers port l' hw =>
    exact ⟨h.links.keeps rfl rfl (fun i _ => .refl _) fun i hi => by rw [h.links.opened,hi],h.sound⟩
  | @dead i p hi hp =>
    have hne : ∀ j, t.pcbs j = true → j ≠ i := fun j hj he => by simp [he,hi] at hj
    refine ⟨h.links.keeps rfl rfl (fun j hj => ?_) (fun j hj => ?_),fun j hj => ?_⟩
    · simpa [Table.modify,hne j hj] using Pcb.Keeps.refl (t.storage j)
    · by_cases hji : j = i
      · simpa [Table.modify,hji] using hp
      · simp [Table.modify,hji,h.links.opened,hj]
    · simpa [Table.modify,hne j hj] using h.sound j hj
  | @pend i hi hl hs =>
    have hS := h.sound i hi
    refine h.modify hi { t.storage i with releasePending := true }
      ⟨rfl,rfl,fun _ => ⟨rfl,rfl,rfl⟩,fun hn => absurd hl hn,.inl rfl⟩ ?_ rfl rfl rfl
    exact ⟨hS.owned,hS.idle,hS.settled,hS.opening,hS.closing,hS.timer,fun _ => hs⟩
  | @release i hi hr =>
    refine ⟨h.links.release hi hr,fun j hj => ?_⟩
    simp only [Table.tcpReleaseNow,hi,hr,not_true,if_false,Table.modify] at hj ⊢
    have hji : j ≠ i := fun he => by simp [he] at hj
    simp only [Function.update_of_ne hji] at hj ⊢
    exact h.sound j hj
  | @detach i l p' hc ht =>
    obtain ⟨ho,hn,hs⟩ := Terminated.fields ht
    have hp : p'.opened = true ∧ p'.listener = none ∧ p'.state = .closed :=
      ⟨ho.trans ((h.links.opened i).trans hc.1),hn,hs⟩
    refine ⟨h.links.detached_to hc hp t.releaseTimers t.link,fun j hj => ?_⟩
    exact sound_detached (h.links.ne_of_child hc) (.terminated ht) (fun j hj _ => h.sound j hj)
      (h.sound l (h.links.child hc).1.1) j hj

theorem Inv.moves (h : Inv t) (hm : Moves rx t t') : Inv t' := by
  induction hm with
  | refl => exact h
  | tail _ hm ih => exact .move hm ih

theorem Moves.trans (h₁ : Moves rx t t') (h₂ : Moves rx t' t'') : Moves rx t t'' :=
  Relation.ReflTransGen.trans h₁ h₂

theorem Moves.conn {c' : Conn} (hi : t.pcbs i = true) (hm : ConnMove rx (t.conn i) c') :
    Moves rx t (t.setConn i c') := .single (.conn hi hm)

/-- A change of one block that sends nothing. -/
theorem Moves.pcb (hi : t.pcbs i = true) {f : Pcb → Pcb} (hm : PcbMove rx (t.storage i) (f (t.storage i))) :
    Moves rx t (t.modify i f) := .single (.conn hi (.pcb hm rfl))

theorem Moves.link {l' : Link} (hw : l'.wire = t.link.wire) : Moves rx t { t with link := l' } :=
  .single (.aux t.releaseTimers t.nextEphemeral l' hw)

/-- The call moves the table from `t` to its result, and its success establishes `P`. -/
def Yields (rx : Option Segment) (t : Table) (r : Table × NetErr) (P : Table → Prop) : Prop :=
  Moves rx t r.1 ∧ (r.2 = .ok → P r.1)

namespace Yields

variable {P Q : Table → Prop} {r : Table × NetErr} {e : NetErr}

theorem done (h : P t) : Yields rx t (t,.ok) P := ⟨.refl,fun _ => h⟩

theorem error (h : e ≠ .ok) : Yields rx t (t,e) P := ⟨.refl,fun he => absurd he h⟩

theorem head (hm : Moves rx t t') (h : Yields rx t' r P) : Yields rx t r P := ⟨hm.trans h.1,h.2⟩

theorem pcb {f : Pcb → Pcb} (hi : t.pcbs i = true) (hm : PcbMove rx (t.storage i) (f (t.storage i)))
    (h : P (t.modify i f)) : Yields rx t (t.modify i f,.ok) P := ⟨.pcb hi hm,fun _ => h⟩

theorem onOk {k : Table → Table × NetErr} (h : Yields rx t r P)
    (hk : ∀ t', Moves rx t t' → P t' → Yields rx t' (k t') Q) : Yields rx t (onOk r k) Q := by
  by_cases hr : r.2 = .ok
  · rw [onOk_ok hr]
    exact .head h.1 (hk _ h.1 (h.2 hr))
  · rw [onOk_err hr]
    exact ⟨h.1,fun he => absurd he hr⟩

end Yields

end Moves

section Failure

variable {rx : Option Segment} {t t' : Table} {i l : Slot} {e : NetErr}

theorem tcpTerminate_releasePending (p : Pcb) (h : p.releasePending = true) (e : NetErr) :
    { p.tcpTerminate e with releasePending := true } = p.tcpTerminate e := by
  obtain ⟨a,b,c,he⟩ := Pcb.tcpTerminate_eq p e
  simp [he,h]

theorem detachChild_eq (hi : t.pcbs i = true) (hl : (t.storage i).listener = some l) (hne : i ≠ l) :
    t.tcpListenerDetachChild i e = { t with
      storage := Function.update (Function.update t.storage l (Table.dropChild i (t.storage l))) i
        ({ t.storage i with listener := none, releasePending := true }.tcpTerminate e)
      detachedListeners := Function.update t.detachedListeners i (some l)
      releaseTimers := Function.update t.releaseTimers i true } := by
  have hr := tcpTerminate_releasePending { t.storage i with listener := none, releasePending := true } rfl e
  cases hrt : t.releaseTimers i <;>
  simp [Table.tcpListenerDetachChild,hl,hi,Table.tcpRequestRelease,Table.modify,netTimerAdd,hne,hr,hrt]

/-- A block about to fail: apart from the fields that a terminal event overwrites, it is
the block `p` or `p` halfway through its handshake. -/
def Pcb.Doomed (p p₀ : Pcb) : Prop :=
  ∃ u w r n o x rt tw st c er, p₀ = { p with
      sndUna := u, window := w, rcvNxt := r, retryCount := n, outstanding := o, outstandingEnd := x
      retransTimer := rt, timeWaitTimer := tw, state := st, closeRequested := c, error := er } ∧
    (u = p.sndUna ∧ r = p.rcvNxt ∨ u = p.iss+1 ∧ (p.state = .synSent ∨ p.state = .synReceived))

theorem Pcb.Doomed.refl (p : Pcb) : p.Doomed p :=
  ⟨_,_,_,_,_,_,_,_,_,_,_,rfl,.inl ⟨rfl,rfl⟩⟩

theorem Pcb.Doomed.terminated {p p₀ : Pcb} (h : p.Doomed p₀) (e : NetErr) :
    p.Terminated (p₀.tcpTerminate e) := by
  obtain ⟨u,w,r,n,o,x,rt,tw,st,c,er,rfl,hu⟩ := h
  exact ⟨u,w,r,n,e,rfl,hu⟩

/-- A failing child is terminated once before and once while it is detached. -/
theorem Pcb.Doomed.detached {p p₀ : Pcb} (h : p.Doomed p₀) (e : NetErr) :
    Pcb.Terminated { p with listener := none, releasePending := true }
      ({ p₀.tcpTerminate e with listener := none, releasePending := true }.tcpTerminate e) := by
  obtain ⟨u,w,r,n,o,x,rt,tw,st,c,er,rfl,hu⟩ := h
  refine ⟨u,w,r,n,e,?_,hu⟩
  cases p.terminalNotified <;>
    simp [Pcb.tcpTerminate,Pcb.tcpNotifyTerminal,Pcb.tcpClearOutstanding]

theorem Moves.detach {p₀ : Pcb} (hc : t.IsChild l i)
    (ht : Pcb.Terminated { t.storage i with listener := none, releasePending := true } p₀)
    (timers : Slot → Bool) (k : Link) (hw : k.wire = t.link.wire) : Moves rx t { t with
      storage := Function.update (Function.update t.storage l (Table.dropChild i (t.storage l))) i p₀
      detachedListeners := Function.update t.detachedListeners i (some l)
      releaseTimers := timers
      link := k } :=
  .head (.detach hc ht) (.single (.aux timers t.nextEphemeral k hw))

theorem fail_yields {P : Table → Prop} (h : Inv t) (hi : t.pcbs i = true) (hs : (t.storage i).state ≠ .listen)
    {c : Conn} (hd : (t.storage i).Doomed c.pcb) (hw : c.link.wire = t.link.wire) (he : e ≠ .ok) :
    Yields rx t ((t.setConn i c).tcpFail i e) P := by
  refine ⟨?_,fun h' => absurd h' he⟩
  have hl : (c.pcb.tcpTerminate e).listener = (t.storage i).listener :=
    (Terminated.fields (hd.terminated e)).2.1
  cases hlis : (t.storage i).listener with
  | none =>
    have hn : (t.storage i).state ≠ .synReceived := fun hs => h.links.orphan i hi hs hlis
    convert Moves.conn hi (.pcb (.terminate hlis hs hn (hd.terminated e)) hw) using 1
    simp [Table.tcpFail,Table.modify,Table.setConn,hl,hlis]
  | some l =>
    have hne := h.links.ne_of_child (l := l) ⟨hi,hlis⟩
    have hlis' : (((t.setConn i c).modify i fun p => p.tcpTerminate e).storage i).listener = some l := by
      simp [Table.modify,Table.setConn,hl,hlis]
    have he : ((t.setConn i c).tcpFail i e).1 =
        ((t.setConn i c).modify i fun p => p.tcpTerminate e).tcpListenerDetachChild i e := by
      simp [Table.tcpFail,hlis']
    rw [he,detachChild_eq (t := (t.setConn i c).modify i fun p => p.tcpTerminate e) hi hlis' hne]
    convert Moves.detach ⟨hi,hlis⟩ (hd.detached e) (Function.update t.releaseTimers i true) c.link hw using 1
    simp [Table.modify,Table.setConn,hne.symm,Function.update_comm hne]

end Failure
section Sending

variable {rx : Option Segment} {t : Table} {i : Slot}

theorem setConn_link (t : Table) (i : Slot) (l' : Link) :
    t.setConn i ⟨t.storage i,l'⟩ = { t with link := l' } := by
  simp [Table.setConn]

theorem sendAck_eq (t : Table) (i : Slot) : ∃ l' e,
    t.onConn i Conn.tcpSendAck = ({ t with link := l' },e) ∧
      Attempt (t.storage i) (ackSegment (t.storage i)) t.link l' e := by
  obtain ⟨l',e,he,ha⟩ := (t.conn i).tcpSendAck_spec
  exact ⟨l',e,by simp only [Table.onConn,he]; rw [← setConn_link t i]; rfl,ha⟩

theorem outputOwned_eq (seg : Segment) (h : (t.storage i).outstanding = some seg) : ∃ l' e,
    t.onConn i Conn.tcpOutputOwned = ({ t with link := l' },e) ∧
      Attempt (t.storage i) seg t.link l' e := by
  obtain ⟨l',e,he,ha⟩ := (t.conn i).tcpOutputOwned_spec h
  exact ⟨l',e,by simp only [Table.onConn,he]; rw [← setConn_link t i]; rfl,ha⟩

theorem Attempt.ack_moves (hi : t.pcbs i = true)
    (hs : (t.storage i).state.streaming ∨ (t.storage i).state = .timeWait) {l' : Link} {e : NetErr}
    (h : Attempt (t.storage i) (ackSegment (t.storage i)) t.link l' e) :
    Moves rx t { t with link := l' } := by
  rcases h with ⟨-,h⟩ | ⟨-,h⟩
  · rw [← setConn_link t i]
    exact .conn hi (.ack hs h)
  · exact .link h

theorem Attempt.clone_moves (hi : t.pcbs i = true) {seg : Segment}
    (hs : (t.storage i).outstanding = some seg) {l' : Link} {e : NetErr}
    (h : Attempt (t.storage i) seg t.link l' e) : Moves rx t { t with link := l' } := by
  rcases h with ⟨-,h⟩ | ⟨-,h⟩
  · rw [← setConn_link t i]
    exact .conn hi (.clone hs h)
  · exact .link h

/-- The FIN goes out, or nothing but the retry bookkeeping changes. -/
theorem sendFin_eq (rx : Option Segment) (h : Inv t) (hi : t.pcbs i = true) (hs : (t.storage i).state = .established)
    (hl : (t.storage i).listener = none) (ho : (t.storage i).outstanding = none) :
    ∃ c e, t.onConn i Conn.tcpSendFin = (t.setConn i c,e) ∧ ConnMove rx (t.conn i) c ∧
      (e = .ok → c.pcb.state = .finWait1) ∧
      (e ≠ .ok → (t.storage i).Doomed c.pcb ∧ c.link.wire = t.link.wire) := by
  have hr := ((h.sound i hi).idle ho).1
  obtain ⟨l',e,n,x,he,ha⟩ := (t.conn i).tcpSendOwned_spec hr ho (t.storage i).rcvNxt
    (flagFin ||| flagAck) [] ((t.storage i).sndNxt+1) fun p => { p with state := .finWait1 }
  refine ⟨_,e,by simp only [Table.onConn,Conn.tcpSendFin,Table.conn] at he ⊢; rw [he],?_,?_,?_⟩
  · rcases ha with ⟨hok,hem⟩ | ⟨hok,hem⟩
    · rw [if_pos hok]
      exact .fin hs hl ho hem
    · rw [if_neg hok]
      exact .pcb (.idled n x ho) hem
  · intro hok
    simp [hok]
  · intro hok
    rw [if_neg hok]
    refine ⟨⟨_,_,_,n,_,x,_,_,_,_,_,rfl,.inl ⟨rfl,rfl⟩⟩,?_⟩
    exact (ha.resolve_left fun h => hok h.1).2

/-- A live block in ESTABLISHED, FIN_WAIT_1 or FIN_WAIT_2. -/
def Streaming (i : Slot) (t : Table) : Prop := t.pcbs i = true ∧ (t.storage i).state.streaming = true

theorem localFin_yields (rx : Option Segment) (h : Inv t) (hi : t.pcbs i = true)
    (hs : (t.storage i).state = .established) (hl : (t.storage i).listener = none)
    (ho : (t.storage i).outstanding = none) :
    Yields rx t (onErr (t.onConn i Conn.tcpStartLocalFin) fun t err => t.tcpFail i err)
      (Streaming i) := by
  have hopen : (t.storage i).opened = true := by rw [h.links.opened,hi]
  obtain ⟨c,e,he,hm,hok,hbad⟩ := sendFin_eq rx h hi hs hl ho
  have hr : t.onConn i Conn.tcpStartLocalFin = (t.setConn i c,e) := by
    rw [← he]
    simp only [Table.onConn,Conn.tcpStartLocalFin]
    rw [if_neg]
    simp [Table.conn,hopen,ho,hs]
  rw [hr]
  by_cases hc : e = .ok
  · rw [onErr_ok hc]
    exact ⟨.conn hi hm,fun _ => ⟨hi,by simp [Table.setConn,hok hc,TcpState.streaming]⟩⟩
  · rw [onErr_err hc]
    obtain ⟨hd,hw⟩ := hbad hc
    exact fail_yields h hi (by simp [hs]) hd hw hc

end Sending
end Tcp
end QuardStarNet
