import QuardStarNet.StreamSide

/-! The streams of two connected hosts: whatever the network does, each reader gets a
prefix of what the other side sent, and what a sender has seen acknowledged is in the ring
of the receiver or was read from it. -/
namespace QuardStarNet
namespace Tcp

variable {t t' : Table} {i j l : Slot} {s : Segment}

section Lives

/-- Every slot in use stays in use. -/
def Lives (t t' : Table) : Prop := ∀ j, t.pcbs j = true → t'.pcbs j = true

theorem Lives.onOk {r : Table × NetErr} {k : Table → Table × NetErr} (h : Lives t r.1)
    (hk : ∀ t', Lives t t' → Lives t (k t').1) : Lives t (onOk r k).1 := by
  unfold QuardStarNet.onOk
  split
  next => exact hk _ h
  next => exact h

theorem Lives.onErr {r : Table × NetErr} {k : Table → NetErr → Table × NetErr} (h : Lives t r.1)
    (hk : ∀ t' e, Lives t t' → Lives t (k t' e).1) : Lives t (onErr r k).1 := by
  unfold QuardStarNet.onErr
  split
  next => exact h
  next => exact hk _ _ h

/-- The release timer of a slot in use can always be armed. -/
theorem requestRelease_ok (hi : t.pcbs i = true) :
    (t.tcpRequestRelease i).2 = .ok ∧ (t.tcpRequestRelease i).1.pcbs = t.pcbs := by
  cases hr : t.releaseTimers i <;> simp [Table.tcpRequestRelease,Table.modify,hi,netTimerAdd,hr]

theorem Lives.detachChild (h : Lives t t') (i : Slot) (e : NetErr) :
    Lives t (t'.tcpListenerDetachChild i e) := by
  unfold Table.tcpListenerDetachChild
  split
  next => exact h
  next =>
  split
  next => exact h
  next hi =>
    rw [not_not] at hi
    simp only
    split
    next =>
      intro j hj
      rw [(requestRelease_ok (by exact hi)).2]
      exact h j hj
    next hbad => exact absurd (requestRelease_ok (by exact hi)).1 hbad

theorem Lives.fail (h : Lives t t') (i : Slot) (e : NetErr) : Lives t (t'.tcpFail i e).1 := by
  unfold Table.tcpFail
  simp only
  split
  next =>
    have h' : Lives t (t'.modify i fun p => p.tcpTerminate e) := h
    exact h'.detachChild i e
  next => exact h

theorem Lives.onErr_fail {r : Table × NetErr} (h : Lives t r.1) :
    Lives t (QuardStarNet.onErr r fun t e => t.tcpFail i e).1 := h.onErr fun _ e h' => h'.fail i e

theorem Lives.acceptAck (h : Lives t t') (i : Slot) (ack : BitVec 32) :
    Lives t (t'.tcpAcceptAck i ack).1 := by
  unfold Table.tcpAcceptAck
  simp only
  split
  next => exact h
  next =>
  split
  next =>
    split
    next =>
      have h' : Lives t ((t'.modify i fun p => p.tcpAcked ack).onConn i Conn.tcpStartLocalFin).1 := h
      exact h'.onErr_fail
    next => exact h
  next => exact h

theorem Lives.inPeerFin (h : Lives t t') (i : Slot) (state : TcpState) :
    Lives t (t'.tcpInPeerFin i state).1 := by
  unfold Table.tcpInPeerFin
  split
  next =>
    have h' : Lives t ((t'.modify i fun p => { p with state := .timeWait, peerFinSeen := false }).onPcb i
      Pcb.tcpArmTimeWait).1 := h
    exact h'.onErr_fail
  next =>
    split
    next => exact h.detachChild i .state
    next =>
      simp only
      split
      next => exact h
      next =>
        refine Lives.onErr_fail ?_
        exact h
  next => exact h
  next => exact h

theorem Lives.inFin (h : Lives t t') (i : Slot) (s : Segment) : Lives t (t'.tcpInFin i s).1 := by
  unfold Table.tcpInFin
  simp only
  split
  next =>
    refine Lives.onOk (Lives.onErr_fail ?_) fun _ h' => h'.inPeerFin i _
    exact h
  next =>
    split
    next => exact h
    next => exact h

theorem Lives.inData (h : Lives t t') (i : Slot) (s : Segment) : Lives t (t'.tcpInData i s).1 := by
  unfold Table.tcpInData
  refine Lives.onOk ?_ fun _ h' => ?_
  · split
    next =>
      refine Lives.onOk ?_ fun _ h' => h'
      exact h
    next => exact h
  · split
    next => exact h'
    next => exact h'

theorem Lives.inStream (h : Lives t t') (i : Slot) (s : Segment) : Lives t (t'.tcpInStream i s).1 := by
  unfold Table.tcpInStream
  split
  next => exact h
  next =>
    refine Lives.onOk (h.acceptAck i s.ack) fun t₁ h₁ => ?_
    split
    next =>
      refine Lives.onErr_fail ?_
      exact h₁
    next =>
      have h₂ : Lives t (t₁.modify i fun p => { p with window := s.window }) := h₁
      refine Lives.onOk (h₂.inData i s) fun t₃ h₃ => ?_
      split
      next => exact h₃.inFin i s
      next => exact h₃

theorem Lives.inPcb (t : Table) (i : Slot) (s : Segment) : Lives t (t.tcpInPcb i s).1 := by
  have h : Lives t t := fun _ h => h
  unfold Table.tcpInPcb
  split
  next =>
    unfold Table.tcpInTimeWait
    simp only
    split
    next => exact h
    next =>
      refine Lives.onOk (h.acceptAck i s.ack) fun _ h₁ => Lives.onOk ?_ fun _ h₂ => Lives.onErr_fail ?_
      · exact h₁
      · exact h₂
  next =>
    unfold Table.tcpInSynSent
    simp only
    split
    next => exact h
    next =>
    split
    next => exact h
    next =>
      refine Lives.onOk (Lives.onErr_fail ?_) fun _ h' => h'
      exact h
  next =>
    unfold Table.tcpInSynReceived
    simp only
    split
    next => exact h
    next =>
    split
    next =>
      refine Lives.onErr_fail ?_
      exact h
    next =>
    split
    next => exact h
    next =>
      unfold Table.tcpInEstablish
      simp only
      have h' : Lives t (t.modify i fun p => p.handshaken s) := h
      split
      next => exact h'.fail i .state
      next =>
        split
        next => exact h'
        next => exact h'.fail i .state
  next => exact h.inStream i s
  next => exact h.inStream i s
  next => exact h.inStream i s
  next => exact h
  next => exact h

theorem Lives.alloc (t : Table) (a : Bool) : Lives t (t.tcpAlloc a).1 := by
  have h : Lives t t := fun _ h => h
  unfold Table.tcpAlloc
  split
  next => exact h
  next k _ =>
    simp only
    split_ifs
    · exact h
    · exact h
    · exact h
    · intro j hj
      by_cases hjk : j = k
      · simp [hjk]
      · simpa [hjk] using hj

theorem Lives.passiveSyn (t : Table) (l : Slot) (netif : NetifId) (src : IpAddr) (srcPort : Port)
    (seq : BitVec 32) (window : BitVec 16) : Lives t (t.tcpPassiveSyn l netif src srcPort seq window).1 := by
  unfold Table.tcpPassiveSyn
  simp only
  split
  next => exact fun _ h => h
  next =>
  split
  next => exact .alloc t false
  next =>
    refine Lives.onErr ?_ fun _ e h' => h'.detachChild _ e
    exact .alloc t false

/-- No segment makes `tcp_in` clear a slot. -/
theorem Lives.tcpIn (t : Table) (netif : NetifId) (src dest : IpAddr) (buf : List Byte) :
    Lives t (t.tcpIn netif src dest buf).1 := by
  have h : Lives t t := fun _ h => h
  unfold Table.tcpIn
  split
  next => exact h
  next s _ =>
  split
  next => exact h
  next =>
    unfold Table.tcpInSegment
    split
    next i _ => exact .inPcb t i s
    next =>
    split
    next => exact h
    next =>
    split
    next => exact h
    next => exact .passiveSyn t _ _ _ _ _ _

end Lives

variable {c : Setup} {x y : Half} {h : Host} {pr : Pair}

section Deliver

theorem newChildren_nil (t t' : Table) (hn : t.newChildren t' = []) (fates : List NetErr) :
    Side.NoChild (t.ready fates) t' := by
  intro j hj hj' hs
  have hmem : j ∈ t.newChildren t' := by
    have hj₀ : t.pcbs j = false := hj
    simp [Table.newChildren,hj₀,hj',hs]
  simp [hn] at hmem

theorem Side.ready {read : List Byte} {conn : Option Slot} (h : Side x y read conn t) (fates : List NetErr) :
    Side x y read conn (t.ready fates) :=
  ⟨h.inv.congr rfl rfl rfl,h.others,h.live,h.block,h.ring,h.read,by simp⟩

/-- A delivered segment reaches `tcp_in` as it was sent. -/
theorem arrived_arrival (hi : Inv h.tcp) (fates : List NetErr) (netif : Netif) (src : IpAddr) (pkt : Packet) :
    Arrival (h.tcp.ready fates) pkt.seg netif.id src pkt.dest (h.arrived fates netif src pkt) := by
  have hi' : Inv (h.tcp.ready fates) := hi.congr rfl rfl rfl
  unfold Host.arrived Table.tcpIn
  rw [Segment.ofBytes_bytes]
  simp only
  split
  next => exact .moves .refl
  next => exact inSegment_arrival hi' pkt.seg netif.id src pkt.dest

@[simp] theorem receive_tcp (h : Host) (fates : List NetErr) (netif : Netif) (src : IpAddr) (pkt : Packet) :
    (h.receive fates netif src pkt).tcp = h.arrived fates netif src pkt := by
  cases hc : h.conn <;> simp [Host.receive,hc]

/-- An arriving segment that opens no connection. -/
theorem receive_side (hs : Side x y h.read h.conn h.tcp) (hh : x.Hears y) (hb : y.sent.length < 2^31)
    (hg : x.got = h.got) (fates : List NetErr) (netif : Netif) (src : IpAddr) {pkt : Packet}
    (hc : Carries y x pkt.seg) (hn : h.tcp.newChildren (h.arrived fates netif src pkt) = []) :
    ∃ x', x.Grows x' ∧ x'.Hears y ∧ x'.sent = x.sent ∧ x'.got = (h.receive fates netif src pkt).got ∧
      (h.conn = none → x' = x) ∧
      Side x' y h.read (h.receive fates netif src pkt).conn (h.arrived fates netif src pkt) := by
  obtain ⟨x',extra,ha,hn',h'⟩ := (hs.ready fates).arrival (arrived_arrival hs.inv fates netif src pkt)
    hh hb hc (newChildren_nil _ _ hn fates)
  refine ⟨x',ha.grows,ha.hears,ha.sent,?_,hn',?_⟩
  · cases hconn : h.conn with
    | none =>
      rw [hn' hconn,hg]
      simp [Host.receive,hconn]
    | some i =>
      -- the block is still there, so the ring shows what was appended
      have hlive : (h.arrived fates netif src pkt).pcbs i = true :=
        Lives.tcpIn (h.tcp.ready fates) netif.id src pkt.dest pkt.seg.bytes i (hs.live i hconn)
      have hring := h'.ring i (by simp [hconn,Option.filter,hlive])
      rw [ha.got,← hs.ring i hconn,List.append_assoc,List.append_cancel_left_eq] at hring
      simp only [Host.receive,hconn,hring]
      rw [← Ring.contents_length,List.drop_left,ha.got,hg]
  · convert h' using 1
    cases hconn : h.conn with
    | none => simp [Host.receive,hconn,hn]
    | some i => simp [Host.receive,hconn,Option.filter]

theorem slots_filter (k : Slot) : (slots.filter fun i => i == k) = [k] := by
  revert k
  decide

/-- An arriving segment that opens the connection. -/
theorem receive_spawn {read : List Byte} (hs : Side x y read none h.tcp) (hu : x.used = 0) (ht : x.taken = 0)
    (hiss : x.iss = h.tcp.nextIss) (fates : List NetErr) (netif : Netif) (src : IpAddr) {pkt : Packet}
    (hc : Carries y x pkt.seg) (hn : h.tcp.newChildren (h.arrived fates netif src pkt) ≠ []) :
    (∃ l, h.tcp.Listening l) ∧ ∃ j, (h.tcp.newChildren (h.arrived fates netif src pkt)).head? = some j ∧
      Side x y read (some j) (h.arrived fates netif src pkt) := by
  have hs' := hs.ready fates
  have ha := arrived_arrival hs.inv fates netif src pkt
  have hinv := hs'.inv.arrival ha
  revert hn hinv
  generalize h.arrived fates netif src pkt = t' at ha
  intro hn hinv
  obtain ⟨j,hj⟩ := List.exists_mem_of_ne_nil _ hn
  simp only [Table.newChildren,List.mem_filter,mem_slots,true_and,Bool.and_eq_true,Bool.not_eq_true',
    beq_iff_eq] at hj
  obtain ⟨⟨hj,hj'⟩,hstate⟩ := hj
  cases ha with
  | moves hm =>
    have := (Quiet.moves_live hs'.inv hm).2 j hj'
    have hj₀ : (h.tcp.ready fates).pcbs j = false := hj
    simp [hj₀] at this
  | completed =>
    have hj₀ : (h.tcp.ready fates).pcbs j = true := hj'
    have hj₁ : (h.tcp.ready fates).pcbs j = false := hj
    simp [hj₀] at hj₁
  | @spawned l k x₁ y₁ z₁ m p hl hr hk hb hf hp hem =>
    refine ⟨⟨l,hl⟩,k,?_,hs'.spawned hl hk hc hf hp hem hiss hu ht hinv⟩
    have hfilter : h.tcp.newChildren ((h.tcp.ready fates).spawned l k
        (p.started (synAckSegment p) p.sndNxt) m) = slots.filter fun i => i == k := by
      refine List.filter_congr fun i _ => ?_
      by_cases hik : i = k
      · have hk₀ : h.tcp.pcbs k = false := hk
        subst hp
        simp [hik,hk₀,Table.spawned,Pcb.started,Pcb.setOutstanding,Table.passiveChild]
      · cases hpi : h.tcp.pcbs i <;> simp [hik,hpi,Table.spawned,Table.ready]
    rw [hfilter,slots_filter]
    rfl
  | spawnFailed n u e hl hk hb hp hw =>
    rcases (hs'.spawnFailed hl hk hb hp n u e hw hinv).others j hj' (by simp) with h' | h' <;> simp [hstate] at h'

end Deliver

/-- What holds of both hosts and of the network. -/
structure Good (x : Party → Half) (pr : Pair) : Prop where
  sent : ∀ e, (x e).sent = (pr.host e).sent
  got : ∀ e, (x e).got = (pr.host e).got
  hears : ∀ e, (x e).Hears (x e.peer)
  side : ∀ e, Side (x e) (x e.peer) (pr.host e).read (pr.host e).conn (pr.host e).tcp
  inbox : ∀ e, ∀ pkt ∈ pr.inbox e, Carries (x e.peer) (x e) pkt.seg
  only : ∀ j, (pr.host .opener).tcp.pcbs j = true → (pr.host .opener).conn = some j
  fresh : pr.opens = 0 → (pr.host .listener).conn = none ∧
    (x .listener).used = 0 ∧ (x .listener).taken = 0

theorem Party.eq_or_peer (e e' : Party) : e' = e ∨ e' = e.peer := by cases e <;> cases e' <;> decide

namespace Good

variable {x : Party → Half} {e : Party}

/-- One host changed and sent packets. -/
theorem sends (h : Good x pr) (e : Party) {h' : Host} {x' : Half} (hg : (x e).Grows x')
    (hh : x'.Hears (x e.peer)) (hsent : x'.sent = h'.sent) (hgot : x'.got = h'.got)
    (hside : Side x' (x e.peer) h'.read h'.conn h'.tcp)
    (honly : e = .opener → ∀ j, h'.tcp.pcbs j = true → h'.conn = some j)
    (hfresh : pr.opens = 0 → e = .listener → h'.conn = none ∧ x'.used = 0 ∧ x'.taken = 0) :
    Good (Function.update x e x') (pr.sent e h') := by
  have hp : Function.update x e x' e.peer = x e.peer := Function.update_of_ne e.peer_ne _ _
  have hhost : (pr.sent e h').host e.peer = pr.host e.peer := Function.update_of_ne e.peer_ne _ _
  refine ⟨fun e' => ?_,fun e' => ?_,fun e' => ?_,fun e' => ?_,fun e' pkt hpkt => ?_,?_,fun ho => ?_⟩
  · rcases e.eq_or_peer e' with rfl | rfl
    · simpa [Pair.sent] using hsent
    · rw [hp,hhost]
      exact h.sent _
  · rcases e.eq_or_peer e' with rfl | rfl
    · simpa [Pair.sent] using hgot
    · rw [hp,hhost]
      exact h.got _
  · rcases e.eq_or_peer e' with rfl | rfl
    · rw [hp,Function.update_self]
      exact hh
    · rw [hp,Party.peer_peer,Function.update_self]
      have := h.hears e.peer
      rw [Party.peer_peer] at this
      exact this.grows hg
  · rcases e.eq_or_peer e' with rfl | rfl
    · rw [hp,Function.update_self]
      simpa [Pair.sent] using hside
    · rw [hp,hhost,Party.peer_peer,Function.update_self]
      have := h.side e.peer
      rw [Party.peer_peer] at this
      exact this.grows hg
  · rcases e.eq_or_peer e' with rfl | rfl
    · rw [hp,Function.update_self]
      have hpkt' : pkt ∈ pr.inbox e' := by simpa [Pair.sent,e'.peer_ne.symm] using hpkt
      exact (h.inbox e' pkt hpkt').grows (.refl _) hg
    · rw [hp,Party.peer_peer,Function.update_self]
      have hpkt' : pkt ∈ pr.inbox e.peer ∨ pkt ∈ h'.tcp.link.wire := by simpa [Pair.sent] using hpkt
      rcases hpkt' with hold | hnew
      · have := h.inbox e.peer pkt hold
        rw [Party.peer_peer] at this
        exact this.grows hg (.refl _)
      · exact hside.wire pkt hnew
  · cases e with
    | opener => simpa [Pair.sent] using honly rfl
    | listener => simpa [Pair.sent] using h.only
  · cases e with
    | opener => simpa [Pair.sent] using h.fresh ho
    | listener => simpa [Pair.sent] using hfresh ho rfl

theorem call (h : Good x pr) (hb : ∀ e, (pr.host e).sent.length < 2^31) (e : Party) (fates : List NetErr)
    (a : Action) : ∃ x', (∀ e, (x' e).iss = (x e).iss) ∧ Good x' (pr.call e fates a) := by
  unfold Pair.call
  split
  swap
  next => exact ⟨x,fun _ => rfl,h⟩
  next ha =>
    obtain ⟨x',hg,hh,hsent,hgot,hn,hside,hpcbs⟩ := ((h.side e).ready fates).act (h.hears e)
      (by rw [h.sent]; exact hb e.peer) a ha
    refine ⟨_,fun e' => ?_,h.sends e hg hh ?_ ?_ hside ?_ ?_⟩
    · rcases e.eq_or_peer e' with rfl | rfl
      · rw [Function.update_self,hg.iss]
      · rw [Function.update_of_ne e.peer_ne]
    · rw [hsent,h.sent]
      rfl
    · rw [hgot,h.got]
      rfl
    · rintro rfl j hj
      have hconn := h.only j (hpcbs j hj)
      simp only [Host.call] at hj ⊢
      simp [hconn,Option.filter,hj]
    · rintro ho rfl
      obtain ⟨hconn,hu,ht⟩ := h.fresh ho
      rw [hn hconn]
      exact ⟨by simp [Host.call,hconn],hu,ht⟩

theorem lose (h : Good x pr) (e : Party) (k : ℕ) : Good x (pr.lose e k) := by
  refine ⟨h.sent,h.got,h.hears,h.side,fun e' pkt hpkt => ?_,h.only,h.fresh⟩
  by_cases he : e' = e
  · subst he
    exact h.inbox e' pkt (List.mem_of_mem_eraseIdx (by simpa [Pair.lose] using hpkt))
  · exact h.inbox e' pkt (by simpa [Pair.lose,he] using hpkt)

theorem copy (h : Good x pr) (e : Party) (k : ℕ) : Good x (pr.copy e k) := by
  unfold Pair.copy
  split
  next => exact h
  next pkt₀ hk =>
    refine ⟨h.sent,h.got,h.hears,h.side,fun e' pkt hpkt => ?_,h.only,h.fresh⟩
    by_cases he : e' = e
    · subst he
      have hpkt' : pkt ∈ pr.inbox e' ∨ pkt = pkt₀ := by simpa using hpkt
      rcases hpkt' with hold | rfl
      · exact h.inbox e' pkt hold
      · exact h.inbox e' pkt (List.mem_of_getElem? hk)
    · exact h.inbox e' pkt (by simpa [he] using hpkt)

theorem not_listening (h : Good x pr) (l : Slot) : ¬(pr.host .opener).tcp.Listening l := by
  intro hl
  exact ((h.side .opener).block l (h.only l hl.1)).active hl.2

theorem opener_pcbs (h : Good x pr) (fates : List NetErr) (netif : Netif) (src : IpAddr) (pkt : Packet)
    (hj : ((pr.host .opener).arrived fates netif src pkt).pcbs j = true) :
    (pr.host .opener).tcp.pcbs j = true := by
  have hs := (h.side .opener).ready fates
  have ha := arrived_arrival (h.side .opener).inv fates netif src pkt
  revert hj ha
  generalize (pr.host .opener).arrived fates netif src pkt = t'
  intro hj ha
  cases ha with
  | moves hm => exact (Quiet.moves_live hs.inv hm).2 j hj
  | completed => exact hj
  | spawned hl => exact absurd hl (h.not_listening _)
  | spawnFailed n u e hl => exact absurd hl (h.not_listening _)

theorem opener_newChildren (h : Good x pr) (fates : List NetErr) (netif : Netif) (src : IpAddr) (pkt : Packet) :
    (pr.host .opener).tcp.newChildren ((pr.host .opener).arrived fates netif src pkt) = [] := by
  refine List.filter_eq_nil_iff.2 fun j _ hj => ?_
  simp only [Bool.and_eq_true,Bool.not_eq_true'] at hj
  simp [h.opener_pcbs fates netif src pkt hj.1.2] at hj

/-- The delivery of a segment that opens no connection. -/
theorem deliver (h : Good x pr) (hb : ∀ e, (pr.host e).sent.length < 2^31) (e : Party) (fates : List NetErr)
    {k : ℕ} {pkt : Packet} (hk : (pr.inbox e)[k]? = some pkt)
    (hn : (pr.host e).tcp.newChildren
      ((pr.host e).arrived fates (c.netif e) (c.netif e.peer).ipaddr pkt) = []) :
    (pr.deliver c e fates k).opens = pr.opens ∧
      ∃ x', (∀ e, (x' e).iss = (x e).iss) ∧ Good x' (pr.deliver c e fates k) := by
  have htcp := receive_tcp (pr.host e) fates (c.netif e) (c.netif e.peer).ipaddr pkt
  have hread : ((pr.host e).receive fates (c.netif e) (c.netif e.peer).ipaddr pkt).read = (pr.host e).read ∧
      ((pr.host e).receive fates (c.netif e) (c.netif e.peer).ipaddr pkt).sent = (pr.host e).sent := by
    cases hc : (pr.host e).conn <;> simp [Host.receive,hc]
  have heq : pr.deliver c e fates k =
      (pr.lose e k).sent e ((pr.host e).receive fates (c.netif e) (c.netif e.peer).ipaddr pkt) := by
    simp only [Pair.deliver,hk,htcp,hn]
    rfl
  obtain ⟨x',hg,hh,hsent,hgot,hx,hside⟩ := receive_side (h.side e) (h.hears e)
    (by rw [h.sent]; exact hb e.peer) (h.got e) fates (c.netif e) (c.netif e.peer).ipaddr
    (h.inbox e pkt (List.mem_of_getElem? hk)) hn
  refine ⟨by rw [heq]; rfl,Function.update x e x',fun e' => ?_,?_⟩
  · rcases e.eq_or_peer e' with rfl | rfl
    · rw [Function.update_self,hg.iss]
    · rw [Function.update_of_ne e.peer_ne]
  rw [heq]
  refine (h.lose e k).sends e hg hh ?_ hgot ?_ ?_ ?_
  · rw [hsent,h.sent,hread.2]
  · rwa [htcp,hread.1]
  · rintro rfl j hj
    rw [htcp] at hj
    have hconn := h.only j (h.opener_pcbs _ _ _ _ hj)
    simp [Host.receive,hconn,hj]
  · rintro ho rfl
    obtain ⟨hconn,hu,ht⟩ := h.fresh ho
    rw [hx hconn]
    exact ⟨by simp [Host.receive,hconn,hn],hu,ht⟩

/-- The delivery of the SYN that opens the connection. -/
theorem spawn (h : Good x pr) (fates : List NetErr) {k : ℕ} {pkt : Packet}
    (hk : (pr.inbox .listener)[k]? = some pkt) (ho : pr.opens = 0)
    (hiss : (x .listener).iss = (pr.host .listener).tcp.nextIss)
    (hn : (pr.host .listener).tcp.newChildren
      ((pr.host .listener).arrived fates (c.netif .listener) (c.netif .opener).ipaddr pkt) ≠ []) :
    Good x (pr.deliver c .listener fates k) := by
  obtain ⟨hconn,hu,ht⟩ := h.fresh ho
  have hside := h.side .listener
  rw [hconn] at hside
  obtain ⟨-,j,hj,hside'⟩ := receive_spawn hside hu ht hiss fates (c.netif .listener) (c.netif .opener).ipaddr
    (h.inbox .listener pkt (List.mem_of_getElem? hk)) hn
  let h' : Host := { pr.host .listener with
    tcp := (pr.host .listener).arrived fates (c.netif .listener) (c.netif .opener).ipaddr pkt
    conn := some j }
  have hrec : (pr.host .listener).receive fates (c.netif .listener) (c.netif .opener).ipaddr pkt = h' := by
    simp [Host.receive,hconn,hj,h']
  have hpos : 0 < ((pr.host .listener).tcp.newChildren h'.tcp).length := List.length_pos_iff.2 hn
  -- with a positive count nothing is claimed of a fresh end
  let pr' : Pair := { pr with opens := 1 }
  have hG : Good x pr' := ⟨h.sent,h.got,h.hears,h.side,h.inbox,h.only,fun h' => by simp [pr'] at h'⟩
  have hsend : Good (Function.update x .listener (x .listener)) ((pr'.lose .listener k).sent .listener h') :=
    (hG.lose .listener k).sends .listener (.refl _) (h.hears _) (h.sent _) (h.got _) hside'
      (fun he => by cases he) (fun h' => by simp [Pair.lose,pr'] at h')
  rw [Function.update_eq_self] at hsend
  have heq : pr.deliver c .listener fates k = { (pr.lose .listener k).sent .listener h' with
      opens := pr.opens+((pr.host .listener).tcp.newChildren h'.tcp).length } := by
    simp only [Pair.deliver,hk,Party.peer,hrec]
  rw [heq]
  exact ⟨hsend.sent,hsend.got,hsend.hears,hsend.side,hsend.inbox,hsend.only,
    fun h0 => by simp only at h0; omega⟩

end Good

/-- The invariant of a run. The initial sequence number of the listening end is chosen
when the connection is opened. -/
def Streams (pr : Pair) : Prop :=
  ∀ i, ∃ x, (pr.opens = 0 → (x .listener).iss = i) ∧ Good x pr

theorem Streams.step (h : Streams pr) (hb : ∀ e, (pr.host e).sent.length < 2^31) (ev : Event)
    (ho : (pr.step c ev).opens ≤ 1) : Streams (pr.step c ev) := by
  cases ev with
  | call e fates a =>
    intro i
    obtain ⟨x,hx,hG⟩ := h i
    obtain ⟨x',hx',hG'⟩ := hG.call hb e fates a
    refine ⟨x',fun h0 => ?_,hG'⟩
    rw [hx']
    refine hx ?_
    have heq : (pr.call e fates a).opens = pr.opens := by
      unfold Pair.call
      split <;> rfl
    exact heq.symm.trans h0
  | lose e k =>
    intro i
    obtain ⟨x,hx,hG⟩ := h i
    exact ⟨x,hx,hG.lose e k⟩
  | copy e k =>
    intro i
    obtain ⟨x,hx,hG⟩ := h i
    refine ⟨x,fun h0 => hx ?_,hG.copy e k⟩
    have heq : (pr.copy e k).opens = pr.opens := by
      unfold Pair.copy
      split <;> rfl
    exact heq.symm.trans h0
  | deliver e fates k =>
    simp only [Pair.step] at ho ⊢
    cases hk : (pr.inbox e)[k]? with
    | none =>
      have heq : pr.deliver c e fates k = pr := by simp [Pair.deliver,hk]
      rwa [heq]
    | some pkt =>
    by_cases hn : (pr.host e).tcp.newChildren
        ((pr.host e).arrived fates (c.netif e) (c.netif e.peer).ipaddr pkt) = []
    · intro i
      obtain ⟨x,hx,hG⟩ := h i
      obtain ⟨heq,x',hx',hG'⟩ := hG.deliver hb e fates hk hn
      exact ⟨x',fun h0 => by rw [hx']; exact hx (heq ▸ h0),hG'⟩
    · obtain ⟨x,hx,hG⟩ := h (pr.host .listener).tcp.nextIss
      cases e with
      | opener => exact absurd (hG.opener_newChildren ..) hn
      | listener =>
        have hlen := List.length_pos_iff.2 hn
        have hop : (pr.deliver c .listener fates k).opens = pr.opens+((pr.host .listener).tcp.newChildren
            ((pr.host .listener).arrived fates (c.netif .listener) (c.netif .opener).ipaddr pkt)).length := by
          cases hc : (pr.host .listener).conn <;> simp [Pair.deliver,hk,Host.receive,hc,Party.peer]
        have h0 : pr.opens = 0 := by
          have := hlen
          simp only [Party.peer] at this
          omega
        refine fun i => ⟨x,fun h1 => ?_,hG.spawn fates hk h0 (hx h0) hn⟩
        simp only [Party.peer] at hlen
        omega

section Start

/-- An end before its first byte. -/
def Half.blank (iss : BitVec 32) : Half := ⟨iss,[],false,[],false⟩

theorem boot_alloc (c : Setup) (e : Party) : ((c.boot e).tcpAlloc true).1 =
    (c.boot e).allocated 0 true (some 0) (some 0) (some 0) ⟨[],[]⟩ := rfl

theorem boot_inv (c : Setup) (e : Party) : Inv ((c.boot e).tcpAlloc true).1 := by
  have h : Inv (c.boot e) := Inv.init.congr rfl rfl rfl
  rw [boot_alloc]
  exact h.allocated rfl true _ _ _ _

theorem boot_pcbs (c : Setup) (e : Party) {j : Slot} (h : ((c.boot e).tcpAlloc true).1.pcbs j = true) : j = 0 := by
  by_contra hj
  rw [boot_alloc] at h
  simp [Table.allocated,hj,Setup.boot,tcpInit] at h

/-- The opener after its `SYN` was sent. -/
theorem connect_eq (hc : c.connect.2 = .ok) : ∃ port next k n q,
    q = ((c.boot .opener).tcpAlloc true).1.connecting (c.netif .opener) (c.netif .listener).ipaddr port c.port
      (((c.boot .opener).tcpAlloc true).1.storage 0) ∧
    c.connect.1 = ((c.boot .opener).tcpAlloc true).1.connected 0 q next k .ok ∧ Inv c.connect.1 ∧
    c.connect.1.pcbs 0 = true ∧
    c.connect.1.storage 0 = { q.started (synSegment q) q.sndNxt with state := .synSent } ∧
    c.connect.1.link.wire = [⟨n,q.remoteIp,synSegment q⟩] := by
  have hboot := boot_inv c .opener
  unfold Setup.connect at hc ⊢
  rcases tcpConnectStart_cases none hboot 0 (c.netif .opener) (c.netif .listener).ipaddr c.port with
    ⟨t',e,he,hne,-⟩ | ⟨port,next,k,e,he,hi,hconn,hat⟩
  · exact absurd (by simpa [he] using hc) hne
  obtain rfl : e = .ok := by simpa [he] using hc
  obtain ⟨-,n,-,hw⟩ := hat.resolve_right fun h => h.1 rfl
  have hinv := hboot.connected hi hconn (c.netif .opener) (c.netif .listener).ipaddr port c.port next k .ok
  rw [he]
  exact ⟨port,next,k,n,_,rfl,rfl,hinv,hi,by simp [Table.connected],hw⟩

theorem connect_side (hc : c.connect.2 = .ok) (y : Half) :
    Side (.blank (c.iss .opener)) y [] (some 0) c.connect.1 ∧
      ∀ j, c.connect.1.pcbs j = true → some (0 : Slot) = some j := by
  obtain ⟨port,next,k,n,q,hq,he,hinv,hi,hst,hw⟩ := connect_eq hc
  have hiss : q.iss = c.iss .opener ∧ q.sndUna = c.iss .opener ∧ q.sndNxt = c.iss .opener+1 ∧
      q.netif ≠ none ∧ q.recv.contents = [] := by
    subst hq
    exact ⟨rfl,rfl,rfl,by rintro ⟨⟩,Ring.clear_contents _⟩
  have hone : ∀ j, c.connect.1.pcbs j = true → (0 : Slot) = j := fun j hj => by
    rw [he] at hj
    rw [boot_pcbs c .opener hj]
  have hsyn : Carries (.blank (c.iss .opener)) y (synSegment q) :=
    .syn (by simp [synSegment]) (by simp [synSegment]) (by simp [synSegment,hiss.1,Half.blank])
  refine ⟨⟨hinv,fun j hj hne => ?_,fun i hi' => ?_,fun i hi' => ?_,fun i hi' => ?_,List.prefix_refl _,
    fun pkt hpkt => ?_⟩,fun j hj => by rw [hone j hj]⟩
  · exact absurd (by rw [hone j hj]) hne
  · obtain rfl : (0 : Slot) = i := by simpa using hi'
    exact hi
  · obtain rfl : (0 : Slot) = i := by simpa using hi'
    rw [hst]
    refine ⟨hiss.1,.inl hiss.2.1,fun seg ho => ?_,fun _ => ⟨rfl,rfl⟩,fun _ => ?_,fun _ h => absurd rfl h,
      by simp,fun _ => hiss.2.2.2.1,by simp⟩
    · obtain rfl : synSegment q = seg := by simpa [Pcb.started,Pcb.setOutstanding] using ho
      exact hsyn
    · simpa [Half.blank,Half.used,Half.seqAt,Pcb.started,Pcb.setOutstanding] using hiss.2.2.1
  · obtain rfl : (0 : Slot) = i := by simpa using hi'
    rw [hst]
    simpa [Half.blank,Pcb.started,Pcb.setOutstanding] using hiss.2.2.2.2
  · obtain rfl : pkt = ⟨n,q.remoteIp,synSegment q⟩ := by simpa [hw] using hpkt
    exact hsyn

theorem listen_side (c : Setup) (x y : Half) (hh : x.Hears y) (hb : y.sent.length < 2^31) :
    Side x y [] none c.listen := by
  have h₀ : Side x y [] none ((c.boot .listener).tcpAlloc true).1 := by
    refine ⟨boot_inv c .listener,fun j hj _ => .inl ?_,by rintro _ ⟨⟩,by rintro _ ⟨⟩,by rintro _ ⟨⟩,List.nil_prefix,by rintro _ ⟨⟩⟩
    rw [boot_pcbs c .listener hj]
    rfl
  obtain ⟨x₁,_,-,hx₁,h₁⟩ := h₀.moves (bind_moves none _ 0 (c.netif .listener) 0 c.port) hh hb (by simp)
  rw [hx₁ rfl] at h₁
  unfold Setup.listen
  generalize (((c.boot .listener).tcpAlloc true).1.tcpBind 0 (c.netif .listener) 0 c.port).1 = t at h₁ ⊢
  have h₁' : Side x y [] none t := h₁
  rcases tcpListen_cases none t 0 c.backlog with ⟨t',e,he,hm⟩ | ⟨a,k,he,hi,-,hs,hone,hb₁,hb₂,hw⟩
  · obtain ⟨x₂,_,-,hx₂,h₂⟩ := h₁'.moves hm hh hb (by simp)
    rw [hx₂ rfl] at h₂
    simpa [he] using h₂
  · rw [he]
    refine h₁'.put (.refl none hh) ((t.storage 0).listening c.backlog a)
      (h₁'.inv.listening hi hs hone ⟨hb₁,hb₂⟩ a k) rfl rfl (fun pkt hpkt => .inl (hw ▸ hpkt)) (by simp)
      fun _ => ⟨rfl,rfl,fun _ => .inr rfl⟩

theorem Streams.start (hc : c.connect.2 = .ok) : Streams c.start := by
  intro i
  let x : Party → Half := Party.rec (.blank (c.iss .opener)) (.blank i)
  have hh : ∀ e, (x e).Hears (x e.peer) := by
    intro e
    cases e <;> exact ⟨List.prefix_refl _,by rintro ⟨⟩⟩
  obtain ⟨hA,honly⟩ := connect_side hc (x .listener)
  refine ⟨x,fun _ => rfl,⟨?_,?_,hh,?_,?_,honly,fun _ => ⟨rfl,rfl,rfl⟩⟩⟩
  · intro e
    cases e <;> rfl
  · intro e
    cases e <;> rfl
  · intro e
    cases e with
    | opener => exact hA
    | listener => exact listen_side c _ _ (hh .listener) (by simp [x,Half.blank,Party.peer])
  · intro e pkt hpkt
    cases e with
    | opener => simp [Setup.start] at hpkt
    | listener => exact hA.wire pkt hpkt

end Start

section Run

theorem step_mono (pr : Pair) (ev : Event) (e : Party) :
    (pr.host e).sent.length ≤ ((pr.step c ev).host e).sent.length ∧ pr.opens ≤ (pr.step c ev).opens := by
  cases ev with
  | call e' fates a =>
    simp only [Pair.step,Pair.call]
    split
    swap
    next => exact ⟨le_rfl,le_rfl⟩
    next =>
      by_cases he : e = e'
      · subst he
        simp [Pair.sent,Host.call]
      · simp [Pair.sent,he]
  | lose e' k => exact ⟨le_rfl,le_rfl⟩
  | copy e' k =>
    simp only [Pair.step,Pair.copy]
    split <;> exact ⟨le_rfl,le_rfl⟩
  | deliver e' fates k =>
    simp only [Pair.step,Pair.deliver]
    split
    next => exact ⟨le_rfl,le_rfl⟩
    next =>
      refine ⟨?_,by simp⟩
      by_cases he : e = e'
      · subst he
        cases hc : (pr.host e).conn <;> simp [Pair.sent,Host.receive,hc]
      · simp [Pair.sent,Pair.lose,he]

theorem run_mono (pr : Pair) (events : List Event) (e : Party) :
    (pr.host e).sent.length ≤ ((pr.run c events).host e).sent.length ∧ pr.opens ≤ (pr.run c events).opens := by
  induction events generalizing pr with
  | nil => exact ⟨le_rfl,le_rfl⟩
  | cons ev events ih =>
    have h₁ := step_mono (c := c) pr ev e
    have h₂ := ih (pr.step c ev)
    exact ⟨h₁.1.trans h₂.1,h₁.2.trans h₂.2⟩

theorem Streams.run (h : Streams pr) (events : List Event) (ho : (pr.run c events).opens ≤ 1)
    (hb : ∀ e, ((pr.run c events).host e).sent.length < 2^31) : Streams (pr.run c events) := by
  induction events generalizing pr with
  | nil => exact h
  | cons ev events ih =>
    refine ih (h.step ?_ ev ?_) ho hb
    · exact fun e => (run_mono pr (ev::events) e).1.trans_lt (hb e)
    · exact (run_mono (pr.step c ev) events .opener).2.trans ho

end Run

/-- The bytes in the receive ring of the connection. -/
def Host.ring (h : Host) : List Byte :=
  match h.conn with
  | none => []
  | some i => (h.tcp.storage i).recv.contents

/-- Positions below an acknowledged sequence number were taken by the peer. -/
theorem Endpoint.acknowledged {p : Pcb} (h : Endpoint x y p) (hh : y.Hears x) (hb : x.sent.length < 2^31) {k : ℕ}
    (hk : k < x.sent.length) (hlt : (p.iss+1+BitVec.ofNat 32 k-p.sndUna).toInt < 0) : k < y.got.length := by
  have hseq : p.iss+1+BitVec.ofNat 32 k = x.seqAt k := by rw [h.iss,Half.seqAt]
  have hpos : ∀ n, n < 2^31 → 0 ≤ (BitVec.ofNat 32 n).toInt := by
    intro n hn
    rw [BitVec.toInt_eq_toNat_of_lt (by simp; omega)]
    exact Int.natCast_nonneg _
  rw [hseq] at hlt
  rcases h.una with hu | ⟨m,hm,hu⟩
  · -- nothing was acknowledged yet
    have hd : x.seqAt k-p.sndUna = BitVec.ofNat 32 (k+1) := by
      rw [hu,Half.seqAt,BitVec.ofNat_add]
      generalize BitVec.ofNat 32 k = b
      bv_omega
    rw [hd] at hlt
    exact absurd (hpos (k+1) (by omega)) (by omega)
  · have hkm : k < m := by
      by_contra hle
      have hd : x.seqAt k-p.sndUna = BitVec.ofNat 32 (k-m) := by
        have hadd := Half.seqAt_add x m (k-m)
        rw [Nat.add_sub_cancel' (by omega)] at hadd
        rw [hu,← hadd,BitVec.add_comm,BitVec.add_sub_cancel]
      rw [hd] at hlt
      exact absurd (hpos (k-m) (by omega)) (by omega)
    by_cases hf : y.peerFin = true
    · rwa [(hh.fin hf).2]
    · simp only [Half.taken,Bool.eq_false_iff.2 hf,Bool.toNat_false] at hm
      omega

/-- Whatever the network does to the segments of the connection, in both directions: what
was read and what waits in the ring is a prefix of what the peer was given to send, and
what a sender has seen acknowledged was appended to the ring of its peer. -/
theorem run_streams_intact (c : Setup) (events : List Event) (hc : c.connect.2 = .ok)
    (ho : (c.start.run c events).opens ≤ 1)
    (hb : ∀ e, ((c.start.run c events).host e).sent.length < 2^31) (e : Party) :
    let a := (c.start.run c events).host e
    let b := (c.start.run c events).host e.peer
    b.read++b.ring <+: a.sent ∧
    (∀ i, a.conn = some i → ∀ k < a.sent.length,
      ((a.tcp.storage i).iss+1+BitVec.ofNat 32 k-(a.tcp.storage i).sndUna).toInt < 0 → k < b.got.length) ∧
    b.got <+: a.sent ∧ (b.conn ≠ none → b.read++b.ring = b.got) := by
  obtain ⟨x,-,hG⟩ := (Streams.start hc).run events ho hb 0
  intro a b
  have hhears := hG.hears e.peer
  rw [Party.peer_peer] at hhears
  have hgot : b.got <+: a.sent := by
    rw [← hG.got e.peer,← hG.sent e]
    exact hhears.got
  have hring : b.conn ≠ none → b.read++b.ring = b.got := by
    intro hne
    obtain ⟨i,hi⟩ := Option.ne_none_iff_exists'.1 hne
    rw [← hG.got e.peer,Host.ring,hi]
    exact (hG.side e.peer).ring i hi
  refine ⟨?_,fun i hi k hk hlt => ?_,hgot,hring⟩
  · cases hconn : b.conn with
    | none =>
      rw [Host.ring,hconn,List.append_nil]
      have := (hG.side e.peer).read
      rw [hG.got e.peer] at this
      exact this.trans hgot
    | some i =>
      rw [hring (by simp [hconn])]
      exact hgot
  · rw [← hG.got e.peer]
    rw [← hG.sent e] at hk
    refine ((hG.side e).block i hi).acknowledged hhears ?_ hk hlt
    rw [hG.sent e]
    exact hb e

/-- 10.0.0.1 connects to port 80 of 10.0.0.2. -/
def lan : Setup where
  netif
    | .opener => ⟨1,true,0x0a000001⟩
    | .listener => ⟨1,true,0x0a000002⟩
  port := 80
  iss
    | .opener => 1000
    | .listener => 7000
  ephemeral := 49152
  backlog := 2

/-- The three segments of the handshake, and the child is accepted. -/
def handshake : List Event :=
  [.deliver .listener [] 0,.deliver .opener [] 0,.deliver .listener [] 0,
    .call .listener [] (.tcpAcceptAcquire 0),.call .listener [] (.tcpAcceptPeek 0),
    .call .listener [] (.tcpAcceptCommit 0 1)]

/-- Three bytes of which a copy arrives after a reader took two of them. -/
def exchange : List Event :=
  handshake++[.call .opener [] (.tcpSendStart 0 [1,2,3]),.copy .listener 0,.deliver .listener [] 0,
    .call .listener [] (.tcpRecvTake 1 2),.deliver .listener [] 0,.deliver .opener [] 1]

theorem run_streams_intact_exchange :
    ((lan.start.run lan exchange).host .listener).read = [1,2] ∧
    ((lan.start.run lan exchange).host .listener).ring = [3] ∧
    ((lan.start.run lan exchange).host .listener).read++((lan.start.run lan exchange).host .listener).ring <+:
      ((lan.start.run lan exchange).host .opener).sent := by
  have ho : (lan.start.run lan exchange).opens ≤ 1 := by decide +kernel
  have hA : ((lan.start.run lan exchange).host .opener).sent.length < 2^31 := by decide +kernel
  have hB : ((lan.start.run lan exchange).host .listener).sent.length < 2^31 := by decide +kernel
  refine ⟨by decide +kernel,by decide +kernel,?_⟩
  have h := run_streams_intact lan exchange (by decide +kernel) ho (fun e => by cases e; exacts [hA,hB]) .opener
  simp only [Party.peer] at h
  exact h.1

end Tcp
end QuardStarNet
