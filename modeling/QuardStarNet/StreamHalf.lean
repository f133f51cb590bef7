import QuardStarNet.TcpUsers

/-! One end of a connection between two hosts that both run this TCP: the history of its
stream, what its block and its segments say about that history, and the proof that every
move of the table keeps them in agreement. The peer enters only through the segments it
sent. -/
namespace QuardStarNet
namespace Tcp

/-- The history of one end of a connection: its initial sequence number, the bytes it was
given to send, whether its FIN went out, the bytes it appended to its ring and whether it
took the FIN of its peer. -/
structure Half where
  iss : BitVec 32
  sent : List Byte
  fin : Bool
  got : List Byte
  peerFin : Bool

namespace Half

/-- The sequence number of byte `n` of the stream. -/
def seqAt (x : Half) (n : ℕ) : BitVec 32 := x.iss+1+BitVec.ofNat 32 n

/-- Sequence numbers used after the SYN. -/
def used (x : Half) : ℕ := x.sent.length+x.fin.toNat

/-- Sequence numbers of the peer taken after its SYN. -/
def taken (x : Half) : ℕ := x.got.length+x.peerFin.toNat

/-- A later history of the same end. -/
structure Grows (x x' : Half) : Prop where
  iss : x'.iss = x.iss
  sent : x.sent <+: x'.sent
  fin : x.fin = true → x'.fin = true ∧ x'.sent = x.sent
  got : x.got <+: x'.got
  peerFin : x.peerFin = true → x'.peerFin = true

/-- What `x` took is what `y` sent. -/
structure Hears (x y : Half) : Prop where
  got : x.got <+: y.sent
  fin : x.peerFin = true → y.fin = true ∧ x.got = y.sent

variable {x x' y y' : Half}

theorem Grows.refl (x : Half) : x.Grows x :=
  ⟨rfl,List.prefix_refl _,fun h => ⟨h,rfl⟩,List.prefix_refl _,id⟩

theorem Grows.trans {x'' : Half} (h : x.Grows x') (h' : x'.Grows x'') : x.Grows x'' where
  iss := h'.iss.trans h.iss
  sent := h.sent.trans h'.sent
  fin hf := by
    obtain ⟨h1,h2⟩ := h.fin hf
    exact ⟨(h'.fin h1).1,(h'.fin h1).2.trans h2⟩
  got := h.got.trans h'.got
  peerFin hf := h'.peerFin (h.peerFin hf)

theorem Grows.seqAt (h : x.Grows x') (n : ℕ) : x'.seqAt n = x.seqAt n := by
  rw [Half.seqAt,h.iss,Half.seqAt]

theorem Grows.taken (h : x.Grows x') : x.taken ≤ x'.taken := by
  have hl := h.got.length_le
  have hf := h.peerFin
  have hb : x.peerFin.toNat ≤ x'.peerFin.toNat := by
    cases hx : x.peerFin with
    | false => exact Nat.zero_le _
    | true => rw [hf hx]
  exact Nat.add_le_add hl hb

theorem Hears.grows (h : x.Hears y) (hg : y.Grows y') : x.Hears y' where
  got := h.got.trans hg.sent
  fin hf := by
    obtain ⟨h1,h2⟩ := h.fin hf
    exact ⟨(hg.fin h1).1,h2.trans (hg.fin h1).2.symm⟩

theorem seqAt_zero (x : Half) : x.seqAt 0 = x.iss+1 := by simp [seqAt]

theorem seqAt_add (x : Half) (m n : ℕ) : x.seqAt m+BitVec.ofNat 32 n = x.seqAt (m+n) := by
  rw [seqAt,seqAt,BitVec.ofNat_add,BitVec.add_assoc]

theorem seqAt_succ (x : Half) (n : ℕ) : x.seqAt n+1 = x.seqAt (n+1) := seqAt_add x n 1

/-- Positions below `2^32` have different sequence numbers. -/
theorem seqAt_inj {m n : ℕ} (h : x.seqAt m = x.seqAt n) (hm : m < 2^32) (hn : n < 2^32) : m = n := by
  have h' := congrArg BitVec.toNat ((BitVec.add_right_inj (x.iss+1)).1 h)
  rwa [BitVec.toNat_ofNat,BitVec.toNat_ofNat,Nat.mod_eq_of_lt hm,Nat.mod_eq_of_lt hn] at h'

theorem Hears.taken_lt (h : x.Hears y) (hb : y.sent.length < 2^31) : x.taken < 2^32 := by
  have hl := h.got.length_le
  have hf : x.peerFin.toNat ≤ 1 := Bool.toNat_le _
  unfold taken
  omega

/-- Data at the expected position continues the received stream. -/
theorem Hears.append (h : x.Hears y) (hb : y.sent.length < 2^31) {k : ℕ} {data : List Byte}
    (hk : y.seqAt k = y.seqAt x.taken) (hd : data <+: y.sent.drop k) (hne : 0 < data.length) :
    x.peerFin = false ∧ Hears { x with got := x.got++data } y := by
  have hlen := hd.length_le
  rw [List.length_drop] at hlen
  obtain rfl : k = x.taken := seqAt_inj hk (by omega) (h.taken_lt hb)
  have hfin : x.peerFin = false := by
    by_contra hf
    have hf' : x.peerFin = true := by simpa using hf
    have hl : x.taken = y.sent.length+1 := by simp [taken,hf',(h.fin hf').2]
    omega
  refine ⟨hfin,⟨?_,fun hf => by simp [hfin] at hf⟩⟩
  obtain ⟨rest,hrest⟩ := h.got
  rw [taken,hfin,← hrest] at hd
  simp only [Bool.toNat_false,Nat.add_zero,List.drop_left] at hd
  rw [← hrest]
  exact (List.prefix_append_right_inj _).2 hd

/-- A FIN at the expected position ends the received stream. -/
theorem Hears.finish (h : x.Hears y) (hb : y.sent.length < 2^31) (hf : y.fin = true)
    (hk : y.seqAt y.sent.length = y.seqAt x.taken) :
    x.peerFin = false ∧ Hears { x with peerFin := true } y := by
  have hl := seqAt_inj hk (by omega) (h.taken_lt hb)
  have hfin : x.peerFin = false := by
    by_contra hc
    have hc' : x.peerFin = true := by simpa using hc
    simp [taken,hc',(h.fin hc').2] at hl
  refine ⟨hfin,⟨h.got,fun _ => ⟨hf,?_⟩⟩⟩
  refine h.got.eq_of_length ?_
  simpa [taken,hfin] using hl.symm

end Half

/-- The segment acknowledges no more than `x` took from `y`. -/
def Acknowledges (x y : Half) (seg : Segment) : Prop := ∃ m ≤ x.taken, seg.ack = y.seqAt m

/-- The segments of a connection that `x` sends to `y`. -/
inductive Carries (x y : Half) (seg : Segment) : Prop
  | syn : seg.flags = flagSyn → seg.payload = [] → seg.seq = x.iss → Carries x y seg
  | synAck : seg.flags = flagSyn ||| flagAck → seg.payload = [] → seg.seq = x.iss →
      Acknowledges x y seg → Carries x y seg
  | ack : seg.flags = flagAck → seg.payload = [] → Acknowledges x y seg → Carries x y seg
  | data (k : ℕ) : seg.flags = flagPsh ||| flagAck → seg.seq = x.seqAt k →
      seg.payload <+: x.sent.drop k → Acknowledges x y seg → Carries x y seg
  | fin : seg.flags = flagFin ||| flagAck → seg.payload = [] → x.fin = true →
      seg.seq = x.seqAt x.sent.length → Acknowledges x y seg → Carries x y seg

namespace Carries

variable {x x' y y' : Half} {seg : Segment}

theorem grows (h : Carries x y seg) (hx : x.Grows x') (hy : y.Grows y') : Carries x' y' seg := by
  have ha : Acknowledges x y seg → Acknowledges x' y' seg := fun ⟨m,hm,hs⟩ =>
    ⟨m,hm.trans hx.taken,hs.trans (hy.seqAt m).symm⟩
  cases h with
  | syn hf hp hs => exact .syn hf hp (hs.trans hx.iss.symm)
  | synAck hf hp hs hk => exact .synAck hf hp (hs.trans hx.iss.symm) (ha hk)
  | ack hf hp hk => exact .ack hf hp (ha hk)
  | data k hf hs hp hk => exact .data k hf (hs.trans (hx.seqAt k).symm) (hp.trans (hx.sent.drop k)) (ha hk)
  | fin hf hp hx' hs hk =>
    refine .fin hf hp (hx.fin hx').1 ?_ (ha hk)
    rw [hs,(hx.fin hx').2,hx.seqAt]

theorem acknowledges (h : Carries x y seg) (hf : seg.has flagAck = true) : Acknowledges x y seg := by
  cases h with
  | syn hs =>
    rw [Segment.has,hs] at hf
    exact absurd hf (by decide)
  | synAck _ _ _ ha | ack _ _ ha | data _ _ _ _ ha | fin _ _ _ _ ha => exact ha

/-- A SYN-ACK starts at the initial sequence number of its sender. -/
theorem seq_of_synAck (h : Carries x y seg) (hf : seg.flags = flagSyn ||| flagAck) : seg.seq = x.iss := by
  cases h with
  | synAck _ _ hs => exact hs
  | syn h' | ack h' | data _ h' | fin h' => exact absurd (h'.symm.trans hf) (by decide)

theorem seq_of_syn (h : Carries x y seg) (hf : seg.flags = flagSyn) : seg.seq = x.iss := by
  cases h with
  | syn _ _ hs => exact hs
  | synAck h' | ack h' | data _ h' | fin h' => exact absurd (h'.symm.trans hf) (by decide)

/-- The position of a payload in the stream of its sender. -/
theorem payload (h : Carries x y seg) (hp : 0 < seg.payload.length) :
    ∃ k, seg.seq = x.seqAt k ∧ seg.payload <+: x.sent.drop k := by
  cases h with
  | data k _ hs hd => exact ⟨k,hs,hd⟩
  | syn _ h' | synAck _ h' | ack _ h' | fin _ h' => simp [h'] at hp

theorem finish (h : Carries x y seg) (hf : seg.has flagFin = true) :
    x.fin = true ∧ seg.payload = [] ∧ seg.seq = x.seqAt x.sent.length := by
  cases h with
  | fin _ hp hx hs => exact ⟨hx,hp,hs⟩
  | syn h' | synAck h' | ack h' | data _ h' =>
    rw [Segment.has,h'] at hf
    exact absurd hf (by decide)

end Carries

/-- What the block of a connection says about the history of its end. -/
structure Endpoint (x y : Half) (p : Pcb) : Prop where
  iss : p.iss = x.iss
  una : p.sndUna = x.iss ∨ ∃ m ≤ y.taken, p.sndUna = x.seqAt m
  owned : ∀ seg, p.outstanding = some seg → Carries x y seg
  opening : p.state = .synSent ∨ p.state = .synReceived → x.used = 0 ∧ x.taken = 0
  sndNxt : p.state ≠ .closed → p.sndNxt = x.seqAt x.used
  rcvNxt : p.state ≠ .closed → p.state ≠ .synSent → p.rcvNxt = y.seqAt x.taken
  unfinished : p.state = .established → x.fin = false
  route : p.state ≠ .closed → p.netif ≠ none
  active : p.state ≠ .listen

/-- A step of one end while `rx` is being processed: it may append `extra` to the ring. -/
structure Advance (rx : Option Segment) (y x x' : Half) (extra : List Byte) : Prop where
  grows : x.Grows x'
  sent : x'.sent = x.sent
  got : x'.got = x.got++extra
  idle : rx = none → extra = []
  hears : x'.Hears y

variable {x x' y y' : Half} {rx : Option Segment} {p p' : Pcb}

theorem Advance.refl (rx : Option Segment) (h : x.Hears y) : Advance rx y x x [] :=
  ⟨.refl x,rfl,by simp,fun _ => rfl,h⟩

theorem Advance.trans {x'' : Half} {e e' : List Byte} (h : Advance rx y x x' e) (h' : Advance rx y x' x'' e') :
    Advance rx y x x'' (e++e') :=
  ⟨h.grows.trans h'.grows,h'.sent.trans h.sent,by rw [h'.got,h.got,List.append_assoc],
    fun hr => by rw [h.idle hr,h'.idle hr]; rfl,h'.hears⟩

namespace Endpoint

theorem grows (h : Endpoint x y p) (hy : y.Grows y') : Endpoint x y' p where
  iss := h.iss
  una := h.una.imp_right fun ⟨m,hm,hs⟩ => ⟨m,hm.trans hy.taken,hs⟩
  owned seg ho := (h.owned seg ho).grows (.refl x) hy
  opening := h.opening
  sndNxt := h.sndNxt
  rcvNxt hc hs := by rw [h.rcvNxt hc hs,hy.seqAt]
  unfinished := h.unfinished
  route := h.route
  active := h.active

/-- A block that is closed while its connection remains in the slot. -/
theorem of_closed (hi : p.iss = x.iss) (hu : p.sndUna = x.iss ∨ ∃ m ≤ y.taken, p.sndUna = x.seqAt m)
    (ho : p.outstanding = none) (hs : p.state = .closed) : Endpoint x y p where
  iss := hi
  una := hu
  owned seg h := by simp [ho] at h
  opening h := by simp [hs] at h
  sndNxt h := absurd hs h
  rcvNxt h := absurd hs h
  unfinished h := by simp [hs] at h
  route h := absurd hs h
  active := by simp [hs]

theorem terminated (h : Endpoint x y p) (ht : p.Terminated p') : Endpoint x y p' ∧ p'.recv = p.recv := by
  obtain ⟨u,w,r,n,e,rfl,hu⟩ := ht
  obtain ⟨a,b,c,he⟩ := Pcb.tcpTerminate_eq { p with sndUna := u, window := w, rcvNxt := r, retryCount := n } e
  rw [he]
  refine ⟨.of_closed h.iss ?_ rfl rfl,rfl⟩
  rcases hu with ⟨rfl,-⟩ | ⟨rfl,-⟩
  · exact h.una
  · exact .inr ⟨0,Nat.zero_le _,by rw [x.seqAt_zero,← h.iss]⟩

/-- Completing the outstanding segment. -/
theorem acked (h : Endpoint x y p) {s : Segment} (hs : Carries y x s) (hf : s.has flagAck = true)
    (hc : p.state ≠ .closed) (hn : p.state ≠ .synSent) (state : TcpState)
    (hstate : state = p.state ∨ state = .finWait2 ∨ state = .timeWait) (ho : p'.outstanding = none)
    (hu : p'.sndUna = s.ack) (hst : p'.state = state)
    (hr : p'.iss = p.iss ∧ p'.sndNxt = p.sndNxt ∧ p'.rcvNxt = p.rcvNxt ∧ p'.netif = p.netif) :
    Endpoint x y p' where
  iss := hr.1.trans h.iss
  una := by
    obtain ⟨m,hm,ha⟩ := hs.acknowledges hf
    exact .inr ⟨m,hm,hu.trans ha⟩
  owned seg h' := by simp [ho] at h'
  opening h' := by
    rw [hst] at h'
    rcases hstate with rfl | rfl | rfl
    · exact h.opening h'
    · simp at h'
    · simp at h'
  sndNxt _ := hr.2.1.trans (h.sndNxt hc)
  rcvNxt _ _ := hr.2.2.1.trans (h.rcvNxt hc hn)
  unfinished h' := by
    rw [hst] at h'
    rcases hstate with rfl | rfl | rfl
    · exact h.unfinished h'
    · simp at h'
    · simp at h'
  route _ := by
    rw [hr.2.2.2]
    exact h.route hc
  active := by
    rw [hst]
    rcases hstate with rfl | rfl | rfl
    · exact h.active
    · simp
    · simp

end Endpoint

theorem streaming_ne {s : TcpState} (h : s.streaming = true) :
    s ≠ .closed ∧ s ≠ .synSent ∧ s ≠ .synReceived := by
  cases s <;> simp_all [TcpState.streaming]

/-- In-order data. -/
theorem Endpoint.queue (h : Endpoint x y p) (hh : x.Hears y) (hb : y.sent.length < 2^31) {s : Segment}
    (hc : Carries y x s) (hst : p.state.streaming = true) (hq : s.seq = p.rcvNxt)
    (hp : 0 < s.payload.length) (r : Ring Byte recvMax) (b : Sem) :
    Endpoint { x with got := x.got++s.payload } y { p with
      recv := r, recvDone := b, rcvNxt := p.rcvNxt+BitVec.ofNat 32 s.payload.length } ∧
    Advance (some s) y x { x with got := x.got++s.payload } s.payload := by
  obtain ⟨h1,h2,h3⟩ := streaming_ne hst
  obtain ⟨k,hk,hd⟩ := hc.payload hp
  have hr := h.rcvNxt h1 h2
  obtain ⟨hf,hh'⟩ := hh.append hb (hk.symm.trans (hq.trans hr)) hd hp
  have hg : x.Grows { x with got := x.got++s.payload } :=
    ⟨rfl,List.prefix_refl _,fun h => ⟨h,rfl⟩,List.prefix_append _ _,id⟩
  refine ⟨⟨h.iss,h.una,fun seg ho => (h.owned seg ho).grows hg (.refl y),fun ho => ?_,h.sndNxt,fun _ _ => ?_,
    h.unfinished,h.route,h.active⟩,⟨hg,rfl,rfl,by simp,hh'⟩⟩
  · rcases ho with ho | ho
    · exact absurd ho h2
    · exact absurd ho h3
  · simp only
    rw [hr,Half.seqAt_add]
    simp [Half.taken,hf]

/-- The FIN of the peer in order. -/
theorem Endpoint.finSeen (h : Endpoint x y p) (hh : x.Hears y) (hb : y.sent.length < 2^31) {s : Segment}
    (hc : Carries y x s) (hst : p.state.streaming = true) (hf : s.has flagFin = true)
    (hq : s.seq+BitVec.ofNat 32 s.payload.length = p.rcvNxt) :
    Endpoint { x with peerFin := true } y { p with rcvNxt := p.rcvNxt+1 } ∧
    Advance (some s) y x { x with peerFin := true } [] := by
  obtain ⟨h1,h2,h3⟩ := streaming_ne hst
  obtain ⟨hy,hp,hs⟩ := hc.finish hf
  have hr := h.rcvNxt h1 h2
  have hk : y.seqAt y.sent.length = y.seqAt x.taken := by
    rw [← hr,← hq,← hs]
    simp [hp]
  obtain ⟨hx,hh'⟩ := hh.finish hb hy hk
  have hg : x.Grows { x with peerFin := true } :=
    ⟨rfl,List.prefix_refl _,fun h => ⟨h,rfl⟩,List.prefix_refl _,fun _ => rfl⟩
  refine ⟨⟨h.iss,h.una,fun seg ho => (h.owned seg ho).grows hg (.refl y),fun ho => ?_,h.sndNxt,fun _ _ => ?_,
    h.unfinished,h.route,h.active⟩,⟨hg,rfl,by simp,by simp,hh'⟩⟩
  · rcases ho with ho | ho
    · exact absurd ho h2
    · exact absurd ho h3
  · simp only
    rw [hr,Half.seqAt_succ]
    simp [Half.taken,hx]

theorem Endpoint.move (hm : PcbMove rx p p') (h : Endpoint x y p) (hh : x.Hears y)
    (hb : y.sent.length < 2^31) (hrx : ∀ s, rx = some s → Carries y x s) :
    ∃ x' extra, Advance rx y x x' extra ∧ Endpoint x' y p' ∧
      p'.recv.contents = p.recv.contents++extra := by
  -- only in-order data and the peer's FIN advance the history
  have hstay : Endpoint x y p' ∧ p'.recv = p.recv → ∃ x' extra, Advance rx y x x' extra ∧
      Endpoint x' y p' ∧ p'.recv.contents = p.recv.contents++extra := fun ⟨h',hr⟩ =>
    ⟨x,[],.refl rx hh,h',by simp [hr]⟩
  cases hm with
  | sems | idled | retry | askClose | closeListen | window | peerFin =>
    exact hstay ⟨⟨h.iss,h.una,h.owned,h.opening,h.sndNxt,h.rcvNxt,h.unfinished,h.route,h.active⟩,rfl⟩
  | terminate hl hs hn ht => exact hstay (h.terminated ht)
  | @acked s hrx' hf ho ha hs =>
    refine hstay ⟨h.acked (hrx s hrx') hf ?_ ?_ _ ?_ rfl rfl rfl ⟨rfl,rfl,rfl,rfl⟩,rfl⟩
    · rcases hs with hs | ⟨hs,-⟩ <;> simp [hs]
    · rcases hs with hs | ⟨hs,-⟩ <;> simp [hs]
    · rcases hs with hs | ⟨hs,hp,-⟩
      · simp [Pcb.tcpAcked,hs]
      · simp [Pcb.tcpAcked,hs,hp]
  | @ackedClose s b hrx' hf ho ha hs hp hl =>
    refine hstay ⟨h.acked (hrx s hrx') hf (by simp [hs]) (by simp [hs]) _ ?_ rfl rfl rfl ⟨rfl,rfl,rfl,rfl⟩,rfl⟩
    simp [Pcb.tcpAcked,hs,hp]
  | @queue s b hf hrx' hs hq hp =>
    obtain ⟨h',ha⟩ := h.queue hh hb (hrx s hrx') hs hq hp (p.recv.write s.payload hf) b
    subst hrx'
    exact ⟨_,_,ha,h',p.recv.write_contents s.payload hf⟩
  | @finSeen s hrx' hs hf hq =>
    obtain ⟨h',ha⟩ := h.finSeen hh hb (hrx s hrx') hs hf hq
    subst hrx'
    exact ⟨_,_,ha,h',by simp⟩
  | timeWait b hs hl =>
    refine hstay ⟨⟨h.iss,h.una,h.owned,by simp,fun _ => h.sndNxt (by simp [hs]),
      fun _ _ => h.rcvNxt (by simp [hs]) (by simp [hs]),by simp,fun _ => h.route (by simp [hs]),by simp⟩,rfl⟩
  | expire b hs hl =>
    exact hstay ⟨⟨h.iss,h.una,h.owned,by simp,by simp,by simp,by simp,by simp,by simp⟩,rfl⟩
  | bind n ip port hs =>
    exact hstay ⟨⟨h.iss,h.una,h.owned,h.opening,h.sndNxt,h.rcvNxt,h.unfinished,fun hc => absurd hs hc,h.active⟩,rfl⟩

/-- An acknowledgement from the current block. -/
theorem Endpoint.carries_ack (h : Endpoint x y p) (hc : p.state ≠ .closed) (hn : p.state ≠ .synSent) :
    Carries x y (ackSegment p) :=
  .ack (by simp [ackSegment]) (by simp [ackSegment]) ⟨x.taken,le_rfl,by simp [ackSegment,h.rcvNxt hc hn]⟩

/-- The block sends its FIN. -/
theorem Endpoint.fin (h : Endpoint x y p) (rx : Option Segment) (hh : x.Hears y) (hs : p.state = .established) :
    Endpoint { x with fin := true } y { p.started (finSegment p) (p.sndNxt+1) with
      sndNxt := p.sndNxt+1, state := .finWait1 } ∧
    Carries { x with fin := true } y (finSegment p) ∧ Advance rx y x { x with fin := true } [] := by
  have hf := h.unfinished hs
  have hr := h.rcvNxt (by simp [hs]) (by simp [hs])
  have hn := h.sndNxt (by simp [hs])
  have hu : x.used = x.sent.length := by simp [Half.used,hf]
  have hg : x.Grows { x with fin := true } :=
    ⟨rfl,List.prefix_refl _,fun h => by simp [hf] at h,List.prefix_refl _,id⟩
  have hc : Carries { x with fin := true } y (finSegment p) := by
    refine .fin (by simp [finSegment]) (by simp [finSegment]) rfl ?_ ⟨x.taken,le_rfl,by simp [finSegment,hr]⟩
    simp [finSegment,hn,hu,Half.seqAt]
  refine ⟨⟨h.iss,h.una,fun seg ho => ?_,by simp,fun _ => ?_,fun _ _ => hr,by simp,
    fun _ => h.route (by simp [hs]),by simp⟩,hc,⟨hg,rfl,by simp,fun _ => rfl,⟨hh.got,hh.fin⟩⟩⟩
  · obtain rfl : finSegment p = seg := by simpa [Pcb.started,Pcb.setOutstanding] using ho
    exact hc
  · simp only
    rw [hn,Half.seqAt_succ,hu]
    simp [Half.used,Half.seqAt]

theorem Endpoint.connMove {c c' : Conn} (hm : ConnMove rx c c') (h : Endpoint x y c.pcb) (hh : x.Hears y)
    (hb : y.sent.length < 2^31) (hrx : ∀ s, rx = some s → Carries y x s) :
    ∃ x' extra, Advance rx y x x' extra ∧ Endpoint x' y c'.pcb ∧
      c'.pcb.recv.contents = c.pcb.recv.contents++extra ∧
      ∀ pkt ∈ c'.link.wire, pkt ∈ c.link.wire ∨ Carries x' y pkt.seg := by
  have hemit : ∀ {p : Pcb} {seg : Segment} {l l' : Link} {z : Half}, Emitted p seg l l' → Carries z y seg →
      ∀ pkt ∈ l'.wire, pkt ∈ l.wire ∨ Carries z y pkt.seg := by
    rintro p seg l l' z ⟨n,-,hw⟩ hc pkt hp
    rw [hw,List.mem_append,List.mem_singleton] at hp
    rcases hp with hp | rfl
    · exact .inl hp
    · exact .inr hc
  cases hm with
  | pcb hm hw =>
    obtain ⟨x',extra,ha,h',hr⟩ := h.move hm hh hb hrx
    exact ⟨x',extra,ha,h',hr,fun pkt hp => .inl (by rwa [← hw])⟩
  | ack hs he =>
    have hc : c.pcb.state ≠ .closed ∧ c.pcb.state ≠ .synSent := by
      rcases hs with hs | hs
      · exact ⟨(streaming_ne hs).1,(streaming_ne hs).2.1⟩
      · simp [hs]
    exact ⟨x,[],.refl rx hh,h,by simp,hemit he (h.carries_ack hc.1 hc.2)⟩
  | clone ho he => exact ⟨x,[],.refl rx hh,h,by simp,hemit he (h.owned _ ho)⟩
  | fin hs hl ho he =>
    obtain ⟨h',hc,ha⟩ := h.fin rx hh hs
    exact ⟨_,[],ha,h',by simp [Pcb.started,Pcb.setOutstanding],hemit he hc⟩
  | @synAck s l' a hrx' hs hl hf ha he =>
    -- the SYN-ACK fixes the position in the peer's stream
    obtain ⟨hu,ht⟩ := h.opening (.inl hs)
    have hseq := (hrx s hrx').seq_of_synAck hf
    have hr : (c.pcb.synAcked s).rcvNxt = y.seqAt x.taken := by
      rw [ht,y.seqAt_zero,← hseq]
      rfl
    refine ⟨x,[],.refl rx hh,⟨h.iss,.inr ⟨0,Nat.zero_le _,?_⟩,fun seg ho => ?_,by simp,
      fun _ => h.sndNxt (by simp [hs]),fun _ _ => hr,fun _ => ?_,fun _ => h.route (by simp [hs]),by simp⟩,
      by simp [Pcb.synAcked,Pcb.tcpClearOutstanding],hemit he ?_⟩
    · rw [x.seqAt_zero,← h.iss]
      exact ha
    · simp [Pcb.synAcked,Pcb.tcpClearOutstanding] at ho
    · by_contra hc
      have hc' : x.fin = true := by simpa using hc
      simp [Half.used,hc'] at hu
    · exact .ack (by simp [ackSegment]) (by simp [ackSegment]) ⟨x.taken,le_rfl,by simp [ackSegment,hr]⟩

end Tcp
end QuardStarNet
