import QuardStarNet.StreamHalf
import QuardStarNet.TwoParty

/-! A host of a connection: the table of one end, in which one slot holds the connection
and every other block is closed or listening. Moves, calls and arriving segments keep the
table in agreement with the history of the end. -/
namespace QuardStarNet
namespace Tcp

/-- A block that sends nothing: it is closed or listening. -/
def TcpState.silent (s : TcpState) : Prop := s = .closed ∨ s = .listen

/-- The table of one end. `conn` is the slot of the connection while it has one, and
`read` is what readers took from its ring. -/
structure Side (x y : Half) (read : List Byte) (conn : Option Slot) (t : Table) : Prop where
  inv : Inv t
  others : ∀ j, t.pcbs j = true → conn ≠ some j → (t.storage j).state.silent
  live : ∀ c, conn = some c → t.pcbs c = true
  block : ∀ c, conn = some c → Endpoint x y (t.storage c)
  ring : ∀ c, conn = some c → read++(t.storage c).recv.contents = x.got
  read : read <+: x.got
  wire : ∀ pkt ∈ t.link.wire, Carries x y pkt.seg

variable {x x' y y' : Half} {rx : Option Segment} {p p' : Pcb} {t t' : Table} {read : List Byte}
  {conn : Option Slot} {i j l : Slot} {s : Segment}

theorem silent_outstanding (hS : p.Sound) (h : p.state.silent) : p.outstanding = none := by
  cases ho : p.outstanding with
  | none => rfl
  | some seg =>
    have := (hS.owned seg ho).1
    rcases h with h | h <;> simp [h,Owns] at this

/-- A silent block stays silent and sends nothing. -/
theorem ConnMove.silent {c c' : Conn} (hm : ConnMove rx c c') (hS : c.pcb.Sound) (h : c.pcb.state.silent) :
    c'.pcb.state.silent ∧ c'.link.wire = c.link.wire := by
  have hstream : c.pcb.state.streaming = false := by
    rcases h with h | h <;> simp [h,TcpState.streaming]
  have ho := silent_outstanding hS h
  cases hm with
  | ack hs => rcases h with h | h <;> simp [h,TcpState.streaming] at hs
  | clone hs => simp [ho] at hs
  | fin hs => rcases h with h | h <;> simp [h] at hs
  | synAck a hrx hs => rcases h with h | h <;> simp [h] at hs
  | pcb hm hw =>
    refine ⟨?_,hw⟩
    cases hm with
    | sems | idled | retry | askClose | closeListen | window | queue | finSeen | peerFin | bind => exact h
    | terminate hl hs hn ht => exact .inl (Terminated.fields ht).2.2
    | acked hrx hf ho' => exact absurd ho ho'
    | ackedClose b hrx hf ho' => exact absurd ho ho'
    | timeWait b hs => rcases h with h | h <;> simp [h] at hs
    | expire => exact .inl rfl

/-- The fields of a block that its stream depends on. -/
structure Flow where
  state : TcpState
  iss : BitVec 32
  sndUna : BitVec 32
  sndNxt : BitVec 32
  rcvNxt : BitVec 32
  outstanding : Option Segment
  recv : Ring Byte recvMax
  netif : Option NetifId
  localIp : IpAddr
  remoteIp : IpAddr
  localPort : Port
  remotePort : Port

def Pcb.flow (p : Pcb) : Flow :=
  ⟨p.state,p.iss,p.sndUna,p.sndNxt,p.rcvNxt,p.outstanding,p.recv,p.netif,p.localIp,p.remoteIp,p.localPort,
    p.remotePort⟩

theorem Endpoint.congr (h : Endpoint x y p) (hf : p'.flow = p.flow) : Endpoint x y p' := by
  simp only [Pcb.flow,Flow.mk.injEq] at hf
  obtain ⟨h1,h2,h3,h4,h5,h6,-,h7,-⟩ := hf
  exact ⟨h2 ▸ h.iss,h3 ▸ h.una,h6 ▸ h.owned,h1 ▸ h.opening,h1 ▸ h4 ▸ h.sndNxt,h1 ▸ h5 ▸ h.rcvNxt,
    h1 ▸ h.unfinished,h1 ▸ h7 ▸ h.route,h1 ▸ h.active⟩

/-- A change of what streams do not depend on. -/
structure SameFlows (t t' : Table) : Prop where
  pcbs : t'.pcbs = t.pcbs
  wire : t'.link.wire = t.link.wire
  flow : ∀ j, t.pcbs j = true → (t'.storage j).flow = (t.storage j).flow

namespace SameFlows

theorem refl (t : Table) : SameFlows t t := ⟨rfl,rfl,fun _ _ => rfl⟩

theorem trans {t'' : Table} (h : SameFlows t t') (h' : SameFlows t' t'') : SameFlows t t'' :=
  ⟨h'.pcbs.trans h.pcbs,h'.wire.trans h.wire,fun j hj => (h'.flow j (by rwa [h.pcbs])).trans (h.flow j hj)⟩

theorem put (hst : t'.storage = Function.update t.storage i p') (hf : p'.flow = (t.storage i).flow)
    (hp : t'.pcbs = t.pcbs) (hw : t'.link.wire = t.link.wire) : SameFlows t t' := by
  refine ⟨hp,hw,fun j _ => ?_⟩
  by_cases hj : j = i
  · subst hj
    rwa [hst,Function.update_self]
  · rw [hst,Function.update_of_ne hj]

theorem state (h : SameFlows t t') (hj : t.pcbs j = true) : (t'.storage j).state = (t.storage j).state :=
  congrArg Flow.state (h.flow j hj)

theorem recv (h : SameFlows t t') (hj : t.pcbs j = true) : (t'.storage j).recv = (t.storage j).recv :=
  congrArg Flow.recv (h.flow j hj)

end SameFlows

namespace Side

/-- A change that keeps the slots in use, given block by block. -/
theorem advance (h : Side x y read conn t) {extra : List Byte} (ha : Advance rx y x x' extra)
    (hinv : Inv t') (hp : t'.pcbs = t.pcbs)
    (hw : ∀ pkt ∈ t'.link.wire, pkt ∈ t.link.wire ∨ Carries x' y pkt.seg)
    (hc : ∀ c, conn = some c → Endpoint x' y (t'.storage c) ∧
      (t'.storage c).recv.contents = (t.storage c).recv.contents++extra)
    (ho : ∀ j, t.pcbs j = true → conn ≠ some j → (t'.storage j).state.silent) : Side x' y read conn t' where
  inv := hinv
  others j hj hne := ho j (by rwa [← hp]) hne
  live c hconn := by
    rw [hp]
    exact h.live c hconn
  block c hconn := (hc c hconn).1
  ring c hconn := by rw [(hc c hconn).2,← List.append_assoc,h.ring c hconn,ha.got]
  read := h.read.trans ha.grows.got
  wire pkt hpkt := by
    rcases hw pkt hpkt with hold | hnew
    · exact (h.wire pkt hold).grows ha.grows (.refl y)
    · exact hnew

theorem congr (h : Side x y read conn t) (hinv : Inv t') (hf : SameFlows t t') : Side x y read conn t' where
  inv := hinv
  others j hj hne := by
    rw [hf.pcbs] at hj
    rw [hf.state hj]
    exact h.others j hj hne
  live c hc := by
    rw [hf.pcbs]
    exact h.live c hc
  block c hc := (h.block c hc).congr (hf.flow c (h.live c hc))
  ring c hc := by
    rw [hf.recv (h.live c hc)]
    exact h.ring c hc
  read := h.read
  wire pkt hpkt := h.wire pkt (by rwa [← hf.wire])

theorem filter_live (h : Side x y read conn t) : (conn.filter fun c => t.pcbs c) = conn := by
  cases hc : conn with
  | none => rfl
  | some c => simp [Option.filter,h.live c hc]

theorem grows (h : Side x y read conn t) (hy : y.Grows y') : Side x y' read conn t where
  inv := h.inv
  others := h.others
  live := h.live
  block c hc := (h.block c hc).grows hy
  ring := h.ring
  read := h.read
  wire pkt hp := (h.wire pkt hp).grows (.refl x) hy

/-- A change of one block. -/
theorem put (h : Side x y read conn t) {extra : List Byte} (ha : Advance rx y x x' extra) (p' : Pcb)
    (hinv : Inv t') (hst : t'.storage = Function.update t.storage i p') (hp : t'.pcbs = t.pcbs)
    (hw : ∀ pkt ∈ t'.link.wire, pkt ∈ t.link.wire ∨ Carries x' y pkt.seg)
    (hc : conn = some i → Endpoint x' y p' ∧ p'.recv.contents = (t.storage i).recv.contents++extra)
    (ho : conn ≠ some i → x' = x ∧ extra = [] ∧ (t.pcbs i = true → p'.state.silent)) :
    Side x' y read conn t' := by
  refine h.advance ha hinv hp hw (fun c hconn => ?_) fun j hj hne => ?_
  · by_cases hci : c = i
    · subst hci
      rw [hst,Function.update_self]
      exact hc hconn
    · obtain ⟨rfl,rfl,-⟩ := ho fun h' => hci (by simpa [hconn] using h')
      rw [hst,Function.update_of_ne hci]
      exact ⟨h.block c hconn,by simp⟩
  · by_cases hji : j = i
    · subst hji
      rw [hst,Function.update_self]
      exact (ho hne).2.2 hj
    · rw [hst,Function.update_of_ne hji]
      exact h.others j hj hne

theorem released (h : Side x y read conn t) (hi : t.pcbs i = true) (hr : t.tcpReleasable i) :
    Side x y read (conn.filter fun c => (t.tcpReleaseNow i).1.pcbs c) (t.tcpReleaseNow i).1 := by
  have hinv := Inv.move (Move.release hi hr : Move none t _) h.inv
  simp only [Table.tcpReleaseNow,hi,hr,not_true,if_false] at hinv ⊢
  have hkeep : ∀ {c}, (conn.filter fun c => Function.update t.pcbs i false c) = some c → conn = some c ∧ c ≠ i := by
    intro c hc
    obtain ⟨h1,h2⟩ := Option.filter_eq_some_iff.1 hc
    refine ⟨h1,?_⟩
    rintro rfl
    simp at h2
  refine ⟨hinv,fun j hj hne => ?_,fun c hc => ?_,fun c hc => ?_,fun c hc => ?_,h.read,h.wire⟩
  · have hji : j ≠ i := by
      rintro rfl
      simp at hj
    simp only [Function.update_of_ne hji] at hj
    simp only [Table.modify,Function.update_of_ne hji]
    exact h.others j hj fun hc => hne (Option.filter_eq_some_iff.2 ⟨hc,by simpa [hji] using hj⟩)
  · obtain ⟨h1,h2⟩ := hkeep hc
    simpa [h2] using h.live c h1
  · obtain ⟨h1,h2⟩ := hkeep hc
    simpa [Table.modify,h2] using h.block c h1
  · obtain ⟨h1,h2⟩ := hkeep hc
    simpa [Table.modify,h2] using h.ring c h1

/-- The detaching of a child closes it. -/
theorem detach (h : Side x y read conn t) (hh : x.Hears y)
    (ht : Pcb.Terminated { t.storage i with listener := none, releasePending := true } p')
    (hinv : Inv t') (hp : t'.pcbs = t.pcbs) (hw : t'.link.wire = t.link.wire)
    (hst : t'.storage = Function.update (Function.update t.storage l (Table.dropChild i (t.storage l))) i p') :
    Side x y read conn t' := by
  have hother : ∀ j, j ≠ i → (t'.storage j).flow = (t.storage j).flow := by
    intro j hji
    rw [hst,Function.update_of_ne hji]
    by_cases hjl : j = l
    · subst hjl
      rw [Function.update_self]
      rfl
    · rw [Function.update_of_ne hjl]
  refine h.advance (.refl none hh) hinv hp (fun pkt hpkt => .inl (by rwa [← hw])) (fun c hconn => ?_)
    fun j hj hne => ?_
  · by_cases hci : c = i
    · subst hci
      have hE : Endpoint x y { t.storage c with listener := none, releasePending := true } :=
        (h.block c hconn).congr rfl
      obtain ⟨h1,h2⟩ := hE.terminated ht
      rw [hst,Function.update_self]
      exact ⟨h1,by simp [h2]⟩
    · have hr : (t'.storage c).recv = (t.storage c).recv := congrArg Flow.recv (hother c hci)
      exact ⟨(h.block c hconn).congr (hother c hci),by simp [hr]⟩
  · by_cases hji : j = i
    · subst hji
      rw [hst,Function.update_self]
      exact .inl (Terminated.fields ht).2.2
    · have hs : (t'.storage j).state = (t.storage j).state := congrArg Flow.state (hother j hji)
      rw [hs]
      exact h.others j hj hne

theorem move (hm : Move rx t t') (h : Side x y read conn t) (hh : x.Hears y) (hb : y.sent.length < 2^31)
    (hrx : ∀ s, rx = some s → Carries y x s) :
    ∃ x' extra, Advance rx y x x' extra ∧ (conn = none → x' = x) ∧
      Side x' y read (conn.filter fun c => t'.pcbs c) t' := by
  have hinv := h.inv.move hm
  -- every move but a release keeps the slots in use
  have hkeep : Side x y read conn t' → ∃ x' extra, Advance rx y x x' extra ∧ (conn = none → x' = x) ∧
      Side x' y read (conn.filter fun c => t'.pcbs c) t' := fun h' =>
    ⟨x,[],.refl rx hh,fun _ => rfl,by rwa [h'.filter_live]⟩
  cases hm with
  | @conn i c' hi hc =>
    by_cases hci : conn = some i
    · obtain ⟨x',extra,ha,h',hr,hw⟩ := (h.block i hci).connMove hc hh hb hrx
      have hS : Side x' y read conn (t.setConn i c') :=
        h.put ha c'.pcb hinv rfl rfl hw (fun _ => ⟨h',hr⟩) fun hne => absurd hci hne
      exact ⟨x',extra,ha,fun hn => by simp [hci] at hn,by rwa [hS.filter_live]⟩
    · obtain ⟨hs,hw⟩ := hc.silent (h.inv.sound i hi) (h.others i hi hci)
      refine hkeep (h.put (.refl rx hh) c'.pcb hinv rfl rfl (fun pkt hp => .inl ?_)
        (fun hc => absurd hc hci) fun _ => ⟨rfl,rfl,fun _ => hs⟩)
      exact hw ▸ hp
  | aux timers port l' hw => exact hkeep (h.congr hinv ⟨rfl,hw,fun _ _ => rfl⟩)
  | @dead i p hi hp =>
    refine hkeep (h.congr hinv ⟨rfl,rfl,fun j hj => ?_⟩)
    have hji : j ≠ i := fun he => by simp [he,hi] at hj
    simp [Table.modify,hji]
  | @pend i hi hl hs => exact hkeep (h.congr hinv (.put (i := i) rfl rfl rfl rfl))
  | @release i hi hr => exact ⟨x,[],.refl rx hh,fun _ => rfl,h.released hi hr⟩
  | @detach i l p' hc ht => exact hkeep (h.detach hh ht hinv rfl rfl rfl)

theorem filter_filter {a b : Slot → Bool} (h : ∀ i, b i = true → a i = true) :
    ((conn.filter fun c => a c).filter fun c => b c) = conn.filter fun c => b c := by
  cases conn with
  | none => rfl
  | some c =>
    cases hb : b c with
    | false => cases ha : a c <;> simp [Option.filter,ha,hb]
    | true => simp [Option.filter,h c hb,hb]

theorem moves (hm : Moves rx t t') (h : Side x y read conn t) (hh : x.Hears y) (hb : y.sent.length < 2^31)
    (hrx : ∀ s, rx = some s → Carries y x s) :
    ∃ x' extra, Advance rx y x x' extra ∧ (conn = none → x' = x) ∧
      Side x' y read (conn.filter fun c => t'.pcbs c) t' := by
  induction hm with
  | refl => exact ⟨x,[],.refl rx hh,fun _ => rfl,by rwa [h.filter_live]⟩
  | @tail t₁ t₂ _ hm ih =>
    obtain ⟨x₁,e₁,ha₁,hn₁,h₁⟩ := ih
    obtain ⟨x₂,e₂,ha₂,hn₂,h₂⟩ := h₁.move hm ha₁.hears hb
      fun s hs => (hrx s hs).grows (.refl y) ha₁.grows
    refine ⟨x₂,e₁++e₂,ha₁.trans ha₂,fun hn => ?_,?_⟩
    · rw [hn₂ (by simp [hn]),hn₁ hn]
    · rwa [filter_filter fun i => (Quiet.move hm h₁.inv).2 i] at h₂

/-- A new block that is silent. -/
theorem extend (h : Side x y read conn t) (hinv : Inv t') (hj : t.pcbs j = false)
    (hp : t'.pcbs = Function.update t.pcbs j true) (hw : t'.link.wire = t.link.wire)
    (hf : ∀ i, i ≠ j → (t'.storage i).flow = (t.storage i).flow) (hs : (t'.storage j).state.silent) :
    Side x y read conn t' := by
  have hne : ∀ c, conn = some c → c ≠ j := by
    rintro c hc rfl
    simp [h.live c hc] at hj
  refine ⟨hinv,fun k hk hne' => ?_,fun c hc => ?_,fun c hc => (h.block c hc).congr (hf c (hne c hc)),
    fun c hc => ?_,h.read,fun pkt hpkt => h.wire pkt (by rwa [← hw])⟩
  · by_cases hkj : k = j
    · rwa [hkj]
    · have hs' : (t'.storage k).state = (t.storage k).state := congrArg Flow.state (hf k hkj)
      rw [hs']
      exact h.others k (by simpa [hp,hkj] using hk) hne'
  · simpa [hp,hne c hc] using h.live c hc
  · have hr : (t'.storage c).recv = (t.storage c).recv := congrArg Flow.recv (hf c (hne c hc))
    rw [hr]
    exact h.ring c hc

/-- A child that could not send its SYN-ACK is closed at once. -/
theorem spawnFailed (h : Side x y read conn t) (hl : t.Listening l) (hj : t.pcbs j = false)
    (hb : (t.storage l).pendingCount < (t.storage l).backlog) {netif : NetifId} {src : IpAddr} {a b c : Sem}
    (hp : p = t.passiveChild l netif src s.srcPort s.seq s.window (.allocated false a b c))
    (n : ℕ) (u : BitVec 32) {k : Link} (e : NetErr) (hw : k.wire = t.link.wire)
    (hinv : Inv ((t.spawned l j { p with retryCount := n, outstandingEnd := u } k).tcpListenerDetachChild j e)) :
    Side x y read conn
      ((t.spawned l j { p with retryCount := n, outstandingEnd := u } k).tcpListenerDetachChild j e) := by
  have hlj : l ≠ j := fun he => by simp [← he,hl.1] at hj
  let p' : Pcb := { p with retryCount := n, outstandingEnd := u }
  have hp' := passiveChild_links t l netif src s.srcPort s.seq s.window a b c
  rw [← hp] at hp'
  have hL : Links (t.spawned l j p' k) := .spawned h.inv hl hj hp' hb
  have hc : (t.spawned l j p' k).IsChild l j := by simp [Table.IsChild,Table.spawned,p',hp'.2.1]
  rw [detachChild_eq hc.1 hc.2 (hL.ne_of_child hc)] at hinv ⊢
  refine h.extend hinv hj rfl hw (fun i hij => ?_) (.inl ?_)
  · by_cases hil : i = l
    · subst hil
      simp [Table.spawned,Table.dropChild,Pcb.flow,hlj]
    · simp [Table.spawned,hij,hil]
  · simp only [Function.update_self]
    exact Pcb.tcpTerminate_state _ _

/-- The final ACK of the handshake. -/
theorem completed (h : Side x y read conn t) (hh : x.Hears y) (hc : t.IsChild l i)
    (hs : (t.storage i).state = .synReceived) (hcomp : s.Completes (t.storage i)) :
    Side x y read conn (t.completed l i s) := by
  have hne := h.inv.links.ne_of_child hc
  have hconn : conn = some i := by
    by_contra hn
    have := h.others i hc.1 hn
    rcases this with h' | h' <;> simp [hs] at h'
  have hl : ∀ j, j ≠ i → ((t.completed l i s).storage j).flow = (t.storage j).flow := by
    intro j hji
    by_cases hjl : j = l
    · subst hjl
      simp [Table.completed,Table.modify,hji,Pcb.flow,Pcb.enqueue]
    · simp [Table.completed,Table.modify,hji,hjl]
  have hi : (t.completed l i s).storage i = (t.storage i).handshaken s := by
    simp [Table.completed,Table.modify,hne]
  refine h.advance (.refl none hh) (h.inv.completed hc hs hcomp.2.2.2) rfl (fun pkt hpkt => .inl hpkt)
    (fun c hc' => ?_) fun j hj hne' => ?_
  · obtain rfl : i = c := by simpa [hconn] using hc'
    have hE := h.block i hconn
    obtain ⟨hu,ht⟩ := hE.opening (.inr hs)
    rw [hi]
    refine ⟨⟨hE.iss,.inr ⟨0,Nat.zero_le _,?_⟩,fun seg ho => ?_,by simp [Pcb.handshaken],
      fun _ => hE.sndNxt (by simp [hs]),fun _ _ => hE.rcvNxt (by simp [hs]) (by simp [hs]),fun _ => ?_,
      fun _ => hE.route (by simp [hs]),by simp [Pcb.handshaken]⟩,?_⟩
    · rw [x.seqAt_zero,← hE.iss]
      exact hcomp.2.2.2
    · simp [Pcb.handshaken,Pcb.tcpClearOutstanding] at ho
    · by_contra hf
      have hf' : x.fin = true := by simpa using hf
      simp [Half.used,hf'] at hu
    · simp [Pcb.handshaken,Pcb.tcpClearOutstanding]
  · have hji : j ≠ i := by
      rintro rfl
      exact hne' hconn
    have hs' : ((t.completed l i s).storage j).state = (t.storage j).state := congrArg Flow.state (hl j hji)
    rw [hs']
    exact h.others j hj hne'

/-- No new child was set up by the change from `t` to `t'`. -/
def NoChild (t t' : Table) : Prop :=
  ∀ j, t.pcbs j = false → t'.pcbs j = true → (t'.storage j).state ≠ .synReceived

theorem arrival {netif : NetifId} {src dest : IpAddr} (ha : Arrival t s netif src dest t')
    (h : Side x y read conn t) (hh : x.Hears y) (hb : y.sent.length < 2^31) (hs : Carries y x s)
    (hn : NoChild t t') :
    ∃ x' extra, Advance (some s) y x x' extra ∧ (conn = none → x' = x) ∧
      Side x' y read (conn.filter fun c => t'.pcbs c) t' := by
  have hkeep : Side x y read conn t' → ∃ x' extra, Advance (some s) y x x' extra ∧ (conn = none → x' = x) ∧
      Side x' y read (conn.filter fun c => t'.pcbs c) t' := fun h' =>
    ⟨x,[],.refl _ hh,fun _ => rfl,by rwa [h'.filter_live]⟩
  have hinv := h.inv.arrival ha
  cases ha with
  | moves hm =>
    refine h.moves hm hh hb fun s' hs' => ?_
    obtain rfl : s = s' := by simpa using hs'
    exact hs
  | completed hc hst hr hcomp => exact hkeep (h.completed hh hc hst hcomp)
  | @spawned l j x₁ y₁ z₁ k p hl hr hj hb' hf hp hem =>
    refine absurd ?_ (hn j hj (by simp [Table.spawned]))
    subst hp
    simp [Table.spawned,Pcb.started,Pcb.setOutstanding,Table.passiveChild]
  | @spawnFailed l j x₁ y₁ z₁ k p n u e hl hj hb' hp hw =>
    exact hkeep (h.spawnFailed hl hj hb' hp n u e hw hinv)

/-- A passive open of a fresh end. -/
theorem spawned (h : Side x y read none t) (hl : t.Listening l) (hj : t.pcbs j = false) {k : Link}
    {netif : NetifId} {src : IpAddr} {a b c : Sem} (hs : Carries y x s) (hf : s.flags = flagSyn)
    (hp : p = t.passiveChild l netif src s.srcPort s.seq s.window (.allocated false a b c))
    (hem : Emitted p (synAckSegment p) t.link k) (hiss : x.iss = t.nextIss) (hu : x.used = 0) (ht : x.taken = 0)
    (hinv : Inv (t.spawned l j (p.started (synAckSegment p) p.sndNxt) k)) :
    Side x y read (some j) (t.spawned l j (p.started (synAckSegment p) p.sndNxt) k) := by
  have hlj : l ≠ j := fun he => by simp [← he,hl.1] at hj
  have hgot : x.got = [] := by
    rw [← List.length_eq_zero_iff]
    simp only [Half.taken] at ht
    omega
  have hread : read = [] := by simpa [hgot] using h.read
  have hack : Carries x y (synAckSegment p) := by
    refine .synAck (by simp [synAckSegment]) (by simp [synAckSegment])
      (by simp [synAckSegment,hp,Table.passiveChild,hiss]) ⟨0,Nat.zero_le _,?_⟩
    simp [synAckSegment,hp,Table.passiveChild,y.seqAt_zero,hs.seq_of_syn hf]
  refine ⟨hinv,fun i hi hne => ?_,fun c hc => ?_,fun c hc => ?_,fun c hc => ?_,h.read,fun pkt hpkt => ?_⟩
  · have hij : i ≠ j := fun he => hne (by rw [he])
    have hst : ((t.spawned l j (p.started (synAckSegment p) p.sndNxt) k).storage i).state =
        (t.storage i).state := by
      by_cases hil : i = l
      · subst hil
        simp [Table.spawned,hlj]
      · simp [Table.spawned,hij,hil]
    rw [hst]
    exact h.others i (by simpa [Table.spawned,hij] using hi) (by simp)
  · obtain rfl : j = c := by simpa using hc
    simp [Table.spawned]
  · obtain rfl : j = c := by simpa using hc
    have hst : (t.spawned l j (p.started (synAckSegment p) p.sndNxt) k).storage j =
        p.started (synAckSegment p) p.sndNxt := by simp [Table.spawned]
    rw [hst]
    subst hp
    refine ⟨hiss.symm,.inl hiss.symm,fun seg ho => ?_,fun _ => ⟨hu,ht⟩,fun _ => ?_,fun _ _ => ?_,
      fun h' => ?_,fun _ => by simp [Pcb.started,Pcb.setOutstanding,Table.passiveChild],
      by simp [Pcb.started,Pcb.setOutstanding,Table.passiveChild]⟩
    · obtain rfl : synAckSegment _ = seg := by simpa [Pcb.started,Pcb.setOutstanding] using ho
      exact hack
    · simp [Pcb.started,Pcb.setOutstanding,Table.passiveChild,hu,x.seqAt_zero,hiss]
    · simp [Pcb.started,Pcb.setOutstanding,Table.passiveChild,ht,y.seqAt_zero,hs.seq_of_syn hf]
    · simp [Pcb.started,Pcb.setOutstanding,Table.passiveChild] at h'
  · obtain rfl : j = c := by simpa using hc
    subst hp
    simp [Table.spawned,Pcb.started,Pcb.setOutstanding,Table.passiveChild,Pcb.allocated,Pcb.zeroed,hgot,hread]
  · obtain ⟨n,-,hw⟩ := hem
    have hmem : pkt ∈ t.link.wire++[⟨n,p.remoteIp,synAckSegment p⟩] := hw ▸ hpkt
    rw [List.mem_append,List.mem_singleton] at hmem
    rcases hmem with hmem | rfl
    · exact h.wire pkt hmem
    · exact hack

/-- New data is in flight. -/
theorem sending (h : Side x y read conn t) (hi : t.pcbs i = true) {data : List Byte}
    (hs : (t.storage i).Sendable data) (hlen : 1 ≤ data.length ∧ data.length ≤ mss) {k : Link}
    (hem : Emitted (t.storage i) (dataSegment (t.storage i) data) t.link k) :
    conn = some i ∧ x.Grows { x with sent := x.sent++data } ∧
      Side { x with sent := x.sent++data } y read conn (t.setConn i ⟨(t.storage i).sending data,k⟩) := by
  have hconn : conn = some i := by
    by_contra hn
    have := h.others i hi hn
    rcases this with h' | h' <;> simp [hs.1] at h'
  have hE := h.block i hconn
  have hfin := hE.unfinished hs.1
  have hn := hE.sndNxt (by simp [hs.1])
  have hr := hE.rcvNxt (by simp [hs.1]) (by simp [hs.1])
  have hu : x.used = x.sent.length := by simp [Half.used,hfin]
  have hg : x.Grows { x with sent := x.sent++data } :=
    ⟨rfl,List.prefix_append _ _,fun h' => by simp [hfin] at h',List.prefix_refl _,id⟩
  have hseg : Carries { x with sent := x.sent++data } y (dataSegment (t.storage i) data) := by
    refine .data x.sent.length (by simp [dataSegment]) ?_ (by simp [dataSegment])
      ⟨x.taken,le_rfl,by simp [dataSegment,hr]⟩
    simp [dataSegment,hn,hu,Half.seqAt]
  refine ⟨hconn,hg,⟨h.inv.sending hi hs hlen k,fun j hj hne => ?_,fun c hc => h.live c hc,fun c hc => ?_,
    fun c hc => ?_,h.read,fun pkt hpkt => ?_⟩⟩
  · have hji : j ≠ i := by
      rintro rfl
      exact hne hconn
    simpa [Table.setConn,hji] using h.others j hj hne
  · obtain rfl : i = c := by simpa [hconn] using hc
    have hst : (t.setConn i ⟨(t.storage i).sending data,k⟩).storage i = (t.storage i).sending data := by
      simp [Table.setConn]
    rw [hst]
    refine ⟨hE.iss,hE.una,fun seg ho => ?_,fun ho => ?_,fun _ => ?_,fun _ _ => hr,fun _ => hfin,
      fun _ => hE.route (by simp [hs.1]),hE.active⟩
    · obtain rfl : dataSegment (t.storage i) data = seg := by
        simpa [Pcb.sending,Pcb.started,Pcb.setOutstanding] using ho
      exact hseg
    · have hs' : (t.storage i).state = .synSent ∨ (t.storage i).state = .synReceived := ho
      simp [hs.1] at hs'
    · simp only [Pcb.sending]
      rw [hn,Half.seqAt_add,hu]
      simp [Half.used,Half.seqAt,hfin]
  · obtain rfl : i = c := by simpa [hconn] using hc
    simpa [Table.setConn,Pcb.sending,Pcb.started,Pcb.setOutstanding] using h.ring i hconn
  · obtain ⟨n,-,hw⟩ := hem
    have hmem : pkt ∈ t.link.wire++[⟨n,(t.storage i).remoteIp,dataSegment (t.storage i) data⟩] := hw ▸ hpkt
    rw [List.mem_append,List.mem_singleton] at hmem
    rcases hmem with hmem | rfl
    · exact (h.wire pkt hmem).grows hg (.refl y)
    · exact hseg

end Side

/-- A section of one end: it adds `sends` to the stream and hands `reads` to a reader. -/
def Acts (x y : Half) (read : List Byte) (conn : Option Slot) (t : Table) (sends reads : List Byte)
    (t' : Table) : Prop :=
  ∃ x', x.Grows x' ∧ x'.Hears y ∧ x'.sent = x.sent++sends ∧ x'.got = x.got ∧ (conn = none → x' = x) ∧
    Side x' y (read++reads) (conn.filter fun c => t'.pcbs c) t' ∧
    ∀ j, t'.pcbs j = true → t.pcbs j = true

namespace Acts

theorem stay (h : Side x y read conn t) (hh : x.Hears y) (hinv : Inv t') (hf : SameFlows t t') :
    Acts x y read conn t [] [] t' := by
  have h' := h.congr hinv hf
  exact ⟨x,.refl x,hh,by simp,rfl,fun _ => rfl,by rwa [h'.filter_live,List.append_nil],
    fun j hj => by rwa [← hf.pcbs]⟩

theorem moves (h : Side x y read conn t) (hh : x.Hears y) (hb : y.sent.length < 2^31)
    (hm : Moves none t t') : Acts x y read conn t [] [] t' := by
  obtain ⟨x',extra,ha,hn,h'⟩ := h.moves hm hh hb (by simp)
  refine ⟨x',ha.grows,ha.hears,by simp [ha.sent],by simp [ha.got,ha.idle rfl],hn,?_,
    (Quiet.moves_live h.inv hm).2⟩
  rwa [List.append_nil]

theorem sending (h : Side x y read conn t) (hh : x.Hears y) (hb : y.sent.length < 2^31) (i : Slot)
    (data : List Byte) :
    Acts x y read conn t (t.sends conn (.tcpSendStart i data)) [] (t.tcpSendStart i data).1 := by
  rcases tcpSendStart_cases none h.inv i data with ⟨t',e,he,hne,-,hm⟩ | ⟨k,he,hi,hs,h1,h2,hem⟩
  · simpa [Table.sends,he,hne] using moves h hh hb hm
  · obtain ⟨hc,hg,h'⟩ := h.sending hi hs ⟨h1,h2⟩ hem
    rw [he]
    refine ⟨_,hg,⟨hh.got,hh.fin⟩,by simp [Table.sends,he,hc],rfl,fun hn => by simp [hn] at hc,?_,fun j hj => hj⟩
    rwa [h'.filter_live,List.append_nil]

/-- A reader takes bytes from the front of the ring. -/
theorem taking (h : Side x y read conn t) (hh : x.Hears y) (i : Slot) (size : ℕ) :
    Acts x y read conn t [] (t.reads conn (.tcpRecvTake i size)) (t.recvTake i size).1 := by
  have hinv := h.inv.recvTake i size
  simp only [Table.reads]
  by_cases hz : (t.storage i).recv.count = 0
  · have he : t.recvTake i size = (t,[]) := by simp [Table.recvTake,Pcb.tcpRecvTake,hz]
    rw [he,ite_self]
    exact .stay h hh h.inv (.refl t)
  let n := min size (t.storage i).recv.count
  have hn : n ≤ (t.storage i).recv.count := Nat.min_le_right _ _
  obtain ⟨d,hd⟩ : ∃ d, t.recvTake i size = (t.modify i fun p => { t.storage i with
      recv := (t.storage i).recv.drop n hn, recvDone := d },(t.storage i).recv.front n hn) :=
    ⟨_,by simp only [Table.recvTake,Pcb.tcpRecvTake,hz,if_false]; rfl⟩
  rw [hd] at hinv ⊢
  have hother : ∀ j, j ≠ i → ((t.modify i fun p => { t.storage i with
      recv := (t.storage i).recv.drop n hn, recvDone := d }).storage j) = t.storage j := by
    intro j hj
    simp [Table.modify,hj]
  refine ⟨x,.refl x,hh,by simp,rfl,fun _ => rfl,?_,fun j hj => hj⟩
  suffices h' : Side x y (read++if conn = some i then (t.storage i).recv.front n hn else []) conn
      (t.modify i fun p => { t.storage i with recv := (t.storage i).recv.drop n hn, recvDone := d }) by
    rwa [h'.filter_live]
  refine ⟨hinv,fun j hj hne => ?_,fun c hc => h.live c hc,fun c hc => ?_,fun c hc => ?_,?_,h.wire⟩
  · by_cases hji : j = i
    · subst hji
      simpa [Table.modify] using h.others j hj hne
    · rw [hother j hji]
      exact h.others j hj hne
  · by_cases hci : c = i
    · subst hci
      have hE := h.block c hc
      simp only [Table.modify,Function.update_self]
      exact ⟨hE.iss,hE.una,hE.owned,hE.opening,hE.sndNxt,hE.rcvNxt,hE.unfinished,hE.route,hE.active⟩
    · rw [hother c hci]
      exact h.block c hc
  · by_cases hci : c = i
    · subst hci
      rw [if_pos hc,← h.ring c hc]
      simp [Table.modify,Ring.front_eq]
    · rw [hother c hci,if_neg fun h' => hci (by simpa [hc] using h'),List.append_nil]
      exact h.ring c hc
  · by_cases hci : conn = some i
    · rw [if_pos hci,← h.ring i hci,Ring.front_eq,List.prefix_append_right_inj]
      exact List.take_prefix _ _
    · rw [if_neg hci,List.append_nil]
      exact h.read

theorem detached (h : Side x y read conn t) (hh : x.Hears y) (hb : y.sent.length < 2^31) (i : Slot) :
    Acts x y read conn t [] [] (t.tcpSocketDetach i).1 := by
  rcases tcpSocketDetach_cases t i with ⟨e,-,he⟩ | ⟨hd,he,-⟩
  · rw [he]
    exact .stay h hh h.inv (.refl t)
  · have hf : SameFlows t (t.modify i fun p => { p with socketAttached := false }) :=
      .put (i := i) rfl rfl rfl rfl
    obtain ⟨x',h1,h2,h3,h4,h5,h6,h7⟩ := moves (h.congr (h.inv.unattached hd.1) hf) hh hb
      (releaseNow_moves none _ i)
    rw [he]
    exact ⟨x',h1,h2,h3,h4,h5,h6,h7⟩

end Acts

/-- The sections of users that only count themselves. -/
theorem SameFlows.accepting (h : Inv t) (l i : Slot) :
    SameFlows t (t.tcpAcceptAcquire l).1 ∧ SameFlows t (t.tcpAcceptPeek l).1 ∧
    SameFlows t (t.tcpAcceptCommitAcquired l i).1 ∧ SameFlows t (t.tcpAcceptReleaseAcquired l).1 ∧
    SameFlows t (t.tcpAcceptReleaseChildAcquired l i).1 := by
  refine ⟨?_,?_,?_,?_,?_⟩
  · rcases acceptAcquire_cases t l with ⟨e,-,he⟩ | ⟨-,-,he⟩ <;> rw [he]
    · exact .refl t
    · exact .put (i := l) rfl rfl rfl rfl
  · rcases acceptPeek_cases h l with ⟨r,-,he⟩ | ⟨c,-,-,he⟩ <;> rw [he]
    · exact .refl t
    · exact .put (i := c) rfl rfl rfl rfl
  · rcases acceptCommit_cases h l i with ⟨e,-,he⟩ | ⟨hc,he⟩ <;> rw [he]
    · exact .refl t
    · have hne := h.links.ne_of_child hc.child
      have h₁ : SameFlows t (t.modify l Pcb.dequeue) := .put (i := l) rfl rfl rfl rfl
      refine h₁.trans (.put (i := i) rfl ?_ rfl rfl)
      simp [Table.modify,hne,Pcb.flow,Pcb.committed]
  · rcases acceptRelease_cases t l with ⟨e,-,he⟩ | ⟨-,-,he⟩ <;> rw [he]
    · exact .refl t
    · exact .put (i := l) rfl rfl rfl rfl
  · rcases acceptReleaseChild_cases t l i with ⟨e,-,he⟩ | ⟨-,-,-,-,-,he⟩ <;> rw [he]
    · exact .refl t
    · have h₁ : SameFlows t (t.unpinned i) := .put (i := i) rfl rfl rfl rfl
      exact h₁.trans (.put (i := l) rfl rfl rfl rfl)

theorem SameFlows.waiting (t : Table) (i : Slot) (w : Pcb.Wait) :
    SameFlows t (t.tcpWaitAcquire i w).1 ∧ SameFlows t (t.act (.waitToken i w)) ∧
    SameFlows t (t.act (.waitLeave i w)) ∧ SameFlows t (t.tcpRecvAcquire i).1 := by
  refine ⟨?_,?_,?_,?_⟩
  · rcases tcpWaitAcquire_cases t i w with ⟨e,-,he⟩ | ⟨-,he⟩ <;> rw [he]
    · exact .refl t
    · exact .put (i := i) rfl (by cases w <;> rfl) rfl rfl
  · exact .put (i := i) rfl (by cases w <;> rfl) rfl rfl
  · exact .put (i := i) rfl (by cases w <;> rfl) rfl rfl
  · rcases tcpRecvAcquire_cases t i with ⟨e,-,he⟩ | ⟨-,he⟩ <;> rw [he]
    · exact .refl t
    · exact .put (i := i) rfl rfl rfl rfl

theorem Side.act (h : Side x y read conn t) (hh : x.Hears y) (hb : y.sent.length < 2^31) (a : Action)
    (ha : a.serves = true) : Acts x y read conn t (t.sends conn a) (t.reads conn a) (t.act a) := by
  have hinv := h.inv.act a
  cases a with
  | tcpOpen | tcpBind | tcpListen | tcpConnectStart | tcpIn => cases ha
  | tcpAcceptAcquire l => exact .stay h hh hinv (SameFlows.accepting h.inv l l).1
  | tcpAcceptPeek l => exact .stay h hh hinv (SameFlows.accepting h.inv l l).2.1
  | tcpAcceptCommit l c => exact .stay h hh hinv (SameFlows.accepting h.inv l c).2.2.1
  | tcpAcceptRelease l => exact .stay h hh hinv (SameFlows.accepting h.inv l l).2.2.2.1
  | tcpAcceptReleaseChild l c => exact .stay h hh hinv (SameFlows.accepting h.inv l c).2.2.2.2
  | acceptToken i => exact .stay h hh hinv (.put (i := i) rfl rfl rfl rfl)
  | tcpWaitAcquire i w => exact .stay h hh hinv (SameFlows.waiting t i w).1
  | waitToken i w => exact .stay h hh hinv (SameFlows.waiting t i w).2.1
  | waitLeave i w => exact .stay h hh hinv (SameFlows.waiting t i w).2.2.1
  | tcpRecvAcquire i => exact .stay h hh hinv (SameFlows.waiting t i .close).2.2.2
  | recvToken i => exact .stay h hh hinv (.put (i := i) rfl rfl rfl rfl)
  | tcpRecvLeave i => exact .stay h hh hinv (.put (i := i) rfl rfl rfl rfl)
  | tcpSendStart i data => exact .sending h hh hb i data
  | tcpRecvTake i size => exact .taking h hh i size
  | tcpSocketDetach i => exact .detached h hh hb i
  | tcpClose i => exact .moves h hh hb (close_moves none h.inv i)
  | tcpRetransmitDue i => exact .moves h hh hb (retransmitDue_moves none h.inv i)
  | tcpTimeWaitProc i => exact .moves h hh hb (timeWaitProc_moves none h.inv i)
  | tcpReleaseProc i => exact .moves h hh hb (releaseProc_moves none h.inv i)

end Tcp
end QuardStarNet
