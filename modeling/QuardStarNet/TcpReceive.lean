import QuardStarNet.TcpRun

/-! Receiving on an established connection: which segments get their data into the ring
and acknowledged, and which bytes of the ring a reader gets. Allocations and transmissions
succeed throughout. -/
namespace QuardStarNet
namespace Tcp

variable {t t' : Table} {i : Slot} {s : Segment} {n : NetifId}

/-- Between two states of a link an acknowledgement of `ack` was sent to `dest`. -/
def Acks (l l' : Link) (dest : IpAddr) (ack : BitVec 32) : Prop :=
  ∃ pkt ∈ l'.wire.drop l.wire.length, pkt.dest = dest ∧ pkt.seg.flags = flagAck ∧ pkt.seg.ack = ack

theorem Acks.mono {l l' m m' : Link} {dest : IpAddr} {ack : BitVec 32} (h : Acks l l' dest ack)
    (hm : m.wire <+: l.wire) (hm' : l'.wire <+: m'.wire) : Acks m m' dest ack := by
  obtain ⟨pkt,hp,hr⟩ := h
  obtain ⟨w,hw⟩ := hm'
  refine ⟨pkt,?_,hr⟩
  have hl : m.wire.length ≤ l.wire.length := hm.length_le
  rw [← hw,List.drop_append]
  refine List.mem_append_left _ (List.mem_of_mem_drop (i := l.wire.length-m.wire.length) ?_)
  rwa [List.drop_drop,Nat.add_sub_cancel' hl]

/-- The sequence number that a FIN of the segment takes, when the block expects `next`
after its data. -/
def Segment.finLength (s : Segment) (next : BitVec 32) : BitVec 32 :=
  if s.has flagFin ∧ s.seq+BitVec.ofNat 32 s.payload.length = next then 1 else 0

/-- The data of the segment was received: it is acknowledged, it is appended if it was
expected, and `snd_una` did not move back. -/
def Receives (t : Table) (i : Slot) (s : Segment) (t' : Table) : Prop :=
  let p := t.storage i
  let p' := t'.storage i
  let size := BitVec.ofNat 32 s.payload.length
  Acks t.link t'.link p.remoteIp p'.rcvNxt ∧
  (if s.seq = p.rcvNxt then
    p'.recv.contents = p.recv.contents++s.payload ∧
      p'.rcvNxt = p.rcvNxt+size+s.finLength (p.rcvNxt+size)
  else p'.recv.contents = p.recv.contents ∧ p'.rcvNxt = p.rcvNxt+s.finLength p.rcvNxt) ∧
  0 ≤ (p'.sndUna-p.sndUna).toInt

instance (l l' : Link) (dest : IpAddr) (ack : BitVec 32) : Decidable (Acks l l' dest ack) :=
  inferInstanceAs (Decidable (∃ _ ∈ _,_))

instance (t : Table) (i : Slot) (s : Segment) (t' : Table) : Decidable (Receives t i s t') :=
  inferInstanceAs (Decidable (_ ∧ _ ∧ _))

/-- A block of a live connection on a link where every transmission succeeds. -/
structure Table.Sends (t : Table) (i : Slot) : Prop where
  up : t.link.fates = []
  netif : ∃ n, (t.storage i).netif = some n
  opened : (t.storage i).opened = true
  live : t.pcbs i = true
  timer : (t.storage i).outstanding = none → (t.storage i).retransTimer = false
  apart : (t.storage i).listener ≠ some i
  state : (t.storage i).state = .established ∨ (t.storage i).state = .finWait1

/-- Packets may have gone out, and the block expects the same data as before. -/
structure Table.Steady (i : Slot) (t t' : Table) : Prop where
  wire : t.link.wire <+: t'.link.wire
  recv : (t'.storage i).recv = (t.storage i).recv
  rcvNxt : (t'.storage i).rcvNxt = (t.storage i).rcvNxt
  remoteIp : (t'.storage i).remoteIp = (t.storage i).remoteIp

section Up

theorem Link.ipv4Out_up {l : Link} (h : l.fates = []) (dest : IpAddr) (seg : Segment) :
    l.ipv4Out (some n) dest seg = (⟨[],l.wire++[⟨n,dest,seg⟩]⟩,.ok) := by
  simp [Link.ipv4Out,Link.fate,Link.spend,h]

theorem Conn.tcpSendAck_up {c : Conn} (h : c.link.fates = []) (hn : c.pcb.netif = some n) :
    c.tcpSendAck =
      (⟨c.pcb,⟨[],c.link.wire++[⟨n,c.pcb.remoteIp,ackSegment c.pcb⟩]⟩⟩,.ok) := by
  simp [Conn.tcpSendAck,Conn.tcpMakeSegment,Conn.ipv4Out,Link.fate,Link.spend,h,hn,Link.ipv4Out_up,
    ackSegment]

theorem Conn.tcpSendFin_up {c : Conn} (h : c.link.fates = []) (hn : c.pcb.netif = some n)
    (hr : c.pcb.retransTimer = false) :
    c.tcpSendFin = (⟨{ c.pcb.started (finSegment c.pcb) (c.pcb.sndNxt+1) with
        sndNxt := c.pcb.sndNxt+1, state := .finWait1 },
      ⟨[],c.link.wire++[⟨n,c.pcb.remoteIp,finSegment c.pcb⟩]⟩⟩,.ok) := by
  simp [Conn.tcpSendFin,Conn.tcpSendOwned,Conn.tcpMakeSegment,Conn.tcpStartOutstanding,Conn.tcpOutputOwned,
    Conn.ipv4Out,Link.fate,Link.spend,h,hn,Link.ipv4Out_up,Pcb.setOutstanding,Pcb.tcpArmTimer,netTimerAdd,hr,
    onOk,onErr,finSegment,Pcb.started]

end Up

namespace Table

section Steady

variable {t'' : Table}

theorem Steady.refl (t : Table) : Steady i t t := ⟨List.prefix_refl _,rfl,rfl,rfl⟩

theorem Steady.trans (h : Steady i t t') (h' : Steady i t' t'') : Steady i t t'' :=
  ⟨h.wire.trans h'.wire,h'.recv.trans h.recv,h'.rcvNxt.trans h.rcvNxt,h'.remoteIp.trans h.remoteIp⟩

theorem Steady.put {p : Pcb} {k : Link} (hw : t.link.wire <+: k.wire) (hr : p.recv = (t.storage i).recv)
    (hn : p.rcvNxt = (t.storage i).rcvNxt) (ha : p.remoteIp = (t.storage i).remoteIp) :
    Steady i t (t.setConn i ⟨p,k⟩) := by
  refine ⟨hw,?_,?_,?_⟩ <;> simpa [Table.setConn]

theorem Sends.put (h : t.Sends i) {p : Pcb} {k : Link} (hf : k.fates = [])
    (hn : p.netif = (t.storage i).netif) (ho : p.opened = (t.storage i).opened)
    (hl : p.listener = (t.storage i).listener) (ht : p.outstanding = none → p.retransTimer = false)
    (hs : p.state = .established ∨ p.state = .finWait1) : (t.setConn i ⟨p,k⟩).Sends i where
  up := hf
  netif := by simpa [Table.setConn,hn] using h.netif
  opened := by simpa [Table.setConn,ho] using h.opened
  live := h.live
  timer := by simpa [Table.setConn] using ht
  apart := by simpa [Table.setConn,hl] using h.apart
  state := by simpa [Table.setConn] using hs

end Steady

theorem Sends.of_inv (h : Inv t) (hi : t.pcbs i = true) (hf : t.link.fates = [])
    (hn : (t.storage i).netif = some n) (hs : (t.storage i).state = .established) : t.Sends i where
  up := hf
  netif := ⟨n,hn⟩
  opened := by rw [h.links.opened,hi]
  live := hi
  timer ho := ((h.sound i hi).idle ho).1
  apart hl := h.links.ne_of_child ⟨hi,hl⟩ rfl
  state := .inl hs

/-- The local FIN goes out. -/
theorem Sends.localFin (h : t.Sends i) (hs : (t.storage i).state = .established)
    (ho : (t.storage i).outstanding = none) :
    ∃ t', onErr (t.onConn i Conn.tcpStartLocalFin) (fun t err => t.tcpFail i err) = (t',.ok) ∧ t'.Sends i ∧
      Steady i t t' ∧ (t'.storage i).sndUna = (t.storage i).sndUna := by
  obtain ⟨n,hn⟩ := h.netif
  have hf := Conn.tcpSendFin_up (c := t.conn i) h.up hn (h.timer ho)
  have hr : t.onConn i Conn.tcpStartLocalFin = t.onConn i Conn.tcpSendFin := by
    simp only [onConn,Conn.tcpStartLocalFin]
    rw [if_neg (by simp [conn,h.opened,ho,hs])]
  let p' : Pcb := { (t.storage i).started (finSegment (t.storage i)) ((t.storage i).sndNxt+1) with
    sndNxt := (t.storage i).sndNxt+1, state := .finWait1 }
  let k : Link := ⟨[],t.link.wire++[⟨n,(t.storage i).remoteIp,finSegment (t.storage i)⟩]⟩
  refine ⟨t.setConn i ⟨p',k⟩,?_,h.put rfl rfl rfl rfl (by rintro ⟨⟩) (.inr rfl),.put ⟨_,rfl⟩ rfl rfl rfl,?_⟩
  · rw [hr,onConn,hf,onErr_ok rfl]
    rfl
  · simp [setConn,p',Pcb.started,Pcb.setOutstanding]

/-- An acknowledgement goes out. -/
theorem Sends.sendAck (h : t.Sends i) :
    ∃ t', t.onConn i Conn.tcpSendAck = (t',.ok) ∧ t'.Sends i ∧ Steady i t t' ∧
      t'.storage = t.storage ∧ Acks t.link t'.link (t.storage i).remoteIp (t.storage i).rcvNxt := by
  obtain ⟨n,hn⟩ := h.netif
  have hf := Conn.tcpSendAck_up (c := t.conn i) h.up hn
  refine ⟨{ t with link := ⟨[],t.link.wire++[⟨n,(t.storage i).remoteIp,ackSegment (t.storage i)⟩]⟩ },?_,?_,?_,rfl,?_⟩
  · rw [onConn,hf,← setConn_link t i]
    rfl
  · exact ⟨rfl,⟨n,hn⟩,h.opened,h.live,h.timer,h.apart,h.state⟩
  · exact ⟨⟨_,rfl⟩,rfl,rfl,rfl⟩
  · refine ⟨⟨n,(t.storage i).remoteIp,ackSegment (t.storage i)⟩,by simp,rfl,?_,?_⟩ <;> simp [ackSegment]

/-- An acceptable acknowledgement changes the sending side only. -/
theorem Sends.acceptAck (h : t.Sends i) (hs : (t.storage i).state = .established)
    (ha : (t.storage i).Acceptable s.ack) :
    ∃ t', t.tcpAcceptAck i s.ack = (t',.ok) ∧ t'.Sends i ∧ Steady i t t' ∧
      ((t'.storage i).sndUna = (t.storage i).sndUna ∨ (t'.storage i).sndUna = s.ack) := by
  by_cases hc : (t.storage i).outstanding ≠ none ∧ s.ack = (t.storage i).outstandingEnd
  swap
  · exact ⟨t,acceptAck_short ha hc,h,.refl t,.inl rfl⟩
  rw [acceptAck_complete ha hc]
  have h₁ : (t.modify i fun p => p.tcpAcked s.ack).Sends i :=
    h.put h.up rfl rfl rfl (fun _ => rfl) (.inl (by simp [hs]))
  have h₂ : Steady i t (t.modify i fun p => p.tcpAcked s.ack) := .put (List.prefix_refl _) rfl rfl rfl
  have hu : ((t.modify i fun p => p.tcpAcked s.ack).storage i).sndUna = s.ack := by simp [modify,Pcb.tcpAcked]
  split
  · obtain ⟨t',he,hs',hst,hu'⟩ := h₁.localFin (by simp [modify,Pcb.tcpAcked,hs])
      (by simp [modify,Pcb.tcpAcked,Pcb.tcpClearOutstanding])
    exact ⟨t',he,hs',h₂.trans hst,.inr (hu'.trans hu)⟩
  · exact ⟨_,rfl,h₁,h₂,.inr hu⟩

/-- What arrived data does to a block that has room for it. -/
theorem Sends.inData (h : t.Sends i) (hpos : 0 < s.payload.length) (hmss : s.payload.length ≤ mss)
    (hfit : s.payload.length ≤ recvMax-(t.storage i).recv.count) :
    ∃ t', t.tcpInData i s = (t',.ok) ∧ t'.Sends i ∧ t.link.wire <+: t'.link.wire ∧
      (t'.storage i).remoteIp = (t.storage i).remoteIp ∧ (t'.storage i).sndUna = (t.storage i).sndUna ∧
      Acks t.link t'.link (t.storage i).remoteIp (t'.storage i).rcvNxt ∧
      if s.seq = (t.storage i).rcvNxt then
        (t'.storage i).recv.contents = (t.storage i).recv.contents++s.payload ∧
          (t'.storage i).rcvNxt = (t.storage i).rcvNxt+BitVec.ofNat 32 s.payload.length
      else (t'.storage i).recv.contents = (t.storage i).recv.contents ∧
        (t'.storage i).rcvNxt = (t.storage i).rcvNxt := by
  simp only [tcpInData]
  by_cases hseq : s.seq = (t.storage i).rcvNxt
  · have hq : (t.storage i).tcpQueueData s.payload = ((t.storage i).queued s.payload hfit,.ok) := by
      simp only [Pcb.tcpQueueData]
      rw [if_neg (by omega),dif_pos hfit]
    let p' : Pcb := { (t.storage i).queued s.payload hfit with
      rcvNxt := (t.storage i).rcvNxt+BitVec.ofNat 32 s.payload.length }
    have hs : (t.setConn i ⟨p',t.link⟩).Sends i := h.put h.up rfl rfl rfl h.timer h.state
    have hqueue : (onOk (t.onPcb i fun p => p.tcpQueueData s.payload) fun t =>
        (t.modify i fun p => { p with rcvNxt := p.rcvNxt+BitVec.ofNat 32 s.payload.length },.ok)) =
        (t.setConn i ⟨p',t.link⟩,.ok) := by
      simp only [onPcb,onConn,conn,hq]
      rw [onOk_ok rfl]
      simp [setConn,modify,p',Pcb.queued]
    obtain ⟨t',he,hs',hst,hstore,hack⟩ := hs.sendAck
    refine ⟨t',?_,hs',hst.wire,?_,?_,?_,?_⟩
    · rw [if_pos ⟨hpos,hseq⟩,hqueue,onOk_ok rfl,if_pos hpos,he]
    · rw [hstore]
      simp [setConn,p',Pcb.queued]
    · rw [hstore]
      simp [setConn,p',Pcb.queued]
    · rw [hstore]
      simpa [setConn,p',Pcb.queued] using hack
    · rw [if_pos hseq,hstore]
      simp [setConn,p',Pcb.queued]
  · obtain ⟨t',he,hs',hst,hstore,hack⟩ := h.sendAck
    refine ⟨t',?_,hs',hst.wire,by rw [hstore],by rw [hstore],by rw [hstore]; exact hack,?_⟩
    · rw [if_neg (by simp [hseq]),onOk_ok rfl,if_pos hpos,he]
    · rw [if_neg hseq,hstore]
      exact ⟨rfl,rfl⟩

/-- What follows the acknowledgement of a FIN leaves the received data alone. -/
theorem Sends.inPeerFin (h : t.Sends i) :
    ∃ t', t.tcpInPeerFin i (t.storage i).state = (t',.ok) ∧ Steady i t t' ∧
      (t'.storage i).sndUna = (t.storage i).sndUna := by
  rcases h.state with hs | hs
  · simp only [hs,tcpInPeerFin]
    by_cases hl : (t.storage i).listener = none
    swap
    · obtain ⟨l,hl⟩ := Option.ne_none_iff_exists'.1 hl
      have hne : i ≠ l := fun he => h.apart (he ▸ hl)
      obtain ⟨a,b,c,he⟩ := Pcb.tcpTerminate_eq { t.storage i with listener := none, releasePending := true } .state
      refine ⟨_,by rw [if_pos (by simp [hl])],?_,?_⟩
      · rw [detachChild_eq h.live hl hne]
        refine ⟨List.prefix_refl _,?_,?_,?_⟩ <;> simp [he]
      · rw [detachChild_eq h.live hl hne]
        simp [he]
    rw [if_neg (by simp [hl])]
    have h₀ : Steady i t (t.modify i fun p => { p with
        peerFinSeen := true
        closeRequested := if p.outstanding ≠ none then true else p.closeRequested }) :=
      .put (List.prefix_refl _) rfl rfl rfl
    by_cases ho : (t.storage i).outstanding = none
    swap
    · exact ⟨_,by rw [if_pos ho],h₀,by simp [modify]⟩
    rw [if_neg (by simp [ho])]
    have h₁ : (t.modify i fun p => { p with
        peerFinSeen := true
        closeRequested := if p.outstanding ≠ none then true else p.closeRequested }).Sends i :=
      h.put h.up rfl rfl rfl h.timer h.state
    obtain ⟨t',he,-,hst,hu⟩ := h₁.localFin (by simp [modify,hs]) (by simp [modify,ho])
    exact ⟨t',he,h₀.trans hst,hu.trans (by simp [modify])⟩
  · simp only [hs,tcpInPeerFin]
    refine ⟨_,rfl,.put (List.prefix_refl _) rfl rfl rfl,?_⟩
    simp [modify]

/-- A FIN that is the next thing expected is taken. -/
theorem Sends.inFin_exact (h : t.Sends i)
    (hq : s.seq+BitVec.ofNat 32 s.payload.length = (t.storage i).rcvNxt) :
    ∃ t', t.tcpInFin i s = (t',.ok) ∧ t.link.wire <+: t'.link.wire ∧
      (t'.storage i).recv = (t.storage i).recv ∧ (t'.storage i).sndUna = (t.storage i).sndUna ∧
      (t'.storage i).rcvNxt = (t.storage i).rcvNxt+1 ∧
      Acks t.link t'.link (t.storage i).remoteIp (t'.storage i).rcvNxt := by
  simp only [tcpInFin]
  rw [if_pos hq]
  have h₁ : (t.modify i fun p => { p with rcvNxt := p.rcvNxt+1 }).Sends i :=
    h.put h.up rfl rfl rfl h.timer h.state
  obtain ⟨t₂,he₂,h₂,hst₂,hstore₂,hack₂⟩ := h₁.sendAck
  obtain ⟨t₃,he₃,hst₃,hu₃⟩ := h₂.inPeerFin
  have hstate : (t₂.storage i).state = (t.storage i).state := by simp [hstore₂,modify]
  have hn₃ : (t₃.storage i).rcvNxt = (t.storage i).rcvNxt+1 := by simp [hst₃.rcvNxt,hstore₂,modify]
  refine ⟨t₃,?_,hst₂.wire.trans hst₃.wire,?_,?_,hn₃,?_⟩
  · rw [he₂,onErr_ok rfl,onOk_ok rfl,← hstate,he₃]
  · simp [hst₃.recv,hstore₂,modify]
  · simp [hu₃,hstore₂,modify]
  · rw [hn₃]
    simpa [modify] using hack₂.mono (List.prefix_refl _) hst₃.wire

/-- A FIN behind the data of its segment is taken when it is the next thing expected. -/
theorem Sends.inFin (h : t.Sends i) (hpos : 0 < s.payload.length) (hfin : s.has flagFin = true) :
    ∃ t', t.tcpInFin i s = (t',.ok) ∧ t.link.wire <+: t'.link.wire ∧
      (t'.storage i).recv = (t.storage i).recv ∧ (t'.storage i).sndUna = (t.storage i).sndUna ∧
      (t'.storage i).rcvNxt = (t.storage i).rcvNxt+s.finLength (t.storage i).rcvNxt ∧
      (t' = t ∨ Acks t.link t'.link (t.storage i).remoteIp (t'.storage i).rcvNxt) := by
  by_cases hq : s.seq+BitVec.ofNat 32 s.payload.length = (t.storage i).rcvNxt
  · obtain ⟨t',he,hw,hr,hu,hn,ha⟩ := h.inFin_exact hq
    exact ⟨t',he,hw,hr,hu,by rw [hn,Segment.finLength,if_pos ⟨hfin,hq⟩],.inr ha⟩
  · simp only [tcpInFin,Segment.finLength,hfin,true_and]
    rw [if_neg hq,if_neg hpos.ne',if_neg (by simpa using hq)]
    exact ⟨t,rfl,List.prefix_refl _,rfl,rfl,by simp,.inl rfl⟩

/-- A segment whose acknowledgement is acceptable gets its data received. -/
theorem Sends.inStream (h : t.Sends i) (hs : (t.storage i).state = .established)
    (hf : s.has flagAck = true ∧ s.has flagSyn = false) (ha : (t.storage i).Acceptable s.ack)
    (hpos : 0 < s.payload.length) (hmss : s.payload.length ≤ mss)
    (hfit : s.payload.length ≤ recvMax-(t.storage i).recv.count) :
    Receives t i s (t.tcpInStream i s).1 := by
  obtain ⟨t₁,he₁,h₁,hst₁,hu₁⟩ := h.acceptAck hs ha
  have hw : (t₁.modify i fun p => { p with window := s.window }).Sends i :=
    h₁.put h₁.up rfl rfl rfl h₁.timer h₁.state
  have hst₂ : Steady i t (t₁.modify i fun p => { p with window := s.window }) :=
    hst₁.trans (.put (List.prefix_refl _) rfl rfl rfl)
  obtain ⟨t₃,he₃,h₃,hw₃,hip₃,hu₃,hack₃,hdata⟩ := hw.inData (s := s) hpos hmss (by rw [hst₂.recv]; exact hfit)
  have hack : Acks t.link t₃.link (t.storage i).remoteIp (t₃.storage i).rcvNxt := by
    rw [← hst₂.remoteIp]
    exact hack₃.mono hst₂.wire (List.prefix_refl _)
  have huna : 0 ≤ ((t₃.storage i).sndUna-(t.storage i).sndUna).toInt := by
    have hu₂ : ((t₁.modify i fun p => { p with window := s.window }).storage i).sndUna = (t₁.storage i).sndUna := by
      simp [modify]
    rw [hu₃,hu₂]
    rcases hu₁ with hu₁ | hu₁
    · simp [hu₁]
    · rw [hu₁]
      simp only [Pcb.Acceptable,not_or,not_lt] at ha
      exact ha.1
  rw [hst₂.recv,hst₂.rcvNxt] at hdata
  have hne : (t₁.storage i).state ≠ .timeWait := by
    rcases h₁.state with hs | hs <;> simp [hs]
  have hrun : t.tcpInStream i s = if s.has flagFin then t₃.tcpInFin i s else (t₃,.ok) := by
    simp only [tcpInStream]
    rw [if_neg (by simp [hf.1,hf.2]),he₁,onOk_ok rfl,if_neg hne,he₃,onOk_ok rfl]
  rw [hrun]
  by_cases hfin : s.has flagFin = true
  swap
  · rw [if_neg hfin]
    have hz : ∀ next, s.finLength next = 0 := fun _ => by simp [Segment.finLength,hfin]
    refine ⟨hack,?_,huna⟩
    simpa [hz] using hdata
  obtain ⟨t₄,he₄,hw₄,hr₄,hu₄,hn₄,hack₄⟩ := h₃.inFin hpos hfin
  rw [if_pos hfin,he₄]
  refine ⟨?_,?_,by rw [hu₄]; exact huna⟩
  · rcases hack₄ with rfl | hack₄
    · exact hack
    · rw [hip₃,hst₂.remoteIp] at hack₄
      exact hack₄.mono (hst₂.wire.trans hw₃) (List.prefix_refl _)
  · rw [hr₄,hn₄]
    split at hdata
    next hseq =>
      rw [if_pos hseq,hdata.1,hdata.2]
      exact ⟨rfl,rfl⟩
    next hseq =>
      rw [if_neg hseq,hdata.1,hdata.2]
      exact ⟨rfl,rfl⟩

end Table

theorem not_acks_self (l : Link) (dest : IpAddr) (ack : BitVec 32) : ¬Acks l l dest ack := by
  rintro ⟨pkt,hp,-⟩
  simp at hp

theorem tcpIn_stream {src dest : IpAddr} {buf : List Byte} (hbuf : Segment.ofBytes buf = some s)
    (hcheck : tcpInCheck s src dest = .ok)
    (hfind : t.tcpFindPcb n src dest s.srcPort s.destPort = some i)
    (hstate : (t.storage i).state = .established) :
    (t.tcpIn n src dest buf).1 = (t.tcpInStream i s).1 := by
  simp only [Table.tcpIn,hbuf]
  rw [if_neg (by simp [hcheck]),Table.tcpInSegment,hfind]
  simp only [Table.tcpInPcb,hstate]

theorem inData_too_long (hseq : s.seq = (t.storage i).rcvNxt) (hmss : mss < s.payload.length) :
    t.tcpInData i s = (t,.size) := by
  have hself : t.setConn i ⟨t.storage i,t.link⟩ = t := by simp [Table.setConn]
  have hq : t.onPcb i (fun p => p.tcpQueueData s.payload) = (t,.size) := by
    simp [Table.onPcb,Table.onConn,Pcb.tcpQueueData,Table.conn,hmss,hself]
  simp only [Table.tcpInData]
  rw [if_pos ⟨by omega,hseq⟩,hq,onOk_err (r := (t,.size)) (by simp),onOk_err (r := (t,.size)) (by simp)]

/-- Data that fits is received unless the acknowledgement of its segment is older than
`snd_una`. -/
theorem data_received_iff_ack_not_stale (steps : List Table.Step) (netif : NetifId) (src dest : IpAddr)
    (buf : List Byte) (s : Segment) (i : Slot) (hbuf : Segment.ofBytes buf = some s)
    (hcheck : tcpInCheck s src dest = .ok)
    (hfind : (tcpInit.run steps).tcpFindPcb netif src dest s.srcPort s.destPort = some i)
    (hstate : ((tcpInit.run steps).storage i).state = .established)
    (hflags : s.has flagAck = true ∧ s.has flagSyn = false)
    (hlen : 1 ≤ s.payload.length ∧ s.payload.length ≤ mss)
    (hfit : s.payload.length ≤ recvMax-((tcpInit.run steps).storage i).recv.count)
    (hnxt : (s.ack-((tcpInit.run steps).storage i).sndNxt).toInt ≤ 0) :
    let t := (tcpInit.run steps).supply []
    Receives t i s (t.tcpIn netif src dest buf).1 ↔ ¬(s.ack-(t.storage i).sndUna).toInt < 0 := by
  intro t
  have hI : Inv t := (Inv.init.run steps).supply []
  obtain ⟨hi,hn,-⟩ := findPcb_live hfind
  have hsend : t.Sends i := .of_inv hI hi rfl hn hstate
  have hin : (t.tcpIn netif src dest buf).1 = (t.tcpInStream i s).1 := tcpIn_stream hbuf hcheck hfind hstate
  rw [hin]
  constructor
  · intro hr hstale
    have ha : ¬(t.storage i).Acceptable s.ack := not_not.2 (.inl hstale)
    simp only [Table.tcpInStream] at hr
    rw [if_neg (by simp [hflags.1,hflags.2]),acceptAck_unacceptable ha,onOk_err (r := (t,.state)) (by simp)] at hr
    exact not_acks_self _ _ _ hr.1
  · intro hfresh
    exact hsend.inStream hstate hflags (not_or.2 ⟨hfresh,not_lt.2 hnxt⟩) hlen.1 hlen.2 hfit

/-- A connection to a peer that has sent the three bytes at 7001 once, in a segment that was
lost, and has acknowledged the byte sent to it since. -/
def crossedData : List Table.Step :=
  [([],.tcpOpen true),
   ([],.tcpConnectStart 0 ⟨1,true,0x0a000001⟩ 0x0a000002 80),
   ([],.tcpIn 1 0x0a000002 0x0a000001 (peerBytes 80 49152 7000 1001 (flagSyn ||| flagAck) [])),
   ([],.tcpSendStart 0 [9]),
   ([],.tcpIn 1 0x0a000002 0x0a000001 (peerBytes 80 49152 7001 1002 flagAck []))]

/-- The next segment of the peer acknowledges that byte again and is received. -/
theorem data_received_crossed :
    let t := (tcpInit.run crossedData).supply []
    Receives t 0 (peerSegment 80 49152 7001 1002 (flagPsh ||| flagAck) [1,2,3])
      (t.tcpIn 1 0x0a000002 0x0a000001 (peerBytes 80 49152 7001 1002 (flagPsh ||| flagAck) [1,2,3])).1 := by
  refine (data_received_iff_ack_not_stale crossedData 1 0x0a000002 0x0a000001
    (peerBytes 80 49152 7001 1002 (flagPsh ||| flagAck) [1,2,3])
    (peerSegment 80 49152 7001 1002 (flagPsh ||| flagAck) [1,2,3]) 0 ?_ ?_ ?_ ?_ ?_ ?_ ?_ ?_).2 ?_
  · exact Segment.ofBytes_bytes _
  all_goals decide +kernel

/-- The clone of the lost segment acknowledges only the handshake and is refused, although
its data is the next that the block expects. -/
theorem retransmission_refused_as_stale :
    let t := (tcpInit.run crossedData).supply []
    let s := peerSegment 80 49152 7001 1001 (flagPsh ||| flagAck) [1,2,3]
    let r := t.tcpIn 1 0x0a000002 0x0a000001 s.bytes
    tcpInCheck s 0x0a000002 0x0a000001 = .ok ∧
      t.tcpFindPcb 1 0x0a000002 0x0a000001 s.srcPort s.destPort = some 0 ∧
      (t.storage 0).state = .established ∧ (t.storage 0).peerFinSeen = false ∧
      s.seq = (t.storage 0).rcvNxt ∧ (s.ack-(t.storage 0).sndNxt).toInt ≤ 0 ∧
      r.2 = .state ∧ (r.1.storage 0).recv.contents = [] ∧ r.1.link.wire = t.link.wire ∧
      ¬Receives t 0 s r.1 := by
  decide +kernel

/-- Data at `rcv_nxt` that fits in the advertised window is received exactly when it is no longer
than `TCP_MSS`. -/
theorem window_honoured_iff_mss (steps : List Table.Step) (netif : NetifId) (src dest : IpAddr)
    (buf : List Byte) (s : Segment) (i : Slot) (hbuf : Segment.ofBytes buf = some s)
    (hcheck : tcpInCheck s src dest = .ok)
    (hfind : (tcpInit.run steps).tcpFindPcb netif src dest s.srcPort s.destPort = some i)
    (hstate : ((tcpInit.run steps).storage i).state = .established)
    (hflags : s.has flagAck = true ∧ s.has flagSyn = false)
    (hack : ((tcpInit.run steps).storage i).Acceptable s.ack)
    (hseq : s.seq = ((tcpInit.run steps).storage i).rcvNxt) (hpos : 1 ≤ s.payload.length)
    (hfit : s.payload.length ≤ recvMax-((tcpInit.run steps).storage i).recv.count) :
    let t := (tcpInit.run steps).supply []
    Receives t i s (t.tcpIn netif src dest buf).1 ↔ s.payload.length ≤ mss := by
  intro t
  have hI : Inv t := (Inv.init.run steps).supply []
  obtain ⟨hi,hn,-⟩ := findPcb_live hfind
  have hsend : t.Sends i := .of_inv hI hi rfl hn hstate
  have hin : (t.tcpIn netif src dest buf).1 = (t.tcpInStream i s).1 := tcpIn_stream hbuf hcheck hfind hstate
  rw [hin]
  constructor
  · intro hr
    by_contra hmss
    obtain ⟨t₁,he₁,h₁,hst₁,-⟩ := hsend.acceptAck hstate hack
    have hne : (t₁.storage i).state ≠ .timeWait := by
      rcases h₁.state with hs | hs <;> simp [hs]
    have hsize : (t₁.modify i fun p => { p with window := s.window }).tcpInData i s =
        (t₁.modify i fun p => { p with window := s.window },.size) :=
      inData_too_long (by simp [Table.modify,hst₁.rcvNxt,t,Table.supply,hseq]) (by omega)
    have hrun : (t.tcpInStream i s).1 = t₁.modify i fun p => { p with window := s.window } := by
      simp only [Table.tcpInStream]
      rw [if_neg (by simp [hflags.1,hflags.2]),he₁,onOk_ok rfl,if_neg hne,hsize,onOk_err (by simp)]
    -- the ring is as long as before
    have hring := hr.2.1
    have hseq' : s.seq = (t.storage i).rcvNxt := hseq
    rw [hrun,if_pos hseq'] at hring
    have hlen := congrArg List.length hring.1
    simp [Table.modify,hst₁.recv] at hlen
    simp [hlen] at hpos
  · intro hmss
    exact hsend.inStream hstate hflags hack hpos hmss hfit

/-- A peer that sends the byte `a` so many times behind the handshake. -/
def largeData (a : Byte) (n : ℕ) : Segment :=
  peerSegment 80 49152 7001 1002 (flagPsh ||| flagAck) (List.replicate n a)

/-- A segment of `TCP_MSS` bytes is received. -/
theorem window_honoured_mss :
    let t := (tcpInit.run crossedData).supply []
    Receives t 0 (largeData 7 512) (t.tcpIn 1 0x0a000002 0x0a000001 (largeData 7 512).bytes).1 := by
  refine (window_honoured_iff_mss crossedData 1 0x0a000002 0x0a000001 (largeData 7 512).bytes
    (largeData 7 512) 0 (Segment.ofBytes_bytes _) ?_ ?_ ?_ ?_ ?_ ?_ ?_ ?_).2 ?_
  all_goals decide +kernel

/-- One of 536 bytes, which a peer that was told no other maximum may send, is refused although
all of the window is free. -/
theorem default_mss_refused :
    let t := (tcpInit.run crossedData).supply []
    let s := largeData 7 536
    let r := t.tcpIn 1 0x0a000002 0x0a000001 s.bytes
    tcpInCheck s 0x0a000002 0x0a000001 = .ok ∧
      t.tcpFindPcb 1 0x0a000002 0x0a000001 s.srcPort s.destPort = some 0 ∧
      (t.storage 0).state = .established ∧ (t.storage 0).peerFinSeen = false ∧
      (t.storage 0).Acceptable s.ack ∧ s.seq = (t.storage 0).rcvNxt ∧
      (t.storage 0).recv.count = 0 ∧ r.2 = .size ∧ (r.1.storage 0).recv.contents = [] ∧
      (r.1.storage 0).rcvNxt = (t.storage 0).rcvNxt ∧ r.1.link.wire = t.link.wire := by
  decide +kernel

section Reading

/-- The states in which a connection that was neither aborted nor failed can be. -/
def TcpState.connected (st : TcpState) : Bool :=
  st = .established ∨ st = .finWait1 ∨ st = .finWait2 ∨ st = .timeWait

theorem Pcb.tcpRecvTake_eq (p : Pcb) (size : ℕ) (hc : 0 < p.recv.count) :
    ∃ p', p.tcpRecvTake size = some (p',p.recv.contents.take size) := by
  have htake : p.recv.contents.take (min size p.recv.count) = p.recv.contents.take size := by
    rw [List.take_eq_take_iff]
    simp
  simp only [Pcb.tcpRecvTake]
  rw [if_neg hc.ne',Ring.front_eq,htake]
  exact ⟨_,rfl⟩

theorem Pcb.tcpRecvBytesAcquired_eq (p : Pcb) {size : ℕ} (hs : 0 < size) (timeoutMs : ℤ)
    (hc : 0 < p.recv.count) :
    ∃ p', p.tcpRecvBytesAcquired size timeoutMs = some (p',.inr (p.recv.contents.take size)) := by
  obtain ⟨p',hp⟩ := p.tcpRecvTake_eq size hc
  refine ⟨p'.tcpRecvLeave,?_⟩
  simp [Pcb.tcpRecvBytesAcquired,hs.ne',Pcb.tcpRecvLoop,hp]

theorem Pcb.tcpRecvAcquire_connected {p : Pcb} (ho : p.opened = true) (hr : p.releasePending = false)
    (hc : p.state.connected = true) :
    p.tcpRecvAcquire = if p.state = .timeWait then (p,if p.error ≠ .ok then p.error else .state)
      else ({ p with recvWaiters := p.recvWaiters+1 },.ok) := by
  simp only [TcpState.connected,decide_eq_true_eq] at hc
  simp only [Pcb.tcpRecvAcquire]
  rw [if_neg (by simp [ho,hr])]
  rcases hc with hs | hs | hs | hs <;> simp [hs]

theorem Inv.recvAcquire_connected (h : Inv t) (hi : t.pcbs i = true)
    (hc : (t.storage i).state.connected = true) :
    t.tcpRecvAcquire i = if (t.storage i).state = .timeWait then
        (t,if (t.storage i).error ≠ .ok then (t.storage i).error else .state)
      else (t.modify i fun p => { p with recvWaiters := p.recvWaiters+1 },.ok) := by
  have ho : (t.storage i).opened = true := by rw [h.links.opened,hi]
  have hr : (t.storage i).releasePending = false := by
    by_contra hr
    rcases (h.sound i hi).pending (by simpa using hr) with hs | hs <;> simp [hs,TcpState.connected] at hc
  simp only [Table.tcpRecvAcquire,hi,not_true,if_false,Table.onPcb,Table.onConn,Table.conn,
    Pcb.tcpRecvAcquire_connected ho hr hc]
  split
  · rw [setConn_link]
  · rfl

/-- A reader gets the oldest bytes of the ring unless the connection is in TIME_WAIT. -/
theorem recv_bytes_iff_not_timeWait (steps : List Table.Step) (i : Slot)
    (hi : (tcpInit.run steps).pcbs i = true)
    (hstate : ((tcpInit.run steps).storage i).state.connected = true)
    (hcount : 0 < ((tcpInit.run steps).storage i).recv.count) (size : ℕ) (hsize : 0 < size) (timeoutMs : ℤ) :
    let t := tcpInit.run steps
    let ring := (t.storage i).recv
    (∃ t' bytes, t.tcpRecvBytes i size timeoutMs = some (t',.inr bytes) ∧
      bytes = ring.contents.take size ∧ bytes.length = min size ring.count) ↔
      (t.storage i).state ≠ .timeWait := by
  intro t ring
  have hacq := (Inv.init.run steps).recvAcquire_connected hi hstate
  by_cases hs : (t.storage i).state = .timeWait
  · rw [if_pos hs] at hacq
    have hne : (if (t.storage i).error ≠ .ok then (t.storage i).error else .state) ≠ .ok := by
      split
      · assumption
      · simp
    have hr : t.tcpRecvBytes i size timeoutMs =
        some (t,.inl (if (t.storage i).error ≠ .ok then (t.storage i).error else .state)) := by
      simp only [Table.tcpRecvBytes]
      rw [if_neg hsize.ne',hacq,if_pos hne]
    simp [hr,hs]
  · rw [if_neg hs] at hacq
    let q := { t.storage i with recvWaiters := (t.storage i).recvWaiters+1 }
    obtain ⟨p',hp⟩ := q.tcpRecvBytesAcquired_eq hsize timeoutMs hcount
    have hr : t.tcpRecvBytes i size timeoutMs =
        some ((t.modify i fun _ => q).modify i fun _ => p',.inr (ring.contents.take size)) := by
      have hq : (t.modify i fun _ => q).storage i = q := by simp [Table.modify]
      simp only [Table.tcpRecvBytes]
      rw [if_neg hsize.ne',show t.tcpRecvAcquire i = (t.modify i fun _ => q,.ok) from hacq,
        if_neg (by simp)]
      simp only [hq,hp]
      rfl
    exact ⟨fun _ => hs,fun _ => ⟨_,_,hr,rfl,by simp [ring]⟩⟩

/-- A peer that sends three bytes and a FIN, and acknowledges the FIN sent in answer. -/
def peerCloses : List Table.Step :=
  [([],.tcpOpen true),
   ([],.tcpConnectStart 0 ⟨1,true,0x0a000001⟩ 0x0a000002 80),
   ([],.tcpIn 1 0x0a000002 0x0a000001 (peerBytes 80 49152 7000 1001 (flagSyn ||| flagAck) [])),
   ([],.tcpIn 1 0x0a000002 0x0a000001 (peerBytes 80 49152 7001 1001 (flagPsh ||| flagAck) [1,2,3])),
   ([],.tcpIn 1 0x0a000002 0x0a000001 (peerBytes 80 49152 7004 1001 (flagFin ||| flagAck) []))]

/-- Before the FIN of this side is acknowledged the bytes can be read. -/
theorem recv_bytes_finWait1 :
    ∃ t' bytes, (tcpInit.run peerCloses).tcpRecvBytes 0 10 (-1) = some (t',.inr bytes) ∧
      bytes = ((tcpInit.run peerCloses).storage 0).recv.contents.take 10 ∧
      bytes.length = min 10 ((tcpInit.run peerCloses).storage 0).recv.count :=
  (recv_bytes_iff_not_timeWait peerCloses 0 (by decide +kernel) (by decide +kernel) (by decide +kernel) 10
    (by decide) (-1)).2 (by decide +kernel)

/-- Afterwards the same bytes, acknowledged to the peer, are refused to the reader. -/
theorem timeWait_refuses_acknowledged_bytes :
    let t := tcpInit.run (peerCloses++
      [([],.tcpIn 1 0x0a000002 0x0a000001 (peerBytes 80 49152 7005 1002 flagAck []))])
    t.pcbs 0 = true ∧ (t.storage 0).state = .timeWait ∧ (t.storage 0).error = .ok ∧
      (t.storage 0).recv.contents = [1,2,3] ∧
      (t.tcpRecvBytes 0 10 (-1)).map (fun r => r.2.getLeft?) = some (some .state) := by
  decide +kernel

end Reading

end Tcp
end QuardStarNet
