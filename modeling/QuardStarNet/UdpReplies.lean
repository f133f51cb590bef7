import QuardStarNet.PacketWork

/-! Which block a datagram is queued on. A bound port is the port of one open block only, but every
block that is not bound sends from port 0. -/
namespace QuardStarNet
namespace NetStack

open Pktbuf

/-- The queue of a slot holds the places of the records in use, each once. -/
structure UdpSlot.Ok (u : UdpSlot) : Prop where
  nodup : u.recvQueue.Nodup
  used : ∀ j, j ∈ u.recvQueue ↔ u.records j ≠ none

/-- What holds of the blocks between two calls. -/
structure UdpOk (s : NetStack) : Prop where
  slots : ∀ i, (s.udp i).Ok
  ports : ∀ i j p, p ≠ 0 → (s.udp i).hasPort p → (s.udp j).hasPort p → i = j

namespace UdpSlot

variable {u : UdpSlot}

theorem hasPort_iff {p : Port} : u.hasPort p ↔ ∃ pcb, u.pcb = some pcb ∧ pcb.localPort = p := by
  cases h : u.pcb with
  | none => simp [hasPort,h]
  | some pcb => simp [hasPort,h]

theorem Ok.closed {records : Fin udpRecvMax → Option UdpRecv} (h : ∀ j, records j = none) :
    Ok ⟨none,records⟩ := ⟨List.nodup_nil,fun j => by simp [recvQueue,h]⟩

theorem Ok.records_none (h : u.Ok) (hp : u.pcb = none) (j : Fin udpRecvMax) :
    u.records j = none := by
  by_contra hj
  have := (h.used j).2 hj
  simp [recvQueue,hp] at this

/-- A queue with room leaves a record free. -/
theorem Ok.exists_free (h : u.Ok) (hroom : u.recvQueue.length < udpRecvMax) :
    ∃ j, u.records j = none := by
  by_contra hall
  push Not at hall
  have hlen : (List.finRange udpRecvMax).length ≤ u.recvQueue.length :=
    ((List.nodup_finRange _).subperm fun j _ => (h.used j).2 (hall j)).length_le
  rw [List.length_finRange] at hlen
  omega

theorem queue_pcb {pcb : UdpPcb} (hpcb : u.pcb = some pcb) {j : Fin udpRecvMax} {r : UdpRecv} :
    (u.queue j r).pcb = some { pcb with recvQueue := pcb.recvQueue++[j] } := by
  simp [UdpSlot.queue,hpcb]

theorem Ok.queue {j : Fin udpRecvMax} {r : UdpRecv} (h : u.Ok) (hopen : u.pcb ≠ none)
    (hj : u.records j = none) : (u.queue j r).Ok := by
  obtain ⟨pcb,hpcb⟩ := Option.ne_none_iff_exists'.1 hopen
  have hq : (u.queue j r).recvQueue = u.recvQueue++[j] := by simp [recvQueue,queue_pcb hpcb,hpcb]
  have hnot : j ∉ u.recvQueue := fun hmem => (h.used j).1 hmem hj
  refine ⟨?_,fun k => ?_⟩
  · rw [hq]
    simpa using h.nodup.concat hnot
  · rw [hq]
    by_cases hk : k = j
    · simp [UdpSlot.queue,hk]
    · simp [UdpSlot.queue,hk,h.used k]

/-- The first place is taken from the queue and its record emptied. -/
theorem Ok.take {port : Port} {j : Fin udpRecvMax} {rest : List (Fin udpRecvMax)} (h : u.Ok)
    (hu : u.pcb = some ⟨port,j :: rest⟩) :
    Ok ⟨some ⟨port,rest⟩,Function.update u.records j none⟩ := by
  have hq : u.recvQueue = j :: rest := by simp [recvQueue,hu]
  have hn := h.nodup
  rw [hq,List.nodup_cons] at hn
  refine ⟨hn.2,fun k => ?_⟩
  have hk := h.used k
  rw [hq,List.mem_cons] at hk
  by_cases hkj : k = j
  · subst k
    simpa [recvQueue] using hn.1
  · simp only [hkj,false_or] at hk
    simpa [recvQueue,hkj] using hk

end UdpSlot

variable {s : NetStack} {i : Fin udpPcbMax} {b : BufId} {n : NetifId} {src dest : IpAddr}

/-! What the other layers do leaves the blocks alone. -/

@[simp] theorem setLink_udp (w : NetLink) : (s.setLink w).udp = s.udp := rfl

@[simp] theorem pktbufFree_udp : (s.pktbufFree b).udp = s.udp := rfl

@[simp] theorem onLink_udp {α : Type} (f : NetLink → NetLink × α) : (s.onLink f).1.udp = s.udp := rfl

theorem udpSendto_udp (destPort : Port) (data : List Byte) :
    (s.udpSendto n i dest destPort data).1.udp = s.udp := by
  unfold udpSendto
  split
  · split
    · rfl
    · split
      · next h => rw [← (Prod.mk.inj h).1]; rfl
      · next h =>
        have hu := congrArg udp (Prod.mk.inj h).1
        dsimp only
        split
        · exact (beneath_ipv4Out n dest _).udp.trans hu.symm
        · exact hu.symm
  · rfl

theorem semCreate_udp (k : ℕ) : (semCreate k s).1.udp = s.udp := by
  induction k generalizing s with
  | zero => rfl
  | succ k ih =>
    rw [semCreate]
    split
    · exact ih
    · rfl

theorem setUdp_self {f : UdpSlot → UdpSlot} : (s.setUdp i f).udp i = f (s.udp i) := by
  simp [setUdp]

/-- Emptying a record frees a packet and changes one slot. -/
theorem udpDrop_udp (j : Fin udpRecvMax) :
    (s.udpDrop i j).udp = Function.update s.udp i ((s.udp i).clear j) := by
  unfold udpDrop
  split
  · next h =>
    have : (s.udp i).clear j = s.udp i := by
      unfold UdpSlot.clear
      rw [← h,Function.update_eq_self]
    rw [this,Function.update_eq_self]
  · rfl

/-- `udp_close` empties every record that it drains. -/
theorem drain_udp (l : List (Fin udpRecvMax)) :
    (l.foldl (fun s j => s.udpDrop i j) s).udp =
      Function.update s.udp i (l.foldl UdpSlot.clear (s.udp i)) := by
  induction l generalizing s with
  | nil => simp
  | cons j l ih =>
    rw [List.foldl_cons,ih,udpDrop_udp]
    simp

theorem clear_all_records (u : UdpSlot) (l : List (Fin udpRecvMax)) (j : Fin udpRecvMax) :
    (l.foldl UdpSlot.clear u).records j = if j ∈ l then none else u.records j := by
  induction l generalizing u with
  | nil => simp
  | cons k l ih =>
    rw [List.foldl_cons,ih]
    by_cases hl : j ∈ l
    · simp [hl]
    · by_cases hk : j = k
      · simp [hk,UdpSlot.clear]
      · simp [hl,hk,UdpSlot.clear]

/-! One call. -/

/-- A call on the blocks; `rest` is whatever the other layers do in between. -/
inductive UdpCall
  | udpOpen
  | udpBind (i : Fin udpPcbMax) (port : Port)
  | udpClose (i : Fin udpPcbMax)
  | udpSendto (i : Fin udpPcbMax) (n : NetifId) (dest : IpAddr) (destPort : Port) (data : List Byte)
  | udpIn (b : BufId) (src dest : IpAddr)
  | udpRecvfrom (i : Fin udpPcbMax) (size : ℕ) (wait : Bool)
  | rest (t : NetStack)

/-- The stack, and the source ports of the datagrams that each open block has sent. -/
structure UdpHistory where
  stack : NetStack
  sent : Fin udpPcbMax → List Port

namespace UdpHistory

/-- After `udp_init`. -/
def start (s : NetStack) : UdpHistory := ⟨{ s with udp := fun _ => ⟨none,fun _ => none⟩ },fun _ => []⟩

/-- The port of a block. -/
def port (h : UdpHistory) (i : Fin udpPcbMax) : Port :=
  ((h.stack.udp i).pcb.map UdpPcb.localPort).getD 0

def act (h : UdpHistory) : UdpCall → UdpHistory
  | .udpOpen =>
    let r := h.stack.udpOpen
    ⟨r.1,match r.2 with
      | none => h.sent
      | some i => Function.update h.sent i []⟩
  | .udpBind i port => ⟨(h.stack.udpBind i port).1,h.sent⟩
  | .udpClose i => ⟨(h.stack.udpClose i).1,Function.update h.sent i []⟩
  | .udpSendto i n dest destPort data =>
    let r := h.stack.udpSendto n i dest destPort data
    ⟨r.1,if r.2 = .ok then Function.update h.sent i (h.port i :: h.sent i) else h.sent⟩
  | .udpIn b src dest => ⟨(h.stack.udpIn b src dest).1,h.sent⟩
  | .udpRecvfrom i size wait => ⟨(h.stack.udpRecvfrom i size wait).1,h.sent⟩
  | .rest t => ⟨{ t with udp := h.stack.udp },h.sent⟩

def run (h : UdpHistory) (calls : List UdpCall) : UdpHistory := calls.foldl act h

end UdpHistory

/-- A call that closes no block. -/
structure UdpStep (s t : NetStack) : Prop where
  ok : t.UdpOk
  opened : ∀ i, (s.udp i).pcb ≠ none → (t.udp i).pcb ≠ none

theorem UdpOk.update (h : s.UdpOk) {t : NetStack} {u : UdpSlot}
    (ht : t.udp = Function.update s.udp i u) (hu : u.Ok)
    (hp : ∀ p, p ≠ 0 → u.hasPort p → ∀ j, j ≠ i → ¬(s.udp j).hasPort p) : t.UdpOk := by
  refine ⟨fun k => ?_,fun k j p hp0 hk hj => ?_⟩
  · rw [ht]
    by_cases hk : k = i
    · subst k
      simpa using hu
    · simpa [hk] using h.slots k
  · rw [ht] at hk hj
    by_cases hki : k = i
    · by_cases hji : j = i
      · rw [hki,hji]
      · simp only [hki,Function.update_self,Function.update_of_ne hji] at hk hj
        exact absurd hj (hp p hp0 hk j hji)
    · by_cases hji : j = i
      · simp only [hji,Function.update_self,Function.update_of_ne hki] at hk hj
        exact absurd hk (hp p hp0 hj k hki)
      · rw [Function.update_of_ne hki] at hk
        rw [Function.update_of_ne hji] at hj
        exact h.ports k j p hp0 hk hj

namespace UdpStep

theorem update (h : s.UdpOk) {t : NetStack} {u : UdpSlot}
    (ht : t.udp = Function.update s.udp i u) (hu : u.Ok) (hopen : u.pcb ≠ none)
    (hp : ∀ p, p ≠ 0 → u.hasPort p → ∀ j, j ≠ i → ¬(s.udp j).hasPort p) : s.UdpStep t := by
  refine ⟨h.update ht hu hp,fun k hk => ?_⟩
  rw [ht]
  by_cases hki : k = i
  · subst k
    simpa using hopen
  · simpa [hki] using hk

/-- A slot that keeps its port. -/
theorem update_same (h : s.UdpOk) {t : NetStack} {u : UdpSlot}
    (ht : t.udp = Function.update s.udp i u) (hu : u.Ok) {pcb pcb' : UdpPcb}
    (hpcb : (s.udp i).pcb = some pcb) (hpcb' : u.pcb = some pcb')
    (hport : pcb'.localPort = pcb.localPort) : s.UdpStep t := by
  refine update h ht hu (by simp [hpcb']) fun p hp0 hp j hj hjp => hj ?_
  obtain ⟨q,hq,hqp⟩ := UdpSlot.hasPort_iff.1 hp
  obtain rfl : pcb' = q := Option.some.inj (hpcb'.symm.trans hq)
  exact h.ports j i p hp0 hjp (UdpSlot.hasPort_iff.2 ⟨pcb,hpcb,hport.symm.trans hqp⟩)

theorem congr (h : s.UdpOk) {t : NetStack} (ht : t.udp = s.udp) : s.UdpStep t :=
  ⟨⟨fun i => ht ▸ h.slots i,fun i j p => ht ▸ h.ports i j p⟩,fun _ => ht ▸ id⟩

theorem trans {t t' : NetStack} (h : s.UdpStep t) (h' : t.UdpStep t') : s.UdpStep t' :=
  ⟨h'.ok,fun i hi => h'.opened i (h.opened i hi)⟩

theorem udpOpen (h : s.UdpOk) : s.UdpStep s.udpOpen.1 := by
  unfold NetStack.udpOpen
  split
  · exact congr h rfl
  · next i hfind =>
    have hnone : (s.udp i).pcb = none := by simpa using List.find?_some hfind
    have hsem := semCreate_udp (s := s) 3
    split
    · next heq =>
      rw [heq] at hsem
      exact congr h hsem
    · next t heq =>
      rw [heq] at hsem
      have ht := congr h hsem
      refine ht.trans (update ht.ok rfl ⟨List.nodup_nil,fun j => ?_⟩ nofun fun p hp0 hp => ?_)
      · have : (t.udp i).records j = none := hsem ▸ (h.slots i).records_none hnone j
        simpa [UdpSlot.recvQueue] using this
      · have : (0 : Port) = p := by simpa [UdpSlot.hasPort] using hp
        exact absurd this.symm hp0

theorem udpBind (h : s.UdpOk) (port : Port) : s.UdpStep (s.udpBind i port).1 := by
  unfold NetStack.udpBind
  split
  · exact congr h rfl
  · next hopen =>
    split
    · exact congr h rfl
    · next hfree =>
      push Not at hopen hfree
      obtain ⟨pcb,hpcb⟩ : ∃ pcb, (s.udp i).pcb = some pcb := by
        simpa [Option.ne_none_iff_exists'] using hopen.1
      refine update h rfl ⟨?_,fun j => ?_⟩ (by simp [hpcb]) fun p _ hp j hj => ?_
      · simpa [UdpSlot.recvQueue,hpcb] using (h.slots i).nodup
      · simpa [UdpSlot.recvQueue,hpcb] using (h.slots i).used j
      · have hport : port = p := by simpa [UdpSlot.hasPort,hpcb] using hp
        exact hport ▸ hfree j hj

end UdpStep

theorem UdpOk.udpClose (h : s.UdpOk) :
    (s.udpClose i).1.UdpOk ∧ ∀ k, k ≠ i → (s.udpClose i).1.udp k = s.udp k := by
  unfold NetStack.udpClose
  split
  · exact ⟨h,fun _ _ => rfl⟩
  · next pcb hpcb =>
    have hu : ((pcb.recvQueue.foldl (fun s j => s.udpDrop i j) s).setUdp i
        fun u => { u with pcb := none }).udp = Function.update s.udp i
          ⟨none,(pcb.recvQueue.foldl UdpSlot.clear (s.udp i)).records⟩ := by
      simp [setUdp,drain_udp]
    refine ⟨h.update hu (.closed fun j => ?_) (by simp [UdpSlot.hasPort]),fun k hk => ?_⟩
    · rw [clear_all_records]
      split
      · rfl
      · next hj =>
        by_contra hne
        exact hj (by simpa [UdpSlot.recvQueue,hpcb] using ((h.slots i).used j).2 hne)
    · rw [hu,Function.update_of_ne hk]

/-- What `udp_in` does with a datagram for the block in slot `i`. -/
theorem udpQueue_cases (b : BufId) (src : IpAddr) (srcPort : Port) :
    (s.udpQueue i b src srcPort).1.udp = s.udp ∨
    ∃ j, (s.udp i).records j = none ∧ (s.udpQueue i b src srcPort).1.udp =
      Function.update s.udp i ((s.udp i).queue j ⟨b,src,srcPort⟩) := by
  unfold udpQueue
  split
  · exact .inl rfl
  · next j hfind =>
    dsimp only
    split
    · exact .inr ⟨j,by simpa using List.find?_some hfind,rfl⟩
    · exact .inl rfl

/-- `udp_in` finds the one block bound to a port, or the first of those that are not bound. -/
theorem UdpOk.find_port (h : s.UdpOk) (p : Port) :
    ((List.finRange udpPcbMax).find? fun i => (s.udp i).hasPort p) = some i ↔
      (s.udp i).hasPort p ∧ (p = 0 → ∀ j < i, ¬(s.udp j).hasPort 0) := by
  rw [← Fin.find?_eq_find?_finRange,Fin.find?_eq_some_iff]
  refine and_congr_right fun hi => ⟨fun hlt hp j hj => ?_,fun hlt j hj => ?_⟩
  · subst hp
    exact Bool.eq_false_iff.1 (hlt j hj)
  · by_cases hp : p = 0
    · simpa [hp] using hlt hp j hj
    · by_contra hjp
      exact Fin.ne_of_lt hj (h.ports j i p hp (by simpa using hjp) hi)

namespace UdpStep

theorem udpIn (h : s.UdpOk) : s.UdpStep (s.udpIn b src dest).1 := by
  have htouch := (touch_udpCheck (s := s) (b := b) src dest).udp
  unfold NetStack.udpIn
  split
  · next heq =>
    rw [heq] at htouch
    exact congr h htouch
  · next t header heq =>
    rw [heq] at htouch
    have ht : s.UdpStep t := congr h htouch
    split
    · exact ht
    · next i hfind =>
      obtain ⟨pcb,hpcb,-⟩ := UdpSlot.hasPort_iff.1 ((ht.ok.find_port _).1 hfind).1
      rcases udpQueue_cases (s := t) (i := i) b src header.srcPort with hu | ⟨j,hj,hu⟩
      · exact ht.trans (congr ht.ok hu)
      · exact ht.trans (update_same ht.ok hu ((ht.ok.slots i).queue (by simp [hpcb]) hj) hpcb
          (UdpSlot.queue_pcb hpcb) rfl)

theorem udpRecvfrom (h : s.UdpOk) (size : ℕ) (wait : Bool) :
    s.UdpStep (s.udpRecvfrom i size wait).1 := by
  unfold NetStack.udpRecvfrom
  split
  · exact congr h rfl
  · exact congr h rfl
  · next port j rest hpcb =>
    have hq : j ∈ (s.udp i).recvQueue := by simp [UdpSlot.recvQueue,hpcb]
    obtain ⟨r,hr⟩ := Option.ne_none_iff_exists'.1 (((h.slots i).used j).1 hq)
    dsimp only
    rw [setUdp_self]
    simp only [hr]
    have hread := (touch_udpRead (b := r.buf)
      (s := s.setUdp i fun u => { u with pcb := some ⟨port,rest⟩ }) size).udp
    refine update_same h ?_ ((h.slots i).take hpcb) hpcb rfl rfl
    rw [udpDrop_udp,hread]
    simp [setUdp,UdpSlot.clear]

end UdpStep

/-! Whole runs. -/

namespace UdpHistory

/-- The blocks are in order, and only open blocks have sent anything. -/
structure Ok (h : UdpHistory) : Prop where
  udp : h.stack.UdpOk
  opened : ∀ i, h.sent i ≠ [] → (h.stack.udp i).pcb ≠ none

theorem start_ok (s : NetStack) : (start s).Ok :=
  ⟨⟨fun _ => .closed fun _ => rfl,fun _ _ _ _ hi => by simp [start,UdpSlot.hasPort] at hi⟩,
    fun _ h => absurd rfl h⟩

variable {h : UdpHistory}

/-- A call that closes no block, and after which each list of sent ports is empty or was not
empty before. -/
theorem Ok.step (hok : h.Ok) {t : NetStack} {sent : Fin udpPcbMax → List Port}
    (ht : h.stack.UdpStep t)
    (hs : ∀ i, sent i ≠ [] → h.sent i ≠ [] ∨ (h.stack.udp i).pcb ≠ none) : Ok ⟨t,sent⟩ := by
  refine ⟨ht.ok,fun i hi => ht.opened i ?_⟩
  rcases hs i hi with hne | hne
  · exact hok.opened i hne
  · exact hne

/-- Only an open block sends. -/
theorem udpSendto_open {s : NetStack} {i : Fin udpPcbMax} {n : NetifId} {dest : IpAddr}
    {destPort : Port} {data : List Byte} (hok : (s.udpSendto n i dest destPort data).2 = .ok) :
    (s.udp i).pcb ≠ none := by
  intro hnone
  unfold udpSendto at hok
  simp [hnone] at hok

theorem Ok.act (hok : h.Ok) (c : UdpCall) : (h.act c).Ok := by
  cases c with
  | udpOpen =>
    refine hok.step (.udpOpen hok.udp) fun i hi => ?_
    cases hr : h.stack.udpOpen.2 with
    | none =>
      rw [hr] at hi
      exact .inl hi
    | some k =>
      rw [hr] at hi
      by_cases hik : i = k
      · simp [hik] at hi
      · exact .inl (by simpa [hik] using hi)
  | udpBind i port => exact hok.step (.udpBind hok.udp port) fun _ => .inl
  | udpClose i =>
    obtain ⟨hudp,hother⟩ := hok.udp.udpClose (i := i)
    refine ⟨hudp,fun k hk => ?_⟩
    by_cases hki : k = i
    · simp [UdpHistory.act,hki] at hk
    · simp only [UdpHistory.act,Function.update_of_ne hki] at hk
      exact hother k hki ▸ hok.opened k hk
  | udpSendto i n dest destPort data =>
    refine hok.step (.congr hok.udp (udpSendto_udp _ _)) fun k hk => ?_
    split at hk
    · next hsent =>
      by_cases hki : k = i
      · subst k
        exact .inr (udpSendto_open hsent)
      · exact .inl (by simpa [hki] using hk)
    · exact .inl hk
  | udpIn b src dest => exact hok.step (.udpIn hok.udp) fun _ => .inl
  | udpRecvfrom i size wait => exact hok.step (.udpRecvfrom hok.udp size wait) fun _ => .inl
  | rest t => exact hok.step (.congr hok.udp rfl) fun _ => .inl

theorem Ok.run (hok : h.Ok) (calls : List UdpCall) : (h.run calls).Ok := by
  induction calls generalizing h with
  | nil => exact hok
  | cons c calls ih => exact ih (hok.act c)

end UdpHistory

/-- From `s` to `t` one datagram was queued, on the block in slot `i`. -/
def QueuedOn (s t : NetStack) (i : Fin udpPcbMax) (r : UdpRecv) : Prop :=
  (∃ j, t.udp i = (s.udp i).queue j r) ∧ ∀ k, k ≠ i → t.udp k = s.udp k

/-- With room in the queue, a record is filled in. -/
theorem udpQueue_room (b : BufId) (src : IpAddr) (hok : s.UdpOk) (hroom : (s.udp i).recvQueue.length < udpRecvMax)
    (hfate : s.link.fate = .ok) (srcPort : Port) :
    QueuedOn s (s.udpQueue i b src srcPort).1 i ⟨b,src,srcPort⟩ := by
  obtain ⟨j,hj⟩ := (hok.slots i).exists_free hroom
  unfold udpQueue
  split
  · next hnone =>
    have := List.find?_eq_none.1 hnone j (List.mem_finRange j)
    simp [hj] at this
  · next k hk =>
    have hsend : (fixqSend (s.udp i).recvQueue udpRecvMax k s.link.fate).2 = .ok := by
      simp [fixqSend,hfate,Nat.ne_of_lt hroom]
    dsimp only
    rw [if_pos hsend]
    exact ⟨⟨k,by simp [setUdp]⟩,fun _ hne => by simp [setUdp,hne]⟩

/-- The slot that a datagram is queued on does not stay the same. -/
theorem QueuedOn.moved {t : NetStack} {r : UdpRecv} (hopen : (s.udp i).pcb ≠ none)
    (h : QueuedOn s t i r) : t.udp i ≠ s.udp i := by
  intro heq
  obtain ⟨j,hj⟩ := h.1
  obtain ⟨pcb,hpcb⟩ := Option.ne_none_iff_exists'.1 hopen
  have hq := congrArg UdpSlot.recvQueue (hj.symm.trans heq)
  simp [UdpSlot.recvQueue,UdpSlot.queue_pcb hpcb,hpcb] at hq

variable {header : UdpHdr}

/-- `udp_in` on a datagram that passes its checks. -/
theorem udpIn_eq (hcheck : (s.udpCheck b src dest).2 = .ok header) :
    s.udpIn b src dest =
      match (List.finRange udpPcbMax).find? fun i => (s.udp i).hasPort header.destPort with
      | none => ((s.udpCheck b src dest).1,.unreach)
      | some i => (s.udpCheck b src dest).1.udpQueue i b src header.srcPort := by
  have hudp := (touch_udpCheck (s := s) (b := b) src dest).udp
  unfold udpIn
  split
  · next heq => simp [heq] at hcheck
  · next t header' heq =>
    rw [heq] at hcheck hudp
    cases hcheck
    simp only at hudp
    simp only [hudp,heq] <;> rfl

/-- In any run, for a block that has sent from port `p`: a valid datagram for `p` is queued on this
block and on no other if and only if the block still has port `p`, and no block in a slot before it
is unbound in case it is not bound itself. -/
theorem udp_reply_queued_iff (s₀ : NetStack) (calls : List UdpCall) (i : Fin udpPcbMax) (p : Port)
    (b : BufId) (src dest : IpAddr) (header : UdpHdr)
    (hsent : p ∈ ((UdpHistory.start s₀).run calls).sent i)
    (hvalid : (((UdpHistory.start s₀).run calls).stack.udpCheck b src dest).2 = .ok header)
    (hport : header.destPort = p)
    (hroom : (((UdpHistory.start s₀).run calls).stack.udp i).recvQueue.length < udpRecvMax)
    (hfate : ((UdpHistory.start s₀).run calls).stack.link.fate = .ok) :
    QueuedOn ((UdpHistory.start s₀).run calls).stack
        (((UdpHistory.start s₀).run calls).stack.udpIn b src dest).1 i ⟨b,src,header.srcPort⟩ ↔
      (((UdpHistory.start s₀).run calls).stack.udp i).hasPort p ∧
        (p = 0 → ∀ j < i, ¬(((UdpHistory.start s₀).run calls).stack.udp j).hasPort 0) := by
  have hok := (UdpHistory.start_ok s₀).run calls
  generalize (UdpHistory.start s₀).run calls = h at *
  have hopen := hok.opened i (List.ne_nil_of_mem hsent)
  have htouch := touch_udpCheck (s := h.stack) (b := b) src dest
  have hok' : (h.stack.udpCheck b src dest).1.UdpOk := (UdpStep.congr hok.udp htouch.udp).ok
  rw [← hok.udp.find_port,udpIn_eq hvalid,hport]
  constructor
  · intro hq
    have hmoved := hq.moved hopen
    split at hmoved
    · exact absurd (congrFun htouch.udp i) hmoved
    · next k hk =>
      by_contra hne
      rcases udpQueue_cases (s := (h.stack.udpCheck b src dest).1) (i := k) b src header.srcPort with
        hu | ⟨j,-,hu⟩
      · exact hmoved (by rw [hu,htouch.udp])
      · have hik : i ≠ k := fun hik => hne (by rw [hk,hik])
        exact hmoved (by rw [hu,Function.update_of_ne hik,htouch.udp])
  · intro hfind
    simp only [hfind]
    have hq := udpQueue_room b src hok' (i := i) (by rwa [htouch.udp])
      (htouch.fate.trans hfate) header.srcPort
    exact ⟨htouch.udp ▸ hq.1,htouch.udp ▸ hq.2⟩

/-- The stack with a datagram from port 53 to `port` in its first packet buffer. -/
def answerFor (port : Port) : NetStack :=
  let s := netStackInit (List.replicate ethHwaSize 0) []
  let w := (s.link.pktbufAlloc udpHeaderSize).1
  s.setLink (w.pktbufWrite 0 ([0,53]++NetBytes.be16 port++[0,8,0,0])).1

/-- A block bound to port 7 asks, and the answer is for it. -/
theorem udp_reply_bound :
    QueuedOn ((UdpHistory.start (answerFor 7)).run
        [.udpOpen,.udpBind 0 7,.udpSendto 0 0 0x7f000001 53 []]).stack
      (((UdpHistory.start (answerFor 7)).run
        [.udpOpen,.udpBind 0 7,.udpSendto 0 0 0x7f000001 53 []]).stack.udpIn 0 0x7f000001 0x7f000001).1
      0 ⟨0,0x7f000001,53⟩ :=
  (udp_reply_queued_iff (answerFor 7) [.udpOpen,.udpBind 0 7,.udpSendto 0 0 0x7f000001 53 []] 0 7 0
    0x7f000001 0x7f000001 ⟨53,7,8,0⟩ (by decide +kernel) (by decide +kernel) rfl (by decide +kernel)
    (by decide +kernel)).2 (by decide +kernel)

/-- Two blocks that are not bound: the second asks, and the answer is queued on the first. -/
theorem udp_reply_misdelivered :
    let h := (UdpHistory.start (answerFor 0)).run
      [.udpOpen,.udpOpen,.udpSendto 1 0 0x7f000001 53 []]
    let r := h.stack.udpIn 0 0x7f000001 0x7f000001
    0 ∈ h.sent 1 ∧ (h.stack.udpCheck 0 0x7f000001 0x7f000001).2 = .ok ⟨53,0,8,0⟩ ∧
      (h.stack.udp 1).recvQueue = [] ∧ r.2 = .ok ∧
      (r.1.udp 0).recvQueue = [0] ∧ (r.1.udp 1).recvQueue = [] := by decide +kernel

end NetStack
end QuardStarNet
