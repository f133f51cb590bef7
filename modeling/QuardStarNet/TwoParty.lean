import QuardStarNet.TcpRun

/-! Two hosts that both run this TCP and are joined by one connection. The network may
lose, duplicate, delay and reorder segments; it neither alters nor invents one. -/
namespace QuardStarNet
namespace Tcp

/-- The host that opens the connection and the host that listens. -/
inductive Party
  | opener | listener
  deriving DecidableEq

def Party.peer : Party → Party
  | .opener => .listener
  | .listener => .opener

@[simp] theorem Party.peer_peer (e : Party) : e.peer.peer = e := by cases e <;> rfl

@[simp] theorem Party.peer_ne (e : Party) : e.peer ≠ e := by cases e <;> decide

/-- The sections that a host may run once the connection was set up: none that opens
another one. -/
def Action.serves : Action → Bool
  | .tcpOpen _ | .tcpBind .. | .tcpListen .. | .tcpConnectStart .. | .tcpIn .. => false
  | _ => true

/-- A host with the slot of its end of the connection, the bytes its `tcp_send_start`
calls accepted, the bytes its readers got and the bytes that were appended to the ring. -/
structure Host where
  tcp : Table
  conn : Option Slot
  sent : List Byte
  read : List Byte
  got : List Byte

namespace Table

variable (t : Table)

/-- The table before a section, with an empty wire. -/
def ready (fates : List NetErr) : Table := { t with link := ⟨fates,[]⟩ }

@[simp] theorem ready_wire (fates : List NetErr) : (t.ready fates).link.wire = [] := rfl

/-- The bytes that a section adds to the stream of the block in `conn`. -/
def sends (conn : Option Slot) : Action → List Byte
  | .tcpSendStart i data => if conn = some i ∧ (t.tcpSendStart i data).2 = .ok then data else []
  | _ => []

/-- The bytes that a section hands to a reader of the block in `conn`. -/
def reads (conn : Option Slot) : Action → List Byte
  | .tcpRecvTake i size => if conn = some i then (t.recvTake i size).2 else []
  | _ => []

/-- The slots in which a passive open left a new child. -/
def newChildren (t' : Table) : List Slot :=
  slots.filter fun j => !t.pcbs j && t'.pcbs j && (t'.storage j).state == .synReceived

end Table

namespace Host

variable (h : Host)

def call (fates : List NetErr) (a : Action) : Host :=
  let t := h.tcp.ready fates
  let t' := t.act a
  { tcp := t'
    conn := h.conn.filter fun c => t'.pcbs c
    sent := h.sent++t.sends h.conn a
    read := h.read++t.reads h.conn a
    got := h.got }

/-- The table after the packet was delivered. -/
def arrived (fates : List NetErr) (netif : Netif) (src : IpAddr) (pkt : Packet) : Table :=
  ((h.tcp.ready fates).tcpIn netif.id src pkt.dest pkt.seg.bytes).1

def receive (fates : List NetErr) (netif : Netif) (src : IpAddr) (pkt : Packet) : Host :=
  let t := h.arrived fates netif src pkt
  match h.conn with
  | some c => { h with
      tcp := t
      conn := if t.pcbs c then some c else none
      got := h.got++(t.storage c).recv.contents.drop (h.tcp.storage c).recv.count }
  | none => { h with tcp := t, conn := (h.tcp.newChildren t).head? }

end Host

/-- The interfaces and the initial values of the two hosts. -/
structure Setup where
  netif : Party → Netif
  port : Port
  iss : Party → BitVec 32
  ephemeral : Port
  backlog : ℤ

/-- Both hosts and the packets on their way to each. -/
structure Pair where
  host : Party → Host
  inbox : Party → List Packet
  opens : ℕ

/-- A section of a host, or the network delivers, loses or duplicates the `k`th packet on
its way to a host. -/
inductive Event
  | call (e : Party) (fates : List NetErr) (a : Action)
  | deliver (e : Party) (fates : List NetErr) (k : ℕ)
  | lose (e : Party) (k : ℕ)
  | copy (e : Party) (k : ℕ)

namespace Setup

variable (c : Setup)

def boot (e : Party) : Table :=
  { tcpInit with nextIss := c.iss e, nextEphemeral := c.ephemeral }

/-- `tcp_open` and `tcp_connect_start` on the opener. -/
def connect : Table × NetErr :=
  ((c.boot .opener).tcpAlloc true).1.tcpConnectStart 0 (c.netif .opener) (c.netif .listener).ipaddr c.port

/-- `tcp_open`, `tcp_bind` and `tcp_listen` on the listener. -/
def listen : Table :=
  ((((c.boot .listener).tcpAlloc true).1.tcpBind 0 (c.netif .listener) 0 c.port).1.tcpListen 0 c.backlog).1

def start : Pair where
  host
    | .opener => ⟨c.connect.1,some 0,[],[],[]⟩
    | .listener => ⟨c.listen,none,[],[],[]⟩
  inbox
    | .opener => []
    | .listener => c.connect.1.link.wire
  opens := 0

end Setup

namespace Pair

variable (s : Pair)

/-- The host `e` changed to `h` and sent what is on its wire. -/
def sent (e : Party) (h : Host) : Pair :=
  { s with
    host := Function.update s.host e h
    inbox := Function.update s.inbox e.peer (s.inbox e.peer++h.tcp.link.wire) }

def call (e : Party) (fates : List NetErr) (a : Action) : Pair :=
  if a.serves then s.sent e ((s.host e).call fates a) else s

/-- The `k`th packet for `e` is taken from the network. -/
def lose (e : Party) (k : ℕ) : Pair :=
  { s with inbox := Function.update s.inbox e ((s.inbox e).eraseIdx k) }

def deliver (c : Setup) (e : Party) (fates : List NetErr) (k : ℕ) : Pair :=
  match (s.inbox e)[k]? with
  | none => s
  | some pkt =>
    let h := (s.host e).receive fates (c.netif e) (c.netif e.peer).ipaddr pkt
    { (s.lose e k).sent e h with
      opens := s.opens+((s.host e).tcp.newChildren h.tcp).length }

def copy (e : Party) (k : ℕ) : Pair :=
  match (s.inbox e)[k]? with
  | none => s
  | some pkt => { s with inbox := Function.update s.inbox e (s.inbox e++[pkt]) }

def step (c : Setup) : Event → Pair
  | .call e fates a => s.call e fates a
  | .deliver e fates k => s.deliver c e fates k
  | .lose e k => s.lose e k
  | .copy e k => s.copy e k

def run (c : Setup) (events : List Event) : Pair := events.foldl (fun s ev => s.step c ev) s

end Pair
end Tcp
end QuardStarNet
