import QuardStarNet.NetBase
import QuardStarNet.Mailbox

/-! The ARP cache of `arp.c`, over any packet buffers and link layer. Entries keep their index in
`cache_entries`; the lists hold indices. -/
namespace QuardStarNet

/-- A hardware address, or the first six bytes of one. -/
abbrev HwAddr := List Byte

/-- `ETH_HWA_SIZE`. -/
def ethHwaSize : ℕ := 6

/-- `ether_broadcast_addr`. -/
def etherBroadcastAddr : HwAddr := List.replicate ethHwaSize 0xff

def netProtocolArp : BitVec 16 := 0x0806
def netProtocolIpv4 : BitVec 16 := 0x0800

/-- `ipaddr_is_local_broadcast`. -/
def ipaddrIsLocalBroadcast (ip : IpAddr) : Bool := ip == BitVec.allOnes 32

/-- `ipaddr_is_direct_broadcast`. -/
def ipaddrIsDirectBroadcast (ip netmask : IpAddr) : Bool :=
  ip &&& ~~~netmask == BitVec.allOnes 32 &&& ~~~netmask

namespace Arp

/-- `ARP_CACHE_SIZE`. -/
def arpCacheSize : ℕ := 8
/-- `ARP_MAX_PKT_WAIT`. -/
def arpMaxPktWait : ℕ := 8
/-- `ARP_ENTRY_STABLE_TMO`, in seconds. -/
def arpEntryStableTmo : ℤ := 1200
/-- `ARP_ENTRY_PENDING_TMO`, in seconds. -/
def arpEntryPendingTmo : ℤ := 3
/-- `ARP_ENTRY_RETRY_CNT`. -/
def arpEntryRetryCnt : ℤ := 5
/-- `ARP_TIMER_TMO`, in seconds. -/
def arpTimerTmo : ℤ := 1

def arpScanCount (seconds : ℤ) : ℤ := 1+(seconds-1)/arpTimerTmo

/-- `arp_state_t`. -/
inductive State
  | free | resolved | waiting
  deriving DecidableEq

/-- `arp_entry_t`. -/
structure Entry (B : Type) where
  paddr : IpAddr
  haddr : HwAddr
  state : State
  tmo : ℤ
  retry : ℤ
  netif : NetifId
  bufList : List B

/-- An entry filled with zeros. -/
def Entry.zeroed {B : Type} : Entry B := ⟨0,List.replicate ethHwaSize 0,.free,0,0,0,[]⟩

/-- What an entry is looked up by. -/
abbrev Key := NetifId × IpAddr

def Entry.key {B : Type} (e : Entry B) : Key := (e.netif,e.paddr)

/-- `arp_pkt_t`. -/
structure Pkt where
  htype : BitVec 16
  ptype : BitVec 16
  hlen : Byte
  plen : Byte
  opcode : BitVec 16
  sendHaddr : HwAddr
  sendPaddr : IpAddr
  targetHaddr : HwAddr
  targetPaddr : IpAddr

/-- `sizeof(arp_pkt_t)`. -/
def pktSize : ℤ := 28

def arpHwEther : BitVec 16 := 1
def arpRequest : BitVec 16 := 1
def arpReply : BitVec 16 := 2

def half (l : List Byte) (i : ℕ) : BitVec 16 := NetBytes.of16 (l.getD i 0) (l.getD (i+1) 0)

/-- `ipaddr_from_buf` at an offset. -/
def ipaddrAt (l : List Byte) (i : ℕ) : IpAddr :=
  NetBytes.of32 (l.getD i 0) (l.getD (i+1) 0) (l.getD (i+2) 0) (l.getD (i+3) 0)

/-- The packet that a pointer to these bytes shows. -/
def Pkt.ofBytes (l : List Byte) : Pkt where
  htype := half l 0
  ptype := half l 2
  hlen := l.getD 4 0
  plen := l.getD 5 0
  opcode := half l 6
  sendHaddr := (l.drop 8).take ethHwaSize
  sendPaddr := ipaddrAt l 14
  targetHaddr := (l.drop 18).take ethHwaSize
  targetPaddr := ipaddrAt l 24

def Pkt.bytes (p : Pkt) : List Byte :=
  NetBytes.be16 p.htype++NetBytes.be16 p.ptype++[p.hlen,p.plen]++NetBytes.be16 p.opcode++
    p.sendHaddr++NetBytes.be32 p.sendPaddr++p.targetHaddr++NetBytes.be32 p.targetPaddr

/-- `arp_packet_check`. -/
def arpPacketCheck (p : Pkt) (size : ℤ) : NetErr :=
  if size < pktSize then .size
  else if p.htype ≠ arpHwEther ∨ p.hlen.toNat ≠ ethHwaSize ∨ p.plen ≠ 4 ∨
      p.ptype ≠ netProtocolIpv4 then .notSupport
  else if p.opcode ≠ arpRequest ∧ p.opcode ≠ arpReply then .notSupport
  else .ok

/-- The functions below ARP that it calls, over a state `W` and packet buffers `B`. -/
structure Below (W B : Type) where
  hwaddr : W → NetifId → HwAddr
  ipaddr : W → NetifId → IpAddr
  netmask : W → NetifId → IpAddr
  pktbufAlloc : W → ℤ → W × Option B
  pktbufFree : W → B → W
  pktbufIncRef : W → B → W
  pktbufSetCont : W → B → ℤ → W × NetErr
  pktbufTotal : W → B → ℤ
  /-- The bytes that `pktbuf_data` points to. -/
  pktbufData : W → B → Option (List Byte)
  /-- Store bytes through the pointer of `pktbuf_data`. -/
  pktbufStore : W → B → List Byte → W
  etherRawOut : W → NetifId → BitVec 16 → HwAddr → B → W × NetErr

/-- What happened to the packets given for unicast addresses, and to the addresses. -/
abbrev Note (B : Type) := Mailbox.Note Key HwAddr B

end Arp

/-- The cache, the state below it, and the history of the packets. -/
structure Arp (W B : Type) where
  entries : ℕ → Arp.Entry B
  cacheList : List ℕ
  cacheBlocks : List ℕ
  world : W
  trace : List (Arp.Note B)

namespace Arp

variable {W B : Type}

/-- `arp_init`. -/
def arpInit (w : W) : Arp W B where
  entries _ := .zeroed
  cacheList := []
  cacheBlocks := List.range arpCacheSize
  world := w
  trace := []

def setEntry (a : Arp W B) (i : ℕ) (e : Entry B) : Arp W B :=
  { a with entries := Function.update a.entries i e }

def note (a : Arp W B) (n : Note B) : Arp W B := { a with trace := a.trace++[n] }

variable (L : Below W B) (a : Arp W B)

/-- `pktbuf_free` of a packet that was given. -/
def discard (k : Key) (a : Arp W B) (b : B) : Arp W B :=
  { a.note (.freed k b) with world := L.pktbufFree a.world b }

/-- `ether_raw_out` of a packet that was given. -/
def pass (k : Key) (haddr : HwAddr) (b : B) : Arp W B × NetErr :=
  let r := L.etherRawOut a.world k.1 netProtocolIpv4 haddr b
  ({ a.note (.passed k haddr b) with world := r.1 },r.2)

/-- `arp_free_waiting`; the list is empty when it is done. -/
def arpFreeWaiting (i : ℕ) : Arp W B :=
  let e := a.entries i
  e.bufList.foldl (discard L e.key) (a.setEntry i { e with bufList := [] })

/-- `arp_find_entry`: an entry that is found comes to the front. -/
def arpFindEntry (n : NetifId) (ip : IpAddr) : Arp W B × Option ℕ :=
  match a.cacheList.find? fun i => (a.entries i).key = (n,ip) with
  | none => (a,none)
  | some i => ({ a with cacheList := i :: a.cacheList.erase i },some i)

/-- `arp_alloc_entry`: with `force` the entry at the end of the list is evicted. -/
def arpAllocEntry (force : Bool) : Arp W B × Option ℕ :=
  match a.cacheBlocks with
  | i :: rest => ({ a with cacheBlocks := rest }.setEntry i .zeroed,some i)
  | [] =>
    match if force then a.cacheList.getLast? else none with
    | none => (a,none)
    | some i =>
      let a := { a.note (.forgotten (a.entries i).key) with cacheList := a.cacheList.dropLast }
      ((a.arpFreeWaiting L i).setEntry i .zeroed,some i)

/-- `arp_free_entry`. -/
def arpFreeEntry (i : ℕ) : Arp W B :=
  let a := a.arpFreeWaiting L i
  let e := a.entries i
  let a := if e.state = .free then a
    else { a.note (.forgotten e.key) with cacheList := a.cacheList.erase i }
  { a.setEntry i { e with state := .free } with cacheBlocks := a.cacheBlocks++[i] }

/-- `arp_set_entry`. -/
def arpSetEntry (i : ℕ) (n : NetifId) (ip : IpAddr) (mac : HwAddr) (state : State) : Arp W B :=
  a.setEntry i
    { a.entries i with
      netif := n
      paddr := ip
      haddr := mac
      state := state
      tmo := arpScanCount (if state = .resolved then arpEntryStableTmo else arpEntryPendingTmo)
      retry := arpEntryRetryCnt }

/-- The loop of `arp_send_waiting`. -/
def sendLoop (k : Key) (haddr : HwAddr) : Arp W B → List B → Arp W B × NetErr
  | a, [] => (a,.ok)
  | a, b :: l =>
    let r := a.pass L k haddr b
    if r.2 ≠ .ok then (l.foldl (discard L k) r.1,r.2) else sendLoop k haddr r.1 l

/-- `arp_send_waiting`. -/
def arpSendWaiting (i : ℕ) : Arp W B × NetErr :=
  let e := a.entries i
  sendLoop L e.key e.haddr (a.setEntry i { e with bufList := [] }) e.bufList

/-- `arp_cache_insert`. -/
def arpCacheInsert (n : NetifId) (ip : IpAddr) (mac : HwAddr) (force : Bool) : Arp W B × NetErr :=
  match a.arpFindEntry n ip with
  | (a,some i) =>
    ((a.arpSetEntry i n ip mac .resolved).note (.learned (n,ip) mac)).arpSendWaiting L i
  | (a,none) =>
    match a.arpAllocEntry L force with
    | (a,none) => (a,.mem)
    | (a,some i) =>
      let a := (a.arpSetEntry i n ip mac .resolved).note (.learned (n,ip) mac)
      { a with cacheList := i :: a.cacheList }.arpSendWaiting L i

/-- The request that `arp_make_request` broadcasts. -/
def request (w : W) (n : NetifId) (ip : IpAddr) : Pkt where
  htype := arpHwEther
  ptype := netProtocolIpv4
  hlen := 6
  plen := 4
  opcode := arpRequest
  sendHaddr := L.hwaddr w n
  sendPaddr := L.ipaddr w n
  targetHaddr := List.replicate ethHwaSize 0
  targetPaddr := ip

/-- `arp_make_request`. -/
def arpMakeRequest (n : NetifId) (ip : IpAddr) : Arp W B × NetErr :=
  match L.pktbufAlloc a.world pktSize with
  | (w,none) => ({ a with world := w },.mem)
  | (w,some b) =>
    match L.pktbufData w b with
    | none => ({ a with world := L.pktbufFree w b },.mem)
    | some _ =>
      let w := L.pktbufStore w b (request L w n ip).bytes
      let r := L.etherRawOut w n netProtocolArp etherBroadcastAddr b
      ({ a with world := r.1 },r.2)

/-- `arp_make_gratuitous`. -/
def arpMakeGratuitous (n : NetifId) : Arp W B × NetErr :=
  a.arpMakeRequest L n (L.ipaddr a.world n)

/-- One entry in the loop of `arp_cache_tmo`. -/
def tmoEntry (i : ℕ) : Arp W B :=
  let e := { a.entries i with tmo := (a.entries i).tmo-1 }
  if 0 < e.tmo then a.setEntry i e
  else
    match e.state with
    | .resolved =>
      let e := { e with
        state := .waiting, tmo := arpScanCount arpEntryPendingTmo, retry := arpEntryRetryCnt }
      (((a.setEntry i e).note (.forgotten e.key)).arpMakeRequest L e.netif e.paddr).1
    | .waiting =>
      let e := { e with retry := e.retry-1 }
      if e.retry ≤ 0 then (a.setEntry i e).arpFreeEntry L i
      else
        let e := { e with tmo := arpScanCount arpEntryPendingTmo }
        ((a.setEntry i e).arpMakeRequest L e.netif e.paddr).1
    | .free => a.setEntry i e

/-- `arp_cache_tmo`; the next node is read before an entry is freed. -/
def arpCacheTmo : Arp W B := a.cacheList.foldl (tmoEntry L) a

/-- `arp_make_reply`; it keeps the buffer of the caller when it fails. -/
def arpMakeReply (n : NetifId) (buf : B) : Arp W B × NetErr :=
  match L.pktbufSetCont a.world buf pktSize with
  | (w,.ok) =>
    match L.pktbufData w buf with
    | none => ({ a with world := w },.size)
    | some data =>
      let p := Pkt.ofBytes data
      let reply := { p with
        opcode := arpReply, targetHaddr := p.sendHaddr, targetPaddr := p.sendPaddr
        sendHaddr := L.hwaddr w n, sendPaddr := L.ipaddr w n }
      let w := L.pktbufIncRef (L.pktbufStore w buf reply.bytes) buf
      let r := L.etherRawOut w n netProtocolArp p.sendHaddr buf
      ({ a with world := if r.2 = .ok then L.pktbufFree r.1 buf else r.1 },r.2)
  | (w,_) => ({ a with world := w },.size)

/-- `arp_in` past `arp_cache_insert`. -/
def arpAnswer (n : NetifId) (opcode : BitVec 16) (buf : B) : Arp W B × NetErr :=
  let target := ipaddrAt ((L.pktbufData a.world buf).getD []) 24
  if opcode = arpRequest ∧ target = L.ipaddr a.world n then a.arpMakeReply L n buf
  else ({ a with world := L.pktbufFree a.world buf },.ok)

/-- `arp_in`. -/
def arpIn (n : NetifId) (buf : B) : Arp W B × NetErr :=
  match L.pktbufSetCont a.world buf pktSize with
  | (w,.ok) =>
    let a := { a with world := w }
    match L.pktbufData w buf with
    | none => (a,.size)
    | some data =>
      let p := Pkt.ofBytes data
      let err := arpPacketCheck p (L.pktbufTotal w buf)
      if err ≠ .ok then (a,err)
      else
        match a.arpCacheInsert L n p.sendPaddr p.sendHaddr (p.opcode = arpRequest) with
        | (a,.ok) => a.arpAnswer L n p.opcode buf
        | (a,err) => (a,err)
  | (w,_) => ({ a with world := w },.size)

/-- What `arp_find` points to. -/
inductive Found
  | broadcast
  | haddr (mac : HwAddr)
  deriving DecidableEq

/-- The address is sent to every host of the network. -/
def isBroadcast (n : NetifId) (ip : IpAddr) : Bool :=
  ipaddrIsLocalBroadcast ip || ipaddrIsDirectBroadcast ip (L.netmask a.world n)

/-- `arp_find`. -/
def arpFind (n : NetifId) (ip : IpAddr) : Arp W B × Option Found :=
  if a.isBroadcast L n ip then (a,some .broadcast)
  else
    match a.arpFindEntry n ip with
    | (a,some i) =>
      (a,if (a.entries i).state = .resolved then some (.haddr (a.entries i).haddr) else none)
    | (a,none) => (a,none)

/-- `arp_resolve` for an address that is not in the cache. -/
def resolveNew (n : NetifId) (ip : IpAddr) (buf : B) : Arp W B × NetErr :=
  match a.arpAllocEntry L true with
  | (a,none) => ((a.note (.given (n,ip) buf)).discard L (n,ip) buf,.mem)
  | (a,some i) =>
    let a := a.arpSetEntry i n ip (List.replicate ethHwaSize 0) .waiting
    let a := { a.note (.given (n,ip) buf) with cacheList := i :: a.cacheList }
    let e := a.entries i
    match (a.setEntry i { e with bufList := e.bufList++[buf] }).arpMakeRequest L n ip with
    | (a,.ok) => (a,.ok)
    | (a,err) => (a.arpFreeEntry L i,err)

/-- `arp_resolve` for an address that one host has. -/
def resolveUnicast (n : NetifId) (ip : IpAddr) (buf : B) : Arp W B × NetErr :=
  match a.arpFindEntry n ip with
  | (a,some i) =>
    let a := a.note (.given (n,ip) buf)
    let e := a.entries i
    if e.state = .resolved then a.pass L (n,ip) e.haddr buf
    else if arpMaxPktWait ≤ e.bufList.length then (a.discard L (n,ip) buf,.full)
    else (a.setEntry i { e with bufList := e.bufList++[buf] },.ok)
  | (a,none) => a.resolveNew L n ip buf

/-- `arp_resolve`. -/
def arpResolve (n : NetifId) (ip : IpAddr) (buf : B) : Arp W B × NetErr :=
  match a.arpFind L n ip with
  | (a,some .broadcast) =>
    let r := L.etherRawOut a.world n netProtocolIpv4 etherBroadcastAddr buf
    ({ a with world := r.1 },r.2)
  | (a,_) => a.resolveUnicast L n ip buf

/-- One node in the loop of `arp_clear`. -/
def clearEntry (n : NetifId) (i : ℕ) : Arp W B :=
  if (a.entries i).netif = n then a.arpFreeEntry L i else a

/-- `arp_clear`. -/
def arpClear (n : NetifId) : Arp W B := a.cacheList.foldl (fun a i => clearEntry L a n i) a

end Arp
end QuardStarNet
