import QuardStarNet.NetBase

/-! TCP segments on the wire: header fields, serialization and the checksum of
`tcp_checksum`. A packet buffer is its byte string; a buffer of at least twenty bytes
is the same thing as a `Segment`. -/
namespace QuardStarNet
namespace Tcp

open NetBytes

def flagFin : Byte := 0x01#8
def flagSyn : Byte := 0x02#8
def flagPsh : Byte := 0x08#8
def flagAck : Byte := 0x10#8

/-- `TCP_HEADER_SIZE` -/
def headerMin : ℕ := 20
/-- `TCP_RECV_MAX` -/
abbrev recvMax : ℕ := 2048
/-- `TCP_MSS` -/
def mss : ℕ := 512
/-- `TCP_RETRY_MAX` -/
def retryMax : ℕ := 5

/-- The twenty bytes of `tcp_hdr_t` and everything after them. -/
structure Segment where
  srcPort : Port
  destPort : Port
  seq : BitVec 32
  ack : BitVec 32
  dataOffset : Byte
  flags : Byte
  window : BitVec 16
  checksum : BitVec 16
  urgent : BitVec 16
  rest : List Byte
  deriving DecidableEq

namespace Segment

variable (s : Segment)

/-- The first sixteen bytes of the header. -/
def front : List Byte :=
  be16 s.srcPort++be16 s.destPort++be32 s.seq++be32 s.ack++[s.dataOffset,s.flags]++be16 s.window

def bytes : List Byte := s.front++be16 s.checksum++be16 s.urgent++s.rest

/-- `pktbuf_total` of the buffer that holds the segment. -/
def total : ℕ := headerMin+s.rest.length

def headerSize : ℕ := (s.dataOffset >>> 4).toNat*4

def payload : List Byte := s.rest.drop (s.headerSize-headerMin)

/-- `payload_size` of `tcp_in`; the header check has made it non-negative. -/
def payloadSize : ℕ := s.total-s.headerSize

def has (f : Byte) : Bool := s.flags &&& f != 0

/-- Read the header off a buffer; `none` when it is shorter than a header. -/
def ofBytes : List Byte → Option Segment
  | a0::a1::b0::b1::c0::c1::c2::c3::d0::d1::d2::d3::o::f::w0::w1::k0::k1::u0::u1::rest =>
    some ⟨of16 a0 a1,of16 b0 b1,of32 c0 c1 c2 c3,of32 d0 d1 d2 d3,o,f,of16 w0 w1,of16 k0 k1,
      of16 u0 u1,rest⟩
  | _ => none

@[simp] theorem ofBytes_bytes : ofBytes s.bytes = some s := by
  simp [ofBytes,bytes,front,be16,be32,of16_be16,of32_be32]

@[simp] theorem front_length : s.front.length = 16 := by simp [front]

@[simp] theorem bytes_length : s.bytes.length = s.total := by
  simp [bytes,total,headerMin]; omega

end Segment

/-- `net_checksum_fold` on a 32-bit sum, whose loop runs at most twice. -/
def netChecksumFold (sum : ℕ) : ℕ := fold 2 sum

/-- The running sum of `checksum16`, folded after every byte. -/
def checksum16 (offset : ℕ) : List Byte → ℕ → ℕ
  | [], sum => sum
  | b::bs, sum =>
    checksum16 (offset+1) bs
      (netChecksumFold (sum+if offset % 2 = 0 then b.toNat <<< 8 else b.toNat))

theorem checksum16_lt {offset : ℕ} {bs : List Byte} {sum : ℕ} (h : sum < 65536) :
    checksum16 offset bs sum < 65536 := by
  induction bs generalizing offset sum with
  | nil => exact h
  | cons b bs ih =>
    apply ih
    have hb := b.isLt
    apply fold_two_lt
    rw [Nat.shiftLeft_eq]
    split <;> omega

theorem checksum16_mod (offset : ℕ) (bs : List Byte) (sum : ℕ) :
    checksum16 offset bs sum % 65535 = (sum+weight offset bs) % 65535 := by
  induction bs generalizing offset sum with
  | nil => rfl
  | cons b bs ih =>
    simp only [checksum16,weight,ih,netChecksumFold,Nat.shiftLeft_eq]
    rw [Nat.add_mod,fold_mod,← Nat.add_mod]
    congr 1
    split <;> omega

theorem checksum16_pos {offset : ℕ} {bs : List Byte} {sum : ℕ} (h : 0 < sum+weight offset bs) :
    0 < checksum16 offset bs sum := by
  induction bs generalizing offset sum with
  | nil => simpa [weight,checksum16] using h
  | cons b bs ih =>
    apply ih
    by_cases hs : 0 < sum+if offset % 2 = 0 then b.toNat <<< 8 else b.toNat
    · have hf := fold_pos 2 hs
      simp only [netChecksumFold]
      omega
    · have hw : (if offset % 2 = 0 then b.toNat*256 else b.toNat) = 0 ∧ sum = 0 := by
        rw [Nat.shiftLeft_eq] at hs
        constructor <;> split at hs <;> simp_all
      simp only [weight,hw.1,hw.2] at h
      omega

/-- The twelve bytes of `tcp_pseudo_t`. -/
def pseudo (src dest : IpAddr) (length : ℕ) : List Byte :=
  be32 src++be32 dest++[0#8,6#8]++be16 (BitVec.ofNat 16 length)

/-- `tcp_checksum`: the complement of the sum over the pseudo header and the first
`length` bytes of the buffer. -/
def tcpChecksum (buf : List Byte) (src dest : IpAddr) (length : ℕ) : BitVec 16 :=
  if buf.length < length then 0
  else ~~~(BitVec.ofNat 16 (checksum16 0 (buf.take length) (checksum16 0 (pseudo src dest length) 0)))

/-- `tcp_header_check` on a buffer of `s.total` bytes. -/
def tcpHeaderCheck (s : Segment) : NetErr :=
  if s.headerSize < headerMin ∨ s.total < s.headerSize then .size
  else if s.dataOffset &&& 0x0f#8 ≠ 0 then .format
  else .ok

theorem weight_pseudo_pos (src dest : IpAddr) (length : ℕ) : 0 < weight 0 (pseudo src dest length) := by
  simp only [pseudo,weight_append,weight]
  simp <;> omega

/-- The folded sum over a whole buffer and its pseudo header is a positive 16-bit number
with the residue of the weights. -/
theorem checksum16_pseudo (buf : List Byte) (src dest : IpAddr) (length : ℕ) :
    let sum := checksum16 0 buf (checksum16 0 (pseudo src dest length) 0)
    sum % 65535 = (weight 0 (pseudo src dest length)+weight 0 buf) % 65535 ∧ 0 < sum ∧
      sum < 65536 := by
  have hpos : 0 < checksum16 0 (pseudo src dest length) 0 :=
    checksum16_pos (by have := weight_pseudo_pos src dest length; omega)
  have hmod := checksum16_mod 0 (pseudo src dest length) 0
  refine ⟨?_,checksum16_pos (by omega),checksum16_lt (checksum16_lt (by omega))⟩
  rw [checksum16_mod,Nat.add_mod,hmod,Nat.zero_add,← Nat.add_mod]

namespace Segment

variable (s : Segment)

/-- Sum of every word of the segment but the checksum. -/
def uncheckedWeight : ℕ := weight 0 s.front+s.urgent.toNat+weight 0 s.rest

theorem weight_bytes : weight 0 s.bytes = s.uncheckedWeight+s.checksum.toNat := by
  have h16 (x : BitVec 16) (k : ℕ) (hk : k % 2 = 0) : weight k (be16 x) = x.toNat := by
    rw [weight_even hk,weight_be16]
  have hr : weight 20 s.rest = weight 0 s.rest := weight_even (by decide) _
  simp only [bytes,weight_append,uncheckedWeight,List.length_append,front_length,be16_length]
  rw [h16 _ _ (by decide),h16 _ _ (by decide),hr]
  omega

/-- Fill in the checksum as `tcp_make_segment` does: zero is sent as all ones. -/
def withChecksum (src dest : IpAddr) : Segment :=
  let checksum := tcpChecksum s.bytes src dest (s.total % 65536)
  { s with checksum := if checksum = 0 then 0xffff#16 else checksum }

@[simp] theorem withChecksum_flags (src dest : IpAddr) : (s.withChecksum src dest).flags = s.flags := rfl

@[simp] theorem withChecksum_seq (src dest : IpAddr) : (s.withChecksum src dest).seq = s.seq := rfl

@[simp] theorem withChecksum_srcPort (src dest : IpAddr) : (s.withChecksum src dest).srcPort = s.srcPort := rfl

@[simp] theorem withChecksum_destPort (src dest : IpAddr) : (s.withChecksum src dest).destPort = s.destPort :=
  rfl

@[simp] theorem withChecksum_ack (src dest : IpAddr) : (s.withChecksum src dest).ack = s.ack := rfl

@[simp] theorem withChecksum_payload (src dest : IpAddr) :
    (s.withChecksum src dest).payload = s.payload := rfl

theorem tcpChecksum_bytes (src dest : IpAddr) (h : s.total < 65536) :
    ∃ sum, tcpChecksum s.bytes src dest (s.total % 65536) = ~~~(BitVec.ofNat 16 sum) ∧
      sum % 65535 = (weight 0 (pseudo src dest s.total)+s.uncheckedWeight+s.checksum.toNat) % 65535 ∧
      0 < sum ∧ sum < 65536 := by
  obtain ⟨hmod,hpos,hlt⟩ := checksum16_pseudo s.bytes src dest s.total
  refine ⟨_,?_,by rw [hmod,weight_bytes,← Nat.add_assoc],hpos,hlt⟩
  have htake : s.bytes.take s.total = s.bytes := by
    rw [← s.bytes_length,List.take_length]
  rw [tcpChecksum,Nat.mod_eq_of_lt h,if_neg (by simp),htake]

/-- A filled-in checksum verifies at a receiver that uses the same addresses. -/
theorem withChecksum_verifies (src dest : IpAddr) (hc : s.checksum = 0) (h : s.total < 65536) :
    tcpChecksum (s.withChecksum src dest).bytes src dest ((s.withChecksum src dest).total % 65536) = 0 := by
  obtain ⟨sum,heq,hmod,hpos,hlt⟩ := s.tcpChecksum_bytes src dest h
  obtain ⟨sum',heq',hmod',hpos',hlt'⟩ := (s.withChecksum src dest).tcpChecksum_bytes src dest h
  have hw : (s.withChecksum src dest).uncheckedWeight = s.uncheckedWeight := rfl
  have ht : (s.withChecksum src dest).total = s.total := rfl
  have hsum : (sum+(s.withChecksum src dest).checksum.toNat) % 65535 = 0 := by
    simp only [withChecksum,heq]
    have hn : (~~~(BitVec.ofNat 16 sum)).toNat = 65535-sum := by
      rw [BitVec.toNat_not,BitVec.toNat_ofNat]
      omega
    split_ifs with hz
    · have := congrArg BitVec.toNat hz
      rw [hn] at this
      simp at this
      simp
      omega
    · rw [hn]
      omega
  rw [hc] at hmod
  rw [hw,ht] at hmod'
  rw [heq']
  have : sum' = 65535 := by
    simp at hmod
    omega
  subst this
  rfl

end Segment

end Tcp
end QuardStarNet
