import QuardStarNet.NetBase

/-! Parsing of DNS responses. Every access to a buffer is checked: a read or a write outside it, a
read of a variable that was never set and a loop that does not end are faults of the model. -/

namespace QuardStarNet
namespace Dns

inductive Fault
  | read | write | unset | fuel
  deriving DecidableEq

def readByte (packet : List Byte) (i : ℕ) : Except Fault Byte :=
  match packet[i]? with
  | some b => .ok b
  | none => .error .read

def readU16 (packet : List Byte) (i : ℕ) : Except Fault (BitVec 16) := do
  let high ← readByte packet i
  let low ← readByte packet (i+1)
  return (high.setWidth 16 <<< 8) ||| low.setWidth 16

/-- The source of a `memcpy`. -/
def readBytes (packet : List Byte) (i n : ℕ) : Except Fault (List Byte) :=
  if i+n ≤ packet.length then .ok ((packet.drop i).take n) else .error .read

/-- Bytes written behind those already in a buffer of `size` bytes. -/
def appendBytes (size : ℕ) (buf bytes : List Byte) : Except Fault (List Byte) :=
  if buf.length+bytes.length ≤ size then .ok (buf ++ bytes) else .error .write

/-- The string in a buffer of which `buf` has been written. -/
def readString (buf : List Byte) : Except Fault (List Byte) :=
  if (0 : Byte) ∈ buf then .ok (buf.takeWhile fun b => b ≠ 0) else .error .read

/-- The variables of `parse_name`; `output` holds the bytes written to `name`, `next` is the
caller's variable. -/
structure NameScan where
  cursor : ℕ
  output : List Byte
  jumped : Bool
  jumps : ℕ
  next : Option ℕ

/-- A round of the loop of `parse_name` returns or goes on. -/
inductive Round
  | done (code : NetErr) (st : NameScan)
  | again (st : NameScan)

namespace NameScan

/-- The end of a name. -/
def finish (st : NameScan) : NameScan :=
  { st with next := if st.jumped then st.next else some st.cursor }

/-- A compression pointer is followed; the cursor stands behind it. -/
def jump (st : NameScan) (target : ℕ) : NameScan :=
  { st with
    cursor := target
    jumped := true
    next := if st.jumped then st.next else some st.cursor }

end NameScan

/-- The dot before every label but the first. -/
def appendDot (size : ℕ) (output : List Byte) : Except Fault (List Byte) :=
  if output ≠ [] then appendBytes size output [0x2e] else .ok output

/-- A label of `n` bytes at the cursor is copied to the name, if there is one, behind a dot. -/
def copyLabel (packet : List Byte) (nameSize : Option ℕ) (st : NameScan) (n : ℕ) :
    Except Fault Round :=
  match nameSize with
  | none => .ok (.again { st with cursor := st.cursor+n })
  | some size =>
    if st.output ≠ [] ∧ size ≤ st.output.length+1 then .ok (.done .size st)
    else do
      let output ← appendDot size st.output
      if size ≤ output.length+n then .ok (.done .size { st with output := output })
      else do
        let label ← readBytes packet st.cursor n
        let output ← appendBytes size output label
        .ok (.again { st with cursor := st.cursor+n, output := output })

def parseLabel (packet : List Byte) (nameSize : Option ℕ) (st : NameScan) : Except Fault Round :=
  if packet.length ≤ st.cursor then .ok (.done .size st)
  else do
    let label ← readByte packet st.cursor
    let st := { st with cursor := st.cursor+1 }
    if label = 0 then
      match nameSize with
      | none => .ok (.done .ok st.finish)
      | some size =>
        if size ≤ st.output.length then .ok (.done .size st)
        else do
          let output ← appendBytes size st.output [0]
          .ok (.done .ok { st with output := output }.finish)
    else if label &&& 0xc0 = 0xc0 then
      if packet.length ≤ st.cursor ∨ packet.length < st.jumps+1 then .ok (.done .format st)
      else do
        let low ← readByte packet st.cursor
        let target := (label &&& 0x3f).toNat*256+low.toNat
        let st := { st with cursor := st.cursor+1, jumps := st.jumps+1 }
        if packet.length ≤ target then .ok (.done .format st)
        else .ok (.again (st.jump target))
    else if label &&& 0xc0 ≠ 0 ∨ 63 < label ∨ packet.length < st.cursor+label.toNat then
      .ok (.done .format st)
    else copyLabel packet nameSize st label.toNat

def parseRounds (packet : List Byte) (nameSize : Option ℕ) :
    ℕ → NameScan → Except Fault (NetErr × NameScan)
  | 0,_ => .error .fuel
  | n+1,st => do
    match ← parseLabel packet nameSize st with
    | .done code st => .ok (code,st)
    | .again st => parseRounds packet nameSize n st

/-- `parse_name`; `nameSize` is `none` for a null `name`. At most `length` jumps are made and at
most `length` bytes are read between two of them, which bounds the rounds. -/
def parseName (packet : List Byte) (offset : ℕ) (nameSize : Option ℕ) :
    Except Fault (NetErr × NameScan) :=
  let st : NameScan := ⟨offset,[],false,0,none⟩
  if packet.length ≤ offset then .ok (.size,st)
  else parseRounds packet nameSize ((packet.length+1)*(packet.length+1)) st

def ipaddrFromBuf (buf : List Byte) : IpAddr :=
  buf.foldl (fun acc b => (acc <<< 8) ||| b.setWidth 32) 0

def dnsHeaderSize : ℕ := 12
def dnsFlagResponse : BitVec 16 := 0x8000
def dnsFlagTruncated : BitVec 16 := 0x0200
def dnsTypeA : BitVec 16 := 1
def dnsClassIn : BitVec 16 := 1

/-- The loop over the answers, from the cursor on. -/
def parseAnswers (packet : List Byte) (address : IpAddr) :
    ℕ → ℕ → Except Fault (NetErr × IpAddr)
  | 0,_ => .ok (.notSupport,address)
  | n+1,cursor => do
    let (code,st) ← parseName packet cursor none
    if code ≠ .ok then .ok (code,address)
    else
      match st.next with
      | none => .error .unset
      | some cursor =>
        if packet.length < cursor+10 then .ok (.size,address)
        else do
          let type ← readU16 packet cursor
          let cls ← readU16 packet (cursor+2)
          let dataLength ← readU16 packet (cursor+8)
          if packet.length < cursor+10+dataLength.toNat then .ok (.size,address)
          else if type = dnsTypeA ∧ cls = dnsClassIn ∧ dataLength = 4 then do
            let buf ← readBytes packet (cursor+10) 4
            .ok (.ok,ipaddrFromBuf buf)
          else parseAnswers packet address n (cursor+10+dataLength.toNat)

/-- The question and the answers of a response whose header is in order. -/
def parseSections (packet : List Byte) (name : List Byte) (address : IpAddr) :
    Except Fault (NetErr × IpAddr) := do
  let (code,st) ← parseName packet dnsHeaderSize (some 256)
  if code ≠ .ok then .ok (code,address)
  else do
    let question ← readString st.output
    if question.length ≠ name.length ∨ question.take name.length ≠ name then .ok (.param,address)
    else
      match st.next with
      | none => .error .unset
      | some cursor =>
        if packet.length < cursor+4 then .ok (.notSupport,address)
        else do
          let type ← readU16 packet cursor
          if type ≠ dnsTypeA then .ok (.notSupport,address)
          else do
            let cls ← readU16 packet (cursor+2)
            if cls ≠ dnsClassIn then .ok (.notSupport,address)
            else do
              let answers ← readU16 packet 6
              parseAnswers packet address answers.toNat (cursor+4)

/-- `address` is the caller's variable before the call, the second result its value after it. -/
def dnsResponseParse (packet : List Byte) (id : BitVec 16) (name : List Byte) (address : IpAddr) :
    Except Fault (NetErr × IpAddr) :=
  if packet.length < dnsHeaderSize then .ok (.size,address)
  else do
    let responseId ← readU16 packet 0
    if responseId ≠ id then .ok (.param,address)
    else do
      let flags ← readU16 packet 2
      if flags &&& dnsFlagResponse = 0 then .ok (.format,address)
      else if flags &&& dnsFlagTruncated ≠ 0 then .ok (.size,address)
      else if flags &&& 0x000f ≠ 0 then .ok (.unreach,address)
      else do
        let questions ← readU16 packet 4
        if questions ≠ 1 then .ok (.format,address)
        else do
          let answers ← readU16 packet 6
          if answers = 0 then .ok (.format,address)
          else parseSections packet name address

/-! ### One round -/

variable {packet : List Byte} {nameSize : Option ℕ} {st : NameScan}

theorem readByte_of_lt {i : ℕ} (h : i < packet.length) : readByte packet i = .ok packet[i] := by
  simp [readByte,h]

theorem readU16_of_le {i : ℕ} (h : i+2 ≤ packet.length) : ∃ w,readU16 packet i = .ok w := by
  refine ⟨(packet[i].setWidth 16 <<< 8) ||| packet[i+1].setWidth 16,?_⟩
  simp [readU16,readByte_of_lt (show i < packet.length by omega),
    readByte_of_lt (show i+1 < packet.length by omega),bind,Except.bind,pure,Except.pure]

theorem readBytes_of_le {i n : ℕ} (h : i+n ≤ packet.length) :
    readBytes packet i n = .ok ((packet.drop i).take n) := if_pos h

theorem appendBytes_of_le {size : ℕ} {buf bytes : List Byte} (h : buf.length+bytes.length ≤ size) :
    appendBytes size buf bytes = .ok (buf ++ bytes) := if_pos h

/-- What stands at a position of a name. -/
inductive Item
  | root
  | label (l : List Byte)
  | pointer (target : ℕ)
  | bad
  deriving DecidableEq

/-- The item at the start of the rest of a packet of `length` bytes. -/
def itemOf (length : ℕ) : List Byte → Item
  | [] => .bad
  | len :: rest =>
    if len = 0 then .root
    else if len &&& 0xc0 = 0xc0 then
      match rest with
      | [] => .bad
      | low :: _ =>
        if length ≤ (len &&& 0x3f).toNat*256+low.toNat then .bad
        else .pointer ((len &&& 0x3f).toNat*256+low.toNat)
    else if len &&& 0xc0 ≠ 0 ∨ rest.length < len.toNat then .bad
    else .label (rest.take len.toNat)

def itemAt (packet : List Byte) (pos : ℕ) : Item := itemOf packet.length (packet.drop pos)

theorem itemAt_label {pos : ℕ} {l : List Byte} (h : itemAt packet pos = .label l) :
    l ≠ [] ∧ pos+1+l.length ≤ packet.length := by
  rw [itemAt,itemOf.eq_def] at h
  split at h
  · cases h
  rename_i len rest hdrop
  have hlen := congrArg List.length hdrop
  rw [List.length_drop,List.length_cons] at hlen
  split at h
  · cases h
  split at h
  · split at h
    · cases h
    · split at h <;> cases h
  split at h
  · cases h
  rename_i h0 _ hfit
  cases h
  have hpos : len.toNat ≠ 0 := fun hc => h0 (BitVec.eq_of_toNat_eq hc)
  rw [← List.length_pos_iff,List.length_take]
  omega

theorem itemAt_pointer {pos target : ℕ} (h : itemAt packet pos = .pointer target) :
    target < packet.length := by
  rw [itemAt,itemOf.eq_def] at h
  split at h
  · cases h
  split at h
  · cases h
  split at h
  · split at h
    · cases h
    · split at h
      · cases h
      · cases h
        omega
  · split at h <;> cases h

/-- The text before a label behind the text `output`. -/
def dotBefore (output : List Byte) : List Byte := if output = [] then [] else output ++ [0x2e]

/-- The text that `parse_name` writes for labels behind the text `output`. -/
def dotted (output : List Byte) (labels : List (List Byte)) : List Byte :=
  labels.foldl (fun output label => dotBefore output ++ label) output

/-- The buffer of `parse_name` behind labels, and the bytes `last`. -/
def written (nameSize : Option ℕ) (output : List Byte) (labels : List (List Byte)) (last : List Byte) :
    List Byte :=
  match nameSize with
  | none => output
  | some _ => dotted output labels ++ last

/-- The text of the labels and its terminator fit the caller's buffer. -/
def Fits (nameSize : Option ℕ) (output : List Byte) (labels : List (List Byte)) : Prop :=
  ∀ size ∈ nameSize,(dotted output labels).length < size

/-- The state of a scan behind a label. -/
def NameScan.pass (nameSize : Option ℕ) (st : NameScan) (label : List Byte) : NameScan :=
  { st with
    cursor := st.cursor+label.length
    output := written nameSize st.output [label] [] }

/-- Why a round ends with an error. -/
def Refuses (packet : List Byte) (nameSize : Option ℕ) (st : NameScan) : Item → Prop
  | .root => ¬Fits nameSize st.output []
  | .label l => ¬Fits nameSize st.output [l]
  | .pointer _ => ¬st.jumps < packet.length
  | .bad => True

/-- What a round that goes on, or ends the name, has read. -/
inductive Reads (packet : List Byte) (nameSize : Option ℕ) (st : NameScan) : Round → Prop
  | root (h : itemAt packet st.cursor = .root) (hfit : Fits nameSize st.output []) :
    Reads packet nameSize st (.done .ok (NameScan.finish
      { st with cursor := st.cursor+1, output := written nameSize st.output [] [0] }))
  | label {l : List Byte} (h : itemAt packet st.cursor = .label l) (hfit : Fits nameSize st.output [l]) :
    Reads packet nameSize st (.again (NameScan.pass nameSize { st with cursor := st.cursor+1 } l))
  | pointer {target : ℕ} (h : itemAt packet st.cursor = .pointer target)
      (hj : st.jumps < packet.length) :
    Reads packet nameSize st (.again (NameScan.jump
      { st with cursor := st.cursor+2, jumps := st.jumps+1 } target))
  | refused {code : NetErr} {st' : NameScan} {item : Item} (hcode : code ≠ .ok)
      (h : itemAt packet st.cursor = item) (hno : Refuses packet nameSize st item) :
    Reads packet nameSize st (.done code st')

/-- A label is copied whole, or the name is refused for want of room. -/
theorem copyLabel_cases {n : ℕ} (hn : st.cursor+n ≤ packet.length) {l : List Byte}
    (hl : (packet.drop st.cursor).take n = l) :
    (Fits nameSize st.output [l] ∧
      copyLabel packet nameSize st n = .ok (.again (st.pass nameSize l))) ∨
    (¬Fits nameSize st.output [l] ∧ ∃ st',copyLabel packet nameSize st n = .ok (.done .size st')) := by
  have hlen : l.length = n := by
    rw [← hl,List.length_take,List.length_drop]
    omega
  cases nameSize with
  | none => exact .inl ⟨by simp [Fits],by rw [NameScan.pass,hlen]; rfl⟩
  | some size =>
    have hfits : Fits (some size) st.output [l] ↔ (dotBefore st.output).length+n < size := by
      simp [Fits,dotted,hlen]
    rw [hfits,copyLabel]
    by_cases hdot : st.output ≠ [] ∧ size ≤ st.output.length+1
    · refine .inr ⟨?_,st,if_pos hdot⟩
      rw [dotBefore,if_neg hdot.1,List.length_append,List.length_singleton]
      omega
    have happ : appendDot size st.output = .ok (dotBefore st.output) := by
      rw [appendDot,dotBefore]
      by_cases he : st.output = []
      · rw [if_neg (not_not.2 he),if_pos he,he]
      · have hroom : ¬size ≤ st.output.length+1 := fun hc => hdot ⟨he,hc⟩
        rw [if_pos he,if_neg he]
        exact appendBytes_of_le (by rw [List.length_singleton]; omega)
    rw [if_neg hdot,happ]
    simp only [bind,Except.bind]
    by_cases hfull : size ≤ (dotBefore st.output).length+n
    · exact .inr ⟨by omega,_,if_pos hfull⟩
    · rw [if_neg hfull,readBytes_of_le hn,hl]
      dsimp only
      rw [appendBytes_of_le (by omega)]
      exact .inl ⟨by omega,by simp [NameScan.pass,written,dotted,hlen]⟩

theorem le_of_not_pointer : ∀ b : Byte,b &&& 0xc0 = 0 → ¬63 < b := by decide

/-- A round of `parse_name` does what stands at its cursor says, inside its buffers. -/
theorem parseLabel_reads (packet : List Byte) (nameSize : Option ℕ) (st : NameScan) :
    ∃ r,parseLabel packet nameSize st = .ok r ∧ Reads packet nameSize st r := by
  rw [parseLabel]
  by_cases hend : packet.length ≤ st.cursor
  · have hitem : itemAt packet st.cursor = .bad := by
      rw [itemAt,List.drop_eq_nil_of_le hend,itemOf]
    exact ⟨_,if_pos hend,.refused (by simp) hitem trivial⟩
  have hitem : itemAt packet st.cursor =
      itemOf packet.length (packet[st.cursor] :: packet.drop (st.cursor+1)) := by
    rw [itemAt,List.drop_eq_getElem_cons (Nat.not_le.1 hend)]
  have hrest : (packet.drop (st.cursor+1)).length = packet.length-(st.cursor+1) := List.length_drop
  rw [if_neg hend,readByte_of_lt (Nat.not_le.1 hend)]
  generalize packet[st.cursor] = len at hitem ⊢
  rw [itemOf.eq_def] at hitem
  simp only [bind,Except.bind]
  by_cases h0 : len = 0
  · simp only [if_pos h0] at hitem ⊢
    by_cases hfit : Fits nameSize st.output []
    · have hread := Reads.root hitem hfit
      cases nameSize with
      | none => exact ⟨_,rfl,hread⟩
      | some size =>
        have hroom : st.output.length < size := hfit size rfl
        dsimp only
        rw [if_neg (Nat.not_le.2 hroom),appendBytes_of_le (by rw [List.length_singleton]; omega)]
        exact ⟨_,rfl,hread⟩
    · obtain ⟨size,rfl,hfull⟩ : ∃ size,nameSize = some size ∧ size ≤ st.output.length := by
        simpa [Fits,dotted] using hfit
      exact ⟨_,if_pos hfull,.refused (by simp) hitem hfit⟩
  by_cases hptr : len &&& 0xc0 = 0xc0
  · simp only [if_neg h0,if_pos hptr] at hitem ⊢
    by_cases hcut : packet.length ≤ st.cursor+1 ∨ packet.length < st.jumps+1
    · refine ⟨_,if_pos hcut,.refused (by simp) hitem ?_⟩
      rcases hcut with hcut | hcut
      · rw [List.drop_eq_nil_of_le hcut]
        trivial
      · split
        · trivial
        · split
          · trivial
          · exact Nat.not_lt.2 (Nat.le_of_lt_succ hcut)
    · obtain ⟨hcut,hjumps⟩ := not_or.1 hcut
      rw [List.drop_eq_getElem_cons (Nat.not_le.1 hcut)] at hitem
      rw [if_neg (by omega),readByte_of_lt (Nat.not_le.1 hcut)]
      dsimp only at hitem ⊢
      by_cases ht : packet.length ≤ (len &&& 0x3f).toNat*256+packet[st.cursor+1].toNat
      · rw [if_pos ht] at hitem
        exact ⟨_,if_pos ht,.refused (by simp) hitem trivial⟩
      · rw [if_neg ht] at hitem
        exact ⟨_,if_neg ht,.pointer hitem (by omega)⟩
  · simp only [if_neg h0,if_neg hptr] at hitem ⊢
    by_cases hbad : len &&& 0xc0 ≠ 0 ∨ 63 < len ∨ packet.length < st.cursor+1+len.toNat
    · have hbad' : len &&& 0xc0 ≠ 0 ∨ (packet.drop (st.cursor+1)).length < len.toNat := by
        rcases hbad with hb | hb | hb
        · exact .inl hb
        · exact .inl fun hc => le_of_not_pointer len hc hb
        · exact .inr (by omega)
      rw [if_pos hbad'] at hitem
      exact ⟨_,if_pos hbad,.refused (by simp) hitem trivial⟩
    · have hfit : st.cursor+1+len.toNat ≤ packet.length := by
        by_contra hcon
        exact hbad (.inr (.inr (Nat.not_le.1 hcon)))
      rw [if_neg fun hc => hbad (hc.imp_right fun hc => .inr (by omega))] at hitem
      have hcopy := @copyLabel_cases packet nameSize { st with cursor := st.cursor+1 } _ hfit _ rfl
      rw [if_neg hbad]
      rcases hcopy with ⟨hfit,he⟩ | ⟨hfit,st',he⟩
      · exact ⟨_,he,.label hitem hfit⟩
      · exact ⟨_,he,.refused (by simp) hitem hfit⟩

/-! ### Safety -/

/-- Between two rounds the cursor has not left the packet, the jump budget is not overdrawn and a
jump has set `next`. -/
structure Scanning (packet : List Byte) (st : NameScan) : Prop where
  cursor : st.cursor ≤ packet.length
  jumps : st.jumps ≤ packet.length
  next : st.jumped = true → st.next.isSome = true

/-- Jumps left, then bytes left before the next one. -/
def roundsLeft (packet : List Byte) (st : NameScan) : ℕ :=
  (packet.length-st.jumps)*(packet.length+1)+(packet.length-st.cursor)

/-- What a returning `parse_name` leaves behind. -/
structure Finished (nameSize : Option ℕ) (st : NameScan) : Prop where
  next : st.next.isSome = true
  terminated : nameSize.isSome = true → (0 : Byte) ∈ st.output

/-- A round that faults nowhere: it returns, or it goes on with fewer rounds left. -/
def RoundOk (packet : List Byte) (nameSize : Option ℕ) (st : NameScan)
    (r : Except Fault Round) : Prop :=
  (∃ code st',r = .ok (.done code st') ∧ (code = .ok → Finished nameSize st')) ∨
    ∃ st',r = .ok (.again st') ∧ Scanning packet st' ∧ roundsLeft packet st' < roundsLeft packet st

theorem finish_next (h : st.jumped = true → st.next.isSome = true) : st.finish.next.isSome = true := by
  cases hj : st.jumped with
  | false => simp [NameScan.finish,hj]
  | true => simpa [NameScan.finish,hj] using h hj

theorem roundsLeft_jump {target : ℕ} (hj : st.jumps < packet.length) (ht : target < packet.length)
    {st' : NameScan} (hj' : st'.jumps = st.jumps+1) (hc : st'.cursor = target) :
    roundsLeft packet st' < roundsLeft packet st := by
  obtain ⟨k,hk⟩ : ∃ k,packet.length-st.jumps = k+1 := ⟨packet.length-st.jumps-1,by omega⟩
  rw [roundsLeft,roundsLeft,hj',hc,hk,show packet.length-(st.jumps+1) = k by omega,Nat.succ_mul]
  omega

theorem roundsLeft_label {st' : NameScan} (hc : st.cursor < packet.length)
    (hc' : st.cursor < st'.cursor) (hj : st'.jumps = st.jumps) :
    roundsLeft packet st' < roundsLeft packet st := by
  rw [roundsLeft,roundsLeft,hj]
  omega

theorem parseLabel_ok (h : Scanning packet st) :
    RoundOk packet nameSize st (parseLabel packet nameSize st) := by
  obtain ⟨hcur,hjumps,hnext⟩ := h
  obtain ⟨r,he,hr⟩ := parseLabel_reads packet nameSize st
  rw [he]
  cases hr with
  | refused hcode => exact .inl ⟨_,_,rfl,fun hc => absurd hc hcode⟩
  | root =>
    refine .inl ⟨.ok,_,rfl,fun _ => ⟨finish_next hnext,fun hsome => ?_⟩⟩
    obtain ⟨size,rfl⟩ := Option.isSome_iff_exists.1 hsome
    simp [NameScan.finish,written]
  | label h =>
    have hfit := (itemAt_label h).2
    exact .inr ⟨_,rfl,⟨hfit,hjumps,hnext⟩,
      roundsLeft_label (by omega) (by dsimp only [NameScan.pass]; omega) rfl⟩
  | pointer h hj =>
    have ht := itemAt_pointer h
    exact .inr ⟨_,rfl,⟨Nat.le_of_lt ht,hj,fun _ => finish_next hnext⟩,roundsLeft_jump hj ht rfl rfl⟩

theorem parseRounds_ok {n : ℕ} (h : Scanning packet st) (hn : roundsLeft packet st < n) :
    ∃ code st',parseRounds packet nameSize n st = .ok (code,st') ∧
      (code = .ok → Finished nameSize st') := by
  induction n generalizing st with
  | zero => omega
  | succ n ih =>
    rw [parseRounds]
    have hround : RoundOk packet nameSize st (parseLabel packet nameSize st) := parseLabel_ok h
    rcases hround with ⟨code,st',he,hf⟩ | ⟨st',he,hs,hlt⟩
    · exact ⟨code,st',by rw [he]; rfl,hf⟩
    · obtain ⟨code,st'',he',hf⟩ := ih hs (by omega)
      exact ⟨code,st'',by rw [he]; exact he',hf⟩

/-- `parse_name` ends without a fault; when it succeeds it has set `next` and terminated the name. -/
theorem parseName_ok (packet : List Byte) (offset : ℕ) (nameSize : Option ℕ) :
    ∃ code st,parseName packet offset nameSize = .ok (code,st) ∧
      (code = .ok → Finished nameSize st) := by
  rw [parseName]
  by_cases hoff : packet.length ≤ offset
  · exact ⟨.size,_,if_pos hoff,by simp⟩
  · rw [if_neg hoff]
    refine parseRounds_ok ⟨by dsimp only; omega,Nat.zero_le _,by simp⟩ ?_
    rw [roundsLeft,Nat.succ_mul,Nat.sub_zero]
    omega

theorem parseAnswers_ok (address : IpAddr) (n cursor : ℕ) :
    ∃ code address',parseAnswers packet address n cursor = .ok (code,address') ∧
      (code ≠ .ok → address' = address) := by
  induction n generalizing cursor with
  | zero => exact ⟨.notSupport,address,rfl,fun _ => rfl⟩
  | succ n ih =>
    obtain ⟨code,st,he,hf⟩ := parseName_ok packet cursor none
    rw [parseAnswers,he]
    simp only [bind,Except.bind]
    by_cases hcode : code ≠ .ok
    · exact ⟨code,address,if_pos hcode,fun _ => rfl⟩
    rw [if_neg hcode]
    obtain ⟨cursor,hnext⟩ := Option.isSome_iff_exists.1 (hf (not_not.1 hcode)).next
    rw [hnext]
    dsimp only
    by_cases hshort : packet.length < cursor+10
    · exact ⟨.size,address,if_pos hshort,fun _ => rfl⟩
    obtain ⟨type,htype⟩ := readU16_of_le (show cursor+2 ≤ packet.length by omega)
    obtain ⟨cls,hcls⟩ := readU16_of_le (show cursor+2+2 ≤ packet.length by omega)
    obtain ⟨dataLength,hdata⟩ := readU16_of_le (show cursor+8+2 ≤ packet.length by omega)
    rw [if_neg hshort,htype,hcls,hdata]
    dsimp only
    by_cases hlong : packet.length < cursor+10+dataLength.toNat
    · exact ⟨.size,address,if_pos hlong,fun _ => rfl⟩
    rw [if_neg hlong]
    by_cases hA : type = dnsTypeA ∧ cls = dnsClassIn ∧ dataLength = 4
    · have hfour : cursor+10+4 ≤ packet.length := by
        rw [hA.2.2] at hlong
        exact Nat.not_lt.1 hlong
      rw [if_pos hA,readBytes_of_le hfour]
      exact ⟨.ok,_,rfl,by simp⟩
    · rw [if_neg hA]
      exact ih _

theorem parseSections_ok (name : List Byte) (address : IpAddr) (hlen : dnsHeaderSize ≤ packet.length) :
    ∃ code address',parseSections packet name address = .ok (code,address') ∧
      (code ≠ .ok → address' = address) := by
  obtain ⟨code,st,he,hf⟩ := parseName_ok packet dnsHeaderSize (some 256)
  rw [parseSections,he]
  simp only [bind,Except.bind]
  by_cases hcode : code ≠ .ok
  · exact ⟨code,address,if_pos hcode,fun _ => rfl⟩
  rw [if_neg hcode]
  have hfin := hf (not_not.1 hcode)
  rw [readString,if_pos (hfin.terminated rfl)]
  dsimp only
  generalize st.output.takeWhile _ = question
  by_cases hname : question.length ≠ name.length ∨ question.take name.length ≠ name
  · exact ⟨.param,address,if_pos hname,fun _ => rfl⟩
  rw [if_neg hname]
  obtain ⟨cursor,hnext⟩ := Option.isSome_iff_exists.1 hfin.next
  rw [hnext]
  dsimp only
  by_cases hshort : packet.length < cursor+4
  · exact ⟨.notSupport,address,if_pos hshort,fun _ => rfl⟩
  obtain ⟨type,htype⟩ := readU16_of_le (show cursor+2 ≤ packet.length by omega)
  obtain ⟨cls,hcls⟩ := readU16_of_le (show cursor+2+2 ≤ packet.length by omega)
  have hlen' : 6+2 ≤ packet.length := by
    unfold dnsHeaderSize at hlen
    omega
  obtain ⟨answers,hans⟩ := readU16_of_le hlen'
  rw [if_neg hshort,htype,hcls,hans]
  dsimp only
  by_cases hA : type ≠ dnsTypeA
  · exact ⟨.notSupport,address,if_pos hA,fun _ => rfl⟩
  rw [if_neg hA]
  by_cases hC : cls ≠ dnsClassIn
  · exact ⟨.notSupport,address,if_pos hC,fun _ => rfl⟩
  rw [if_neg hC]
  exact parseAnswers_ok address _ _

/-- No packet makes `dns_response_parse` read or write outside its buffers or loop for ever, and
the address is written only on success. -/
theorem dnsResponseParse_safe (packet : List Byte) (id : BitVec 16) (name : List Byte)
    (address : IpAddr) :
    ∃ code address',dnsResponseParse packet id name address = .ok (code,address') ∧
      (code ≠ .ok → address' = address) := by
  rw [dnsResponseParse]
  by_cases hlen : packet.length < dnsHeaderSize
  · exact ⟨.size,address,if_pos hlen,fun _ => rfl⟩
  have hword (i : ℕ) (hi : i+2 ≤ 12) : ∃ w,readU16 packet i = .ok w :=
    readU16_of_le (by unfold dnsHeaderSize at hlen; omega)
  obtain ⟨responseId,hid⟩ := hword 0 (by omega)
  obtain ⟨flags,hflags⟩ := hword 2 (by omega)
  obtain ⟨questions,hq⟩ := hword 4 (by omega)
  obtain ⟨answers,ha⟩ := hword 6 (by omega)
  rw [if_neg hlen,hid,hflags,hq,ha]
  simp only [bind,Except.bind]
  split
  · exact ⟨.param,address,rfl,fun _ => rfl⟩
  split
  · exact ⟨.format,address,rfl,fun _ => rfl⟩
  split
  · exact ⟨.size,address,rfl,fun _ => rfl⟩
  split
  · exact ⟨.unreach,address,rfl,fun _ => rfl⟩
  split
  · exact ⟨.format,address,rfl,fun _ => rfl⟩
  split
  · exact ⟨.format,address,rfl,fun _ => rfl⟩
  exact parseSections_ok name address (Nat.not_lt.1 hlen)

end Dns
end QuardStarNet
