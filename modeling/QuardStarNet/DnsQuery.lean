import QuardStarNet.DnsNames

/-! Queries: `dns_query_encode` writes a name as its labels, which `parse_name` reads back, and a
well-formed response to a query is accepted with the address of its first address record. -/
namespace QuardStarNet
namespace Dns

open NetBytes

/-- A string of C, without its terminator. -/
structure CString where
  bytes : List Byte
  noNul : (0 : Byte) ∉ bytes
  deriving DecidableEq

def writeBytes (buf : List Byte) (i : ℕ) (bytes : List Byte) : Except Fault (List Byte) :=
  if i+bytes.length ≤ buf.length then .ok (buf.take i ++ bytes ++ buf.drop (i+bytes.length))
  else .error .write

def writeU16 (buf : List Byte) (i : ℕ) (value : BitVec 16) : Except Fault (List Byte) :=
  writeBytes buf i [(value >>> 8).setWidth 8,value.setWidth 8]

/-- The variables of `append_name`. -/
structure NameOut where
  packet : List Byte
  length : ℕ
  encoded : ℕ
  cursor : List Byte

/-- The loop of `append_name`; a round takes the label before the next dot. -/
def appendRounds : ℕ → NameOut → Except Fault (NetErr × NameOut)
  | 0,_ => .error .fuel
  | n+1,st =>
    if st.cursor = [] then do
      let packet ← writeBytes st.packet st.length [0]
      .ok (.ok,{ st with packet := packet, length := st.length+1 })
    else
      let label := st.cursor.takeWhile (· ≠ 0x2e)
      let rest := st.cursor.dropWhile (· ≠ 0x2e)
      if label.length = 0 ∨ 63 < label.length ∨ 255 < st.encoded+label.length+1 then
        .ok (.param,{ st with cursor := rest })
      else do
        let packet ← writeBytes st.packet st.length [BitVec.ofNat 8 label.length]
        let packet ← writeBytes packet (st.length+1) label
        let st : NameOut :=
          ⟨packet,st.length+1+label.length,st.encoded+label.length+1,rest⟩
        match rest with
        | [] => appendRounds n st
        | _ :: tail =>
          if tail = [] then .ok (.param,{ st with cursor := tail })
          else appendRounds n { st with cursor := tail }

def appendName (packet : List Byte) (length : ℕ) (name : List Byte) :
    Except Fault (NetErr × NameOut) :=
  appendRounds (name.length+1) ⟨packet,length,1,name⟩

/-- `dns_query_t`. -/
structure DnsQuery where
  id : BitVec 16
  bytes : List Byte
  length : ℕ
  deriving DecidableEq

/-- `dns_query_encode`; `query` is what the caller's variable held. -/
def dnsQueryEncode (query : DnsQuery) (id : BitVec 16) (name : List Byte) :
    Except Fault (NetErr × DnsQuery) :=
  if name = [] then .ok (.param,query)
  else do
    let query : DnsQuery := ⟨id,List.replicate 512 0,0⟩
    let bytes ← writeU16 query.bytes 0 id
    let bytes ← writeU16 bytes 2 0x0100
    let bytes ← writeU16 bytes 4 1
    let (code,out) ← appendName bytes dnsHeaderSize name
    if code ≠ .ok then .ok (code,{ query with bytes := out.packet })
    else do
      let bytes ← writeU16 out.packet out.length dnsTypeA
      let bytes ← writeU16 bytes (out.length+2) dnsClassIn
      .ok (.ok,{ query with bytes := bytes, length := out.length+2+2 })

/-- The bytes of a query that are sent. -/
def DnsQuery.message (query : DnsQuery) : List Byte := query.bytes.take query.length

def wireName (labels : List (List Byte)) : List Byte :=
  (labels.flatMap fun l => BitVec.ofNat 8 l.length :: l) ++ [0]

/-- Labels that a name can be written with. -/
def Plain (l : List Byte) : Prop := l ≠ [] ∧ l.length ≤ 63 ∧ (0x2e : Byte) ∉ l

/-! ### Texts -/

section

variable {labels asked : List (List Byte)} {l text : List Byte}

theorem intercalate_cons_flatMap (l : List Byte) (labels : List (List Byte)) :
    List.intercalate [0x2e] (l :: labels) = l ++ labels.flatMap (0x2e :: ·) := by
  induction labels generalizing l with
  | nil => simp
  | cons l' labels ih =>
    rw [List.intercalate_cons_cons,ih]
    simp

theorem intercalate_cons_of_text (h : List.intercalate [0x2e] labels = text) (hne : text ≠ []) :
    List.intercalate [0x2e] (l :: labels) = l ++ 0x2e :: text := by
  cases labels with
  | nil => exact absurd h.symm hne
  | cons l' labels =>
    rw [← h,intercalate_cons_flatMap,intercalate_cons_flatMap]
    simp

/-- A byte of a name's text other than a dot is a byte of a label. -/
theorem mem_intercalate {b : Byte} (hb : b ≠ 0x2e) :
    b ∈ List.intercalate [0x2e] labels ↔ ∃ l ∈ labels,b ∈ l := by
  cases labels with
  | nil => simp
  | cons l labels =>
    have hb : ¬b = 46#8 := hb
    rw [intercalate_cons_flatMap]
    simp [hb]

theorem labels_nil_of_text (h : ∀ l ∈ labels,l ≠ []) (ht : List.intercalate [0x2e] labels = []) :
    labels = [] := by
  cases labels with
  | nil => rfl
  | cons l labels =>
    rw [intercalate_cons_flatMap,List.append_eq_nil_iff] at ht
    exact absurd ht.1 (h l List.mem_cons_self)

/-- Labels without dots are determined by the text of the name. -/
theorem labels_eq_of_intercalate (hl : ∀ l ∈ labels,(0x2e : Byte) ∉ l)
    (ha : ∀ l ∈ asked,(0x2e : Byte) ∉ l) (hne : labels ≠ []) (hne' : asked ≠ [])
    (h : List.intercalate [0x2e] labels = List.intercalate [0x2e] asked) : labels = asked := by
  rw [← List.splitOn_intercalate (0x2e : Byte) hl hne,h,List.splitOn_intercalate (0x2e : Byte) ha hne']

/-- The text of a name is its labels with dots between them. -/
theorem dotted_eq_intercalate (h : ∀ l ∈ labels,l ≠ []) :
    dotted [] labels = List.intercalate [0x2e] labels := by
  have hstep {output : List Byte} (hout : output ≠ []) (labels : List (List Byte)) :
      dotted output labels = output ++ labels.flatMap (0x2e :: ·) := by
    induction labels generalizing output with
    | nil => simp [dotted]
    | cons l labels ih =>
      have hcons : dotted output (l :: labels) = dotted (output ++ [0x2e] ++ l) labels := by
        simp [dotted,dotBefore,hout]
      rw [hcons,ih (by simp)]
      simp
  cases labels with
  | nil => rfl
  | cons l labels =>
    have hl : dotted [] (l :: labels) = dotted l labels := by simp [dotted,dotBefore]
    rw [hl,hstep (h l List.mem_cons_self),intercalate_cons_flatMap]

theorem wireName_cons (l : List Byte) (labels : List (List Byte)) :
    wireName (l :: labels) = BitVec.ofNat 8 l.length :: (l ++ wireName labels) := by
  simp [wireName]

/-- A name is two bytes shorter than its encoding. -/
theorem length_wireName (h : labels ≠ []) :
    (wireName labels).length = (List.intercalate [0x2e] labels).length+2 := by
  obtain ⟨l,labels,rfl⟩ := List.exists_cons_of_ne_nil h
  have hsame : (labels.flatMap fun l => BitVec.ofNat 8 l.length :: l).length =
      (labels.flatMap (0x2e :: ·)).length := by simp [List.length_flatMap]
  rw [wireName_cons,intercalate_cons_flatMap,List.length_cons,List.length_append,wireName,
    List.length_append,hsame,List.length_append,List.length_singleton]
  omega

end

/-! ### The encoder -/

/-- A query's buffer of which `pre` has been written. -/
def padded (pre : List Byte) : List Byte := pre ++ List.replicate (512-pre.length) 0

theorem writeBytes_padded {pre bytes : List Byte} (h : (pre ++ bytes).length ≤ 512) :
    writeBytes (padded pre) pre.length bytes = .ok (padded (pre ++ bytes)) := by
  rw [List.length_append] at h
  rw [writeBytes,padded,if_pos (by rw [List.length_append,List.length_replicate]; omega),
    List.take_left,List.drop_append,List.drop_eq_nil_of_le (by omega),List.nil_append,
    List.drop_replicate,Nat.add_sub_cancel_left,padded,List.length_append,Nat.sub_sub]

theorem writeU16_padded {pre : List Byte} {i : ℕ} {value : BitVec 16} (hi : i = pre.length)
    (h : i+2 ≤ 512) : writeU16 (padded pre) i value = .ok (padded (pre ++ be16 value)) := by
  have hb : be16 value = [(value >>> 8).setWidth 8,value.setWidth 8] := by
    simp only [be16,List.cons.injEq,and_true]
    constructor
    · apply BitVec.eq_of_toNat_eq
      simp [BitVec.extractLsb'_toNat]
    · apply BitVec.eq_of_toNat_eq
      simp [BitVec.extractLsb'_toNat]
  rw [writeU16,← hb,hi]
  exact writeBytes_padded (by rw [List.length_append,be16_length]; omega)

/-- The result of `append_name` behind `pre`, for the name `text`. -/
structure Appended (pre text : List Byte) (out : NameOut) (labels : List (List Byte)) : Prop where
  plain : ∀ l ∈ labels,Plain l
  text : List.intercalate [0x2e] labels = text
  packet : out.packet = padded (pre ++ wireName labels)
  length : out.length = (pre ++ wireName labels).length
  bound : (pre ++ wireName labels).length ≤ 267

theorem Appended.cons {pre l text cursor : List Byte} {out : NameOut} {labels : List (List Byte)}
    (h : Appended (pre ++ [BitVec.ofNat 8 l.length] ++ l) text out labels) (hl : Plain l)
    (hc : List.intercalate [0x2e] (l :: labels) = cursor) : Appended pre cursor out (l :: labels) := by
  have hw : pre ++ [BitVec.ofNat 8 l.length] ++ l ++ wireName labels = pre ++ wireName (l :: labels) := by
    simp [wireName_cons]
  obtain ⟨hplain,-,hpacket,hlength,hbound⟩ := h
  rw [hw] at hpacket hlength hbound
  exact ⟨List.forall_mem_cons.2 ⟨hl,hplain⟩,hc,hpacket,hlength,hbound⟩

theorem dropWhile_dot (l : List Byte) :
    l.dropWhile (· ≠ 0x2e) = [] ∨ ∃ tail,l.dropWhile (· ≠ 0x2e) = 0x2e :: tail := by
  induction l with
  | nil => exact .inl rfl
  | cons b l ih =>
    rw [List.dropWhile_cons]
    by_cases hb : b = 0x2e
    · exact .inr ⟨l,by simp [hb]⟩
    · rw [if_pos (by simpa using hb)]
      exact ih

/-- The loop keeps one byte of the encoded name's budget for the final zero. -/
theorem appendRounds_spec {rounds encoded : ℕ} {pre cursor : List Byte}
    (hpre : pre.length = 11+encoded) (hbound : encoded ≤ 255) (hrounds : cursor.length < rounds) :
    ∃ code out,appendRounds rounds ⟨padded pre,pre.length,encoded,cursor⟩ = .ok (code,out) ∧
      (code = .ok → ∃ labels,Appended pre cursor out labels) := by
  induction rounds generalizing pre encoded cursor with
  | zero => omega
  | succ rounds ih =>
    rw [appendRounds]
    by_cases hend : cursor = []
    · subst hend
      have hlen : (pre ++ wireName []).length = pre.length+1 := List.length_append
      rw [if_pos rfl,writeBytes_padded (by rw [List.length_append,List.length_singleton]; omega)]
      exact ⟨.ok,_,rfl,fun _ => ⟨[],by simp,rfl,rfl,hlen.symm,by omega⟩⟩
    have hsplit : cursor.takeWhile (· ≠ 0x2e) ++ cursor.dropWhile (· ≠ 0x2e) = cursor :=
      List.takeWhile_append_dropWhile
    have hdot : (0x2e : Byte) ∉ cursor.takeWhile (· ≠ 0x2e) := fun h => by
      simpa using List.all_eq_true.1 List.all_takeWhile _ h
    have hrest := dropWhile_dot cursor
    rw [if_neg hend]
    dsimp only
    generalize cursor.takeWhile (· ≠ 0x2e) = label at *
    generalize cursor.dropWhile (· ≠ 0x2e) = rest at *
    by_cases hbad : label.length = 0 ∨ 63 < label.length ∨ 255 < encoded+label.length+1
    · exact ⟨.param,_,if_pos hbad,by simp⟩
    have hplain : Plain label := ⟨fun hc => hbad (.inl (by rw [hc]; rfl)),by omega,hdot⟩
    have hcursor := congrArg List.length hsplit
    rw [List.length_append] at hcursor
    have hlen : (pre ++ [BitVec.ofNat 8 label.length]).length = pre.length+1 := List.length_append
    have hwhole : (pre ++ [BitVec.ofNat 8 label.length] ++ label).length = pre.length+1+label.length := by
      rw [List.length_append,hlen]
    rw [if_neg hbad,writeBytes_padded (by omega)]
    simp only [bind,Except.bind]
    rw [← hlen,writeBytes_padded (by omega),← List.length_append]
    -- the rounds behind the label, for either of the two ways on
    have hnext (tail : List Byte) (htail : tail.length < rounds) :=
      ih (by rw [hwhole]; omega) (by omega : encoded+label.length+1 ≤ 255) htail
    rcases hrest with rfl | ⟨tail,rfl⟩
    · obtain ⟨code,out,he,hout⟩ := hnext [] (by rw [List.length_nil] at hcursor ⊢; omega)
      refine ⟨code,out,he,fun hc => ?_⟩
      obtain ⟨labels,hlabels⟩ := hout hc
      obtain rfl := labels_nil_of_text (fun l hl => (hlabels.plain l hl).1) hlabels.text
      exact ⟨[label],hlabels.cons hplain (by rw [← hsplit,List.append_nil]; simp)⟩
    · by_cases htail : tail = []
      · exact ⟨.param,_,if_pos htail,by simp⟩
      · simp only [if_neg htail]
        rw [List.length_cons] at hcursor
        obtain ⟨code,out,he,hout⟩ := hnext tail (by omega)
        refine ⟨code,out,he,fun hc => ?_⟩
        obtain ⟨labels,hlabels⟩ := hout hc
        exact ⟨label :: labels,hlabels.cons hplain
          (by rw [intercalate_cons_of_text hlabels.text htail,hsplit])⟩

/-- What `dns_query_encode` has written when it succeeds. -/
structure Encoded (id : BitVec 16) (name : List Byte) (query : DnsQuery) (labels : List (List Byte)) :
    Prop where
  ident : query.id = id
  nonempty : labels ≠ []
  plain : ∀ l ∈ labels,Plain l
  text : List.intercalate [0x2e] labels = name
  bytes : query.bytes.length = 512
  length : query.length = 12+(wireName labels).length+4
  bound : (wireName labels).length ≤ 255
  question : query.message.drop 12 = wireName labels ++ be16 dnsTypeA ++ be16 dnsClassIn

/-- No name makes `dns_query_encode` write outside its buffer. -/
theorem dnsQueryEncode_spec (query : DnsQuery) (id : BitVec 16) (name : List Byte) :
    ∃ code query',dnsQueryEncode query id name = .ok (code,query') ∧
      (code = .ok → ∃ labels,Encoded id name query' labels) := by
  rw [dnsQueryEncode]
  by_cases hname : name = []
  · exact ⟨.param,query,if_pos hname,by simp⟩
  have h0 : writeU16 (List.replicate 512 0) 0 id = .ok (padded (be16 id)) :=
    @writeU16_padded [] 0 id rfl (by decide)
  have h2 : writeU16 (padded (be16 id)) 2 0x0100 = .ok (padded (be16 id ++ be16 0x0100)) :=
    writeU16_padded rfl (by decide)
  -- the counts of the other three sections are still zero
  have h4 : writeU16 (padded (be16 id ++ be16 0x0100)) 4 1 =
      .ok (padded (be16 id ++ be16 0x0100 ++ be16 1 ++ List.replicate 6 0)) :=
    writeU16_padded rfl (by decide)
  rw [if_neg hname]
  simp only [h0,h2,h4,bind,Except.bind]
  have hheader : (be16 id ++ be16 0x0100 ++ be16 1 ++ List.replicate 6 0).length = 12 := rfl
  generalize be16 id ++ be16 0x0100 ++ be16 1 ++ List.replicate 6 0 = pre at hheader ⊢
  rw [appendName,dnsHeaderSize,← hheader]
  obtain ⟨code,out,he,hout⟩ := @appendRounds_spec (name.length+1) 1 pre name hheader (by decide)
    (Nat.lt_succ_self name.length)
  rw [he]
  dsimp only
  by_cases hcode : code ≠ .ok
  · exact ⟨code,_,if_pos hcode,fun hc => absurd hc hcode⟩
  obtain ⟨labels,hplain,htext,hpacket,hlength,hbound⟩ := hout (not_not.1 hcode)
  have hsum : (pre ++ wireName labels).length = 12+(wireName labels).length := by
    rw [List.length_append,hheader]
  rw [if_neg hcode,hpacket,writeU16_padded hlength (by omega)]
  dsimp only
  rw [writeU16_padded (by rw [List.length_append,be16_length,← hlength]) (by omega)]
  have hmessage : (pre ++ wireName labels ++ be16 dnsTypeA ++ be16 dnsClassIn).length = out.length+2+2 := by
    rw [List.length_append,List.length_append,be16_length,be16_length,← hlength]
  refine ⟨.ok,_,rfl,fun _ => ⟨labels,rfl,?_,hplain,htext,?_,by dsimp only; omega,by omega,?_⟩⟩
  · rintro rfl
    exact hname htext.symm
  · dsimp only
    rw [padded,List.length_append,List.length_replicate,hmessage]
    omega
  · rw [DnsQuery.message,padded,← hmessage,List.take_left,List.append_assoc,List.append_assoc,
      ← hheader,List.drop_left,List.append_assoc]

/-! ### Fields of a packet -/

section

variable {packet bytes : List Byte} {i : ℕ}

theorem readBytes_of_holds (h : Holds packet i bytes) (hi : i+bytes.length ≤ packet.length) :
    readBytes packet i bytes.length = .ok bytes := by
  rw [readBytes_of_le hi,← List.prefix_iff_eq_take.1 h]

theorem or_shift_eq_append (a b : Byte) :
    (a.setWidth 16 <<< 8) ||| b.setWidth 16 = of16 a b := by
  apply BitVec.eq_of_toNat_eq
  have ha := a.isLt
  have hb := b.isLt
  simp only [BitVec.toNat_or,BitVec.toNat_shiftLeft,BitVec.toNat_setWidth,Nat.shiftLeft_eq,of16_toNat]
  rw [Nat.mod_eq_of_lt (by omega : a.toNat < 2^16),Nat.mod_eq_of_lt (by omega : a.toNat*2^8 < 2^16),
    Nat.mod_eq_of_lt (by omega : b.toNat < 2^16),← Nat.shiftLeft_eq,
    ← Nat.shiftLeft_add_eq_or_of_lt (by omega),Nat.shiftLeft_eq]

theorem readU16_of_holds {w : BitVec 16} (h : Holds packet i (be16 w)) : readU16 packet i = .ok w := by
  obtain ⟨post,hpost⟩ := h
  have hget (k : ℕ) : packet[i+k]? = (be16 w ++ post)[k]? := by rw [hpost,List.getElem?_drop]
  have h0 : packet[i]? = some (w.extractLsb' 8 8) := hget 0
  have h1 : packet[i+1]? = some (w.extractLsb' 0 8) := hget 1
  simp only [readU16,readByte,h0,h1,bind,Except.bind,pure,Except.pure]
  rw [or_shift_eq_append,of16_be16]

end

/-! ### The question is read back -/

theorem ofNat_label_le : ∀ n,n ≤ 63 → n ≠ 0 →
    BitVec.ofNat 8 n ≠ 0 ∧ BitVec.ofNat 8 n &&& 0xc0 = (0 : Byte) ∧ (BitVec.ofNat 8 n).toNat = n := by
  decide

theorem itemAt_wire {packet l rest : List Byte} {i : ℕ} (hl : Plain l)
    (h : packet.drop i = BitVec.ofNat 8 l.length :: (l ++ rest)) : itemAt packet i = .label l := by
  obtain ⟨hne,h63,-⟩ := hl
  obtain ⟨h0,hptr,hn⟩ := ofNat_label_le l.length h63 fun hc => hne (List.length_eq_zero_iff.1 hc)
  rw [itemAt,h,itemOf.eq_def]
  dsimp only
  rw [if_neg h0,if_neg (by rw [hptr]; decide),hptr,hn,if_neg (by simp),List.take_left]

/-- Written labels are a name. -/
theorem nameAt_of_holds {packet : List Byte} {labels : List (List Byte)} {i : ℕ}
    (hplain : ∀ l ∈ labels,Plain l) (h : Holds packet i (wireName labels)) :
    NameAt packet (labels.length+1) i labels (i+(wireName labels).length) := by
  induction labels generalizing i with
  | nil =>
    obtain ⟨post,hpost⟩ := h
    exact .root (by rw [itemAt,← hpost]; rfl)
  | cons l labels ih =>
    rw [List.forall_mem_cons] at hplain
    have hrest : Holds packet (i+1+l.length) (wireName labels) := by
      rw [wireName_cons,← List.cons_append] at h
      exact h.right (by rw [List.length_cons]; omega)
    have hname := ih hplain.2 hrest
    obtain ⟨post,hpost⟩ := h
    rw [wireName_cons,List.cons_append,List.append_assoc] at hpost
    rw [show i+1+l.length+(wireName labels).length = i+(wireName (l :: labels)).length by
      rw [wireName_cons,List.length_cons,List.length_append]; omega] at hname
    exact .label (itemAt_wire hplain.1 hpost.symm) hname

namespace Encoded

variable {id : BitVec 16} {name : List Byte} {query : DnsQuery} {labels : List (List Byte)}

theorem nameAt (h : Encoded id name query labels) :
    NameAt query.message (labels.length+1) 12 labels (query.length-4) := by
  rw [h.length,Nat.add_sub_cancel]
  refine nameAt_of_holds h.plain ⟨be16 dnsTypeA ++ be16 dnsClassIn,?_⟩
  rw [h.question,List.append_assoc]

theorem dotted_eq (h : Encoded id name query labels) : dotted [] labels = name := by
  rw [dotted_eq_intercalate fun l hl => (h.plain l hl).1,h.text]

theorem fits (h : Encoded id name query labels) : Fits (some 256) [] labels := by
  intro size hsize
  obtain rfl := Option.some.inj hsize
  have hlen := length_wireName h.nonempty
  have hbound := h.bound
  rw [h.text] at hlen
  rw [h.dotted_eq]
  omega

end Encoded

/-! ### Responses -/

/-- A resource record without its owner name. -/
structure Record where
  type : BitVec 16
  cls : BitVec 16
  ttl : BitVec 32
  data : List Byte

def Record.fixed (r : Record) : List Byte :=
  be16 r.type ++ be16 r.cls ++ be32 r.ttl ++ be16 (BitVec.ofNat 16 r.data.length)

/-- The address in a record of type A and class IN with four bytes of data. -/
def Record.address? (r : Record) : Option IpAddr :=
  if r.type = dnsTypeA ∧ r.cls = dnsClassIn then
    match r.data with
    | [a,b,c,d] => some (of32 a b c d)
    | _ => none
  else none

/-- Well-formed records from a position on, and the position behind them. -/
inductive RecordsAt (packet : List Byte) : ℕ → List Record → ℕ → Prop
  | nil (pos : ℕ) : RecordsAt packet pos [] pos
  | cons {n pos body next : ℕ} {labels : List (List Byte)} {r : Record} {records : List Record}
      (owner : NameAt packet n pos labels body) (size : r.data.length < 65536)
      (here : Holds packet body (r.fixed ++ r.data))
      (rest : RecordsAt packet (body+10+r.data.length) records next) :
      RecordsAt packet pos (r :: records) next

/-- The part of a message before its question. -/
def header (id flags questions answers authorities additionals : BitVec 16) : List Byte :=
  be16 id ++ be16 flags ++ be16 questions ++ be16 answers ++ be16 authorities ++ be16 additionals

/-- A response without error to a query, whose answer section is `records`; other sections may
follow. -/
structure Answers (packet : List Byte) (query : DnsQuery) (records : List Record) : Prop where
  size : packet.length ≤ 65535
  start : ∃ flags authorities additionals,flags &&& dnsFlagResponse ≠ 0 ∧
    flags &&& dnsFlagTruncated = 0 ∧ flags &&& 0x000f = 0 ∧
    Holds packet 0 (header query.id flags 1 (BitVec.ofNat 16 records.length) authorities additionals ++
      query.message.drop 12)
  nonempty : records ≠ []
  records : ∃ next,RecordsAt packet query.length records next

section

variable {packet : List Byte} {n pos next : ℕ} {labels : List (List Byte)} {records : List Record}
  {addr address : IpAddr}

theorem RecordsAt.count_le (h : RecordsAt packet pos records next) (hpos : pos ≤ packet.length) :
    pos+records.length ≤ packet.length := by
  induction h with
  | nil => simpa using hpos
  | cons owner size here rest ih =>
    have hlt := owner.pos_lt_next
    have hend := here.bound (by simp [Record.fixed,be16])
    simp only [Record.fixed,List.length_append,be16_length,be32_length] at hend
    have hrest := ih (by omega)
    rw [List.length_cons]
    omega

/-- A byte taken in behind those read before. -/
theorem toNat_shift_or {x : BitVec 32} (hx : x.toNat < 2^24) (b : Byte) :
    ((x <<< 8) ||| b.setWidth 32).toNat = x.toNat*256+b.toNat := by
  have hb := b.isLt
  simp only [BitVec.toNat_or,BitVec.toNat_shiftLeft,BitVec.toNat_setWidth,Nat.shiftLeft_eq]
  rw [Nat.mod_eq_of_lt (by omega : x.toNat*2^8 < 2^32),Nat.mod_eq_of_lt (by omega : b.toNat < 2^32),
    ← Nat.shiftLeft_eq,← Nat.shiftLeft_add_eq_or_of_lt (by omega),Nat.shiftLeft_eq]

theorem ipaddrFromBuf_four (a b c d : Byte) : ipaddrFromBuf [a,b,c,d] = of32 a b c d := by
  have ha := a.isLt
  have hb := b.isLt
  have hc := c.isLt
  have h1 : (((0 : BitVec 32) <<< 8) ||| a.setWidth 32).toNat = a.toNat := by
    rw [toNat_shift_or (by decide)]
    exact Nat.zero_add a.toNat
  have h2 := toNat_shift_or (by rw [h1]; omega) b
  have h3 := toNat_shift_or (by rw [h2,h1]; omega) c
  have h4 := toNat_shift_or (by rw [h3,h2,h1]; omega) d
  apply BitVec.eq_of_toNat_eq
  rw [of32_toNat]
  simp only [ipaddrFromBuf,List.foldl_cons,List.foldl_nil]
  rw [h4,h3,h2,h1]

theorem address?_eq_some {r : Record} (h : r.address? = some addr) :
    r.type = dnsTypeA ∧ r.cls = dnsClassIn ∧ r.data.length = 4 ∧ ipaddrFromBuf r.data = addr := by
  rw [Record.address?] at h
  split at h
  case isTrue hA =>
    split at h
    · next a b c d hd =>
      refine ⟨hA.1,hA.2,by rw [hd]; rfl,?_⟩
      rw [hd,ipaddrFromBuf_four]
      exact Option.some.inj h
    · cases h
  case isFalse => cases h

theorem address?_eq_none {r : Record} (h : r.address? = none) :
    ¬(r.type = dnsTypeA ∧ r.cls = dnsClassIn ∧ r.data.length = 4) := by
  rintro ⟨htype,hcls,hlen⟩
  obtain ⟨a,b,c,d,hd⟩ : ∃ a b c d,r.data = [a,b,c,d] := by
    match hr : r.data,hlen with
    | [a,b,c,d],_ => exact ⟨a,b,c,d,rfl⟩
  simp [Record.address?,htype,hcls,hd] at h

/-- The loop over the answers skips the records before the first with an address. -/
theorem parseAnswers_recordsAt (h : RecordsAt packet pos records next)
    (haddr : records.findSome? Record.address? = some addr) :
    parseAnswers packet address records.length pos = .ok (.ok,addr) := by
  induction h with
  | nil => simp at haddr
  | @cons _ _ body _ labels r records owner size here rest ih =>
    have hskip : Fits none [] labels := fun _ hs => nomatch hs
    obtain ⟨st,he,-,hnext⟩ := parseName_of_nameAt owner hskip
    have hbound := here.bound (by simp [Record.fixed,be16])
    simp only [Record.fixed,List.length_append,be16_length,be32_length] at hbound
    have htype : readU16 packet body = .ok r.type := readU16_of_holds here.left.left.left.left
    have hcls : readU16 packet (body+2) = .ok r.cls := readU16_of_holds (here.left.left.left.right rfl)
    have hlen : readU16 packet (body+8) = .ok (BitVec.ofNat 16 r.data.length) :=
      readU16_of_holds (here.left.right rfl)
    have hnat : (BitVec.ofNat 16 r.data.length).toNat = r.data.length := by
      rw [BitVec.toNat_ofNat]
      omega
    rw [List.length_cons,parseAnswers,he]
    simp only [bind,Except.bind,ne_eq,not_true_eq_false,if_false,hnext]
    rw [if_neg (by omega),htype,hcls,hlen]
    dsimp only
    rw [hnat,if_neg (by omega)]
    have hfour : BitVec.ofNat 16 r.data.length = 4 ↔ r.data.length = 4 := by
      rw [← BitVec.toNat_inj,hnat]
      rfl
    rw [List.findSome?_cons] at haddr
    cases hr : r.address? with
    | some a =>
      rw [hr] at haddr
      obtain ⟨hA,hC,h4,hip⟩ := address?_eq_some hr
      rw [if_pos ⟨hA,hC,hfour.2 h4⟩]
      have hdata := readBytes_of_holds (here.right (j := body+10) rfl) (by omega)
      rw [h4] at hdata
      rw [hdata]
      simp only [hip]
      rw [Option.some.inj haddr]
    | none =>
      rw [hr] at haddr
      rw [if_neg fun hc => address?_eq_none hr ⟨hc.1,hc.2.1,hfour.1 hc.2.2⟩]
      exact ih haddr

end

theorem readString_terminated {text : List Byte} (h : (0 : Byte) ∉ text) :
    readString (text ++ [0]) = .ok text := by
  rw [readString,if_pos (by simp)]
  congr 1
  rw [List.takeWhile_append_of_pos (by
    intro b hb
    simp only [ne_eq,decide_eq_true_eq]
    rintro rfl
    exact h hb)]
  simp

/-- A response to a query is accepted with the first address among its answers. -/
theorem dnsResponseParse_of_answers {id : BitVec 16} {name : List Byte} {query : DnsQuery}
    {labels : List (List Byte)} (hq : Encoded id name query labels) (hname : (0 : Byte) ∉ name)
    {packet : List Byte} {records : List Record} (h : Answers packet query records) {addr : IpAddr}
    (haddr : records.findSome? Record.address? = some addr) (address : IpAddr) :
    dnsResponseParse packet id name address = .ok (.ok,addr) := by
  obtain ⟨flags,authorities,additionals,hresp,htrunc,hrcode,hstart⟩ := h.start
  obtain ⟨next,hrecords⟩ := h.records
  rw [hq.ident,hq.question] at hstart
  have hid : readU16 packet 0 = .ok id := readU16_of_holds hstart.left.left.left.left.left.left
  have hflags : readU16 packet 2 = .ok flags :=
    readU16_of_holds (hstart.left.left.left.left.left.right rfl)
  have hone : readU16 packet 4 = .ok 1 := readU16_of_holds (hstart.left.left.left.left.right rfl)
  have hcount : readU16 packet 6 = .ok (BitVec.ofNat 16 records.length) :=
    readU16_of_holds (hstart.left.left.left.right rfl)
  have hbody : Holds packet 12 (wireName labels ++ be16 dnsTypeA ++ be16 dnsClassIn) :=
    hstart.right rfl
  have hnamed : NameAt packet (labels.length+1) 12 labels (query.length-4) := by
    rw [hq.length,Nat.add_sub_cancel]
    exact nameAt_of_holds hq.plain hbody.left.left
  have htype : readU16 packet (query.length-4) = .ok dnsTypeA := by
    rw [hq.length,Nat.add_sub_cancel]
    exact readU16_of_holds (hbody.left.right rfl)
  have hcls : readU16 packet (query.length-4+2) = .ok dnsClassIn := by
    rw [hq.length,Nat.add_sub_cancel]
    exact readU16_of_holds (hbody.right (by rw [List.length_append,be16_length]; rfl))
  have hbound := hbody.bound (by simp [be16])
  rw [List.length_append,List.length_append,be16_length,be16_length] at hbound
  have hlen := hq.length
  have hn : (BitVec.ofNat 16 records.length).toNat = records.length := by
    have hle := hrecords.count_le (by omega)
    have hsize := h.size
    rw [BitVec.toNat_ofNat]
    omega
  have hpos : records.length ≠ 0 := fun hc => h.nonempty (List.length_eq_zero_iff.1 hc)
  obtain ⟨st,he,hout,hnext⟩ := parseName_of_nameAt hnamed hq.fits
  rw [written,hq.dotted_eq] at hout
  rw [dnsResponseParse,if_neg (by unfold dnsHeaderSize; omega),hid]
  simp only [bind,Except.bind,ne_eq,not_true_eq_false,if_false]
  rw [hflags]
  simp only [hresp,htrunc,hrcode,not_true_eq_false,if_false]
  rw [hone]
  simp only [not_true_eq_false,if_false]
  rw [hcount]
  dsimp only
  rw [if_neg (by rw [← BitVec.toNat_inj,hn]; exact hpos),parseSections,dnsHeaderSize,he]
  simp only [bind,Except.bind,ne_eq,not_true_eq_false,if_false]
  rw [hout,readString_terminated hname]
  simp only [not_true_eq_false,List.take_length,or_self,if_false,hnext]
  rw [if_neg (by omega),htype]
  simp only [not_true_eq_false,if_false]
  rw [hcls]
  simp only [not_true_eq_false,if_false]
  rw [hcount]
  dsimp only
  rw [hn,show query.length-4+4 = query.length by omega]
  exact parseAnswers_recordsAt hrecords haddr

/-- Every query that is encoded fits its buffer and reads back as the name, and every well-formed
response to it is accepted with the first address it carries. -/
theorem dns_round_trip (query : DnsQuery) (id : BitVec 16) (name : CString) :
    (∃ code query',dnsQueryEncode query id name.bytes = .ok (code,query')) ∧
    ∀ query',dnsQueryEncode query id name.bytes = .ok (.ok,query') →
      query'.bytes.length = 512 ∧ query'.length ≤ 512 ∧
      (∃ st next,parseName query'.message dnsHeaderSize (some 256) = .ok (.ok,st) ∧
        st.output = name.bytes ++ [0] ∧ st.next = some next ∧ next+4 = query'.length) ∧
      ∀ packet records addr address,Answers packet query' records →
        records.findSome? Record.address? = some addr →
        dnsResponseParse packet id name.bytes address = .ok (.ok,addr) := by
  obtain ⟨code,query',he,hcode⟩ := dnsQueryEncode_spec query id name.bytes
  refine ⟨⟨code,query',he⟩,fun q hq => ?_⟩
  rw [he] at hq
  obtain ⟨rfl,rfl⟩ := Prod.mk.inj (Except.ok.inj hq)
  obtain ⟨labels,henc⟩ := hcode rfl
  have hlen := henc.length
  have hbound := henc.bound
  refine ⟨henc.bytes,by omega,?_,fun packet records addr address h haddr =>
    dnsResponseParse_of_answers henc name.noNul h haddr address⟩
  obtain ⟨st,hst,hout,hnext⟩ := parseName_of_nameAt henc.nameAt henc.fits
  rw [written,henc.dotted_eq] at hout
  exact ⟨st,query'.length-4,hst,hout,hnext,by omega⟩

/-- "m7a.test". -/
def m7aName : CString := ⟨[0x6d,0x37,0x61,0x2e,0x74,0x65,0x73,0x74],by decide⟩

/-- A response whose one answer names its owner by a pointer to the question. -/
def m7aResponse (question : List Byte) : List Byte :=
  header 0x1234 0x8180 1 1 0 0 ++ question ++ [0,1,0,1] ++
    [0xc0,0x0c,0,1,0,1,0,0,0,30,0,4,192,168,100,1]

def m7aRecord : Record := ⟨dnsTypeA,dnsClassIn,30,[192,168,100,1]⟩

def m7aQuery : DnsQuery :=
  ⟨0x1234,padded ([0x12,0x34,1,0,0,1,0,0,0,0,0,0,3,0x6d,0x37,0x61,4,0x74,0x65,0x73,0x74,0,0,1,0,1]),26⟩

theorem dnsQueryEncode_m7a : dnsQueryEncode ⟨0,[],0⟩ 0x1234 m7aName.bytes = .ok (.ok,m7aQuery) := by
  decide +kernel

/-- The labels of the name as they are sent. -/
def m7aLabels : List (List Byte) := [[0x6d,0x37,0x61],[0x74,0x65,0x73,0x74]]

theorem m7aLabels_plain : ∀ l ∈ m7aLabels,Plain l := by
  simp [m7aLabels,Plain]

theorem m7aResponse_answers : Answers (m7aResponse (wireName m7aLabels)) m7aQuery [m7aRecord] where
  size := by decide
  start := ⟨0x8180,0,0,by decide,by decide,by decide,by decide⟩
  nonempty := by simp
  records := by
    have hname : NameAt (m7aResponse (wireName m7aLabels)) 3 12 m7aLabels 22 :=
      nameAt_of_holds m7aLabels_plain (by decide)
    have hptr : NameAt (m7aResponse (wireName m7aLabels)) 4 26 m7aLabels 28 :=
      .pointer (by decide) hname
    exact ⟨_,.cons hptr (by decide) (by decide) (.nil _)⟩

theorem dnsResponseParse_m7a :
    dnsResponseParse (m7aResponse (wireName m7aLabels)) 0x1234 m7aName.bytes 0 = .ok (.ok,0xc0a86401) := by
  decide +kernel

theorem dns_round_trip_m7a :
    m7aQuery.length ≤ 512 ∧
    dnsResponseParse (m7aResponse (wireName m7aLabels)) 0x1234 m7aName.bytes 0 = .ok (.ok,0xc0a86401) := by
  obtain ⟨-,hlen,-,hresp⟩ := (dns_round_trip ⟨0,[],0⟩ 0x1234 m7aName).2 m7aQuery dnsQueryEncode_m7a
  exact ⟨hlen,hresp _ _ _ _ m7aResponse_answers rfl⟩

/-! ### The question that is accepted -/

theorem parseSections_ok_inv {packet name : List Byte} {address address' : IpAddr}
    (h : parseSections packet name address = .ok (.ok,address')) :
    ∃ n labels next,NameAt packet n dnsHeaderSize labels next ∧
      (dotted [] labels ++ [0]).takeWhile (fun b => b ≠ 0) = name := by
  obtain ⟨code,st,he,-⟩ := parseName_ok packet dnsHeaderSize (some 256)
  rw [parseSections,he] at h
  simp only [bind,Except.bind] at h
  by_cases hcode : code ≠ .ok
  · rw [if_pos hcode] at h
    exact absurd (Prod.mk.inj (Except.ok.inj h)).1 hcode
  rw [not_not.1 hcode] at he
  obtain ⟨n,labels,next,hname,hout,-⟩ := nameAt_of_parseName he
  refine ⟨n,labels,next,hname,?_⟩
  rw [if_neg hcode,hout,written,readString,if_pos (by simp)] at h
  dsimp only at h
  generalize (dotted [] labels ++ [0]).takeWhile (fun b => b ≠ 0) = question at h ⊢
  by_cases hne : question.length ≠ name.length ∨ question.take name.length ≠ name
  · rw [if_pos hne] at h
    simp at h
  · obtain ⟨hlen,htake⟩ := not_or.1 hne
    rw [not_not] at hlen htake
    rwa [← hlen,List.take_length] at htake

theorem dnsResponseParse_ok_inv {packet name : List Byte} {id : BitVec 16} {address address' : IpAddr}
    (h : dnsResponseParse packet id name address = .ok (.ok,address')) :
    parseSections packet name address = .ok (.ok,address') := by
  rw [dnsResponseParse] at h
  by_cases hlen : packet.length < dnsHeaderSize
  · rw [if_pos hlen] at h
    simp at h
  have hword (i : ℕ) (hi : i+2 ≤ 12) : ∃ w,readU16 packet i = .ok w :=
    readU16_of_le (by unfold dnsHeaderSize at hlen; omega)
  obtain ⟨responseId,hid⟩ := hword 0 (by omega)
  obtain ⟨flags,hflags⟩ := hword 2 (by omega)
  obtain ⟨questions,hq⟩ := hword 4 (by omega)
  obtain ⟨answers,ha⟩ := hword 6 (by omega)
  rw [if_neg hlen,hid,hflags,hq,ha] at h
  simp only [bind,Except.bind] at h
  split at h
  · simp at h
  split at h
  · simp at h
  split at h
  · simp at h
  split at h
  · simp at h
  split at h
  · simp at h
  split at h
  · simp at h
  exact h

/-- An accepted response has the labels of the query in its question exactly when none of its
labels holds a dot or a zero byte. -/
theorem question_asked_iff {query query' : DnsQuery} {id id' : BitVec 16} {name : CString}
    (hquery : dnsQueryEncode query id name.bytes = .ok (.ok,query')) {packet : List Byte}
    {address address' : IpAddr}
    (hparse : dnsResponseParse packet id' name.bytes address = .ok (.ok,address')) :
    (∃ n labels next,NameAt packet n dnsHeaderSize labels next) ∧
    (∃ n asked next,NameAt query'.message n dnsHeaderSize asked next) ∧
    ∀ n labels next m asked next',NameAt packet n dnsHeaderSize labels next →
      NameAt query'.message m dnsHeaderSize asked next' →
      (labels = asked ↔ ∀ l ∈ labels,(0x2e : Byte) ∉ l ∧ (0 : Byte) ∉ l) := by
  obtain ⟨code,q,he,hcode⟩ := dnsQueryEncode_spec query id name.bytes
  rw [he] at hquery
  obtain ⟨rfl,rfl⟩ := Prod.mk.inj (Except.ok.inj hquery)
  obtain ⟨asked,henc⟩ := hcode rfl
  obtain ⟨n,labels,next,hname,htext⟩ := parseSections_ok_inv (dnsResponseParse_ok_inv hparse)
  refine ⟨⟨n,labels,next,hname⟩,⟨_,asked,_,henc.nameAt⟩,?_⟩
  intro n' labels' next' m asked' next'' hname' hasked
  obtain rfl := (hname.unique hname').2.1
  obtain rfl := (henc.nameAt.unique hasked).2.1
  constructor
  · rintro rfl l hl
    refine ⟨(henc.plain l hl).2.2,fun hb => name.noNul ?_⟩
    rw [← henc.text]
    exact (mem_intercalate (by decide)).2 ⟨l,hl,hb⟩
  · intro hclean
    have hdots := dotted_eq_intercalate hname.ne_nil
    have hnul : (0 : Byte) ∉ dotted [] labels := by
      intro hb
      rw [hdots] at hb
      obtain ⟨l,hl,hbl⟩ := (mem_intercalate (by decide)).1 hb
      exact (hclean l hl).2 hbl
    have hsame : List.intercalate [0x2e] labels = List.intercalate [0x2e] asked := by
      have hread := readString_terminated hnul
      rw [readString,if_pos (by simp)] at hread
      rw [Except.ok.inj hread,hdots] at htext
      rw [htext,henc.text]
    refine labels_eq_of_intercalate (fun l hl => (hclean l hl).1) (fun l hl => (henc.plain l hl).2.2)
      ?_ henc.nonempty hsame
    rintro rfl
    exact henc.nonempty (labels_nil_of_text (fun l hl => (henc.plain l hl).1) hsame.symm)

theorem question_asked_m7a :
    (∃ n labels next,NameAt (m7aResponse (wireName m7aLabels)) n dnsHeaderSize labels next) ∧
    (∃ n asked next,NameAt m7aQuery.message n dnsHeaderSize asked next) ∧
    ∀ n labels next m asked next',
      NameAt (m7aResponse (wireName m7aLabels)) n dnsHeaderSize labels next →
      NameAt m7aQuery.message m dnsHeaderSize asked next' →
      (labels = asked ↔ ∀ l ∈ labels,(0x2e : Byte) ∉ l ∧ (0 : Byte) ∉ l) :=
  question_asked_iff dnsQueryEncode_m7a dnsResponseParse_m7a

/-- A question of the one label "m7a.test" is accepted in the place of "m7a" and "test". -/
theorem dotted_label_accepted :
    dnsQueryEncode ⟨0,[],0⟩ 0x1234 m7aName.bytes = .ok (.ok,m7aQuery) ∧
    dnsResponseParse (m7aResponse (wireName [m7aName.bytes])) 0x1234 m7aName.bytes 0 =
      .ok (.ok,0xc0a86401) ∧
    NameAt (m7aResponse (wireName [m7aName.bytes])) 2 dnsHeaderSize [m7aName.bytes] 22 ∧
    NameAt m7aQuery.message 3 dnsHeaderSize m7aLabels 22 ∧ [m7aName.bytes] ≠ m7aLabels := by
  refine ⟨dnsQueryEncode_m7a,by decide +kernel,?_,nameAt_of_holds m7aLabels_plain (by decide),by decide⟩
  exact .label (l := m7aName.bytes) (by decide) (.root (by decide))

end Dns
end QuardStarNet
