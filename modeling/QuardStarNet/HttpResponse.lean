import QuardStarNet.NetBase

/-! Validation of an HTTP response. Reads outside the response or the expected body and signed
overflow are faults of the model; the sums that are not checked stay below the length. -/
namespace QuardStarNet
namespace Http

inductive Fault
  | read | overflow | fuel
  deriving DecidableEq

/-- The result of an operation on `int`. -/
def int32 (x : ℤ) : Except Fault ℤ :=
  if -2147483648 ≤ x ∧ x < 2147483648 then .ok x else .error .overflow

def readByte (data : List Byte) (i : ℕ) : Except Fault Byte :=
  match data[i]? with
  | some b => .ok b
  | none => .error .read

/-- `http_equal`; a pointer is the list of the bytes from it on. -/
def httpEqual : ℕ → List Byte → List Byte → Except Fault Bool
  | 0,_,_ => .ok true
  | n+1,a :: left,b :: right => if a ≠ b then .ok false else httpEqual n left right
  | _+1,_,_ => .error .read

def findRounds (data : List Byte) (length : ℕ) (needle : List Byte) : ℕ → ℕ → Except Fault (Option ℕ)
  | 0,_ => .error .fuel
  | n+1,index => do
    let last ← int32 (index+needle.length)
    if last ≤ length then
      if ← httpEqual needle.length (data.drop index) needle then .ok (some index)
      else findRounds data length needle n (index+1)
    else .ok none

/-- `http_find`; `none` is the result -1. -/
def httpFind (data : List Byte) (length : ℕ) (needle : List Byte) (start : ℕ) :
    Except Fault (Option ℕ) :=
  findRounds data length needle (length+2) start

def text (cs : List Char) : List Byte := cs.map fun c => BitVec.ofNat 8 c.toNat

def crlf : List Byte := [0x0d,0x0a]

def status : List Byte :=
  text ['H','T','T','P','/','1','.','0',' ','2','0','0',' ','O','K'] ++ crlf

/-- "Content-Length:". -/
def lengthHeader : List Byte :=
  text ['C','o','n','t','e','n','t','-','L','e','n','g','t','h',':']

/-- The loop over the spaces before a value. -/
def skipSpaces (data : List Byte) (lineEnd : ℕ) : ℕ → ℕ → Except Fault ℕ
  | 0,_ => .error .fuel
  | n+1,valueStart =>
    if valueStart < lineEnd then do
      let c ← readByte data valueStart
      if c = 0x20 then skipSpaces data lineEnd n (valueStart+1) else .ok valueStart
    else .ok valueStart

/-- A loop of `http_response_validate` returns from it or leaves a value behind. -/
inductive Result
  | error (code : NetErr)
  | value (v : ℤ)
  deriving DecidableEq

/-- The loop over the digits of a value. -/
def readDigits (data : List Byte) (valueEnd : ℕ) : ℕ → ℕ → ℤ → Except Fault Result
  | 0,_,_ => .error .fuel
  | n+1,valueStart,value =>
    if valueStart < valueEnd then do
      let c ← readByte data valueStart
      if c < 0x30 ∨ 0x39 < c then .ok (.error .format)
      else do
        let value ← int32 (value*10)
        let value ← int32 (value+c.toNat)
        let value ← int32 (value-0x30)
        if value < 0 then .ok (.error .size)
        else readDigits data valueEnd n (valueStart+1) value
    else .ok (.value value)

/-- The value of a "Content-Length:" line that starts at `lineStart`. -/
def readLength (data : List Byte) (lineStart lineEnd : ℕ) : Except Fault Result := do
  let valueStart ← skipSpaces data lineEnd (lineEnd+1) (lineStart+lengthHeader.length)
  if valueStart = lineEnd then .ok (.error .format)
  else readDigits data lineEnd (lineEnd+1) valueStart 0

/-- The loop over the header lines. -/
def headerRounds (data : List Byte) (headerEnd : ℕ) : ℕ → ℕ → ℤ → ℕ → Except Fault Result
  | 0,_,_,_ => .error .fuel
  | n+1,lineStart,contentLength,headerCount =>
    if lineStart < headerEnd then do
      match ← httpFind data (headerEnd+2) crlf lineStart with
      | none => .ok (.error .format)
      | some lineEnd =>
        if lineEnd = lineStart then
          headerRounds data headerEnd n (lineStart+2) contentLength headerCount
        else if lineEnd-lineStart ≤ lengthHeader.length then
          headerRounds data headerEnd n (lineEnd+2) contentLength headerCount
        else if ← httpEqual lengthHeader.length (data.drop lineStart) lengthHeader then
          if headerCount+1 ≠ 1 then .ok (.error .format)
          else do
            match ← readLength data lineStart lineEnd with
            | .error code => .ok (.error code)
            | .value v => headerRounds data headerEnd n (lineEnd+2) v (headerCount+1)
        else headerRounds data headerEnd n (lineEnd+2) contentLength headerCount
    else .ok (.value contentLength)

/-- `http_response_validate` on `data` of its whole length. -/
def httpResponseValidate (data expectedBody : List Byte) (expectedLength : ℤ) : Except Fault NetErr :=
  if data.length < status.length then .ok .param
  else do
    if ← httpEqual status.length data status then
      match ← httpFind data data.length (crlf ++ crlf) status.length with
      | none => .ok .size
      | some headerEnd => do
        match ← headerRounds data headerEnd (headerEnd+1) status.length (-1) 0 with
        | .error code => .ok code
        | .value contentLength =>
          if contentLength < 0 ∨ contentLength ≠ expectedLength then .ok .format
          else if (data.length : ℤ)-(headerEnd+4) ≠ contentLength then .ok .size
          else if ← httpEqual contentLength.toNat (data.drop (headerEnd+4)) expectedBody then .ok .ok
          else .ok .format
    else .ok .format

variable {data needle l : List Byte} {length start i n : ℕ}

theorem ok_bind {α β : Type} (a : α) (f : α → Except Fault β) : (Except.ok a >>= f) = f a := rfl

theorem error_bind {α β : Type} (e : Fault) (f : α → Except Fault β) :
    ((Except.error e : Except Fault α) >>= f) = .error e := rfl

theorem int32_of_bounds {x : ℤ} (h : -2147483648 ≤ x) (h' : x < 2147483648) : int32 x = .ok x :=
  if_pos ⟨h,h'⟩

theorem int32_of_large {x : ℤ} (h : 2147483648 ≤ x) : int32 x = .error .overflow :=
  if_neg (by omega)

/-! ### Searching -/

theorem httpEqual_eq {left right : List Byte} (hl : n ≤ left.length) (hr : n ≤ right.length) :
    httpEqual n left right = .ok (decide (left.take n = right.take n)) := by
  induction n generalizing left right with
  | zero => rfl
  | succ n ih =>
    cases left with
    | nil => simp at hl
    | cons a left =>
      cases right with
      | nil => simp at hr
      | cons b right =>
        rw [httpEqual,ih (by simpa using hl) (by simpa using hr)]
        by_cases hab : a = b <;> simp [hab]

theorem httpEqual_isPrefixOf (h : needle.length ≤ l.length) :
    httpEqual needle.length l needle = .ok (decide (needle <+: l)) := by
  rw [httpEqual_eq h le_rfl,List.take_length]
  congr 2
  rw [List.prefix_iff_eq_take]
  exact propext eq_comm

/-- Where a string first occurs in another. -/
def offset (needle : List Byte) : List Byte → Option ℕ
  | [] => none
  | b :: l => if needle <+: b :: l then some 0 else (offset needle l).map (·+1)

theorem offset_of_short (h : l.length < needle.length) : offset needle l = none := by
  induction l with
  | nil => rfl
  | cons b l ih =>
    rw [offset,if_neg fun hp => by have := hp.length_le; omega,ih (by simp at h; omega)]
    rfl

theorem offset_some (h : offset needle l = some i) : needle <+: l.drop i := by
  induction l generalizing i with
  | nil => cases h
  | cons b l ih =>
    rw [offset] at h
    split at h
    · cases h
      assumption
    · obtain ⟨j,hj,rfl⟩ := Option.map_eq_some_iff.1 h
      exact ih hj

/-- An occurrence is found again in every prefix that reaches to its end. -/
theorem offset_take (hneedle : needle ≠ []) :
    offset needle (l.take n) = (offset needle l).filter (·+needle.length ≤ n) := by
  have hpos := List.length_pos_iff.2 hneedle
  induction l generalizing n with
  | nil => simp [offset]
  | cons b l ih =>
    by_cases hfits : needle.length ≤ n
    · obtain ⟨n,rfl⟩ : ∃ m,n = m+1 := ⟨n-1,by omega⟩
      have hstarts : needle <+: b :: l.take n ↔ needle <+: b :: l := by
        rw [← List.take_succ_cons,List.prefix_take_iff,and_iff_left hfits]
      rw [List.take_succ_cons,offset,offset,ih]
      by_cases hp : needle <+: b :: l
      · rw [if_pos (hstarts.2 hp),if_pos hp,Option.filter_some,if_pos (by simpa using hfits)]
      · rw [if_neg (mt hstarts.1 hp),if_neg hp]
        cases offset needle l with
        | none => rfl
        | some j => simp [Option.filter,Nat.add_right_comm j 1]
    · rw [offset_of_short (by rw [List.length_take]; omega)]
      cases h : offset needle (b :: l) with
      | none => rfl
      | some j => simp [Option.filter]; omega

theorem httpFind_eq (hlen : length ≤ data.length) (hmax : length < 2147483648)
    (hneedle : needle ≠ []) (hs : start+needle.length < 2147483648) :
    httpFind data length needle start =
      match offset needle ((data.take length).drop start) with
      | some j => .ok (some (start+j))
      | none => if length = 2147483647 then .error .overflow else .ok none := by
  have hpos := List.length_pos_iff.2 hneedle
  have hgen : ∀ rounds start,0 < rounds → length < start+rounds →
      (start+needle.length < 2147483648 ∨ start+needle.length = length+1) →
      findRounds data length needle rounds start =
        match offset needle ((data.take length).drop start) with
        | some j => .ok (some (start+j))
        | none => if length = 2147483647 then .error .overflow else .ok none := by
    intro rounds
    induction rounds with
    | zero => omega
    | succ rounds ih =>
      intro start _ hr hs
      have hwin : ((data.take length).drop start).length = length-start := by
        rw [List.length_drop,List.length_take_of_le hlen]
      rw [findRounds]
      by_cases hin : start+needle.length ≤ length
      · have hstarts : needle <+: data.drop start ↔ needle <+: (data.take length).drop start := by
          rw [List.drop_take,List.prefix_take_iff,and_iff_left (by omega)]
        rw [int32_of_bounds (by omega) (by omega),ok_bind,if_pos (by omega),
          httpEqual_isPrefixOf (by rw [List.length_drop]; omega),ok_bind,ih (start+1) (by omega) (by omega) (by omega)]
        have hcons := List.drop_eq_getElem_cons
          (by rw [List.length_take]; omega : start < (data.take length).length)
        rw [hcons] at hstarts ⊢
        rw [offset]
        by_cases hm : needle <+: data.drop start
        · rw [if_pos (hstarts.1 hm),if_pos (by simpa using hm)]
          rfl
        · rw [if_neg (mt hstarts.2 hm),if_neg (by simpa using hm)]
          cases offset needle ((data.take length).drop (start+1)) with
          | none => rfl
          | some j => simp [Nat.add_assoc,Nat.add_comm 1]
      · rw [offset_of_short (by omega)]
        by_cases hbig : start+needle.length < 2147483648
        · rw [int32_of_bounds (by omega) (by omega),ok_bind,if_neg (by omega),if_neg (by omega)]
        · rw [int32_of_large (by omega),if_pos (by omega)]
          rfl
  exact hgen _ _ (by omega) (by omega) (.inl hs)

/-! ### Lines -/

/-- Lines, each behind the end of the one before. -/
def joinLines (lines : List (List Byte)) : List Byte := lines.flatMap (· ++ crlf)

/-- A line holds no line end. -/
def IsLine (l : List Byte) : Prop := ¬crlf <:+: l

theorem joinLines_cons (l : List Byte) (lines : List (List Byte)) :
    joinLines (l :: lines) = l ++ (crlf ++ joinLines lines) := by
  simp [joinLines]

theorem isLine_nil : IsLine [] := by
  intro h
  simpa [crlf] using List.eq_nil_of_infix_nil h

/-- A byte goes before a line, unless both together make a line end. -/
theorem isLine_cons {b : Byte} : IsLine (b :: l) ↔ ¬crlf <+: b :: l ∧ IsLine l := by
  rw [IsLine,List.infix_cons_iff,not_or,IsLine]

/-- The first line end behind the start of a line is its own. -/
theorem offset_line (hl : IsLine l) (post : List Byte) :
    offset crlf (l ++ (crlf ++ post)) = some l.length := by
  induction l with
  | nil => exact if_pos (List.prefix_append crlf post)
  | cons b l ih =>
    obtain ⟨hb,hl⟩ := isLine_cons.1 hl
    have hno : ¬crlf <+: b :: (l ++ (crlf ++ post)) := by
      cases l with
      | nil => simp [crlf]
      | cons c l => simpa [crlf] using hb
    rw [List.cons_append,offset,if_neg hno,ih hl]
    rfl

theorem joinLines_inj {lines lines' : List (List Byte)} (hl : ∀ l ∈ lines,IsLine l)
    (hl' : ∀ l ∈ lines',IsLine l) (h : joinLines lines = joinLines lines') : lines = lines' := by
  induction lines generalizing lines' with
  | nil =>
    cases lines' with
    | nil => rfl
    | cons l' lines' => simp [joinLines,crlf] at h
  | cons l lines ih =>
    cases lines' with
    | nil => simp [joinLines,crlf] at h
    | cons l' lines' =>
      rw [List.forall_mem_cons] at hl hl'
      rw [joinLines_cons,joinLines_cons] at h
      have hlen : l.length = l'.length := by
        have hoff := offset_line hl.1 (joinLines lines)
        rw [h,offset_line hl'.1] at hoff
        exact (Option.some.inj hoff).symm
      obtain ⟨rfl,hrest⟩ := List.append_inj h hlen
      rw [ih hl.2 hl'.2 (List.append_cancel_left hrest)]

/-- Every text that ends with a line end is made of lines. -/
theorem exists_lines : ∀ body : List Byte,
    ∃ lines,joinLines lines = body ++ crlf ∧ ∀ l ∈ lines,IsLine l
  | [] => ⟨[[]],rfl,by simpa using isLine_nil⟩
  | [b] => ⟨[[b]],rfl,by simpa [isLine_cons,isLine_nil] using by simp [crlf]⟩
  | b :: c :: body => by
    by_cases hbc : crlf <+: b :: c :: body
    · obtain ⟨lines,hjoin,hlines⟩ := exists_lines body
      obtain ⟨rfl,rfl⟩ : 0x0d = b ∧ 0x0a = c := by simpa [crlf] using hbc
      exact ⟨[] :: lines,by rw [joinLines_cons,hjoin]; rfl,
        List.forall_mem_cons.2 ⟨isLine_nil,hlines⟩⟩
    · obtain ⟨lines,hjoin,hlines⟩ := exists_lines (c :: body)
      cases lines with
      | nil => cases hjoin
      | cons l lines =>
        rw [List.forall_mem_cons] at hlines
        rw [joinLines_cons] at hjoin
        refine ⟨(b :: l) :: lines,by rw [joinLines_cons,List.cons_append,hjoin]; rfl,
          List.forall_mem_cons.2 ⟨isLine_cons.2 ⟨?_,hlines.1⟩,hlines.2⟩⟩
        cases l with
        | nil => simp [crlf]
        | cons x l =>
          obtain rfl := (List.cons.inj hjoin).1
          simpa [crlf] using hbc

/-! ### Values -/

def isDigit (b : Byte) : Bool := 0x30 ≤ b ∧ b ≤ 0x39

/-- The number that digits make behind a number read before. -/
def decimalFrom (value : ℕ) (digits : List Byte) : ℕ :=
  digits.foldl (fun v b => v*10+(b.toNat-0x30)) value

def decimal (digits : List Byte) : ℕ := decimalFrom 0 digits

/-- The largest number after which the digit loop has not overflowed: the character is added
before the zero is taken off. -/
def maxValue : ℕ := 2147483599

/-- What the digit loop makes of a string. -/
def digitsResult (value : ℕ) (ds : List Byte) : Except Fault Result :=
  if maxValue < decimalFrom value (ds.takeWhile isDigit) then .error .overflow
  else if ds.all isDigit then .ok (.value (decimalFrom value ds)) else .ok (.error .format)

theorem le_decimalFrom (value : ℕ) (digits : List Byte) : value ≤ decimalFrom value digits := by
  induction digits generalizing value with
  | nil => exact le_rfl
  | cons b digits ih => exact le_trans (by omega) (ih (value*10+(b.toNat-0x30)))

theorem isDigit_iff (b : Byte) : isDigit b = true ↔ 48 ≤ b.toNat ∧ b.toNat ≤ 57 := by
  simp [isDigit,BitVec.le_def]

theorem not_digit_iff (b : Byte) : (b < 0x30 ∨ 0x39 < b) ↔ isDigit b = false := by
  rw [← Bool.not_eq_true,isDigit_iff,BitVec.lt_def,BitVec.lt_def]
  simp
  omega

/-- The bytes from `i` up to `stop`, of which the next is read. -/
theorem window_cons {stop : ℕ} (hstop : stop ≤ data.length) (hi : i < stop) :
    ∃ c,readByte data i = .ok c ∧ (data.take stop).drop i = c :: (data.take stop).drop (i+1) := by
  have hlt : i < data.length := by omega
  refine ⟨data[i],by simp [readByte,hlt],?_⟩
  rw [List.drop_eq_getElem_cons (by rw [List.length_take]; omega),List.getElem_take]

theorem window_nil {stop : ℕ} (hi : stop ≤ i) : (data.take stop).drop i = [] :=
  List.drop_eq_nil_of_le (by rw [List.length_take]; omega)

theorem skipSpaces_eq {stop rounds : ℕ} (hstop : stop ≤ data.length) (hi : i ≤ stop)
    (hrounds : stop < i+rounds) :
    skipSpaces data stop rounds i =
      .ok (i+(((data.take stop).drop i).takeWhile (· = 0x20)).length) := by
  induction rounds generalizing i with
  | zero => omega
  | succ rounds ih =>
    rw [skipSpaces]
    by_cases hi : i < stop
    · obtain ⟨c,hread,hcons⟩ := window_cons hstop hi
      rw [if_pos hi,hread,ok_bind,hcons,List.takeWhile_cons]
      by_cases hc : c = 0x20
      · rw [if_pos hc,if_pos (by simpa using hc),ih (by omega) (by omega),List.length_cons]
        congr 1
        omega
      · rw [if_neg hc,if_neg (by simpa using hc)]
        rfl
    · rw [if_neg hi,window_nil (by omega)]
      rfl

theorem readDigits_eq {stop rounds value : ℕ} (hstop : stop ≤ data.length) (hi : i ≤ stop)
    (hrounds : stop < i+rounds) (hv : value ≤ maxValue) :
    readDigits data stop rounds i value = digitsResult value ((data.take stop).drop i) := by
  induction rounds generalizing i value with
  | zero => omega
  | succ rounds ih =>
    rw [readDigits]
    by_cases hi : i < stop
    · obtain ⟨c,hread,hcons⟩ := window_cons hstop hi
      rw [if_pos hi,hread,ok_bind,hcons]
      cases hc : isDigit c with
      | false =>
        rw [if_pos ((not_digit_iff c).2 hc)]
        simp [digitsResult,hc,decimalFrom,Nat.not_lt.2 hv]
      | true =>
        obtain ⟨h48,h57⟩ := (isDigit_iff c).1 hc
        have hcons' : digitsResult value (c :: (data.take stop).drop (i+1)) =
            digitsResult (value*10+(c.toNat-0x30)) ((data.take stop).drop (i+1)) := by
          simp [digitsResult,hc,decimalFrom]
        rw [if_neg (by rw [not_digit_iff,hc]; simp),hcons']
        by_cases hnext : value*10+(c.toNat-0x30) ≤ maxValue
        · rw [← ih (by omega) (by omega) hnext]
          unfold maxValue at hnext
          rw [int32_of_bounds (by omega) (by omega),ok_bind,int32_of_bounds (by omega) (by omega),
            ok_bind,int32_of_bounds (by omega) (by omega),ok_bind,if_neg (by omega)]
          congr 1
          omega
        · rw [digitsResult,if_pos (lt_of_lt_of_le (Nat.not_le.1 hnext) (le_decimalFrom _ _))]
          unfold maxValue at hnext
          by_cases hmul : value*10 < 2147483648
          · rw [int32_of_bounds (by omega) (by omega),ok_bind,int32_of_large (by omega),error_bind]
          · rw [int32_of_large (by omega),error_bind]
    · rw [if_neg hi,window_nil (by omega)]
      simp [digitsResult,decimalFrom,Nat.not_lt.2 hv]

/-- What is made of the text behind "Content-Length:". -/
def valueResult (text : List Byte) : Except Fault Result :=
  if text.dropWhile (· = 0x20) = [] then .ok (.error .format)
  else digitsResult 0 (text.dropWhile (· = 0x20))

theorem readLength_eq {lineEnd : ℕ} (h : lineEnd ≤ data.length)
    (hi : i+lengthHeader.length ≤ lineEnd) :
    readLength data i lineEnd =
      valueResult ((data.take lineEnd).drop (i+lengthHeader.length)) := by
  have hskip := @skipSpaces_eq data (i+lengthHeader.length) lineEnd (lineEnd+1) h hi (by omega)
  have hlen : ((data.take lineEnd).drop (i+lengthHeader.length)).length =
      lineEnd-(i+lengthHeader.length) := by
    rw [List.length_drop,List.length_take_of_le h]
  have hsplit := List.takeWhile_append_dropWhile (p := fun b : Byte => b = 0x20)
    (l := (data.take lineEnd).drop (i+lengthHeader.length))
  have hsum := congrArg List.length hsplit
  rw [List.length_append,hlen] at hsum
  rw [readLength,hskip,ok_bind,valueResult]
  by_cases hd : ((data.take lineEnd).drop (i+lengthHeader.length)).dropWhile (· = 0x20) = []
  · rw [hd,List.length_nil] at hsum
    rw [if_pos hd,if_pos (by omega)]
  · have hpos := List.length_pos_iff.2 hd
    have hdrop := congrArg (List.drop (((data.take lineEnd).drop
      (i+lengthHeader.length)).takeWhile (· = 0x20)).length) hsplit
    rw [List.drop_left,List.drop_drop] at hdrop
    rw [if_neg hd,if_neg (by omega),hdrop]
    exact readDigits_eq h (by omega) (by omega) (Nat.zero_le maxValue)

/-! ### The header -/

/-- A line that is read as the length of the body. -/
def isLengthLine (l : List Byte) : Bool :=
  decide (lengthHeader.length < l.length ∧ lengthHeader <+: l)

/-- The loop over the header lines, as a function of the lines. -/
def processLines : List (List Byte) → ℤ → ℕ → Except Fault Result
  | [],contentLength,_ => .ok (.value contentLength)
  | l :: lines,contentLength,headerCount =>
    if isLengthLine l then
      if headerCount ≠ 0 then .ok (.error .format)
      else do
        match ← valueResult (l.drop lengthHeader.length) with
        | .error code => .ok (.error code)
        | .value v => processLines lines v (headerCount+1)
    else processLines lines contentLength headerCount

theorem headerRounds_eq {lines : List (List Byte)} (hlines : ∀ l ∈ lines,IsLine l)
    {headerEnd rounds : ℕ} (hend : headerEnd+2 ≤ data.length) (hmax : data.length < 2147483648)
    (hwin : (data.take (headerEnd+2)).drop start = joinLines lines) (hrounds : lines.length < rounds)
    (cl : ℤ) (count : ℕ) :
    headerRounds data headerEnd rounds start cl count = processLines lines cl count := by
  have hwlen := congrArg List.length hwin
  rw [List.length_drop,List.length_take_of_le hend] at hwlen
  have hcrlf : crlf.length = 2 := rfl
  induction lines generalizing start rounds cl count with
  | nil =>
    obtain ⟨rounds,rfl⟩ : ∃ m,rounds = m+1 := ⟨rounds-1,by omega⟩
    rw [joinLines,List.flatMap_nil,List.length_nil] at hwlen
    rw [headerRounds,if_neg (by omega),processLines]
  | cons l lines ih =>
    obtain ⟨rounds,rfl⟩ : ∃ m,rounds = m+1 := ⟨rounds-1,by omega⟩
    rw [List.forall_mem_cons] at hlines
    rw [joinLines_cons] at hwin hwlen
    rw [List.length_append,List.length_append,hcrlf] at hwlen
    -- the line, and the lines behind it
    have hline : (data.drop start).take l.length = l := by
      have htake := congrArg (List.take l.length) hwin
      rw [List.take_left,List.drop_take,List.take_take,Nat.min_eq_left (by omega)] at htake
      exact htake
    have hrest : (data.take (headerEnd+2)).drop (start+l.length+2) = joinLines lines := by
      rw [Nat.add_assoc,← List.drop_drop,hwin,← List.drop_drop,List.drop_left]
      rfl
    have hnext (v : ℤ) (k : ℕ) : headerRounds data headerEnd rounds (start+l.length+2) v k =
        processLines lines v k := by
      refine ih hlines.2 hrest (by simpa using hrounds) v k ?_
      rw [← hrest,List.length_drop,List.length_take_of_le hend]
    rw [headerRounds,processLines]
    by_cases hin : start < headerEnd
    · have hfind : httpFind data (headerEnd+2) crlf start = .ok (some (start+l.length)) := by
        rw [httpFind_eq hend (by omega) (by simp [crlf]) (by omega),hwin,offset_line hlines.1]
      rw [if_pos hin,hfind,ok_bind]
      dsimp only
      by_cases hshort : l.length ≤ lengthHeader.length
      · have hno : ¬isLengthLine l = true := by
          rw [isLengthLine,decide_eq_true_eq]
          omega
        rw [if_neg hno,Nat.add_sub_cancel_left,if_pos hshort,hnext]
        by_cases hempty : start+l.length = start
        · rw [if_pos hempty,← hnext cl count,hempty]
        · rw [if_neg hempty]
      · have hheader : isLengthLine l = decide (lengthHeader <+: data.drop start) := by
          have hp : lengthHeader <+: l ↔
              lengthHeader <+: data.drop start ∧ lengthHeader.length ≤ l.length := by
            rw [← List.prefix_take_iff,hline]
          exact decide_eq_decide.2 ⟨fun h => (hp.1 h.2).1,fun h =>
            ⟨by omega,hp.2 ⟨h,by omega⟩⟩⟩
        rw [if_neg (show ¬start+l.length = start by omega),Nat.add_sub_cancel_left,if_neg hshort,
          httpEqual_isPrefixOf (by rw [List.length_drop]; omega),ok_bind,← hheader]
        by_cases hyes : isLengthLine l = true
        · rw [if_pos hyes,if_pos hyes]
          by_cases hcount : count = 0
          · subst hcount
            have hvalue : (data.take (start+l.length)).drop (start+lengthHeader.length) =
                l.drop lengthHeader.length := by
              rw [← List.drop_drop,List.drop_take,Nat.add_sub_cancel_left,hline]
            rw [if_neg (by simp),if_neg (by simp),readLength_eq (by omega) (by omega),hvalue]
            simp only [hnext]
          · rw [if_pos (show count+1 ≠ 1 by omega),if_pos hcount]
        · rw [if_neg hyes,if_neg hyes,hnext]
    · -- the window is no longer than a line end
      have hl0 : l = [] := List.length_eq_zero_iff.1 (by omega)
      have hlines0 : lines = [] := by
        cases lines with
        | nil => rfl
        | cons l' lines =>
          rw [joinLines_cons,List.length_append,List.length_append,hcrlf] at hwlen
          omega
      subst hl0 hlines0
      rw [if_neg hin]
      rfl

end Http
end QuardStarNet
