import QuardStarNet.HttpResponse

/-! The header of a response as its lines, and what `http_response_validate` decides from them: when
it overflows, when an accepted response is valid, and what it says of a response that has not
arrived whole. -/
namespace QuardStarNet
namespace Http

/-- The response starts with the status line and header lines up to the first empty one; `rest`
follows it. -/
structure Header (data : List Byte) (lines : List (List Byte)) (rest : List Byte) : Prop where
  whole : data = status ++ (joinLines lines ++ (crlf ++ rest))
  isLine : ∀ l ∈ lines,IsLine l
  first : ∃ k,offset (crlf ++ crlf) (joinLines lines ++ (crlf ++ rest)) = some k ∧
    k+2 = (joinLines lines).length

variable {data rest rest' body : List Byte} {lines lines' : List (List Byte)} {k m : ℕ} {expected : ℤ}

theorem Header.unique (h : Header data lines rest) (h' : Header data lines' rest') :
    lines = lines' ∧ rest = rest' := by
  obtain ⟨hw,hl,k,hk,hlen⟩ := h
  obtain ⟨hw',hl',k',hk',hlen'⟩ := h'
  have heq := List.append_cancel_left (hw.symm.trans hw')
  rw [heq,hk'] at hk
  obtain ⟨hjoin,hrest⟩ := List.append_inj heq (by have := Option.some.inj hk; omega)
  exact ⟨joinLines_inj hl hl' hjoin,List.append_cancel_left hrest⟩

theorem Header.status_prefix (h : Header data lines rest) : status <+: data :=
  ⟨_,h.whole.symm⟩

theorem Header.length (h : Header data lines rest) :
    data.length = status.length+(joinLines lines).length+2+rest.length := by
  have hcrlf : crlf.length = 2 := rfl
  rw [h.whole,List.length_append,List.length_append,List.length_append]
  omega

/-- The first empty line that the search finds closes the header. -/
theorem header_of_offset (hs : status <+: data)
    (h : offset (crlf ++ crlf) (data.drop status.length) = some k) :
    ∃ lines rest,Header data lines rest := by
  obtain ⟨tail,rfl⟩ := hs
  rw [List.drop_left] at h
  obtain ⟨rest,hrest⟩ := offset_some h
  obtain ⟨lines,hjoin,hlines⟩ := exists_lines (tail.take k)
  have htail : joinLines lines ++ (crlf ++ rest) = tail := by
    rw [hjoin,List.append_assoc,← List.append_assoc crlf,hrest,List.take_append_drop]
  refine ⟨lines,rest,by rw [htail],hlines,k,by rw [htail,h],?_⟩
  have hlen := congrArg List.length hrest
  simp only [crlf,List.length_append,List.length_cons,List.length_nil,List.length_drop] at hlen
  rw [hjoin,List.length_append,List.length_take_of_le (by omega)]
  rfl

/-! ### The verdict -/

/-- The end of `http_response_validate`, for the `rest` of the data behind the header. -/
def verdict (rest body : List Byte) (expected : ℤ) : Result → Except Fault NetErr
  | .error code => .ok code
  | .value contentLength =>
    if contentLength < 0 ∨ contentLength ≠ expected then .ok .format
    else if (rest.length : ℤ) ≠ contentLength then .ok .size
    else do
      if ← httpEqual contentLength.toNat rest body then .ok .ok else .ok .format

theorem validate_status (h : status.length ≤ data.length) (hs : ¬status <+: data) :
    httpResponseValidate data body expected = .ok .format := by
  rw [httpResponseValidate,if_neg (Nat.not_lt.2 h),httpEqual_isPrefixOf h,ok_bind,
    if_neg (by simpa using hs)]

theorem httpFind_empty (hmax : data.length < 2147483648) :
    httpFind data data.length (crlf ++ crlf) status.length =
      match offset (crlf ++ crlf) (data.drop status.length) with
      | some j => .ok (some (status.length+j))
      | none => if data.length = 2147483647 then .error .overflow else .ok none := by
  rw [httpFind_eq le_rfl hmax (by simp [crlf]) (by decide),List.take_length] <;> rfl

/-- A response without an empty line asks for more, but for the overflow at the largest length. -/
theorem validate_open (hs : status <+: data) (hmax : data.length < 2147483648)
    (h : offset (crlf ++ crlf) (data.drop status.length) = none) :
    httpResponseValidate data body expected =
      if data.length = 2147483647 then .error .overflow else .ok .size := by
  rw [httpResponseValidate,if_neg (Nat.not_lt.2 hs.length_le),httpEqual_isPrefixOf hs.length_le,ok_bind,
    if_pos (by simpa using hs),httpFind_empty hmax,h]
  dsimp only
  split <;> rfl

theorem length_le_joinLines (lines : List (List Byte)) : lines.length ≤ (joinLines lines).length := by
  induction lines with
  | nil => simp
  | cons l lines ih =>
    rw [joinLines_cons,List.length_append,List.length_append,List.length_cons]
    have hcrlf : crlf.length = 2 := rfl
    omega

theorem validate_header (h : Header data lines rest) (hmax : data.length < 2147483648) :
    httpResponseValidate data body expected =
      processLines lines (-1) 0 >>= verdict rest body expected := by
  have hs := h.status_prefix
  have hlen := h.length
  have hcount := length_le_joinLines lines
  have hcrlf : crlf.length = 2 := rfl
  have hstatus : status.length = 17 := rfl
  obtain ⟨k,hk,hend⟩ := h.first
  have htail : data.drop status.length = joinLines lines ++ (crlf ++ rest) := by
    rw [h.whole,List.drop_left]
  have hwin : (data.take (status.length+k+2)).drop status.length = joinLines lines := by
    rw [List.drop_take,htail,Nat.add_assoc,Nat.add_sub_cancel_left,hend,List.take_left]
  have hrest : data.drop (status.length+k+4) = rest := by
    rw [Nat.add_assoc,← List.drop_drop,htail,show k+4 = (joinLines lines).length+crlf.length by omega,
      ← List.drop_drop,List.drop_left,List.drop_left]
  have hsub : (data.length : ℤ)-((status.length+k : ℕ)+4) = rest.length := by omega
  rw [httpResponseValidate,if_neg (Nat.not_lt.2 hs.length_le),httpEqual_isPrefixOf hs.length_le,ok_bind,
    if_pos (by simpa using hs),httpFind_empty hmax,htail,hk,ok_bind]
  dsimp only
  rw [headerRounds_eq h.isLine (by omega) hmax hwin (by omega),hrest,hsub]
  congr 1

/-- The lines that are read as the length decide what the loop over the header lines does. -/
theorem processLines_eq (lines : List (List Byte)) (cl : ℤ) :
    processLines lines cl 0 =
      match lines.filter isLengthLine with
      | [] => .ok (.value cl)
      | l :: more => valueResult (l.drop lengthHeader.length) >>= fun r =>
        .ok (match r with
          | .error code => .error code
          | .value v => if more = [] then .value v else .error .format) := by
  have hlater (lines : List (List Byte)) (v : ℤ) : processLines lines v (0+1) =
      .ok (if lines.filter isLengthLine = [] then .value v else .error .format) := by
    induction lines with
    | nil => rfl
    | cons l lines ih =>
      rw [processLines,ih]
      by_cases hl : isLengthLine l = true <;> simp [hl]
  induction lines with
  | nil => rfl
  | cons l lines ih =>
    rw [processLines,ih]
    by_cases hl : isLengthLine l = true
    · rw [if_pos hl,if_neg (by simp),List.filter_cons_of_pos hl]
      congr 1
      funext r
      cases r with
      | error code => rfl
      | value v => exact hlater lines v
    · rw [if_neg hl,List.filter_cons_of_neg hl]

theorem valueResult_error {text : List Byte} {code : NetErr}
    (h : valueResult text = .ok (.error code)) : code = .format := by
  rw [valueResult,digitsResult] at h
  split at h
  · cases h
    rfl
  · split at h
    · cases h
    · split at h <;> cases h
      rfl

theorem processLines_error {cl : ℤ} {code : NetErr} (h : processLines lines cl 0 = .ok (.error code)) :
    code = .format := by
  rw [processLines_eq] at h
  split at h
  · cases h
  · rename_i l more _
    cases hv : valueResult (l.drop lengthHeader.length) with
    | error e =>
      rw [hv] at h
      cases h
    | ok r =>
      rw [hv,ok_bind] at h
      cases r with
      | error code' =>
        cases h
        exact valueResult_error hv
      | value v =>
        dsimp only at h
        split at h <;> cases h
        rfl

/-- What is known of a response that is accepted. -/
theorem accepted (hmax : data.length < 2147483648)
    (h : httpResponseValidate data body expected = .ok .ok) :
    ∃ lines rest,Header data lines rest ∧ processLines lines (-1) 0 = .ok (.value rest.length) ∧
      expected = rest.length ∧ httpEqual rest.length rest body = .ok true := by
  by_cases hlen : data.length < status.length
  · rw [httpResponseValidate,if_pos hlen] at h
    cases h
  by_cases hs : status <+: data
  · cases hk : offset (crlf ++ crlf) (data.drop status.length) with
    | none =>
      rw [validate_open hs hmax hk] at h
      split at h <;> cases h
    | some k =>
      obtain ⟨lines,rest,hh⟩ := header_of_offset hs hk
      rw [validate_header hh hmax] at h
      refine ⟨lines,rest,hh,?_⟩
      cases hp : processLines lines (-1) 0 with
      | error e =>
        rw [hp] at h
        cases h
      | ok r =>
        rw [hp,ok_bind] at h
        cases r with
        | error code =>
          cases h
          cases processLines_error hp
        | value v =>
          rw [verdict] at h
          split at h
          · cases h
          split at h
          · cases h
          rename_i hne hlen
          obtain rfl : v = rest.length := by omega
          refine ⟨rfl,by omega,?_⟩
          rw [Int.toNat_natCast] at h
          cases he : httpEqual rest.length rest body with
          | error e =>
            rw [he] at h
            cases h
          | ok b =>
            cases b with
            | false =>
              rw [he] at h
              cases h
            | true => rfl
  · rw [validate_status (Nat.not_lt.1 hlen) hs] at h
    cases h

/-! ### Responses that have not arrived whole -/

/-- The header is found in every prefix that reaches behind it. -/
theorem Header.take (h : Header data lines rest)
    (hm : status.length+(joinLines lines).length+2 ≤ m) :
    Header (data.take m) lines (rest.take (m-(status.length+(joinLines lines).length+2))) := by
  have hcrlf : crlf.length = 2 := rfl
  have hempty : (crlf ++ crlf).length = 4 := rfl
  obtain ⟨hw,hl,k,hk,hend⟩ := h
  have htail : (joinLines lines ++ (crlf ++ rest)).take (m-status.length) =
      joinLines lines ++ (crlf ++ rest.take (m-(status.length+(joinLines lines).length+2))) := by
    rw [List.take_append,List.take_of_length_le (by omega),List.take_append,
      List.take_of_length_le (by omega),Nat.sub_sub,Nat.sub_sub,hcrlf,
      ← Nat.add_assoc]
  refine ⟨?_,hl,k,?_,hend⟩
  · rw [hw,List.take_append,List.take_of_length_le (by omega),htail]
  · rw [← htail,offset_take (by simp [crlf]),hk,Option.filter_some,hempty,if_pos]
    rw [decide_eq_true_eq]
    omega

/-- A prefix of an accepted response asks for more, once it holds the status line. -/
theorem validate_take (hmax : data.length < 2147483648)
    (hok : httpResponseValidate data body expected = .ok .ok) (hm : m < data.length) :
    httpResponseValidate (data.take m) body expected =
      .ok (if m < status.length then .param else .size) := by
  have hlen : (data.take m).length = m := List.length_take_of_le (by omega)
  obtain ⟨lines,rest,h,hlines,rfl,-⟩ := accepted hmax hok
  by_cases hstatus : m < status.length
  · rw [httpResponseValidate,if_pos (by omega),if_pos hstatus]
  have hs : status <+: data.take m := List.prefix_take_iff.2 ⟨h.status_prefix,by omega⟩
  rw [if_neg hstatus]
  by_cases hreach : status.length+(joinLines lines).length+2 ≤ m
  · have hrest : (rest.take (m-(status.length+(joinLines lines).length+2))).length ≠ rest.length := by
      have := h.length
      rw [List.length_take]
      omega
    rw [validate_header (h.take hreach) (by omega),hlines,ok_bind,verdict,if_neg (by omega),
      if_pos (by exact_mod_cast hrest)]
  · have hnone : offset (crlf ++ crlf) ((data.take m).drop status.length) = none := by
      obtain ⟨k,hk,hend⟩ := h.first
      rw [List.drop_take,h.whole,List.drop_left,offset_take (by simp [crlf]),hk,Option.filter_some,
        if_neg]
      simp [crlf]
      omega
    rw [validate_open hs (by omega) hnone,if_neg (by omega)]

/-- The receive loop of `m7b_http_get` with its buffer of 512 bytes, up to the test for a full
buffer; `chunks` are what `sys_recv` returns. -/
def receive (body : List Byte) (expected : ℤ) : List (List Byte) → List Byte → Except Fault Bool
  | [],_ => .ok false
  | chunk :: chunks,response =>
    if 512 ≤ response.length ∨ chunk = [] then .ok false
    else do
      let response := response ++ chunk
      match ← httpResponseValidate response body expected with
      | .ok => .ok (decide (response.length ≠ 512))
      | .size => receive body expected chunks response
      | _ => .ok false

theorem receive_rest (hok : httpResponseValidate data body expected = .ok .ok)
    (hlen : data.length < 512) {chunks : List (List Byte)} (hne : [] ∉ chunks)
    {response : List Byte} (hall : response ++ chunks.flatten = data) (hmore : chunks ≠ [])
    (hstatus : status.length ≤ (response ++ chunks.headD []).length) :
    receive body expected chunks response = .ok true := by
  induction chunks generalizing response with
  | nil => exact absurd rfl hmore
  | cons chunk chunks ih =>
    rw [List.flatten_cons,← List.append_assoc] at hall
    have hfull := congrArg List.length hall
    rw [List.length_append,List.length_append] at hfull
    have hchunk : chunk ≠ [] := fun h => hne (by simp [h])
    rw [receive,if_neg (by simp [hchunk]; omega)]
    dsimp only
    cases chunks with
    | nil =>
      rw [List.flatten_nil,List.append_nil] at hall
      rw [hall,hok,ok_bind]
      simp
      omega
    | cons c chunks =>
      have hc : 0 < c.length := List.length_pos_iff.2 fun h => hne (by simp [h])
      rw [List.flatten_cons,List.length_append] at hfull
      have htake : response ++ chunk = data.take (response ++ chunk).length := by
        rw [← hall,List.take_left]
      rw [htake,validate_take (by omega) hok (by rw [List.length_append]; omega),ok_bind,
        if_neg (by simpa using hstatus),← htake]
      exact ih (fun h => hne (List.mem_cons_of_mem _ h)) hall (by simp)
        (by rw [List.length_append]; simp at hstatus ⊢; omega)

/-- Prefixes of an accepted response ask for more, and the loop accepts it however it is split,
exactly when the status line has arrived whole. -/
theorem validation_incremental_iff (hmax : data.length < 2147483648)
    (hok : httpResponseValidate data body expected = .ok .ok) :
    (∀ m < data.length,httpResponseValidate (data.take m) body expected = .ok .size ↔
      status.length ≤ m) ∧
    ∀ chunk chunks,[] ∉ chunk :: chunks → chunk ++ chunks.flatten = data → data.length < 512 →
      (receive body expected (chunk :: chunks) [] = .ok true ↔ status.length ≤ chunk.length) := by
  refine ⟨fun m hm => ?_,fun chunk chunks hne hall hlen => ⟨fun h => ?_,fun h => ?_⟩⟩
  · rw [validate_take hmax hok hm]
    by_cases hshort : m < status.length
    · simp [hshort]
    · simp [hshort]
      omega
  · by_contra hshort
    obtain ⟨lines,rest,hh,-⟩ := accepted hmax hok
    have hge := hh.status_prefix.length_le
    have htake : chunk = data.take chunk.length := by rw [← hall,List.take_left]
    have hchunk : chunk ≠ [] := fun h => hne (by simp [h])
    rw [receive,if_neg (by simp [hchunk]),List.nil_append] at h
    dsimp only at h
    rw [htake,validate_take hmax hok (by omega),if_pos (by omega)] at h
    cases h
  · exact receive_rest hok hlen hne hall (by simp) (by simpa using h)

/-- "Content-Length: 2", an empty line and the body "ok". -/
def shortResponse : List Byte :=
  status ++ lengthHeader ++ text [' ','2'] ++ crlf ++ crlf ++ text ['o','k']

theorem validation_incremental_short :
    receive (text ['o','k']) 2 [shortResponse.take 20,shortResponse.drop 20] [] = .ok true :=
  ((validation_incremental_iff (by decide) (by decide +kernel : httpResponseValidate shortResponse
    (text ['o','k']) 2 = .ok .ok)).2 _ _ (by decide) (by decide +kernel) (by decide)).2 (by decide)

/-- The first ten bytes of the response are refused, and the loop gives up. -/
theorem first_segment_refused :
    httpResponseValidate shortResponse (text ['o','k']) 2 = .ok .ok ∧
      httpResponseValidate (shortResponse.take 10) (text ['o','k']) 2 = .ok .param ∧
      receive (text ['o','k']) 2 [shortResponse.take 10,shortResponse.drop 10] [] = .ok false := by
  decide +kernel

/-! ### Soundness -/

/-- The response as it should be: one line names the length of the body, which is the expected
one. -/
def Valid (data body : List Byte) (expected : ℕ) : Prop :=
  ∃ lines spaces digits,data = status ++ (joinLines lines ++ (crlf ++ body.take expected)) ∧
    (∀ l ∈ lines,IsLine l) ∧
    lines.filter (lengthHeader <+: ·) = [lengthHeader ++ (spaces ++ digits)] ∧
    (∀ c ∈ spaces,c = 0x20) ∧ digits ≠ [] ∧ digits.all isDigit ∧ decimal digits = expected

/-- The digits behind "Content-Length:" and spaces. -/
def lengthDigits (l : List Byte) : List Byte :=
  ((l.drop lengthHeader.length).dropWhile (· = 0x20)).takeWhile isDigit

/-- No sum of the validation overflows. -/
structure Bounded (data : List Byte) : Prop where
  search : status <+: data → offset (crlf ++ crlf) (data.drop status.length) = none →
    data.length ≠ 2147483647
  value : ∀ lines rest,Header data lines rest → ∀ l ∈ (lines.filter isLengthLine).head?,
    decimal (lengthDigits l) ≤ maxValue

/-- No header line is "Content-Length:" alone. -/
def NoBare (data : List Byte) : Prop :=
  ∀ lines rest,Header data lines rest → lengthHeader ∉ lines

theorem valueResult_ok_iff (l : List Byte) :
    (∃ r,valueResult (l.drop lengthHeader.length) = .ok r) ↔ decimal (lengthDigits l) ≤ maxValue := by
  rw [valueResult,lengthDigits,digitsResult,← decimal]
  split
  · rename_i h
    rw [h]
    simp [decimal,decimalFrom]
  · split
    · rename_i h
      simpa using h
    · rename_i h
      refine ⟨fun _ => Nat.not_lt.1 h,fun _ => ?_⟩
      split
      · exact ⟨_,rfl⟩
      · exact ⟨_,rfl⟩

theorem processLines_ok_iff (lines : List (List Byte)) (cl : ℤ) :
    (∃ r,processLines lines cl 0 = .ok r) ↔
      ∀ l ∈ (lines.filter isLengthLine).head?,decimal (lengthDigits l) ≤ maxValue := by
  rw [processLines_eq]
  cases lines.filter isLengthLine with
  | nil => simp
  | cons l more =>
    simp only [List.head?_cons,Option.mem_some_iff,forall_eq',← valueResult_ok_iff]
    cases valueResult (l.drop lengthHeader.length) with
    | error e => simp [error_bind]
    | ok r => simp [ok_bind]

theorem verdict_ok {expected : ℕ} (hbody : expected ≤ body.length) (rest : List Byte) (r : Result) :
    ∃ code,verdict rest body expected r = .ok code := by
  cases r with
  | error code => exact ⟨code,rfl⟩
  | value v =>
    rw [verdict]
    split
    · exact ⟨_,rfl⟩
    split
    · exact ⟨_,rfl⟩
    rw [httpEqual_eq (by omega) (by omega),ok_bind]
    split
    · exact ⟨_,rfl⟩
    · exact ⟨_,rfl⟩

/-- The validation stays inside its strings, and the sums that can overflow are those of
`Bounded`. -/
theorem validate_ok_iff (hmax : data.length < 2147483648) {expected : ℕ}
    (hbody : expected ≤ body.length) :
    (∃ code,httpResponseValidate data body expected = .ok code) ↔ Bounded data := by
  by_cases hs : status <+: data
  · cases hk : offset (crlf ++ crlf) (data.drop status.length) with
    | none =>
      have hno (lines : List (List Byte)) (rest : List Byte) : ¬Header data lines rest := by
        rintro ⟨rfl,-,k,hk',-⟩
        rw [List.drop_left,hk'] at hk
        cases hk
      rw [validate_open hs hmax hk]
      constructor
      · rintro ⟨code,h⟩
        refine ⟨fun _ _ hlen => ?_,fun lines rest hh => absurd hh (hno lines rest)⟩
        rw [if_pos hlen] at h
        cases h
      · intro h
        exact ⟨_,if_neg (h.search hs hk)⟩
    | some k =>
      obtain ⟨lines,rest,hh⟩ := header_of_offset hs hk
      have hvalue : (∃ r,processLines lines (-1) 0 = .ok r) ↔ Bounded data := by
        rw [processLines_ok_iff]
        refine ⟨fun h => ⟨fun _ hnone => ?_,fun lines' rest' hh' => ?_⟩,fun h => h.value _ _ hh⟩
        · rw [hk] at hnone
          cases hnone
        · rw [← (hh.unique hh').1]
          exact h
      rw [validate_header hh hmax,← hvalue]
      cases processLines lines (-1) 0 with
      | error e => simp [error_bind]
      | ok r => simpa [ok_bind] using verdict_ok hbody rest r
  · have hbound : Bounded data := ⟨fun h => absurd h hs,fun _ _ hh => absurd hh.status_prefix hs⟩
    refine iff_of_true ?_ hbound
    by_cases hlen : data.length < status.length
    · exact ⟨_,by rw [httpResponseValidate,if_pos hlen]⟩
    · exact ⟨_,validate_status (Nat.not_lt.1 hlen) hs⟩

/-- A line from which a length is read consists of "Content-Length:", spaces and digits. -/
theorem valueResult_value {l : List Byte} {v : ℤ} (hl : isLengthLine l = true)
    (h : valueResult (l.drop lengthHeader.length) = .ok (.value v)) :
    ∃ spaces digits,l = lengthHeader ++ (spaces ++ digits) ∧ (∀ c ∈ spaces,c = 0x20) ∧
      digits ≠ [] ∧ digits.all isDigit ∧ decimal digits = v := by
  rw [isLengthLine,decide_eq_true_eq] at hl
  obtain ⟨-,tail,rfl⟩ := hl
  rw [List.drop_left,valueResult] at h
  split at h
  · cases h
  rename_i hne
  rw [digitsResult] at h
  split at h
  · cases h
  split at h
  · rename_i hall
    cases h
    refine ⟨tail.takeWhile (· = 0x20),tail.dropWhile (· = 0x20),?_,fun c hc => ?_,hne,hall,rfl⟩
    · rw [List.takeWhile_append_dropWhile]
    · simpa using List.all_eq_true.1 List.all_takeWhile c hc
  · cases h

theorem processLines_value {n : ℕ} (h : processLines lines (-1) 0 = .ok (.value n)) :
    ∃ l,lines.filter isLengthLine = [l] ∧
      valueResult (l.drop lengthHeader.length) = .ok (.value n) := by
  rw [processLines_eq] at h
  split at h
  · injection h with h
    injection h with h
    omega
  · rename_i l more hfilter
    cases hv : valueResult (l.drop lengthHeader.length) with
    | error e =>
      rw [hv] at h
      cases h
    | ok r =>
      rw [hv,ok_bind] at h
      cases r with
      | error code => cases h
      | value v =>
        dsimp only at h
        split at h
        · rename_i hmore
          cases h
          exact ⟨l,by rw [hfilter,hmore],hv⟩
        · cases h

/-- An accepted response is valid unless a line is skipped for being too short. -/
theorem valid_iff_noBare (hmax : data.length < 2147483648) {expected : ℕ}
    (hbody : expected ≤ body.length) (h : httpResponseValidate data body expected = .ok .ok) :
    Valid data body expected ↔ NoBare data := by
  obtain ⟨lines,rest,hh,hvalue,hexp,hequal⟩ := accepted hmax h
  obtain rfl : expected = rest.length := by omega
  have hrest : body.take rest.length = rest := by
    rw [httpEqual_eq le_rfl hbody,List.take_length] at hequal
    exact (of_decide_eq_true (Except.ok.inj hequal)).symm
  obtain ⟨l,hfilter,hl⟩ := processLines_value hvalue
  have hmem : l ∈ lines.filter isLengthLine := by simp [hfilter]
  constructor
  · rintro ⟨lines',spaces,digits,hdata,hlines,hone,-,hdigits,-⟩ lines₂ rest₂ hh₂ hbare
    obtain ⟨rfl,rfl⟩ := hh.unique hh₂
    -- the header lines are those of the response
    have htail := List.append_cancel_left (hh.whole.symm.trans hdata)
    rw [hrest,← List.append_assoc,← List.append_assoc] at htail
    have hjoin := List.append_cancel_right (List.append_cancel_right htail)
    obtain rfl := joinLines_inj hh.isLine hlines hjoin
    have hmem : lengthHeader ∈ lines.filter (lengthHeader <+: ·) := by simp [hbare]
    rw [hone,List.mem_singleton] at hmem
    have hnil := List.self_eq_append_right.1 hmem
    exact hdigits (List.append_eq_nil_iff.1 hnil).2
  · intro hno
    obtain ⟨spaces,digits,rfl,hspaces,hne,hall,hdec⟩ :=
      valueResult_value (List.mem_filter.1 hmem).2 hl
    refine ⟨lines,spaces,digits,by rw [hrest]; exact hh.whole,hh.isLine,?_,hspaces,hne,hall,
      by exact_mod_cast hdec⟩
    rw [← hfilter]
    refine List.filter_congr fun l hl => decide_eq_decide.2 ⟨fun hp => ⟨?_,hp⟩,And.right⟩
    refine lt_of_le_of_ne hp.length_le fun heq => hno _ _ hh ?_
    rwa [hp.eq_of_length heq]

/-- The validation ends without overflow and accepts only valid responses exactly when the numbers
are small enough and no "Content-Length:" line without a value is skipped. -/
theorem validation_sound_iff (hmax : data.length < 2147483648) {expected : ℕ}
    (hbody : expected ≤ body.length) :
    ((∃ code,httpResponseValidate data body expected = .ok code) ∧
      (httpResponseValidate data body expected = .ok .ok → Valid data body expected)) ↔
    Bounded data ∧ (httpResponseValidate data body expected = .ok .ok → NoBare data) :=
  and_congr (validate_ok_iff hmax hbody)
    (forall_congr' fun h => valid_iff_noBare hmax hbody h)

theorem validation_sound_short : Bounded shortResponse ∧ NoBare shortResponse := by
  have hok : httpResponseValidate shortResponse (text ['o','k']) (2 : ℕ) = .ok .ok := by
    decide +kernel
  have hvalid : Valid shortResponse (text ['o','k']) 2 :=
    ⟨[lengthHeader ++ text [' ','2']],text [' '],text ['2'],by decide,by unfold IsLine; decide,
      by decide,by decide,by decide,by decide,by decide⟩
  have h := (validation_sound_iff (by decide) (by decide)).1 ⟨⟨_,hok⟩,fun _ => hvalid⟩
  exact ⟨h.1,h.2 hok⟩

/-- A line "Content-Length:" before the one with the value. -/
def bareResponse : List Byte :=
  status ++ (joinLines [lengthHeader,lengthHeader ++ text [' ','2']] ++ (crlf ++ text ['o','k']))

/-- A length of ten digits overflows, and a second "Content-Length:" line is accepted. -/
theorem length_unsound :
    httpResponseValidate (status ++ lengthHeader ++ text ['4','2','9','4','9','6','7','3','0','9'] ++
      crlf ++ crlf) [] 0 = .error .overflow ∧
    httpResponseValidate bareResponse (text ['o','k']) (2 : ℕ) = .ok .ok ∧
    ¬Valid bareResponse (text ['o','k']) 2 := by
  have hok : httpResponseValidate bareResponse (text ['o','k']) (2 : ℕ) = .ok .ok := by
    decide +kernel
  refine ⟨by decide +kernel,hok,fun h => ?_⟩
  exact (valid_iff_noBare (by decide) (by decide) hok).1 h _ (text ['o','k'])
    ⟨rfl,by unfold IsLine; decide,34,by decide +kernel,by decide⟩ (by decide)

end Http
end QuardStarNet
