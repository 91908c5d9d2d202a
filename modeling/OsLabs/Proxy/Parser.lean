import OsLabs.Foundation.CText
import Mathlib.Tactic.SplitIfs

/-!
# The request parser

`__parse_http_request` of `lab3/src/http_utils/http_utils.c`: the request line is read by `sscanf`,
then every line up to the last line end, but no more than ten, is stored as a header, and what is
left is the body. The parser answers `none` where it would read behind the buffer or write behind an
array; otherwise it always succeeds. The arrays of a new `http_request_t` have the content that
`malloc` left there.

`exists_headerLoop` is the specification of the loop on a buffer with two zeros behind the text, and
`headerLoop_lines` says what it does with complete lines that are short of the limit.
-/

namespace OsLabs.Proxy

open CString

/-- `HTTP_HEADER_COUNT`. -/
def httpHeaderCount : ℕ := 16

/-- `http_request_t` in memory. -/
structure RequestMemory where
  headerCount : ℕ
  method : CharBuffer 8
  version : CharBuffer 16
  path : CharBuffer 512
  body : CharBuffer 512
  headers : List (CharBuffer 256)
  length_headers : headers.length = httpHeaderCount

/-- The text `\r\n`. -/
def crlf : CString := ⟨[13, 10], by decide⟩

/-- The text `\n`. -/
def lf : CString := ⟨[10], by decide⟩

/-- The next line end: the first `\r\n`, and the first `\n` where there is none. -/
def lineEnd (ptr : CString) : Option ℕ :=
  (strstr crlf.bytes ptr.bytes).or (strstr lf.bytes ptr.bytes)

/-- A line end lies within the string. -/
lemma lineEnd_lt {ptr : CString} {length : ℕ} (h : lineEnd ptr = some length) :
    length < ptr.bytes.length := by
  rcases Option.or_eq_some_iff.mp h with hcrlf | ⟨-, hlf⟩
  · have hle : length + 2 ≤ ptr.bytes.length := strstr_le hcrlf
    omega
  · exact strstr_le hlf

namespace RequestMemory

/-- `sscanf(ptr, "%7s %255s %15s", request->method, request->path, request->version)`; the fields
behind the end of the input keep their content. -/
def scanLine (request : RequestMemory) (ptr : CString) : Option RequestMemory :=
  match scanWord 7 ptr.bytes with
  | none => some request
  | some (method, input) =>
    (request.method.write (method ++ [0])).bind fun buffer =>
      let request := { request with method := buffer }
      match scanWord 255 input with
      | none => some request
      | some (path, input) =>
        (request.path.write (path ++ [0])).bind fun buffer =>
          let request := { request with path := buffer }
          match scanWord 15 input with
          | none => some request
          | some (version, _) =>
            (request.version.write (version ++ [0])).map fun buffer =>
              { request with version := buffer }

/-- The first part of the parser, up to the loop, with the value of `ptr`. -/
def readLine (request : RequestMemory) (requestBytes : List UInt8) : Option (RequestMemory × ℕ) :=
  (stringAt requestBytes 0).bind fun ptr =>
    match lineEnd ptr with
    | none => some ({ request with headerCount := 0 }, 0)
    | some length =>
      (request.scanLine ptr).map fun request => ({ request with headerCount := 0 }, length + 2)

/-- The next header: the characters of a line and a terminator. -/
def storeHeader (request : RequestMemory) (line : List UInt8) : Option RequestMemory :=
  (request.headers[request.headerCount]?).bind fun header =>
    (header.write (line ++ [0])).map fun header =>
      { request with
        headerCount := request.headerCount + 1
        headers := request.headers.set request.headerCount header
        length_headers := List.length_set.trans request.length_headers }

/-- The loop over the headers, with the final value of `ptr`; no more than `fuel` rounds. -/
def headerLoop (requestBytes : List UInt8) : ℕ → RequestMemory → ℕ → Option (RequestMemory × ℕ)
  | 0, _, _ => none
  | fuel + 1, request, ptr =>
    (stringAt requestBytes ptr).bind fun line =>
      match lineEnd line with
      | none => some (request, ptr)
      | some length =>
        (request.storeHeader (line.strncpy (if 255 < length then 255 else length))).bind
          fun request =>
            if 10 ≤ request.headerCount then some (request, ptr)
            else headerLoop requestBytes fuel request (ptr + length + 2)

/-- The last part of the parser: the body. -/
def readBody (requestBytes : List UInt8) (request : RequestMemory) (ptr : ℕ) :
    Option RequestMemory :=
  (stringAt requestBytes ptr).bind fun text =>
    (request.body.write (if 0 < text.bytes.length then text.strncpy 511 ++ [0] else [0])).map
      fun buffer => { request with body := buffer }

/-- `parse_http_request`; `request` is what `malloc` answers. -/
def parseHttpRequest (requestBytes : List UInt8) (request : RequestMemory) : Option RequestMemory :=
  (request.readLine requestBytes).bind fun (request, ptr) =>
    (headerLoop requestBytes 10 request ptr).bind fun (request, ptr) =>
      readBody requestBytes request ptr

/-! ## What is read from a request -/

/-- The headers below `header_count`. -/
def headerLines (request : RequestMemory) : List CString :=
  (request.headers.take request.headerCount).map CharBuffer.string

/-- The fields that are read from the request line. -/
def requestLine (request : RequestMemory) : CharBuffer 8 × CharBuffer 512 × CharBuffer 16 :=
  (request.method, request.path, request.version)

/-- One more header was stored and nothing else was changed. -/
structure Stored (request request' : RequestMemory) (line : CString) : Prop where
  requestLine : request'.requestLine = request.requestLine
  headerCount : request'.headerCount = request.headerCount + 1
  headerLines : request'.headerLines = request.headerLines ++ [line]

variable {requestBytes : List UInt8} {request request' : RequestMemory} {line : CString}
  {ptr length fuel n : ℕ}

/-- A header that fits is stored. -/
lemma exists_storeHeader (request : RequestMemory) (line : CString)
    (hcount : request.headerCount < httpHeaderCount) (hline : line.bytes.length < 256) :
    ∃ request', request.storeHeader line.bytes = some request' ∧ Stored request request' line := by
  rw [← request.length_headers] at hcount
  obtain ⟨header, hwrite, hstring⟩ :=
    (request.headers[request.headerCount]).exists_write line [] hline
  refine ⟨{ request with
      headerCount := request.headerCount + 1
      headers := request.headers.set request.headerCount header
      length_headers := List.length_set.trans request.length_headers }, ?_, rfl, rfl, ?_⟩
  · rw [storeHeader, List.getElem?_eq_getElem hcount, Option.bind_some, hwrite, Option.map_some]
  · unfold RequestMemory.headerLines
    rw [List.take_add_one, List.getElem?_set_self hcount, List.take_set_of_le (Nat.le_refl _),
      List.map_append, ← hstring]
    rfl

/-- A round of the loop at a line end: the line is stored, as far as it fits, and the loop goes on
behind it until ten headers are stored. -/
lemma exists_headerLoop_succ (request : RequestMemory)
    (hline : stringAt requestBytes ptr = some line)
    (hend : lineEnd line = some length)
    (hcount : request.headerCount < httpHeaderCount) (fuel : ℕ) :
    ∃ request', Stored request request' (line.truncate (min length 255)) ∧
      headerLoop requestBytes (fuel + 1) request ptr =
        if 10 ≤ request'.headerCount then some (request', ptr)
        else headerLoop requestBytes fuel request' (ptr + length + 2) := by
  have hlen := lineEnd_lt hend
  have hmin : (if 255 < length then 255 else length) = min length 255 := by
    split_ifs <;> omega
  have hcopy : line.strncpy (min length 255) = (line.truncate (min length 255)).bytes := by
    rw [strncpy, Nat.sub_eq_zero_of_le (by omega), List.replicate_zero, List.append_nil, truncate]
  obtain ⟨request', hstore, hstored⟩ := exists_storeHeader request
    (line.truncate (min length 255)) hcount (by
      show (line.bytes.take (min length 255)).length < 256
      rw [List.length_take]
      omega)
  refine ⟨request', hstored, ?_⟩
  rw [headerLoop, hline, Option.bind_some, hend]
  simp only [hmin, hcopy, hstore, Option.bind_some]

/-- The loop on a buffer with two zeros behind the text: it stays within the buffer, ends with at
most ten headers, and stores a header if there is a line end. -/
lemma exists_headerLoop (request : RequestMemory) (fuel ptr : ℕ)
    (hn : requestBytes[n]? = some 0) (hn' : requestBytes[n + 1]? = some 0)
    (hptr : ptr ≤ n + 1) (hcount : request.headerCount < 10)
    (hfuel : 10 ≤ request.headerCount + fuel) :
    ∃ request' ptr', headerLoop requestBytes fuel request ptr = some (request', ptr') ∧
      ptr' ≤ n + 1 ∧ request'.requestLine = request.requestLine ∧
      request.headerCount ≤ request'.headerCount ∧ request'.headerCount ≤ 10 ∧
      ∀ line, stringAt requestBytes ptr = some line → lineEnd line ≠ none →
        request.headerCount < request'.headerCount := by
  induction fuel generalizing request ptr with
  | zero => omega
  | succ fuel ih =>
    obtain ⟨line, hline, hle⟩ := exists_stringAt hptr hn'
    cases hend : lineEnd line with
    | none =>
      refine ⟨request, ptr, ?_, hptr, rfl, Nat.le_refl _, Nat.le_of_lt hcount, ?_⟩
      · rw [headerLoop, hline, Option.bind_some, hend]
      · intro line' hline' hend'
        obtain rfl := Option.some.inj (hline.symm.trans hline')
        exact absurd hend hend'
    | some length =>
      have hlen := lineEnd_lt hend
      have hnext : ptr + length + 2 ≤ n + 1 := by
        rcases Nat.lt_or_ge n ptr with hlt | hle'
        · omega
        · obtain ⟨line', hline', hle'⟩ := exists_stringAt hle' hn
          obtain rfl := Option.some.inj (hline.symm.trans hline')
          omega
      obtain ⟨stored, hstored, hloop⟩ := exists_headerLoop_succ request hline hend
        (Nat.lt_trans hcount (by decide)) fuel
      have hmore : request.headerCount < stored.headerCount := by
        rw [hstored.headerCount]
        exact Nat.lt_succ_self _
      by_cases hlimit : 10 ≤ stored.headerCount
      · refine ⟨stored, ptr, by rw [hloop, if_pos hlimit], hptr, hstored.requestLine,
          Nat.le_of_lt hmore, ?_, fun _ _ _ => hmore⟩
        rw [hstored.headerCount]
        exact hcount
      · obtain ⟨request', ptr', hrest, hptr', hfields, hge, hle', -⟩ := ih _ _ hnext
          (Nat.not_le.mp hlimit) (by rw [hstored.headerCount]; omega)
        refine ⟨request', ptr', by rw [hloop, if_neg hlimit, hrest], hptr',
          hfields.trans hstored.requestLine, ?_, hle', fun _ _ _ => ?_⟩
        · exact Nat.le_trans (Nat.le_of_lt hmore) hge
        · exact Nat.lt_of_lt_of_le hmore hge

/-- The last part of the parser stores the string that is left, as far as it fits. -/
lemma readBody_eq (hline : stringAt requestBytes ptr = some line) (request : RequestMemory) :
    ∃ buffer, readBody requestBytes request ptr = some { request with body := buffer } ∧
      buffer.string = line.truncate 511 := by
  by_cases hpos : 0 < line.bytes.length
  · obtain ⟨buffer, hwrite, hstring⟩ := request.body.exists_write (line.truncate 511)
      (List.replicate (511 - line.bytes.length) 0) (by
        show (line.bytes.take 511).length + _ < 512
        rw [List.length_take, List.length_replicate]
        omega)
    refine ⟨buffer, ?_, hstring⟩
    have hcopy : line.strncpy 511 ++ [0] =
        (line.truncate 511).bytes ++ 0 :: List.replicate (511 - line.bytes.length) 0 := by
      rw [strncpy, List.append_assoc, ← List.replicate_succ', List.replicate_succ]
      rfl
    rw [readBody, hline, Option.bind_some, if_pos hpos, hcopy, hwrite, Option.map_some]
  · obtain ⟨buffer, hwrite, hstring⟩ := request.body.exists_write CString.empty []
      (by decide)
    have hempty : line.truncate 511 = CString.empty := by
      ext1
      show line.bytes.take 511 = []
      rw [List.length_eq_zero_iff.mp (Nat.eq_zero_of_not_pos hpos), List.take_nil]
    refine ⟨buffer, ?_, hstring.trans hempty.symm⟩
    have hcopy : ([0] : List UInt8) = CString.empty.bytes ++ 0 :: [] := rfl
    rw [readBody, hline, Option.bind_some, if_neg hpos, hcopy, hwrite, Option.map_some]

/-- The parser is made of its three parts. -/
lemma parseHttpRequest_eq {request₀ request₁ request₂ : RequestMemory} {ptr' : ℕ}
    (hread : request.readLine requestBytes = some (request₀, ptr))
    (hloop : headerLoop requestBytes 10 request₀ ptr = some (request₁, ptr'))
    (hbody : readBody requestBytes request₁ ptr' = some request₂) :
    parseHttpRequest requestBytes request = some request₂ := by
  simp only [parseHttpRequest, hread, hloop, hbody, Option.bind_some]

/-- Lines with a line end behind each of them. -/
def lines : List CString → CString
  | [] => CString.empty
  | line :: rest => line ++ crlf ++ lines rest

/-- Lines are put together. -/
lemma lines_append (headers headers' : List CString) :
    lines (headers ++ headers') = lines headers ++ lines headers' := by
  ext1
  induction headers with
  | nil => rfl
  | cons header headers ih =>
    simp only [List.cons_append, lines, bytes_append, ih, List.append_assoc]

/-- The line end behind a line is found. -/
lemma lineEnd_append (hline : 13 ∉ line.bytes) (rest : CString) :
    lineEnd (line ++ crlf ++ rest) = some line.bytes.length := by
  have hfound : strstr crlf.bytes (line ++ crlf ++ rest).bytes = some line.bytes.length := by
    rw [bytes_append, bytes_append, List.append_assoc]
    exact strstr_append hline [10] rest.bytes
  rw [lineEnd, hfound, Option.some_or]

/-- A line is cut off at its line end when it fits into a header. -/
lemma truncate_line (hline : line.bytes.length ≤ 255) (rest : CString) :
    (line ++ crlf ++ rest).truncate (min line.bytes.length 255) = line := by
  ext1
  show (line.bytes ++ crlf.bytes ++ rest.bytes).take _ = line.bytes
  rw [Nat.min_eq_left hline, List.append_assoc, List.take_left]

/-- What follows complete lines. -/
lemma stringAt_lines {headers : List CString} {before after : List UInt8} {rest : CString}
    (hbytes : requestBytes = before ++ ((lines headers ++ rest).bytes ++ 0 :: after)) :
    stringAt requestBytes (before ++ (lines headers).bytes).length = some rest := by
  rw [hbytes, bytes_append, List.append_assoc, ← List.append_assoc]
  exact stringAt_append _ _ _

/-- The loop on complete lines that are short of the limit: each of them is stored as a header. -/
lemma headerLoop_lines (request : RequestMemory) {headers : List CString} (before : List UInt8)
    {after : List UInt8} {rest : CString}
    (hbytes : requestBytes = before ++ ((lines headers ++ rest).bytes ++ 0 :: after))
    (hheaders : ∀ header ∈ headers, 13 ∉ header.bytes ∧ header.bytes.length ≤ 255)
    (hcount : request.headerCount + headers.length < 10) (fuel : ℕ) :
    ∃ request', request'.requestLine = request.requestLine ∧
      request'.headerCount = request.headerCount + headers.length ∧
      request'.headerLines = request.headerLines ++ headers ∧
      headerLoop requestBytes (headers.length + fuel) request before.length =
        headerLoop requestBytes fuel request' (before ++ (lines headers).bytes).length := by
  induction headers generalizing request before with
  | nil =>
    refine ⟨request, rfl, rfl, (List.append_nil _).symm, ?_⟩
    show headerLoop requestBytes (0 + fuel) request before.length =
      headerLoop requestBytes fuel request (before ++ []).length
    rw [Nat.zero_add, List.append_nil]
  | cons header headers ih =>
    rw [List.length_cons] at hcount
    obtain ⟨hcr, hlen⟩ := hheaders header List.mem_cons_self
    have hline : stringAt requestBytes before.length =
        some (header ++ crlf ++ (lines headers ++ rest)) := by
      have hassoc : lines (header :: headers) ++ rest =
          header ++ crlf ++ (lines headers ++ rest) := by
        ext1
        simp only [lines, bytes_append, List.append_assoc]
      rw [hbytes, hassoc, stringAt_append]
    obtain ⟨stored, hstored, hloop⟩ := exists_headerLoop_succ request hline
      (lineEnd_append hcr _) (Nat.lt_trans (by omega) (by decide : 10 < httpHeaderCount))
      (headers.length + fuel)
    rw [truncate_line hlen] at hstored
    obtain ⟨request', hfields, hcount', hheaders', hrest⟩ := ih stored
      (before ++ (header ++ crlf).bytes)
      (by rw [hbytes]; simp only [lines, bytes_append, List.append_assoc])
      (fun h hh => hheaders h (List.mem_cons_of_mem header hh))
      (by rw [hstored.headerCount]; omega)
    refine ⟨request', hfields.trans hstored.requestLine, ?_, ?_, ?_⟩
    · rw [hcount', hstored.headerCount, List.length_cons]
      omega
    · rw [hheaders', hstored.headerLines, List.append_assoc]
      rfl
    · have hlimit : ¬ 10 ≤ stored.headerCount := by
        rw [hstored.headerCount]
        omega
      have hptr : before.length + header.bytes.length + 2 =
          (before ++ (header ++ crlf).bytes).length := by
        simp only [bytes_append, List.length_append, crlf, List.length_cons, List.length_nil]
        omega
      rw [List.length_cons, Nat.add_right_comm, hloop, if_neg hlimit, hptr, hrest]
      simp only [lines, bytes_append, List.append_assoc]

end RequestMemory

end OsLabs.Proxy
