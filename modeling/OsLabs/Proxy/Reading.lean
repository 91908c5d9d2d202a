import OsLabs.Proxy.Parser

/-!
# What the parser takes from a text

A `Reading` is what `__parse_http_request` takes from the text alone: the words of the request line,
as far as there are any, the headers and the body. The parser leaves the other fields of the request
as they are, so a parsed request holds a reading and, for the words that are missing, the content of
the memory that `malloc` answered; that is `RequestMemory.Holds`. `exists_parse` and
`exists_reading` say that this describes the parser on every text and every memory.
-/

namespace OsLabs.Proxy

open CString

/-- What is taken from a text. -/
structure Reading where
  /-- The words for the method, the path and the version. -/
  words : List (List UInt8)
  headers : List CString
  body : CString

namespace Reading

/-- The words that the conversions of `sscanf` take from a text with a line end. -/
def requestWords (text : CString) : List (List UInt8) :=
  match lineEnd text with
  | none => []
  | some _ => scanWords [7, 255, 15] text.bytes

/-- At most `limit` headers from the offset `ptr` on, and the offset of the body. The last one of
`limit` headers is not left behind. -/
def headersFrom (requestBytes : List UInt8) : ℕ → ℕ → Option (List CString × ℕ)
  | 0, ptr => some ([], ptr)
  | limit + 1, ptr =>
    (stringAt requestBytes ptr).bind fun text =>
      match lineEnd text with
      | none => some ([], ptr)
      | some length =>
        if limit = 0 then some ([text.truncate (min length 255)], ptr)
        else (headersFrom requestBytes limit (ptr + length + 2)).map fun (headers, ptr) =>
          (text.truncate (min length 255) :: headers, ptr)

/-- The offset behind the request line; where it has no line end it is not left behind. -/
def behindLine (text : CString) : ℕ := (lineEnd text).elim 0 (· + 2)

/-- What the parser takes from a text. -/
def readRequest (requestBytes : List UInt8) : Option Reading :=
  (stringAt requestBytes 0).bind fun text =>
    (headersFrom requestBytes 10 (behindLine text)).bind fun (headers, ptr) =>
      (stringAt requestBytes ptr).map fun rest => ⟨requestWords text, headers, rest.truncate 511⟩

end Reading

open Reading

namespace RequestMemory

variable {requestBytes : List UInt8} {memory request : RequestMemory} {reading : Reading}
  {text : CString} {headers : List CString} {limit ptr ptr' : ℕ}

/-- The fields of the request line hold words, as far as there are any, and else their former
content. -/
structure HoldsWords (request memory : RequestMemory) (words : List (List UInt8)) : Prop where
  method : request.method.string.bytes = words[0]?.getD memory.method.string.bytes
  path : request.path.string.bytes = words[1]?.getD memory.path.string.bytes
  version : request.version.string.bytes = words[2]?.getD memory.version.string.bytes

/-- The request holds what was read, in the memory that `malloc` answered. -/
structure Holds (request memory : RequestMemory) (reading : Reading) : Prop where
  line : request.HoldsWords memory reading.words
  headerCount : request.headerCount = reading.headers.length
  headerLines : request.headerLines = reading.headers
  body : request.body.string = reading.body

/-- Only the fields of the request line matter. -/
lemma HoldsWords.congr {request' : RequestMemory} {words : List (List UInt8)}
    (h : request.HoldsWords memory words) (hfields : request'.requestLine = request.requestLine) :
    request'.HoldsWords memory words := by
  simp only [requestLine, Prod.mk.injEq] at hfields
  obtain ⟨hmethod, hpath, hversion⟩ := hfields
  exact ⟨hmethod ▸ h.method, hpath ▸ h.path, hversion ▸ h.version⟩

/-- A word that was read from a string fits into an array that is longer than the width. -/
lemma exists_write_word {n width : ℕ} {input word rest : List UInt8} (hwidth : width < n)
    (hnul : 0 ∉ input) (hscan : scanWord width input = some (word, rest)) (a : CharBuffer n) :
    ∃ b, a.write (word ++ [0]) = some b ∧ b.string.bytes = word ∧ 0 ∉ rest := by
  obtain ⟨hlen, hword, hrest⟩ := scanWord_eq_some hscan
  obtain ⟨b, hwrite, hstring⟩ := a.exists_write ⟨word, fun h => hnul (hword h)⟩ []
    (Nat.lt_of_le_of_lt hlen hwidth)
  exact ⟨b, hwrite, congrArg CString.bytes hstring, fun h => hnul (hrest h)⟩

/-- The conversions of `sscanf` stay within their arrays and store the words of the text. -/
lemma exists_scanLine (memory : RequestMemory) (text : CString) :
    ∃ request, memory.scanLine text = some request ∧
      request.HoldsWords memory (scanWords [7, 255, 15] text.bytes) := by
  rcases Option.eq_none_or_eq_some (scanWord 7 text.bytes) with hscan | ⟨⟨method, input⟩, hscan⟩
  · refine ⟨memory, by simp only [scanLine, hscan], ?_⟩
    simp only [scanWords, hscan]
    exact ⟨rfl, rfl, rfl⟩
  obtain ⟨buffer, hmethod, hmethod', hnul⟩ :=
    exists_write_word (by decide) text.noNul hscan memory.method
  rcases Option.eq_none_or_eq_some (scanWord 255 input) with hscan' | ⟨⟨path, input'⟩, hscan'⟩
  · refine ⟨{ memory with method := buffer }, ?_, ?_⟩
    · simp only [scanLine, hscan, hmethod, Option.bind_some, hscan']
    · simp only [scanWords, hscan, hscan']
      exact ⟨hmethod', rfl, rfl⟩
  obtain ⟨buffer', hpath, hpath', hnul'⟩ := exists_write_word (by decide) hnul hscan' memory.path
  rcases Option.eq_none_or_eq_some (scanWord 15 input') with hscan'' | ⟨⟨version, rest⟩, hscan''⟩
  · refine ⟨{ memory with method := buffer, path := buffer' }, ?_, ?_⟩
    · simp only [scanLine, hscan, hmethod, Option.bind_some, hscan', hpath, hscan'']
    · simp only [scanWords, hscan, hscan', hscan'']
      exact ⟨hmethod', hpath', rfl⟩
  obtain ⟨buffer'', hversion, hversion', -⟩ :=
    exists_write_word (by decide) hnul' hscan'' memory.version
  refine ⟨{ memory with method := buffer, path := buffer', version := buffer'' }, ?_, ?_⟩
  · simp only [scanLine, hscan, hmethod, Option.bind_some, hscan', hpath, hscan'', hversion,
      Option.map_some]
  · simp only [scanWords, hscan, hscan', hscan'']
    exact ⟨hmethod', hpath', hversion'⟩

/-- The first part of the parser. -/
lemma exists_readLine (memory : RequestMemory) (htext : stringAt requestBytes 0 = some text) :
    ∃ request, memory.readLine requestBytes = some (request, behindLine text) ∧
      request.HoldsWords memory (requestWords text) ∧ request.headerCount = 0 := by
  rcases Option.eq_none_or_eq_some (lineEnd text) with hend | ⟨length, hend⟩
  · refine ⟨{ memory with headerCount := 0 }, ?_, ?_, rfl⟩
    · simp only [readLine, htext, Option.bind_some, hend, behindLine, Option.elim_none]
    · simp only [requestWords, hend]
      exact ⟨rfl, rfl, rfl⟩
  · obtain ⟨request, hscan, hholds⟩ := memory.exists_scanLine text
    refine ⟨{ request with headerCount := 0 }, ?_, ?_, rfl⟩
    · simp only [readLine, htext, Option.bind_some, hend, behindLine, Option.elim_some, hscan,
        Option.map_some]
    · simp only [requestWords, hend]
      exact hholds.congr rfl

/-- The loop stores the headers of the text. -/
lemma exists_headerLoop_of_headersFrom (request : RequestMemory)
    (hheaders : headersFrom requestBytes limit ptr = some (headers, ptr')) (hpos : 0 < limit)
    (hcount : request.headerCount + limit = 10) :
    ∃ request', headerLoop requestBytes limit request ptr = some (request', ptr') ∧
      request'.requestLine = request.requestLine ∧
      request'.headerCount = request.headerCount + headers.length ∧
      request'.headerLines = request.headerLines ++ headers := by
  induction limit generalizing request ptr headers with
  | zero => exact absurd hpos (Nat.lt_irrefl 0)
  | succ limit ih =>
    obtain ⟨line, hline, hrest⟩ := Option.bind_eq_some_iff.mp hheaders
    rcases Option.eq_none_or_eq_some (lineEnd line) with hend | ⟨length, hend⟩
    · simp only [hend, Option.some.injEq, Prod.mk.injEq] at hrest
      obtain ⟨rfl, rfl⟩ := hrest
      refine ⟨request, ?_, rfl, rfl, (List.append_nil _).symm⟩
      rw [headerLoop, hline, Option.bind_some, hend]
    · simp only [hend] at hrest
      obtain ⟨stored, hstored, hloop⟩ := exists_headerLoop_succ request hline hend
        (Nat.lt_of_lt_of_le (show request.headerCount < 10 by omega) (by decide)) limit
      rw [hstored.headerCount] at hloop
      by_cases hlimit : limit = 0
      · -- the limit is reached and the line is not left behind
        rw [if_pos hlimit] at hrest
        obtain ⟨rfl, rfl⟩ := Prod.mk.inj (Option.some.inj hrest)
        exact ⟨stored, by rw [hloop, if_pos (by omega)], hstored.requestLine, hstored.headerCount,
          hstored.headerLines⟩
      · rw [if_neg hlimit] at hrest
        obtain ⟨⟨rest, ptr''⟩, hfrom, heq⟩ := Option.map_eq_some_iff.mp hrest
        obtain ⟨rfl, rfl⟩ := Prod.mk.inj heq
        obtain ⟨request', hloop', hfields, hcount', hlines⟩ := ih stored hfrom
          (Nat.pos_of_ne_zero hlimit) (by rw [hstored.headerCount]; omega)
        refine ⟨request', ?_, hfields.trans hstored.requestLine, ?_, ?_⟩
        · rw [hloop, if_neg (by omega), hloop']
        · show request'.headerCount = request.headerCount + (rest.length + 1)
          rw [hcount', hstored.headerCount, Nat.add_right_comm, Nat.add_assoc]
        · rw [hlines, hstored.headerLines, List.append_assoc]
          rfl

/-- The loop leaves the text where the headers do. -/
lemma headerLoop_eq_none (request : RequestMemory)
    (hheaders : headersFrom requestBytes limit ptr = none)
    (hcount : request.headerCount + limit = 10) :
    headerLoop requestBytes limit request ptr = none := by
  induction limit generalizing request ptr with
  | zero => rfl
  | succ limit ih =>
    rcases Option.eq_none_or_eq_some (stringAt requestBytes ptr) with hline | ⟨line, hline⟩
    · rw [headerLoop, hline, Option.bind_none]
    · rw [headersFrom, hline, Option.bind_some] at hheaders
      rcases Option.eq_none_or_eq_some (lineEnd line) with hend | ⟨length, hend⟩
      · simp only [hend] at hheaders
        cases hheaders
      · simp only [hend] at hheaders
        split_ifs at hheaders with hlimit
        obtain ⟨stored, hstored, hloop⟩ := exists_headerLoop_succ request hline hend
          (Nat.lt_of_lt_of_le (show request.headerCount < 10 by omega) (by decide)) limit
        rw [hloop, if_neg (by rw [hstored.headerCount]; omega)]
        exact ih stored (Option.map_eq_none_iff.mp hheaders) (by rw [hstored.headerCount]; omega)

/-- The parser returns a request that holds what is read from the text. -/
lemma exists_parse (hread : readRequest requestBytes = some reading) (memory : RequestMemory) :
    ∃ request, parseHttpRequest requestBytes memory = some request ∧
      request.Holds memory reading := by
  obtain ⟨text, htext, hread⟩ := Option.bind_eq_some_iff.mp hread
  obtain ⟨⟨headers, ptr⟩, hheaders, hbody⟩ := Option.bind_eq_some_iff.mp hread
  obtain ⟨rest, hrest, rfl⟩ := Option.map_eq_some_iff.mp hbody
  obtain ⟨request₀, hline, hwords, hcount₀⟩ := memory.exists_readLine htext
  obtain ⟨request₁, hloop, hfields, hcount₁, hlines⟩ := exists_headerLoop_of_headersFrom request₀
    hheaders (by decide) (by rw [hcount₀])
  obtain ⟨buffer, hbuffer, hstring⟩ := readBody_eq hrest request₁
  refine ⟨_, parseHttpRequest_eq hline hloop hbuffer, ?_, ?_, ?_, hstring⟩
  · exact hwords.congr hfields
  · show request₁.headerCount = headers.length
    rw [hcount₁, hcount₀, Nat.zero_add]
  · show request₁.headerLines = headers
    rw [hlines, RequestMemory.headerLines, hcount₀, List.take_zero, List.map_nil, List.nil_append]

/-- A request that the parser returns holds what is read from the text. -/
lemma exists_reading (hparse : parseHttpRequest requestBytes memory = some request) :
    ∃ reading, readRequest requestBytes = some reading ∧ request.Holds memory reading := by
  rcases Option.eq_none_or_eq_some (readRequest requestBytes) with hread | ⟨reading, hread⟩
  · exfalso
    obtain ⟨⟨request₀, ptr⟩, hline, hrest⟩ := Option.bind_eq_some_iff.mp hparse
    obtain ⟨⟨request₁, ptr'⟩, hloop, hbody⟩ := Option.bind_eq_some_iff.mp hrest
    obtain ⟨text, htext, -⟩ := Option.bind_eq_some_iff.mp hline
    obtain ⟨rest, hstring, -⟩ := Option.bind_eq_some_iff.mp hbody
    obtain ⟨request₀', hline', -, hcount₀⟩ := memory.exists_readLine htext
    obtain ⟨rfl, rfl⟩ := Prod.mk.inj (Option.some.inj (hline'.symm.trans hline))
    rw [readRequest, htext, Option.bind_some] at hread
    rcases Option.eq_none_or_eq_some (headersFrom requestBytes 10 (behindLine text)) with
      hheaders | ⟨⟨headers, ptr''⟩, hheaders⟩
    · rw [headerLoop_eq_none request₀' hheaders (by rw [hcount₀])] at hloop
      cases hloop
    · obtain ⟨request₁', hloop', -⟩ := exists_headerLoop_of_headersFrom request₀' hheaders
        (by decide) (by rw [hcount₀])
      obtain ⟨rfl, rfl⟩ := Prod.mk.inj (Option.some.inj (hloop'.symm.trans hloop))
      simp only [hheaders, Option.bind_some, hstring, Option.map_some] at hread
      cases hread
  · obtain ⟨request', hparse', hholds⟩ := exists_parse hread memory
    obtain rfl := Option.some.inj (hparse'.symm.trans hparse)
    exact ⟨reading, hread, hholds⟩

end RequestMemory

end OsLabs.Proxy
