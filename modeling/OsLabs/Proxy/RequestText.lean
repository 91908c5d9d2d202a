import OsLabs.Proxy.Parser
import OsLabs.Proxy.Request

/-!
# What the parser makes of a well-formed request

A `RequestText` is a request with up to ten headers in the form that the parser accepts, in the
receive buffer of `__handle_client`. The parser has no case for the empty line before the body: it
is stored as one more header, and so are the lines of the body; and the loop stops at ten headers
without going behind the last one, so that it is read again as the body.
-/

namespace OsLabs.Proxy

open CString RequestMemory

/-- A method, a path, a version, headers and a body that fit into the fields of `http_request_t`. -/
structure RequestText where
  method : CString
  path : CString
  version : CString
  headers : List CString
  body : CString
  method_length : 0 < method.bytes.length ∧ method.bytes.length ≤ 7
  method_word : ∀ c ∈ method.bytes, isSpace c = false
  path_length : 0 < path.bytes.length ∧ path.bytes.length ≤ 255
  path_word : ∀ c ∈ path.bytes, isSpace c = false
  version_known : version = http10 ∨ version = http11
  headers_length : headers.length ≤ 10
  headers_line : ∀ header ∈ headers,
    0 < header.bytes.length ∧ header.bytes.length ≤ 255 ∧ 13 ∉ header.bytes ∧ 10 ∉ header.bytes
  body_length : body.bytes.length ≤ 511

/-- A blank. -/
def blank : CString := ⟨[32], by decide⟩

/-- A computable test for words. -/
lemma word_of_all {word : List UInt8} (h : (word.all fun c => !isSpace c) = true) :
    ∀ c ∈ word, isSpace c = false :=
  fun c hc => (Bool.not_eq_true' _).mp (List.all_eq_true.mp h c hc)

namespace RequestText

/-- The request line. -/
def line (text : RequestText) : CString :=
  text.method ++ blank ++ text.path ++ blank ++ text.version

/-- The request line and the headers, an empty line, and the body. -/
def bytes (text : RequestText) : CString :=
  text.line ++ crlf ++ (lines text.headers ++ (crlf ++ text.body))

/-- The buffer of `HTTP_REQUEST_BYTES_LEN` characters, filled with zeros, after `__recv`. -/
def buffer (text : RequestText) : List UInt8 :=
  text.bytes.bytes ++ List.replicate (4096 - text.bytes.bytes.length) 0

/-- The parsed request is the one that the text was made from. -/
structure Parsed (text : RequestText) (request : RequestMemory) : Prop where
  method : request.method.string = text.method
  path : request.path.string = text.path
  version : request.version.string = text.version
  headerCount : request.headerCount = text.headers.length
  headers : request.headerLines = text.headers
  body : request.body.string = text.body

variable {text : RequestText} {memory request : RequestMemory}

/-- The version is a word of eight characters. -/
lemma version_word (text : RequestText) :
    text.version.bytes.length = 8 ∧ ∀ c ∈ text.version.bytes, isSpace c = false := by
  rcases text.version_known with h | h
  · rw [h]
    exact ⟨rfl, word_of_all rfl⟩
  · rw [h]
    exact ⟨rfl, word_of_all rfl⟩

/-- The headers with their line ends need at most 257 characters each. -/
lemma length_lines_le {headers : List CString}
    (h : ∀ header ∈ headers, header.bytes.length ≤ 255) :
    (lines headers).bytes.length ≤ 257 * headers.length := by
  induction headers with
  | nil => exact Nat.zero_le _
  | cons header headers ih =>
    have hheader := h header List.mem_cons_self
    have hrest := ih fun header' hmem => h header' (List.mem_cons_of_mem header hmem)
    simp only [lines, crlf, bytes_append, List.length_append, List.length_cons, List.length_nil]
    omega

/-- Two zeros follow the text in the buffer. -/
lemma buffer_eq (text : RequestText) :
    ∃ after, text.buffer = text.bytes.bytes ++ 0 :: 0 :: after := by
  have hlines := length_lines_le fun header h => (text.headers_line header h).2.1
  have hle : text.bytes.bytes.length ≤ 4094 := by
    have hmethod := text.method_length
    have hpath := text.path_length
    have hversion := text.version_word.1
    have hheaders := text.headers_length
    have hbody := text.body_length
    simp only [bytes, line, blank, crlf, bytes_append, List.length_append, List.length_cons,
      List.length_nil]
    omega
  obtain ⟨n, hn⟩ : ∃ n, 4096 - text.bytes.bytes.length = n + 2 :=
    ⟨4094 - text.bytes.bytes.length, by omega⟩
  exact ⟨List.replicate n 0, by rw [buffer, hn, List.replicate_succ, List.replicate_succ]⟩

/-- A header of the text is a line that fits. -/
lemma header_fits (text : RequestText) :
    ∀ header ∈ text.headers, 13 ∉ header.bytes ∧ header.bytes.length ≤ 255 := by
  intro header hmem
  obtain ⟨-, hlen, hcr, -⟩ := text.headers_line header hmem
  exact ⟨hcr, hlen⟩

/-- No character of the request line is a carriage return. -/
lemma cr_notMem_line (text : RequestText) : 13 ∉ text.line.bytes := by
  intro hmem
  have hspace : isSpace 13 = true := by decide
  simp only [line, bytes_append, List.mem_append, blank] at hmem
  rcases hmem with (((h | h) | h) | h) | h
  · exact Bool.false_ne_true ((text.method_word 13 h).symm.trans hspace)
  · revert h
    decide
  · exact Bool.false_ne_true ((text.path_word 13 h).symm.trans hspace)
  · revert h
    decide
  · exact Bool.false_ne_true ((text.version_word.2 13 h).symm.trans hspace)

/-- The three words of the request line are read into their fields. -/
lemma exists_scanLine (text : RequestText) (memory : RequestMemory) (rest : CString) :
    ∃ request, memory.scanLine (text.line ++ crlf ++ rest) = some request ∧
      request.method.string = text.method ∧ request.path.string = text.path ∧
      request.version.string = text.version := by
  have hbytes : (text.line ++ crlf ++ rest).bytes = text.method.bytes ++ 32 ::
      (text.path.bytes ++ 32 :: (text.version.bytes ++ 13 :: 10 :: rest.bytes)) := by
    simp [line, blank, crlf]
  have hblank : isSpace 32 = true := by decide
  obtain ⟨hversion_length, hversion_word⟩ := text.version_word
  have hscan₁ : scanWord 7 (text.line ++ crlf ++ rest).bytes = some (text.method.bytes,
      32 :: (text.path.bytes ++ 32 :: (text.version.bytes ++ 13 :: 10 :: rest.bytes))) := by
    rw [hbytes]
    exact scanWord_append (List.length_pos_iff.mp text.method_length.1) text.method_word
      text.method_length.2 hblank _
  have hscan₂ : scanWord 255 (32 :: (text.path.bytes ++ 32 ::
      (text.version.bytes ++ 13 :: 10 :: rest.bytes))) = some (text.path.bytes,
        32 :: (text.version.bytes ++ 13 :: 10 :: rest.bytes)) := by
    rw [scanWord_cons hblank]
    exact scanWord_append (List.length_pos_iff.mp text.path_length.1) text.path_word
      text.path_length.2 hblank _
  have hscan₃ : scanWord 15 (32 :: (text.version.bytes ++ 13 :: 10 :: rest.bytes)) =
      some (text.version.bytes, 13 :: 10 :: rest.bytes) := by
    rw [scanWord_cons hblank]
    exact scanWord_append (List.length_pos_iff.mp (by rw [hversion_length]; decide)) hversion_word
      (by rw [hversion_length]; decide) (by decide) _
  obtain ⟨method, hmethod, hmethod'⟩ := memory.method.exists_write text.method []
    (Nat.lt_succ_of_le text.method_length.2)
  obtain ⟨path, hpath, hpath'⟩ := memory.path.exists_write text.path []
    (Nat.lt_of_le_of_lt text.path_length.2 (by decide))
  obtain ⟨version, hversion, hversion'⟩ := memory.version.exists_write text.version []
    (by rw [hversion_length]; decide)
  refine ⟨{ memory with method := method, path := path, version := version }, ?_, hmethod', hpath',
    hversion'⟩
  unfold scanLine
  simp only [hscan₁, hscan₂, hscan₃, hmethod, hpath, hversion, Option.bind_some, Option.map_some]

/-- The first part of the parser reads the request line and goes on behind it. -/
lemma exists_readLine (text : RequestText) (memory : RequestMemory) :
    ∃ request, memory.readLine text.buffer = some (request, (text.line ++ crlf).bytes.length) ∧
      request.method.string = text.method ∧ request.path.string = text.path ∧
      request.version.string = text.version ∧ request.headerCount = 0 := by
  obtain ⟨after, hbuffer⟩ := text.buffer_eq
  have hptr : stringAt text.buffer 0 = some text.bytes := by
    rw [hbuffer]
    exact stringAt_append [] text.bytes (0 :: after)
  obtain ⟨request, hscan, hmethod, hpath, hversion⟩ := text.exists_scanLine memory
    (lines text.headers ++ (crlf ++ text.body))
  refine ⟨{ request with headerCount := 0 }, ?_, hmethod, hpath, hversion, rfl⟩
  have hend : lineEnd text.bytes = some text.line.bytes.length :=
    lineEnd_append text.cr_notMem_line _
  rw [readLine, hptr, Option.bind_some, hend]
  show Option.map _ (memory.scanLine text.bytes) = _
  rw [bytes, hscan, Option.map_some, bytes_append, List.length_append]
  rfl

/-- With fewer than ten headers, the empty line is stored as a header too. -/
lemma parse_of_lt (text : RequestText) (memory : RequestMemory) (hlt : text.headers.length < 10) :
    ∃ request, parseHttpRequest text.buffer memory = some request ∧
      text.headers.length < request.headerCount ∧ request.headerCount ≤ 10 := by
  obtain ⟨after, hbuffer⟩ := text.buffer_eq
  obtain ⟨request₀, hread, -, -, -, hcount₀⟩ := text.exists_readLine memory
  have hbytes : text.buffer = (text.line ++ crlf).bytes ++
      ((lines text.headers ++ (crlf ++ text.body)).bytes ++ 0 :: 0 :: after) := by
    rw [hbuffer, bytes, bytes_append, List.append_assoc]
  obtain ⟨request₁, -, hcount₁, -, hloop₁⟩ := headerLoop_lines request₀ _ hbytes
    text.header_fits (by rw [hcount₀]; omega) (10 - text.headers.length)
  -- what is left begins with an empty line
  have hrest := stringAt_lines hbytes
  have hend : lineEnd (crlf ++ text.body) ≠ none := by
    have hempty : lineEnd (CString.empty ++ crlf ++ text.body) = some 0 :=
      lineEnd_append List.not_mem_nil text.body
    intro hnone
    rw [show crlf ++ text.body = CString.empty ++ crlf ++ text.body from rfl, hempty] at hnone
    cases hnone
  have hzero : ∀ i < 2, text.buffer[text.bytes.bytes.length + i]? = some 0 := by
    intro i hi
    rw [hbuffer, List.getElem?_append_right (Nat.le_add_right _ _), Nat.add_sub_cancel_left]
    obtain rfl | rfl : i = 0 ∨ i = 1 := by omega
    · rfl
    · rfl
  obtain ⟨request, ptr, hloop, hle, -, hge, hlimit, hmore⟩ :=
    exists_headerLoop request₁ (10 - text.headers.length)
      ((text.line ++ crlf).bytes ++ (lines text.headers).bytes).length
      (hzero 0 (by decide)) (hzero 1 (by decide))
      (by simp only [bytes, bytes_append, List.length_append]; omega)
      (by rw [hcount₁, hcount₀]; omega) (by rw [hcount₁, hcount₀]; omega)
  obtain ⟨line, hline, -⟩ := exists_stringAt hle (hzero 1 (by decide))
  obtain ⟨buffer, hbody, -⟩ := readBody_eq hline request
  have hfuel : text.headers.length + (10 - text.headers.length) = 10 := by omega
  rw [hfuel] at hloop₁
  refine ⟨_, parseHttpRequest_eq hread (hloop₁.trans hloop) hbody, ?_, hlimit⟩
  have hstored := hmore _ hrest hend
  rw [hcount₁, hcount₀, Nat.zero_add] at hstored
  exact hstored

/-- With ten headers, the last one is read again as the beginning of the body. -/
lemma parse_of_concat (text : RequestText) (memory : RequestMemory) {front : List CString}
    {last : CString} (hheaders : text.headers = front ++ [last]) (hfront : front.length = 9) :
    ∃ request, parseHttpRequest text.buffer memory = some request ∧
      request.method.string = text.method ∧ request.path.string = text.path ∧
      request.version.string = text.version ∧ request.headerCount = 10 ∧
      request.headerLines = text.headers ∧
      request.body.string = (last ++ crlf ++ (crlf ++ text.body)).truncate 511 := by
  obtain ⟨after, hbuffer⟩ := text.buffer_eq
  obtain ⟨request₀, hread, hmethod, hpath, hversion, hcount₀⟩ := text.exists_readLine memory
  have hbytes : text.buffer = (text.line ++ crlf).bytes ++
      ((lines front ++ (last ++ crlf ++ (crlf ++ text.body))).bytes ++ 0 :: 0 :: after) := by
    rw [hbuffer, bytes, hheaders, lines_append]
    simp only [lines, bytes_append, List.append_assoc]
    rfl
  have hline := text.header_fits
  rw [hheaders] at hline
  obtain ⟨hcr, hlast⟩ := hline last (by simp)
  obtain ⟨request₁, hfields₁, hcount₁, hheaders₁, hloop₁⟩ := headerLoop_lines request₀ _
    hbytes (fun header h => hline header (List.mem_append_left _ h)) (by omega) 1
  have hrest := stringAt_lines hbytes
  obtain ⟨request₂, hstored, hloop₂⟩ := exists_headerLoop_succ request₁ hrest
    (lineEnd_append hcr _) (by rw [hcount₁, hcount₀, hfront]; decide) 0
  have hcount : request₂.headerCount = 10 := by
    rw [hstored.headerCount, hcount₁, hcount₀, hfront]
  have hten : 10 ≤ request₂.headerCount := Nat.le_of_eq hcount.symm
  rw [if_pos hten] at hloop₂
  rw [hfront] at hloop₁
  obtain ⟨buffer, hbody, hstring⟩ := readBody_eq hrest request₂
  have hfields := hstored.requestLine.trans hfields₁
  refine ⟨_, parseHttpRequest_eq hread (hloop₁.trans hloop₂) hbody, ?_, ?_, ?_, hcount, ?_,
    hstring⟩
  · rw [← hmethod]
    exact congrArg (fun fields => fields.1.string) hfields
  · rw [← hpath]
    exact congrArg (fun fields => fields.2.1.string) hfields
  · rw [← hversion]
    exact congrArg (fun fields => fields.2.2.string) hfields
  · have hnil : request₀.headerLines = [] := by
      rw [headerLines, hcount₀, List.take_zero, List.map_nil]
    show request₂.headerLines = text.headers
    rw [hstored.headerLines, hheaders₁, hnil, truncate_line hlast, hheaders, List.nil_append]

/-- The parser succeeds on every text, and it gives back the request that the text was made from if
and only if there are ten headers and the body is what is read when the last header is taken for its
beginning, that is, a repetition of the last header and two line ends up to 511 characters. -/
theorem parse_inverts_iff (text : RequestText) (memory : RequestMemory) :
    ∃ request, parseHttpRequest text.buffer memory = some request ∧
      (text.Parsed request ↔ text.headers.length = 10 ∧ ∀ header ∈ text.headers.getLast?,
        text.body.bytes = (header ++ crlf ++ (crlf ++ text.body)).bytes.take 511) := by
  rcases Nat.lt_or_ge text.headers.length 10 with hlt | hge
  · obtain ⟨request, hparse, hmore, -⟩ := text.parse_of_lt memory hlt
    refine ⟨request, hparse, fun hparsed => ?_, fun h => absurd h.1 (Nat.ne_of_lt hlt)⟩
    exact absurd hparsed.headerCount (Nat.ne_of_gt hmore)
  · have hten : text.headers.length = 10 := Nat.le_antisymm text.headers_length hge
    obtain hnil | ⟨front, last, hheaders⟩ := text.headers.eq_nil_or_concat'
    · rw [hnil] at hten
      cases hten
    · have hfront : front.length = 9 := by
        rw [hheaders, List.length_append, List.length_singleton] at hten
        omega
      obtain ⟨request, hparse, hmethod, hpath, hversion, hcount, hlines, hbody⟩ :=
        text.parse_of_concat memory hheaders hfront
      have hlast : text.headers.getLast? = some last := by
        rw [hheaders, List.getLast?_concat]
      refine ⟨request, hparse, fun hparsed => ⟨hten, fun header h => ?_⟩, fun h =>
        ⟨hmethod, hpath, hversion, hcount.trans hten.symm, hlines, ?_⟩⟩
      · obtain rfl := Option.some.inj (hlast.symm.trans h)
        exact congrArg CString.bytes (hparsed.body.symm.trans hbody)
      · rw [hbody]
        ext1
        exact (h.2 last hlast).symm

/-- The header `A: b`. -/
def sampleHeader : CString := ⟨CString.ascii ['A', ':', ' ', 'b'], by decide⟩

/-- It is a line. -/
lemma sampleHeader_line : ∀ header ∈ [sampleHeader],
    0 < header.bytes.length ∧ header.bytes.length ≤ 255 ∧
      13 ∉ header.bytes ∧ 10 ∉ header.bytes := by
  intro header hmem
  obtain rfl := List.mem_singleton.mp hmem
  exact ⟨by decide, by decide, by decide, by decide⟩

/-- A request with one header and a body of two lines. -/
def twoLines : RequestText where
  method := methodPost.toCString
  path := samplePath.toCString
  version := http11
  headers := [sampleHeader]
  body := ⟨CString.ascii ['x', '\n', 'y'], by decide⟩
  method_length := by decide
  method_word := word_of_all rfl
  path_length := by decide
  path_word := word_of_all rfl
  version_known := Or.inr rfl
  headers_length := by decide
  headers_line := sampleHeader_line
  body_length := by decide

/-- An `http_request_t` full of zeros. -/
def zeroMemory : RequestMemory where
  headerCount := 0
  method := ⟨List.replicate 8 0, List.length_replicate⟩
  version := ⟨List.replicate 16 0, List.length_replicate⟩
  path := ⟨List.replicate 512 0, List.length_replicate⟩
  body := ⟨List.replicate 512 0, List.length_replicate⟩
  headers := List.replicate 16 ⟨List.replicate 256 0, List.length_replicate⟩
  length_headers := List.length_replicate

/-- The empty line and the first line of the body become headers, and nothing is left for the body,
since the two characters that are skipped behind the line end are the line end and the `y`. -/
theorem twoLines_not_parsed : ∃ request,
    parseHttpRequest twoLines.buffer zeroMemory = some request ∧
    request.headerCount = 3 ∧ request.body.string = CString.empty ∧ ¬ twoLines.Parsed request := by
  obtain ⟨request, hparse⟩ := Option.isSome_iff_exists.mp
    (show (parseHttpRequest twoLines.buffer zeroMemory).isSome = true by decide +kernel)
  have hcount : (parseHttpRequest twoLines.buffer zeroMemory).map headerCount = some 3 := by
    decide +kernel
  have hbody : (parseHttpRequest twoLines.buffer zeroMemory).map (·.body.string) =
      some CString.empty := by
    decide +kernel
  rw [hparse] at hcount hbody
  have hthree := Option.some.inj hcount
  refine ⟨request, hparse, hthree, Option.some.inj hbody, fun hparsed => ?_⟩
  have hone : request.headerCount = 1 := hparsed.headerCount
  rw [hone] at hthree
  cases hthree

end RequestText

end OsLabs.Proxy
