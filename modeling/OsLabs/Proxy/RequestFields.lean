import OsLabs.Proxy.ParserBounds

/-!
# The request line and its fields

`__validate_request` on the request in memory, and what an accepted request has to do with the text
that it was parsed from. The parser leaves a field as `malloc` answered it where `sscanf` found no
word for it; and `sscanf` takes its words from the whole text behind the request line too, and cuts
them at the widths of its conversions, which makes two words of a long one.
-/

namespace OsLabs.Proxy

open CString Reading

/-- The check of the version and the path. -/
def accepted (version path : List UInt8) : Bool :=
  (version == http10.bytes || version == http11.bytes) && !path == refusedPath.bytes

namespace RequestMemory

variable {requestBytes behind : List UInt8} {memory request request' : RequestMemory}
  {reading : Reading} {text : CString}

/-- `__validate_request(request) == 0`; `none` where it would read behind an array. -/
def validateRequest (request : RequestMemory) : Option Bool :=
  (strncmp 16 request.version.bytes (http10.bytes ++ [0])).bind fun isHttp10 =>
    (if isHttp10 then some true
      else strncmp 16 request.version.bytes (http11.bytes ++ [0])).bind fun known =>
        if known then
          (strncmp 512 request.path.bytes (refusedPath.bytes ++ [0])).map fun refused => !refused
        else some false

/-- The check stays within the arrays, whatever they hold. -/
lemma validateRequest_eq (request : RequestMemory) :
    request.validateRequest =
      some (accepted request.version.string.bytes request.path.string.bytes) := by
  rw [validateRequest, request.version.strncmp_eq (b := http10) (by decide),
    request.version.strncmp_eq (b := http11) (by decide),
    request.path.strncmp_eq (b := refusedPath) (by decide), accepted]
  cases request.version.string.bytes == http10.bytes <;>
    cases request.version.string.bytes == http11.bytes <;> rfl

/-- An accepted version is one of two words of eight characters. -/
lemma length_of_accepted {version path : List UInt8} (h : accepted version path = true) :
    version.length = 8 := by
  rw [accepted, Bool.and_eq_true, Bool.or_eq_true, beq_iff_eq, beq_iff_eq] at h
  rcases h.1 with h | h
  · rw [h]
    rfl
  · rw [h]
    rfl

/-! ## Former content of the memory -/

/-- Two parsed requests are the same as far as anybody reads them. -/
structure SameRequest (request request' : RequestMemory) : Prop where
  method : request.method.string = request'.method.string
  path : request.path.string = request'.path.string
  version : request.version.string = request'.version.string
  headerCount : request.headerCount = request'.headerCount
  headerLines : request.headerLines = request'.headerLines
  body : request.body.string = request'.body.string

/-- A text is parsed with the same verdict whatever the memory of the request holds, and to the same
request where it is accepted. -/
def ParsedAlike (requestBytes : List UInt8) : Prop :=
  ∀ memory memory' : RequestMemory, ∃ request request' verdict,
    parseHttpRequest requestBytes memory = some request ∧
    parseHttpRequest requestBytes memory' = some request' ∧
    request.validateRequest = some verdict ∧ request'.validateRequest = some verdict ∧
    (verdict = true → SameRequest request request')

/-- Where all three words are read, the memory does not matter for them. -/
lemma HoldsWords.same {memory' : RequestMemory} {words : List (List UInt8)}
    (h : request.HoldsWords memory words) (h' : request'.HoldsWords memory' words)
    (hwords : words.length = 3) :
    request.method.string = request'.method.string ∧ request.path.string = request'.path.string ∧
      request.version.string = request'.version.string := by
  obtain ⟨method, path, version, rfl⟩ := List.length_eq_three.mp hwords
  exact ⟨CString.ext (h.method.trans h'.method.symm), CString.ext (h.path.trans h'.path.symm),
    CString.ext (h.version.trans h'.version.symm)⟩

/-- Two requests for the same words, headers and body. -/
lemma Holds.same {memory' : RequestMemory} {reading' : Reading} (h : request.Holds memory reading)
    (h' : request'.Holds memory' reading') (hwords : reading.words = reading'.words)
    (hthree : reading.words.length = 3) (hheaders : reading.headers = reading'.headers)
    (hbody : reading.body = reading'.body) : SameRequest request request' := by
  have hline := h'.line
  rw [← hwords] at hline
  obtain ⟨hmethod, hpath, hversion⟩ := h.line.same hline hthree
  refine ⟨hmethod, hpath, hversion, ?_, ?_, ?_⟩
  · rw [h.headerCount, h'.headerCount, hheaders]
  · rw [h.headerLines, h'.headerLines, hheaders]
  · rw [h.body, h'.body, hbody]

/-- A path that is refused is refused with every version. -/
lemma accepted_refusedPath (version : List UInt8) : accepted version refusedPath.bytes = false := by
  rw [accepted, beq_self_eq_true, Bool.not_true, Bool.and_false]

/-- The words of a request line are no more than three, and no longer than their widths. -/
lemma requestWords_le (text : CString) :
    (requestWords text).length ≤ 3 ∧
      ∀ (i : ℕ) (word : List UInt8) (width : ℕ), (requestWords text)[i]? = some word →
        [7, 255, 15][i]? = some width → word.length ≤ width := by
  rw [requestWords]
  rcases Option.eq_none_or_eq_some (lineEnd text) with hend | ⟨length, hend⟩
  · rw [hend]
    exact ⟨Nat.zero_le _, fun i word width hword => by cases hword⟩
  · rw [hend]
    exact scanWords_le _ _

/-- The text in front of the first zero is what is read. -/
lemma words_of_readRequest (hread : readRequest (text.bytes ++ 0 :: behind) = some reading) :
    reading.words = requestWords text := by
  obtain ⟨text', htext, hread⟩ := Option.bind_eq_some_iff.mp hread
  obtain ⟨⟨headers, ptr⟩, -, hbody⟩ := Option.bind_eq_some_iff.mp hread
  obtain ⟨rest, -, rfl⟩ := Option.map_eq_some_iff.mp hbody
  obtain rfl := Option.some.inj ((stringAt_append [] text behind).symm.trans htext)
  rfl

/-- Memory in which the earlier request `GET http://a/ HTTP/1.1` was. -/
def leftover : RequestMemory :=
  { RequestText.zeroMemory with
    method := ⟨methodGet.bytes ++ List.replicate 5 0, rfl⟩
    path := ⟨samplePath.bytes ++ List.replicate 503 0, by
      rw [List.length_append, List.length_replicate]
      rfl⟩
    version := ⟨http11.bytes ++ List.replicate 8 0, rfl⟩ }

/-- Where the version is not read and the path is not refused, the memory decides. -/
lemma not_parsedAlike (text : CString) (hwords : (requestWords text).length ≠ 3)
    (hpath : (requestWords text)[1]? ≠ some refusedPath.bytes) :
    ¬ ParsedAlike (text.bytes ++ 0 :: behind) := by
  intro halike
  obtain ⟨request, request', verdict, hparse, hparse', hverdict, hverdict', -⟩ :=
    halike leftover RequestText.zeroMemory
  obtain ⟨reading, hread, hholds⟩ := exists_reading hparse
  obtain ⟨reading', hread', hholds'⟩ := exists_reading hparse'
  obtain rfl := Option.some.inj (hread'.symm.trans hread)
  have hnone : reading'.words[2]? = none := by
    have hle := (requestWords_le text).1
    rw [List.getElem?_eq_none_iff, words_of_readRequest hread]
    omega
  have hversion : request.version.string.bytes = http11.bytes := by
    rw [hholds.line.version, hnone]
    rfl
  have hversion' : request'.version.string.bytes = [] := by
    rw [hholds'.line.version, hnone]
    rfl
  have hne : request.path.string.bytes ≠ refusedPath.bytes := by
    rw [hholds.line.path, words_of_readRequest hread]
    intro heq
    rcases Option.eq_none_or_eq_some (requestWords text)[1]? with hword | ⟨word, hword⟩
    · rw [hword] at heq
      exact absurd heq (by decide)
    · rw [hword] at heq hpath
      exact hpath (congrArg some heq)
  rw [validateRequest_eq, hversion, accepted, beq_eq_false_iff_ne.mpr hne] at hverdict
  rw [validateRequest_eq, hversion'] at hverdict'
  obtain rfl := Option.some.inj hverdict
  cases hverdict'

/-- A text is parsed alike in every memory if and only if the parser stays within the text's memory
and `sscanf` finds all three words, or the second word is the refused path. -/
theorem parsedAlike_iff (text : CString) (behind : List UInt8) :
    ParsedAlike (text.bytes ++ 0 :: behind) ↔
      (∀ n ≤ 10, ∀ p ∈ lineStart (text.bytes ++ 0 :: behind) 0 n,
        (stringAt (text.bytes ++ 0 :: behind) p).isSome) ∧
      ((requestWords text).length = 3 ∨ (requestWords text)[1]? = some refusedPath.bytes) := by
  rw [← isSome_readRequest_iff]
  constructor
  · intro halike
    constructor
    · obtain ⟨request, -, -, hparse, -⟩ := halike RequestText.zeroMemory RequestText.zeroMemory
      obtain ⟨reading, hread, -⟩ := exists_reading hparse
      rw [hread, Option.isSome_some]
    · by_contra hnot
      obtain ⟨hwords, hpath⟩ := not_or.mp hnot
      exact not_parsedAlike text hwords hpath halike
  · rintro ⟨hsome, hwords⟩ memory memory'
    obtain ⟨reading, hread⟩ := Option.isSome_iff_exists.mp hsome
    obtain ⟨request, hparse, hholds⟩ := exists_parse hread memory
    obtain ⟨request', hparse', hholds'⟩ := exists_parse hread memory'
    rw [← words_of_readRequest hread] at hwords
    rcases hwords with hthree | hrefused
    · have hsame := hholds.same hholds' rfl hthree rfl rfl
      refine ⟨request, request', _, hparse, hparse', request.validateRequest_eq, ?_, fun _ => hsame⟩
      rw [validateRequest_eq, hsame.version, hsame.path]
    · refine ⟨request, request', false, hparse, hparse', ?_, ?_, nofun⟩
      · rw [validateRequest_eq, hholds.line.path, hrefused]
        exact congrArg some (accepted_refusedPath _)
      · rw [validateRequest_eq, hholds'.line.path, hrefused]
        exact congrArg some (accepted_refusedPath _)

/-- A closed connection is served the path of an earlier request. -/
theorem closed_not_parsedAlike : ∃ request,
    parseHttpRequest (Received.mk [] (by decide)).requestBuf leftover = some request ∧
    request.validateRequest = some true ∧ request.path.string = samplePath.toCString ∧
    ¬ ParsedAlike (Received.mk [] (by decide)).requestBuf := by
  obtain ⟨request, hparse⟩ := Option.isSome_iff_exists.mp
    (show (parseHttpRequest (Received.mk [] (by decide)).requestBuf leftover).isSome = true by
      decide +kernel)
  have hverdict : (parseHttpRequest (Received.mk [] (by decide)).requestBuf leftover).bind
      validateRequest = some true := by
    decide +kernel
  have hpath : (parseHttpRequest (Received.mk [] (by decide)).requestBuf leftover).map
      (·.path.string) = some samplePath.toCString := by
    decide +kernel
  rw [hparse] at hverdict hpath
  refine ⟨request, hparse, hverdict, Option.some.inj hpath, ?_⟩
  exact not_parsedAlike CString.empty (by decide) (by decide)

/-! ## Words of the first line -/

/-- The text in front of the first line feed. -/
def firstLine (text : CString) : List UInt8 := text.bytes.takeWhile (· ≠ 10)

/-- The fields are the first three words of the first line. -/
def Faithful (text : CString) (request : RequestMemory) : Prop :=
  ∃ more, tokens (firstLine text) = request.method.string.bytes ::
    request.path.string.bytes :: request.version.string.bytes :: more

/-- The words that `sscanf` takes from the text are a request that is accepted. -/
def Acceptable (text : CString) : Prop :=
  ∃ method path version, requestWords text = [method, path, version] ∧
    accepted version path = true

/-- The first line has at least three words, and the first two fit the widths. -/
def FitsLine (text : CString) : Prop :=
  ∃ method path version more, tokens (firstLine text) = method :: path :: version :: more ∧
    method.length ≤ 7 ∧ path.length ≤ 255

/-- Without a former version, a request is accepted for the words that were read. -/
lemma acceptable_of_validateRequest (hversion : memory.version.string = CString.empty)
    (hholds : request.HoldsWords memory (requestWords text))
    (hverdict : request.validateRequest = some true) :
    Acceptable text ∧ requestWords text = [request.method.string.bytes, request.path.string.bytes,
      request.version.string.bytes] := by
  have haccepted := Option.some.inj ((validateRequest_eq request).symm.trans hverdict)
  have hlen : (requestWords text).length = 3 := by
    have hle := (requestWords_le text).1
    by_contra hne
    have hnone : (requestWords text)[2]? = none := List.getElem?_eq_none_iff.mpr (by omega)
    have hlength := length_of_accepted haccepted
    rw [hholds.version, hnone, hversion] at hlength
    cases hlength
  obtain ⟨method, path, version, hwords⟩ := List.length_eq_three.mp hlen
  obtain ⟨hmethod, hpath, hversion⟩ := hholds
  rw [hwords] at hmethod hpath hversion
  rw [hwords, hmethod, hpath, hversion]
  rw [hpath, hversion] at haccepted
  exact ⟨⟨method, path, version, hwords, haccepted⟩, rfl⟩

/-- Words that are acceptable are accepted. -/
lemma validateRequest_of_acceptable (hholds : request.HoldsWords memory (requestWords text))
    (h : Acceptable text) : request.validateRequest = some true := by
  obtain ⟨method, path, version, hwords, haccepted⟩ := h
  rw [validateRequest_eq, hholds.version, hholds.path, hwords]
  exact congrArg some haccepted

/-- Where words are read, the text has a first line, and its words are read first. -/
lemma requestWords_eq (hwords : (requestWords text).length = 3)
    (htokens : 3 ≤ (tokens (firstLine text)).length) :
    requestWords text = scanWords [7, 255, 15] (firstLine text) := by
  rw [requestWords] at hwords ⊢
  rcases Option.eq_none_or_eq_some (lineEnd text) with hend | ⟨length, hend⟩
  · rw [hend] at hwords
    cases hwords
  · rw [hend]
    have hmem : 10 ∈ text.bytes := by
      rcases Option.or_eq_some_iff.mp hend with h | ⟨-, h⟩
      · exact strstr_subset h (by decide)
      · exact strstr_subset h (by decide)
    obtain ⟨behind, hbytes⟩ : ∃ behind, text.bytes = firstLine text ++ 10 :: behind := by
      have hsplit := List.takeWhile_append_dropWhile (p := (· ≠ 10)) (l := text.bytes)
      cases hdrop : text.bytes.dropWhile (· ≠ 10) with
      | nil =>
        rw [List.dropWhile_eq_nil_iff] at hdrop
        exact absurd rfl (of_decide_eq_true (hdrop 10 hmem))
      | cons c behind =>
        have hhead := List.head?_dropWhile_not (fun c : UInt8 => decide (c ≠ 10)) text.bytes
        rw [hdrop] at hhead hsplit
        obtain rfl : c = 10 := by simpa using hhead
        exact ⟨behind, hsplit.symm⟩
    have happend := (scanWords_append [7, 255, 15] (by decide) htokens
      (show isSpace 10 = true by decide) behind).1
    rw [← hbytes] at happend
    exact happend

/-- An accepted request whose first two words fit has its words in full. -/
lemma faithful_of_fitsLine (hwords : requestWords text = [request.method.string.bytes,
      request.path.string.bytes, request.version.string.bytes])
    (hlength : request.version.string.bytes.length = 8) (h : FitsLine text) :
    Faithful text request := by
  obtain ⟨method, path, version, more, htokens, hmethod, hpath⟩ := h
  rw [requestWords_eq (by rw [hwords]; rfl) (by rw [htokens]; exact Nat.le_add_left _ _)] at hwords
  obtain ⟨rest, hrest, hscan⟩ := scanWords_of_tokens (by decide) htokens hmethod [255, 15]
  obtain ⟨rest', hrest', hscan'⟩ := scanWords_of_tokens (by decide) hrest hpath [15]
  obtain ⟨rest'', hscan'', -⟩ := exists_scanWord 15 (by decide) hrest'
  rw [hscan, hscan', scanWords, hscan''] at hwords
  simp only [scanWords, List.cons.injEq, and_true] at hwords
  obtain ⟨rfl, rfl, hversion⟩ := hwords
  have hfull : version.take 15 = version := by
    refine List.take_of_length_le ?_
    rw [← hversion, List.length_take] at hlength
    omega
  exact ⟨more, by rw [htokens, ← hversion, hfull]⟩

/-- A request that was parsed into memory without a version is accepted only for the first three
words of the first line, in full, if and only if the words that `sscanf` takes are not acceptable
or the first line has three words of which the first two fit the widths. -/
theorem faithful_iff (hversion : memory.version.string = CString.empty)
    (hparse : parseHttpRequest (text.bytes ++ 0 :: behind) memory = some request) :
    (request.validateRequest = some true → Faithful text request) ↔
      ¬ Acceptable text ∨ FitsLine text := by
  obtain ⟨reading, hread, hholds⟩ := exists_reading hparse
  have hline := hholds.line
  rw [words_of_readRequest hread] at hline
  constructor
  · intro hfaithful
    by_cases hacceptable : Acceptable text
    · have hverdict := validateRequest_of_acceptable hline hacceptable
      obtain ⟨-, hwords⟩ := acceptable_of_validateRequest hversion hline hverdict
      obtain ⟨more, htokens⟩ := hfaithful hverdict
      have hle := (requestWords_le text).2
      rw [hwords] at hle
      exact Or.inr ⟨_, _, _, more, htokens, hle 0 _ 7 rfl rfl, hle 1 _ 255 rfl rfl⟩
    · exact Or.inl hacceptable
  · intro hcondition hverdict
    obtain ⟨hacceptable, hwords⟩ := acceptable_of_validateRequest hversion hline hverdict
    rcases hcondition with hnot | hfits
    · exact absurd hacceptable hnot
    · have haccepted := Option.some.inj ((validateRequest_eq request).symm.trans hverdict)
      exact faithful_of_fitsLine hwords (length_of_accepted haccepted) hfits

/-- The request `GET http://a/ HTTP/1.1` without headers. -/
def plainText : CString :=
  methodGet.toCString ++ blank ++ samplePath.toCString ++ blank ++ http11 ++ crlf ++ crlf

/-- Its words fit, so it is accepted for what it says. -/
theorem faithful_plainText : ∃ request,
    parseHttpRequest (plainText.bytes ++ 0 :: []) RequestText.zeroMemory = some request ∧
    request.validateRequest = some true ∧ Faithful plainText request := by
  obtain ⟨request, hparse⟩ := Option.isSome_iff_exists.mp
    (show (parseHttpRequest (plainText.bytes ++ 0 :: []) RequestText.zeroMemory).isSome = true by
      decide +kernel)
  have hverdict : (parseHttpRequest (plainText.bytes ++ 0 :: []) RequestText.zeroMemory).bind
      validateRequest = some true := by
    decide +kernel
  rw [hparse] at hverdict
  refine ⟨request, hparse, hverdict, (faithful_iff ?_ hparse).mpr (Or.inr ?_) hverdict⟩
  · decide
  · exact ⟨methodGet.bytes, samplePath.bytes, http11.bytes, [], by decide +kernel, by decide,
      by decide⟩

/-- The first line `ABCDEFGH HTTP/1.1` without headers. -/
def splitText : CString :=
  ⟨CString.ascii ['A', 'B', 'C', 'D', 'E', 'F', 'G', 'H'], by decide⟩ ++ blank ++ http11 ++
    crlf ++ crlf

/-- A line of two words is accepted, since the end of the first one is taken for the path. -/
theorem splitText_not_faithful : ∃ request,
    parseHttpRequest (splitText.bytes ++ 0 :: []) RequestText.zeroMemory = some request ∧
    request.validateRequest = some true ∧ request.path.string.bytes = [72] ∧
    ¬ Faithful splitText request := by
  obtain ⟨request, hparse⟩ := Option.isSome_iff_exists.mp
    (show (parseHttpRequest (splitText.bytes ++ 0 :: []) RequestText.zeroMemory).isSome = true by
      decide +kernel)
  have hverdict : (parseHttpRequest (splitText.bytes ++ 0 :: []) RequestText.zeroMemory).bind
      validateRequest = some true := by
    decide +kernel
  have hpath : (parseHttpRequest (splitText.bytes ++ 0 :: []) RequestText.zeroMemory).map
      (·.path.string.bytes) = some [72] := by
    decide +kernel
  rw [hparse] at hverdict hpath
  refine ⟨request, hparse, hverdict, Option.some.inj hpath, ?_⟩
  rintro ⟨more, htokens⟩
  have hlen : (tokens (firstLine splitText)).length = 2 := by decide +kernel
  rw [htokens] at hlen
  cases hlen

end RequestMemory

end OsLabs.Proxy
