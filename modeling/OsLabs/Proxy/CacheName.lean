import OsLabs.Proxy.Cache
import OsLabs.Proxy.PathHash
import OsLabs.Proxy.RequestFields

/-!
# Cache names

`parse_request_to_cachename` of `lab3/src/chunk/cache.c` with `parse_host` of `common.c`. A name is
the method, the host and a hash of the path with underscores between them. The host is cut at a
slash, but the method is taken from the client as it is; and the name tells two requests apart by
the text of method and host and by 32 bits of the hash.

`cachename_identifies_iff` says when this is enough, in terms of the method, the path and the body:
`hostPart` is the host as a part of the path, and `SameBase33` compares two paths as numbers.
-/

namespace OsLabs.Proxy

open CString Reading RequestMemory

/-- The text `://`. -/
def schemeEnd : CString := ⟨[58, 47, 47], by decide⟩

/-- An underscore. -/
def underscore : CString := ⟨[95], by decide⟩

/-- The text `.cch`. -/
def cacheExtension : CString := ⟨[46, 99, 99, 104], by decide⟩

/-- `parse_host`. -/
def parseHost (url : CString) : CString :=
  let hostStart := (strstr schemeEnd.bytes url.bytes).elim url fun i => url.drop (i + 3)
  hostStart.truncate ((hostStart.bytes.findIdx? (· == 47)).getD hostStart.bytes.length)

/-- A host has no slash. -/
lemma slash_notMem_parseHost (url : CString) : 47 ∉ (parseHost url).bytes := by
  have hcut (s : List UInt8) : 47 ∉ s.take ((s.findIdx? (· == 47)).getD s.length) := by
    intro hmem
    obtain ⟨i, hi, hget⟩ := List.mem_take_iff_getElem.mp hmem
    rcases Option.eq_none_or_eq_some (s.findIdx? (· == 47)) with hfind | ⟨n, hfind⟩
    · rw [List.findIdx?_eq_none_iff] at hfind
      have hne := hfind _ (List.mem_of_mem_take hmem)
      exact absurd hne (by decide)
    · rw [hfind, Option.getD_some] at hi
      obtain ⟨_, _, hbefore⟩ := List.findIdx?_eq_some_iff_getElem.mp hfind
      exact hbefore i (by omega) (beq_iff_eq.mpr hget)
  exact hcut _

namespace RequestMemory

variable {request request' memory : RequestMemory} {text : CString} {behind : List UInt8}

/-- The part of the name in front of the hash: `%s_%s` with the method and the host. -/
def methodHost (request : RequestMemory) : CString :=
  request.method.string ++ underscore ++ parseHost request.path.string

/-- The hash in the name. -/
def pathHash (request : RequestMemory) : UInt32 := hashn request.path.string 512

/-- The text `%s_%s_%ld.cch` with the method, the host and the hash. -/
def cachenameText (request : RequestMemory) : CString :=
  request.methodHost ++ underscore ++ ofDecimal request.pathHash.toNat ++ cacheExtension

/-- `parse_request_to_cachename`; `none` where `sprintf` would write behind the buffer. -/
def parseRequestToCachename (request : RequestMemory) : Option (CharArray cachenameLen) :=
  if h : request.cachenameText.bytes.length < cachenameLen then some ⟨request.cachenameText, h⟩
  else none

/-- The name of a request whose words were read fits into the buffer. -/
lemma exists_cachename (hholds : request.HoldsWords memory (requestWords text))
    (hwords : (requestWords text).length = 3) :
    ∃ name, request.parseRequestToCachename = some name ∧
      name.bytes = request.cachenameText.bytes := by
  obtain ⟨method, path, version, hlist⟩ := List.length_eq_three.mp hwords
  have hle := (requestWords_le text).2
  have hmethod := hholds.method
  have hpath := hholds.path
  rw [hlist] at hle hmethod hpath
  have hmethod_le : request.method.string.bytes.length ≤ 7 := by
    rw [hmethod]
    exact hle 0 method 7 rfl rfl
  have hpath_le : request.path.string.bytes.length ≤ 255 := by
    rw [hpath]
    exact hle 1 path 255 rfl rfl
  have hhost_le : (parseHost request.path.string).bytes.length ≤ 255 := by
    refine Nat.le_trans (List.length_take_le' _ _) (Nat.le_trans ?_ hpath_le)
    cases strstr schemeEnd.bytes request.path.string.bytes with
    | none => exact Nat.le_refl _
    | some i => exact Nat.le_trans (Nat.le_of_eq List.length_drop) (Nat.sub_le _ _)
  have hhash_le := length_decimal_le (Nat.lt_trans request.pathHash.toNat_lt (by decide))
  have hlen : request.cachenameText.bytes.length < cachenameLen := by
    simp only [cachenameText, methodHost, ofDecimal, underscore, cacheExtension, bytes_append,
      List.length_append, List.length_cons, List.length_nil, cachenameLen]
    omega
  exact ⟨_, dif_pos hlen, rfl⟩

/-- A name has a slash where its method has. -/
lemma slash_mem_cachenameText :
    47 ∈ request.cachenameText.bytes ↔ 47 ∈ request.method.string.bytes := by
  have hhost := slash_notMem_parseHost request.path.string
  have hhash : 47 ∉ decimal request.pathHash.toNat :=
    fun h => absurd (mem_decimal h).1 (by decide)
  simp only [cachenameText, methodHost, ofDecimal, underscore, cacheExtension, bytes_append,
    List.mem_append]
  simp [hhost, hhash]

/-- The name for a request whose three words were read lies in the cache directory if and only if
the word for the method, as far as it is read, has no slash. -/
theorem slash_notMem_cachename_iff
    (hparse : parseHttpRequest (text.bytes ++ 0 :: behind) memory = some request)
    (hwords : (requestWords text).length = 3) :
    ∃ name, request.parseRequestToCachename = some name ∧
      (47 ∉ name.bytes ↔ ∀ word ∈ (requestWords text)[0]?, 47 ∉ word) := by
  obtain ⟨reading, hread, hholds⟩ := exists_reading hparse
  have hline := hholds.line
  rw [words_of_readRequest hread] at hline
  obtain ⟨name, hname, hbytes⟩ := exists_cachename hline hwords
  obtain ⟨method, path, version, hlist⟩ := List.length_eq_three.mp hwords
  refine ⟨name, hname, ?_⟩
  rw [hbytes, slash_mem_cachenameText, hline.method, hlist]
  exact ⟨fun h word hword => Option.some.inj hword ▸ h, fun h => h method rfl⟩

/-- The request `GET http://a/ HTTP/1.1` is cached in the directory. -/
theorem slash_notMem_cachename_plainText : ∃ request name,
    parseHttpRequest (plainText.bytes ++ 0 :: []) RequestText.zeroMemory = some request ∧
    request.parseRequestToCachename = some name ∧ 47 ∉ name.bytes := by
  obtain ⟨request, hparse⟩ := Option.isSome_iff_exists.mp
    (show (parseHttpRequest (plainText.bytes ++ 0 :: []) RequestText.zeroMemory).isSome = true by
      decide +kernel)
  obtain ⟨name, hname, hslash⟩ := slash_notMem_cachename_iff hparse (by decide +kernel)
  exact ⟨request, name, hparse, hname, hslash.mpr (by decide +kernel)⟩

/-- The request `../x http://a/ HTTP/1.1`. -/
def dottedText : CString :=
  ⟨CString.ascii ['.', '.', '/', 'x'], by decide⟩ ++ blank ++ samplePath.toCString ++ blank ++
    http11 ++ crlf ++ crlf

/-- Its name leaves the directory. -/
theorem slash_mem_cachename_dottedText : ∃ request name,
    parseHttpRequest (dottedText.bytes ++ 0 :: []) RequestText.zeroMemory = some request ∧
    request.validateRequest = some true ∧ request.parseRequestToCachename = some name ∧
    name.bytes.take 4 = CString.ascii ['.', '.', '/', 'x'] ∧ ¬ 47 ∉ name.bytes := by
  obtain ⟨request, hparse⟩ := Option.isSome_iff_exists.mp
    (show (parseHttpRequest (dottedText.bytes ++ 0 :: []) RequestText.zeroMemory).isSome = true by
      decide +kernel)
  have hverdict : (parseHttpRequest (dottedText.bytes ++ 0 :: []) RequestText.zeroMemory).bind
      validateRequest = some true := by
    decide +kernel
  have hstart : ((parseHttpRequest (dottedText.bytes ++ 0 :: []) RequestText.zeroMemory).bind
      parseRequestToCachename).map (·.bytes.take 4) =
        some (CString.ascii ['.', '.', '/', 'x']) := by
    decide +kernel
  rw [hparse] at hverdict hstart
  obtain ⟨name, hname, hbytes⟩ := Option.map_eq_some_iff.mp hstart
  refine ⟨request, name, hparse, hverdict, hname, hbytes, fun hnot => hnot ?_⟩
  refine List.mem_of_mem_take (i := 4) ?_
  rw [hbytes]
  decide

/-- Names are equal when their texts of method and host and their hashes are. -/
lemma cachenameText_eq_iff : request.cachenameText = request'.cachenameText ↔
    request.methodHost = request'.methodHost ∧ request.pathHash = request'.pathHash := by
  have hnot (n : ℕ) : 95 ∉ decimal n ++ cacheExtension.bytes := by
    intro h
    rcases List.mem_append.mp h with h | h
    · exact absurd (mem_decimal h).2 (by decide)
    · exact absurd h (by decide)
  constructor
  · intro h
    have hbytes := congrArg CString.bytes h
    simp only [cachenameText, bytes_append, List.append_assoc, underscore, ofDecimal,
      List.singleton_append] at hbytes
    obtain ⟨hmethodHost, hrest⟩ := append_cons_inj (hnot _) (hnot _) hbytes
    have hhash := decimal_injective (List.append_cancel_right hrest)
    exact ⟨CString.ext hmethodHost, UInt32.toNat_inj.mp hhash⟩
  · rintro ⟨hmethodHost, hhash⟩
    rw [cachenameText, cachenameText, hmethodHost, hhash]

/-- A name in the buffer is the text. -/
lemma toCString_cachename {name : CharArray cachenameLen}
    (h : request.parseRequestToCachename = some name) : name.toCString = request.cachenameText := by
  rw [parseRequestToCachename] at h
  split_ifs at h
  rw [← Option.some.inj h]

/-- The text of a path behind the first `://`, or all of it, up to the next slash. -/
def hostPart (path : List UInt8) : List UInt8 :=
  ((path.tails.find? schemeEnd.bytes.isPrefixOf).elim path (List.drop 3)).takeWhile (· != 47)

/-- The first tail that begins with a text is where the text is found. -/
lemma find?_tails (needle s : List UInt8) :
    s.tails.find? needle.isPrefixOf = (strstr needle s).map s.drop := by
  induction s with
  | nil => cases needle <;> rfl
  | cons c s ih =>
    rw [List.tails_cons, List.find?_cons, strstr]
    cases hfound : needle.isPrefixOf (c :: s) with
    | true => rfl
    | false =>
      dsimp only
      rw [ih, if_neg Bool.false_ne_true, Option.map_map]
      rfl

/-- `parse_host` cuts the host out of the path. -/
lemma bytes_parseHost (path : CString) : (parseHost path).bytes = hostPart path.bytes := by
  have hcut (start : CString) :
      (start.truncate ((start.bytes.findIdx? (· == 47)).getD start.bytes.length)).bytes =
        start.bytes.takeWhile (· != 47) := by
    rw [← List.findIdx_eq_getD_findIdx?, List.takeWhile_eq_take_findIdx_not]
    simp only [bne, Bool.not_not]
    rfl
  unfold parseHost
  rw [hcut, hostPart, find?_tails]
  cases strstr schemeEnd.bytes path.bytes with
  | none => rfl
  | some i =>
    rw [Option.map_some, Option.elim_some, Option.elim_some, List.drop_drop]
    rfl

/-- Two methods with their hosts are the same text when they are joined with an underscore: they are
the same, or an underscore and what is behind it is the end of one method and, with the underscore
behind it, the beginning of the other host. -/
def JoinAlike (method host method' host' : List UInt8) : Prop :=
  (method = method' ∧ host = host') ∨
    (∃ w, method = method' ++ 95 :: w ∧ host' = w ++ 95 :: host) ∨
      ∃ w, method' = method ++ 95 :: w ∧ host = w ++ 95 :: host'

/-- That is when the joined texts are equal. -/
lemma joinAlike_iff {method host method' host' : List UInt8} :
    JoinAlike method host method' host' ↔ method ++ 95 :: host = method' ++ 95 :: host' := by
  constructor
  · rintro (⟨rfl, rfl⟩ | ⟨w, rfl, rfl⟩ | ⟨w, rfl, rfl⟩)
    · rfl
    · rw [List.append_assoc, List.cons_append]
    · rw [List.append_assoc, List.cons_append]
  · intro h
    rcases List.append_eq_append_iff.mp h with ⟨rest, hmethod, hhost⟩ | ⟨rest, hmethod, hhost⟩
    · cases rest with
      | nil =>
        rw [List.append_nil] at hmethod
        exact Or.inl ⟨hmethod.symm, (List.cons.inj hhost).2⟩
      | cons c w =>
        obtain ⟨rfl, hrest⟩ := List.cons.inj hhost
        exact Or.inr (Or.inr ⟨w, hmethod, hrest⟩)
    · cases rest with
      | nil =>
        rw [List.append_nil] at hmethod
        exact Or.inl ⟨hmethod, (List.cons.inj hhost).2.symm⟩
      | cons c w =>
        obtain ⟨rfl, hrest⟩ := List.cons.inj hhost
        exact Or.inr (Or.inl ⟨w, hmethod, hrest⟩)

/-- The texts of method and host are equal when method and host join alike. -/
lemma methodHost_eq_iff : request.methodHost = request'.methodHost ↔
    JoinAlike request.method.string.bytes (hostPart request.path.string.bytes)
      request'.method.string.bytes (hostPart request'.path.string.bytes) := by
  rw [joinAlike_iff, CString.ext_iff]
  simp only [methodHost, bytes_append, underscore, bytes_parseHost, List.append_assoc,
    List.singleton_append]

/-- The hashes are equal when the paths are worth the same. -/
lemma pathHash_eq_iff : request.pathHash = request'.pathHash ↔
    SameBase33 request.path.string.bytes request'.path.string.bytes :=
  hashn_eq_iff request.path.length_string_le request'.path.length_string_le

/-- Method, path and body are the same. -/
def SameQuery (request request' : RequestMemory) : Prop :=
  request.method.string = request'.method.string ∧ request.path.string = request'.path.string ∧
    request.body.string = request'.body.string

/-- Two requests with the same name have the same method, path and body, if and only if: for one
path, the methods differ or the bodies are equal; for two paths, the paths are not worth the same to
the base 33 or method and host do not join alike. -/
theorem cachename_identifies_iff {name name' : CharArray cachenameLen}
    (hname : request.parseRequestToCachename = some name)
    (hname' : request'.parseRequestToCachename = some name') :
    (name = name' → SameQuery request request') ↔
      if request.path.string = request'.path.string then
        request.method.string ≠ request'.method.string ∨
          request.body.string = request'.body.string
      else
        ¬ SameBase33 request.path.string.bytes request'.path.string.bytes ∨
          ¬ JoinAlike request.method.string.bytes (hostPart request.path.string.bytes)
            request'.method.string.bytes (hostPart request'.path.string.bytes) := by
  have heq : name = name' ↔
      request.methodHost = request'.methodHost ∧ request.pathHash = request'.pathHash := by
    rw [← cachenameText_eq_iff, ← toCString_cachename hname, ← toCString_cachename hname']
    exact ⟨congrArg CharArray.toCString, fun h => CharArray.ext (congrArg CString.bytes h)⟩
  rw [heq]
  split_ifs with hpath
  · -- one path has one host and one hash, so that the names differ when the methods do
    have hmethods : request.methodHost = request'.methodHost ∧
        request.pathHash = request'.pathHash ↔
          request.method.string = request'.method.string := by
      rw [methodHost_eq_iff, joinAlike_iff, hpath, List.append_cancel_right_eq, CString.ext_iff,
        pathHash, pathHash, hpath]
      exact and_iff_left rfl
    rw [hmethods]
    constructor
    · intro h
      by_cases hmethod : request.method.string = request'.method.string
      · exact Or.inr (h hmethod).2.2
      · exact Or.inl hmethod
    · rintro (hmethod | hbody) hsame
      · exact absurd hsame hmethod
      · exact ⟨hsame, hpath, hbody⟩
  · -- for two paths only different names will do
    rw [methodHost_eq_iff, pathHash_eq_iff]
    constructor
    · intro h
      by_contra hnot
      rw [not_or, not_not, not_not] at hnot
      exact hpath (h ⟨hnot.2, hnot.1⟩).2.1
    · rintro (hworth | hjoin) ⟨hjoin', hworth'⟩
      · exact absurd hworth' hworth
      · exact absurd hjoin' hjoin

/-- The requests `GET http://a/` and `POST http://a/` have different names. -/
theorem cachename_identifies_methods : ∃ name name',
    leftover.parseRequestToCachename = some name ∧
    { leftover with method := ⟨methodPost.bytes ++ List.replicate 4 0, rfl⟩
      : RequestMemory }.parseRequestToCachename = some name' ∧ name ≠ name' := by
  obtain ⟨name, hname⟩ := Option.isSome_iff_exists.mp
    (show leftover.parseRequestToCachename.isSome = true by decide +kernel)
  obtain ⟨name', hname'⟩ := Option.isSome_iff_exists.mp
    (show ({ leftover with method := ⟨methodPost.bytes ++ List.replicate 4 0, rfl⟩
      : RequestMemory }.parseRequestToCachename).isSome = true by decide +kernel)
  refine ⟨name, name', hname, hname', fun heq => ?_⟩
  have hsame := (cachename_identifies_iff hname hname').mpr (by
    rw [if_pos rfl]
    exact Or.inl (by decide +kernel)) heq
  exact absurd hsame.1 (by decide)

/-- What is parsed for the request `GET` for a page of the host `a`. -/
def pageRequest (page : List UInt8) (hpage : 0 ∉ page) : Option RequestMemory :=
  parseHttpRequest ((methodGet.toCString ++ blank ++ samplePath.toCString ++ ⟨page, hpage⟩ ++
    blank ++ http11 ++ crlf ++ crlf).bytes ++ 0 :: []) RequestText.zeroMemory

/-- The pages `ab` and `bA` have the same name, since their hashes are equal. -/
theorem pages_same_cachename : ∃ request request' name,
    pageRequest [97, 98] (by decide) = some request ∧
    pageRequest [98, 65] (by decide) = some request' ∧
    request.validateRequest = some true ∧ request'.validateRequest = some true ∧
    request.parseRequestToCachename = some name ∧ request'.parseRequestToCachename = some name ∧
    request.path.string ≠ request'.path.string ∧ ¬ SameQuery request request' := by
  obtain ⟨request, hparse⟩ := Option.isSome_iff_exists.mp
    (show (pageRequest [97, 98] (by decide)).isSome = true by decide +kernel)
  obtain ⟨request', hparse'⟩ := Option.isSome_iff_exists.mp
    (show (pageRequest [98, 65] (by decide)).isSome = true by decide +kernel)
  have hverdict : (pageRequest [97, 98] (by decide)).bind validateRequest = some true := by
    decide +kernel
  have hverdict' : (pageRequest [98, 65] (by decide)).bind validateRequest = some true := by
    decide +kernel
  have hname : ((pageRequest [97, 98] (by decide)).bind parseRequestToCachename).isSome = true := by
    decide +kernel
  have hsame : (pageRequest [97, 98] (by decide)).bind parseRequestToCachename =
      (pageRequest [98, 65] (by decide)).bind parseRequestToCachename := by
    decide +kernel
  have hpath : (pageRequest [97, 98] (by decide)).map (·.path.string) ≠
      (pageRequest [98, 65] (by decide)).map (·.path.string) := by
    decide +kernel
  rw [hparse] at hverdict hname hsame hpath
  rw [hparse'] at hverdict' hsame hpath
  obtain ⟨name, hname⟩ := Option.isSome_iff_exists.mp hname
  have hne : request.path.string ≠ request'.path.string := fun heq => hpath (congrArg some heq)
  exact ⟨request, request', name, hparse, hparse', hverdict, hverdict', hname,
    hsame.symm.trans hname, hne, fun h => hne h.2.1⟩

end RequestMemory

end OsLabs.Proxy
