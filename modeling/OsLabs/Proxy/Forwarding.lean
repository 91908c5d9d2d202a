import OsLabs.Proxy.RequestText

/-!
# The request to the server

`send_http_request` of `lab3/src/http_utils/http_utils.c` up to `curl_easy_perform`: the options
that say which request libcurl sends.  libcurl itself is not part of the sources.  Its functions are
a parameter, `Curl`, and what the code relies on is `Curl.Documented`.

`forwarded_iff` follows a request from the buffer of `__handle_client` through the parser into these
options.  The body comes through when it has no line end and there are at most eight headers, so
that the parser stores them, and the empty line, before its limit.
-/

namespace OsLabs.Proxy

open CString RequestMemory

/-- `__http_method_t`. -/
inductive HttpMethod
  | undefined
  | get
  | post
  | put
  | delete
  | head
  | patch
  deriving DecidableEq

/-- The method `PUT`. -/
def methodPut : CharArray 8 := ⟨⟨CString.ascii ['P', 'U', 'T'], by decide⟩, by decide⟩

/-- The method `DELETE`. -/
def methodDelete : CharArray 8 :=
  ⟨⟨CString.ascii ['D', 'E', 'L', 'E', 'T', 'E'], by decide⟩, by decide⟩

/-- The method `HEAD`. -/
def methodHead : CharArray 8 := ⟨⟨CString.ascii ['H', 'E', 'A', 'D'], by decide⟩, by decide⟩

/-- The method `PATCH`. -/
def methodPatch : CharArray 8 := ⟨⟨CString.ascii ['P', 'A', 'T', 'C', 'H'], by decide⟩, by decide⟩

/-- `__parse_method`. -/
def parseMethod (str : CString) : HttpMethod :=
  if str = methodGet.toCString then .get
  else if str = methodPost.toCString then .post
  else if str = methodPut.toCString then .put
  else if str = methodDelete.toCString then .delete
  else if str = methodHead.toCString then .head
  else if str = methodPatch.toCString then .patch
  else .undefined

/-- The text of a method that is known. -/
def HttpMethod.text : HttpMethod → Option CString
  | .undefined => none
  | .get => some methodGet.toCString
  | .post => some methodPost.toCString
  | .put => some methodPut.toCString
  | .delete => some methodDelete.toCString
  | .head => some methodHead.toCString
  | .patch => some methodPatch.toCString

/-- A method is known by its text. -/
lemma parseMethod_eq_iff {str text : CString} {method : HttpMethod}
    (htext : method.text = some text) : parseMethod str = method ↔ str = text := by
  constructor
  · rintro rfl
    unfold parseMethod at htext
    split_ifs at htext with h₁ h₂ h₃ h₄ h₅ h₆
    · exact h₁.trans (Option.some.inj htext)
    · exact h₂.trans (Option.some.inj htext)
    · exact h₃.trans (Option.some.inj htext)
    · exact h₄.trans (Option.some.inj htext)
    · exact h₅.trans (Option.some.inj htext)
    · exact h₆.trans (Option.some.inj htext)
    · cases htext
  · rintro rfl
    cases method with
    | undefined => cases htext
    | get => exact Option.some.inj htext ▸ rfl
    | post => exact Option.some.inj htext ▸ rfl
    | put => exact Option.some.inj htext ▸ rfl
    | delete => exact Option.some.inj htext ▸ rfl
    | head => exact Option.some.inj htext ▸ rfl
    | patch => exact Option.some.inj htext ▸ rfl

/-- What libcurl is told about the request; `H` stands for `struct curl_slist *`. -/
structure CurlOptions (H : Type) where
  /-- `CURLOPT_URL`. -/
  url : CString
  /-- `CURLOPT_HTTPHEADER`. -/
  httpHeader : Option H
  /-- `CURLOPT_POST`. -/
  post : Bool
  /-- `CURLOPT_CUSTOMREQUEST`. -/
  customRequest : Option CString
  /-- `CURLOPT_POSTFIELDS`. -/
  postFields : Option CString
  /-- `CURLOPT_POSTFIELDSIZE`. -/
  postFieldSize : Option ℕ

/-- What libcurl sends. -/
structure SentRequest where
  method : CString
  body : List UInt8

/-- The functions of libcurl. -/
structure Curl (H : Type) where
  /-- The texts in a list. -/
  texts : H → List CString
  /-- `curl_slist_append`, with memory or without it; `none` is NULL. -/
  slistAppend : Bool → Option H → CString → Option H
  /-- The request that `curl_easy_perform` sends with these options. -/
  perform : CurlOptions H → SentRequest

namespace Curl

variable {H : Type}

/-- The texts in a list, which may be NULL. -/
def textsOf (curl : Curl H) : Option H → List CString
  | none => []
  | some list => curl.texts list

/-- What the documentation of libcurl says. -/
structure Documented (curl : Curl H) : Prop where
  /-- `curl_slist_append` returns NULL when it fails. -/
  append_none : ∀ list text, curl.slistAppend false list text = none
  /-- Otherwise it returns the list with the text behind the others; NULL is the empty list. -/
  append_some : ∀ list text, ∃ new, curl.slistAppend true list text = some new ∧
    curl.texts new = curl.textsOf list ++ [text]
  /-- `CURLOPT_CUSTOMREQUEST` replaces the method. -/
  custom : ∀ options method, options.customRequest = some method →
    (curl.perform options).method = method
  /-- `CURLOPT_POST` makes it a `POST`. -/
  post : ∀ options, options.customRequest = none → options.post = true →
    (curl.perform options).method = methodPost.toCString
  /-- Without any of these options a `GET` is sent. -/
  get : ∀ options, options.customRequest = none → options.post = false →
    options.postFields = none → (curl.perform options).method = methodGet.toCString
  /-- The body is as many bytes of `CURLOPT_POSTFIELDS` as `CURLOPT_POSTFIELDSIZE` says. -/
  body : ∀ options data size, options.postFields = some data →
    options.postFieldSize = some size → (curl.perform options).body = data.bytes.take size
  /-- Without data there is no body. -/
  noBody : ∀ options, options.post = false → options.postFields = none →
    (curl.perform options).body = []

end Curl

/-- The text `Accept-Encoding:`. -/
def acceptEncoding : CString :=
  ⟨CString.ascii ['A', 'c', 'c', 'e', 'p', 't', '-', 'E', 'n', 'c', 'o', 'd', 'i', 'n', 'g', ':'],
    by decide⟩

/-- The loop of `__prepare_headers` from the call number `i` of `curl_slist_append` on. -/
def appendHeaders {H : Type} (curl : Curl H) (allocated : ℕ → Bool) :
    ℕ → Option H → List CString → Option H
  | _, headers, [] => headers
  | i, headers, header :: rest =>
    appendHeaders curl allocated (i + 1) (curl.slistAppend (allocated i) headers header) rest

namespace RequestMemory

variable {H : Type}

/-- `__prepare_headers`, with the list in `*headers`; `none` where it fails.  `allocated` says which
of the calls of `curl_slist_append` get memory. -/
def prepareHeaders (request : RequestMemory) (curl : Curl H) (allocated : ℕ → Bool) :
    Option (Option H) :=
  match curl.slistAppend (allocated 0) none acceptEncoding with
  | none => none
  | some headers => some (appendHeaders curl allocated 1 (some headers) request.headerLines)

/-- `send_http_request` up to `curl_easy_perform`; `none` if nothing is sent.  `initialized` says
whether `curl_easy_init` succeeds. -/
def sendHttpRequest (request : RequestMemory) (curl : Curl H) (initialized : Bool)
    (allocated : ℕ → Bool) : Option (CurlOptions H) :=
  if initialized then
    (request.prepareHeaders curl allocated).map fun headers =>
      let options : CurlOptions H := ⟨request.path.string, headers, false, none, none, none⟩
      let body := request.body.string
      match parseMethod request.method.string with
      | .post => { options with
          post := true
          postFields := some body
          postFieldSize := some body.bytes.length }
      | .put => { options with
          customRequest := some methodPut.toCString
          postFields := some body
          postFieldSize := some body.bytes.length }
      | .delete => { options with customRequest := some methodDelete.toCString }
      | _ => options
  else none

/-! ## The headers -/

variable {curl : Curl H} {request : RequestMemory} {allocated : ℕ → Bool}

/-- The texts after a call of `curl_slist_append`. -/
lemma textsOf_slistAppend (hcurl : curl.Documented) (ok : Bool) (headers : Option H)
    (header : CString) :
    curl.textsOf (curl.slistAppend ok headers header) =
      if ok then curl.textsOf headers ++ [header] else [] := by
  cases ok with
  | true =>
    obtain ⟨new, hnew, htexts⟩ := hcurl.append_some headers header
    rw [hnew, if_pos rfl, ← htexts]
    rfl
  | false =>
    rw [hcurl.append_none headers header]
    rfl

/-- The list ends with the headers since the last call that has failed. -/
lemma appendHeaders_spec (hcurl : curl.Documented) (allocated : ℕ → Bool) (i : ℕ)
    (headers : Option H) (rest : List CString) :
    curl.textsOf (appendHeaders curl allocated i headers rest) <:+ curl.textsOf headers ++ rest ∧
      (curl.textsOf headers ≠ [] →
        (curl.textsOf (appendHeaders curl allocated i headers rest) =
            curl.textsOf headers ++ rest ↔
          ∀ j < rest.length, allocated (i + j) = true)) := by
  induction rest generalizing i headers with
  | nil =>
    rw [appendHeaders, List.append_nil]
    exact ⟨List.suffix_rfl, fun _ => iff_of_true rfl fun j hj => absurd hj (Nat.not_lt_zero j)⟩
  | cons header rest ih =>
    rw [appendHeaders]
    obtain ⟨hsuffix, hall⟩ := ih (i + 1) (curl.slistAppend (allocated i) headers header)
    rw [textsOf_slistAppend hcurl] at hsuffix hall
    cases hok : allocated i with
    | true =>
      rw [hok, if_pos rfl, List.append_assoc, List.singleton_append] at hsuffix hall
      refine ⟨hsuffix, fun _ => ?_⟩
      refine (hall (List.append_ne_nil_of_right_ne_nil _ (List.cons_ne_nil _ _))).trans ?_
      constructor
      · intro h j hj
        cases j with
        | zero => exact hok
        | succ j =>
          rw [← Nat.add_assoc, Nat.add_right_comm]
          exact h j (Nat.lt_of_succ_lt_succ hj)
      · intro h j hj
        rw [Nat.add_right_comm, Nat.add_assoc]
        exact h (j + 1) (Nat.succ_lt_succ hj)
    | false =>
      rw [hok, if_neg Bool.false_ne_true, List.nil_append] at hsuffix
      refine ⟨hsuffix.trans ?_, fun _ => iff_of_false ?_ ?_⟩
      · exact (List.suffix_cons _ _).trans (List.suffix_append _ _)
      · -- the headers before are missing
        intro heq
        have hlen := hsuffix.length_le
        rw [heq, List.length_append, List.length_cons] at hlen
        omega
      · intro h
        have hi := h 0 (Nat.succ_pos _)
        rw [Nat.add_zero, hok] at hi
        cases hi

/-- The headers that libcurl gets. -/
lemma exists_prepareHeaders (hcurl : curl.Documented) (request : RequestMemory)
    (hok : allocated 0 = true) :
    ∃ headers, request.prepareHeaders curl allocated = some headers ∧
      curl.textsOf headers <:+ acceptEncoding :: request.headerLines ∧
      (curl.textsOf headers = acceptEncoding :: request.headerLines ↔
        ∀ i < request.headerLines.length, allocated (i + 1) = true) := by
  obtain ⟨first, hfirst, htexts⟩ := hcurl.append_some none acceptEncoding
  obtain ⟨hsuffix, hall⟩ :=
    appendHeaders_spec hcurl allocated 1 (some first) request.headerLines
  change curl.textsOf (some first) = [acceptEncoding] at htexts
  rw [htexts] at hsuffix hall
  refine ⟨_, ?_, hsuffix, (hall (List.cons_ne_nil _ _)).trans ?_⟩
  · rw [prepareHeaders, hok, hfirst]
  · simp only [Nat.add_comm 1]

/-! ## The method and the body -/

/-- The methods that are sent on with a body. -/
def WithBody (method : CString) : Prop :=
  method = methodPost.toCString ∨ method = methodPut.toCString

/-- The methods that are sent on without one. -/
def WithoutBody (method : CString) : Prop :=
  method = methodGet.toCString ∨ method = methodDelete.toCString

/-- The text of a method in terms of `__parse_method`. -/
lemma withBody_iff (method : CString) :
    WithBody method ↔ parseMethod method = .post ∨ parseMethod method = .put :=
  (or_congr (parseMethod_eq_iff rfl) (parseMethod_eq_iff rfl)).symm

/-- The same for the other methods. -/
lemma withoutBody_iff (method : CString) :
    WithoutBody method ↔ parseMethod method = .get ∨ parseMethod method = .delete :=
  (or_congr (parseMethod_eq_iff rfl) (parseMethod_eq_iff rfl)).symm

/-- The method and the body are sent on as they are for four methods, for two of them only without a
body; with every other method a `GET` is sent. -/
lemma sendHttpRequest_spec (hcurl : curl.Documented) (request : RequestMemory) {headers : Option H}
    (hheaders : request.prepareHeaders curl allocated = some headers) :
    ∃ options, request.sendHttpRequest curl true allocated = some options ∧
      options.url = request.path.string ∧ options.httpHeader = headers ∧
      ((curl.perform options).method = request.method.string ∧
          (curl.perform options).body = request.body.string.bytes ↔
        WithBody request.method.string ∨
          WithoutBody request.method.string ∧ request.body.string = CString.empty) := by
  unfold sendHttpRequest
  rw [if_pos rfl, hheaders, Option.map_some, withBody_iff, withoutBody_iff]
  have hknown : ∀ {method : HttpMethod} {text : CString}, method.text = some text →
      parseMethod request.method.string = method → text = request.method.string :=
    fun htext hmethod => ((parseMethod_eq_iff htext).mp hmethod).symm
  have hempty : ([] = request.body.string.bytes) ↔ request.body.string = CString.empty := by
    rw [eq_comm, CString.ext_iff]
    rfl
  -- `GET` is sent for a method that is not known
  have hother : ∀ options : CurlOptions H, options.customRequest = none → options.post = false →
      options.postFields = none → ∀ method, parseMethod request.method.string = method →
      method ≠ .get → method ≠ .post → method ≠ .put → method ≠ .delete →
      ((curl.perform options).method = request.method.string ∧
          (curl.perform options).body = request.body.string.bytes ↔
        (method = .post ∨ method = .put) ∨
          (method = .get ∨ method = .delete) ∧ request.body.string = CString.empty) := by
    intro options hcustom hpost hfields method hmethod hget hpost' hput hdelete
    apply iff_of_false
    · rintro ⟨hsent, -⟩
      rw [hcurl.get options hcustom hpost hfields] at hsent
      exact hget (hmethod.symm.trans ((parseMethod_eq_iff rfl).mpr hsent.symm))
    · rintro (h | ⟨h, -⟩)
      · exact h.elim hpost' hput
      · exact h.elim hget hdelete
  cases hmethod : parseMethod request.method.string with
  | post =>
    refine ⟨_, rfl, rfl, rfl, iff_of_true ⟨?_, ?_⟩ (Or.inl (Or.inl rfl))⟩
    · rw [hcurl.post _ rfl rfl]
      exact hknown rfl hmethod
    · rw [hcurl.body _ _ _ rfl rfl, List.take_length]
  | put =>
    refine ⟨_, rfl, rfl, rfl, iff_of_true ⟨?_, ?_⟩ (Or.inl (Or.inr rfl))⟩
    · rw [hcurl.custom _ _ rfl]
      exact hknown rfl hmethod
    · rw [hcurl.body _ _ _ rfl rfl, List.take_length]
  | get =>
    refine ⟨_, rfl, rfl, rfl, ?_⟩
    rw [hcurl.get _ rfl rfl rfl, hcurl.noBody _ rfl rfl, hempty, hknown rfl hmethod]
    exact ⟨fun h => Or.inr ⟨Or.inl rfl, h.2⟩, fun h => ⟨rfl, (h.resolve_left (by decide)).2⟩⟩
  | delete =>
    refine ⟨_, rfl, rfl, rfl, ?_⟩
    rw [hcurl.custom _ _ rfl, hcurl.noBody _ rfl rfl, hempty, hknown rfl hmethod]
    exact ⟨fun h => Or.inr ⟨Or.inr rfl, h.2⟩, fun h => ⟨rfl, (h.resolve_left (by decide)).2⟩⟩
  | undefined | head | patch =>
    exact ⟨_, rfl, rfl, rfl, hother _ rfl rfl rfl _ hmethod HttpMethod.noConfusion
      HttpMethod.noConfusion HttpMethod.noConfusion HttpMethod.noConfusion⟩

end RequestMemory

/-! ## From the client to the server -/

namespace RequestText

variable {text : RequestText}

/-- A text without a line feed has no line end. -/
lemma lineEnd_eq_none {line : CString} (h : 10 ∉ line.bytes) : lineEnd line = none := by
  rw [lineEnd, Option.or_eq_none_iff]
  constructor
  · rw [Option.eq_none_iff_forall_not_mem]
    intro i hi
    exact h (strstr_subset hi (List.mem_cons_of_mem 13 List.mem_cons_self))
  · exact strstr_eq_none h []

/-- With at most eight headers and a body of one line, the parser gives back the request, with the
empty line as one more header. -/
lemma parse_of_le_eight (text : RequestText) (memory : RequestMemory)
    (hheaders : text.headers.length ≤ 8) (hbody : 10 ∉ text.body.bytes) :
    ∃ request, parseHttpRequest text.buffer memory = some request ∧
      request.method.string = text.method ∧ request.path.string = text.path ∧
      request.headerLines = text.headers ++ [CString.empty] ∧
      request.body.string = text.body := by
  obtain ⟨after, hbuffer⟩ := text.buffer_eq
  obtain ⟨request₀, hread, hmethod, hpath, -, hcount₀⟩ := text.exists_readLine memory
  have hlines : lines (text.headers ++ [CString.empty]) = lines text.headers ++ crlf := by
    rw [lines_append]
    ext1
    simp [lines, CString.empty]
  have hbytes : text.buffer = (text.line ++ crlf).bytes ++
      ((lines (text.headers ++ [CString.empty]) ++ text.body).bytes ++ 0 :: 0 :: after) := by
    rw [hbuffer, bytes, hlines]
    simp only [bytes_append, List.append_assoc]
  have hfits : ∀ header ∈ text.headers ++ [CString.empty],
      13 ∉ header.bytes ∧ header.bytes.length ≤ 255 := by
    intro header hmem
    rcases List.mem_append.mp hmem with hmem | hmem
    · exact text.header_fits header hmem
    · rw [List.mem_singleton.mp hmem]
      exact ⟨List.not_mem_nil, Nat.zero_le _⟩
  have hlength : (text.headers ++ [CString.empty]).length = text.headers.length + 1 := by
    rw [List.length_append, List.length_singleton]
  obtain ⟨request₁, hfields, -, hstored, hloop⟩ := headerLoop_lines request₀ _ hbytes hfits
    (by rw [hcount₀, hlength]; omega) (8 - text.headers.length + 1)
  -- the loop ends at the body
  have hrest := stringAt_lines hbytes
  have hfuel : (text.headers ++ [CString.empty]).length + (8 - text.headers.length + 1) = 10 := by
    rw [hlength]
    omega
  have hend : headerLoop text.buffer (8 - text.headers.length + 1) request₁
      ((text.line ++ crlf).bytes ++ (lines (text.headers ++ [CString.empty])).bytes).length =
        some (request₁, ((text.line ++ crlf).bytes ++
          (lines (text.headers ++ [CString.empty])).bytes).length) := by
    rw [headerLoop, hrest, Option.bind_some, lineEnd_eq_none hbody]
  rw [hfuel] at hloop
  obtain ⟨buffer, hread', hstring⟩ := readBody_eq hrest request₁
  have hnil : request₀.headerLines = [] := by
    rw [headerLines, hcount₀, List.take_zero, List.map_nil]
  refine ⟨_, parseHttpRequest_eq hread (hloop.trans hend) hread', ?_, ?_, ?_, ?_⟩
  · rw [← hmethod]
    exact congrArg (fun fields => fields.1.string) hfields
  · rw [← hpath]
    exact congrArg (fun fields => fields.2.1.string) hfields
  · change request₁.headerLines = _
    rw [hstored, hnil, List.nil_append]
  · rw [hstring]
    ext1
    exact List.take_of_length_le text.body_length

/-- A request with at most eight headers and a body of one line, from the buffer of
`__handle_client` to libcurl: the server is asked for the client's path; the headers are the
client's, behind `Accept-Encoding:` and before the empty line, all of them if and only if every call
of `curl_slist_append` gets memory, and otherwise only the last ones; and the method and the body
are the client's if and only if the method is `POST` or `PUT`, or it is `GET` or `DELETE` and there
is no body. -/
theorem forwarded_iff {H : Type} {curl : Curl H} (hcurl : curl.Documented) (text : RequestText)
    (memory : RequestMemory) (allocated : ℕ → Bool) (hheaders : text.headers.length ≤ 8)
    (hbody : 10 ∉ text.body.bytes) (hfirst : allocated 0 = true) :
    ∃ request options, parseHttpRequest text.buffer memory = some request ∧
      request.sendHttpRequest curl true allocated = some options ∧ options.url = text.path ∧
      curl.textsOf options.httpHeader <:+
        acceptEncoding :: (text.headers ++ [CString.empty]) ∧
      (curl.textsOf options.httpHeader = acceptEncoding :: (text.headers ++ [CString.empty]) ↔
        ∀ i ≤ text.headers.length, allocated (i + 1) = true) ∧
      ((curl.perform options).method = text.method ∧
          (curl.perform options).body = text.body.bytes ↔
        WithBody text.method ∨ WithoutBody text.method ∧ text.body = CString.empty) := by
  obtain ⟨request, hparse, hmethod, hpath, hlines, hstring⟩ :=
    text.parse_of_le_eight memory hheaders hbody
  obtain ⟨headers, hprepare, hsuffix, hall⟩ := exists_prepareHeaders hcurl request hfirst
  obtain ⟨options, hsend, hurl, hheader, hsent⟩ := sendHttpRequest_spec hcurl request hprepare
  rw [hlines] at hsuffix hall
  rw [List.length_append, List.length_singleton] at hall
  rw [hmethod, hstring] at hsent
  refine ⟨request, options, hparse, hsend, hurl.trans hpath, ?_, ?_, hsent⟩
  · rw [hheader]
    exact hsuffix
  · rw [hheader, hall]
    simp only [Nat.lt_succ_iff]

/-- `twoLines` with a body of one line. -/
def oneLine : RequestText :=
  { twoLines with
    body := ⟨CString.ascii ['x', '=', 'y'], by decide⟩
    body_length := by decide }

/-- A libcurl whose lists are lists. -/
def listCurl : Curl (List CString) where
  texts list := list
  slistAppend ok list text := if ok then some (list.getD [] ++ [text]) else none
  perform options :=
    { method := options.customRequest.getD
        (if options.post || options.postFields.isSome then methodPost.toCString
        else methodGet.toCString)
      body := match options.postFields, options.postFieldSize with
        | some data, some size => data.bytes.take size
        | some data, none => data.bytes
        | none, _ => [] }

/-- It is as documented. -/
lemma listCurl_documented : listCurl.Documented where
  append_none _ _ := rfl
  append_some list text := by cases list <;> exact ⟨_, rfl, rfl⟩
  custom options method h := by
    show options.customRequest.getD _ = _
    rw [h, Option.getD_some]
  post options hcustom hpost := by
    show options.customRequest.getD _ = _
    rw [hcustom, hpost]
    rfl
  get options hcustom hpost hfields := by
    show options.customRequest.getD _ = _
    rw [hcustom, hpost, hfields]
    rfl
  body options data size hdata hsize := by
    unfold listCurl
    simp only [hdata, hsize]
  noBody options _ hfields := by
    unfold listCurl
    simp only [hfields]

/-- This `POST` request is sent on, but without its `Accept-Encoding:` when the second allocation
fails. -/
theorem forwarded_iff_oneLine :
    ∃ request options, parseHttpRequest oneLine.buffer zeroMemory = some request ∧
      request.sendHttpRequest listCurl true (fun i => decide (i ≠ 1)) = some options ∧
      options.url = oneLine.path ∧
      listCurl.textsOf options.httpHeader <:+
        acceptEncoding :: (oneLine.headers ++ [CString.empty]) ∧
      (listCurl.textsOf options.httpHeader =
          acceptEncoding :: (oneLine.headers ++ [CString.empty]) ↔
        ∀ i ≤ oneLine.headers.length, decide (i + 1 ≠ 1) = true) ∧
      ((listCurl.perform options).method = oneLine.method ∧
          (listCurl.perform options).body = oneLine.body.bytes ↔
        WithBody oneLine.method ∨ WithoutBody oneLine.method ∧ oneLine.body = CString.empty) :=
  forwarded_iff listCurl_documented oneLine zeroMemory (fun i => decide (i ≠ 1)) (by decide)
    (by decide) rfl

end RequestText

end OsLabs.Proxy
