import OsLabs.Proxy.RequestFields

/-!
# Bare line ends

The parser falls back on `\n` where there is no `\r\n`, and skips two bytes behind either. A
`LinedText` is a request line with up to nine header lines, to be ended in both ways. Behind a bare
line end the first character of the next line is skipped, and of an empty line there is nothing
left; `parsed_alike_iff` says which texts are read alike nevertheless.
-/

namespace OsLabs.Proxy

open CString Reading RequestMemory

/-- Lines with the same line end behind each of them. -/
def ended (eol : CString) : List CString → CString
  | [] => CString.empty
  | line :: rest => line ++ (eol ++ ended eol rest)

/-- No character of the line belongs to a line end. -/
def IsLine (line : CString) : Prop := 13 ∉ line.bytes ∧ 10 ∉ line.bytes

/-- A request line with three words and at most nine header lines, of no more than 4095 characters
with the longer line ends. -/
structure LinedText where
  line : CString
  headers : List CString
  line_words : (tokens line.bytes).length = 3
  isLine : IsLine line
  headers_isLine : ∀ header ∈ headers, IsLine header
  headers_length : headers.length ≤ 9
  length_lt : (ended crlf (line :: headers)).bytes.length < httpRequestBytesLen

/-! ## Lines of a text -/

section Lines

variable {received : Received} {text line : CString} {headers found : List CString}
  {limit p ptr length : ℕ}

/-- The end of a line is a line. -/
lemma isLine_drop (hline : IsLine line) {n : ℕ} : IsLine (line.drop n) :=
  ⟨fun h => hline.1 (List.mem_of_mem_drop h), fun h => hline.2 (List.mem_of_mem_drop h)⟩

/-- There is a `\n` between a line and what the parser goes on with. -/
lemma count_of_lineEnd (hend : lineEnd line = some length) :
    (line.bytes.drop (length + 2)).count 10 + 1 ≤ line.bytes.count 10 := by
  have hfound : ∃ needle, 10 ∈ needle ∧ needle.length ≤ 2 ∧
      needle <+: line.bytes.drop length := by
    rcases Option.or_eq_some_iff.mp hend with h | ⟨-, h⟩
    · exact ⟨crlf.bytes, by decide, by decide, strstr_spec h⟩
    · exact ⟨lf.bytes, by decide, by decide, strstr_spec h⟩
  obtain ⟨needle, hmem, hlen, hneedle⟩ := hfound
  have htake : 10 ∈ (line.bytes.drop length).take 2 := by
    obtain ⟨rest, hrest⟩ := hneedle
    rw [← hrest, List.take_append]
    exact List.mem_append_left _ (by rwa [List.take_of_length_le hlen])
  have hsplit : line.bytes.count 10 = (line.bytes.take length).count 10 +
      (((line.bytes.drop length).take 2).count 10 + (line.bytes.drop (length + 2)).count 10) := by
    rw [← List.drop_drop, ← List.count_append, List.take_append_drop, ← List.count_append,
      List.take_append_drop]
  have hone := List.count_pos_iff.mpr htake
  omega

/-- The first `\r\n` is behind the first line. -/
lemma lineEnd_crlf (hline : IsLine line) (rest : CString) :
    lineEnd (line ++ (crlf ++ rest)) = some line.bytes.length := by
  have hfound : strstr crlf.bytes (line ++ (crlf ++ rest)).bytes = some line.bytes.length :=
    strstr_append hline.1 [10] rest.bytes
  rw [lineEnd, hfound, Option.some_or]

/-- Without any `\r`, the first `\n` is behind the first line. -/
lemma lineEnd_lf (hline : IsLine line) {rest : CString} (hrest : 13 ∉ rest.bytes) :
    lineEnd (line ++ (lf ++ rest)) = some line.bytes.length := by
  have hnot : 13 ∉ (line ++ (lf ++ rest)).bytes := by
    simp only [bytes_append, List.mem_append, not_or]
    exact ⟨hline.1, by decide, hrest⟩
  have hfound : strstr lf.bytes (line ++ (lf ++ rest)).bytes = some line.bytes.length :=
    strstr_append hline.2 [] rest.bytes
  rw [lineEnd, show crlf.bytes = 13 :: [10] from rfl, strstr_eq_none hnot, Option.none_or, hfound]

/-- Lines with bare line ends have no `\r`. -/
lemma cr_notMem_ended (hheaders : ∀ header ∈ headers, IsLine header) :
    13 ∉ (ended lf headers).bytes := by
  induction headers with
  | nil => exact List.not_mem_nil
  | cons header headers ih =>
    simp only [ended, bytes_append, List.mem_append, not_or]
    exact ⟨(hheaders header List.mem_cons_self).1, by decide,
      ih fun h hmem => hheaders h (List.mem_cons_of_mem header hmem)⟩

/-- There is a `\n` for each line. -/
lemma count_ended (hheaders : ∀ header ∈ headers, IsLine header) :
    (ended lf headers).bytes.count 10 = headers.length := by
  induction headers with
  | nil => rfl
  | cons header headers ih =>
    have hzero := List.count_eq_zero.mpr (hheaders header List.mem_cons_self).2
    simp only [ended, bytes_append, List.count_append, hzero,
      ih fun h hmem => hheaders h (List.mem_cons_of_mem header hmem), List.length_cons]
    rw [show lf.bytes.count 10 = 1 from rfl, Nat.zero_add, Nat.add_comm]

/-- The line is cut off at its end. -/
lemma truncate_line_append (line rest : CString) :
    (line ++ rest).truncate (min line.bytes.length 255) = line.truncate 255 := by
  ext1
  show (line.bytes ++ rest.bytes).take _ = line.bytes.take 255
  rw [List.take_append_of_le_length (Nat.min_le_left _ _)]
  rcases Nat.le_total line.bytes.length 255 with h | h
  · rw [Nat.min_eq_left h, List.take_length, List.take_of_length_le h]
  · rw [Nat.min_eq_right h]

/-- What is behind a part of a text. -/
lemma drop_of_drop_append {front rest : CString} (h : text.drop p = front ++ rest) :
    text.drop (p + front.bytes.length) = rest := by
  have hbytes := congrArg CString.bytes h
  ext1
  show text.bytes.drop (p + _) = rest.bytes
  rw [← List.drop_drop, show text.bytes.drop p = front.bytes ++ rest.bytes from hbytes,
    List.drop_left]

/-- A line with `\n`, from its second character on, with what is behind it. -/
lemma drop_lf {header : CString} (hdrop : text.drop p = ended lf (header :: headers))
    (hne : header.bytes ≠ []) :
    text.drop (p + 1) = header.drop 1 ++ (lf ++ ended lf headers) ∧
      text.drop (p + header.bytes.length + 1) = ended lf headers ∧
      p + 1 + (header.drop 1).bytes.length + 2 = p + header.bytes.length + 1 + 1 := by
  obtain ⟨c, rest, hbytes⟩ := List.exists_cons_of_ne_nil hne
  have hdrop' : text.bytes.drop p = header.bytes ++ (lf ++ ended lf headers).bytes :=
    congrArg CString.bytes hdrop
  refine ⟨?_, drop_of_drop_append (drop_of_drop_append hdrop), ?_⟩
  · ext1
    show text.bytes.drop (p + 1) = header.bytes.drop 1 ++ (lf ++ ended lf headers).bytes
    rw [← List.drop_drop, hdrop', hbytes]
    rfl
  · show p + 1 + (header.bytes.drop 1).length + 2 = _
    rw [hbytes, List.length_drop, List.length_cons]
    omega

/-- A line end ends a header. -/
lemma headersFrom_succ (hline : stringAt received.requestBuf ptr = some line)
    (hend : lineEnd line = some length) (hpos : 0 < limit) :
    headersFrom received.requestBuf (limit + 1) ptr =
      (headersFrom received.requestBuf limit (ptr + length + 2)).map fun (headers, ptr) =>
        (line.truncate (min length 255) :: headers, ptr) := by
  rw [headersFrom, hline, Option.bind_some]
  simp only [hend, if_neg (Nat.ne_of_gt hpos)]

/-- There are no headers in the empty string. -/
lemma headersFrom_empty (hempty : stringAt received.requestBuf ptr = some CString.empty)
    (limit : ℕ) : headersFrom received.requestBuf limit ptr = some ([], ptr) := by
  cases limit with
  | zero => rfl
  | succ limit =>
    rw [headersFrom, hempty, Option.bind_some]
    rfl

variable (htext : received.bytes = text.bytes)
include htext

/-- Complete lines with `\r\n` are the headers. -/
lemma headersFrom_crlf (hdrop : text.drop ptr = ended crlf headers)
    (hheaders : ∀ header ∈ headers, IsLine header) (hlimit : headers.length < limit)
    (hle : ptr + (ended crlf headers).bytes.length ≤ 4095) :
    headersFrom received.requestBuf limit ptr =
      some (headers.map (truncate · 255), ptr + (ended crlf headers).bytes.length) := by
  induction headers generalizing ptr limit with
  | nil =>
    have hempty := Received.stringAt_requestBuf htext (Nat.le_trans (Nat.le_add_right _ _) hle)
    rw [hdrop] at hempty
    exact headersFrom_empty hempty limit
  | cons header headers ih =>
    obtain ⟨limit, rfl⟩ := Nat.exists_eq_add_one.mpr (Nat.lt_of_le_of_lt (Nat.zero_le _) hlimit)
    have hline := Received.stringAt_requestBuf htext (Nat.le_trans (Nat.le_add_right _ _) hle)
    rw [hdrop, ended] at hline
    have hlen : (ended crlf (header :: headers)).bytes.length =
        header.bytes.length + 2 + (ended crlf headers).bytes.length := by
      simp only [ended, bytes_append, List.length_append, Nat.add_assoc]
      rfl
    have hnext : text.drop (ptr + header.bytes.length + 2) = ended crlf headers :=
      drop_of_drop_append (drop_of_drop_append hdrop)
    rw [List.length_cons] at hlimit
    rw [headersFrom_succ hline (lineEnd_crlf (hheaders header List.mem_cons_self) _) (by omega),
      ih hnext (fun h hmem => hheaders h (List.mem_cons_of_mem header hmem)) (by omega)
        (by omega), Option.map_some, truncate_line_append, hlen]
    simp only [List.map_cons, Nat.add_assoc]

/-- Of complete lines with `\n`, from the second character on, each one loses the first character,
if there is one in each. -/
lemma headersFrom_lf (hdrop : text.drop p = ended lf headers)
    (hheaders : ∀ header ∈ headers, IsLine header) (hne : ∀ header ∈ headers, header.bytes ≠ [])
    (hlimit : headers.length < limit) (hle : p + (ended lf headers).bytes.length < 4095) :
    headersFrom received.requestBuf limit (p + 1) =
      some (headers.map fun header => (header.drop 1).truncate 255,
        p + (ended lf headers).bytes.length + 1) := by
  induction headers generalizing p limit with
  | nil =>
    have hempty := Received.stringAt_requestBuf htext
      (show p + 1 ≤ 4095 from Nat.lt_of_le_of_lt (Nat.le_add_right _ _) hle)
    have hnil : text.drop (p + 1) = CString.empty := by
      have hbytes := congrArg CString.bytes hdrop
      ext1
      show text.bytes.drop (p + 1) = []
      rw [← List.drop_drop, show text.bytes.drop p = [] from hbytes, List.drop_nil]
    rw [hnil] at hempty
    exact headersFrom_empty hempty limit
  | cons header headers ih =>
    obtain ⟨limit, rfl⟩ := Nat.exists_eq_add_one.mpr (Nat.lt_of_le_of_lt (Nat.zero_le _) hlimit)
    obtain ⟨hcut, hnext, hptr⟩ := drop_lf hdrop (hne header List.mem_cons_self)
    have hlines : ∀ h ∈ headers, IsLine h :=
      fun h hmem => hheaders h (List.mem_cons_of_mem header hmem)
    have hlen : (ended lf (header :: headers)).bytes.length =
        header.bytes.length + 1 + (ended lf headers).bytes.length := by
      simp only [ended, bytes_append, List.length_append, Nat.add_assoc]
      rfl
    have hline := Received.stringAt_requestBuf htext (show p + 1 ≤ 4095 by omega)
    rw [hcut] at hline
    rw [List.length_cons] at hlimit
    rw [headersFrom_succ hline (lineEnd_lf (isLine_drop (hheaders header
      List.mem_cons_self)) (cr_notMem_ended hlines)) (by omega), hptr,
      ih hnext hlines (fun h hmem => hne h (List.mem_cons_of_mem header hmem)) (by omega)
        (by omega), Option.map_some, truncate_line_append, hlen]
    simp only [List.map_cons, Nat.add_assoc]

/-- There are not more headers than `\n`. -/
lemma length_headersFrom_le (hfound : headersFrom received.requestBuf limit ptr = some (found, p)) :
    found.length ≤ (text.drop ptr).bytes.count 10 := by
  induction limit generalizing ptr found with
  | zero =>
    obtain ⟨rfl, rfl⟩ := Prod.mk.inj (Option.some.inj hfound)
    exact Nat.zero_le _
  | succ limit ih =>
    obtain ⟨line, hline, hrest⟩ := Option.bind_eq_some_iff.mp hfound
    have hle := received.isSome_stringAt_iff.mp (by rw [hline, Option.isSome_some])
    obtain rfl := Option.some.inj (hline.symm.trans (Received.stringAt_requestBuf htext hle))
    rcases Option.eq_none_or_eq_some (lineEnd (text.drop ptr)) with hend | ⟨length, hend⟩
    · simp only [hend, Option.some.injEq, Prod.mk.injEq] at hrest
      obtain ⟨rfl, -⟩ := hrest
      exact Nat.zero_le _
    · simp only [hend] at hrest
      have hcount := count_of_lineEnd hend
      split_ifs at hrest
      · obtain ⟨rfl, -⟩ := Prod.mk.inj (Option.some.inj hrest)
        exact Nat.le_trans (Nat.le_add_left 1 _) hcount
      · obtain ⟨⟨rest, p'⟩, hfrom, heq⟩ := Option.map_eq_some_iff.mp hrest
        obtain ⟨rfl, rfl⟩ := Prod.mk.inj heq
        refine Nat.le_trans (Nat.succ_le_succ (ih hfrom)) ?_
        rw [show (text.drop (ptr + length + 2)).bytes = (text.drop ptr).bytes.drop (length + 2) by
          rw [Nat.add_assoc]
          exact (List.drop_drop).symm]
        exact hcount

/-- Where one of the lines is empty, there are fewer headers than lines: its line end is skipped. -/
lemma length_headersFrom_lt (hfound : headersFrom received.requestBuf limit (p + 1) =
      some (found, ptr)) (hdrop : text.drop p = ended lf headers)
    (hheaders : ∀ header ∈ headers, IsLine header) (hempty : CString.empty ∈ headers) :
    found.length < headers.length := by
  induction headers generalizing p limit found with
  | nil => cases hempty
  | cons header headers ih =>
    have hlines : ∀ h ∈ headers, IsLine h :=
      fun h hmem => hheaders h (List.mem_cons_of_mem header hmem)
    have hdrop' : text.bytes.drop p = header.bytes ++ (lf ++ ended lf headers).bytes :=
      congrArg CString.bytes hdrop
    cases hheader : header.bytes with
    | nil =>
      have hle := length_headersFrom_le htext hfound
      have hcut : (text.drop (p + 1)).bytes = (ended lf headers).bytes := by
        show text.bytes.drop (p + 1) = _
        rw [← List.drop_drop, hdrop', hheader]
        rfl
      rw [hcut, count_ended hlines] at hle
      exact Nat.lt_succ_of_le hle
    | cons c rest =>
      have hmem : CString.empty ∈ headers := by
        rcases List.mem_cons.mp hempty with heq | hmem
        · rw [← heq] at hheader
          cases hheader
        · exact hmem
      have hpos := List.length_pos_of_mem hmem
      rw [List.length_cons]
      cases limit with
      | zero =>
        obtain ⟨rfl, -⟩ := Prod.mk.inj (Option.some.inj hfound)
        exact Nat.succ_pos _
      | succ limit =>
        obtain ⟨hcut, hnext, hptr⟩ := drop_lf hdrop (hheader ▸ List.cons_ne_nil c rest)
        obtain ⟨line, hline, hrest⟩ := Option.bind_eq_some_iff.mp hfound
        have hle := received.isSome_stringAt_iff.mp (by rw [hline, Option.isSome_some])
        obtain rfl := Option.some.inj (hline.symm.trans (Received.stringAt_requestBuf htext hle))
        rw [hcut, lineEnd_lf (isLine_drop (hheaders header List.mem_cons_self))
          (cr_notMem_ended hlines)] at hrest
        split_ifs at hrest
        · obtain ⟨rfl, -⟩ := Prod.mk.inj (Option.some.inj hrest)
          exact Nat.succ_lt_succ hpos
        · obtain ⟨⟨rest', p'⟩, hfrom, heq⟩ := Option.map_eq_some_iff.mp hrest
          obtain ⟨rfl, rfl⟩ := Prod.mk.inj heq
          rw [hptr] at hfrom
          exact Nat.succ_lt_succ (ih hfrom hnext hlines hmem)

end Lines

/-- A string without its first character agrees with the string if and only if its characters are
equal as far as they are compared. -/
lemma take_eq_take_drop_iff {s : List UInt8} (hs : s ≠ []) (n : ℕ) :
    s.take n = (s.drop 1).take n ↔ ∃ c, s.take (n + 1) = List.replicate (n + 1) c := by
  obtain ⟨c, s, rfl⟩ := List.exists_cons_of_ne_nil hs
  rw [List.drop_one, List.tail_cons]
  constructor
  · intro h
    refine ⟨c, ?_⟩
    rw [List.take_succ_cons, List.replicate_succ]
    congr 1
    clear hs
    induction n generalizing s with
    | zero => rfl
    | succ n ih =>
      cases s with
      | nil => cases h
      | cons d s =>
        rw [List.take_succ_cons, List.take_succ_cons, List.cons.injEq] at h
        obtain ⟨rfl, h⟩ := h
        rw [List.take_succ_cons, List.replicate_succ, ih s h]
  · rintro ⟨d, h⟩
    rw [List.take_succ_cons, List.replicate_succ, List.cons.injEq] at h
    obtain ⟨rfl, h⟩ := h
    have htake : (c :: s).take n = ((c :: s).take (n + 1)).take n := by
      rw [List.take_take, Nat.min_eq_left (Nat.le_succ n)]
    rw [htake, List.take_succ_cons, h, ← List.replicate_succ, List.take_replicate,
      Nat.min_eq_left (Nat.le_succ n)]

namespace LinedText

variable {lined : LinedText} {received : Received}

/-- The text with one line end behind each line. -/
def text (lined : LinedText) (eol : CString) : CString := ended eol (lined.line :: lined.headers)

/-- Bare line ends make the text shorter. -/
lemma length_text_lf (lined : LinedText) : (lined.text lf).bytes.length < 4095 := by
  have hle (headers : List CString) :
      (ended lf headers).bytes.length ≤ (ended crlf headers).bytes.length := by
    induction headers with
    | nil => exact Nat.le_refl _
    | cons header headers ih =>
      simp only [ended, bytes_append, List.length_append]
      exact Nat.add_le_add_left (Nat.add_le_add (by decide) ih) _
  have hlt := lined.length_lt
  have hheaders := hle lined.headers
  simp only [text, ended, bytes_append, List.length_append] at hlt ⊢
  rw [show crlf.bytes.length = 2 from rfl, httpRequestBytesLen] at hlt
  rw [show lf.bytes.length = 1 from rfl]
  omega

/-- What is received with `\r\n` behind each line. -/
def receivedCrlf (lined : LinedText) : Received := ⟨(lined.text crlf).bytes, lined.length_lt⟩

/-- What is received with `\n` behind each line. -/
def receivedLf (lined : LinedText) : Received :=
  ⟨(lined.text lf).bytes, Nat.lt_succ_of_lt lined.length_text_lf⟩

/-- The text is received. -/
lemma bytes_receivedCrlf (lined : LinedText) :
    lined.receivedCrlf.bytes = (lined.text crlf).bytes := rfl

/-- The text is received. -/
lemma bytes_receivedLf (lined : LinedText) : lined.receivedLf.bytes = (lined.text lf).bytes := rfl

/-- The first line ends in front of the headers. -/
lemma lineEnd_text (lined : LinedText) :
    lineEnd (lined.text crlf) = some lined.line.bytes.length ∧
      lineEnd (lined.text lf) = some lined.line.bytes.length :=
  ⟨lineEnd_crlf lined.isLine _, lineEnd_lf lined.isLine (cr_notMem_ended lined.headers_isLine)⟩

/-- The words of the request line are not taken from what is behind it. -/
lemma requestWords_text (lined : LinedText) :
    requestWords (lined.text crlf) = scanWords [7, 255, 15] lined.line.bytes ∧
      requestWords (lined.text lf) = scanWords [7, 255, 15] lined.line.bytes ∧
      (scanWords [7, 255, 15] lined.line.bytes).length = 3 := by
  have happend (c : UInt8) (hc : isSpace c = true) (behind : List UInt8) :=
    scanWords_append [7, 255, 15] (by decide) (Nat.le_of_eq lined.line_words.symm) hc behind
  refine ⟨?_, ?_, (happend 10 (by decide) []).2⟩
  · rw [requestWords, lined.lineEnd_text.1]
    exact (happend 13 (by decide) _).1
  · rw [requestWords, lined.lineEnd_text.2]
    exact (happend 10 (by decide) _).1

/-- What is read from a text whose lines end with the same line end. -/
lemma readRequest_eq {eol : CString} {headers : List CString} {ptr : ℕ}
    (htext : received.bytes = (lined.text eol).bytes)
    (hend : lineEnd (lined.text eol) = some lined.line.bytes.length)
    (hheaders : headersFrom received.requestBuf 10 (lined.line.bytes.length + 2) =
      some (headers, ptr)) (hptr : (lined.text eol).bytes.length ≤ ptr) (hle : ptr ≤ 4095) :
    readRequest received.requestBuf =
      some ⟨requestWords (lined.text eol), headers, CString.empty⟩ := by
  have hfirst : stringAt received.requestBuf 0 = some (lined.text eol) :=
    Received.stringAt_requestBuf htext (Nat.zero_le _)
  have hbody : stringAt received.requestBuf ptr = some CString.empty := by
    rw [Received.stringAt_requestBuf htext hle]
    congr 1
    ext1
    exact List.drop_eq_nil_of_le hptr
  rw [readRequest, hfirst, Option.bind_some, behindLine, hend]
  simp only [Option.elim_some, hheaders, Option.bind_some, hbody, Option.map_some]
  rfl

/-- What is behind the request line. -/
lemma drop_text (lined : LinedText) :
    (lined.text crlf).drop (lined.line.bytes.length + 2) = ended crlf lined.headers ∧
      (lined.text lf).drop (lined.line.bytes.length + 1) = ended lf lined.headers := by
  have hcrlf := drop_of_drop_append (rfl : (lined.text crlf).drop 0 =
    lined.line ++ (crlf ++ ended crlf lined.headers))
  have hlf := drop_of_drop_append (rfl : (lined.text lf).drop 0 =
    lined.line ++ (lf ++ ended lf lined.headers))
  rw [Nat.zero_add] at hcrlf hlf
  exact ⟨drop_of_drop_append hcrlf, drop_of_drop_append hlf⟩

/-- With `\r\n`, every header line is a header. -/
lemma readRequest_crlf (lined : LinedText) :
    readRequest lined.receivedCrlf.requestBuf = some ⟨requestWords (lined.text crlf),
      lined.headers.map (truncate · 255), CString.empty⟩ := by
  have hlen : (lined.text crlf).bytes.length =
      lined.line.bytes.length + 2 + (ended crlf lined.headers).bytes.length := by
    simp only [text, ended, bytes_append, List.length_append, Nat.add_assoc]
    rfl
  have hlt : (lined.text crlf).bytes.length < 4096 := lined.length_lt
  have hheaders := headersFrom_crlf lined.bytes_receivedCrlf lined.drop_text.1
    lined.headers_isLine (Nat.lt_succ_of_le lined.headers_length) (by omega)
  exact readRequest_eq lined.bytes_receivedCrlf lined.lineEnd_text.1 hheaders (Nat.le_of_eq hlen)
    (by omega)

/-- With `\n`, every header line without its first character is a header, if there is one in each
line. -/
lemma readRequest_lf (lined : LinedText) (hne : ∀ header ∈ lined.headers, header.bytes ≠ []) :
    readRequest lined.receivedLf.requestBuf = some ⟨requestWords (lined.text lf),
      lined.headers.map fun header => (header.drop 1).truncate 255, CString.empty⟩ := by
  have hlen : (lined.text lf).bytes.length =
      lined.line.bytes.length + 1 + (ended lf lined.headers).bytes.length := by
    simp only [text, ended, bytes_append, List.length_append, Nat.add_assoc]
    rfl
  have hlt := lined.length_text_lf
  have hheaders := headersFrom_lf lined.bytes_receivedLf lined.drop_text.2
    lined.headers_isLine hne (Nat.lt_succ_of_le lined.headers_length) (by omega)
  exact readRequest_eq lined.bytes_receivedLf lined.lineEnd_text.2 hheaders (by omega) (by omega)

/-- With `\n` and an empty line, there are fewer headers than header lines. -/
lemma exists_readRequest_lf (lined : LinedText) (hempty : CString.empty ∈ lined.headers) :
    ∃ reading, readRequest lined.receivedLf.requestBuf = some reading ∧
      reading.headers.length < lined.headers.length := by
  have hlt := lined.length_text_lf
  obtain ⟨reading, hread⟩ := Option.isSome_iff_exists.mp
    (lined.receivedLf.isSome_readRequest fun n _ hends =>
      absurd hends.length_eq (Nat.ne_of_lt hlt))
  refine ⟨reading, hread, ?_⟩
  obtain ⟨text, htext, hread⟩ := Option.bind_eq_some_iff.mp hread
  obtain ⟨⟨headers, ptr⟩, hheaders, hbody⟩ := Option.bind_eq_some_iff.mp hread
  obtain ⟨rest, -, rfl⟩ := Option.map_eq_some_iff.mp hbody
  obtain rfl := Option.some.inj
    ((Received.stringAt_requestBuf lined.bytes_receivedLf (Nat.zero_le _)).symm.trans htext)
  rw [behindLine, show (lined.text lf).drop 0 = lined.text lf from rfl, lined.lineEnd_text.2]
    at hheaders
  exact length_headersFrom_lt lined.bytes_receivedLf hheaders lined.drop_text.2
    lined.headers_isLine hempty

/-- A text is parsed to the same request with `\r\n` and with `\n` behind its lines if and only if
each of its header lines begins with 256 equal characters. -/
theorem parsed_alike_iff (lined : LinedText) (memory memory' : RequestMemory) :
    ∃ request request', parseHttpRequest lined.receivedCrlf.requestBuf memory = some request ∧
      parseHttpRequest lined.receivedLf.requestBuf memory' = some request' ∧
      (SameRequest request request' ↔
        ∀ header ∈ lined.headers, ∃ c, header.bytes.take 256 = List.replicate 256 c) := by
  obtain ⟨hwords, hwords', hthree⟩ := lined.requestWords_text
  obtain ⟨request, hparse, hholds⟩ := exists_parse lined.readRequest_crlf memory
  by_cases hempty : CString.empty ∈ lined.headers
  · obtain ⟨reading, hread, hlt⟩ := lined.exists_readRequest_lf hempty
    obtain ⟨request', hparse', hholds'⟩ := exists_parse hread memory'
    refine ⟨request, request', hparse, hparse', iff_of_false ?_ fun h => ?_⟩
    · intro hsame
      have hcount := hsame.headerCount
      rw [hholds.headerCount, hholds'.headerCount, List.length_map] at hcount
      exact absurd hcount.symm (Nat.ne_of_lt hlt)
    · obtain ⟨c, hc⟩ := h _ hempty
      cases hc
  · have hne : ∀ header ∈ lined.headers, header.bytes ≠ [] :=
      fun header hmem hnil => hempty (CString.ext (a := header) (b := CString.empty) hnil ▸ hmem)
    obtain ⟨request', hparse', hholds'⟩ := exists_parse (lined.readRequest_lf hne) memory'
    refine ⟨request, request', hparse, hparse', ?_⟩
    have hheaders : lined.headers.map (truncate · 255) =
        lined.headers.map (fun header => (header.drop 1).truncate 255) ↔
          ∀ header ∈ lined.headers, ∃ c, header.bytes.take 256 = List.replicate 256 c := by
      rw [List.map_inj_left]
      refine forall₂_congr fun header hmem => ?_
      rw [← take_eq_take_drop_iff (hne header hmem) 255]
      exact ⟨fun h => congrArg CString.bytes h, fun h => CString.ext h⟩
    rw [← hheaders]
    constructor
    · intro hsame
      exact hholds.headerLines.symm.trans (hsame.headerLines.trans hholds'.headerLines)
    · intro heq
      exact hholds.same hholds' (hwords.trans hwords'.symm) (by rw [hwords, hthree]) heq rfl

/-- A request line and the header line `A: b`. -/
def sampleLined : LinedText where
  line := methodGet.toCString ++ blank ++ samplePath.toCString ++ blank ++ http11
  headers := [RequestText.sampleHeader]
  line_words := by decide +kernel
  isLine := ⟨by decide, by decide⟩
  headers_isLine := by
    intro header hmem
    obtain rfl := List.mem_singleton.mp hmem
    exact ⟨by decide, by decide⟩
  headers_length := by decide
  length_lt := by decide

/-- With a bare line end, the header is `: b`. -/
theorem sampleLined_not_alike : ∃ request request',
    parseHttpRequest sampleLined.receivedCrlf.requestBuf RequestText.zeroMemory = some request ∧
    parseHttpRequest sampleLined.receivedLf.requestBuf RequestText.zeroMemory = some request' ∧
    request.headerLines = [RequestText.sampleHeader] ∧
    request'.headerLines = [RequestText.sampleHeader.drop 1] ∧ ¬ SameRequest request request' := by
  obtain ⟨request, hparse, hholds⟩ := exists_parse sampleLined.readRequest_crlf
    RequestText.zeroMemory
  obtain ⟨request', hparse', hholds'⟩ := exists_parse (sampleLined.readRequest_lf (by
    intro header hmem
    obtain rfl := List.mem_singleton.mp hmem
    decide)) RequestText.zeroMemory
  have hlines : request.headerLines = [RequestText.sampleHeader] := hholds.headerLines
  have hlines' : request'.headerLines = [RequestText.sampleHeader.drop 1] := hholds'.headerLines
  refine ⟨request, request', hparse, hparse', hlines, hlines', fun hsame => ?_⟩
  have heq := hsame.headerLines
  rw [hlines, hlines'] at heq
  exact absurd heq (by decide)

end LinedText

end OsLabs.Proxy
