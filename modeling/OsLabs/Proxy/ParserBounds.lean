import OsLabs.Proxy.Reading
import OsLabs.Proxy.RequestText

/-!
# The parser and the end of the receive buffer

`lineStart requestBytes 0 n` is where the line number `n` of a text begins, the request line being
number `0`, when lines are cut like the parser cuts them: at the next `\r\n`, else at the next `\n`,
and two bytes are skipped. `isSome_readRequest_iff` says that the parser stays within its memory as
long as each of the first eleven lines begins within it. In the receive buffer of `__handle_client`
this can only fail where a bare `\n` is the last of 4095 received bytes.
-/

namespace OsLabs.Proxy

open CString

namespace Reading

variable {requestBytes : List UInt8} {headers : List CString} {limit ptr ptr' n : ℕ}

/-- The offset behind the line at an offset, if that line has an end. -/
def nextLine (requestBytes : List UInt8) (ptr : ℕ) : Option ℕ :=
  (stringAt requestBytes ptr).bind fun text => (lineEnd text).map (ptr + · + 2)

/-- Where a line begins, by its distance from the line at `ptr`. -/
def lineStart (requestBytes : List UInt8) (ptr : ℕ) : ℕ → Option ℕ
  | 0 => some ptr
  | n + 1 => (nextLine requestBytes ptr).bind fun next => lineStart requestBytes next n

/-- The next line of the line at a distance. -/
lemma lineStart_succ (requestBytes : List UInt8) (ptr n : ℕ) :
    lineStart requestBytes ptr (n + 1) =
      (lineStart requestBytes ptr n).bind (nextLine requestBytes) := by
  induction n generalizing ptr with
  | zero =>
    exact Option.bind_fun_some _
  | succ n ih =>
    rw [lineStart, lineStart, Option.bind_assoc]
    exact congrArg _ (funext ih)

/-- The headers are read as long as their lines begin within the memory. -/
lemma isSome_headersFrom_iff (limit ptr : ℕ) :
    (headersFrom requestBytes limit ptr).isSome ↔
      ∀ n < limit, ∀ p ∈ lineStart requestBytes ptr n, (stringAt requestBytes p).isSome := by
  induction limit generalizing ptr with
  | zero => exact ⟨fun _ n hn => absurd hn (Nat.not_lt_zero n), fun _ => rfl⟩
  | succ limit ih =>
    rcases Option.eq_none_or_eq_some (stringAt requestBytes ptr) with hline | ⟨line, hline⟩
    · rw [headersFrom, hline, Option.bind_none]
      refine ⟨fun h => absurd h Bool.false_ne_true, fun h => ?_⟩
      have hfirst := h 0 (Nat.succ_pos _) ptr rfl
      rwa [hline] at hfirst
    rw [headersFrom, hline, Option.bind_some]
    rcases Option.eq_none_or_eq_some (lineEnd line) with hend | ⟨length, hend⟩
    · simp only [hend, Option.isSome_some, true_iff]
      intro n _ p hp
      cases n with
      | zero =>
        obtain rfl := Option.some.inj hp
        rw [hline, Option.isSome_some]
      | succ n =>
        simp only [lineStart, nextLine, hline, hend, Option.bind_some, Option.map_none,
          Option.bind_none] at hp
        cases hp
    · have hnext (m : ℕ) : lineStart requestBytes ptr (m + 1) =
          lineStart requestBytes (ptr + length + 2) m := by
        simp only [lineStart, nextLine, hline, hend, Option.bind_some, Option.map_some]
      have hbegin : ∀ p ∈ lineStart requestBytes ptr 0, (stringAt requestBytes p).isSome := by
        intro p hp
        obtain rfl := Option.some.inj hp
        rw [hline, Option.isSome_some]
      simp only [hend]
      by_cases hlimit : limit = 0
      · rw [if_pos hlimit]
        refine iff_of_true rfl fun n hn => ?_
        obtain rfl : n = 0 := by omega
        exact hbegin
      · rw [if_neg hlimit, Option.isSome_map, ih]
        constructor
        · intro h n hn
          cases n with
          | zero => exact hbegin
          | succ n =>
            rw [hnext]
            exact h n (Nat.lt_of_succ_lt_succ hn)
        · intro h n hn
          rw [← hnext]
          exact h (n + 1) (Nat.succ_lt_succ hn)

/-- What is known of the headers that were read: there are no more than the limit, they fit, and
the body begins within the memory. -/
lemma headersFrom_fits (hheaders : headersFrom requestBytes limit ptr = some (headers, ptr'))
    (hpos : 0 < limit) :
    headers.length ≤ limit ∧ (∀ header ∈ headers, header.bytes.length ≤ 255) ∧
      (stringAt requestBytes ptr').isSome := by
  induction limit generalizing ptr headers with
  | zero => exact absurd hpos (Nat.lt_irrefl 0)
  | succ limit ih =>
    obtain ⟨line, hline, hrest⟩ := Option.bind_eq_some_iff.mp hheaders
    rcases Option.eq_none_or_eq_some (lineEnd line) with hend | ⟨length, hend⟩
    · simp only [hend, Option.some.injEq, Prod.mk.injEq] at hrest
      obtain ⟨rfl, rfl⟩ := hrest
      exact ⟨Nat.zero_le _, nofun, by rw [hline, Option.isSome_some]⟩
    · have hfits : (line.truncate (min length 255)).bytes.length ≤ 255 :=
        Nat.le_trans (List.length_take_le _ _) (Nat.min_le_right _ _)
      simp only [hend] at hrest
      split_ifs at hrest with hlimit
      · obtain ⟨rfl, rfl⟩ := Prod.mk.inj (Option.some.inj hrest)
        refine ⟨Nat.succ_le_succ (Nat.zero_le _), ?_, by rw [hline, Option.isSome_some]⟩
        exact fun header hmem => (List.mem_singleton.mp hmem) ▸ hfits
      · obtain ⟨⟨rest, ptr''⟩, hfrom, heq⟩ := Option.map_eq_some_iff.mp hrest
        obtain ⟨rfl, rfl⟩ := Prod.mk.inj heq
        obtain ⟨hlength, hrest', hbody⟩ := ih hfrom (Nat.pos_of_ne_zero hlimit)
        exact ⟨Nat.succ_le_succ hlength, List.forall_mem_cons.mpr ⟨hfits, hrest'⟩, hbody⟩

/-- The parser stays within the memory if and only if each of the first eleven lines begins within
it. -/
lemma isSome_readRequest_iff (requestBytes : List UInt8) :
    (readRequest requestBytes).isSome ↔
      ∀ n ≤ 10, ∀ p ∈ lineStart requestBytes 0 n, (stringAt requestBytes p).isSome := by
  rcases Option.eq_none_or_eq_some (stringAt requestBytes 0) with htext | ⟨text, htext⟩
  · rw [readRequest, htext, Option.bind_none]
    refine ⟨fun h => absurd h Bool.false_ne_true, fun h => ?_⟩
    have hfirst := h 0 (Nat.zero_le _) 0 rfl
    rwa [htext] at hfirst
  have hbody : (readRequest requestBytes).isSome ↔
      (headersFrom requestBytes 10 (behindLine text)).isSome := by
    rw [readRequest, htext, Option.bind_some]
    rcases Option.eq_none_or_eq_some (headersFrom requestBytes 10 (behindLine text)) with
      hheaders | ⟨⟨headers, ptr⟩, hheaders⟩
    · rw [hheaders, Option.bind_none]
      exact iff_of_false Bool.false_ne_true Bool.false_ne_true
    · obtain ⟨-, -, hrest⟩ := headersFrom_fits hheaders (by decide)
      rw [hheaders, Option.bind_some, Option.isSome_some, Option.isSome_map]
      exact iff_of_true hrest rfl
  rw [hbody, isSome_headersFrom_iff]
  rcases Option.eq_none_or_eq_some (lineEnd text) with hend | ⟨length, hend⟩
  · -- there is only one line, and the loop begins where the request line does
    have hbehind : behindLine text = 0 := by rw [behindLine, hend, Option.elim_none]
    have hnext (n : ℕ) : lineStart requestBytes 0 (n + 1) = none := by
      simp only [lineStart, nextLine, htext, hend, Option.bind_some, Option.map_none,
        Option.bind_none]
    rw [hbehind]
    refine ⟨fun h n hn => ?_, fun h n hn => h n (Nat.le_of_lt hn)⟩
    cases n with
    | zero => exact h 0 (by decide)
    | succ n =>
      rw [hnext]
      exact fun p hp => absurd hp (Option.not_mem_none p)
  · have hnext (n : ℕ) : lineStart requestBytes 0 (n + 1) =
        lineStart requestBytes (behindLine text) n := by
      simp only [lineStart, nextLine, htext, hend, Option.bind_some, Option.map_some, behindLine,
        Option.elim_some, Nat.zero_add]
    constructor
    · intro h n hn
      cases n with
      | zero =>
        intro p hp
        obtain rfl := Option.some.inj hp
        rw [htext, Option.isSome_some]
      | succ n =>
        rw [hnext]
        exact h n hn
    · intro h n hn
      rw [← hnext]
      exact h (n + 1) hn

end Reading

open Reading

/-- `HTTP_REQUEST_BYTES_LEN`. -/
def httpRequestBytesLen : ℕ := 4096

/-- What `recv` answers to `__recv`. -/
structure Received where
  bytes : List UInt8
  length_lt : bytes.length < httpRequestBytesLen

namespace Received

variable {received : Received} {memory : RequestMemory} {p n : ℕ}

/-- The buffer `request_buf` of `__handle_client` after `__recv`. -/
def requestBuf (received : Received) : List UInt8 :=
  received.bytes ++ List.replicate (httpRequestBytesLen - received.bytes.length) 0

/-- The buffer has its length. -/
lemma length_requestBuf (received : Received) : received.requestBuf.length = 4096 := by
  rw [requestBuf, List.length_append, List.length_replicate]
  exact Nat.add_sub_cancel' (Nat.le_of_lt received.length_lt)

/-- Behind the received bytes there are zeros. -/
lemma getElem?_requestBuf (received : Received) (hle : received.bytes.length ≤ n) (hlt : n < 4096) :
    received.requestBuf[n]? = some 0 := by
  rw [requestBuf, List.getElem?_append_right hle, List.getElem?_replicate, if_pos]
  exact Nat.sub_lt_sub_right hle hlt

/-- A string begins everywhere in the buffer, and nowhere behind it. -/
lemma isSome_stringAt_iff (received : Received) :
    (stringAt received.requestBuf p).isSome ↔ p ≤ 4095 := by
  constructor
  · intro h
    by_contra hlt
    obtain ⟨text, htext⟩ := Option.isSome_iff_exists.mp h
    rw [stringAt, List.drop_eq_nil_of_le (by rw [received.length_requestBuf]; omega),
      if_neg List.not_mem_nil] at htext
    cases htext
  · intro hle
    obtain ⟨text, htext, -⟩ := exists_stringAt hle
      (received.getElem?_requestBuf (Nat.le_of_lt_succ received.length_lt) (by decide))
    rw [htext, Option.isSome_some]

/-- The strings of a buffer with a single string in it. -/
lemma stringAt_requestBuf {text : CString} (htext : received.bytes = text.bytes) (hle : p ≤ 4095) :
    stringAt received.requestBuf p = some (text.drop p) := by
  have hlen := received.length_lt
  have hbuf : received.requestBuf.drop p = (text.drop p).bytes ++
      List.replicate (httpRequestBytesLen - max p received.bytes.length) 0 := by
    rw [requestBuf, List.drop_append, List.drop_replicate, htext]
    congr 2
    omega
  obtain ⟨n, hn⟩ : ∃ n, httpRequestBytesLen - max p received.bytes.length = n + 1 :=
    Nat.exists_eq_add_one.mpr (Nat.sub_pos_of_lt (Nat.max_lt.mpr ⟨Nat.lt_succ_of_le hle, hlen⟩))
  rw [hn, List.replicate_succ] at hbuf
  rw [stringAt, hbuf, if_pos (by simp), ofArray_append]

/-- The line number `n` ends with the last of 4095 received bytes. -/
def EndsLast (received : Received) (n : ℕ) : Prop :=
  ∃ p text, lineStart received.requestBuf 0 n = some p ∧
    stringAt received.requestBuf p = some text ∧ ∃ length ∈ lineEnd text, p + length = 4094

/-- The parser stays within the buffer and leaves a request with at most ten headers, whose headers
and body are terminated. -/
def ParsedInside (received : Received) (memory : RequestMemory) : Prop :=
  ∃ request, RequestMemory.parseHttpRequest received.requestBuf memory = some request ∧
    request.headerCount ≤ 10 ∧ (∀ i < request.headerCount, ∃ header,
      request.headers[i]? = some header ∧ 0 ∈ header.bytes) ∧ 0 ∈ request.body.bytes

/-- Lines begin within the buffer as long as none of them ends with the last byte. -/
lemma lineStart_le (hends : ∀ m < n, ¬ received.EndsLast m)
    (hp : lineStart received.requestBuf 0 n = some p) : p ≤ 4095 := by
  induction n generalizing p with
  | zero =>
    obtain rfl := Option.some.inj hp
    exact Nat.zero_le _
  | succ n ih =>
    rw [lineStart_succ] at hp
    obtain ⟨p', hp', hnext⟩ := Option.bind_eq_some_iff.mp hp
    obtain ⟨text, htext, hnext⟩ := Option.bind_eq_some_iff.mp hnext
    obtain ⟨length, hend, rfl⟩ := Option.map_eq_some_iff.mp hnext
    have hle := ih (fun m hm => hends m (Nat.lt_succ_of_lt hm)) hp'
    obtain ⟨text', htext', hlen⟩ := exists_stringAt hle
      (received.getElem?_requestBuf (Nat.le_of_lt_succ received.length_lt) (by decide))
    obtain rfl := Option.some.inj (htext'.symm.trans htext)
    have hlt := lineEnd_lt hend
    have hne : p' + length ≠ 4094 := fun heq =>
      hends n (Nat.lt_succ_self n) ⟨p', text', hp', htext, length, hend, heq⟩
    omega

/-- What is read from the buffer fits into the arrays of the request. -/
lemma parsedInside_of_isSome (h : (readRequest received.requestBuf).isSome)
    (memory : RequestMemory) : received.ParsedInside memory := by
  obtain ⟨reading, hread⟩ := Option.isSome_iff_exists.mp h
  obtain ⟨request, hparse, hholds⟩ := RequestMemory.exists_parse hread memory
  obtain ⟨text, -, hread⟩ := Option.bind_eq_some_iff.mp hread
  obtain ⟨⟨headers, ptr⟩, hheaders, hbody⟩ := Option.bind_eq_some_iff.mp hread
  obtain ⟨rest, -, rfl⟩ := Option.map_eq_some_iff.mp hbody
  obtain ⟨hlength, hfits, -⟩ := headersFrom_fits hheaders (by decide)
  have hcount : request.headerCount ≤ 10 := by rwa [hholds.headerCount]
  refine ⟨request, hparse, hcount, ?_, ?_⟩
  · intro i hi
    have hi' : i < request.headers.length := by
      rw [request.length_headers]
      exact Nat.lt_of_lt_of_le hi (Nat.le_trans hcount (by decide))
    refine ⟨request.headers[i], List.getElem?_eq_getElem hi', ?_⟩
    rw [CharBuffer.zero_mem_iff]
    refine Nat.lt_succ_of_le (hfits _ ?_)
    rw [← show request.headerLines = headers from hholds.headerLines, RequestMemory.headerLines]
    exact List.mem_map_of_mem (List.mem_take_iff_getElem.mpr ⟨i, by omega, rfl⟩)
  · rw [CharBuffer.zero_mem_iff, hholds.body]
    exact Nat.lt_succ_of_le (List.length_take_le _ _)

/-- Behind a line that ends with the last byte the parser leaves the buffer. -/
lemma not_parsedInside (hn : n < 10) (hends : received.EndsLast n) (memory : RequestMemory) :
    ¬ received.ParsedInside memory := by
  rintro ⟨request, hparse, -⟩
  obtain ⟨p, text, hp, htext, length, hend, hlast⟩ := hends
  obtain ⟨reading, hread, -⟩ := RequestMemory.exists_reading hparse
  have hnext : lineStart received.requestBuf 0 (n + 1) = some 4096 := by
    rw [lineStart_succ, hp, Option.bind_some, nextLine, htext, Option.bind_some,
      Option.mem_def.mp hend, Option.map_some]
    exact congrArg some (congrArg (· + 2) hlast)
  have hinside := (isSome_readRequest_iff received.requestBuf).mp
    (by rw [hread, Option.isSome_some]) (n + 1) hn 4096 hnext
  exact absurd (received.isSome_stringAt_iff.mp hinside) (by decide)

/-- The parser stays within the buffer when no line ends with the last byte. -/
lemma isSome_readRequest (received : Received) (hends : ∀ n < 10, ¬ received.EndsLast n) :
    (readRequest received.requestBuf).isSome := by
  rw [isSome_readRequest_iff]
  intro n hn p hp
  rw [isSome_stringAt_iff]
  exact lineStart_le (fun m hm => hends m (Nat.lt_of_lt_of_le hm hn)) hp

/-- The parser stays within the receive buffer, whatever was received and whatever the memory of the
request holds, and the stored headers and the body are terminated, if and only if none of the first
ten lines ends with a `\n` that is the last of 4095 received bytes. -/
theorem parsedInside_iff (received : Received) (memory : RequestMemory) :
    received.ParsedInside memory ↔ ∀ n < 10, ¬ received.EndsLast n := by
  constructor
  · intro hinside n hn hends
    exact not_parsedInside hn hends memory hinside
  · intro hends
    exact parsedInside_of_isSome (received.isSome_readRequest hends) memory

/-- A line that ends with the last byte needs 4095 received bytes. -/
lemma EndsLast.length_eq (h : received.EndsLast n) : received.bytes.length = 4095 := by
  obtain ⟨p, text, -, htext, length, hend, hlast⟩ := h
  have hlt := lineEnd_lt hend
  have hle := Nat.le_of_lt_succ received.length_lt
  by_contra hne
  have hmax : max p received.bytes.length < 4096 := by omega
  obtain ⟨text', htext', hlen⟩ := exists_stringAt (Nat.le_max_left p received.bytes.length)
    (received.getElem?_requestBuf (Nat.le_max_right _ _) hmax)
  obtain rfl := Option.some.inj (htext'.symm.trans htext)
  omega

/-- A line of 4094 characters and a bare line end fill the buffer. -/
lemma endsLast_of_line (line : CString) (hlen : line.bytes.length = 4094) (hcr : 13 ∉ line.bytes)
    (hlf : 10 ∉ line.bytes) (hbytes : received.bytes = (line ++ lf).bytes) :
    received.EndsLast 0 := by
  have hlen' : (line ++ lf).bytes.length = 4095 := by
    rw [bytes_append, List.length_append, hlen]
    rfl
  have hbuf : received.requestBuf = [] ++ ((line ++ lf).bytes ++ 0 :: []) := by
    rw [requestBuf, hbytes, hlen']
    rfl
  have hnot : 13 ∉ (line ++ lf).bytes := by
    intro hmem
    rcases List.mem_append.mp hmem with h | h
    · exact hcr h
    · exact absurd (List.mem_singleton.mp h) (by decide)
  refine ⟨0, line ++ lf, rfl, ?_, 4094, ?_, rfl⟩
  · rw [hbuf]
    exact stringAt_append [] _ []
  · have hfound := strstr_append hlf [] []
    rw [hlen] at hfound
    rw [lineEnd, show crlf.bytes = 13 :: [10] from rfl, strstr_eq_none hnot]
    exact hfound

/-- A line of the length of the buffer. -/
def longLine : Received where
  bytes := List.replicate 4094 65 ++ [10]
  length_lt := by
    rw [List.length_append, List.length_replicate]
    decide

/-- Behind this line the parser leaves the buffer. -/
theorem longLine_not_parsedInside : ¬ longLine.ParsedInside RequestText.zeroMemory := by
  have hchar (c : UInt8) (hc : c ≠ 65) : c ∉ List.replicate 4094 (65 : UInt8) :=
    fun h => hc (List.eq_of_mem_replicate h)
  exact not_parsedInside (by decide : 0 < 10)
    (endsLast_of_line ⟨_, hchar 0 (by decide)⟩ List.length_replicate (hchar 13 (by decide))
      (hchar 10 (by decide)) rfl) _

end Received

end OsLabs.Proxy
