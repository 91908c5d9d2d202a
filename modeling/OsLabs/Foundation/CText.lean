import OsLabs.Foundation.CString
import Mathlib.Data.List.TakeWhile
import Mathlib.Tactic.SplitIfs

/-!
# Text in memory

Strings are read from a memory area at an offset: `CString.stringAt` is the string that begins
there, and answers `none` where no terminator follows within the area. `CString.strstr` searches a
string, `CString.scanWord` is the conversion `%ns` of `sscanf`, and `CString.scanWords` is a
sequence of such conversions. `CString.tokens` are the words of a text between its white space, of
any length; `scanWords_append` and `scanWords_of_tokens` compare the two.

A `CharBuffer n` is an array of `n` characters with any content, terminated or not; writing more
than `n` characters into it answers `none`.
-/

namespace CString

/-- White space in the C locale. -/
def isSpace (c : UInt8) : Bool := c == 32 || (9 ≤ c && c ≤ 13)

/-- The string at an offset of a memory area; `none` where it does not end within the area. -/
def stringAt (memory : List UInt8) (ptr : ℕ) : Option CString :=
  if 0 ∈ memory.drop ptr then some (ofArray (memory.drop ptr)) else none

/-- `strstr`: how far behind the beginning of the string `needle` is found first. -/
def strstr (needle : List UInt8) : List UInt8 → Option ℕ
  | [] => if needle = [] then some 0 else none
  | c :: s => if needle.isPrefixOf (c :: s) then some 0 else (strstr needle s).map (· + 1)

/-- The conversion `%ns` of `sscanf` with the width `n`: the characters that are stored, and the
input that is left; `none` where the input ends before. -/
def scanWord (width : ℕ) (input : List UInt8) : Option (List UInt8 × List UInt8) :=
  let input := input.dropWhile isSpace
  let word := (input.take width).takeWhile fun c => !isSpace c
  if word = [] then none else some (word, input.drop word.length)

/-- `sscanf` with a conversion `%ns` for each of the widths: the words that are stored. -/
def scanWords : List ℕ → List UInt8 → List (List UInt8)
  | [], _ => []
  | width :: widths, input =>
    match scanWord width input with
    | none => []
    | some (word, input) => word :: scanWords widths input

/-- The words of a text: what stands between its white space. -/
def tokens (text : List UInt8) : List (List UInt8) := (text.splitOnP isSpace).filter (· ≠ [])

/-- Two strings after each other. -/
instance : Append CString :=
  ⟨fun a b => ⟨a.bytes ++ b.bytes, fun h => (List.mem_append.mp h).elim a.noNul b.noNul⟩⟩

/-- Their bytes. -/
@[simp] lemma bytes_append (a b : CString) : (a ++ b).bytes = a.bytes ++ b.bytes := rfl

/-- The string from a place on. -/
def drop (a : CString) (n : ℕ) : CString :=
  ⟨a.bytes.drop n, fun h => a.noNul (List.mem_of_mem_drop h)⟩

/-- A string ends at its first zero. -/
lemma ofArray_append (s : CString) (after : List UInt8) : ofArray (s.bytes ++ 0 :: after) = s := by
  have hpos : ∀ c ∈ s.bytes, (c != 0) = true := by
    intro c hc
    rw [bne_iff_ne]
    exact fun heq => s.noNul (heq ▸ hc)
  ext1
  show (s.bytes ++ 0 :: after).takeWhile _ = s.bytes
  rw [List.takeWhile_append_of_pos hpos, List.takeWhile_cons_of_neg (by decide), List.append_nil]

/-- The string between two parts of a memory area. -/
lemma stringAt_append (before : List UInt8) (s : CString) (after : List UInt8) :
    stringAt (before ++ (s.bytes ++ 0 :: after)) before.length = some s := by
  rw [stringAt, List.drop_left, if_pos (by simp), ofArray_append]

/-- Where a zero follows, there is a string. -/
lemma exists_stringAt {memory : List UInt8} {ptr n : ℕ} (hle : ptr ≤ n)
    (hzero : memory[n]? = some 0) :
    ∃ s, stringAt memory ptr = some s ∧ ptr + s.bytes.length ≤ n := by
  have hmem : (memory.drop ptr)[n - ptr]? = some 0 := by
    rw [List.getElem?_drop, Nat.add_sub_cancel' hle, hzero]
  refine ⟨_, if_pos (List.mem_of_getElem? hmem), ?_⟩
  by_contra hlt
  have hlen : n - ptr < ((memory.drop ptr).takeWhile (· != 0)).length := by
    have : ¬ ptr + ((memory.drop ptr).takeWhile (· != 0)).length ≤ n := hlt
    omega
  have hfound := (List.takeWhile_prefix (· != 0) (l := memory.drop ptr)).getElem hlen
  have hget := (List.getElem?_eq_some_iff.mp hmem).2
  rw [hget] at hfound
  exact zero_notMem_takeWhile _ (hfound ▸ List.getElem_mem hlen)

/-- The string is found where its first character occurs first. -/
lemma strstr_append {c : UInt8} {s : List UInt8} (hc : c ∉ s) (needle after : List UInt8) :
    strstr (c :: needle) (s ++ (c :: needle ++ after)) = some s.length := by
  induction s with
  | nil =>
    have hfound : (c :: needle).isPrefixOf (c :: needle ++ after) = true :=
      List.isPrefixOf_iff_prefix.mpr (List.prefix_append _ _)
    rw [List.nil_append, List.cons_append, strstr, ← List.cons_append, hfound]
    rfl
  | cons d s ih =>
    have hne : c ≠ d := fun heq => hc (heq ▸ List.mem_cons_self)
    have hfound : (c :: needle).isPrefixOf (d :: (s ++ (c :: needle ++ after))) = false := by
      rw [List.isPrefixOf_cons_cons, beq_eq_false_iff_ne.mpr hne, Bool.false_and]
    rw [List.cons_append, strstr, hfound, ih fun h => hc (List.mem_cons_of_mem d h)]
    rfl

/-- A string whose first character does not occur is not found. -/
lemma strstr_eq_none {c : UInt8} {s : List UInt8} (hc : c ∉ s) (needle : List UInt8) :
    strstr (c :: needle) s = none := by
  induction s with
  | nil => rfl
  | cons d s ih =>
    have hne : c ≠ d := fun heq => hc (heq ▸ List.mem_cons_self)
    have hfound : (c :: needle).isPrefixOf (d :: s) = false := by
      rw [List.isPrefixOf_cons_cons, beq_eq_false_iff_ne.mpr hne, Bool.false_and]
    rw [strstr, hfound, ih fun h => hc (List.mem_cons_of_mem d h)]
    rfl

/-- What is found lies within the string. -/
lemma strstr_le {needle s : List UInt8} {i : ℕ} (h : strstr needle s = some i) :
    i + needle.length ≤ s.length := by
  induction s generalizing i with
  | nil =>
    rw [strstr] at h
    split_ifs at h with hneedle
    rw [hneedle, ← Option.some.inj h]
    exact Nat.le_refl _
  | cons c s ih =>
    rw [strstr] at h
    split_ifs at h with hfound
    · rw [← Option.some.inj h, Nat.zero_add]
      exact (List.isPrefixOf_iff_prefix.mp hfound).length_le
    · obtain ⟨j, hj, rfl⟩ := Option.map_eq_some_iff.mp h
      have hle := ih hj
      rw [List.length_cons]
      omega

/-- The string is where it is found. -/
lemma strstr_spec {needle s : List UInt8} {i : ℕ} (h : strstr needle s = some i) :
    needle <+: s.drop i := by
  induction s generalizing i with
  | nil =>
    rw [strstr] at h
    split_ifs at h with hneedle
    rw [hneedle]
    exact List.nil_prefix
  | cons c s ih =>
    rw [strstr] at h
    split_ifs at h with hfound
    · rw [← Option.some.inj h]
      exact List.isPrefixOf_iff_prefix.mp hfound
    · obtain ⟨j, hj, rfl⟩ := Option.map_eq_some_iff.mp h
      exact ih hj

/-- A string that is found is part of the string. -/
lemma strstr_subset {needle s : List UInt8} {i : ℕ} (h : strstr needle s = some i) : needle ⊆ s :=
  fun _ hc => List.mem_of_mem_drop ((strstr_spec h).subset hc)

/-- White space before a word is skipped. -/
lemma scanWord_cons {c : UInt8} (hc : isSpace c = true) (width : ℕ) (input : List UInt8) :
    scanWord width (c :: input) = scanWord width input := by
  rw [scanWord, scanWord, List.dropWhile_cons_of_pos hc]

/-- A word that fits is read up to the white space behind it. -/
lemma scanWord_append {word : List UInt8} {c : UInt8} {width : ℕ} (hne : word ≠ [])
    (hword : ∀ d ∈ word, isSpace d = false) (hwidth : word.length ≤ width)
    (hc : isSpace c = true) (input : List UInt8) :
    scanWord width (word ++ c :: input) = some (word, c :: input) := by
  have hdrop : (word ++ c :: input).dropWhile isSpace = word ++ c :: input := by
    obtain ⟨d, word, rfl⟩ := List.exists_cons_of_ne_nil hne
    rw [List.cons_append, List.dropWhile_cons_of_neg]
    rw [hword d List.mem_cons_self]
    exact Bool.false_ne_true
  have hpos : ∀ d ∈ word, (!isSpace d) = true := fun d hd => by rw [hword d hd, Bool.not_false]
  have htake : ((word ++ c :: input).take width).takeWhile (fun d => !isSpace d) = word := by
    rw [List.take_append, List.take_of_length_le hwidth, List.takeWhile_append_of_pos hpos]
    cases width - word.length with
    | zero => rw [List.take_zero, List.takeWhile_nil, List.append_nil]
    | succ n =>
      rw [List.take_succ_cons, List.takeWhile_cons_of_neg (by simp [hc]), List.append_nil]
  unfold scanWord
  simp only [hdrop, htake, if_neg hne, List.drop_left]

/-! ## Words -/

/-- A conversion takes its word from the input, no longer than the width, and leaves the rest. -/
lemma scanWord_eq_some {width : ℕ} {input word rest : List UInt8}
    (h : scanWord width input = some (word, rest)) :
    word.length ≤ width ∧ word ⊆ input ∧ rest ⊆ input := by
  simp only [scanWord] at h
  split_ifs at h
  obtain ⟨rfl, rfl⟩ := Prod.mk.inj (Option.some.inj h)
  have hdrop : input.dropWhile isSpace ⊆ input := (List.dropWhile_suffix _).subset
  have hword := (List.takeWhile_prefix (fun c => !isSpace c)
    (l := (input.dropWhile isSpace).take width))
  refine ⟨?_, ?_, ?_⟩
  · exact Nat.le_trans hword.length_le (List.length_take_le _ _)
  · exact fun c hc => hdrop (List.mem_of_mem_take (hword.subset hc))
  · exact fun c hc => hdrop (List.mem_of_mem_drop hc)

/-- There is at most one word for each width, and it is no longer than that. -/
lemma scanWords_le (widths : List ℕ) (input : List UInt8) :
    (scanWords widths input).length ≤ widths.length ∧
      ∀ (i : ℕ) (word : List UInt8) (width : ℕ), (scanWords widths input)[i]? = some word →
        widths[i]? = some width → word.length ≤ width := by
  induction widths generalizing input with
  | nil => exact ⟨Nat.le_refl _, fun i word width hword => by cases hword⟩
  | cons width widths ih =>
    rw [scanWords]
    rcases Option.eq_none_or_eq_some (scanWord width input) with hscan | ⟨⟨word, rest⟩, hscan⟩
    · rw [hscan]
      exact ⟨Nat.zero_le _, fun i word width hword => by cases hword⟩
    · rw [hscan]
      refine ⟨Nat.succ_le_succ (ih rest).1, fun i word' width' hword hwidth => ?_⟩
      cases i with
      | zero =>
        obtain rfl := Option.some.inj hword
        obtain rfl := Option.some.inj hwidth
        exact (scanWord_eq_some hscan).1
      | succ i => exact (ih rest).2 i word' width' hword hwidth

/-- White space in front of a text has no words. -/
lemma tokens_cons {c : UInt8} (hc : isSpace c = true) (text : List UInt8) :
    tokens (c :: text) = tokens text := by
  simp [tokens, List.splitOnP_cons_eq_if_modifyHead, hc]

/-- A text that begins with a word. -/
lemma tokens_append {word rest : List UInt8} (hne : word ≠ [])
    (hword : ∀ c ∈ word, isSpace c = false) (hrest : ∀ c ∈ rest.head?, isSpace c = true) :
    tokens (word ++ rest) = word :: tokens rest := by
  have hsplit : (word ++ rest).splitOnP isSpace =
      (rest.splitOnP isSpace).modifyHead (word ++ ·) := by
    clear hne
    induction word with
    | nil => exact (congrFun List.modifyHead_id _).symm
    | cons c word ih =>
      have hc := hword c List.mem_cons_self
      rw [List.cons_append, List.splitOnP_cons_eq_if_modifyHead, hc, if_neg Bool.false_ne_true,
        ih fun d hd => hword d (List.mem_cons_of_mem c hd), List.modifyHead_modifyHead]
      rfl
  rw [tokens, hsplit]
  cases rest with
  | nil => simp [tokens, hne]
  | cons c rest =>
    have hc := hrest c rfl
    rw [tokens_cons hc, List.splitOnP_cons_eq_if_modifyHead, if_pos hc, List.modifyHead_cons,
      List.append_nil, List.filter_cons_of_pos (by simpa using hne), tokens]

/-- A text is white space, or it begins with white space and a word. -/
lemma tokens_cases (text : List UInt8) :
    (tokens text = [] ∧ ∀ c ∈ text, isSpace c = true) ∨
      ∃ blanks word rest, text = blanks ++ (word ++ rest) ∧ word ≠ [] ∧
        (∀ c ∈ blanks, isSpace c = true) ∧ (∀ c ∈ word, isSpace c = false) ∧
        (∀ c ∈ rest.head?, isSpace c = true) ∧ tokens text = word :: tokens rest := by
  induction text with
  | nil => exact Or.inl ⟨rfl, nofun⟩
  | cons c text ih =>
    by_cases hc : isSpace c = true
    · rw [tokens_cons hc]
      rcases ih with ⟨hnil, hall⟩ | ⟨blanks, word, rest, rfl, hne, hblanks, hrest⟩
      · exact Or.inl ⟨hnil, List.forall_mem_cons.mpr ⟨hc, hall⟩⟩
      · exact Or.inr ⟨c :: blanks, word, rest, rfl, hne,
          List.forall_mem_cons.mpr ⟨hc, hblanks⟩, hrest⟩
    · have hc' : isSpace c = false := Bool.eq_false_iff.mpr hc
      have hword : ∀ d ∈ c :: text.takeWhile (fun d => !isSpace d), isSpace d = false := by
        intro d hd
        rcases List.mem_cons.mp hd with rfl | hd
        · exact hc'
        · exact (Bool.not_eq_true' _).mp (List.mem_takeWhile_imp (p := fun d => !isSpace d) hd)
      have hrest : ∀ d ∈ (text.dropWhile (fun d => !isSpace d)).head?, isSpace d = true := by
        intro d hd
        have hnot := List.head?_dropWhile_not (fun d => !isSpace d) text
        rw [Option.mem_def.mp hd] at hnot
        simpa using hnot
      have htext : c :: text = c :: text.takeWhile (fun d => !isSpace d) ++
          text.dropWhile (fun d => !isSpace d) := by
        rw [List.cons_append, List.takeWhile_append_dropWhile]
      refine Or.inr ⟨[], _, _, htext, List.cons_ne_nil _ _, nofun, hword, hrest, ?_⟩
      rw [htext, tokens_append (List.cons_ne_nil _ _) hword hrest]

/-- A conversion reads the first word of the input as far as the width goes. -/
lemma scanWord_word {blanks word rest : List UInt8} {width : ℕ} (hpos : 0 < width)
    (hblanks : ∀ c ∈ blanks, isSpace c = true) (hne : word ≠ [])
    (hword : ∀ c ∈ word, isSpace c = false) (hrest : ∀ c ∈ rest.head?, isSpace c = true) :
    scanWord width (blanks ++ (word ++ rest)) =
      some (word.take width, word.drop width ++ rest) := by
  have hdrop : (blanks ++ (word ++ rest)).dropWhile isSpace = word ++ rest := by
    obtain ⟨c, word, rfl⟩ := List.exists_cons_of_ne_nil hne
    rw [List.dropWhile_append_of_pos hblanks, List.cons_append, List.dropWhile_cons_of_neg]
    rw [hword c List.mem_cons_self]
    exact Bool.false_ne_true
  have htake : ((word ++ rest).take width).takeWhile (fun c => !isSpace c) = word.take width := by
    have hpos' : ∀ c ∈ word.take width, (!isSpace c) = true := by
      intro c hc
      rw [hword c (List.mem_of_mem_take hc), Bool.not_false]
    rw [List.take_append, List.takeWhile_append_of_pos hpos']
    cases rest with
    | nil => rw [List.take_nil, List.takeWhile_nil, List.append_nil]
    | cons c rest =>
      cases width - word.length with
      | zero => rw [List.take_zero, List.takeWhile_nil, List.append_nil]
      | succ n =>
        have hc := hrest c rfl
        rw [List.take_succ_cons, List.takeWhile_cons_of_neg (by simp [hc]), List.append_nil]
  have hne' : word.take width ≠ [] := by
    rw [Ne, List.take_eq_nil_iff, not_or]
    exact ⟨Nat.ne_of_gt hpos, hne⟩
  unfold scanWord
  simp only [hdrop, htake, if_neg hne']
  rw [List.length_take, List.drop_append]
  rcases Nat.le_total width word.length with hle | hle
  · rw [Nat.min_eq_left hle, Nat.sub_eq_zero_of_le hle, List.drop_zero]
  · rw [Nat.min_eq_right hle, Nat.sub_self, List.drop_zero, List.drop_length,
      List.drop_eq_nil_of_le hle]

/-- A text with a word is read word by word: what is left has the other words. -/
lemma exists_scanWord {text token : List UInt8} {more : List (List UInt8)} (width : ℕ)
    (hpos : 0 < width) (htokens : tokens text = token :: more) :
    ∃ rest, scanWord width text = some (token.take width, rest) ∧
      more.length ≤ (tokens rest).length ∧ (token.length ≤ width → tokens rest = more) ∧
      ∀ c behind, isSpace c = true →
        scanWord width (text ++ c :: behind) = some (token.take width, rest ++ c :: behind) := by
  rcases tokens_cases text with ⟨hnil, -⟩ | ⟨blanks, word, rest, rfl, hne, hblanks, hword, hrest,
    htext⟩
  · rw [htokens] at hnil
    cases hnil
  · rw [htokens] at htext
    obtain ⟨rfl, rfl⟩ := List.cons.inj htext
    refine ⟨token.drop width ++ rest, scanWord_word hpos hblanks hne hword hrest, ?_, ?_, ?_⟩
    · rcases Nat.lt_or_ge width token.length with hlt | hle
      · rw [tokens_append _ (fun c hc => hword c (List.mem_of_mem_drop hc)) hrest]
        · exact Nat.le_succ _
        · rw [Ne, List.drop_eq_nil_iff]
          exact Nat.not_le.mpr hlt
      · exact Nat.le_of_eq (by rw [List.drop_eq_nil_of_le hle, List.nil_append])
    · intro hle
      rw [List.drop_eq_nil_of_le hle, List.nil_append]
    · intro c behind hc
      have hrest' : ∀ d ∈ (rest ++ c :: behind).head?, isSpace d = true := by
        intro d hd
        cases rest with
        | nil =>
          obtain rfl := Option.some.inj hd
          exact hc
        | cons e rest => exact hrest d hd
      have hscan := scanWord_word hpos hblanks hne hword hrest'
      rwa [List.append_assoc, List.append_assoc, List.append_assoc]

/-- Where a line has enough words, what is behind it is not scanned. -/
lemma scanWords_append (widths : List ℕ) (hpos : ∀ width ∈ widths, 0 < width) {text : List UInt8}
    (hlen : widths.length ≤ (tokens text).length) {c : UInt8} (hc : isSpace c = true)
    (behind : List UInt8) :
    scanWords widths (text ++ c :: behind) = scanWords widths text ∧
      (scanWords widths text).length = widths.length := by
  induction widths generalizing text with
  | nil => exact ⟨rfl, rfl⟩
  | cons width widths ih =>
    obtain ⟨token, more, htokens⟩ :=
      List.exists_cons_of_length_pos (Nat.lt_of_lt_of_le (Nat.succ_pos _) hlen)
    obtain ⟨rest, hscan, hmore, -, happend⟩ :=
      exists_scanWord width (hpos width List.mem_cons_self) htokens
    rw [htokens] at hlen
    obtain ⟨hrest, hcount⟩ := ih (fun w hw => hpos w (List.mem_cons_of_mem width hw))
      (Nat.le_trans (Nat.le_of_succ_le_succ hlen) hmore)
    constructor
    · rw [scanWords, happend c behind hc, scanWords, hscan]
      show _ :: _ = _ :: _
      rw [hrest]
    · rw [scanWords, hscan]
      exact congrArg (· + 1) hcount

/-- A word that fits its width is read in full. -/
lemma scanWords_of_tokens {text token : List UInt8} {more : List (List UInt8)} {width : ℕ}
    (hpos : 0 < width) (htokens : tokens text = token :: more) (hle : token.length ≤ width)
    (widths : List ℕ) :
    ∃ rest, tokens rest = more ∧
      scanWords (width :: widths) text = token :: scanWords widths rest := by
  obtain ⟨rest, hscan, -, hrest, -⟩ := exists_scanWord width hpos htokens
  refine ⟨rest, hrest hle, ?_⟩
  rw [scanWords, hscan]
  show _ :: _ = _ :: _
  rw [List.take_of_length_le hle]

/-! ## Numbers -/

/-- A number in decimal digits, like `%ld` prints it. -/
def decimal (n : ℕ) : List UInt8 := ascii (Nat.toDigits 10 n)

/-- A digit lies between `0` and `9`. -/
lemma toNat_of_mem_toDigits {n : ℕ} {digit : Char} (h : digit ∈ Nat.toDigits 10 n) :
    48 ≤ digit.toNat ∧ digit.toNat ≤ 57 := by
  have hdigit := Nat.isDigit_of_mem_toDigits (by decide) (by decide) h
  simpa [Char.isDigit, UInt32.le_iff_toNat_le] using hdigit

/-- A digit is a byte. -/
lemma toNat_digit {n : ℕ} {digit : Char} (h : digit ∈ Nat.toDigits 10 n) :
    (UInt8.ofNat digit.toNat).toNat = digit.toNat := by
  have hrange := toNat_of_mem_toDigits h
  exact UInt8.toNat_ofNat_of_lt' (show digit.toNat < 256 by omega)

/-- The characters of a number are digits. -/
lemma mem_decimal {n : ℕ} {c : UInt8} (h : c ∈ decimal n) : 48 ≤ c ∧ c ≤ 57 := by
  obtain ⟨digit, hdigit, rfl⟩ := List.mem_map.mp h
  rw [UInt8.le_iff_toNat_le, UInt8.le_iff_toNat_le, toNat_digit hdigit]
  exact toNat_of_mem_toDigits hdigit

/-- The digits of a number as a string. -/
def ofDecimal (n : ℕ) : CString := ⟨decimal n, fun h => absurd (mem_decimal h).1 (by decide)⟩

/-- A number is determined by its digits. -/
lemma decimal_injective : Function.Injective decimal := by
  intro m n h
  have hback (n : ℕ) : (decimal n).map (fun c => Char.ofNat c.toNat) = Nat.toDigits 10 n := by
    rw [decimal, ascii, List.map_map]
    refine (List.map_congr_left fun digit hdigit => ?_).trans (List.map_id _)
    show Char.ofNat (UInt8.ofNat digit.toNat).toNat = digit
    rw [toNat_digit hdigit, Char.ofNat_toNat]
  have hdigits := congrArg (List.map fun c => Char.ofNat c.toNat) h
  rw [hback, hback] at hdigits
  rw [← Nat.ofDigitChars_ten_toDigits (n := m), hdigits, Nat.ofDigitChars_ten_toDigits]

/-- The numbers below `10 ^ 10` have at most ten digits. -/
lemma length_decimal_le {n : ℕ} (h : n < 10000000000) : (decimal n).length ≤ 10 := by
  rw [decimal, ascii, List.length_map]
  exact (Nat.length_toDigits_le_iff (Nat.one_lt_succ_succ 8) (Nat.succ_pos 9)).mpr h

/-- A text is cut in one way at the last occurrence of a character. -/
lemma append_cons_inj {a b d e : List UInt8} {c : UInt8} (hd : c ∉ d) (he : c ∉ e)
    (h : a ++ c :: d = b ++ c :: e) : a = b ∧ d = e := by
  have hrev := congrArg List.reverse h
  simp only [List.reverse_append, List.reverse_cons, List.append_assoc, List.singleton_append]
    at hrev
  have hcut (l m : List UInt8) (hl : c ∉ l) :
      (l.reverse ++ c :: m).takeWhile (· ≠ c) = l.reverse := by
    have hpos : ∀ x ∈ l.reverse, decide (x ≠ c) = true :=
      fun x hx => decide_eq_true fun heq => hl (heq ▸ List.mem_reverse.mp hx)
    rw [List.takeWhile_append_of_pos hpos, List.takeWhile_cons_of_neg (by simp), List.append_nil]
  have hde : d = e := by
    have htake := congrArg (List.takeWhile (· ≠ c)) hrev
    rw [hcut d _ hd, hcut e _ he] at htake
    exact List.reverse_injective htake
  subst hde
  exact ⟨List.append_cancel_right h, rfl⟩

end CString

/-- An array of `n` characters, terminated or not. -/
structure CharBuffer (n : ℕ) where
  bytes : List UInt8
  length_bytes : bytes.length = n

namespace CharBuffer

variable {n : ℕ}

/-- The array keeps its length when characters at its beginning are replaced. -/
lemma length_replaced (a : CharBuffer n) {s : List UInt8} (h : s.length ≤ n) :
    (s ++ a.bytes.drop s.length).length = n := by
  rw [List.length_append, List.length_drop, a.length_bytes, Nat.add_sub_cancel' h]

/-- Writes characters at the beginning of the array; `none` where they do not fit. -/
def write (a : CharBuffer n) (s : List UInt8) : Option (CharBuffer n) :=
  if h : s.length ≤ n then some ⟨s ++ a.bytes.drop s.length, a.length_replaced h⟩ else none

/-- The string in the array. -/
def string (a : CharBuffer n) : CString := CString.ofArray a.bytes

/-- The string is no longer than the array. -/
lemma length_string_le (a : CharBuffer n) : a.string.bytes.length ≤ n :=
  Nat.le_trans (List.takeWhile_prefix _).length_le (Nat.le_of_eq a.length_bytes)

/-- An array is terminated when its string is shorter. -/
lemma zero_mem_iff (a : CharBuffer n) : 0 ∈ a.bytes ↔ a.string.bytes.length < n := by
  obtain ⟨bytes, rfl⟩ := a
  show 0 ∈ bytes ↔ (bytes.takeWhile (· != 0)).length < bytes.length
  constructor
  · intro hmem
    have hle := (List.takeWhile_prefix (· != 0) (l := bytes)).length_le
    refine Nat.lt_of_le_of_ne hle fun heq => ?_
    have hfull := (List.takeWhile_prefix (· != 0) (l := bytes)).eq_of_length heq
    exact CString.zero_notMem_takeWhile bytes (hfull.symm ▸ hmem)
  · intro hlt
    by_contra hnot
    have hpos : ∀ c ∈ bytes, (c != 0) = true :=
      fun c hc => bne_iff_ne.mpr fun heq => hnot (heq ▸ hc)
    rw [List.takeWhile_eq_self_iff.mpr hpos] at hlt
    exact Nat.lt_irrefl _ hlt

/-- `strncmp` with the length of the array as its limit compares the string in the array. -/
lemma strncmp_eq (a : CharBuffer n) {b : CString} (h : b.bytes.length ≤ n) :
    CString.strncmp n a.bytes (b.bytes ++ [0]) = some (a.string.bytes == b.bytes) := by
  rw [CString.strncmp_eq a.length_bytes, CString.agree]
  show some ((a.string.bytes.take n == b.bytes.take n : Bool)) = _
  rw [List.take_of_length_le a.length_string_le, List.take_of_length_le h]

/-- A terminated string that fits is found in the array afterwards. -/
lemma exists_write (a : CharBuffer n) (s : CString) (pad : List UInt8)
    (h : s.bytes.length + pad.length < n) :
    ∃ b, a.write (s.bytes ++ 0 :: pad) = some b ∧ b.string = s := by
  have hle : (s.bytes ++ 0 :: pad).length ≤ n := by
    rw [List.length_append, List.length_cons]
    omega
  refine ⟨_, dif_pos hle, ?_⟩
  show CString.ofArray (s.bytes ++ 0 :: pad ++ _) = s
  rw [List.append_assoc, List.cons_append, CString.ofArray_append]

end CharBuffer
