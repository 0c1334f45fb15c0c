import RevaultNet.Serde.Content

/-! # `serde_json`'s parser

`serde_json::from_str` for a type that reads its whole text through serde's `Content`, as the
untagged `Request` does: `deserialize_any` builds the value, the type's decoder reads it, and
`end` allows only blanks after it.

* `ErrorCode`, `Error`: the errors of the parser, and `serde_json::Error`, which also carries
  what a `Deserialize` impl raised.
* `parseStr`: `parse_str`, with every escape of `parse_escape` and the surrogate pairs of `\u`.
  A string with no escape is lent from the input (`Content::Str`); one with an escape is copied
  (`Content::String`).
* `parseNumber`: `parse_any_number`. A number is a `u64`, a negative `i64`, or else the float
  conversion of its literal (`f64_from_parts`). The grammar is modelled; the conversion and its
  `NumberOutOfRange` error are a parameter, `readF64`.
* `seqElements`, `mapEntries`: `SeqAccess` and `MapAccess`, with their comma rules.
* `parseValue`: `deserialize_any`. Its first argument is the number of containers it may still
  open: `remaining_depth`, which starts at 128, less one.

The element loops take a fuel argument, the length of their input plus one. Each element takes
at least one character (`parseValue_length`), so the fuel never runs out (`seqElements_fuel`).
-/

namespace RevaultNet.Json
open Serde (Content)
set_option autoImplicit false

/-- `serde_json`'s `ErrorCode`s of a malformed text, those its parser raises here. -/
inductive ErrorCode where
  | eofWhileParsingList
  | eofWhileParsingObject
  | eofWhileParsingString
  | eofWhileParsingValue
  | expectedColon
  | expectedListCommaOrEnd
  | expectedObjectCommaOrEnd
  | expectedSomeIdent
  | expectedSomeValue
  | invalidEscape
  | invalidNumber
  | numberOutOfRange
  | invalidUnicodeCodePoint
  | controlCharacterWhileParsingString
  | keyMustBeAString
  | loneLeadingSurrogateInHexEscape
  | trailingComma
  | trailingCharacters
  | unexpectedEndOfHexEscape
  | recursionLimitExceeded
  deriving Repr, DecidableEq

/-- `serde_json::Error`: the text is malformed, or a `Deserialize` impl refused the value. -/
inductive Error where
  | json (code : ErrorCode)
  | data (e : Serde.Error)
  deriving Repr, DecidableEq

/-! ## Blanks and literals -/

/-- The characters `parse_whitespace` skips. -/
def isBlank (c : Char) : Bool := c = ' ' || c = '\n' || c = '\t' || c = '\r'

/-- `parse_whitespace`: the input from its first character that is not a blank. -/
def skipBlanks (cs : List Char) : List Char := cs.dropWhile isBlank

/-- `parse_ident`: the rest of `null`, `true` or `false` after its first letter. -/
def parseIdent : List Char → List Char → Except ErrorCode (List Char)
  | [], cs => .ok cs
  | _ :: _, [] => .error .eofWhileParsingValue
  | e :: es, c :: cs => if c = e then parseIdent es cs else .error .expectedSomeIdent

/-! ## Strings -/

/-- `decode_hex_val`: a hex digit of either case. -/
def hexValue (c : Char) : Option Nat := (Hex.digitValue c).toOption

/-- The value of the four hex digits of a `\u` escape (`decode_hex_escape`). -/
def hexQuad (a b c d : Char) : Option Nat := do
  let a ← hexValue a
  let b ← hexValue b
  let c ← hexValue c
  let d ← hexValue d
  pure (((a * 16 + b) * 16 + c) * 16 + d)

/-- The character a one-letter escape stands for (`parse_escape`). -/
def escapedChar (e : Char) : Option Char :=
  if e = '"' then some '"'
  else if e = '\\' then some '\\'
  else if e = '/' then some '/'
  else if e = 'b' then some '\x08'
  else if e = 'f' then some '\x0c'
  else if e = 'n' then some '\n'
  else if e = 'r' then some '\r'
  else if e = 't' then some '\t'
  else none

/-- `char::from_u32`. -/
def charOfCode (n : Nat) : Except ErrorCode Char :=
  if n.isValidChar then .ok (Char.ofNat n) else .error .invalidUnicodeCodePoint

/-- `parse_escape` after the backslash: the character an escape stands for, and the input
after it. A `\u` escape of a leading surrogate must be followed by one of a trailing
surrogate; the two make one character. -/
def parseEscape : List Char → Except ErrorCode (Char × List Char)
  | [] => .error .eofWhileParsingString
  | 'u' :: a :: b :: c :: d :: rest =>
    match hexQuad a b c d with
    | none => .error .invalidEscape
    | some n =>
      if 0xDC00 ≤ n ∧ n ≤ 0xDFFF then .error .loneLeadingSurrogateInHexEscape
      else if 0xD800 ≤ n ∧ n ≤ 0xDBFF then
        match rest with
        | '\\' :: 'u' :: e :: f :: g :: h :: rest' =>
          match hexQuad e f g h with
          | none => .error .invalidEscape
          | some m =>
            if m < 0xDC00 ∨ 0xDFFF < m then .error .loneLeadingSurrogateInHexEscape
            else (charOfCode ((n - 0xD800) * 0x400 + (m - 0xDC00) + 0x10000)).map (·, rest')
        | '\\' :: 'u' :: _ | ['\\'] | [] => .error .eofWhileParsingString
        | _ => .error .unexpectedEndOfHexEscape
      else (charOfCode n).map (·, rest)
  | 'u' :: _ => .error .eofWhileParsingString
  | e :: rest =>
    match escapedChar e with
    | some ch => .ok (ch, rest)
    | none => .error .invalidEscape

/-- An escape takes at least its letter. -/
theorem parseEscape_length {cs r : List Char} {c : Char} (h : parseEscape cs = .ok (c, r)) :
    r.length < cs.length := by
  unfold parseEscape at h
  split at h
  · cases h
  · split at h
    · cases h
    · split_ifs at h
      · split at h
        · split at h
          · cases h
          · split_ifs at h
            obtain ⟨_, -, he⟩ := map_eq_ok.1 h
            cases he
            simp only [List.length_cons]
            omega
        all_goals cases h
      · obtain ⟨_, -, he⟩ := map_eq_ok.1 h
        cases he
        simp only [List.length_cons]
        omega
  · cases h
  · split at h
    · cases h
      simp
    · cases h

/-- A character of a string before the rest of it; `copied` records that it came from an
escape, which makes `serde_json` copy the string into its scratch buffer. -/
def consChar (c : Char) (copied : Bool) :
    Except ErrorCode (List Char × Bool × List Char) → Except ErrorCode (List Char × Bool × List Char) :=
  Except.map fun (s, b, rest) => (c :: s, copied || b, rest)

/-- `parse_str` after the opening quote: the characters of the string, whether `serde_json`
copied it (`Reference::Copied`, after an escape) rather than lending it from the input
(`Reference::Borrowed`), and the input after the closing quote. -/
def parseStr (cs : List Char) : Except ErrorCode (List Char × Bool × List Char) :=
  match cs with
  | [] => .error .eofWhileParsingString
  | '"' :: rest => .ok ([], false, rest)
  | '\\' :: rest =>
    match h : parseEscape rest with
    | .ok (c, rest') =>
      have : rest'.length < rest.length + 1 := Nat.lt_succ_of_lt (parseEscape_length h)
      consChar c true (parseStr rest')
    | .error e => .error e
  | c :: rest =>
    if c.toNat < 0x20 then .error .controlCharacterWhileParsingString
    else consChar c false (parseStr rest)
termination_by cs.length

/-! ## Numbers -/

/-- Whether the input starts with a digit. -/
def startsWithDigit : List Char → Bool
  | c :: _ => c.isDigit
  | [] => false

/-- The integer digits of a number (`parse_integer`, `ignore_integer`): one `0` that no digit
follows, or a nonzero digit and the digits after it. `eof` is the error at the end of input. -/
def scanInteger (eof : ErrorCode) : List Char → Except ErrorCode (List Char × List Char)
  | [] => .error eof
  | c :: rest =>
    if c = '0' then (if startsWithDigit rest then .error .invalidNumber else .ok (['0'], rest))
    else if c.isDigit then .ok (c :: rest.takeWhile Char.isDigit, rest.dropWhile Char.isDigit)
    else .error .invalidNumber

/-- The sign of an exponent, as written, and the input after it. -/
def splitSign : List Char → List Char × List Char
  | '+' :: rest => (['+'], rest)
  | '-' :: rest => (['-'], rest)
  | rest => ([], rest)

/-- The exponent of a number as written, empty if it has none (`parse_exponent`,
`ignore_exponent`): `e` or `E`, an optional sign, and at least one digit. -/
def scanExponent (eof : ErrorCode) : List Char → Except ErrorCode (List Char × List Char)
  | [] => .ok ([], [])
  | e :: rest =>
    if e = 'e' ∨ e = 'E' then
      match splitSign rest with
      | (_, []) => .error eof
      | (sign, c :: r) =>
        if c.isDigit then .ok (e :: sign ++ c :: r.takeWhile Char.isDigit, r.dropWhile Char.isDigit)
        else .error .invalidNumber
    else .ok ([], e :: rest)

/-- The fraction and the exponent of a number as written, empty if it has neither
(`parse_decimal`, `ignore_decimal`): a point and at least one digit, then the exponent. -/
def scanFraction (eof : ErrorCode) : List Char → Except ErrorCode (List Char × List Char)
  | '.' :: rest =>
    if startsWithDigit rest then
      (scanExponent eof (rest.dropWhile Char.isDigit)).map fun (e, r) =>
        ('.' :: rest.takeWhile Char.isDigit ++ e, r)
    else .error (if rest = [] then eof else .invalidNumber)
  | cs => scanExponent eof cs

/-- The value of decimal digits, most significant first. -/
def digitsValue (ds : List Char) : Nat := ds.foldl (fun n c => 10 * n + (c.toNat - '0'.toNat)) 0

/-- `parse_any_number` after the sign: a `u64`, a negative `i64`, or else the float conversion
`readF64` of the literal (`-0`, an integer out of range, a fraction or an exponent). -/
def parseNumber (readF64 : List Char → Except ErrorCode (BitVec 64)) (positive : Bool)
    (cs : List Char) : Except ErrorCode (Content × List Char) := do
  let (int, rest) ← scanInteger .eofWhileParsingValue cs
  let (tail, rest) ← scanFraction .eofWhileParsingValue rest
  let n := digitsValue int
  if tail = [] ∧ positive = true ∧ n < 2 ^ 64 then pure (.u64 (BitVec.ofNat 64 n), rest)
  else if tail = [] ∧ positive = false ∧ 0 < n ∧ n ≤ 2 ^ 63 then
    pure (.i64 (BitVec.ofInt 64 (-(n : Int))), rest)
  else do
    let x ← readF64 ((if positive then [] else ['-']) ++ int ++ tail)
    pure (.f64 x, rest)

/-! ## Arrays and objects -/

/-- `parse_object_colon`. -/
def parseColon (cs : List Char) : Except ErrorCode (List Char) :=
  match skipBlanks cs with
  | ':' :: rest => .ok rest
  | [] => .error .eofWhileParsingObject
  | _ => .error .expectedColon

/-- The separator rule of `SeqAccess` and `MapAccess`, at the character `c` after the blanks: a
comma and then blanks before every element but the first, nothing before the first; anything
else is refused with `comma`. -/
def afterSeparator (comma : ErrorCode) (first : Bool) (c : Char) (rest : List Char) :
    Except ErrorCode (List Char) :=
  if c = ',' ∧ first = false then .ok (skipBlanks rest)
  else if first then .ok (c :: rest) else .error comma

/-- `visit_seq` of serde's `ContentVisitor` over `serde_json`'s `SeqAccess`, then `end_seq`:
the elements up to the closing bracket, each read by `elem`; `first` is `SeqAccess::first`. -/
def seqElements (elem : List Char → Except ErrorCode (Content × List Char)) :
    Nat → Bool → List Char → Except ErrorCode (List Content × List Char)
  | 0, _, _ => .error .eofWhileParsingList
  | n + 1, first, cs =>
    match skipBlanks cs with
    | [] => .error .eofWhileParsingList
    | ']' :: rest => .ok ([], rest)
    | c :: rest => do
      let cs ← afterSeparator .expectedListCommaOrEnd first c rest
      match cs with
      | ']' :: _ => .error .trailingComma
      | [] => .error .eofWhileParsingValue
      | _ => do
        let (x, rest) ← elem cs
        let (xs, rest) ← seqElements elem n false rest
        pure (x :: xs, rest)

/-- `visit_map` of `ContentVisitor` over `MapAccess`, then `end_map`: the members up to the
closing brace, each a string key, a colon and a value read by `elem`. -/
def mapEntries (elem : List Char → Except ErrorCode (Content × List Char)) :
    Nat → Bool → List Char → Except ErrorCode (List (String × Content) × List Char)
  | 0, _, _ => .error .eofWhileParsingObject
  | n + 1, first, cs =>
    match skipBlanks cs with
    | [] => .error .eofWhileParsingObject
    | '}' :: rest => .ok ([], rest)
    | c :: rest => do
      let cs ← afterSeparator .expectedObjectCommaOrEnd first c rest
      match cs with
      | '"' :: rest => do
        let (k, _, rest) ← parseStr rest
        let rest ← parseColon rest
        let (v, rest) ← elem rest
        let (es, rest) ← mapEntries elem n false rest
        pure ((⟨k⟩, v) :: es, rest)
      | '}' :: _ => .error .trailingComma
      | [] => .error .eofWhileParsingValue
      | _ => .error .keyMustBeAString

/-! ## Values -/

/-- `deserialize_any` into serde's `Content`, with `d` containers left to open. -/
def parseValue (readF64 : List Char → Except ErrorCode (BitVec 64)) :
    Nat → List Char → Except ErrorCode (Content × List Char)
  | d, cs =>
    match skipBlanks cs with
    | [] => .error .eofWhileParsingValue
    | 'n' :: rest => (parseIdent ['u', 'l', 'l'] rest).map (Content.unit, ·)
    | 't' :: rest => (parseIdent ['r', 'u', 'e'] rest).map (Content.bool true, ·)
    | 'f' :: rest => (parseIdent ['a', 'l', 's', 'e'] rest).map (Content.bool false, ·)
    | '-' :: rest => parseNumber readF64 false rest
    | '"' :: rest =>
      (parseStr rest).map fun (s, copied, r) => (if copied then .string ⟨s⟩ else .str ⟨s⟩, r)
    | '[' :: rest =>
      match d with
      | 0 => .error .recursionLimitExceeded
      | d + 1 =>
        (seqElements (parseValue readF64 d) (rest.length + 1) true rest).map fun (xs, r) =>
          (.seq xs, r)
    | '{' :: rest =>
      match d with
      | 0 => .error .recursionLimitExceeded
      | d + 1 =>
        (mapEntries (parseValue readF64 d) (rest.length + 1) true rest).map fun (es, r) =>
          (.map es, r)
    | c :: rest =>
      if c.isDigit then parseNumber readF64 true (c :: rest) else .error .expectedSomeValue
termination_by structural d _ => d

/-- `serde_json::from_str` of a type read through serde's `Content`: the value, at the default
recursion limit, then the type's decoder, then `end`, which allows only blanks after the value. -/
def fromStr {α : Type} (readF64 : List Char → Except ErrorCode (BitVec 64))
    (decode : Content → Except Serde.Error α) (cs : List Char) : Except Error α := do
  let (c, rest) ← (parseValue readF64 127 cs).mapError .json
  let a ← (decode c).mapError .data
  if skipBlanks rest = [] then pure a else .error (.json .trailingCharacters)

/-! ## What each reader consumes

Each reader returns the input after what it read, strictly shorter than its input: this bounds
the element loops (`seqElements_fuel`). A string is lent from the input only when none of its
characters needs an escape (`parseStr_eq_ok`), which `Request`'s `&str` method relies on. -/

theorem skipBlanks_length_le (cs : List Char) : (skipBlanks cs).length ≤ cs.length :=
  (List.dropWhile_suffix _).length_le

theorem skipBlanks_cons {c : Char} (h : isBlank c = false) (cs : List Char) :
    skipBlanks (c :: cs) = c :: cs :=
  List.dropWhile_cons_of_neg (by simp [h])

theorem length_lt_of_skipBlanks {cs rest : List Char} {c : Char} (h : skipBlanks cs = c :: rest) :
    rest.length < cs.length := by
  have := skipBlanks_length_le cs
  rw [h, List.length_cons] at this
  omega

theorem parseIdent_eq_ok {es cs r : List Char} (h : parseIdent es cs = .ok r) : cs = es ++ r := by
  induction es generalizing cs with
  | nil => simpa [parseIdent] using h
  | cons e es ih =>
    cases cs with
    | nil => cases h
    | cons c cs =>
      simp only [parseIdent] at h
      split_ifs at h with hc
      rw [hc, ih h, List.cons_append]

theorem consChar_eq_ok {c : Char} {copied : Bool} {x : Except ErrorCode (List Char × Bool × List Char)}
    {s : List Char} {b : Bool} {r : List Char} :
    consChar c copied x = .ok (s, b, r) ↔
      ∃ s' b', x = .ok (s', b', r) ∧ s = c :: s' ∧ b = (copied || b') := by
  cases x with
  | error e => simp [consChar]
  | ok y =>
    obtain ⟨s', b', r'⟩ := y
    simp only [consChar, map_ok, Except.ok.injEq, Prod.mk.injEq]
    constructor
    · rintro ⟨rfl, rfl, rfl⟩
      exact ⟨s', b', ⟨rfl, rfl, rfl⟩, rfl, rfl⟩
    · rintro ⟨_, _, ⟨rfl, rfl, rfl⟩, rfl, rfl⟩
      exact ⟨rfl, rfl, rfl⟩

theorem parseStr_escape {rest rest' : List Char} {c : Char} (h : parseEscape rest = .ok (c, rest')) :
    parseStr ('\\' :: rest) = consChar c true (parseStr rest') := by
  rw [parseStr.eq_3]
  split
  · next h' => rw [h] at h'; cases h'; rfl
  · next h' => rw [h] at h'; cases h'

theorem parseStr_escape_error {rest : List Char} {e : ErrorCode} (h : parseEscape rest = .error e) :
    parseStr ('\\' :: rest) = .error e := by
  rw [parseStr.eq_3]
  split
  · next h' => rw [h] at h'; cases h'
  · next h' => rw [h] at h'; cases h'; rfl

theorem parseStr_plain {c : Char} (h1 : c ≠ '"') (h2 : c ≠ '\\') (hc : 0x20 ≤ c.toNat)
    (rest : List Char) : parseStr (c :: rest) = consChar c false (parseStr rest) := by
  rw [parseStr.eq_4 c rest h1 h2, if_neg (by omega)]

theorem needsEscape_cons (c : Char) (s : List Char) :
    Serde.needsEscape ⟨c :: s⟩ = (c.toNat < 0x20 || c = '"' || c = '\\' || Serde.needsEscape ⟨s⟩) := by
  simp [Serde.needsEscape, Bool.or_assoc]

/-- `parse_str` returns a strict suffix of its input, and a string it lends needs no escape. -/
theorem parseStr_eq_ok {cs s r : List Char} {b : Bool} (h : parseStr cs = .ok (s, b, r)) :
    r.length < cs.length ∧ (b = false → Serde.needsEscape ⟨s⟩ = false) := by
  induction cs using parseStr.induct generalizing s b r with
  | case1 => rw [parseStr.eq_1] at h; cases h
  | case2 rest =>
    rw [parseStr.eq_2] at h
    cases h
    exact ⟨by simp, fun _ => rfl⟩
  | case3 rest c rest' he _ ih =>
    rw [parseStr_escape he] at h
    obtain ⟨s', b', h', rfl, rfl⟩ := consChar_eq_ok.1 h
    have := (ih h').1
    have := parseEscape_length he
    exact ⟨by simp only [List.length_cons]; omega, by simp⟩
  | case4 rest e he => rw [parseStr_escape_error he] at h; cases h
  | case5 c rest h1 h2 hc => rw [parseStr.eq_4 c rest h1 h2, if_pos hc] at h; cases h
  | case6 c rest h1 h2 hc ih =>
    rw [parseStr_plain h1 h2 (by omega)] at h
    obtain ⟨s', b', h', rfl, rfl⟩ := consChar_eq_ok.1 h
    obtain ⟨hr, hl⟩ := ih h'
    refine ⟨by simp only [List.length_cons]; omega, fun hb => ?_⟩
    simp only [Bool.false_or] at hb
    simp only [needsEscape_cons, hl hb, Bool.or_false, Bool.or_eq_false_iff, decide_eq_false_iff_not]
    exact ⟨⟨hc, h1⟩, h2⟩

theorem splitSign_eq {cs sign r : List Char} (h : splitSign cs = (sign, r)) : cs = sign ++ r := by
  unfold splitSign at h
  split at h <;> cases h <;> rfl

theorem scanInteger_eq_ok {eof : ErrorCode} {cs i r : List Char}
    (h : scanInteger eof cs = .ok (i, r)) : cs = i ++ r ∧ i ≠ [] := by
  cases cs with
  | nil => cases h
  | cons c rest =>
    simp only [scanInteger] at h
    by_cases h0 : c = '0'
    · rw [if_pos h0] at h
      split_ifs at h
      cases h
      exact ⟨by rw [h0]; rfl, by simp⟩
    · rw [if_neg h0] at h
      split_ifs at h
      cases h
      exact ⟨by simp [List.takeWhile_append_dropWhile], by simp⟩

theorem scanExponent_eq_ok {eof : ErrorCode} {cs t r : List Char}
    (h : scanExponent eof cs = .ok (t, r)) : cs = t ++ r := by
  cases cs with
  | nil => cases h; rfl
  | cons e rest =>
    simp only [scanExponent] at h
    split_ifs at h
    · split at h
      · cases h
      · next sign c r' hs =>
        split_ifs at h
        cases h
        simp [splitSign_eq hs, List.takeWhile_append_dropWhile]
    · cases h
      rfl

theorem scanFraction_eq_ok {eof : ErrorCode} {cs t r : List Char}
    (h : scanFraction eof cs = .ok (t, r)) : cs = t ++ r := by
  unfold scanFraction at h
  split at h
  · next rest =>
    split_ifs at h
    obtain ⟨⟨e, r'⟩, he, hr⟩ := map_eq_ok.1 h
    cases hr
    simp [← scanExponent_eq_ok he, List.takeWhile_append_dropWhile]
  · exact scanExponent_eq_ok h

theorem parseNumber_length {readF64 : List Char → Except ErrorCode (BitVec 64)} {positive : Bool}
    {cs r : List Char} {c : Content} (h : parseNumber readF64 positive cs = .ok (c, r)) :
    r.length < cs.length := by
  obtain ⟨⟨i, r₁⟩, hi, h₁⟩ := bind_eq_ok.1 h
  obtain ⟨⟨t, r₂⟩, ht, h₂⟩ := bind_eq_ok.1 h₁
  have hr : r = r₂ := by
    dsimp only at h₂
    split_ifs at h₂
    · cases h₂; rfl
    · cases h₂; rfl
    all_goals
      obtain ⟨_, -, h₃⟩ := bind_eq_ok.1 h₂
      cases h₃; rfl
  obtain ⟨rfl, hne⟩ := scanInteger_eq_ok hi
  rw [scanFraction_eq_ok ht, hr]
  have : 0 < i.length := List.length_pos.2 hne
  simp only [List.length_append]
  omega

theorem parseColon_cons (rest : List Char) : parseColon (':' :: rest) = .ok rest := by
  rw [parseColon, skipBlanks_cons (c := ':') rfl]
  rfl

theorem parseColon_length {cs r : List Char} (h : parseColon cs = .ok r) : r.length < cs.length := by
  unfold parseColon at h
  split at h
  · next rest hs => cases h; exact length_lt_of_skipBlanks hs
  · cases h
  · cases h

section Loops
variable {elem : List Char → Except ErrorCode (Content × List Char)}

theorem afterSeparator_length {comma : ErrorCode} {first : Bool} {c : Char} {cs rest cs' : List Char}
    (hs : skipBlanks cs = c :: rest) (h : afterSeparator comma first c rest = .ok cs') :
    cs'.length ≤ cs.length := by
  have hc := skipBlanks_length_le cs
  have hr := skipBlanks_length_le rest
  rw [hs, List.length_cons] at hc
  unfold afterSeparator at h
  split_ifs at h
  · cases h; omega
  · cases h; simp only [List.length_cons]; omega

/-- A loop's elements are values `elem` returned, and it returns a strict suffix of its input. -/
theorem seqElements_eq_ok {P : Content → Prop}
    (helem : ∀ {cs x r}, elem cs = .ok (x, r) → r.length < cs.length ∧ P x) :
    ∀ {n first cs xs r}, seqElements elem n first cs = .ok (xs, r) →
      r.length < cs.length ∧ ∀ x ∈ xs, P x := by
  intro n
  induction n with
  | zero => intro first cs xs r h; cases h
  | succ n ih =>
    intro first cs xs r h
    simp only [seqElements] at h
    split at h
    · cases h
    · next rest hs => cases h; exact ⟨length_lt_of_skipBlanks hs, by simp⟩
    · next c rest _ hs =>
      obtain ⟨cs', hcs', h⟩ := bind_eq_ok.1 h
      have hlen := afterSeparator_length hs hcs'
      split at h
      · cases h
      · cases h
      · obtain ⟨⟨x, r₁⟩, hx, h⟩ := bind_eq_ok.1 h
        obtain ⟨⟨xs', r₂⟩, hxs, h⟩ := bind_eq_ok.1 h
        cases h
        obtain ⟨hr₁, hP⟩ := helem hx
        obtain ⟨hr₂, hPs⟩ := ih hxs
        dsimp only at hr₂ ⊢
        exact ⟨by omega, List.forall_mem_cons.2 ⟨hP, hPs⟩⟩

/-- An object's members hold values `elem` returned, and it returns a strict suffix. -/
theorem mapEntries_eq_ok {P : Content → Prop}
    (helem : ∀ {cs x r}, elem cs = .ok (x, r) → r.length < cs.length ∧ P x) :
    ∀ {n first cs es r}, mapEntries elem n first cs = .ok (es, r) →
      r.length < cs.length ∧ ∀ e ∈ es, P e.2 := by
  intro n
  induction n with
  | zero => intro first cs es r h; cases h
  | succ n ih =>
    intro first cs es r h
    simp only [mapEntries] at h
    split at h
    · cases h
    · next rest hs => cases h; exact ⟨length_lt_of_skipBlanks hs, by simp⟩
    · next c rest _ hs =>
      obtain ⟨cs', hcs', h⟩ := bind_eq_ok.1 h
      have hlen := afterSeparator_length hs hcs'
      split at h
      · next rest' =>
        obtain ⟨⟨k, b, r₁⟩, hk, h⟩ := bind_eq_ok.1 h
        obtain ⟨r₂, hc, h⟩ := bind_eq_ok.1 h
        obtain ⟨⟨v, r₃⟩, hv, h⟩ := bind_eq_ok.1 h
        obtain ⟨⟨es', r₄⟩, hes, h⟩ := bind_eq_ok.1 h
        cases h
        have := (parseStr_eq_ok hk).1
        have := parseColon_length hc
        obtain ⟨hr₃, hP⟩ := helem hv
        obtain ⟨hr₄, hPs⟩ := ih hes
        simp only [List.length_cons] at hlen
        dsimp only at *
        exact ⟨by omega, List.forall_mem_cons.2 ⟨hP, hPs⟩⟩
      all_goals cases h

/-- Fuel beyond the input's length changes nothing: every turn of the loop but the last reads
an element, which takes at least one character. -/
theorem seqElements_fuel (helem : ∀ {cs x r}, elem cs = .ok (x, r) → r.length < cs.length) :
    ∀ {n first cs}, cs.length < n → seqElements elem (n + 1) first cs = seqElements elem n first cs := by
  intro n
  induction n with
  | zero => intro first cs h; omega
  | succ n ih =>
    intro first cs hn
    rw [seqElements, seqElements]
    split
    · rfl
    · rfl
    · next c rest _ hs =>
      refine bind_congr_ok fun cs' hcs' => ?_
      have hlen := afterSeparator_length hs hcs'
      split
      · rfl
      · rfl
      · refine bind_congr_ok fun ⟨x, r₁⟩ hx => ?_
        have := helem hx
        dsimp only
        rw [ih (by omega)]

/-- The same for the members of an object. -/
theorem mapEntries_fuel (helem : ∀ {cs x r}, elem cs = .ok (x, r) → r.length < cs.length) :
    ∀ {n first cs}, cs.length < n → mapEntries elem (n + 1) first cs = mapEntries elem n first cs := by
  intro n
  induction n with
  | zero => intro first cs h; omega
  | succ n ih =>
    intro first cs hn
    rw [mapEntries, mapEntries]
    split
    · rfl
    · rfl
    · next c rest _ hs =>
      refine bind_congr_ok fun cs' hcs' => ?_
      have hlen := afterSeparator_length hs hcs'
      split
      · refine bind_congr_ok fun ⟨k, b, r₁⟩ hk => bind_congr_ok fun r₂ hc =>
          bind_congr_ok fun ⟨v, r₃⟩ hv => ?_
        have := (parseStr_eq_ok hk).1
        have := parseColon_length hc
        have := helem hv
        simp only [List.length_cons] at hlen
        dsimp only at *
        rw [ih (by omega)]
      all_goals rfl

/-- A turn of the array loop that reads an element: after the separator the input neither
closes the array nor ends, so `elem` reads the element and the loop goes on. -/
theorem seqElements_elem {n : Nat} {first : Bool} {cs rest cs' : List Char} {c : Char}
    (hs : skipBlanks cs = c :: rest) (hc : c ≠ ']')
    (hsep : afterSeparator .expectedListCommaOrEnd first c rest = .ok cs')
    (hclose : ∀ t, cs' ≠ ']' :: t) (hend : cs' ≠ []) :
    seqElements elem (n + 1) first cs = (do
      let (x, rest) ← elem cs'
      let (xs, rest) ← seqElements elem n false rest
      pure (x :: xs, rest)) := by
  rw [seqElements, hs]
  split
  · next h => cases h
  · next h => cases h; exact absurd rfl hc
  · next h =>
    cases h
    rw [hsep, ok_bind]
    split
    · exact absurd rfl (hclose _)
    · exact absurd rfl hend
    · rfl

/-- A turn of the object loop that reads a member: after the separator comes a key. -/
theorem mapEntries_member {n : Nat} {first : Bool} {cs rest rest' : List Char} {c : Char}
    (hs : skipBlanks cs = c :: rest) (hc : c ≠ '}')
    (hsep : afterSeparator .expectedObjectCommaOrEnd first c rest = .ok ('"' :: rest')) :
    mapEntries elem (n + 1) first cs = (do
      let (k, _, rest) ← parseStr rest'
      let rest ← parseColon rest
      let (v, rest) ← elem rest
      let (es, rest) ← mapEntries elem n false rest
      pure ((⟨k⟩, v) :: es, rest)) := by
  rw [mapEntries, hs]
  split
  · next h => cases h
  · next h => cases h; exact absurd rfl hc
  · next h =>
    cases h
    rw [hsep, ok_bind]
    rfl

end Loops

/-! ## `parseValue` at each first character -/

section Dispatch
variable (readF64 : List Char → Except ErrorCode (BitVec 64)) (d : Nat) (rest : List Char)

theorem parseValue_null :
    parseValue readF64 d ('n' :: rest) = (parseIdent ['u', 'l', 'l'] rest).map (Content.unit, ·) := by
  rw [parseValue.eq_1, skipBlanks_cons (c := 'n') rfl]
  rfl

theorem parseValue_true :
    parseValue readF64 d ('t' :: rest) =
      (parseIdent ['r', 'u', 'e'] rest).map (Content.bool true, ·) := by
  rw [parseValue.eq_1, skipBlanks_cons (c := 't') rfl]
  rfl

theorem parseValue_false :
    parseValue readF64 d ('f' :: rest) =
      (parseIdent ['a', 'l', 's', 'e'] rest).map (Content.bool false, ·) := by
  rw [parseValue.eq_1, skipBlanks_cons (c := 'f') rfl]
  rfl

theorem parseValue_minus : parseValue readF64 d ('-' :: rest) = parseNumber readF64 false rest := by
  rw [parseValue.eq_1, skipBlanks_cons (c := '-') rfl]
  rfl

theorem parseValue_quote :
    parseValue readF64 d ('"' :: rest) =
      (parseStr rest).map fun (s, copied, r) => (if copied then .string ⟨s⟩ else .str ⟨s⟩, r) := by
  rw [parseValue.eq_1, skipBlanks_cons (c := '"') rfl]
  rfl

theorem parseValue_bracket :
    parseValue readF64 (d + 1) ('[' :: rest) =
      (seqElements (parseValue readF64 d) (rest.length + 1) true rest).map fun (xs, r) =>
        (.seq xs, r) := by
  rw [parseValue.eq_1, skipBlanks_cons (c := '[') rfl]
  rfl

theorem parseValue_brace :
    parseValue readF64 (d + 1) ('{' :: rest) =
      (mapEntries (parseValue readF64 d) (rest.length + 1) true rest).map fun (es, r) =>
        (.map es, r) := by
  rw [parseValue.eq_1, skipBlanks_cons (c := '{') rfl]
  rfl

theorem isBlank_of_isDigit {c : Char} (hc : c.isDigit = true) : isBlank c = false := by
  simp only [Char.isDigit, Bool.and_eq_true, decide_eq_true_eq] at hc
  simp only [isBlank, Bool.or_eq_false_iff, decide_eq_false_iff_not]
  refine ⟨⟨⟨?_, ?_⟩, ?_⟩, ?_⟩ <;> rintro rfl <;> simp_all

theorem parseValue_digit {c : Char} (hc : c.isDigit = true) :
    parseValue readF64 d (c :: rest) = parseNumber readF64 true (c :: rest) := by
  rw [parseValue.eq_1, skipBlanks_cons (isBlank_of_isDigit hc)]
  split <;> simp_all

end Dispatch

/-- `check_recursion!`: a text that opens more arrays than there are containers left to open is
refused, whatever follows. -/
theorem parseValue_nested (readF64 : List Char → Except ErrorCode (BitVec 64)) :
    ∀ (d : Nat) (rest : List Char),
      parseValue readF64 d (List.replicate (d + 1) '[' ++ rest) = .error .recursionLimitExceeded
  | 0, rest => by
    rw [parseValue.eq_1, List.replicate_one, List.singleton_append, skipBlanks_cons (c := '[') rfl]
    rfl
  | d + 1, rest => by
    have hs : skipBlanks (List.replicate (d + 1) '[' ++ rest) =
        '[' :: (List.replicate d '[' ++ rest) := by
      rw [List.replicate_succ, List.cons_append, skipBlanks_cons (c := '[') rfl]
    have hsep : afterSeparator .expectedListCommaOrEnd true '[' (List.replicate d '[' ++ rest) =
        .ok ('[' :: (List.replicate d '[' ++ rest)) := by simp [afterSeparator]
    rw [List.replicate_succ, List.cons_append, parseValue_bracket,
      seqElements_elem hs (by decide) hsep (fun _ h => by cases h) (List.cons_ne_nil _ _),
      ← List.cons_append, ← List.replicate_succ, parseValue_nested readF64 d rest]
    rfl

/-! ## What `deserialize_any` returns -/

/-- What `parseValue` can return with `d` containers left to open: nothing nested deeper, and a
string lent from the input needs no escape. -/
def Parsed : Nat → Content → Prop
  | _, .str s => Serde.needsEscape s = false
  | 0, .seq _ | 0, .map _ => False
  | d + 1, .seq xs => ∀ x ∈ xs, Parsed d x
  | d + 1, .map es => ∀ e ∈ es, Parsed d e.2
  | _, _ => True

theorem parseNumber_parsed {readF64 : List Char → Except ErrorCode (BitVec 64)} {positive : Bool}
    {cs r : List Char} {c : Content} (h : parseNumber readF64 positive cs = .ok (c, r)) (d : Nat) :
    Parsed d c := by
  obtain ⟨⟨i, r₁⟩, -, h₁⟩ := bind_eq_ok.1 h
  obtain ⟨⟨t, r₂⟩, -, h₂⟩ := bind_eq_ok.1 h₁
  dsimp only at h₂
  split_ifs at h₂
  · cases h₂; cases d <;> trivial
  · cases h₂; cases d <;> trivial
  all_goals
    obtain ⟨_, -, h₃⟩ := bind_eq_ok.1 h₂
    cases h₃; cases d <;> trivial

theorem parseIdent_map_eq_ok {es cs rest r : List Char} {l : Char} {v c : Content}
    (hs : skipBlanks cs = l :: rest) (h : (parseIdent es rest).map (v, ·) = .ok (c, r)) :
    r.length < cs.length ∧ c = v := by
  obtain ⟨r', hr, he⟩ := map_eq_ok.1 h
  cases he
  have := length_lt_of_skipBlanks hs
  rw [parseIdent_eq_ok hr, List.length_append] at this
  exact ⟨by omega, rfl⟩

/-- `deserialize_any` returns a strict suffix of its input and a value `Parsed` describes. -/
theorem parseValue_eq_ok (readF64 : List Char → Except ErrorCode (BitVec 64)) (d : Nat) :
    ∀ {cs c r}, parseValue readF64 d cs = .ok (c, r) → r.length < cs.length ∧ Parsed d c := by
  induction d using Nat.strong_induction_on with
  | _ d ih =>
  intro cs c r h
  rw [parseValue.eq_1] at h
  split at h
  · cases h
  · next hs =>
    obtain ⟨hr, rfl⟩ := parseIdent_map_eq_ok hs h
    exact ⟨hr, by cases d <;> trivial⟩
  · next hs =>
    obtain ⟨hr, rfl⟩ := parseIdent_map_eq_ok hs h
    exact ⟨hr, by cases d <;> trivial⟩
  · next hs =>
    obtain ⟨hr, rfl⟩ := parseIdent_map_eq_ok hs h
    exact ⟨hr, by cases d <;> trivial⟩
  · next rest hs =>
    have := length_lt_of_skipBlanks hs
    exact ⟨by have := parseNumber_length h; omega, parseNumber_parsed h d⟩
  · next rest hs =>
    obtain ⟨⟨s, b, r'⟩, hs', he⟩ := map_eq_ok.1 h
    cases he
    obtain ⟨hr, hl⟩ := parseStr_eq_ok hs'
    have := length_lt_of_skipBlanks hs
    refine ⟨by omega, ?_⟩
    cases b
    · cases d <;> exact hl rfl
    · cases d <;> trivial
  · next rest hs =>
    split at h
    · cases h
    · next d' =>
      obtain ⟨⟨xs, r'⟩, hxs, he⟩ := map_eq_ok.1 h
      cases he
      obtain ⟨hr, hall⟩ := seqElements_eq_ok (fun h => ih d' (by omega) h) hxs
      have := length_lt_of_skipBlanks hs
      exact ⟨by omega, hall⟩
  · next rest hs =>
    split at h
    · cases h
    · next d' =>
      obtain ⟨⟨es, r'⟩, hes, he⟩ := map_eq_ok.1 h
      cases he
      obtain ⟨hr, hall⟩ := mapEntries_eq_ok (fun h => ih d' (by omega) h) hes
      have := length_lt_of_skipBlanks hs
      exact ⟨by omega, hall⟩
  · next c' rest _ _ _ _ _ _ _ hs =>
    split_ifs at h
    have := length_lt_of_skipBlanks hs
    exact ⟨by have := parseNumber_length h; simp only [List.length_cons] at this; omega,
      parseNumber_parsed h d⟩

/-- The fuel `parseValue` gives a loop, one more than the length of its input, is enough: any
more gives the same result. -/
theorem seqElements_fuel_eq {elem : List Char → Except ErrorCode (Content × List Char)}
    (helem : ∀ {cs x r}, elem cs = .ok (x, r) → r.length < cs.length) {first : Bool}
    {cs : List Char} : ∀ k, seqElements elem (cs.length + 1 + k) first cs =
      seqElements elem (cs.length + 1) first cs
  | 0 => rfl
  | k + 1 => by
    rw [← Nat.add_assoc, seqElements_fuel helem (by omega)]
    exact seqElements_fuel_eq helem k

theorem mapEntries_fuel_eq {elem : List Char → Except ErrorCode (Content × List Char)}
    (helem : ∀ {cs x r}, elem cs = .ok (x, r) → r.length < cs.length) {first : Bool}
    {cs : List Char} : ∀ k, mapEntries elem (cs.length + 1 + k) first cs =
      mapEntries elem (cs.length + 1) first cs
  | 0 => rfl
  | k + 1 => by
    rw [← Nat.add_assoc, mapEntries_fuel helem (by omega)]
    exact mapEntries_fuel_eq helem k

end RevaultNet.Json
