import RevaultNet.Json.RoundTrip

/-! # `serde_json` driving a visitor directly

A derived struct such as `Response<T>` is not buffered: `deserialize_struct` hands its visitor
`serde_json`'s own `SeqAccess` or `MapAccess`, and each member's value is read in place by the
member's type.

* `nextElement`, `endSeq`, `nextKey`, `endMap`: `SeqAccess::next_element_seed`, `end_seq`,
  `MapAccess::next_key_seed` and `end_map`, with the comma rules of `seqElements` and
  `mapEntries`. A closing bracket is left for `end_seq` or `end_map` to eat.
* `readBuffered`: a type read through serde's `Content` (an untagged enum), at the remaining
  depth.
* `deserializeNumber`: `deserialize_number`, which the integer visitors (`u32`) call. A value that
  is not a number is refused by `peekInvalidType`, after the scalar is read for its error.
* `ignoreValue`: `ignore_value`, which `IgnoredAny` calls for a member no field names. It has no
  recursion: the frames of the open containers are kept on a stack (`scratch`), so it takes no
  recursion limit; numbers are scanned but not converted (`ignoreNumber`), and strings get the
  checks of `parse_str` (`ignoreStr`).

On what `to_string` wrote, each step reads back what was written (`nextKey_written`,
`readBuffered_write`, `readU32_write`). On any text, `ignore_value` skips exactly what
`parse_value` reads (`ignoreValue_of_parseValue`), and more: arrays nested to any depth
(`ignoreValue_nested`), and numbers whose float conversion fails (`ignoreValue_exponent`). The
buffered loops are turns of the same steps (`seqElements_cons_eq_ok`, `mapEntries_succ_eq_ok`),
and a number `parse_value` read is what `deserialize_number` reads (`readU32_of_parseValue`).
-/

namespace RevaultNet.Json
open Serde (Content)
set_option autoImplicit false

/-! ## Sequences and maps, one step at a time -/

/-- `SeqAccess::next_element_seed` up to the seed: `none` at the closing bracket (not eaten),
else the input at the element. -/
def nextElement (first : Bool) (cs : List Char) : Except ErrorCode (Option (List Char)) :=
  match skipBlanks cs with
  | [] => .error .eofWhileParsingList
  | ']' :: _ => .ok none
  | c :: rest => do
    let cs ← afterSeparator .expectedListCommaOrEnd first c rest
    match cs with
    | ']' :: _ => .error .trailingComma
    | [] => .error .eofWhileParsingValue
    | _ => .ok (some cs)

/-- `end_seq`: the closing bracket, where a comma before it is a trailing comma. -/
def endSeq (cs : List Char) : Except ErrorCode (List Char) :=
  match skipBlanks cs with
  | ']' :: rest => .ok rest
  | ',' :: rest =>
    match skipBlanks rest with
    | ']' :: _ => .error .trailingComma
    | _ => .error .trailingCharacters
  | [] => .error .eofWhileParsingList
  | _ => .error .trailingCharacters

/-- `MapAccess::next_key_seed` with a key read as a string (`MapKey`): `none` at the closing
brace (not eaten), else the key and the input after it. -/
def nextKey (first : Bool) (cs : List Char) :
    Except ErrorCode (Option (List Char × List Char)) :=
  match skipBlanks cs with
  | [] => .error .eofWhileParsingObject
  | '}' :: _ => .ok none
  | c :: rest => do
    let cs ← afterSeparator .expectedObjectCommaOrEnd first c rest
    match cs with
    | '"' :: rest => (parseStr rest).map fun (k, _, r) => some (k, r)
    | '}' :: _ => .error .trailingComma
    | [] => .error .eofWhileParsingValue
    | _ => .error .keyMustBeAString

/-- `end_map`: the closing brace. -/
def endMap (cs : List Char) : Except ErrorCode (List Char) :=
  match skipBlanks cs with
  | '}' :: rest => .ok rest
  | ',' :: _ => .error .trailingComma
  | [] => .error .eofWhileParsingObject
  | _ => .error .trailingCharacters

/-! ## Values read in place -/

/-- A type read through serde's `Content`, with `d` containers left to open: `deserialize_any`,
then the type's decoder. -/
def readBuffered {α : Type} (readF64 : List Char → Except ErrorCode (BitVec 64))
    (decode : Content → Except Serde.Error α) (d : Nat) (cs : List Char) :
    Except Error (α × List Char) := do
  let (c, rest) ← (parseValue readF64 d cs).mapError .json
  let a ← (decode c).mapError .data
  pure (a, rest)

/-- The error a scalar reader gives: its own, or an invalid type once the scalar is read. -/
def invalidTypeOr {β : Type} : Except ErrorCode β → Error
  | .ok _ => .data .invalidType
  | .error e => .json e

/-- `peek_invalid_type` at a value of the wrong kind, after the blanks. -/
def peekInvalidType (readF64 : List Char → Except ErrorCode (BitVec 64)) : List Char → Error
  | 'n' :: rest => invalidTypeOr (parseIdent ['u', 'l', 'l'] rest)
  | 't' :: rest => invalidTypeOr (parseIdent ['r', 'u', 'e'] rest)
  | 'f' :: rest => invalidTypeOr (parseIdent ['a', 'l', 's', 'e'] rest)
  | '-' :: rest => invalidTypeOr (parseNumber readF64 false rest)
  | '"' :: rest => invalidTypeOr (parseStr rest)
  | '[' :: _ | '{' :: _ => .data .invalidType
  | c :: rest =>
    if c.isDigit then invalidTypeOr (parseNumber readF64 true (c :: rest))
    else .json .expectedSomeValue
  | [] => .json .expectedSomeValue

/-- `deserialize_number` up to the visitor: a number, as `parse_integer` reads it. -/
def deserializeNumber (readF64 : List Char → Except ErrorCode (BitVec 64)) (cs : List Char) :
    Except Error (Content × List Char) :=
  match skipBlanks cs with
  | [] => .error (.json .eofWhileParsingValue)
  | '-' :: rest => (parseNumber readF64 false rest).mapError .json
  | c :: rest =>
    if c.isDigit then (parseNumber readF64 true (c :: rest)).mapError .json
    else .error (peekInvalidType readF64 (c :: rest))

/-- `u32::deserialize` on `serde_json`: `deserialize_u32`, a number, then the `u32` visitor. -/
def readU32 (readF64 : List Char → Except ErrorCode (BitVec 64)) (cs : List Char) :
    Except Error (BitVec 32 × List Char) := do
  let (c, rest) ← deserializeNumber readF64 cs
  let n ← (Serde.u32.deserialize c).mapError .data
  pure (n, rest)

/-! ## `ignore_value` -/

/-- The frame of a container `ignore_value` is inside: the byte `[` or `{` the code keeps. -/
inductive Frame where
  | array
  | object
  deriving Repr, DecidableEq

/-- The bracket that closes the frame. -/
def Frame.closer : Frame → Char
  | .array => ']'
  | .object => '}'

/-- The error at the end of input inside the frame. -/
def Frame.eof : Frame → ErrorCode
  | .array => .eofWhileParsingList
  | .object => .eofWhileParsingObject

/-- The error at a character that neither separates nor closes inside the frame. -/
def Frame.comma : Frame → ErrorCode
  | .array => .expectedListCommaOrEnd
  | .object => .expectedObjectCommaOrEnd

/-- `ignore_integer` after the sign, with `ignore_decimal` and `ignore_exponent`: the grammar of
`parse_integer`, where the end of input is an `InvalidNumber`. -/
def ignoreNumber (cs : List Char) : Except ErrorCode (List Char) := do
  let (_, rest) ← scanInteger .invalidNumber cs
  let (_, rest) ← scanFraction .invalidNumber rest
  pure rest

/-- `ignore_str`: the checks of `parse_str` (escapes, control characters, end of input) without
keeping the characters. -/
def ignoreStr (cs : List Char) : Except ErrorCode (List Char) := (parseStr cs).map (·.2.2)

/-- The first step of `ignore_value`'s loop: a scalar is skipped (`none`); a bracket or a brace
opens a frame. -/
def ignoreOpen (cs : List Char) : Except ErrorCode (Option Frame × List Char) :=
  match skipBlanks cs with
  | [] => .error .eofWhileParsingValue
  | 'n' :: rest => (parseIdent ['u', 'l', 'l'] rest).map (none, ·)
  | 't' :: rest => (parseIdent ['r', 'u', 'e'] rest).map (none, ·)
  | 'f' :: rest => (parseIdent ['a', 'l', 's', 'e'] rest).map (none, ·)
  | '-' :: rest => (ignoreNumber rest).map (none, ·)
  | '"' :: rest => (ignoreStr rest).map (none, ·)
  | '[' :: rest => .ok (some .array, rest)
  | '{' :: rest => .ok (some .object, rest)
  | c :: rest =>
    if c.isDigit then (ignoreNumber (c :: rest)).map (none, ·) else .error .expectedSomeValue

/-- The inner loop of `ignore_value`, after a value (`acceptComma`) or a bracket just opened:
close the frames that end here, popping the stack. `none` when the last frame closed, else the
frame whose next element or member follows, with the frames below it. -/
def ignoreClose : Nat → Bool → Frame → List Frame → List Char →
    Except ErrorCode (Option (Frame × List Frame) × List Char)
  | 0, _, _, _, _ => .error .eofWhileParsingValue
  | n + 1, acceptComma, frame, scratch, cs =>
    match skipBlanks cs with
    | [] => .error frame.eof
    | c :: rest =>
      if c = ',' ∧ acceptComma then .ok (some (frame, scratch), rest)
      else if c = frame.closer then
        match scratch with
        | [] => .ok (none, rest)
        | f :: scratch => ignoreClose n true f scratch rest
      else if acceptComma then .error frame.comma
      else .ok (some (frame, scratch), c :: rest)

/-- Where the inner loop starts: in a frame just opened, with the enclosing frame pushed below
it, or after a value, in the enclosing frame or else the top of the stack; `none` when the value
stood alone. -/
def ignoreStart : Option Frame → Option Frame → List Frame → Option (Bool × Frame × List Frame)
  | some frame, enclosing, scratch => some (false, frame, enclosing.toList ++ scratch)
  | none, some frame, scratch => some (true, frame, scratch)
  | none, none, frame :: scratch => some (true, frame, scratch)
  | none, none, [] => none

/-- The key and the colon `ignore_value` skips before a member's value. -/
def ignoreKey (cs : List Char) : Except ErrorCode (List Char) :=
  match skipBlanks cs with
  | '"' :: rest => ignoreStr rest >>= parseColon
  | [] => .error .eofWhileParsingObject
  | _ => .error .keyMustBeAString

/-- `ignore_value`'s loop, from where its inner loop starts (`ignoreStart`): close the frames
that end here, skip the next member's key, open the next value, and go round. It stops once the
value stood alone or its last frame closed. -/
def ignoreFrames : Nat → Option (Bool × Frame × List Frame) → List Char →
    Except ErrorCode (List Char)
  | _, none, cs => .ok cs
  | 0, some _, _ => .error .eofWhileParsingValue
  | n + 1, some (acceptComma, frame, scratch), cs => do
    let (next, cs) ← ignoreClose (cs.length + 1) acceptComma frame scratch cs
    match next with
    | none => .ok cs
    | some (frame, scratch) =>
      (if frame = .object then ignoreKey cs else pure cs) >>= fun cs => do
        let (opened, cs) ← ignoreOpen cs
        ignoreFrames n (ignoreStart opened (some frame) scratch) cs
termination_by structural n _ _ => n

/-- `ignore_value`: its first value, then its loop. -/
def ignoreValue (cs : List Char) : Except ErrorCode (List Char) := do
  let (opened, rest) ← ignoreOpen cs
  ignoreFrames (cs.length + 1) (ignoreStart opened none []) rest

/-! ## On what the writer wrote -/

theorem nextKey_written (first : Bool) (k rest : List Char) :
    nextKey first ((if first then [] else [',']) ++ '"' :: (k.flatMap escapeChar ++ '"' :: rest)) =
      .ok (some (k, rest)) := by
  obtain ⟨c, r, hs, hc, hsep⟩ :=
    afterSeparator_written .expectedObjectCommaOrEnd first (h := '"')
      (t := k.flatMap escapeChar ++ '"' :: rest) rfl
  rw [nextKey, hs]
  split
  · next h => cases h
  · next h => cases h; rcases hc with h | h <;> cases h
  · next h =>
    cases h
    rw [hsep, ok_bind]
    simp only [parseStr_writeStr, map_ok]

theorem nextKey_first (k rest : List Char) :
    nextKey true ('"' :: (k.flatMap escapeChar ++ '"' :: rest)) = .ok (some (k, rest)) :=
  nextKey_written true k rest

theorem nextKey_next (k rest : List Char) :
    nextKey false (',' :: '"' :: (k.flatMap escapeChar ++ '"' :: rest)) = .ok (some (k, rest)) :=
  nextKey_written false k rest

theorem deserializeNumber_u64 (readF64 : List Char → Except ErrorCode (BitVec 64)) (n : BitVec 64)
    {rest : List Char} (h : endsNumber rest = true) :
    deserializeNumber readF64 (decimal n.toNat ++ rest) = .ok (.u64 n, rest) := by
  obtain ⟨c, t, ht⟩ := List.exists_cons_of_ne_nil (decimal_ne_nil n.toNat)
  have hd := isDigit_of_mem_decimal (ht ▸ List.mem_cons_self c t)
  rw [deserializeNumber, ht, List.cons_append, skipBlanks_cons (isBlank_of_isDigit hd)]
  have hc : c ≠ '-' := by rintro rfl; cases hd
  split
  · next h => cases h
  · next h => cases h; exact absurd rfl hc
  · next h =>
    cases h
    rw [if_pos hd, ← List.cons_append, ← ht, parseNumber_u64 readF64 n h]
    rfl

theorem readU32_write (readF64 : List Char → Except ErrorCode (BitVec 64))
    (writeF64 : BitVec 64 → List Char) (i : BitVec 32) {rest : List Char}
    (h : endsNumber rest = true) :
    readU32 readF64 (write writeF64 (Serde.u32.serialize i) ++ rest) = .ok (i, rest) := by
  rw [readU32, show write writeF64 (Serde.u32.serialize i) = decimal (i.setWidth 64).toNat from rfl,
    deserializeNumber_u64 readF64 _ h]
  show (do let n ← (Serde.u32.deserialize (Serde.u32.serialize i)).mapError Error.data
           pure (n, rest)) = _
  rw [Serde.u32_roundTrip i]
  rfl

theorem readBuffered_of_parseValue {α : Type} {readF64 : List Char → Except ErrorCode (BitVec 64)}
    {decode : Content → Except Serde.Error α} {d : Nat} {cs rest : List Char} {c : Content}
    (h : parseValue readF64 d cs = .ok (c, rest)) :
    readBuffered readF64 decode d cs = ((decode c).mapError .data).map (·, rest) := by
  rw [readBuffered, h]
  show ((decode c).mapError Error.data >>= fun a => pure (a, rest)) = _
  cases decode c <;> rfl

theorem readBuffered_write {α : Type} (readF64 : List Char → Except ErrorCode (BitVec 64))
    (writeF64 : BitVec 64 → List Char) (decode : Content → Except Serde.Error α) {d : Nat}
    {c : Content} (hc : Readable d c) {rest : List Char}
    (hr : isInteger c = true → endsNumber rest = true) :
    readBuffered readF64 decode d (write writeF64 c ++ rest) =
      ((decode c).mapError .data).map (·, rest) :=
  readBuffered_of_parseValue (parseValue_write readF64 writeF64 d hc hr)

/-- What a type read through `Content` returns, its decoder returned on some value. -/
theorem readBuffered_eq_ok {α : Type} {readF64 : List Char → Except ErrorCode (BitVec 64)}
    {decode : Content → Except Serde.Error α} {d : Nat} {cs rest : List Char} {a : α}
    (h : readBuffered readF64 decode d cs = .ok (a, rest)) : ∃ c, decode c = .ok a := by
  obtain ⟨⟨c, r⟩, -, h⟩ := bind_eq_ok.1 h
  obtain ⟨a', ha, h⟩ := bind_eq_ok.1 h
  cases h
  exact ⟨c, mapError_eq_ok.1 ha⟩

/-! ## What `ignore_value` consumes -/

theorem skipBlanks_idem (cs : List Char) : skipBlanks (skipBlanks cs) = skipBlanks cs := by
  induction cs with
  | nil => rfl
  | cons c cs ih =>
    cases hc : isBlank c
    · rw [skipBlanks_cons hc, skipBlanks_cons hc]
    · have e : skipBlanks (c :: cs) = skipBlanks cs := List.dropWhile_cons_of_pos (by simpa using hc)
      rw [e, ih]

theorem ignoreOpen_skipBlanks (cs : List Char) : ignoreOpen (skipBlanks cs) = ignoreOpen cs := by
  rw [ignoreOpen, ignoreOpen, skipBlanks_idem]

theorem ignoreKey_skipBlanks (cs : List Char) : ignoreKey (skipBlanks cs) = ignoreKey cs := by
  rw [ignoreKey, ignoreKey, skipBlanks_idem]

theorem ignoreKey_quote (rest : List Char) : ignoreKey ('"' :: rest) = ignoreStr rest >>= parseColon := by
  rw [ignoreKey, skipBlanks_cons (c := '"') rfl]
  rfl

theorem ignoreStr_length {cs r : List Char} (h : ignoreStr cs = .ok r) : r.length < cs.length := by
  obtain ⟨⟨s, b, r'⟩, hs, rfl⟩ := map_eq_ok.1 h
  exact (parseStr_eq_ok hs).1

theorem ignoreNumber_length {cs r : List Char} (h : ignoreNumber cs = .ok r) : r.length < cs.length := by
  obtain ⟨⟨i, r₁⟩, hi, h⟩ := bind_eq_ok.1 h
  obtain ⟨⟨t, r₂⟩, ht, h⟩ := bind_eq_ok.1 h
  cases h
  obtain ⟨rfl, hne⟩ := scanInteger_eq_ok hi
  rw [scanFraction_eq_ok ht]
  have := List.length_pos.2 hne
  simp only [List.length_append]
  omega

theorem ignoreOpen_length {cs r : List Char} {o : Option Frame} (h : ignoreOpen cs = .ok (o, r)) :
    r.length < cs.length := by
  have skip : ∀ {c r'} {f : List Char → Except ErrorCode (List Char)}, skipBlanks cs = c :: r' →
      (∀ {y}, f r' = .ok y → y.length ≤ r'.length) → (f r').map (none, ·) = .ok (o, r) →
      r.length < cs.length := fun hs hf h => by
    obtain ⟨y, hy, he⟩ := map_eq_ok.1 h
    cases he
    have := length_lt_of_skipBlanks hs
    have := hf hy
    omega
  have ident : ∀ {es r' y}, parseIdent es r' = .ok y → y.length ≤ r'.length := fun h => by
    rw [parseIdent_eq_ok h, List.length_append]
    omega
  unfold ignoreOpen at h
  split at h
  · cases h
  · next _ hs => exact skip hs ident h
  · next _ hs => exact skip hs ident h
  · next _ hs => exact skip hs ident h
  · next _ hs => exact skip hs (fun h => (ignoreNumber_length h).le) h
  · next _ hs => exact skip hs (fun h => (ignoreStr_length h).le) h
  · next _ hs => cases h; exact length_lt_of_skipBlanks hs
  · next _ hs => cases h; exact length_lt_of_skipBlanks hs
  · next c r' _ _ _ _ _ _ _ hs =>
    split at h
    · obtain ⟨y, hy, he⟩ := map_eq_ok.1 h
      cases he
      have := ignoreNumber_length hy
      have := skipBlanks_length_le cs
      rw [hs] at this
      omega
    · cases h

theorem ignoreKey_length {cs r : List Char} (h : ignoreKey cs = .ok r) : r.length < cs.length := by
  unfold ignoreKey at h
  split at h
  · next r' hs =>
    obtain ⟨r₁, h₁, h₂⟩ := bind_eq_ok.1 h
    have := length_lt_of_skipBlanks hs
    have := ignoreStr_length h₁
    have := parseColon_length h₂
    omega
  all_goals cases h

theorem ignoreClose_length : ∀ {n : Nat} {acceptComma : Bool} {frame : Frame} {scratch : List Frame}
    {cs r : List Char} {x : Option (Frame × List Frame)},
    ignoreClose n acceptComma frame scratch cs = .ok (x, r) → r.length ≤ cs.length
  | 0, _, _, _, _, _, _, h => by cases h
  | n + 1, acceptComma, frame, scratch, cs, r, x, h => by
    unfold ignoreClose at h
    split at h
    · cases h
    · next c rest hs =>
      have := length_lt_of_skipBlanks hs
      have := skipBlanks_length_le cs
      rw [hs, List.length_cons] at this
      split_ifs at h
      · cases h; omega
      · split at h
        · cases h; omega
        · have := ignoreClose_length h; omega
      · cases h; simp only [List.length_cons]; omega

theorem ignoreClose_fuel : ∀ {n m : Nat} {acceptComma : Bool} {frame : Frame}
    {scratch : List Frame} {cs : List Char}, cs.length < n → cs.length < m →
    ignoreClose n acceptComma frame scratch cs = ignoreClose m acceptComma frame scratch cs
  | 0, _, _, _, _, _, hn, _ => by omega
  | _, 0, _, _, _, _, _, hm => by omega
  | n + 1, m + 1, acceptComma, frame, scratch, cs, hn, hm => by
    rw [ignoreClose, ignoreClose]
    split
    · rfl
    · next c rest hs =>
      have := length_lt_of_skipBlanks hs
      split_ifs
      · rfl
      · split
        · rfl
        · exact ignoreClose_fuel (by omega) (by omega)
      · rfl
      · rfl

/-- Where a value skipped inside frames ends. -/
def ignoreValueIn (n : Nat) (enclosing : Option Frame) (scratch : List Frame) (cs : List Char) :
    Except ErrorCode (List Char) := do
  let (opened, rest) ← ignoreOpen cs
  ignoreFrames n (ignoreStart opened enclosing scratch) rest

theorem ignoreValue_eq (cs : List Char) : ignoreValue cs = ignoreValueIn (cs.length + 1) none [] cs :=
  rfl

theorem ignoreValueIn_skipBlanks (n : Nat) (enclosing : Option Frame) (scratch : List Frame)
    (cs : List Char) : ignoreValueIn n enclosing scratch (skipBlanks cs) =
      ignoreValueIn n enclosing scratch cs := by
  rw [ignoreValueIn, ignoreValueIn, ignoreOpen_skipBlanks]

theorem ignoreFrames_succ (n : Nat) (acceptComma : Bool) (frame : Frame) (scratch : List Frame)
    (cs : List Char) :
    ignoreFrames (n + 1) (some (acceptComma, frame, scratch)) cs = (do
      let (next, cs) ← ignoreClose (cs.length + 1) acceptComma frame scratch cs
      match next with
      | none => .ok cs
      | some (frame, scratch) =>
        (if frame = .object then ignoreKey cs else pure cs) >>= ignoreValueIn n (some frame) scratch) := by
  rw [ignoreFrames]
  rfl

theorem ignoreFrames_fuel : ∀ {n m : Nat} {start : Option (Bool × Frame × List Frame)}
    {cs : List Char}, cs.length < n → cs.length < m →
    ignoreFrames n start cs = ignoreFrames m start cs
  | n, m, none, _, _, _ => by cases n <;> cases m <;> rfl
  | 0, _, some _, _, hn, _ => by omega
  | _, 0, some _, _, _, hm => by omega
  | n + 1, m + 1, some (acceptComma, frame, scratch), cs, hn, hm => by
    rw [ignoreFrames_succ, ignoreFrames_succ]
    refine bind_congr_ok fun ⟨next, cs₁⟩ h₁ => ?_
    have := ignoreClose_length h₁
    rcases next with _ | ⟨frame', scratch'⟩
    · rfl
    refine bind_congr_ok fun cs₂ h₂ => ?_
    have : cs₂.length ≤ cs₁.length := by
      split at h₂
      · exact (ignoreKey_length h₂).le
      · cases h₂; exact le_rfl
    refine bind_congr_ok fun ⟨opened, cs₃⟩ h₃ => ?_
    have := ignoreOpen_length h₃
    exact ignoreFrames_fuel (by omega) (by omega)

/-! ## `ignore_value` skips exactly what `parse_value` reads

`ignore_value` keeps the frames of the containers it is in on a stack where `parse_value`
recurses. On a value `parse_value` reads, `ignore_value` started inside any frames stops after the
same characters and goes on as after any value there (`ignoreValueIn_of_parseValue`). The
statement is generalised over the frames, so that the induction hypothesis applies to the
elements of a container, skipped one frame deeper. -/

theorem scanInteger_eof {eof eof' : ErrorCode} {cs : List Char} {x : List Char × List Char}
    (h : scanInteger eof cs = .ok x) : scanInteger eof' cs = .ok x := by
  cases cs with
  | nil => cases h
  | cons c rest => exact h

theorem scanExponent_eof {eof eof' : ErrorCode} {cs : List Char} {x : List Char × List Char}
    (h : scanExponent eof cs = .ok x) : scanExponent eof' cs = .ok x := by
  cases cs with
  | nil => exact h
  | cons e rest =>
    rw [scanExponent] at h ⊢
    split_ifs at h ⊢
    · split at h
      · cases h
      · exact h
    · exact h

theorem scanFraction_eof {eof eof' : ErrorCode} {cs : List Char} {x : List Char × List Char}
    (h : scanFraction eof cs = .ok x) : scanFraction eof' cs = .ok x := by
  unfold scanFraction at h ⊢
  split at h
  · split_ifs at h ⊢
    obtain ⟨y, hy, rfl⟩ := map_eq_ok.1 h
    rw [scanExponent_eof hy]
    rfl
  · exact scanExponent_eof h

theorem ignoreNumber_of_parseNumber {readF64 : List Char → Except ErrorCode (BitVec 64)}
    {positive : Bool} {cs rest : List Char} {c : Content}
    (h : parseNumber readF64 positive cs = .ok (c, rest)) : ignoreNumber cs = .ok rest := by
  obtain ⟨⟨i, r₁⟩, hi, h⟩ := bind_eq_ok.1 h
  obtain ⟨⟨t, r₂⟩, ht, h⟩ := bind_eq_ok.1 h
  have hr : r₂ = rest := by
    dsimp only at h
    split at h
    · cases h; rfl
    · split at h
      · cases h; rfl
      · obtain ⟨x, -, h⟩ := bind_eq_ok.1 h
        cases h; rfl
  subst hr
  simp only [ignoreNumber, scanInteger_eof hi, scanFraction_eof ht, ok_bind, pure_eq_ok]

theorem ignoreOpen_digit {c : Char} (hc : c.isDigit = true) (rest : List Char) :
    ignoreOpen (c :: rest) = (ignoreNumber (c :: rest)).map (none, ·) := by
  rw [ignoreOpen, skipBlanks_cons (isBlank_of_isDigit hc)]
  split <;> simp_all

theorem parseValue_eq_ok_cases {readF64 : List Char → Except ErrorCode (BitVec 64)} {d : Nat}
    {cs rest : List Char} {c : Content} (h : parseValue readF64 d cs = .ok (c, rest)) :
    ignoreOpen cs = .ok (none, rest) ∧ (∀ xs, c ≠ .seq xs) ∧ (∀ es, c ≠ .map es) ∨
      (∃ d' r xs, d = d' + 1 ∧ c = .seq xs ∧ skipBlanks cs = '[' :: r ∧
        seqElements (parseValue readF64 d') (r.length + 1) true r = .ok (xs, rest)) ∨
      (∃ d' r es, d = d' + 1 ∧ c = .map es ∧ skipBlanks cs = '{' :: r ∧
        mapEntries (parseValue readF64 d') (r.length + 1) true r = .ok (es, rest)) := by
  have number : ∀ {positive r}, parseNumber readF64 positive r = .ok (c, rest) →
      (∀ xs, c ≠ .seq xs) ∧ ∀ es, c ≠ .map es := fun h =>
    ⟨fun _ hc => by subst hc; exact parseNumber_parsed h 0,
      fun _ hc => by subst hc; exact parseNumber_parsed h 0⟩
  rw [parseValue.eq_1] at h
  rw [← ignoreOpen_skipBlanks]
  split at h
  · cases h
  · next r hs =>
    obtain ⟨r', hr, he⟩ := map_eq_ok.1 h
    cases he
    rw [hs]
    exact .inl ⟨by show (parseIdent _ r).map _ = _; rw [hr]; rfl, nofun, nofun⟩
  · next r hs =>
    obtain ⟨r', hr, he⟩ := map_eq_ok.1 h
    cases he
    rw [hs]
    exact .inl ⟨by show (parseIdent _ r).map _ = _; rw [hr]; rfl, nofun, nofun⟩
  · next r hs =>
    obtain ⟨r', hr, he⟩ := map_eq_ok.1 h
    cases he
    rw [hs]
    exact .inl ⟨by show (parseIdent _ r).map _ = _; rw [hr]; rfl, nofun, nofun⟩
  · next r hs =>
    rw [hs]
    exact .inl ⟨by show (ignoreNumber r).map _ = _; rw [ignoreNumber_of_parseNumber h]; rfl,
      number h⟩
  · next r hs =>
    obtain ⟨⟨s, b, r'⟩, hr, he⟩ := map_eq_ok.1 h
    obtain ⟨rfl, rfl⟩ := Prod.mk.inj he
    rw [hs]
    exact .inl ⟨by show (ignoreStr r).map _ = _; simp [ignoreStr, hr],
      by cases b <;> exact ⟨nofun, nofun⟩⟩
  · next r hs =>
    split at h
    · cases h
    · next d' =>
      obtain ⟨⟨xs, r'⟩, hxs, he⟩ := map_eq_ok.1 h
      cases he
      exact .inr (.inl ⟨d', r, xs, rfl, rfl, hs, hxs⟩)
  · next r hs =>
    split at h
    · cases h
    · next d' =>
      obtain ⟨⟨es, r'⟩, hes, he⟩ := map_eq_ok.1 h
      cases he
      exact .inr (.inr ⟨d', r, es, rfl, rfl, hs, hes⟩)
  · next ch r _ _ _ _ _ _ _ hs =>
    split at h
    · next hd =>
      exact .inl ⟨by rw [hs, ignoreOpen_digit hd, ignoreNumber_of_parseNumber h]; rfl, number h⟩
    · cases h

/-- Where the inner loop goes on once a frame closed: in the frame below it, after a value. -/
def popStart : List Frame → Option (Bool × Frame × List Frame)
  | [] => none
  | frame :: scratch => some (true, frame, scratch)

theorem ignoreStart_none (enclosing : Option Frame) (scratch : List Frame) :
    ignoreStart none enclosing scratch = popStart (enclosing.toList ++ scratch) := by
  cases enclosing <;> cases scratch <;> rfl

theorem ignoreFrames_close {n : Nat} {acceptComma : Bool} {frame : Frame} {scratch : List Frame}
    {cs rest : List Char} (hs : skipBlanks cs = frame.closer :: rest) (hn : cs.length < n) :
    ignoreFrames n (some (acceptComma, frame, scratch)) cs =
      ignoreFrames n (popStart scratch) rest := by
  obtain ⟨n, rfl⟩ : ∃ k, n = k + 1 := ⟨n - 1, by omega⟩
  have hlen := length_lt_of_skipBlanks hs
  have hc : ¬(frame.closer = ',' ∧ acceptComma = true) := by cases frame <;> simp [Frame.closer]
  rw [ignoreFrames_succ, ignoreClose, hs]
  dsimp only
  rw [if_neg hc, if_pos rfl]
  cases scratch with
  | nil => rfl
  | cons f scratch =>
    rw [popStart, ignoreFrames_succ]
    dsimp only
    rw [ignoreClose_fuel hlen (Nat.lt_succ_self _)]

theorem ignoreFrames_next {n : Nat} {first : Bool} {frame : Frame} {scratch : List Frame}
    {comma : ErrorCode} {cs rest cs' : List Char} {c : Char} (hs : skipBlanks cs = c :: rest)
    (hc : c ≠ frame.closer) (hsep : afterSeparator comma first c rest = .ok cs') :
    ignoreFrames (n + 1) (some (!first, frame, scratch)) cs =
      (if frame = .object then ignoreKey cs' else pure cs') >>= ignoreValueIn n (some frame) scratch := by
  rw [ignoreFrames_succ, ignoreClose, hs]
  dsimp only
  unfold afterSeparator at hsep
  cases first
  · simp only [Bool.false_eq_true, if_false, and_true, Bool.not_false] at hsep ⊢
    split_ifs at hsep with h₁
    · cases hsep
      rw [if_pos h₁, ok_bind]
      cases frame
      · simp only [reduceCtorEq, if_false, pure_eq_ok, ok_bind, ignoreValueIn_skipBlanks]
      · simp only [if_true, ignoreKey_skipBlanks]
  · simp only [Bool.true_eq_false, Bool.false_eq_true, and_false, if_false, if_true,
      Except.ok.injEq, Bool.not_true] at hsep ⊢
    subst hsep
    rw [if_neg hc, ok_bind]

section Simulation
variable {readF64 : List Char → Except ErrorCode (BitVec 64)} {d : Nat}

theorem ignoreFrames_seqElements
    (hsim : ∀ {cs c rest}, parseValue readF64 d cs = .ok (c, rest) → ∀ e s n, cs.length ≤ n →
      ignoreValueIn n e s cs = ignoreFrames n (ignoreStart none e s) rest) :
    ∀ {m first t xs rest}, seqElements (parseValue readF64 d) m first t = .ok (xs, rest) →
      ∀ S n, t.length < n →
        ignoreFrames n (some (!first, .array, S)) t = ignoreFrames n (popStart S) rest := by
  intro m
  induction m with
  | zero => intro first t xs rest h; cases h
  | succ m ih =>
    intro first t xs rest h S n hn
    obtain ⟨n, rfl⟩ : ∃ k, n = k + 1 := ⟨n - 1, by omega⟩
    rw [seqElements] at h
    split at h
    · cases h
    · next r hs => cases h; exact ignoreFrames_close hs hn
    · next c r hne hs =>
      obtain ⟨cs', hsep, h⟩ := bind_eq_ok.1 h
      split at h
      · cases h
      · cases h
      · obtain ⟨⟨x, r₁⟩, hx, h⟩ := bind_eq_ok.1 h
        obtain ⟨⟨xs', r₂⟩, hxs, h⟩ := bind_eq_ok.1 h
        cases h
        have h₁ := afterSeparator_length hs hsep
        have h₂ := (parseValue_eq_ok readF64 d hx).1
        have h₃ := (seqElements_eq_ok (P := fun _ => True)
          (fun h => ⟨(parseValue_eq_ok readF64 d h).1, trivial⟩) hxs).1
        have hc : c ≠ Frame.array.closer := hne
        rw [ignoreFrames_next hs hc hsep, if_neg (by decide), pure_eq_ok, ok_bind,
          hsim hx _ _ _ (by omega)]
        exact (ih hxs S n (by omega)).trans (ignoreFrames_fuel (by omega) (by omega))

theorem ignoreFrames_mapEntries
    (hsim : ∀ {cs c rest}, parseValue readF64 d cs = .ok (c, rest) → ∀ e s n, cs.length ≤ n →
      ignoreValueIn n e s cs = ignoreFrames n (ignoreStart none e s) rest) :
    ∀ {m first t es rest}, mapEntries (parseValue readF64 d) m first t = .ok (es, rest) →
      ∀ S n, t.length < n →
        ignoreFrames n (some (!first, .object, S)) t = ignoreFrames n (popStart S) rest := by
  intro m
  induction m with
  | zero => intro first t es rest h; cases h
  | succ m ih =>
    intro first t es rest h S n hn
    obtain ⟨n, rfl⟩ : ∃ k, n = k + 1 := ⟨n - 1, by omega⟩
    rw [mapEntries] at h
    split at h
    · cases h
    · next r hs => cases h; exact ignoreFrames_close hs hn
    · next c r hne hs =>
      obtain ⟨cs', hsep, h⟩ := bind_eq_ok.1 h
      split at h
      · next rest' =>
        obtain ⟨⟨k, b, r₁⟩, hk, h⟩ := bind_eq_ok.1 h
        obtain ⟨r₂, hcolon, h⟩ := bind_eq_ok.1 h
        obtain ⟨⟨v, r₃⟩, hv, h⟩ := bind_eq_ok.1 h
        obtain ⟨⟨es', r₄⟩, hes, h⟩ := bind_eq_ok.1 h
        cases h
        have h₁ := afterSeparator_length hs hsep
        have h₂ := (parseStr_eq_ok hk).1
        have h₃ := parseColon_length hcolon
        have h₄ := (parseValue_eq_ok readF64 d hv).1
        have h₅ := (mapEntries_eq_ok (P := fun _ => True)
          (fun h => ⟨(parseValue_eq_ok readF64 d h).1, trivial⟩) hes).1
        simp only [List.length_cons] at h₁
        have hc : c ≠ Frame.object.closer := hne
        rw [ignoreFrames_next hs hc hsep, if_pos rfl, ignoreKey_quote]
        simp only [ignoreStr, hk, map_ok, ok_bind, hcolon]
        rw [hsim hv _ _ _ (by omega)]
        exact (ih hes S n (by omega)).trans (ignoreFrames_fuel (by omega) (by omega))
      all_goals cases h

end Simulation

/-- `ignore_value`, started inside any frames, skips a value `parse_value` reads at any depth
and goes on after it as after any value there. -/
theorem ignoreValueIn_of_parseValue (readF64 : List Char → Except ErrorCode (BitVec 64)) (d : Nat) :
    ∀ {cs c rest}, parseValue readF64 d cs = .ok (c, rest) → ∀ e s n, cs.length ≤ n →
      ignoreValueIn n e s cs = ignoreFrames n (ignoreStart none e s) rest := by
  induction d with
  | zero =>
    intro cs c rest h e s n _
    rcases parseValue_eq_ok_cases h with ⟨hopen, -⟩ | ⟨d', -, -, hd, -⟩ | ⟨d', -, -, hd, -⟩
    · rw [ignoreValueIn, hopen, ok_bind]
    all_goals omega
  | succ d ih =>
    intro cs c rest h e s n hn
    rcases parseValue_eq_ok_cases h with
      ⟨hopen, -⟩ | ⟨d', r, xs, hd, -, hs, hxs⟩ | ⟨d', r, es, hd, -, hs, hes⟩
    · rw [ignoreValueIn, hopen, ok_bind]
    · obtain rfl : d = d' := by omega
      have hopen : ignoreOpen cs = .ok (some .array, r) := by rw [← ignoreOpen_skipBlanks, hs]; rfl
      have := length_lt_of_skipBlanks hs
      rw [ignoreValueIn, hopen, ok_bind, ignoreStart_none]
      exact ignoreFrames_seqElements ih hxs _ n (by omega)
    · obtain rfl : d = d' := by omega
      have hopen : ignoreOpen cs = .ok (some .object, r) := by rw [← ignoreOpen_skipBlanks, hs]; rfl
      have := length_lt_of_skipBlanks hs
      rw [ignoreValueIn, hopen, ok_bind, ignoreStart_none]
      exact ignoreFrames_mapEntries ih hes _ n (by omega)

/-- `IgnoredAny` skips exactly the text of a value `parse_value` reads. -/
theorem ignoreValue_of_parseValue (readF64 : List Char → Except ErrorCode (BitVec 64)) (d : Nat)
    {cs rest : List Char} {c : Content} (h : parseValue readF64 d cs = .ok (c, rest)) :
    ignoreValue cs = .ok rest := by
  rw [ignoreValue_eq, ignoreValueIn_of_parseValue readF64 d h none [] _ (Nat.le_succ _)]
  rfl

/-! ## No recursion limit in `ignore_value`

`ignore_value` keeps its frames on a stack and counts no depth, so it skips arrays nested
deeper than `parse_value`'s limit (`ignoreValue_nested`, against `parseValue_nested`). -/

theorem ignoreFrames_open (n : Nat) (scratch : List Frame) (t : List Char) :
    ignoreFrames (n + 1) (some (false, .array, scratch)) ('[' :: t) =
      ignoreFrames n (some (false, .array, .array :: scratch)) t := by
  rw [ignoreFrames_succ]
  rfl

theorem ignoreFrames_nested : ∀ (j : Nat) {scratch : List Frame} {n : Nat} {rest : List Char},
    (List.replicate j '[' ++ List.replicate (j + 1) ']' ++ rest).length < n →
    ignoreFrames n (some (false, .array, scratch))
        (List.replicate j '[' ++ List.replicate (j + 1) ']' ++ rest) =
      ignoreFrames n (popStart scratch) rest
  | 0, _, _, rest, hn =>
    ignoreFrames_close (show skipBlanks (']' :: rest) = Frame.array.closer :: rest from rfl) hn
  | j + 1, scratch, n, rest, hn => by
    have e : List.replicate (j + 1) '[' ++ List.replicate (j + 1 + 1) ']' ++ rest =
        '[' :: (List.replicate j '[' ++ List.replicate (j + 1) ']' ++ ']' :: rest) := by
      rw [List.replicate_succ, List.replicate_succ']
      simp only [List.cons_append, List.append_assoc, List.singleton_append, List.nil_append]
    rw [e] at hn ⊢
    obtain ⟨n, rfl⟩ : ∃ m, n = m + 1 := ⟨n - 1, by omega⟩
    have hlen : (List.replicate j '[' ++ List.replicate (j + 1) ']' ++ ']' :: rest).length < n := by
      simp only [List.length_cons, List.length_append, List.length_replicate] at hn ⊢
      omega
    have hrest : (']' :: rest).length < n := by
      simp only [List.length_append, List.length_cons] at hlen ⊢
      omega
    have hclose : skipBlanks (']' :: rest) = Frame.array.closer :: rest := rfl
    rw [ignoreFrames_open, ignoreFrames_nested j hlen, popStart, ignoreFrames_close hclose hrest]
    exact ignoreFrames_fuel (Nat.lt_of_succ_lt hrest) (Nat.lt_succ_of_lt (Nat.lt_of_succ_lt hrest))

/-- `IgnoredAny` skips arrays nested to any depth. -/
theorem ignoreValue_nested (k : Nat) (rest : List Char) :
    ignoreValue (List.replicate (k + 1) '[' ++ List.replicate (k + 1) ']' ++ rest) = .ok rest := by
  rw [ignoreValue_eq, List.replicate_succ, List.cons_append, List.cons_append]
  show ignoreFrames _ (some (false, .array, [])) _ = _
  rw [ignoreFrames_nested k (by simp only [List.length_cons, List.length_append]; omega)]
  rfl

/-! ## Numbers are scanned, not converted

`ignore_number` checks a number's grammar and keeps nothing, while `parse_value` converts a
literal with an exponent to a float and refuses it when the conversion fails, as `1e400` fails,
out of the range of `f64`. So `ignore_value` skips such a literal (`ignoreValue_exponent`) where
`parse_value` takes the conversion's error (`parseNumber_exponent`). -/

section Exponent
variable {ds rest : List Char}

theorem scanFraction_exponent (eof : ErrorCode) (hne : ds ≠ []) (hds : ∀ c ∈ ds, c.isDigit = true)
    (hr : endsNumber rest = true) : scanFraction eof ('e' :: (ds ++ rest)) = .ok ('e' :: ds, rest) := by
  obtain ⟨c, ds, rfl⟩ := List.exists_cons_of_ne_nil hne
  have hc := hds c (.head _)
  have hds' : ∀ x ∈ ds, x.isDigit = true := fun x hx => hds x (.tail _ hx)
  have hend : rest.takeWhile Char.isDigit = [] ∧ rest.dropWhile Char.isDigit = rest := by
    cases rest with
    | nil => exact ⟨rfl, rfl⟩
    | cons x r =>
      have hx := (endsNumber_cons hr).1
      exact ⟨by simp [hx], by simp [hx]⟩
  have hsign : splitSign (c :: (ds ++ rest)) = ([], c :: (ds ++ rest)) := by
    unfold splitSign
    split <;> simp_all
  show scanExponent eof ('e' :: (c :: ds ++ rest)) = _
  rw [scanExponent, if_pos (.inl rfl), List.cons_append, hsign]
  simp only [if_pos hc, List.takeWhile_append_of_pos hds', List.dropWhile_append_of_pos hds', hend.1,
    hend.2, List.append_nil, List.nil_append, List.singleton_append]

theorem parseNumber_exponent (readF64 : List Char → Except ErrorCode (BitVec 64)) (hne : ds ≠ [])
    (hds : ∀ c ∈ ds, c.isDigit = true) (hr : endsNumber rest = true) :
    parseNumber readF64 true ('1' :: 'e' :: (ds ++ rest)) =
      readF64 ('1' :: 'e' :: ds) >>= fun x => pure (.f64 x, rest) := by
  have hint : scanInteger .eofWhileParsingValue ('1' :: 'e' :: (ds ++ rest)) =
      .ok (['1'], 'e' :: (ds ++ rest)) := by simp [scanInteger]
  simp only [parseNumber, hint, ok_bind, scanFraction_exponent _ hne hds hr]
  simp

/-- `IgnoredAny` skips a literal with an exponent whatever its value: the number `parse_value`
reads with any conversion that takes it. -/
theorem ignoreValue_exponent (hne : ds ≠ []) (hds : ∀ c ∈ ds, c.isDigit = true)
    (hr : endsNumber rest = true) : ignoreValue ('1' :: 'e' :: (ds ++ rest)) = .ok rest :=
  ignoreValue_of_parseValue (fun _ => .ok 0) 0 (c := .f64 0) <| by
    rw [parseValue_digit _ _ _ (c := '1') rfl, parseNumber_exponent _ hne hds hr]
    rfl

end Exponent

/-! ## The buffered reader as the streaming one

`ContentVisitor`'s `visit_seq` and `visit_map` drive the same `SeqAccess` and `MapAccess` a
derived visitor does: every turn of the buffered loops is a step of `next_element_seed` or
`next_key_seed` and then the value, and the loop ends at the closing bracket, which `end_seq` or
`end_map` eats (`seqElements_cons_eq_ok`, `seqElements_nil_eq_ok`, `mapEntries_succ_eq_ok`). A
number `parse_value` read is what `deserialize_number` reads (`deserializeNumber_of_parseValue`). -/

section Turns
variable {first : Bool} {cs rest : List Char} {c : Char}

theorem nextElement_close (hs : skipBlanks cs = ']' :: rest) : nextElement first cs = .ok none := by
  rw [nextElement, hs]
  rfl

theorem endSeq_close (hs : skipBlanks cs = ']' :: rest) : endSeq cs = .ok rest := by
  rw [endSeq, hs]
  rfl

theorem nextElement_elem {cs' : List Char} (hs : skipBlanks cs = c :: rest) (hc : c ≠ ']')
    (hsep : afterSeparator .expectedListCommaOrEnd first c rest = .ok cs')
    (hclose : ∀ t, cs' ≠ ']' :: t) (hend : cs' ≠ []) : nextElement first cs = .ok (some cs') := by
  rw [nextElement, hs]
  split
  · next h => cases h
  · next h => cases h; exact absurd rfl hc
  · next h =>
    cases h
    rw [hsep, ok_bind]
    split
    · exact absurd rfl (hclose _)
    · exact absurd rfl hend
    · rfl

theorem nextKey_end (hs : skipBlanks cs = '}' :: rest) : nextKey first cs = .ok none := by
  rw [nextKey, hs]
  rfl

theorem endMap_end (hs : skipBlanks cs = '}' :: rest) : endMap cs = .ok rest := by
  rw [endMap, hs]
  rfl

theorem nextKey_member {rest' k r : List Char} {b : Bool} (hs : skipBlanks cs = c :: rest)
    (hc : c ≠ '}') (hsep : afterSeparator .expectedObjectCommaOrEnd first c rest = .ok ('"' :: rest'))
    (hk : parseStr rest' = .ok (k, b, r)) : nextKey first cs = .ok (some (k, r)) := by
  rw [nextKey, hs]
  split
  · next h => cases h
  · next h => cases h; exact absurd rfl hc
  · next h =>
    cases h
    rw [hsep, ok_bind]
    show (parseStr rest').map _ = _
    rw [hk]
    rfl

variable {elem : List Char → Except ErrorCode (Content × List Char)} {n : Nat}

theorem seqElements_cons_eq_ok {x : Content} {xs : List Content}
    (h : seqElements elem n first cs = .ok (x :: xs, rest)) :
    ∃ n' cs' r, n = n' + 1 ∧ nextElement first cs = .ok (some cs') ∧ elem cs' = .ok (x, r) ∧
      seqElements elem n' false r = .ok (xs, rest) := by
  cases n with
  | zero => cases h
  | succ n =>
    rw [seqElements] at h
    split at h
    · cases h
    · cases h
    · next c r hne hs =>
      obtain ⟨cs', hsep, h⟩ := bind_eq_ok.1 h
      split at h
      · cases h
      · cases h
      · next hclose hend =>
        obtain ⟨⟨x', r'⟩, hx, h⟩ := bind_eq_ok.1 h
        obtain ⟨⟨xs', r''⟩, hxs, h⟩ := bind_eq_ok.1 h
        cases h
        exact ⟨n, cs', r', rfl, nextElement_elem hs hne hsep hclose hend, hx, hxs⟩

theorem seqElements_nil_eq_ok (h : seqElements elem n first cs = .ok ([], rest)) :
    nextElement first cs = .ok none ∧ endSeq cs = .ok rest := by
  cases n with
  | zero => cases h
  | succ n =>
    rw [seqElements] at h
    split at h
    · cases h
    · next r hs => cases h; exact ⟨nextElement_close hs, endSeq_close hs⟩
    · obtain ⟨cs', -, h⟩ := bind_eq_ok.1 h
      split at h
      · cases h
      · cases h
      · obtain ⟨_, -, h⟩ := bind_eq_ok.1 h
        obtain ⟨_, -, h⟩ := bind_eq_ok.1 h
        cases h

theorem mapEntries_succ_eq_ok {es : List (String × Content)}
    (h : mapEntries elem (n + 1) first cs = .ok (es, rest)) :
    (es = [] ∧ nextKey first cs = .ok none ∧ endMap cs = .ok rest) ∨
      ∃ k r₁ r₂ v r₃ es', es = (⟨k⟩, v) :: es' ∧ nextKey first cs = .ok (some (k, r₁)) ∧
        parseColon r₁ = .ok r₂ ∧ elem r₂ = .ok (v, r₃) ∧ mapEntries elem n false r₃ = .ok (es', rest) := by
  rw [mapEntries] at h
  split at h
  · cases h
  · next r hs => cases h; exact .inl ⟨rfl, nextKey_end hs, endMap_end hs⟩
  · next c r hne hs =>
    obtain ⟨cs', hsep, h⟩ := bind_eq_ok.1 h
    split at h
    · obtain ⟨⟨k, b, r₁⟩, hk, h⟩ := bind_eq_ok.1 h
      obtain ⟨r₂, hcolon, h⟩ := bind_eq_ok.1 h
      obtain ⟨⟨v, r₃⟩, hv, h⟩ := bind_eq_ok.1 h
      obtain ⟨⟨es', r₄⟩, hes, h⟩ := bind_eq_ok.1 h
      cases h
      exact .inr ⟨k, r₁, r₂, v, r₃, es', rfl, nextKey_member hs hne hsep hk, hcolon, hv, hes⟩
    all_goals cases h

end Turns

theorem nextElement_written (writeF64 : BitVec 64 → List Char) (first : Bool) {d : Nat}
    {c : Content} (hc : Readable d c) (rest : List Char) :
    nextElement first ((if first then [] else [',']) ++ (write writeF64 c ++ rest)) =
      .ok (some (write writeF64 c ++ rest)) := by
  obtain ⟨h, t, ht, hb, hne⟩ := write_eq_cons writeF64 hc
  obtain ⟨c', r, hs, hc', hsep⟩ :=
    afterSeparator_written .expectedListCommaOrEnd first (t := t ++ rest) hb
  rw [ht, List.cons_append]
  refine nextElement_elem hs ?_ hsep (fun _ h' => hne (List.cons.inj h').1) (List.cons_ne_nil _ _)
  rintro rfl
  rcases hc' with h' | h' <;> cases h'
  exact hne rfl

section Scalars
variable {readF64 : List Char → Except ErrorCode (BitVec 64)} {d : Nat} {cs rest : List Char}
  {c : Content}

theorem deserializeNumber_other {r : List Char} {x : Char} (hs : skipBlanks cs = x :: r)
    (hx : x ≠ '-') (hd : x.isDigit = false) :
    deserializeNumber readF64 cs = .error (peekInvalidType readF64 (x :: r)) := by
  rw [deserializeNumber, hs]
  split
  · next h => cases h
  · next h => cases h; exact absurd rfl hx
  · next h => cases h; rw [if_neg (by simp [hd])]

theorem deserializeNumber_of_parseValue (h : parseValue readF64 d cs = .ok (c, rest)) :
    deserializeNumber readF64 cs = .ok (c, rest) ∨
      deserializeNumber readF64 cs = .error (.data .invalidType) ∧
        Serde.u32.deserialize c = .error .invalidType := by
  rw [parseValue.eq_1] at h
  split at h
  · cases h
  case h_2 _ _ hs | h_3 _ _ hs | h_4 _ _ hs =>
    obtain ⟨_, hr, he⟩ := map_eq_ok.1 h
    cases he
    refine .inr ⟨?_, rfl⟩
    rw [deserializeNumber_other hs (by decide) rfl]
    show Except.error (invalidTypeOr (parseIdent _ _)) = _
    rw [hr]
    rfl
  case h_5 _ _ hs =>
    left
    rw [deserializeNumber, hs]
    show Except.mapError _ (parseNumber readF64 false _) = _
    rw [h]
    rfl
  case h_6 _ _ hs =>
    obtain ⟨⟨_, b, _⟩, hr, he⟩ := map_eq_ok.1 h
    cases he
    refine .inr ⟨?_, by cases b <;> rfl⟩
    rw [deserializeNumber_other hs (by decide) rfl]
    show Except.error (invalidTypeOr (parseStr _)) = _
    rw [hr]
    rfl
  case h_7 _ _ hs | h_8 _ _ hs =>
    split at h
    · cases h
    · obtain ⟨_, -, he⟩ := map_eq_ok.1 h
      cases he
      exact .inr ⟨by rw [deserializeNumber_other hs (by decide) rfl]; rfl, rfl⟩
  case h_9 ch r _ _ _ _ _ _ _ hs =>
    split at h
    · next hd =>
      left
      rw [deserializeNumber, hs]
      split
      · next he => cases he
      · next he => cases he; cases hd
      · next he =>
        cases he
        rw [if_pos hd, h]
        rfl
    · cases h

/-- `u32::deserialize` reads in place what the `u32` visitor makes of the value `parse_value`
read, its error included. -/
theorem readU32_of_parseValue (h : parseValue readF64 d cs = .ok (c, rest)) :
    readU32 readF64 cs = ((Serde.u32.deserialize c).mapError .data).map (·, rest) := by
  rcases deserializeNumber_of_parseValue h with hn | ⟨hn, hu⟩
  · rw [readU32, hn, ok_bind]
    show ((Serde.u32.deserialize c).mapError _ >>= _) = _
    cases Serde.u32.deserialize c <;> rfl
  · rw [readU32, hn, hu]
    rfl

theorem peekInvalidType_of_parseValue (h : parseValue readF64 d cs = .ok (c, rest)) :
    ∃ x r, skipBlanks cs = x :: r ∧ peekInvalidType readF64 (x :: r) = .data .invalidType := by
  rw [parseValue.eq_1] at h
  split at h
  · cases h
  case h_2 _ _ hs | h_3 _ _ hs | h_4 _ _ hs =>
    obtain ⟨_, hr, -⟩ := map_eq_ok.1 h
    refine ⟨_, _, hs, ?_⟩
    show invalidTypeOr (parseIdent _ _) = _
    rw [hr]
    rfl
  case h_5 _ _ hs =>
    refine ⟨_, _, hs, ?_⟩
    show invalidTypeOr (parseNumber readF64 false _) = _
    rw [h]
    rfl
  case h_6 _ _ hs =>
    obtain ⟨_, hr, -⟩ := map_eq_ok.1 h
    refine ⟨_, _, hs, ?_⟩
    show invalidTypeOr (parseStr _) = _
    rw [hr]
    rfl
  case h_7 _ _ hs | h_8 _ _ hs => exact ⟨_, _, hs, rfl⟩
  case h_9 ch r _ _ _ _ _ _ _ hs =>
    split at h
    · next hd =>
      refine ⟨_, _, hs, ?_⟩
      unfold peekInvalidType
      split
      all_goals rename_i he
      all_goals cases he
      all_goals first
        | cases hd
        | (rw [if_pos hd, h]; rfl)
    · cases h

end Scalars

theorem endSeq_of_nextElement {cs cs' : List Char} (h : nextElement false cs = .ok (some cs')) :
    endSeq cs = .error .trailingCharacters := by
  unfold nextElement at h
  split at h
  · cases h
  · cases h
  · rename_i c rest _ hs
    obtain ⟨t, ht, h⟩ := bind_eq_ok.1 h
    simp only [afterSeparator, Bool.false_eq_true, and_true, if_false] at ht
    split_ifs at ht with hc
    · subst hc
      cases ht
      rw [endSeq, hs]
      show (match skipBlanks rest with
        | ']' :: _ => Except.error ErrorCode.trailingComma
        | _ => .error .trailingCharacters) = _
      split
      · rename_i he
        rw [he] at h
        cases h
      · rfl

end RevaultNet.Json
