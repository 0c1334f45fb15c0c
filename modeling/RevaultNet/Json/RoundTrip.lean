import RevaultNet.Json.Read
import RevaultNet.Json.Write

/-! # `serde_json` reads back what it writes

`parseValue` inverts `write` on every value the writer can give back: no float (its text is
`ryu`'s, which is not modelled), a negative `i64` only (the parser returns a non-negative
integer as a `u64`), at most the parser's nesting, and each string lent or copied as the parser
will return it (`Readable`).

* Strings: the parser reads back every escape the writer writes, and copies the string exactly
  when the writer escaped a character: the string is lent (`Content::Str`) exactly when
  `needsEscape` says it needs no escape (`parseStr_writeStr`). This is the reading of
  `strContent` the message codecs are built on.
* Integers: `itoa`'s digits have no leading zero, so `parse_integer` takes them all
  (`parseNumber_u64`, `parseNumber_i64`), provided no digit, point or exponent follows
  (`endsNumber`).
* Values: `parseValue_write`, one case per constructor, with one lemma per loop
  (`seqElements_writeElements`, `mapEntries_writeMembers`), each built on the step that reads one
  element or member after its separator (`seqElements_write`, `mapEntries_write`).
* Depth: a value too deep for the depth left (`TooDeep`), wherever its deepest container stands,
  is refused with `recursion_limit_exceeded` whatever follows (`parseValue_write_tooDeep`): the
  loops read back the values before it and stop at its error.
* `fromStr_write`: `from_str` of what `to_string` wrote, followed by any text.
-/

namespace RevaultNet.Json
open Serde (Content needsEscape)
set_option autoImplicit false

/-- The values `write` produces and `parseValue` gives back, with `d` containers left to open. -/
def Readable : Nat → Content → Prop
  | _, .unit | _, .bool _ | _, .u64 _ => True
  | _, .i64 n => n.toInt < 0
  | _, .f64 _ => False
  | _, .str s => needsEscape s = false
  | _, .string s => needsEscape s = true
  | 0, .seq _ | 0, .map _ => False
  | d + 1, .seq xs => ∀ x ∈ xs, Readable d x
  | d + 1, .map es => ∀ e ∈ es, Readable d e.2

/-- A value the parser reads back with `d` containers left to open, it reads back with more. -/
theorem Readable.mono {d d' : Nat} {c : Content} (h : Readable d c) (hd : d ≤ d') : Readable d' c := by
  induction d generalizing d' c with
  | zero => cases c <;> cases d' <;> first | exact h | simp only [Readable] at h
  | succ d ih =>
    obtain ⟨d', rfl⟩ : ∃ e, d' = e + 1 := ⟨d' - 1, by omega⟩
    cases c with
    | seq xs => exact fun x hx => ih (h x hx) (by omega)
    | map es => exact fun e he => ih (h e he) (by omega)
    | _ => exact h

/-- The values whose text opens more containers than the `d` the parser has left, wherever the
deepest one stands: a container when none is left, or an element or member too deep one level
in, after ones the parser reads back. What follows the too-deep value is any value. -/
def TooDeep : Nat → Content → Prop
  | 0, .seq _ | 0, .map _ => True
  | d + 1, .seq xs => ∃ ys x zs, xs = ys ++ x :: zs ∧ (∀ y ∈ ys, Readable d y) ∧ TooDeep d x
  | d + 1, .map es =>
    ∃ fs k v gs, es = fs ++ (k, v) :: gs ∧ (∀ e ∈ fs, Readable d e.2) ∧ TooDeep d v
  | _, _ => False

/-- `n + 1` arrays, each the one element of the one around it, are too deep with `n` left. -/
theorem tooDeep_nested : ∀ n, TooDeep n ((fun x => Content.seq [x])^[n] (.seq []))
  | 0 => trivial
  | n + 1 => by
    rw [Function.iterate_succ_apply']
    exact ⟨[], _, [], rfl, by simp, tooDeep_nested n⟩

/-- A number's digits end where the input cannot continue them. -/
def endsNumber : List Char → Bool
  | c :: _ => !(c.isDigit || c = '.' || c = 'e' || c = 'E')
  | [] => true

/-- Whether the value is written as an integer. -/
def isInteger : Content → Bool
  | .u64 _ | .i64 _ => true
  | _ => false

/-! ## Strings -/

theorem hexValue_digitChar {d : Nat} (h : d < 16) : hexValue (Hex.digitChar d) = some d := by
  simp only [hexValue, Hex.digitValue_digitChar ⟨d, h⟩]
  rfl

theorem charOfCode_toNat (c : Char) : charOfCode c.toNat = .ok c := by
  rw [charOfCode, if_pos (show c.toNat.isValidChar from c.valid), Char.ofNat_toNat]

@[simp] theorem consChar_ok (c : Char) (copied b : Bool) (s rest : List Char) :
    consChar c copied (.ok (s, b, rest)) = .ok (c :: s, copied || b, rest) := rfl

/-- Every escape the writer writes is read back as its character. -/
theorem parseEscape_escapeChar {c e : Char} (h : escapeOf c = some e) :
    ∃ tail, escapeChar c = '\\' :: tail ∧ ∀ rest, parseEscape (tail ++ rest) = .ok (c, rest) := by
  simp only [escapeChar, h]
  unfold escapeOf at h
  split_ifs at h with h1 h2 h3 h4 h5 h6 h7 h8 <;> cases h <;> try subst_vars
  all_goals try exact ⟨_, rfl, fun _ => rfl⟩
  -- a control character without a short form: `\u00` and two hex digits
  refine ⟨_, rfl, fun rest => ?_⟩
  have hq : hexQuad '0' '0' (Hex.digitChar (c.toNat / 16)) (Hex.digitChar (c.toNat % 16)) =
      some c.toNat := by
    simp only [hexQuad, hexValue_digitChar (show c.toNat / 16 < 16 by omega),
      hexValue_digitChar (show c.toNat % 16 < 16 by omega), show hexValue '0' = some 0 from rfl]
    simp only [Option.pure_def, Option.bind_eq_bind, Option.some_bind, Option.some.injEq]
    omega
  simp only [List.cons_append, List.nil_append, parseEscape, hq,
    if_neg (show ¬(0xDC00 ≤ c.toNat ∧ c.toNat ≤ 0xDFFF) by omega),
    if_neg (show ¬(0xD800 ≤ c.toNat ∧ c.toNat ≤ 0xDBFF) by omega), charOfCode_toNat, map_ok]

/-- The parser reads one written character back, and records whether it was escaped. -/
theorem parseStr_escapeChar (c : Char) (rest : List Char) :
    parseStr (escapeChar c ++ rest) = consChar c (escapeOf c).isSome (parseStr rest) := by
  cases he : escapeOf c with
  | some e =>
    obtain ⟨tail, hc, hp⟩ := parseEscape_escapeChar he
    rw [hc, List.cons_append, parseStr_escape (hp rest)]
    rfl
  | none =>
    have hs := escapeOf_isSome c
    simp only [he, Option.isSome_none, Bool.false_eq, Bool.or_eq_false_iff,
      decide_eq_false_iff_not] at hs
    rw [escapeChar_of_escapeOf_none he, List.singleton_append,
      parseStr_plain hs.1.2 hs.2 (by omega)]
    rfl

/-- The parser reads a written string back, lent exactly when it needed no escape. -/
theorem parseStr_writeStr (s rest : List Char) :
    parseStr (s.flatMap escapeChar ++ '"' :: rest) = .ok (s, needsEscape ⟨s⟩, rest) := by
  induction s with
  | nil => exact parseStr.eq_2 rest
  | cons c s ih =>
    rw [List.flatMap_cons, List.append_assoc, parseStr_escapeChar, ih, consChar_ok,
      needsEscape_cons, escapeOf_isSome]

theorem writeStr_append (s : String) (rest : List Char) :
    writeStr s ++ rest = '"' :: (s.toList.flatMap escapeChar ++ '"' :: rest) := by
  simp [writeStr]

/-! ## Integers -/

theorem isDigit_digitChar {d : Nat} (h : d < 10) : (Nat.digitChar d).isDigit = true := by
  interval_cases d <;> rfl

theorem digitChar_sub_zero {d : Nat} (h : d < 10) : (Nat.digitChar d).toNat - '0'.toNat = d := by
  interval_cases d <;> rfl

theorem digitChar_eq_zero {d : Nat} (h : d < 10) (h0 : Nat.digitChar d = '0') : d = 0 := by
  interval_cases d <;> first | rfl | cases h0

theorem foldl_digitsValue {ds : List Nat} (h : ∀ d ∈ ds, d < 10) (a : Nat) :
    (ds.map Nat.digitChar).foldl (fun n c => 10 * n + (c.toNat - '0'.toNat)) a =
      ds.foldl (fun n d => 10 * n + d) a := by
  induction ds generalizing a with
  | nil => rfl
  | cons d ds ih =>
    simp only [List.map_cons, List.foldl_cons, digitChar_sub_zero (h d (.head _))]
    exact ih (fun d' hd' => h d' (.tail _ hd')) _

theorem foldl_reverse_ofDigits (ds : List Nat) :
    ds.reverse.foldl (fun n d => 10 * n + d) 0 = Nat.ofDigits 10 ds := by
  rw [List.foldl_reverse]
  induction ds with
  | nil => rfl
  | cons d ds ih =>
    rw [List.foldr_cons, ih, Nat.ofDigits_cons]
    omega

/-- `parse_integer` reads back the value `itoa` wrote. -/
theorem digitsValue_decimal (n : Nat) : digitsValue (decimal n) = n := by
  rcases Nat.eq_zero_or_pos n with rfl | hn
  · rfl
  · rw [decimal_of_pos hn, digitsValue, foldl_digitsValue, foldl_reverse_ofDigits,
      Nat.ofDigits_digits]
    intro d hd
    exact Nat.digits_lt_base (by decide) (List.mem_reverse.1 hd)

theorem isDigit_of_mem_decimal {n : Nat} {c : Char} (h : c ∈ decimal n) : c.isDigit = true := by
  rcases Nat.eq_zero_or_pos n with rfl | hn
  · simp only [decimal_zero, List.mem_singleton] at h
    subst h
    rfl
  · rw [decimal_of_pos hn] at h
    obtain ⟨d, hd, rfl⟩ := List.mem_map.1 h
    exact isDigit_digitChar (Nat.digits_lt_base (by decide) (List.mem_reverse.1 hd))

/-- `itoa` writes no leading zero. -/
theorem decimal_eq_cons {n : Nat} (hn : 0 < n) : ∃ h t, decimal n = h :: t ∧ h ≠ '0' := by
  have hne : Nat.digits 10 n ≠ [] := Nat.digits_ne_nil_iff_ne_zero.2 (by omega)
  rw [decimal_of_pos hn, ← List.dropLast_append_getLast hne, List.reverse_append,
    List.reverse_singleton, List.singleton_append, List.map_cons]
  refine ⟨_, _, rfl, fun h0 => Nat.getLast_digit_ne_zero 10 (by omega : n ≠ 0) ?_⟩
  exact digitChar_eq_zero (Nat.digits_lt_base (by decide) (List.getLast_mem hne)) h0

theorem endsNumber_cons {c : Char} {r : List Char} (h : endsNumber (c :: r) = true) :
    c.isDigit = false ∧ c ≠ '.' ∧ c ≠ 'e' ∧ c ≠ 'E' := by
  simpa [endsNumber, and_assoc] using h

theorem scanFraction_of_endsNumber (eof : ErrorCode) {rest : List Char}
    (h : endsNumber rest = true) : scanFraction eof rest = .ok ([], rest) := by
  cases rest with
  | nil => rfl
  | cons c r =>
    obtain ⟨-, hp, he, hE⟩ := endsNumber_cons h
    unfold scanFraction
    split
    · next heq => cases heq; exact absurd rfl hp
    · simp [scanExponent, he, hE]

/-- `parse_integer` takes every digit `itoa` wrote and stops where they end. -/
theorem scanInteger_decimal (eof : ErrorCode) (n : Nat) {rest : List Char}
    (h : endsNumber rest = true) : scanInteger eof (decimal n ++ rest) = .ok (decimal n, rest) := by
  have hnd : rest.takeWhile Char.isDigit = [] ∧ rest.dropWhile Char.isDigit = rest ∧
      startsWithDigit rest = false := by
    cases rest with
    | nil => exact ⟨rfl, rfl, rfl⟩
    | cons c r =>
      have hc := (endsNumber_cons h).1
      exact ⟨by simp [hc], by simp [hc], hc⟩
  rcases Nat.eq_zero_or_pos n with rfl | hn
  · simp [scanInteger, hnd.2.2]
  · obtain ⟨c, t, hct, hc0⟩ := decimal_eq_cons hn
    have hdig : ∀ x ∈ c :: t, x.isDigit = true := fun x hx => isDigit_of_mem_decimal (hct ▸ hx)
    rw [hct, List.cons_append, scanInteger, if_neg hc0, if_pos (hdig c (.head _)),
      List.takeWhile_append_of_pos (fun x hx => hdig x (.tail _ hx)), hnd.1, List.append_nil,
      List.dropWhile_append_of_pos (fun x hx => hdig x (.tail _ hx)), hnd.2.1]

/-- A `u64` written by `itoa` is read back as itself. -/
theorem parseNumber_u64 (readF64 : List Char → Except ErrorCode (BitVec 64)) (n : BitVec 64)
    {rest : List Char} (h : endsNumber rest = true) :
    parseNumber readF64 true (decimal n.toNat ++ rest) = .ok (.u64 n, rest) := by
  simp only [parseNumber, scanInteger_decimal _ _ h, ok_bind, scanFraction_of_endsNumber _ h,
    digitsValue_decimal, BitVec.ofNat_toNat, BitVec.setWidth_eq, pure_eq_ok]
  rw [if_pos ⟨trivial, trivial, n.isLt⟩]

/-- A negative `i64`, written as `-` and its magnitude, is read back as itself. -/
theorem parseNumber_i64 (readF64 : List Char → Except ErrorCode (BitVec 64)) (n : BitVec 64)
    (hn : n.toInt < 0) {rest : List Char} (h : endsNumber rest = true) :
    parseNumber readF64 false (decimal n.toInt.natAbs ++ rest) = .ok (.i64 n, rest) := by
  have hlt := n.isLt
  have hcond := BitVec.toInt_neg_iff.1 hn
  have hint : n.toInt = (n.toNat : Int) - 2 ^ 64 := by
    rw [BitVec.toInt_eq_toNat_cond, if_neg (by omega)]
    rfl
  have hm : 0 < n.toInt.natAbs ∧ n.toInt.natAbs ≤ 2 ^ 63 := by omega
  simp only [parseNumber, scanInteger_decimal _ _ h, ok_bind, scanFraction_of_endsNumber _ h,
    digitsValue_decimal, pure_eq_ok]
  rw [if_neg (by simp), if_pos ⟨trivial, trivial, hm⟩]
  simp only [Except.ok.injEq, Prod.mk.injEq, Content.i64.injEq, and_true]
  apply BitVec.eq_of_toNat_eq
  rw [BitVec.toNat_ofInt]
  omega

/-! ## Values -/

theorem parseIdent_append (es rest : List Char) : parseIdent es (es ++ rest) = .ok rest := by
  induction es with
  | nil => rfl
  | cons e es ih => simp [parseIdent, ih]

theorem decimal_ne_nil (n : Nat) : decimal n ≠ [] := by
  rcases Nat.eq_zero_or_pos n with rfl | hn
  · simp
  · obtain ⟨h, t, ht, -⟩ := decimal_eq_cons hn
    simp [ht]

/-- A written value opens with a character that starts a value: not a blank, and not the
bracket that closes an array. -/
theorem write_eq_cons (writeF64 : BitVec 64 → List Char) {d : Nat} {c : Content}
    (hc : Readable d c) : ∃ h t, write writeF64 c = h :: t ∧ isBlank h = false ∧ h ≠ ']' := by
  cases c with
  | u64 n =>
    obtain ⟨h, t, ht⟩ := List.exists_cons_of_ne_nil (decimal_ne_nil n.toNat)
    have hd := isDigit_of_mem_decimal (ht ▸ List.mem_cons_self h t)
    refine ⟨h, t, ht, isBlank_of_isDigit hd, ?_⟩
    rintro rfl
    cases hd
  | i64 n =>
    simp only [Readable] at hc
    exact ⟨'-', _, by rw [write, if_pos hc], rfl, by decide⟩
  | f64 => simp only [Readable] at hc
  | bool b => cases b <;> exact ⟨_, _, rfl, rfl, by decide⟩
  | _ => exact ⟨_, _, rfl, rfl, by decide⟩

/-- A value too deep for the parser is a container, written from its bracket or brace. -/
theorem write_eq_cons_of_tooDeep (writeF64 : BitVec 64 → List Char) {d : Nat} {c : Content}
    (hc : TooDeep d c) : ∃ h t, write writeF64 c = h :: t ∧ isBlank h = false ∧ h ≠ ']' := by
  cases c with
  | seq => exact ⟨_, _, rfl, rfl, by decide⟩
  | map => exact ⟨_, _, rfl, rfl, by decide⟩
  | _ => cases d <;> simp only [TooDeep] at hc

/-- The separator the writer puts before an element or a member, read by `afterSeparator`. -/
theorem afterSeparator_written (comma : ErrorCode) (first : Bool) {h : Char} {t : List Char}
    (hb : isBlank h = false) : ∃ c r, skipBlanks ((if first then [] else [',']) ++ h :: t) = c :: r ∧
      (c = h ∨ c = ',') ∧ afterSeparator comma first c r = .ok (h :: t) := by
  cases first
  · exact ⟨',', h :: t, skipBlanks_cons (c := ',') rfl _, .inr rfl,
      by rw [afterSeparator, if_pos ⟨rfl, rfl⟩, skipBlanks_cons hb]⟩
  · exact ⟨h, t, skipBlanks_cons hb _, .inl rfl, by simp [afterSeparator]⟩

theorem endsNumber_writeElements (writeF64 : BitVec 64 → List Char) (xs : List Content)
    (rest : List Char) : endsNumber (writeElements writeF64 false xs ++ rest) = true := by
  cases xs <;> rfl

theorem endsNumber_writeMembers (writeF64 : BitVec 64 → List Char) (es : List (String × Content))
    (rest : List Char) : endsNumber (writeMembers writeF64 false es ++ rest) = true := by
  cases es <;> rfl

theorem length_lt_writeElements (writeF64 : BitVec 64 → List Char) (xs : List Content) :
    xs.length < (writeElements writeF64 false xs).length := by
  induction xs with
  | nil => simp [writeElements]
  | cons x xs ih => simp only [writeElements, List.length_append, List.length_cons]; simp; omega

/-- An array of `n` elements is written with at least `n` characters after its bracket. -/
theorem length_le_writeElements (writeF64 : BitVec 64 → List Char) (first : Bool)
    (xs : List Content) : xs.length ≤ (writeElements writeF64 first xs).length := by
  cases xs with
  | nil => simp
  | cons x xs =>
    have := length_lt_writeElements writeF64 xs
    simp only [writeElements, List.length_append, List.length_cons]
    omega

/-- An object of `n` members is written with at least `n` characters after its brace. -/
theorem length_le_writeMembers (writeF64 : BitVec 64 → List Char) (first : Bool)
    (es : List (String × Content)) : es.length ≤ (writeMembers writeF64 first es).length := by
  induction es generalizing first with
  | nil => simp
  | cons e es ih =>
    have := ih false
    simp only [writeMembers, writeStr, List.length_append, List.length_cons]
    omega

section Loops
variable (writeF64 : BitVec 64 → List Char) {elem : List Char → Except ErrorCode (Content × List Char)}
  {d : Nat}

/-- One written element, after its separator: the loop reads it with `elem`, then goes on. -/
theorem seqElements_write {x : Content}
    (hw : ∃ h t, write writeF64 x = h :: t ∧ isBlank h = false ∧ h ≠ ']') (n : Nat) (first : Bool)
    (rest : List Char) :
    seqElements elem (n + 1) first ((if first then [] else [',']) ++ write writeF64 x ++ rest) = (do
      let (y, rest) ← elem (write writeF64 x ++ rest)
      let (ys, rest) ← seqElements elem n false rest
      pure (y :: ys, rest)) := by
  obtain ⟨h, t, hw, hb, hne⟩ := hw
  obtain ⟨c, r, hs, hc, hsep⟩ := afterSeparator_written .expectedListCommaOrEnd first
    (t := t ++ rest) hb
  have hc' : c ≠ ']' := by rcases hc with rfl | rfl <;> first | exact hne | decide
  rw [List.append_assoc, hw, List.cons_append,
    seqElements_elem hs hc' hsep (fun _ he => hne (List.cons.inj he).1) (List.cons_ne_nil _ _)]

/-- One written member, after its separator: the loop reads its key back, its value with `elem`,
then goes on. -/
theorem mapEntries_write (k : String) (v : Content) (n : Nat) (first : Bool) (rest : List Char) :
    mapEntries elem (n + 1) first
        ((if first then [] else [',']) ++ writeStr k ++ ':' :: (write writeF64 v ++ rest)) = (do
      let (v', rest) ← elem (write writeF64 v ++ rest)
      let (es, rest) ← mapEntries elem n false rest
      pure ((k, v') :: es, rest)) := by
  obtain ⟨c, r, hs, hc, hsep⟩ := afterSeparator_written .expectedObjectCommaOrEnd first
    (h := '"') (t := k.toList.flatMap escapeChar ++ '"' :: ':' :: (write writeF64 v ++ rest)) rfl
  have hc' : c ≠ '}' := by rcases hc with rfl | rfl <;> decide
  rw [List.append_assoc, writeStr_append, mapEntries_member hs hc' hsep, parseStr_writeStr, ok_bind]
  rfl

theorem writeElements_cons (x : Content) (xs : List Content) (first : Bool) (rest : List Char) :
    writeElements writeF64 first (x :: xs) ++ rest =
      (if first then [] else [',']) ++ write writeF64 x ++ (writeElements writeF64 false xs ++ rest) := by
  rw [writeElements, List.append_assoc]

theorem writeMembers_cons (k : String) (v : Content) (es : List (String × Content)) (first : Bool)
    (rest : List Char) :
    writeMembers writeF64 first ((k, v) :: es) ++ rest = (if first then [] else [',']) ++
      writeStr k ++ ':' :: (write writeF64 v ++ (writeMembers writeF64 false es ++ rest)) := by
  simp [writeMembers]

/-- The array loop reads back the elements the writer wrote, given enough fuel, when `elem`
reads back each element before any text that ends a number. -/
theorem seqElements_writeElements {xs : List Content} (hr : ∀ x ∈ xs, Readable d x)
    (hx : ∀ x ∈ xs, ∀ rest, endsNumber rest = true → elem (write writeF64 x ++ rest) = .ok (x, rest)) :
    ∀ {n first rest}, xs.length < n →
      seqElements elem n first (writeElements writeF64 first xs ++ rest) = .ok (xs, rest) := by
  induction xs with
  | nil =>
    intro n first rest hn
    obtain ⟨n, rfl⟩ : ∃ m, n = m + 1 := ⟨n - 1, by omega⟩
    rw [writeElements, List.singleton_append, seqElements, skipBlanks_cons (c := ']') rfl]
    rfl
  | cons x xs ih =>
    intro n first rest hn
    obtain ⟨n, rfl⟩ : ∃ m, n = m + 1 := ⟨n - 1, by omega⟩
    rw [writeElements_cons, seqElements_write writeF64 (write_eq_cons writeF64 (hr x (.head _))),
      hx x (.head _) _ (endsNumber_writeElements writeF64 xs rest), ok_bind]
    dsimp only
    rw [ih (fun y hy => hr y (.tail _ hy)) (fun y hy => hx y (.tail _ hy)) (by simpa using hn)]
    rfl

/-- The array loop reads back the elements written before one `elem` refuses, then stops with its
error, whatever follows. -/
theorem seqElements_writeElements_error {ys zs : List Content} {x : Content} {e : ErrorCode}
    (hr : ∀ y ∈ ys, Readable d y)
    (hy : ∀ y ∈ ys, ∀ rest, endsNumber rest = true → elem (write writeF64 y ++ rest) = .ok (y, rest))
    (hw : ∃ h t, write writeF64 x = h :: t ∧ isBlank h = false ∧ h ≠ ']')
    (hx : ∀ rest, elem (write writeF64 x ++ rest) = .error e) :
    ∀ {n first rest}, ys.length < n →
      seqElements elem n first (writeElements writeF64 first (ys ++ x :: zs) ++ rest) =
        .error e := by
  induction ys with
  | nil =>
    intro n first rest hn
    obtain ⟨n, rfl⟩ : ∃ m, n = m + 1 := ⟨n - 1, by omega⟩
    rw [List.nil_append, writeElements_cons, seqElements_write writeF64 hw, hx, error_bind]
  | cons y ys ih =>
    intro n first rest hn
    obtain ⟨n, rfl⟩ : ∃ m, n = m + 1 := ⟨n - 1, by omega⟩
    rw [List.cons_append, writeElements_cons,
      seqElements_write writeF64 (write_eq_cons writeF64 (hr y (.head _))),
      hy y (.head _) _ (endsNumber_writeElements writeF64 _ rest), ok_bind]
    dsimp only
    rw [ih (fun z hz => hr z (.tail _ hz)) (fun z hz => hy z (.tail _ hz)) (by simpa using hn),
      error_bind]

/-- The object loop reads back the members the writer wrote, whatever their keys. -/
theorem mapEntries_writeMembers {es : List (String × Content)} (hr : ∀ e ∈ es, Readable d e.2)
    (hx : ∀ e ∈ es, ∀ rest, endsNumber rest = true →
      elem (write writeF64 e.2 ++ rest) = .ok (e.2, rest)) :
    ∀ {n first rest}, es.length < n →
      mapEntries elem n first (writeMembers writeF64 first es ++ rest) = .ok (es, rest) := by
  induction es with
  | nil =>
    intro n first rest hn
    obtain ⟨n, rfl⟩ : ∃ m, n = m + 1 := ⟨n - 1, by omega⟩
    rw [writeMembers, List.singleton_append, mapEntries, skipBlanks_cons (c := '}') rfl]
    rfl
  | cons e es ih =>
    intro n first rest hn
    obtain ⟨n, rfl⟩ : ∃ m, n = m + 1 := ⟨n - 1, by omega⟩
    obtain ⟨k, v⟩ := e
    rw [writeMembers_cons, mapEntries_write,
      hx _ (.head _) _ (endsNumber_writeMembers writeF64 es rest), ok_bind]
    dsimp only
    rw [ih (fun y hy => hr y (.tail _ hy)) (fun y hy => hx y (.tail _ hy)) (by simpa using hn)]
    rfl

/-- The object loop reads back the members written before one whose value `elem` refuses, then
stops with its error, whatever follows. -/
theorem mapEntries_writeMembers_error {fs gs : List (String × Content)} {k : String} {v : Content}
    {e : ErrorCode} (hr : ∀ f ∈ fs, Readable d f.2)
    (hf : ∀ f ∈ fs, ∀ rest, endsNumber rest = true →
      elem (write writeF64 f.2 ++ rest) = .ok (f.2, rest))
    (hv : ∀ rest, elem (write writeF64 v ++ rest) = .error e) :
    ∀ {n first rest}, fs.length < n →
      mapEntries elem n first (writeMembers writeF64 first (fs ++ (k, v) :: gs) ++ rest) =
        .error e := by
  induction fs with
  | nil =>
    intro n first rest hn
    obtain ⟨n, rfl⟩ : ∃ m, n = m + 1 := ⟨n - 1, by omega⟩
    rw [List.nil_append, writeMembers_cons, mapEntries_write, hv, error_bind]
  | cons f fs ih =>
    intro n first rest hn
    obtain ⟨n, rfl⟩ : ∃ m, n = m + 1 := ⟨n - 1, by omega⟩
    obtain ⟨k', v'⟩ := f
    rw [List.cons_append, writeMembers_cons, mapEntries_write,
      hf _ (.head _) _ (endsNumber_writeMembers writeF64 _ rest), ok_bind]
    dsimp only
    rw [ih (fun g hg => hr g (.tail _ hg)) (fun g hg => hf g (.tail _ hg)) (by simpa using hn),
      error_bind]

end Loops

/-- `serde_json` reads back every readable value it writes, before any text that cannot continue
it: an integer needs a following character that is no digit, point or exponent. -/
theorem parseValue_write (readF64 : List Char → Except ErrorCode (BitVec 64))
    (writeF64 : BitVec 64 → List Char) (d : Nat) :
    ∀ {c : Content}, Readable d c → ∀ {rest : List Char},
      (isInteger c = true → endsNumber rest = true) →
      parseValue readF64 d (write writeF64 c ++ rest) = .ok (c, rest) := by
  induction d using Nat.strong_induction_on with
  | _ d ih =>
  intro c hc rest hr
  cases c with
  | unit => rw [write, List.cons_append, parseValue_null, parseIdent_append]; rfl
  | bool b =>
    cases b
    · rw [write, if_neg Bool.false_ne_true, List.cons_append, parseValue_false, parseIdent_append]; rfl
    · rw [write, if_pos rfl, List.cons_append, parseValue_true, parseIdent_append]; rfl
  | u64 n =>
    obtain ⟨h, t, ht⟩ := List.exists_cons_of_ne_nil (decimal_ne_nil n.toNat)
    have hd := isDigit_of_mem_decimal (ht ▸ List.mem_cons_self h t)
    rw [write, ht, List.cons_append, parseValue_digit readF64 d _ hd, ← List.cons_append, ← ht]
    exact parseNumber_u64 readF64 n (hr rfl)
  | i64 n =>
    simp only [Readable] at hc
    rw [write, if_pos hc, List.cons_append, parseValue_minus]
    exact parseNumber_i64 readF64 n hc (hr rfl)
  | f64 => simp only [Readable] at hc
  | str s =>
    simp only [Readable] at hc
    rw [write, writeStr_append, parseValue_quote, parseStr_writeStr, map_ok]
    rw [show (⟨s.toList⟩ : String) = s from rfl, hc]
    rfl
  | string s =>
    simp only [Readable] at hc
    rw [write, writeStr_append, parseValue_quote, parseStr_writeStr, map_ok]
    rw [show (⟨s.toList⟩ : String) = s from rfl, hc]
    rfl
  | seq xs =>
    cases d with
    | zero => simp only [Readable] at hc
    | succ d =>
      simp only [Readable] at hc
      have hn := length_le_writeElements writeF64 true xs
      rw [write, List.cons_append, parseValue_bracket, seqElements_writeElements writeF64 hc
        (fun x hx _ hr' => ih d (Nat.lt_succ_self d) (hc x hx) fun _ => hr')
        (by rw [List.length_append]; omega), map_ok]
  | map es =>
    cases d with
    | zero => simp only [Readable] at hc
    | succ d =>
      simp only [Readable] at hc
      have hn := length_le_writeMembers writeF64 true es
      rw [write, List.cons_append, parseValue_brace, mapEntries_writeMembers writeF64 hc
        (fun e he _ hr' => ih d (Nat.lt_succ_self d) (hc e he) fun _ => hr')
        (by rw [List.length_append]; omega), map_ok]

/-- `serde_json` refuses as too deep the text of every value that opens more containers than the
parser has left, wherever the deepest one stands, whatever text follows: the values before it are
read back, and nothing after it is read. -/
theorem parseValue_write_tooDeep (readF64 : List Char → Except ErrorCode (BitVec 64))
    (writeF64 : BitVec 64 → List Char) (d : Nat) :
    ∀ {c : Content}, TooDeep d c → ∀ rest : List Char,
      parseValue readF64 d (write writeF64 c ++ rest) = .error .recursionLimitExceeded := by
  induction d with
  | zero =>
    intro c hc rest
    cases c with
    | seq => rw [write, List.cons_append, parseValue.eq_1, skipBlanks_cons (c := '[') rfl]; rfl
    | map => rw [write, List.cons_append, parseValue.eq_1, skipBlanks_cons (c := '{') rfl]; rfl
    | _ => simp only [TooDeep] at hc
  | succ d ih =>
    intro c hc rest
    have hy : ∀ {y : Content}, Readable d y → ∀ rest, endsNumber rest = true →
        parseValue readF64 d (write writeF64 y ++ rest) = .ok (y, rest) :=
      fun hy _ hr => parseValue_write readF64 writeF64 d hy fun _ => hr
    cases c with
    | seq xs =>
      obtain ⟨ys, x, zs, rfl, hr, hx⟩ := hc
      have hn := length_le_writeElements writeF64 true (ys ++ x :: zs)
      rw [write, List.cons_append, parseValue_bracket,
        seqElements_writeElements_error writeF64 hr (fun y hy' => hy (hr y hy'))
          (write_eq_cons_of_tooDeep writeF64 hx) (ih hx)
          (by simp only [List.length_append, List.length_cons] at hn ⊢; omega), map_error]
    | map es =>
      obtain ⟨fs, k, v, gs, rfl, hr, hv⟩ := hc
      have hn := length_le_writeMembers writeF64 true (fs ++ (k, v) :: gs)
      rw [write, List.cons_append, parseValue_brace,
        mapEntries_writeMembers_error writeF64 hr (fun f hf => hy (hr f hf)) (ih hv)
          (by simp only [List.length_append, List.length_cons] at hn ⊢; omega), map_error]
    | _ => simp only [TooDeep] at hc

/-- `serde_json::from_str` of what `to_string` wrote, followed by any text that cannot continue
it: the decoder's verdict on the value, then the check that only blanks follow. -/
theorem fromStr_write {α : Type} (readF64 : List Char → Except ErrorCode (BitVec 64))
    (writeF64 : BitVec 64 → List Char) (decode : Content → Except Serde.Error α) {c : Content}
    (hc : Readable 127 c) {rest : List Char} (hr : isInteger c = true → endsNumber rest = true) :
    fromStr readF64 decode (write writeF64 c ++ rest) = (do
      let a ← (decode c).mapError .data
      if skipBlanks rest = [] then pure a else .error (.json .trailingCharacters)) := by
  rw [fromStr, parseValue_write readF64 writeF64 127 hc hr]
  rfl

end RevaultNet.Json
