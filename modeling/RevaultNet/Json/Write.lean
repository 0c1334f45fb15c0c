import Mathlib.Data.Nat.Digits
import RevaultNet.Serde.Content

/-! # `serde_json`'s writer

`serde_json::to_string`, with its `CompactFormatter`, on the values the messages serialize to
(`Codec.serialize` gives the value the text is read back as; the writer writes a lent and a
copied string alike):

* `escapeOf`, `writeCharEscape`, `writeStr`: `format_escaped_str` with the `ESCAPE` table. A
  quote, a backslash and the control characters below `0x20` are escaped, five of them by a
  letter and the others as `\u00XX` in lowercase hex: exactly the characters `needsEscape`
  names (`escapeOf_isSome`).
* `decimal`: `itoa` for the integers, most significant digit first.
* `write`: arrays and objects without blanks, members in order, `null`, `true` and `false`.
  A float is written by `ryu`, which no message uses and which is a parameter here.
-/

namespace RevaultNet.Json
open Serde
set_option autoImplicit false

/-! ## Strings -/

/-- `ESCAPE` of the writer: the letter of a character's escape (`u` for the control characters
without a short form), or none when the character is written as it is. -/
def escapeOf (c : Char) : Option Char :=
  if c = '"' then some '"'
  else if c = '\\' then some '\\'
  else if c = '\x08' then some 'b'
  else if c = '\t' then some 't'
  else if c = '\n' then some 'n'
  else if c = '\x0c' then some 'f'
  else if c = '\r' then some 'r'
  else if c.toNat < 0x20 then some 'u'
  else none

/-- `write_char_escape` of the `CompactFormatter`: `\u00` and two lowercase hex digits for a
control character, the backslash and the letter for the others. -/
def writeCharEscape (e c : Char) : List Char :=
  if e = 'u' then ['\\', 'u', '0', '0', Hex.digitChar (c.toNat / 16), Hex.digitChar (c.toNat % 16)]
  else ['\\', e]

/-- One character of `format_escaped_str_contents`. -/
def escapeChar (c : Char) : List Char :=
  match escapeOf c with
  | some e => writeCharEscape e c
  | none => [c]

/-- `format_escaped_str`: the string between quotes, its characters escaped. -/
def writeStr (s : String) : List Char := '"' :: s.toList.flatMap escapeChar ++ ['"']

theorem escapeOf_isSome (c : Char) :
    (escapeOf c).isSome = (c.toNat < 0x20 || c = '"' || c = '\\') := by
  unfold escapeOf
  split_ifs <;> subst_vars <;> simp_all

/-- A character without an escape is written as it is. -/
theorem escapeChar_of_escapeOf_none {c : Char} (h : escapeOf c = none) : escapeChar c = [c] := by
  simp [escapeChar, h]

/-! ## Integers -/

/-- `itoa`: the decimal digits of `n`, most significant first. -/
def decimal (n : Nat) : List Char := Nat.toDigits 10 n

theorem toDigitsCore_eq_digits {f n : Nat} (hn : 0 < n) (hf : n < f) (ds : List Char) :
    Nat.toDigitsCore 10 f n ds = (Nat.digits 10 n).reverse.map Nat.digitChar ++ ds := by
  induction f generalizing n ds with
  | zero => omega
  | succ f ih =>
    rw [Nat.toDigitsCore, Nat.digits_def' (by decide) hn]
    by_cases hq : n / 10 = 0
    · simp [hq]
    · simp only [hq, if_false, List.reverse_cons, List.map_append, List.append_assoc]
      rw [ih (Nat.pos_of_ne_zero hq) (by omega)]
      rfl

/-- `itoa` of a positive integer is its `Nat.digits`, most significant first. -/
theorem decimal_of_pos {n : Nat} (hn : 0 < n) :
    decimal n = (Nat.digits 10 n).reverse.map Nat.digitChar := by
  rw [decimal, Nat.toDigits, toDigitsCore_eq_digits hn (Nat.lt_succ_self n), List.append_nil]

@[simp] theorem decimal_zero : decimal 0 = ['0'] := rfl

/-! ## Values -/

mutual
/-- `serde_json::to_string` of a value whose serialization is `c`; `writeF64` is `serialize_f64`. -/
def write (writeF64 : BitVec 64 → List Char) : Content → List Char
  | .unit => ['n', 'u', 'l', 'l']
  | .bool b => if b then ['t', 'r', 'u', 'e'] else ['f', 'a', 'l', 's', 'e']
  | .u64 n => decimal n.toNat
  | .i64 n => if n.toInt < 0 then '-' :: decimal n.toInt.natAbs else decimal n.toNat
  | .f64 x => writeF64 x
  | .str s | .string s => writeStr s
  | .seq xs => '[' :: writeElements writeF64 true xs
  | .map es => '{' :: writeMembers writeF64 true es
termination_by structural c => c

/-- The elements of an array after its `[`, each but the first after a comma, then the `]`
(`SerializeSeq` of a `Compound` whose state is `First` or `Rest`). -/
def writeElements (writeF64 : BitVec 64 → List Char) (first : Bool) : List Content → List Char
  | [] => [']']
  | x :: xs => (if first then [] else [',']) ++ write writeF64 x ++ writeElements writeF64 false xs
termination_by structural xs => xs

/-- The members of an object after its `{`, each a key, a colon and the value, then the `}`. -/
def writeMembers (writeF64 : BitVec 64 → List Char) (first : Bool) :
    List (String × Content) → List Char
  | [] => ['}']
  | (k, v) :: es =>
    (if first then [] else [',']) ++ writeStr k ++ ':' :: write writeF64 v ++
      writeMembers writeF64 false es
termination_by structural es => es
end

example : write (fun _ => []) (.map [("ack", .bool true), ("id", .seq [])]) =
    "\x7b\"ack\":true,\"id\":[]\x7d".toList := by decide

end RevaultNet.Json
