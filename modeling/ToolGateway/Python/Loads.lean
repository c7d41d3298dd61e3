/-
  ToolGateway.Python.Loads

  `json.loads`, as the interpreter's scanner goes through a text: strings with
  their escapes, numbers, literals, lists and objects, where a key that comes
  again takes the place of the first.

  Each scanner returns what it reads at the front of a text, and the rest of the
  text.  The scanner of values is given fuel; `scanText` gives it enough for any text
  (`scanText_ne_fuel`).  Bytes are decoded before, as UTF-8, UTF-16 or UTF-32.
-/

import ToolGateway.Python.Dumps
import ToolGateway.Python.Same

namespace Py

/-- Why a text is not read. -/
inductive LoadsError where
  /-- JSONDecodeError, UnicodeDecodeError, or an `int` of too many digits -/
  | valueError
  /-- half of a surrogate pair, which the strings here do not have -/
  | loneSurrogate
  /-- never the answer of `scanText` -/
  | fuel
deriving DecidableEq, Repr

-- ============================================================================
-- Strings
-- ============================================================================

/-- The value of a hexadecimal digit. -/
def hexVal? (c : Char) : Option ℕ :=
  if '0' ≤ c ∧ c ≤ '9' then some (c.toNat - '0'.toNat)
  else if 'a' ≤ c ∧ c ≤ 'f' then some (c.toNat - 'a'.toNat + 10)
  else if 'A' ≤ c ∧ c ≤ 'F' then some (c.toNat - 'A'.toNat + 10)
  else none

/-- Four hexadecimal digits. -/
def scanHex4 : List Char → Except LoadsError (ℕ × List Char)
  | a :: b :: c :: d :: cs =>
      match hexVal? a, hexVal? b, hexVal? c, hexVal? d with
      | some a, some b, some c, some d => .ok (((a * 16 + b) * 16 + c) * 16 + d, cs)
      | _, _, _, _ => .error .valueError
  | _ => .error .valueError

/-- The escapes of one letter. -/
def letterEscape? : Char → Option Char
  | '"' => some '"'
  | '\\' => some '\\'
  | '/' => some '/'
  | 'b' => some (Char.ofNat 8)
  | 'f' => some (Char.ofNat 12)
  | 'n' => some '\n'
  | 'r' => some '\r'
  | 't' => some '\t'
  | _ => none

/-- The second half of a pair whose first half is `high`. -/
def scanLowHalf (high : ℕ) : List Char → Except LoadsError (Char × List Char)
  | '\\' :: 'u' :: cs => do
      let (low, cs) ← scanHex4 cs
      if 0xdc00 ≤ low ∧ low < 0xe000 then
        .ok (Char.ofNat (0x10000 + (high - 0xd800) * 0x400 + (low - 0xdc00)), cs)
      else .error .loneSurrogate
  | _ => .error .loneSurrogate

/-- An escape, behind its backslash. -/
def scanEscape : List Char → Except LoadsError (Char × List Char)
  | 'u' :: cs => do
      let (n, cs) ← scanHex4 cs
      if 0xd800 ≤ n ∧ n < 0xdc00 then scanLowHalf n cs
      else if 0xdc00 ≤ n ∧ n < 0xe000 then .error .loneSurrogate
      else .ok (Char.ofNat n, cs)
  | c :: cs =>
      match letterEscape? c with
      | some e => .ok (e, cs)
      | none => .error .valueError
  | [] => .error .valueError

/-- The next character of a string; none at the closing quote. -/
def scanChar : List Char → Except LoadsError (Option Char × List Char)
  | [] => .error .valueError
  | '"' :: cs => .ok (none, cs)
  | '\\' :: cs => do
      let (c, cs) ← scanEscape cs
      .ok (some c, cs)
  | c :: cs => if c.toNat < 0x20 then .error .valueError else .ok (some c, cs)

/-- The characters up to the closing quote. -/
def scanChars : ℕ → List Char → Except LoadsError (List Char × List Char)
  | 0, _ => .error .fuel
  | fuel + 1, cs => do
      match ← scanChar cs with
      | (none, rest) => .ok ([], rest)
      | (some c, rest) =>
          let (s, rest) ← scanChars fuel rest
          .ok (c :: s, rest)

/-- A string, behind its opening quote. -/
def scanString (cs : List Char) : Except LoadsError (String × List Char) := do
  let (s, rest) ← scanChars (cs.length + 1) cs
  .ok (String.ofList s, rest)

-- ============================================================================
-- Numbers and literals
-- ============================================================================

/-- `-?` -/
def minusPart : List Char → List Char × List Char
  | '-' :: cs => (['-'], cs)
  | cs => ([], cs)

/-- `0|[1-9][0-9]*`, or nothing. -/
def wholePart : List Char → List Char × List Char
  | '0' :: cs => (['0'], cs)
  | cs => cs.span Char.isDigit

/-- `(\.[0-9]+)?` -/
def fractionPart (cs : List Char) : List Char × List Char :=
  match cs with
  | '.' :: rest =>
      let (ds, rest) := rest.span Char.isDigit
      if ds.isEmpty then ([], cs) else ('.' :: ds, rest)
  | _ => ([], cs)

/-- `([eE][-+]?[0-9]+)?` -/
def exponentSuffix (cs : List Char) : List Char × List Char :=
  match cs with
  | c :: rest =>
      if c = 'e' ∨ c = 'E' then
        let (sign, rest) := match rest with
          | '-' :: r => (['-'], r)
          | '+' :: r => (['+'], r)
          | r => ([], r)
        let (ds, rest) := rest.span Char.isDigit
        if ds.isEmpty then ([], cs) else (c :: sign ++ ds, rest)
      else ([], cs)
  | [] => ([], cs)

/-- The most digits `int()` reads. -/
def maxIntDigits : ℕ := 4300

/-- A number: an `int` when it has neither fraction nor exponent. -/
def scanNumber (cs : List Char) : Except LoadsError (Json × List Char) :=
  let (sign, cs) := minusPart cs
  let (whole, cs) := wholePart cs
  let (fraction, cs) := fractionPart cs
  let (exponent, cs) := exponentSuffix cs
  if whole.isEmpty then .error .valueError
  else if fraction.isEmpty && exponent.isEmpty then
    if maxIntDigits < whole.length then .error .valueError
    else
      let n : ℤ := digitsToNat whole
      .ok (.int (if sign.isEmpty then n else -n), cs)
  else
    match floatOfStr (String.ofList (sign ++ whole ++ fraction ++ exponent)) with
    | .ok f => .ok (.float f, cs)
    | .error _ => .error .valueError

/-- The words that stand for a value. -/
def literals : List (String × Json) :=
  [("null", .null), ("true", .bool true), ("false", .bool false), ("NaN", .float .nan),
   ("Infinity", .float (.inf false)), ("-Infinity", .float (.inf true))]

/-- A literal at the front of the text. -/
def scanLiteral? (cs : List Char) : Option (Json × List Char) :=
  literals.findSome? fun w =>
    if w.1.toList <+: cs then some (w.2, cs.drop w.1.toList.length) else none

-- ============================================================================
-- Values
-- ============================================================================

/-- What may stand between two tokens. -/
def isJsonSpace (c : Char) : Bool := c == ' ' || c == '\t' || c == '\n' || c == '\r'

/-- Go to the next token. -/
def skipSpaces (cs : List Char) : List Char := cs.dropWhile isJsonSpace

mutual

/-- `scan_once` -/
def scanValue : ℕ → List Char → Except LoadsError (Json × List Char)
  | 0, _ => .error .fuel
  | fuel + 1, cs =>
      match cs with
      | '"' :: cs => do
          let (s, rest) ← scanString cs
          .ok (.str s, rest)
      | '[' :: cs =>
          match skipSpaces cs with
          | ']' :: rest => .ok (.list [], rest)
          | cs => do
              let (xs, rest) ← scanItems fuel cs
              .ok (.list xs, rest)
      | '\x7b' :: cs =>
          match skipSpaces cs with
          | '\x7d' :: rest => .ok (.dict [], rest)
          | cs => do
              let (fs, rest) ← scanFields fuel [] cs
              .ok (.dict fs, rest)
      | cs =>
          match scanLiteral? cs with
          | some r => .ok r
          | none => scanNumber cs

/-- The items of a list, up to its closing bracket. -/
def scanItems : ℕ → List Char → Except LoadsError (List Json × List Char)
  | 0, _ => .error .fuel
  | fuel + 1, cs => do
      let (x, rest) ← scanValue fuel cs
      match skipSpaces rest with
      | ']' :: rest => .ok ([x], rest)
      | ',' :: rest =>
          let (xs, rest) ← scanItems fuel (skipSpaces rest)
          .ok (x :: xs, rest)
      | _ => .error .valueError

/-- The items of an object, put into `fs`, up to its closing brace. -/
def scanFields : ℕ → Fields → List Char → Except LoadsError (Fields × List Char)
  | 0, _, _ => .error .fuel
  | fuel + 1, fs, cs =>
      match cs with
      | '"' :: cs => do
          let (k, rest) ← scanString cs
          match skipSpaces rest with
          | ':' :: rest =>
              let (v, rest) ← scanValue fuel (skipSpaces rest)
              match skipSpaces rest with
              | '\x7d' :: rest => .ok (Dict.set fs k v, rest)
              | ',' :: rest => scanFields fuel (Dict.set fs k v) (skipSpaces rest)
              | _ => .error .valueError
          | _ => .error .valueError
      | _ => .error .valueError

end

/-- `json.loads` of a text: one value, and nothing behind it. -/
def scanText (cs : List Char) : Except LoadsError Json := do
  let (v, rest) ← scanValue (2 * cs.length + 1) (skipSpaces cs)
  if (skipSpaces rest).isEmpty then .ok v else .error .valueError

-- ============================================================================
-- Bytes
-- ============================================================================

/-- What `json.detect_encoding` finds. -/
inductive Encoding where
  | utf8
  | utf16 (bigEndian : Bool)
  | utf32 (bigEndian : Bool)
deriving DecidableEq

/-- `json.detect_encoding`: by the mark at the front, or by where the first bytes are zero. -/
def detectEncoding : Bytes → Encoding
  | 0x00 :: 0x00 :: 0xfe :: 0xff :: _ => .utf32 true
  | 0xff :: 0xfe :: 0x00 :: 0x00 :: _ => .utf32 false
  | 0xfe :: 0xff :: _ => .utf16 true
  | 0xff :: 0xfe :: _ => .utf16 false
  | a :: b :: c :: d :: _ =>
      if a = 0 then if b = 0 then .utf32 true else .utf16 true
      else if b = 0 then if c = 0 ∧ d = 0 then .utf32 false else .utf16 false
      else .utf8
  | [a, b] => if a = 0 then .utf16 true else if b = 0 then .utf16 false else .utf8
  | _ => .utf8

/-- The number that the bytes stand for, the first of them highest. -/
def bytesToNat (bytes : Bytes) : ℕ := bytes.foldl (fun n b => 256 * n + b.toNat) 0

/-- The code units of two bytes each; none where one is cut off. -/
def codeUnits (bigEndian : Bool) : Bytes → Option (List ℕ)
  | [] => some []
  | [_] => none
  | a :: b :: bs =>
      let n := bytesToNat (if bigEndian then [a, b] else [b, a])
      (codeUnits bigEndian bs).map (n :: ·)

/-- The code points of four bytes each; none where one is cut off, or out of range. -/
def codePoints (bigEndian : Bool) : Bytes → Option (List ℕ)
  | [] => some []
  | a :: b :: c :: d :: bs =>
      let n := bytesToNat (if bigEndian then [a, b, c, d] else [d, c, b, a])
      if n < 0x110000 then (codePoints bigEndian bs).map (n :: ·) else none
  | _ => none

/-- The code points of code units: the two halves of a surrogate pair are one. -/
def pairUp : List ℕ → List ℕ
  | high :: low :: units =>
      if 0xd800 ≤ high ∧ high < 0xdc00 ∧ 0xdc00 ≤ low ∧ low < 0xe000 then
        (0x10000 + (high - 0xd800) * 0x400 + (low - 0xdc00)) :: pairUp units
      else high :: pairUp (low :: units)
  | units => units

/-- The characters, unless one is half of a surrogate pair. -/
def characters (points : List ℕ) : Except LoadsError (List Char) :=
  if points.any fun n => 0xd800 ≤ n && n < 0xe000 then .error .loneSurrogate
  else .ok (points.map Char.ofNat)

/-- The bytes with a `?` for each half of a surrogate pair in them. -/
def withoutHalves : Bytes → Bytes
  | a :: b :: c :: bs =>
      if a = 0xed ∧ 0xa0 ≤ b ∧ b ≤ 0xbf ∧ 0x80 ≤ c ∧ c ≤ 0xbf then 0x3f :: withoutHalves bs
      else a :: withoutHalves (b :: c :: bs)
  | bs => bs

/-- `raw.decode("utf-8", "surrogatepass")` -/
def decodeUtf8 (raw : Bytes) : Except LoadsError (List Char) :=
  match String.fromUTF8? ⟨raw.toArray⟩ with
  | some s => .ok s.toList
  | none =>
      if (String.fromUTF8? ⟨(withoutHalves raw).toArray⟩).isSome then .error .loneSurrogate
      else .error .valueError

/-- `raw.decode(encoding, "surrogatepass")` -/
def decode (raw : Bytes) : Encoding → Except LoadsError (List Char)
  | .utf8 => decodeUtf8 raw
  | .utf16 bigEndian =>
      match codeUnits bigEndian raw with
      | some units => characters (pairUp units)
      | none => .error .valueError
  | .utf32 bigEndian =>
      match codePoints bigEndian raw with
      | some points => characters points
      | none => .error .valueError

/-- The mark at the front is not part of the text. -/
def dropMark : List Char → List Char
  | c :: cs => if c.toNat = 0xfeff then cs else c :: cs
  | [] => []

/-- `json.loads(raw)` -/
def loads (raw : Bytes) : Except LoadsError Json :=
  match decode raw (detectEncoding raw) with
  | .ok cs => scanText (dropMark cs)
  | .error e => .error e

-- `"😀"` with its mark in UTF-16
example : ((codeUnits false [0xff, 0xfe, 0x22, 0, 0x3d, 0xd8, 0, 0xde, 0x22, 0]).map pairUp).map
    (fun points => dropMark (points.map Char.ofNat)) = some ['"', '😀', '"'] := by
  decide

end Py
