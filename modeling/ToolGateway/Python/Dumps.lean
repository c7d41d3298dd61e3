/-
  ToolGateway.Python.Dumps

  `json.dumps`, on one line and with `indent=2`.  The text is ASCII: any other
  character is escaped, those outside the basic plane as a surrogate pair.
-/

import ToolGateway.Python.Text

namespace Py

/-- The bytes of a file or of a message body. -/
abbrev Bytes := List UInt8

/-- `text.encode()` of an ASCII text. -/
def encodeAscii (cs : List Char) : Bytes := cs.map fun c => UInt8.ofNat c.toNat

/-- `\uXXXX` -/
def unicodeEscape (n : ℕ) : List Char := '\\' :: 'u' :: hexDigits 4 n

/-- One character of a JSON string. -/
def jsonChar (c : Char) : List Char :=
  let n := c.toNat
  if c == '"' || c == '\\' then ['\\', c]
  else if c == '\n' then ['\\', 'n']
  else if c == '\r' then ['\\', 'r']
  else if c == '\t' then ['\\', 't']
  else if n == 8 then ['\\', 'b']
  else if n == 12 then ['\\', 'f']
  else if 0x20 ≤ n && n < 0x7f then [c]
  else if n < 0x10000 then unicodeEscape n
  else
    let high := 0xd800 + (n - 0x10000) / 0x400
    let low := 0xdc00 + (n - 0x10000) % 0x400
    unicodeEscape high ++ unicodeEscape low

/-- A JSON string, quotes included. -/
def jsonString (s : String) : List Char := '"' :: s.toList.flatMap jsonChar ++ ['"']

/-- The break before an item at this depth; on one line there is none. -/
def lineBreak : Option ℕ → List Char
  | none => []
  | some depth => '\n' :: List.replicate (2 * depth) ' '

/-- What stands between two items at this depth. -/
def itemSeparator : Option ℕ → List Char
  | none => [',', ' ']
  | some depth => ',' :: lineBreak (some depth)

/-- The items of a container whose closing bracket stands at depth `level`. -/
def enclose (opening closing : Char) (level : Option ℕ) (items : List (List Char)) : List Char :=
  if items.isEmpty then [opening, closing]
  else
    let inner := level.map (· + 1)
    opening :: lineBreak inner ++ (itemSeparator inner).intercalate items
      ++ lineBreak level ++ [closing]

section
variable [PrintTables]

namespace Json

/-- The JSON text of a number that is not an `int`. -/
def floatText : Float64 → String
  | .nan => "NaN"
  | .inf neg => if neg then "-Infinity" else "Infinity"
  | f => PrintTables.floatRepr f

mutual

/-- `json.dumps(v)` at a nesting depth; `none` writes everything on one line. -/
def textAt (level : Option ℕ) : Json → List Char
  | null => "null".toList
  | bool b => if b then "true".toList else "false".toList
  | int n => (toString n).toList
  | float f => (floatText f).toList
  | str s => jsonString s
  | list xs => enclose '[' ']' level (itemsAt (level.map (· + 1)) xs)
  | dict fs => enclose '\x7b' '\x7d' level (fieldsAt (level.map (· + 1)) fs)

/-- The items of a list, each with its text. -/
def itemsAt (level : Option ℕ) : List Json → List (List Char)
  | [] => []
  | x :: xs => textAt level x :: itemsAt level xs

/-- The fields of an object, each with its text. -/
def fieldsAt (level : Option ℕ) : List (String × Json) → List (List Char)
  | [] => []
  | (k, v) :: fs => (jsonString k ++ ':' :: ' ' :: textAt level v) :: fieldsAt level fs

end

/-- `json.dumps(v)` -/
def dumps (v : Json) : String := String.ofList (textAt none v)

/-- `json.dumps(v, indent=2).encode()` -/
def dumpsIndented (v : Json) : Bytes := encodeAscii (textAt (some 0) v)

/-- The text of an object is not empty. -/
theorem dumpsIndented_dict_ne_nil (fs : Fields) : dumpsIndented (.dict fs) ≠ [] := by
  have htext : textAt (some 0) (.dict fs) ≠ [] := by
    unfold textAt enclose
    split
    · exact List.cons_ne_nil _ _
    · exact fun h => List.cons_ne_nil _ _ h
  intro h
  exact htext (List.map_eq_nil_iff.mp h)

/-- The text of an object up to the field behind these. -/
def textBefore (fs : Fields) : List Char :=
  '\x7b' :: fs.flatMap fun f => jsonString f.1 ++ ':' :: ' ' :: (textAt none f.2 ++ [',', ' '])

theorem fieldsAt_ne_nil (level : Option ℕ) (fs : Fields) (f : String × Json) (more : Fields) :
    fieldsAt level (fs ++ f :: more) ≠ [] := by
  cases fs with
  | nil => exact List.cons_ne_nil _ _
  | cons g fs => exact List.cons_ne_nil _ _

theorem intercalate_fieldsAt (fs : Fields) (f : String × Json) (more : Fields) :
    [',', ' '].intercalate (fieldsAt none (fs ++ f :: more)) =
      (fs.flatMap fun f => jsonString f.1 ++ ':' :: ' ' :: (textAt none f.2 ++ [',', ' '])) ++
        [',', ' '].intercalate (fieldsAt none (f :: more)) := by
  induction fs with
  | nil => rfl
  | cons g fs ih =>
      rw [List.cons_append, fieldsAt,
        List.intercalate_cons_of_ne_nil (fieldsAt_ne_nil none fs f more), ih]
      simp

/-- The text of an object begins with its first fields. -/
theorem textBefore_prefix (fs : Fields) (f : String × Json) (more : Fields) :
    textBefore fs <+: textAt none (.dict (fs ++ f :: more)) := by
  have hempty : (fieldsAt none (fs ++ f :: more)).isEmpty = false :=
    List.isEmpty_eq_false_iff.mpr (fieldsAt_ne_nil none fs f more)
  refine ⟨[',', ' '].intercalate (fieldsAt none (f :: more)) ++ ['\x7d'], ?_⟩
  simp [textAt, enclose, hempty, textBefore, lineBreak, itemSeparator, intercalate_fieldsAt]

end Json

end

example : @Json.dumps .ascii (.dict [("a", .list [.int 1, .null]), ("b", .str "é\n")])
    = "\x7b\"a\": [1, null], \"b\": \"\\u00e9\\n\"\x7d" := by
  decide

end Py
