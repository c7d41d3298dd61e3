/-
  ToolGateway.Python.Text

  Python's printed forms: `repr` and `str` of JSON values.  Strings inside a
  container are quoted and escaped.  Two tables of the interpreter are left as
  parameters: which characters outside ASCII are printable (the Unicode
  database) and the shortest decimal form of a float.
-/

import ToolGateway.Python.Value

namespace Py

/-- Printing tables of the interpreter. -/
class PrintTables where
  /-- `str.isprintable` of one character outside ASCII. -/
  isPrintable : Char → Bool
  /-- `repr` of a float. -/
  floatRepr : Float64 → String

/-- Tables for texts without printable characters outside ASCII, whose floats are
    whole numbers below `10 ^ 16`. -/
@[reducible] def PrintTables.ascii : PrintTables where
  isPrintable _ := false
  floatRepr
    | .nan => "nan"
    | .inf neg => if neg then "-inf" else "inf"
    | .fin q => toString q.num ++ ".0"

/-- The last `width` hexadecimal digits of `n`, lower case. -/
def hexDigits : ℕ → ℕ → List Char
  | 0, _ => []
  | width + 1, n => hexDigits width (n / 16) ++ [Nat.digitChar (n % 16)]

/-- The quote `repr` puts around a string. -/
def quoteOf (cs : List Char) : Char :=
  if cs.contains '\'' && !cs.contains '"' then '"' else '\''

section
variable [PrintTables]

/-- One character of a quoted string. -/
def reprChar (quote c : Char) : List Char :=
  let n := c.toNat
  if c == quote || c == '\\' then ['\\', c]
  else if c == '\t' then ['\\', 't']
  else if c == '\n' then ['\\', 'n']
  else if c == '\r' then ['\\', 'r']
  else if n < 0x20 || n == 0x7f then '\\' :: 'x' :: hexDigits 2 n
  else if n < 0x7f then [c]
  else if PrintTables.isPrintable c then [c]
  else if n ≤ 0xff then '\\' :: 'x' :: hexDigits 2 n
  else if n ≤ 0xffff then '\\' :: 'u' :: hexDigits 4 n
  else '\\' :: 'U' :: hexDigits 8 n

/-- `repr` of a string. -/
def strRepr (s : String) : String :=
  let q := quoteOf s.toList
  String.ofList (q :: (s.toList.flatMap (reprChar q)) ++ [q])

namespace Json

mutual

/-- `repr(v)`. -/
def repr : Json → String
  | null => "None"
  | bool b => if b then "True" else "False"
  | int n => toString n
  | float f => PrintTables.floatRepr f
  | str s => strRepr s
  | list xs => "[" ++ ", ".intercalate (reprList xs) ++ "]"
  | dict fs => "\x7b" ++ ", ".intercalate (reprFields fs) ++ "\x7d"

/-- The items of a list, each as `repr` prints it. -/
def reprList : List Json → List String
  | [] => []
  | x :: xs => repr x :: reprList xs

/-- The fields of an object, each as `repr` prints it. -/
def reprFields : List (String × Json) → List String
  | [] => []
  | (k, v) :: fs => (strRepr k ++ ": " ++ repr v) :: reprFields fs

end

/-- `str(v)`: a string is itself, any other value its `repr`. -/
def toStr : Json → String
  | str s => s
  | v => v.repr

end Json

end

/-- `s.partition(".")`, without the separator: what stands before and after the
    first dot. -/
def partitionDot (s : String) : String × String :=
  let (before, rest) := s.toList.span (· != '.')
  (String.ofList before, String.ofList rest.tail)

/-- What stands before the first dot has none. -/
theorem dot_notMem_partitionDot (s : String) : '.' ∉ (partitionDot s).1.toList := by
  have hall : (s.toList.takeWhile (· != '.')).all (· != '.') = true := List.all_takeWhile
  intro hdot
  have hmem : '.' ∈ s.toList.takeWhile (· != '.') := by
    simpa [partitionDot, List.span_eq_takeWhile_dropWhile] using hdot
  have hne := List.all_eq_true.mp hall '.' hmem
  simp at hne

/-- A text without a dot, joined to another by one, is split off again. -/
theorem partitionDot_join {before : String} (h : '.' ∉ before.toList) (after : String) :
    partitionDot (before ++ "." ++ after) = (before, after) := by
  have hall : ∀ c ∈ before.toList, (c != '.') = true := by
    intro c hc
    have hne : c ≠ '.' := fun heq => h (heq ▸ hc)
    simpa using hne
  have htoList : (before ++ "." ++ after).toList = before.toList ++ '.' :: after.toList := by
    simp [String.toList_append]
  rw [partitionDot, htoList, List.span_eq_takeWhile_dropWhile, List.takeWhile_append_of_pos hall,
    List.dropWhile_append_of_pos hall]
  simp

end Py
