/-
  ToolGateway.Gateway.Adapters

  The in-memory validator and secret resolver (`adapters/memory.py`), and a
  gateway that is built from them with the default timings.
-/

import ToolGateway.Python.Text
import ToolGateway.Gateway.Assembly

namespace ToolGateway

open Py

-- ============================================================================
-- MiniSchemaValidator
-- ============================================================================

namespace MiniSchemaValidator

/-- `_PY.get(v)`, as the test `isinstance(_, expected)`: a `bool` is an `int`. -/
def expected : Json → Except PyError (Option (Json → Bool))
  | .str "string" => .ok (some fun | .str _ => true | _ => false)
  | .str "integer" => .ok (some fun | .int _ | .bool _ => true | _ => false)
  | .str "number" => .ok (some fun | .int _ | .bool _ | .float _ => true | _ => false)
  | .str "boolean" => .ok (some fun | .bool _ => true | _ => false)
  | .str "object" => .ok (some fun | .dict _ => true | _ => false)
  | .str "array" => .ok (some fun | .list _ => true | _ => false)
  | .list _ | .dict _ => .error .typeError
  | _ => .ok none

/-- `arguments[key]` -/
def item (arguments : Json) (key : String) : Except PyError Json :=
  match arguments with
  | .dict fs =>
      match fs.lookup key with
      | some v => .ok v
      | none => .error .keyError
  | _ => .error .typeError

section
variable [PrintTables]

/-- One round over `required`. -/
def checkRequired (arguments key : Json) : Except PyError (Option String) := do
  if ← key.isIn arguments then return none
  else return some ("missing required field '" ++ key.toStr ++ "'")

/-- One round over `properties`: a property that is absent or has a type not in the table is
    left alone. -/
def checkProperty (arguments : Json) (key : String) (spec : Json) :
    Except PyError (Option String) := do
  if ← (Json.str key).isIn arguments then
    let declared ← spec.getD "type" .null
    match ← expected declared with
    | none => return none
    | some isInstance =>
        if isInstance (← item arguments key) then return none
        else return some ("field '" ++ key ++ "' must be " ++ declared.toStr)
  else return none

/-- `check_args(arguments, schema)` -/
def checkArgs (arguments schema : Json) : Except PyError (List String) :=
  if schema.truthy then do
    let required ← (← schema.getD "required" (.list [])).iter
    let missing ← required.mapM (checkRequired arguments)
    let properties ← schema.getD "properties" .null
    let declared ←
      if properties.truthy then
        match properties with
        | .dict fs => .ok fs
        | _ => .error .attributeError
      else .ok []
    let mistyped ← declared.mapM fun p => checkProperty arguments p.1 p.2
    return (missing ++ mistyped).reduceOption
  else .ok []

end

end MiniSchemaValidator

-- ============================================================================
-- DictSecretResolver
-- ============================================================================

namespace DictSecretResolver

/-- What a reference to a secret starts with. -/
def SCHEME : String := "secret://"

/-- One argument: the secret a ref stands for, and the ref. -/
def resolve (secrets : Dict String) (value : Json) : Except Exc (Json × Option String) :=
  match value with
  | .str s =>
      if SCHEME.toList <+: s.toList then
        let ref := String.ofList (s.toList.drop SCHEME.length)
        match secrets.lookup ref with
        | some secret => .ok (.str secret, some ref)
        | none => .error (.gateway (.secretRefMissing [ref]))
      else .ok (value, none)
  | _ => .ok (value, none)

/-- `materialize(arguments, …)` -/
def materialize (secrets : Dict String) (arguments : Json) : Except Exc (Json × List String) :=
  match arguments with
  | .dict fs => do
      let resolved ← fs.mapM fun f => do return (f.1, ← resolve secrets f.2)
      return (.dict (resolved.map fun f => (f.1, f.2.1)), (resolved.map fun f => f.2.2).reduceOption)
  | _ => .error (.python .attributeError)

/-- A text contains an active secret. -/
def Leaks (secrets : Dict String) (text : String) : Prop :=
  ∃ ref secret, (ref, secret) ∈ secrets ∧ secret ≠ "" ∧ secret.toList <:+: text.toList

instance (secrets : Dict String) (text : String) : Decidable (Leaks secrets text) :=
  decidable_of_iff (∃ s ∈ secrets, s.2 ≠ "" ∧ s.2.toList <:+: text.toList)
    ⟨fun ⟨s, hmem, h⟩ => ⟨s.1, s.2, hmem, h⟩, fun ⟨ref, secret, hmem, h⟩ => ⟨(ref, secret), hmem, h⟩⟩

/-- What a leak is reported as; it does not name the secret. -/
def LEAK : String := "upstream echoed an active secret"

/-- `redact(result, …)` -/
def redact [PrintTables] (secrets : Dict String) (r : ToolResult) : Except Exc ToolResult :=
  if Leaks secrets r.content.toStr then .error (.gateway (.secretLeak LEAK)) else .ok r

end DictSecretResolver

/-- A gateway over the in-memory adapters: a caller waits five minutes for its
    approval and rereads the ticket every five seconds; claims are stale after ten
    minutes. -/
def inMemory [PrintTables] (secrets : Dict String) : Settings where
  checkArgs := MiniSchemaValidator.checkArgs
  redact r _ := DictSecretResolver.redact secrets r
  limited := false
  gate := { timeout := 300000000, lease := 600000000, notifies := false, rechecks := 61 }

end ToolGateway
