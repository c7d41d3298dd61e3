/-
  ToolGateway.Gateway.Schema

  What `MiniSchemaValidator` accepts, compared with a reference that reads the types
  of JSON Schema as JSON does.  The validator asks `isinstance`, and `bool` is a
  subclass of `int`: a property declared an integer or a number may hold a boolean.

  Over every schema of the documented subset and every arguments object, the two part
  exactly where a boolean stands for a number and nothing else is wrong.
-/

import Mathlib.Data.List.ReduceOption
import ToolGateway.Gateway.Adapters

namespace ToolGateway

open Py

-- ============================================================================
-- The types of JSON Schema
-- ============================================================================

/-- The types a property may declare. -/
inductive SchemaType where
  | string
  | integer
  | number
  | boolean
  | object
  | array
deriving DecidableEq

namespace SchemaType

/-- The type as a schema spells it. -/
def name : SchemaType → String
  | string => "string"
  | integer => "integer"
  | number => "number"
  | boolean => "boolean"
  | object => "object"
  | array => "array"

theorem name_injective {t t' : SchemaType} (h : t.name = t'.name) : t = t' := by
  cases t <;> cases t' <;> first | rfl | exact absurd h (by decide)

/-- The JSON value is of the type.  An integer is a number written without fraction
    or exponent; a boolean is neither an integer nor a number. -/
def Holds : SchemaType → Json → Prop
  | string, v => ∃ s, v = .str s
  | integer, v => ∃ n, v = .int n
  | number, v => (∃ n, v = .int n) ∨ ∃ f, v = .float f
  | boolean, v => ∃ b, v = .bool b
  | object, v => ∃ fs, v = .dict fs
  | array, v => ∃ xs, v = .list xs

/-- A boolean in the place of a number. -/
def Misread (t : SchemaType) (v : Json) : Prop := (t = integer ∨ t = number) ∧ ∃ b, v = .bool b

theorem Misread.not_holds {t : SchemaType} {v : Json} (h : t.Misread v) : ¬ t.Holds v := by
  obtain ⟨rfl | rfl, b, rfl⟩ := h
  · rintro ⟨n, hn⟩
    cases hn
  · rintro (⟨n, hn⟩ | ⟨f, hf⟩)
    · cases hn
    · cases hf

/-- The `isinstance` test of a type lets its values through, and booleans for numbers. -/
theorem expected_name (t : SchemaType) :
    ∃ isInstance, MiniSchemaValidator.expected (.str t.name) = .ok (some isInstance) ∧
      ∀ v, isInstance v = true ↔ t.Holds v ∨ t.Misread v := by
  cases t <;> refine ⟨_, rfl, ?_⟩ <;> intro v <;> cases v <;> simp [Holds, Misread]

end SchemaType

-- ============================================================================
-- The documented subset
-- ============================================================================

/-- A schema of the subset, taken apart: a list of required names, and properties
    whose type, if any, is one of the six. -/
structure DocumentedSchema (schema : Fields) where
  required : List String
  required_eq : (schema.lookup "required").getD (.list []) = .list (required.map .str)
  properties : Dict Fields
  properties_eq :
    (schema.lookup "properties").getD (.dict []) = .dict (properties.map fun p => (p.1, .dict p.2))
  typed : ∀ p ∈ properties, ∀ declared, p.2.lookup "type" = some declared →
    ∃ t : SchemaType, declared = .str t.name

namespace DocumentedSchema

variable {schema : Fields} (doc : DocumentedSchema schema)

/-- The arguments hold `value` under a property declared of type `t`. -/
def Declares (arguments : Fields) (t : SchemaType) (value : Json) : Prop :=
  ∃ p ∈ doc.properties, p.2.lookup "type" = some (.str t.name) ∧ arguments.lookup p.1 = some value

/-- The reference: every required name is present, and every present property with a
    declared type holds a JSON value of that type. -/
def Accepts (arguments : Fields) : Prop :=
  (∀ name ∈ doc.required, arguments.has name = true) ∧
    ∀ t value, doc.Declares arguments t value → t.Holds value

/-- Some present property declared an integer or a number holds a boolean. -/
def BooleanForNumber (arguments : Fields) : Prop :=
  ∃ t value, doc.Declares arguments t value ∧ t.Misread value

/-- Something else is wrong: a required name is missing, or a present property holds a
    value of another type than declared, and not a boolean for a number. -/
def OtherFault (arguments : Fields) : Prop :=
  (∃ name ∈ doc.required, arguments.has name = false) ∨
    ∃ t value, doc.Declares arguments t value ∧ ¬ t.Holds value ∧ ¬ t.Misread value

/-- What the validator lets through: the reference with booleans passing for numbers. -/
def Admits (arguments : Fields) : Prop :=
  (∀ name ∈ doc.required, arguments.has name = true) ∧
    ∀ t value, doc.Declares arguments t value → t.Holds value ∨ t.Misread value

theorem otherFault_iff (arguments : Fields) : doc.OtherFault arguments ↔ ¬ doc.Admits arguments := by
  simp only [OtherFault, Admits, not_and_or, not_forall, not_or, exists_prop, Bool.not_eq_true]

theorem accepts_iff (arguments : Fields) :
    doc.Accepts arguments ↔ doc.Admits arguments ∧ ¬ doc.BooleanForNumber arguments := by
  constructor
  · rintro ⟨hrequired, htypes⟩
    refine ⟨⟨hrequired, fun t value h => .inl (htypes t value h)⟩, ?_⟩
    rintro ⟨t, value, hdeclares, hmisread⟩
    exact hmisread.not_holds (htypes t value hdeclares)
  · rintro ⟨⟨hrequired, htypes⟩, hno⟩
    refine ⟨hrequired, fun t value hdeclares => ?_⟩
    obtain hholds | hmisread := htypes t value hdeclares
    · exact hholds
    · exact absurd ⟨t, value, hdeclares, hmisread⟩ hno

end DocumentedSchema

-- ============================================================================
-- The validator on the subset
-- ============================================================================

/-- A round of a loop returns, and finds no error exactly when `good` holds. -/
def Rounds {α β ε : Type} (round : α → Except ε (Option β)) (good : α → Prop) (a : α) : Prop :=
  ∃ found, round a = .ok found ∧ (found = none ↔ good a)

/-- A loop whose rounds all return finds nothing exactly when no round does. -/
theorem mapM_rounds {α β ε : Type} {round : α → Except ε (Option β)} {good : α → Prop} {l : List α}
    (h : ∀ a ∈ l, Rounds round good a) :
    ∃ found, l.mapM round = .ok found ∧ (found.reduceOption = [] ↔ ∀ a ∈ l, good a) := by
  induction l with
  | nil => exact ⟨[], rfl, by simp⟩
  | cons a l ih =>
      obtain ⟨first, hfirst, hnone⟩ := h a (List.mem_cons_self ..)
      obtain ⟨rest, hrest, hempty⟩ := ih fun b hb => h b (List.mem_cons_of_mem _ hb)
      refine ⟨first :: rest, ?_, ?_⟩
      · rw [List.mapM_cons, hfirst, hrest]
        rfl
      · rw [List.forall_mem_cons, ← hempty, ← hnone]
        cases first with
        | none => simp
        | some error => simp

namespace MiniSchemaValidator

variable [PrintTables] {schema : Fields} (doc : DocumentedSchema schema) (arguments : Fields)

theorem checkRequired_rounds (name : String) :
    Rounds (fun name => checkRequired (.dict arguments) (.str name))
      (fun name => arguments.has name = true) name := by
  have hround : checkRequired (.dict arguments) (.str name) =
      if arguments.has name = true then .ok none
      else .ok (some ("missing required field '" ++ name ++ "'")) := rfl
  unfold Rounds
  beta_reduce
  rw [hround]
  by_cases h : arguments.has name = true
  · rw [if_pos h]
    exact ⟨none, rfl, by simpa using h⟩
  · rw [if_neg h]
    exact ⟨_, rfl, by simpa using h⟩

/-- The value under a property, if it is there, is of the declared type or a boolean
    for a number. -/
def Passes (p : String × Fields) : Prop :=
  ∀ t value, p.2.lookup "type" = some (.str (SchemaType.name t)) →
    arguments.lookup p.1 = some value → t.Holds value ∨ t.Misread value

/-- The round of a property whose value is there and whose type is declared. -/
theorem checkProperty_typed {p : String × Fields} {t : SchemaType} {value : Json}
    (htype : p.2.lookup "type" = some (.str t.name)) (hvalue : arguments.lookup p.1 = some value)
    {isInstance : Json → Bool} (hexpected : expected (.str t.name) = .ok (some isInstance)) :
    checkProperty (.dict arguments) p.1 (.dict p.2) =
      if isInstance value = true then .ok none
      else .ok (some ("field '" ++ p.1 ++ "' must be " ++ t.name)) := by
  have hpresent : (Json.str p.1).isIn (.dict arguments) = .ok true := by
    simp [Json.isIn, Dict.has, hvalue]
  have hdeclared : (Json.dict p.2).getD "type" .null = .ok (.str t.name) := by
    simp [Json.getD, htype]
  have hitem : item (.dict arguments) p.1 = .ok value := by simp [item, hvalue]
  unfold checkProperty
  rw [hpresent, hdeclared, hitem]
  show (expected (.str t.name) >>= fun _ => _) = _
  rw [hexpected]
  rfl

theorem checkProperty_rounds {p : String × Fields} (hp : p ∈ doc.properties) :
    Rounds (fun p : String × Fields => checkProperty (.dict arguments) p.1 (.dict p.2))
      (Passes arguments) p := by
  cases hvalue : arguments.lookup p.1 with
  | none =>
      have habsent : (Json.str p.1).isIn (.dict arguments) = .ok false := by
        simp [Json.isIn, Dict.has, hvalue]
      refine ⟨none, ?_, by simp [Passes, hvalue]⟩
      show checkProperty (.dict arguments) p.1 (.dict p.2) = _
      rw [checkProperty, habsent]
      rfl
  | some value =>
      cases htype : p.2.lookup "type" with
      | none =>
          have hpresent : (Json.str p.1).isIn (.dict arguments) = .ok true := by
            simp [Json.isIn, Dict.has, hvalue]
          have hdeclared : (Json.dict p.2).getD "type" .null = .ok .null := by
            simp [Json.getD, htype]
          refine ⟨none, ?_, by simp [Passes, htype]⟩
          show checkProperty (.dict arguments) p.1 (.dict p.2) = _
          rw [checkProperty, hpresent, hdeclared]
          rfl
      | some declared =>
          obtain ⟨t, rfl⟩ := doc.typed p hp declared htype
          obtain ⟨isInstance, hexpected, hinstance⟩ := t.expected_name
          have hpasses : Passes arguments p ↔ isInstance value = true := by
            rw [hinstance]
            constructor
            · exact fun h => h t value htype hvalue
            · intro h t' value' ht' hvalue'
              obtain rfl : value = value' := Option.some.inj (hvalue.symm.trans hvalue')
              have hname : Json.str t.name = .str t'.name := Option.some.inj (htype.symm.trans ht')
              obtain rfl : t = t' := SchemaType.name_injective (Json.str.inj hname)
              exact h
          have hround := checkProperty_typed arguments htype hvalue hexpected
          unfold Rounds
          beta_reduce
          rw [hround, hpasses]
          by_cases h : isInstance value = true
          · rw [if_pos h]
            exact ⟨none, rfl, by simpa using h⟩
          · rw [if_neg h]
            exact ⟨_, rfl, by simpa using h⟩

omit [PrintTables] in
/-- The properties the second loop runs over: all of them, or none for want of any. -/
theorem declared_properties :
    (Json.dict schema).getD "properties" .null =
        .ok (.dict (doc.properties.map fun p => (p.1, .dict p.2))) ∨
      doc.properties = [] ∧ (Json.dict schema).getD "properties" .null = .ok .null := by
  have hproperties := doc.properties_eq
  cases hlookup : schema.lookup "properties" with
  | none =>
      rw [hlookup] at hproperties
      have hnil : [] = doc.properties.map fun p => (p.1, Json.dict p.2) := Json.dict.inj hproperties
      exact .inr ⟨List.map_eq_nil_iff.mp hnil.symm, by simp [Json.getD, hlookup]⟩
  | some properties =>
      rw [hlookup] at hproperties
      have hdict : properties =
          .dict (doc.properties.map fun p => (p.1, Json.dict p.2)) := hproperties
      exact .inl (by simp [Json.getD, hlookup, hdict])

/-- On the subset the validator returns what its two loops collect. -/
theorem checkArgs_loops (hschema : schema ≠ []) {missing mistyped : List (Option String)}
    (hmissing : doc.required.mapM
      (fun name => checkRequired (.dict arguments) (.str name)) = .ok missing)
    (hmistyped : doc.properties.mapM
      (fun p => checkProperty (.dict arguments) p.1 (.dict p.2)) = .ok mistyped) :
    checkArgs (.dict arguments) (.dict schema) = .ok (missing ++ mistyped).reduceOption := by
  have htruthy : (Json.dict schema).truthy = true := by simpa [Json.truthy] using hschema
  have hrequired : (Json.dict schema).getD "required" (.list []) =
      .ok (.list (doc.required.map .str)) := congrArg Except.ok doc.required_eq
  have hloop : (doc.required.map Json.str).mapM (checkRequired (.dict arguments)) = .ok missing := by
    rw [List.mapM_map]
    exact hmissing
  have hloop' : (doc.properties.map fun p => (p.1, Json.dict p.2)).mapM
      (fun p : String × Json => checkProperty (.dict arguments) p.1 p.2) = .ok mistyped := by
    rw [List.mapM_map]
    exact hmistyped
  unfold checkArgs
  rw [if_pos htruthy, hrequired]
  show (List.mapM (checkRequired (.dict arguments)) (doc.required.map Json.str) >>= fun _ => _) = _
  rw [hloop]
  obtain hproperties | ⟨hnone, hproperties⟩ := declared_properties doc
  · rw [hproperties]
    cases hspecs : doc.properties.map (fun p => (p.1, Json.dict p.2)) with
    | nil =>
        rw [hspecs] at hloop'
        obtain rfl : [] = mistyped := Except.ok.inj hloop'
        rfl
    | cons spec specs =>
        rw [hspecs] at hloop'
        show (List.mapM (fun p : String × Json => checkProperty (.dict arguments) p.1 p.2) _ >>=
          fun _ => _) = _
        rw [hloop']
        rfl
  · rw [hproperties]
    rw [hnone] at hmistyped
    obtain rfl : [] = mistyped := Except.ok.inj hmistyped
    rfl

/-- On the subset the validator returns, without errors exactly on what it admits. -/
theorem checkArgs_documented :
    ∃ errors, checkArgs (.dict arguments) (.dict schema) = .ok errors ∧
      (errors = [] ↔ doc.Admits arguments) := by
  obtain ⟨missing, hmissing, hnone⟩ :=
    mapM_rounds fun name (_ : name ∈ doc.required) => checkRequired_rounds arguments name
  obtain ⟨mistyped, hmistyped, hnone'⟩ :=
    mapM_rounds fun p (hp : p ∈ doc.properties) => checkProperty_rounds doc arguments hp
  have hadmits : missing.reduceOption = [] ∧ mistyped.reduceOption = [] ↔ doc.Admits arguments := by
    rw [hnone, hnone']
    constructor
    · rintro ⟨hrequired, hpasses⟩
      refine ⟨hrequired, ?_⟩
      rintro t value ⟨p, hp, htype, hvalue⟩
      exact hpasses p hp t value htype hvalue
    · rintro ⟨hrequired, htypes⟩
      exact ⟨hrequired, fun p hp t value htype hvalue => htypes t value ⟨p, hp, htype, hvalue⟩⟩
  by_cases hschema : schema = []
  · subst hschema
    have hno : doc.required = [] := by
      have hlist : [] = doc.required.map Json.str := Json.list.inj doc.required_eq
      exact List.map_eq_nil_iff.mp hlist.symm
    have hno' : doc.properties = [] := by
      have hdict : [] = doc.properties.map fun p => (p.1, Json.dict p.2) :=
        Json.dict.inj doc.properties_eq
      exact List.map_eq_nil_iff.mp hdict.symm
    refine ⟨[], rfl, ?_⟩
    simp [DocumentedSchema.Admits, DocumentedSchema.Declares, hno, hno']
  · refine ⟨_, checkArgs_loops doc arguments hschema hmissing hmistyped, ?_⟩
    rw [List.reduceOption_append, List.append_eq_nil_iff, hadmits]

end MiniSchemaValidator

-- ============================================================================
-- Where the validator and the reference part
-- ============================================================================

/-- For this schema and these arguments the validator returns no errors exactly when
    the reference accepts. -/
def AcceptsExactly [PrintTables] {schema : Fields} (doc : DocumentedSchema schema)
    (arguments : Fields) :
    Prop :=
  ∃ errors, MiniSchemaValidator.checkArgs (.dict arguments) (.dict schema) = .ok errors ∧
    (errors = [] ↔ doc.Accepts arguments)

/-- The validator meets the reference exactly on the inputs where no boolean stands for
    a number, or something else is wrong as well. -/
theorem acceptsExactly_iff [PrintTables] {schema : Fields} (doc : DocumentedSchema schema)
    (arguments : Fields) :
    AcceptsExactly doc arguments ↔ (doc.BooleanForNumber arguments → doc.OtherFault arguments) := by
  obtain ⟨errors, hreturns, hempty⟩ := MiniSchemaValidator.checkArgs_documented doc arguments
  have hexactly : AcceptsExactly doc arguments ↔ (doc.Admits arguments ↔ doc.Accepts arguments) := by
    rw [← hempty]
    constructor
    · rintro ⟨errors', hreturns', h⟩
      obtain rfl : errors = errors' := Except.ok.inj (hreturns.symm.trans hreturns')
      exact h
    · exact fun h => ⟨errors, hreturns, h⟩
  rw [hexactly, doc.accepts_iff, doc.otherFault_iff]
  tauto

/-- `{"properties": {"n": {"type": "integer"}}}` -/
def countSchema : Fields := [("properties", .dict [("n", .dict [("type", .str "integer")])])]

/-- It is a schema of the subset. -/
def countDocumented : DocumentedSchema countSchema where
  required := []
  required_eq := rfl
  properties := [("n", [("type", .str "integer")])]
  properties_eq := rfl
  typed := by
    intro p hp declared htype
    obtain rfl := List.mem_singleton.mp hp
    exact ⟨.integer, (Option.some.inj htype).symm⟩

/-- `{"n": 3}` is such an object. -/
theorem acceptsExactly_iff_count :
    letI := PrintTables.ascii
    AcceptsExactly countDocumented [("n", .int 3)] := by
  let tables : PrintTables := PrintTables.ascii
  refine (acceptsExactly_iff countDocumented [("n", .int 3)]).mpr ?_
  rintro ⟨t, value, ⟨p, hp, -, hvalue⟩, -, b, rfl⟩
  obtain rfl := List.mem_singleton.mp hp
  cases hvalue

/-- `{"n": true}` passes for an object whose `n` is an integer. -/
theorem boolean_passes_for_integer :
    letI := PrintTables.ascii
    ¬ AcceptsExactly countDocumented [("n", .bool true)] := by
  let tables : PrintTables := PrintTables.ascii
  rintro ⟨errors, hreturns, hempty⟩
  have hnone : errors = [] := by
    have hrun : MiniSchemaValidator.checkArgs (.dict [("n", .bool true)]) (.dict countSchema) =
      .ok [] := rfl
    exact Except.ok.inj (hreturns.symm.trans hrun)
  obtain ⟨-, htypes⟩ := hempty.mp hnone
  have hdeclares : countDocumented.Declares [("n", .bool true)] .integer (.bool true) :=
    ⟨_, List.mem_singleton_self _, rfl, rfl⟩
  obtain ⟨n, hn⟩ := htypes .integer (.bool true) hdeclares
  cases hn

end ToolGateway
