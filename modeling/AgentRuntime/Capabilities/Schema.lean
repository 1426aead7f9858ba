import Mathlib.Data.List.Nodup
import AgentRuntime.Contracts

/-!
# Schemas of tools

`capabilities/schema.py`: a call's arguments are validated against the schema of its tool.

* `Draft202012Validator` — the validator, as far as it is called;
* `validateToolCall` — the schema is thawed at every depth, the arguments at their top only;
* `validateToolCall_iff` — arguments are validated as they were before they were frozen, under every
  schema, exactly if none of them is a list or an object.
-/

set_option autoImplicit false

namespace AgentRuntime

/-- What the calls of the validator raise. -/
inductive SchemaFault where
  | schemaError (text : String)
  | unresolvable (text : String)
  | validationError (text : String)
  | other (exc : Exc)

/-- `Draft202012Validator`, with an empty registry: `check_schema`, and `validate` of an instance. -/
structure Draft202012Validator where
  checkSchema : Value → Except SchemaFault Unit
  validate : (schema value : Value) → Except SchemaFault Unit

def schemaValidation (message : String) (cause : Option Exc := none) : Exc :=
  .error .schemaValidationError message cause

def supportedDialects : List String :=
  ["https://json-schema.org/draft/2020-12/schema", "http://json-schema.org/draft/2020-12/schema"]

def defaultDialect : String := "https://json-schema.org/draft/2020-12/schema"

/-- `_as_dict`, of the entries of a frozen schema. -/
def asDict (schema : List (String × Value)) : List (String × Value) := thawFields schema

/-- `dialect_of`. -/
def dialectOf (schema : List (String × Value)) : Except Exc String :=
  match schema.lookup "$schema" with
  | none | some .none => .ok defaultDialect
  | some (.str dialect) => .ok dialect
  | some _ => .error (schemaValidation "$schema must be a string")

/-- An exception of the validator as the caller sees it. -/
def SchemaFault.exc : SchemaFault → Exc
  | schemaError text => schemaValidation text
  | unresolvable text => schemaValidation ("schema $ref is not available in memory: " ++ text)
  | validationError text => schemaValidation text
  | other exc => exc

namespace Draft202012Validator

/-- `assert_supported_schema`. -/
def assertSupportedSchema (v : Draft202012Validator) (schema : List (String × Value)) :
    Except Exc Unit := do
  let material := asDict schema
  let dialect ← dialectOf material
  if dialect ∈ supportedDialects then (v.checkSchema (.dict material)).mapError SchemaFault.exc
  else .error (schemaValidation ("unsupported JSON Schema dialect: " ++ dialect))

/-- `validate_instance`. -/
def validateInstance (v : Draft202012Validator) (schema : List (String × Value)) (value : Value) :
    Except Exc Unit := do
  v.assertSupportedSchema schema
  (v.validate (.dict (asDict schema)) value).mapError SchemaFault.exc

/-- `check_tool_spec`. -/
def checkToolSpec (v : Draft202012Validator) (spec : ToolSpec) : Except Exc Unit :=
  v.assertSupportedSchema spec.parameters

/-- `validate_tool_call`. -/
def validateToolCall (v : Draft202012Validator) (spec : ToolSpec) (call : ToolCall) :
    Except Exc Unit := do
  v.checkToolSpec spec
  v.validateInstance spec.parameters (.dict call.arguments)

end Draft202012Validator

/-! ## Freezing -/

/-- `ToolSpec(name, description, parameters)` and `ToolCall(call_id, name, arguments)`, which freeze
what they are given. -/
def ToolSpec.of (name description : String) (parameters : List (String × Value)) : ToolSpec :=
  ⟨name, description, freezeMapping parameters⟩

def ToolCall.of (callId name : String) (arguments : List (String × Value)) : ToolCall :=
  ⟨callId, name, freezeMapping arguments⟩

/-- The arguments are validated as they are, and accepted. -/
def AcceptsPlain (v : Draft202012Validator) (spec : ToolSpec) (arguments : List (String × Value)) :
    Prop :=
  v.validateInstance spec.parameters (.dict arguments) = .ok ()

/-- No argument is a list or an object. -/
def Flat (arguments : List (String × Value)) : Prop := ∀ kv ∈ arguments, kv.2.isContainer = false

theorem freezeFields_flat : ∀ {arguments : List (String × Value)}, Flat arguments →
    freezeFields arguments = arguments
  | [], _ => rfl
  | (k, v) :: kvs, h => by
    have hv : freezeJson v = v := by
      have := h (k, v) List.mem_cons_self
      cases v <;> first | rfl | cases this
    rw [freezeFields, hv, freezeFields_flat fun kv hkv => h kv (List.mem_cons_of_mem _ hkv)]

theorem mem_freezeFields {k : String} {v : Value} : ∀ {kvs : List (String × Value)}, (k, v) ∈ kvs →
    (k, freezeJson v) ∈ freezeFields kvs
  | (k', v') :: kvs, h => by
    rcases List.mem_cons.mp h with heq | h
    · cases heq
      exact List.mem_cons_self
    · exact List.mem_cons_of_mem _ (mem_freezeFields h)

/-! ## What the validator documents -/

/-- `{"type": type}`. -/
def typeSchema (type : String) : Value := .dict [("type", .str type)]

/-- `{"properties": {key: {"type": type}}}`. -/
def propertySchema (key type : String) : List (String × Value) :=
  [("properties", .dict [(key, typeSchema type)])]

/-- Of the keywords, `properties` and two values of `type`: an array is a Python list, and an object
a Python dict. -/
structure ChecksTypes (v : Draft202012Validator) : Prop where
  supported : ∀ key type, type = "array" ∨ type = "object" →
    v.checkSchema (.dict (propertySchema key type)) = .ok ()
  properties : ∀ key type kvs, v.validate (.dict (propertySchema key type)) (.dict kvs) = .ok () ↔
    ∀ value, (key, value) ∈ kvs → v.validate (typeSchema type) value = .ok ()
  array : ∀ value, v.validate (typeSchema "array") value = .ok () ↔ ∃ xs, value = .list xs
  object : ∀ value, v.validate (typeSchema "object") value = .ok () ↔ ∃ kvs, value = .dict kvs

variable {v : Draft202012Validator} {arguments : List (String × Value)}

theorem mapError_ok {ε ε' α : Type} {f : ε → ε'} {x : Except ε α} {a : α} :
    x.mapError f = .ok a ↔ x = .ok a := by
  cases x <;> simp [Except.mapError]

/-- Under a schema of one property. -/
theorem validateInstance_property (hv : ChecksTypes v) {key type : String}
    (ht : type = "array" ∨ type = "object") (kvs : List (String × Value)) :
    v.validateInstance (ToolSpec.of "" "" (propertySchema key type)).parameters (.dict kvs) = .ok () ↔
      ∀ value, (key, value) ∈ kvs → v.validate (typeSchema type) value = .ok () := by
  have hdict : asDict (ToolSpec.of "" "" (propertySchema key type)).parameters =
      propertySchema key type := by
    simp only [asDict, ToolSpec.of, freezeMapping, propertySchema, typeSchema, freezeFields, freezeJson,
      thawFields, thawJson]
  have hsupported : v.assertSupportedSchema (ToolSpec.of "" "" (propertySchema key type)).parameters =
      .ok () := by
    unfold Draft202012Validator.assertSupportedSchema
    rw [hdict]
    exact mapError_ok.mpr (hv.supported key type ht)
  unfold Draft202012Validator.validateInstance
  rw [hsupported, hdict]
  exact mapError_ok.trans (hv.properties key type kvs)

/-- The schema is checked twice, the arguments once. -/
theorem validateToolCall_ok {spec : ToolSpec} {call : ToolCall} :
    v.validateToolCall spec call = .ok () ↔
      v.validateInstance spec.parameters (.dict call.arguments) = .ok () := by
  unfold Draft202012Validator.validateToolCall Draft202012Validator.checkToolSpec
    Draft202012Validator.validateInstance
  cases v.assertSupportedSchema spec.parameters with
  | error e => exact iff_of_false (fun h => by cases h) fun h => by cases h
  | ok _ => exact Iff.rfl

/-- The type a list or an object has, and has no longer once it is frozen. -/
theorem frozen_type (hv : ChecksTypes v) {value : Value} (hplain : value.plain = true)
    (hc : value.isContainer = true) :
    ∃ type, (type = "array" ∨ type = "object") ∧ v.validate (typeSchema type) value = .ok () ∧
      v.validate (typeSchema type) (freezeJson value) ≠ .ok () := by
  cases value with
  | list xs =>
    refine ⟨"array", .inl rfl, (hv.array _).mpr ⟨xs, rfl⟩, fun h => ?_⟩
    obtain ⟨ys, hys⟩ := (hv.array _).mp h
    simp only [freezeJson, reduceCtorEq] at hys
  | dict kvs =>
    refine ⟨"object", .inr rfl, (hv.object _).mpr ⟨kvs, rfl⟩, fun h => ?_⟩
    obtain ⟨kws, hkws⟩ := (hv.object _).mp h
    simp only [freezeJson, reduceCtorEq] at hkws
  | tuple _ | proxy _ => simp [Value.plain] at hplain
  | _ => cases hc

/-- **Freezing.** A JSON object given as the arguments of a call is validated, under every schema, as
it was before it was frozen, exactly if none of its values is a list or an object. -/
theorem validateToolCall_iff (v : Draft202012Validator) (hv : ChecksTypes v)
    (arguments : List (String × Value)) (hplain : (Value.dict arguments).plain = true)
    (hkeys : (arguments.map Prod.fst).Nodup) :
    (∀ (spec : ToolSpec) (callId name : String),
      v.validateToolCall spec (ToolCall.of callId name arguments) = .ok () ↔
        AcceptsPlain v spec arguments) ↔ Flat arguments := by
  constructor
  · rintro h ⟨key, value⟩ hkv
    refine Bool.eq_false_iff.mpr fun hc => ?_
    obtain ⟨type, htype, hplainly, hfrozen⟩ :=
      frozen_type hv (Value.plainFields_mem (by simpa only [Value.plain] using hplain) hkv) hc
    have haccepts : AcceptsPlain v (ToolSpec.of "" "" (propertySchema key type)) arguments := by
      refine (validateInstance_property hv htype arguments).mpr fun value' hkv' => ?_
      -- one key, one value
      have heq := List.inj_on_of_nodup_map hkeys hkv' hkv rfl
      cases heq
      exact hplainly
    have hcall := validateToolCall_ok.mp ((h _ "" "").mpr haccepts)
    exact hfrozen ((validateInstance_property hv htype _).mp hcall _ (mem_freezeFields hkv))
  · intro h spec callId name
    rw [validateToolCall_ok]
    unfold AcceptsPlain ToolCall.of freezeMapping
    rw [freezeFields_flat h]

/-! ## A validator of types -/

def hasType (type : String) : Value → Bool
  | .list _ => type == "array"
  | .dict _ => type == "object"
  | _ => type != "array" && type != "object"

/-- The keyword `type`. -/
def typeAccepts (schema value : Value) : Bool :=
  match schema.fields?.bind (·.lookup "type") with
  | some (.str type) => hasType type value
  | _ => true

/-- The keyword `properties`, over schemas of types. -/
def propertiesAccept (schema value : Value) : Bool :=
  match schema.fields?.bind (·.lookup "properties"), value with
  | some (.dict properties), .dict kvs =>
    properties.all fun p => kvs.all fun kv => kv.1 != p.1 || typeAccepts p.2 kv.2
  | _, _ => true

/-- The validator on schemas of these two keywords. -/
def typeValidator : Draft202012Validator where
  checkSchema _ := .ok ()
  validate schema value :=
    if typeAccepts schema value && propertiesAccept schema value then .ok ()
    else .error (.validationError "is not of the type")

theorem typeValidator_checksTypes : ChecksTypes typeValidator := by
  have hok : ∀ schema value, typeValidator.validate schema value = .ok () ↔
      typeAccepts schema value = true ∧ propertiesAccept schema value = true := by
    intro schema value
    rw [← Bool.and_eq_true]
    simp only [typeValidator]
    split
    · rename_i h
      exact iff_of_true rfl h
    · rename_i h
      exact iff_of_false (fun h => by cases h) h
  have htype : ∀ type value, typeValidator.validate (typeSchema type) value = .ok () ↔
      hasType type value = true := by
    intro type value
    rw [hok]
    have hp : propertiesAccept (typeSchema type) value = true := rfl
    rw [hp]
    exact and_iff_left rfl
  refine ⟨fun _ _ _ => rfl, fun key type kvs => ?_, fun value => ?_, fun value => ?_⟩
  · simp only [htype]
    rw [hok]
    have ht : typeAccepts (.dict (propertySchema key type)) (.dict kvs) = true := rfl
    have hp : propertiesAccept (.dict (propertySchema key type)) (.dict kvs) =
        ([(key, typeSchema type)].all fun p => kvs.all fun kv => kv.1 != p.1 || typeAccepts p.2 kv.2) := rfl
    rw [ht, hp]
    simp only [List.all_cons, List.all_nil, Bool.and_true, List.all_eq_true, Bool.or_eq_true, bne_iff_ne,
      true_and]
    constructor
    · intro h value hkv
      exact (h _ hkv).resolve_left fun hne => hne rfl
    · rintro h ⟨k, value⟩ hkv
      by_cases hk : k = key
      · subst hk
        exact .inr (h value hkv)
      · exact .inl hk
  · rw [htype]
    cases value <;> simp [hasType]
  · rw [htype]
    cases value <;> simp [hasType]

/-- A list of strings as an argument: frozen, it is no array. -/
theorem frozenList_rejected :
    let spec := ToolSpec.of "write" "" (propertySchema "paths" "array")
    let arguments := [("paths", Value.list [.str "a"])]
    AcceptsPlain typeValidator spec arguments ∧
      typeValidator.validateToolCall spec (ToolCall.of "c1" "write" arguments) =
        .error (schemaValidation "is not of the type") :=
  ⟨rfl, rfl⟩

/-- A string where the schema asks for one, and where it asks for an array. -/
theorem flatCall_accepted :
    typeValidator.validateToolCall (ToolSpec.of "write" "" (propertySchema "path" "string"))
        (ToolCall.of "c1" "write" [("path", .str "a")]) = .ok () ∧
      typeValidator.validateToolCall (ToolSpec.of "write" "" (propertySchema "path" "array"))
        (ToolCall.of "c1" "write" [("path", .str "a")]) ≠ .ok () := by
  have hflat : Flat [("path", .str "a")] := fun kv hkv => by
    rw [List.mem_singleton.mp hkv]
    rfl
  have hagrees := (validateToolCall_iff typeValidator typeValidator_checksTypes [("path", .str "a")] rfl
    (List.nodup_singleton _)).mpr hflat
  refine ⟨(hagrees _ "c1" "write").mpr rfl, fun h => ?_⟩
  have hplain := (hagrees _ "c1" "write").mp h
  cases hplain

end AgentRuntime
