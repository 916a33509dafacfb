import DockyardRL.Lib.Fallible
import DockyardRL.Lib.Text
import Mathlib.Data.String.Basic

/-! JSON values as Python sees them, and the dependency-free schema validator for the arguments of a
tool call.

Hermes tool calls: extraction from the text of a turn, and the check of the extracted calls against
the tools of an environment. -/
namespace DockyardRL
namespace ToolProtocol

section

/-- Decoded JSON over a type of floats. The keys of an object are distinct. -/
inductive Json (φ : Type)
  | null
  | bool (b : Bool)
  | int (n : ℤ)
  | float (x : φ)
  | str (s : String)
  | arr (items : List (Json φ))
  | obj (fields : List (String × Json φ))

/-- Exceptions that leave a turn without a verdict. -/
inductive Raised
  | schemaError (message : String)
  | valueError (message : String)
  | attributeError
  | typeError
  | other
  deriving DecidableEq

/-- How `json.loads` fails. -/
inductive LoadsError
  | decode (message : String)
  | other
  deriving DecidableEq

/-- What the code takes from the interpreter: comparison of floats, `repr`, the `json`
module, and the text of the `TypeError` for indexing a value that is no object. -/
structure Host (φ : Type) where
  floatEq : φ → φ → Bool
  floatEqInt : φ → ℤ → Bool
  repr : Json φ → String
  loads : String → Except LoadsError (Json φ)
  dumps : Json φ → String
  subscriptError : Json φ → String

variable {φ : Type} (host : Host φ)

namespace Json

def pytypeName : Json φ → String
  | .bool _ => "boolean"
  | .obj _ => "object"
  | .arr _ => "array"
  | .null => "null"
  | .str _ => "string"
  | .int _ => "integer"
  | .float _ => "number"

def ofBool (b : Bool) : ℤ := if b then 1 else 0

mutual
/-- `==`: booleans compare as integers, integers with floats. -/
def equal : Json φ → Json φ → Bool
  | .null, .null => true
  | .bool a, .bool b => a = b
  | .bool a, .int n => ofBool a = n
  | .bool a, .float x => host.floatEqInt x (ofBool a)
  | .int m, .bool b => m = ofBool b
  | .int m, .int n => m = n
  | .int m, .float x => host.floatEqInt x m
  | .float x, .bool b => host.floatEqInt x (ofBool b)
  | .float x, .int n => host.floatEqInt x n
  | .float x, .float y => host.floatEq x y
  | .str s, .str t => s = t
  | .arr as, .arr bs => equalItems as bs
  | .obj fs, .obj gs => fs.length = gs.length && equalFields fs gs
  | _, _ => false
  termination_by structural v => v

def equalItems : List (Json φ) → List (Json φ) → Bool
  | [], [] => true
  | a :: as, b :: bs => equal a b && equalItems as bs
  | _, _ => false
  termination_by structural vs => vs

def equalFields : List (String × Json φ) → List (String × Json φ) → Bool
  | [], _ => true
  | (key,a) :: fs, gs => (match gs.lookup key with
      | some b => equal a b
      | none => false) && equalFields fs gs
  termination_by structural fs => fs
end

end Json

/-- A schema through the keywords the validator reads. A keyword that is absent, and for
`type` and `items` also one that is `None`, is `none`; `properties` is `none` when it is no
object and the empty list when absent. `other` is a schema that is no dictionary. -/
inductive Schema (φ : Type)
  | dict (type enum required : Option (Json φ)) (properties : Option (List (String × Schema φ)))
      (items : Option (Schema φ))
  | other

def Schema.empty : Schema φ := .dict none none none (some []) none

/-- `_JSON_TYPES`; booleans are neither integers nor numbers. -/
def jsonTypes : List (String × (Json φ → Bool)) :=
  [("object",fun v => v.pytypeName = "object"),("array",fun v => v.pytypeName = "array"),
    ("string",fun v => v.pytypeName = "string"),("boolean",fun v => v.pytypeName = "boolean"),
    ("null",fun v => v.pytypeName = "null"),("integer",fun v => v.pytypeName = "integer"),
    ("number",fun v => v.pytypeName = "integer" || v.pytypeName = "number")]

def typeMatches (value : Json φ) (jsonType : String) : Except Raised Bool :=
  match jsonTypes.lookup jsonType with
  | some expected => .ok (expected value)
  | none => .error (.schemaError s!"unsupported JSON-schema type: {host.repr (.str jsonType)}")

/-- The `type` keyword; an error here ends the validation. -/
def typeErrors (type : Option (Json φ)) (value : Json φ) (path : String) :
    Except Raised (List String) :=
  match type with
  | none => .ok []
  | some (.str jsonType) => (typeMatches host value jsonType).map fun isMatch =>
    if isMatch then [] else [s!"{path}: expected {jsonType}, got {value.pytypeName}"]
  | some jsonType =>
    .error (.schemaError s!"{path}: 'type' must be a string, got {host.repr jsonType}")

/-- The `enum` keyword. -/
def enumErrors (enum : Option (Json φ)) (value : Json φ) (path : String) :
    Except Raised (List String) :=
  match enum with
  | none => .ok []
  | some (.arr allowed) => .ok (if allowed.any (Json.equal host value) then [] else
      [s!"{path}: {host.repr value} is not one of {host.repr (.arr allowed)}"])
  | some _ => .error (.schemaError s!"{path}: 'enum' must be a list")

/-- `key not in value` for one required key; lists and objects cannot be looked up. -/
def missingKey (fields : List (String × Json φ)) (path : String) (key : Json φ) :
    Except Raised (Option String) :=
  let missing := some s!"{path}: missing required property {host.repr key}"
  match key with
  | .str k => .ok (if (fields.lookup k).isSome then none else missing)
  | .arr _ => .error .typeError
  | .obj _ => .error .typeError
  | _ => .ok missing

/-- The `required` keyword. -/
def requiredErrors (required : Option (Json φ)) (fields : List (String × Json φ)) (path : String) :
    Except Raised (List String) :=
  match required with
  | none => .ok []
  | some (.arr keys) => (keys.mapM (missingKey host fields path)).map List.reduceOption
  | some _ => .error (.schemaError s!"{path}: 'required' must be a list")

/-- Whether `_validate_object` (`name = "object"`) or `_validate_array` is called. -/
def descends (type : Option (Json φ)) (name : String) (value : Json φ) : Bool :=
  match type with
  | none => value.pytypeName = name
  | some (.str jsonType) => jsonType = name
  | some _ => false

mutual
def validateAgainstSchema : Schema φ → Json φ → String → Except Raised (List String)
  | .other, _, _ => .error .attributeError
  | .dict type enum required properties items, value, path => do
    let mismatch ← typeErrors host type value path
    if mismatch ≠ [] then pure mismatch else
      let enumErrs ← enumErrors host enum value path
      let objectErrs ← validateObject required properties (descends type "object" value) value path
      let arrayErrs ← validateArray items (descends type "array" value) value path
      pure (enumErrs ++ objectErrs ++ arrayErrs)
  termination_by structural schema => schema

/-- `_validate_object`, when it is called. -/
def validateObject (required : Option (Json φ)) : Option (List (String × Schema φ)) → Bool →
    Json φ → String → Except Raised (List String)
  | properties, true, .obj fields, path => do
    let missing ← requiredErrors host required fields path
    match properties with
    | none => .error (.schemaError s!"{path}: 'properties' must be an object")
    | some properties => (validateEach properties fields path).map (missing ++ ·)
  | _, _, _, _ => .ok []
  termination_by structural properties => properties

def validateEach : List (String × Schema φ) → List (String × Json φ) → String →
    Except Raised (List String)
  | [], _, _ => .ok []
  | (key,subschema) :: rest, fields, path => do
    let errs ← match fields.lookup key with
      | some value => validateAgainstSchema subschema value s!"{path}.{key}"
      | none => .ok []
    (validateEach rest fields path).map (errs ++ ·)
  termination_by structural properties => properties

/-- `_validate_array`, when it is called. -/
def validateArray : Option (Schema φ) → Bool → Json φ → String → Except Raised (List String)
  | some .other, true, .arr _, path =>
    .error (.schemaError s!"{path}: 'items' must be a schema object")
  | some schema, true, .arr values, path =>
    (values.zipIdx.mapM fun (entry : Json φ × ℕ) =>
      validateAgainstSchema schema entry.1 s!"{path}[{entry.2}]").map List.flatten
  | _, _, _, _ => .ok []
  termination_by structural items => items
end

def validateArguments (arguments : Json φ) (parametersSchema : Schema φ) :
    Except Raised (List String) :=
  match arguments with
  | .obj _ => validateAgainstSchema host parametersSchema arguments "$"
  | _ => .ok [s!"$: expected object arguments, got {arguments.pytypeName}"]

end

open Text

variable {φ : Type} (host : Host φ)

def hermesToolCallStart : String := "<tool_call>"

def hermesToolCallEnd : String := "</tool_call>"

structure ParsedToolCall (φ : Type) where
  name : Json φ
  arguments : Json φ
  argumentsJson : String

structure HermesExtraction (φ : Type) where
  toolsCalled : Bool
  toolCalls : List (ParsedToolCall φ)
  content : Option String
  error : Option String

def HermesExtraction.attempted (ext : HermesExtraction φ) : Bool :=
  ext.toolsCalled || ext.error.isSome

/-- `_TOOL_CALL_REGEX.findall`: the closed regions, and the unterminated one behind them.
Every region is shorter than the text, so the fuel does not run out. -/
def findRegions : ℕ → List Char → List (List Char)
  | 0, _ => []
  | fuel + 1, text => match cut hermesToolCallStart.toList text with
    | none => []
    | some (_,rest) => match cut hermesToolCallEnd.toList rest with
      | some (closed,behind) => closed :: findRegions fuel behind
      | none => [rest]

def regions (text : String) : List String :=
  (findRegions text.toList.length text.toList).map String.ofList

/-- `call[key]`: the text of the `KeyError` is the quoted key. -/
def subscript (call : Json φ) (key : String) : Except String (Json φ) :=
  match call with
  | .obj fields => match fields.lookup key with
    | some value => .ok value
    | none => .error (host.repr (.str key))
  | _ => .error (host.subscriptError call)

def toolCall (call : Json φ) : Except String (ParsedToolCall φ) :=
  (subscript host call "name").bind fun name =>
    (subscript host call "arguments").map fun arguments =>
      ⟨name,arguments,host.dumps arguments⟩

def HermesExtraction.failed (text error : String) : HermesExtraction φ :=
  ⟨false,[],some text,some error⟩

/-- `parse_hermes_tool_calls`: one failure fails the turn. -/
def parseHermesToolCalls (text : String) : Except Raised (HermesExtraction φ) :=
  match cut hermesToolCallStart.toList text.toList with
  | none => .ok ⟨false,[],some text,none⟩
  | some (leading,_) => match (regions text).mapM host.loads with
    | .error .other => .error .other
    | .error (.decode exc) => .ok (.failed text s!"tool-call JSON decode error: {exc}")
    | .ok rawCalls => match rawCalls.mapM (toolCall host) with
      | .error exc =>
        .ok (.failed text s!"tool-call missing/invalid name or arguments: {exc}")
      | .ok toolCalls =>
        .ok ⟨true,toolCalls,if leading = [] then none else some (String.ofList leading),none⟩

structure Tool (φ : Type) where
  name : String
  description : String
  parameters : Schema φ

/-- `ToolRegistry`, which refuses duplicate names. -/
structure ToolRegistry (φ : Type) where
  tools : List (Tool φ)
  nodup : (tools.map Tool.name).Nodup

/-- `name in registry`; only a string equals the name of a tool. -/
def ToolRegistry.contains (registry : ToolRegistry φ) (name : Json φ) : Bool :=
  registry.tools.any fun tool => match name with
    | .str s => tool.name = s
    | _ => false

def ToolRegistry.get? (registry : ToolRegistry φ) (name : String) : Option (Tool φ) :=
  registry.tools.find? fun tool => tool.name = name

/-- `registry.parameters(name) or {}`. -/
def ToolRegistry.parameters (registry : ToolRegistry φ) (name : String) : Schema φ :=
  ((registry.get? name).map Tool.parameters).getD Schema.empty

def assessCall (registry : ToolRegistry φ) (call : ParsedToolCall φ) :
    Except Raised (Option String) :=
  if registry.contains call.name then
    match call.name with
    | .str name => (validateArguments host call.arguments (registry.parameters name)).map
      fun errs => if errs = [] then none else some (s!"{name}: " ++ "; ".intercalate errs)
    | _ => .ok none
  else .ok (some s!"unknown tool {host.repr call.name}")

structure ToolUseAssessment (φ : Type) where
  attempted : Bool
  validCalls : List (ParsedToolCall φ)
  malformed : Bool
  reason : Option String

def assessToolCalls (text : String) (registry : ToolRegistry φ) :
    Except Raised (ToolUseAssessment φ) :=
  (parseHermesToolCalls host text).bind fun ext =>
    if !ext.attempted then .ok ⟨false,[],false,none⟩
    else match ext.error with
      | some error => .ok ⟨true,[],true,some error⟩
      | none => (ext.toolCalls.mapM (assessCall host registry)).map fun verdicts =>
        let reasons := verdicts.reduceOption
        let valid := (ext.toolCalls.zip verdicts).filterMap fun entry =>
          if entry.2.isNone then some entry.1 else none
        ⟨true,valid,!reasons.isEmpty,
          if reasons.isEmpty then none else some ("; ".intercalate reasons)⟩

end ToolProtocol
end DockyardRL
