import TraitCatalog.Document.Basic
import TraitCatalog.Text.Expression

/-!
# The schema of documents

A schema is a list of keywords, and each of them asks something of a value. `Schema.bundled` is the
schema of the current version; `Schema.violations` lists everything that keeps a value from being a
document by it. A schema of another version is refused by `Schema.compile`.
-/

namespace TraitCatalog.Schema

inductive Shape where
  | object
  | array
  | string
deriving DecidableEq

namespace Shape

def name : Shape → String
  | .object => "object"
  | .array => "array"
  | .string => "string"

def holds : Shape → Json → Bool
  | .object, .object _ => true
  | .array, .array _ => true
  | .string, .string _ => true
  | _, _ => false

end Shape

/-- A keyword of a schema. Apart from `type` and `const`, it asks nothing of a value of a shape that it is
not about. -/
inductive Keyword where
  | type (shape : Shape)
  | const (text : String)
  | minLength (least : Nat)
  | pattern (expression : Text.Expression)
  | items (schema : List Keyword)
  /-- The schemas of known members, and of the others if there may be others. -/
  | properties (known : List (String × List Keyword)) (others : Option (List Keyword))
  | propertyNames (schema : List Keyword)
  | required (names : List String)

inductive Violation where
  | notOfShape (value : Json) (shape : Shape)
  | notConst (expected : String)
  | tooShort (text : String) (least : Nat)
  | unmatched (text : String) (expression : Text.Expression)
  | unexpected (names : List String)
  | missing (name : String)

def Violation.message : Violation → String
  | .notOfShape value shape => s!"{value.compact} is not of type \"{shape.name}\""
  | .notConst expected => s!"{(Json.string expected).compact} was expected"
  | .tooShort text least =>
    let unit := if least = 1 then "character" else "characters"
    s!"{(Json.string text).compact} is shorter than {least} {unit}"
  | .unmatched text expression =>
    s!"{(Json.string text).compact} does not match \"{expression.source}\""
  | .unexpected names =>
    let quoted := ", ".intercalate (names.map fun name => s!"'{name}'")
    let verb := if names.length = 1 then "was" else "were"
    s!"Additional properties are not allowed ({quoted} {verb} unexpected)"
  | .missing name => s!"\"{name}\" is a required property"

/-! ### Checking -/

def unexpectedViolations (known : List String) (members : List (String × Json)) : List Violation :=
  match (members.map Prod.fst).filter (!known.contains ·) with
  | [] => []
  | names => [.unexpected names]

mutual

def violationsOf : List Keyword → Json → List Violation
  | [], _ => []
  | keyword :: others, value => violationsOfKeyword keyword value ++ violationsOf others value

def violationsOfKeyword : Keyword → Json → List Violation
  | .type shape, value => if shape.holds value then [] else [.notOfShape value shape]
  | .const text, value => if value.text? = some text then [] else [.notConst text]
  | .minLength least, value =>
    match value with
    | .string text => if text.length < least then [.tooShort text least] else []
    | _ => []
  | .pattern expression, value =>
    match value with
    | .string text => if expression.matchesAll text.toList then [] else [.unmatched text expression]
    | _ => []
  | .items schema, value =>
    match value with
    | .array items => items.flatMap (violationsOf schema)
    | _ => []
  | .properties known none, value =>
    match value with
    | .object members =>
      (members.flatMap fun member => (knownViolations known member.1 member.2).getD []) ++
        unexpectedViolations (known.map Prod.fst) members
    | _ => []
  | .properties known (some others), value =>
    match value with
    | .object members => members.flatMap fun member =>
      (knownViolations known member.1 member.2).getD (violationsOf others member.2)
    | _ => []
  | .propertyNames schema, value =>
    match value with
    | .object members => members.flatMap fun member => violationsOf schema (.string member.1)
    | _ => []
  | .required names, value =>
    match value with
    | .object members => (names.filter fun name => (Entries.get? name members).isNone).map .missing
    | _ => []

def knownViolations : List (String × List Keyword) → String → Json → Option (List Violation)
  | [], _, _ => none
  | (known, schema) :: others, name, value =>
    if known = name then some (violationsOf schema value) else knownViolations others name value

end

/-! ### The bundled schema -/

def segmentPattern : Text.Expression :=
  .plus (.oneOf [('A', 'Z'), ('a', 'z'), ('0', '9'), ('_', '_')])

/-- `[A-Za-z0-9_]+(::[A-Za-z0-9_]+)*` -/
def pathPattern : Text.Expression :=
  .next segmentPattern (.star (.next (.text "::".toList) segmentPattern))

def matchesPath (text : List Char) : Bool :=
  pathPattern.matchesAll text

def descriptorsSchema : List Keyword :=
  [.items [.type .string], .type .array]

def implementorsSchema : List Keyword :=
  [.properties [] (some descriptorsSchema), .propertyNames [.minLength 1], .type .object]

def interfaceSchema : List Keyword :=
  [.pattern pathPattern, .type .string]

def versionSchema : List Keyword :=
  [.const Document.currentVersion]

/-- The schema of the current version. Keywords and members stand in the order of their names. -/
def bundled : List Keyword :=
  [.properties [("implementors", implementorsSchema), ("interface", interfaceSchema),
      ("schema_version", versionSchema)] none,
    .required ["schema_version", "implementors"], .type .object]

def violations (value : Json) : List Violation :=
  violationsOf bundled value

/-! ### Schemas as values -/

mutual

def membersOf : List Keyword → List (String × Json)
  | [] => []
  | keyword :: others => membersOfKeyword keyword ++ membersOf others

def membersOfKeyword : Keyword → List (String × Json)
  | .type shape => [("type", .string shape.name)]
  | .const text => [("const", .string text)]
  | .minLength least => [("minLength", .number (.integer least))]
  | .pattern expression => [("pattern", .string expression.source)]
  | .items schema => [("items", .object (membersOf schema))]
  | .properties known none =>
    [("additionalProperties", .bool false), ("properties", .object (membersOfKnown known))]
  | .properties [] (some others) => [("additionalProperties", .object (membersOf others))]
  | .properties known (some others) =>
    [("additionalProperties", .object (membersOf others)),
      ("properties", .object (membersOfKnown known))]
  | .propertyNames schema => [("propertyNames", .object (membersOf schema))]
  | .required names => [("required", .ofTexts names)]

def membersOfKnown : List (String × List Keyword) → List (String × Json)
  | [] => []
  | (name, schema) :: others => (name, .object (membersOf schema)) :: membersOfKnown others

end

def toJson (schema : List Keyword) : Json :=
  .object (membersOf schema)

/-! ### Versions of the schema -/

inductive CompileError where
  | noVersion (origin : String)
  | otherVersion (origin version : String)
deriving DecidableEq

def CompileError.message : CompileError → String
  | .noVersion origin => s!"{origin} missing schema_version const"
  | .otherVersion origin version =>
    s!"{origin} declares schema_version '{version}', expected {Document.currentVersion}"

def isVersionChar (c : Char) : Bool :=
  c.isAlphanum || c == '_' || c == '.' || c == '-'

def version? (schema : Json) : Option String := do
  let version ← (← schema.descend? ["properties", "schema_version", "const"]).text?
  if version.toList.all isVersionChar then some version else none

def compile (schema : Json) (origin : String) : Except CompileError Unit :=
  match version? schema with
  | none => .error (.noVersion origin)
  | some version =>
    if version = Document.currentVersion then .ok () else .error (.otherVersion origin version)

theorem compile_bundled (origin : String) : compile (toJson bundled) origin = .ok () := by
  rfl

end TraitCatalog.Schema
