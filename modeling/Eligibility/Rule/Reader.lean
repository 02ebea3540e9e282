import Eligibility.Json.Expect
import Eligibility.Rule.Field

namespace Eligibility

/-- A place in a tree, by what it admits. -/
inductive Place where
  | node
  | rule
  | operand
  | scalar

namespace Place

def kinds : Place → List Kind
  | .node => Kind.all
  | .rule => [.task, .comparison, .maintainRatio, .oneOf, .allOf, .branch]
  | .operand => [.value, .var, .taskResult, .affineExpression]
  | .scalar => [.value, .taskResult]

def title : Place → String
  | .node => "internally tagged enum Node"
  | .rule => "internally tagged enum Constraint"
  | .operand => "internally tagged enum Operand"
  | .scalar => "internally tagged enum Scalar"

def kindNamed (p : Place) (s : String) : Except ReadFault Kind :=
  match p.kinds.find? fun k => k.name == s with
  | some k => .ok k
  | none => .error (.json (.unknownVariant s (p.kinds.map Kind.name)))

/-- The kind that a tag means: its name, or its position among the kinds the place admits. -/
def kindOf (p : Place) : Json → Except ReadFault Kind
  | .string s => p.kindNamed s
  | .number (.integer n) =>
    if n < 0 then .error (.json (.wrongType (.number (.integer n)) "variant identifier"))
    else match p.kinds[n.toNat]? with
      | some k => .ok k
      | none => .error (.json (.wrongValue (.number (.integer n))
          ("variant index 0 <= i < " ++ toString p.kinds.length)))
  | j => .error (.json (.wrongType j.found "variant identifier"))

def kindAmong (p : Place) (seen : Option Kind) : List (String × Json) → Except ReadFault Kind
  | [] =>
    match seen with
    | some k => .ok k
    | none => .error (.json (.missing "typename"))
  | (key, j) :: ms =>
    if key = "typename" then
      match seen with
      | some _ => .error (.json (.duplicate "typename"))
      | none => do
        let k ← p.kindOf j
        kindAmong p (some k) ms
    else kindAmong p seen ms

end Place

def Operator.names : List (String × Operator) := Operator.all.map fun o => (o.symbol, o)

def Operator.ofJson (j : Json) : Except ReadFault Operator :=
  (j.choice true Operator.names).mapError .json

namespace Literal

inductive Tag where
  | number
  | text
  | truth
deriving DecidableEq

def tags : List (String × Tag) := [("number", .number), ("string", .text), ("boolean", .truth)]

def ofContents (j : Json) : Tag → Except Json.Fault Literal
  | .number => j.asDouble.map .number
  | .text => j.asText.map .text
  | .truth => j.asBool.map .truth

def finish (v : Literal) : List (String × Json) → Except Json.Fault Literal
  | [] => .ok v
  | (key, _) :: _ => .error (.duplicate key)

/-- The literal with these members, of which only `type` and `value` are left. Contents that come
before their type wait for it. -/
def ofPair : List (String × Json) → Except Json.Fault Literal
  | [] => .error (.missing "type")
  | ("type", t) :: rest => do
    let tag ← t.choice true tags
    match rest with
    | [] => .error (.missing "value")
    | ("value", j) :: rest => finish (← ofContents j tag) rest
    | (key, _) :: _ => .error (.duplicate key)
  | (key, j) :: rest =>
    match rest with
    | [] => .error (.missing "type")
    | ("type", t) :: rest => do
      let tag ← t.choice true tags
      finish (← ofContents j tag) rest
    | _ => .error (.duplicate key)

def ofMembers (members : List (String × Json)) : Except Json.Fault Literal :=
  ofPair (members.filter fun (key, _) => key == "type" || key == "value")

def ofItems : List Json → Except Json.Fault Literal
  | [] => .error (.wrongLength 0 "adjacently tagged enum Value")
  | [t] => do
    let _ ← t.choice true tags
    .error (.wrongLength 1 "adjacently tagged enum Value")
  | t :: j :: rest => do
    let tag ← t.choice true tags
    let v ← ofContents j tag
    if rest.isEmpty then return v
    else .error (.wrongLength (rest.length + 2) "2 elements in sequence")

end Literal

namespace TaskRoot

def ofParts (kind : Option String) (name : String) : Except ReadFault TaskRoot :=
  match kind with
  | some "TaskResult" => .ok (.result name)
  | none => if name = "Loan" then .ok .loan else .error (.rootName name)
  | some other => .error (.rootKind other)

def optionalText : Json → Except ReadFault (Option String)
  | .null => .ok none
  | j => (j.asText.map some).mapError .json

def ofMembers (kind : Option (Option String)) (name : Option String) :
    List (String × Json) → Except ReadFault TaskRoot
  | [] =>
    match name with
    | none => .error (.json (.missing "name"))
    | some name => ofParts kind.join name
  | ("typename", j) :: ms =>
    if kind.isSome then .error (.json (.duplicate "typename"))
    else do ofMembers (some (← optionalText j)) name ms
  | ("name", j) :: ms =>
    if name.isSome then .error (.json (.duplicate "name"))
    else do ofMembers kind (some (← j.asText.mapError .json)) ms
  | _ :: ms => ofMembers kind name ms

def ofItems : List Json → Except ReadFault TaskRoot
  | [] => .error (.json (.wrongLength 1 "struct RawTaskRoot with 2 elements"))
  | [k] => do
    let _ ← optionalText k
    .error (.json (.wrongLength 1 "struct RawTaskRoot with 2 elements"))
  | k :: n :: rest => do
    let kind ← optionalText k
    let name ← n.asText.mapError .json
    if rest.isEmpty then ofParts kind name
    else .error (.json (.wrongLength (rest.length + 2) "2 elements in sequence"))

def ofJson : Json → Except ReadFault TaskRoot
  | .object members => ofMembers none none members
  | .array items => ofItems items
  | j => .error (.json (.wrongType j.found "struct RawTaskRoot"))

end TaskRoot

def TaskPath.ofJson (j : Json) : Except ReadFault TaskPath := do
  let s ← j.asText.mapError .json
  match TaskPath.ofText? s with
  | some p => .ok p
  | none => .error (.taskPath s)

def Kind.elements (k : Kind) : String :=
  match k.fields.length with
  | 1 => "1 element"
  | n => toString n ++ " elements"

def Kind.shape (k : Kind) : String := "struct " ++ k.name ++ " with " ++ k.elements

def Place.admit : Place → Node → Except ReadFault Node
  | .scalar, .literal v =>
    ((Node.literal v).asNumber.map fun x => .literal (.number x)).mapError .mismatch
  | _, n => .ok n

namespace Node

def narrow {α : Type} (f : Node → Except Mismatch α) (n : Node) : Except ReadFault α :=
  (f n).mapError .mismatch

/-- Takes one field from a document, given the node that the document is in each place and the nodes
that it lists. -/
def fill (f : Field) (s : Filled) (j : Json) (one : Place → Except ReadFault Node)
    (many : Place → Except ReadFault (List Node)) : Except ReadFault Filled :=
  match f with
  | .name => do
    let a ← j.asText.mapError .json
    return { s with name := some a }
  | .coefficient => do
    let a ← one .scalar >>= narrow asScalar
    return { s with coefficient := some a }
  | .coefficientOf => do
    let a ← one .node >>= narrow asVar
    return { s with coefficientOf := some a }
  | .terms => do
    let a ← many .node >>= List.mapM (narrow asTerm)
    return { s with terms := some a }
  | .constants => do
    let a ← many .scalar >>= List.mapM (narrow asScalar)
    return { s with constants := some a }
  | .root => do
    let a ← TaskRoot.ofJson j
    return { s with root := some a }
  | .path => do
    let a ← TaskPath.ofJson j
    return { s with path := some a }
  | .each => do
    let a ← j.asBool.mapError .json
    return { s with each := some a }
  | .inner => do
    let a ← optionalRule j (one .rule)
    return { s with inner := some a }
  | .lhs => do
    let a ← one .node >>= narrow asVar
    return { s with lhs := some a }
  | .operator => do
    let a ← Operator.ofJson j
    return { s with operator := some a }
  | .rhs => do
    let a ← one .operand >>= narrow asOperand
    return { s with rhs := some a }
  | .numerator => do
    let a ← one .node >>= narrow asVar
    return { s with numerator := some a }
  | .denominator => do
    let a ← one .operand >>= narrow asOperand
    return { s with denominator := some a }
  | .bound => do
    let a ← one .node >>= narrow asNumber
    return { s with bound := some a }
  | .options => do
    let a ← many .rule >>= List.mapM (narrow asRule)
    return { s with options := some a }
  | .preds => do
    let a ← many .rule >>= List.mapM (narrow asRule)
    return { s with preds := some a }
  | .cond => do
    let a ← one .node >>= narrow asComparison
    return { s with cond := some a }
  | .yes => do
    let a ← one .rule >>= narrow asRule
    return { s with yes := some a }
  | .no => do
    let a ← optionalRule j (one .rule)
    return { s with no := some a }
where
  /-- A rule, or `null` for none. -/
  optionalRule (j : Json) (one : Except ReadFault Node) : Except ReadFault (Option Rule) :=
    match j with
    | .null => .ok none
    | _ => (one >>= narrow asRule).map some

mutual
/-- A node is an object with a `typename`, or an array of the kind and the fields in order. -/
def read (p : Place) : Json → Except ReadFault Node
  | .object members => do
    let k ← p.kindAmong none members
    if k = .value then p.admit (.literal (← (Literal.ofMembers members).mapError .json))
    else readMembers k {} members
  | .array items => readArray p items
  | j => .error (.json (.wrongType j.found p.title))
def readArray (p : Place) : List Json → Except ReadFault Node
  | [] => .error (.json (.missing "typename"))
  | tag :: items => do
    let k ← p.kindOf tag
    if k = .value then p.admit (.literal (← (Literal.ofItems items).mapError .json))
    else readItems k 0 {} k.fields items
/-- Members are taken in document order: unknown keys are passed over, a key seen before is refused,
and the first fault wins. -/
def readMembers (k : Kind) (s : Filled) : List (String × Json) → Except ReadFault Node
  | [] => s.build k
  | (key, j) :: ms =>
    match k.field? key with
    | none => readMembers k s ms
    | some f =>
      if s.has f then .error (.json (.duplicate key))
      else do
        let s ← fill f s j (fun p => read p j) (fun p => readAll p j)
        readMembers k s ms
def readItems (k : Kind) (n : Nat) (s : Filled) (fields : List Field) :
    List Json → Except ReadFault Node
  | [] =>
    match fields.find? fun f => !f.isOptional with
    | none => s.build k
    | some _ => .error (.json (.wrongLength n k.shape))
  | j :: js =>
    match fields with
    | [] => .error (.json (.wrongLength (n + js.length + 1) (k.elements ++ " in sequence")))
    | f :: fs => do
      let s ← fill f s j (fun p => read p j) (fun p => readAll p j)
      readItems k (n + 1) s fs js
def readAll (p : Place) : Json → Except ReadFault (List Node)
  | .array items => readEach p items
  | j => .error (.json (.wrongType j.found "a sequence"))
def readEach (p : Place) : List Json → Except ReadFault (List Node)
  | [] => .ok []
  | j :: js => do
    let n ← read p j
    let ns ← readEach p js
    return n :: ns
end

end Node

end Eligibility
