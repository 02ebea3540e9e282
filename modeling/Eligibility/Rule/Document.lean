import Eligibility.Json
import Eligibility.Json.Render
import Eligibility.Rule.Basic

namespace Eligibility

def Json.tagged (kind : Kind) (members : List (String × Json)) : Json :=
  .object (("typename", .string kind.name) :: members)

/-- A number has no document unless it is finite. -/
def Double.toJson (x : Double) : Json :=
  if x.isFinite then .number (.real x) else .null

def Literal.toJson : Literal → Json
  | .number x => Json.tagged .value [("type", .string "number"), ("value", x.toJson)]
  | .text s => Json.tagged .value [("type", .string "string"), ("value", .string s)]
  | .truth b => Json.tagged .value [("type", .string "boolean"), ("value", .bool b)]

namespace Json

def var (name : String) : Json := tagged .var [("name", .string name)]

def result (name : String) : Json := tagged .taskResult [("name", .string name)]

end Json

def Scalar.toJson : Scalar → Json
  | .number x => (Literal.number x).toJson
  | .result name => Json.result name

def Term.toJson (t : Term) : Json :=
  Json.tagged .affineTerm [("coefficient", t.coefficient.toJson), ("variable", Json.var t.name)]

def Affine.toJson (e : Affine) : Json :=
  Json.tagged .affineExpression
    [("affineTerms", .array (e.terms.map Term.toJson)),
      ("constantTerms", .array (e.constants.map Scalar.toJson))]

def Operand.toJson : Operand → Json
  | .literal v => v.toJson
  | .var name => Json.var name
  | .result name => Json.result name
  | .affine e => e.toJson

def TaskRoot.toJson : TaskRoot → Json
  | .loan => .object [("name", .string "Loan")]
  | .result name => Json.result name

def Comparison.toJson (c : Comparison) : Json :=
  Json.tagged .comparison
    [("lhs", Json.var c.lhs), ("operator", .string c.operator.symbol), ("rhs", c.rhs.toJson)]

def Ratio.toJson (r : Ratio) : Json :=
  Json.tagged .maintainRatio
    [("numerator", Json.var r.numerator), ("denominator", r.denominator.toJson),
      ("operator", .string r.operator.symbol), ("ratio", (Literal.number r.bound).toJson)]

mutual
def Rule.toJson : Rule → Json
  | .task root path each inner =>
    Json.tagged .task
      ([("root", root.toJson), ("path", .string path.text)] ++
        (if each then [("array", .bool true)] else []) ++ optionalMember "inner" inner)
  | .comparison c => c.toJson
  | .ratio r => r.toJson
  | .oneOf options => Json.tagged .oneOf [("options", .array (toJsons options))]
  | .allOf preds => Json.tagged .allOf [("preds", .array (toJsons preds))]
  | .branch cond yes no =>
    Json.tagged .branch
      ([("cond", cond.toJson), ("then", yes.toJson)] ++ optionalMember "else" no)
def Rule.optionalMember (key : String) : Option Rule → List (String × Json)
  | none => []
  | some r => [(key, r.toJson)]
def Rule.toJsons : List Rule → List Json
  | [] => []
  | r :: rs => r.toJson :: toJsons rs
end

def Node.toJson : Node → Json
  | .literal v => v.toJson
  | .var name => Json.var name
  | .result name => Json.result name
  | .term t => t.toJson
  | .affine e => e.toJson
  | .rule r => r.toJson

def Node.serialize (n : Node) : String := n.toJson.render

end Eligibility
