import Eligibility.Rule.Basic

namespace Eligibility

/-- Numbers in program text have no exponent, no point after a whole number and no negative zero. -/
def Double.sourceLayout : Double.Layout where
  plain := none
  pointZero := false
  plusSign := false
  signedZero := false
  tie := .up

def Double.source (x : Double) : String := Double.sourceLayout.render x

namespace Source

def var (name : String) : String := "vars." ++ name

def string (s : String) : String := "\"" ++ s ++ "\""

def list (items : List String) : String := ",".intercalate items

end Source

def Literal.source : Literal → String
  | .number x => x.source
  | .text s => Source.string s
  | .truth b => if b then "true" else "false"

def Scalar.source : Scalar → String
  | .number x => x.source
  | .result name => name

def Term.source (t : Term) : String :=
  Source.var t.name ++ ".times(" ++ t.coefficient.source ++ ")"

/-- Each term adds what follows it; the constants come last. -/
def Affine.sourceFrom (constants : String) : List Term → String
  | [] => constants
  | t :: ts => t.source ++ ".plus(" ++ sourceFrom constants ts ++ ")"

def Affine.source (e : Affine) : String :=
  Affine.sourceFrom ("+".intercalate (e.constants.map Scalar.source)) e.terms

def Operand.source : Operand → String
  | .literal v => v.source
  | .var name => Source.var name
  | .result name => name
  | .affine e => e.source

def Comparison.source (c : Comparison) : String :=
  Source.var c.lhs ++ "." ++ c.operator.method ++ "(" ++ c.rhs.source ++ ")"

def Ratio.source (r : Ratio) : String :=
  Source.var r.numerator ++ ".maintain_ratio(" ++ r.denominator.source ++ "," ++
    Source.string r.operator.symbol ++ "," ++ r.bound.source ++ ")"

mutual
def Rule.source : Rule → String
  | .task root path each inner =>
    "fetchTask(" ++ root.name ++ ")(" ++ Source.string path.text ++
      sourceInner path.binding each inner ++ ")"
  | .comparison c => c.source
  | .ratio r => r.source
  | .oneOf options => "dsl.oneOf(" ++ Source.list (sources options) ++ ")"
  | .allOf preds => "dsl.allOf(" ++ Source.list (sources preds) ++ ")"
  | .branch cond yes no =>
    "dsl.if_(" ++ cond.source ++ ").then(" ++ yes.source ++ ")" ++ sourceElse no
def Rule.sourceInner (binding : String) (each : Bool) : Option Rule → String
  | none => ""
  | some r =>
    ",(" ++ binding ++ ")=>" ++
      (if each then
        "dsl.allOf(..." ++ binding ++ ".map((" ++ binding ++ "Element)=>" ++ r.source ++ "))"
      else r.source)
def Rule.sourceElse : Option Rule → String
  | none => ""
  | some r => ".else(" ++ r.source ++ ")"
def Rule.sources : List Rule → List String
  | [] => []
  | r :: rs => r.source :: sources rs
end

def Node.source : Node → String
  | .literal v => v.source
  | .var name => Source.var name
  | .result name => name
  | .term t => t.source
  | .affine e => e.source
  | .rule r => r.source

end Eligibility
