import Eligibility.Review.Failure
import Eligibility.Review.Identifier
import Eligibility.Text.Blank

namespace Eligibility

inductive Defect where
  | badRoot (name : String)
  | badPath (text : String)
  | badBinding (binding text : String)
  | badVar (name : String)
  | badResult (name : String)
  | noOptions
  | noPreds
  | noConstants
  | notFinite
  | unescaped (s : String)

namespace Defect

def code : Defect → FailureCode
  | .badRoot _ | .badBinding .. | .badVar _ | .badResult _ => .invalidIdentifier
  | .badPath _ => .invalidTaskPath
  | .noOptions | .noPreds => .emptyCombinator
  | .noConstants => .malformedOutput
  | .notFinite | .unescaped _ => .invalidLiteral

def message : Defect → String
  | .badRoot name => "task root '" ++ name ++ "' is not a valid identifier"
  | .badPath text =>
    "task path \"" ++ text ++ "\" must start with $ and have no empty segments"
  | .badBinding binding text =>
    "binding '" ++ binding ++ "' derived from \"" ++ text ++ "\" is not a valid identifier"
  | .badVar name => "variable '" ++ name ++ "' is not a valid identifier"
  | .badResult name => "task result '" ++ name ++ "' is not a valid identifier"
  | .noOptions => "OneOf has no options"
  | .noPreds => "AllOf has no predicates"
  | .noConstants => "affine expression needs at least one constant term"
  | .notFinite => "numeric literal must be finite"
  | .unescaped s =>
    "string literal " ++ Text.quoted s ++ " contains characters that need escaping"

def on (d : Defect) (path : NodePath) (node : Node) : Failure :=
  ⟨d.code, path, node, d.message⟩

end Defect

namespace Lint

def expect (ok : Bool) (d : Defect) (path : NodePath) (node : Node) : List Failure :=
  if ok then [] else [d.on path node]

def var (name : String) (path : NodePath) : List Failure :=
  expect (isIdentifier name) (.badVar name) path (.var name)

def result (name : String) (path : NodePath) : List Failure :=
  expect (isIdentifier name) (.badResult name) path (.result name)

def number (x : Double) (path : NodePath) : List Failure :=
  expect x.isFinite .notFinite path (.literal (.number x))

def scalar (s : Scalar) (path : NodePath) : List Failure :=
  match s with
  | .number x => number x path
  | .result name => result name path

def terms (path : NodePath) (i : Nat) : List Term → List Failure
  | [] => []
  | t :: ts =>
    let here := path.child (Rule.indexed "affineTerms" i)
    scalar t.coefficient (here.child "coefficient") ++ var t.name (here.child "variable") ++
      terms path (i + 1) ts

def constants (path : NodePath) (i : Nat) : List Scalar → List Failure
  | [] => []
  | s :: ss =>
    scalar s (path.child (Rule.indexed "constantTerms" i)) ++ constants path (i + 1) ss

def affine (e : Affine) (path : NodePath) : List Failure :=
  expect (!e.constants.isEmpty) .noConstants path (.affine e) ++
    terms path 0 e.terms ++ constants path 0 e.constants

def needsEscape (c : Char) : Bool := c == '"' || c == '\\' || c == '\n'

def literal (v : Literal) (path : NodePath) : List Failure :=
  match v with
  | .number x => number x path
  | .text s => expect (!s.toList.any needsEscape) (.unescaped s) path (.literal v)
  | .truth _ => []

def operand (o : Operand) (path : NodePath) : List Failure :=
  match o with
  | .literal v => literal v path
  | .var name => var name path
  | .result name => result name path
  | .affine e => affine e path

def comparison (c : Comparison) (path : NodePath) : List Failure :=
  var c.lhs (path.child "lhs") ++ operand c.rhs (path.child "rhs")

def ratio (r : Ratio) (path : NodePath) : List Failure :=
  var r.numerator (path.child "numerator") ++ operand r.denominator (path.child "denominator") ++
    number r.bound (path.child "ratio")

def root (r : TaskRoot) (path : NodePath) : List Failure :=
  match r with
  | .loan => []
  | .result name =>
    expect (isIdentifier name) (.badRoot name) (path.child "root") (.result name)

/-- Starts at the root and has no white space, no quote and no empty segment. -/
def isCleanPath (s : String) : Bool :=
  let cs := s.toList
  !cs.any Text.isBlank && !cs.contains '"' && cs.head? == some '$' &&
    !(Text.pieces '.' cs).contains []

def here (path : NodePath) (r : Rule) : List Failure :=
  match r with
  | .task origin p _ inner =>
    root origin path ++
      (if isCleanPath p.text then
        if inner.isSome then
          expect (isIdentifier p.binding) (.badBinding p.binding p.text) path (.rule r)
        else []
      else [(Defect.badPath p.text).on path (.rule r)])
  | .comparison c => comparison c path
  | .ratio q => ratio q path
  | .oneOf options => expect (!options.isEmpty) .noOptions path (.rule r)
  | .allOf preds => expect (!preds.isEmpty) .noPreds path (.rule r)
  | .branch cond _ _ => comparison cond (path.child "cond")

end Lint

def Rule.lint (r : Rule) : List Failure := r.walk.flatMap fun (path, s) => Lint.here path s

end Eligibility
