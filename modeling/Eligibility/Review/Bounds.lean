import Eligibility.Review.Failure

namespace Eligibility

/-- What the comparisons of one variable with literals ask for. -/
structure Bounds where
  lower : Option Double
  upper : Option Double
  equal : List Literal

namespace Bounds

def free : Bounds := ⟨none, none, []⟩

/-- The bounds with one comparison more. A bound that is no number asks for nothing. -/
def add (b : Bounds) (operator : Operator) (v : Literal) : Bounds :=
  match operator, v.number? with
  | .atLeast, some n => { b with lower := some (b.lower.elim n fun l => l.max n) }
  | .atMost, some n => { b with upper := some (b.upper.elim n fun u => u.min n) }
  | .equal, _ => { b with equal := b.equal ++ [v] }
  | _, none => b

def numberLayout : Double.Layout where
  plain := none
  pointZero := false
  plusSign := false
  signedZero := true
  tie := .up

def numberText (x : Double) : String := numberLayout.render x

inductive Conflict where
  | empty (lower upper : Double)
  | different (first other : Literal)
  | outside (x : Double)

def Conflict.message (name : String) : Conflict → String
  | .empty lower upper =>
    "vars." ++ name ++ " >= " ++ numberText lower ++ " and vars." ++ name ++ " <= " ++
      numberText upper ++ " admit no value"
  | .different first other =>
    "vars." ++ name ++ " cannot equal both " ++ first.shown ++ " and " ++ other.shown
  | .outside x => "vars." ++ name ++ " == " ++ numberText x ++ " lies outside its other bounds"

def crossing (b : Bounds) : Option Conflict :=
  match b.lower, b.upper with
  | some l, some u => if u.below l then some (.empty l u) else none
  | _, _ => none

def excludes (b : Bounds) (x : Double) : Bool :=
  b.lower.any (fun l => x.below l) || b.upper.any (fun u => u.below x)

def clash (b : Bounds) : Option Conflict :=
  match b.equal with
  | [] => none
  | first :: _ =>
    match b.equal.find? fun v => !v.same first with
    | some other => some (.different first other)
    | none =>
      match first.number? with
      | some x => if b.excludes x then some (.outside x) else none
      | none => none

def conflict? (b : Bounds) : Option Conflict := b.crossing <|> b.clash

end Bounds

namespace Rule

mutual
def conjuncts : Rule → List Comparison
  | .comparison c => [c]
  | .allOf preds => conjunctsAll preds
  | _ => []
def conjunctsAll : List Rule → List Comparison
  | [] => []
  | r :: rs => conjuncts r ++ conjunctsAll rs
end

def literalBound? (c : Comparison) : Option (String × Operator × Literal) :=
  match c.rhs with
  | .literal v => some (c.lhs, c.operator, v)
  | _ => none

end Rule

namespace Bounds

def insertName (s : String) : List String → List String
  | [] => [s]
  | t :: ts => if s = t then t :: ts else if s < t then s :: t :: ts else t :: insertName s ts

def ofVar (cs : List (String × Operator × Literal)) (name : String) : Bounds :=
  cs.foldl (fun b (n, o, v) => if n = name then b.add o v else b) free

def conflictsOf (cs : List (String × Operator × Literal)) : List (String × Conflict) :=
  let names := cs.foldr (fun (n, _) ns => insertName n ns) []
  names.filterMap fun n => (ofVar cs n).conflict?.map fun c => (n, c)

/-- A conjunction directly inside another one is a part of it. -/
def isConjunct (path : NodePath) : Bool := "preds[".toList.isPrefixOf path.lastSegment

def here (path : NodePath) (r : Rule) : List Failure :=
  match r with
  | .allOf preds =>
    if isConjunct path then []
    else (conflictsOf ((Rule.conjunctsAll preds).filterMap Rule.literalBound?)).map
      fun (n, c) => ⟨.unsatisfiable, path, .rule r, c.message n⟩
  | _ => []

end Bounds

/-- The comparisons of a conjunction, nested conjunctions included, are gathered by variable. A
variable has a conflict if its lower bound exceeds its upper one, if it shall equal two different
literals, or if the literal that it shall equal is a number outside its bounds. -/
def Rule.conflicts (r : Rule) : List Failure := r.walk.flatMap fun (path, s) => Bounds.here path s

end Eligibility
