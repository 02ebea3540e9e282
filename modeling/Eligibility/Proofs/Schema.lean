import Mathlib
import Eligibility.Rule.Reader

namespace Eligibility

namespace Json

def valuesOf (key : String) (ms : List (String × Json)) : List Json :=
  (ms.filter fun m => m.1 == key).map Prod.snd

def Number.toDouble : Number → Double
  | .integer n => Double.ofRatio (n < 0) n.natAbs 1
  | .real x => x

end Json

open Json (valuesOf)

/-- The document of what a task is fetched from. -/
inductive DescribesRoot : Json → TaskRoot → Prop where
  | loan {ms : List (String × Json)}
      (kind : valuesOf "typename" ms = [] ∨ valuesOf "typename" ms = [.null])
      (name : valuesOf "name" ms = [.string "Loan"]) : DescribesRoot (.object ms) .loan
  | result {ms : List (String × Json)} {s : String}
      (kind : valuesOf "typename" ms = [.string "TaskResult"])
      (name : valuesOf "name" ms = [.string s]) : DescribesRoot (.object ms) (.result s)

/-- The document describes the node: how often a key stands among the members of an object, and what
its value is. Where a member stands does not matter, and keys that the kind does not know are passed
over. -/
inductive Describes : Json → Node → Prop where
  | number {ms : List (String × Json)} {m : Json.Number}
      (kind : valuesOf "typename" ms = [.string "Value"])
      (type : valuesOf "type" ms = [.string "number"])
      (value : valuesOf "value" ms = [.number m]) :
      Describes (.object ms) (.literal (.number m.toDouble))
  | text {ms : List (String × Json)} {s : String}
      (kind : valuesOf "typename" ms = [.string "Value"])
      (type : valuesOf "type" ms = [.string "string"])
      (value : valuesOf "value" ms = [.string s]) :
      Describes (.object ms) (.literal (.text s))
  | truth {ms : List (String × Json)} {b : Bool}
      (kind : valuesOf "typename" ms = [.string "Value"])
      (type : valuesOf "type" ms = [.string "boolean"])
      (value : valuesOf "value" ms = [.bool b]) :
      Describes (.object ms) (.literal (.truth b))
  | var {ms : List (String × Json)} {s : String}
      (kind : valuesOf "typename" ms = [.string "Variable"])
      (name : valuesOf "name" ms = [.string s]) :
      Describes (.object ms) (.var s)
  | result {ms : List (String × Json)} {s : String}
      (kind : valuesOf "typename" ms = [.string "TaskResult"])
      (name : valuesOf "name" ms = [.string s]) :
      Describes (.object ms) (.result s)
  | term {ms : List (String × Json)} {c v : Json} {t : Term}
      (kind : valuesOf "typename" ms = [.string "AffineTerm"])
      (coefficient : valuesOf "coefficient" ms = [c]) (hc : Describes c t.coefficient.toNode)
      (name : valuesOf "variable" ms = [v]) (hv : Describes v (.var t.name)) :
      Describes (.object ms) (.term t)
  | affine {ms : List (String × Json)} {ts cs : List Json} {e : Affine}
      (kind : valuesOf "typename" ms = [.string "AffineExpression"])
      (affineTerms : valuesOf "affineTerms" ms = [.array ts])
      (termCount : ts.length = e.terms.length)
      (hterms : ∀ j t, (j, t) ∈ ts.zip e.terms → Describes j (.term t))
      (constantTerms : valuesOf "constantTerms" ms = [.array cs])
      (constantCount : cs.length = e.constants.length)
      (hconstants : ∀ j s, (j, s) ∈ cs.zip e.constants → Describes j s.toNode) :
      Describes (.object ms) (.affine e)
  | task {ms : List (String × Json)} {o : Json} {root : TaskRoot} {p : TaskPath} {each : Bool}
      (kind : valuesOf "typename" ms = [.string "TaskConstraint"])
      (origin : valuesOf "root" ms = [o]) (horigin : DescribesRoot o root)
      (path : valuesOf "path" ms = [.string p.text])
      (array : valuesOf "array" ms = [] ∧ each = false ∨ valuesOf "array" ms = [.bool each])
      (inner : valuesOf "inner" ms = [] ∨ valuesOf "inner" ms = [.null]) :
      Describes (.object ms) (.rule (.task root p each none))
  | taskInner {ms : List (String × Json)} {o i : Json} {root : TaskRoot} {p : TaskPath}
      {each : Bool} {r : Rule}
      (kind : valuesOf "typename" ms = [.string "TaskConstraint"])
      (origin : valuesOf "root" ms = [o]) (horigin : DescribesRoot o root)
      (path : valuesOf "path" ms = [.string p.text])
      (array : valuesOf "array" ms = [] ∧ each = false ∨ valuesOf "array" ms = [.bool each])
      (inner : valuesOf "inner" ms = [i]) (hinner : Describes i (.rule r)) :
      Describes (.object ms) (.rule (.task root p each (some r)))
  | comparison {ms : List (String × Json)} {l r : Json} {c : Comparison}
      (kind : valuesOf "typename" ms = [.string "ComparisonConstraint"])
      (lhs : valuesOf "lhs" ms = [l]) (hlhs : Describes l (.var c.lhs))
      (operator : valuesOf "operator" ms = [.string c.operator.symbol])
      (rhs : valuesOf "rhs" ms = [r]) (hrhs : Describes r c.rhs.toNode) :
      Describes (.object ms) (.rule (.comparison c))
  | ratio {ms : List (String × Json)} {n d b : Json} {q : Ratio}
      (kind : valuesOf "typename" ms = [.string "MaintainRatioConstraint"])
      (numerator : valuesOf "numerator" ms = [n]) (hnumerator : Describes n (.var q.numerator))
      (denominator : valuesOf "denominator" ms = [d])
      (hdenominator : Describes d q.denominator.toNode)
      (operator : valuesOf "operator" ms = [.string q.operator.symbol])
      (bound : valuesOf "ratio" ms = [b]) (hbound : Describes b (.literal (.number q.bound))) :
      Describes (.object ms) (.rule (.ratio q))
  | oneOf {ms : List (String × Json)} {items : List Json} {rs : List Rule}
      (kind : valuesOf "typename" ms = [.string "OneOf"])
      (options : valuesOf "options" ms = [.array items])
      (count : items.length = rs.length)
      (each : ∀ j r, (j, r) ∈ items.zip rs → Describes j (.rule r)) :
      Describes (.object ms) (.rule (.oneOf rs))
  | allOf {ms : List (String × Json)} {items : List Json} {rs : List Rule}
      (kind : valuesOf "typename" ms = [.string "AllOf"])
      (preds : valuesOf "preds" ms = [.array items])
      (count : items.length = rs.length)
      (each : ∀ j r, (j, r) ∈ items.zip rs → Describes j (.rule r)) :
      Describes (.object ms) (.rule (.allOf rs))
  | branch {ms : List (String × Json)} {c y : Json} {cond : Comparison} {yes : Rule}
      (kind : valuesOf "typename" ms = [.string "If"])
      (condition : valuesOf "cond" ms = [c]) (hcond : Describes c (.rule (.comparison cond)))
      (consequence : valuesOf "then" ms = [y]) (hyes : Describes y (.rule yes))
      (alternative : valuesOf "else" ms = [] ∨ valuesOf "else" ms = [.null]) :
      Describes (.object ms) (.rule (.branch cond yes none))
  | branchElse {ms : List (String × Json)} {c y n : Json} {cond : Comparison} {yes no : Rule}
      (kind : valuesOf "typename" ms = [.string "If"])
      (condition : valuesOf "cond" ms = [c]) (hcond : Describes c (.rule (.comparison cond)))
      (consequence : valuesOf "then" ms = [y]) (hyes : Describes y (.rule yes))
      (alternative : valuesOf "else" ms = [n]) (hno : Describes n (.rule no)) :
      Describes (.object ms) (.rule (.branch cond yes (some no)))

/-- What stands under a key of a node, by the form that it may take. -/
inductive Slot where
  /-- A node of one of these kinds. -/
  | node (kinds : List Kind)
  /-- A list of nodes of these kinds. -/
  | nodes (kinds : List Kind)
  /-- One of a few words. -/
  | word
  /-- What a task is fetched from. -/
  | root

namespace Slot

def rules : List Kind := [.task, .comparison, .maintainRatio, .oneOf, .allOf, .branch]

def operands : List Kind := [.value, .var, .taskResult, .affineExpression]

def scalars : List Kind := [.value, .taskResult]

end Slot

/-- The slots of a kind. Texts, booleans and the contents of literals are none. -/
def Kind.slots : Kind → List (String × Slot)
  | .value => [("type", .word)]
  | .var => []
  | .taskResult => []
  | .affineTerm => [("coefficient", .node Slot.scalars), ("variable", .node [.var])]
  | .affineExpression =>
    [("affineTerms", .nodes [.affineTerm]), ("constantTerms", .nodes Slot.scalars)]
  | .task => [("root", .root), ("inner", .node Slot.rules)]
  | .comparison =>
    [("lhs", .node [.var]), ("operator", .word), ("rhs", .node Slot.operands)]
  | .maintainRatio =>
    [("numerator", .node [.var]), ("denominator", .node Slot.operands), ("operator", .word),
      ("ratio", .node [.value])]
  | .oneOf => [("options", .nodes Slot.rules)]
  | .allOf => [("preds", .nodes Slot.rules)]
  | .branch =>
    [("cond", .node [.comparison]), ("then", .node Slot.rules), ("else", .node Slot.rules)]

namespace Json

def isString : Json → Bool
  | .string _ => true
  | _ => false

def kindIn? (kinds : List Kind) (ms : List (String × Json)) : Option Kind :=
  match valuesOf "typename" ms with
  | [.string s] => kinds.find? fun k => k.name == s
  | _ => none

mutual
/-- A document in plain form: no slot for a node or a root holds an array, and tags and words are
strings. What stands under a key that is no slot may be anything. -/
def isPlain : Slot → Json → Bool
  | .node _, .array _ => false
  | .node kinds, .object ms => (valuesOf "typename" ms).all isString &&
    (match kindIn? kinds ms with
    | some k => membersPlain k ms
    | none => true)
  | .nodes kinds, .array items => itemsPlain kinds items
  | .word, j => j.isString
  | .root, .array _ => false
  | _, _ => true
def membersPlain (k : Kind) : List (String × Json) → Bool
  | [] => true
  | (key, j) :: ms =>
    (match k.slots.lookup key with
    | some slot => isPlain slot j
    | none => true) && membersPlain k ms
def itemsPlain (kinds : List Kind) : List Json → Bool
  | [] => true
  | j :: js => isPlain (.node kinds) j && itemsPlain kinds js
end

@[simp] theorem valuesOf_nil (key : String) : valuesOf key [] = [] := rfl

theorem valuesOf_cons (key k : String) (j : Json) (ms : List (String × Json)) :
    valuesOf key ((k, j) :: ms) = if k = key then j :: valuesOf key ms else valuesOf key ms := by
  by_cases h : k = key <;> simp [valuesOf, h]

theorem mem_valuesOf {key : String} {ms : List (String × Json)} {j : Json} :
    j ∈ valuesOf key ms ↔ (key, j) ∈ ms := by
  simp [valuesOf]

/-- Items are in plain form exactly if each of them is. -/
theorem itemsPlain_iff {kinds : List Kind} {items : List Json} :
    itemsPlain kinds items = true ↔ ∀ i ∈ items, isPlain (.node kinds) i = true := by
  induction items with
  | nil => simp [itemsPlain]
  | cons j items ih => simp [itemsPlain, ih]

/-- Members are in plain form exactly if those in a slot of the kind are. -/
theorem membersPlain_iff {k : Kind} {ms : List (String × Json)} :
    membersPlain k ms = true ↔
      ∀ m ∈ ms, ∀ slot ∈ k.slots.lookup m.1, isPlain slot m.2 = true := by
  induction ms with
  | nil => simp [membersPlain]
  | cons m ms ih =>
    obtain ⟨key, j⟩ := m
    rw [membersPlain, Bool.and_eq_true, ih, List.forall_mem_cons]
    cases k.slots.lookup key <;> simp

/-- A value is smaller than the object, so an induction can go into it. -/
theorem sizeOf_lt_of_mem_values {ms : List (String × Json)} {key : String} {j : Json}
    (hj : j ∈ valuesOf key ms) : sizeOf j < sizeOf (Json.object ms) := by
  have hmem := List.sizeOf_lt_of_mem (mem_valuesOf.mp hj)
  simp only [Prod.mk.sizeOf_spec, Json.object.sizeOf_spec] at hmem ⊢
  omega

theorem sizeOf_lt_of_mem_items {items : List Json} {j : Json} (hj : j ∈ items) :
    sizeOf j < sizeOf (Json.array items) := by
  have hmem := List.sizeOf_lt_of_mem hj
  simp only [Json.array.sizeOf_spec]
  omega

end Json

end Eligibility
