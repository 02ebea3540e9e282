import Mathlib
import Eligibility.Proofs.Acceptance
import Eligibility.Proofs.ConflictText
import Eligibility.Proofs.Unambiguity

namespace Eligibility

def Scalar.names : Scalar → List String
  | .number _ => []
  | .result name => [name]

def Term.names (t : Term) : List String := t.name :: t.coefficient.names

def Affine.names (e : Affine) : List String :=
  e.terms.flatMap Term.names ++ e.constants.flatMap Scalar.names

def Operand.names : Operand → List String
  | .literal _ => []
  | .var name => [name]
  | .result name => [name]
  | .affine e => e.names

def Comparison.names (c : Comparison) : List String := c.lhs :: c.rhs.names

def Ratio.names (q : Ratio) : List String := q.numerator :: q.denominator.names

mutual
/-- The names of variables and results that a rule and the rules inside it compare or calculate
with. What a task is fetched from is not among them. -/
def Rule.names : Rule → List String
  | .task _ _ _ inner => namesOptional inner
  | .comparison c => c.names
  | .ratio q => q.names
  | .oneOf options => namesAll options
  | .allOf preds => namesAll preds
  | .branch cond yes no => cond.names ++ names yes ++ namesOptional no
def Rule.namesOptional : Option Rule → List String
  | none => []
  | some r => names r
def Rule.namesAll : List Rule → List String
  | [] => []
  | r :: rs => names r ++ namesAll rs
end

def Node.names : Node → List String
  | .literal _ => []
  | .var name => [name]
  | .result name => [name]
  | .term t => t.names
  | .affine e => e.names
  | .rule r => r.names

namespace Source

/-- All words that a rule can start with end in a call. -/
theorem isBoolean_of_no_call {source : String} (h : '(' ∉ source.toList) :
    isBoolean source = false := by
  have hcombinators : combinators.any (fun w => w.toList.isPrefixOf source.toList) = false := by
    rw [List.any_eq_false]
    intro w hw hstarts
    have hcalls : ∀ w ∈ combinators, '(' ∈ w.toList := by decide
    exact h ((List.isPrefixOf_iff_prefix.mp hstarts).subset (hcalls w hw))
  rw [isBoolean]
  simp only [hcombinators, firstCall, Text.cut?_of_not_mem h, Option.map_none, Bool.and_false,
    Bool.or_false]

theorem not_combinator {c : Char} (hd : c ≠ 'd') (hf : c ≠ 'f') (r : List Char) :
    combinators.any (fun w => w.toList.isPrefixOf (c :: r)) = false := by
  simp [combinators, List.isPrefixOf, Ne.symm hd, Ne.symm hf]

/-- A text in quotes is not taken for a rule, whatever stands between them. -/
theorem isBoolean_string (s : String) : isBoolean (string s) = false := by
  have htext : (string s).toList = '"' :: (s.toList ++ ['"']) := by simp [string]
  simp only [isBoolean, htext, not_combinator (c := '"') (by decide) (by decide)]
  simp [List.isPrefixOf]

/-- The first call of a variable that is multiplied is no predicate. -/
theorem isBoolean_of_times {name : String} (h : '(' ∉ name.toList) (rest : String) :
    isBoolean (var name ++ ".times(" ++ rest) = false := by
  have htext : (var name ++ ".times(" ++ rest).toList =
      ((var name).toList ++ ".times".toList) ++ '(' :: rest.toList := by simp
  have hbefore : '(' ∉ (var name).toList ++ ".times".toList := by simp [var, h]
  have hcall := firstCall_append hbefore rest.toList
  have hpredicates : predicates.any (fun w =>
      w.toList.isSuffixOf ((var name).toList ++ ".times".toList ++ ['('])) = false := by
    simp [predicates, List.isSuffixOf, List.isPrefixOf]
  have hcombinators : combinators.any (fun w =>
      w.toList.isPrefixOf ((var name).toList ++ ".times".toList ++ '(' :: rest.toList)) = false := by
    rw [var, String.toList_append]
    exact not_combinator (by decide) (by decide) _
  rw [isBoolean]
  simp only [htext, hcall, hpredicates, hcombinators, Bool.and_false, Bool.or_false]

theorem call_not_mem_name {name : String} (h : isIdentifier name = true) : '(' ∉ name.toList := by
  intro hc
  exact absurd (isIdentifier_chars h '(' hc) (by decide)

theorem call_not_mem_number (x : Double) : '(' ∉ x.source.toList :=
  Double.sourceLayout.not_mem_render x (by simp [Double.isNumeralChar])

end Source

open Source

theorem Scalar.call_not_mem {s : Scalar} (h : ∀ name ∈ s.names, isIdentifier name = true) :
    '(' ∉ s.source.toList := by
  cases s with
  | number x => exact call_not_mem_number x
  | result name => exact call_not_mem_name (h name List.mem_cons_self)

theorem Literal.isBoolean_source (v : Literal) : isBoolean v.source = false := by
  cases v with
  | number x => exact isBoolean_of_no_call (call_not_mem_number x)
  | text s => exact isBoolean_string s
  | truth b => cases b <;> exact isBoolean_of_no_call (by decide)

/-- A term starts with a variable, but its first call multiplies, which no rule starts with. -/
theorem Term.isBoolean_source {t : Term} (h : isIdentifier t.name = true) (rest : String) :
    isBoolean (t.source ++ rest) = false := by
  have htext : t.source ++ rest =
      Source.var t.name ++ ".times(" ++ (t.coefficient.source ++ ")" ++ rest) := by
    simp [Term.source, String.append_assoc]
  rw [htext]
  exact isBoolean_of_times (call_not_mem_name h) _

theorem Affine.call_not_mem_constants {cs : List Scalar}
    (h : ∀ name ∈ cs.flatMap Scalar.names, isIdentifier name = true) :
    '(' ∉ ("+".intercalate (cs.map Scalar.source)).toList := by
  have hscalars : ∀ s ∈ cs, '(' ∉ s.source.toList := by
    intro s hs
    exact Scalar.call_not_mem fun name hname => h name (List.mem_flatMap_of_mem hs hname)
  cases cs with
  | nil => simp
  | cons c cs =>
    rw [List.forall_mem_cons] at hscalars
    rw [Affine.toList_constants, List.mem_append, not_or]
    refine ⟨hscalars.1, fun hcall => ?_⟩
    obtain ⟨s, hs, hcall⟩ := List.mem_flatMap.mp hcall
    rcases List.mem_cons.mp hcall with hplus | hcall
    · exact absurd hplus (by decide)
    · exact hscalars.2 s hs hcall

/-- Without terms there is no call, and with terms the first one multiplies. -/
theorem Affine.isBoolean_source {e : Affine} (h : ∀ name ∈ e.names, isIdentifier name = true) :
    isBoolean e.source = false := by
  rw [Affine.names, List.forall_mem_append] at h
  obtain ⟨hterms, hconstants⟩ := h
  rw [Affine.source]
  cases hts : e.terms with
  | nil =>
    rw [Affine.sourceFrom]
    exact isBoolean_of_no_call (Affine.call_not_mem_constants hconstants)
  | cons t ts =>
    have hname : isIdentifier t.name = true := by
      apply hterms
      rw [hts]
      exact List.mem_append_left _ List.mem_cons_self
    rw [Affine.sourceFrom, String.append_assoc, String.append_assoc]
    exact Term.isBoolean_source hname _

theorem Rule.subject_mem_names {r : Rule} {name : String} (h : name ∈ r.subject?) :
    name ∈ r.names := by
  cases r with
  | comparison c =>
    cases h
    exact List.mem_cons_self
  | ratio q =>
    cases h
    exact List.mem_cons_self
  | _ => cases h

/-- The program text of a node in which all names can stand bare is taken for a rule exactly if the
node is one, whatever its numbers, texts and paths. -/
theorem Node.isBoolean_source_iff {n : Node} (h : ∀ name ∈ n.names, isIdentifier name = true) :
    isBoolean n.source = true ↔ n.kind.isRule = true := by
  cases n with
  | literal v => simp [Node.source, v.isBoolean_source, Node.kind, Kind.isRule]
  | var name =>
    have hcall : '(' ∉ (Source.var name).toList := by
      have := call_not_mem_name (h name List.mem_cons_self)
      simp [Source.var, this]
    simp [Node.source, isBoolean_of_no_call hcall, Node.kind, Kind.isRule]
  | result name =>
    have hcall := call_not_mem_name (h name List.mem_cons_self)
    simp [Node.source, isBoolean_of_no_call hcall, Node.kind, Kind.isRule]
  | term t =>
    have hterm := Term.isBoolean_source (h t.name List.mem_cons_self) ""
    rw [String.append_empty] at hterm
    simp [Node.source, hterm, Node.kind, Kind.isRule]
  | affine e => simp [Node.source, Affine.isBoolean_source h, Node.kind, Kind.isRule]
  | rule r =>
    have hrule := r.isBoolean_source fun name hname => h name (r.subject_mem_names hname)
    exact iff_of_true hrule r.kind_isRule

/-- A sum whose names sound like calls is no rule, and a ratio of it is one. -/
theorem Node.isBoolean_source_iff_named :
    let sum : Affine := ⟨[⟨.result "fetchTask", "is_gte"⟩], [.result "vars", .number Double.zero]⟩
    let ratio : Rule := .ratio ⟨"times", .affine sum, .atMost, Double.zero⟩
    ((∀ name ∈ (Node.affine sum).names, isIdentifier name = true) ∧
      isBoolean (Node.affine sum).source = false) ∧
    (∀ name ∈ (Node.rule ratio).names, isIdentifier name = true) ∧
      isBoolean (Node.rule ratio).source = true := by
  intro sum ratio
  have hsum : ∀ name ∈ (Node.affine sum).names, isIdentifier name = true := by decide
  have hratio : ∀ name ∈ (Node.rule ratio).names, isIdentifier name = true := by decide
  refine ⟨⟨hsum, ?_⟩, hratio, ?_⟩
  · rw [← Bool.not_eq_true, Node.isBoolean_source_iff hsum]
    exact Bool.false_ne_true
  · rw [Node.isBoolean_source_iff hratio]
    rfl

end Eligibility
