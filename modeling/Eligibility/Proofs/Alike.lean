import Mathlib
import Eligibility.Rule.Source

namespace Eligibility

inductive Scalar.Alike : Scalar → Scalar → Prop where
  | number (x y : Double) (h : x.source = y.source) : Alike (.number x) (.number y)
  | result (name : String) : Alike (.result name) (.result name)

structure Term.Alike (t u : Term) : Prop where
  coefficient : t.coefficient.Alike u.coefficient
  name : t.name = u.name

structure Affine.Alike (e f : Affine) : Prop where
  terms : List.Forall₂ Term.Alike e.terms f.terms
  constants : List.Forall₂ Scalar.Alike e.constants f.constants

def Scalar.toOperand : Scalar → Operand
  | .number x => .literal (.number x)
  | .result name => .result name

/-- The equivalence on operands that makes numbers of one text the same, a lone constant the same as
an affine expression of it, and the boolean literals the same as the results of their names. -/
inductive Operand.Alike : Operand → Operand → Prop where
  | refl (o : Operand) : Alike o o
  | symm {o p : Operand} (h : Alike o p) : Alike p o
  | trans {o p q : Operand} (h : Alike o p) (h' : Alike p q) : Alike o q
  | number (x y : Double) (h : x.source = y.source) :
      Alike (.literal (.number x)) (.literal (.number y))
  | lone (s : Scalar) : Alike (.affine ⟨[], [s]⟩) s.toOperand
  | truth (b : Bool) : Alike (.result (if b then "true" else "false")) (.literal (.truth b))
  | affine {e f : Affine} (h : e.Alike f) : Alike (.affine e) (.affine f)

structure Comparison.Alike (c d : Comparison) : Prop where
  lhs : c.lhs = d.lhs
  operator : c.operator = d.operator
  rhs : c.rhs.Alike d.rhs

structure Ratio.Alike (q p : Ratio) : Prop where
  numerator : q.numerator = p.numerator
  denominator : q.denominator.Alike p.denominator
  operator : q.operator = p.operator
  bound : q.bound.source = p.bound.source

/-- The loan file is the same as a result named `Loan`. -/
inductive TaskRoot.Alike : TaskRoot → TaskRoot → Prop where
  | refl (root : TaskRoot) : Alike root root
  | toResult : Alike .loan (.result "Loan")
  | toLoan : Alike (.result "Loan") .loan

/-- The same shape, with parts that are alike. What texts do not show is whether a task without an
inner rule checks each element, whether a root is the loan file or a result named `Loan`, which of
the numbers with one text is meant, whether a lone constant is an affine expression, and whether
`true` and `false` are results or literals. -/
inductive Rule.Alike : Rule → Rule → Prop where
  | fetch {root root' : TaskRoot} (hroot : root.Alike root') (path : TaskPath)
      (each each' : Bool) : Alike (.task root path each none) (.task root' path each' none)
  | check {root root' : TaskRoot} (hroot : root.Alike root') (path : TaskPath) (each : Bool)
      {r r' : Rule} (h : Alike r r') :
      Alike (.task root path each (some r)) (.task root' path each (some r'))
  | comparison {c d : Comparison} (h : c.Alike d) : Alike (.comparison c) (.comparison d)
  | ratio {q p : Ratio} (h : q.Alike p) : Alike (.ratio q) (.ratio p)
  | oneOf {rs ss : List Rule} (length : rs.length = ss.length)
      (h : ∀ p ∈ rs.zip ss, Alike p.1 p.2) : Alike (.oneOf rs) (.oneOf ss)
  | allOf {rs ss : List Rule} (length : rs.length = ss.length)
      (h : ∀ p ∈ rs.zip ss, Alike p.1 p.2) : Alike (.allOf rs) (.allOf ss)
  | branch {c d : Comparison} (hcond : c.Alike d) {yes yes' : Rule} (hyes : Alike yes yes') :
      Alike (.branch c yes none) (.branch d yes' none)
  | branchElse {c d : Comparison} (hcond : c.Alike d) {yes yes' no no' : Rule}
      (hyes : Alike yes yes') (hno : Alike no no') :
      Alike (.branch c yes (some no)) (.branch d yes' (some no'))

theorem Scalar.Alike.source {s t : Scalar} (h : s.Alike t) : s.source = t.source := by
  cases h with
  | number x y h => exact h
  | result name => rfl

theorem Term.Alike.source {t u : Term} (h : t.Alike u) : t.source = u.source := by
  rw [Term.source, Term.source, h.coefficient.source, h.name]

theorem Affine.sourceFrom_congr (constants : String) {ts us : List Term}
    (h : List.Forall₂ Term.Alike ts us) :
    Affine.sourceFrom constants ts = Affine.sourceFrom constants us := by
  induction h with
  | nil => rfl
  | cons ht _ ih => rw [Affine.sourceFrom, Affine.sourceFrom, ht.source, ih]

/-- Affine expressions that are alike term by term and constant by constant have one text. -/
theorem Affine.Alike.source {e f : Affine} (h : e.Alike f) : e.source = f.source := by
  have hconstants : e.constants.map Scalar.source = f.constants.map Scalar.source := by
    rw [← List.forall₂_eq_eq_eq, List.forall₂_map_left_iff, List.forall₂_map_right_iff]
    exact h.constants.imp fun _ _ hs => hs.source
  rw [Affine.source, Affine.source, hconstants, Affine.sourceFrom_congr _ h.terms]

/-- Operands that are alike have one text. -/
theorem Operand.Alike.source {o p : Operand} (h : o.Alike p) : o.source = p.source := by
  induction h with
  | refl o => rfl
  | symm _ ih => exact ih.symm
  | trans _ _ ih ih' => exact ih.trans ih'
  | number x y h => exact h
  | lone s =>
    rw [Operand.source, Affine.source, Affine.sourceFrom, List.map_singleton,
      String.intercalate_singleton]
    cases s <;> rfl
  | truth b => cases b <;> rfl
  | affine h => exact h.source

theorem Comparison.Alike.source {c d : Comparison} (h : c.Alike d) : c.source = d.source := by
  rw [Comparison.source, Comparison.source, h.lhs, h.operator, h.rhs.source]

theorem Ratio.Alike.source {q p : Ratio} (h : q.Alike p) : q.source = p.source := by
  rw [Ratio.source, Ratio.source, h.numerator, h.denominator.source, h.operator, h.bound]

/-- Roots that are alike have one name. -/
theorem TaskRoot.Alike.name {root root' : TaskRoot} (h : root.Alike root') :
    root.name = root'.name := by
  cases h <;> rfl

namespace Rule

theorem sources_congr {rs ss : List Rule} (length : rs.length = ss.length)
    (h : ∀ p ∈ rs.zip ss, p.1.source = p.2.source) : sources rs = sources ss := by
  induction rs generalizing ss with
  | nil =>
    cases ss with
    | nil => rfl
    | cons s ss => cases length
  | cons r rs ih =>
    cases ss with
    | nil => cases length
    | cons s ss =>
      rw [List.zip_cons_cons, List.forall_mem_cons] at h
      rw [sources, sources, h.1, ih (Nat.succ.inj length) h.2]

/-- Rules that are alike have one program text. -/
theorem Alike.source {r s : Rule} (h : r.Alike s) : r.source = s.source := by
  induction h with
  | fetch hroot path each each' => rw [Rule.source, Rule.source, hroot.name]; rfl
  | check hroot path each _ ih =>
    rw [Rule.source, Rule.source, hroot.name, sourceInner, sourceInner, ih]
  | comparison h => exact h.source
  | ratio h => exact h.source
  | oneOf length _ ih => rw [Rule.source, Rule.source, sources_congr length ih]
  | allOf length _ ih => rw [Rule.source, Rule.source, sources_congr length ih]
  | branch hcond _ ih => rw [Rule.source, Rule.source, hcond.source, ih]
  | branchElse hcond _ _ ihyes ihno =>
    rw [Rule.source, Rule.source, hcond.source, ihyes, sourceElse, sourceElse, ihno]

end Rule

end Eligibility
