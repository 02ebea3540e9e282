import Mathlib
import Eligibility.Review.Lint
import Eligibility.Proofs.Walk

namespace Eligibility

def Scalar.Clean : Scalar → Prop
  | .number x => x.isFinite = true
  | .result name => isIdentifier name = true

structure Term.Clean (t : Term) : Prop where
  coefficient : t.coefficient.Clean
  name : isIdentifier t.name = true

structure Affine.Clean (e : Affine) : Prop where
  nonempty : e.constants ≠ []
  terms : ∀ t ∈ e.terms, t.Clean
  constants : ∀ s ∈ e.constants, s.Clean

def Literal.Clean : Literal → Prop
  | .number x => x.isFinite = true
  | .text s => ∀ c ∈ s.toList, Lint.needsEscape c = false
  | .truth _ => True

def Operand.Clean : Operand → Prop
  | .literal v => v.Clean
  | .var name => isIdentifier name = true
  | .result name => isIdentifier name = true
  | .affine e => e.Clean

structure Comparison.Clean (c : Comparison) : Prop where
  lhs : isIdentifier c.lhs = true
  rhs : c.rhs.Clean

structure Ratio.Clean (q : Ratio) : Prop where
  numerator : isIdentifier q.numerator = true
  denominator : q.denominator.Clean
  bound : q.bound.isFinite = true

def TaskRoot.Clean : TaskRoot → Prop
  | .loan => True
  | .result name => isIdentifier name = true

/-- The rule itself is sound, whatever the rules inside it are. A binding is used, and so checked,
only if there is an inner rule. -/
def Rule.CleanHere : Rule → Prop
  | .task root path _ inner =>
    root.Clean ∧ Lint.isCleanPath path.text = true ∧
      (inner.isSome = true → isIdentifier path.binding = true)
  | .comparison c => c.Clean
  | .ratio q => q.Clean
  | .oneOf options => options ≠ []
  | .allOf preds => preds ≠ []
  | .branch cond _ _ => cond.Clean

inductive Rule.Clean : Rule → Prop where
  | intro (r : Rule) (here : r.CleanHere) (inside : ∀ c ∈ r.children, c.2.Clean) : r.Clean

namespace Lint

/-- A check finds nothing exactly if it holds. -/
theorem expect_eq_nil {ok : Bool} {d : Defect} {path : NodePath} {node : Node} :
    expect ok d path node = [] ↔ ok = true := by
  cases ok <;> simp [expect]

theorem scalar_eq_nil {s : Scalar} {path : NodePath} : scalar s path = [] ↔ s.Clean := by
  cases s with
  | number x => exact expect_eq_nil
  | result name => exact expect_eq_nil

theorem terms_eq_nil {path : NodePath} {i : Nat} {ts : List Term} :
    terms path i ts = [] ↔ ∀ t ∈ ts, t.Clean := by
  induction ts generalizing i with
  | nil => simp [terms]
  | cons t ts ih =>
    simp only [terms, var, List.append_eq_nil_iff, scalar_eq_nil, expect_eq_nil, ih,
      List.forall_mem_cons]
    constructor
    · rintro ⟨⟨hc, hn⟩, hts⟩
      exact ⟨⟨hc, hn⟩, hts⟩
    · rintro ⟨ht, hts⟩
      exact ⟨⟨ht.coefficient, ht.name⟩, hts⟩

theorem constants_eq_nil {path : NodePath} {i : Nat} {ss : List Scalar} :
    constants path i ss = [] ↔ ∀ s ∈ ss, s.Clean := by
  induction ss generalizing i with
  | nil => simp [constants]
  | cons s ss ih =>
    simp only [constants, List.append_eq_nil_iff, scalar_eq_nil, ih, List.forall_mem_cons]

theorem affine_eq_nil {e : Affine} {path : NodePath} : affine e path = [] ↔ e.Clean := by
  simp only [affine, List.append_eq_nil_iff, expect_eq_nil, terms_eq_nil, constants_eq_nil,
    Bool.not_eq_true', List.isEmpty_eq_false_iff]
  constructor
  · rintro ⟨⟨hne, hts⟩, hcs⟩
    exact ⟨hne, hts, hcs⟩
  · intro h
    exact ⟨⟨h.nonempty, h.terms⟩, h.constants⟩

theorem literal_eq_nil {v : Literal} {path : NodePath} : literal v path = [] ↔ v.Clean := by
  cases v with
  | number x => exact expect_eq_nil
  | text s => simp [literal, expect_eq_nil, Literal.Clean]
  | truth b => simp [literal, Literal.Clean]

/-- Nothing is found in an operand exactly if it is clean. -/
theorem operand_eq_nil {o : Operand} {path : NodePath} : operand o path = [] ↔ o.Clean := by
  cases o with
  | literal v => exact literal_eq_nil
  | var name => exact expect_eq_nil
  | result name => exact expect_eq_nil
  | affine e => exact affine_eq_nil

/-- Nothing is found in a comparison exactly if both sides are clean. -/
theorem comparison_eq_nil {c : Comparison} {path : NodePath} :
    comparison c path = [] ↔ c.Clean := by
  simp only [comparison, var, List.append_eq_nil_iff, expect_eq_nil, operand_eq_nil]
  exact ⟨fun ⟨hl, hr⟩ => ⟨hl, hr⟩, fun h => ⟨h.lhs, h.rhs⟩⟩

theorem ratio_eq_nil {q : Ratio} {path : NodePath} : ratio q path = [] ↔ q.Clean := by
  simp only [ratio, var, number, List.append_eq_nil_iff, expect_eq_nil, operand_eq_nil]
  exact ⟨fun ⟨⟨hn, hd⟩, hb⟩ => ⟨hn, hd, hb⟩, fun h => ⟨⟨h.numerator, h.denominator⟩, h.bound⟩⟩

theorem root_eq_nil {root : TaskRoot} {path : NodePath} :
    Lint.root root path = [] ↔ root.Clean := by
  cases root with
  | loan => simp [Lint.root, TaskRoot.Clean]
  | result name => exact expect_eq_nil

/-- Whether a rule itself has findings does not depend on where it stands. -/
theorem here_eq_nil {path : NodePath} {r : Rule} : here path r = [] ↔ r.CleanHere := by
  cases r with
  | task origin p each inner =>
    simp only [here, Rule.CleanHere, List.append_eq_nil_iff, root_eq_nil]
    by_cases hp : isCleanPath p.text = true
    · cases inner <;> simp [hp, expect_eq_nil]
    · simp [hp]
  | comparison c => exact comparison_eq_nil
  | ratio q => exact ratio_eq_nil
  | oneOf options => simp [here, expect_eq_nil, Rule.CleanHere]
  | allOf preds => simp [here, expect_eq_nil, Rule.CleanHere]
  | branch cond yes no => exact comparison_eq_nil

end Lint

namespace Rule

/-- A rule is clean exactly if it is sound itself and the rules inside it are clean. -/
theorem clean_iff {r : Rule} : r.Clean ↔ r.CleanHere ∧ ∀ c ∈ r.children, c.2.Clean := by
  constructor
  · rintro ⟨_, here, inside⟩
    exact ⟨here, inside⟩
  · rintro ⟨here, inside⟩
    exact .intro r here inside

/-- At any path, the lint of a rule is empty exactly if the rule is clean. -/
theorem preorder_lint_eq_nil {r : Rule} {path : NodePath} :
    (r.preorder path).flatMap (fun w => Lint.here w.1 w.2) = [] ↔ r.Clean := by
  induction r using children_induction generalizing path with
  | step r ih =>
    rw [preorder_eq, List.flatMap_cons, List.append_eq_nil_iff, Lint.here_eq_nil, clean_iff,
      List.flatMap_assoc, List.flatMap_eq_nil_iff]
    refine and_congr_right fun _ => ?_
    constructor
    · intro h c hc
      exact (ih c hc).mp (h c hc)
    · intro h c hc
      exact (ih c hc).mpr (h c hc)

/-- The lint reports nothing exactly when every rule of the tree is sound. -/
theorem lint_eq_nil {r : Rule} : r.lint = [] ↔ r.Clean := by
  rw [lint, walk_eq]
  exact preorder_lint_eq_nil

theorem Clean.inner {root : TaskRoot} {path : TaskPath} {each : Bool} {r : Rule}
    (h : (Rule.task root path each (some r)).Clean) : r.Clean :=
  (clean_iff.mp h).2 ("inner", r) (by simp [children])

theorem Clean.options {options : List Rule} (h : (Rule.oneOf options).Clean) :
    ∀ r ∈ options, r.Clean := by
  intro r hr
  obtain ⟨label, hm⟩ := exists_label "options" 0 hr
  exact (clean_iff.mp h).2 _ hm

theorem Clean.preds {preds : List Rule} (h : (Rule.allOf preds).Clean) :
    ∀ r ∈ preds, r.Clean := by
  intro r hr
  obtain ⟨label, hm⟩ := exists_label "preds" 0 hr
  exact (clean_iff.mp h).2 _ hm

theorem Clean.yes {cond : Comparison} {yes : Rule} {no : Option Rule}
    (h : (Rule.branch cond yes no).Clean) : yes.Clean :=
  (clean_iff.mp h).2 ("then", yes) (by cases no <;> simp [children])

theorem Clean.no {cond : Comparison} {yes no : Rule}
    (h : (Rule.branch cond yes (some no)).Clean) : no.Clean :=
  (clean_iff.mp h).2 ("else", no) (by simp [children])

theorem Clean.self {r : Rule} (h : r.Clean) : r.CleanHere := (clean_iff.mp h).1

end Rule

end Eligibility
