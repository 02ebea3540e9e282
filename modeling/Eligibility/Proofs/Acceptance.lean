import Mathlib
import Eligibility.Review.Validator
import Eligibility.Proofs.Cutting
import Eligibility.Proofs.ExactValue
import Eligibility.Proofs.SourceText

namespace Eligibility

namespace Source

theorem isBoolean_of_combinator {w : String} (h : w ∈ combinators) (rest : String) :
    isBoolean (w ++ rest) = true := by
  have : combinators.any (fun w' => w'.toList.isPrefixOf (w ++ rest).toList) = true := by
    rw [List.any_eq_true]
    exact ⟨w, h, by simp [List.isPrefixOf_iff_prefix]⟩
  simp only [isBoolean, this, Bool.true_or]

theorem firstCall_append {before : List Char} (h : '(' ∉ before) (after : List Char) :
    firstCall (before ++ '(' :: after) = some (before ++ ['(']) := by
  rw [firstCall, Text.cut?_append h, Option.map_some]

/-- A name has no parenthesis, so the first call after it is the one of its method. -/
theorem isBoolean_of_predicate {name : String} (method : String) (hn : isIdentifier name = true)
    (hm : "." ++ method ++ "(" ∈ predicates) (hp : '(' ∉ method.toList) (rest : String) :
    isBoolean (var name ++ "." ++ method ++ "(" ++ rest) = true := by
  have hname : '(' ∉ name.toList := by
    intro hc
    exact absurd (isIdentifier_chars hn _ hc) (by decide)
  have hbefore : '(' ∉ (var name).toList ++ '.' :: method.toList := by simp [var, hname, hp]
  have htext : (var name ++ "." ++ method ++ "(" ++ rest).toList =
      ((var name).toList ++ '.' :: method.toList) ++ '(' :: rest.toList := by simp
  have hcall : firstCall (var name ++ "." ++ method ++ "(" ++ rest).toList =
      some ((var name).toList ++ '.' :: method.toList ++ ['(']) := by
    rw [htext, firstCall_append hbefore]
  have hsuffix : predicates.any (fun w => w.toList.isSuffixOf
      ((var name).toList ++ '.' :: method.toList ++ ['('])) = true := by
    rw [List.any_eq_true]
    refine ⟨_, hm, ?_⟩
    rw [List.isSuffixOf_iff_suffix]
    exact ⟨(var name).toList, by simp⟩
  have hvars : "vars.".toList.isPrefixOf (var name ++ "." ++ method ++ "(" ++ rest).toList =
      true := by
    rw [List.isPrefixOf_iff_prefix]
    exact ⟨(name ++ "." ++ method ++ "(" ++ rest).toList, by simp [var]⟩
  simp only [isBoolean, hcall, hsuffix, hvars, Bool.and_true, Bool.or_true]

end Source

open Source

theorem Comparison.isBoolean_source {c : Comparison} (h : isIdentifier c.lhs = true) :
    Source.isBoolean c.source = true := by
  rw [Comparison.source, String.append_assoc]
  refine isBoolean_of_predicate c.operator.method h ?_ ?_ _
  · cases c.operator <;> simp [Operator.method, predicates]
  · cases c.operator <;> simp [Operator.method]

theorem Ratio.isBoolean_source {q : Ratio} (h : isIdentifier q.numerator = true) :
    Source.isBoolean q.source = true := by
  have := isBoolean_of_predicate "maintain_ratio" h (by simp [predicates])
    (by simp) (q.denominator.source ++ "," ++ Source.string q.operator.symbol ++ "," ++
      q.bound.source ++ ")")
  simpa [Ratio.source, String.append_assoc] using this

namespace Rule

def subject? : Rule → Option String
  | .comparison c => some c.lhs
  | .ratio q => some q.numerator
  | _ => none

/-- The program text of a rule starts like a rule, if the variable that comes first is a name. -/
theorem isBoolean_source {r : Rule} (h : ∀ name ∈ r.subject?, isIdentifier name = true) :
    Source.isBoolean r.source = true := by
  cases r with
  | task root path each inner =>
    rw [source]
    simp only [String.append_assoc]
    exact isBoolean_of_combinator (by simp [combinators]) _
  | comparison c => exact Comparison.isBoolean_source (h c.lhs rfl)
  | ratio q => exact Ratio.isBoolean_source (h q.numerator rfl)
  | oneOf options =>
    rw [source, String.append_assoc]
    exact isBoolean_of_combinator (by simp [combinators]) _
  | allOf preds =>
    rw [source, String.append_assoc]
    exact isBoolean_of_combinator (by simp [combinators]) _
  | branch cond yes no =>
    rw [source]
    simp only [String.append_assoc]
    exact isBoolean_of_combinator (by simp [combinators]) _

theorem Clean.subject {r : Rule} (h : r.Clean) : ∀ name ∈ r.subject?, isIdentifier name = true := by
  intro name hname
  cases r with
  | comparison c =>
    cases hname
    exact h.self.lhs
  | ratio q =>
    cases hname
    exact h.self.numerator
  | _ => cases hname

/-- The checks of program text never decide: a rule without findings of its own passes them. -/
theorem problems_of_lint {r : Rule} (h : r.lint = []) : Source.problems r.source = [] :=
  problems_of_balanced (lint_eq_nil.mp h).balanced

theorem isBoolean_of_lint {r : Rule} (h : r.lint = []) : Source.isBoolean r.source = true :=
  isBoolean_source (lint_eq_nil.mp h).subject

end Rule

namespace Review

/-- Lint and the checks of program text report nothing exactly if the lint does. -/
theorem wellFormed_eq_nil {r : Rule} : wellFormed r = [] ↔ r.lint = [] := by
  rw [wellFormed, List.append_eq_nil_iff, List.map_eq_nil_iff, Source.lint, List.map_eq_nil_iff]
  exact ⟨fun h => h.1, fun h => ⟨h, r.problems_of_lint h⟩⟩

theorem allowed_eq_nil {kinds : List Kind} {r : Rule} : allowed kinds r = [] ↔ r.kind ∈ kinds := by
  simp [allowed]

theorem ofVerdict_eq_nil {r : Rule} {v : Verdict} : ofVerdict r v = [] ↔ v = .agree := by
  cases v <;> simp [ofVerdict]

theorem outcome_accepted {r : Rule} {failures : List Failure} {program : String} :
    outcome r failures = .accepted program ↔ failures = [] ∧ program = r.source := by
  cases failures with
  | nil => simp [outcome, eq_comm]
  | cons f fs => simp [outcome]

/-- All checks pass exactly when the four that decide pass. -/
theorem checks_eq_nil {kinds : List Kind} {r : Rule} {conflicts : List Failure} {v : Verdict} :
    wellFormed r ++ allowed kinds r ++ boolean r ++ conflicts ++ ofVerdict r v = [] ↔
      r.lint = [] ∧ r.kind ∈ kinds ∧ conflicts = [] ∧ v = .agree := by
  simp only [List.append_eq_nil_iff, wellFormed_eq_nil, allowed_eq_nil, ofVerdict_eq_nil]
  constructor
  · rintro ⟨⟨⟨⟨hl, hk⟩, _⟩, hc⟩, hv⟩
    exact ⟨hl, hk, hc, hv⟩
  · rintro ⟨hl, hk, hc, hv⟩
    have hb : boolean r = [] := by simp [boolean, r.isBoolean_of_lint hl]
    exact ⟨⟨⟨⟨hl, hk⟩, hb⟩, hc⟩, hv⟩

end Review

/-- A candidate is accepted exactly when its lint is empty, its kind is allowed, the solver has found
nothing and the oracle agrees with its program, and then it is this program that is accepted. The
program of a rule with an empty lint passes both checks of program text. -/
theorem Validator.full_accepts_iff :
    (∀ {σ : Type} (solver : Solver) (oracle : Oracle σ) (kinds : List Kind) (text : String)
      (r : Rule) (s s' : σ) (conflicts : List Failure) (verdict : Verdict),
      solver.check r = .ok conflicts → oracle.judge text r.source s = (.ok verdict, s') →
      ∀ program, ((Validator.full solver oracle kinds).validate text r s).1 =
          .ok (.accepted program) ↔
        (r.lint = [] ∧ r.kind ∈ kinds ∧ conflicts = [] ∧ verdict = .agree) ∧
          program = r.source) ∧
    (∀ r : Rule, r.lint = [] →
      Source.problems r.source = [] ∧ Source.isBoolean r.source = true) := by
  constructor
  · intro σ solver oracle kinds text r s s' conflicts verdict hsolver horacle program
    simp only [Validator.full, hsolver, horacle, Except.ok.injEq, Review.outcome_accepted,
      Review.checks_eq_nil]
  · intro r h
    exact ⟨r.problems_of_lint h, r.isBoolean_of_lint h⟩

/-- A conjunction of a comparison with a sum and a task whose elements are checked one by one. -/
theorem Validator.full_accepts_conjunction :
    ((Validator.full Solver.bounds Oracle.assenting [.allOf]).validate "two parts"
      (.allOf [.comparison ⟨"x", .atLeast,
          .affine ⟨[⟨.result "k", "y"⟩], [.number (.finite false 0 Double.fits_zero)]⟩⟩,
        .task .loan ⟨"$.ab", rfl⟩ true
          (some (.comparison ⟨"z", .equal, .literal (.text "(a) b")⟩))]) ()).1 =
      .ok (.accepted ("dsl.allOf(vars.x.is_gte(vars.y.times(k).plus(0))," ++
        "fetchTask(Loan)(\"$.ab\",(ab)=>dsl.allOf(...ab.map((abElement)=>" ++
          "vars.z.is_eq(\"(a) b\")))))")) := by
  refine (Validator.full_accepts_iff.1 Solver.bounds Oracle.assenting [.allOf] "two parts" _ () ()
    [] .agree ?_ ?_ _).mpr ⟨⟨?_, ?_, ?_, ?_⟩, ?_⟩
  · rfl
  · rfl
  · rfl
  · decide
  · rfl
  · rfl
  · decide +kernel

end Eligibility
