import Mathlib
import Eligibility.Proofs.Addresses
import Eligibility.Review.Lint

namespace Eligibility

/-- A part of a rule that is checked, the labels that lead to it, and what is wrong with it. -/
structure Check where
  labels : List String
  node : Node
  defect : Option Defect

namespace Checks

def test (ok : Bool) (d : Defect) (node : Node) : List Check :=
  [⟨[], node, if ok then none else some d⟩]

def within (label : String) (ks : List Check) : List Check :=
  ks.map fun k => { k with labels := label :: k.labels }

def each {α : Type} (key : String) (check : α → List Check) (i : Nat) : List α → List Check
  | [] => []
  | a :: as => within (Rule.indexed key i) (check a) ++ each key check (i + 1) as

def var (name : String) : List Check := test (isIdentifier name) (.badVar name) (.var name)

def result (name : String) : List Check :=
  test (isIdentifier name) (.badResult name) (.result name)

def number (x : Double) : List Check := test x.isFinite .notFinite (.literal (.number x))

def scalar : Scalar → List Check
  | .number x => number x
  | .result name => result name

def term (t : Term) : List Check :=
  within "coefficient" (scalar t.coefficient) ++ within "variable" (var t.name)

def affine (e : Affine) : List Check :=
  test (!e.constants.isEmpty) .noConstants (.affine e) ++
    each "affineTerms" term 0 e.terms ++ each "constantTerms" scalar 0 e.constants

def literal : Literal → List Check
  | .number x => number x
  | .text s => test (!s.toList.any Lint.needsEscape) (.unescaped s) (.literal (.text s))
  | .truth _ => []

def operand : Operand → List Check
  | .literal v => literal v
  | .var name => var name
  | .result name => result name
  | .affine e => affine e

def comparison (c : Comparison) : List Check :=
  within "lhs" (var c.lhs) ++ within "rhs" (operand c.rhs)

def ratio (q : Ratio) : List Check :=
  within "numerator" (var q.numerator) ++ within "denominator" (operand q.denominator) ++
    within "ratio" (number q.bound)

def root : TaskRoot → List Check
  | .loan => []
  | .result name => within "root" (test (isIdentifier name) (.badRoot name) (.result name))

/-- What is wrong with the path of a task, or else with the name that it binds. -/
def pathDefect? (path : TaskPath) (inner : Option Rule) : Option Defect :=
  if Lint.isCleanPath path.text then
    if inner.isSome && !isIdentifier path.binding then some (.badBinding path.binding path.text)
    else none
  else some (.badPath path.text)

def rule (r : Rule) : List Check :=
  match r with
  | .task origin path _ inner => root origin ++ [⟨[], .rule r, pathDefect? path inner⟩]
  | .comparison c => comparison c
  | .ratio q => ratio q
  | .oneOf options => test (!options.isEmpty) .noOptions (.rule r)
  | .allOf preds => test (!preds.isEmpty) .noPreds (.rule r)
  | .branch cond _ _ => within "cond" (comparison cond)

def failures (p : NodePath) (ks : List Check) : List Failure :=
  ks.filterMap fun k => k.defect.map fun d => d.on (p.descend k.labels) k.node

theorem failures_append (p : NodePath) (ks ks' : List Check) :
    failures p (ks ++ ks') = failures p ks ++ failures p ks' :=
  List.filterMap_append

theorem failures_test (p : NodePath) (ok : Bool) (d : Defect) (node : Node) :
    failures p (test ok d node) = Lint.expect ok d p node := by
  cases ok <;> rfl

/-- What the checks of a part find is at the path of the part. -/
theorem failures_within (p : NodePath) (label : String) (ks : List Check) :
    failures p (within label ks) = failures (p.child label) ks :=
  List.filterMap_map

theorem failures_scalar (p : NodePath) (s : Scalar) :
    failures p (scalar s) = Lint.scalar s p := by
  cases s <;> exact failures_test p _ _ _

/-- Terms are checked one by one, each at its index. -/
theorem failures_terms (p : NodePath) (i : Nat) (ts : List Term) :
    failures p (each "affineTerms" term i ts) = Lint.terms p i ts := by
  induction ts generalizing i with
  | nil => rfl
  | cons t ts ih =>
    rw [each, failures_append, failures_within, term, failures_append, failures_within,
      failures_within, failures_scalar, ih]
    exact congrArg (_ ++ · ++ _) (failures_test _ _ _ _)

theorem failures_constants (p : NodePath) (i : Nat) (ss : List Scalar) :
    failures p (each "constantTerms" scalar i ss) = Lint.constants p i ss := by
  induction ss generalizing i with
  | nil => rfl
  | cons s ss ih =>
    rw [each, failures_append, failures_within, failures_scalar, ih]
    rfl

theorem failures_affine (p : NodePath) (e : Affine) :
    failures p (affine e) = Lint.affine e p := by
  rw [affine, failures_append, failures_append, failures_test, failures_terms, failures_constants]
  rfl

/-- The checks of an operand find what the lint finds there. -/
theorem failures_operand (p : NodePath) (o : Operand) :
    failures p (operand o) = Lint.operand o p := by
  cases o with
  | literal v =>
    cases v with
    | number x => exact failures_test p _ _ _
    | text s => exact failures_test p _ _ _
    | truth b => rfl
  | var name => exact failures_test p _ _ _
  | result name => exact failures_test p _ _ _
  | affine e => exact failures_affine p e

theorem failures_comparison (p : NodePath) (c : Comparison) :
    failures p (comparison c) = Lint.comparison c p := by
  rw [comparison, failures_append, failures_within, failures_within, failures_operand, var,
    failures_test]
  rfl

theorem failures_ratio (p : NodePath) (q : Ratio) : failures p (ratio q) = Lint.ratio q p := by
  rw [ratio, failures_append, failures_append, failures_within, failures_within, failures_within,
    failures_operand, var, number, failures_test, failures_test]
  rfl

/-- The findings of the lint about a rule itself are those of its checks. -/
theorem failures_rule (p : NodePath) (r : Rule) : failures p (rule r) = Lint.here p r := by
  cases r with
  | task origin path each inner =>
    have hroot : failures p (root origin) = Lint.root origin p := by
      cases origin with
      | loan => rfl
      | result name => exact failures_test _ _ _ _
    rw [rule, failures_append, hroot, Lint.here]
    congr 1
    by_cases hclean : Lint.isCleanPath path.text = true
    · cases inner with
      | none => simp [failures, pathDefect?, hclean]
      | some s =>
        by_cases hname : isIdentifier path.binding = true
        · simp [failures, pathDefect?, hclean, hname, Lint.expect]
        · simp [failures, pathDefect?, hclean, hname, Lint.expect]
    · simp [failures, pathDefect?, hclean]
  | comparison c => exact failures_comparison p c
  | ratio q => exact failures_ratio p q
  | oneOf options => exact failures_test p _ _ _
  | allOf preds => exact failures_test p _ _ _
  | branch cond yes no =>
    rw [rule, failures_within]
    exact failures_comparison _ cond

/-- The checks are of distinct parts, and no label has a dot. -/
structure Placed (ks : List Check) : Prop where
  distinct : (ks.map Check.labels).Nodup
  dotless : ∀ k ∈ ks, ∀ label ∈ k.labels, '.' ∉ label.toList

theorem placed_nil : Placed [] := ⟨List.nodup_nil, List.forall_mem_nil _⟩

theorem placed_self (node : Node) (defect : Option Defect) : Placed [⟨[], node, defect⟩] :=
  ⟨List.nodup_singleton _, List.forall_mem_singleton.mpr (List.forall_mem_nil _)⟩

theorem placed_test (ok : Bool) (d : Defect) (node : Node) : Placed (test ok d node) :=
  placed_self node _

theorem head_of_mem_within {label : String} {ks : List Check} {k : Check}
    (h : k ∈ within label ks) : k.labels.head? = some label := by
  obtain ⟨k, -, rfl⟩ := List.mem_map.mp h
  rfl

/-- Checks of distinct parts stay so, seen from what they are parts of. -/
theorem Placed.within {ks : List Check} (h : Placed ks) {label : String}
    (hlabel : '.' ∉ label.toList) : Placed (within label ks) := by
  constructor
  · rw [Checks.within, List.map_map]
    have hmap : ks.map (Check.labels ∘ fun k => { k with labels := label :: k.labels }) =
        (ks.map Check.labels).map (label :: ·) := by
      rw [List.map_map]
      rfl
    rw [hmap]
    exact h.distinct.map fun _ _ he => (List.cons.inj he).2
  · intro k hk
    obtain ⟨part, hpart, rfl⟩ := List.mem_map.mp hk
    exact List.forall_mem_cons.mpr ⟨hlabel, h.dotless part hpart⟩

/-- Checks that start with different labels are of different parts. -/
theorem Placed.append {ks ks' : List Check} (h : Placed ks) (h' : Placed ks')
    (hne : ∀ k ∈ ks, ∀ k' ∈ ks', k.labels.head? ≠ k'.labels.head?) : Placed (ks ++ ks') := by
  constructor
  · rw [List.map_append]
    refine h.distinct.append h'.distinct fun labels hlabels hlabels' => ?_
    obtain ⟨k, hk, rfl⟩ := List.mem_map.mp hlabels
    obtain ⟨k', hk', he⟩ := List.mem_map.mp hlabels'
    exact hne k hk k' hk' (congrArg List.head? he).symm
  · exact List.forall_mem_append.mpr ⟨h.dotless, h'.dotless⟩

/-- Parts under two labels are distinct. -/
theorem Placed.within_append {ks ks' : List Check} (h : Placed ks) (h' : Placed ks')
    {label label' : String} (hlabel : '.' ∉ label.toList) (hlabel' : '.' ∉ label'.toList)
    (hne : label ≠ label') : Placed (Checks.within label ks ++ Checks.within label' ks') := by
  refine (h.within hlabel).append (h'.within hlabel') fun k hk k' hk' he => hne ?_
  rw [head_of_mem_within hk, head_of_mem_within hk'] at he
  exact Option.some.inj he

/-- The label of an element has its index, so the elements of a list are told apart. -/
theorem head_of_mem_each {α : Type} {key : String} {check : α → List Check} {i : Nat}
    {as : List α} {k : Check} (h : k ∈ each key check i as) :
    ∃ j, i ≤ j ∧ k.labels.head? = some (Rule.indexed key j) := by
  induction as generalizing i with
  | nil => cases h
  | cons a as ih =>
    rcases List.mem_append.mp h with h | h
    · exact ⟨i, Nat.le_refl i, head_of_mem_within h⟩
    · obtain ⟨j, hj, hhead⟩ := ih h
      exact ⟨j, by omega, hhead⟩

/-- The elements of a list are distinct parts. -/
theorem placed_each {α : Type} (key : String) (hkey : '.' ∉ key.toList)
    {check : α → List Check} (h : ∀ a, Placed (check a)) (i : Nat) (as : List α) :
    Placed (each key check i as) := by
  induction as generalizing i with
  | nil => exact placed_nil
  | cons a as ih =>
    have hlabel := Rule.dot_not_mem_indexed hkey i
    refine ((h a).within hlabel).append (ih (i + 1)) fun k hk k' hk' he => ?_
    obtain ⟨j, hj, hhead⟩ := head_of_mem_each hk'
    rw [head_of_mem_within hk, hhead, Option.some.injEq] at he
    have := Rule.indexed_injective key he
    omega

theorem placed_scalar (s : Scalar) : Placed (scalar s) := by
  cases s <;> exact placed_test _ _ _

theorem placed_term (t : Term) : Placed (term t) :=
  (placed_scalar _).within_append (placed_test _ _ _) (by simp) (by simp) (by simp)

theorem placed_affine (e : Affine) : Placed (affine e) := by
  have hterms := placed_each "affineTerms" (by simp) placed_term 0 e.terms
  have hconstants := placed_each "constantTerms" (by simp) placed_scalar 0 e.constants
  rw [affine, List.append_assoc]
  refine (placed_test _ _ _).append (hterms.append hconstants fun k hk k' hk' he => ?_)
    fun k hk k' hk' he => ?_
  · obtain ⟨i, -, hi⟩ := head_of_mem_each hk
    obtain ⟨j, -, hj⟩ := head_of_mem_each hk'
    rw [hi, hj, Option.some.injEq, ← String.toList_inj, Rule.toList_indexed,
      Rule.toList_indexed] at he
    cases (List.cons.inj he).1
  · obtain rfl := List.mem_singleton.mp hk
    rcases List.mem_append.mp hk' with hk' | hk'
    · obtain ⟨j, -, hj⟩ := head_of_mem_each hk'
      rw [hj] at he
      cases he
    · obtain ⟨j, -, hj⟩ := head_of_mem_each hk'
      rw [hj] at he
      cases he

theorem placed_operand (o : Operand) : Placed (operand o) := by
  cases o with
  | literal v =>
    cases v with
    | number x => exact placed_test _ _ _
    | text s => exact placed_test _ _ _
    | truth b => exact placed_nil
  | var name => exact placed_test _ _ _
  | result name => exact placed_test _ _ _
  | affine e => exact placed_affine e

theorem placed_comparison (c : Comparison) : Placed (comparison c) :=
  (placed_test _ _ _).within_append (placed_operand _) (by simp) (by simp) (by simp)

theorem placed_ratio (q : Ratio) : Placed (ratio q) := by
  have hfirst : Placed (within "numerator" (var q.numerator) ++
      within "denominator" (operand q.denominator)) :=
    (placed_test _ _ _).within_append (placed_operand _) (by simp) (by simp) (by simp)
  refine hfirst.append ((placed_test _ _ _).within (by simp)) fun k hk k' hk' he => ?_
  rw [head_of_mem_within hk'] at he
  rcases List.mem_append.mp hk with hk | hk
  · rw [head_of_mem_within hk] at he
    exact absurd he (by simp)
  · rw [head_of_mem_within hk] at he
    exact absurd he (by simp)

/-- The checks of a rule are of distinct parts, none of which is a rule inside it. -/
theorem placed_rule (r : Rule) : Placed (rule r) := by
  cases r with
  | task origin path each inner =>
    cases origin with
    | loan => exact placed_self _ _
    | result name =>
      refine ((placed_test _ _ _).within (by simp)).append (placed_self _ _)
        fun k hk k' hk' he => ?_
      obtain rfl := List.mem_singleton.mp hk'
      rw [head_of_mem_within hk] at he
      cases he
  | comparison c => exact placed_comparison c
  | ratio q => exact placed_ratio q
  | oneOf options => exact placed_test _ _ _
  | allOf preds => exact placed_test _ _ _
  | branch cond yes no => exact (placed_comparison cond).within (by simp)

/-- No check of a rule itself is of a part of a rule inside it. -/
theorem head_ne_label {r c : Rule} {label : String} (hc : (label, c) ∈ r.children) {k : Check}
    (hk : k ∈ rule r) : k.labels.head? ≠ some label := by
  intro he
  cases Rule.isChild_of_mem hc with
  | inner origin path each c =>
    rcases List.mem_append.mp hk with hk | hk
    · cases origin with
      | loan => cases hk
      | result name =>
        rw [head_of_mem_within hk] at he
        exact absurd he (by simp)
    · obtain rfl := List.mem_singleton.mp hk
      cases he
  | option h =>
    obtain rfl := List.mem_singleton.mp hk
    cases he
  | pred h =>
    obtain rfl := List.mem_singleton.mp hk
    cases he
  | yes cond c no =>
    rw [head_of_mem_within hk] at he
    exact absurd he (by simp)
  | no cond yes c =>
    rw [head_of_mem_within hk] at he
    exact absurd he (by simp)

end Checks

end Eligibility
