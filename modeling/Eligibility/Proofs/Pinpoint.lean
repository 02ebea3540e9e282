import Mathlib
import Eligibility.Proofs.Acceptance
import Eligibility.Proofs.NodeDocument

namespace Eligibility

namespace Json

def index? (cs : List Char) : Option Nat :=
  match Text.cut? [']'] cs with
  | some (digits, []) =>
    if digits.all Char.isDigit && !digits.isEmpty then some (Nat.ofDigitChars 10 digits 0) else none
  | _ => none

/-- What one segment of a path selects: `k` the member `k`, and `k[i]` an element of that member. -/
def select? (segment : List Char) (j : Json) : Option Json :=
  match Text.cut? ['['] segment with
  | none => j.member? (String.ofList segment)
  | some (key, index) => do
    let list ← j.member? (String.ofList key)
    let i ← index? index
    list.item? i

def follow? (j : Json) : List (List Char) → Option Json
  | [] => some j
  | segment :: segments =>
    match j.select? segment with
    | some part => part.follow? segments
    | none => none

/-- The part of a document that a path leads to. The path `root` leads to all of it. -/
def at? (j : Json) (p : NodePath) : Option Json :=
  match Text.pieces '.' p.text.toList with
  | [] => none
  | first :: segments => if first = "root".toList then j.follow? segments else none

theorem index?_toDigits (i : Nat) : index? (Nat.toDigits 10 i ++ [']']) = some i := by
  have hdigit : ∀ c ∈ Nat.toDigits 10 i, c.isDigit = true := fun c hc =>
    Nat.isDigit_of_mem_toDigits (by decide) (by decide) hc
  have hbracket : ']' ∉ Nat.toDigits 10 i := fun h => absurd (hdigit _ h) (by decide)
  have hall : (Nat.toDigits 10 i).all Char.isDigit = true := List.all_eq_true.mpr hdigit
  have hne : (Nat.toDigits 10 i).isEmpty = false := by
    simp [Nat.toDigits_ne_nil]
  rw [index?, Text.cut?_append hbracket]
  simp [hall, hne, Nat.ofDigitChars_ten_toDigits]

def IsKey (label : String) : Prop := '.' ∉ label.toList ∧ '[' ∉ label.toList

instance (label : String) : Decidable (IsKey label) := inferInstanceAs (Decidable (_ ∧ _))

/-- A segment that is a key selects the member with that key. -/
theorem select?_key {key : String} (h : IsKey key) (j : Json) :
    j.select? key.toList = j.member? key := by
  rw [select?, Text.cut?_of_not_mem h.2, String.ofList_toList]

/-- A segment with an index selects an element of the member before the bracket. -/
theorem select?_indexed {key : String} (h : IsKey key) (i : Nat) (j : Json) :
    j.select? (Rule.indexed key i).toList = (j.member? key).bind (item? i) := by
  rw [select?, Rule.toList_indexed, Text.cut?_append h.2]
  simp only [String.ofList_toList, index?_toDigits]
  rfl

theorem follow?_concat {j part : Json} {segments : List (List Char)}
    (h : j.follow? segments = some part) (segment : List Char) :
    j.follow? (segments ++ [segment]) = part.select? segment := by
  induction segments generalizing j with
  | nil =>
    cases h
    rw [List.nil_append, follow?]
    cases part.select? segment <;> rfl
  | cons s segments ih =>
    simp only [List.cons_append, follow?] at h ⊢
    split at h
    · exact ih h
    · cases h

theorem at?_root (j : Json) : j.at? .root = some j := by
  rfl

/-- A path goes on from the part of the document that it has led to. -/
theorem at?_child {j part : Json} {p : NodePath} (h : j.at? p = some part) {label : String}
    (hdot : '.' ∉ label.toList) : j.at? (p.child label) = part.select? label.toList := by
  unfold at? at h ⊢
  rw [NodePath.pieces_child p hdot]
  cases hpieces : Text.pieces '.' p.text.toList with
  | nil => exact absurd hpieces (Text.pieces_ne_nil _ _)
  | cons first segments =>
    simp only [hpieces, List.cons_append] at h ⊢
    split_ifs at h ⊢ with hroot
    exact follow?_concat h _

theorem at?_member (key : String) {j : Json} {p : NodePath} {ms : List (String × Json)}
    (h : j.at? p = some (.object ms)) (hkey : IsKey key) {part : Json}
    (hm : ms.lookup key = some part) : j.at? (p.child key) = some part := by
  rw [at?_child h hkey.1, select?_key hkey, member?, hm]

def Places (j : Json) (p : NodePath) (key : String) {α : Type} (doc : α → Json) (i : Nat)
    (as : List α) : Prop :=
  ∀ k a, as[k]? = some a → j.at? (p.child (Rule.indexed key (i + k))) = some (doc a)

section Places

variable {j : Json} {p : NodePath} {key : String} {α : Type} {doc : α → Json} {i : Nat} {a : α}
  {as : List α}

theorem Places.head (h : j.Places p key doc i (a :: as)) :
    j.at? (p.child (Rule.indexed key i)) = some (doc a) :=
  h 0 a rfl

theorem Places.tail (h : j.Places p key doc i (a :: as)) : j.Places p key doc (i + 1) as := by
  intro k b hk
  rw [Nat.add_right_comm, Nat.add_assoc]
  exact h (k + 1) b hk

/-- The elements of a list are where the labels with their indices lead. -/
theorem places_member {ms : List (String × Json)} (h : j.at? p = some (.object ms))
    (hkey : IsKey key) (hm : ms.lookup key = some (.array (as.map doc))) :
    j.Places p key doc 0 as := by
  intro k a hk
  rw [at?_child h (Rule.dot_not_mem_indexed hkey.1 _), select?_indexed hkey, member?, hm]
  change (as.map doc)[0 + k]? = some (doc a)
  rw [Nat.zero_add, List.getElem?_map, hk, Option.map_some]

end Places

end Json

/-- The path of the failure leads to the document of its node. -/
def Failure.PinnedIn (f : Failure) (j : Json) : Prop := j.at? f.path = some f.node.toJson

variable {j : Json} {p : NodePath}

namespace Rule

theorem at?_labelled {ms : List (String × Json)} (h : j.at? p = some (.object ms)) {key : String}
    (hkey : Json.IsKey key) {rs : List Rule} (hm : ms.lookup key = some (.array (toJsons rs)))
    {label : String} {r : Rule} (hr : (label, r) ∈ labelled key 0 rs) :
    j.at? (p.child label) = some r.toJson := by
  obtain ⟨k, rfl, hk⟩ := getElem?_of_mem_labelled hr
  rw [toJsons_eq] at hm
  exact Json.places_member h hkey hm k r hk

/-- The label of a rule inside another one leads from the one document to the other. -/
theorem at?_of_mem_children {r c : Rule} {label : String} (h : j.at? p = some r.toJson)
    (hc : (label, c) ∈ r.children) : j.at? (p.child label) = some c.toJson := by
  cases isChild_of_mem hc with
  | inner root path each c =>
    rw [toJson] at h
    refine Json.at?_member "inner" h (by decide) ?_
    cases each <;> rfl
  | option hm =>
    rw [toJson] at h
    exact at?_labelled h (by decide) rfl hm
  | pred hm =>
    rw [toJson] at h
    exact at?_labelled h (by decide) rfl hm
  | yes cond c no =>
    rw [toJson] at h
    exact Json.at?_member "then" h (by decide) rfl
  | no cond yes c =>
    rw [toJson] at h
    exact Json.at?_member "else" h (by decide) rfl

theorem leads_of_mem_preorder {r s : Rule} {q : NodePath} (h : j.at? p = some r.toJson)
    (hs : (q, s) ∈ r.preorder p) : j.at? q = some s.toJson := by
  induction r using children_induction generalizing p with
  | step r ih =>
    rw [preorder_eq] at hs
    rcases List.mem_cons.mp hs with he | hs
    · cases he
      exact h
    · obtain ⟨⟨label, c⟩, hc, hs⟩ := List.mem_flatMap.mp hs
      exact ih _ hc (at?_of_mem_children h hc) hs

/-- The path of each rule of the walk leads to the document of that rule. -/
theorem leads_of_mem_walk {r s : Rule} {q : NodePath} (hs : (q, s) ∈ r.walk) :
    r.toJson.at? q = some s.toJson := by
  rw [walk_eq] at hs
  exact leads_of_mem_preorder (Json.at?_root _) hs

end Rule

namespace Lint

/-- A check that fails is pinned to the part it is about, if that is where its path leads. -/
theorem pinned_expect {ok : Bool} {d : Defect} {node : Node} (h : j.at? p = some node.toJson) :
    ∀ f ∈ expect ok d p node, f.PinnedIn j := by
  intro f hf
  cases ok with
  | true => cases hf
  | false =>
    cases List.mem_singleton.mp hf
    exact h

theorem pinned_scalar {s : Scalar} (h : j.at? p = some s.toJson) :
    ∀ f ∈ scalar s p, f.PinnedIn j := by
  cases s with
  | number x => exact pinned_expect h
  | result name => exact pinned_expect h

theorem pinned_literal {v : Literal} (h : j.at? p = some v.toJson) :
    ∀ f ∈ literal v p, f.PinnedIn j := by
  cases v with
  | number x => exact pinned_expect h
  | text s => exact pinned_expect h
  | truth b =>
    intro f hf
    cases hf

theorem pinned_terms {ts : List Term} {i : Nat} (h : j.Places p "affineTerms" Term.toJson i ts) :
    ∀ f ∈ terms p i ts, f.PinnedIn j := by
  induction ts generalizing i with
  | nil =>
    intro f hf
    cases hf
  | cons t ts ih =>
    have hcoefficient := Json.at?_member "coefficient" h.head (by decide) rfl
    have hvariable := Json.at?_member "variable" h.head (by decide) rfl
    simp only [terms, List.forall_mem_append]
    exact ⟨⟨pinned_scalar hcoefficient, pinned_expect hvariable⟩, ih h.tail⟩

theorem pinned_constants {ss : List Scalar} {i : Nat}
    (h : j.Places p "constantTerms" Scalar.toJson i ss) : ∀ f ∈ constants p i ss, f.PinnedIn j := by
  induction ss generalizing i with
  | nil =>
    intro f hf
    cases hf
  | cons s ss ih =>
    simp only [constants, List.forall_mem_append]
    exact ⟨pinned_scalar h.head, ih h.tail⟩

theorem pinned_affine {e : Affine} (h : j.at? p = some e.toJson) :
    ∀ f ∈ affine e p, f.PinnedIn j := by
  have hterms : j.Places p "affineTerms" Term.toJson 0 e.terms :=
    Json.places_member h (by decide) rfl
  have hconstants : j.Places p "constantTerms" Scalar.toJson 0 e.constants :=
    Json.places_member h (by decide) rfl
  simp only [affine, List.forall_mem_append]
  exact ⟨⟨pinned_expect h, pinned_terms hterms⟩, pinned_constants hconstants⟩

/-- What is found in an operand is pinned to its parts. -/
theorem pinned_operand {o : Operand} (h : j.at? p = some o.toJson) :
    ∀ f ∈ operand o p, f.PinnedIn j := by
  cases o with
  | literal v => exact pinned_literal h
  | var name => exact pinned_expect h
  | result name => exact pinned_expect h
  | affine e => exact pinned_affine h

theorem pinned_comparison {c : Comparison} (h : j.at? p = some c.toJson) :
    ∀ f ∈ comparison c p, f.PinnedIn j := by
  have hlhs := Json.at?_member "lhs" h (by decide) rfl
  have hrhs := Json.at?_member "rhs" h (by decide) rfl
  simp only [comparison, List.forall_mem_append]
  exact ⟨pinned_expect hlhs, pinned_operand hrhs⟩

theorem pinned_ratio {q : Ratio} (h : j.at? p = some q.toJson) :
    ∀ f ∈ ratio q p, f.PinnedIn j := by
  have hnumerator := Json.at?_member "numerator" h (by decide) rfl
  have hdenominator := Json.at?_member "denominator" h (by decide) rfl
  have hbound := Json.at?_member "ratio" h (by decide) rfl
  simp only [ratio, List.forall_mem_append]
  exact ⟨⟨pinned_expect hnumerator, pinned_operand hdenominator⟩, pinned_expect hbound⟩

theorem pinned_root {root : TaskRoot} (h : j.at? (p.child "root") = some root.toJson) :
    ∀ f ∈ Lint.root root p, f.PinnedIn j := by
  cases root with
  | loan =>
    intro f hf
    cases hf
  | result name => exact pinned_expect h

/-- Every finding about a rule itself is about a part of it, where its path says. -/
theorem pinned_here {r : Rule} (h : j.at? p = some r.toJson) :
    ∀ f ∈ here p r, f.PinnedIn j := by
  cases r with
  | task root path each inner =>
    have hroot := Json.at?_member "root" h (by decide) rfl
    simp only [here, List.forall_mem_append]
    refine ⟨pinned_root hroot, ?_⟩
    split_ifs
    · exact pinned_expect h
    · intro f hf
      cases hf
    · intro f hf
      cases List.mem_singleton.mp hf
      exact h
  | comparison c => exact pinned_comparison h
  | ratio q => exact pinned_ratio h
  | oneOf options => exact pinned_expect h
  | allOf preds => exact pinned_expect h
  | branch cond yes no => exact pinned_comparison (Json.at?_member "cond" h (by decide) rfl)

end Lint

theorem Bounds.pinned_here {r : Rule} (h : j.at? p = some r.toJson) :
    ∀ f ∈ Bounds.here p r, f.PinnedIn j := by
  intro f hf
  cases r with
  | allOf preds =>
    simp only [here] at hf
    split_ifs at hf
    · cases hf
    · obtain ⟨c, hc, rfl⟩ := List.mem_map.mp hf
      exact h
  | _ => cases hf

/-- Every finding of the lint leads to the document of the node it names. -/
theorem Rule.pinned_lint (r : Rule) : ∀ f ∈ r.lint, f.PinnedIn r.toJson := by
  intro f hf
  obtain ⟨⟨q, s⟩, hs, hf⟩ := List.mem_flatMap.mp hf
  exact Lint.pinned_here (leads_of_mem_walk hs) f hf

/-- Every conflict leads to the document of its conjunction. -/
theorem Rule.pinned_conflicts (r : Rule) : ∀ f ∈ r.conflicts, f.PinnedIn r.toJson := by
  intro f hf
  obtain ⟨⟨q, s⟩, hs, hf⟩ := List.mem_flatMap.mp hf
  exact Bounds.pinned_here (leads_of_mem_walk hs) f hf

namespace Review

theorem pinned_overall (r : Rule) (code : FailureCode) (message : String) :
    (overall r code message).PinnedIn r.toJson :=
  Json.at?_root _

/-- Findings are pinned to their parts, and problems of the program text to the candidate as a
whole. -/
theorem pinned_wellFormed (r : Rule) : ∀ f ∈ wellFormed r, f.PinnedIn r.toJson := by
  simp only [wellFormed, List.forall_mem_append]
  refine ⟨r.pinned_lint, ?_⟩
  intro f hf
  obtain ⟨problem, -, rfl⟩ := List.mem_map.mp hf
  exact pinned_overall r _ _

/-- Of all the checks only that of the solver is not known to point to the parts of the rule. -/
theorem pinned_checks {kinds : List Kind} {r : Rule} {conflicts : List Failure} {verdict : Verdict}
    (h : ∀ f ∈ conflicts, f.PinnedIn r.toJson) :
    ∀ f ∈ wellFormed r ++ allowed kinds r ++ boolean r ++ conflicts ++ ofVerdict r verdict,
      f.PinnedIn r.toJson := by
  have hallowed : ∀ f ∈ allowed kinds r, f.PinnedIn r.toJson := by
    intro f hf
    unfold allowed at hf
    split_ifs at hf
    · cases hf
    · cases List.mem_singleton.mp hf
      exact pinned_overall r _ _
  have hboolean : ∀ f ∈ boolean r, f.PinnedIn r.toJson := by
    intro f hf
    unfold boolean at hf
    split_ifs at hf
    · cases hf
    · cases List.mem_singleton.mp hf
      exact pinned_overall r _ _
  have hverdict : ∀ f ∈ ofVerdict r verdict, f.PinnedIn r.toJson := by
    intro f hf
    cases verdict with
    | agree => cases hf
    | disagree reason =>
      cases List.mem_singleton.mp hf
      exact pinned_overall r _ _
  simp only [List.forall_mem_append]
  exact ⟨⟨⟨⟨pinned_wellFormed r, hallowed⟩, hboolean⟩, h⟩, hverdict⟩

theorem outcome_rejected {r : Rule} {failures failures' : List Failure}
    (h : outcome r failures = .rejected failures') : failures = failures' := by
  cases failures with
  | nil => cases h
  | cons f fs => exact Outcome.rejected.inj h

end Review

/-- Each failure for which a candidate is rejected names the node at its path: the path is followed
through the document of the candidate, and what it leads to is the document of the node. This holds
for the solver that checks bounds, for the one that checks nothing, and for every oracle. -/
theorem Validator.full_rejection_pinpoints {σ : Type} {solver : Solver}
    (hsolver : solver = .bounds ∨ solver = .unconstrained) (oracle : Oracle σ) (kinds : List Kind)
    (text : String) (r : Rule) {s t : σ} {failures : List Failure}
    (h : (Validator.full solver oracle kinds).validate text r s = (.ok (.rejected failures), t)) :
    ∀ f ∈ failures, (Node.rule r).toJson.at? f.path = some f.node.toJson := by
  obtain ⟨conflicts, hcheck, hconflicts⟩ :
      ∃ conflicts, solver.check r = .ok conflicts ∧ ∀ f ∈ conflicts, f.PinnedIn r.toJson := by
    rcases hsolver with rfl | rfl
    · exact ⟨r.conflicts, rfl, r.pinned_conflicts⟩
    · exact ⟨[], rfl, fun f hf => by cases hf⟩
  simp only [Validator.full, hcheck] at h
  rcases hjudge : oracle.judge text r.source s with ⟨verdict, u⟩
  rw [hjudge] at h
  cases verdict with
  | error trouble => cases h
  | ok verdict =>
    simp only [Prod.mk.injEq, Except.ok.injEq] at h
    obtain rfl := Review.outcome_rejected h.1
    exact Review.pinned_checks hconflicts

def deepFaults : Rule :=
  .allOf [.branch ⟨"1st", .atLeast, .affine ⟨[⟨.result "k", "x"⟩, ⟨.result "k", "a b"⟩], []⟩⟩
    (.oneOf []) none]

theorem Validator.full_rejection_pinpoints_deep :
    ∃ failures, (Validator.full Solver.bounds Oracle.assenting [.allOf]).validate "x" deepFaults () =
        (.ok (.rejected failures), ()) ∧
      failures.map (fun f => f.path.text) = ["root.preds[0].cond.lhs", "root.preds[0].cond.rhs",
        "root.preds[0].cond.rhs.affineTerms[1].variable", "root.preds[0].then", "root"] ∧
      ∀ f ∈ failures, (Node.rule deepFaults).toJson.at? f.path = some f.node.toJson := by
  have h : (Validator.full Solver.bounds Oracle.assenting [.allOf]).validate "x" deepFaults () =
      (.ok (.rejected _), ()) := rfl
  refine ⟨_, h, ?_, Validator.full_rejection_pinpoints (.inl rfl) Oracle.assenting [.allOf] "x"
    deepFaults h⟩
  decide +kernel

end Eligibility
