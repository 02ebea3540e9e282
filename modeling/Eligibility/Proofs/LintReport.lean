import Mathlib
import Eligibility.Proofs.Clean
import Eligibility.Proofs.LintChecks

namespace Eligibility

namespace NodePath

/-- The path with `p` in place of the leading `root`. -/
def movedTo (p q : NodePath) : NodePath :=
  match "root".toList.isPrefixOf? q.text.toList with
  | some rest => ⟨p.text ++ String.ofList rest⟩
  | none => q

/-- What labels add to the text of a path does not depend on the path. -/
theorem exists_text_descend (labels : List String) :
    ∃ rest : String, ∀ p : NodePath, (p.descend labels).text = p.text ++ rest := by
  induction labels with
  | nil => exact ⟨"", fun p => by simp⟩
  | cons label labels ih =>
    obtain ⟨rest, hrest⟩ := ih
    refine ⟨"." ++ label ++ rest, fun p => ?_⟩
    rw [descend_cons, hrest]
    simp [child, String.append_assoc]

theorem movedTo_descend (p : NodePath) (labels : List String) :
    p.movedTo (root.descend labels) = p.descend labels := by
  obtain ⟨rest, hrest⟩ := exists_text_descend labels
  have hroot : "root".toList.isPrefixOf? (root.descend labels).text.toList = some rest.toList := by
    rw [hrest, String.toList_append, List.isPrefixOf?_eq_some_iff_append_eq]
    rfl
  rw [movedTo, hroot]
  change NodePath.mk (p.text ++ String.ofList rest.toList) = p.descend labels
  rw [String.ofList_toList, ← hrest p]

theorem descend_append (p : NodePath) (labels labels' : List String) :
    p.descend (labels ++ labels') = (p.descend labels).descend labels' :=
  List.foldl_append

theorem descend_injective {p : NodePath} {labels labels' : List String}
    (h : ∀ label ∈ labels, '.' ∉ label.toList) (h' : ∀ label ∈ labels', '.' ∉ label.toList)
    (he : p.descend labels = p.descend labels') : labels = labels' := by
  have hsegments := congrArg segments he
  rw [segments_descend p h, segments_descend p h', List.append_cancel_left_eq] at hsegments
  exact List.map_injective_iff.mpr (fun _ _ => String.toList_inj.mp) hsegments

end NodePath

def Failure.movedTo (p : NodePath) (f : Failure) : Failure := { f with path := p.movedTo f.path }

namespace Checks

theorem mem_failures {p : NodePath} {ks : List Check} {f : Failure} :
    f ∈ failures p ks ↔
      ∃ k ∈ ks, ∃ d, k.defect = some d ∧ f = d.on (p.descend k.labels) k.node := by
  simp only [failures, List.mem_filterMap, Option.map_eq_some_iff, @eq_comm _ f]

/-- The findings of checks are the same everywhere, but for the path. -/
theorem failures_descend (p : NodePath) (labels : List String) (ks : List Check) :
    failures (p.descend labels) ks =
      (failures (NodePath.root.descend labels) ks).map (Failure.movedTo p) := by
  rw [failures, failures, List.map_filterMap]
  refine List.filterMap_congr fun k _ => ?_
  cases k.defect with
  | none => rfl
  | some d =>
    simp only [Option.map_some, Failure.movedTo, Defect.on, ← NodePath.descend_append,
      NodePath.movedTo_descend]

theorem paths_failures (p : NodePath) (ks : List Check) :
    (failures p ks).map Failure.path =
      ((ks.filter fun k => k.defect.isSome).map Check.labels).map p.descend := by
  induction ks with
  | nil => rfl
  | cons k ks ih =>
    obtain ⟨labels, node, defect⟩ := k
    cases defect with
    | none => simpa [failures] using ih
    | some d => simpa [failures, Defect.on] using ih

/-- Checks of distinct parts give findings with distinct paths. -/
theorem Placed.nodup_failures {ks : List Check} (h : Placed ks) (p : NodePath) :
    ((failures p ks).map Failure.path).Nodup := by
  rw [paths_failures]
  have hsublist : ((ks.filter fun k => k.defect.isSome).map Check.labels).Sublist
      (ks.map Check.labels) := List.filter_sublist.map _
  refine (h.distinct.sublist hsublist).map_on fun labels hlabels labels' hlabels' he => ?_
  obtain ⟨k, hk, rfl⟩ := List.mem_map.mp (hsublist.subset hlabels)
  obtain ⟨k', hk', rfl⟩ := List.mem_map.mp (hsublist.subset hlabels')
  exact NodePath.descend_injective (h.dotless k hk) (h.dotless k' hk') he

end Checks

namespace Rule

def lintAt (p : NodePath) (r : Rule) : List Failure :=
  (r.preorder p).flatMap fun e => Lint.here e.1 e.2

theorem lint_eq_lintAt (r : Rule) : r.lint = r.lintAt .root := by
  rw [lint, walk_eq]
  rfl

theorem lintAt_eq (p : NodePath) (r : Rule) :
    r.lintAt p = Lint.here p r ++ r.children.flatMap fun c => c.2.lintAt (p.child c.1) := by
  rw [lintAt, preorder_eq, List.flatMap_cons, List.flatMap_assoc]
  rfl

/-- A rule has the same findings at all paths, moved there. -/
theorem lintAt_descend (p : NodePath) (labels : List String) (r : Rule) :
    r.lintAt (p.descend labels) =
      (r.lintAt (NodePath.root.descend labels)).map (Failure.movedTo p) := by
  induction r using children_induction generalizing labels with
  | step r ih =>
    rw [lintAt_eq, lintAt_eq, List.map_append, List.map_flatMap, ← Checks.failures_rule,
      Checks.failures_descend, Checks.failures_rule]
    congr 1
    refine List.flatMap_congr fun c hc => ?_
    rw [← NodePath.descend_concat, ih c hc, NodePath.descend_concat]

theorem lintAt_eq_map (p : NodePath) (r : Rule) :
    r.lintAt p = r.lint.map (Failure.movedTo p) := by
  rw [lint_eq_lintAt]
  exact r.lintAt_descend p []

/-- A finding about a rule itself is about no rule inside it. -/
theorem path_of_mem_here {p : NodePath} {r : Rule} {f : Failure} (h : f ∈ Lint.here p r) :
    f.path.Under p ∧ ∀ c ∈ r.children, ¬ f.path.Under (p.child c.1) := by
  rw [← Checks.failures_rule] at h
  obtain ⟨k, hk, d, -, rfl⟩ := Checks.mem_failures.mp h
  have hdots := (Checks.placed_rule r).dotless k hk
  refine ⟨p.under_descend hdots, fun c hc hunder => ?_⟩
  have hhead := NodePath.head_of_under_child (dot_not_mem_label hc) hdots hunder
  exact Checks.head_ne_label hc hk hhead

theorem under_of_mem_lintAt {p : NodePath} {r : Rule} {f : Failure} (h : f ∈ r.lintAt p) :
    f.path.Under p := by
  obtain ⟨⟨q, s⟩, hs, hf⟩ := List.mem_flatMap.mp h
  exact (path_of_mem_here hf).1.trans (under_of_mem_preorder hs)

/-- What only one child contributes to is what that child contributes. -/
theorem flatMap_children {α : Type} {r c : Rule} {label : String} (hc : (label, c) ∈ r.children)
    {parts : String × Rule → List α}
    (hnone : ∀ d ∈ r.children, d.1 ≠ label → parts d = []) :
    r.children.flatMap parts = parts (label, c) := by
  have hnodup := r.nodup_labels
  obtain ⟨before, after, hsplit⟩ := List.append_of_mem hc
  rw [hsplit, List.forall_mem_append, List.forall_mem_cons] at hnone
  rw [hsplit, List.map_append, List.map_cons, List.nodup_append, List.nodup_cons] at hnodup
  obtain ⟨-, ⟨hafter, -⟩, hbefore⟩ := hnodup
  have hleft : before.flatMap parts = [] := by
    refine List.flatMap_eq_nil_iff.mpr fun d hd => hnone.1 d hd ?_
    exact hbefore d.1 (List.mem_map_of_mem hd) label List.mem_cons_self
  have hright : after.flatMap parts = [] := by
    refine List.flatMap_eq_nil_iff.mpr fun d hd => hnone.2.2 d hd fun he => hafter ?_
    exact List.mem_map.mpr ⟨d, hd, he⟩
  rw [hsplit, List.flatMap_append, List.flatMap_cons, hleft, hright, List.nil_append,
    List.append_nil]

/-- The findings under the path of a rule are those of that rule, whatever it stands in. -/
theorem filter_lintAt {r s : Rule} {p q : NodePath} (h : (q, s) ∈ r.preorder p) :
    (r.lintAt p).filter (fun f => f.path.Under q) = s.lintAt q := by
  induction r using children_induction generalizing p with
  | step r ih =>
    rw [preorder_eq] at h
    rcases List.mem_cons.mp h with he | h
    · cases he
      exact List.filter_eq_self.mpr fun f hf => decide_eq_true (under_of_mem_lintAt hf)
    · obtain ⟨⟨label, c⟩, hc, hq⟩ := List.mem_flatMap.mp h
      have hunder := under_of_mem_preorder hq
      have hown : (Lint.here p r).filter (fun f => f.path.Under q) = [] := by
        refine List.filter_eq_nil_iff.mpr fun f hf hfq => ?_
        exact (path_of_mem_here hf).2 _ hc ((of_decide_eq_true hfq).trans hunder)
      have hothers : ∀ d ∈ r.children, d.1 ≠ label →
          (d.2.lintAt (p.child d.1)).filter (fun f => f.path.Under q) = [] := by
        intro d hd hne
        refine List.filter_eq_nil_iff.mpr fun f hf hfq => hne ?_
        exact NodePath.label_of_under (dot_not_mem_label hd) (dot_not_mem_label hc)
          (under_of_mem_lintAt hf) ((of_decide_eq_true hfq).trans hunder)
      rw [lintAt_eq, List.filter_append, hown, List.nil_append, List.filter_flatMap,
        flatMap_children hc hothers]
      exact ih _ hc hq

/-- A finding is one about the rule at some path of the tree. -/
theorem mem_lint_iff {r : Rule} {f : Failure} :
    f ∈ r.lint ↔ ∃ p s, r.at? p = some s ∧ f ∈ Lint.here p s := by
  constructor
  · intro h
    obtain ⟨⟨p, s⟩, hs, hf⟩ := List.mem_flatMap.mp h
    exact ⟨p, s, mem_walk_iff.mp hs, hf⟩
  · rintro ⟨p, s, hs, hf⟩
    exact List.mem_flatMap.mpr ⟨(p, s), mem_walk_iff.mpr hs, hf⟩

/-- The lint of a rule is what it finds about the rule itself, then the lint of each of its children
with the label put after `root`. Any rule of the tree has there the findings that it has alone. A
failure is reported exactly for each defect of a part of a rule of the tree, so none hides another,
and there is none exactly if each rule of the tree is sound in itself. -/
theorem lint_by_parts (r : Rule) :
    (r.lint = Lint.here .root r ++ r.children.flatMap fun c =>
      c.2.lint.map (Failure.movedTo (NodePath.root.child c.1))) ∧
    (∀ p s, r.at? p = some s →
      r.lint.filter (fun f => f.path.Under p) = s.lint.map (Failure.movedTo p)) ∧
    (∀ f, f ∈ r.lint ↔ ∃ p s, r.at? p = some s ∧ ∃ k ∈ Checks.rule s, ∃ d,
      k.defect = some d ∧ f = d.on (p.descend k.labels) k.node) ∧
    (r.lint = [] ↔ ∀ p s, r.at? p = some s → s.CleanHere) := by
  refine ⟨?_, fun p s hs => ?_, fun f => ?_, ?_⟩
  · rw [lint_eq_lintAt, lintAt_eq]
    congr 1
    exact List.flatMap_congr fun c _ => c.2.lintAt_eq_map _
  · rw [← mem_walk_iff, walk_eq] at hs
    rw [lint_eq_lintAt, filter_lintAt hs, lintAt_eq_map]
  · simp only [mem_lint_iff, ← Checks.failures_rule, Checks.mem_failures]
  · rw [lint, List.flatMap_eq_nil_iff]
    constructor
    · intro h p s hs
      exact Lint.here_eq_nil.mp (h (p, s) (mem_walk_iff.mpr hs))
    · intro h e he
      exact Lint.here_eq_nil.mpr (h e.1 e.2 (mem_walk_iff.mp he))

def scatteredFaults : Rule :=
  .allOf [.comparison ⟨"loan amount", .atLeast, .result "my-income"⟩, .oneOf []]

/-- All three are reported, and those of the comparison are the ones that it has alone. -/
theorem lint_by_parts_scattered :
    (scatteredFaults.lint.map fun f => f.path.text) =
      ["root.preds[0].lhs", "root.preds[0].rhs", "root.preds[1]"] ∧
    scatteredFaults.lint.filter (fun f => f.path.Under ⟨"root.preds[0]"⟩) =
      (Rule.comparison ⟨"loan amount", .atLeast, .result "my-income"⟩).lint.map
        (Failure.movedTo ⟨"root.preds[0]"⟩) := by
  obtain ⟨-, hcontext, -, -⟩ := lint_by_parts scatteredFaults
  exact ⟨by decide +kernel, hcontext _ _ rfl⟩

theorem nodup_lintAt (r : Rule) (p : NodePath) : ((r.lintAt p).map Failure.path).Nodup := by
  induction r using children_induction generalizing p with
  | step r ih =>
    have hown : ((Lint.here p r).map Failure.path).Nodup := by
      rw [← Checks.failures_rule]
      exact (Checks.placed_rule r).nodup_failures p
    rw [lintAt_eq, List.map_append, List.map_flatMap]
    refine r.nodup_append_children p hown ?_ (fun c hc => ih c hc _) ?_
    · intro q hq
      obtain ⟨f, hf, rfl⟩ := List.mem_map.mp hq
      exact (path_of_mem_here hf).2
    · intro c hc q hq
      obtain ⟨f, hf, rfl⟩ := List.mem_map.mp hq
      exact under_of_mem_lintAt hf

/-- No two failures of the lint have the same path. -/
theorem lint_paths_distinct (r : Rule) : (r.lint.map fun f => f.path.text).Nodup := by
  apply NodePath.nodup_texts
  rw [lint_eq_lintAt]
  exact r.nodup_lintAt .root

end Rule

end Eligibility
