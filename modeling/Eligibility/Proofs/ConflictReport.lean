import Mathlib
import Eligibility.Proofs.Addresses
import Eligibility.Proofs.ByteOrder
import Eligibility.Proofs.ConflictText
import Eligibility.Proofs.Satisfiability

namespace Eligibility

/-- The failure is about the conflict of a variable in the conjunction at a path; its message says
of which one. -/
def Failure.Reports (f : Failure) (p : NodePath) (x : String) : Prop :=
  f.code = .unsatisfiable ∧ f.path = p ∧ ∃ c : Bounds.Conflict, f.message = c.message x

/-- A failure reports one variable at one path. -/
theorem Failure.Reports.unique {f : Failure} {p q : NodePath} {x y : String} (h : f.Reports p x)
    (h' : f.Reports q y) : p = q ∧ x = y := by
  obtain ⟨-, hp, c, hc⟩ := h
  obtain ⟨-, hq, d, hd⟩ := h'
  exact ⟨hp.symm.trans hq, Bounds.Conflict.name_of_message (hc.symm.trans hd)⟩

namespace Bounds

theorem pairwise_insertName (s : String) {ts : List String} (h : ts.Pairwise (· < ·)) :
    (insertName s ts).Pairwise (· < ·) := by
  induction ts with
  | nil => exact List.pairwise_singleton _ s
  | cons t ts ih =>
    obtain ⟨hfirst, hrest⟩ := List.pairwise_cons.mp h
    rw [insertName]
    split_ifs with heq hlt
    · exact h
    · refine List.pairwise_cons.mpr ⟨List.forall_mem_cons.mpr ⟨hlt, fun u hu => ?_⟩, h⟩
      exact hlt.trans (hfirst u hu)
    · refine List.pairwise_cons.mpr ⟨fun u hu => ?_, ih hrest⟩
      rcases mem_insertName.mp hu with rfl | hu
      · exact lt_of_le_of_ne (not_lt.mp hlt) (Ne.symm heq)
      · exact hfirst u hu

theorem pairwise_namesOf (cs : List (String × Operator × Literal)) :
    (namesOf cs).Pairwise (· < ·) := by
  induction cs with
  | nil => exact .nil
  | cons e cs ih => exact pairwise_insertName e.1 ih

/-- The conflicts of a conjunction come by ascending name. -/
theorem pairwise_conflictsOf (cs : List (String × Operator × Literal)) :
    (conflictsOf cs).Pairwise fun a b => a.1 < b.1 := by
  have hconflicts : conflictsOf cs = (namesOf cs).filterMap fun n =>
      (ofVar cs n).conflict?.map fun c => (n, c) := rfl
  rw [hconflicts, List.pairwise_filterMap]
  refine (pairwise_namesOf cs).imp fun {m n} hlt a ha b hb => ?_
  obtain ⟨c, -, rfl⟩ := Option.map_eq_some_iff.mp ha
  obtain ⟨d, -, rfl⟩ := Option.map_eq_some_iff.mp hb
  exact hlt

def failure (p : NodePath) (preds : List Rule) (e : String × Conflict) : Failure :=
  ⟨.unsatisfiable, p, .rule (.allOf preds), e.2.message e.1⟩

theorem reports_failure (p : NodePath) (preds : List Rule) (e : String × Conflict) :
    (failure p preds e).Reports p e.1 :=
  ⟨rfl, rfl, e.2, rfl⟩

theorem here_allOf {p : NodePath} (preds : List Rule) (hown : isConjunct p = false) :
    here p (.allOf preds) = (conflictsOf (Rule.literalBounds preds)).map (failure p preds) := by
  rw [here, hown]
  rfl

theorem mem_here_iff {p : NodePath} {r : Rule} {f : Failure} :
    f ∈ here p r ↔ ∃ preds, r = .allOf preds ∧ isConjunct p = false ∧
      ∃ e ∈ conflictsOf (Rule.literalBounds preds), f = failure p preds e := by
  constructor
  · intro h
    cases r with
    | allOf preds =>
      cases hown : isConjunct p with
      | true => simp [here, hown] at h
      | false =>
        rw [here_allOf preds hown] at h
        obtain ⟨e, he, rfl⟩ := List.mem_map.mp h
        exact ⟨preds, rfl, rfl, e, he, rfl⟩
    | _ => cases h
  · rintro ⟨preds, rfl, hown, e, he, rfl⟩
    rw [here_allOf preds hown]
    exact List.mem_map_of_mem he

end Bounds

namespace Rule

def IsPart (r : Rule) (p : NodePath) : Prop :=
  ∃ q preds i, r.at? q = some (.allOf preds) ∧ i < preds.length ∧ p = q.child (indexed "preds" i)

/-- The path leads to a conjunction that is no element of another one. -/
structure Conjunction (r : Rule) (p : NodePath) (preds : List Rule) : Prop where
  leads : r.at? p = some (.allOf preds)
  own : ¬ r.IsPart p

/-- Two comparisons of the variable with literals clash, among those that the rule demands. -/
def ClashesIn (r : Rule) (x : String) : Prop :=
  ∃ o v o' v', r.Demands ⟨x, o, .literal v⟩ ∧ r.Demands ⟨x, o', .literal v'⟩ ∧ Clash o v o' v'

theorem clashesIn_iff {preds : List Rule} {x : String} :
    (Rule.allOf preds).ClashesIn x ↔ Bounds.Clashing (literalBounds preds) x := by
  simp only [ClashesIn, Bounds.Clashing, mem_literalBounds]

/-- A rule of the walk is the whole, or a child of a rule of the walk. -/
theorem parent_of_mem_preorder {r s : Rule} {p q : NodePath} (h : (q, s) ∈ r.preorder p) :
    (q, s) = (p, r) ∨ ∃ parent t label, (parent, t) ∈ r.preorder p ∧ (label, s) ∈ t.children ∧
      q = parent.child label := by
  induction r using children_induction generalizing p with
  | step r ih =>
    rw [preorder_eq] at h ⊢
    rcases List.mem_cons.mp h with he | h
    · exact .inl he
    · obtain ⟨⟨label, c⟩, hc, h⟩ := List.mem_flatMap.mp h
      refine .inr ?_
      rcases ih _ hc h with he | ⟨parent, t, label', ht, hs, hq⟩
      · cases he
        exact ⟨p, r, label, List.mem_cons_self, hc, rfl⟩
      · exact ⟨parent, t, label', List.mem_cons_of_mem _ (List.mem_flatMap_of_mem hc ht), hs, hq⟩

/-- The last segment of a path tells whether it leads to an element of a conjunction. -/
theorem isConjunct_iff {r s : Rule} {p : NodePath} (h : r.at? p = some s) :
    Bounds.isConjunct p = true ↔ r.IsPart p := by
  constructor
  · intro hconjunct
    rw [← mem_walk_iff, walk_eq] at h
    rcases parent_of_mem_preorder h with he | ⟨q, t, label, ht, hs, rfl⟩
    · cases he
      cases hconjunct
    · obtain ⟨preds, rfl, -⟩ := Bounds.mem_preds_of_isConjunct hs hconjunct
      obtain ⟨i, rfl, hi⟩ := getElem?_of_mem_labelled hs
      rw [← walk_eq, mem_walk_iff] at ht
      rw [Nat.zero_add]
      exact ⟨q, preds, i, ht, (List.getElem?_eq_some_iff.mp hi).1, rfl⟩
  · rintro ⟨q, preds, i, -, -, rfl⟩
    rw [Bounds.isConjunct, NodePath.lastSegment_child q (dot_not_mem_indexed (by decide) i),
      toList_indexed]
    rfl

/-- The failures are those of the conjunctions that are no element of another one, one for each
variable in conflict. -/
theorem mem_conflicts_iff {r : Rule} {f : Failure} :
    f ∈ r.conflicts ↔ ∃ p preds, r.Conjunction p preds ∧
      ∃ e ∈ Bounds.conflictsOf (literalBounds preds), f = Bounds.failure p preds e := by
  constructor
  · intro h
    obtain ⟨⟨p, s⟩, hs, hf⟩ := List.mem_flatMap.mp h
    obtain ⟨preds, rfl, hown, hf⟩ := Bounds.mem_here_iff.mp hf
    have hleads := mem_walk_iff.mp hs
    refine ⟨p, preds, ⟨hleads, fun hpart => ?_⟩, hf⟩
    rw [(isConjunct_iff hleads).mpr hpart] at hown
    cases hown
  · rintro ⟨p, preds, hconjunction, hf⟩
    have hown : Bounds.isConjunct p = false := by
      rw [← Bool.not_eq_true, isConjunct_iff hconjunction.leads]
      exact hconjunction.own
    exact List.mem_flatMap.mpr
      ⟨_, mem_walk_iff.mpr hconjunction.leads, Bounds.mem_here_iff.mpr ⟨preds, rfl, hown, hf⟩⟩

/-- A failure for a path and a variable is reported exactly if two comparisons of the variable clash
in a conjunction of its own at that path. -/
theorem exists_reports_iff {r : Rule} (hfinite : ∀ x ∈ r.numbers, x.isFinite = true)
    {p : NodePath} {x : String} :
    (∃ f ∈ r.conflicts, f.Reports p x) ↔
      ∃ preds, r.Conjunction p preds ∧ (Rule.allOf preds).ClashesIn x := by
  have hbounds : ∀ {q preds}, r.Conjunction q preds → FiniteBounds (literalBounds preds) :=
    fun h => finiteBounds fun y hy =>
      hfinite y ((inside_of_mem_walk (mem_walk_iff.mpr h.leads)).numbers hy)
  constructor
  · rintro ⟨f, hf, hreports⟩
    obtain ⟨q, preds, hconjunction, ⟨name, c⟩, hc, rfl⟩ := mem_conflicts_iff.mp hf
    obtain ⟨rfl, rfl⟩ := (Bounds.reports_failure q preds (name, c)).unique hreports
    refine ⟨preds, hconjunction, clashesIn_iff.mpr ?_⟩
    have hconflict := (Bounds.mem_conflictsOf (hbounds hconjunction)).mp hc
    exact (Bounds.conflict?_ofVar (hbounds hconjunction)).mp (Option.isSome_of_eq_some hconflict)
  · rintro ⟨preds, hconjunction, hclash⟩
    have hconflict :=
      (Bounds.conflict?_ofVar (hbounds hconjunction)).mpr (clashesIn_iff.mp hclash)
    obtain ⟨c, hc⟩ := Option.isSome_iff_exists.mp hconflict
    have hmem := (Bounds.mem_conflictsOf (hbounds hconjunction)).mpr hc
    exact ⟨_, mem_conflicts_iff.mpr ⟨p, preds, hconjunction, _, hmem, rfl⟩,
      Bounds.reports_failure p preds (x, c)⟩

/-- One pair of a path and a variable comes before another: its path is met earlier in the
pre-order, or the path is the same and the name has the smaller bytes. -/
def Earlier (r : Rule) (a b : NodePath × String) : Prop :=
  [a.1, b.1].Sublist ((r.preorder .root).map Prod.fst) ∨
    a.1 = b.1 ∧ Text.bytes a.2 < Text.bytes b.2

theorem Earlier.irrefl {r : Rule} {a : NodePath × String} : ¬ r.Earlier a a := by
  rintro (htwice | ⟨-, hlt⟩)
  · exact List.nodup_iff_sublist.mp (r.nodup_preorder .root) a.1 htwice
  · exact List.lt_irrefl _ hlt

/-- The failures stand in the order of the paths and names that they report. -/
theorem pairwise_conflicts (r : Rule) : r.conflicts.Pairwise fun f g => ∀ p x q y,
    f.Reports p x → g.Reports q y → r.Earlier (p, x) (q, y) := by
  rw [conflicts, List.pairwise_flatMap, walk_eq]
  constructor
  · rintro ⟨path, s⟩ -
    cases s with
    | allOf preds =>
      cases hown : Bounds.isConjunct path with
      | true => simp [Bounds.here, hown]
      | false =>
        simp only [Bounds.here_allOf preds hown, List.pairwise_map]
        refine (Bounds.pairwise_conflictsOf _).imp fun {a b} hlt p x q y hx hy => ?_
        obtain ⟨rfl, rfl⟩ := (Bounds.reports_failure path preds a).unique hx
        obtain ⟨rfl, rfl⟩ := (Bounds.reports_failure path preds b).unique hy
        exact .inr ⟨rfl, Text.bytes_lt hlt⟩
    | _ => exact .nil
  · refine List.pairwise_iff_forall_sublist.mpr fun {a b} hab f hf g hg p x q y hx hy => ?_
    obtain ⟨preds, -, -, e, -, rfl⟩ := Bounds.mem_here_iff.mp hf
    obtain ⟨preds', -, -, e', -, rfl⟩ := Bounds.mem_here_iff.mp hg
    obtain ⟨rfl, -⟩ := (Bounds.reports_failure a.1 preds e).unique hx
    obtain ⟨rfl, -⟩ := (Bounds.reports_failure b.1 preds' e').unique hy
    exact .inl (hab.map Prod.fst)

/-- No pair of a path and a variable is reported twice. -/
theorem index_of_reports {r : Rule} {i j : Nat} {f g : Failure} {p : NodePath} {x : String}
    (hi : r.conflicts[i]? = some f) (hj : r.conflicts[j]? = some g) (hf : f.Reports p x)
    (hg : g.Reports p x) : i = j := by
  have hnot : ∀ {i j : Nat} {f g : Failure}, r.conflicts[i]? = some f →
      r.conflicts[j]? = some g → f.Reports p x → g.Reports p x → ¬ i < j := by
    intro i j f g hi hj hf hg hlt
    obtain ⟨hilt, rfl⟩ := List.getElem?_eq_some_iff.mp hi
    obtain ⟨hjlt, rfl⟩ := List.getElem?_eq_some_iff.mp hj
    have hearlier := List.pairwise_iff_getElem.mp r.pairwise_conflicts i j hilt hjlt hlt
    exact Earlier.irrefl (hearlier p x p x hf hg)
  have := hnot hi hj hf hg
  have := hnot hj hi hg hf
  omega

/-- One change of a conjunction that leaves its comparisons as they are: its elements change places,
or some of them that stand together become one conjunction. -/
inductive Regroups : List Rule → List Rule → Prop where
  | permute {ps qs : List Rule} (h : ps.Perm qs) : Regroups ps qs
  | nest (before group after : List Rule) :
      Regroups (before ++ group ++ after) (before ++ .allOf group :: after)

theorem demands_allOf {preds : List Rule} {c : Comparison} :
    (Rule.allOf preds).Demands c ↔ ∃ r ∈ preds, r.Demands c := by
  constructor
  · intro h
    cases h with
    | pred hr hc => exact ⟨_, hr, hc⟩
  · rintro ⟨r, hr, hc⟩
    exact .pred hr hc

/-- Regrouping keeps the comparisons that a conjunction demands. -/
theorem Regroups.demands {ps qs : List Rule} (h : Regroups ps qs) {c : Comparison} :
    (Rule.allOf ps).Demands c ↔ (Rule.allOf qs).Demands c := by
  cases h with
  | permute h => simp only [demands_allOf, h.mem_iff]
  | nest before group after =>
    simp only [demands_allOf, List.mem_append, List.mem_cons, or_and_right, exists_or,
      exists_eq_left, or_assoc]

/-- Any number of such changes, in both directions, keeps what a conjunction demands. -/
theorem demands_of_regrouped {ps qs : List Rule} (h : Relation.EqvGen Regroups ps qs)
    {c : Comparison} : (Rule.allOf ps).Demands c ↔ (Rule.allOf qs).Demands c := by
  induction h with
  | rel _ _ h => exact h.demands
  | refl _ => exact Iff.rfl
  | symm _ _ _ ih => exact ih.symm
  | trans _ _ _ _ _ ih ih' => exact ih.trans ih'

theorem clashesIn_of_regrouped {ps qs : List Rule} (h : Relation.EqvGen Regroups ps qs)
    {x : String} : (Rule.allOf ps).ClashesIn x ↔ (Rule.allOf qs).ClashesIn x := by
  simp only [ClashesIn, demands_of_regrouped h]

theorem Conjunction.unique {r : Rule} {p : NodePath} {ps qs : List Rule}
    (h : r.Conjunction p ps) (h' : r.Conjunction p qs) : ps = qs := by
  cases h.leads.symm.trans h'.leads
  rfl

def conflictVars (r : Rule) (p : NodePath) : Set String := {x | ∃ f ∈ r.conflicts, f.Reports p x}

theorem conflictVars_eq {r : Rule} (hfinite : ∀ x ∈ r.numbers, x.isFinite = true)
    {p : NodePath} {preds : List Rule} (h : r.Conjunction p preds) :
    r.conflictVars p = {x | (Rule.allOf preds).ClashesIn x} := by
  ext x
  refine (exists_reports_iff hfinite).trans ⟨?_, fun hclash => ⟨preds, h, hclash⟩⟩
  rintro ⟨other, hother, hclash⟩
  cases h.unique hother
  exact hclash

/-- A variable is reported for a path exactly if the path leads to a conjunction that is no element
of another one and in which two comparisons of the variable with literals clash. Each failure
reports one path and variable, each path and variable are reported once, in pre-order of the paths
and then by the bytes of the names. The variables that are reported for a conjunction stay the same
when its elements are permuted or regrouped. -/
theorem conflicts_reported_once (r : Rule) (hfinite : ∀ x ∈ r.numbers, x.isFinite = true) :
    (∀ p x, (∃ f ∈ r.conflicts, f.Reports p x) ↔
      ∃ preds, r.Conjunction p preds ∧ (Rule.allOf preds).ClashesIn x) ∧
    (∀ f ∈ r.conflicts, ∃! e : NodePath × String, f.Reports e.1 e.2) ∧
    (∀ p x, (∃ f ∈ r.conflicts, f.Reports p x) →
      ∃! i : Nat, ∃ f, r.conflicts[i]? = some f ∧ f.Reports p x) ∧
    (r.conflicts.Pairwise fun f g => ∀ p x q y, f.Reports p x → g.Reports q y →
      r.Earlier (p, x) (q, y)) ∧
    ∀ (s : Rule) p q ps qs, (∀ x ∈ s.numbers, x.isFinite = true) → r.Conjunction p ps →
      s.Conjunction q qs → Relation.EqvGen Regroups ps qs →
      r.conflictVars p = s.conflictVars q := by
  refine ⟨fun p x => exists_reports_iff hfinite, fun f hf => ?_, fun p x hreported => ?_,
    r.pairwise_conflicts, fun s p q ps qs hfinite' hps hqs hregroup => ?_⟩
  · obtain ⟨p, preds, -, e, -, rfl⟩ := mem_conflicts_iff.mp hf
    have hreports := Bounds.reports_failure p preds e
    exact ⟨(p, e.1), hreports, fun other hother => Prod.ext_iff.mpr (hother.unique hreports)⟩
  · obtain ⟨f, hf, hreports⟩ := hreported
    obtain ⟨i, hi⟩ := List.mem_iff_getElem?.mp hf
    refine ⟨i, ⟨f, hi, hreports⟩, ?_⟩
    rintro j ⟨g, hj, hg⟩
    exact index_of_reports hj hi hg hreports
  · rw [conflictVars_eq hfinite hps, conflictVars_eq hfinite' hqs]
    exact Set.ext fun x => clashesIn_of_regrouped hregroup

def lowerBound : Rule :=
  .comparison ⟨"x", .atLeast, .literal (.number (.finite false 1 Double.fits_one))⟩

def upperBound : Rule :=
  .comparison ⟨"x", .atMost, .literal (.number (.finite true 0 Double.fits_zero))⟩

def primaryUse : Rule := .comparison ⟨"use", .equal, .literal (.text "primary")⟩

def rentalUse : Rule := .comparison ⟨"use", .equal, .literal (.text "rental")⟩

def splitConflicts : Rule :=
  .oneOf [.allOf [lowerBound, primaryUse, .allOf [upperBound, rentalUse]]]

/-- Both variables are in conflict, `use` comes first, and the report for the conjunction names the
same variables as that for its comparisons in another order and without the inner conjunction. -/
theorem conflicts_reported_once_split :
    (splitConflicts.conflicts.map fun f => f.path.text) = ["root.options[0]", "root.options[0]"] ∧
    (∃! i : Nat, ∃ f, splitConflicts.conflicts[i]? = some f ∧ f.Reports ⟨"root.options[0]"⟩ "x") ∧
    splitConflicts.conflictVars ⟨"root.options[0]"⟩ =
      (Rule.allOf [upperBound, rentalUse, lowerBound, primaryUse]).conflictVars .root := by
  have hfinite : ∀ x ∈ splitConflicts.numbers, x.isFinite = true :=
    List.forall_mem_cons.mpr ⟨rfl, List.forall_mem_singleton.mpr rfl⟩
  have hfinite' : ∀ x ∈ (Rule.allOf [upperBound, rentalUse, lowerBound, primaryUse]).numbers,
      x.isFinite = true :=
    List.forall_mem_cons.mpr ⟨rfl, List.forall_mem_singleton.mpr rfl⟩
  have hsplit : splitConflicts.Conjunction ⟨"root.options[0]"⟩
      [lowerBound, primaryUse, .allOf [upperBound, rentalUse]] := by
    have hleads : splitConflicts.at? ⟨"root.options[0]"⟩ =
        some (.allOf [lowerBound, primaryUse, .allOf [upperBound, rentalUse]]) := rfl
    refine ⟨hleads, fun hpart => ?_⟩
    exact absurd ((isConjunct_iff hleads).mpr hpart) (by decide)
  have hflat : (Rule.allOf [upperBound, rentalUse, lowerBound, primaryUse]).Conjunction .root
      [upperBound, rentalUse, lowerBound, primaryUse] := by
    refine ⟨rfl, fun hpart => ?_⟩
    exact absurd ((isConjunct_iff (at?_root _)).mpr hpart) (by decide)
  have hclash : (Rule.allOf [lowerBound, primaryUse, .allOf [upperBound, rentalUse]]).ClashesIn
      "x" := by
    have hless : (Double.finite true 0 Double.fits_zero).Less (.finite false 1 Double.fits_one) :=
      Double.below_iff.mp rfl
    refine ⟨_, _, _, _, .pred List.mem_cons_self (.self _), ?_, .crossed hless⟩
    refine .pred (List.mem_cons_of_mem _ (List.mem_cons_of_mem _ List.mem_cons_self)) ?_
    exact .pred List.mem_cons_self (.self _)
  have hregroup : Relation.EqvGen Regroups [lowerBound, primaryUse, .allOf [upperBound, rentalUse]]
      [upperBound, rentalUse, lowerBound, primaryUse] := by
    refine .trans _ _ _ (.symm _ _ (.rel _ _ (.nest [lowerBound, primaryUse] _ []))) ?_
    have hperm : ([lowerBound, primaryUse] ++ [upperBound, rentalUse]).Perm
        ([upperBound, rentalUse] ++ [lowerBound, primaryUse]) := List.perm_append_comm
    exact .rel _ _ (.permute hperm)
  obtain ⟨hiff, -, honce, -, hsame⟩ := conflicts_reported_once splitConflicts hfinite
  exact ⟨by decide +kernel, honce _ _ ((hiff _ _).mpr ⟨_, hsplit, hclash⟩),
    hsame _ _ _ _ _ hfinite' hsplit hflat hregroup⟩

end Rule

end Eligibility
