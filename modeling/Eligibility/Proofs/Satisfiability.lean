import Mathlib
import Eligibility.Proofs.Clashes
import Eligibility.Proofs.Numbers

namespace Eligibility

def Comparison.MetBy (c : Comparison) (a : String → Literal) : Prop :=
  ∀ v, c.rhs = .literal v → (a c.lhs).Meets c.operator v

namespace Rule

/-- A comparison is reached from a rule through conjunctions only. -/
inductive Demands : Rule → Comparison → Prop where
  | self (c : Comparison) : Demands (.comparison c) c
  | pred {preds : List Rule} {r : Rule} {c : Comparison} (hr : r ∈ preds) (hc : Demands r c) :
      Demands (.allOf preds) c

/-- An assignment meets all comparisons with literals that a rule demands. -/
def MetBy (r : Rule) (a : String → Literal) : Prop := ∀ c, r.Demands c → c.MetBy a

/-- The literals that a rule demands comparisons with are numbers. -/
def NumericDemands (r : Rule) : Prop :=
  ∀ c v, r.Demands c → c.rhs = .literal v → ∃ x, v = .number x

/-- Some assignment of finite numbers meets all comparisons with literals that a rule demands. -/
def Solvable (r : Rule) : Prop :=
  ∃ a : String → Double, (∀ name, (a name).isFinite = true) ∧ r.MetBy fun name => .number (a name)

theorem mem_conjunctsAll {c : Comparison} {rs : List Rule} :
    c ∈ conjunctsAll rs ↔ ∃ r ∈ rs, c ∈ r.conjuncts := by
  induction rs with
  | nil => simp [conjunctsAll]
  | cons r rs ih => simp [conjunctsAll, ih]

theorem mem_conjuncts {c : Comparison} {r : Rule} : c ∈ r.conjuncts ↔ r.Demands c := by
  constructor
  · intro h
    induction r using Rule.induction with
    | comparison d =>
      cases List.mem_singleton.mp h
      exact .self c
    | allOf preds ih =>
      obtain ⟨r, hr, hc⟩ := mem_conjunctsAll.mp h
      exact .pred hr (ih r hr hc)
    | _ => cases h
  · intro h
    induction h with
    | self c => exact List.mem_singleton_self c
    | pred hr _ ih => exact mem_conjunctsAll.mpr ⟨_, hr, ih⟩

def literalBounds (preds : List Rule) : List (String × Operator × Literal) :=
  (conjunctsAll preds).filterMap literalBound?

theorem mem_literalBounds {preds : List Rule} {name : String} {o : Operator} {v : Literal} :
    (name, o, v) ∈ literalBounds preds ↔ (Rule.allOf preds).Demands ⟨name, o, .literal v⟩ := by
  rw [← mem_conjuncts, conjuncts, literalBounds, List.mem_filterMap]
  constructor
  · rintro ⟨⟨lhs, operator, rhs⟩, hc, hv⟩
    cases rhs <;> simp only [literalBound?, Option.some.injEq, Prod.mk.injEq, reduceCtorEq] at hv
    obtain ⟨rfl, rfl, rfl⟩ := hv
    exact hc
  · intro hc
    exact ⟨_, hc, rfl⟩

theorem metBy_iff {preds : List Rule} {a : String → Literal} :
    (Rule.allOf preds).MetBy a ↔
      ∀ name o v, (name, o, v) ∈ literalBounds preds → (a name).Meets o v := by
  constructor
  · intro h name o v hv
    exact h _ (mem_literalBounds.mp hv) v rfl
  · rintro h ⟨name, o, rhs⟩ hc v rfl
    exact h name o v (mem_literalBounds.mpr hc)

theorem mem_numbers_of_demands {r : Rule} {name : String} {o : Operator} {x : Double}
    (h : r.Demands ⟨name, o, .literal (.number x)⟩) : x ∈ r.numbers := by
  generalize hc : Comparison.mk name o (.literal (.number x)) = c at h
  induction h with
  | self c =>
    subst hc
    exact List.mem_singleton_self x
  | pred hr _ ih =>
    rw [numbers, numbersAll_eq]
    exact List.mem_flatMap_of_mem hr (ih hc)

theorem finiteBounds {preds : List Rule}
    (hfinite : ∀ x ∈ (Rule.allOf preds).numbers, x.isFinite = true) :
    FiniteBounds (literalBounds preds) :=
  fun _ _ x hx => hfinite x (mem_numbers_of_demands (mem_literalBounds.mp hx))

/-- What clashes in one variable makes the conjunction unsatisfiable. -/
theorem not_metBy_of_clashing {preds : List Rule} {name : String}
    (h : Bounds.Clashing (literalBounds preds) name) (a : String → Literal) :
    ¬ (Rule.allOf preds).MetBy a := by
  intro hmet
  obtain ⟨o, v, o', v', hv, hv', hclash⟩ := h
  rw [metBy_iff] at hmet
  exact hclash.not_meets (hmet name o v hv) (hmet name o' v' hv')

/-- Variables are independent, so a conjunction without clashes is solved variable by variable. -/
theorem solvable_of_not_clashing {preds : List Rule}
    (hfinite : ∀ x ∈ (Rule.allOf preds).numbers, x.isFinite = true)
    (hnumeric : (Rule.allOf preds).NumericDemands)
    (hno : ∀ name, ¬ Bounds.Clashing (literalBounds preds) name) : (Rule.allOf preds).Solvable := by
  have hvalue : ∀ name, ∃ x : Double, x.isFinite = true ∧
      ∀ o v, (name, o, v) ∈ literalBounds preds → (Literal.number x).Meets o v := by
    intro name
    refine Bounds.exists_meets (finiteBounds hfinite) (hno name) fun o v hv => ?_
    exact hnumeric _ v (mem_literalBounds.mp hv) rfl
  choose a ha hmeets using hvalue
  exact ⟨a, ha, metBy_iff.mpr hmeets⟩

/-- What a part of a conjunction demands, the conjunction demands. -/
theorem Solvable.pred {preds : List Rule} (h : (Rule.allOf preds).Solvable) {r : Rule}
    (hr : r ∈ preds) : r.Solvable := by
  obtain ⟨a, ha, hmet⟩ := h
  exact ⟨a, ha, fun c hc => hmet c (.pred hr hc)⟩

end Rule

namespace Bounds

/-- The failures at a rule are those of a conjunction of its own, at its path. -/
theorem mem_here {path : NodePath} {r : Rule} {f : Failure} (h : f ∈ here path r) :
    ∃ preds name c, r = .allOf preds ∧ f.path = path ∧
      (name, c) ∈ conflictsOf (Rule.literalBounds preds) := by
  cases r with
  | allOf preds =>
    simp only [here] at h
    split_ifs at h with hpart
    · cases h
    · obtain ⟨⟨name, c⟩, hc, rfl⟩ := List.mem_map.mp h
      exact ⟨preds, name, c, rfl, rfl, hc⟩
  | _ => cases h

/-- A conjunction of its own without failures has no variable in conflict. -/
theorem not_clashing_of_here {path : NodePath} {preds : List Rule}
    (hown : isConjunct path = false) (h : here path (.allOf preds) = [])
    (hfinite : FiniteBounds (Rule.literalBounds preds)) (name : String) :
    ¬ Clashing (Rule.literalBounds preds) name := by
  intro hclash
  obtain ⟨c, hc⟩ := Option.isSome_iff_exists.mp ((conflict?_ofVar hfinite).mpr hclash)
  have hmem := (mem_conflictsOf hfinite).mpr hc
  simp only [here, hown, Bool.false_eq_true, if_false, List.map_eq_nil_iff] at h
  exact List.not_mem_nil (h ▸ hmem)

/-- Only the parts of a conjunction are labelled as such. -/
theorem mem_preds_of_isConjunct {path : NodePath} {r c : Rule} {label : String}
    (hc : (label, c) ∈ r.children) (h : isConjunct (path.child label) = true) :
    ∃ preds, r = .allOf preds ∧ c ∈ preds := by
  rw [isConjunct, NodePath.lastSegment_child path (Rule.dot_not_mem_label hc)] at h
  cases Rule.isChild_of_mem hc with
  | pred hmem => exact ⟨_, rfl, Rule.mem_of_mem_labelled hmem⟩
  | option hmem =>
    obtain ⟨j, -, rfl⟩ := Rule.label_of_mem_labelled hmem
    simp [Rule.toList_indexed] at h
  | inner => simp at h
  | yes => simp at h
  | no => simp at h

end Bounds

namespace Rule

/-- A conjunction without a failure of its own is solvable, if it is so whenever it is a part of
another one and hence not looked at. -/
theorem solvable_of_here {preds : List Rule} {path : NodePath}
    (hnone : Bounds.here path (.allOf preds) = [])
    (hfinite : ∀ x ∈ (Rule.allOf preds).numbers, x.isFinite = true)
    (hnumeric : (Rule.allOf preds).NumericDemands)
    (hpart : Bounds.isConjunct path = true → (Rule.allOf preds).Solvable) :
    (Rule.allOf preds).Solvable := by
  by_cases hown : Bounds.isConjunct path = true
  · exact hpart hown
  · rw [Bool.not_eq_true] at hown
    exact solvable_of_not_clashing hfinite hnumeric
      (Bounds.not_clashing_of_here hown hnone (finiteBounds hfinite))

/-- Every conjunction inside a rule without failures is solvable. -/
theorem Inside.solvable {r : Rule} {preds : List Rule} (h : (Rule.allOf preds).Inside r)
    {path : NodePath} (hnone : ∀ e ∈ r.preorder path, Bounds.here e.1 e.2 = [])
    (hfinite : ∀ x ∈ r.numbers, x.isFinite = true)
    (hnumeric : ∀ ps, (Rule.allOf ps).Inside r → (Rule.allOf ps).NumericDemands)
    (hpart : Bounds.isConjunct path = true → r.Solvable) : (Rule.allOf preds).Solvable := by
  induction h using Inside.children_induction generalizing path with
  | self =>
    have hhere := hnone (path, .allOf preds) (by rw [preorder_eq]; exact List.mem_cons_self)
    exact solvable_of_here hhere hfinite (hnumeric preds (.self _)) hpart
  | @child label c r hc h ih =>
    refine @ih (path.child label) (fun e he => hnone e ?_)
      (fun x hx => hfinite x (mem_numbers_of_child hc hx))
      (fun ps hps => hnumeric ps (.child hc hps))
      fun hconjunct => ?_
    · rw [preorder_eq]
      exact List.mem_cons_of_mem _ (List.mem_flatMap_of_mem hc he)
    · -- a part of a conjunction is solved by what solves the whole
      obtain ⟨ps, rfl, hmem⟩ := Bounds.mem_preds_of_isConjunct hc hconjunct
      have hhere := hnone (path, .allOf ps) (by rw [preorder_eq]; exact List.mem_cons_self)
      exact (solvable_of_here hhere hfinite (hnumeric ps (.self _)) hpart).pred hmem

/-- The conflicts of a rule are at conjunctions that no values satisfy; and if the literals are
numbers and there are no conflicts, finite numbers satisfy each conjunction of the rule. -/
theorem conflicts_sound_and_complete (r : Rule) (hfinite : ∀ x ∈ r.numbers, x.isFinite = true) :
    (∀ f ∈ r.conflicts, ∃ preds, r.at? f.path = some (.allOf preds) ∧
      ∀ a : String → Literal, ¬ (Rule.allOf preds).MetBy a) ∧
    ((∀ preds, (Rule.allOf preds).Inside r → (Rule.allOf preds).NumericDemands) →
      r.conflicts = [] → ∀ preds, (Rule.allOf preds).Inside r → (Rule.allOf preds).Solvable) := by
  constructor
  · intro f hf
    obtain ⟨⟨path, s⟩, hs, hf⟩ := List.mem_flatMap.mp hf
    obtain ⟨preds, name, c, rfl, rfl, hc⟩ := Bounds.mem_here hf
    have hbounds := finiteBounds fun x hx => hfinite x ((inside_of_mem_walk hs).numbers hx)
    have hconflict := (Bounds.mem_conflictsOf hbounds).mp hc
    have hclash := (Bounds.conflict?_ofVar hbounds).mp (Option.isSome_of_eq_some hconflict)
    exact ⟨preds, at?_of_mem_walk hs, not_metBy_of_clashing hclash⟩
  · intro hnumeric hnone preds h
    have hwalk : ∀ e ∈ r.preorder .root, Bounds.here e.1 e.2 = [] := by
      intro e he
      rw [← walk_eq] at he
      exact List.flatMap_eq_nil_iff.mp hnone e he
    exact h.solvable hwalk hfinite hnumeric fun hroot => by cases hroot

/-- An alternative with a lower bound and, one conjunction deeper, an upper one. -/
def nestedBounds (lower upper : Double) : Rule :=
  .oneOf [.allOf [.comparison ⟨"x", .atLeast, .literal (.number lower)⟩,
    .allOf [.comparison ⟨"x", .atMost, .literal (.number upper)⟩]]]

theorem nestedBounds_numeric {lower upper : Double} {preds : List Rule}
    (h : (Rule.allOf preds).Inside (nestedBounds lower upper)) :
    (Rule.allOf preds).NumericDemands := by
  have hleaf : ∀ {c : Comparison}, ¬ (Rule.allOf preds).Inside (.comparison c) := by
    intro c hs
    cases hs
  have hpreds : preds = [.comparison ⟨"x", .atMost, .literal (.number upper)⟩] ∨
      preds = [.comparison ⟨"x", .atLeast, .literal (.number lower)⟩,
        .allOf [.comparison ⟨"x", .atMost, .literal (.number upper)⟩]] := by
    cases h with
    | option hc h =>
      cases List.mem_singleton.mp hc
      cases h with
      | self => exact .inr rfl
      | pred hc h =>
        rcases List.mem_cons.mp hc with hc | hc
        · cases hc
          exact absurd h hleaf
        · cases List.mem_singleton.mp hc
          cases h with
          | self => exact .inl rfl
          | pred hc h =>
            cases List.mem_singleton.mp hc
            exact absurd h hleaf
  intro c v hc hv
  rw [← mem_conjuncts] at hc
  rcases hpreds with rfl | rfl
  · simp only [conjuncts, conjunctsAll, List.append_nil, List.mem_singleton] at hc
    subst hc
    cases hv
    exact ⟨upper, rfl⟩
  · simp only [conjuncts, conjunctsAll, List.append_nil, List.mem_append, List.mem_singleton] at hc
    rcases hc with rfl | rfl
    · cases hv
      exact ⟨lower, rfl⟩
    · cases hv
      exact ⟨upper, rfl⟩

/-- A lower bound above an upper one of negative zero is reported and unsatisfiable; the other way
around, both conjunctions are solvable. -/
theorem conflicts_sound_and_complete_nested :
    let zero := Double.finite true 0 Double.fits_zero
    let least := Double.finite false 1 Double.fits_one
    (nestedBounds least zero).conflicts ≠ [] ∧
    (∀ f ∈ (nestedBounds least zero).conflicts, ∃ preds,
      (nestedBounds least zero).at? f.path = some (.allOf preds) ∧
        ∀ a : String → Literal, ¬ (Rule.allOf preds).MetBy a) ∧
    (nestedBounds zero least).conflicts = [] ∧
    (Rule.allOf [.comparison ⟨"x", .atLeast, .literal (.number zero)⟩,
      .allOf [.comparison ⟨"x", .atMost, .literal (.number least)⟩]]).Solvable := by
  intro zero least
  have hfinite : ∀ x ∈ (nestedBounds least zero).numbers, x.isFinite = true :=
    List.forall_mem_cons.mpr ⟨rfl, List.forall_mem_singleton.mpr rfl⟩
  have hfinite' : ∀ x ∈ (nestedBounds zero least).numbers, x.isFinite = true :=
    List.forall_mem_cons.mpr ⟨rfl, List.forall_mem_singleton.mpr rfl⟩
  have hnone : (nestedBounds zero least).conflicts = [] := rfl
  refine ⟨List.cons_ne_nil _ _, (conflicts_sound_and_complete _ hfinite).1, hnone, ?_⟩
  refine (conflicts_sound_and_complete _ hfinite').2 (fun _ => nestedBounds_numeric) hnone _ ?_
  exact .option List.mem_cons_self (.self _)

end Rule

end Eligibility
