import Mathlib
import Eligibility.Rule.Walk

namespace Eligibility

namespace Text

theorem pieces_ne_nil (sep : Char) (cs : List Char) : pieces sep cs ≠ [] := by
  cases cs with
  | nil => simp [pieces]
  | cons c cs =>
    rw [pieces]
    split
    · simp
    · split <;> simp

/-- A separator cuts a text into the pieces before it and those after it. -/
theorem pieces_append (sep : Char) (as bs : List Char) :
    pieces sep (as ++ sep :: bs) = pieces sep as ++ pieces sep bs := by
  induction as with
  | nil => simp [pieces]
  | cons a as ih =>
    rw [List.cons_append, pieces, pieces, ih]
    split
    · rfl
    · cases h : pieces sep as with
      | nil => exact absurd h (pieces_ne_nil sep as)
      | cons p ps => rfl

theorem pieces_of_not_mem {sep : Char} {cs : List Char} (h : sep ∉ cs) : pieces sep cs = [cs] := by
  induction cs with
  | nil => rfl
  | cons c cs ih =>
    rw [List.mem_cons, not_or] at h
    rw [pieces, if_neg (Ne.symm h.1), ih h.2]

end Text

namespace NodePath

/-- The pieces of a child's path are those of its parent's path and the label. -/
theorem pieces_child (p : NodePath) {label : String} (h : '.' ∉ label.toList) :
    Text.pieces '.' (p.child label).text.toList =
      Text.pieces '.' p.text.toList ++ [label.toList] := by
  simp only [child, String.toList_append]
  rw [show ".".toList = ['.'] from rfl, List.append_assoc, List.singleton_append,
    Text.pieces_append, Text.pieces_of_not_mem h]

theorem lastSegment_child (p : NodePath) {label : String} (h : '.' ∉ label.toList) :
    (p.child label).lastSegment = label.toList := by
  rw [lastSegment, Text.lastPiece, pieces_child p h, List.getLastD_concat]

end NodePath

namespace Rule

/-- Induction over rules, with the hypotheses for the rules of a list and for an optional rule given
element by element. -/
@[elab_as_elim]
theorem induction {P : Rule → Prop}
    (task : ∀ root path each inner, (∀ r, inner = some r → P r) → P (.task root path each inner))
    (comparison : ∀ c, P (.comparison c))
    (ratio : ∀ q, P (.ratio q))
    (oneOf : ∀ options, (∀ r ∈ options, P r) → P (.oneOf options))
    (allOf : ∀ preds, (∀ r ∈ preds, P r) → P (.allOf preds))
    (branch : ∀ cond yes no, P yes → (∀ r, no = some r → P r) → P (.branch cond yes no))
    (r : Rule) : P r := by
  refine @Rule.rec P (fun o => ∀ r, o = some r → P r) (fun rs => ∀ r ∈ rs, P r)
    task comparison ratio oneOf allOf branch ?_ ?_ ?_ ?_ r
  · intro r h
    cases h
  · intro r hr s hs
    cases hs
    exact hr
  · intro r h
    cases h
  · intro r rs hr hrs s hs
    rcases List.mem_cons.mp hs with rfl | hs
    · exact hr
    · exact hrs s hs

theorem map_snd_labelled (key : String) (i : Nat) (rs : List Rule) :
    (labelled key i rs).map Prod.snd = rs := by
  induction rs generalizing i with
  | nil => rfl
  | cons r rs ih => simp [labelled, ih]

theorem exists_label {r : Rule} {rs : List Rule} (key : String) (i : Nat) (h : r ∈ rs) :
    ∃ label, (label, r) ∈ labelled key i rs := by
  rw [← map_snd_labelled key i rs] at h
  obtain ⟨⟨label, s⟩, hm, rfl⟩ := List.mem_map.mp h
  exact ⟨label, hm⟩

theorem mem_of_mem_labelled {key label : String} {i : Nat} {r : Rule} {rs : List Rule}
    (h : (label, r) ∈ labelled key i rs) : r ∈ rs := by
  rw [← map_snd_labelled key i rs]
  exact List.mem_map.mpr ⟨_, h, rfl⟩

theorem label_of_mem_labelled {key label : String} {i : Nat} {r : Rule} {rs : List Rule}
    (h : (label, r) ∈ labelled key i rs) : ∃ j, i ≤ j ∧ label = indexed key j := by
  induction rs generalizing i with
  | nil => cases h
  | cons s rs ih =>
    rcases List.mem_cons.mp h with he | h
    · cases he
      exact ⟨i, Nat.le_refl i, rfl⟩
    · obtain ⟨j, hj, rfl⟩ := ih h
      exact ⟨j, by omega, rfl⟩

theorem getElem?_of_mem_labelled {key label : String} {i : Nat} {r : Rule} {rs : List Rule}
    (h : (label, r) ∈ labelled key i rs) :
    ∃ k, label = indexed key (i + k) ∧ rs[k]? = some r := by
  induction rs generalizing i with
  | nil => cases h
  | cons s rs ih =>
    rcases List.mem_cons.mp h with he | h
    · cases he
      exact ⟨0, rfl, rfl⟩
    · obtain ⟨k, rfl, hk⟩ := ih h
      exact ⟨k + 1, by rw [Nat.add_right_comm, Nat.add_assoc], hk⟩

/-- How a rule stands directly inside another one, with its label. -/
inductive IsChild : String → Rule → Rule → Prop where
  | inner (root : TaskRoot) (path : TaskPath) (each : Bool) (c : Rule) :
      IsChild "inner" c (.task root path each (some c))
  | option {label : String} {c : Rule} {options : List Rule}
      (h : (label, c) ∈ labelled "options" 0 options) : IsChild label c (.oneOf options)
  | pred {label : String} {c : Rule} {preds : List Rule}
      (h : (label, c) ∈ labelled "preds" 0 preds) : IsChild label c (.allOf preds)
  | yes (cond : Comparison) (c : Rule) (no : Option Rule) : IsChild "then" c (.branch cond c no)
  | no (cond : Comparison) (yes c : Rule) : IsChild "else" c (.branch cond yes (some c))

/-- The children of a rule are rules that it holds, under the labels of where it holds them. -/
theorem isChild_of_mem {label : String} {c r : Rule} (h : (label, c) ∈ r.children) :
    IsChild label c r := by
  cases r with
  | task root path each inner =>
    cases inner with
    | none => cases h
    | some s =>
      cases List.mem_singleton.mp h
      exact .inner root path each c
  | comparison c => cases h
  | ratio q => cases h
  | oneOf options => exact .option h
  | allOf preds => exact .pred h
  | branch cond yes no =>
    cases no with
    | none =>
      cases List.mem_singleton.mp h
      exact .yes cond c none
    | some s =>
      rcases List.mem_cons.mp h with he | h
      · cases he
        exact .yes cond c (some s)
      · cases List.mem_singleton.mp h
        exact .no cond yes c

/-- Induction over rules by the rules directly inside them. -/
theorem children_induction {P : Rule → Prop} (step : ∀ r, (∀ c ∈ r.children, P c.2) → P r)
    (r : Rule) : P r := by
  induction r using Rule.induction with
  | task root path each inner ih =>
    apply step
    rintro ⟨label, c⟩ hc
    cases isChild_of_mem hc with
    | inner => exact ih c rfl
  | comparison c => exact step _ (fun c hc => by cases hc)
  | ratio q => exact step _ (fun c hc => by cases hc)
  | oneOf options ih => exact step _ (fun c hc => ih c.2 (mem_of_mem_labelled hc))
  | allOf preds ih => exact step _ (fun c hc => ih c.2 (mem_of_mem_labelled hc))
  | branch cond yes no hyes hno =>
    apply step
    rintro ⟨label, c⟩ hc
    cases isChild_of_mem hc with
    | yes => exact hyes
    | no => exact hno c rfl

mutual
/-- A rule at a path, then the rules inside it, each after the rules before it. -/
def preorder (path : NodePath) : Rule → List (NodePath × Rule)
  | .task root p each inner =>
    (path, .task root p each inner) :: preorderOptional (path.child "inner") inner
  | .comparison c => [(path, .comparison c)]
  | .ratio q => [(path, .ratio q)]
  | .oneOf options => (path, .oneOf options) :: preorderAll path "options" 0 options
  | .allOf preds => (path, .allOf preds) :: preorderAll path "preds" 0 preds
  | .branch cond yes no =>
    (path, .branch cond yes no) ::
      (preorder (path.child "then") yes ++ preorderOptional (path.child "else") no)
def preorderOptional (path : NodePath) : Option Rule → List (NodePath × Rule)
  | none => []
  | some r => preorder path r
def preorderAll (path : NodePath) (key : String) (i : Nat) : List Rule → List (NodePath × Rule)
  | [] => []
  | r :: rs => preorder (path.child (indexed key i)) r ++ preorderAll path key (i + 1) rs
end

theorem preorderAll_eq (path : NodePath) (key : String) (i : Nat) (rs : List Rule) :
    preorderAll path key i rs =
      (labelled key i rs).flatMap fun (label, c) => c.preorder (path.child label) := by
  induction rs generalizing i with
  | nil => rfl
  | cons r rs ih => simp [preorderAll, labelled, ih]

/-- One step of the pre-order, in terms of the labelled children. -/
theorem preorder_eq (path : NodePath) (r : Rule) :
    r.preorder path =
      (path, r) :: r.children.flatMap fun (label, c) => c.preorder (path.child label) := by
  cases r with
  | task root p each inner => cases inner <;> simp [preorder, preorderOptional, children]
  | comparison c => rfl
  | ratio q => rfl
  | oneOf options => simp [preorder, children, preorderAll_eq]
  | allOf preds => simp [preorder, children, preorderAll_eq]
  | branch cond yes no => cases no <;> simp [preorder, preorderOptional, children]

theorem sizeAll_eq (key : String) (i : Nat) (rs : List Rule) :
    sizeAll rs = ((labelled key i rs).map fun c => c.2.size).sum := by
  induction rs generalizing i with
  | nil => rfl
  | cons r rs ih => simp [sizeAll, labelled, ih (i + 1)]

theorem size_eq (r : Rule) : r.size = (r.children.map fun c => c.2.size).sum + 1 := by
  cases r with
  | task root p each inner => cases inner <;> simp [size, sizeOptional, children]
  | comparison c => rfl
  | ratio q => rfl
  | oneOf options => simp [size, children, sizeAll_eq "options" 0]
  | allOf preds => simp [size, children, sizeAll_eq "preds" 0]
  | branch cond yes no => cases no <;> simp [size, sizeOptional, children]

/-- Each round of the walk takes one rule off what waits, all trees counted. -/
theorem sizes_next (w : NodePath × Rule) (waiting : List (NodePath × Rule)) :
    (((w.2.children.map fun c => (w.1.child c.1, c.2)) ++ waiting).map
      fun w => w.2.size).sum + 1 = ((w :: waiting).map fun w => w.2.size).sum := by
  have := size_eq w.2
  simp only [List.map_append, List.map_map, Function.comp_def, List.sum_append, List.map_cons,
    List.sum_cons]
  omega

/-- What waits is visited to its end, tree by tree, if there are enough steps for all of it. -/
theorem visit_eq (fuel : Nat) (waiting : List (NodePath × Rule))
    (h : (waiting.map fun w => w.2.size).sum ≤ fuel) :
    visit fuel waiting = waiting.flatMap fun w => w.2.preorder w.1 := by
  induction fuel generalizing waiting with
  | zero =>
    cases waiting with
    | nil => rfl
    | cons w waiting =>
      rw [← sizes_next] at h
      omega
  | succ fuel ih =>
    cases waiting with
    | nil => rfl
    | cons w waiting =>
      rw [← sizes_next] at h
      obtain ⟨path, r⟩ := w
      rw [visit, ih _ (Nat.le_of_succ_le_succ h), List.flatMap_cons, preorder_eq]
      simp [List.flatMap_append, List.flatMap_map]

/-- The loop over a stack of waiting rules is the recursive pre-order. -/
theorem walk_eq (r : Rule) : r.walk = r.preorder .root := by
  rw [walk, visit_eq _ _ (by simp)]
  simp

theorem toList_indexed (key : String) (i : Nat) :
    (indexed key i).toList = key.toList ++ '[' :: (Nat.toDigits 10 i ++ [']']) := by
  simp [indexed]

theorem indexed_injective (key : String) {i j : Nat} (h : indexed key i = indexed key j) :
    i = j := by
  rw [← String.toList_inj, toList_indexed, toList_indexed] at h
  simp only [List.append_cancel_left_eq, List.cons.injEq, true_and, List.append_cancel_right_eq]
    at h
  have hi := @Nat.ofDigitChars_ten_toDigits i
  rw [h, Nat.ofDigitChars_ten_toDigits] at hi
  exact hi.symm

theorem dot_not_mem_indexed {key : String} (h : '.' ∉ key.toList) (i : Nat) :
    '.' ∉ (indexed key i).toList := by
  rw [toList_indexed]
  simp only [List.mem_append, List.mem_cons, List.not_mem_nil, or_false, not_or]
  refine ⟨h, by decide, ?_, by decide⟩
  intro hm
  have := Nat.isDigit_of_mem_toDigits (by decide) (by decide) hm
  exact absurd this (by decide)

/-- No label has a dot in it. -/
theorem dot_not_mem_label {r c : Rule} {label : String} (h : (label, c) ∈ r.children) :
    '.' ∉ label.toList := by
  cases isChild_of_mem h with
  | inner => decide
  | yes => decide
  | no => decide
  | option h =>
    obtain ⟨j, _, rfl⟩ := label_of_mem_labelled h
    exact dot_not_mem_indexed (by decide) j
  | pred h =>
    obtain ⟨j, _, rfl⟩ := label_of_mem_labelled h
    exact dot_not_mem_indexed (by decide) j

theorem lookup_labelled {key label : String} {i : Nat} {r : Rule} {rs : List Rule}
    (h : (label, r) ∈ labelled key i rs) : (labelled key i rs).lookup label = some r := by
  induction rs generalizing i with
  | nil => cases h
  | cons s rs ih =>
    rcases List.mem_cons.mp h with he | h
    · cases he
      simp [labelled]
    · obtain ⟨j, hj, rfl⟩ := label_of_mem_labelled h
      have hne : (indexed key j == indexed key i) = false := by
        rw [beq_eq_false_iff_ne]
        intro he
        have := indexed_injective key he
        omega
      rw [labelled, List.lookup_cons, hne]
      exact ih h

/-- No two children of a rule have the same label. -/
theorem lookup_children {r c : Rule} {label : String} (h : (label, c) ∈ r.children) :
    r.children.lookup label = some c := by
  cases isChild_of_mem h with
  | inner => rfl
  | option h => exact lookup_labelled h
  | pred h => exact lookup_labelled h
  | yes cond c no => cases no <;> rfl
  | no => rfl

def follow (r : Rule) : List String → Option Rule
  | [] => some r
  | label :: labels =>
    match r.children.lookup label with
    | some c => c.follow labels
    | none => none

/-- The rule that a path leads to: `root`, then a label after each dot. -/
def at? (r : Rule) (p : NodePath) : Option Rule :=
  match (Text.pieces '.' p.text.toList).map String.ofList with
  | "root" :: labels => r.follow labels
  | _ => none

theorem follow_concat {r s : Rule} {labels : List String} (h : r.follow labels = some s)
    (label : String) : r.follow (labels ++ [label]) = s.children.lookup label := by
  induction labels generalizing r with
  | nil =>
    cases h
    rw [List.nil_append, follow]
    cases s.children.lookup label <;> rfl
  | cons l labels ih =>
    simp only [List.cons_append, follow] at h ⊢
    split at h
    · exact ih h
    · cases h

theorem at?_root (r : Rule) : r.at? .root = some r := by
  rfl

/-- A path that leads to a rule goes on to its children. -/
theorem at?_child {r s c : Rule} {p : NodePath} {label : String} (hs : r.at? p = some s)
    (hc : (label, c) ∈ s.children) : r.at? (p.child label) = some c := by
  unfold at? at hs ⊢
  rw [NodePath.pieces_child p (dot_not_mem_label hc)]
  split at hs
  · rename_i labels he
    simp only [List.map_append, he, List.cons_append, List.map_cons, List.map_nil,
      String.ofList_toList]
    rw [follow_concat hs, lookup_children hc]
  · cases hs

/-- The path of each rule of the pre-order leads to that rule. -/
theorem at?_of_mem_preorder {r s t : Rule} {p q : NodePath} (hs : r.at? p = some s)
    (ht : (q, t) ∈ s.preorder p) : r.at? q = some t := by
  induction s using children_induction generalizing p with
  | step s ih =>
    rw [preorder_eq] at ht
    rcases List.mem_cons.mp ht with he | ht
    · cases he
      exact hs
    · obtain ⟨⟨label, c⟩, hc, ht⟩ := List.mem_flatMap.mp ht
      exact ih _ hc (at?_child hs hc) ht

/-- The path of each rule of the walk leads to that rule. -/
theorem at?_of_mem_walk {r t : Rule} {q : NodePath} (h : (q, t) ∈ r.walk) : r.at? q = some t := by
  rw [walk_eq] at h
  exact at?_of_mem_preorder (at?_root r) h

/-- A rule stands somewhere in another one, or is that one. -/
inductive Inside : Rule → Rule → Prop where
  | self (r : Rule) : Inside r r
  | inner {s c : Rule} {root : TaskRoot} {path : TaskPath} {each : Bool} (h : Inside s c) :
      Inside s (.task root path each (some c))
  | option {s c : Rule} {options : List Rule} (hc : c ∈ options) (h : Inside s c) :
      Inside s (.oneOf options)
  | pred {s c : Rule} {preds : List Rule} (hc : c ∈ preds) (h : Inside s c) :
      Inside s (.allOf preds)
  | yes {s c : Rule} {cond : Comparison} {no : Option Rule} (h : Inside s c) :
      Inside s (.branch cond c no)
  | no {s c : Rule} {cond : Comparison} {yes : Rule} (h : Inside s c) :
      Inside s (.branch cond yes (some c))

theorem Inside.child {s c r : Rule} {label : String} (hc : (label, c) ∈ r.children)
    (h : s.Inside c) : s.Inside r := by
  cases isChild_of_mem hc with
  | inner => exact .inner h
  | option hmem => exact .option (mem_of_mem_labelled hmem) h
  | pred hmem => exact .pred (mem_of_mem_labelled hmem) h
  | yes => exact .yes h
  | no => exact .no h

/-- The children of a rule are all the rules it holds, so that what stands in it stands in one of
them. -/
@[elab_as_elim]
theorem Inside.children_induction {s : Rule} {P : (r : Rule) → s.Inside r → Prop}
    (self : P s (.self s))
    (child : ∀ {label : String} {c r : Rule} (hc : (label, c) ∈ r.children) (h : s.Inside c),
      P c h → P r (.child hc h))
    {r : Rule} (h : s.Inside r) : P r h := by
  induction h with
  | self => exact self
  | inner h ih => exact child List.mem_cons_self h ih
  | option hc h ih =>
    obtain ⟨label, hmem⟩ := exists_label "options" 0 hc
    exact child hmem h ih
  | pred hc h ih =>
    obtain ⟨label, hmem⟩ := exists_label "preds" 0 hc
    exact child hmem h ih
  | @yes c cond no h ih =>
    have hmem : ("then", c) ∈ (Rule.branch cond c no).children := by cases no <;> simp [children]
    exact child hmem h ih
  | no h ih => exact child (List.mem_cons_of_mem _ List.mem_cons_self) h ih

theorem inside_of_mem_preorder {r s : Rule} {p q : NodePath} (h : (q, s) ∈ r.preorder p) :
    s.Inside r := by
  induction r using children_induction generalizing p with
  | step r ih =>
    rw [preorder_eq] at h
    rcases List.mem_cons.mp h with he | h
    · cases he
      exact .self s
    · obtain ⟨⟨label, c⟩, hc, h⟩ := List.mem_flatMap.mp h
      exact .child hc (ih _ hc h)

/-- Every rule of the walk stands in the rule. -/
theorem inside_of_mem_walk {r s : Rule} {q : NodePath} (h : (q, s) ∈ r.walk) : s.Inside r := by
  rw [walk_eq] at h
  exact inside_of_mem_preorder h

end Rule

end Eligibility
