import Mathlib
import Eligibility.Proofs.Walk

namespace Eligibility

namespace Text

/-- The pieces of a text, with the separator between them again, are the text. -/
theorem intercalate_pieces (sep : Char) (cs : List Char) :
    [sep].intercalate (pieces sep cs) = cs := by
  induction cs with
  | nil => rfl
  | cons c cs ih =>
    obtain ⟨p, ps, hp⟩ := List.exists_cons_of_ne_nil (pieces_ne_nil sep cs)
    rw [pieces]
    split
    · rename_i hc
      rw [hp] at ih ⊢
      rw [List.intercalate_cons_cons, ih, hc]
      rfl
    · rw [hp] at ih ⊢
      cases ps with
      | nil => simpa using ih
      | cons p' ps =>
        simp only [List.intercalate_cons_cons] at ih ⊢
        rw [List.cons_append, List.cons_append, ih]

theorem pieces_injective {sep : Char} {as bs : List Char} (h : pieces sep as = pieces sep bs) :
    as = bs := by
  rw [← intercalate_pieces sep as, h, intercalate_pieces]

end Text

namespace NodePath

def segments (p : NodePath) : List (List Char) := Text.pieces '.' p.text.toList

theorem text_injective : Function.Injective text := by
  rintro ⟨s⟩ ⟨t⟩ h
  exact congrArg mk h

/-- Distinct paths have distinct texts. -/
theorem nodup_texts {α : Type} {place : α → NodePath} {l : List α} (h : (l.map place).Nodup) :
    (l.map fun a => (place a).text).Nodup := by
  have htexts := h.map text_injective
  rwa [List.map_map] at htexts

/-- A path is told by the segments between its dots. -/
theorem segments_injective {p q : NodePath} (h : p.segments = q.segments) : p = q :=
  text_injective (String.toList_inj.mp (Text.pieces_injective h))

theorem segments_root : root.segments = ["root".toList] := by
  rfl

theorem segments_child (p : NodePath) {label : String} (h : '.' ∉ label.toList) :
    (p.child label).segments = p.segments ++ [label.toList] :=
  pieces_child p h

/-- The path that leads on from a path through labels, one after the other. -/
def descend (p : NodePath) (labels : List String) : NodePath := labels.foldl child p

@[simp] theorem descend_nil (p : NodePath) : p.descend [] = p := rfl

@[simp] theorem descend_cons (p : NodePath) (label : String) (labels : List String) :
    p.descend (label :: labels) = (p.child label).descend labels := rfl

theorem descend_concat (p : NodePath) (labels : List String) (label : String) :
    p.descend (labels ++ [label]) = (p.descend labels).child label := by
  simp [descend]

theorem segments_descend (p : NodePath) {labels : List String}
    (h : ∀ label ∈ labels, '.' ∉ label.toList) :
    (p.descend labels).segments = p.segments ++ labels.map String.toList := by
  induction labels generalizing p with
  | nil => simp
  | cons label labels ih =>
    rw [List.forall_mem_cons] at h
    rw [descend_cons, ih _ h.2, segments_child p h.1, List.append_assoc, List.map_cons,
      List.singleton_append]

/-- The path leads to what is at the other path, or to a part of it. -/
def Under (q p : NodePath) : Prop := p.segments <+: q.segments

instance (q p : NodePath) : Decidable (q.Under p) := inferInstanceAs (Decidable (_ <+: _))

theorem Under.refl (p : NodePath) : p.Under p := List.prefix_rfl

theorem Under.trans {p q t : NodePath} (h : t.Under q) (h' : q.Under p) : t.Under p :=
  List.IsPrefix.trans h' h

theorem under_descend (p : NodePath) {labels : List String}
    (h : ∀ label ∈ labels, '.' ∉ label.toList) : (p.descend labels).Under p := by
  rw [Under, segments_descend p h]
  exact List.prefix_append _ _

theorem under_child (p : NodePath) {label : String} (h : '.' ∉ label.toList) :
    (p.child label).Under p := by
  rw [Under, segments_child p h]
  exact List.prefix_append _ _

/-- What lies under a child of a path goes on with the label of that child. -/
theorem head_of_under_child {p : NodePath} {label : String} {labels : List String}
    (hlabel : '.' ∉ label.toList) (hlabels : ∀ l ∈ labels, '.' ∉ l.toList)
    (h : (p.descend labels).Under (p.child label)) : labels.head? = some label := by
  rw [Under, segments_descend p hlabels, segments_child p hlabel,
    List.prefix_append_right_inj] at h
  cases labels with
  | nil => simp at h
  | cons l labels =>
    rw [List.map_cons, List.cons_prefix_cons] at h
    rw [List.head?_cons, String.toList_inj.mp h.1]

theorem not_under_child (p : NodePath) {label : String} (h : '.' ∉ label.toList) :
    ¬ p.Under (p.child label) := by
  intro hunder
  cases @head_of_under_child p label [] h (List.forall_mem_nil _) hunder

/-- Nothing lies under two children of a path. -/
theorem label_of_under {p q : NodePath} {label label' : String} (h : '.' ∉ label.toList)
    (h' : '.' ∉ label'.toList) (hq : q.Under (p.child label)) (hq' : q.Under (p.child label')) :
    label = label' := by
  rw [Under, segments_child p h] at hq
  rw [Under, segments_child p h'] at hq'
  have hprefix := List.prefix_of_prefix_length_le hq hq' (by simp)
  rw [List.prefix_append_right_inj, List.cons_prefix_cons] at hprefix
  exact String.toList_inj.mp hprefix.1

end NodePath

namespace Rule

theorem nodup_labelled (key : String) (i : Nat) (rs : List Rule) :
    ((labelled key i rs).map Prod.fst).Nodup := by
  induction rs generalizing i with
  | nil => exact List.nodup_nil
  | cons r rs ih =>
    rw [labelled, List.map_cons, List.nodup_cons]
    refine ⟨fun hmem => ?_, ih (i + 1)⟩
    obtain ⟨⟨label, s⟩, hs, hlabel⟩ := List.mem_map.mp hmem
    obtain ⟨j, hj, rfl⟩ := label_of_mem_labelled hs
    have := indexed_injective key hlabel
    omega

/-- The children of a rule have distinct labels. -/
theorem nodup_labels (r : Rule) : (r.children.map Prod.fst).Nodup := by
  cases r with
  | task root path each inner => cases inner <;> simp [children]
  | comparison c => exact List.nodup_nil
  | ratio q => exact List.nodup_nil
  | oneOf options => exact nodup_labelled "options" 0 options
  | allOf preds => exact nodup_labelled "preds" 0 preds
  | branch cond yes no => cases no <;> simp [children]

theorem position_of_label {r : Rule} {i j : Nat} {label : String} {c c' : Rule}
    (hi : r.children[i]? = some (label, c)) (hj : r.children[j]? = some (label, c')) : i = j := by
  have hlt : i < (r.children.map Prod.fst).length := by
    rw [List.length_map]
    exact (List.getElem?_eq_some_iff.mp hi).1
  refine (List.getElem?_inj hlt r.nodup_labels).mp ?_
  rw [List.getElem?_map, List.getElem?_map, hi, hj]
  rfl

/-- All that the walk gives for a rule at a path lies under that path. -/
theorem under_of_mem_preorder {r s : Rule} {p q : NodePath} (h : (q, s) ∈ r.preorder p) :
    q.Under p := by
  induction r using children_induction generalizing p with
  | step r ih =>
    rw [preorder_eq] at h
    rcases List.mem_cons.mp h with he | h
    · cases he
      exact .refl q
    · obtain ⟨⟨label, c⟩, hc, h⟩ := List.mem_flatMap.mp h
      exact (ih _ hc h).trans (p.under_child (dot_not_mem_label hc))

/-- A place of a rule at a path: the position of a child for each step down, the path there and the
rule there. -/
inductive Occurs : NodePath → Rule → List Nat → NodePath → Rule → Prop where
  | here (p : NodePath) (r : Rule) : Occurs p r [] p r
  | child {p q : NodePath} {r c s : Rule} {i : Nat} {label : String} {position : List Nat}
      (hc : r.children[i]? = some (label, c)) (h : Occurs (p.child label) c position q s) :
      Occurs p r (i :: position) q s

theorem mem_preorder_iff {r s : Rule} {p q : NodePath} :
    (q, s) ∈ r.preorder p ↔ ∃ position, Occurs p r position q s := by
  constructor
  · intro h
    induction r using children_induction generalizing p with
    | step r ih =>
      rw [preorder_eq] at h
      rcases List.mem_cons.mp h with he | h
      · cases he
        exact ⟨[], .here q s⟩
      · obtain ⟨⟨label, c⟩, hc, h⟩ := List.mem_flatMap.mp h
        obtain ⟨position, hposition⟩ := ih _ hc h
        obtain ⟨i, hi⟩ := List.mem_iff_getElem?.mp hc
        exact ⟨i :: position, .child hi hposition⟩
  · rintro ⟨position, h⟩
    induction h with
    | here p r =>
      rw [preorder_eq]
      exact List.mem_cons_self
    | child hc _ ih =>
      rw [preorder_eq]
      exact List.mem_cons_of_mem _ (List.mem_flatMap_of_mem (List.mem_of_getElem? hc) ih)

/-- A path belongs to one place only. -/
theorem Occurs.unique {p q : NodePath} {r s t : Rule} {position position' : List Nat}
    (h : Occurs p r position q s) (h' : Occurs p r position' q t) :
    position = position' ∧ s = t := by
  induction h generalizing position' with
  | here p r =>
    cases h' with
    | here => exact ⟨rfl, rfl⟩
    | child hc h' =>
      have hunder := under_of_mem_preorder (mem_preorder_iff.mpr ⟨_, h'⟩)
      exact absurd hunder (p.not_under_child (dot_not_mem_label (List.mem_of_getElem? hc)))
  | @child p q r c s i label position hc h ih =>
    have hdot := dot_not_mem_label (List.mem_of_getElem? hc)
    have hunder := under_of_mem_preorder (mem_preorder_iff.mpr ⟨_, h⟩)
    cases h' with
    | here => exact absurd hunder (p.not_under_child hdot)
    | child hc' h' =>
      have hdot' := dot_not_mem_label (List.mem_of_getElem? hc')
      have hunder' := under_of_mem_preorder (mem_preorder_iff.mpr ⟨_, h'⟩)
      cases NodePath.label_of_under hdot hdot' hunder hunder'
      cases position_of_label hc hc'
      cases hc.symm.trans hc'
      obtain ⟨rfl, rfl⟩ := ih h'
      exact ⟨rfl, rfl⟩

/-- What a rule has of its own and what its children have, each under its own path, holds nothing
twice. -/
theorem nodup_append_children (r : Rule) (p : NodePath) {own : List NodePath}
    {parts : String × Rule → List NodePath} (hown : own.Nodup)
    (hfree : ∀ q ∈ own, ∀ c ∈ r.children, ¬ q.Under (p.child c.1))
    (hparts : ∀ c ∈ r.children, (parts c).Nodup)
    (hunder : ∀ c ∈ r.children, ∀ q ∈ parts c, q.Under (p.child c.1)) :
    (own ++ r.children.flatMap parts).Nodup := by
  have hlabels : r.children.Pairwise fun c d => c.1 ≠ d.1 :=
    List.pairwise_map.mp r.nodup_labels
  have hdisjoint : r.children.Pairwise (Function.onFun List.Disjoint parts) := by
    refine hlabels.imp_of_mem fun {c d} hc hd hne q hqc hqd => hne ?_
    exact NodePath.label_of_under (dot_not_mem_label hc) (dot_not_mem_label hd)
      (hunder c hc q hqc) (hunder d hd q hqd)
  refine hown.append (List.nodup_flatMap.mpr ⟨hparts, hdisjoint⟩) fun q hq hq' => ?_
  obtain ⟨c, hc, hqc⟩ := List.mem_flatMap.mp hq'
  exact hfree q hq c hc (hunder c hc q hqc)

/-- No two places of a tree have the same path. -/
theorem nodup_preorder (r : Rule) (p : NodePath) : ((r.preorder p).map Prod.fst).Nodup := by
  induction r using children_induction generalizing p with
  | step r ih =>
    rw [preorder_eq, List.map_cons, List.map_flatMap, ← List.singleton_append]
    refine r.nodup_append_children p (List.nodup_singleton p) ?_ (fun c hc => ih c hc _) ?_
    · intro q hq c hc
      rw [List.mem_singleton.mp hq]
      exact p.not_under_child (dot_not_mem_label hc)
    · intro c hc q hq
      obtain ⟨⟨q, s⟩, hs, rfl⟩ := List.mem_map.mp hq
      exact under_of_mem_preorder hs

/-- Following labels down a rule ends at a rule of its walk. -/
theorem mem_preorder_of_follow {r s : Rule} {labels : List String} (p : NodePath)
    (h : r.follow labels = some s) :
    (p.descend labels, s) ∈ r.preorder p ∧ ∀ label ∈ labels, '.' ∉ label.toList := by
  induction labels generalizing r p with
  | nil =>
    cases h
    rw [preorder_eq]
    exact ⟨List.mem_cons_self, List.forall_mem_nil _⟩
  | cons label labels ih =>
    rw [follow] at h
    split at h
    · rename_i c hlookup
      obtain ⟨before, after, hsplit, -⟩ := List.lookup_eq_some_iff.mp hlookup
      have hc : (label, c) ∈ r.children := by
        rw [hsplit]
        exact List.mem_append_right _ List.mem_cons_self
      obtain ⟨hmem, hdots⟩ := ih (p.child label) h
      rw [preorder_eq]
      exact ⟨List.mem_cons_of_mem _ (List.mem_flatMap_of_mem hc hmem),
        List.forall_mem_cons.mpr ⟨dot_not_mem_label hc, hdots⟩⟩
    · cases h

/-- The walk holds exactly the rules that paths lead to, each with its path. -/
theorem mem_walk_iff {r s : Rule} {p : NodePath} : (p, s) ∈ r.walk ↔ r.at? p = some s := by
  refine ⟨at?_of_mem_walk, fun h => ?_⟩
  unfold at? at h
  split at h
  · rename_i labels hlabels
    obtain ⟨hmem, hdots⟩ := mem_preorder_of_follow .root h
    have hsegments : p.segments = (NodePath.root.descend labels).segments := by
      rw [NodePath.segments_descend _ hdots, NodePath.segments_root, List.singleton_append,
        ← List.map_cons (f := String.toList), ← hlabels, List.map_map]
      exact (List.map_id'' (fun cs => String.toList_ofList) _).symm
    rw [walk_eq, NodePath.segments_injective hsegments]
    exact hmem
  · cases h

/-- The loop of the walk, with no bound on its rounds: it takes the first waiting rule, puts the
children of it in front of the others that wait, and ends when none waits. -/
inductive Visits : List (NodePath × Rule) → List (NodePath × Rule) → Prop where
  | done : Visits [] []
  | next {p : NodePath} {r : Rule} {waiting visited : List (NodePath × Rule)}
      (h : Visits ((r.children.map fun c => (p.child c.1, c.2)) ++ waiting) visited) :
      Visits ((p, r) :: waiting) ((p, r) :: visited)

/-- With as many rounds as there are rules in what waits, the loop comes to its end. -/
theorem visits_visit (fuel : Nat) (waiting : List (NodePath × Rule))
    (h : (waiting.map fun w => w.2.size).sum ≤ fuel) : Visits waiting (visit fuel waiting) := by
  induction fuel generalizing waiting with
  | zero =>
    cases waiting with
    | nil => exact .done
    | cons w waiting =>
      rw [← sizes_next] at h
      omega
  | succ fuel ih =>
    cases waiting with
    | nil => exact .done
    | cons w waiting =>
      rw [← sizes_next] at h
      exact .next (ih _ (Nat.le_of_succ_le_succ h))

theorem Visits.unique {waiting visited visited' : List (NodePath × Rule)}
    (h : Visits waiting visited) (h' : Visits waiting visited') : visited = visited' := by
  induction h generalizing visited' with
  | done =>
    cases h'
    rfl
  | next _ ih =>
    cases h' with
    | next h' => rw [ih h']

/-- The bound on the rounds of the walk is never met: it visits what the loop without a bound does.
-/
theorem visits_walk (r : Rule) : Visits [(.root, r)] r.walk :=
  visits_visit _ _ (by simp)

theorem existsUnique_index {r s : Rule} {p : NodePath} (h : (p, s) ∈ r.walk) :
    ∃! i : Nat, r.walk[i]? = some (p, s) := by
  have hnodup : (r.walk.map Prod.fst).Nodup := by
    rw [walk_eq]
    exact r.nodup_preorder .root
  obtain ⟨i, hi⟩ := List.mem_iff_getElem?.mp h
  refine ⟨i, hi, fun j hj => ?_⟩
  have hlt : j < r.walk.length := (List.getElem?_eq_some_iff.mp hj).1
  exact (List.getElem?_inj hlt hnodup.of_map).mp (hj.trans hi.symm)

/-- The walk comes to its end and is the pre-order of the tree, a rule before its children and these
in their order. Each place of the tree is met once, with its own path; no two of the paths are the
same text, and following a path leads to the rule that it stands with. -/
theorem walk_meets_each_place_once (r : Rule) :
    (∀ visited, Visits [(.root, r)] visited ↔ visited = r.walk) ∧
    r.walk = r.preorder .root ∧
    (∀ (p : NodePath) (s : Rule), s.preorder p =
      (p, s) :: s.children.flatMap fun c => c.2.preorder (p.child c.1)) ∧
    (∀ position p s, Occurs .root r position p s → ∃! i : Nat, r.walk[i]? = some (p, s)) ∧
    (∀ (i : Nat) p s, r.walk[i]? = some (p, s) → ∃! position, Occurs .root r position p s) ∧
    (r.walk.map fun e => e.1.text).Nodup ∧
    ∀ p s, (p, s) ∈ r.walk ↔ r.at? p = some s := by
  refine ⟨fun visited => ⟨fun h => h.unique r.visits_walk, fun h => h ▸ r.visits_walk⟩, r.walk_eq,
    fun p s => preorder_eq p s, fun position p s h => ?_, fun i p s h => ?_, ?_,
    fun p s => mem_walk_iff⟩
  · apply existsUnique_index
    rw [walk_eq]
    exact mem_preorder_iff.mpr ⟨position, h⟩
  · have hmem := List.mem_of_getElem? h
    rw [walk_eq] at hmem
    obtain ⟨position, hposition⟩ := mem_preorder_iff.mp hmem
    exact ⟨position, hposition, fun other hother => (hother.unique hposition).1⟩
  · apply NodePath.nodup_texts
    rw [walk_eq]
    exact r.nodup_preorder .root

def repeated : Rule :=
  .allOf [.comparison ⟨"x", .equal, .var "y"⟩,
    .task .loan ⟨"$.a", rfl⟩ false (some (.comparison ⟨"x", .equal, .var "y"⟩))]

/-- The two places of the comparison have paths of their own, and each is met once. -/
theorem walk_meets_each_place_once_repeated :
    (repeated.walk.map fun e => e.1.text) =
      ["root", "root.preds[0]", "root.preds[1]", "root.preds[1].inner"] ∧
    (∃! i : Nat, repeated.walk[i]? =
      some (⟨"root.preds[0]"⟩, .comparison ⟨"x", .equal, .var "y"⟩)) ∧
    ∃! i : Nat, repeated.walk[i]? =
      some (⟨"root.preds[1].inner"⟩, .comparison ⟨"x", .equal, .var "y"⟩) := by
  obtain ⟨-, hpreorder, -, honce, -, -, hplaces⟩ := walk_meets_each_place_once repeated
  have hmeets : ∀ p s, repeated.at? p = some s →
      ∃! i : Nat, repeated.walk[i]? = some (p, s) := by
    intro p s hs
    rw [← hplaces, hpreorder, mem_preorder_iff] at hs
    obtain ⟨position, hs⟩ := hs
    exact honce position p s hs
  have hpred : repeated.at? ⟨"root.preds[0]"⟩ =
      some (.comparison ⟨"x", .equal, .var "y"⟩) := rfl
  have hinner : repeated.at? ⟨"root.preds[1].inner"⟩ =
      some (.comparison ⟨"x", .equal, .var "y"⟩) := rfl
  exact ⟨by decide +kernel, hmeets _ _ hpred, hmeets _ _ hinner⟩

end Rule

end Eligibility
