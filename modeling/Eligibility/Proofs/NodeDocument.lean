import Mathlib
import Eligibility.Proofs.Numbers
import Eligibility.Rule.Parse

namespace Eligibility

theorem ok_bind {ε α β : Type} (a : α) (f : α → Except ε β) : (Except.ok a >>= f) = f a := rfl

namespace Place

theorem kindNamed_name {p : Place} {k : Kind} (h : k ∈ p.kinds) : p.kindNamed k.name = .ok k := by
  have hfind : ∀ k ∈ p.kinds, p.kinds.find? (fun l => l.name == k.name) = some k := by
    cases p <;> decide
  rw [kindNamed, hfind k h]

theorem kindAmong_some {p : Place} {k : Kind} {ms : List (String × Json)}
    (h : ∀ m ∈ ms, m.1 ≠ "typename") : p.kindAmong (some k) ms = .ok k := by
  induction ms with
  | nil => rfl
  | cons m ms ih =>
    obtain ⟨key, j⟩ := m
    rw [kindAmong, if_neg (h (key, j) (by simp))]
    exact ih fun n hn => h n (List.mem_cons_of_mem _ hn)

/-- The kind of an object is the one of its tag, if no other member is called so. -/
theorem kindAmong_tagged {p : Place} {k : Kind} {ms : List (String × Json)} (hk : k ∈ p.kinds)
    (h : ∀ m ∈ ms, m.1 ≠ "typename") :
    p.kindAmong none (("typename", .string k.name) :: ms) = .ok k := by
  rw [kindAmong, if_pos rfl]
  simp only [kindOf, kindNamed_name hk]
  exact kindAmong_some h

end Place

namespace Node

/-- The document has the kind of the node, and members from which the node is read. -/
def ReadsFrom (n : Node) (j : Json) : Prop :=
  ∃ ms, j = Json.tagged n.kind ms ∧ (∀ m ∈ ms, m.1 ≠ "typename") ∧ ofMembers n.kind ms = .ok n

theorem readMembers_typename (k : Kind) (s : Filled) (j : Json) (ms : List (String × Json)) :
    readMembers k s (("typename", j) :: ms) = readMembers k s ms := by
  have hfield : k.field? "typename" = none := by cases k <;> rfl
  rw [readMembers, hfield]

theorem literal_ofMembers_typename (j : Json) (ms : List (String × Json)) :
    Literal.ofMembers (("typename", j) :: ms) = Literal.ofMembers ms := by
  rw [Literal.ofMembers, List.filter_cons_of_neg (by simp), Literal.ofMembers]

/-- The node is read in every place that admits it. -/
theorem ReadsFrom.read {n : Node} {j : Json} (h : n.ReadsFrom j) {p : Place} (hk : n.kind ∈ p.kinds)
    (hplace : p.admit n = .ok n) : Node.read p j = .ok n := by
  obtain ⟨ms, rfl, hkeys, hn⟩ := h
  rw [Json.tagged, Node.read, Place.kindAmong_tagged hk hkeys]
  rw [ofMembers] at hn
  by_cases hvalue : n.kind = .value
  · rw [if_pos hvalue] at hn
    rw [ok_bind, if_pos hvalue, literal_ofMembers_typename]
    cases hv : Literal.ofMembers ms with
    | error f => simp [hv, Except.map, Except.mapError] at hn
    | ok v =>
      rw [hv] at hn
      cases hn
      exact hplace
  · rw [if_neg hvalue] at hn
    rw [ok_bind, if_neg hvalue, readMembers_typename]
    exact hn

/-- A member that gives a field is taken, and reading goes on. -/
theorem readMembers_step {k : Kind} {f : Field} {s s' : Filled} {key : String} {j : Json}
    {ms : List (String × Json)} (hf : k.field? key = some f) (hnew : s.has f = false)
    (hfill : fill f s j (fun p => read p j) (fun p => readAll p j) = .ok s') :
    readMembers k s ((key, j) :: ms) = readMembers k s' ms := by
  rw [readMembers, hf]
  simp only [hnew, Bool.false_eq_true, if_false, hfill]
  rfl

end Node

/-- A literal is read from its document, if its number is finite. -/
theorem Literal.readsFrom {v : Literal} (h : ∀ x ∈ v.numbers, x.isFinite = true) :
    (Node.literal v).ReadsFrom v.toJson := by
  cases v with
  | number x =>
    have hx : x.isFinite = true := h x (by simp [numbers])
    refine ⟨_, rfl, by simp, ?_⟩
    rw [Double.toJson, if_pos hx]
    rfl
  | text s => exact ⟨_, rfl, by simp, rfl⟩
  | truth b => exact ⟨_, rfl, by simp, rfl⟩

theorem Json.var_readsFrom (name : String) : (Node.var name).ReadsFrom (Json.var name) :=
  ⟨_, rfl, by simp, rfl⟩

theorem Json.result_readsFrom (name : String) : (Node.result name).ReadsFrom (Json.result name) :=
  ⟨_, rfl, by simp, rfl⟩

/-- A node that is read in a place is narrowed to what stands there. -/
theorem narrow_of_read {α : Type} {p : Place} {j : Json} {n : Node} {a : α}
    {f : Node → Except Mismatch α} (hread : Node.read p j = .ok n) (hn : f n = .ok a) :
    (Node.read p j >>= Node.narrow f) = .ok a := by
  rw [hread, ok_bind, Node.narrow, hn]
  rfl

/-- A list of nodes that are read in a place is narrowed to what they are. -/
theorem narrow_of_readAll {α : Type} {p : Place} {doc : α → Json} {node : α → Node}
    {f : Node → Except Mismatch α} {as : List α}
    (hread : ∀ a ∈ as, Node.read p (doc a) = .ok (node a)) (hnode : ∀ a, f (node a) = .ok a) :
    (Node.readAll p (.array (as.map doc)) >>= List.mapM (Node.narrow f)) = .ok as := by
  have heach : Node.readEach p (as.map doc) = .ok (as.map node) := by
    induction as with
    | nil => rfl
    | cons a as ih =>
      rw [List.map_cons, Node.readEach, hread a (by simp),
        ih fun b hb => hread b (List.mem_cons_of_mem _ hb)]
      rfl
  have hnarrow : (as.map node).mapM (Node.narrow f) = .ok as := by
    clear hread heach
    induction as with
    | nil => rfl
    | cons a as ih =>
      rw [List.map_cons, List.mapM_cons, ih, Node.narrow, hnode a]
      rfl
  rw [Node.readAll, heach, ok_bind, hnarrow]

theorem Json.var_narrow (name : String) :
    (Node.read .node (Json.var name) >>= Node.narrow Node.asVar) = .ok name := by
  refine narrow_of_read ((Json.var_readsFrom name).read ?_ rfl) rfl
  simp [Node.kind, Place.kinds, Kind.all]

theorem Scalar.read {s : Scalar} (h : ∀ x ∈ s.numbers, x.isFinite = true) :
    Node.read .scalar s.toJson = .ok s.toNode := by
  cases s with
  | number x =>
    have hx : ∀ y ∈ (Literal.number x).numbers, y.isFinite = true := h
    exact (Literal.readsFrom hx).read (by simp [Node.kind, Place.kinds]) rfl
  | result name => exact (Json.result_readsFrom name).read (by simp [Node.kind, Place.kinds]) rfl

theorem Term.readsFrom {t : Term} (h : ∀ x ∈ t.numbers, x.isFinite = true) :
    (Node.term t).ReadsFrom t.toJson := by
  have hcoefficient := narrow_of_read (Scalar.read h) (Node.asScalar_toNode t.coefficient)
  refine ⟨_, rfl, by simp, ?_⟩
  change Node.readMembers .affineTerm {} _ = _
  calc
    _ = Node.readMembers .affineTerm { coefficient := some t.coefficient } _ :=
      Node.readMembers_step rfl rfl (by rw [Node.fill, hcoefficient]; rfl)
    _ = Node.readMembers .affineTerm
        { coefficient := some t.coefficient, coefficientOf := some t.name } [] :=
      Node.readMembers_step rfl rfl (by rw [Node.fill, Json.var_narrow]; rfl)
    _ = .ok (.term t) := rfl

theorem Affine.readsFrom {e : Affine} (h : ∀ x ∈ e.numbers, x.isFinite = true) :
    (Node.affine e).ReadsFrom e.toJson := by
  have hterm : ∀ t ∈ e.terms, Node.read .node t.toJson = .ok (.term t) := by
    refine fun t ht => (Term.readsFrom fun x hx => h x ?_).read ?_ rfl
    · exact List.mem_append_left _ (List.mem_flatMap_of_mem ht hx)
    · simp [Node.kind, Place.kinds, Kind.all]
  have hconstant : ∀ s ∈ e.constants, Node.read .scalar s.toJson = .ok s.toNode := by
    refine fun s hs => Scalar.read fun x hx => h x ?_
    exact List.mem_append_right _ (List.mem_flatMap_of_mem hs hx)
  have hterms := narrow_of_readAll (f := Node.asTerm) hterm fun _ => rfl
  have hconstants := narrow_of_readAll hconstant Node.asScalar_toNode
  refine ⟨_, rfl, by simp, ?_⟩
  change Node.readMembers .affineExpression {} _ = _
  calc
    _ = Node.readMembers .affineExpression { terms := some e.terms } _ :=
      Node.readMembers_step rfl rfl (by rw [Node.fill, hterms]; rfl)
    _ = Node.readMembers .affineExpression
        { terms := some e.terms, constants := some e.constants } [] :=
      Node.readMembers_step rfl rfl (by rw [Node.fill, hconstants]; rfl)
    _ = .ok (.affine e) := rfl

/-- An operand is read back in a place for operands. -/
theorem Operand.narrow {o : Operand} (h : ∀ x ∈ o.numbers, x.isFinite = true) :
    (Node.read .operand o.toJson >>= Node.narrow Node.asOperand) = .ok o := by
  refine narrow_of_read ?_ (Node.asOperand_toNode o)
  cases o with
  | literal v => exact (Literal.readsFrom h).read (by simp [Node.kind, Place.kinds]) rfl
  | var name => exact (Json.var_readsFrom name).read (by simp [Node.kind, Place.kinds]) rfl
  | result name => exact (Json.result_readsFrom name).read (by simp [Node.kind, Place.kinds]) rfl
  | affine e => exact (Affine.readsFrom h).read (by simp [Node.kind, Place.kinds]) rfl

theorem Operator.ofJson_symbol (o : Operator) : Operator.ofJson (.string o.symbol) = .ok o := by
  cases o <;> rfl

theorem Comparison.readsFrom {c : Comparison} (h : ∀ x ∈ c.numbers, x.isFinite = true) :
    (Node.rule (.comparison c)).ReadsFrom c.toJson := by
  have hrhs := Operand.narrow h
  refine ⟨_, rfl, by simp, ?_⟩
  change Node.readMembers .comparison {} _ = _
  calc
    _ = Node.readMembers .comparison { lhs := some c.lhs } _ :=
      Node.readMembers_step rfl rfl (by rw [Node.fill, Json.var_narrow]; rfl)
    _ = Node.readMembers .comparison { lhs := some c.lhs, operator := some c.operator } _ :=
      Node.readMembers_step rfl rfl (by rw [Node.fill, Operator.ofJson_symbol]; rfl)
    _ = Node.readMembers .comparison
        { lhs := some c.lhs, operator := some c.operator, rhs := some c.rhs } [] :=
      Node.readMembers_step rfl rfl (by rw [Node.fill, hrhs]; rfl)
    _ = .ok (.rule (.comparison c)) := rfl

theorem Ratio.readsFrom {q : Ratio} (h : ∀ x ∈ q.numbers, x.isFinite = true) :
    (Node.rule (.ratio q)).ReadsFrom q.toJson := by
  have hdenominator := Operand.narrow fun x hx => h x (List.mem_append_left _ hx)
  have hliteral : ∀ y ∈ (Literal.number q.bound).numbers, y.isFinite = true :=
    fun y hy => h y (List.mem_append_right _ hy)
  have hbound := narrow_of_read (f := Node.asNumber) ((Literal.readsFrom hliteral).read
    (p := .node) (by simp [Node.kind, Place.kinds, Kind.all]) rfl) rfl
  refine ⟨_, rfl, by simp, ?_⟩
  change Node.readMembers .maintainRatio {} _ = _
  calc
    _ = Node.readMembers .maintainRatio { numerator := some q.numerator } _ :=
      Node.readMembers_step rfl rfl (by rw [Node.fill, Json.var_narrow]; rfl)
    _ = Node.readMembers .maintainRatio
        { numerator := some q.numerator, denominator := some q.denominator } _ :=
      Node.readMembers_step rfl rfl (by rw [Node.fill, hdenominator]; rfl)
    _ = Node.readMembers .maintainRatio
        { numerator := some q.numerator, denominator := some q.denominator,
          operator := some q.operator } _ :=
      Node.readMembers_step rfl rfl (by rw [Node.fill, Operator.ofJson_symbol]; rfl)
    _ = Node.readMembers .maintainRatio
        { numerator := some q.numerator, denominator := some q.denominator,
          operator := some q.operator, bound := some q.bound } [] :=
      Node.readMembers_step rfl rfl (by rw [Node.fill, hbound]; rfl)
    _ = .ok (.rule (.ratio q)) := rfl

/-- A root is read back from its document. -/
theorem TaskRoot.ofJson_toJson (root : TaskRoot) : TaskRoot.ofJson root.toJson = .ok root := by
  cases root <;> rfl

theorem TaskPath.ofJson_text (path : TaskPath) : TaskPath.ofJson (.string path.text) = .ok path := by
  have htext : (Json.string path.text).asText.mapError ReadFault.json = .ok path.text := rfl
  have hpath : TaskPath.ofText? path.text = some path := dif_pos path.rooted
  rw [TaskPath.ofJson, htext, ok_bind, hpath]

namespace Rule

theorem toJsons_eq (rs : List Rule) : toJsons rs = rs.map toJson := by
  induction rs with
  | nil => rfl
  | cons r rs ih => rw [toJsons, ih, List.map_cons]

/-- A place for rules admits every rule. -/
theorem kind_mem_kinds (r : Rule) : (Node.rule r).kind ∈ Place.rule.kinds := by
  cases r <;> simp [Node.kind, Rule.kind, Place.kinds]

theorem read_of_readsFrom {r : Rule} (h : (Node.rule r).ReadsFrom r.toJson) :
    Node.read .rule r.toJson = .ok (.rule r) :=
  h.read r.kind_mem_kinds rfl

/-- The document of a rule is never the absence of one. -/
theorem optionalRule_toJson {r : Rule} (h : (Node.rule r).ReadsFrom r.toJson) :
    Node.fill.optionalRule r.toJson (Node.read .rule r.toJson) = .ok (some r) := by
  have hrule := narrow_of_read (f := Node.asRule) (read_of_readsFrom h) rfl
  obtain ⟨ms, hj, -⟩ := h
  rw [hj, Json.tagged] at hrule ⊢
  rw [Node.fill.optionalRule, hrule]
  · rfl
  · simp

/-- A list of rules is read where rules are admitted. -/
theorem rules_narrow {rs : List Rule} (h : ∀ r ∈ rs, (Node.rule r).ReadsFrom r.toJson) :
    (Node.readAll .rule (.array (toJsons rs)) >>= List.mapM (Node.narrow Node.asRule)) = .ok rs := by
  rw [toJsons_eq]
  exact narrow_of_readAll (fun r hr => read_of_readsFrom (h r hr)) fun _ => rfl

/-- A task is read back, if the rule inside it is. -/
theorem task_readsFrom (root : TaskRoot) (path : TaskPath) (each : Bool) {inner : Option Rule}
    (h : ∀ r ∈ inner, (Node.rule r).ReadsFrom r.toJson) :
    (Node.rule (.task root path each inner)).ReadsFrom (Rule.task root path each inner).toJson := by
  have heach : ∀ ms, Node.readMembers .task { root := some root, path := some path }
      ((if each then [("array", .bool true)] else []) ++ ms) =
      Node.readMembers .task
        { root := some root, path := some path, each := if each then some true else none } ms := by
    intro ms
    cases each with
    | true => exact Node.readMembers_step rfl rfl rfl
    | false => rfl
  have hinner : ∀ taken, Node.readMembers .task
      { root := some root, path := some path, each := taken } (optionalMember "inner" inner) =
      Node.readMembers .task
        { root := some root, path := some path, each := taken, inner := inner.map some } [] := by
    intro taken
    cases inner with
    | none => rfl
    | some r =>
      refine Node.readMembers_step rfl rfl ?_
      rw [Node.fill, optionalRule_toJson (h r rfl)]
      rfl
  refine ⟨_, rfl, ?_, ?_⟩
  · cases each <;> cases inner <;> simp [optionalMember]
  change Node.readMembers .task {} _ = _
  calc
    _ = Node.readMembers .task { root := some root } _ :=
      Node.readMembers_step rfl rfl (by rw [Node.fill, TaskRoot.ofJson_toJson]; rfl)
    _ = Node.readMembers .task { root := some root, path := some path } _ :=
      Node.readMembers_step rfl rfl (by rw [Node.fill, TaskPath.ofJson_text]; rfl)
    _ = Node.readMembers .task
        { root := some root, path := some path, each := if each then some true else none }
          (optionalMember "inner" inner) := heach _
    _ = Node.readMembers .task
        { root := some root, path := some path, each := if each then some true else none,
          inner := inner.map some } [] := hinner _
    _ = .ok (.rule (.task root path each inner)) := by
      cases each <;> cases inner <;> rfl

/-- A branch is read back, if the rules inside it are. -/
theorem branch_readsFrom {cond : Comparison} {yes : Rule} {no : Option Rule}
    (hcond : ∀ x ∈ cond.numbers, x.isFinite = true) (hyes : (Node.rule yes).ReadsFrom yes.toJson)
    (hno : ∀ r ∈ no, (Node.rule r).ReadsFrom r.toJson) :
    (Node.rule (.branch cond yes no)).ReadsFrom (Rule.branch cond yes no).toJson := by
  have hcomparison := narrow_of_read (f := Node.asComparison) ((Comparison.readsFrom hcond).read
    (p := .node) (by simp [Node.kind, Rule.kind, Place.kinds, Kind.all]) rfl) rfl
  have hrule := narrow_of_read (f := Node.asRule) (read_of_readsFrom hyes) rfl
  have helse : Node.readMembers .branch { cond := some cond, yes := some yes }
      (optionalMember "else" no) =
      Node.readMembers .branch { cond := some cond, yes := some yes, no := no.map some } [] := by
    cases no with
    | none => rfl
    | some r =>
      refine Node.readMembers_step rfl rfl ?_
      rw [Node.fill, optionalRule_toJson (hno r rfl)]
      rfl
  refine ⟨_, rfl, ?_, ?_⟩
  · cases no <;> simp [optionalMember]
  change Node.readMembers .branch {} _ = _
  calc
    _ = Node.readMembers .branch { cond := some cond } _ :=
      Node.readMembers_step rfl rfl (by rw [Node.fill, hcomparison]; rfl)
    _ = Node.readMembers .branch { cond := some cond, yes := some yes } (optionalMember "else" no) :=
      Node.readMembers_step rfl rfl (by rw [Node.fill, hrule]; rfl)
    _ = Node.readMembers .branch { cond := some cond, yes := some yes, no := no.map some } [] := helse
    _ = .ok (.rule (.branch cond yes no)) := by
      cases no <;> rfl

/-- The document of a rule with finite numbers gives the rule back. -/
theorem readsFrom {r : Rule} (h : ∀ x ∈ r.numbers, x.isFinite = true) :
    (Node.rule r).ReadsFrom r.toJson := by
  induction r using Rule.induction with
  | comparison c => exact Comparison.readsFrom h
  | ratio q => exact Ratio.readsFrom h
  | task root path each inner ih =>
    refine task_readsFrom root path each fun r hr => ih r hr fun x hx => h x ?_
    cases Option.mem_def.mp hr
    exact hx
  | oneOf options ih =>
    rw [numbers, numbersAll_eq] at h
    have hoptions := rules_narrow fun r hr =>
      ih r hr fun x hx => h x (List.mem_flatMap_of_mem hr hx)
    refine ⟨_, rfl, by simp, ?_⟩
    change Node.readMembers .oneOf {} _ = _
    calc
      _ = Node.readMembers .oneOf { options := some options } [] :=
        Node.readMembers_step rfl rfl (by rw [Node.fill, hoptions]; rfl)
      _ = .ok (.rule (.oneOf options)) := rfl
  | allOf preds ih =>
    rw [numbers, numbersAll_eq] at h
    have hpreds := rules_narrow fun r hr =>
      ih r hr fun x hx => h x (List.mem_flatMap_of_mem hr hx)
    refine ⟨_, rfl, by simp, ?_⟩
    change Node.readMembers .allOf {} _ = _
    calc
      _ = Node.readMembers .allOf { preds := some preds } [] :=
        Node.readMembers_step rfl rfl (by rw [Node.fill, hpreds]; rfl)
      _ = .ok (.rule (.allOf preds)) := rfl
  | branch cond yes no hyes hno =>
    simp only [numbers, List.mem_append] at h
    refine branch_readsFrom (fun x hx => h x (.inl (.inl hx)))
      (hyes fun x hx => h x (.inl (.inr hx))) fun r hr => hno r hr fun x hx => h x (.inr ?_)
    cases Option.mem_def.mp hr
    exact hx

end Rule

/-- The document of a node with finite numbers gives the node back. -/
theorem Node.readsFrom {n : Node} (h : ∀ x ∈ n.numbers, x.isFinite = true) :
    n.ReadsFrom n.toJson := by
  cases n with
  | literal v => exact Literal.readsFrom h
  | var name => exact Json.var_readsFrom name
  | result name => exact Json.result_readsFrom name
  | term t => exact Term.readsFrom h
  | affine e => exact Affine.readsFrom h
  | rule r => exact Rule.readsFrom h

end Eligibility
