import Mathlib
import Eligibility.Proofs.DocumentText
import Eligibility.Proofs.NodeDocument
import Eligibility.Review.Failure

namespace Eligibility

namespace Json

theorem readable_tagged (k : Kind) {ms : List (String × Json)} (h : ∀ m ∈ ms, m.2.Readable) :
    (tagged k ms).Readable :=
  .object (List.forall_mem_cons.mpr ⟨.string _, h⟩)

theorem readable_map {α : Type} {doc : α → Json} {as : List α} (h : ∀ a ∈ as, (doc a).Readable) :
    (Json.array (as.map doc)).Readable := by
  refine .array fun j hj => ?_
  obtain ⟨a, ha, rfl⟩ := List.mem_map.mp hj
  exact h a ha

theorem readable_var (name : String) : (Json.var name).Readable :=
  readable_tagged .var (by simp [Readable.string])

theorem readable_result (name : String) : (Json.result name).Readable :=
  readable_tagged .taskResult (by simp [Readable.string])

end Json

open Json (Readable)

theorem Literal.readable {v : Literal} (h : ∀ x ∈ v.numbers, x.toJson.Readable) :
    v.toJson.Readable := by
  cases v with
  | number x =>
    have hx : x.toJson.Readable := h x (List.mem_singleton_self x)
    exact Json.readable_tagged .value (by simp [Readable.string, hx])
  | text s => exact Json.readable_tagged .value (by simp [Readable.string])
  | truth b => exact Json.readable_tagged .value (by simp [Readable.string, Readable.bool])

theorem Scalar.readable {s : Scalar} (h : ∀ x ∈ s.numbers, x.toJson.Readable) :
    s.toJson.Readable := by
  cases s with
  | number x => exact Literal.readable (v := .number x) h
  | result name => exact Json.readable_result name

theorem Term.readable {t : Term} (h : ∀ x ∈ t.numbers, x.toJson.Readable) : t.toJson.Readable := by
  have hcoefficient : t.coefficient.toJson.Readable := Scalar.readable h
  exact Json.readable_tagged .affineTerm (by simp [hcoefficient, Json.readable_var])

theorem Affine.readable {e : Affine} (h : ∀ x ∈ e.numbers, x.toJson.Readable) :
    e.toJson.Readable := by
  have hterms := Json.readable_map fun t ht => Term.readable fun x hx =>
    h x (List.mem_append_left _ (List.mem_flatMap_of_mem ht hx))
  have hconstants := Json.readable_map fun s hs => Scalar.readable fun x hx =>
    h x (List.mem_append_right _ (List.mem_flatMap_of_mem hs hx))
  exact Json.readable_tagged .affineExpression (by simp [hterms, hconstants])

theorem Operand.readable {o : Operand} (h : ∀ x ∈ o.numbers, x.toJson.Readable) :
    o.toJson.Readable := by
  cases o with
  | literal v => exact Literal.readable h
  | var name => exact Json.readable_var name
  | result name => exact Json.readable_result name
  | affine e => exact Affine.readable h

theorem Comparison.readable {c : Comparison} (h : ∀ x ∈ c.numbers, x.toJson.Readable) :
    c.toJson.Readable := by
  have hrhs : c.rhs.toJson.Readable := Operand.readable h
  exact Json.readable_tagged .comparison (by simp [hrhs, Json.readable_var, Readable.string])

theorem Ratio.readable {q : Ratio} (h : ∀ x ∈ q.numbers, x.toJson.Readable) :
    q.toJson.Readable := by
  have hdenominator := Operand.readable fun x hx => h x (List.mem_append_left _ hx)
  have hbound : (Literal.number q.bound).toJson.Readable :=
    Literal.readable fun x hx => h x (List.mem_append_right _ hx)
  exact Json.readable_tagged .maintainRatio
    (by simp [hdenominator, hbound, Json.readable_var, Readable.string])

theorem TaskRoot.readable (root : TaskRoot) : root.toJson.Readable := by
  cases root with
  | loan => exact .object (by simp [Readable.string])
  | result name => exact Json.readable_result name

namespace Rule

theorem readable_optionalMember (key : String) {o : Option Rule}
    (h : ∀ r, o = some r → r.toJson.Readable) : ∀ m ∈ optionalMember key o, m.2.Readable := by
  cases o with
  | none => simp [optionalMember]
  | some r => simpa [optionalMember] using h r rfl

/-- The document of a rule is readable, if its numbers are. -/
theorem readable {r : Rule} (h : ∀ x ∈ r.numbers, x.toJson.Readable) : r.toJson.Readable := by
  induction r using Rule.induction with
  | comparison c => exact Comparison.readable h
  | ratio q => exact Ratio.readable h
  | task root path each inner ih =>
    have hinner : ∀ m ∈ optionalMember "inner" inner, m.2.Readable := by
      refine readable_optionalMember "inner" fun r hr => ih r hr fun x hx => h x ?_
      subst hr
      exact hx
    refine Json.readable_tagged .task (List.forall_mem_append.mpr ⟨?_, hinner⟩)
    cases each <;> simp [TaskRoot.readable, Readable.string, Readable.bool]
  | oneOf options ih =>
    rw [numbers, numbersAll_eq] at h
    have hoptions := Json.readable_map fun r hr =>
      ih r hr fun x hx => h x (List.mem_flatMap_of_mem hr hx)
    exact Json.readable_tagged .oneOf (by simp [toJsons_eq, hoptions])
  | allOf preds ih =>
    rw [numbers, numbersAll_eq] at h
    have hpreds := Json.readable_map fun r hr =>
      ih r hr fun x hx => h x (List.mem_flatMap_of_mem hr hx)
    exact Json.readable_tagged .allOf (by simp [toJsons_eq, hpreds])
  | branch cond yes no hyes hno =>
    simp only [numbers, List.mem_append] at h
    have hcond := Comparison.readable fun x hx => h x (.inl (.inl hx))
    have hthen := hyes fun x hx => h x (.inl (.inr hx))
    have helse : ∀ m ∈ optionalMember "else" no, m.2.Readable := by
      refine readable_optionalMember "else" fun r hr => hno r hr fun x hx => h x (.inr ?_)
      subst hr
      exact hx
    refine Json.readable_tagged .branch (List.forall_mem_append.mpr ⟨?_, helse⟩)
    simp [hcond, hthen]

end Rule

/-- The document of a node is readable, if its numbers are. -/
theorem Node.readable {n : Node} (h : ∀ x ∈ n.numbers, x.toJson.Readable) : n.toJson.Readable := by
  cases n with
  | literal v => exact Literal.readable h
  | var name => exact Json.readable_var name
  | result name => exact Json.readable_result name
  | term t => exact Term.readable h
  | affine e => exact Affine.readable h
  | rule r => exact Rule.readable h

namespace Node

open Json (Draft draftMembers letters)

/-- After the tag, the members of a written object are taken as they are. -/
theorem topMembers_some {room : Nat} {k : Kind} {ms : List (String × Json)}
    (hkeys : ∀ m ∈ ms, m.1 ≠ "typename") (hsettle : ∀ m ∈ ms, m.2.draft.settle? room = some m.2) :
    topMembers room true (some k) (draftMembers ms) = .ok (k, ms) := by
  induction ms with
  | nil => rfl
  | cons m ms ih =>
    obtain ⟨key, j⟩ := m
    have hrest := ih (fun n hn => hkeys n (List.mem_cons_of_mem _ hn))
      fun n hn => hsettle n (List.mem_cons_of_mem _ hn)
    have hj : j.draft.settle room = .ok j := by
      rw [Draft.settle, hsettle (key, j) (by simp)]
    rw [draftMembers, topMembers, Json.spelled_letters]
    change (if key = "typename" then _ else _) = _
    rw [if_neg (hkeys (key, j) (by simp)), hj, hrest]
    rfl

/-- The kind is found first, and then the other members as they were written. -/
theorem topMembers_tagged {room : Nat} {k : Kind} {ms : List (String × Json)}
    (hkeys : ∀ m ∈ ms, m.1 ≠ "typename") (hsettle : ∀ m ∈ ms, m.2.draft.settle? room = some m.2) :
    topMembers room true none (draftMembers (("typename", .string k.name) :: ms)) = .ok (k, ms) := by
  have hkind : topKind (Json.string k.name).draft = .ok k := by
    rw [Json.draft, topKind, Json.spelled_letters]
    exact Place.kindNamed_name k.mem_all
  rw [draftMembers, topMembers, Json.spelled_letters]
  change (topKind (Json.string k.name).draft >>= fun k => topMembers room true (some k) _) = _
  rw [hkind, ok_bind, topMembers_some hkeys hsettle]

/-- A failure is read from the draft of its document. -/
theorem ofDraft_draft {n : Node} (hfinite : ∀ x ∈ n.numbers, x.isFinite = true)
    (hreadable : n.toJson.Readable) {room : Nat} (hroom : n.toJson.depth ≤ room) :
    ofDraft room n.toJson.draft = .ok n := by
  obtain ⟨ms, hj, hkeys, hn⟩ := Node.readsFrom hfinite
  rw [hj] at hreadable hroom ⊢
  obtain ⟨room, rfl⟩ := Nat.exists_eq_add_of_le' (Nat.one_le_of_lt hroom)
  have hsettle : ∀ m ∈ ms, m.2.draft.settle? room = some m.2 := by
    intro m hm
    have hmem := List.mem_cons_of_mem ("typename", Json.string n.kind.name) hm
    cases hreadable with
    | object h =>
      refine (h m hmem).settle?_draft ((Json.depth_le_depthMembers hmem).trans ?_)
      exact Nat.le_of_succ_le_succ hroom
  rw [Json.tagged, Json.draft, ofDraft, topMembers_tagged hkeys hsettle]
  exact hn

/-- What is written for a node is read as that node. -/
theorem parse_serialize {n : Node} (hfinite : ∀ x ∈ n.numbers, x.isFinite = true)
    (hreadable : n.toJson.Readable) (hdepth : n.toJson.depth ≤ Json.maxDepth) :
    Node.parse n.serialize = .ok n := by
  rw [Node.parse, serialize, hreadable.read_render]
  simp only [ofDraft_draft hfinite hreadable hdepth]
  rfl

end Node

namespace Failure

open Json (Draft draftMembers letters)

theorem asText_draft (s : String) : (Json.string s).draft.asText = .ok s := by
  rw [Json.draft, Draft.asText, Json.spelled_letters]

theorem choice_draft (c : FailureCode) :
    (Json.string c.name).draft.choice FailureCode.names = .ok c := by
  have hpick : Draft.choice.pick FailureCode.names c.name = .ok c := by cases c <;> rfl
  rw [Json.draft, Draft.choice, Json.spelled_letters]
  exact hpick

/-- A member that is taken leaves the others. -/
theorem ofMembers_step {room : Nat} {s t : Partly} {key : String} {j : Json}
    {ms : List (String × Json)} (htake : s.take room key j.draft = .ok t) :
    ofMembers room true s (draftMembers ((key, j) :: ms)) =
      ofMembers room true t (draftMembers ms) := by
  rw [draftMembers, ofMembers, Json.spelled_letters]
  change (s.take room key j.draft >>= fun s => ofMembers room true s _) = _
  rw [htake]
  rfl

theorem ofDraft_draft {f : Failure} (hfinite : ∀ x ∈ f.node.numbers, x.isFinite = true)
    (hreadable : f.node.toJson.Readable) (hdepth : f.toJson.depth ≤ Json.maxDepth) :
    ofDraft f.toJson.draft = .ok f := by
  obtain ⟨code, path, node, message⟩ := f
  have hroom : node.toJson.depth ≤ Json.maxDepth - 1 := by
    refine (Json.depth_le_depthMembers (m := ("node", node.toJson)) ?_).trans
      (Nat.le_of_succ_le_succ hdepth)
    simp
  have hnode := Node.ofDraft_draft hfinite hreadable hroom
  rw [toJson, Json.draft, ofDraft]
  calc
    _ = ofMembers _ true { code := some code } _ :=
      ofMembers_step (by simp only [Partly.take, choice_draft]; rfl)
    _ = ofMembers _ true { code := some code, path := some path } _ :=
      ofMembers_step (by simp only [Partly.take, asText_draft]; rfl)
    _ = ofMembers _ true { code := some code, path := some path, node := some node } _ :=
      ofMembers_step (by simp only [Partly.take, hnode]; rfl)
    _ = ofMembers _ true
        { code := some code, path := some path, node := some node, message := some message }
          (draftMembers []) :=
      ofMembers_step (by simp only [Partly.take, asText_draft]; rfl)
    _ = .ok ⟨code, path, node, message⟩ := rfl

theorem readable {f : Failure} (h : f.node.toJson.Readable) : f.toJson.Readable :=
  .object (by simp [h, Readable.string])

/-- What is written for a failure is read as that failure. -/
theorem parse_serialize {f : Failure} (hfinite : ∀ x ∈ f.node.numbers, x.isFinite = true)
    (hreadable : f.node.toJson.Readable) (hdepth : f.toJson.depth ≤ Json.maxDepth) :
    Failure.parse f.serialize = .ok f := by
  rw [Failure.parse, serialize, (readable hreadable).read_render]
  simp only [ofDraft_draft hfinite hreadable hdepth]
  rfl

end Failure

theorem Double.ReadsBack.readable_toJson {x : Double} (h : x.ReadsBack) (hx : x.isFinite = true) :
    x.toJson.Readable := by
  rw [Double.toJson, if_pos hx]
  exact .number (h.readable hx)

/-- Reading what was written gives it back: nodes of every kind, and failures. This holds where the
numbers are finite and their texts read back, and where no more containers are open at a time than a
document may open. -/
theorem parse_written :
    (∀ n : Node, (∀ x ∈ n.numbers, x.isFinite = true ∧ x.ReadsBack) →
      n.toJson.depth ≤ Json.maxDepth → Node.parse n.serialize = .ok n) ∧
    (∀ f : Failure, (∀ x ∈ f.node.numbers, x.isFinite = true ∧ x.ReadsBack) →
      f.toJson.depth ≤ Json.maxDepth → Failure.parse f.serialize = .ok f) := by
  constructor
  · intro n hnumbers hdepth
    have hreadable := Node.readable fun x hx =>
      (hnumbers x hx).2.readable_toJson (hnumbers x hx).1
    exact Node.parse_serialize (fun x hx => (hnumbers x hx).1) hreadable hdepth
  · intro f hnumbers hdepth
    have hreadable := Node.readable fun x hx =>
      (hnumbers x hx).2.readable_toJson (hnumbers x hx).1
    exact Failure.parse_serialize (fun x hx => (hnumbers x hx).1) hreadable hdepth

/-- A task of a bound value that is called as the loan file is, checked on each element, beside a
branch without an alternative; the numbers are negative zero and a tenth. -/
def sampleRule : Rule :=
  .allOf [.task (.result "Loan") ⟨"$.a\n\"b\"", rfl⟩ true
      (some (.comparison ⟨"x", .equal, .literal (.number (Decimal.toDouble true ⟨0, 0⟩))⟩)),
    .branch ⟨"y", .atLeast,
        .affine ⟨[⟨.number (Decimal.toDouble false ⟨1, -1⟩), "z"⟩], [.result "k"]⟩⟩
      (.oneOf []) none]

def sampleFailure : Failure :=
  ⟨.emptyCombinator, ⟨"root.preds[1].then"⟩, .rule sampleRule, "\x01"⟩

theorem parse_written_sample :
    (∀ x ∈ (Node.rule sampleRule).numbers, x.isFinite = true ∧ x.ReadsBack) ∧
    sampleFailure.toJson.depth ≤ Json.maxDepth ∧
    Node.parse (Node.rule sampleRule).serialize = .ok (.rule sampleRule) ∧
    Failure.parse sampleFailure.serialize = .ok sampleFailure := by
  have hnumbers : ∀ x ∈ (Node.rule sampleRule).numbers, x.isFinite = true ∧ x.ReadsBack := by
    decide +kernel
  have hrule : (Node.rule sampleRule).toJson.depth ≤ Json.maxDepth := by decide +kernel
  have hfailure : sampleFailure.toJson.depth ≤ Json.maxDepth := by decide +kernel
  exact ⟨hnumbers, hfailure, parse_written.1 _ hnumbers hrule, parse_written.2 _ hnumbers hfailure⟩

end Eligibility
