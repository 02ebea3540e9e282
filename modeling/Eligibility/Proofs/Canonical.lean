import Mathlib
import Eligibility.Proofs.RoundTrip
import Eligibility.Proofs.SettledDocument
import Eligibility.Proofs.TopLevel
import Eligibility.Rule.Source

namespace Eligibility

open Json (valuesOf)

namespace Json

def parts : Json → List Json
  | .array items => items
  | .object members => members.map Prod.snd
  | _ => []

/-- The document opens as many containers at a time as a written one, and has these numbers. -/
structure Covers (j written : Json) (xs : List Double) : Prop where
  depth : written.depth ≤ j.depth
  numbers : ∀ x ∈ xs, x ∈ j.numbers

/-- Whatever node the document is read as, it covers the document of the node. -/
def CoversNodes (j : Json) : Prop :=
  ∀ (p : Place) (n : Node), Node.read p j = .ok n → j.Covers n.toJson n.numbers

theorem depth_lt_of_mem_parts {j i : Json} (h : i ∈ j.parts) : i.depth < j.depth := by
  cases j with
  | array items => exact Nat.lt_succ_of_le (depth_le_depthItems h)
  | object members =>
    obtain ⟨m, hm, rfl⟩ := List.mem_map.mp h
    exact Nat.lt_succ_of_le (depth_le_depthMembers hm)
  | _ => cases h

theorem mem_numbers_of_mem_parts {j i : Json} (h : i ∈ j.parts) {x : Double}
    (hx : x ∈ i.numbers) : x ∈ j.numbers := by
  cases j with
  | array items => exact mem_numbers_array.mpr ⟨i, h, hx⟩
  | object members =>
    obtain ⟨m, hm, rfl⟩ := List.mem_map.mp h
    exact mem_numbers_object.mpr ⟨m, hm, hx⟩
  | _ => cases h

theorem sizeOf_lt_of_mem_parts {j i : Json} (h : i ∈ j.parts) : sizeOf i < sizeOf j := by
  cases j with
  | array items => exact sizeOf_lt_of_mem_items h
  | object members =>
    obtain ⟨m, hm, rfl⟩ := List.mem_map.mp h
    exact sizeOf_lt_of_mem_values (mem_valuesOf.mpr hm)
  | _ => cases h

theorem mem_parts_of_valuesOf {ms : List (String × Json)} {key : String} {j : Json}
    (h : valuesOf key ms = [j]) : j ∈ (Json.object ms).parts := by
  have hmem : j ∈ valuesOf key ms := by simp [h]
  exact List.mem_map_of_mem (mem_valuesOf.mp hmem)

theorem depth_tagged_le {k : Kind} {ms : List (String × Json)} {d : Nat} :
    (tagged k ms).depth ≤ d + 1 ↔ ∀ m ∈ ms, m.2.depth ≤ d := by
  rw [tagged, depth, Nat.succ_le_succ_iff, depthMembers_le_iff, List.forall_mem_cons]
  simp [depth]

/-- A list covers what is written for its elements. -/
theorem covers_array {α : Type} {doc : α → Json} {numbers : α → List Double} {items : List Json}
    {as : List α} (h : List.Forall₂ (fun i a => i.Covers (doc a) (numbers a)) items as) :
    (Json.array items).Covers (.array (as.map doc)) (as.flatMap numbers) := by
  constructor
  · rw [depth, depth, Nat.succ_le_succ_iff, depthItems_le_iff]
    intro j hj
    obtain ⟨a, ha, rfl⟩ := List.mem_map.mp hj
    obtain ⟨i, hi, hcovers⟩ := exists_mem_of_forall₂ h ha
    exact hcovers.depth.trans (depth_le_depthItems hi)
  · intro x hx
    obtain ⟨a, ha, hx⟩ := List.mem_flatMap.mp hx
    obtain ⟨i, hi, hcovers⟩ := exists_mem_of_forall₂ h ha
    exact mem_numbers_array.mpr ⟨i, hi, hcovers.numbers x hx⟩

end Json

namespace Field

def toJson : (f : Field) → f.Value → Json
  | .name, a => .string a
  | .coefficient, a => a.toJson
  | .coefficientOf, a => Json.var a
  | .terms, ts => .array (ts.map Term.toJson)
  | .constants, cs => .array (cs.map Scalar.toJson)
  | .root, a => a.toJson
  | .path, a => .string a.text
  | .each, b => .bool b
  | .inner, o => o.elim .null Rule.toJson
  | .lhs, a => Json.var a
  | .operator, o => .string o.symbol
  | .rhs, a => a.toJson
  | .numerator, a => Json.var a
  | .denominator, a => a.toJson
  | .bound, x => (Literal.number x).toJson
  | .options, rs => .array (rs.map Rule.toJson)
  | .preds, rs => .array (rs.map Rule.toJson)
  | .cond, c => c.toJson
  | .yes, r => r.toJson
  | .no, o => o.elim .null Rule.toJson

def numbers : (f : Field) → f.Value → List Double
  | .coefficient, a => a.numbers
  | .terms, ts => ts.flatMap Term.numbers
  | .constants, cs => cs.flatMap Scalar.numbers
  | .inner, o => Rule.numbersOptional o
  | .rhs, a => a.numbers
  | .denominator, a => a.numbers
  | .bound, x => [x]
  | .options, rs => rs.flatMap Rule.numbers
  | .preds, rs => rs.flatMap Rule.numbers
  | .cond, c => c.numbers
  | .yes, r => r.numbers
  | .no, o => Rule.numbersOptional o
  | _, _ => []

end Field

namespace Node

theorem depth_optionalMember_le (key : String) {o : Option Rule} {d : Nat}
    (h : (o.elim Json.null Rule.toJson).depth ≤ d) :
    ∀ m ∈ Rule.optionalMember key o, m.2.depth ≤ d := by
  cases o with
  | none => simp [Rule.optionalMember]
  | some r => simpa [Rule.optionalMember] using h

theorem mem_fields_of_get {n : Node} {f : Field} {a : f.Value} (h : n.filled.get f = some a) :
    f ∈ n.kind.fields := by
  rcases n with _ | _ | _ | _ | _ | (_ | _ | _ | _ | _ | _) <;> cases f <;> cases h <;>
    simp [Node.kind, Rule.kind, Kind.fields]

/-- The document of a node opens one container more than its fields do. -/
theorem depth_toJson_le {n : Node} (hn : n.kind ≠ .value) {d : Nat}
    (h : ∀ f a, n.filled.get f = some a → (f.toJson a).depth ≤ d) :
    n.toJson.depth ≤ d + 1 := by
  cases n with
  | literal v => exact absurd rfl hn
  | var name => exact Json.depth_tagged_le.mpr (by simp [Json.depth])
  | result name => exact Json.depth_tagged_le.mpr (by simp [Json.depth])
  | term t =>
    have hcoefficient := h .coefficient _ rfl
    have hname := h .coefficientOf _ rfl
    exact Json.depth_tagged_le.mpr (by simpa using ⟨hcoefficient, hname⟩)
  | affine e =>
    have hterms := h .terms _ rfl
    have hconstants := h .constants _ rfl
    exact Json.depth_tagged_le.mpr (by simpa using ⟨hterms, hconstants⟩)
  | rule r =>
    cases r with
    | task root path each inner =>
      have hroot : root.toJson.depth ≤ d := h .root _ rfl
      have hinner := depth_optionalMember_le "inner" (h .inner _ rfl)
      apply Json.depth_tagged_le.mpr
      rw [List.forall_mem_append]
      refine ⟨?_, hinner⟩
      cases each <;> simp [hroot, Json.depth]
    | comparison c =>
      have hlhs := h .lhs _ rfl
      have hrhs := h .rhs _ rfl
      exact Json.depth_tagged_le.mpr (by simpa [Json.depth] using ⟨hlhs, hrhs⟩)
    | ratio q =>
      have hnumerator := h .numerator _ rfl
      have hdenominator := h .denominator _ rfl
      have hbound := h .bound _ rfl
      exact Json.depth_tagged_le.mpr
        (by simpa [Json.depth] using ⟨hnumerator, hdenominator, hbound⟩)
    | oneOf options =>
      have hoptions : (Json.array (options.map Rule.toJson)).depth ≤ d := h .options _ rfl
      exact Json.depth_tagged_le.mpr (by simpa [Rule.toJsons_eq] using hoptions)
    | allOf preds =>
      have hpreds : (Json.array (preds.map Rule.toJson)).depth ≤ d := h .preds _ rfl
      exact Json.depth_tagged_le.mpr (by simpa [Rule.toJsons_eq] using hpreds)
    | branch cond yes no =>
      have hcond : cond.toJson.depth ≤ d := h .cond _ rfl
      have hyes : yes.toJson.depth ≤ d := h .yes _ rfl
      have hno := depth_optionalMember_le "else" (h .no _ rfl)
      apply Json.depth_tagged_le.mpr
      rw [List.forall_mem_append]
      exact ⟨by simp [hcond, hyes], hno⟩

/-- The numbers of a node stand in its fields. -/
theorem exists_field_of_mem_numbers {n : Node} (hn : n.kind ≠ .value) {x : Double}
    (hx : x ∈ n.numbers) : ∃ f a, n.filled.get f = some a ∧ x ∈ f.numbers a := by
  cases n with
  | literal v => exact absurd rfl hn
  | var name => cases hx
  | result name => cases hx
  | term t => exact ⟨.coefficient, _, rfl, hx⟩
  | affine e =>
    rcases List.mem_append.mp hx with hx | hx
    · exact ⟨.terms, _, rfl, hx⟩
    · exact ⟨.constants, _, rfl, hx⟩
  | rule r =>
    cases r with
    | task root path each inner => exact ⟨.inner, _, rfl, hx⟩
    | comparison c => exact ⟨.rhs, _, rfl, hx⟩
    | ratio q =>
      rcases List.mem_append.mp hx with hx | hx
      · exact ⟨.denominator, _, rfl, hx⟩
      · exact ⟨.bound, _, rfl, hx⟩
    | oneOf options =>
      rw [Node.numbers, Rule.numbers, Rule.numbersAll_eq] at hx
      exact ⟨.options, _, rfl, hx⟩
    | allOf preds =>
      rw [Node.numbers, Rule.numbers, Rule.numbersAll_eq] at hx
      exact ⟨.preds, _, rfl, hx⟩
    | branch cond yes no =>
      rcases List.mem_append.mp hx with hx | hx
      · rcases List.mem_append.mp hx with hx | hx
        · exact ⟨.cond, _, rfl, hx⟩
        · exact ⟨.yes, _, rfl, hx⟩
      · exact ⟨.no, _, rfl, hx⟩

/-- What fills a field was read from one of the members. -/
theorem exists_filled_of_readMembers {k : Kind} {ms : List (String × Json)} {n : Node}
    (h : readMembers k {} ms = .ok n) :
    ∃ t : Filled, t.build k = .ok n ∧
      ∀ f ∈ k.fields, ∀ a, t.get f = some a → ∃ i ∈ (Json.object ms).parts, f.Reads i a := by
  obtain ⟨t, htakes, hbuild⟩ := readMembers_eq_ok.mp h
  refine ⟨t, hbuild, fun f hf a ha => ?_⟩
  have hfield := htakes f hf
  rw [Filled.get_empty, ha, takes_some] at hfield
  obtain ⟨i, hi, hread⟩ := hfield
  exact ⟨i, Json.mem_parts_of_valuesOf hi, hread⟩

end Node

/-- A literal has the number that its contents are. -/
theorem Literal.numbers_of_ofContents {j : Json} {tag : Literal.Tag} {v : Literal}
    (h : Literal.ofContents j tag = .ok v) {x : Double} (hx : x ∈ v.numbers) : x ∈ j.numbers := by
  cases tag with
  | number =>
    obtain ⟨y, hy, rfl⟩ := map_eq_ok.mp h
    obtain ⟨m, rfl, rfl⟩ := Json.asDouble_eq_ok.mp hy
    simpa [Literal.numbers, Json.numbers] using hx
  | text =>
    obtain ⟨s, -, rfl⟩ := map_eq_ok.mp h
    cases hx
  | truth =>
    obtain ⟨b, -, rfl⟩ := map_eq_ok.mp h
    cases hx

theorem Literal.depth_toJson (v : Literal) : v.toJson.depth ≤ 1 := by
  cases v with
  | number x =>
    have hx : x.toJson.depth = 0 := by
      unfold Double.toJson
      split <;> rfl
    exact Json.depth_tagged_le.mpr (by simp [hx, Json.depth])
  | text s => exact Json.depth_tagged_le.mpr (by simp [Json.depth])
  | truth b => exact Json.depth_tagged_le.mpr (by simp [Json.depth])

theorem Literal.exists_contents_of_ofItems {items : List Json} {v : Literal}
    (h : Literal.ofItems items = .ok v) :
    ∃ tag, ∃ i ∈ items, Literal.ofContents i tag = .ok v := by
  rcases items with _ | ⟨t, _ | ⟨i, rest⟩⟩
  · cases h
  · obtain ⟨-, -, h⟩ := bind_eq_ok.mp h
    cases h
  · obtain ⟨tag, -, h⟩ := bind_eq_ok.mp h
    obtain ⟨w, hw, h⟩ := bind_eq_ok.mp h
    split at h
    · cases h
      exact ⟨tag, i, by simp, hw⟩
    · cases h

namespace Node

/-- What a document is read as: a literal with contents, or fields that are read each from one
part. -/
theorem read_cases {p : Place} {j : Json} {n : Node} (h : Node.read p j = .ok n) :
    (∃ v tag, n = .literal v ∧ ∃ i ∈ j.parts, Literal.ofContents i tag = .ok v) ∨
      n.kind ≠ .value ∧ ∃ t : Filled, t.build n.kind = .ok n ∧
        ∀ f ∈ n.kind.fields, ∀ a, t.get f = some a → ∃ i ∈ j.parts, f.Reads i a := by
  have hfilled : ∀ k : Kind, k ≠ .value →
      (∃ t : Filled, t.build k = .ok n ∧
        ∀ f ∈ k.fields, ∀ a, t.get f = some a → ∃ i ∈ j.parts, f.Reads i a) →
      n.kind ≠ .value ∧ ∃ t : Filled, t.build n.kind = .ok n ∧
        ∀ f ∈ n.kind.fields, ∀ a, t.get f = some a → ∃ i ∈ j.parts, f.Reads i a := by
    rintro k hk ⟨t, hbuild, hfrom⟩
    obtain rfl := Filled.kind_of_build hbuild
    exact ⟨hk, t, hbuild, hfrom⟩
  cases j with
  | object ms =>
    rw [Node.read] at h
    obtain ⟨k, -, h⟩ := bind_eq_ok.mp h
    split at h
    · obtain ⟨v, hv, hn⟩ := bind_eq_ok.mp h
      rw [mapError_eq_ok, Literal.ofMembers_eq_ok] at hv
      obtain ⟨tag, -, i, hi, hv⟩ := hv
      exact .inl ⟨v, tag, Place.admit_eq hn, i, Json.mem_parts_of_valuesOf hi, hv⟩
    · exact .inr (hfilled k ‹_› (exists_filled_of_readMembers h))
  | array items =>
    rw [Node.read] at h
    cases items with
    | nil => cases h
    | cons tag items =>
      obtain ⟨k, -, h⟩ := bind_eq_ok.mp h
      split at h
      · obtain ⟨v, hv, hn⟩ := bind_eq_ok.mp h
        obtain ⟨tag, i, hi, hv⟩ := Literal.exists_contents_of_ofItems (mapError_eq_ok.mp hv)
        exact .inl ⟨v, tag, Place.admit_eq hn, i, List.mem_cons_of_mem _ hi, hv⟩
      · obtain ⟨t, hbuild, hfrom⟩ := exists_filled_of_readItems h
        refine .inr (hfilled k ‹_› ⟨t, hbuild, fun f _ a ha => ?_⟩)
        rcases hfrom f a ha with hempty | ⟨i, hi, hread⟩
        · rw [Filled.get_empty] at hempty
          cases hempty
        · exact ⟨i, List.mem_cons_of_mem _ hi, hread⟩
  | _ => cases h

end Node

theorem Scalar.toJson_toNode (s : Scalar) : s.toNode.toJson = s.toJson := by
  cases s <;> rfl

theorem Scalar.numbers_toNode (s : Scalar) : s.toNode.numbers = s.numbers := by
  cases s <;> rfl

theorem Operand.toJson_toNode (o : Operand) : o.toNode.toJson = o.toJson := by
  cases o <;> rfl

theorem Operand.numbers_toNode (o : Operand) : o.toNode.numbers = o.numbers := by
  cases o <;> rfl

section Slots

variable {α : Type} {p : Place} {kinds : List Kind} {narrow : Node → Except Mismatch α}
  {node : α → Node} {j : Json}

/-- What is narrowed from a node that the document covers is covered by it. -/
theorem Fits.covers (h : Fits p kinds narrow node) (hj : j.CoversNodes) {a : α}
    (hread : (Node.read p j >>= Node.narrow narrow) = .ok a) :
    j.Covers (node a).toJson (node a).numbers := by
  obtain ⟨n, hn, hnarrow⟩ := bind_eq_ok.mp hread
  rw [Node.narrow, mapError_eq_ok, h.narrows] at hnarrow
  subst hnarrow
  exact hj p _ hn

theorem Fits.covers_all (h : Fits p kinds narrow node) (hparts : ∀ i ∈ j.parts, i.CoversNodes)
    {as : List α} (hread : (Node.readAll p j >>= List.mapM (Node.narrow narrow)) = .ok as) :
    j.Covers (.array (as.map fun a => (node a).toJson)) (as.flatMap fun a => (node a).numbers) := by
  cases j with
  | array items =>
    rw [Node.readAll, Node.readEach_narrow] at hread
    apply Json.covers_array
    rw [List.forall₂_iff_zip] at hread ⊢
    refine ⟨hread.1, fun {i a} hm => ?_⟩
    exact h.covers (hparts i (List.of_mem_zip hm).1) (hread.2 hm)
  | _ => cases hread

theorem Json.covers_optionalRule (hj : j.CoversNodes) {o : Option Rule}
    (h : Node.fill.optionalRule j (Node.read .rule j) = .ok o) :
    j.Covers (o.elim .null Rule.toJson) (Rule.numbersOptional o) := by
  unfold Node.fill.optionalRule at h
  split at h
  · cases h
    exact ⟨Nat.le_refl 0, by simp [Rule.numbersOptional]⟩
  · obtain ⟨r, hr, rfl⟩ := map_eq_ok.mp h
    exact Fits.rule.covers hj hr

end Slots

/-- A root is written no deeper than it was read. -/
theorem TaskRoot.depth_le_of_ofJson {j : Json} {root : TaskRoot}
    (h : TaskRoot.ofJson j = .ok root) : root.toJson.depth ≤ j.depth := by
  have hroot : root.toJson.depth ≤ 1 := by cases root <;> exact Nat.le_refl 1
  cases j with
  | object ms => exact hroot.trans (Nat.le_add_left 1 _)
  | array items => exact hroot.trans (Nat.le_add_left 1 _)
  | _ => cases h

/-- A field is covered by what it is read from, if the nodes under it are. -/
theorem Field.Reads.covers {f : Field} {j : Json} {a : f.Value} (h : f.Reads j a)
    (hj : j.CoversNodes) (hparts : ∀ i ∈ j.parts, i.CoversNodes) :
    j.Covers (f.toJson a) (f.numbers a) := by
  cases f with
  | name => exact ⟨Nat.zero_le _, by simp [Field.numbers]⟩
  | path => exact ⟨Nat.zero_le _, by simp [Field.numbers]⟩
  | each => exact ⟨Nat.zero_le _, by simp [Field.numbers]⟩
  | operator => exact ⟨Nat.zero_le _, by simp [Field.numbers]⟩
  | root => exact ⟨TaskRoot.depth_le_of_ofJson h, by simp [Field.numbers]⟩
  | coefficient =>
    have hcovers := Fits.scalar.covers hj h
    rwa [Scalar.toJson_toNode, Scalar.numbers_toNode] at hcovers
  | rhs =>
    have hcovers := Fits.operand.covers hj h
    rwa [Operand.toJson_toNode, Operand.numbers_toNode] at hcovers
  | denominator =>
    have hcovers := Fits.operand.covers hj h
    rwa [Operand.toJson_toNode, Operand.numbers_toNode] at hcovers
  | constants =>
    have hcovers := Fits.scalar.covers_all hparts h
    simp only [Scalar.toJson_toNode, Scalar.numbers_toNode] at hcovers
    exact hcovers
  | coefficientOf => exact Fits.var.covers hj h
  | lhs => exact Fits.var.covers hj h
  | numerator => exact Fits.var.covers hj h
  | bound => exact Fits.number.covers hj h
  | cond => exact Fits.comparison.covers hj h
  | yes => exact Fits.rule.covers hj h
  | inner => exact Json.covers_optionalRule hj h
  | no => exact Json.covers_optionalRule hj h
  | terms => exact Fits.term.covers_all hparts h
  | options => exact Fits.rule.covers_all hparts h
  | preds => exact Fits.rule.covers_all hparts h

/-- A field that is left out opens nothing and has no numbers. -/
theorem Field.covers_default {f : Field} {a : f.Value} (h : f.default? = some a) (j : Json) :
    j.Covers (f.toJson a) (f.numbers a) := by
  cases f with
  | each => exact ⟨Nat.zero_le _, by simp [Field.numbers]⟩
  | inner =>
    cases h
    exact ⟨Nat.zero_le _, by simp [Field.numbers, Rule.numbersOptional]⟩
  | no =>
    cases h
    exact ⟨Nat.zero_le _, by simp [Field.numbers, Rule.numbersOptional]⟩
  | _ => cases h

namespace Json

theorem within_of_parse? {text : String} {room : Nat} {j : Json}
    (h : Json.parse? text room = some j) :
    j.depth ≤ room ∧ ∀ x ∈ j.numbers, x.isFinite = true := by
  unfold Json.parse? at h
  exact Draft.settle?_within (Option.ite_none_right_eq_some.mp h).2

theorem exists_depth_of_read {p : Place} {j : Json} {n : Node} (h : Node.read p j = .ok n) :
    ∃ d, j.depth = d + 1 := by
  cases j with
  | object ms => exact ⟨_, rfl⟩
  | array items => exact ⟨_, rfl⟩
  | _ => cases h

/-- A document covers every node that it is read as. -/
theorem coversNodes (j : Json) : j.CoversNodes := by
  -- A field may hold nodes in a list, two steps down, so the induction is on size.
  induction hsize : sizeOf j using Nat.strong_induction_on generalizing j with
  | h size ih =>
    subst hsize
    intro p n h
    rcases Node.read_cases h with ⟨v, tag, rfl, i, hi, hv⟩ | ⟨hn, t, hbuild, hfrom⟩
    · have hdepth := depth_lt_of_mem_parts hi
      constructor
      · exact v.depth_toJson.trans (by omega)
      · intro x hx
        exact mem_numbers_of_mem_parts hi (Literal.numbers_of_ofContents hv hx)
    · have hfield : ∀ f a, n.filled.get f = some a →
          (∃ i ∈ j.parts, i.Covers (f.toJson a) (f.numbers a)) ∨ f.default? = some a := by
        intro f a ha
        have hf := Node.mem_fields_of_get ha
        have hget := (Node.build_eq_ok hn).mp hbuild f hf
        rw [ha, Option.or_eq_some_iff] at hget
        rcases hget with hget | ⟨-, hdefault⟩
        · obtain ⟨i, hi, hread⟩ := hfrom f hf a hget
          have hsize := sizeOf_lt_of_mem_parts hi
          refine .inl ⟨i, hi, hread.covers (ih _ hsize i rfl) fun k hk => ?_⟩
          exact ih _ ((sizeOf_lt_of_mem_parts hk).trans hsize) k rfl
        · exact .inr hdefault
      constructor
      · obtain ⟨d, hd⟩ := exists_depth_of_read h
        rw [hd]
        apply Node.depth_toJson_le hn
        intro f a ha
        rcases hfield f a ha with ⟨i, hi, hcovers⟩ | hdefault
        · have hdepth := depth_lt_of_mem_parts hi
          exact hcovers.depth.trans (by omega)
        · exact (Field.covers_default hdefault .null).depth.trans (Nat.zero_le d)
      · intro x hx
        obtain ⟨f, a, ha, hx⟩ := Node.exists_field_of_mem_numbers hn hx
        rcases hfield f a ha with ⟨i, hi, hcovers⟩ | hdefault
        · exact mem_numbers_of_mem_parts hi (hcovers.numbers x hx)
        · exact absurd ((Field.covers_default hdefault .null).numbers x hx) List.not_mem_nil

end Json

namespace Node

/-- Writing a node that was read from a text gives its canonical form. The numbers are finite, the
paths of tasks start at the root, and the document opens no more containers than that of the text.
Where the texts of the numbers read back, the form is read as the node again: it is its own
canonical form, and it has the same program as the text. -/
theorem parse_serialize_of_parse {text : String} {n : Node} (h : Node.parse text = .ok n) :
    (∀ x ∈ n.numbers, x.isFinite = true) ∧
    (∀ r, n = .rule r → ∀ root path each inner, (Rule.task root path each inner).Inside r →
      path.text.toList.head? = some '$') ∧
    (∃ j, Json.parse? text Json.maxDepth = some j ∧ n.toJson.depth ≤ j.depth) ∧
    ((∀ x ∈ n.numbers, x.ReadsBack) →
      Json.parse? n.serialize Json.maxDepth = some n.toJson ∧
      Node.parse n.serialize = .ok n ∧
      (Node.parse n.serialize).map Node.serialize = .ok n.serialize ∧
      (Node.parse n.serialize).map Node.source = (Node.parse text).map Node.source) := by
  obtain ⟨j, s, hj, -, hread⟩ := Node.parse_eq_ok.mp h
  have hcovers := j.coversNodes .node n hread
  obtain ⟨hdepth, hfinite⟩ := Json.within_of_parse? hj
  have hnumbers : ∀ x ∈ n.numbers, x.isFinite = true := by
    intro x hx
    exact hfinite x (hcovers.numbers x hx)
  refine ⟨hnumbers, ?_, ⟨j, hj, hcovers.depth⟩, ?_⟩
  · intro r _ root path each inner _
    exact path.rooted
  · intro hreads
    have hreadable := Node.readable fun x hx => (hreads x hx).readable_toJson (hnumbers x hx)
    have hroom := hcovers.depth.trans hdepth
    have hparse := Node.parse_serialize hnumbers hreadable hroom
    refine ⟨hreadable.parse?_render hroom, hparse, ?_, ?_⟩
    · rw [hparse]
      rfl
    · rw [hparse, h]

/-- A rule as no writer spells it: arrays for nodes, positions for tags, an object for an operator,
blanks, and a member that no node has. -/
def spelled : String :=
  "[\"AllOf\", [\x7b\"rhs\": [0, \"number\", -0e2], \"note\": [],
    \"operator\": \x7b\"==\": null\x7d, \"lhs\": [1, \"x\"], \"typename\": 1\x7d]]"

theorem parse_serialize_of_parse_spelled :
    ∃ n, Node.parse spelled = .ok n ∧ n.numbers = [Decimal.toDouble true ⟨0, 0⟩] ∧
      (∀ x ∈ n.numbers, x.ReadsBack) ∧ Node.parse n.serialize = .ok n ∧
      (Node.parse n.serialize).map Node.source = .ok "dsl.allOf(vars.x.is_eq(0))" := by
  have hread : ((Node.parse spelled).toOption.map fun n => (n.numbers, n.source)) =
      some ([Decimal.toDouble true ⟨0, 0⟩], "dsl.allOf(vars.x.is_eq(0))") := by
    decide +kernel
  have hnumber : (Decimal.toDouble true ⟨0, 0⟩).ReadsBack := by decide +kernel
  obtain ⟨n, hn, hfound⟩ := exists_ok_of_toOption hread
  obtain ⟨hnumbers, hsource⟩ := Prod.mk.inj hfound
  have hreads : ∀ x ∈ n.numbers, x.ReadsBack := by simpa [hnumbers] using hnumber
  obtain ⟨-, -, -, hcanonical⟩ := parse_serialize_of_parse hn
  obtain ⟨-, hparse, -, -⟩ := hcanonical hreads
  refine ⟨n, hn, hnumbers, hreads, hparse, ?_⟩
  rw [hparse, ← hsource]
  rfl

end Node

end Eligibility
