import Mathlib
import Eligibility.Proofs.NodeDocument
import Eligibility.Proofs.Schema

namespace Eligibility

open Json (valuesOf)

theorem bind_eq_ok {ε α β : Type} {x : Except ε α} {f : α → Except ε β} {b : β} :
    (x >>= f) = .ok b ↔ ∃ a, x = .ok a ∧ f a = .ok b := by
  cases x <;> simp [bind, Except.bind]

theorem map_eq_ok {ε α β : Type} {x : Except ε α} {f : α → β} {b : β} :
    x.map f = .ok b ↔ ∃ a, x = .ok a ∧ f a = b := by
  cases x <;> simp [Except.map]

theorem mapError_eq_ok {ε ε' α : Type} {x : Except ε α} {f : ε → ε'} {a : α} :
    x.mapError f = .ok a ↔ x = .ok a := by
  cases x <;> simp [Except.mapError]

/-- Dropping members of other keys changes nothing for this one. -/
theorem Json.valuesOf_filter {key : String} {q : String × Json → Bool} (h : ∀ j, q (key, j) = true)
    (ms : List (String × Json)) : valuesOf key (ms.filter q) = valuesOf key ms := by
  rw [valuesOf, valuesOf, List.filter_filter]
  congr 2
  funext m
  obtain ⟨k, j⟩ := m
  by_cases hk : k = key
  · subst hk
    simp [h j]
  · simp [hk]

def Once {α : Type} (key : String) (R : Json → α → Prop) (ms : List (String × Json)) (a : α) :
    Prop :=
  ∃ j, valuesOf key ms = [j] ∧ R j a

/-- What is held for a key before and after the members are taken. A key for which something is held
already does not occur among them. -/
def Takes {α : Type} (key : String) (R : Json → α → Prop) (ms : List (String × Json))
    (before after : Option α) : Prop :=
  valuesOf key ms = [] ∧ after = before ∨ before = none ∧ ∃ a, Once key R ms a ∧ after = some a

section Takes

variable {α : Type} {key : String} {R : Json → α → Prop} {ms : List (String × Json)} {j : Json}
  {before after : Option α}

theorem takes_nil : Takes key R [] before after ↔ after = before := by
  simp [Takes, Once, valuesOf]

theorem takes_cons_of_ne {other : String} (h : other ≠ key) :
    Takes key R ((other, j) :: ms) before after ↔ Takes key R ms before after := by
  simp only [Takes, Once, Json.valuesOf_cons, if_neg h]

/-- A key is taken only if nothing is held for it yet. -/
theorem takes_cons :
    Takes key R ((key, j) :: ms) before after ↔
      before = none ∧ ∃ a, R j a ∧ Takes key R ms (some a) after := by
  simp only [Takes, Once, Json.valuesOf_cons, if_true, List.cons.injEq]
  constructor
  · rintro (⟨hnil, -⟩ | ⟨hbefore, a, ⟨j', ⟨rfl, hrest⟩, hj⟩, rfl⟩)
    · cases hnil
    · exact ⟨hbefore, a, hj, .inl ⟨hrest, rfl⟩⟩
  · rintro ⟨hbefore, a, hj, ⟨hrest, rfl⟩ | ⟨hnone, -⟩⟩
    · exact .inr ⟨hbefore, a, ⟨j, ⟨rfl, hrest⟩, hj⟩, rfl⟩
    · cases hnone

/-- What must be held in the end and was not held before stands among the members. -/
theorem takes_some {a : α} : Takes key R ms none (some a) ↔ Once key R ms a := by
  simp [Takes]

end Takes

/-- What is looked for by name is found, if nothing else has its name. -/
theorem find?_eq_some_of_inj {α : Type} {name : α → String} {as : List α} {a : α} (ha : a ∈ as)
    (hinj : ∀ b ∈ as, name b = name a → b = a) : as.find? (fun b => name b == name a) = some a := by
  cases hfind : as.find? fun b => name b == name a with
  | none => exact absurd (List.find?_eq_none.mp hfind a ha) (by simp)
  | some b =>
    have hname : name b = name a := by simpa using List.find?_some hfind
    rw [hinj b (List.mem_of_find?_eq_some hfind) hname]

abbrev Field.Value : Field → Type
  | .name => String
  | .coefficient => Scalar
  | .coefficientOf => String
  | .terms => List Term
  | .constants => List Scalar
  | .root => TaskRoot
  | .path => TaskPath
  | .each => Bool
  | .inner => Option Rule
  | .lhs => String
  | .operator => Operator
  | .rhs => Operand
  | .numerator => String
  | .denominator => Operand
  | .bound => Double
  | .options => List Rule
  | .preds => List Rule
  | .cond => Comparison
  | .yes => Rule
  | .no => Option Rule

namespace Filled

def get (s : Filled) : (f : Field) → Option f.Value
  | .name => s.name
  | .coefficient => s.coefficient
  | .coefficientOf => s.coefficientOf
  | .terms => s.terms
  | .constants => s.constants
  | .root => s.root
  | .path => s.path
  | .each => s.each
  | .inner => s.inner
  | .lhs => s.lhs
  | .operator => s.operator
  | .rhs => s.rhs
  | .numerator => s.numerator
  | .denominator => s.denominator
  | .bound => s.bound
  | .options => s.options
  | .preds => s.preds
  | .cond => s.cond
  | .yes => s.yes
  | .no => s.no

def put (s : Filled) : (f : Field) → f.Value → Filled
  | .name, a => { s with name := some a }
  | .coefficient, a => { s with coefficient := some a }
  | .coefficientOf, a => { s with coefficientOf := some a }
  | .terms, a => { s with terms := some a }
  | .constants, a => { s with constants := some a }
  | .root, a => { s with root := some a }
  | .path, a => { s with path := some a }
  | .each, a => { s with each := some a }
  | .inner, a => { s with inner := some a }
  | .lhs, a => { s with lhs := some a }
  | .operator, a => { s with operator := some a }
  | .rhs, a => { s with rhs := some a }
  | .numerator, a => { s with numerator := some a }
  | .denominator, a => { s with denominator := some a }
  | .bound, a => { s with bound := some a }
  | .options, a => { s with options := some a }
  | .preds, a => { s with preds := some a }
  | .cond, a => { s with cond := some a }
  | .yes, a => { s with yes := some a }
  | .no, a => { s with no := some a }

theorem get_empty (f : Field) : ({} : Filled).get f = none := by
  cases f <;> rfl

theorem get_put (s : Filled) (f : Field) (a : f.Value) : (s.put f a).get f = some a := by
  cases f <;> rfl

theorem get_put_of_ne (s : Filled) {f g : Field} (h : g ≠ f) (a : f.Value) :
    (s.put f a).get g = s.get g := by
  cases f <;> cases g <;> first | rfl | exact absurd rfl h

theorem has_eq (s : Filled) (f : Field) : s.has f = (s.get f).isSome := by
  cases f <;> rfl

end Filled

def Field.read (f : Field) (j : Json) : Except ReadFault f.Value :=
  match f with
  | .name => j.asText.mapError .json
  | .coefficient => Node.read .scalar j >>= Node.narrow Node.asScalar
  | .coefficientOf => Node.read .node j >>= Node.narrow Node.asVar
  | .terms => Node.readAll .node j >>= List.mapM (Node.narrow Node.asTerm)
  | .constants => Node.readAll .scalar j >>= List.mapM (Node.narrow Node.asScalar)
  | .root => TaskRoot.ofJson j
  | .path => TaskPath.ofJson j
  | .each => j.asBool.mapError .json
  | .inner => Node.fill.optionalRule j (Node.read .rule j)
  | .lhs => Node.read .node j >>= Node.narrow Node.asVar
  | .operator => Operator.ofJson j
  | .rhs => Node.read .operand j >>= Node.narrow Node.asOperand
  | .numerator => Node.read .node j >>= Node.narrow Node.asVar
  | .denominator => Node.read .operand j >>= Node.narrow Node.asOperand
  | .bound => Node.read .node j >>= Node.narrow Node.asNumber
  | .options => Node.readAll .rule j >>= List.mapM (Node.narrow Node.asRule)
  | .preds => Node.readAll .rule j >>= List.mapM (Node.narrow Node.asRule)
  | .cond => Node.read .node j >>= Node.narrow Node.asComparison
  | .yes => Node.read .rule j >>= Node.narrow Node.asRule
  | .no => Node.fill.optionalRule j (Node.read .rule j)

def Field.Reads (f : Field) (j : Json) (a : f.Value) : Prop := f.read j = .ok a

namespace Node

/-- What a document gives for a field does not depend on the fields found before. -/
theorem fill_eq (f : Field) (s : Filled) (j : Json) :
    fill f s j (fun p => read p j) (fun p => readAll p j) =
      f.read j >>= fun a => .ok (s.put f a) := by
  cases f <;> rfl

end Node

/-- The fields of a kind have distinct keys. -/
theorem Kind.key_inj {k : Kind} {f g : Field} (hf : f ∈ k.fields) (hg : g ∈ k.fields)
    (h : f.key = g.key) : f = g := by
  have hnodup : (k.fields.map Field.key).Nodup := by cases k <;> decide
  exact List.inj_on_of_nodup_map hnodup hf hg h

/-- A node depends on the fields of its kind only. -/
theorem Filled.build_congr {k : Kind} {s t : Filled} (h : ∀ f ∈ k.fields, s.get f = t.get f) :
    s.build k = t.build k := by
  cases k <;> simp_all [Kind.fields, Filled.get, Filled.build]

namespace Node

/-- A member that gives a field is taken if the field is still open. -/
theorem readMembers_cons {k : Kind} {f : Field} (hf : f ∈ k.fields) {s : Filled} {j : Json}
    {ms : List (String × Json)} {n : Node} :
    readMembers k s ((f.key, j) :: ms) = .ok n ↔
      s.get f = none ∧ ∃ a, f.Reads j a ∧ readMembers k (s.put f a) ms = .ok n := by
  have hfield : k.field? f.key = some f := find?_eq_some_of_inj hf fun g hg => k.key_inj hg hf
  rw [readMembers, hfield]
  simp only [Filled.has_eq, fill_eq]
  cases hheld : s.get f with
  | some a => simp
  | none => simp [bind_eq_ok, Field.Reads]

theorem takes_put {k : Kind} {f : Field} (hf : f ∈ k.fields) {s t : Filled} {j : Json}
    {ms : List (String × Json)} :
    (∀ g ∈ k.fields, Takes g.key g.Reads ((f.key, j) :: ms) (s.get g) (t.get g)) ↔
      s.get f = none ∧ ∃ a, f.Reads j a ∧
        ∀ g ∈ k.fields, Takes g.key g.Reads ms ((s.put f a).get g) (t.get g) := by
  have hother : ∀ a, ∀ g ∈ k.fields, g ≠ f →
      (Takes g.key g.Reads ((f.key, j) :: ms) (s.get g) (t.get g) ↔
        Takes g.key g.Reads ms ((s.put f a).get g) (t.get g)) := by
    intro a g hg hgf
    have hkey : f.key ≠ g.key := fun he => hgf (k.key_inj hf hg he).symm
    rw [Filled.get_put_of_ne s hgf, takes_cons_of_ne hkey]
  constructor
  · intro h
    obtain ⟨hopen, a, hread, htakes⟩ := takes_cons.mp (h f hf)
    refine ⟨hopen, a, hread, fun g hg => ?_⟩
    by_cases hgf : g = f
    · subst hgf
      rw [Filled.get_put]
      exact htakes
    · exact (hother a g hg hgf).mp (h g hg)
  · rintro ⟨hopen, a, hread, h⟩ g hg
    by_cases hgf : g = f
    · subst hgf
      have htakes := h g hg
      rw [Filled.get_put] at htakes
      exact takes_cons.mpr ⟨hopen, a, hread, htakes⟩
    · exact (hother a g hg hgf).mpr (h g hg)

/-- Reading members in their order comes to taking each field from them, in no order at all. -/
theorem readMembers_eq_ok {k : Kind} {s : Filled} {ms : List (String × Json)} {n : Node} :
    readMembers k s ms = .ok n ↔
      ∃ t : Filled, (∀ f ∈ k.fields, Takes f.key f.Reads ms (s.get f) (t.get f)) ∧
        t.build k = .ok n := by
  -- What is held so far stays a variable: a member that is taken moves it, and closes its key.
  induction ms generalizing s with
  | nil =>
    rw [readMembers]
    constructor
    · intro h
      exact ⟨s, fun f _ => .inl ⟨rfl, rfl⟩, h⟩
    · rintro ⟨t, htakes, hbuild⟩
      rw [← hbuild]
      refine Filled.build_congr fun f hf => ?_
      rcases htakes f hf with ⟨-, h⟩ | ⟨-, a, ⟨j, hj, -⟩, -⟩
      · exact h.symm
      · cases hj
  | cons m ms ih =>
    obtain ⟨key, j⟩ := m
    cases hfield : k.field? key with
    | none =>
      have hne : ∀ f ∈ k.fields, key ≠ f.key := by
        intro f hf he
        have := List.find?_eq_none.mp hfield f hf
        simp [he] at this
      rw [readMembers, hfield]
      simp only [ih]
      refine exists_congr fun t => and_congr_left' (forall₂_congr fun f hf => ?_)
      exact (takes_cons_of_ne (hne f hf)).symm
    | some f =>
      have hf : f ∈ k.fields := List.mem_of_find?_eq_some hfield
      obtain rfl : f.key = key := by simpa using List.find?_some hfield
      simp only [readMembers_cons hf, takes_put hf, ih]
      constructor
      · rintro ⟨hopen, a, hread, t, htakes, hbuild⟩
        exact ⟨t, ⟨hopen, a, hread, htakes⟩, hbuild⟩
      · rintro ⟨t, ⟨hopen, a, hread, htakes⟩, hbuild⟩
        exact ⟨hopen, a, hread, t, htakes, hbuild⟩

end Node

theorem require_eq_ok {α : Type} {f : Field} {o : Option α} {a : α} :
    require f o = .ok a ↔ o = some a := by
  cases o <;> simp [require]

def Field.default? : (f : Field) → Option f.Value
  | .each => some false
  | .inner => some none
  | .no => some none
  | _ => none

namespace Node

/-- The fields of a node. A literal is not read field by field and has none. -/
def filled : Node → Filled
  | .literal _ => {}
  | .var a => { name := some a }
  | .result a => { name := some a }
  | .term t => { coefficient := some t.coefficient, coefficientOf := some t.name }
  | .affine e => { terms := some e.terms, constants := some e.constants }
  | .rule (.task root path each inner) =>
    { root := some root, path := some path, each := some each, inner := some inner }
  | .rule (.comparison c) =>
    { lhs := some c.lhs, operator := some c.operator, rhs := some c.rhs }
  | .rule (.ratio q) =>
    { numerator := some q.numerator, denominator := some q.denominator,
      operator := some q.operator, bound := some q.bound }
  | .rule (.oneOf options) => { options := some options }
  | .rule (.allOf preds) => { preds := some preds }
  | .rule (.branch cond yes no) => { cond := some cond, yes := some yes, no := some no }

/-- A node is built from these fields exactly when they are its own, up to defaults left out. -/
theorem build_eq_ok {t : Filled} {n : Node} (hn : n.kind ≠ .value) :
    t.build n.kind = .ok n ↔
      ∀ f ∈ n.kind.fields, (t.get f).or f.default? = n.filled.get f := by
  have hjoin : ∀ o : Option (Option Rule), o.join = o.getD none := by
    intro o
    cases o <;> rfl
  cases n with
  | literal v => exact absurd rfl hn
  | rule r =>
    cases r <;>
      simp only [Node.kind, Rule.kind, Filled.build, Kind.fields, bind_eq_ok, require_eq_ok, pure,
        Except.pure, List.forall_mem_cons, Filled.get, filled, Field.default?, Option.or_none,
        List.not_mem_nil, false_implies, implies_true, and_true]
    all_goals grind
  | _ =>
    simp only [Node.kind, Filled.build, Kind.fields, bind_eq_ok, require_eq_ok, pure, Except.pure,
      List.forall_mem_cons, Filled.get, filled, Field.default?, Option.or_none, List.not_mem_nil,
      false_implies, implies_true, and_true]
    grind

end Node

/-- The kind of an object is the one that its only tag means. -/
theorem Place.kindAmong_eq_ok {p : Place} {seen : Option Kind} {ms : List (String × Json)}
    {k : Kind} :
    p.kindAmong seen ms = .ok k ↔
      Takes "typename" (fun j k => p.kindOf j = .ok k) ms seen (some k) := by
  induction ms generalizing seen with
  | nil =>
    rw [takes_nil]
    cases seen <;> simp [kindAmong, eq_comm]
  | cons m ms ih =>
    obtain ⟨key, j⟩ := m
    by_cases hkey : key = "typename"
    · subst hkey
      rw [takes_cons]
      cases seen with
      | some l => simp [kindAmong]
      | none => simp [kindAmong, bind_eq_ok, ih]
    · rw [takes_cons_of_ne hkey, ← ih]
      cases seen <;> simp [kindAmong, hkey]

namespace TaskRoot

theorem ofMembers_eq_ok {kind : Option (Option String)} {name : Option String}
    {ms : List (String × Json)} {root : TaskRoot} :
    ofMembers kind name ms = .ok root ↔
      ∃ kind' name', Takes "typename" (fun j k => optionalText j = .ok k) ms kind kind' ∧
        Takes "name" (fun j s => j.asText = .ok s) ms name (some name') ∧
        ofParts kind'.join name' = .ok root := by
  induction ms generalizing kind name with
  | nil =>
    simp only [takes_nil]
    cases name with
    | none => simp [ofMembers]
    | some name => simp [ofMembers]
  | cons m ms ih =>
    obtain ⟨key, j⟩ := m
    by_cases htag : key = "typename"
    · subst htag
      rw [ofMembers]
      simp only [takes_cons, takes_cons_of_ne (show "typename" ≠ "name" by decide)]
      cases kind with
      | some kind => simp
      | none =>
        simp only [Option.isSome_none, Bool.false_eq_true, if_false, bind_eq_ok, ih, true_and]
        grind
    · by_cases hname : key = "name"
      · subst hname
        rw [ofMembers]
        simp only [takes_cons, takes_cons_of_ne (show "name" ≠ "typename" by decide)]
        cases name with
        | some name => simp
        | none =>
          simp only [Option.isSome_none, Bool.false_eq_true, if_false, bind_eq_ok, mapError_eq_ok,
            ih, true_and]
          grind
      · rw [ofMembers]
        · simp only [ih, takes_cons_of_ne htag, takes_cons_of_ne hname]
        · simpa using htag
        · simpa using hname

end TaskRoot

namespace Literal

theorem finish_eq_ok {v w : Literal} {ms : List (String × Json)} :
    finish v ms = .ok w ↔ ms = [] ∧ v = w := by
  cases ms <;> simp [finish]

theorem eq_nil_iff_values {ms : List (String × Json)} (h : ∀ m ∈ ms, m.1 = "type" ∨ m.1 = "value") :
    ms = [] ↔ valuesOf "type" ms = [] ∧ valuesOf "value" ms = [] := by
  cases ms with
  | nil => simp [valuesOf]
  | cons m ms =>
    obtain ⟨key, j⟩ := m
    rcases h (key, j) (by simp) with rfl | rfl <;> simp [Json.valuesOf_cons]

/-- A literal is read from its type and its contents, whichever comes first. -/
theorem ofPair_eq_ok {ms : List (String × Json)} (h : ∀ m ∈ ms, m.1 = "type" ∨ m.1 = "value")
    {v : Literal} :
    ofPair ms = .ok v ↔
      ∃ tag, Once "type" (fun t tag => t.choice true tags = .ok tag) ms tag ∧
        Once "value" (fun j v => ofContents j tag = .ok v) ms v := by
  rcases ms with _ | ⟨⟨key, j⟩, _ | ⟨⟨key', j'⟩, rest⟩⟩
  · simp [ofPair, Once]
  · rcases h (key, j) (by simp) with rfl | rfl <;>
      simp [ofPair, Once, Json.valuesOf_cons, bind_eq_ok]
  · have hrest : rest = [] ↔ _ := eq_nil_iff_values fun m hm => h m (by simp [hm])
    rcases h (key, j) (by simp) with rfl | rfl <;> rcases h (key', j') (by simp) with rfl | rfl <;>
      simp [ofPair, Once, Json.valuesOf_cons, bind_eq_ok, finish_eq_ok, hrest]
    all_goals grind

/-- A literal is read exactly if it has one type and one value of that type, in either order. -/
theorem ofMembers_eq_ok {ms : List (String × Json)} {v : Literal} :
    ofMembers ms = .ok v ↔
      ∃ tag, Once "type" (fun t tag => t.choice true tags = .ok tag) ms tag ∧
        Once "value" (fun j v => ofContents j tag = .ok v) ms v := by
  rw [ofMembers, ofPair_eq_ok (by simp)]
  simp [Once, Json.valuesOf_filter]

end Literal

end Eligibility
