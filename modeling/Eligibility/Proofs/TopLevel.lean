import Mathlib
import Eligibility.Proofs.Conformance

namespace Eligibility

open Json (valuesOf)

theorem exists_ok_of_toOption {ε α β : Type} {x : Except ε α} {f : α → β} {b : β}
    (h : x.toOption.map f = some b) : ∃ a, x = .ok a ∧ f a = b := by
  cases x with
  | error e => cases h
  | ok a => exact ⟨a, rfl, Option.some.inj h⟩

namespace Json

/-- The tag of a node: the first member called `typename`, or the first element. -/
def tag? : Json → Option Json
  | .object ms => ms.lookup "typename"
  | .array items => items.head?
  | _ => none

def TagIsString (j : Json) : Prop := ∀ tag, j.tag? = some tag → tag.isString = true

theorem lookup_eq_head? (key : String) (ms : List (String × Json)) :
    ms.lookup key = (valuesOf key ms).head? := by
  induction ms with
  | nil => rfl
  | cons m ms ih =>
    obtain ⟨k, j⟩ := m
    rw [List.lookup_cons, valuesOf_cons]
    by_cases hk : k = key
    · subst hk
      simp
    · have hne : (key == k) = false := by simpa using Ne.symm hk
      rw [hne, if_neg hk, ih]

namespace Draft

theorem settle_eq_ok {d : Draft} {room : Nat} {j : Json} :
    d.settle room = .ok j ↔ d.settle? room = some j := by
  unfold settle
  cases d.settle? room <;> simp

theorem spelled_eq_ok {letters : List Letter} {s : String} :
    spelled letters = .ok s ↔ Letter.text? letters = some s := by
  unfold spelled
  cases Letter.text? letters <;> simp

theorem refuse_ne_ok {α : Type} (d : Draft) (expected : String) (a : α) :
    d.refuse expected ≠ .ok a := by
  intro h
  obtain ⟨f, -, hf⟩ := bind_eq_ok.mp h
  cases hf

end Draft

end Json

namespace Node

open Json (Draft)

/-- The tag at the top of a text is a string. -/
theorem settle?_of_topKind {d : Draft} {k : Kind} (h : topKind d = .ok k) (room : Nat) :
    ∃ s, d.settle? room = some (.string s) ∧ Place.node.kindNamed s = .ok k := by
  cases d with
  | string letters =>
    obtain ⟨s, hs, hk⟩ := bind_eq_ok.mp h
    rw [mapError_eq_ok, Draft.spelled_eq_ok] at hs
    refine ⟨s, ?_, hk⟩
    rw [Draft.settle?, hs, Option.map_some]
  | _ => simp [topKind, mapError_eq_ok, Draft.refuse_ne_ok] at h

/-- Members that are taken from a draft settle, and the tags among them are strings. -/
theorem settleMembers?_of_topMembers {room : Nat} {closed : Bool} {seen : Option Kind}
    {members : List (List Json.Letter × Draft)} {found : Kind × List (String × Json)}
    (h : topMembers room closed seen members = .ok found) :
    closed = true ∧ ∃ ms, Draft.settleMembers? members room = some ms ∧
      ∀ t ∈ valuesOf "typename" ms, t.isString = true := by
  induction members generalizing seen found with
  | nil =>
    unfold topMembers at h
    cases closed with
    | true => exact ⟨rfl, [], rfl, by simp⟩
    | false => cases h
  | cons m members ih =>
    obtain ⟨letters, d⟩ := m
    unfold topMembers at h
    obtain ⟨key, hkey, h⟩ := bind_eq_ok.mp h
    rw [mapError_eq_ok, Draft.spelled_eq_ok] at hkey
    by_cases htag : key = "typename"
    · subst htag
      rw [if_pos rfl] at h
      cases seen with
      | some l => cases h
      | none =>
        obtain ⟨k, hk, h⟩ := bind_eq_ok.mp h
        obtain ⟨s, hs, -⟩ := settle?_of_topKind hk room
        obtain ⟨hclosed, ms, hms, htags⟩ := ih h
        refine ⟨hclosed, ("typename", .string s) :: ms, ?_, ?_⟩
        · simp [Draft.settleMembers?, hkey, hs, hms]
        · rw [Json.valuesOf_cons, if_pos rfl]
          exact List.forall_mem_cons.mpr ⟨rfl, htags⟩
    · rw [if_neg htag] at h
      obtain ⟨j, hj, h⟩ := bind_eq_ok.mp h
      rw [mapError_eq_ok, Draft.settle_eq_ok] at hj
      obtain ⟨rest, hrest, -⟩ := bind_eq_ok.mp h
      obtain ⟨hclosed, ms, hms, htags⟩ := ih hrest
      refine ⟨hclosed, (key, j) :: ms, ?_, ?_⟩
      · simp [Draft.settleMembers?, hkey, hj, hms]
      · rw [Json.valuesOf_cons, if_neg htag]
        exact htags

theorem topItems_eq_ok {room : Nat} {closed : Bool} {ds : List Draft} {js : List Json} :
    topItems room closed ds = .ok js ↔
      closed = true ∧ Draft.settleItems? ds room = some js := by
  induction ds generalizing js with
  | nil => cases closed <;> simp [topItems, Draft.settleItems?]
  | cons d ds ih =>
    simp only [topItems, bind_eq_ok, mapError_eq_ok, Draft.settle_eq_ok, ih, pure, Except.pure,
      Except.ok.injEq, Draft.settleItems?, Option.bind_eq_bind, Option.bind_eq_some_iff,
      Option.some.injEq]
    constructor
    · rintro ⟨j, hj, js, ⟨hclosed, hjs⟩, rfl⟩
      exact ⟨hclosed, j, hj, js, hjs, rfl⟩
    · rintro ⟨hclosed, j, hj, js, hjs, rfl⟩
      exact ⟨j, hj, js, ⟨hclosed, hjs⟩, rfl⟩

/-- An object that is read has one tag. -/
theorem tag_of_read {p : Place} {ms : List (String × Json)} {n : Node}
    (h : Node.read p (.object ms) = .ok n) :
    ∃ t, valuesOf "typename" ms = [t] ∧ (Json.object ms).tag? = some t := by
  rw [Node.read] at h
  obtain ⟨k, hk, -⟩ := bind_eq_ok.mp h
  rw [Place.kindAmong_eq_ok, takes_some] at hk
  obtain ⟨t, ht, -⟩ := hk
  refine ⟨t, ht, ?_⟩
  rw [Json.tag?, Json.lookup_eq_head?, ht, List.head?_cons]

/-- The elements of an array fill in the fields, and each field comes from one of them. -/
theorem exists_filled_of_readItems {k : Kind} {taken : Nat} {s : Filled} {fields : List Field}
    {items : List Json} {n : Node} (h : readItems k taken s fields items = .ok n) :
    ∃ t : Filled, t.build k = .ok n ∧
      ∀ f a, t.get f = some a → s.get f = some a ∨ ∃ i ∈ items, f.Reads i a := by
  induction items generalizing taken s fields with
  | nil =>
    unfold readItems at h
    split at h
    · exact ⟨s, h, fun f a ha => .inl ha⟩
    · cases h
  | cons i items ih =>
    unfold readItems at h
    cases fields with
    | nil => cases h
    | cons g fields =>
      simp only [fill_eq] at h
      obtain ⟨s', hs', h⟩ := bind_eq_ok.mp h
      obtain ⟨b, hb, ⟨⟩⟩ := bind_eq_ok.mp hs'
      obtain ⟨t, hbuild, hfrom⟩ := ih h
      refine ⟨t, hbuild, fun f a ha => ?_⟩
      rcases hfrom f a ha with hput | ⟨j, hj, hread⟩
      · by_cases hfg : f = g
        · subst hfg
          rw [Filled.get_put] at hput
          cases hput
          exact .inr ⟨i, List.mem_cons_self, hb⟩
        · rw [Filled.get_put_of_ne s hfg] at hput
          exact .inl hput
      · exact .inr ⟨j, List.mem_cons_of_mem _ hj, hread⟩

theorem kind_of_ofItems {k : Kind} {items : List Json} {n : Node} (h : ofItems k items = .ok n) :
    n.kind = k := by
  unfold ofItems at h
  split at h
  · rename_i hk
    obtain ⟨v, -, rfl⟩ := map_eq_ok.mp (mapError_eq_ok.mp h)
    exact hk.symm
  · obtain ⟨t, hbuild, -⟩ := exists_filled_of_readItems h
    exact Filled.kind_of_build hbuild

/-- In a place that admits every literal, an array is read by its tag and its elements. -/
theorem read_array_cons {p : Place} (hp : ∀ v, p.admit (.literal v) = .ok (.literal v)) {s : String}
    {items : List Json} {n : Node} :
    Node.read p (.array (.string s :: items)) = .ok n ↔
      ∃ k, p.kindNamed s = .ok k ∧ ofItems k items = .ok n := by
  rw [Node.read, readArray, bind_eq_ok]
  refine exists_congr fun k => and_congr_right fun _ => ?_
  by_cases hk : k = .value
  · simp only [if_pos hk, ofItems, bind_eq_ok, mapError_eq_ok, map_eq_ok, hp, Except.ok.injEq]
  · simp only [if_neg hk, ofItems]

theorem ofDraft_object_eq_ok {room : Nat} {members : List (List Json.Letter × Draft)}
    {closed : Bool} {n : Node} :
    ofDraft (room + 1) (.object members closed) = .ok n ↔
      ∃ j s, (Draft.object members closed).settle? (room + 1) = some j ∧
        j.tag? = some (.string s) ∧ Node.read .node j = .ok n := by
  constructor
  · intro h
    obtain ⟨found, htop, -⟩ := bind_eq_ok.mp h
    obtain ⟨rfl, ms, hms, htags⟩ := settleMembers?_of_topMembers htop
    have hread := (ofDraft_object_iff_read hms htags).mp h
    obtain ⟨t, ht, htag⟩ := tag_of_read hread
    obtain ⟨s, rfl⟩ := Json.eq_string_of_isString (htags t (by simp [ht]))
    refine ⟨.object ms, s, ?_, htag, hread⟩
    rw [Draft.settle?, hms, Option.map_some]
  · rintro ⟨j, s, hsettle, htag, hread⟩
    cases closed with
    | false => cases hsettle
    | true =>
      obtain ⟨ms, hms, rfl⟩ := Option.map_eq_some_iff.mp hsettle
      obtain ⟨t, ht, hfirst⟩ := tag_of_read hread
      rw [hfirst, Option.some.injEq] at htag
      subst htag
      refine (ofDraft_object_iff_read hms ?_).mpr hread
      simp [ht, Json.isString]

theorem ofDraft_array_eq_ok {room : Nat} {tag : Draft} {items : List Draft} {closed : Bool}
    {n : Node} :
    ofDraft (room + 1) (.array (tag :: items) closed) = .ok n ↔
      ∃ j s, (Draft.array (tag :: items) closed).settle? (room + 1) = some j ∧
        j.tag? = some (.string s) ∧ Node.read .node j = .ok n := by
  constructor
  · intro h
    obtain ⟨k, hk, hrest⟩ := bind_eq_ok.mp h
    obtain ⟨js, htop, hn⟩ := bind_eq_ok.mp hrest
    obtain ⟨hclosed, hjs⟩ := topItems_eq_ok.mp htop
    obtain ⟨s, hs, hnamed⟩ := settle?_of_topKind hk room
    subst hclosed
    refine ⟨.array (.string s :: js), s, ?_, rfl, ?_⟩
    · simp [Draft.settle?, Draft.settleItems?, hs, hjs]
    · exact (read_array_cons fun _ => rfl).mpr ⟨k, hnamed, hn⟩
  · rintro ⟨j, s, hsettle, htag, hread⟩
    cases closed with
    | false => cases hsettle
    | true =>
      obtain ⟨js, hjs, rfl⟩ := Option.map_eq_some_iff.mp hsettle
      simp only [Draft.settleItems?, Option.bind_eq_bind, Option.bind_eq_some_iff,
        Option.pure_def, Option.some.injEq] at hjs
      obtain ⟨t, ht, js, hjs, rfl⟩ := hjs
      rw [Json.tag?, List.head?_cons, Option.some.injEq] at htag
      subst htag
      obtain ⟨k, hk, hn⟩ := (read_array_cons fun _ => rfl).mp hread
      have htop : topKind tag = .ok k := (topKind_eq ht rfl).trans hk
      have hitems : topItems room true items = .ok js := topItems_eq_ok.mpr ⟨rfl, hjs⟩
      rw [ofDraft]
      exact bind_eq_ok.mpr ⟨k, htop, bind_eq_ok.mpr ⟨js, hitems, hn⟩⟩

/-- The node at the top of a draft is the node of its document, if this has a string for its tag. -/
theorem ofDraft_eq_ok {room : Nat} {d : Draft} {n : Node} :
    ofDraft room d = .ok n ↔
      ∃ j s, d.settle? room = some j ∧ j.tag? = some (.string s) ∧ Node.read .node j = .ok n := by
  cases d with
  | object members closed =>
    cases room with
    | zero => cases closed <;> simp [ofDraft, Draft.settle?]
    | succ room => exact ofDraft_object_eq_ok
  | array items closed =>
    cases room with
    | zero => cases closed <;> simp [ofDraft, Draft.settle?]
    | succ room =>
      cases items with
      | nil => cases closed <;> simp [ofDraft, Draft.settle?, Draft.settleItems?, Json.tag?]
      | cons tag items => exact ofDraft_array_eq_ok
  | null => simp [ofDraft, mapError_eq_ok, Draft.refuse_ne_ok, Draft.settle?, Json.tag?]
  | bool b => simp [ofDraft, mapError_eq_ok, Draft.refuse_ne_ok, Draft.settle?, Json.tag?]
  | number m => simp [ofDraft, mapError_eq_ok, Draft.refuse_ne_ok, Draft.settle?, Json.tag?]
  | string letters => simp [ofDraft, mapError_eq_ok, Draft.refuse_ne_ok, Draft.settle?, Json.tag?]
  | broken => simp [ofDraft, mapError_eq_ok, Draft.refuse_ne_ok, Draft.settle?]

/-- A text is read as a node exactly if it is a document with a string for its tag, and this
document is read as the node. -/
theorem parse_eq_ok {text : String} {n : Node} :
    Node.parse text = .ok n ↔ ∃ j s, Json.parse? text Json.maxDepth = some j ∧
      j.tag? = some (.string s) ∧ Node.read .node j = .ok n := by
  have hparse : Node.parse text = ofDraft Json.maxDepth (Draft.read text.toList).1 >>= fun n =>
      if (Draft.skipSpace (Draft.read text.toList).2).isEmpty then .ok n
      else .error (.json .grammar) := rfl
  have hdocument : ∀ j, Json.parse? text Json.maxDepth = some j ↔
      (Draft.skipSpace (Draft.read text.toList).2).isEmpty = true ∧
        (Draft.read text.toList).1.settle? Json.maxDepth = some j := by
    intro j
    exact Option.ite_none_right_eq_some
  rw [hparse, bind_eq_ok]
  constructor
  · rintro ⟨m, hm, hn⟩
    split at hn
    · cases hn
      obtain ⟨j, s, hj, htag, hread⟩ := ofDraft_eq_ok.mp hm
      exact ⟨j, s, (hdocument j).mpr ⟨‹_›, hj⟩, htag, hread⟩
    · cases hn
  · rintro ⟨j, s, hj, htag, hread⟩
    obtain ⟨hspace, hsettle⟩ := (hdocument j).mp hj
    refine ⟨n, ofDraft_eq_ok.mpr ⟨j, s, hsettle, htag, hread⟩, ?_⟩
    rw [if_pos hspace]

end Node

end Eligibility
