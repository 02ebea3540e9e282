import Mathlib
import Eligibility.Proofs.DocumentText
import Eligibility.Proofs.FieldReading
import Eligibility.Proofs.MemberOrder

namespace Eligibility

open Json (valuesOf isPlain membersPlain kindIn?)

theorem Filled.kind_of_build {t : Filled} {k : Kind} {n : Node} (h : t.build k = .ok n) :
    n.kind = k := by
  cases k with
  | value => cases h
  | _ =>
    simp only [Filled.build, bind_eq_ok, pure, Except.pure, Except.ok.injEq] at h
    grind [Node.kind, Rule.kind]

namespace Json

end Json

/-- The kind of an object whose tags are strings. -/
theorem Place.kindAmong_iff {p : Place} {ms : List (String × Json)}
    (htags : ∀ t ∈ valuesOf "typename" ms, t.isString = true) {k : Kind} :
    p.kindAmong none ms = .ok k ↔ valuesOf "typename" ms = [.string k.name] ∧ k ∈ p.kinds := by
  rw [kindAmong_eq_ok, takes_some]
  constructor
  · rintro ⟨t, ht, hk⟩
    obtain ⟨s, rfl⟩ := Json.eq_string_of_isString (htags t (by simp [ht]))
    rw [kindOf, kindNamed] at hk
    cases hfind : p.kinds.find? fun l => l.name == s with
    | none => simp [hfind] at hk
    | some l =>
      obtain rfl : l = k := by simpa [hfind] using hk
      obtain rfl : l.name = s := by simpa using List.find?_some hfind
      exact ⟨ht, List.mem_of_find?_eq_some hfind⟩
  · rintro ⟨ht, hk⟩
    exact ⟨_, ht, kindNamed_name hk⟩

theorem Node.kind_of_ofMembers {k : Kind} {ms : List (String × Json)} {n : Node}
    (h : ofMembers k ms = .ok n) : n.kind = k := by
  by_cases hk : k = .value
  · rw [ofMembers, if_pos hk, mapError_eq_ok, map_eq_ok] at h
    obtain ⟨v, -, rfl⟩ := h
    exact hk.symm
  · rw [ofMembers, if_neg hk, readMembers_eq_ok] at h
    obtain ⟨t, -, hbuild⟩ := h
    exact Filled.kind_of_build hbuild

theorem Place.admit_eq {p : Place} {n m : Node} (h : p.admit n = .ok m) : m = n := by
  rcases p with _ | _ | _ | _
  case scalar =>
    rcases n with (_ | _ | _) | _ | _ | _ | _ | _ <;> cases h <;> rfl
  all_goals
    cases h
    rfl

/-- A node that its place admits is read from an object by its tag and its members. -/
theorem Node.read_object_iff {p : Place} {ms : List (String × Json)} {n : Node}
    (htags : ∀ t ∈ valuesOf "typename" ms, t.isString = true) (hplace : p.admit n = .ok n) :
    Node.read p (.object ms) = .ok n ↔
      (valuesOf "typename" ms = [.string n.kind.name] ∧ n.kind ∈ p.kinds) ∧
        Node.ofMembers n.kind ms = .ok n := by
  rw [Node.read, bind_eq_ok, ← Place.kindAmong_iff htags]
  constructor
  · rintro ⟨k, hk, hread⟩
    have hn : ofMembers k ms = .ok n := by
      rw [ofMembers]
      split at hread
      · obtain ⟨v, hv, hn⟩ := bind_eq_ok.mp hread
        rw [if_pos ‹_›, mapError_eq_ok, map_eq_ok]
        exact ⟨v, mapError_eq_ok.mp hv, (Place.admit_eq hn).symm⟩
      · rw [if_neg ‹_›]
        exact hread
    rw [kind_of_ofMembers hn]
    exact ⟨hk, hn⟩
  · rintro ⟨hk, hn⟩
    refine ⟨n.kind, hk, ?_⟩
    rw [ofMembers] at hn
    split at hn
    · rw [mapError_eq_ok, map_eq_ok] at hn
      obtain ⟨v, hv, hn⟩ := hn
      rw [if_pos ‹_›, hv]
      exact (congrArg p.admit hn).trans hplace
    · rw [if_neg ‹_›]
      exact hn

namespace Json

end Json

/-- The text of a readable document is read as that document, if there is room for it. -/
theorem Json.Readable.parse?_render {j : Json} (h : j.Readable) {room : Nat}
    (hroom : j.depth ≤ room) : Json.parse? j.render room = some j := by
  rw [Json.parse?, h.read_render]
  exact h.settle?_draft hroom

namespace Node

open Json (Draft Readable)

theorem topKind_eq {d : Draft} {room : Nat} {j : Json} (h : d.settle? room = some j)
    (hj : j.isString = true) : topKind d = Place.node.kindOf j := by
  obtain ⟨s, rfl⟩ := Json.eq_string_of_isString hj
  cases d with
  | string letters =>
    obtain ⟨s, hs, ⟨⟩⟩ := Option.map_eq_some_iff.mp h
    rw [topKind, Draft.spelled, hs]
    rfl
  | array items closed => cases closed <;> cases room <;> simp [Draft.settle?] at h
  | object members closed => cases closed <;> cases room <;> simp [Draft.settle?] at h
  | _ => simp [Draft.settle?] at h

/-- The top of a text is read like any object, but its tag is taken out. -/
theorem topMembers_eq_ok {room : Nat} {members : List (List Json.Letter × Draft)}
    {ms : List (String × Json)} (h : Draft.settleMembers? members room = some ms)
    (htags : ∀ t ∈ valuesOf "typename" ms, t.isString = true) {seen : Option Kind} {k : Kind}
    {rest : List (String × Json)} :
    topMembers room true seen members = .ok (k, rest) ↔
      Place.node.kindAmong seen ms = .ok k ∧ rest = ms.filter fun m => m.1 != "typename" := by
  induction members generalizing ms seen rest with
  | nil =>
    cases h
    cases seen <;> simp [topMembers, Place.kindAmong, eq_comm]
  | cons m members ih =>
    obtain ⟨letters, d⟩ := m
    simp only [Draft.settleMembers?, Option.bind_eq_bind, Option.bind_eq_some_iff, Option.pure_def,
      Option.some.injEq] at h
    obtain ⟨key, hkey, j, hj, ms, hms, rfl⟩ := h
    have hspelled : Draft.spelled letters = .ok key := by rw [Draft.spelled, hkey]
    have hsettled : d.settle room = .ok j := by rw [Draft.settle, hj]
    have hrest : ∀ t ∈ valuesOf "typename" ms, t.isString = true := by
      intro t ht
      refine htags t ?_
      rw [Json.valuesOf_cons]
      split <;> simp [ht]
    by_cases htag : key = "typename"
    · subst htag
      have hkind : topKind d = Place.node.kindOf j := topKind_eq hj (htags j (by simp [valuesOf]))
      cases seen with
      | some l => simp [topMembers, hspelled, Except.mapError, ok_bind, Place.kindAmong]
      | none =>
        simp only [topMembers, hspelled, Except.mapError, ok_bind, if_true, hkind, bind_eq_ok,
          ih hms hrest, Place.kindAmong, bne_self_eq_false, Bool.false_eq_true, not_false_eq_true,
          List.filter_cons_of_neg]
        grind
    · simp only [topMembers, hspelled, hsettled, Except.mapError, ok_bind, htag, if_false,
        bind_eq_ok, pure, Except.pure, Except.ok.injEq, Prod.mk.injEq, Prod.exists, ↓existsAndEq, ih hms hrest,
        true_and, and_true, Place.kindAmong, bne_iff_ne, ne_eq, not_false_eq_true,
        List.filter_cons_of_pos, and_congr_right_iff]
      exact fun _ => eq_comm

theorem readMembers_filter (k : Kind) (s : Filled) (ms : List (String × Json)) :
    readMembers k s (ms.filter fun m => m.1 != "typename") = readMembers k s ms := by
  induction ms generalizing s with
  | nil => rfl
  | cons m ms ih =>
    obtain ⟨key, j⟩ := m
    by_cases hkey : key = "typename"
    · subst hkey
      rw [readMembers_typename, List.filter_cons_of_neg (by simp)]
      exact ih s
    · rw [List.filter_cons_of_pos (by simpa using hkey)]
      simp only [readMembers, ih]

theorem ofMembers_filter (k : Kind) (ms : List (String × Json)) :
    ofMembers k (ms.filter fun m => m.1 != "typename") = ofMembers k ms := by
  have hliteral :
      Literal.ofMembers (ms.filter fun m => m.1 != "typename") = Literal.ofMembers ms := by
    rw [Literal.ofMembers, Literal.ofMembers, List.filter_filter]
    congr 2
    funext m
    obtain ⟨key, j⟩ := m
    by_cases hkey : key = "typename" <;> simp [hkey]
  rw [ofMembers, ofMembers, hliteral, readMembers_filter]

/-- An object whose tags are strings is read at the top as in a place below. -/
theorem ofDraft_object_iff_read {room : Nat} {members : List (List Json.Letter × Draft)}
    {ms : List (String × Json)} (h : Draft.settleMembers? members room = some ms)
    (htags : ∀ t ∈ valuesOf "typename" ms, t.isString = true) {n : Node} :
    ofDraft (room + 1) (.object members true) = .ok n ↔ Node.read .node (.object ms) = .ok n := by
  have hdraft : ofDraft (room + 1) (.object members true) =
      topMembers room true none members >>= fun found => ofMembers found.1 found.2 := rfl
  rw [hdraft, bind_eq_ok, read_object_iff htags rfl, ← Place.kindAmong_iff htags]
  constructor
  · rintro ⟨⟨k, rest⟩, htop, hn⟩
    obtain ⟨hk, rfl⟩ := (topMembers_eq_ok h htags).mp htop
    rw [ofMembers_filter] at hn
    rw [kind_of_ofMembers hn]
    exact ⟨hk, hn⟩
  · rintro ⟨hk, hn⟩
    exact ⟨(n.kind, _), (topMembers_eq_ok h htags).mpr ⟨hk, rfl⟩, (ofMembers_filter _ _).trans hn⟩

end Node

end Eligibility
