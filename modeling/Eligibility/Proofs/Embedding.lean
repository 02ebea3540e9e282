import Mathlib
import Eligibility.Proofs.Locality
import Eligibility.Proofs.SettledDocument
import Eligibility.Proofs.SourceText
import Eligibility.Proofs.TopLevel

namespace Eligibility

namespace Json

namespace Draft

mutual
def depth : Draft → Nat
  | .array items _ => depthItems items + 1
  | .object members _ => depthMembers members + 1
  | _ => 0
def depthItems : List Draft → Nat
  | [] => 0
  | d :: ds => max (depth d) (depthItems ds)
def depthMembers : List (List Letter × Draft) → Nat
  | [] => 0
  | (_, d) :: ms => max (depth d) (depthMembers ms)
end

theorem settleItems?_congr {ds : List Draft} {room room' : Nat}
    (h : ∀ d ∈ ds, d.settle? room = d.settle? room') :
    settleItems? ds room = settleItems? ds room' := by
  induction ds with
  | nil => rfl
  | cons d ds ih =>
    rw [List.forall_mem_cons] at h
    rw [settleItems?, settleItems?, h.1, ih h.2]

theorem settleMembers?_congr {ms : List (List Letter × Draft)} {room room' : Nat}
    (h : ∀ m ∈ ms, m.2.settle? room = m.2.settle? room') :
    settleMembers? ms room = settleMembers? ms room' := by
  induction ms with
  | nil => rfl
  | cons m ms ih =>
    obtain ⟨letters, d⟩ := m
    rw [List.forall_mem_cons] at h
    rw [settleMembers?, settleMembers?, h.1, ih h.2]

theorem depthItems_le_iff {ds : List Draft} {n : Nat} :
    depthItems ds ≤ n ↔ ∀ d ∈ ds, d.depth ≤ n := by
  induction ds with
  | nil => simp [depthItems]
  | cons d ds ih => simp [depthItems, ih]

theorem depthMembers_le_iff {ms : List (List Letter × Draft)} {n : Nat} :
    depthMembers ms ≤ n ↔ ∀ m ∈ ms, m.2.depth ≤ n := by
  induction ms with
  | nil => simp [depthMembers]
  | cons m ms ih =>
    obtain ⟨letters, d⟩ := m
    simp [depthMembers, ih]

/-- Room that a draft does not need makes no difference. -/
theorem settle?_eq_of_depth_le {d : Draft} {room room' : Nat} (h : d.depth ≤ room)
    (h' : d.depth ≤ room') : d.settle? room = d.settle? room' := by
  induction room generalizing d room' with
  | zero =>
    cases d with
    | array ds closed => cases h
    | object ms closed => cases h
    | _ => simp only [settle?]
  | succ room ih =>
    cases d with
    | array ds closed =>
      obtain ⟨room', rfl⟩ := Nat.exists_eq_add_of_le' (Nat.one_le_of_lt h')
      have hitems := depthItems_le_iff.mp (Nat.le_of_succ_le_succ h)
      have hitems' := depthItems_le_iff.mp (Nat.le_of_succ_le_succ h')
      cases closed with
      | false => rfl
      | true =>
        rw [settle?, settle?, settleItems?_congr fun d hd => ih (hitems d hd) (hitems' d hd)]
    | object ms closed =>
      obtain ⟨room', rfl⟩ := Nat.exists_eq_add_of_le' (Nat.one_le_of_lt h')
      have hmembers := depthMembers_le_iff.mp (Nat.le_of_succ_le_succ h)
      have hmembers' := depthMembers_le_iff.mp (Nat.le_of_succ_le_succ h')
      cases closed with
      | false => rfl
      | true =>
        rw [settle?, settle?,
          settleMembers?_congr fun m hm => ih (hmembers m hm) (hmembers' m hm)]
    | _ => simp only [settle?]

/-- The text is this draft, without a break and with nothing but white space around it. -/
structure Spans (cs : List Char) (d : Draft) : Prop where
  draft : (read cs).1 = d
  rest : skipSpace (read cs).2 = []
  unbroken : d.isUnbroken = true

/-- A text that spans a draft is read as that draft also in front of other text. -/
theorem Spans.readValue_append {cs : List Char} {d : Draft} (h : Spans cs d) {fuel : Nat}
    (hfuel : 2 * cs.length + 2 ≤ fuel) {more : List Char} (hmore : MayFollow more) :
    ∃ rest, readValue fuel (cs ++ more) = (d, rest) ∧ skipSpace rest = skipSpace more := by
  obtain ⟨rfl, hrest, hunbroken⟩ := h
  refine ⟨(read cs).2 ++ more, ?_, skipSpace_append_of_nil hrest more⟩
  exact (isLocal _).value rfl hunbroken hfuel fun _ => hmore

/-- Texts with commas between them are read as their drafts, up to the bracket. -/
theorem readItems_intercalate {texts : List (List Char)} {ds : List Draft}
    (h : List.Forall₂ Spans texts ds) (hne : texts ≠ []) {fuel : Nat}
    (hfuel : 2 * ([','].intercalate texts).length + 3 ≤ fuel) (rest : List Char) :
    readItems fuel ([','].intercalate texts ++ ']' :: rest) = (ds, true, rest) := by
  induction h generalizing fuel with
  | nil => exact absurd rfl hne
  | @cons t d texts ds ht htexts ih =>
    obtain ⟨fuel, rfl⟩ := Nat.exists_eq_add_of_le' (show 1 ≤ fuel by omega)
    rw [readItems_iff]
    cases htexts with
    | nil =>
      rw [List.intercalate_singleton] at hfuel ⊢
      obtain ⟨r, hr, hspace⟩ := ht.readValue_append (show _ ≤ fuel by omega) (.bracket rest)
      exact .bracket hr (hspace.trans (skipSpace_cons rfl rest))
    | @cons u e texts ds hu htexts =>
      rw [List.intercalate_cons_cons, List.length_append, List.length_append,
        List.length_singleton] at hfuel
      have htail := ih (List.cons_ne_nil u texts) (show _ ≤ fuel by omega)
      rw [List.intercalate_cons_cons, List.append_assoc, List.append_assoc]
      obtain ⟨r, hr, hspace⟩ := ht.readValue_append (show _ ≤ fuel by omega) (.comma _)
      exact .comma hr (hspace.trans (skipSpace_cons rfl _)) htail

theorem readValue_skipSpace (fuel : Nat) (cs : List Char) :
    readValue fuel (skipSpace cs) = readValue fuel cs := by
  cases fuel with
  | zero => rfl
  | succ fuel => rw [readValue, readValue, skipSpace_skipSpace]

theorem readItems_skipSpace (fuel : Nat) (cs : List Char) :
    readItems fuel (skipSpace cs) = readItems fuel cs := by
  cases fuel with
  | zero => rfl
  | succ fuel => rw [readItems, readItems, readValue_skipSpace]

/-- A value does not start with a closing bracket, so an array that has one is not taken for an
empty one. -/
theorem skipSpace_ne_bracket {fuel : Nat} {cs rest : List Char} {d : Draft}
    (h : readValue fuel cs = (d, rest)) (hd : d.isUnbroken = true) (r : List Char) :
    skipSpace cs ≠ ']' :: r := by
  intro hcs
  cases fuel with
  | zero =>
    cases h
    cases hd
  | succ fuel =>
    unfold readValue at h
    rw [hcs] at h
    cases h
    cases hd

/-- Texts between brackets, with commas between them, are the array of their drafts. -/
theorem readValue_list {texts : List (List Char)} {ds : List Draft}
    (h : List.Forall₂ Spans texts ds) {fuel : Nat}
    (hfuel : 2 * ([','].intercalate texts).length + 4 ≤ fuel) (rest : List Char) :
    readValue fuel ('[' :: ([','].intercalate texts ++ ']' :: rest)) = (.array ds true, rest) := by
  obtain ⟨fuel, rfl⟩ := Nat.exists_eq_add_of_le' (show 1 ≤ fuel by omega)
  rw [readValue_iff]
  cases h with
  | nil => exact .emptyArray (skipSpace_cons rfl _) (skipSpace_cons rfl rest)
  | @cons t d texts ds ht htexts =>
    have hitems := readItems_intercalate (.cons ht htexts) (List.cons_ne_nil t texts)
      (show _ ≤ fuel by omega) rest
    refine .array (skipSpace_cons rfl _) ?_ ((readItems_skipSpace fuel _).trans hitems)
    obtain ⟨fuel, rfl⟩ := Nat.exists_eq_add_of_le' (show 1 ≤ fuel by omega)
    cases readItems_iff.mp hitems with
    | comma hd hr hds => exact skipSpace_ne_bracket hd ht.unbroken
    | bracket hd hr => exact skipSpace_ne_bracket hd ht.unbroken

theorem readMembers_comma (key : String) {fuel : Nat} {d : Draft} {cs r r' rest : List Char}
    {ms : List (List Letter × Draft)} (hd : readValue fuel cs = (d, r))
    (hr : skipSpace r = ',' :: r') (hms : readMembers fuel r' = (ms, true, rest)) :
    readMembers (fuel + 1) (renderString key ++ ':' :: cs) =
      ((letters key, d) :: ms, true, rest) := by
  obtain ⟨q, hq, hkey⟩ := readAll_renderString key (':' :: cs)
  rw [hq, readMembers_iff]
  exact .comma (skipSpace_cons rfl q) hkey (skipSpace_cons rfl cs) hd hr hms

theorem readMembers_brace (key : String) {fuel : Nat} {d : Draft} {cs r rest : List Char}
    (hd : readValue fuel cs = (d, r)) (hr : skipSpace r = '\x7d' :: rest) :
    readMembers (fuel + 1) (renderString key ++ ':' :: cs) = ([(letters key, d)], true, rest) := by
  obtain ⟨q, hq, hkey⟩ := readAll_renderString key (':' :: cs)
  rw [hq, readMembers_iff]
  exact .brace (skipSpace_cons rfl q) hkey (skipSpace_cons rfl cs) hd hr

def memberText (m : String × List Char) : List Char := renderString m.1 ++ ':' :: m.2

def MemberSpans (m : String × List Char) (d : List Letter × Draft) : Prop :=
  letters m.1 = d.1 ∧ Spans m.2 d.2

/-- Members with commas between them are read as their drafts, up to the brace. -/
theorem readMembers_intercalate {ms : List (String × List Char)} {ds : List (List Letter × Draft)}
    (h : List.Forall₂ MemberSpans ms ds) (hne : ms ≠ []) {fuel : Nat}
    (hfuel : 2 * ([','].intercalate (ms.map memberText)).length + 3 ≤ fuel) (rest : List Char) :
    readMembers fuel ([','].intercalate (ms.map memberText) ++ '\x7d' :: rest) =
      (ds, true, rest) := by
  induction h generalizing fuel with
  | nil => exact absurd rfl hne
  | @cons m d ms ds hm hms ih =>
    obtain ⟨fuel, rfl⟩ := Nat.exists_eq_add_of_le' (show 1 ≤ fuel by omega)
    obtain ⟨⟨key, t⟩, ⟨_, d⟩, rfl, ht⟩ := m, d, hm
    cases hms with
    | nil =>
      rw [List.map_cons, List.map_nil, List.intercalate_singleton, memberText] at hfuel ⊢
      rw [List.length_append, List.length_cons] at hfuel
      rw [List.append_assoc, List.cons_append]
      obtain ⟨r, hr, hspace⟩ := ht.readValue_append (show _ ≤ fuel by omega) (.brace rest)
      exact readMembers_brace key hr (hspace.trans (skipSpace_cons rfl rest))
    | @cons n e ms ds hn hms =>
      rw [List.map_cons, List.map_cons, List.intercalate_cons_cons, ← List.map_cons, memberText,
        List.length_append, List.length_append, List.length_append, List.length_cons,
        List.length_singleton] at hfuel
      have htail := ih (List.cons_ne_nil n ms) (show _ ≤ fuel by omega)
      rw [List.map_cons, List.map_cons, List.intercalate_cons_cons, ← List.map_cons, memberText,
        List.append_assoc, List.append_assoc, List.append_assoc, List.cons_append]
      obtain ⟨r, hr, hspace⟩ := ht.readValue_append (show _ ≤ fuel by omega) (.comma _)
      exact readMembers_comma key hr (hspace.trans (skipSpace_cons rfl _)) htail

theorem areUnbroken_iff {ds : List Draft} :
    areUnbroken ds = true ↔ ∀ d ∈ ds, d.isUnbroken = true := by
  induction ds with
  | nil => simp [areUnbroken]
  | cons d ds ih => rw [areUnbroken, Bool.and_eq_true, List.forall_mem_cons, ih]

theorem membersUnbroken_iff {ms : List (List Letter × Draft)} :
    membersUnbroken ms = true ↔ ∀ m ∈ ms, m.2.isUnbroken = true := by
  induction ms with
  | nil => simp [membersUnbroken]
  | cons m ms ih =>
    obtain ⟨key, d⟩ := m
    rw [membersUnbroken, Bool.and_eq_true, List.forall_mem_cons, ih]

theorem spans_of_read {cs : List Char} {d : Draft} (h : read cs = (d, []))
    (hunbroken : d.isUnbroken = true) : Spans cs d :=
  ⟨by rw [h], by rw [h]; rfl, hunbroken⟩

theorem spans_string (s : String) : Spans (renderString s) (.string (letters s)) := by
  have hread := (Readable.string s).read_render
  rw [render, String.toList_ofList, renderChars] at hread
  exact spans_of_read hread rfl

theorem spans_array {texts : List (List Char)} {ds : List Draft}
    (h : List.Forall₂ Spans texts ds) :
    Spans ('[' :: ([','].intercalate texts ++ [']'])) (.array ds true) := by
  refine spans_of_read (readValue_list h (by simp; omega) []) ?_
  rw [isUnbroken, Bool.true_and, areUnbroken_iff]
  intro d hd
  obtain ⟨t, -, ht⟩ := exists_mem_of_forall₂ h hd
  exact ht.unbroken

/-- Members between braces, with commas between them, are the object of their drafts. -/
theorem spans_object {ms : List (String × List Char)} {ds : List (List Letter × Draft)}
    (h : List.Forall₂ MemberSpans ms ds) (hne : ms ≠ []) :
    Spans ('\x7b' :: ([','].intercalate (ms.map memberText) ++ ['\x7d'])) (.object ds true) := by
  have hquote : ∃ q, [','].intercalate (ms.map memberText) ++ ['\x7d'] = '"' :: q := by
    cases ms with
    | nil => exact absurd rfl hne
    | cons m ms =>
      cases ms with
      | nil => exact ⟨_, rfl⟩
      | cons n ms => exact ⟨_, rfl⟩
  refine spans_of_read ?_ ?_
  · obtain ⟨q, hq⟩ := hquote
    have hmembers := readMembers_intercalate h hne
      (show _ ≤ 2 * ([','].intercalate (ms.map memberText) ++ ['\x7d']).length + 3 by simp) []
    rw [hq] at hmembers
    rw [read, hq]
    exact readValue_brace rfl (by decide) hmembers
  · rw [isUnbroken, Bool.true_and, membersUnbroken_iff]
    intro d hd
    obtain ⟨m, -, hm⟩ := exists_mem_of_forall₂ h hd
    exact hm.2.unbroken

end Draft

/-- A well-formed text is the document that its draft settles into. -/
theorem parse?_of_spans {text : String} {d : Draft} (h : Draft.Spans text.toList d) (room : Nat) :
    parse? text room = d.settle? room := by
  unfold parse?
  simp only [h.rest, h.draft, List.isEmpty_nil, if_true]

/-- The text is a value of the grammar, and opens at most so many containers at a time. Its numbers
may be out of range, and its strings need not spell anything. -/
def WellFormed (text : String) (room : Nat) : Prop :=
  ∃ d, Draft.Spans text.toList d ∧ d.depth ≤ room

end Json

def Rule.allOfText (texts : List String) : String :=
  "\x7b\"typename\":\"AllOf\",\"preds\":[" ++ ",".intercalate texts ++ "]\x7d"

namespace Rule

open Json (Draft letters)

def allOfDraft (ds : List Draft) : Draft :=
  .object [(letters "typename", .string (letters "AllOf")), (letters "preds", .array ds true)] true

theorem toList_allOfText (texts : List String) :
    (allOfText texts).toList = '\x7b' :: ([','].intercalate
      ([("typename", Json.renderString "AllOf"),
        ("preds", '[' :: ([','].intercalate (texts.map String.toList) ++ [']']))].map
          Draft.memberText) ++ ['\x7d']) := by
  have hopening : "\x7b\"typename\":\"AllOf\",\"preds\":[".toList =
      '\x7b' :: (Json.renderString "typename" ++ ':' :: (Json.renderString "AllOf" ++
        ',' :: (Json.renderString "preds" ++ [':', '[']))) := by
    decide +kernel
  have hcomma : ",".toList = [','] := by decide
  have hclosing : "]\x7d".toList = [']', '\x7d'] := by decide
  unfold allOfText
  rw [String.toList_append, String.toList_append, hopening, String.toList_intercalate, hcomma,
    hclosing]
  simp only [List.map_cons, List.map_nil, List.intercalate_cons_cons, List.intercalate_singleton,
    Draft.memberText, List.cons_append, List.append_assoc, List.nil_append]

/-- The text of a conjunction is read as the drafts of its parts. -/
theorem spans_allOfText {texts : List String} {ds : List Draft}
    (h : List.Forall₂ Draft.Spans (texts.map String.toList) ds) :
    Draft.Spans (allOfText texts).toList (allOfDraft ds) := by
  rw [toList_allOfText]
  refine Draft.spans_object ?_ (List.cons_ne_nil _ _)
  exact .cons ⟨rfl, Draft.spans_string "AllOf"⟩ (.cons ⟨rfl, Draft.spans_array h⟩ .nil)

theorem settle?_allOfDraft {ds : List Draft} {room : Nat} {j : Json} :
    (allOfDraft ds).settle? (room + 2) = some j ↔
      ∃ js, Draft.settleItems? ds room = some js ∧
        j = .object [("typename", .string "AllOf"), ("preds", .array js)] := by
  cases hitems : Draft.settleItems? ds room with
  | none => simp [allOfDraft, Draft.settle?, Draft.settleMembers?, Json.text?_letters, hitems]
  | some js =>
    simp [allOfDraft, Draft.settle?, Draft.settleMembers?, Json.text?_letters, hitems, eq_comm]

end Rule

theorem Place.kindNamed_eq_ok {p : Place} {s : String} {k : Kind} :
    p.kindNamed s = .ok k ↔ k.name = s ∧ k ∈ p.kinds := by
  constructor
  · intro h
    unfold kindNamed at h
    split at h
    · rename_i hfind
      cases h
      exact ⟨by simpa using List.find?_some hfind, List.mem_of_find?_eq_some hfind⟩
    · cases h
  · rintro ⟨rfl, hk⟩
    exact kindNamed_name hk

namespace Node

/-- In a place for rules a document is read as at the top of a text, if its tag is a string. -/
theorem read_rule_iff {j : Json} (hj : j.TagIsString) {r : Rule} :
    Node.read .rule j = .ok (.rule r) ↔
      (∃ s, j.tag? = some (.string s)) ∧ Node.read .node j = .ok (.rule r) := by
  -- The places differ in the kinds they admit, and the kind of a rule is one that both do.
  cases j with
  | object ms =>
    have htag : ∀ p n, Node.read p (.object ms) = .ok n →
        (∃ s, (Json.object ms).tag? = some (.string s)) ∧
          ∀ t ∈ Json.valuesOf "typename" ms, t.isString = true := by
      intro p n h
      obtain ⟨t, ht, hfirst⟩ := tag_of_read h
      have hstring := hj t hfirst
      obtain ⟨s, rfl⟩ := Json.eq_string_of_isString hstring
      exact ⟨⟨s, hfirst⟩, by simpa [ht] using hstring⟩
    constructor
    · intro h
      obtain ⟨hs, htags⟩ := htag _ _ h
      obtain ⟨⟨hname, -⟩, hmembers⟩ := (read_object_iff htags rfl).mp h
      exact ⟨hs, (read_object_iff htags rfl).mpr ⟨⟨hname, Kind.mem_all _⟩, hmembers⟩⟩
    · rintro ⟨-, h⟩
      obtain ⟨-, htags⟩ := htag _ _ h
      obtain ⟨⟨hname, -⟩, hmembers⟩ := (read_object_iff htags rfl).mp h
      exact (read_object_iff htags rfl).mpr ⟨⟨hname, r.kind_mem_kinds⟩, hmembers⟩
  | array items =>
    cases items with
    | nil => simp [Node.read, readArray]
    | cons tag items =>
      obtain ⟨s, rfl⟩ := Json.eq_string_of_isString (hj tag rfl)
      have hs : ∃ t, (Json.array (.string s :: items)).tag? = some (.string t) := ⟨s, rfl⟩
      simp only [hs, true_and, read_array_cons (p := .rule) fun _ => rfl,
        read_array_cons (p := .node) fun _ => rfl, Place.kindNamed_eq_ok]
      constructor
      · rintro ⟨k, ⟨hname, -⟩, h⟩
        exact ⟨k, ⟨hname, k.mem_all⟩, h⟩
      · rintro ⟨k, ⟨hname, -⟩, h⟩
        obtain rfl := kind_of_ofItems h
        exact ⟨_, ⟨hname, r.kind_mem_kinds⟩, h⟩
  | _ => simp [Node.read]

/-- A conjunction is read part by part. -/
theorem read_allOf {js : List Json} {n : Node} :
    Node.read .node (.object [("typename", .string "AllOf"), ("preds", .array js)]) = .ok n ↔
      ∃ rs, n = .rule (.allOf rs) ∧
        List.Forall₂ (fun j r => Node.read .rule j = .ok (.rule r)) js rs := by
  have hkind : Place.node.kindAmong none [("typename", .string "AllOf"), ("preds", .array js)] =
      .ok .allOf := rfl
  have hpreds : ∀ rs, Field.preds.Reads (.array js) rs ↔
      List.Forall₂ (fun j r => Node.read .rule j = .ok (.rule r)) js rs := by
    intro rs
    rw [Field.Reads, Field.read, readAll, readEach_narrow]
    simp only [bind_eq_ok, Node.narrow, mapError_eq_ok, Fits.rule.narrows, exists_eq_right]
  rw [Node.read, hkind, ok_bind, if_neg (by decide), readMembers_typename]
  change readMembers .allOf {} [(Field.preds.key, .array js)] = .ok n ↔ _
  rw [readMembers_cons (by decide)]
  simp only [Filled.get_empty, true_and, hpreds]
  constructor
  · rintro ⟨rs, hrs, ⟨⟩⟩
    exact ⟨rs, rfl, hrs⟩
  · rintro ⟨rs, rfl, hrs⟩
    exact ⟨rs, hrs, rfl⟩

end Node

section Forall₂

variable {α β γ : Type}

theorem forall₂_congr_of_mem {R S : α → β → Prop} {as : List α}
    (h : ∀ a ∈ as, ∀ b, R a b ↔ S a b) {bs : List β} :
    List.Forall₂ R as bs ↔ List.Forall₂ S as bs := by
  rw [List.forall₂_iff_zip, List.forall₂_iff_zip]
  apply and_congr_right
  intro _
  constructor
  · intro hall a b hm
    exact (h a (List.of_mem_zip hm).1 b).mp (hall hm)
  · intro hall a b hm
    exact (h a (List.of_mem_zip hm).1 b).mpr (hall hm)

theorem exists_forall₂_and_iff {R : α → β → Prop} {S : β → γ → Prop} {as : List α} {cs : List γ} :
    (∃ bs, List.Forall₂ R as bs ∧ List.Forall₂ S bs cs) ↔
      List.Forall₂ (fun a c => ∃ b, R a b ∧ S b c) as cs := by
  constructor
  · rintro ⟨bs, hR, hS⟩
    induction hR generalizing cs with
    | nil =>
      cases hS
      exact .nil
    | cons hab _ ih =>
      cases hS with
      | cons hbc hS => exact .cons ⟨_, hab, hbc⟩ (ih hS)
  · intro h
    induction h with
    | nil => exact ⟨[], .nil, .nil⟩
    | cons hac _ ih =>
      obtain ⟨b, hab, hbc⟩ := hac
      obtain ⟨bs, hR, hS⟩ := ih
      exact ⟨b :: bs, .cons hab hR, .cons hbc hS⟩

theorem exists_forall₂_iff {R : α → β → Prop} {as : List α} :
    (∃ bs, List.Forall₂ R as bs) ↔ ∀ a ∈ as, ∃ b, R a b := by
  induction as with
  | nil => simp
  | cons a as ih =>
    rw [List.forall_mem_cons, ← ih]
    constructor
    · rintro ⟨_, hab | ⟨hab, hR⟩⟩
      exact ⟨⟨_, hab⟩, _, hR⟩
    · rintro ⟨⟨b, hab⟩, bs, hR⟩
      exact ⟨b :: bs, .cons hab hR⟩

end Forall₂

namespace Rule

open Json (Draft)

theorem parse_eq_ok {text : String} {r : Rule} :
    Rule.parse text = .ok r ↔ Node.parse text = .ok (.rule r) := by
  unfold Rule.parse
  split <;> simp_all

/-- On its own, a rule is read from its document as in a place for rules. -/
theorem parse_iff_of_spans {text : String} {d : Draft} (h : Draft.Spans text.toList d)
    (hdepth : d.depth ≤ 125) (htag : ∀ j, Json.parse? text 125 = some j → j.TagIsString)
    {r : Rule} :
    Rule.parse text = .ok r ↔
      ∃ j, d.settle? 125 = some j ∧ Node.read .rule j = .ok (.rule r) := by
  have hparse : ∀ room, d.depth ≤ room → Json.parse? text room = d.settle? 125 := by
    intro room hroom
    rw [Json.parse?_of_spans h]
    exact Draft.settle?_eq_of_depth_le hroom hdepth
  rw [parse_eq_ok, Node.parse_eq_ok, hparse _ (hdepth.trans (by decide))]
  rw [hparse 125 hdepth] at htag
  constructor
  · rintro ⟨j, s, hj, hs, hread⟩
    exact ⟨j, hj, (Node.read_rule_iff (htag j hj)).mpr ⟨⟨s, hs⟩, hread⟩⟩
  · rintro ⟨j, hj, hread⟩
    obtain ⟨⟨s, hs⟩, hread⟩ := (Node.read_rule_iff (htag j hj)).mp hread
    exact ⟨j, s, hj, hs, hread⟩

/-- A conjunction is read exactly if its parts are, each in a place for rules. -/
theorem parse_allOfText {texts : List String} {ds : List Draft}
    (h : List.Forall₂ Draft.Spans (texts.map String.toList) ds) {n : Node} :
    Node.parse (allOfText texts) = .ok n ↔
      ∃ rs, n = .rule (.allOf rs) ∧ List.Forall₂
        (fun d r => ∃ j, d.settle? 125 = some j ∧ Node.read .rule j = .ok (.rule r)) ds rs := by
  have hparse : ∀ j, Json.parse? (allOfText texts) Json.maxDepth = some j ↔
      ∃ js, Draft.settleItems? ds 125 = some js ∧
        j = .object [("typename", .string "AllOf"), ("preds", .array js)] := by
    intro j
    rw [← settle?_allOfDraft, Json.parse?_of_spans (spans_allOfText h)]
    rfl
  simp only [Node.parse_eq_ok, hparse, ← exists_forall₂_and_iff, Draft.settleItems?_eq_some]
  constructor
  · rintro ⟨_, s, ⟨js, hjs, rfl⟩, -, hread⟩
    obtain ⟨rs, rfl, hrs⟩ := Node.read_allOf.mp hread
    exact ⟨rs, rfl, js, hjs, hrs⟩
  · rintro ⟨rs, rfl, js, hjs, hrs⟩
    exact ⟨_, "AllOf", ⟨js, hjs, rfl⟩, rfl, Node.read_allOf.mpr ⟨rs, rfl, hrs⟩⟩

/-- The text of a conjunction is read exactly if each part is read on its own, and then as the
conjunction of what the parts are, with their programs in its program. -/
theorem parse_allOf_iff_parse_each {texts : List String}
    (htexts : ∀ t ∈ texts, Json.WellFormed t 125)
    (htags : ∀ t ∈ texts, ∀ j, Json.parse? t 125 = some j → j.TagIsString) :
    ((∃ r, Rule.parse (allOfText texts) = .ok r) ↔ ∀ t ∈ texts, ∃ r, Rule.parse t = .ok r) ∧
    ∀ rs, List.Forall₂ (fun t r => Rule.parse t = .ok r) texts rs →
      Rule.parse (allOfText texts) = .ok (.allOf rs) ∧
      (Node.parse (allOfText texts)).map Node.source =
        .ok ("dsl.allOf(" ++ ",".intercalate (rs.map Rule.source) ++ ")") := by
  have hspans : List.Forall₂ Draft.Spans (texts.map String.toList)
      (texts.map fun t => (Draft.read t.toList).1) := by
    rw [List.forall₂_map_left_iff, List.forall₂_map_right_iff, List.forall₂_same]
    intro t ht
    obtain ⟨d, hd, -⟩ := htexts t ht
    exact ⟨rfl, hd.rest, hd.draft ▸ hd.unbroken⟩
  have hparse : ∀ n, Node.parse (allOfText texts) = .ok n ↔
      ∃ rs, n = .rule (.allOf rs) ∧ List.Forall₂ (fun t r => Rule.parse t = .ok r) texts rs := by
    intro n
    rw [parse_allOfText hspans]
    refine exists_congr fun rs => and_congr_right fun _ => ?_
    rw [List.forall₂_map_left_iff]
    apply forall₂_congr_of_mem
    intro t ht r
    obtain ⟨d, hd, hdepth⟩ := htexts t ht
    rw [hd.draft]
    exact (parse_iff_of_spans hd hdepth (htags t ht)).symm
  constructor
  · rw [← exists_forall₂_iff]
    constructor
    · rintro ⟨r, hr⟩
      obtain ⟨rs, -, hrs⟩ := (hparse _).mp (parse_eq_ok.mp hr)
      exact ⟨rs, hrs⟩
    · rintro ⟨rs, hrs⟩
      exact ⟨.allOf rs, parse_eq_ok.mpr ((hparse _).mpr ⟨rs, rfl, hrs⟩)⟩
  · intro rs hrs
    have hall := (hparse _).mpr ⟨rs, rfl, hrs⟩
    refine ⟨parse_eq_ok.mpr hall, ?_⟩
    rw [hall, Except.map, Node.source, source, sources_eq_map, Source.list]

/-- An array with blanks around it, and an object whose tag comes last and in which a position
stands for a tag. -/
def embedded : List String :=
  [" [\"OneOf\", []] ", "\x7b\"preds\": [[3, []]], \"typename\": \"AllOf\"\x7d"]

theorem parse_allOf_iff_parse_each_embedded :
    (∀ t ∈ embedded, Json.WellFormed t 125) ∧
    (∀ t ∈ embedded, ∀ j, Json.parse? t 125 = some j → j.TagIsString) ∧
    ∃ r s, embedded.map Rule.parse = [.ok r, .ok s] ∧
      Rule.parse (allOfText embedded) = .ok (.allOf [r, s]) ∧
      (Node.parse (allOfText embedded)).map Node.source =
        .ok "dsl.allOf(dsl.oneOf(),dsl.allOf(dsl.oneOf()))" := by
  have hspans : ∀ t ∈ embedded, Draft.skipSpace (Draft.read t.toList).2 = [] ∧
      (Draft.read t.toList).1.isUnbroken = true ∧ (Draft.read t.toList).1.depth ≤ 125 := by
    decide +kernel
  have hstrings : ∀ t ∈ embedded,
      (Json.parse? t 125).all (fun j => j.tag?.all Json.isString) = true := by
    decide +kernel
  have hsources : embedded.map (fun t => (Rule.parse t).toOption.map source) =
      [some "dsl.oneOf()", some "dsl.allOf(dsl.oneOf())"] := by
    decide +kernel
  have htexts : ∀ t ∈ embedded, Json.WellFormed t 125 := by
    intro t ht
    obtain ⟨hrest, hunbroken, hdepth⟩ := hspans t ht
    exact ⟨_, ⟨rfl, hrest, hunbroken⟩, hdepth⟩
  have htags : ∀ t ∈ embedded, ∀ j, Json.parse? t 125 = some j → j.TagIsString := by
    intro t ht j hj tag htag
    simpa [hj, htag] using hstrings t ht
  obtain ⟨hfirst, hrest⟩ := List.cons.inj hsources
  obtain ⟨r, hr, hrsource⟩ := exists_ok_of_toOption hfirst
  obtain ⟨s, hs, hssource⟩ := exists_ok_of_toOption (List.cons.inj hrest).1
  obtain ⟨hparse, hsource⟩ :=
    (parse_allOf_iff_parse_each htexts htags).2 [r, s] (.cons hr (.cons hs .nil))
  refine ⟨htexts, htags, r, s, ?_, hparse, ?_⟩
  · simp [embedded, hr, hs]
  · rw [hsource, List.map_cons, List.map_cons, hrsource, hssource]
    exact congrArg Except.ok (by decide)

end Rule

end Eligibility
