import Mathlib
import Eligibility.Proofs.NumeralText
import Eligibility.Proofs.StringText

namespace Eligibility

namespace Json

def Number.Readable (m : Number) : Prop :=
  ∃ n : Numeral, n.WellFormed ∧
    renderNumber m = (if n.negative then '-' :: n.text else n.text) ∧ n.value? = some m

/-- All numbers of a document are readable. -/
inductive Readable : Json → Prop where
  | null : Readable .null
  | bool (b : Bool) : Readable (.bool b)
  | number {m : Number} (h : m.Readable) : Readable (.number m)
  | string (s : String) : Readable (.string s)
  | array {items : List Json} (h : ∀ j ∈ items, Readable j) : Readable (.array items)
  | object {members : List (String × Json)} (h : ∀ m ∈ members, Readable m.2) :
      Readable (.object members)

mutual
def draft : Json → Draft
  | .null => .null
  | .bool b => .bool b
  | .number m => (Draft.readValue 1 (renderNumber m)).1
  | .string s => .string (letters s)
  | .array items => .array (draftItems items) true
  | .object members => .object (draftMembers members) true
def draftItems : List Json → List Draft
  | [] => []
  | j :: js => draft j :: draftItems js
def draftMembers : List (String × Json) → List (List Letter × Draft)
  | [] => []
  | (k, j) :: ms => (letters k, draft j) :: draftMembers ms
end

namespace Draft

theorem skipSpace_cons {c : Char} (h : isSpace c = false) (cs : List Char) :
    skipSpace (c :: cs) = c :: cs := by
  simp [skipSpace, h]

theorem readValue_atom (fuel : Nat) {c : Char} {cs : List Char} (hspace : isSpace c = false)
    (hbracket : c ≠ '[') (hbrace : c ≠ '\x7b') :
    readValue (fuel + 1) (c :: cs) = readAtom (c :: cs) := by
  rw [readValue, skipSpace_cons hspace]
  split
  · rename_i he
    exact absurd (List.cons.inj he).1 hbracket
  · rename_i he
    exact absurd (List.cons.inj he).1 hbrace
  · rfl

theorem readAtom_digit {c : Char} {cs : List Char} (hc : c.isDigit = true) :
    readAtom (c :: cs) = ofNumeral (Numeral.read false (c :: cs)) := by
  have hne : ∀ d : Char, d.isDigit = false → c ≠ d := by
    rintro d hd rfl
    rw [hc] at hd
    cases hd
  rw [readAtom]
  · exact fun _ he => hne '"' rfl (List.cons.inj he).1
  · exact fun _ he => hne 'n' rfl (List.cons.inj he).1
  · exact fun _ he => hne 't' rfl (List.cons.inj he).1
  · exact fun _ he => hne 'f' rfl (List.cons.inj he).1
  · exact fun _ he => hne '-' rfl (List.cons.inj he).1

theorem isSpace_of_isDigit {c : Char} (hc : c.isDigit = true) : isSpace c = false := by
  by_contra hspace
  simp only [isSpace, Bool.not_eq_false, Bool.or_eq_true, beq_iff_eq] at hspace
  rcases hspace with ((rfl | rfl) | rfl) | rfl <;> cases hc

/-- A numeral with its sign is read up to its end. -/
theorem readValue_numeral (fuel : Nat) {n : Numeral} (hn : n.WellFormed) {rest : List Char}
    (hrest : MayFollow rest) :
    readValue (fuel + 1) ((if n.negative then '-' :: n.text else n.text) ++ rest) =
      (.number n, rest) := by
  have hread := Numeral.read_text hn hrest
  cases hnegative : n.negative with
  | true =>
    rw [hnegative] at hread
    rw [if_pos rfl, List.cons_append, readValue_atom fuel rfl (by decide) (by decide), readAtom,
      hread, ofNumeral]
  | false =>
    rw [hnegative] at hread
    obtain ⟨c, cs, hwhole⟩ := List.exists_cons_of_ne_nil hn.whole.ne_nil
    have hc : c.isDigit = true := hn.whole.digits c (by simp [hwhole])
    have htext : n.text ++ rest = c :: (cs ++ (Numeral.fractionText n.fraction ++
        Numeral.exponentText n.exponent) ++ rest) := by
      simp [Numeral.text, hwhole]
    have hbracket : c ≠ '[' := by
      rintro rfl
      cases hc
    have hbrace : c ≠ '\x7b' := by
      rintro rfl
      cases hc
    rw [if_neg (by decide), htext, readValue_atom fuel (isSpace_of_isDigit hc) hbracket hbrace,
      readAtom_digit hc, ← htext, hread, ofNumeral]

theorem readValue_bracket {fuel : Nat} {c : Char} {cs rest : List Char} {ds : List Draft}
    {closed : Bool} (hspace : isSpace c = false) (hbracket : c ≠ ']')
    (hread : readItems fuel (c :: cs) = (ds, closed, rest)) :
    readValue (fuel + 1) ('[' :: c :: cs) = (.array ds closed, rest) := by
  rw [readValue, skipSpace_cons (c := '[') rfl]
  simp only [skipSpace_cons hspace]
  split
  · rename_i he
    exact absurd (List.cons.inj he).1 hbracket
  · rw [hread]

theorem readValue_brace {fuel : Nat} {c : Char} {cs rest : List Char}
    {ms : List (List Letter × Draft)} {closed : Bool} (hspace : isSpace c = false)
    (hbrace : c ≠ '\x7d') (hread : readMembers fuel (c :: cs) = (ms, closed, rest)) :
    readValue (fuel + 1) ('\x7b' :: c :: cs) = (.object ms closed, rest) := by
  rw [readValue, skipSpace_cons (c := '\x7b') rfl]
  simp only [skipSpace_cons hspace]
  split
  · rename_i he
    exact absurd (List.cons.inj he).1 hbrace
  · rw [hread]

end Draft

/-- The text of a number is read as the numeral that it is. -/
theorem draft_number {m : Number} {n : Numeral} (hn : n.WellFormed)
    (htext : renderNumber m = if n.negative then '-' :: n.text else n.text) :
    (Json.number m).draft = .number n := by
  have hread := Draft.readValue_numeral 0 hn .nil
  rw [List.append_nil] at hread
  rw [draft, htext, hread]

/-- A value starts neither with a blank nor with a closing bracket. -/
theorem Readable.head {j : Json} (h : j.Readable) :
    ∃ c cs, j.renderChars = c :: cs ∧ Draft.isSpace c = false ∧ c ≠ ']' := by
  cases h with
  | null => exact ⟨_, _, rfl, rfl, by decide⟩
  | bool b => cases b <;> exact ⟨_, _, rfl, rfl, by decide⟩
  | string s => exact ⟨_, _, rfl, rfl, by decide⟩
  | array => exact ⟨_, _, rfl, rfl, by decide⟩
  | object => exact ⟨_, _, rfl, rfl, by decide⟩
  | number h =>
    obtain ⟨n, hn, htext, -⟩ := h
    rw [renderChars, htext]
    cases n.negative with
    | true => exact ⟨_, _, rfl, rfl, by decide⟩
    | false =>
      obtain ⟨c, cs, hwhole⟩ := List.exists_cons_of_ne_nil hn.whole.ne_nil
      have hc : c.isDigit = true := hn.whole.digits c (by simp [hwhole])
      refine ⟨c, cs ++ (Numeral.fractionText n.fraction ++ Numeral.exponentText n.exponent), ?_,
        Draft.isSpace_of_isDigit hc, ?_⟩
      · simp [Numeral.text, hwhole]
      · rintro rfl
        cases hc

theorem Readable.renderChars_ne_nil {j : Json} (h : j.Readable) : j.renderChars ≠ [] := by
  obtain ⟨c, cs, hhead, -⟩ := h.head
  rw [hhead]
  exact List.cons_ne_nil c cs

/-- Reading the text of a document gives its draft and leaves what follows it. Two steps for each
character are enough. -/
def ReadsDraft (j : Json) : Prop :=
  ∀ fuel rest, 2 * j.renderChars.length ≤ fuel + 1 → MayFollow rest →
    Draft.readValue fuel (j.renderChars ++ rest) = (j.draft, rest)

theorem Readable.exists_fuel {j : Json} (h : j.Readable) {fuel : Nat}
    (hfuel : 2 * j.renderChars.length ≤ fuel + 1) : ∃ n, fuel = n + 1 := by
  have hpos := List.length_pos_iff.mpr h.renderChars_ne_nil
  exact ⟨fuel - 1, by omega⟩

theorem renderItems_cons_cons (j k : Json) (js : List Json) :
    renderItems (j :: k :: js) = j.renderChars ++ ',' :: renderItems (k :: js) := by
  rw [renderItems]
  simp

/-- A list of items starts with neither white space nor the closing bracket. -/
theorem renderItems_head {j : Json} (h : j.Readable) (js : List Json) :
    ∃ c cs, renderItems (j :: js) = c :: cs ∧ Draft.isSpace c = false ∧ c ≠ ']' := by
  obtain ⟨c, cs, hhead, hc⟩ := h.head
  cases js with
  | nil => exact ⟨c, cs, hhead, hc⟩
  | cons k js =>
    rw [renderItems_cons_cons, hhead]
    exact ⟨c, _, rfl, hc⟩

theorem renderMembers_cons_cons (key : String) (j : Json) (m : String × Json)
    (ms : List (String × Json)) :
    renderMembers ((key, j) :: m :: ms) =
      renderString key ++ ':' :: (j.renderChars ++ ',' :: renderMembers (m :: ms)) := by
  rw [renderMembers]
  · simp
  · simp

theorem renderMembers_head (m : String × Json) (ms : List (String × Json)) :
    ∃ cs, renderMembers (m :: ms) = '"' :: cs := by
  cases ms with
  | nil => exact ⟨_, rfl⟩
  | cons n ms =>
    rw [renderMembers_cons_cons]
    exact ⟨_, rfl⟩

/-- Items are read one after the other up to the bracket that closes them. -/
theorem readItems_renderItems {items : List Json} (hne : items ≠ [])
    (hitems : ∀ j ∈ items, j.ReadsDraft ∧ j.renderChars ≠ []) {fuel : Nat}
    (hfuel : 2 * (renderItems items).length ≤ fuel) (rest : List Char) :
    Draft.readItems fuel (renderItems items ++ ']' :: rest) = (draftItems items, true, rest) := by
  induction items generalizing fuel with
  | nil => exact absurd rfl hne
  | cons j js ih =>
    obtain ⟨hread, hj⟩ := hitems j (by simp)
    have hpos : 0 < j.renderChars.length := List.length_pos_iff.mpr hj
    cases js with
    | nil =>
      rw [renderItems] at hfuel ⊢
      obtain ⟨fuel, rfl⟩ := Nat.exists_eq_add_of_lt (show 0 < fuel by omega)
      rw [Nat.zero_add, Draft.readItems, hread fuel _ (by omega) (.bracket rest)]
      rfl
    | cons k js =>
      rw [renderItems_cons_cons, List.length_append, List.length_cons] at hfuel
      obtain ⟨fuel, rfl⟩ := Nat.exists_eq_add_of_lt (show 0 < fuel by omega)
      have htail := ih (by simp) (fun l hl => hitems l (List.mem_cons_of_mem _ hl))
        (show _ ≤ fuel by omega)
      rw [renderItems_cons_cons, List.append_assoc, List.cons_append, Nat.zero_add, Draft.readItems,
        hread fuel _ (by omega) (.comma _)]
      simp only [Draft.skipSpace_cons (c := ',') rfl, htail, draftItems]

/-- Members are read one after the other up to the brace that closes them. -/
theorem readMembers_renderMembers {members : List (String × Json)} (hne : members ≠ [])
    (hmembers : ∀ m ∈ members, m.2.ReadsDraft) {fuel : Nat}
    (hfuel : 2 * (renderMembers members).length ≤ fuel) (rest : List Char) :
    Draft.readMembers fuel (renderMembers members ++ '\x7d' :: rest) =
      (draftMembers members, true, rest) := by
  induction members generalizing fuel with
  | nil => exact absurd rfl hne
  | cons m ms ih =>
    obtain ⟨key, j⟩ := m
    have hread : j.ReadsDraft := hmembers (key, j) (by simp)
    cases ms with
    | nil =>
      rw [renderMembers, List.length_append, List.length_cons] at hfuel
      obtain ⟨fuel, rfl⟩ := Nat.exists_eq_add_of_lt (show 0 < fuel by omega)
      obtain ⟨r, hr, hkey⟩ := readAll_renderString key (':' :: (j.renderChars ++ '\x7d' :: rest))
      rw [renderMembers, List.append_assoc, List.cons_append, hr, Nat.zero_add, Draft.readMembers]
      simp only [Draft.skipSpace_cons (c := '"') rfl, hkey, Draft.skipSpace_cons (c := ':') rfl,
        hread fuel _ (by omega) (.brace rest), Draft.skipSpace_cons (c := '\x7d') rfl,
        draftMembers]
    | cons m ms =>
      rw [renderMembers_cons_cons, List.length_append, List.length_cons, List.length_append,
        List.length_cons] at hfuel
      obtain ⟨fuel, rfl⟩ := Nat.exists_eq_add_of_lt (show 0 < fuel by omega)
      have htail := ih (by simp) (fun l hl => hmembers l (List.mem_cons_of_mem _ hl))
        (show _ ≤ fuel by omega)
      obtain ⟨r, hr, hkey⟩ := readAll_renderString key
        (':' :: (j.renderChars ++ ',' :: (renderMembers (m :: ms) ++ '\x7d' :: rest)))
      rw [renderMembers_cons_cons, List.append_assoc, List.cons_append, List.append_assoc,
        List.cons_append, hr, Nat.zero_add, Draft.readMembers]
      simp only [Draft.skipSpace_cons (c := '"') rfl, hkey, Draft.skipSpace_cons (c := ':') rfl,
        hread fuel _ (by omega) (.comma _), Draft.skipSpace_cons (c := ',') rfl, htail]
      rfl

theorem readsDraft_array {items : List Json}
    (hitems : ∀ j ∈ items, j.Readable ∧ j.ReadsDraft) : (Json.array items).ReadsDraft := by
  intro fuel rest hfuel hrest
  obtain ⟨fuel, rfl⟩ := (Readable.array fun j hj => (hitems j hj).1).exists_fuel hfuel
  have htext : (Json.array items).renderChars ++ rest =
      '[' :: (renderItems items ++ ']' :: rest) := by
    simp [renderChars]
  rw [htext]
  cases items with
  | nil => rfl
  | cons j js =>
    simp only [renderChars, List.length_append, List.length_cons, List.length_nil] at hfuel
    obtain ⟨c, cs, hhead, hspace, hbracket⟩ := renderItems_head (hitems j (by simp)).1 js
    have hread := readItems_renderItems (List.cons_ne_nil j js)
      (fun k hk => ⟨(hitems k hk).2, (hitems k hk).1.renderChars_ne_nil⟩)
      (show _ ≤ fuel by omega) rest
    rw [hhead, List.cons_append] at hread ⊢
    exact Draft.readValue_bracket hspace hbracket hread

theorem readsDraft_object {members : List (String × Json)}
    (hmembers : ∀ m ∈ members, m.2.Readable ∧ m.2.ReadsDraft) :
    (Json.object members).ReadsDraft := by
  intro fuel rest hfuel hrest
  obtain ⟨fuel, rfl⟩ := (Readable.object fun m hm => (hmembers m hm).1).exists_fuel hfuel
  have htext : (Json.object members).renderChars ++ rest =
      '\x7b' :: (renderMembers members ++ '\x7d' :: rest) := by
    simp [renderChars]
  rw [htext]
  cases members with
  | nil => rfl
  | cons m ms =>
    simp only [renderChars, List.length_append, List.length_cons, List.length_nil] at hfuel
    obtain ⟨cs, hhead⟩ := renderMembers_head m ms
    have hread := readMembers_renderMembers (List.cons_ne_nil m ms)
      (fun k hk => (hmembers k hk).2) (show _ ≤ fuel by omega) rest
    rw [hhead, List.cons_append] at hread ⊢
    exact Draft.readValue_brace rfl (by decide) hread

/-- The text of a document is read as its draft, whatever follows it. -/
theorem Readable.readsDraft {j : Json} (h : j.Readable) : j.ReadsDraft := by
  induction h with
  | null =>
    intro fuel rest hfuel hrest
    obtain ⟨fuel, rfl⟩ := Readable.null.exists_fuel hfuel
    rfl
  | bool b =>
    intro fuel rest hfuel hrest
    obtain ⟨fuel, rfl⟩ := (Readable.bool b).exists_fuel hfuel
    cases b <;> rfl
  | string s =>
    intro fuel rest hfuel hrest
    obtain ⟨fuel, rfl⟩ := (Readable.string s).exists_fuel hfuel
    obtain ⟨r, hr, hread⟩ := readAll_renderString s rest
    rw [renderChars, hr, Draft.readValue_atom fuel rfl (by decide) (by decide), Draft.readAtom,
      hread]
    rfl
  | number h =>
    intro fuel rest hfuel hrest
    obtain ⟨fuel, rfl⟩ := (Readable.number h).exists_fuel hfuel
    obtain ⟨n, hn, htext, -⟩ := h
    rw [renderChars, htext, Draft.readValue_numeral fuel hn hrest, draft_number hn htext]
  | array h ih => exact readsDraft_array fun j hj => ⟨h j hj, ih j hj⟩
  | object h ih => exact readsDraft_object fun m hm => ⟨h m hm, ih m hm⟩

/-- The draft of a rendered document, with nothing left. -/
theorem Readable.read_render {j : Json} (h : j.Readable) :
    Draft.read j.render.toList = (j.draft, []) := by
  have hread := h.readsDraft (2 * j.renderChars.length + 2) [] (by omega) .nil
  rw [List.append_nil] at hread
  rw [Draft.read, render, String.toList_ofList, hread]

/-- The drafts of items settle into the items, if each has room. -/
theorem settleItems?_draftItems {items : List Json} {room : Nat}
    (h : ∀ j ∈ items, j.draft.settle? room = some j) :
    Draft.settleItems? (draftItems items) room = some items := by
  induction items with
  | nil => rfl
  | cons j js ih =>
    rw [draftItems, Draft.settleItems?, h j (by simp),
      ih fun k hk => h k (List.mem_cons_of_mem _ hk)]
    rfl

theorem settleMembers?_draftMembers {members : List (String × Json)} {room : Nat}
    (h : ∀ m ∈ members, m.2.draft.settle? room = some m.2) :
    Draft.settleMembers? (draftMembers members) room = some members := by
  induction members with
  | nil => rfl
  | cons m ms ih =>
    obtain ⟨key, j⟩ := m
    rw [draftMembers, Draft.settleMembers?, text?_letters, h (key, j) (by simp),
      ih fun k hk => h k (List.mem_cons_of_mem _ hk)]
    rfl

theorem depth_le_depthItems {items : List Json} {j : Json} (h : j ∈ items) :
    j.depth ≤ depthItems items := by
  induction items with
  | nil => cases h
  | cons k ks ih =>
    rw [depthItems]
    rcases List.mem_cons.mp h with rfl | h
    · exact Nat.le_max_left _ _
    · exact (ih h).trans (Nat.le_max_right _ _)

theorem depth_le_depthMembers {members : List (String × Json)} {m : String × Json}
    (h : m ∈ members) : m.2.depth ≤ depthMembers members := by
  induction members with
  | nil => cases h
  | cons n ns ih =>
    obtain ⟨key, j⟩ := n
    rw [depthMembers]
    rcases List.mem_cons.mp h with rfl | h
    · exact Nat.le_max_left _ _
    · exact (ih h).trans (Nat.le_max_right _ _)

/-- A document settles wherever there is room for its containers. -/
theorem Readable.settle?_draft {j : Json} (h : j.Readable) {room : Nat} (hroom : j.depth ≤ room) :
    j.draft.settle? room = some j := by
  induction h generalizing room with
  | null => rfl
  | bool b => rfl
  | string s => rw [draft, Draft.settle?, text?_letters, Option.map_some]
  | number h =>
    obtain ⟨n, hn, htext, hvalue⟩ := h
    rw [draft_number hn htext, Draft.settle?, hvalue, Option.map_some]
  | array h ih =>
    rw [depth] at hroom
    obtain ⟨room, rfl⟩ := Nat.exists_eq_add_of_le' (show 1 ≤ room by omega)
    rw [draft, Draft.settle?, settleItems?_draftItems, Option.map_some]
    exact fun j hj => ih j hj ((depth_le_depthItems hj).trans (Nat.le_of_succ_le_succ hroom))
  | object h ih =>
    rw [depth] at hroom
    obtain ⟨room, rfl⟩ := Nat.exists_eq_add_of_le' (show 1 ≤ room by omega)
    rw [draft, Draft.settle?, settleMembers?_draftMembers, Option.map_some]
    exact fun m hm => ih m hm ((depth_le_depthMembers hm).trans (Nat.le_of_succ_le_succ hroom))

end Json

def Double.readBack? (x : Double) : Option Double :=
  match Json.parse? (Json.number (.real x)).render 0 with
  | some (.number (.real y)) => some y
  | _ => none

/-- Reading the text of a number gives that number. -/
def Double.ReadsBack (x : Double) : Prop := x.readBack? = some x

instance (x : Double) : Decidable x.ReadsBack := inferInstanceAs (Decidable (_ = _))

/-- A finite number that reads back from its text is readable. -/
theorem Double.ReadsBack.readable {x : Double} (h : x.ReadsBack) (hx : x.isFinite = true) :
    (Json.Number.real x).Readable := by
  obtain ⟨n, hn, htext⟩ := Json.renderNumber_eq_text hx
  refine ⟨n, hn, htext, ?_⟩
  have hread := Json.Draft.readValue_numeral
    (2 * (Json.renderNumber (.real x)).length + 1) hn .nil
  rw [List.append_nil, ← htext] at hread
  have hparse : Json.parse? (Json.number (.real x)).render 0 = n.value?.map .number := by
    rw [Json.parse?, Json.render, String.toList_ofList, Json.Draft.read, Json.renderChars, hread]
    rfl
  rw [ReadsBack, readBack?, hparse] at h
  cases hvalue : n.value? with
  | none => simp [hvalue] at h
  | some m =>
    cases m with
    | integer i => simp [hvalue] at h
    | real y =>
      simp only [hvalue, Option.map_some, Option.some.injEq] at h
      rw [h]

end Eligibility
