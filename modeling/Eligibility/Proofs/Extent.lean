import Mathlib
import Eligibility.Proofs.Embedding
import Eligibility.Proofs.Fences

namespace Eligibility.Json

open Text (Stops isBlank)

/-- A text starts with a part that does not end in a blank. -/
structure Front (cs part rest : List Char) : Prop where
  text : cs = part ++ rest
  ends : Stops isBlank part.reverse

namespace Front

variable {cs part rest : List Char}

theorem nil (rest : List Char) : Front rest [] rest := ⟨rfl, by simp [Stops]⟩

theorem cons {c : Char} (hc : isBlank c = false) (h : Front cs part rest) :
    Front (c :: cs) (c :: part) rest where
  text := by rw [h.text, List.cons_append]
  ends := by
    rw [List.reverse_cons]
    exact stops_append h.ends fun _ => .cons hc []

theorem after (word : List Char) (hne : part ≠ []) (h : Front cs part rest) :
    Front (word ++ cs) (word ++ part) rest where
  text := by rw [h.text, List.append_assoc]
  ends := by
    rw [List.reverse_append]
    exact stops_append h.ends fun hnil => absurd (List.reverse_eq_nil_iff.mp hnil) hne

/-- A part and then a part of the rest are one part. -/
theorem append {mid part' : List Char} (h : Front cs part mid) (h' : Front mid part' rest) :
    Front cs (part ++ part') rest where
  text := by rw [h.text, h'.text, List.append_assoc]
  ends := by
    rw [List.reverse_append]
    exact stops_append h'.ends fun _ => h.ends

theorem starts {more : List Char} (h : Front cs part rest) (hmore : more <+: rest) :
    part ++ more <+: cs := by
  rw [h.text]
  exact (List.prefix_append_right_inj part).mpr hmore

end Front

/-- A reader takes a part off the front of a text, also when only some of the rest follows it. -/
def Takes {α : Type} (read : List Char → α) (result : List Char → α) (part rest : List Char) :
    Prop :=
  ∀ more, more <+: rest → read (part ++ more) = result more

/-- A reader that passes a mark and then reads on with another takes the mark and what that takes. -/
theorem takes_marked {α β : Type} {read : List Char → Option (β × List Char)}
    {inner : List Char → Option (α × List Char)} {f : α → β} {c : Char} {a : α}
    {r rest : List Char} (hc : isBlank c = false)
    (hread : ∀ r, read (c :: r) = (inner r).map fun found => (f found.1, found.2))
    (h : ∃ part, Front r part rest ∧ Takes inner (fun r => some (a, r)) part rest) :
    ∃ part, Front (c :: r) part rest ∧ Takes read (fun r => some (f a, r)) part rest := by
  obtain ⟨part, hfront, htakes⟩ := h
  refine ⟨c :: part, hfront.cons hc, fun more hmore => ?_⟩
  rw [List.cons_append, hread, htakes more hmore, Option.map_some]

theorem ne_cons_of_starts {cs part : List Char} {c : Char} (hpart : part <+: cs)
    (hcs : ∀ r, cs ≠ c :: r) (r : List Char) : part ≠ c :: r := by
  rintro rfl
  obtain ⟨more, rfl⟩ := hpart
  exact hcs (r ++ more) rfl

theorem not_blank_of_isDigit {c : Char} (h : c.isDigit = true) : isBlank c = false := by
  apply not_blank_of_identifierRest
  simp [isIdentifierRest, Char.isAlphanum, h]

namespace Letter

theorem ne_nil_of_readAll {cs : List Char} {found : List Letter × List Char}
    (h : readAll cs = some found) : cs ≠ [] := by
  rintro rfl
  cases h

/-- A string ends with its quote. -/
theorem front_of_readAll {cs rest : List Char} {ls : List Letter}
    (h : readAll cs = some (ls, rest)) :
    ∃ part, Front cs part rest ∧ readAll part = some (ls, []) := by
  fun_induction readAll cs generalizing ls rest with
  | case1 r =>
    cases h
    exact ⟨['"'], (Front.nil r).cons (by decide), rfl⟩
  | case2 a b c d r ih =>
    simp only [Option.bind_eq_bind, Option.bind_eq_some_iff, Prod.exists, Option.pure_def,
      Option.some.injEq, Prod.mk.injEq] at h
    obtain ⟨n, hn, ls, rest, hr, rfl, rfl⟩ := h
    obtain ⟨part, hfront, hpart⟩ := ih hr
    refine ⟨_, hfront.after ['\\', 'u', a, b, c, d] (ne_nil_of_readAll hpart), ?_⟩
    simp only [List.cons_append, List.nil_append, readAll, hn, hpart]
    rfl
  | case3 c r hcode ih =>
    simp only [Option.bind_eq_bind, Option.bind_eq_some_iff, Prod.exists, Option.pure_def,
      Option.some.injEq, Prod.mk.injEq] at h
    obtain ⟨e, he, ls, rest, hr, rfl, rfl⟩ := h
    obtain ⟨part, hfront, hpart⟩ := ih hr
    have hu : c ≠ 'u' := by
      rintro rfl
      cases he
    refine ⟨_, hfront.after ['\\', c] (ne_nil_of_readAll hpart), ?_⟩
    rw [List.cons_append, List.cons_append, List.nil_append, readAll_short hu he, hpart]
    rfl
  | case4 => cases h
  | case5 c r hquote _ _ hplain ih =>
    simp only [Option.bind_eq_bind, Option.bind_eq_some_iff, Prod.exists, Option.pure_def,
      Option.some.injEq, Prod.mk.injEq] at h
    obtain ⟨ls, rest, hr, rfl, rfl⟩ := h
    obtain ⟨part, hfront, hpart⟩ := ih hr
    rw [not_or] at hplain
    refine ⟨_, hfront.after [c] (ne_nil_of_readAll hpart), ?_⟩
    rw [List.singleton_append, readAll_plain hquote hplain.2 hplain.1, hpart]
    rfl
  | case6 => cases h

/-- A string is read alike, whatever follows it. -/
theorem readAll_takes {cs rest : List Char} {ls : List Letter} (h : readAll cs = some (ls, rest)) :
    ∃ part, Front cs part rest ∧ ∀ more, readAll (part ++ more) = some (ls, more) := by
  obtain ⟨part, hfront, hpart⟩ := front_of_readAll h
  refine ⟨part, hfront, fun more => ?_⟩
  exact readAll_append hpart more

end Letter

namespace Numeral

variable {cs rest : List Char}

theorem front_of_digits {ds : List Char} (hds : Digits ds) : Front (ds ++ rest) ds rest where
  text := rfl
  ends := by
    intro c hc
    exact not_blank_of_isDigit (hds.digits c (List.mem_reverse.mp (List.mem_of_mem_head? hc)))

/-- Digits are read alike when less text follows them. -/
theorem readDigits_takes {ds : List Char} (h : readDigits cs = some (ds, rest)) :
    Front cs ds rest ∧ Takes readDigits (fun r => some (ds, r)) ds rest := by
  obtain ⟨hds, rfl, hrest⟩ := readDigits_eq_some h
  exact ⟨front_of_digits hds, fun more hmore => readDigits_append hds (hrest.of_starts hmore)⟩

theorem readWhole_takes {ds : List Char} (h : readWhole cs = some (ds, rest)) :
    Front cs ds rest ∧ Takes readWhole (fun r => some (ds, r)) ds rest := by
  obtain ⟨⟨hds, rfl, hrest⟩, hleading⟩ := readWhole_eq_some h
  exact ⟨front_of_digits hds,
    fun more hmore => readWhole_append hds hleading (hrest.of_starts hmore)⟩

theorem readFraction_takes {fraction : Option (List Char)}
    (h : readFraction cs = some (fraction, rest)) :
    ∃ part, Front cs part rest ∧ Takes readFraction (fun r => some (fraction, r)) part rest := by
  unfold readFraction at h
  split at h
  · obtain ⟨⟨ds, r⟩, hread, ⟨⟩⟩ := Option.map_eq_some_iff.mp h
    exact takes_marked (by decide) (fun _ => rfl) ⟨ds, readDigits_takes hread⟩
  · rename_i hpoint
    cases h
    refine ⟨[], .nil cs, fun more hmore => ?_⟩
    rw [List.nil_append, readFraction]
    exact ne_cons_of_starts hmore hpoint

theorem readPower_takes {power : Bool × List Char} (h : readPower cs = some (power, rest)) :
    ∃ part, Front cs part rest ∧ Takes readPower (fun r => some (power, r)) part rest := by
  unfold readPower at h
  split at h
  · obtain ⟨⟨ds, r⟩, hread, ⟨⟩⟩ := Option.map_eq_some_iff.mp h
    exact takes_marked (by decide) (fun _ => rfl) ⟨ds, readDigits_takes hread⟩
  · obtain ⟨⟨ds, r⟩, hread, ⟨⟩⟩ := Option.map_eq_some_iff.mp h
    exact takes_marked (by decide) (fun _ => rfl) ⟨ds, readDigits_takes hread⟩
  · rename_i hminus hplus
    obtain ⟨⟨ds, r⟩, hread, ⟨⟩⟩ := Option.map_eq_some_iff.mp h
    obtain ⟨hfront, htakes⟩ := readDigits_takes hread
    refine ⟨ds, hfront, fun more hmore => ?_⟩
    rw [readPower, htakes more hmore]
    · rfl
    · exact ne_cons_of_starts (hfront.starts hmore) hminus
    · exact ne_cons_of_starts (hfront.starts hmore) hplus

theorem readExponent_takes {exponent : Option (Bool × List Char)}
    (h : readExponent cs = some (exponent, rest)) :
    ∃ part, Front cs part rest ∧ Takes readExponent (fun r => some (exponent, r)) part rest := by
  unfold readExponent at h
  split at h
  · obtain ⟨⟨power, r⟩, hread, ⟨⟩⟩ := Option.map_eq_some_iff.mp h
    exact takes_marked (by decide) (fun _ => rfl) (readPower_takes hread)
  · obtain ⟨⟨power, r⟩, hread, ⟨⟩⟩ := Option.map_eq_some_iff.mp h
    exact takes_marked (by decide) (fun _ => rfl) (readPower_takes hread)
  · rename_i hlower hupper
    cases h
    refine ⟨[], .nil cs, fun more hmore => ?_⟩
    rw [List.nil_append, readExponent]
    · exact ne_cons_of_starts hmore hlower
    · exact ne_cons_of_starts hmore hupper

/-- A numeral ends with a digit, and also where its text is cut off after it. -/
theorem read_takes {negative : Bool} {n : Numeral} (h : read negative cs = some (n, rest)) :
    ∃ part, Front cs part rest ∧ Takes (read negative) (fun r => some (n, r)) part rest := by
  simp only [read, Option.bind_eq_bind, Option.bind_eq_some_iff, Prod.exists, Option.pure_def,
    Option.some.injEq, Prod.mk.injEq] at h
  obtain ⟨whole, r₁, hwhole, fraction, r₂, hfraction, exponent, r₃, hexponent, rfl, rfl⟩ := h
  obtain ⟨hfront₁, htakes₁⟩ := readWhole_takes hwhole
  obtain ⟨part₂, hfront₂, htakes₂⟩ := readFraction_takes hfraction
  obtain ⟨part₃, hfront₃, htakes₃⟩ := readExponent_takes hexponent
  refine ⟨whole ++ (part₂ ++ part₃), hfront₁.append (hfront₂.append hfront₃), fun more hmore => ?_⟩
  have hmore₂ := hfront₃.starts hmore
  have hmore₁ := hfront₂.starts hmore₂
  rw [List.append_assoc, List.append_assoc]
  simp only [read, htakes₁ _ hmore₁, htakes₂ _ hmore₂, htakes₃ _ hmore, Option.bind_eq_bind,
    Option.bind_some, Option.pure_def]

end Numeral

namespace Draft

variable {cs rest : List Char}

/-- A value that is no container ends without a blank, and is read alike when less text follows. -/
theorem readAtom_takes {d : Draft} (h : readAtom cs = (d, rest)) (hd : d.isUnbroken = true) :
    ∃ part, Front cs part rest ∧ Takes readAtom (fun r => (d, r)) part rest := by
  unfold readAtom at h
  split at h
  · split at h
    · rename_i hletters
      cases h
      obtain ⟨part, hfront, hread⟩ := Letter.readAll_takes hletters
      refine ⟨'"' :: part, hfront.cons (by decide), fun more _ => ?_⟩
      rw [List.cons_append, readAtom, hread more]
    · cases h
      cases hd
  · cases h
    exact ⟨"null".toList, ⟨rfl, .cons rfl _⟩, fun _ _ => rfl⟩
  · cases h
    exact ⟨"true".toList, ⟨rfl, .cons rfl _⟩, fun _ _ => rfl⟩
  · cases h
    exact ⟨"false".toList, ⟨rfl, .cons rfl _⟩, fun _ _ => rfl⟩
  · obtain ⟨n, hn, rfl⟩ := ofNumeral_eq h hd
    obtain ⟨part, hfront, htakes⟩ := Numeral.read_takes hn
    refine ⟨'-' :: part, hfront.cons (by decide), fun more hmore => ?_⟩
    rw [List.cons_append, readAtom, htakes more hmore]
    rfl
  · obtain ⟨n, hn, rfl⟩ := ofNumeral_eq h hd
    obtain ⟨part, hfront, htakes⟩ := Numeral.read_takes hn
    refine ⟨part, hfront, fun more hmore => ?_⟩
    have hread := htakes more hmore
    obtain ⟨c, r, hc, hdigit⟩ := Numeral.exists_digit_of_read hread
    rw [hc] at hread ⊢
    rw [readAtom_digit hdigit, hread]
    rfl

def gap (cs : List Char) : List Char := cs.takeWhile isSpace

theorem gap_append (cs : List Char) : gap cs ++ skipSpace cs = cs :=
  List.takeWhile_append_dropWhile

theorem isSpace_of_mem_gap {c : Char} (h : c ∈ gap cs) : isSpace c = true :=
  List.mem_takeWhile_imp h

theorem skipSpace_gap_append (cs : List Char) {more : List Char} (h : Stops isSpace more) :
    skipSpace (gap cs ++ more) = more :=
  Text.dropWhile_append (fun _ => isSpace_of_mem_gap) h

theorem stops_skipSpace (cs : List Char) : Stops isSpace (skipSpace cs) :=
  Text.stops_dropWhile isSpace cs

theorem skipSpace_gap {c : Char} {r : List Char} (h : skipSpace cs = c :: r) (more : List Char) :
    skipSpace (gap cs ++ c :: more) = c :: more := by
  have hstops := stops_skipSpace cs
  rw [h] at hstops
  exact skipSpace_gap_append cs (.cons (hstops c rfl) more)

/-- White space and a mark in front of a part extend it to the front. -/
theorem front_of_skipSpace {c : Char} {r part : List Char} (h : skipSpace cs = c :: r)
    (hc : isBlank c = false) (hr : Front r part rest) : Front cs (gap cs ++ c :: part) rest where
  text := by rw [List.append_assoc, List.cons_append, ← hr.text, ← h, gap_append]
  ends := by
    rw [List.reverse_append, List.reverse_cons, List.append_assoc]
    exact stops_append hr.ends fun _ => .cons hc _

theorem skipSpace_starts {part : List Char} (h : part <+: cs) :
    skipSpace part <+: skipSpace cs := by
  obtain ⟨more, rfl⟩ := h
  unfold skipSpace
  rw [List.dropWhile_append]
  split
  · rename_i hnil
    rw [List.isEmpty_iff.mp hnil]
    exact List.nil_prefix
  · exact List.prefix_append _ more

theorem readMembers_skipSpace (fuel : Nat) (cs : List Char) :
    readMembers fuel (skipSpace cs) = readMembers fuel cs := by
  cases fuel with
  | zero => rfl
  | succ fuel => rw [readMembers, readMembers, skipSpace_skipSpace]

/-- What is read in so many steps without a break ends without a blank, and is read alike in a number
of steps that its length gives, also when less text follows. -/
structure Bounded (fuel : Nat) : Prop where
  value {cs rest : List Char} {d : Draft} (h : readValue fuel cs = (d, rest))
    (hd : d.isUnbroken = true) : ∃ part, Front cs part rest ∧
      ∀ fuel', 2 * part.length < fuel' → Takes (readValue fuel') (fun r => (d, r)) part rest
  items {cs rest : List Char} {ds : List Draft} (h : readItems fuel cs = (ds, true, rest))
    (hds : areUnbroken ds = true) : ∃ part, Front cs part rest ∧
      ∀ fuel', 2 * part.length < fuel' → Takes (readItems fuel') (fun r => (ds, true, r)) part rest
  members {cs rest : List Char} {ms : List (List Letter × Draft)}
    (h : readMembers fuel cs = (ms, true, rest)) (hms : membersUnbroken ms = true) :
    ∃ part, Front cs part rest ∧ ∀ fuel', 2 * part.length < fuel' →
      Takes (readMembers fuel') (fun r => (ms, true, r)) part rest

section Step

variable {fuel : Nat}

/-- A step at a value ends without a blank, if what is read in the steps after it does. -/
theorem Bounded.valueStep (ih : Bounded fuel) {d : Draft} (h : ValueStep fuel cs d rest)
    (hd : d.isUnbroken = true) : ∃ part, Front cs part rest ∧
      ∀ fuel', 2 * part.length ≤ fuel' → ∀ more, more <+: rest →
        ValueStep fuel' (part ++ more) d more := by
  cases h with
  | @emptyArray r _ hcs hr =>
    refine ⟨_, front_of_skipSpace hcs (by decide)
      (front_of_skipSpace hr (by decide) (.nil rest)), fun fuel' _ more _ => ?_⟩
    simp only [List.append_assoc, List.cons_append, List.nil_append]
    exact .emptyArray (skipSpace_gap hcs _) (skipSpace_gap hr more)
  | @array r _ ds closed hcs hr hds =>
    rw [isUnbroken, Bool.and_eq_true] at hd
    obtain ⟨rfl, hunbroken⟩ := hd
    rw [readItems_skipSpace] at hds
    obtain ⟨part, hfront, htakes⟩ := ih.items hds hunbroken
    refine ⟨_, front_of_skipSpace hcs (by decide) hfront, fun fuel' hfuel more hmore => ?_⟩
    simp only [List.length_append, List.length_cons] at hfuel
    rw [List.append_assoc, List.cons_append]
    refine .array (skipSpace_gap hcs _)
      (ne_cons_of_starts (skipSpace_starts (hfront.starts hmore)) hr) ?_
    rw [readItems_skipSpace]
    exact htakes fuel' (by omega) more hmore
  | @emptyObject r _ hcs hr =>
    refine ⟨_, front_of_skipSpace hcs (by decide)
      (front_of_skipSpace hr (by decide) (.nil rest)), fun fuel' _ more _ => ?_⟩
    simp only [List.append_assoc, List.cons_append, List.nil_append]
    exact .emptyObject (skipSpace_gap hcs _) (skipSpace_gap hr more)
  | @object r _ ms closed hcs hr hms =>
    rw [isUnbroken, Bool.and_eq_true] at hd
    obtain ⟨rfl, hunbroken⟩ := hd
    rw [readMembers_skipSpace] at hms
    obtain ⟨part, hfront, htakes⟩ := ih.members hms hunbroken
    refine ⟨_, front_of_skipSpace hcs (by decide) hfront, fun fuel' hfuel more hmore => ?_⟩
    simp only [List.length_append, List.length_cons] at hfuel
    rw [List.append_assoc, List.cons_append]
    refine .object (skipSpace_gap hcs _)
      (ne_cons_of_starts (skipSpace_starts (hfront.starts hmore)) hr) ?_
    rw [readMembers_skipSpace]
    exact htakes fuel' (by omega) more hmore
  | atom hbracket hbrace hatom =>
    obtain ⟨part, hfront, htakes⟩ := readAtom_takes hatom hd
    have hne : part ≠ [] := by
      rintro rfl
      have hnil := htakes [] List.nil_prefix
      cases hnil
      cases hd
    have hgap := hfront.after (gap cs) hne
    rw [gap_append] at hgap
    refine ⟨_, hgap, fun fuel' _ more hmore => ?_⟩
    have hstarts := hfront.starts hmore
    have hspace := skipSpace_gap_append cs ((stops_skipSpace cs).of_starts hstarts)
    rw [List.append_assoc]
    refine .atom ?_ ?_ ?_
    · rw [hspace]
      exact ne_cons_of_starts hstarts hbracket
    · rw [hspace]
      exact ne_cons_of_starts hstarts hbrace
    · rw [hspace]
      exact htakes more hmore

theorem Bounded.itemsStep (ih : Bounded fuel) {ds : List Draft} (h : ItemsStep fuel cs ds rest)
    (hds : areUnbroken ds = true) : ∃ part, Front cs part rest ∧
      ∀ fuel', 2 * part.length ≤ fuel' → ∀ more, more <+: rest →
        ItemsStep fuel' (part ++ more) ds more := by
  cases h with
  | @comma d ds r r' _ hd hr htail =>
    rw [areUnbroken, Bool.and_eq_true] at hds
    obtain ⟨part, hfront, htakes⟩ := ih.value hd hds.1
    obtain ⟨part', hfront', htakes'⟩ := ih.items htail hds.2
    have hcomma := front_of_skipSpace hr (by decide) hfront'
    refine ⟨_, hfront.append hcomma, fun fuel' hfuel more hmore => ?_⟩
    simp only [List.length_append, List.length_cons] at hfuel
    have hvalue := htakes fuel' (by omega) _ (hcomma.starts hmore)
    simp only [List.append_assoc, List.cons_append] at hvalue ⊢
    exact .comma hvalue (skipSpace_gap hr _) (htakes' fuel' (by omega) more hmore)
  | @bracket d r _ hd hr =>
    rw [areUnbroken, Bool.and_eq_true] at hds
    obtain ⟨part, hfront, htakes⟩ := ih.value hd hds.1
    have hbracket := front_of_skipSpace hr (by decide) (.nil rest)
    refine ⟨_, hfront.append hbracket, fun fuel' hfuel more hmore => ?_⟩
    simp only [List.length_append, List.length_cons] at hfuel
    have hvalue := htakes fuel' (by omega) _ (hbracket.starts hmore)
    simp only [List.append_assoc, List.cons_append, List.nil_append] at hvalue ⊢
    exact .bracket hvalue (skipSpace_gap hr more)

theorem Bounded.membersStep (ih : Bounded fuel) {ms : List (List Letter × Draft)}
    (h : MembersStep fuel cs ms rest) (hms : membersUnbroken ms = true) :
    ∃ part, Front cs part rest ∧ ∀ fuel', 2 * part.length ≤ fuel' → ∀ more, more <+: rest →
      MembersStep fuel' (part ++ more) ms more := by
  cases h with
  | @comma key d ms r₁ r₂ r₃ r₄ r₅ _ hcs hkey hcolon hd hr htail =>
    rw [membersUnbroken, Bool.and_eq_true] at hms
    obtain ⟨name, hname, hread⟩ := Letter.readAll_takes hkey
    obtain ⟨part, hfront, htakes⟩ := ih.value hd hms.1
    obtain ⟨part', hfront', htakes'⟩ := ih.members htail hms.2
    have hcomma := front_of_skipSpace hr (by decide) hfront'
    refine ⟨_, front_of_skipSpace hcs (by decide) (hname.append
      (front_of_skipSpace hcolon (by decide) (hfront.append hcomma))), fun fuel' hfuel more hmore => ?_⟩
    simp only [List.length_append, List.length_cons] at hfuel
    have hvalue := htakes fuel' (by omega) _ (hcomma.starts hmore)
    simp only [List.append_assoc, List.cons_append] at hvalue ⊢
    exact .comma (skipSpace_gap hcs _) (hread _) (skipSpace_gap hcolon _) hvalue (skipSpace_gap hr _)
      (htakes' fuel' (by omega) more hmore)
  | @brace key d r₁ r₂ r₃ r₄ _ hcs hkey hcolon hd hr =>
    rw [membersUnbroken, Bool.and_eq_true] at hms
    obtain ⟨name, hname, hread⟩ := Letter.readAll_takes hkey
    obtain ⟨part, hfront, htakes⟩ := ih.value hd hms.1
    have hbrace := front_of_skipSpace hr (by decide) (.nil rest)
    refine ⟨_, front_of_skipSpace hcs (by decide) (hname.append
      (front_of_skipSpace hcolon (by decide) (hfront.append hbrace))), fun fuel' hfuel more hmore => ?_⟩
    simp only [List.length_append, List.length_cons] at hfuel
    have hvalue := htakes fuel' (by omega) _ (hbrace.starts hmore)
    simp only [List.append_assoc, List.cons_append, List.nil_append] at hvalue ⊢
    exact .brace (skipSpace_gap hcs _) (hread _) (skipSpace_gap hcolon _) hvalue
      (skipSpace_gap hr more)

end Step

/-- Reading takes a part of the text of its own. -/
theorem isBounded (fuel : Nat) : Bounded fuel := by
  induction fuel with
  | zero =>
    constructor
    · intro cs rest d h hd
      cases h
      cases hd
    · intro cs rest ds h
      cases h
    · intro cs rest ms h
      cases h
  | succ fuel ih =>
    constructor
    · intro cs rest d h hd
      obtain ⟨part, hfront, hstep⟩ := ih.valueStep (readValue_iff.mp h) hd
      refine ⟨part, hfront, fun fuel' hfuel more hmore => ?_⟩
      obtain ⟨fuel', rfl⟩ := Nat.exists_eq_add_of_le' (Nat.one_le_of_lt hfuel)
      exact readValue_iff.mpr (hstep fuel' (Nat.le_of_lt_succ hfuel) more hmore)
    · intro cs rest ds h hds
      obtain ⟨part, hfront, hstep⟩ := ih.itemsStep (readItems_iff.mp h) hds
      refine ⟨part, hfront, fun fuel' hfuel more hmore => ?_⟩
      obtain ⟨fuel', rfl⟩ := Nat.exists_eq_add_of_le' (Nat.one_le_of_lt hfuel)
      exact readItems_iff.mpr (hstep fuel' (Nat.le_of_lt_succ hfuel) more hmore)
    · intro cs rest ms h hms
      obtain ⟨part, hfront, hstep⟩ := ih.membersStep (readMembers_iff.mp h) hms
      refine ⟨part, hfront, fun fuel' hfuel more hmore => ?_⟩
      obtain ⟨fuel', rfl⟩ := Nat.exists_eq_add_of_le' (Nat.one_le_of_lt hfuel)
      exact readMembers_iff.mpr (hstep fuel' (Nat.le_of_lt_succ hfuel) more hmore)

/-- A value does not start with a blank. -/
theorem readAtom_starts {d : Draft} (h : readAtom cs = (d, rest)) (hd : d.isUnbroken = true) :
    Stops isBlank cs := by
  unfold readAtom at h
  split at h
  · exact .cons (by decide) _
  · exact .cons (by decide) _
  · exact .cons (by decide) _
  · exact .cons (by decide) _
  · exact .cons (by decide) _
  · obtain ⟨n, hn, rfl⟩ := ofNumeral_eq h hd
    obtain ⟨c, r, rfl, hc⟩ := Numeral.exists_digit_of_read hn
    exact .cons (not_blank_of_isDigit hc) r

/-- No value starts with a blank, of any kind. -/
theorem readValue_starts {fuel : Nat} {d : Draft} (h : readValue fuel cs = (d, rest))
    (hd : d.isUnbroken = true) : Stops isBlank (skipSpace cs) := by
  cases fuel with
  | zero =>
    cases h
    cases hd
  | succ fuel =>
    cases readValue_iff.mp h with
    | emptyArray hcs hr =>
      rw [hcs]
      exact .cons (by decide) _
    | array hcs hr hds =>
      rw [hcs]
      exact .cons (by decide) _
    | emptyObject hcs hr =>
      rw [hcs]
      exact .cons (by decide) _
    | object hcs hr hms =>
      rw [hcs]
      exact .cons (by decide) _
    | atom hbracket hbrace hatom => exact readAtom_starts hatom hd

theorem isBlank_of_isSpace {c : Char} (h : isSpace c = true) : isBlank c = true := by
  simp only [isSpace, Bool.or_eq_true, beq_iff_eq] at h
  rcases h with ((rfl | rfl) | rfl) | rfl <;> decide

/-- A document without the blanks around it is the same document. -/
theorem Spans.trim {d : Draft} (h : Spans cs d) : Spans (Text.trim cs) d := by
  obtain ⟨rfl, hrest, hunbroken⟩ := h
  have hread : readValue (2 * cs.length + 2) (skipSpace cs) = ((read cs).1, (read cs).2) :=
    readValue_skipSpace _ cs
  obtain ⟨part, hfront, htakes⟩ := (isBounded _).value hread hunbroken
  have hstarts := readValue_starts hread hunbroken
  rw [skipSpace_skipSpace] at hstarts
  have htrimmed : Text.Trimmed part :=
    ⟨hstarts.of_starts ⟨_, hfront.text.symm⟩, hfront.ends⟩
  have htrim : Text.trim cs = part := by
    calc Text.trim cs
        = Text.trim (gap cs ++ part ++ (read cs).2) := by
          rw [List.append_assoc, ← hfront.text, gap_append]
      _ = part := by
          refine Text.trim_append ?_ htrimmed ?_
          · exact fun c hc => isBlank_of_isSpace (isSpace_of_mem_gap hc)
          · exact fun c hc => isBlank_of_isSpace (List.dropWhile_eq_nil_iff.mp hrest c hc)
  have hpart : read part = ((read cs).1, []) := by
    have := htakes (2 * part.length + 2) (by omega) [] List.nil_prefix
    rwa [List.append_nil] at this
  rw [htrim]
  refine ⟨?_, ?_, hunbroken⟩
  · rw [hpart]
  · rw [hpart]
    rfl

end Draft

end Eligibility.Json
