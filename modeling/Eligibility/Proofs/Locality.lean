import Mathlib
import Eligibility.Proofs.DocumentText

namespace Eligibility.Json

open Text (Stops)

theorem stops_append {p : Char → Bool} {rest more : List Char} (hrest : Stops p rest)
    (hmore : rest = [] → Stops p more) : Stops p (rest ++ more) := by
  cases rest with
  | nil => exact hmore rfl
  | cons c rest => exact Stops.cons (hrest c rfl) _

theorem append_ne_cons {cs : List Char} (hne : cs ≠ []) {c : Char} (hcs : ∀ r, cs ≠ c :: r)
    (more r : List Char) : cs ++ more ≠ c :: r := by
  obtain ⟨d, cs, rfl⟩ := List.exists_cons_of_ne_nil hne
  intro h
  cases h
  exact hcs cs rfl

namespace Letter

/-- The contents of a string end at the closing quote, whatever follows it. -/
theorem readAll_append {cs rest : List Char} {ls : List Letter}
    (h : readAll cs = some (ls, rest)) (more : List Char) :
    readAll (cs ++ more) = some (ls, rest ++ more) := by
  fun_induction readAll cs generalizing ls rest with
  | case1 r =>
    cases h
    rfl
  | case2 a b c d r ih =>
    simp only [Option.bind_eq_bind, Option.bind_eq_some_iff, Prod.exists, Option.pure_def,
      Option.some.injEq, Prod.mk.injEq] at h
    obtain ⟨n, hn, ls, rest, hr, rfl, rfl⟩ := h
    simp only [List.cons_append, readAll, hn, ih hr]
    rfl
  | case3 c r hcode ih =>
    simp only [Option.bind_eq_bind, Option.bind_eq_some_iff, Prod.exists, Option.pure_def,
      Option.some.injEq, Prod.mk.injEq] at h
    obtain ⟨e, he, ls, rest, hr, rfl, rfl⟩ := h
    have hu : c ≠ 'u' := by
      rintro rfl
      cases he
    rw [List.cons_append, List.cons_append, readAll_short hu he, ih hr]
    rfl
  | case4 => cases h
  | case5 c r hquote _ _ hplain ih =>
    simp only [Option.bind_eq_bind, Option.bind_eq_some_iff, Prod.exists, Option.pure_def,
      Option.some.injEq, Prod.mk.injEq] at h
    obtain ⟨ls, rest, hr, rfl, rfl⟩ := h
    rw [not_or] at hplain
    rw [List.cons_append, readAll_plain hquote hplain.2 hplain.1, ih hr]
    rfl
  | case6 => cases h

end Letter

namespace Numeral

theorem stops_isDigit {rest more : List Char} (hrest : Stops Char.isDigit rest)
    (hmore : rest = [] → MayFollow more) : Stops Char.isDigit (rest ++ more) := by
  apply stops_append hrest
  intro hnil
  exact (hmore hnil).head (by decide)

/-- The digits that are read stand in front, and no digit follows them. -/
theorem readDigits_eq_some {cs ds rest : List Char} (h : readDigits cs = some (ds, rest)) :
    Digits ds ∧ cs = ds ++ rest ∧ Stops Char.isDigit rest := by
  unfold readDigits at h
  split at h
  · cases h
  · rename_i hne
    cases h
    exact ⟨⟨hne, fun c hc => List.mem_takeWhile_imp hc⟩, List.takeWhile_append_dropWhile.symm,
      Text.stops_dropWhile Char.isDigit cs⟩

variable {cs rest more : List Char}

/-- A mark that a text does not start with does not come from what may follow the text either. -/
theorem append_ne_mark {c : Char} (hcs : ∀ r, cs ≠ c :: r) (hmore : cs = [] → MayFollow more)
    (hc : c ≠ ',' ∧ c ≠ ']' ∧ c ≠ '\x7d') (r : List Char) : cs ++ more ≠ c :: r := by
  cases cs with
  | nil =>
    rintro rfl
    cases hmore rfl with
    | comma => exact hc.1 rfl
    | bracket => exact hc.2.1 rfl
    | brace => exact hc.2.2 rfl
  | cons d cs => exact append_ne_cons (List.cons_ne_nil d cs) hcs more r

theorem readDigits_more {ds : List Char} (h : readDigits cs = some (ds, rest))
    (hmore : rest = [] → MayFollow more) : readDigits (cs ++ more) = some (ds, rest ++ more) := by
  obtain ⟨hds, rfl, hrest⟩ := readDigits_eq_some h
  rw [List.append_assoc]
  exact readDigits_append hds (stops_isDigit hrest hmore)

theorem readWhole_eq_some {ds : List Char} (h : readWhole cs = some (ds, rest)) :
    (Digits ds ∧ cs = ds ++ rest ∧ Stops Char.isDigit rest) ∧
      (ds = ['0'] ∨ ds.head? ≠ some '0') := by
  unfold readWhole at h
  split at h
  · split at h
    · cases h
    · rename_i hdigit
      cases h
      refine ⟨⟨.zero, rfl, ?_⟩, .inl rfl⟩
      intro c hc
      simpa [Option.mem_def.mp hc] using hdigit
  · rename_i hzero
    obtain ⟨hds, rfl, hrest⟩ := readDigits_eq_some h
    refine ⟨⟨hds, rfl, hrest⟩, .inr ?_⟩
    intro hhead
    obtain ⟨r, rfl⟩ := List.head?_eq_some_iff.mp hhead
    exact hzero (r ++ rest) rfl

theorem readWhole_more {ds : List Char} (h : readWhole cs = some (ds, rest))
    (hmore : rest = [] → MayFollow more) : readWhole (cs ++ more) = some (ds, rest ++ more) := by
  obtain ⟨⟨hds, rfl, hrest⟩, hleading⟩ := readWhole_eq_some h
  rw [List.append_assoc]
  exact readWhole_append hds hleading (stops_isDigit hrest hmore)

theorem readFraction_more {fraction : Option (List Char)}
    (h : readFraction cs = some (fraction, rest)) (hmore : rest = [] → MayFollow more) :
    readFraction (cs ++ more) = some (fraction, rest ++ more) := by
  unfold readFraction at h
  split at h
  · obtain ⟨⟨ds, r⟩, hds, ⟨⟩⟩ := Option.map_eq_some_iff.mp h
    rw [List.cons_append, readFraction, readDigits_more hds hmore]
    rfl
  · rename_i hpoint
    cases h
    rw [readFraction]
    exact append_ne_mark hpoint hmore (by decide)

theorem readPower_more {power : Bool × List Char} (h : readPower cs = some (power, rest))
    (hmore : rest = [] → MayFollow more) : readPower (cs ++ more) = some (power, rest ++ more) := by
  unfold readPower at h
  split at h
  · obtain ⟨⟨ds, r⟩, hds, ⟨⟩⟩ := Option.map_eq_some_iff.mp h
    rw [List.cons_append, readPower, readDigits_more hds hmore]
    rfl
  · obtain ⟨⟨ds, r⟩, hds, ⟨⟩⟩ := Option.map_eq_some_iff.mp h
    rw [List.cons_append, readPower, readDigits_more hds hmore]
    rfl
  · rename_i hminus hplus
    obtain ⟨⟨ds, r⟩, hds, ⟨⟩⟩ := Option.map_eq_some_iff.mp h
    have hne : cs = [] → MayFollow more := by
      rintro rfl
      cases hds
    rw [readPower, readDigits_more hds hmore]
    · rfl
    · exact append_ne_mark hminus hne (by decide)
    · exact append_ne_mark hplus hne (by decide)

theorem readExponent_more {exponent : Option (Bool × List Char)}
    (h : readExponent cs = some (exponent, rest)) (hmore : rest = [] → MayFollow more) :
    readExponent (cs ++ more) = some (exponent, rest ++ more) := by
  unfold readExponent at h
  split at h
  · obtain ⟨⟨power, r⟩, hpower, ⟨⟩⟩ := Option.map_eq_some_iff.mp h
    rw [List.cons_append, readExponent, readPower_more hpower hmore]
    rfl
  · obtain ⟨⟨power, r⟩, hpower, ⟨⟩⟩ := Option.map_eq_some_iff.mp h
    rw [List.cons_append, readExponent, readPower_more hpower hmore]
    rfl
  · rename_i hlower hupper
    cases h
    rw [readExponent]
    · exact append_ne_mark hlower hmore (by decide)
    · exact append_ne_mark hupper hmore (by decide)

/-- A numeral is read alike, whatever may follow it. -/
theorem read_more {negative : Bool} {n : Numeral} (h : read negative cs = some (n, rest))
    (hmore : rest = [] → MayFollow more) : read negative (cs ++ more) = some (n, rest ++ more) := by
  simp only [read, Option.bind_eq_bind, Option.bind_eq_some_iff, Prod.exists, Option.pure_def,
    Option.some.injEq, Prod.mk.injEq] at h
  obtain ⟨whole, r₁, hwhole, fraction, r₂, hfraction, exponent, r₃, hexponent, rfl, rfl⟩ := h
  -- If a part leaves nothing, the parts after it are absent and leave nothing either.
  have hmore₂ : r₂ = [] → MayFollow more := by
    rintro rfl
    cases hexponent
    exact hmore rfl
  have hmore₁ : r₁ = [] → MayFollow more := by
    rintro rfl
    cases hfraction
    exact hmore₂ rfl
  simp only [read, readWhole_more hwhole hmore₁, readFraction_more hfraction hmore₂,
    readExponent_more hexponent hmore, Option.bind_eq_bind, Option.bind_some, Option.pure_def]

/-- A numeral without a sign starts with a digit. -/
theorem exists_digit_of_read {negative : Bool} {n : Numeral}
    (h : read negative cs = some (n, rest)) : ∃ c r, cs = c :: r ∧ c.isDigit = true := by
  obtain ⟨⟨whole, r⟩, hwhole, -⟩ := Option.bind_eq_some_iff.mp h
  obtain ⟨⟨hdigits, rfl, -⟩, -⟩ := readWhole_eq_some hwhole
  obtain ⟨c, ds, rfl⟩ := List.exists_cons_of_ne_nil hdigits.ne_nil
  exact ⟨c, ds ++ r, rfl, hdigits.digits c List.mem_cons_self⟩

end Numeral

namespace Draft

theorem skipSpace_append {cs : List Char} (h : skipSpace cs ≠ []) (more : List Char) :
    skipSpace (cs ++ more) = skipSpace cs ++ more := by
  unfold skipSpace at h ⊢
  rw [List.dropWhile_append, if_neg (by simpa using h)]

theorem skipSpace_append_of_nil {cs : List Char} (h : skipSpace cs = []) (more : List Char) :
    skipSpace (cs ++ more) = skipSpace more := by
  unfold skipSpace at h ⊢
  rw [List.dropWhile_append, if_pos (by simpa using h)]

theorem skipSpace_skipSpace (cs : List Char) : skipSpace (skipSpace cs) = skipSpace cs :=
  List.dropWhile_idempotent isSpace cs

theorem ofNumeral_eq {found : Option (Numeral × List Char)} {d : Draft} {rest : List Char}
    (h : ofNumeral found = (d, rest)) (hd : d.isUnbroken = true) :
    ∃ n, found = some (n, rest) ∧ d = .number n := by
  cases found with
  | none =>
    cases h
    cases hd
  | some found =>
    cases h
    exact ⟨_, rfl, rfl⟩

/-- Only a numeral has no end of its own: if nothing is left after it, what is added must be
something that may follow a value. -/
theorem readAtom_more {cs rest more : List Char} {d : Draft} (h : readAtom cs = (d, rest))
    (hd : d.isUnbroken = true) (hmore : rest = [] → MayFollow more) :
    readAtom (cs ++ more) = (d, rest ++ more) := by
  unfold readAtom at h
  split at h
  · split at h
    · rename_i hletters
      cases h
      rw [List.cons_append, readAtom, Letter.readAll_append hletters]
    · cases h
      cases hd
  · cases h
    rfl
  · cases h
    rfl
  · cases h
    rfl
  · obtain ⟨n, hn, rfl⟩ := ofNumeral_eq h hd
    rw [List.cons_append, readAtom, Numeral.read_more hn hmore]
    rfl
  · obtain ⟨n, hn, rfl⟩ := ofNumeral_eq h hd
    obtain ⟨c, r, rfl, hc⟩ := Numeral.exists_digit_of_read hn
    have hread := Numeral.read_more hn hmore
    rw [List.cons_append] at hread ⊢
    rw [readAtom_digit hc, hread]
    rfl

/-- What a step makes of the text before a value: an array, an object, or neither. -/
inductive ValueStep (fuel : Nat) (cs : List Char) : Draft → List Char → Prop where
  | emptyArray {r rest : List Char} (hcs : skipSpace cs = '[' :: r)
      (hr : skipSpace r = ']' :: rest) : ValueStep fuel cs (.array [] true) rest
  | array {r rest : List Char} {ds : List Draft} {closed : Bool} (hcs : skipSpace cs = '[' :: r)
      (hr : ∀ r', skipSpace r ≠ ']' :: r')
      (hds : readItems fuel (skipSpace r) = (ds, closed, rest)) :
      ValueStep fuel cs (.array ds closed) rest
  | emptyObject {r rest : List Char} (hcs : skipSpace cs = '\x7b' :: r)
      (hr : skipSpace r = '\x7d' :: rest) : ValueStep fuel cs (.object [] true) rest
  | object {r rest : List Char} {ms : List (List Letter × Draft)} {closed : Bool}
      (hcs : skipSpace cs = '\x7b' :: r) (hr : ∀ r', skipSpace r ≠ '\x7d' :: r')
      (hms : readMembers fuel (skipSpace r) = (ms, closed, rest)) :
      ValueStep fuel cs (.object ms closed) rest
  | atom {rest : List Char} {d : Draft} (hbracket : ∀ r, skipSpace cs ≠ '[' :: r)
      (hbrace : ∀ r, skipSpace cs ≠ '\x7b' :: r) (hd : readAtom (skipSpace cs) = (d, rest)) :
      ValueStep fuel cs d rest

/-- What a step makes of the text before the items of an array that is closed. -/
inductive ItemsStep (fuel : Nat) (cs : List Char) : List Draft → List Char → Prop where
  | comma {d : Draft} {ds : List Draft} {r r' rest : List Char} (hd : readValue fuel cs = (d, r))
      (hr : skipSpace r = ',' :: r') (hds : readItems fuel r' = (ds, true, rest)) :
      ItemsStep fuel cs (d :: ds) rest
  | bracket {d : Draft} {r rest : List Char} (hd : readValue fuel cs = (d, r))
      (hr : skipSpace r = ']' :: rest) : ItemsStep fuel cs [d] rest

/-- What a step makes of the text before the members of an object that is closed. -/
inductive MembersStep (fuel : Nat) (cs : List Char) :
    List (List Letter × Draft) → List Char → Prop where
  | comma {key : List Letter} {d : Draft} {ms : List (List Letter × Draft)}
      {r₁ r₂ r₃ r₄ r₅ rest : List Char} (hcs : skipSpace cs = '"' :: r₁)
      (hkey : Letter.readAll r₁ = some (key, r₂)) (hcolon : skipSpace r₂ = ':' :: r₃)
      (hd : readValue fuel r₃ = (d, r₄)) (hr : skipSpace r₄ = ',' :: r₅)
      (hms : readMembers fuel r₅ = (ms, true, rest)) : MembersStep fuel cs ((key, d) :: ms) rest
  | brace {key : List Letter} {d : Draft} {r₁ r₂ r₃ r₄ rest : List Char}
      (hcs : skipSpace cs = '"' :: r₁) (hkey : Letter.readAll r₁ = some (key, r₂))
      (hcolon : skipSpace r₂ = ':' :: r₃) (hd : readValue fuel r₃ = (d, r₄))
      (hr : skipSpace r₄ = '\x7d' :: rest) : MembersStep fuel cs [(key, d)] rest

/-- What one step of reading does at a value. -/
theorem readValue_iff {fuel : Nat} {cs rest : List Char} {d : Draft} :
    readValue (fuel + 1) cs = (d, rest) ↔ ValueStep fuel cs d rest := by
  constructor
  · intro h
    unfold readValue at h
    split at h
    · split at h
      · cases h
        exact .emptyArray ‹_› ‹_›
      · cases h
        exact .array ‹_› ‹_› rfl
    · split at h
      · cases h
        exact .emptyObject ‹_› ‹_›
      · cases h
        exact .object ‹_› ‹_› rfl
    · exact .atom ‹_› ‹_› h
  · intro h
    unfold readValue
    cases h with
    | emptyArray hcs hr => simp only [hcs, hr]
    | array hcs hr hds => simp only [hcs, hds]
    | emptyObject hcs hr => simp only [hcs, hr]
    | object hcs hr hms => simp only [hcs, hms]
    | atom hbracket hbrace hd =>
      split
      · exact absurd ‹_› (hbracket _)
      · exact absurd ‹_› (hbrace _)
      · exact hd

/-- What one step of reading does at the items of an array that is closed. -/
theorem readItems_iff {fuel : Nat} {cs rest : List Char} {ds : List Draft} :
    readItems (fuel + 1) cs = (ds, true, rest) ↔ ItemsStep fuel cs ds rest := by
  constructor
  · intro h
    unfold readItems at h
    dsimp only at h
    split at h
    · rename_i r hr
      rcases hread : readItems fuel r with ⟨ds', closed, rest'⟩
      rw [hread] at h
      cases h
      exact .comma rfl hr hread
    · cases h
      exact .bracket rfl ‹_›
    · cases h
  · intro h
    unfold readItems
    cases h with
    | comma hd hr hds => simp only [hd, hr, hds]
    | bracket hd hr => simp only [hd, hr]

/-- What one step of reading does at the members of an object that is closed. -/
theorem readMembers_iff {fuel : Nat} {cs rest : List Char} {ms : List (List Letter × Draft)} :
    readMembers (fuel + 1) cs = (ms, true, rest) ↔ MembersStep fuel cs ms rest := by
  constructor
  · intro h
    unfold readMembers at h
    dsimp only at h
    split at h
    · split at h
      · cases h
      · split at h
        · split at h
          · rename_i r hr
            rcases hread : readMembers fuel r with ⟨ms', closed, rest'⟩
            rw [hread] at h
            cases h
            exact .comma ‹_› ‹_› ‹_› rfl hr hread
          · cases h
            exact .brace ‹_› ‹_› ‹_› rfl ‹_›
          · cases h
        · cases h
    · cases h
  · intro h
    unfold readMembers
    cases h with
    | comma hcs hkey hcolon hd hr hms => simp only [hcs, hkey, hcolon, hd, hr, hms]
    | brace hcs hkey hcolon hd hr => simp only [hcs, hkey, hcolon, hd, hr]

theorem skipSpace_ne_nil {cs r : List Char} {c : Char} (h : skipSpace cs = c :: r) :
    skipSpace cs ≠ [] := by
  rw [h]
  exact List.cons_ne_nil c r

theorem mayFollow_of_skipSpace {cs r : List Char} {c : Char} (h : skipSpace cs = c :: r)
    {more : List Char} : cs = [] → MayFollow more := by
  rintro rfl
  cases h

/-- Text after the first character that is no blank stays where it is. -/
theorem skipSpace_cons_append {cs r : List Char} {c : Char} (h : skipSpace cs = c :: r)
    (more : List Char) : skipSpace (cs ++ more) = c :: (r ++ more) := by
  rw [skipSpace_append (skipSpace_ne_nil h), h, List.cons_append]

theorem readItems_ne_nil {fuel : Nat} {cs rest : List Char} {ds : List Draft}
    (h : readItems fuel cs = (ds, true, rest)) : cs ≠ [] := by
  rintro rfl
  cases fuel with
  | zero => cases h
  | succ fuel => cases fuel <;> cases h

theorem readMembers_ne_nil {fuel : Nat} {cs rest : List Char} {ms : List (List Letter × Draft)}
    (h : readMembers fuel cs = (ms, true, rest)) : cs ≠ [] := by
  rintro rfl
  cases fuel <;> cases h

/-- With this many steps, what is read without a break is read alike with more steps and more text
after it. -/
structure Local (fuel : Nat) : Prop where
  value {cs rest : List Char} {d : Draft} (h : readValue fuel cs = (d, rest))
    (hd : d.isUnbroken = true) {fuel' : Nat} (hfuel : fuel ≤ fuel') {more : List Char}
    (hmore : rest = [] → MayFollow more) : readValue fuel' (cs ++ more) = (d, rest ++ more)
  items {cs rest : List Char} {ds : List Draft} (h : readItems fuel cs = (ds, true, rest))
    (hds : areUnbroken ds = true) {fuel' : Nat} (hfuel : fuel ≤ fuel') (more : List Char) :
    readItems fuel' (cs ++ more) = (ds, true, rest ++ more)
  members {cs rest : List Char} {ms : List (List Letter × Draft)}
    (h : readMembers fuel cs = (ms, true, rest)) (hms : membersUnbroken ms = true) {fuel' : Nat}
    (hfuel : fuel ≤ fuel') (more : List Char) :
    readMembers fuel' (cs ++ more) = (ms, true, rest ++ more)

section Step

variable {fuel fuel' : Nat} {cs rest more : List Char}

/-- A step at a value is local, if the steps after it are. -/
theorem Local.valueStep (ih : Local fuel) (hfuel : fuel ≤ fuel') {d : Draft}
    (h : ValueStep fuel cs d rest) (hd : d.isUnbroken = true)
    (hmore : rest = [] → MayFollow more) : ValueStep fuel' (cs ++ more) d (rest ++ more) := by
  cases h with
  | emptyArray hcs hr =>
    exact .emptyArray (skipSpace_cons_append hcs more) (skipSpace_cons_append hr more)
  | @array r rest ds closed hcs hr hds =>
    rw [isUnbroken, Bool.and_eq_true] at hd
    obtain ⟨rfl, hunbroken⟩ := hd
    have hspace := skipSpace_append (readItems_ne_nil hds) more
    refine .array (skipSpace_cons_append hcs more) ?_ ?_
    · rw [hspace]
      exact append_ne_cons (readItems_ne_nil hds) hr more
    · rw [hspace]
      exact ih.items hds hunbroken hfuel more
  | emptyObject hcs hr =>
    exact .emptyObject (skipSpace_cons_append hcs more) (skipSpace_cons_append hr more)
  | @object r rest ms closed hcs hr hms =>
    rw [isUnbroken, Bool.and_eq_true] at hd
    obtain ⟨rfl, hunbroken⟩ := hd
    have hspace := skipSpace_append (readMembers_ne_nil hms) more
    refine .object (skipSpace_cons_append hcs more) ?_ ?_
    · rw [hspace]
      exact append_ne_cons (readMembers_ne_nil hms) hr more
    · rw [hspace]
      exact ih.members hms hunbroken hfuel more
  | atom hbracket hbrace hatom =>
    have hne : skipSpace cs ≠ [] := by
      intro hnil
      rw [hnil] at hatom
      cases hatom
      cases hd
    have hspace := skipSpace_append hne more
    refine .atom ?_ ?_ ?_
    · rw [hspace]
      exact append_ne_cons hne hbracket more
    · rw [hspace]
      exact append_ne_cons hne hbrace more
    · rw [hspace]
      exact readAtom_more hatom hd hmore

theorem Local.itemsStep (ih : Local fuel) (hfuel : fuel ≤ fuel') {ds : List Draft}
    (h : ItemsStep fuel cs ds rest) (hds : areUnbroken ds = true) :
    ItemsStep fuel' (cs ++ more) ds (rest ++ more) := by
  cases h with
  | comma hd hr htail =>
    rw [areUnbroken, Bool.and_eq_true] at hds
    exact .comma (ih.value hd hds.1 hfuel (mayFollow_of_skipSpace hr))
      (skipSpace_cons_append hr more) (ih.items htail hds.2 hfuel more)
  | bracket hd hr =>
    rw [areUnbroken, Bool.and_eq_true] at hds
    exact .bracket (ih.value hd hds.1 hfuel (mayFollow_of_skipSpace hr))
      (skipSpace_cons_append hr more)

theorem Local.membersStep (ih : Local fuel) (hfuel : fuel ≤ fuel')
    {ms : List (List Letter × Draft)} (h : MembersStep fuel cs ms rest)
    (hms : membersUnbroken ms = true) : MembersStep fuel' (cs ++ more) ms (rest ++ more) := by
  cases h with
  | comma hcs hkey hcolon hd hr htail =>
    rw [membersUnbroken, Bool.and_eq_true] at hms
    exact .comma (skipSpace_cons_append hcs more) (Letter.readAll_append hkey more)
      (skipSpace_cons_append hcolon more) (ih.value hd hms.1 hfuel (mayFollow_of_skipSpace hr))
      (skipSpace_cons_append hr more) (ih.members htail hms.2 hfuel more)
  | brace hcs hkey hcolon hd hr =>
    rw [membersUnbroken, Bool.and_eq_true] at hms
    exact .brace (skipSpace_cons_append hcs more) (Letter.readAll_append hkey more)
      (skipSpace_cons_append hcolon more) (ih.value hd hms.1 hfuel (mayFollow_of_skipSpace hr))
      (skipSpace_cons_append hr more)

end Step

/-- Reading is local. -/
theorem isLocal (fuel : Nat) : Local fuel := by
  -- The readers call each other with one step less, so one induction carries all three laws.
  induction fuel with
  | zero =>
    constructor
    · intro cs rest d h hd
      cases h
      cases hd
    · intro cs rest ds h
      cases h
    · intro cs rest ms h
      cases h
  | succ fuel ih =>
    constructor
    · intro cs rest d h hd fuel' hfuel more hmore
      obtain ⟨fuel', rfl⟩ := Nat.exists_eq_add_of_le' (Nat.one_le_of_lt hfuel)
      exact readValue_iff.mpr
        (ih.valueStep (Nat.le_of_succ_le_succ hfuel) (readValue_iff.mp h) hd hmore)
    · intro cs rest ds h hds fuel' hfuel more
      obtain ⟨fuel', rfl⟩ := Nat.exists_eq_add_of_le' (Nat.one_le_of_lt hfuel)
      exact readItems_iff.mpr
        (ih.itemsStep (Nat.le_of_succ_le_succ hfuel) (readItems_iff.mp h) hds)
    · intro cs rest ms h hms fuel' hfuel more
      obtain ⟨fuel', rfl⟩ := Nat.exists_eq_add_of_le' (Nat.one_le_of_lt hfuel)
      exact readMembers_iff.mpr
        (ih.membersStep (Nat.le_of_succ_le_succ hfuel) (readMembers_iff.mp h) hms)

end Draft

end Eligibility.Json
