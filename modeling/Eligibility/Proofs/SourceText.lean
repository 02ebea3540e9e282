import Mathlib
import Eligibility.Review.SourceLint
import Eligibility.Proofs.Clean
import Eligibility.Proofs.PlainNumber

namespace Eligibility

theorem isIdentifierRest_of_start {c : Char} (h : isIdentifierStart c = true) :
    isIdentifierRest c = true := by
  simp only [isIdentifierStart, isIdentifierRest, Char.isAlphanum, Bool.or_eq_true] at h ⊢
  rcases h with (h | h) | h
  · exact .inl (.inl (.inl h))
  · exact .inl (.inr h)
  · exact .inr h

theorem isIdentifier_chars {s : String} (h : isIdentifier s = true) :
    ∀ c ∈ s.toList, isIdentifierRest c = true := by
  unfold isIdentifier at h
  split at h
  · cases h
  · rename_i c cs hs
    simp only [Bool.and_eq_true, List.all_eq_true] at h
    rw [hs]
    exact List.forall_mem_cons.mpr ⟨isIdentifierRest_of_start h.1, h.2⟩

theorem not_blank_of_identifierRest {c : Char} (h : isIdentifierRest c = true) :
    Text.isBlank c = false := by
  simp only [isIdentifierRest, Char.isAlphanum, Char.isAlpha, Char.isUpper, Char.isLower,
    Char.isDigit, Bool.or_eq_true, Bool.and_eq_true, decide_eq_true_eq, beq_iff_eq,
    UInt32.le_iff_toNat_le, ge_iff_le] at h
  rcases h with (h | rfl) | rfl
  · change ((65 ≤ c.toNat ∧ c.toNat ≤ 90) ∨ (97 ≤ c.toNat ∧ c.toNat ≤ 122)) ∨
      (48 ≤ c.toNat ∧ c.toNat ≤ 57) at h
    simp only [Text.isBlank, Bool.or_eq_false_iff, Bool.and_eq_false_iff, decide_eq_false_iff_not,
      beq_eq_false_iff_ne]
    omega
  · decide
  · decide

namespace Source

def isQuiet (c : Char) : Bool := c != '"' && c != '(' && c != ')' && !Text.isBlank c

/-- Texts whose parentheses match and whose quotes close, without blanks outside quotes. -/
inductive Balanced : List Char → Prop where
  | nil : Balanced []
  | quiet (c : Char) (h : isQuiet c = true) : Balanced [c]
  | quoted (s : List Char) (h : '"' ∉ s) : Balanced ('"' :: s ++ ['"'])
  | parens (t : List Char) (h : Balanced t) : Balanced ('(' :: t ++ [')'])
  | append (s t : List Char) (hs : Balanced s) (ht : Balanced t) : Balanced (s ++ t)

theorem scan_quote (offset depth : Nat) (inString stray : Bool) (cs : List Char) :
    scan offset depth inString stray ('"' :: cs) =
      scan (offset + '"'.utf8Size) depth (!inString) stray cs := by
  simp [scan]

theorem scan_inside {c : Char} (h : c ≠ '"') (offset depth : Nat) (stray : Bool)
    (cs : List Char) :
    scan offset depth true stray (c :: cs) = scan (offset + c.utf8Size) depth true stray cs := by
  simp [scan, h]

/-- The scanner passes over a quoted text, whatever stands in it. -/
theorem scan_quoted {s : List Char} (h : '"' ∉ s) (offset depth : Nat) (stray : Bool)
    (rest : List Char) :
    ∃ next, scan offset depth true stray (s ++ '"' :: rest) = scan next depth false stray rest := by
  induction s generalizing offset with
  | nil => exact ⟨_, scan_quote offset depth true stray rest⟩
  | cons c s ih =>
    rw [List.mem_cons, not_or] at h
    obtain ⟨next, hn⟩ := ih h.2 (offset + c.utf8Size)
    exact ⟨next, by rw [List.cons_append, scan_inside (Ne.symm h.1), hn]⟩

/-- After a balanced text the scanner is as it was before, a number of bytes further on. -/
theorem Balanced.scan {t : List Char} (h : Balanced t) (offset depth : Nat) (stray : Bool)
    (rest : List Char) :
    ∃ next, Source.scan offset depth false stray (t ++ rest) =
      Source.scan next depth false stray rest := by
  induction h generalizing offset depth rest with
  | nil => exact ⟨offset, rfl⟩
  | quiet c hc =>
    simp only [isQuiet, Bool.and_eq_true, bne_iff_ne, ne_eq, Bool.not_eq_true'] at hc
    obtain ⟨⟨⟨hq, ho⟩, hcl⟩, hb⟩ := hc
    exact ⟨offset + c.utf8Size, by simp [Source.scan, hq, ho, hcl, hb]⟩
  | quoted s hs =>
    obtain ⟨next, hn⟩ := scan_quoted hs (offset + '"'.utf8Size) depth stray rest
    refine ⟨next, ?_⟩
    rw [List.cons_append, List.cons_append, List.append_assoc, scan_quote]
    exact hn
  | parens t _ ih =>
    -- Inside the depth is one more, so that the closing parenthesis has one to close.
    obtain ⟨next, hn⟩ := ih (offset + '('.utf8Size) (depth + 1) (')' :: rest)
    refine ⟨next + ')'.utf8Size, ?_⟩
    have hopen : Source.scan offset depth false stray ('(' :: (t ++ ')' :: rest)) =
        Source.scan (offset + '('.utf8Size) (depth + 1) false stray (t ++ ')' :: rest) := by
      simp [Source.scan, Text.isBlank]
    have hclose : Source.scan next (depth + 1) false stray (')' :: rest) =
        Source.scan (next + ')'.utf8Size) depth false stray rest := by
      simp [Source.scan, Text.isBlank]
    rw [List.cons_append, List.cons_append, List.append_assoc, List.singleton_append, hopen, hn,
      hclose]
  | append s t _ _ ihs iht =>
    obtain ⟨mid, hm⟩ := ihs offset depth (t ++ rest)
    obtain ⟨next, hn⟩ := iht mid depth rest
    exact ⟨next, by rw [List.append_assoc, hm, hn]⟩

/-- A text of the grammar has no problems. -/
theorem problems_of_balanced {source : String} (h : Balanced source.toList) :
    problems source = [] := by
  obtain ⟨next, hn⟩ := h.scan 0 0 false []
  rw [List.append_nil] at hn
  simp [problems, hn, Source.scan]

/-- Characters that mean nothing to the scanner are balanced. -/
theorem Balanced.of_quiet {t : List Char} (h : ∀ c ∈ t, isQuiet c = true) : Balanced t := by
  induction t with
  | nil => exact .nil
  | cons c t ih =>
    rw [List.forall_mem_cons] at h
    exact .append [c] t (.quiet c h.1) (ih h.2)

theorem balanced_word (w : String) (h : w.toList.all isQuiet = true) : Balanced w.toList :=
  .of_quiet (List.all_eq_true.mp h)

/-- A function, then its argument in parentheses. -/
theorem Balanced.call {f arg : List Char} (hf : Balanced f) (harg : Balanced arg) :
    Balanced (f ++ '(' :: (arg ++ [')'])) :=
  .append f _ hf (.parens arg harg)

theorem Balanced.intercalate {sep : List Char} {ts : List (List Char)} (hsep : Balanced sep)
    (h : ∀ t ∈ ts, Balanced t) : Balanced (sep.intercalate ts) := by
  induction ts with
  | nil => exact .nil
  | cons t ts ih =>
    rw [List.forall_mem_cons] at h
    cases ts with
    | nil => simpa using h.1
    | cons u us =>
      rw [List.intercalate_cons_cons]
      exact .append _ _ (.append _ _ h.1 hsep) (ih h.2)

theorem isQuiet_of_identifierRest {c : Char} (h : isIdentifierRest c = true) :
    isQuiet c = true := by
  simp only [isQuiet, not_blank_of_identifierRest h, Bool.and_eq_true, bne_iff_ne, ne_eq,
    Bool.not_false, and_true]
  refine ⟨⟨?_, ?_⟩, ?_⟩ <;> (rintro rfl; exact absurd h (by decide))

theorem balanced_identifier {s : String} (h : isIdentifier s = true) : Balanced s.toList :=
  .of_quiet fun c hc => isQuiet_of_identifierRest (isIdentifier_chars h c hc)

theorem isQuiet_of_numberChar {c : Char} (h : Double.isNumberChar c = true) :
    isQuiet c = true := by
  simp only [Double.isNumberChar, Bool.or_eq_true, beq_iff_eq] at h
  rcases h with (h | rfl) | rfl
  · exact isQuiet_of_identifierRest (by simp [isIdentifierRest, Char.isAlphanum, h])
  · decide
  · decide

theorem balanced_number {x : Double} (h : x.isFinite = true) : Balanced x.source.toList :=
  .of_quiet fun c hc => isQuiet_of_numberChar (Double.source_numberChar h c hc)

/-- A text without quotes is balanced between quotes. -/
theorem balanced_string {s : String} (h : '"' ∉ s.toList) : Balanced (string s).toList := by
  have := Balanced.quoted s.toList h
  simpa [string] using this

theorem balanced_var {name : String} (h : isIdentifier name = true) :
    Balanced (var name).toList := by
  rw [var, String.toList_append]
  exact .append _ _ (balanced_word "vars." rfl) (balanced_identifier h)

end Source

open Source

theorem Scalar.Clean.balanced {s : Scalar} (h : s.Clean) : Balanced s.source.toList := by
  cases s with
  | number x => exact balanced_number h
  | result name => exact balanced_identifier h

theorem Term.Clean.balanced {t : Term} (h : t.Clean) : Balanced t.source.toList := by
  have hf : Balanced ((Source.var t.name).toList ++ ".times".toList) :=
    .append _ _ (balanced_var h.name) (balanced_word ".times" rfl)
  have := hf.call h.coefficient.balanced
  simpa [Term.source] using this

theorem Affine.balanced_sourceFrom {constants : String} {ts : List Term}
    (hc : Balanced constants.toList) (hts : ∀ t ∈ ts, t.Clean) :
    Balanced (Affine.sourceFrom constants ts).toList := by
  induction ts with
  | nil => exact hc
  | cons t ts ih =>
    rw [List.forall_mem_cons] at hts
    have hf : Balanced (t.source.toList ++ ".plus".toList) :=
      .append _ _ hts.1.balanced (balanced_word ".plus" rfl)
    have := hf.call (ih hts.2)
    simpa [Affine.sourceFrom] using this

/-- The text of a clean affine expression is balanced: each term opens one parenthesis more, and all
are closed at the end. -/
theorem Affine.Clean.balanced {e : Affine} (h : e.Clean) : Balanced e.source.toList := by
  apply Affine.balanced_sourceFrom _ h.terms
  rw [String.toList_intercalate]
  apply Balanced.intercalate (balanced_word "+" rfl)
  intro t ht
  simp only [List.map_map, List.mem_map, Function.comp_apply] at ht
  obtain ⟨s, hs, rfl⟩ := ht
  exact (h.constants s hs).balanced

/-- The text of a clean operand is balanced. -/
theorem Operand.Clean.balanced {o : Operand} (h : o.Clean) : Balanced o.source.toList := by
  cases o with
  | literal v =>
    cases v with
    | number x => exact balanced_number h
    | text s =>
      apply balanced_string
      intro hm
      exact absurd (h '"' hm) (by decide)
    | truth b =>
      cases b with
      | false => exact balanced_word "false" rfl
      | true => exact balanced_word "true" rfl
  | var name => exact balanced_var h
  | result name => exact balanced_identifier h
  | affine e => exact Affine.Clean.balanced h

theorem Operator.balanced_method (o : Operator) : Balanced o.method.toList := by
  cases o with
  | atLeast => exact balanced_word "is_gte" rfl
  | equal => exact balanced_word "is_eq" rfl
  | atMost => exact balanced_word "is_lte" rfl

/-- The text of a clean comparison is balanced. -/
theorem Comparison.Clean.balanced {c : Comparison} (h : c.Clean) : Balanced c.source.toList := by
  have hf : Balanced ((Source.var c.lhs).toList ++ (['.'] ++ c.operator.method.toList)) :=
    .append _ _ (balanced_var h.lhs) (.append _ _ (.quiet '.' rfl) c.operator.balanced_method)
  have := hf.call h.rhs.balanced
  simpa [Comparison.source] using this

theorem Ratio.Clean.balanced {q : Ratio} (h : q.Clean) : Balanced q.source.toList := by
  have hf : Balanced ((Source.var q.numerator).toList ++ ".maintain_ratio".toList) :=
    .append _ _ (balanced_var h.numerator) (balanced_word ".maintain_ratio" rfl)
  have hsymbol : Balanced (Source.string q.operator.symbol).toList := by
    apply balanced_string
    cases q.operator <;> simp [Operator.symbol]
  have hcomma : Balanced [','] := .quiet ',' rfl
  have harg := Balanced.append _ _ h.denominator.balanced
    (.append _ _ hcomma (.append _ _ hsymbol (.append _ _ hcomma (balanced_number h.bound))))
  have := hf.call harg
  simpa [Ratio.source] using this

namespace Rule

theorem sources_eq_map (rs : List Rule) : sources rs = rs.map source := by
  induction rs with
  | nil => rfl
  | cons r rs ih => rw [sources, ih, List.map_cons]

/-- Balanced texts with commas between them are balanced. -/
theorem balanced_list {rs : List Rule} (h : ∀ r ∈ rs, Balanced r.source.toList) :
    Balanced (Source.list (sources rs)).toList := by
  rw [Source.list, String.toList_intercalate, sources_eq_map, List.map_map]
  apply Balanced.intercalate (balanced_word "," rfl)
  intro t ht
  obtain ⟨r, hr, rfl⟩ := List.mem_map.mp ht
  exact h r hr

/-- A clean path has no quote, so its literal ends where it does. -/
theorem quote_not_mem_path {s : String} (h : Lint.isCleanPath s = true) : '"' ∉ s.toList := by
  simp only [Lint.isCleanPath, Bool.and_eq_true, Bool.not_eq_true', List.contains_eq_mem,
    decide_eq_false_iff_not] at h
  exact h.1.1.2

theorem balanced_root {root : TaskRoot} (h : root.Clean) : Balanced root.name.toList := by
  cases root with
  | loan => exact balanced_word "Loan" rfl
  | result name => exact balanced_identifier h

/-- The function of a fetched value; a function of each element wraps it once more. -/
theorem balanced_inner {binding : String} (each : Bool) {r : Rule}
    (hb : isIdentifier binding = true) (hr : Balanced r.source.toList) :
    Balanced (sourceInner binding each (some r)).toList := by
  have hparam : Balanced ([','] ++ '(' :: (binding.toList ++ [')'])) :=
    (Balanced.quiet ',' rfl).call (balanced_identifier hb)
  have harrow := balanced_word "=>" rfl
  cases each with
  | false =>
    have := Balanced.append _ _ hparam (.append _ _ harrow hr)
    simpa [sourceInner] using this
  | true =>
    have helement : Balanced ([] ++ '(' :: (binding.toList ++ "Element".toList ++ [')'])) :=
      Balanced.nil.call (.append _ _ (balanced_identifier hb) (balanced_word "Element" rfl))
    have hmap : Balanced ("...".toList ++ binding.toList ++ ".map".toList) :=
      .append _ _ (.append _ _ (balanced_word "..." rfl) (balanced_identifier hb))
        (balanced_word ".map" rfl)
    have hbody := hmap.call (.append _ _ helement (.append _ _ harrow hr))
    have hall := (balanced_word "dsl.allOf" rfl).call hbody
    have := Balanced.append _ _ hparam (.append _ _ harrow hall)
    simpa [sourceInner] using this

/-- The program text of a clean rule is balanced. -/
theorem Clean.balanced {r : Rule} (h : r.Clean) : Balanced r.source.toList := by
  induction r using Rule.induction with
  | task root path each inner ih =>
    obtain ⟨hroot, hpath, hbinding⟩ := h.self
    have hinner : Balanced (sourceInner path.binding each inner).toList := by
      cases inner with
      | none => exact .nil
      | some r => exact balanced_inner each (hbinding rfl) (ih r rfl h.inner)
    have hfetch := (balanced_word "fetchTask" rfl).call
      (balanced_root hroot)
    have := hfetch.call (.append _ _ (balanced_string (quote_not_mem_path hpath)) hinner)
    simpa [source] using this
  | comparison c => exact Comparison.Clean.balanced h.self
  | ratio q => exact Ratio.Clean.balanced h.self
  | oneOf options ih =>
    have hlist := balanced_list fun r hr => ih r hr (h.options r hr)
    have := (balanced_word "dsl.oneOf" rfl).call hlist
    simpa [source] using this
  | allOf preds ih =>
    have hlist := balanced_list fun r hr => ih r hr (h.preds r hr)
    have := (balanced_word "dsl.allOf" rfl).call hlist
    simpa [source] using this
  | branch cond yes no hyes hno =>
    have hif := (balanced_word "dsl.if_" rfl).call
      (Comparison.Clean.balanced h.self)
    have hthen : Balanced (_ ++ ".then".toList) := .append _ _ hif (balanced_word ".then" rfl)
    have hthen := hthen.call (hyes h.yes)
    cases no with
    | none => simpa [source, sourceElse] using hthen
    | some r =>
      have helse : Balanced (_ ++ ".else".toList) := .append _ _ hthen (balanced_word ".else" rfl)
      have := helse.call (hno r rfl h.no)
      simpa [source, sourceElse] using this

end Rule

end Eligibility
