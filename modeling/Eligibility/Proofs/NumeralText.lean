import Mathlib
import Eligibility.Json.Draft
import Eligibility.Json.Render
import Eligibility.Proofs.Boundary
import Eligibility.Proofs.ExactValue
import Eligibility.Proofs.NumberText

namespace Eligibility.Json

/-- What may stand after a value: nothing, a comma or a closing bracket. -/
inductive MayFollow : List Char → Prop where
  | nil : MayFollow []
  | comma (rest : List Char) : MayFollow (',' :: rest)
  | bracket (rest : List Char) : MayFollow (']' :: rest)
  | brace (rest : List Char) : MayFollow ('\x7d' :: rest)

theorem MayFollow.head {rest : List Char} (h : MayFollow rest) {P : Char → Prop}
    (hP : P ',' ∧ P ']' ∧ P '\x7d') : ∀ c ∈ rest.head?, P c := by
  intro c hc
  cases h with
  | nil => cases hc
  | comma rest => exact Option.mem_some_iff.mp hc ▸ hP.1
  | bracket rest => exact Option.mem_some_iff.mp hc ▸ hP.2.1
  | brace rest => exact Option.mem_some_iff.mp hc ▸ hP.2.2

open Text (Stops)

namespace Numeral

def fractionText : Option (List Char) → List Char
  | none => []
  | some ds => '.' :: ds

def exponentText : Option (Bool × List Char) → List Char
  | none => []
  | some (negative, ds) => 'e' :: (if negative then '-' else '+') :: ds

def text (n : Numeral) : List Char :=
  n.whole ++ (fractionText n.fraction ++ exponentText n.exponent)

/-- The parts are digits, and a leading zero stands alone. -/
structure WellFormed (n : Numeral) : Prop where
  whole : Digits n.whole
  leading : n.whole = ['0'] ∨ n.whole.head? ≠ some '0'
  fraction : ∀ ds ∈ n.fraction, Digits ds
  exponent : ∀ e ∈ n.exponent, Digits e.2

theorem readDigits_append {ds rest : List Char} (hds : Digits ds)
    (hrest : Stops Char.isDigit rest) : readDigits (ds ++ rest) = some (ds, rest) := by
  rw [readDigits, Text.takeWhile_append hds.digits hrest, Text.dropWhile_append hds.digits hrest]
  cases ds with
  | nil => exact absurd rfl hds.ne_nil
  | cons c ds => rfl

theorem readWhole_append {ds rest : List Char} (hds : Digits ds)
    (hleading : ds = ['0'] ∨ ds.head? ≠ some '0') (hrest : Stops Char.isDigit rest) :
    readWhole (ds ++ rest) = some (ds, rest) := by
  rcases hleading with rfl | hne
  · have hany : rest.head?.any Char.isDigit = false := by
      cases hr : rest.head? with
      | none => rfl
      | some c => exact hrest c hr
    simp [readWhole, hany]
  · cases ds with
    | nil => exact absurd rfl hds.ne_nil
    | cons c ds =>
      have hc : c ≠ '0' := fun he => hne (congrArg some he)
      rw [List.cons_append, readWhole, ← List.cons_append, Text.takeWhile_append hds.digits hrest,
        Text.dropWhile_append hds.digits hrest]
      exact fun r he => hc (List.cons.inj he).1

theorem readFraction_append {fraction : Option (List Char)} {rest : List Char}
    (hfraction : ∀ ds ∈ fraction, Digits ds)
    (hrest : ∀ c ∈ rest.head?, c.isDigit = false ∧ c ≠ '.') :
    readFraction (fractionText fraction ++ rest) = some (fraction, rest) := by
  cases fraction with
  | none =>
    rw [fractionText, List.nil_append, readFraction]
    rintro r rfl
    exact (hrest '.' rfl).2 rfl
  | some ds =>
    rw [fractionText, List.cons_append, readFraction,
      readDigits_append (hfraction ds rfl) fun c hc => (hrest c hc).1]
    rfl

theorem readExponent_append {exponent : Option (Bool × List Char)} {rest : List Char}
    (hexponent : ∀ e ∈ exponent, Digits e.2)
    (hrest : ∀ c ∈ rest.head?, c.isDigit = false ∧ c ≠ 'e' ∧ c ≠ 'E') :
    readExponent (exponentText exponent ++ rest) = some (exponent, rest) := by
  cases exponent with
  | none =>
    rw [exponentText, List.nil_append, readExponent]
    · rintro r rfl
      exact (hrest 'e' rfl).2.1 rfl
    · rintro r rfl
      exact (hrest 'E' rfl).2.2 rfl
  | some e =>
    obtain ⟨negative, ds⟩ := e
    have hdigits := readDigits_append (hexponent _ rfl) fun c hc => (hrest c hc).1
    cases negative with
    | true => simp [exponentText, readExponent, readPower, hdigits]
    | false => simp [exponentText, readExponent, readPower, hdigits]

/-- What stands after the fraction neither continues nor begins one. -/
theorem head_exponentText (exponent : Option (Bool × List Char)) {rest : List Char}
    (hrest : MayFollow rest) :
    ∀ c ∈ (exponentText exponent ++ rest).head?, c.isDigit = false ∧ c ≠ '.' := by
  cases exponent with
  | none => exact hrest.head (by decide)
  | some e =>
    intro c hc
    cases Option.mem_some_iff.mp hc
    decide

theorem head_fractionText (fraction : Option (List Char)) {rest : List Char}
    (hrest : Stops Char.isDigit rest) : Stops Char.isDigit (fractionText fraction ++ rest) := by
  cases fraction with
  | none => exact hrest
  | some ds =>
    intro c hc
    cases Option.mem_some_iff.mp hc
    decide

/-- Reading the text of a numeral gives the numeral and leaves what follows it. -/
theorem read_text {n : Numeral} (hn : n.WellFormed) {rest : List Char} (hrest : MayFollow rest) :
    read n.negative (n.text ++ rest) = some (n, rest) := by
  have hexponent : ∀ c ∈ rest.head?, c.isDigit = false ∧ c ≠ 'e' ∧ c ≠ 'E' :=
    hrest.head (by decide)
  have hfraction := head_exponentText n.exponent hrest
  have hwhole := head_fractionText n.fraction fun c hc => (hfraction c hc).1
  simp only [read, text, List.append_assoc, readWhole_append hn.whole hn.leading hwhole,
    readFraction_append hn.fraction hfraction, readExponent_append hn.exponent hexponent,
    Option.bind_eq_bind, Option.bind_some, Option.pure_def]

end Numeral

theorem head_toDigits {n : Nat} (hn : n ≠ 0) : (Nat.toDigits 10 n).head? ≠ some '0' := by
  induction n using Nat.strong_induction_on with
  | _ n ih =>
    by_cases hlt : n < 10
    · rw [Nat.toDigits_of_lt_base hlt]
      have hdigit : ∀ k < 10, k ≠ 0 → Nat.digitChar k ≠ '0' := by decide
      exact fun he => hdigit n hlt hn (Option.some.inj he)
    · rw [Nat.toDigits_of_base_le (by decide) (by omega),
        List.head?_append_of_ne_nil _ Nat.toDigits_ne_nil]
      exact ih (n / 10) (by omega) (by omega)

open Double (Layout)

/-- Digits without an exponent mark are a numeral with a fraction. -/
theorem positional_eq_text {l : Layout} (hl : l.pointZero = true) {ds : List Char}
    (hds : Digits ds) (hhead : ds.head? ≠ some '0') (point : Int) (negative : Bool) :
    ∃ n : Numeral, n.negative = negative ∧ n.WellFormed ∧ l.positional ds point = n.text := by
  rcases l.positional_cases hds point with ⟨whole, fs, he, hwhole, hfs, hleading⟩ | ⟨hzero, -⟩
  · refine ⟨⟨negative, whole, some fs, none⟩, rfl, ⟨hwhole, ?_, ?_, by simp⟩, ?_⟩
    · refine hleading.imp_right fun hsame => ?_
      rw [hsame]
      exact hhead
    · intro ds hd
      cases Option.mem_some_iff.mp hd
      exact hfs
    · simp [he, Numeral.text, Numeral.fractionText, Numeral.exponentText]
  · rw [hl] at hzero
    cases hzero

/-- Digits with an exponent mark are a numeral with an exponent. -/
theorem scientific_eq_text {l : Layout} (hl : l.plusSign = true) {ds : List Char}
    (hds : Digits ds) (hhead : ds.head? ≠ some '0') (leading : Int) (negative : Bool) :
    ∃ n : Numeral, n.negative = negative ∧ n.WellFormed ∧ l.scientific ds leading = n.text := by
  have hexponent : l.exponentText leading =
      (if leading < 0 then '-' else '+') :: Nat.toDigits 10 leading.natAbs := by
    unfold Layout.exponentText
    split <;> simp
  have hpower : ∀ e ∈ some (decide (leading < 0), Nat.toDigits 10 leading.natAbs),
      Digits e.2 := by
    intro e he
    cases Option.mem_some_iff.mp he
    exact (.toDigits _)
  unfold Layout.scientific
  simp only [hexponent]
  split
  · rename_i d r rest
    have hone : Digits [d] := ⟨by simp, by simpa using hds.digits d⟩
    have hfraction : Digits (r :: rest) :=
      ⟨by simp, fun c hc => hds.digits c (List.mem_cons_of_mem _ hc)⟩
    refine ⟨⟨negative, [d], some (r :: rest), some (leading < 0, _)⟩, rfl,
      ⟨hone, .inr hhead, ?_, hpower⟩, ?_⟩
    · intro ds hd
      cases Option.mem_some_iff.mp hd
      exact hfraction
    · simp [Numeral.text, Numeral.fractionText, Numeral.exponentText]
  · refine ⟨⟨negative, ds, none, some (leading < 0, _)⟩, rfl,
      ⟨hds, .inr hhead, by simp, hpower⟩, ?_⟩
    simp [Numeral.text, Numeral.fractionText, Numeral.exponentText]

theorem digits_shortest_ne_zero (tie : Double.Tie) {units : Nat} (hne : units ≠ 0)
    (fits : Double.Fits units) : (Double.shortest tie units).digits ≠ 0 := by
  intro hzero
  have hread := Double.toDouble_shortest tie hne fits
  rw [Decimal.toDouble, if_pos hzero, Double.ofUnits_of_fits fits,
    Double.ofUnits_of_fits Double.fits_zero] at hread
  cases hread
  exact hne rfl

/-- The text of a magnitude in a document is that of a numeral. -/
theorem magnitude_eq_text {units : Nat} (fits : Double.Fits units) (negative : Bool) :
    ∃ n : Numeral, n.negative = negative ∧ n.WellFormed ∧
      numberLayout.magnitude units = n.text := by
  by_cases hzero : units = 0
  · subst hzero
    refine ⟨⟨negative, ['0'], some ['0'], none⟩, rfl, ⟨.zero, .inl rfl, ?_, by simp⟩, rfl⟩
    intro ds hd
    cases Option.mem_some_iff.mp hd
    exact .zero
  · have hdigits := digits_shortest_ne_zero numberLayout.tie hzero fits
    rw [Layout.magnitude, if_neg hzero, Layout.decimal]
    split
    · exact positional_eq_text rfl (.toDigits _) (head_toDigits hdigits) _ negative
    · exact scientific_eq_text rfl (.toDigits _) (head_toDigits hdigits) _ negative

/-- A finite number is written as a numeral. -/
theorem renderNumber_eq_text {x : Double} (hx : x.isFinite = true) :
    ∃ n : Numeral, n.WellFormed ∧
      renderNumber (.real x) = if n.negative then '-' :: n.text else n.text := by
  cases x with
  | nan => cases hx
  | infinite negative => cases hx
  | finite negative units fits =>
    obtain ⟨n, hnegative, hn, htext⟩ := magnitude_eq_text fits negative
    refine ⟨n, hn, ?_⟩
    simp [renderNumber, Double.isFinite, Layout.render, numberLayout, ← htext, hnegative]

end Eligibility.Json
