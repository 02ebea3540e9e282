import Mathlib
import Eligibility.Json.Expect
import Eligibility.Json.Render

namespace Eligibility.Json

/-- The letter that a character is written as: a control character without a short escape is
written as its code. -/
def Letter.written (c : Char) : Letter :=
  if c.toNat < 0x20 ∧ c.toNat ≠ 0x8 ∧ c.toNat ≠ 0xC ∧ c ≠ '\n' ∧ c ≠ '\r' ∧ c ≠ '\t'
  then .code c.toNat else .plain c

def letters (s : String) : List Letter := s.toList.map Letter.written

namespace Letter

theorem hexCode?_control : ∀ n < 32,
    hexCode? '0' '0' (if n < 0x10 then '0' else '1') (Nat.digitChar (n % 16)) = some n := by
  decide

theorem readAll_plain {c : Char} (hquote : c ≠ '"') (hslash : c ≠ '\\') (hcontrol : ¬ c.toNat < 0x20)
    (r : List Char) :
    readAll (c :: r) = (readAll r).map fun (ls, rest) => (.plain c :: ls, rest) := by
  rw [readAll]
  · simp only [hcontrol, hslash, or_self, if_false]
    cases readAll r <;> rfl
  · exact hquote
  · exact fun _ _ _ _ _ he => absurd he hslash
  · exact fun _ _ he => absurd he hslash

theorem readAll_short {e c : Char} (hcode : e ≠ 'u') (he : escaped? e = some c) (r : List Char) :
    readAll ('\\' :: e :: r) = (readAll r).map fun (ls, rest) => (.plain c :: ls, rest) := by
  rw [readAll]
  · rw [he]
    cases readAll r <;> rfl
  · exact fun _ _ _ _ _ h => absurd h hcode

/-- A control character is written by its code and read back from it. -/
theorem readAll_code {n : Nat} (hn : n < 32) (r : List Char) :
    readAll ('\\' :: 'u' :: '0' :: '0' :: (if n < 0x10 then '0' else '1') ::
      Nat.digitChar (n % 16) :: r) = (readAll r).map fun (ls, rest) => (.code n :: ls, rest) := by
  rw [readAll, hexCode?_control n hn]
  cases readAll r <;> rfl

theorem written_of_visible {c : Char} (h : ¬ c.toNat < 0x20) : written c = .plain c := by
  rw [written, if_neg fun hc => h hc.1]

/-- Reading what a character is written as gives its letter. -/
theorem readAll_escapedChar (c : Char) (r : List Char) :
    readAll (escapedChar c ++ r) =
      (readAll r).map fun (ls, rest) => (written c :: ls, rest) := by
  unfold escapedChar
  split_ifs with hquote hslash h8 hC hn hr ht hcontrol hfirst
  · subst hquote
    exact readAll_short (by decide) rfl r
  · subst hslash
    exact readAll_short (by decide) rfl r
  · obtain rfl : c = '\x08' := Char.toNat_inj.mp h8
    exact readAll_short (by decide) rfl r
  · obtain rfl : c = '\x0c' := Char.toNat_inj.mp hC
    exact readAll_short (by decide) rfl r
  · subst hn
    exact readAll_short (by decide) rfl r
  · subst hr
    exact readAll_short (by decide) rfl r
  · subst ht
    exact readAll_short (by decide) rfl r
  · have hcode := readAll_code hcontrol r
    rw [if_pos hfirst] at hcode
    rw [written, if_pos ⟨hcontrol, h8, hC, hn, hr, ht⟩]
    exact hcode
  · have hcode := readAll_code hcontrol r
    rw [if_neg hfirst] at hcode
    rw [written, if_pos ⟨hcontrol, h8, hC, hn, hr, ht⟩]
    exact hcode
  · rw [written_of_visible hcontrol]
    exact readAll_plain hquote hslash hcontrol r

/-- Reading a written text stops at the closing quote. -/
theorem readAll_written (cs rest : List Char) :
    readAll (cs.flatMap escapedChar ++ '"' :: rest) = some (cs.map written, rest) := by
  induction cs with
  | nil => rfl
  | cons c cs ih =>
    rw [List.flatMap_cons, List.append_assoc, readAll_escapedChar, ih]
    rfl

theorem spell?_code {n : Nat} (hn : n < 32) (ls : List Letter) :
    spell? (.code n :: ls) = (spell? ls).map (Char.ofNat n :: ·) := by
  have hhigh : isHigh n = false := by
    rw [isHigh, Bool.and_eq_false_iff]
    exact .inl (decide_eq_false (by omega))
  have hlow : isLow n = false := by
    rw [isLow, Bool.and_eq_false_iff]
    exact .inl (decide_eq_false (by omega))
  rcases ls with _ | ⟨⟨c⟩ | ⟨l⟩, ls⟩ <;> simp [spell?, hhigh, hlow]

/-- A written text spells itself. -/
theorem spell?_written (cs : List Char) : spell? (cs.map written) = some cs := by
  induction cs with
  | nil => rfl
  | cons c cs ih =>
    rw [List.map_cons, written]
    split_ifs with hcode
    · rw [spell?_code hcode.1, ih, Char.ofNat_toNat]
      rfl
    · rw [spell?, ih]
      rfl

end Letter

/-- The letters of a text spell it. -/
theorem text?_letters (s : String) : Letter.text? (letters s) = some s := by
  rw [Letter.text?, letters, Letter.spell?_written, Option.map_some, String.ofList_toList]

theorem spelled_letters (s : String) : Draft.spelled (letters s) = .ok s := by
  rw [Draft.spelled, text?_letters]

/-- Reading a string after its opening quote. -/
theorem readAll_renderString (s : String) (rest : List Char) :
    ∃ r, renderString s ++ rest = '"' :: r ∧ Letter.readAll r = some (letters s, rest) := by
  refine ⟨s.toList.flatMap escapedChar ++ '"' :: rest, ?_, Letter.readAll_written s.toList rest⟩
  simp [renderString]

end Eligibility.Json
