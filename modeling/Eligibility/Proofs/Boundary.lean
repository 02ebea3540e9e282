import Mathlib

namespace Eligibility.Text

/-- A text does not go on with a character of a class. -/
def Stops (p : Char → Bool) (rest : List Char) : Prop := ∀ c ∈ rest.head?, p c = false

-- Not by search: the quantifier would be decided over all characters.
instance {p : Char → Bool} {rest : List Char} : Decidable (Stops p rest) :=
  decidable_of_iff (rest.head?.all (!p ·) = true) (by simp [Stops, Option.all_eq_true])

theorem Stops.cons {p : Char → Bool} {c : Char} (h : p c = false) (r : List Char) :
    Stops p (c :: r) := by
  intro d hd
  cases hd
  exact h

/-- A class that a part stops at its first character is stopped also with more text after. -/
theorem Stops.append {p : Char → Bool} {part : List Char} (h : Stops p part) (hne : part ≠ [])
    (more : List Char) : Stops p (part ++ more) := by
  cases part with
  | nil => exact absurd rfl hne
  | cons c part => exact .cons (h c rfl) _

theorem Stops.of_starts {p : Char → Bool} {rest part : List Char} (h : Stops p rest)
    (hpart : part <+: rest) : Stops p part := by
  intro c hc
  obtain ⟨more, rfl⟩ := hpart
  exact h c (List.mem_head?_append_of_mem_head? hc)

theorem Stops.takeWhile {p : Char → Bool} {rest : List Char} (h : Stops p rest) :
    rest.takeWhile p = [] := by
  cases rest with
  | nil => rfl
  | cons c rest => exact List.takeWhile_cons_of_neg (Bool.eq_false_iff.mp (h c rfl))

theorem Stops.dropWhile {p : Char → Bool} {rest : List Char} (h : Stops p rest) :
    rest.dropWhile p = rest := by
  cases rest with
  | nil => rfl
  | cons c rest => exact List.dropWhile_cons_of_neg (Bool.eq_false_iff.mp (h c rfl))

/-- What is left after the characters of a class are dropped does not go on with one. -/
theorem stops_dropWhile (p : Char → Bool) (cs : List Char) : Stops p (cs.dropWhile p) := by
  intro c hc
  have hhead := List.head?_dropWhile_not p cs
  rw [Option.mem_def.mp hc] at hhead
  exact hhead

/-- The characters of a class are taken up to where the text stops it. -/
theorem takeWhile_append {p : Char → Bool} {as rest : List Char} (has : ∀ c ∈ as, p c = true)
    (hrest : Stops p rest) : (as ++ rest).takeWhile p = as := by
  rw [List.takeWhile_append_of_pos has, hrest.takeWhile, List.append_nil]

theorem dropWhile_append {p : Char → Bool} {as rest : List Char} (has : ∀ c ∈ as, p c = true)
    (hrest : Stops p rest) : (as ++ rest).dropWhile p = rest := by
  rw [List.dropWhile_append_of_pos has, hrest.dropWhile]

/-- Two words of one class that stop where the class stops are the same word. -/
theorem append_inj_of_stops {p : Char → Bool} {as bs r r' : List Char}
    (ha : ∀ c ∈ as, p c = true) (hb : ∀ c ∈ bs, p c = true) (hr : Stops p r) (hr' : Stops p r')
    (h : as ++ r = bs ++ r') : as = bs ∧ r = r' := by
  constructor
  · rw [← takeWhile_append ha hr, h, takeWhile_append hb hr']
  · rw [← dropWhile_append ha hr, h, dropWhile_append hb hr']

end Eligibility.Text
