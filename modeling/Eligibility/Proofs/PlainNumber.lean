import Mathlib
import Eligibility.Rule.Source

namespace Eligibility

structure Digits (ds : List Char) : Prop where
  ne_nil : ds ≠ []
  digits : ∀ c ∈ ds, c.isDigit = true

namespace Digits

theorem zero : Digits ['0'] := ⟨by simp, by simp⟩

theorem isDigit_of_mem_zeros {n : Nat} {c : Char} (hc : c ∈ List.replicate n '0') :
    c.isDigit = true := by
  rw [List.eq_of_mem_replicate hc]
  rfl

theorem append_zeros {ds : List Char} (h : Digits ds) (n : Nat) :
    Digits (ds ++ List.replicate n '0') :=
  ⟨by simp [h.ne_nil], List.forall_mem_append.mpr ⟨h.digits, fun _ => isDigit_of_mem_zeros⟩⟩

theorem zeros_append {ds : List Char} (h : Digits ds) (n : Nat) :
    Digits (List.replicate n '0' ++ ds) :=
  ⟨by simp [h.ne_nil], List.forall_mem_append.mpr ⟨fun _ => isDigit_of_mem_zeros, h.digits⟩⟩

theorem toDigits (n : Nat) : Digits (Nat.toDigits 10 n) :=
  ⟨Nat.toDigits_ne_nil, fun _ hc => Nat.isDigit_of_mem_toDigits (by decide) (by decide) hc⟩

end Digits

namespace Double

/-- Digits, and optionally a point and further digits. -/
inductive IsDecimal : List Char → Prop where
  | whole {ds : List Char} (h : Digits ds) : IsDecimal ds
  | point {ds fs : List Char} (h : Digits ds) (hf : Digits fs) : IsDecimal (ds ++ '.' :: fs)

namespace Layout

/-- Digits written without an exponent mark, wherever the point falls: a point among digits, or no
point in a layout that does not ask for one. The first digit stays the first unless zeros precede. -/
theorem positional_cases (l : Layout) {ds : List Char} (h : Digits ds) (point : Int) :
    (∃ whole fs, l.positional ds point = whole ++ '.' :: fs ∧ Digits whole ∧ Digits fs ∧
      (whole = ['0'] ∨ whole.head? = ds.head?)) ∨
    (l.pointZero = false ∧ Digits (l.positional ds point)) := by
  unfold positional
  split
  · exact .inl ⟨['0'], _, rfl, .zero, h.zeros_append _, .inl rfl⟩
  · rename_i hp
    simp only
    split
    · rename_i hlt
      refine .inl ⟨ds.take point.toNat, ds.drop point.toNat, rfl, ⟨?_, ?_⟩, ⟨?_, ?_⟩, .inr ?_⟩
      · simp only [ne_eq, List.take_eq_nil_iff, h.ne_nil, or_false]
        omega
      · exact fun c hc => h.digits c (List.mem_of_mem_take hc)
      · simp only [ne_eq, List.drop_eq_nil_iff, not_le]
        exact hlt
      · exact fun c hc => h.digits c (List.mem_of_mem_drop hc)
      · rw [List.head?_take, if_neg (by omega)]
    · have hzeros := h.append_zeros (point.toNat - ds.length)
      cases hzero : l.pointZero with
      | true =>
        refine .inl ⟨_, ['0'], rfl, hzeros, .zero, .inr ?_⟩
        exact List.head?_append_of_ne_nil _ h.ne_nil
      | false =>
        rw [if_neg (by decide), List.append_nil]
        exact .inr ⟨rfl, hzeros⟩

/-- Digits without an exponent mark are a decimal, wherever the point is. -/
theorem positional_isDecimal (l : Layout) {ds : List Char} (h : Digits ds) (point : Int) :
    IsDecimal (l.positional ds point) := by
  rcases l.positional_cases h point with ⟨whole, fs, he, hwhole, hfs, -⟩ | ⟨-, hds⟩
  · rw [he]
    exact .point hwhole hfs
  · exact .whole hds

/-- A layout without exponents writes decimals only. -/
theorem magnitude_isDecimal (l : Layout) (h : l.plain = none) (units : Nat) :
    IsDecimal (l.magnitude units) := by
  unfold magnitude
  split
  · split
    · exact .point .zero .zero
    · exact .whole .zero
  · have hplain : ∀ n, l.isPlain n = true := by
      intro n
      simp [isPlain, h]
    simp only [decimal, hplain, if_true]
    exact l.positional_isDecimal (.toDigits _) _

end Layout

/-- A finite number in a program has no exponent and no letter. -/
theorem source_isDecimal {x : Double} (h : x.isFinite = true) :
    ∃ body, IsDecimal body ∧ (x.source.toList = body ∨ x.source.toList = '-' :: body) := by
  cases x with
  | nan => cases h
  | infinite negative => cases h
  | finite negative units fits =>
    refine ⟨sourceLayout.magnitude units, sourceLayout.magnitude_isDecimal rfl units, ?_⟩
    simp only [source, Layout.render, String.toList_ofList]
    split
    · exact .inr rfl
    · exact .inl rfl

def isNumberChar (c : Char) : Bool := c.isDigit || c == '.' || c == '-'

theorem IsDecimal.numberChar {cs : List Char} (h : IsDecimal cs) :
    ∀ c ∈ cs, isNumberChar c = true := by
  cases h with
  | whole h =>
    intro c hc
    simp [isNumberChar, h.digits c hc]
  | point h hf =>
    intro c hc
    rcases List.mem_append.mp hc with hc | hc
    · simp [isNumberChar, h.digits c hc]
    · rcases List.mem_cons.mp hc with rfl | hc
      · rfl
      · simp [isNumberChar, hf.digits c hc]

theorem IsDecimal.head {cs : List Char} (h : IsDecimal cs) :
    ∃ c r, cs = c :: r ∧ c.isDigit = true := by
  cases h with
  | whole h =>
    obtain ⟨c, r, rfl⟩ := List.exists_cons_of_ne_nil h.ne_nil
    exact ⟨c, r, rfl, h.digits c (by simp)⟩
  | point h hf =>
    obtain ⟨c, r, rfl⟩ := List.exists_cons_of_ne_nil h.ne_nil
    exact ⟨c, _, rfl, h.digits c (by simp)⟩

theorem source_numberChar {x : Double} (h : x.isFinite = true) :
    ∀ c ∈ x.source.toList, isNumberChar c = true := by
  obtain ⟨body, hb, he | he⟩ := source_isDecimal h
  · rw [he]
    exact hb.numberChar
  · rw [he]
    exact List.forall_mem_cons.mpr ⟨rfl, hb.numberChar⟩

/-- The text of a finite number starts with a digit or a minus sign. -/
theorem source_head {x : Double} (h : x.isFinite = true) :
    ∃ c r, x.source.toList = c :: r ∧ (c.isDigit = true ∨ c = '-') := by
  obtain ⟨body, hb, he | he⟩ := source_isDecimal h
  · obtain ⟨c, r, rfl, hc⟩ := hb.head
    exact ⟨c, r, he, .inl hc⟩
  · exact ⟨'-', body, he, .inr rfl⟩

end Double

end Eligibility
