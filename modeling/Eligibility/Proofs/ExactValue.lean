import Mathlib
import Eligibility.Double

namespace Eligibility

namespace Double

theorem fits_zero : Fits 0 := by
  have hpos : ∀ n, 0 < Nat.pow 2 n := fun n => Nat.two_pow_pos n
  exact ⟨rfl, hpos 2098⟩

theorem fits_one : Fits 1 := by
  have hlt : ∀ n, 0 < n → 1 < Nat.pow 2 n := fun n hn => Nat.one_lt_two_pow hn.ne'
  exact ⟨rfl, hlt 2098 (by decide)⟩

/-- The exact value of a number; `nan` has none. -/
def value? : Double → Option (WithBot (WithTop ℚ))
  | nan => none
  | infinite true => some ⊥
  | infinite false => some ⊤
  | finite negative units _ => some (((signed negative units : ℚ) / 2 ^ 1074 : ℚ) : WithTop ℚ)

def Less (x y : Double) : Prop := ∃ p q, x.value? = some p ∧ y.value? = some q ∧ p < q

def AtMost (x y : Double) : Prop := ∃ p q, x.value? = some p ∧ y.value? = some q ∧ p ≤ q

/-- Values are ordered as the counts of least steps are. -/
theorem steps_lt {a b : Int} : (a : ℚ) / 2 ^ 1074 < (b : ℚ) / 2 ^ 1074 ↔ a < b := by
  rw [div_lt_div_iff_of_pos_right (by positivity)]
  exact Int.cast_lt

theorem steps_inj {a b : Int} : (a : ℚ) / 2 ^ 1074 = (b : ℚ) / 2 ^ 1074 ↔ a = b := by
  rw [div_left_inj' (by positivity)]
  exact Int.cast_inj

/-- The order of numbers is that of their exact values. -/
theorem below_iff {x y : Double} : x.below y = true ↔ x.Less y := by
  unfold Less
  cases x with
  | nan => simp [below, value?]
  | infinite s =>
    cases y with
    | nan => cases s <;> simp [below, value?]
    | infinite t => cases s <;> cases t <;> simp [below, value?]
    | finite t v hv =>
      cases s with
      | false => simp [below, value?]
      | true => simp [below, value?, WithBot.bot_lt_coe]
  | finite s u hu =>
    cases y with
    | nan => simp [below, value?]
    | infinite t =>
      cases t with
      | false =>
        have htop : ∀ q : ℚ, ((q : WithTop ℚ) : WithBot (WithTop ℚ)) < ⊤ :=
          fun q => WithBot.coe_lt_coe.mpr (WithTop.coe_lt_top q)
        simp [below, value?, htop]
      | true => simp [below, value?]
    | finite t v hv => simp [below, value?, steps_lt]

/-- Equal numbers are those of one exact value. -/
theorem same_iff {x y : Double} :
    x.same y = true ↔ ∃ p, x.value? = some p ∧ y.value? = some p := by
  cases x with
  | nan => simp [same, value?]
  | infinite s =>
    cases y with
    | nan => cases s <;> simp [same, value?]
    | infinite t => cases s <;> cases t <;> simp [same, value?]
    | finite t v hv =>
      have htop : ∀ q : ℚ, ((q : WithTop ℚ) : WithBot (WithTop ℚ)) ≠ ⊤ :=
        fun q => (WithBot.coe_lt_coe.mpr (WithTop.coe_lt_top q)).ne
      cases s <;> simp [same, value?, htop]
  | finite s u hu =>
    cases y with
    | nan => simp [same, value?]
    | infinite t =>
      have htop : ∀ q : ℚ, (⊤ : WithBot (WithTop ℚ)) ≠ (q : WithTop ℚ) :=
        fun q => (WithBot.coe_lt_coe.mpr (WithTop.coe_lt_top q)).ne'
      cases t <;> simp [same, value?, htop]
    | finite t v hv =>
      rw [same, beq_iff_eq, ← steps_inj]
      simp only [value?, Option.some.injEq, exists_eq_left', WithBot.coe_inj, WithTop.coe_inj]
      exact eq_comm

theorem exists_value {x : Double} (h : x.isFinite = true) : ∃ p, x.value? = some p := by
  cases x with
  | nan => cases h
  | infinite s => cases h
  | finite s u hu => exact ⟨_, rfl⟩

/-- Finite numbers are linearly ordered by value. -/
theorem atMost_of_not_less {x y : Double} (hx : x.isFinite = true) (hy : y.isFinite = true)
    (h : ¬ y.Less x) : x.AtMost y := by
  obtain ⟨p, hp⟩ := exists_value hx
  obtain ⟨q, hq⟩ := exists_value hy
  refine ⟨p, q, hp, hq, ?_⟩
  by_contra hlt
  exact h ⟨q, p, hq, hp, not_le.mp hlt⟩

theorem AtMost.refl {x : Double} (h : x.isFinite = true) : x.AtMost x := by
  obtain ⟨p, hp⟩ := exists_value h
  exact ⟨p, p, hp, hp, le_refl p⟩

theorem AtMost.trans {x y z : Double} (h : x.AtMost y) (h' : y.AtMost z) : x.AtMost z := by
  obtain ⟨p, q, hp, hq, hle⟩ := h
  obtain ⟨q', r, hq', hr, hle'⟩ := h'
  cases hq.symm.trans hq'
  exact ⟨p, r, hp, hr, hle.trans hle'⟩

theorem Less.trans_atMost {x y z : Double} (h : x.Less y) (h' : y.AtMost z) : x.Less z := by
  obtain ⟨p, q, hp, hq, hlt⟩ := h
  obtain ⟨q', r, hq', hr, hle⟩ := h'
  cases hq.symm.trans hq'
  exact ⟨p, r, hp, hr, hlt.trans_le hle⟩

theorem AtMost.trans_less {x y z : Double} (h : x.AtMost y) (h' : y.Less z) : x.Less z := by
  obtain ⟨p, q, hp, hq, hle⟩ := h
  obtain ⟨q', r, hq', hr, hlt⟩ := h'
  cases hq.symm.trans hq'
  exact ⟨p, r, hp, hr, hle.trans_lt hlt⟩

theorem Less.irrefl {x : Double} : ¬ x.Less x := by
  rintro ⟨p, q, hp, hq, hlt⟩
  cases hp.symm.trans hq
  exact lt_irrefl p hlt

theorem Less.atMost {x y : Double} (h : x.Less y) : x.AtMost y := by
  obtain ⟨p, q, hp, hq, hlt⟩ := h
  exact ⟨p, q, hp, hq, hlt.le⟩

/-- The larger of two finite numbers, and of equals the first. -/
theorem max_of_finite {x y : Double} (hx : x.isFinite = true) (hy : y.isFinite = true) :
    x.max y = if x.below y then y else x := by
  cases x with
  | finite s u hu =>
    cases y with
    | finite t v hv => rfl
    | _ => cases hy
  | _ => cases hx

/-- The smaller of two finite numbers, and of equals the first. -/
theorem min_of_finite {x y : Double} (hx : x.isFinite = true) (hy : y.isFinite = true) :
    x.min y = if y.below x then y else x := by
  cases x with
  | finite s u hu =>
    cases y with
    | finite t v hv => rfl
    | _ => cases hy
  | _ => cases hx

end Double

end Eligibility
