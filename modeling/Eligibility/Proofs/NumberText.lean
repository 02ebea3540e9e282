import Mathlib
import Eligibility.Proofs.PlainNumber

namespace Eligibility

namespace Double

theorem natPow_pos {b : Nat} (hb : 0 < b) (n : Nat) : 0 < Nat.pow b n := Nat.pow_pos hb

theorem roundHalfEven_scale (num den : Nat) {k : Nat} (hk : 0 < k) :
    roundHalfEven (num * k) (den * k) = roundHalfEven num den := by
  have hlt : 2 * (num % den * k) < den * k ↔ 2 * (num % den) < den := by
    rw [← Nat.mul_assoc]
    exact Nat.mul_lt_mul_right hk
  have hgt : den * k < 2 * (num % den * k) ↔ den < 2 * (num % den) := by
    rw [← Nat.mul_assoc]
    exact Nat.mul_lt_mul_right hk
  simp only [roundHalfEven, Nat.mul_div_mul_right _ _ hk, Nat.mul_mod_mul_right, hlt, hgt]

theorem ofRatio_scale (negative : Bool) (num den : Nat) {k : Nat} (hk : 0 < k) :
    ofRatio negative (num * k) (den * k) = ofRatio negative num den := by
  have hsteps : num * k * Nat.pow 2 1074 = num * Nat.pow 2 1074 * k := Nat.mul_right_comm _ _ _
  have hden : ∀ spare, den * k * spare = den * spare * k := fun spare => Nat.mul_right_comm _ _ _
  simp only [ofRatio, hsteps, Nat.mul_div_mul_right _ _ hk, hden, roundHalfEven_scale _ _ hk]

/-- Rounding a quotient depends only on its value. -/
theorem ofRatio_congr (negative : Bool) {num den num' den' : Nat} (hden : 0 < den)
    (hden' : 0 < den') (h : num * den' = num' * den) :
    ofRatio negative num den = ofRatio negative num' den' := by
  rw [← ofRatio_scale negative num den hden', ← ofRatio_scale negative num' den' hden, h,
    Nat.mul_comm den den']

theorem roundHalfEven_exact (q : Nat) {den : Nat} (hden : 0 < den) :
    roundHalfEven (q * den) den = q := by
  simp [roundHalfEven, Nat.mul_div_cancel q hden, hden]

/-- A magnitude counts a whole number of gaps, so rounding leaves it as it is. -/
theorem ofRatio_units {units : Nat} (h : Fits units) :
    ofRatio false units (Nat.pow 2 1074) = ofUnits false units := by
  have hpos := natPow_pos (b := 2) (by decide) 1074
  have hgap : 0 < gap units := natPow_pos (by decide) _
  obtain ⟨q, hq⟩ := Nat.dvd_of_mod_eq_zero h.1
  have hprod : ∀ p, units * p = q * (p * gap units) := by
    intro p
    calc units * p = gap units * q * p := by rw [← hq]
      _ = q * (p * gap units) := by ring
  have hround : roundHalfEven (units * Nat.pow 2 1074) (Nat.pow 2 1074 * gap units) = q := by
    rw [hprod, roundHalfEven_exact q (Nat.mul_pos hpos hgap)]
  have hspare : Nat.pow 2 ((units * Nat.pow 2 1074 / Nat.pow 2 1074).log2 - 52) = gap units := by
    rw [Nat.mul_div_cancel _ hpos, gap]
  simp only [ofRatio]
  rw [hspare, hround, Nat.mul_comm, ← hq]

theorem ofUnits_of_fits {units : Nat} (h : Fits units) :
    ofUnits false units = finite false units h := by
  rw [ofUnits, dif_pos h]

end Double

namespace Decimal

def value (d : Decimal) : ℚ := d.digits * (10 : ℚ) ^ d.exponent

/-- Where a decimal reads as a positive magnitude, reading rounds its value. -/
theorem toDouble_eq_ofRatio {d : Decimal} {units : Nat} (hne : units ≠ 0)
    (fits : Double.Fits units) (h : d.toDouble false = .finite false units fits) :
    ∃ num den : Nat, 0 < den ∧ (num : ℚ) / den = d.value ∧
      Double.ofRatio false num den = .finite false units fits := by
  have hzero : Double.ofUnits false 0 ≠ .finite false units fits := by
    intro he
    rw [Double.ofUnits] at he
    split at he
    · cases he
      exact hne rfl
    · cases he
  unfold toDouble at h
  split at h
  · exact absurd h hzero
  · split at h
    · cases h
    · split at h
      · exact absurd h hzero
      · split at h
        · rename_i hexp
          refine ⟨_, 1, Nat.one_pos, ?_, h⟩
          obtain ⟨n, hn⟩ := Int.eq_ofNat_of_zero_le hexp
          simp [value, hn]
        · rename_i hexp
          refine ⟨_, _, Double.natPow_pos (by decide) _, ?_, h⟩
          obtain ⟨n, hn⟩ := Int.eq_ofNat_of_zero_le (show 0 ≤ -d.exponent by omega)
          have hd : d.exponent = -(n : ℤ) := by omega
          simp [value, hd, div_eq_mul_inv]

theorem toDouble_of_negative {negative : Bool} {d : Decimal} (hdigits : d.digits ≠ 0)
    (hexp : d.exponent < 0) (hwidth : -400 ≤ d.exponent + width d.digits) :
    d.toDouble negative = Double.ofRatio negative d.digits (Nat.pow 10 (-d.exponent).toNat) := by
  rw [toDouble, if_neg hdigits, if_neg (by omega), if_neg (by omega), if_neg (by omega)]

/-- Decimals of one value that read as positive magnitudes read as the same one. -/
theorem units_eq_of_value {d d' : Decimal} {u v : Nat} (hu : u ≠ 0) (hv : v ≠ 0)
    (fu : Double.Fits u) (fv : Double.Fits v) (h : d.toDouble false = .finite false u fu)
    (h' : d'.toDouble false = .finite false v fv) (hvalue : d.value = d'.value) : u = v := by
  obtain ⟨num, den, hden, hnum, hr⟩ := toDouble_eq_ofRatio hu fu h
  obtain ⟨num', den', hden', hnum', hr'⟩ := toDouble_eq_ofRatio hv fv h'
  have hcross : num * den' = num' * den := by
    rw [← hnum, ← hnum', div_eq_div_iff (by positivity) (by positivity)] at hvalue
    exact_mod_cast hvalue
  rw [Double.ofRatio_congr false hden hden' hcross, hr'] at hr
  cases hr
  rfl

end Decimal

namespace Double

theorem le_width_exact {units : Nat} (hne : units ≠ 0) :
    750 ≤ Decimal.width (units * Nat.pow 5 1074) := by
  have hle : Nat.pow 5 1074 ≤ units * Nat.pow 5 1074 :=
    Nat.le_mul_of_pos_left _ (Nat.pos_of_ne_zero hne)
  have hpow : 10 ^ 749 ≤ Nat.pow 5 1074 := by decide +kernel
  by_contra hlt
  have hw : (Nat.toDigits 10 (units * Nat.pow 5 1074)).length ≤ 749 := by
    unfold Decimal.width at hlt
    omega
  have := (Nat.length_toDigits_le_iff (by decide) (by decide)).mp hw
  omega

/-- The decimal of all digits reads back. -/
theorem toDouble_exactDecimal {units : Nat} (hne : units ≠ 0) (fits : Fits units) :
    (exactDecimal units).toDouble false = ofUnits false units := by
  have hwidth := le_width_exact hne
  have hdigits : units * Nat.pow 5 1074 ≠ 0 :=
    Nat.mul_ne_zero hne (Nat.pos_iff_ne_zero.mp (natPow_pos (by decide) 1074))
  have hten : ∀ n, Nat.pow 10 n = Nat.pow 5 n * Nat.pow 2 n := fun n => Nat.mul_pow 5 2 n
  rw [← ofRatio_units fits, Decimal.toDouble_of_negative (d := exactDecimal units) hdigits
    (show (-1074 : Int) < 0 by decide)
    (show (-400 : Int) ≤ -1074 + Decimal.width (units * Nat.pow 5 1074) by omega)]
  apply ofRatio_congr false (natPow_pos (by decide) _) (natPow_pos (by decide) _)
  change units * Nat.pow 5 1074 * Nat.pow 2 1074 = units * Nat.pow 10 1074
  rw [hten, Nat.mul_assoc]

/-- The chosen digits read back. -/
theorem toDouble_shortest (tie : Tie) {units : Nat} (hne : units ≠ 0) (fits : Fits units) :
    (shortest tie units).toDouble false = ofUnits false units := by
  unfold shortest
  cases hf : (List.range 17).findSome? fun i => onGrid tie units (i + 1) with
  | none => exact toDouble_exactDecimal hne fits
  | some d =>
    obtain ⟨i, _, hi⟩ := List.exists_of_findSome?_eq_some hf
    have := List.find?_some hi
    exact beq_iff_eq.mp this

/-- The value of digits with an optional point among them. -/
def textValue (cs : List Char) : ℚ :=
  let whole := cs.takeWhile (· != '.')
  let fraction := (cs.dropWhile (· != '.')).drop 1
  (Nat.ofDigitChars 10 (whole ++ fraction) 0 : ℚ) / 10 ^ fraction.length

theorem textValue_point {ds : List Char} (fs : List Char) (h : ∀ c ∈ ds, c.isDigit = true) :
    textValue (ds ++ '.' :: fs) = (Nat.ofDigitChars 10 (ds ++ fs) 0 : ℚ) / 10 ^ fs.length := by
  have hclass : ∀ c ∈ ds, (c != '.') = true := by
    intro c hc
    rw [bne_iff_ne]
    rintro rfl
    exact absurd (h _ hc) (by decide)
  simp [textValue, List.takeWhile_append_of_pos hclass, List.dropWhile_append_of_pos hclass]

theorem textValue_whole {ds : List Char} (h : ∀ c ∈ ds, c.isDigit = true) :
    textValue ds = (Nat.ofDigitChars 10 ds 0 : ℚ) := by
  have hclass : ∀ c ∈ ds, (c != '.') = true := by
    intro c hc
    rw [bne_iff_ne]
    rintro rfl
    exact absurd (h _ hc) (by decide)
  simp [textValue, List.takeWhile_eq_self_iff.mpr hclass, List.dropWhile_eq_nil_iff.mpr hclass]

theorem ofDigitChars_append_zeros (ds : List Char) (n : Nat) :
    Nat.ofDigitChars 10 (ds ++ List.replicate n '0') 0 = Nat.ofDigitChars 10 ds 0 * 10 ^ n := by
  induction n with
  | zero => simp
  | succ n ih =>
    rw [List.replicate_succ', ← List.append_assoc, Nat.ofDigitChars_append, ih]
    simp [Nat.ofDigitChars_cons, pow_succ]
    ring

theorem ofDigitChars_zeros_append (ds : List Char) (n : Nat) :
    Nat.ofDigitChars 10 (List.replicate n '0' ++ ds) 0 = Nat.ofDigitChars 10 ds 0 := by
  rw [Nat.ofDigitChars_append, Nat.ofDigitChars_replicate_zero]
  simp

theorem div_pow_eq_zpow (q : ℚ) {k : Nat} {e : Int} (h : e = -(k : Int)) :
    q / 10 ^ k = q * (10 : ℚ) ^ e := by
  rw [h, zpow_neg, zpow_natCast, div_eq_mul_inv]

/-- Digits written without an exponent mark keep their value, wherever the point falls. -/
theorem textValue_positional {l : Layout} (hl : l.pointZero = false) {ds : List Char}
    (h : Digits ds) (point : Int) :
    textValue (l.positional ds point) =
      (Nat.ofDigitChars 10 ds 0 : ℚ) * (10 : ℚ) ^ (point - ds.length) := by
  unfold Layout.positional
  split
  · have hv := textValue_point (List.replicate (-point).toNat '0' ++ ds)
      (show ∀ c ∈ ['0'], c.isDigit = true by simp)
    have hzeros : ['0'] ++ (List.replicate (-point).toNat '0' ++ ds) =
        List.replicate ((-point).toNat + 1) '0' ++ ds := rfl
    rw [hzeros, ofDigitChars_zeros_append] at hv
    refine hv.trans (div_pow_eq_zpow _ ?_)
    simp only [List.length_append, List.length_replicate]
    omega
  · simp only [hl, Bool.false_eq_true, if_false, List.append_nil]
    split
    · rename_i hlt
      rw [textValue_point _ (fun c hc => h.digits c (List.mem_of_mem_take hc)),
        List.take_append_drop]
      apply div_pow_eq_zpow
      simp only [List.length_drop]
      omega
    · rename_i hp hlt
      have hzeros := h.append_zeros (point.toNat - ds.length)
      have hexp : point - ds.length = ((point.toNat - ds.length : Nat) : Int) := by omega
      rw [textValue_whole hzeros.digits, ofDigitChars_append_zeros, hexp, zpow_natCast]
      push_cast
      rfl

theorem textValue_decimal {l : Layout} (hplain : l.plain = none) (hzero : l.pointZero = false)
    (d : Decimal) : textValue (l.decimal d) = d.value := by
  have hall : ∀ n, l.isPlain n = true := fun n => by simp [Layout.isPlain, hplain]
  simp only [Layout.decimal, hall, if_true]
  rw [textValue_positional hzero (.toDigits _), Nat.ofDigitChars_ten_toDigits, Decimal.value,
    add_sub_cancel_right]

/-- The text of a magnitude is zero only for zero, and else stands for a decimal that reads back. -/
theorem textValue_magnitude {l : Layout} (hplain : l.plain = none) (hzero : l.pointZero = false)
    {units : Nat} (hne : units ≠ 0) :
    textValue (l.magnitude units) = (shortest l.tie units).value := by
  rw [Layout.magnitude, if_neg hne, textValue_decimal hplain hzero]

theorem textValue_zero {l : Layout} (hzero : l.pointZero = false) :
    textValue (l.magnitude 0) = 0 := by
  rw [Layout.magnitude, if_pos rfl, hzero, if_neg (by decide),
    textValue_whole (show ∀ c ∈ ['0'], c.isDigit = true by simp)]
  rfl

theorem value_shortest_ne_zero (tie : Tie) {units : Nat} (hne : units ≠ 0) (fits : Fits units) :
    (shortest tie units).value ≠ 0 := by
  intro h
  have hread := toDouble_shortest tie hne fits
  have hdigits : (shortest tie units).digits = 0 := by
    have hten : (10 : ℚ) ^ (shortest tie units).exponent ≠ 0 := zpow_ne_zero _ (by norm_num)
    rcases mul_eq_zero.mp h with h | h
    · exact_mod_cast h
    · exact absurd h hten
  rw [Decimal.toDouble, if_pos hdigits, ofUnits_of_fits fits, ofUnits] at hread
  split at hread
  · cases hread
    exact hne rfl
  · cases hread

/-- Magnitudes with one text are the same. -/
theorem magnitude_inj {l : Layout} (hplain : l.plain = none) (hzero : l.pointZero = false)
    {u v : Nat} (hu : Fits u) (hv : Fits v) (h : l.magnitude u = l.magnitude v) : u = v := by
  have hvalue := congrArg textValue h
  by_cases hu0 : u = 0
  · by_cases hv0 : v = 0
    · rw [hu0, hv0]
    · rw [hu0, textValue_zero hzero, textValue_magnitude hplain hzero hv0] at hvalue
      exact absurd hvalue.symm (value_shortest_ne_zero l.tie hv0 hv)
  · by_cases hv0 : v = 0
    · rw [hv0, textValue_zero hzero, textValue_magnitude hplain hzero hu0] at hvalue
      exact absurd hvalue (value_shortest_ne_zero l.tie hu0 hu)
    · rw [textValue_magnitude hplain hzero hu0, textValue_magnitude hplain hzero hv0] at hvalue
      have hreadu := toDouble_shortest l.tie hu0 hu
      have hreadv := toDouble_shortest l.tie hv0 hv
      rw [ofUnits_of_fits hu] at hreadu
      rw [ofUnits_of_fits hv] at hreadv
      exact Decimal.units_eq_of_value hu0 hv0 hu hv hreadu hreadv hvalue

/-- A minus sign before digits can be told from digits. -/
theorem sign_append_inj {p q : Bool} {as bs : List Char} (ha : IsDecimal as) (hb : IsDecimal bs)
    (h : (if p = true then '-' :: as else as) = if q = true then '-' :: bs else bs) :
    p = q ∧ as = bs := by
  obtain ⟨a, as, rfl, hda⟩ := ha.head
  obtain ⟨b, bs, rfl, hdb⟩ := hb.head
  cases p <;> cases q <;> simp only [if_true, Bool.false_eq_true, if_false] at h
  · exact ⟨rfl, h⟩
  · rw [(List.cons.inj h).1] at hda
    exact absurd hda (by decide)
  · rw [← (List.cons.inj h).1] at hdb
    exact absurd hdb (by decide)
  · exact ⟨rfl, (List.cons.inj h).2⟩

/-- Finite numbers have one text in programs exactly when they are equal as values: either they are
the same number, or both are zero. -/
theorem source_eq_iff {x y : Double} (hx : x.isFinite = true) (hy : y.isFinite = true) :
    x.source = y.source ↔ x.same y = true := by
  cases x with
  | nan => cases hx
  | infinite s => cases hx
  | finite s u hu =>
    cases y with
    | nan => cases hy
    | infinite t => cases hy
    | finite t v hv =>
      simp only [same, beq_iff_eq]
      constructor
      · intro h
        rw [← String.toList_inj] at h
        simp only [source, Layout.render, String.toList_ofList] at h
        obtain ⟨hsign, hmagnitude⟩ := sign_append_inj (sourceLayout.magnitude_isDecimal rfl u)
          (sourceLayout.magnitude_isDecimal rfl v) h
        obtain rfl := magnitude_inj rfl rfl hu hv hmagnitude
        by_cases hu0 : u = 0
        · simp [signed, hu0]
        · have hshown : (u != 0) = true := bne_iff_ne.mpr hu0
          have : s = t := by simpa only [hshown, Bool.or_true, Bool.and_true] using hsign
          rw [this]
      · intro h
        simp only [signed] at h
        obtain rfl : u = v := by
          cases s <;> cases t <;> simp only [if_true, Bool.false_eq_true, if_false] at h <;> omega
        by_cases hu0 : u = 0
        · simp [source, Layout.render, sourceLayout, hu0]
        · have : s = t := by
            cases s <;> cases t <;> simp only [if_true, Bool.false_eq_true, if_false] at h ⊢ <;>
              omega
          rw [this]

end Double

end Eligibility
