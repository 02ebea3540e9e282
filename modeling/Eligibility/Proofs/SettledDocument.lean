import Mathlib
import Eligibility.Proofs.DocumentText
import Eligibility.Proofs.Schema

namespace Eligibility

namespace Double

theorem roundHalfEven_le (num den : Nat) : roundHalfEven num den ≤ num / den + 1 := by
  unfold roundHalfEven
  dsimp only
  split
  · omega
  · split <;> omega

theorem scaled_lt {m a : Nat} (h : m < 2 ^ a) (b : Nat) : m * Nat.pow 2 b < 2 ^ (a + b) := by
  rw [pow_add]
  exact Nat.mul_lt_mul_of_pos_right h (Nat.pow_pos (by decide))

/-- At most 53 bits with zeros after them are a magnitude, if they are in range. -/
theorem fits_scaled {m s : Nat} (hm : m ≤ 2 ^ 53) (hs : 53 + s < 2098) :
    Fits (m * Nat.pow 2 s) := by
  have hrange : ∀ k, 53 + s < k → m * Nat.pow 2 s < Nat.pow 2 k := by
    intro k hk
    calc
      m * 2 ^ s ≤ 2 ^ 53 * 2 ^ s := Nat.mul_le_mul_right _ hm
      _ = 2 ^ (53 + s) := (pow_add 2 53 s).symm
      _ < 2 ^ k := Nat.pow_lt_pow_right (by decide) hk
  unfold Fits
  refine ⟨Nat.mod_eq_zero_of_dvd ?_, hrange 2098 hs⟩
  unfold gap
  rcases Nat.lt_or_eq_of_le hm with hlt | rfl
  · apply Dvd.dvd.mul_left
    apply Nat.pow_dvd_pow
    rcases Nat.eq_zero_or_pos m with rfl | hpos
    · simp
    have hlog : (m * 2 ^ s).log2 < 53 + s := (Nat.log2_lt (by positivity)).mpr (scaled_lt hlt s)
    change (m * 2 ^ s).log2 - 52 ≤ s
    omega
  · -- Rounding went up to the next power of two, where the gap is twice as wide.
    have hpower : 2 ^ 53 * Nat.pow 2 s = 2 ^ (53 + s) := (pow_add 2 53 s).symm
    rw [hpower, Nat.log2_two_pow]
    apply Nat.pow_dvd_pow
    omega

/-- A count of steps well below the range rounds to a magnitude. -/
theorem fits_rounded {steps k : Nat} (h : steps < 2 ^ k) (hk : k ≤ 2096) :
    Fits (roundHalfEven steps (Nat.pow 2 (steps.log2 - 52)) * Nat.pow 2 (steps.log2 - 52)) := by
  have hlog : steps.log2 ≤ k := by
    rcases Nat.eq_zero_or_pos steps with rfl | hpos
    · simp
    · exact Nat.le_of_lt ((Nat.log2_lt (by omega)).mpr h)
  have hquotient : steps / Nat.pow 2 (steps.log2 - 52) < 2 ^ 53 := by
    apply Nat.div_lt_of_lt_mul
    refine Nat.lt_of_lt_of_le Nat.lt_log2_self ?_
    change 2 ^ (steps.log2 + 1) ≤ 2 ^ (steps.log2 - 52) * 2 ^ 53
    rw [← pow_add]
    exact Nat.pow_le_pow_right (by decide) (by omega)
  have hround := roundHalfEven_le steps (Nat.pow 2 (steps.log2 - 52))
  exact fits_scaled (by omega) (by omega)

/-- A whole number of at most 64 bits is in range. -/
theorem isFinite_ofRatio_whole (negative : Bool) {m : Nat} (hm : m < 2 ^ 64) :
    (ofRatio negative m 1).isFinite = true := by
  unfold ofRatio
  dsimp only
  rw [Nat.div_one, Nat.one_mul, ofUnits, dif_pos (fits_rounded (scaled_lt hm _) (by decide))]
  rfl

theorem isFinite_withSign (negative : Bool) (x : Double) :
    (x.withSign negative).isFinite = x.isFinite := by
  cases x <;> rfl

end Double

theorem exists_mem_of_forall₂ {α β : Type} {R : α → β → Prop} {as : List α} {bs : List β}
    (h : List.Forall₂ R as bs) {b : β} (hb : b ∈ bs) : ∃ a ∈ as, R a b := by
  induction h with
  | nil => cases hb
  | cons hab _ ih =>
    rcases List.mem_cons.mp hb with rfl | hb
    · exact ⟨_, List.mem_cons_self, hab⟩
    · obtain ⟨a, ha, hR⟩ := ih hb
      exact ⟨a, List.mem_cons_of_mem _ ha, hR⟩

namespace Json

mutual
def numbers : Json → List Double
  | .number m => [m.toDouble]
  | .array items => numbersItems items
  | .object members => numbersMembers members
  | _ => []
def numbersItems : List Json → List Double
  | [] => []
  | j :: js => numbers j ++ numbersItems js
def numbersMembers : List (String × Json) → List Double
  | [] => []
  | (_, j) :: ms => numbers j ++ numbersMembers ms
end

theorem mem_numbers_array {items : List Json} {x : Double} :
    x ∈ (Json.array items).numbers ↔ ∃ j ∈ items, x ∈ j.numbers := by
  rw [numbers]
  induction items with
  | nil => simp [numbersItems]
  | cons j js ih => simp [numbersItems, ih]

theorem mem_numbers_object {members : List (String × Json)} {x : Double} :
    x ∈ (Json.object members).numbers ↔ ∃ m ∈ members, x ∈ m.2.numbers := by
  rw [numbers]
  induction members with
  | nil => simp [numbersMembers]
  | cons m ms ih =>
    obtain ⟨key, j⟩ := m
    simp [numbersMembers, ih]

theorem depthItems_le_iff {items : List Json} {d : Nat} :
    depthItems items ≤ d ↔ ∀ j ∈ items, j.depth ≤ d := by
  induction items with
  | nil => simp [depthItems]
  | cons j js ih => simp [depthItems, ih]

theorem depthMembers_le_iff {members : List (String × Json)} {d : Nat} :
    depthMembers members ≤ d ↔ ∀ m ∈ members, m.2.depth ≤ d := by
  induction members with
  | nil => simp [depthMembers]
  | cons m ms ih =>
    obtain ⟨key, j⟩ := m
    simp [depthMembers, ih]

namespace Numeral

theorem isFinite_of_scaled? {d : Decimal} {x : Double} (h : scaled? d = some x) :
    x.isFinite = true := by
  unfold scaled? at h
  obtain ⟨hfinite, hx⟩ := Option.ite_none_right_eq_some.mp h
  rw [← Option.some.inj hx]
  exact hfinite

/-- A numeral that stays whole has at most 64 bits. -/
theorem natAbs_lt_of_integer? {n : Numeral} {i : Int} (h : n.integer? = some i) :
    i.natAbs < 2 ^ 64 := by
  unfold integer? at h
  dsimp only at h
  split at h
  · cases h
  · split at h
    · obtain ⟨hrange, hi⟩ := Option.ite_none_right_eq_some.mp h
      rw [← Option.some.inj hi, Int.natAbs_neg, Int.natAbs_natCast]
      exact Nat.lt_of_le_of_lt hrange.2 (by decide)
    · obtain ⟨hrange, hi⟩ := Option.ite_none_right_eq_some.mp h
      rw [← Option.some.inj hi, Int.natAbs_natCast]
      exact hrange

/-- A numeral stands for a finite number. -/
theorem isFinite_of_value? {n : Numeral} {m : Number} (h : n.value? = some m) :
    m.toDouble.isFinite = true := by
  unfold value? at h
  cases hinteger : n.integer? with
  | some i =>
    rw [hinteger] at h
    cases h
    exact Double.isFinite_ofRatio_whole _ (natAbs_lt_of_integer? hinteger)
  | none =>
    rw [hinteger] at h
    obtain ⟨x, hx, rfl⟩ := Option.map_eq_some_iff.mp h
    exact (Double.isFinite_withSign _ x).trans (isFinite_of_scaled? hx)

end Numeral

namespace Draft

/-- Items settle one by one, all in the same room. -/
theorem settleItems?_eq_some {ds : List Draft} {room : Nat} {js : List Json} :
    settleItems? ds room = some js ↔
      List.Forall₂ (fun d j => d.settle? room = some j) ds js := by
  induction ds generalizing js with
  | nil => simp [settleItems?, eq_comm]
  | cons d ds ih =>
    simp only [settleItems?, Option.bind_eq_bind, Option.bind_eq_some_iff, Option.pure_def,
      Option.some.injEq, List.forall₂_cons_left_iff, ih]
    constructor
    · rintro ⟨j, hj, js, hjs, rfl⟩
      exact ⟨j, js, hj, hjs, rfl⟩
    · rintro ⟨j, js, hj, hjs, rfl⟩
      exact ⟨j, hj, js, hjs, rfl⟩

theorem settleMembers?_eq_some {ds : List (List Letter × Draft)} {room : Nat}
    {ms : List (String × Json)} :
    settleMembers? ds room = some ms ↔
      List.Forall₂ (fun d m => Letter.text? d.1 = some m.1 ∧ d.2.settle? room = some m.2)
        ds ms := by
  induction ds generalizing ms with
  | nil => simp [settleMembers?, eq_comm]
  | cons d ds ih =>
    obtain ⟨letters, d⟩ := d
    simp only [settleMembers?, Option.bind_eq_bind, Option.bind_eq_some_iff, Option.pure_def,
      Option.some.injEq, List.forall₂_cons_left_iff, ih]
    constructor
    · rintro ⟨key, hkey, j, hj, ms, hms, rfl⟩
      exact ⟨(key, j), ms, ⟨hkey, hj⟩, hms, rfl⟩
    · rintro ⟨⟨key, j⟩, ms, ⟨hkey, hj⟩, hms, rfl⟩
      exact ⟨key, hkey, j, hj, ms, hms, rfl⟩

/-- A container that settles is closed, and its contents settle in one room less. -/
theorem settle?_array {ds : List Draft} {closed : Bool} {room : Nat} {j : Json} :
    (Draft.array ds closed).settle? room = some j ↔
      closed = true ∧ ∃ r js, room = r + 1 ∧ settleItems? ds r = some js ∧ j = .array js := by
  cases closed with
  | false => simp [settle?]
  | true =>
    cases room with
    | zero => simp [settle?]
    | succ room => simp [settle?, eq_comm]

theorem settle?_object {ds : List (List Letter × Draft)} {closed : Bool} {room : Nat} {j : Json} :
    (Draft.object ds closed).settle? room = some j ↔
      closed = true ∧ ∃ r ms, room = r + 1 ∧ settleMembers? ds r = some ms ∧ j = .object ms := by
  cases closed with
  | false => simp [settle?]
  | true =>
    cases room with
    | zero => simp [settle?]
    | succ room => simp [settle?, eq_comm]

/-- A document stays within its room, and its numbers are finite. -/
theorem settle?_within {d : Draft} {room : Nat} {j : Json} (h : d.settle? room = some j) :
    j.depth ≤ room ∧ ∀ x ∈ j.numbers, x.isFinite = true := by
  -- Each container takes one from the room, so the induction is on the room.
  induction room using Nat.strong_induction_on generalizing d j with
  | h room ih =>
    cases d with
    | null =>
      cases h
      simp [depth, numbers]
    | bool b =>
      cases h
      simp [depth, numbers]
    | number n =>
      obtain ⟨m, hm, rfl⟩ := Option.map_eq_some_iff.mp h
      exact ⟨Nat.zero_le room, by simpa [numbers] using Numeral.isFinite_of_value? hm⟩
    | string letters =>
      obtain ⟨s, -, rfl⟩ := Option.map_eq_some_iff.mp h
      simp [depth, numbers]
    | array ds closed =>
      obtain ⟨-, r, js, rfl, hjs, rfl⟩ := settle?_array.mp h
      have hitems : ∀ j ∈ js, j.depth ≤ r ∧ ∀ x ∈ j.numbers, x.isFinite = true := by
        intro j hj
        obtain ⟨d, -, hd⟩ := exists_mem_of_forall₂ (settleItems?_eq_some.mp hjs) hj
        exact ih r (Nat.lt_succ_self r) hd
      constructor
      · exact Nat.succ_le_succ (depthItems_le_iff.mpr fun j hj => (hitems j hj).1)
      · intro x hx
        obtain ⟨j, hj, hx⟩ := mem_numbers_array.mp hx
        exact (hitems j hj).2 x hx
    | object ds closed =>
      obtain ⟨-, r, ms, rfl, hms, rfl⟩ := settle?_object.mp h
      have hmembers : ∀ m ∈ ms, m.2.depth ≤ r ∧ ∀ x ∈ m.2.numbers, x.isFinite = true := by
        intro m hm
        obtain ⟨d, -, -, hd⟩ := exists_mem_of_forall₂ (settleMembers?_eq_some.mp hms) hm
        exact ih r (Nat.lt_succ_self r) hd
      constructor
      · exact Nat.succ_le_succ (depthMembers_le_iff.mpr fun m hm => (hmembers m hm).1)
      · intro x hx
        obtain ⟨m, hm, hx⟩ := mem_numbers_object.mp hx
        exact (hmembers m hm).2 x hx
    | broken => cases h

end Draft

end Json

end Eligibility
