import Mathlib
import Eligibility.Proofs.ExactValue
import Eligibility.Review.Bounds

namespace Eligibility

namespace Literal

/-- Equal as values, numbers by exact value. -/
inductive Equals : Literal → Literal → Prop where
  | number {x y : Double} {p : WithBot (WithTop ℚ)} (hx : x.value? = some p)
      (hy : y.value? = some p) : Equals (.number x) (.number y)
  | text (s : String) : Equals (.text s) (.text s)
  | truth (b : Bool) : Equals (.truth b) (.truth b)

theorem same_iff {v w : Literal} : v.same w = true ↔ v.Equals w := by
  constructor
  · intro h
    cases v <;> cases w <;> simp only [same, beq_iff_eq, Bool.false_eq_true] at h
    case number x y =>
      obtain ⟨p, hx, hy⟩ := Double.same_iff.mp h
      exact .number hx hy
    case text s t => exact h ▸ .text s
    case truth a b => exact h ▸ .truth a
  · intro h
    cases h with
    | number hx hy => exact Double.same_iff.mpr ⟨_, hx, hy⟩
    | text s => simp [same]
    | truth b => simp [same]

theorem Equals.symm {v w : Literal} (h : v.Equals w) : w.Equals v := by
  cases h with
  | number hx hy => exact .number hy hx
  | text s => exact .text s
  | truth b => exact .truth b

theorem Equals.trans {u v w : Literal} (h : u.Equals v) (h' : v.Equals w) : u.Equals w := by
  cases h with
  | number hx hy =>
    cases h' with
    | number hy' hz => exact .number hx (Option.some.inj (hy'.symm.trans hy) ▸ hz)
  | text s => exact h'
  | truth b => exact h'

/-- The value stands to a literal as the operator asks. An order with something that is no number
asks for nothing. -/
def Meets (v : Literal) : Operator → Literal → Prop
  | .atLeast, .number n => ∃ x, v = .number x ∧ n.AtMost x
  | .atMost, .number n => ∃ x, v = .number x ∧ x.AtMost n
  | .equal, w => v.Equals w
  | _, _ => True

end Literal

/-- Two comparisons of one variable that no value meets both. -/
inductive Clash : Operator → Literal → Operator → Literal → Prop where
  | crossed {l u : Double} (h : u.Less l) : Clash .atLeast (.number l) .atMost (.number u)
  | different {v w : Literal} (h : ¬ v.Equals w) : Clash .equal v .equal w
  | tooSmall {x l : Double} (h : x.Less l) : Clash .equal (.number x) .atLeast (.number l)
  | tooLarge {x u : Double} (h : u.Less x) : Clash .equal (.number x) .atMost (.number u)

/-- Of equal numbers, what is above one is above the other. -/
theorem Literal.Equals.less {x y z : Double} (h : (Literal.number x).Equals (.number y))
    (hlt : x.Less z) : y.Less z := by
  obtain ⟨p, q, hp, hq, hlt⟩ := hlt
  cases h with
  | number hx hy => exact ⟨_, q, hy, hq, Option.some.inj (hp.symm.trans hx) ▸ hlt⟩

/-- Of equal numbers, what is below one is below the other. -/
theorem Literal.Equals.greater {x y z : Double} (h : (Literal.number x).Equals (.number y))
    (hlt : z.Less x) : z.Less y := by
  obtain ⟨p, q, hp, hq, hlt⟩ := hlt
  cases h with
  | number hx hy => exact ⟨p, _, hp, hy, Option.some.inj (hq.symm.trans hx) ▸ hlt⟩

theorem Clash.not_meets {o o' : Operator} {v v' w : Literal} (h : Clash o v o' v')
    (hv : w.Meets o v) : ¬ w.Meets o' v' := by
  intro hv'
  cases h with
  | crossed h =>
    obtain ⟨x, rfl, hx⟩ := hv
    obtain ⟨y, hy, hle⟩ := hv'
    cases hy
    exact Double.Less.irrefl (h.trans_atMost (hx.trans hle))
  | different h => exact h (hv.symm.trans hv')
  | tooSmall h =>
    obtain ⟨x, rfl, hx⟩ := hv'
    exact Double.Less.irrefl ((hv.symm.less h).trans_atMost hx)
  | tooLarge h =>
    obtain ⟨x, rfl, hx⟩ := hv'
    exact Double.Less.irrefl (hx.trans_less (hv.symm.greater h))

/-- The number of a set that is farthest in an order, if the set has any. -/
structure Farthest (before : Double → Double → Prop) (among : Double → Prop)
    (best : Option Double) : Prop where
  mem : ∀ l, best = some l → among l
  reach : ∀ n, among n → ∃ l, best = some l ∧ before n l

namespace Farthest

variable {before : Double → Double → Prop} {among among' : Double → Prop} {best : Option Double}

theorem congr (h : Farthest before among best) (hiff : ∀ n, among' n ↔ among n) :
    Farthest before among' best :=
  ⟨fun l hl => (hiff l).mpr (h.mem l hl), fun n hn => h.reach n ((hiff n).mp hn)⟩

/-- With one number more, the farther of it and the best so far is the best. -/
theorem insert (h : Farthest before among best) {x : Double} {pick : Double → Double → Double}
    (refl : before x x) (trans : ∀ {a b c}, before a b → before b c → before a c)
    (farther : ∀ l, among l → pick l x = l ∧ before x l ∨ pick l x = x ∧ before l x) :
    Farthest before (fun n => among n ∨ n = x) (some (best.elim x fun l => pick l x)) := by
  cases best with
  | none =>
    refine ⟨fun l hl => .inr (Option.some.inj hl).symm, fun n hn => ⟨x, rfl, ?_⟩⟩
    rcases hn with hn | rfl
    · obtain ⟨l, hl, _⟩ := h.reach n hn
      cases hl
    · exact refl
  | some m =>
    have hm := h.mem m rfl
    have hreach : ∀ n, among n → before n m := by
      intro n hn
      obtain ⟨l, hl, hle⟩ := h.reach n hn
      exact Option.some.inj hl ▸ hle
    simp only [Option.elim_some]
    rcases farther m hm with ⟨hpick, hle⟩ | ⟨hpick, hle⟩
    · rw [hpick]
      refine ⟨fun l hl => .inl (Option.some.inj hl ▸ hm), fun n hn => ⟨m, rfl, ?_⟩⟩
      rcases hn with hn | rfl
      · exact hreach n hn
      · exact hle
    · rw [hpick]
      refine ⟨fun l hl => .inr (Option.some.inj hl).symm, fun n hn => ⟨x, rfl, ?_⟩⟩
      rcases hn with hn | rfl
      · exact trans (hreach n hn) hle
      · exact refl

end Farthest

theorem Double.max_cases {x y : Double} (hx : x.isFinite = true) (hy : y.isFinite = true) :
    x.max y = x ∧ y.AtMost x ∨ x.max y = y ∧ x.AtMost y := by
  rw [max_of_finite hx hy]
  by_cases h : x.below y = true
  · exact .inr ⟨if_pos h, (below_iff.mp h).atMost⟩
  · exact .inl ⟨if_neg h, atMost_of_not_less hy hx fun hlt => h (below_iff.mpr hlt)⟩

theorem Double.min_cases {x y : Double} (hx : x.isFinite = true) (hy : y.isFinite = true) :
    x.min y = x ∧ x.AtMost y ∨ x.min y = y ∧ y.AtMost x := by
  rw [min_of_finite hx hy]
  by_cases h : y.below x = true
  · exact .inr ⟨if_pos h, (below_iff.mp h).atMost⟩
  · exact .inl ⟨if_neg h, atMost_of_not_less hx hy fun hlt => h (below_iff.mpr hlt)⟩

def FiniteBounds (cs : List (String × Operator × Literal)) : Prop :=
  ∀ name o x, (name, o, Literal.number x) ∈ cs → x.isFinite = true

namespace Bounds

/-- The bounds are the tightest ones that the comparisons of a variable ask for. -/
structure Gathers (b : Bounds) (cs : List (String × Operator × Literal)) (name : String) :
    Prop where
  lower : Farthest Double.AtMost (fun n => (name, .atLeast, .number n) ∈ cs) b.lower
  upper : Farthest (fun n u => u.AtMost n) (fun n => (name, .atMost, .number n) ∈ cs) b.upper
  equal : ∀ v, v ∈ b.equal ↔ (name, .equal, v) ∈ cs

variable {b : Bounds} {cs : List (String × Operator × Literal)} {name : String}

theorem gathers_free (name : String) : Gathers free [] name :=
  ⟨⟨by simp [free], by simp⟩, ⟨by simp [free], by simp⟩, by simp [free]⟩

/-- A comparison of another variable changes nothing. -/
theorem Gathers.skip (h : Gathers b cs name) {other : String} (hne : other ≠ name) (o : Operator)
    (v : Literal) : Gathers b (cs ++ [(other, o, v)]) name := by
  have hother : ∀ e : Operator × Literal, (name, e) ≠ (other, o, v) :=
    fun e he => hne (congrArg Prod.fst he).symm
  refine ⟨h.lower.congr fun n => ?_, h.upper.congr fun n => ?_, fun w => ?_⟩
  · simp [hother]
  · simp [hother]
  · simp [hother, h.equal w]

/-- A comparison of the variable tightens the bounds. -/
theorem Gathers.add (h : Gathers b cs name) {o : Operator} {v : Literal}
    (hfinite : FiniteBounds (cs ++ [(name, o, v)])) :
    Gathers (b.add o v) (cs ++ [(name, o, v)]) name := by
  have hlast : ∀ x, v = .number x → x.isFinite = true :=
    fun x hx => hfinite name o x (by simp [hx])
  have hbefore : ∀ o' x, (name, o', .number x) ∈ cs → x.isFinite = true :=
    fun o' x hx => hfinite name o' x (List.mem_append_left _ hx)
  cases o with
  | equal =>
    refine ⟨h.lower.congr fun n => by simp, h.upper.congr fun n => by simp, fun w => ?_⟩
    simp [Bounds.add, h.equal w]
  | atLeast =>
    cases v with
    | number x =>
      have hx := hlast x rfl
      have hbest := h.lower.insert (.refl hx) Double.AtMost.trans
        fun l hl => Double.max_cases (hbefore _ l hl) hx
      exact ⟨hbest.congr fun n => by simp, h.upper.congr fun n => by simp,
        fun w => by simp [Bounds.add, Literal.number?, h.equal w]⟩
    | _ =>
      exact ⟨h.lower.congr fun n => by simp, h.upper.congr fun n => by simp,
        fun w => by simp [Bounds.add, Literal.number?, h.equal w]⟩
  | atMost =>
    cases v with
    | number x =>
      have hx := hlast x rfl
      have hbest := h.upper.insert (.refl hx) (fun hab hbc => hbc.trans hab)
        fun l hl => Double.min_cases (hbefore _ l hl) hx
      exact ⟨h.lower.congr fun n => by simp, hbest.congr fun n => by simp,
        fun w => by simp [Bounds.add, Literal.number?, h.equal w]⟩
    | _ =>
      exact ⟨h.lower.congr fun n => by simp, h.upper.congr fun n => by simp,
        fun w => by simp [Bounds.add, Literal.number?, h.equal w]⟩

theorem ofVar_concat (cs : List (String × Operator × Literal)) (e : String × Operator × Literal)
    (name : String) :
    ofVar (cs ++ [e]) name =
      if e.1 = name then (ofVar cs name).add e.2.1 e.2.2 else ofVar cs name := by
  simp [ofVar]

/-- The bounds of a variable are the tightest ones, whatever the order of its comparisons. -/
theorem gathers_ofVar (hfinite : FiniteBounds cs) (name : String) :
    Gathers (ofVar cs name) cs name := by
  induction cs using List.reverseRecOn with
  | nil => exact gathers_free name
  | append_singleton cs e ih =>
    obtain ⟨other, o, v⟩ := e
    have h := ih fun n o x hx => hfinite n o x (List.mem_append_left _ hx)
    rw [ofVar_concat]
    by_cases hname : other = name
    · subst hname
      rw [if_pos rfl]
      exact h.add hfinite
    · rw [if_neg hname]
      exact h.skip hname o v

theorem crossing_isSome {b : Bounds} :
    b.crossing.isSome = true ↔
      ∃ l u, b.lower = some l ∧ b.upper = some u ∧ u.below l = true := by
  obtain ⟨lower, upper, equal⟩ := b
  cases lower <;> cases upper <;> simp [crossing, apply_ite]

theorem clash_isSome {b : Bounds} :
    b.clash.isSome = true ↔
      ∃ first rest, b.equal = first :: rest ∧
        ((∃ v ∈ b.equal, v.same first = false) ∨
          ∃ x, first = .number x ∧ b.excludes x = true) := by
  cases hb : b.equal with
  | nil => simp [clash, hb]
  | cons first rest =>
    simp only [clash, hb, List.cons.injEq, ↓existsAndEq, and_true, true_and]
    cases hfind : (first :: rest).find? fun v => !v.same first with
    | some other =>
      have hother := List.find?_some hfind
      rw [Bool.not_eq_true'] at hother
      exact iff_of_true rfl (.inl ⟨other, List.mem_of_find?_eq_some hfind, hother⟩)
    | none =>
      have hsame : ¬ ∃ v ∈ first :: rest, v.same first = false := by
        simpa using List.find?_eq_none.mp hfind
      rw [or_iff_right hsame]
      cases first with
      | number x => simp [Literal.number?, apply_ite]
      | _ => simp [Literal.number?]

theorem conflict?_isSome {b : Bounds} :
    b.conflict?.isSome = true ↔ b.crossing.isSome = true ∨ b.clash.isSome = true := by
  simp [conflict?]

theorem excludes_iff {b : Bounds} {x : Double} :
    b.excludes x = true ↔
      (∃ l, b.lower = some l ∧ x.Less l) ∨ ∃ u, b.upper = some u ∧ u.Less x := by
  simp [excludes, Option.any_eq_true, Double.below_iff]

/-- Two comparisons of a variable cannot hold together. -/
def Clashing (cs : List (String × Operator × Literal)) (name : String) : Prop :=
  ∃ o v o' v', (name, o, v) ∈ cs ∧ (name, o', v') ∈ cs ∧ Clash o v o' v'

theorem Gathers.clashing (h : Gathers b cs name) (hb : b.conflict?.isSome = true) :
    Clashing cs name := by
  rcases conflict?_isSome.mp hb with hcross | hclash
  · obtain ⟨l, u, hl, hu, hlt⟩ := crossing_isSome.mp hcross
    exact ⟨_, _, _, _, h.lower.mem l hl, h.upper.mem u hu, .crossed (Double.below_iff.mp hlt)⟩
  · obtain ⟨first, rest, hequal, hclash⟩ := clash_isSome.mp hclash
    have hfirst : (name, .equal, first) ∈ cs := (h.equal first).mp (by simp [hequal])
    rcases hclash with ⟨v, hv, hne⟩ | ⟨x, rfl, hout⟩
    · refine ⟨_, _, _, _, (h.equal v).mp hv, hfirst, .different fun heq => ?_⟩
      rw [Literal.same_iff.mpr heq] at hne
      cases hne
    · rcases excludes_iff.mp hout with ⟨l, hl, hlt⟩ | ⟨u, hu, hlt⟩
      · exact ⟨_, _, _, _, hfirst, h.lower.mem l hl, .tooSmall hlt⟩
      · exact ⟨_, _, _, _, hfirst, h.upper.mem u hu, .tooLarge hlt⟩

/-- A literal to equal that differs from the first one is a conflict. -/
theorem conflict?_of_different {first v : Literal} {rest : List Literal}
    (hequal : b.equal = first :: rest) (hv : v ∈ b.equal) (hne : ¬ v.Equals first) :
    b.conflict?.isSome = true := by
  refine conflict?_isSome.mpr (.inr (clash_isSome.mpr ⟨first, rest, hequal, .inl ⟨v, hv, ?_⟩⟩))
  rw [← Bool.not_eq_true, Literal.same_iff]
  exact hne

/-- A number to equal that is outside the bounds is a conflict. -/
theorem conflict?_of_outside {x : Double} (hx : .number x ∈ b.equal)
    (hout : ∀ y, (Literal.number x).Equals (.number y) → b.excludes y = true) :
    b.conflict?.isSome = true := by
  obtain ⟨first, rest, hequal⟩ := List.exists_cons_of_ne_nil (List.ne_nil_of_mem hx)
  by_cases hfirst : (Literal.number x).Equals first
  · cases hfirst with
    | number hx hy =>
      exact conflict?_isSome.mpr
        (.inr (clash_isSome.mpr ⟨_, rest, hequal, .inr ⟨_, rfl, hout _ (.number hx hy)⟩⟩))
  · exact conflict?_of_different hequal hx hfirst

theorem Gathers.conflict (h : Gathers b cs name) (hclash : Clashing cs name) :
    b.conflict?.isSome = true := by
  obtain ⟨o, v, o', v', hv, hv', hclash⟩ := hclash
  cases hclash with
  | crossed hlt =>
    obtain ⟨l, hl, hle⟩ := h.lower.reach _ hv
    obtain ⟨u, hu, hle'⟩ := h.upper.reach _ hv'
    refine conflict?_isSome.mpr (.inl (crossing_isSome.mpr ⟨l, u, hl, hu, ?_⟩))
    exact Double.below_iff.mpr ((hle'.trans_less hlt).trans_atMost hle)
  | different hne =>
    have hmem := (h.equal v).mpr hv
    have hmem' := (h.equal v').mpr hv'
    obtain ⟨first, rest, hequal⟩ := List.exists_cons_of_ne_nil (List.ne_nil_of_mem hmem)
    by_cases heq : v.Equals first
    · exact conflict?_of_different hequal hmem' fun heq' => hne (heq.trans heq'.symm)
    · exact conflict?_of_different hequal hmem heq
  | tooSmall hlt =>
    obtain ⟨l, hl, hle⟩ := h.lower.reach _ hv'
    refine conflict?_of_outside ((h.equal _).mpr hv) fun y hy => ?_
    exact excludes_iff.mpr (.inl ⟨l, hl, hy.less (hlt.trans_atMost hle)⟩)
  | tooLarge hlt =>
    obtain ⟨u, hu, hle⟩ := h.upper.reach _ hv'
    refine conflict?_of_outside ((h.equal _).mpr hv) fun y hy => ?_
    exact excludes_iff.mpr (.inr ⟨u, hu, hy.greater (hle.trans_less hlt)⟩)

/-- A variable is in conflict exactly when two of its comparisons clash. -/
theorem conflict?_ofVar (hfinite : FiniteBounds cs) :
    (ofVar cs name).conflict?.isSome = true ↔ Clashing cs name :=
  ⟨(gathers_ofVar hfinite name).clashing, (gathers_ofVar hfinite name).conflict⟩

/-- A number to equal meets all numeric comparisons that it does not clash with. -/
theorem meets_of_equal (hfinite : FiniteBounds cs) (hno : ¬ Clashing cs name) {x : Double}
    (hx : (name, .equal, .number x) ∈ cs) {o : Operator} {n : Double}
    (hn : (name, o, .number n) ∈ cs) : (Literal.number x).Meets o (.number n) := by
  have hxf := hfinite _ _ x hx
  have hnf := hfinite _ _ n hn
  cases o with
  | equal =>
    by_contra hne
    exact hno ⟨_, _, _, _, hx, hn, .different hne⟩
  | atLeast =>
    refine ⟨x, rfl, Double.atMost_of_not_less hnf hxf fun hlt => ?_⟩
    exact hno ⟨_, _, _, _, hx, hn, .tooSmall hlt⟩
  | atMost =>
    refine ⟨x, rfl, Double.atMost_of_not_less hxf hnf fun hlt => ?_⟩
    exact hno ⟨_, _, _, _, hx, hn, .tooLarge hlt⟩

/-- Without numbers to equal, the lower bound meets all numeric comparisons. -/
theorem Gathers.meets_of_lower (h : Gathers b cs name) (hfinite : FiniteBounds cs)
    (hno : ¬ Clashing cs name) (hequal : b.equal = []) {l : Double} (hl : b.lower = some l)
    {o : Operator} {n : Double} (hn : (name, o, .number n) ∈ cs) :
    (Literal.number l).Meets o (.number n) := by
  have hmem := h.lower.mem l hl
  cases o with
  | equal =>
    have := (h.equal _).mpr hn
    rw [hequal] at this
    cases this
  | atLeast =>
    obtain ⟨l', hl', hle⟩ := h.lower.reach n hn
    cases hl'.symm.trans hl
    exact ⟨l, rfl, hle⟩
  | atMost =>
    refine ⟨l, rfl, Double.atMost_of_not_less (hfinite _ _ l hmem) (hfinite _ _ n hn) fun hlt => ?_⟩
    exact hno ⟨_, _, _, _, hmem, hn, .crossed hlt⟩

/-- Without numbers to equal and without a lower bound, only the upper bounds are left. -/
theorem Gathers.atMost_of_unbounded (h : Gathers b cs name) (hequal : b.equal = [])
    (hlower : b.lower = none) {o : Operator} {n : Double} (hn : (name, o, .number n) ∈ cs) :
    o = .atMost ∧ ∃ u, b.upper = some u ∧ u.AtMost n := by
  cases o with
  | equal =>
    have := (h.equal _).mpr hn
    rw [hequal] at this
    cases this
  | atLeast =>
    obtain ⟨l, hl, _⟩ := h.lower.reach n hn
    rw [hlower] at hl
    cases hl
  | atMost => exact ⟨rfl, h.upper.reach n hn⟩

/-- Numeric comparisons of a variable that do not clash are met by a number: by one to equal, by the
lower bound, by the upper bound, or by any at all. -/
theorem exists_meets (hfinite : FiniteBounds cs) (hno : ¬ Clashing cs name)
    (hnumber : ∀ o v, (name, o, v) ∈ cs → ∃ x, v = .number x) :
    ∃ x : Double, x.isFinite = true ∧
      ∀ o v, (name, o, v) ∈ cs → (Literal.number x).Meets o v := by
  have h := gathers_ofVar hfinite name
  -- it is enough to meet the comparisons with numbers
  suffices hx : ∃ x : Double, x.isFinite = true ∧
      ∀ o n, (name, o, .number n) ∈ cs → (Literal.number x).Meets o (.number n) by
    obtain ⟨x, hx, hmeets⟩ := hx
    refine ⟨x, hx, fun o v hv => ?_⟩
    obtain ⟨n, rfl⟩ := hnumber o v hv
    exact hmeets o n hv
  cases hequal : (ofVar cs name).equal with
  | cons first rest =>
    have hfirst : (name, .equal, first) ∈ cs := (h.equal first).mp (by simp [hequal])
    obtain ⟨x, rfl⟩ := hnumber _ _ hfirst
    exact ⟨x, hfinite _ _ x hfirst, fun o n => meets_of_equal hfinite hno hfirst⟩
  | nil =>
    cases hlower : (ofVar cs name).lower with
    | some l =>
      exact ⟨l, hfinite _ _ l (h.lower.mem l hlower),
        fun o n => h.meets_of_lower hfinite hno hequal hlower⟩
    | none =>
      cases hbound : (ofVar cs name).upper with
      | some u =>
        refine ⟨u, hfinite _ _ u (h.upper.mem u hbound), fun o n hn => ?_⟩
        obtain ⟨rfl, u', hu', hle⟩ := h.atMost_of_unbounded hequal hlower hn
        cases hu'.symm.trans hbound
        exact ⟨u, rfl, hle⟩
      | none =>
        refine ⟨.finite false 0 Double.fits_zero, rfl, fun o n hn => ?_⟩
        obtain ⟨-, u, hu, -⟩ := h.atMost_of_unbounded hequal hlower hn
        rw [hbound] at hu
        cases hu

theorem mem_insertName {s t : String} {ts : List String} :
    s ∈ insertName t ts ↔ s = t ∨ s ∈ ts := by
  induction ts with
  | nil => simp [insertName]
  | cons u us ih =>
    simp only [insertName]
    split_ifs with heq hlt
    · simp [heq]
    · simp
    · simp only [List.mem_cons, ih]
      tauto

def namesOf (cs : List (String × Operator × Literal)) : List String :=
  cs.foldr (fun e ns => insertName e.1 ns) []

theorem mem_namesOf : name ∈ namesOf cs ↔ ∃ e, (name, e) ∈ cs := by
  induction cs with
  | nil => simp [namesOf]
  | cons e cs ih =>
    change name ∈ insertName e.1 (namesOf cs) ↔ _
    simp [mem_insertName, ih, Prod.ext_iff, exists_or]

/-- The conflicts of a conjunction are those of its variables. -/
theorem mem_conflictsOf (hfinite : FiniteBounds cs) {c : Conflict} :
    (name, c) ∈ conflictsOf cs ↔ (ofVar cs name).conflict? = some c := by
  have hconflicts : conflictsOf cs = (namesOf cs).filterMap fun n =>
      (ofVar cs n).conflict?.map fun c => (n, c) := rfl
  simp only [hconflicts, List.mem_filterMap, mem_namesOf, Option.map_eq_some_iff, Prod.mk.injEq,
    ↓existsAndEq, and_true]
  refine ⟨And.right, fun h => ⟨?_, h⟩⟩
  obtain ⟨o, v, _, _, hv, _⟩ := (conflict?_ofVar hfinite).mp (Option.isSome_of_eq_some h)
  exact ⟨_, hv⟩

end Bounds

end Eligibility
