import Mathlib
import Eligibility.Review.SourceLint

namespace Eligibility.Source

def turn (inString : Bool) (c : Char) : Bool := if c = '"' then !inString else inString

/-- The characters outside quotes of a text that starts inside them or not. -/
def outsideFrom (inString : Bool) : List Char → List Char
  | [] => []
  | c :: cs =>
    if inString = true ∨ c = '"' then outsideFrom (turn inString c) cs
    else c :: outsideFrom (turn inString c) cs

/-- How many more parentheses close than open. -/
def excessFrom (inString : Bool) (cs : List Char) : Int :=
  (outsideFrom inString cs).count ')' - (outsideFrom inString cs).count '('

def outside (cs : List Char) : List Char := outsideFrom false cs

def excess (cs : List Char) : Int := excessFrom false cs

def parensFrom (inString : Bool) (cs : List Char) : List Char :=
  (outsideFrom inString cs).filter fun c => c = '(' ∨ c = ')'

def parens (cs : List Char) : List Char := parensFrom false cs

def weight (inString : Bool) (c : Char) : Int :=
  if inString = true then 0 else if c = ')' then 1 else if c = '(' then -1 else 0

@[simp] theorem excessFrom_nil (inString : Bool) : excessFrom inString [] = 0 := rfl

theorem excessFrom_cons (inString : Bool) (c : Char) (cs : List Char) :
    excessFrom inString (c :: cs) = weight inString c + excessFrom (turn inString c) cs := by
  unfold excessFrom weight
  by_cases hin : inString = true
  · simp [outsideFrom, hin]
  · by_cases hquote : c = '"'
    · simp [outsideFrom, hquote]
    · by_cases hclose : c = ')'
      · simp [outsideFrom, hin, hclose]
        omega
      · by_cases hopen : c = '('
        · simp [outsideFrom, hin, hopen]
          omega
        · simp [outsideFrom, hin, hquote, hclose, hopen]

/-- What one character does to the scanner: a parenthesis that closes none is noted, any other
character moves the depth against its weight. -/
theorem scan_cons (offset depth : Nat) (inString stray : Bool) (c : Char) (cs : List Char) :
    (inString = false ∧ c = ')' ∧ depth = 0 ∧
      scan offset depth inString stray (c :: cs) =
        (scan (offset + c.utf8Size) 0 false stray cs).found offset) ∨
    ∃ depth' : Nat, (depth' : Int) = depth - weight inString c ∧
      scan offset depth inString stray (c :: cs) =
        scan (offset + c.utf8Size) depth' (turn inString c)
          (stray || (!inString && Text.isBlank c)) cs := by
  by_cases hquote : c = '"'
  · subst hquote
    right
    refine ⟨depth, ?_, ?_⟩
    · cases inString <;> simp [weight]
    · cases inString <;> simp [scan, turn, Text.isBlank]
  by_cases hin : inString = true
  · subst hin
    right
    exact ⟨depth, by simp [weight], by simp [scan, turn, hquote]⟩
  rw [Bool.not_eq_true] at hin
  subst hin
  by_cases hblank : Text.isBlank c = true
  · right
    have hopen : c ≠ '(' := by
      rintro rfl
      exact absurd hblank (by decide)
    have hclose : c ≠ ')' := by
      rintro rfl
      exact absurd hblank (by decide)
    exact ⟨depth, by simp [weight, hopen, hclose], by simp [scan, turn, hquote, hblank]⟩
  rw [Bool.not_eq_true] at hblank
  by_cases hopen : c = '('
  · subst hopen
    right
    exact ⟨depth + 1, by simp [weight], by simp [scan, turn, hblank]⟩
  by_cases hclose : c = ')'
  · subst hclose
    cases depth with
    | zero =>
      left
      exact ⟨rfl, rfl, rfl, by simp [scan, hblank]⟩
    | succ depth =>
      right
      exact ⟨depth, by simp [weight], by simp [scan, turn, hblank]⟩
  · right
    exact ⟨depth, by simp [weight, hopen, hclose],
      by simp [scan, turn, hquote, hblank, hopen, hclose]⟩

/-- The first start of a text with this excess is this one and a closing parenthesis after it. -/
structure FirstReaches (inString : Bool) (cs : List Char) (k : Int) (p : List Char) : Prop where
  closes : p ++ [')'] <+: cs
  reaches : excessFrom inString (p ++ [')']) = k
  first : ∀ q, q <+: p → excessFrom inString q < k

theorem FirstReaches.cons {inString : Bool} {c : Char} {cs p : List Char} {k : Int}
    (h : FirstReaches (turn inString c) cs (k - weight inString c) p) (hk : 0 < k) :
    FirstReaches inString (c :: cs) k (c :: p) := by
  refine ⟨?_, ?_, ?_⟩
  · rw [List.cons_append, List.cons_prefix_cons]
    exact ⟨rfl, h.closes⟩
  · rw [List.cons_append, excessFrom_cons, h.reaches]
    omega
  · intro q hq
    rcases List.prefix_cons_iff.mp hq with rfl | ⟨r, rfl, hr⟩
    · exact hk
    · have hlt := h.first r hr
      rw [excessFrom_cons]
      omega

/-- What the scanner has noted at the end of a text that it began at this byte and depth. -/
structure Accounts (offset depth : Nat) (inString : Bool) (cs : List Char) (s : Scan) : Prop where
  /-- One parenthesis is noted for each excess above the depth that a start of the text has. -/
  count : ∀ k : Nat, k < s.unmatched.length ↔
    ∃ p, p <+: cs ∧ (depth : Int) + k < excessFrom inString p
  /-- It is the one at which that excess is first reached. -/
  first : ∀ k o : Nat, s.unmatched[k]? = some o →
    ∃ p, FirstReaches inString cs (depth + k + 1) p ∧ o = offset + (String.ofList p).utf8ByteSize
  depth : (s.depth : Int) = depth - excessFrom inString cs + s.unmatched.length

theorem Accounts.nil (offset depth : Nat) (inString stray : Bool) :
    Accounts offset depth inString [] ⟨[], depth, inString, stray⟩ := by
  refine ⟨?_, by simp, by simp⟩
  intro k
  simp only [List.length_nil, Nat.not_lt_zero, List.prefix_nil, exists_eq_left, excessFrom_nil,
    false_iff]
  omega

/-- A character that is not noted moves the depth against its weight. -/
theorem Accounts.pass {offset depth depth' : Nat} {inString : Bool} {c : Char} {cs : List Char}
    {s : Scan} (hdepth : (depth' : Int) = depth - weight inString c)
    (h : Accounts (offset + c.utf8Size) depth' (turn inString c) cs s) :
    Accounts offset depth inString (c :: cs) s := by
  refine ⟨?_, ?_, ?_⟩
  · intro k
    rw [h.count]
    constructor
    · rintro ⟨p, hp, hlt⟩
      refine ⟨c :: p, List.cons_prefix_cons.mpr ⟨rfl, hp⟩, ?_⟩
      rw [excessFrom_cons]
      omega
    · rintro ⟨p, hp, hlt⟩
      rcases List.prefix_cons_iff.mp hp with rfl | ⟨q, rfl, hq⟩
      · rw [excessFrom_nil] at hlt
        omega
      · rw [excessFrom_cons] at hlt
        exact ⟨q, hq, by omega⟩
  · intro k o ho
    obtain ⟨p, hp, rfl⟩ := h.first k o ho
    refine ⟨c :: p, FirstReaches.cons ?_ (by omega), ?_⟩
    · have heq : (depth' : Int) + k + 1 = depth + k + 1 - weight inString c := by omega
      rwa [heq] at hp
    · simp only [String.utf8ByteSize_ofList, String.utf8Len_cons]
      omega
  · rw [h.depth, excessFrom_cons]
    omega

/-- At depth zero a closing parenthesis is the first that is noted; those after it are each one
further. -/
theorem Accounts.found {offset : Nat} {cs : List Char} {s : Scan}
    (h : Accounts (offset + ')'.utf8Size) 0 false cs s) :
    Accounts offset 0 false (')' :: cs) (s.found offset) := by
  have hcons : ∀ q, excessFrom false (')' :: q) = 1 + excessFrom false q := excessFrom_cons false ')'
  refine ⟨?_, ?_, ?_⟩
  · intro k
    cases k with
    | zero =>
      refine iff_of_true (by simp [Scan.found]) ⟨[')'], ?_, ?_⟩
      · exact List.cons_prefix_cons.mpr ⟨rfl, List.nil_prefix⟩
      · simp [hcons]
    | succ k =>
      simp only [Scan.found, List.length_cons, Nat.add_lt_add_iff_right]
      rw [h.count]
      constructor
      · rintro ⟨p, hp, hlt⟩
        refine ⟨')' :: p, List.cons_prefix_cons.mpr ⟨rfl, hp⟩, ?_⟩
        rw [hcons]
        omega
      · rintro ⟨p, hp, hlt⟩
        rcases List.prefix_cons_iff.mp hp with rfl | ⟨q, rfl, hq⟩
        · rw [excessFrom_nil] at hlt
          omega
        · rw [hcons] at hlt
          exact ⟨q, hq, by omega⟩
  · intro k o ho
    cases k with
    | zero =>
      obtain rfl : offset = o := by simpa [Scan.found] using ho
      refine ⟨[], ⟨?_, by simp [hcons], ?_⟩, by simp⟩
      · exact List.cons_prefix_cons.mpr ⟨rfl, List.nil_prefix⟩
      · intro q hq
        rw [List.prefix_nil.mp hq]
        simp
    | succ k =>
      obtain ⟨p, hp, rfl⟩ := h.first k o (by simpa [Scan.found] using ho)
      refine ⟨')' :: p, FirstReaches.cons ?_ (by omega), ?_⟩
      · have heq : ((0 : Nat) : Int) + k + 1 = (0 : Nat) + (k + 1 : Nat) + 1 - weight false ')' := by
          simp [weight]
        rwa [heq] at hp
      · simp only [String.utf8ByteSize_ofList, String.utf8Len_cons]
        omega
  · have hdepth := h.depth
    simp only [Scan.found, List.length_cons, hcons]
    omega

/-- The scanner forgets a parenthesis that closes none, so its depth is not told by the excess of
what it has read, but by how far that lies below the largest excess so far. Each new largest excess
is one parenthesis noted. -/
theorem accounts_scan (offset depth : Nat) (inString stray : Bool) (cs : List Char) :
    Accounts offset depth inString cs (scan offset depth inString stray cs) := by
  induction cs generalizing offset depth inString stray with
  | nil => exact .nil offset depth inString stray
  | cons c cs ih =>
    rcases scan_cons offset depth inString stray c cs with
      ⟨rfl, rfl, rfl, hscan⟩ | ⟨depth', hdepth, hscan⟩
    · rw [hscan]
      exact (ih _ 0 false stray).found
    · rw [hscan]
      exact (ih _ depth' _ _).pass hdepth

/-- Each quote turns the scanner once. -/
theorem inString_scan (offset depth : Nat) (inString stray : Bool) (cs : List Char) :
    (scan offset depth inString stray cs).inString = (inString ^^ decide (Odd (cs.count '"'))) := by
  induction cs generalizing offset depth inString stray with
  | nil => simp [scan]
  | cons c cs ih =>
    have hturn : (turn inString c ^^ decide (Odd (cs.count '"'))) =
        (inString ^^ decide (Odd ((c :: cs).count '"'))) := by
      by_cases hquote : c = '"'
      · have hodd : decide (Odd (cs.count '"' + 1)) = !decide (Odd (cs.count '"')) := by
          rw [← decide_not, decide_eq_decide, Nat.odd_add_one]
        rw [hquote, List.count_cons_self, hodd]
        cases inString <;> simp [turn]
      · simp [turn, hquote]
    rw [← hturn]
    rcases scan_cons offset depth inString stray c cs with
      ⟨rfl, rfl, rfl, hscan⟩ | ⟨depth', -, hscan⟩
    · rw [hscan]
      exact ih _ 0 false stray
    · rw [hscan]
      exact ih _ depth' _ _

theorem stray_scan (offset depth : Nat) (inString stray : Bool) (cs : List Char) :
    (scan offset depth inString stray cs).stray =
      (stray || (outsideFrom inString cs).any Text.isBlank) := by
  induction cs generalizing offset depth inString stray with
  | nil => simp [scan, outsideFrom]
  | cons c cs ih =>
    have hany : (stray || (outsideFrom inString (c :: cs)).any Text.isBlank) =
        ((stray || (!inString && Text.isBlank c)) ||
          (outsideFrom (turn inString c) cs).any Text.isBlank) := by
      by_cases hin : inString = true
      · simp [outsideFrom, hin]
      · by_cases hquote : c = '"'
        · simp [outsideFrom, hquote, Text.isBlank]
        · simp [outsideFrom, hin, hquote, Bool.or_assoc]
    rw [hany]
    rcases scan_cons offset depth inString stray c cs with
      ⟨rfl, rfl, rfl, hscan⟩ | ⟨depth', -, hscan⟩
    · rw [hscan]
      simpa [Scan.found, turn, Text.isBlank] using ih (offset + ')'.utf8Size) 0 false stray
    · rw [hscan]
      exact ih _ depth' _ _

/-- Words of parentheses in which each one that opens has its own that closes. -/
inductive Matched : List Char → Prop where
  | nil : Matched []
  | wrap {a b : List Char} (ha : Matched a) (hb : Matched b) : Matched ('(' :: (a ++ ')' :: b))

/-- Words that close so many parentheses and match otherwise. -/
def Closing : Nat → List Char → Prop
  | 0, w => Matched w
  | d + 1, w => ∃ a b, Matched a ∧ Closing d b ∧ w = a ++ ')' :: b

theorem closing_nil (d : Nat) : Closing d [] ↔ d = 0 := by
  cases d with
  | zero => exact iff_of_true .nil rfl
  | succ d => simp [Closing]

theorem closing_close (d : Nat) (w : List Char) :
    Closing d (')' :: w) ↔ ∃ d', d = d' + 1 ∧ Closing d' w := by
  constructor
  · intro h
    cases d with
    | zero => cases h
    | succ d =>
      obtain ⟨a, b, ha, hb, heq⟩ := h
      cases ha with
      | nil =>
        cases heq
        exact ⟨d, rfl, hb⟩
      | wrap ha ha' => cases heq
  · rintro ⟨d, rfl, h⟩
    exact ⟨[], w, .nil, h, rfl⟩

theorem closing_open (d : Nat) (w : List Char) :
    Closing d ('(' :: w) ↔ Closing (d + 1) w := by
  constructor
  · intro h
    cases d with
    | zero =>
      cases h with
      | wrap ha hb => exact ⟨_, _, ha, hb, rfl⟩
    | succ d =>
      obtain ⟨a, b, ha, hb, heq⟩ := h
      cases ha with
      | nil => cases heq
      | @wrap a₁ a₂ ha₁ ha₂ =>
        obtain rfl : w = a₁ ++ ')' :: (a₂ ++ ')' :: b) := by simpa using heq
        exact ⟨a₁, _, ha₁, ⟨a₂, b, ha₂, hb, rfl⟩, rfl⟩
  · rintro ⟨a, b, ha, hb, rfl⟩
    cases d with
    | zero => exact .wrap ha hb
    | succ d =>
      obtain ⟨a', b', ha', hb', rfl⟩ := hb
      exact ⟨'(' :: (a ++ ')' :: a'), b', .wrap ha ha', hb', by simp⟩

/-- The excess of a text, and that no start of the text has a larger one. -/
structure Peaks (inString : Bool) (cs : List Char) (d : Int) : Prop where
  total : excessFrom inString cs = d
  most : ∀ p, p <+: cs → excessFrom inString p ≤ d

theorem Peaks.nonneg {inString : Bool} {cs : List Char} {d : Int} (h : Peaks inString cs d) :
    0 ≤ d := h.most [] List.nil_prefix

theorem peaks_nil (inString : Bool) (d : Int) : Peaks inString [] d ↔ d = 0 := by
  constructor
  · intro h
    exact h.total.symm
  · rintro rfl
    refine ⟨rfl, ?_⟩
    intro p hp
    rw [List.prefix_nil.mp hp, excessFrom_nil]

/-- The largest excess after a character is less by what the character adds. -/
theorem peaks_cons {inString : Bool} {c : Char} {cs : List Char} {d : Int} (hd : 0 ≤ d) :
    Peaks inString (c :: cs) d ↔ Peaks (turn inString c) cs (d - weight inString c) := by
  constructor
  · intro h
    have htotal := h.total
    rw [excessFrom_cons] at htotal
    refine ⟨by omega, ?_⟩
    intro q hq
    have hle := h.most (c :: q) (List.cons_prefix_cons.mpr ⟨rfl, hq⟩)
    rw [excessFrom_cons] at hle
    omega
  · intro h
    have htotal := h.total
    refine ⟨by rw [excessFrom_cons]; omega, ?_⟩
    intro p hp
    rcases List.prefix_cons_iff.mp hp with rfl | ⟨q, rfl, hq⟩
    · exact hd
    · have hle := h.most q hq
      rw [excessFrom_cons]
      omega

/-- A character outside quotes is a parenthesis of the text exactly if it has a weight. -/
theorem parensFrom_cons (inString : Bool) (c : Char) (cs : List Char) :
    (weight inString c = 0 ∧ parensFrom inString (c :: cs) = parensFrom (turn inString c) cs) ∨
    (weight inString c = 1 ∧
      parensFrom inString (c :: cs) = ')' :: parensFrom (turn inString c) cs) ∨
    (weight inString c = -1 ∧
      parensFrom inString (c :: cs) = '(' :: parensFrom (turn inString c) cs) := by
  by_cases hin : inString = true
  · left
    simp [weight, parensFrom, outsideFrom, hin]
  · by_cases hclose : c = ')'
    · right; left
      simp [weight, parensFrom, outsideFrom, hin, hclose]
    · by_cases hopen : c = '('
      · right; right
        simp [weight, parensFrom, outsideFrom, hin, hopen]
      · left
        by_cases hquote : c = '"'
        · simp [weight, parensFrom, outsideFrom, hquote]
        · simp [weight, parensFrom, outsideFrom, hin, hquote, hclose, hopen]

/-- The parentheses of a text close so many others exactly if that is its excess and no start of it
has a larger one. -/
theorem closing_parensFrom (inString : Bool) (d : Nat) (cs : List Char) :
    Closing d (parensFrom inString cs) ↔ Peaks inString cs d := by
  induction cs generalizing inString d with
  | nil =>
    rw [parensFrom, outsideFrom, List.filter_nil, closing_nil, peaks_nil, Nat.cast_eq_zero]
  | cons c cs ih =>
    rw [peaks_cons (Nat.cast_nonneg d)]
    rcases parensFrom_cons inString c cs with ⟨hw, hp⟩ | ⟨hw, hp⟩ | ⟨hw, hp⟩
    · rw [hp, hw, sub_zero, ih]
    · rw [hp, hw, closing_close]
      constructor
      · rintro ⟨d, rfl, h⟩
        rw [Nat.cast_add, Nat.cast_one, add_sub_cancel_right]
        exact (ih _ d).mp h
      · intro h
        have hpos := h.nonneg
        obtain ⟨d, rfl⟩ := Nat.exists_eq_add_of_le' (show 1 ≤ d by omega)
        rw [Nat.cast_add, Nat.cast_one, add_sub_cancel_right] at h
        exact ⟨d, rfl, (ih _ d).mpr h⟩
    · rw [hp, hw, closing_open, ih, Nat.cast_add, Nat.cast_one, sub_neg_eq_add]

/-- What there is to report about the parentheses of a text: the bytes of those that close none, and
how many are never closed. -/
structure Tally (cs : List Char) (offsets : List Nat) (unclosed : Nat) : Prop where
  most : IsGreatest {k | ∃ p, p <+: cs ∧ excess p = k} (offsets.length : Int)
  first : ∀ j o : Nat, offsets[j]? = some o →
    ∃ p, FirstReaches false cs (j + 1) p ∧ o = (String.ofList p).utf8ByteSize
  unclosed : (unclosed : Int) =
    (outside cs).count '(' - (outside cs).count ')' + offsets.length

/-- What the scanner has noted about the parentheses of a text is their tally. -/
theorem tally_scan (stray : Bool) (cs : List Char) :
    Tally cs (scan 0 0 false stray cs).unmatched (scan 0 0 false stray cs).depth := by
  have h := accounts_scan 0 0 false stray cs
  generalize scan 0 0 false stray cs = s at h ⊢
  have hfirst : ∀ j o : Nat, s.unmatched[j]? = some o →
      ∃ p, FirstReaches false cs (j + 1) p ∧ o = (String.ofList p).utf8ByteSize := by
    simpa using h.first
  refine ⟨⟨?_, ?_⟩, hfirst, ?_⟩
  · cases hlength : s.unmatched.length with
    | zero => exact ⟨[], List.nil_prefix, rfl⟩
    | succ j =>
      obtain ⟨p, hp, -⟩ := hfirst j _ (List.getElem?_eq_getElem (by omega))
      exact ⟨p ++ [')'], hp.closes, hp.reaches⟩
  · rintro k ⟨p, hp, rfl⟩
    by_contra hlt
    rw [not_le] at hlt
    have hlt' : ((0 : Nat) : Int) + s.unmatched.length < excessFrom false p := by
      rwa [Nat.cast_zero, zero_add]
    have habove := (h.count s.unmatched.length).mpr ⟨p, hp, hlt'⟩
    exact absurd habove (Nat.lt_irrefl _)
  · have hdepth := h.depth
    simp only [excessFrom] at hdepth
    simp only [outside]
    omega

/-- Nothing is unmatched and nothing is left open exactly if the parentheses match. -/
theorem Tally.matched_iff {cs : List Char} {offsets : List Nat} {unclosed : Nat}
    (h : Tally cs offsets unclosed) : Matched (parens cs) ↔ offsets = [] ∧ unclosed = 0 := by
  have hpeaks : Matched (parens cs) ↔ Peaks false cs 0 := closing_parensFrom false 0 cs
  have hunclosed := h.unclosed
  rw [hpeaks]
  constructor
  · rintro ⟨htotal, hall⟩
    obtain ⟨p, hp, hlength⟩ := h.most.1
    have hle := hall p hp
    simp only [excess, excessFrom, outside] at hlength htotal hle hunclosed
    refine ⟨List.length_eq_zero_iff.mp ?_, ?_⟩ <;> omega
  · rintro ⟨rfl, rfl⟩
    refine ⟨?_, ?_⟩
    · simp only [outside, List.length_nil] at hunclosed
      simp only [excessFrom]
      omega
    · intro p hp
      exact h.most.2 ⟨p, hp, rfl⟩

theorem problems_eq (source : String) :
    ∃ offsets unclosed, Tally source.toList offsets unclosed ∧
      problems source = offsets.map .unmatched ++
        (if Odd (source.toList.count '"') then [.unterminated] else []) ++
        (if 0 < unclosed then [.unclosed unclosed] else []) ++
        (if (outside source.toList).any Text.isBlank then [.notCompact] else []) := by
  have htally := tally_scan false source.toList
  have hquotes := inString_scan 0 0 false false source.toList
  have hblank := stray_scan 0 0 false false source.toList
  generalize hs : scan 0 0 false false source.toList = s at htally hquotes hblank
  refine ⟨s.unmatched, s.depth, htally, ?_⟩
  rw [problems, hs, hquotes, hblank, Bool.false_xor, Bool.false_or]
  simp only [decide_eq_true_eq]
  congr

/-- What is reported about a program text: as many unmatched parentheses as the largest excess of
any start of it, each at the byte where that excess is first reached; an open string if the quotes
are odd; as many open parentheses as are left; and blanks, if some stand outside quotes. Nothing is
reported exactly if the parentheses match, the quotes are even and no blank is outside them. -/
theorem lint_tally (source : String) :
    (∃ offsets unclosed, Tally source.toList offsets unclosed ∧
      lint source = offsets.map (fun offset => "unmatched ')' at offset " ++ toString offset) ++
        (if Odd (source.toList.count '"') then ["unterminated string literal"] else []) ++
        (if 0 < unclosed then [toString unclosed ++ " unclosed '('"] else []) ++
        (if (outside source.toList).any Text.isBlank
          then ["output must be a single compact line"] else [])) ∧
    (lint source = [] ↔ Matched (parens source.toList) ∧ Even (source.toList.count '"') ∧
      ∀ c ∈ outside source.toList, Text.isBlank c = false) := by
  obtain ⟨offsets, unclosed, htally, hproblems⟩ := problems_eq source
  constructor
  · refine ⟨offsets, unclosed, htally, ?_⟩
    rw [lint, hproblems]
    simp only [List.map_append, List.map_map, apply_ite (List.map Problem.message), List.map_cons,
      List.map_nil]
    rfl
  · rw [lint, List.map_eq_nil_iff, hproblems, htally.matched_iff]
    simp only [List.append_eq_nil_iff, List.map_eq_nil_iff, ite_eq_right_iff, List.cons_ne_nil,
      imp_false, Nat.not_odd_iff_even, Nat.not_lt, Nat.le_zero, Bool.not_eq_true,
      List.any_eq_false]
    tauto

-- The two bytes of the first letter count, and the quoted parenthesis does not.
example : lint "é)(\")\"(" = ["unmatched ')' at offset 2", "2 unclosed '('"] := by decide

end Eligibility.Source
