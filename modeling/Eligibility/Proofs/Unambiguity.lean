import Mathlib
import Eligibility.Proofs.Alike
import Eligibility.Proofs.Boundary
import Eligibility.Proofs.NumberText
import Eligibility.Proofs.SourceText

namespace Eligibility

namespace Text

theorem toList_intercalate_cons (sep a : String) (as : List String) :
    (sep.intercalate (a :: as)).toList =
      a.toList ++ as.flatMap fun b => sep.toList ++ b.toList := by
  induction as generalizing a with
  | nil => simp
  | cons b as ih =>
    have := ih b
    simp only [String.toList_intercalate, List.map_cons, List.intercalate_cons_cons,
      List.flatMap_cons, List.append_assoc] at this ⊢
    rw [this]

end Text

namespace Source

open Text (Stops)

/-- What follows an operand. -/
inductive Closes : List Char → Prop where
  | comma (r : List Char) : Closes (',' :: r)
  | paren (r : List Char) : Closes (')' :: r)

theorem Closes.stops {p : Char → Bool} {rest : List Char} (h : Closes rest)
    (hc : p ',' = false) (hp : p ')' = false) : Stops p rest := by
  cases h with
  | comma r => exact .cons hc r
  | paren r => exact .cons hp r

/-- A name is told by a text, and ends where the text stops going on with it. -/
theorem name_append_inj {a b : String} {r r' : List Char} (ha : isIdentifier a = true)
    (hb : isIdentifier b = true) (hr : Stops isIdentifierRest r) (hr' : Stops isIdentifierRest r')
    (h : a.toList ++ r = b.toList ++ r') : a = b ∧ r = r' := by
  obtain ⟨he, hrest⟩ :=
    Text.append_inj_of_stops (isIdentifier_chars ha) (isIdentifier_chars hb) hr hr' h
  exact ⟨String.toList_inj.mp he, hrest⟩

/-- The text of a number is told by a text that goes on after it. -/
theorem number_append_inj {x y : Double} {r r' : List Char} (hx : x.isFinite = true)
    (hy : y.isFinite = true) (hr : Stops Double.isNumberChar r)
    (hr' : Stops Double.isNumberChar r')
    (h : x.source.toList ++ r = y.source.toList ++ r') : x.source = y.source ∧ r = r' := by
  obtain ⟨he, hrest⟩ := Text.append_inj_of_stops (Double.source_numberChar hx)
    (Double.source_numberChar hy) hr hr' h
  exact ⟨String.toList_inj.mp he, hrest⟩

/-- A text without quotes ends at the next quote. -/
theorem quoted_append_inj {a b : String} {r r' : List Char} (ha : '"' ∉ a.toList)
    (hb : '"' ∉ b.toList) (h : a.toList ++ '"' :: r = b.toList ++ '"' :: r') :
    a = b ∧ r = r' := by
  have hclass : ∀ s : List Char, '"' ∉ s → ∀ c ∈ s, (c != '"') = true := by
    intro s hs c hc
    rw [bne_iff_ne]
    rintro rfl
    exact hs hc
  obtain ⟨he, hrest⟩ := Text.append_inj_of_stops (hclass _ ha) (hclass _ hb) (.cons rfl r)
    (.cons rfl r') h
  exact ⟨String.toList_inj.mp he, (List.cons.inj hrest).2⟩

theorem name_head {a : String} (h : isIdentifier a = true) :
    ∃ c r, a.toList = c :: r ∧ isIdentifierStart c = true := by
  unfold isIdentifier at h
  split at h
  · cases h
  · rename_i c r he
    rw [Bool.and_eq_true] at h
    exact ⟨c, r, he, h.1⟩

theorem not_identifierStart {c : Char} (h : c.isDigit = true ∨ c = '-') :
    isIdentifierStart c = false := by
  rw [Bool.eq_false_iff]
  intro hs
  rcases h with hd | rfl
  · simp only [isIdentifierStart, Bool.or_eq_true, beq_iff_eq] at hs
    rcases hs with (hs | rfl) | rfl
    · simp only [Char.isAlpha, Char.isUpper, Char.isLower, Char.isDigit, Bool.or_eq_true,
        Bool.and_eq_true, decide_eq_true_eq, UInt32.le_iff_toNat_le, ge_iff_le] at hs hd
      change 48 ≤ c.toNat ∧ c.toNat ≤ 57 at hd
      change (65 ≤ c.toNat ∧ c.toNat ≤ 90) ∨ (97 ≤ c.toNat ∧ c.toNat ≤ 122) at hs
      omega
    · exact absurd hd (by decide)
    · exact absurd hd (by decide)
  · exact absurd hs (by decide)

/-- No number starts like a name. -/
theorem number_append_ne_name {x : Double} {a : String} {r r' : List Char}
    (hx : x.isFinite = true) (ha : isIdentifier a = true) :
    x.source.toList ++ r ≠ a.toList ++ r' := by
  obtain ⟨c, cs, hc, hd⟩ := Double.source_head hx
  obtain ⟨b, bs, hb, hs⟩ := name_head ha
  intro h
  rw [hc, hb] at h
  obtain ⟨rfl, _⟩ := List.cons.inj h
  exact absurd hs (Bool.eq_false_iff.mp (not_identifierStart hd))

def isScalarChar (c : Char) : Bool := isIdentifierRest c || Double.isNumberChar c

theorem stops_name {r : List Char} (h : Stops isScalarChar r) : Stops isIdentifierRest r :=
  fun c hc => (Bool.or_eq_false_iff.mp (h c hc)).1

theorem stops_number {r : List Char} (h : Stops isScalarChar r) : Stops Double.isNumberChar r :=
  fun c hc => (Bool.or_eq_false_iff.mp (h c hc)).2

end Source

open Source
open Text (Stops)

theorem Literal.Clean.quote_not_mem {s : String} (h : (Literal.text s).Clean) :
    '"' ∉ s.toList := by
  intro hm
  exact absurd (h '"' hm) (by decide)

/-- A text tells the scalar it starts with, up to what texts do not show, and where it ends. -/
theorem Scalar.append_inj {s t : Scalar} {r r' : List Char} (hs : s.Clean) (ht : t.Clean)
    (hr : Stops isScalarChar r) (hr' : Stops isScalarChar r')
    (h : s.source.toList ++ r = t.source.toList ++ r') : s.Alike t ∧ r = r' := by
  cases s with
  | number x =>
    cases t with
    | number y =>
      obtain ⟨he, hrest⟩ := number_append_inj hs ht (stops_number hr) (stops_number hr') h
      exact ⟨.number x y he, hrest⟩
    | result name => exact absurd h (number_append_ne_name hs ht)
  | result name =>
    cases t with
    | number y => exact absurd h.symm (number_append_ne_name ht hs)
    | result name' =>
      obtain ⟨rfl, hrest⟩ := name_append_inj hs ht (stops_name hr) (stops_name hr') h
      exact ⟨.result name, hrest⟩

/-- A scalar named `vars` does not look like a variable: no dot follows it. -/
theorem Scalar.append_ne_vars {s : Scalar} {r r' : List Char} (hs : s.Clean)
    (hr : Stops isScalarChar r) : s.source.toList ++ r ≠ "vars.".toList ++ r' := by
  intro h
  have h' : s.source.toList ++ r = "vars".toList ++ '.' :: r' := h
  cases s with
  | number x => exact number_append_ne_name hs (by decide) h'
  | result name =>
    obtain ⟨_, hdot⟩ := name_append_inj hs (by decide) (stops_name hr) (.cons rfl r') h'
    have := hr '.' (by simp [hdot])
    exact absurd this (by decide)

/-- A term ends with its own parenthesis, whatever follows. -/
theorem Term.append_inj {t u : Term} {r r' : List Char} (ht : t.Clean) (hu : u.Clean)
    (h : t.source.toList ++ r = u.source.toList ++ r') : t.Alike u ∧ r = r' := by
  simp only [Term.source, Source.var, String.toList_append, String.reduceToList, List.cons_append,
    List.nil_append, List.append_assoc, List.cons.injEq, true_and] at h
  obtain ⟨hname, h⟩ := name_append_inj ht.name hu.name (.cons rfl _) (.cons rfl _) h
  simp only [List.cons.injEq, true_and] at h
  obtain ⟨hcoefficient, h⟩ :=
    Scalar.append_inj ht.coefficient hu.coefficient (.cons rfl _) (.cons rfl _) h
  exact ⟨⟨hcoefficient, hname⟩, (List.cons.inj h).2⟩

namespace Affine

def plusTail (cs : List Scalar) : List Char := cs.flatMap fun s => '+' :: s.source.toList

theorem toList_constants (c : Scalar) (cs : List Scalar) :
    ("+".intercalate ((c :: cs).map Scalar.source)).toList = c.source.toList ++ plusTail cs := by
  rw [List.map_cons, Text.toList_intercalate_cons, plusTail, List.flatMap_map]
  rfl

theorem plusTail_stops (cs : List Scalar) {r : List Char} (hr : Stops isScalarChar r) :
    Stops isScalarChar (plusTail cs ++ r) := by
  cases cs with
  | nil => exact hr
  | cons c cs => exact .cons rfl _

/-- Constants after plus signs are told one by one, up to what closes the operand. -/
theorem plusTail_append_inj {cs ds : List Scalar} {r r' : List Char} (hcs : ∀ s ∈ cs, s.Clean)
    (hds : ∀ s ∈ ds, s.Clean) (hr : Closes r) (hr' : Closes r')
    (h : plusTail cs ++ r = plusTail ds ++ r') : List.Forall₂ Scalar.Alike cs ds ∧ r = r' := by
  induction cs generalizing ds with
  | nil =>
    cases ds with
    | nil => exact ⟨.nil, h⟩
    | cons d ds =>
      simp only [plusTail, List.flatMap_nil, List.nil_append, List.flatMap_cons,
        List.cons_append] at h
      cases hr <;> simp at h
  | cons c cs ih =>
    cases ds with
    | nil =>
      simp only [plusTail, List.flatMap_nil, List.nil_append, List.flatMap_cons,
        List.cons_append] at h
      cases hr' <;> simp at h
    | cons d ds =>
      rw [List.forall_mem_cons] at hcs hds
      have h' : c.source.toList ++ (plusTail cs ++ r) = d.source.toList ++ (plusTail ds ++ r') := by
        simpa [plusTail] using h
      obtain ⟨hhead, h'⟩ :=
        Scalar.append_inj hcs.1 hds.1 (plusTail_stops cs (hr.stops rfl rfl))
          (plusTail_stops ds (hr'.stops rfl rfl)) h'
      obtain ⟨htail, hrest⟩ := ih hcs.2 hds.2 h'
      exact ⟨.cons hhead htail, hrest⟩

theorem constants_append_inj {cs ds : List Scalar} {r r' : List Char} (cne : cs ≠ [])
    (dne : ds ≠ []) (hcs : ∀ s ∈ cs, s.Clean) (hds : ∀ s ∈ ds, s.Clean) (hr : Closes r)
    (hr' : Closes r')
    (h : ("+".intercalate (cs.map Scalar.source)).toList ++ r =
      ("+".intercalate (ds.map Scalar.source)).toList ++ r') :
    List.Forall₂ Scalar.Alike cs ds ∧ r = r' := by
  obtain ⟨c, cs, rfl⟩ := List.exists_cons_of_ne_nil cne
  obtain ⟨d, ds, rfl⟩ := List.exists_cons_of_ne_nil dne
  rw [List.forall_mem_cons] at hcs hds
  rw [toList_constants, toList_constants, List.append_assoc, List.append_assoc] at h
  obtain ⟨hhead, h⟩ :=
    Scalar.append_inj hcs.1 hds.1 (plusTail_stops cs (hr.stops rfl rfl))
      (plusTail_stops ds (hr'.stops rfl rfl)) h
  obtain ⟨htail, hrest⟩ := plusTail_append_inj hcs.2 hds.2 hr hr' h
  exact ⟨.cons hhead htail, hrest⟩

/-- Constants do not start like a variable, so terms and constants are told apart. -/
theorem constants_append_ne_vars {cs : List Scalar} {r r' : List Char} (cne : cs ≠ [])
    (hcs : ∀ s ∈ cs, s.Clean) (hr : Closes r) :
    ("+".intercalate (cs.map Scalar.source)).toList ++ r ≠ "vars.".toList ++ r' := by
  obtain ⟨c, cs, rfl⟩ := List.exists_cons_of_ne_nil cne
  rw [List.forall_mem_cons] at hcs
  rw [toList_constants, List.append_assoc]
  exact Scalar.append_ne_vars hcs.1 (plusTail_stops cs (hr.stops rfl rfl))

theorem sourceFrom_starts (constants : String) (t : Term) (ts : List Term) (r : List Char) :
    ∃ r', (sourceFrom constants (t :: ts)).toList ++ r = "vars.".toList ++ r' := by
  simp only [sourceFrom, Term.source, Source.var, String.toList_append, List.append_assoc]
  exact ⟨_, rfl⟩

/-- The terms are told one by one, each by the variable it starts with, and then the constants. -/
theorem sourceFrom_append_inj {cs ds : List Scalar} {ts us : List Term} {r r' : List Char}
    (cne : cs ≠ []) (dne : ds ≠ []) (hcs : ∀ s ∈ cs, s.Clean) (hds : ∀ s ∈ ds, s.Clean)
    (hts : ∀ t ∈ ts, t.Clean) (hus : ∀ u ∈ us, u.Clean) (hr : Closes r) (hr' : Closes r')
    (h : (sourceFrom ("+".intercalate (cs.map Scalar.source)) ts).toList ++ r =
      (sourceFrom ("+".intercalate (ds.map Scalar.source)) us).toList ++ r') :
    (List.Forall₂ Term.Alike ts us ∧ List.Forall₂ Scalar.Alike cs ds) ∧ r = r' := by
  induction ts generalizing us r r' with
  | nil =>
    cases us with
    | nil =>
      obtain ⟨hconstants, hrest⟩ := constants_append_inj cne dne hcs hds hr hr' h
      exact ⟨⟨.nil, hconstants⟩, hrest⟩
    | cons u us =>
      obtain ⟨_, hstarts⟩ := sourceFrom_starts _ u us r'
      rw [hstarts] at h
      exact absurd h (constants_append_ne_vars cne hcs hr)
  | cons t ts ih =>
    cases us with
    | nil =>
      obtain ⟨_, hstarts⟩ := sourceFrom_starts _ t ts r
      rw [hstarts] at h
      exact absurd h.symm (constants_append_ne_vars dne hds hr')
    | cons u us =>
      rw [List.forall_mem_cons] at hts hus
      simp only [sourceFrom, String.toList_append, List.append_assoc] at h
      obtain ⟨hterm, h⟩ := Term.append_inj hts.1 hus.1 h
      simp only [List.append_cancel_left_eq] at h
      obtain ⟨⟨hterms, hconstants⟩, h⟩ := ih hts.2 hus.2 (.paren r) (.paren r') h
      exact ⟨⟨.cons hterm hterms, hconstants⟩, (List.cons.inj h).2⟩

theorem append_inj {e f : Affine} {r r' : List Char} (he : e.Clean) (hf : f.Clean)
    (hr : Closes r) (hr' : Closes r') (h : e.source.toList ++ r = f.source.toList ++ r') :
    e.Alike f ∧ r = r' := by
  obtain ⟨⟨hterms, hconstants⟩, hrest⟩ := sourceFrom_append_inj he.nonempty hf.nonempty
    he.constants hf.constants he.terms hf.terms hr hr' h
  exact ⟨⟨hterms, hconstants⟩, hrest⟩

theorem clean_lone (s : Scalar) (h : s.Clean) : Affine.Clean ⟨[], [s]⟩ :=
  ⟨by simp, by simp, by simpa using h⟩

theorem append_ne_quote {e : Affine} {r r' : List Char} (he : e.Clean) :
    e.source.toList ++ r ≠ '"' :: r' := by
  intro h
  rw [source] at h
  obtain ⟨c, cs, hc⟩ := List.exists_cons_of_ne_nil he.nonempty
  cases ht : e.terms with
  | nil =>
    rw [ht, hc, sourceFrom, toList_constants, List.append_assoc] at h
    have hclean := he.constants c (by simp [hc])
    cases c with
    | number x =>
      obtain ⟨d, ds, hd, hhead⟩ := Double.source_head hclean
      rw [Scalar.source, hd] at h
      obtain ⟨rfl, _⟩ := List.cons.inj h
      exact absurd hhead (by decide)
    | result name =>
      obtain ⟨d, ds, hd, hhead⟩ := name_head hclean
      rw [Scalar.source, hd] at h
      obtain ⟨rfl, _⟩ := List.cons.inj h
      exact absurd hhead (by decide)
  | cons t ts =>
    obtain ⟨_, hstarts⟩ := sourceFrom_starts ("+".intercalate (e.constants.map Scalar.source)) t ts r
    rw [ht, hstarts] at h
    exact absurd (List.cons.inj h).1 (by decide)

/-- An affine expression with a term goes on after its variable, and one without does not start like
a variable. -/
theorem append_ne_var {e : Affine} {name : String} {r r' : List Char} (he : e.Clean)
    (hname : isIdentifier name = true) (hr : Closes r) (hr' : Closes r') :
    e.source.toList ++ r ≠ (Source.var name).toList ++ r' := by
  intro h
  rw [Source.var, String.toList_append, List.append_assoc, source] at h
  cases ht : e.terms with
  | nil =>
    rw [ht] at h
    exact constants_append_ne_vars he.nonempty he.constants hr h
  | cons t ts =>
    have htname := (he.terms t (by simp [ht])).name
    simp only [ht, sourceFrom, Term.source, Source.var, String.toList_append, List.append_assoc,
      String.reduceToList, List.cons_append, List.nil_append, List.cons.injEq, true_and] at h
    obtain ⟨_, hdot⟩ := name_append_inj htname hname (.cons rfl _) (hr'.stops rfl rfl) h
    cases hr' <;> simp at hdot

end Affine

namespace Operand

/-- The affine expression with the text of an operand, unless it is a string or a variable. -/
def sum? : Operand → Option Affine
  | .literal (.number x) => some ⟨[], [.number x]⟩
  | .literal (.text _) => none
  | .literal (.truth b) => some ⟨[], [.result (if b then "true" else "false")]⟩
  | .var _ => none
  | .result name => some ⟨[], [.result name]⟩
  | .affine e => some e

theorem alike_of_sum? {o : Operand} {e : Affine} (h : o.sum? = some e) : o.Alike (.affine e) := by
  cases o with
  | literal v =>
    cases v with
    | number x => cases h; exact .symm (.lone (.number x))
    | text s => cases h
    | truth b => cases h; exact .trans (.symm (.truth b)) (.symm (.lone (.result _)))
  | var name => cases h
  | result name => cases h; exact .symm (.lone (.result name))
  | affine f => cases h; exact .refl _

theorem clean_of_sum? {o : Operand} {e : Affine} (h : o.sum? = some e) (ho : o.Clean) :
    e.Clean := by
  cases o with
  | literal v =>
    cases v with
    | number x => cases h; exact Affine.clean_lone (.number x) ho
    | text s => cases h
    | truth b =>
      cases h
      apply Affine.clean_lone
      cases b with
      | false => exact (by decide : isIdentifier "false" = true)
      | true => exact (by decide : isIdentifier "true" = true)
  | var name => cases h
  | result name => cases h; exact Affine.clean_lone (.result name) ho
  | affine f => cases h; exact ho

theorem text_or_var_of_sum? {o : Operand} (h : o.sum? = none) :
    (∃ s, o = .literal (.text s)) ∨ ∃ name, o = .var name := by
  cases o with
  | literal v =>
    cases v with
    | number x => cases h
    | text s => exact .inl ⟨s, rfl⟩
    | truth b => cases h
  | var name => exact .inr ⟨name, rfl⟩
  | result name => cases h
  | affine f => cases h

/-- A string or a variable ends where it does, and is no affine expression. -/
theorem append_inj_of_none {o p : Operand} {r r' : List Char} (ho : o.Clean) (hp : p.Clean)
    (hr : Closes r) (hr' : Closes r') (hnone : o.sum? = none)
    (h : o.source.toList ++ r = p.source.toList ++ r') : o.Alike p ∧ r = r' := by
  cases hq : p.sum? with
  | some f =>
    rw [(alike_of_sum? hq).source] at h
    have hf := clean_of_sum? hq hp
    rcases text_or_var_of_sum? hnone with ⟨s, rfl⟩ | ⟨name, rfl⟩
    · simp only [source, Literal.source, Source.string, String.toList_append, String.reduceToList,
        List.cons_append, List.nil_append] at h
      exact absurd h.symm (Affine.append_ne_quote hf)
    · exact absurd h.symm (Affine.append_ne_var hf ho hr' hr)
  | none =>
    rcases text_or_var_of_sum? hnone with ⟨s, rfl⟩ | ⟨name, rfl⟩ <;>
      rcases text_or_var_of_sum? hq with ⟨t, rfl⟩ | ⟨name', rfl⟩ <;>
      simp only [source, Literal.source, Source.string, Source.var, String.toList_append,
        String.reduceToList, List.cons_append, List.nil_append, List.append_assoc, List.cons.injEq,
        true_and, Char.reduceEq, false_and] at h
    · obtain ⟨rfl, hrest⟩ := quoted_append_inj (Literal.Clean.quote_not_mem ho)
        (Literal.Clean.quote_not_mem hp) h
      exact ⟨.refl _, hrest⟩
    · obtain ⟨rfl, hrest⟩ := name_append_inj ho hp (hr.stops rfl rfl) (hr'.stops rfl rfl) h
      exact ⟨.refl _, hrest⟩

/-- A text tells the operand it starts with, up to what texts do not show, and where it ends. -/
theorem append_inj {o p : Operand} {r r' : List Char} (ho : o.Clean) (hp : p.Clean)
    (hr : Closes r) (hr' : Closes r') (h : o.source.toList ++ r = p.source.toList ++ r') :
    o.Alike p ∧ r = r' := by
  cases he : o.sum? with
  | none => exact append_inj_of_none ho hp hr hr' he h
  | some e =>
    cases hf : p.sum? with
    | none =>
      obtain ⟨halike, hrest⟩ := append_inj_of_none hp ho hr' hr hf h.symm
      exact ⟨halike.symm, hrest.symm⟩
    | some f =>
      rw [(alike_of_sum? he).source, (alike_of_sum? hf).source] at h
      obtain ⟨halike, hrest⟩ :=
        Affine.append_inj (clean_of_sum? he ho) (clean_of_sum? hf hp) hr hr' h
      exact ⟨(alike_of_sum? he).trans (.trans (.affine halike) (alike_of_sum? hf).symm), hrest⟩

end Operand

theorem Comparison.append_inj {c d : Comparison} {k k' : List Char} (hc : c.Clean) (hd : d.Clean)
    (h : c.source.toList ++ k = d.source.toList ++ k') : c.Alike d ∧ k = k' := by
  simp only [Comparison.source, Source.var, String.toList_append, String.reduceToList,
    List.cons_append, List.nil_append, List.append_assoc, List.cons.injEq, true_and] at h
  obtain ⟨hlhs, h⟩ := name_append_inj hc.lhs hd.lhs (.cons rfl _) (.cons rfl _) h
  have hmethod : c.operator = d.operator ∧
      c.rhs.source.toList ++ ')' :: k = d.rhs.source.toList ++ ')' :: k' := by
    cases ho : c.operator <;> cases hp : d.operator <;>
      simp [ho, hp, Operator.method] at h ⊢
    all_goals exact h
  obtain ⟨hrhs, h⟩ := Operand.append_inj hc.rhs hd.rhs (.paren k) (.paren k') hmethod.2
  exact ⟨⟨hlhs, hmethod.1, hrhs⟩, (List.cons.inj h).2⟩

theorem Ratio.append_inj {q p : Ratio} {k k' : List Char} (hq : q.Clean) (hp : p.Clean)
    (h : q.source.toList ++ k = p.source.toList ++ k') : q.Alike p ∧ k = k' := by
  simp only [Ratio.source, Source.var, Source.string, String.toList_append, String.reduceToList,
    List.cons_append, List.nil_append, List.append_assoc, List.cons.injEq, true_and] at h
  obtain ⟨hnumerator, h⟩ := name_append_inj hq.numerator hp.numerator (.cons rfl _) (.cons rfl _) h
  simp only [List.cons.injEq, true_and] at h
  obtain ⟨hdenominator, h⟩ :=
    Operand.append_inj hq.denominator hp.denominator (.comma _) (.comma _) h
  have hsymbol : q.operator = p.operator ∧
      q.bound.source.toList ++ ')' :: k = p.bound.source.toList ++ ')' :: k' := by
    cases ho : q.operator <;> cases hp : p.operator <;>
      simp [ho, hp, Operator.symbol] at h ⊢
    all_goals exact h
  obtain ⟨hbound, h⟩ :=
    number_append_inj hq.bound hp.bound (.cons rfl _) (.cons rfl _) hsymbol.2
  exact ⟨⟨hnumerator, hdenominator, hsymbol.1, hbound⟩, (List.cons.inj h).2⟩

/-- Comparisons and ratios both start with a variable, and differ in the call after it. -/
theorem Comparison.append_ne_ratio {c : Comparison} {q : Ratio} {k k' : List Char} (hc : c.Clean)
    (hq : q.Clean) : c.source.toList ++ k ≠ q.source.toList ++ k' := by
  intro h
  simp only [Comparison.source, Ratio.source, Source.var, String.toList_append,
    String.reduceToList, List.cons_append, List.nil_append, List.append_assoc, List.cons.injEq,
    true_and] at h
  obtain ⟨_, h⟩ := name_append_inj hc.lhs hq.numerator (.cons rfl _) (.cons rfl _) h
  cases ho : c.operator <;> simp [ho, Operator.method] at h

theorem TaskRoot.Clean.name {root : TaskRoot} (h : root.Clean) : isIdentifier root.name = true := by
  cases root with
  | loan => decide
  | result name => exact h

theorem TaskRoot.alike_of_name {root root' : TaskRoot} (h : root.name = root'.name) :
    root.Alike root' := by
  cases root with
  | loan =>
    cases root' with
    | loan => exact .refl _
    | result name => cases h; exact .toResult
  | result name =>
    cases root' with
    | loan => cases h; exact .toLoan
    | result name' => cases h; exact .refl _

namespace Rule

/-- The first characters of a rule's text tell its kind, but for comparisons and ratios. -/
def opening : Rule → List Char
  | .task .. => ['f', 'e', 't', 'c', 'h']
  | .comparison _ => ['v', 'a', 'r', 's', '.']
  | .ratio _ => ['v', 'a', 'r', 's', '.']
  | .oneOf _ => ['d', 's', 'l', '.', 'o']
  | .allOf _ => ['d', 's', 'l', '.', 'a']
  | .branch .. => ['d', 's', 'l', '.', 'i']

theorem source_opening (r : Rule) : ∃ t, r.source.toList = r.opening ++ t := by
  cases r <;>
    simp only [source, Comparison.source, Ratio.source, Source.var, String.toList_append,
      List.append_assoc] <;>
    exact ⟨_, rfl⟩

theorem length_opening (r : Rule) : r.opening.length = 5 := by
  cases r <;> rfl

/-- Texts that agree start alike, which tells the kind of the rule, but for comparisons and ratios.
-/
theorem opening_eq {r s : Rule} {k k' : List Char}
    (h : r.source.toList ++ k = s.source.toList ++ k') : r.opening = s.opening := by
  obtain ⟨t, ht⟩ := r.source_opening
  obtain ⟨u, hu⟩ := s.source_opening
  rw [ht, hu, List.append_assoc, List.append_assoc] at h
  exact (List.append_inj h (by rw [length_opening, length_opening])).1

/-- No rule's text starts with a dot. -/
theorem append_ne_dot (r : Rule) (k k' : List Char) : r.source.toList ++ k ≠ '.' :: k' := by
  obtain ⟨t, ht⟩ := r.source_opening
  rw [ht]
  cases r <;> simp [opening]

/-- A rule's text determines the rule and its own end, if no dot follows: a dot could be that of an
`else`. -/
def Determined (r : Rule) : Prop :=
  ∀ s k k', r.Clean → s.Clean → Stops (· == '.') k → Stops (· == '.') k' →
    r.source.toList ++ k = s.source.toList ++ k' → r.Alike s ∧ k = k'

def commaTail (rs : List Rule) : List Char := rs.flatMap fun r => ',' :: r.source.toList

theorem toList_list (r : Rule) (rs : List Rule) :
    (Source.list (sources (r :: rs))).toList = r.source.toList ++ commaTail rs := by
  rw [Source.list, sources_eq_map, List.map_cons, Text.toList_intercalate_cons, commaTail,
    List.flatMap_map]
  rfl

theorem commaTail_stops (rs : List Rule) (k : List Char) :
    Stops (· == '.') (commaTail rs ++ ')' :: k) := by
  cases rs with
  | nil => exact .cons rfl k
  | cons r rs => exact .cons rfl _

theorem commaTail_append_inj {rs ss : List Rule} {k k' : List Char}
    (ih : ∀ r ∈ rs, r.Determined) (hrs : ∀ r ∈ rs, r.Clean) (hss : ∀ s ∈ ss, s.Clean)
    (h : commaTail rs ++ ')' :: k = commaTail ss ++ ')' :: k') :
    List.Forall₂ Alike rs ss ∧ k = k' := by
  induction rs generalizing ss with
  | nil =>
    cases ss with
    | nil => exact ⟨.nil, (List.cons.inj h).2⟩
    | cons s ss => simp [commaTail] at h
  | cons r rs ihrs =>
    cases ss with
    | nil => simp [commaTail] at h
    | cons s ss =>
      rw [List.forall_mem_cons] at ih hrs hss
      have h' : r.source.toList ++ (commaTail rs ++ ')' :: k) =
          s.source.toList ++ (commaTail ss ++ ')' :: k') := by
        simpa [commaTail] using h
      obtain ⟨hhead, h'⟩ :=
        ih.1 s _ _ hrs.1 hss.1 (commaTail_stops rs k) (commaTail_stops ss k') h'
      obtain ⟨htail, hrest⟩ := ihrs ih.2 hrs.2 hss.2 h'
      exact ⟨.cons hhead htail, hrest⟩

/-- A list of rules is told rule by rule, up to the parenthesis that closes it. -/
theorem list_append_inj {rs ss : List Rule} {k k' : List Char} (ih : ∀ r ∈ rs, r.Determined)
    (rne : rs ≠ []) (sne : ss ≠ []) (hrs : ∀ r ∈ rs, r.Clean) (hss : ∀ s ∈ ss, s.Clean)
    (h : (Source.list (sources rs)).toList ++ ')' :: k =
      (Source.list (sources ss)).toList ++ ')' :: k') :
    (rs.length = ss.length ∧ ∀ p ∈ rs.zip ss, p.1.Alike p.2) ∧ k = k' := by
  obtain ⟨r, rs, rfl⟩ := List.exists_cons_of_ne_nil rne
  obtain ⟨s, ss, rfl⟩ := List.exists_cons_of_ne_nil sne
  rw [List.forall_mem_cons] at ih hrs hss
  rw [toList_list, toList_list, List.append_assoc, List.append_assoc] at h
  obtain ⟨hhead, h⟩ := ih.1 s _ _ hrs.1 hss.1 (commaTail_stops rs k) (commaTail_stops ss k') h
  obtain ⟨htail, hrest⟩ := commaTail_append_inj ih.2 hrs.2 hss.2 h
  obtain ⟨length, hzip⟩ := List.forall₂_iff_zip.mp (List.Forall₂.cons hhead htail)
  exact ⟨⟨length, fun p hp => hzip hp⟩, hrest⟩

/-- The check of each element does not look like a conjunction of rules. -/
theorem append_ne_each {r : Rule} {k k' : List Char} (hr : r.Clean) :
    r.source.toList ++ k ≠ "dsl.allOf(...".toList ++ k' := by
  intro h
  obtain ⟨t, ht⟩ := r.source_opening
  cases r with
  | allOf preds =>
    obtain ⟨p, ps, rfl⟩ := List.exists_cons_of_ne_nil hr.self
    simp only [source, toList_list, String.toList_append, String.reduceToList, List.cons_append,
      List.nil_append, List.append_assoc, List.cons.injEq, true_and] at h
    exact append_ne_dot p _ _ h
  | task root path each inner => rw [ht] at h; simp [opening] at h
  | comparison c => rw [ht] at h; simp [opening] at h
  | ratio q => rw [ht] at h; simp [opening] at h
  | oneOf options => rw [ht] at h; simp [opening] at h
  | branch cond yes no => rw [ht] at h; simp [opening] at h

/-- The function of a fetched value; its parameter is known from the path. -/
theorem inner_append_inj {binding : String} {each each' : Bool} {r s : Rule} {k k' : List Char}
    (ih : r.Determined) (hr : r.Clean) (hs : s.Clean)
    (h : (sourceInner binding each (some r)).toList ++ ')' :: k =
      (sourceInner binding each' (some s)).toList ++ ')' :: k') :
    (each = each' ∧ r.Alike s) ∧ k = k' := by
  simp only [sourceInner, String.toList_append, List.append_assoc, List.append_cancel_left_eq] at h
  cases each with
  | false =>
    cases each' with
    | false =>
      obtain ⟨halike, h⟩ := ih s _ _ hr hs (.cons rfl _) (.cons rfl _) h
      exact ⟨⟨rfl, halike⟩, (List.cons.inj h).2⟩
    | true =>
      simp only [if_true, String.toList_append, List.append_assoc] at h
      exact absurd h (append_ne_each hr)
  | true =>
    cases each' with
    | false =>
      simp only [if_true, String.toList_append, List.append_assoc] at h
      exact absurd h.symm (append_ne_each hs)
    | true =>
      simp only [if_true, String.toList_append, List.append_assoc, List.append_cancel_left_eq] at h
      obtain ⟨halike, h⟩ := ih s _ _ hr hs (.cons rfl _) (.cons rfl _) h
      exact ⟨⟨rfl, halike⟩, by simpa using h⟩

/-- A task is determined by its path, and by the rule inside it if there is one. -/
theorem task_determined {root : TaskRoot} {path : TaskPath} {each : Bool} {inner : Option Rule}
    (ih : ∀ r, inner = some r → r.Determined) : (Rule.task root path each inner).Determined := by
  intro s k k' hr hs hk hk' h
  have hopening := opening_eq h
  cases s with
  | task root' path' each' inner' =>
    obtain ⟨hroot, hpath, _⟩ := hr.self
    obtain ⟨hroot', hpath', _⟩ := hs.self
    simp only [source, Source.string, String.toList_append, String.reduceToList, List.cons_append,
      List.nil_append, List.append_assoc, List.cons.injEq, true_and] at h
    obtain ⟨hname, h⟩ := name_append_inj hroot.name hroot'.name (.cons rfl _) (.cons rfl _) h
    simp only [List.cons.injEq, true_and] at h
    obtain ⟨htext, h⟩ :=
      quoted_append_inj (quote_not_mem_path hpath) (quote_not_mem_path hpath') h
    obtain rfl : path = path' := by
      cases path
      cases path'
      cases htext
      rfl
    have halike := TaskRoot.alike_of_name hname
    cases inner with
    | none =>
      cases inner' with
      | none =>
        simp only [sourceInner, String.reduceToList, List.nil_append, List.cons.injEq,
          true_and] at h
        exact ⟨.fetch halike path each each', h⟩
      | some r' => simp [sourceInner] at h
    | some r =>
      cases inner' with
      | none => simp [sourceInner] at h
      | some r' =>
        obtain ⟨⟨rfl, hinner⟩, hrest⟩ := inner_append_inj (ih r rfl) hr.inner hs.inner h
        exact ⟨.check halike path each hinner, hrest⟩
  | _ => simp [opening] at hopening

/-- A branch is determined by its rules; whether there is an `else` is told by the dot after `then`.
-/
theorem branch_determined {cond : Comparison} {yes : Rule} {no : Option Rule}
    (ihyes : yes.Determined) (ihno : ∀ r, no = some r → r.Determined) :
    (Rule.branch cond yes no).Determined := by
  intro s k k' hr hs hk hk' h
  have hopening := opening_eq h
  cases s with
  | branch cond' yes' no' =>
    simp only [source, String.toList_append, String.reduceToList, List.cons_append,
      List.nil_append, List.append_assoc, List.cons.injEq, true_and] at h
    obtain ⟨hcond, h⟩ := Comparison.append_inj hr.self hs.self h
    simp only [List.cons.injEq, true_and] at h
    obtain ⟨hyes, h⟩ := ihyes yes' _ _ hr.yes hs.yes (.cons rfl _) (.cons rfl _) h
    simp only [List.cons.injEq, true_and] at h
    cases no with
    | none =>
      cases no' with
      | none => exact ⟨.branch hcond hyes, by simpa [sourceElse] using h⟩
      | some r' =>
        have := hk '.' (by simp [sourceElse] at h; simp [h])
        cases this
    | some r =>
      cases no' with
      | none =>
        have := hk' '.' (by simp [sourceElse] at h; simp [← h])
        cases this
      | some r' =>
        simp only [sourceElse, String.toList_append, String.reduceToList, List.cons_append,
          List.nil_append, List.append_assoc, List.cons.injEq, true_and] at h
        obtain ⟨hno, h⟩ := ihno r rfl r' _ _ hr.no hs.no (.cons rfl _) (.cons rfl _) h
        exact ⟨.branchElse hcond hyes hno, (List.cons.inj h).2⟩
  | _ => simp [opening] at hopening

/-- Every rule is determined by its text. -/
theorem determined (r : Rule) : r.Determined := by
  induction r using Rule.induction with
  | task root path each inner ih => exact task_determined ih
  | comparison c =>
    intro s k k' hr hs hk hk' h
    have hopening := opening_eq h
    cases s with
    | comparison d =>
      obtain ⟨halike, hrest⟩ := Comparison.append_inj hr.self hs.self h
      exact ⟨.comparison halike, hrest⟩
    | ratio q => exact absurd h (Comparison.append_ne_ratio hr.self hs.self)
    | _ => simp [opening] at hopening
  | ratio q =>
    intro s k k' hr hs hk hk' h
    have hopening := opening_eq h
    cases s with
    | comparison d => exact absurd h.symm (Comparison.append_ne_ratio hs.self hr.self)
    | ratio p =>
      obtain ⟨halike, hrest⟩ := Ratio.append_inj hr.self hs.self h
      exact ⟨.ratio halike, hrest⟩
    | _ => simp [opening] at hopening
  | oneOf options ih =>
    intro s k k' hr hs hk hk' h
    have hopening := opening_eq h
    cases s with
    | oneOf options' =>
      simp only [source, String.toList_append, List.append_assoc, List.append_cancel_left_eq] at h
      obtain ⟨⟨length, halike⟩, hrest⟩ :=
        list_append_inj ih hr.self hs.self hr.options hs.options h
      exact ⟨.oneOf length halike, hrest⟩
    | _ => simp [opening] at hopening
  | allOf preds ih =>
    intro s k k' hr hs hk hk' h
    have hopening := opening_eq h
    cases s with
    | allOf preds' =>
      simp only [source, String.toList_append, List.append_assoc, List.append_cancel_left_eq] at h
      obtain ⟨⟨length, halike⟩, hrest⟩ := list_append_inj ih hr.self hs.self hr.preds hs.preds h
      exact ⟨.allOf length halike, hrest⟩
    | _ => simp [opening] at hopening
  | branch cond yes no ihyes ihno => exact branch_determined ihyes ihno

/-- Two clean rules with one program text are alike. -/
theorem alike_of_source {r s : Rule} (hr : r.Clean) (hs : s.Clean) (h : r.source = s.source) :
    r.Alike s := by
  have hnil : Stops (· == '.') [] := fun c hc => by cases hc
  exact (r.determined s [] [] hr hs hnil hnil (by rw [h])).1

/-- Two rules without findings have one program text exactly when they are alike. In particular their
numbers agree as values. -/
theorem source_eq_iff_alike :
    (∀ r s : Rule, r.lint = [] → s.lint = [] → (r.source = s.source ↔ r.Alike s)) ∧
    (∀ x y : Double, x.isFinite = true → y.isFinite = true →
      (x.source = y.source ↔ x.same y = true)) := by
  refine ⟨fun r s hr hs => ⟨?_, Alike.source⟩, fun x y => Double.source_eq_iff⟩
  exact alike_of_source (lint_eq_nil.mp hr) (lint_eq_nil.mp hs)

/-- A task of the loan file, with a branch on a literal, against one of a result named `Loan`, with a
branch on a sum. -/
theorem source_eq_iff_alike_task :
    (Rule.task .loan ⟨"$.a", rfl⟩ true (some (.branch ⟨"x", .equal, .literal (.truth true)⟩
      (.task .loan ⟨"$.b", rfl⟩ true none) none))).Alike
    (.task (.result "Loan") ⟨"$.a", rfl⟩ true (some (.branch
      ⟨"x", .equal, .affine ⟨[], [.result "true"]⟩⟩ (.task .loan ⟨"$.b", rfl⟩ false none) none))) :=
  (source_eq_iff_alike.1 _ _ rfl rfl).mp (by decide +kernel)

end Rule

end Eligibility
