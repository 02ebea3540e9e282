import Mathlib
import Eligibility.Proofs.Locality
import Eligibility.Proofs.Unambiguity

namespace Eligibility

namespace Arithmetic

inductive Expr where
  | var (name : String)
  | result (name : String)
  | numeral (text : String)
  | times (a k : Expr)
  | plus (a b : Expr)

/-- Values of variables, of results of tasks, and of numerals by their text. -/
structure Assignment where
  var : String → ℚ
  result : String → ℚ
  numeral : String → ℚ

def Expr.value (ρ : Assignment) : Expr → ℚ
  | .var name => ρ.var name
  | .result name => ρ.result name
  | .numeral text => ρ.numeral text
  | .times a k => a.value ρ * k.value ρ
  | .plus a b => a.value ρ + b.value ρ

inductive Method where
  | times
  | plus

def Method.apply : Method → Expr → Expr → Expr
  | .times => .times
  | .plus => .plus

inductive Token where
  | operand (e : Expr)
  | call (m : Method)
  | plusSign
  | close

def readName : List Char → Option (String × List Char)
  | [] => none
  | c :: cs =>
    if isIdentifierStart c then
      some (String.ofList (c :: cs.takeWhile isIdentifierRest), cs.dropWhile isIdentifierRest)
    else none

def readDecimal (cs : List Char) : Option (List Char × List Char) :=
  (Json.Numeral.readDigits cs).map fun whole =>
    let fraction := (Json.Numeral.readFraction whole.2).getD (none, whole.2)
    (whole.1 ++ Json.Numeral.fractionText fraction.1, fraction.2)

def readNumeral : List Char → Option (String × List Char)
  | '-' :: cs => (readDecimal cs).map fun found => (String.ofList ('-' :: found.1), found.2)
  | cs => (readDecimal cs).map fun found => (String.ofList found.1, found.2)

def readOperand (cs : List Char) : Option (Expr × List Char) :=
  match "vars.".toList.isPrefixOf? cs with
  | some r => (readName r).map fun found => (.var found.1, found.2)
  | none =>
    match readName cs with
    | some found => some (.result found.1, found.2)
    | none => (readNumeral cs).map fun found => (.numeral found.1, found.2)

def readCall (cs : List Char) : Option (Method × List Char) :=
  match "times(".toList.isPrefixOf? cs with
  | some r => some (.times, r)
  | none => ("plus(".toList.isPrefixOf? cs).map fun r => (.plus, r)

def next : List Char → Option (Token × List Char)
  | '+' :: r => some (.plusSign, r)
  | ')' :: r => some (.close, r)
  | '.' :: r => (readCall r).map fun found => (.call found.1, found.2)
  | cs => (readOperand cs).map fun found => (.operand found.1, found.2)

theorem isPrefixOf?_length {w cs r : List Char} (h : w.isPrefixOf? cs = some r) :
    r.length ≤ cs.length := by
  rw [← List.isPrefixOf?_eq_some_iff_append_eq.mp h, List.length_append]
  omega

theorem readName_length {cs : List Char} {found : String × List Char}
    (h : readName cs = some found) : found.2.length < cs.length := by
  cases cs with
  | nil => cases h
  | cons c cs =>
    obtain ⟨-, he⟩ := Option.ite_none_right_eq_some.mp h
    cases he
    exact Nat.lt_succ_of_le (List.length_dropWhile_le isIdentifierRest cs)

theorem readDigits_length {cs : List Char} {found : List Char × List Char}
    (h : Json.Numeral.readDigits cs = some found) : found.2.length < cs.length := by
  obtain ⟨hds, rfl, -⟩ := Json.Numeral.readDigits_eq_some h
  have := List.length_pos_iff.mpr hds.ne_nil
  rw [List.length_append]
  omega

theorem readFraction_length (cs : List Char) :
    ((Json.Numeral.readFraction cs).getD (none, cs)).2.length ≤ cs.length := by
  unfold Json.Numeral.readFraction
  split
  · rename_i r
    cases h : Json.Numeral.readDigits r with
    | none => exact le_rfl
    | some found =>
      have := readDigits_length h
      simp only [Option.map_some, Option.getD_some, List.length_cons]
      omega
  · exact le_rfl

theorem readDecimal_length {cs : List Char} {found : List Char × List Char}
    (h : readDecimal cs = some found) : found.2.length < cs.length := by
  obtain ⟨whole, hwhole, rfl⟩ := Option.map_eq_some_iff.mp h
  exact (readFraction_length whole.2).trans_lt (readDigits_length hwhole)

theorem readNumeral_length {cs : List Char} {found : String × List Char}
    (h : readNumeral cs = some found) : found.2.length < cs.length := by
  unfold readNumeral at h
  split at h
  · obtain ⟨decimal, hdecimal, rfl⟩ := Option.map_eq_some_iff.mp h
    exact (readDecimal_length hdecimal).trans (Nat.lt_succ_self _)
  · obtain ⟨decimal, hdecimal, rfl⟩ := Option.map_eq_some_iff.mp h
    exact readDecimal_length hdecimal

theorem readOperand_length {cs : List Char} {found : Expr × List Char}
    (h : readOperand cs = some found) : found.2.length < cs.length := by
  unfold readOperand at h
  split at h
  · rename_i r hr
    obtain ⟨name, hname, rfl⟩ := Option.map_eq_some_iff.mp h
    exact (readName_length hname).trans_le (isPrefixOf?_length hr)
  · split at h
    · rename_i name hname
      cases h
      exact readName_length hname
    · obtain ⟨numeral, hnumeral, rfl⟩ := Option.map_eq_some_iff.mp h
      exact readNumeral_length hnumeral

theorem readCall_length {cs : List Char} {found : Method × List Char}
    (h : readCall cs = some found) : found.2.length ≤ cs.length := by
  unfold readCall at h
  split at h
  · rename_i r hr
    cases h
    exact isPrefixOf?_length hr
  · obtain ⟨r, hr, rfl⟩ := Option.map_eq_some_iff.mp h
    exact isPrefixOf?_length hr

/-- Each token takes at least one character of the text, so reading ends. -/
theorem next_length {cs : List Char} {found : Token × List Char} (h : next cs = some found) :
    found.2.length < cs.length := by
  unfold next at h
  split at h
  · cases h
    exact Nat.lt_succ_self _
  · cases h
    exact Nat.lt_succ_self _
  · obtain ⟨call, hcall, rfl⟩ := Option.map_eq_some_iff.mp h
    exact Nat.lt_succ_of_le (readCall_length hcall)
  · obtain ⟨operand, hoperand, rfl⟩ := Option.map_eq_some_iff.mp h
    exact readOperand_length hoperand

/-- A call that is open: what is added to it on the left, and the operand that it is a call of. -/
structure Frame where
  before : Option Expr
  receiver : Expr
  method : Method

/-- The calls that are open, and in the innermost one the sum up to the last plus sign and the operand
after it. -/
structure State where
  calls : List Frame
  sum : Option Expr
  operand : Option Expr

def join : Option Expr → Expr → Expr
  | none, e => e
  | some s, e => .plus s e

def step : State → Token → Option State
  | ⟨calls, sum, none⟩, .operand e => some ⟨calls, sum, some e⟩
  | ⟨calls, sum, some e⟩, .plusSign => some ⟨calls, some (join sum e), none⟩
  | ⟨calls, sum, some e⟩, .call m => some ⟨⟨sum, e, m⟩ :: calls, none, none⟩
  | ⟨f :: calls, sum, some e⟩, .close =>
    some ⟨calls, f.before, some (f.method.apply f.receiver (join sum e))⟩
  | _, _ => none

def readFrom (s : State) (cs : List Char) : Option State :=
  if cs = [] then some s
  else
    match h : next cs with
    | none => none
    | some found =>
      have := next_length h
      match step s found.1 with
      | none => none
      | some t => readFrom t found.2
termination_by cs.length

/-- The expression that a text is. An operand comes last, and no call is left open. -/
def read (text : String) : Option Expr :=
  match readFrom ⟨[], none, none⟩ text.toList with
  | some ⟨[], sum, some e⟩ => some (join sum e)
  | _ => none

theorem readFrom_nil (s : State) : readFrom s [] = some s := by
  rw [readFrom, if_pos rfl]

/-- One step of reading: a token is taken off the text and changes the state. -/
theorem readFrom_of_next {s t : State} {token : Token} {cs r : List Char}
    (hnext : next cs = some (token, r)) (hstep : step s token = some t) :
    readFrom s cs = readFrom t r := by
  have hne : cs ≠ [] := by
    rintro rfl
    exact absurd (next_length hnext) (Nat.not_lt_zero _)
  rw [readFrom, if_neg hne]
  split
  · rename_i hnone
    rw [hnext] at hnone
    cases hnone
  · rename_i found hfound
    rw [hnext] at hfound
    cases hfound
    simp only [hstep]

open Source
open Text (Stops)

/-- A name is read up to where the text stops going on with it. -/
theorem readName_append {name : String} {r : List Char} (hname : isIdentifier name = true)
    (hr : Stops isIdentifierRest r) : readName (name.toList ++ r) = some (name, r) := by
  obtain ⟨c, cs, hc, hstart⟩ := name_head hname
  have hcs : ∀ d ∈ cs, isIdentifierRest d = true := by
    intro d hd
    exact isIdentifier_chars hname d (by simp [hc, hd])
  rw [hc, List.cons_append, readName, if_pos hstart, Text.takeWhile_append hcs hr,
    Text.dropWhile_append hcs hr, ← hc, String.ofList_toList]

theorem readName_number {x : Double} {r : List Char} (hx : x.isFinite = true) :
    readName (x.source.toList ++ r) = none := by
  obtain ⟨c, cs, hc, hhead⟩ := Double.source_head hx
  have hstart : isIdentifierStart c = false := not_identifierStart hhead
  rw [hc, List.cons_append, readName, hstart]
  rfl

theorem readDecimal_append {ds r : List Char} (h : Double.IsDecimal ds)
    (hr : Stops Double.isNumberChar r) : readDecimal (ds ++ r) = some (ds, r) := by
  have hstops : ∀ c ∈ r.head?, c.isDigit = false ∧ c ≠ '.' := by
    intro c hc
    have := hr c hc
    simp only [Double.isNumberChar, Bool.or_eq_false_iff, beq_eq_false_iff_ne] at this
    exact this.1
  cases h with
  | whole h =>
    have hfraction : Json.Numeral.readFraction (Json.Numeral.fractionText none ++ r) =
        some (none, r) :=
      Json.Numeral.readFraction_append (by simp) hstops
    rw [Json.Numeral.fractionText, List.nil_append] at hfraction
    rw [readDecimal, Json.Numeral.readDigits_append h fun c hc => (hstops c hc).1]
    simp [hfraction, Json.Numeral.fractionText]
  | point h hf =>
    rename_i ds fs
    have hfraction : Json.Numeral.readFraction (Json.Numeral.fractionText (some fs) ++ r) =
        some (some fs, r) :=
      Json.Numeral.readFraction_append (by simpa using hf) hstops
    rw [Json.Numeral.fractionText, List.cons_append] at hfraction
    rw [readDecimal, List.append_assoc, List.cons_append,
      Json.Numeral.readDigits_append h (.cons rfl _)]
    simp [hfraction, Json.Numeral.fractionText]

/-- The text of a finite number is read as one numeral. -/
theorem readNumeral_append {x : Double} {r : List Char} (hx : x.isFinite = true)
    (hr : Stops Double.isNumberChar r) :
    readNumeral (x.source.toList ++ r) = some (x.source, r) := by
  obtain ⟨body, hbody, he | he⟩ := Double.source_isDecimal hx
  · obtain ⟨c, cs, hc, hdigit⟩ := hbody.head
    rw [he, hc, List.cons_append, readNumeral, ← List.cons_append, ← hc,
      readDecimal_append hbody hr, Option.map_some, ← he, String.ofList_toList]
    rintro cs' hminus
    obtain ⟨rfl, -⟩ := List.cons.inj hminus
    exact absurd hdigit (by decide)
  · rw [he, List.cons_append, readNumeral, readDecimal_append hbody hr, Option.map_some, ← he,
      String.ofList_toList]

theorem isPrefixOf?_append (w r : List Char) : w.isPrefixOf? (w ++ r) = some r :=
  List.isPrefixOf?_eq_some_iff_append_eq.mpr rfl

theorem readOperand_var {name : String} {r : List Char} (hname : isIdentifier name = true)
    (hr : Stops isIdentifierRest r) :
    readOperand ((Source.var name).toList ++ r) = some (.var name, r) := by
  rw [Source.var, String.toList_append, List.append_assoc, readOperand, isPrefixOf?_append]
  simp only [readName_append hname hr, Option.map_some]

/-- No token but an operand starts with a minus sign or a character of a name. -/
theorem next_of_operand {c : Char} {cs r : List Char} {e : Expr}
    (hc : isScalarChar c = true ∧ c ≠ '.') (h : readOperand (c :: cs) = some (e, r)) :
    next (c :: cs) = some (.operand e, r) := by
  unfold next
  split
  · rename_i he
    cases he
    exact absurd hc.1 (by decide)
  · rename_i he
    cases he
    exact absurd hc.1 (by decide)
  · rename_i he
    cases he
    exact absurd rfl hc.2
  · rw [h, Option.map_some]

theorem next_var {name : String} {r : List Char} (hname : isIdentifier name = true)
    (hr : Stops isIdentifierRest r) :
    next ((Source.var name).toList ++ r) = some (.operand (.var name), r) := by
  have hread := readOperand_var hname hr
  rw [Source.var, String.toList_append] at hread ⊢
  exact next_of_operand (c := 'v') (by decide) hread

theorem next_times (r : List Char) :
    next ('.' :: ("times(".toList ++ r)) = some (.call .times, r) := by
  have hcall : readCall ("times(".toList ++ r) = some (.times, r) := by
    rw [readCall, isPrefixOf?_append]
  rw [next, hcall, Option.map_some]

theorem next_plus (r : List Char) :
    next ('.' :: ("plus(".toList ++ r)) = some (.call .plus, r) := by
  have hcall : readCall ("plus(".toList ++ r) = some (.plus, r) := by
    have hnone : "times(".toList.isPrefixOf? ("plus(".toList ++ r) = none := rfl
    rw [readCall, hnone]
    simp only [isPrefixOf?_append, Option.map_some]
  rw [next, hcall, Option.map_some]

end Arithmetic

open Arithmetic (Expr Assignment Frame State next join readFrom readFrom_of_next)
open Source
open Text (Stops)

namespace Scalar

def expr : Scalar → Expr
  | .number x => .numeral x.source
  | .result name => .result name

def value (ρ : Assignment) : Scalar → ℚ
  | .number x => ρ.numeral x.source
  | .result name => ρ.result name

theorem value_expr (ρ : Assignment) (s : Scalar) : s.expr.value ρ = s.value ρ := by
  cases s <;> rfl

/-- The text of a clean scalar is read as one operand. -/
theorem readOperand_source {s : Scalar} {r : List Char} (hs : s.Clean)
    (hr : Stops isScalarChar r) :
    Arithmetic.readOperand (s.source.toList ++ r) = some (s.expr, r) := by
  have hvars : "vars.".toList.isPrefixOf? (s.source.toList ++ r) = none := by
    rw [Option.eq_none_iff_forall_ne_some]
    intro r' hr'
    exact append_ne_vars hs hr (List.isPrefixOf?_eq_some_iff_append_eq.mp hr').symm
  rw [Arithmetic.readOperand, hvars]
  cases s with
  | number x =>
    simp only [source, Arithmetic.readName_number hs,
      Arithmetic.readNumeral_append hs (stops_number hr), Option.map_some, expr]
  | result name =>
    simp only [source, Arithmetic.readName_append hs (stops_name hr), expr]

theorem source_starts {s : Scalar} (hs : s.Clean) :
    ∃ c cs, s.source.toList = c :: cs ∧ isScalarChar c = true ∧ c ≠ '.' := by
  cases s with
  | number x =>
    obtain ⟨c, cs, hc, hhead⟩ := Double.source_head hs
    refine ⟨c, cs, hc, ?_⟩
    rcases hhead with hdigit | rfl
    · refine ⟨by simp [isScalarChar, Double.isNumberChar, hdigit], ?_⟩
      rintro rfl
      exact absurd hdigit (by decide)
    · exact ⟨by decide, by decide⟩
  | result name =>
    obtain ⟨c, cs, hc, hstart⟩ := name_head hs
    refine ⟨c, cs, hc, by simp [isScalarChar, isIdentifierRest_of_start hstart], ?_⟩
    rintro rfl
    exact absurd hstart (by decide)

theorem next_source {s : Scalar} {r : List Char} (hs : s.Clean) (hr : Stops isScalarChar r) :
    next (s.source.toList ++ r) = some (.operand s.expr, r) := by
  have hread := readOperand_source hs hr
  obtain ⟨c, cs, hc, hhead⟩ := source_starts hs
  rw [hc, List.cons_append] at hread ⊢
  exact Arithmetic.next_of_operand hhead hread

end Scalar

namespace Term

def expr (t : Term) : Expr := .times (.var t.name) t.coefficient.expr

def value (ρ : Assignment) (t : Term) : ℚ := t.coefficient.value ρ * ρ.var t.name

theorem value_expr (ρ : Assignment) (t : Term) : t.expr.value ρ = t.value ρ := by
  rw [expr, Expr.value, Expr.value, Scalar.value_expr, value, mul_comm]

/-- A term is read as one operand of the call in which it stands. -/
theorem readFrom_source {t : Term} (ht : t.Clean) (calls : List Frame) (sum : Option Expr)
    (r : List Char) :
    readFrom ⟨calls, sum, none⟩ (t.source.toList ++ r) = readFrom ⟨calls, sum, some t.expr⟩ r := by
  calc readFrom ⟨calls, sum, none⟩ (t.source.toList ++ r)
      = readFrom ⟨calls, sum, none⟩ ((Source.var t.name).toList ++ ('.' :: ("times(".toList ++
          (t.coefficient.source.toList ++ ')' :: r)))) := by
        simp only [source, String.toList_append, List.append_assoc]
        rfl
    _ = readFrom ⟨calls, sum, some (.var t.name)⟩ ('.' :: ("times(".toList ++
          (t.coefficient.source.toList ++ ')' :: r))) :=
        readFrom_of_next (Arithmetic.next_var ht.name (.cons rfl _)) rfl
    _ = readFrom ⟨⟨sum, .var t.name, .times⟩ :: calls, none, none⟩
          (t.coefficient.source.toList ++ ')' :: r) :=
        readFrom_of_next (Arithmetic.next_times _) rfl
    _ = readFrom ⟨⟨sum, .var t.name, .times⟩ :: calls, none, some t.coefficient.expr⟩ (')' :: r) :=
        readFrom_of_next (Scalar.next_source ht.coefficient (.cons rfl r)) rfl
    _ = readFrom ⟨calls, sum, some t.expr⟩ r := readFrom_of_next rfl rfl

end Term

namespace Affine

def constantsExpr : Expr → List Scalar → Expr := List.foldl fun sum s => .plus sum s.expr

/-- Each term calls `plus` with what follows it. -/
def termsExpr (constants : Expr) : List Term → Expr
  | [] => constants
  | t :: ts => .plus t.expr (termsExpr constants ts)

def value (ρ : Assignment) (e : Affine) : ℚ :=
  (e.terms.map (Term.value ρ)).sum + (e.constants.map (Scalar.value ρ)).sum

theorem value_constantsExpr (ρ : Assignment) (sum : Expr) (cs : List Scalar) :
    (constantsExpr sum cs).value ρ = sum.value ρ + (cs.map (Scalar.value ρ)).sum := by
  induction cs generalizing sum with
  | nil => simp [constantsExpr]
  | cons c cs ih =>
    have hstep : constantsExpr sum (c :: cs) = constantsExpr (.plus sum c.expr) cs := rfl
    rw [hstep, ih, Expr.value, Scalar.value_expr, List.map_cons, List.sum_cons, add_assoc]

/-- The calls nested by the terms have the value of the sum of all terms and of the constants. -/
theorem value_termsExpr (ρ : Assignment) (constants : Expr) (ts : List Term) :
    (termsExpr constants ts).value ρ = (ts.map (Term.value ρ)).sum + constants.value ρ := by
  induction ts with
  | nil => simp [termsExpr]
  | cons t ts ih =>
    rw [termsExpr, Expr.value, Term.value_expr, ih, List.map_cons, List.sum_cons, add_assoc]

def Sums (calls : List Frame) (e : Expr) (s : State) : Prop :=
  ∃ sum last, s = ⟨calls, sum, some last⟩ ∧ join sum last = e

/-- Each further constant is added to the sum of the innermost call. -/
theorem readFrom_plusTail {cs : List Scalar} (hcs : ∀ s ∈ cs, s.Clean) {calls : List Frame}
    {e : Expr} {s : State} (hs : Sums calls e s) {r : List Char} (hr : Stops isScalarChar r) :
    ∃ t, readFrom s (plusTail cs ++ r) = readFrom t r ∧ Sums calls (constantsExpr e cs) t := by
  induction cs generalizing e s with
  | nil => exact ⟨s, rfl, hs⟩
  | cons c cs ih =>
    rw [List.forall_mem_cons] at hcs
    obtain ⟨sum, last, rfl, rfl⟩ := hs
    have hnext : Sums calls (.plus (join sum last) c.expr)
        ⟨calls, some (join sum last), some c.expr⟩ := ⟨_, _, rfl, rfl⟩
    obtain ⟨t, hread, ht⟩ := ih hcs.2 hnext
    refine ⟨t, ?_, ht⟩
    calc readFrom ⟨calls, sum, some last⟩ (plusTail (c :: cs) ++ r)
        = readFrom ⟨calls, sum, some last⟩ ('+' :: (c.source.toList ++ (plusTail cs ++ r))) := by
          simp [plusTail]
      _ = readFrom ⟨calls, some (join sum last), none⟩ (c.source.toList ++ (plusTail cs ++ r)) :=
          readFrom_of_next rfl rfl
      _ = readFrom ⟨calls, some (join sum last), some c.expr⟩ (plusTail cs ++ r) :=
          readFrom_of_next (Scalar.next_source hcs.1 (plusTail_stops cs hr)) rfl
      _ = readFrom t r := hread

/-- The constants are read as their sum, inside the calls that are open. -/
theorem readFrom_constants {c : Scalar} {cs : List Scalar} (hcs : ∀ s ∈ c :: cs, s.Clean)
    (calls : List Frame) {r : List Char} (hr : Stops isScalarChar r) :
    ∃ t, readFrom ⟨calls, none, none⟩
        (("+".intercalate ((c :: cs).map Scalar.source)).toList ++ r) = readFrom t r ∧
      Sums calls (constantsExpr c.expr cs) t := by
  rw [List.forall_mem_cons] at hcs
  rw [toList_constants, List.append_assoc,
    readFrom_of_next (Scalar.next_source hcs.1 (plusTail_stops cs hr)) rfl]
  exact readFrom_plusTail hcs.2 ⟨none, c.expr, rfl, rfl⟩ hr

/-- Each term leaves a call open around what follows it, which the parenthesis after that closes. -/
theorem readFrom_sourceFrom {constants : String} {e : Expr}
    (hconstants : ∀ calls {r : List Char}, Stops isScalarChar r →
      ∃ t, readFrom ⟨calls, none, none⟩ (constants.toList ++ r) = readFrom t r ∧ Sums calls e t)
    {ts : List Term} (hts : ∀ t ∈ ts, t.Clean) (calls : List Frame) {r : List Char}
    (hr : Stops isScalarChar r) :
    ∃ t, readFrom ⟨calls, none, none⟩ ((sourceFrom constants ts).toList ++ r) = readFrom t r ∧
      Sums calls (termsExpr e ts) t := by
  induction ts generalizing calls r with
  | nil => exact hconstants calls hr
  | cons t ts ih =>
    rw [List.forall_mem_cons] at hts
    obtain ⟨_, hread, sum, last, rfl, hlast⟩ :=
      ih hts.2 (⟨none, t.expr, .plus⟩ :: calls) (r := ')' :: r) (.cons rfl r)
    refine ⟨⟨calls, none, some (.plus t.expr (join sum last))⟩, ?_, none, _, rfl, by
      rw [hlast]; rfl⟩
    calc readFrom ⟨calls, none, none⟩ ((sourceFrom constants (t :: ts)).toList ++ r)
        = readFrom ⟨calls, none, none⟩ (t.source.toList ++ ('.' :: ("plus(".toList ++
            ((sourceFrom constants ts).toList ++ ')' :: r)))) := by
          simp only [sourceFrom, String.toList_append, List.append_assoc]
          rfl
      _ = readFrom ⟨calls, none, some t.expr⟩ ('.' :: ("plus(".toList ++
            ((sourceFrom constants ts).toList ++ ')' :: r))) :=
          Term.readFrom_source hts.1 calls none _
      _ = readFrom ⟨⟨none, t.expr, .plus⟩ :: calls, none, none⟩
            ((sourceFrom constants ts).toList ++ ')' :: r) :=
          readFrom_of_next (Arithmetic.next_plus _) rfl
      _ = readFrom ⟨⟨none, t.expr, .plus⟩ :: calls, sum, some last⟩ (')' :: r) := hread
      _ = readFrom ⟨calls, none, some (.plus t.expr (join sum last))⟩ r := readFrom_of_next rfl rfl

/-- The program of a clean affine expression is one expression of the program's arithmetic, whose value
is the sum of the terms and the constants. -/
theorem read_source {e : Affine} (he : e.Clean) :
    ∃ x, Arithmetic.read e.source = some x ∧ ∀ ρ, x.value ρ = e.value ρ := by
  obtain ⟨c, cs, hc⟩ := List.exists_cons_of_ne_nil he.nonempty
  have hconstants := he.constants
  rw [hc] at hconstants
  obtain ⟨_, hread, sum, last, rfl, hlast⟩ :=
    readFrom_sourceFrom (readFrom_constants hconstants) he.terms [] (r := []) (by simp [Stops])
  refine ⟨join sum last, ?_, fun ρ => ?_⟩
  · rw [List.append_nil, Arithmetic.readFrom_nil] at hread
    rw [Arithmetic.read, source, hc, hread]
  · rw [hlast, value_termsExpr, value_constantsExpr, Scalar.value_expr, value, hc, List.map_cons,
      List.sum_cons]

/-- Two terms, one with a negative coefficient and one with a result, and three constants, of which the
first is named like the variables. -/
theorem read_source_two_terms :
    let least := Double.finite true 1 Double.fits_one
    let e : Affine := ⟨[⟨.number least, "x"⟩, ⟨.result "k", "y"⟩],
      [.result "vars", .number (.finite false 0 Double.fits_zero), .result "c"]⟩
    e.Clean ∧ ∃ x, Arithmetic.read e.source = some x ∧ ∀ ρ, x.value ρ =
      ρ.numeral least.source * ρ.var "x" + ρ.result "k" * ρ.var "y" +
        (ρ.result "vars" + ρ.numeral "0" + ρ.result "c") := by
  intro least e
  have hlint : Lint.affine e .root = [] := by decide
  have he : e.Clean := Lint.affine_eq_nil.mp hlint
  obtain ⟨x, hread, hvalue⟩ := read_source he
  refine ⟨he, x, hread, fun ρ => ?_⟩
  have hzero : (Double.finite false 0 Double.fits_zero).source = "0" := by decide
  rw [hvalue, value]
  simp only [e, List.map_cons, List.map_nil, List.sum_cons, List.sum_nil, Term.value, Scalar.value,
    hzero]
  ring

end Affine

end Eligibility
