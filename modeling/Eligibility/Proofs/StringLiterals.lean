import Mathlib
import Eligibility.Rule.Source
import Eligibility.Proofs.ExactValue
import Eligibility.Proofs.SourceText

namespace Eligibility

namespace Source

def unescape (c : Char) : Char :=
  if c = 'n' then '\n'
  else if c = 'r' then '\r'
  else if c = 't' then '\t'
  else if c = 'b' then '\x08'
  else if c = 'f' then '\x0c'
  else if c = 'v' then '\x0b'
  else if c = '0' then '\x00'
  else c

mutual
/-- The contents of the string literals of a text, in order; none if one of them does not end. -/
def literals : List Char → Option (List (List Char))
  | [] => some []
  | c :: cs => if c = '"' then (inside cs).map fun read => read.1 :: read.2 else literals cs
/-- What is left of an open literal, and the contents of the literals after it. A backslash takes
the next character with it, a quote closes the literal, and a line may not end before. -/
def inside : List Char → Option (List Char × List (List Char))
  | [] => none
  | '"' :: cs => (literals cs).map fun later => ([], later)
  | '\\' :: c :: cs => (inside cs).map fun read => (unescape c :: read.1, read.2)
  | c :: cs =>
    if c = '\\' ∨ c = '\n' ∨ c = '\r' then none
    else (inside cs).map fun read => (c :: read.1, read.2)
end

structure Bare (c : Char) : Prop where
  quote : c ≠ '"'
  slash : c ≠ '\\'
  lineFeed : c ≠ '\n'
  carriageReturn : c ≠ '\r'

/-- The text is code without quotes, with these contents between quotes where it is not. -/
inductive Quotes : List Char → List (List Char) → Prop where
  | code {t : List Char} (h : '"' ∉ t) : Quotes t []
  | literal {before content after : List Char} {later : List (List Char)} (hbefore : '"' ∉ before)
      (hcontent : '"' ∉ content) (hafter : Quotes after later) :
      Quotes (before ++ '"' :: (content ++ '"' :: after)) (content :: later)

/-- Code without quotes holds no literal. -/
theorem literals_code {t : List Char} (h : '"' ∉ t) (rest : List Char) :
    literals (t ++ rest) = literals rest := by
  induction t with
  | nil => rfl
  | cons c t ih =>
    rw [List.mem_cons, not_or] at h
    rw [List.cons_append, literals, if_neg (Ne.symm h.1)]
    exact ih h.2

theorem literals_quote (cs : List Char) :
    literals ('"' :: cs) = (inside cs).map fun read => read.1 :: read.2 := by
  rw [literals, if_pos rfl]

theorem inside_quote (cs : List Char) :
    inside ('"' :: cs) = (literals cs).map fun later => ([], later) := by
  rw [inside]

/-- A backslash takes the next character with it. -/
theorem inside_escape (c : Char) (cs : List Char) :
    inside ('\\' :: c :: cs) = (inside cs).map fun read => (unescape c :: read.1, read.2) := by
  rw [inside]

theorem inside_bare {c : Char} (h : Bare c) (cs : List Char) :
    inside (c :: cs) = (inside cs).map fun read => (c :: read.1, read.2) := by
  rw [inside, if_neg]
  · rintro (hc | hc | hc)
    · exact h.slash hc
    · exact h.lineFeed hc
    · exact h.carriageReturn hc
  · exact fun hc => h.quote hc
  · exact fun _ _ hc _ => h.slash hc

/-- A literal does not go on over the end of a line. -/
theorem inside_lineEnd {c : Char} (h : c = '\n' ∨ c = '\r') (cs : List Char) :
    inside (c :: cs) = none := by
  rcases h with rfl | rfl <;> simp [inside]

/-- A literal whose characters stand for themselves is read as it is. -/
theorem inside_of_bare {content : List Char} (h : ∀ c ∈ content, Bare c) (after : List Char) :
    inside (content ++ '"' :: after) = (literals after).map fun later => (content, later) := by
  induction content with
  | nil => exact inside_quote after
  | cons c content ih =>
    rw [List.forall_mem_cons] at h
    rw [List.cons_append, inside_bare h.1, ih h.2, Option.map_map]
    rfl

/-- Contents in which every character stands for itself are read as they are. -/
theorem eq_of_inside_of_bare {content after : List Char} {found : List Char × List (List Char)}
    (hbare : ∀ c ∈ content, Bare c) (h : inside (content ++ '"' :: after) = some found) :
    found.1 = content := by
  rw [inside_of_bare hbare] at h
  obtain ⟨later, -, rfl⟩ := Option.map_eq_some_iff.mp h
  rfl

/-- How an open literal can be read that was to hold these characters: as they are, with a quote in
it, or shorter than it was to be. -/
theorem inside_cases {content after : List Char} {found : List Char × List (List Char)}
    (hquote : '"' ∉ content) (h : inside (content ++ '"' :: after) = some found) :
    (∀ c ∈ content, Bare c) ∨ '"' ∈ found.1 ∨ found.1.length < content.length := by
  -- An escape takes two characters for one, so the induction goes over one or two at a time.
  induction hlength : content.length using Nat.strong_induction_on generalizing content found with
  | h length ih =>
    subst hlength
    rcases content with _ | ⟨c, content⟩
    · left
      intro c hc
      cases hc
    rw [List.mem_cons, not_or] at hquote
    by_cases hslash : c = '\\'
    · subst hslash
      right
      rcases content with _ | ⟨d, content⟩
      · -- The backslash takes the closing quote with it.
        rw [List.cons_append, List.nil_append, inside_escape] at h
        obtain ⟨read, -, rfl⟩ := Option.map_eq_some_iff.mp h
        left
        exact List.mem_cons_self
      · rw [List.mem_cons, not_or] at hquote
        rw [List.cons_append, List.cons_append, inside_escape] at h
        obtain ⟨read, hread, rfl⟩ := Option.map_eq_some_iff.mp h
        have hlater :=
          ih content.length (by simp only [List.length_cons]; omega) hquote.2.2 hread rfl
        rcases hlater with hall | hfound | hshort
        · right
          simp only [eq_of_inside_of_bare hall hread, List.length_cons]
          omega
        · left
          exact List.mem_cons_of_mem _ hfound
        · right
          simp only [List.length_cons]
          omega
    · by_cases hline : c = '\n' ∨ c = '\r'
      · rw [List.cons_append, inside_lineEnd hline] at h
        cases h
      · rw [not_or] at hline
        have hc : Bare c := ⟨Ne.symm hquote.1, hslash, hline.1, hline.2⟩
        rw [List.cons_append, inside_bare hc] at h
        obtain ⟨read, hread, rfl⟩ := Option.map_eq_some_iff.mp h
        rcases ih content.length (by simp) hquote.2 hread rfl with hall | hfound | hshort
        · left
          exact List.forall_mem_cons.mpr ⟨hc, hall⟩
        · right; left
          exact List.mem_cons_of_mem _ hfound
        · right; right
          simp only [List.length_cons]
          omega

/-- The contents between the quotes of a text are what the target reads exactly if all their
characters stand for themselves. -/
theorem Quotes.literals_iff {t : List Char} {contents : List (List Char)} (h : Quotes t contents) :
    literals t = some contents ↔ ∀ content ∈ contents, ∀ c ∈ content, Bare c := by
  induction h with
  | @code t hcode =>
    have hread := literals_code hcode []
    rw [List.append_nil] at hread
    simp [hread, literals]
  | @literal before content after later hbefore hcontent hafter ih =>
    rw [literals_code hbefore, literals_quote, List.forall_mem_cons, ← ih]
    constructor
    · intro hread
      obtain ⟨found, hfound, heq⟩ := Option.map_eq_some_iff.mp hread
      obtain ⟨hsame, hlater⟩ := List.cons.inj heq
      have hbare : ∀ c ∈ content, Bare c := by
        rcases inside_cases hcontent hfound with hall | hquote | hshort
        · exact hall
        · rw [hsame] at hquote
          exact absurd hquote hcontent
        · rw [hsame] at hshort
          exact absurd hshort (Nat.lt_irrefl _)
      refine ⟨hbare, ?_⟩
      rw [inside_of_bare hbare] at hfound
      obtain ⟨ws, hws, rfl⟩ := Option.map_eq_some_iff.mp hfound
      rw [hws, ← hlater]
    · rintro ⟨hbare, hlater⟩
      rw [inside_of_bare hbare, hlater]
      rfl

theorem Quotes.code_append {s t : List Char} {contents : List (List Char)} (hs : '"' ∉ s)
    (h : Quotes t contents) : Quotes (s ++ t) contents := by
  cases h with
  | code ht => exact .code (by simp [hs, ht])
  | literal hbefore hcontent hafter =>
    rw [← List.append_assoc]
    exact .literal (by simp [hs, hbefore]) hcontent hafter

/-- Texts one after the other have their contents one after the other. -/
theorem Quotes.append {s t : List Char} {first second : List (List Char)} (hs : Quotes s first)
    (ht : Quotes t second) : Quotes (s ++ t) (first ++ second) := by
  induction hs with
  | code h => exact ht.code_append h
  | literal hbefore hcontent _ ih =>
    have htext := Quotes.literal hbefore hcontent ih
    simpa using htext

theorem Quotes.append_code {s t : List Char} {contents : List (List Char)} (h : Quotes s contents)
    (ht : '"' ∉ t) : Quotes (s ++ t) contents := by
  have happend := h.append (.code ht)
  rwa [List.append_nil] at happend

theorem quotes_string {s : String} (h : '"' ∉ s.toList) :
    Quotes (string s).toList [s.toList] := by
  have hliteral : Quotes ([] ++ '"' :: (s.toList ++ '"' :: [])) [s.toList] :=
    .literal (by simp) h (.code (by simp))
  simpa [string] using hliteral

theorem Quotes.intercalate {sep : List Char} (hsep : '"' ∉ sep)
    {texts : List (List Char)} {contents : List (List (List Char))}
    (h : List.Forall₂ Quotes texts contents) : Quotes (sep.intercalate texts) contents.flatten := by
  induction h with
  | nil => exact .code (by simp)
  | @cons t ws texts contents ht hrest ih =>
    cases hrest with
    | nil => simpa using ht
    | cons hu hus =>
      rw [List.intercalate_cons_cons, List.flatten_cons]
      exact (ht.append_code hsep).append ih

end Source

/-- What stands between quotes in a program. -/
inductive Quoted where
  | path (p : TaskPath)
  | text (s : String)
  | symbol (o : Operator)

namespace Quoted

def content : Quoted → List Char
  | .path p => p.text.toList
  | .text s => s.toList
  | .symbol o => o.symbol.toList

/-- The target reads the contents as they are: a path has no backslash, a text no carriage
return. -/
def Survives : Quoted → Prop
  | .path p => '\\' ∉ p.text.toList
  | .text s => '\r' ∉ s.toList
  | .symbol _ => True

def Clean : Quoted → Prop
  | .path p => Lint.isCleanPath p.text = true
  | .text s => ∀ c ∈ s.toList, Lint.needsEscape c = false
  | .symbol _ => True

end Quoted

def Operand.quoted : Operand → List Quoted
  | .literal (.text s) => [.text s]
  | _ => []

def Comparison.quoted (c : Comparison) : List Quoted := c.rhs.quoted

def Ratio.quoted (q : Ratio) : List Quoted := q.denominator.quoted ++ [.symbol q.operator]

mutual
/-- The paths, texts and operators of ratios of a rule, in the order of its program. -/
def Rule.quoted : Rule → List Quoted
  | .task _ path _ inner => .path path :: quotedOptional inner
  | .comparison c => c.quoted
  | .ratio q => q.quoted
  | .oneOf options => quotedAll options
  | .allOf preds => quotedAll preds
  | .branch cond yes no => cond.quoted ++ quoted yes ++ quotedOptional no
def Rule.quotedOptional : Option Rule → List Quoted
  | none => []
  | some r => quoted r
def Rule.quotedAll : List Rule → List Quoted
  | [] => []
  | r :: rs => quoted r ++ quotedAll rs
end

open Source

theorem quote_not_mem_of_quiet {t : List Char} (h : ∀ c ∈ t, isQuiet c = true) : '"' ∉ t := by
  intro hm
  exact absurd (h '"' hm) (by decide)

theorem quote_not_mem_identifier {s : String} (h : isIdentifier s = true) : '"' ∉ s.toList :=
  quote_not_mem_of_quiet fun c hc => isQuiet_of_identifierRest (isIdentifier_chars h c hc)

theorem quote_not_mem_number {x : Double} (h : x.isFinite = true) : '"' ∉ x.source.toList :=
  quote_not_mem_of_quiet fun c hc => isQuiet_of_numberChar (Double.source_numberChar h c hc)

theorem quote_not_mem_var {name : String} (h : isIdentifier name = true) :
    '"' ∉ (Source.var name).toList := by
  have hname := quote_not_mem_identifier h
  simp [Source.var, hname]

theorem Scalar.Clean.quote_not_mem {s : Scalar} (h : s.Clean) : '"' ∉ s.source.toList := by
  cases s with
  | number x => exact quote_not_mem_number h
  | result name => exact quote_not_mem_identifier h

theorem Affine.quotes_sourceFrom {constants : String} {ts : List Term}
    (hc : Quotes constants.toList []) (hts : ∀ t ∈ ts, t.Clean) :
    Quotes (Affine.sourceFrom constants ts).toList [] := by
  induction ts with
  | nil => exact hc
  | cons t ts ih =>
    rw [List.forall_mem_cons] at hts
    have hcoefficient := hts.1.coefficient.quote_not_mem
    have hname := quote_not_mem_var hts.1.name
    have hbefore : '"' ∉ (t.source ++ ".plus(").toList := by
      simp [Term.source, hcoefficient, hname]
    have hsource := ((ih hts.2).code_append hbefore).append_code (t := [')']) (by decide)
    simpa [Affine.sourceFrom] using hsource

/-- A sum has no strings in it. -/
theorem Affine.Clean.quotes {e : Affine} (h : e.Clean) : Quotes e.source.toList [] := by
  apply Affine.quotes_sourceFrom _ h.terms
  have hall : List.Forall₂ Quotes (e.constants.map (String.toList ∘ Scalar.source))
      (e.constants.map fun _ => []) := by
    rw [List.forall₂_map_left_iff, List.forall₂_map_right_iff, List.forall₂_same]
    intro s hs
    exact .code (h.constants s hs).quote_not_mem
  have hplus : '"' ∉ "+".toList := by decide
  have hconstants := Quotes.intercalate hplus hall
  simpa [String.toList_intercalate] using hconstants

/-- What stands between quotes in the text of an operand is what the operand quotes. -/
theorem Operand.Clean.quotes {o : Operand} (h : o.Clean) :
    Quotes o.source.toList (o.quoted.map Quoted.content) := by
  cases o with
  | literal v =>
    cases v with
    | number x => exact .code (quote_not_mem_number h)
    | text s =>
      apply quotes_string
      intro hm
      exact absurd (h '"' hm) (by decide)
    | truth b => cases b <;> exact .code (by decide)
  | var name => exact .code (quote_not_mem_var h)
  | result name => exact .code (quote_not_mem_identifier h)
  | affine e => exact Affine.Clean.quotes h

theorem Operand.Clean.quoted {o : Operand} (h : o.Clean) : ∀ q ∈ o.quoted, q.Clean := by
  cases o with
  | literal v =>
    cases v with
    | text s =>
      intro q hq
      cases List.mem_singleton.mp hq
      exact h
    | _ => simp [Operand.quoted]
  | _ => simp [Operand.quoted]

theorem Comparison.Clean.quotes {c : Comparison} (h : c.Clean) :
    Quotes c.source.toList (c.quoted.map Quoted.content) := by
  have hmethod : '"' ∉ c.operator.method.toList := by cases c.operator <;> decide
  have hbefore : '"' ∉ (Source.var c.lhs ++ "." ++ c.operator.method ++ "(").toList := by
    simp [quote_not_mem_var h.lhs, hmethod]
  have hsource := (h.rhs.quotes.code_append hbefore).append_code (t := [')']) (by decide)
  simpa [Comparison.source, Comparison.quoted] using hsource

theorem Ratio.Clean.quotes {q : Ratio} (h : q.Clean) :
    Quotes q.source.toList (q.quoted.map Quoted.content) := by
  have hbefore : '"' ∉ (Source.var q.numerator ++ ".maintain_ratio(").toList := by
    simp [quote_not_mem_var h.numerator]
  have hsymbol : Quotes (Source.string q.operator.symbol).toList [q.operator.symbol.toList] := by
    apply quotes_string
    cases q.operator <;> decide
  have hbound : '"' ∉ ',' :: (q.bound.source.toList ++ [')']) := by
    simp [quote_not_mem_number h.bound]
  have hdenominator :=
    (h.denominator.quotes.code_append hbefore).append_code (t := [',']) (by decide)
  have hsource := (hdenominator.append hsymbol).append_code hbound
  simpa [Ratio.source, Ratio.quoted, Quoted.content] using hsource

namespace Rule

theorem quotedAll_eq (rs : List Rule) : quotedAll rs = rs.flatMap quoted := by
  induction rs with
  | nil => rfl
  | cons r rs ih => rw [quotedAll, ih, List.flatMap_cons]

theorem quotes_list {rs : List Rule}
    (h : ∀ r ∈ rs, Quotes r.source.toList (r.quoted.map Quoted.content)) :
    Quotes (Source.list (sources rs)).toList ((quotedAll rs).map Quoted.content) := by
  rw [Source.list, String.toList_intercalate, sources_eq_map, List.map_map, quotedAll_eq]
  have hall : List.Forall₂ Quotes (rs.map (String.toList ∘ source))
      (rs.map fun r => r.quoted.map Quoted.content) := by
    rw [List.forall₂_map_left_iff, List.forall₂_map_right_iff, List.forall₂_same]
    exact h
  have hcomma : '"' ∉ ",".toList := by decide
  have hlist := Quotes.intercalate hcomma hall
  simpa [List.flatMap, List.map_flatten, Function.comp_def] using hlist

theorem quotes_inner {binding : String} (each : Bool) {r : Rule}
    (hb : isIdentifier binding = true) (hr : Quotes r.source.toList (r.quoted.map Quoted.content)) :
    Quotes (sourceInner binding each (some r)).toList (r.quoted.map Quoted.content) := by
  have hbinding := quote_not_mem_identifier hb
  cases each with
  | false =>
    have hbefore : '"' ∉ (",(" ++ binding ++ ")=>").toList := by simp [hbinding]
    simpa [sourceInner] using hr.code_append hbefore
  | true =>
    have hbefore : '"' ∉ (",(" ++ binding ++ ")=>" ++ "dsl.allOf(..." ++ binding ++ ".map((" ++
        binding ++ "Element)=>").toList := by simp [hbinding]
    have hsource := (hr.code_append hbefore).append_code (t := "))".toList) (by decide)
    simpa [sourceInner] using hsource

/-- In the program of a clean rule stand its paths, texts and operators of ratios between quotes,
and no quote elsewhere. -/
theorem Clean.quotes {r : Rule} (h : r.Clean) :
    Quotes r.source.toList (r.quoted.map Quoted.content) := by
  induction r using Rule.induction with
  | task root path each inner ih =>
    obtain ⟨hroot, hpath, hbinding⟩ := h.self
    have hinner : Quotes (sourceInner path.binding each inner).toList
        ((quotedOptional inner).map Quoted.content) := by
      cases inner with
      | none => exact .code (by simp [sourceInner])
      | some r => exact quotes_inner each (hbinding rfl) (ih r rfl h.inner)
    have hname : '"' ∉ root.name.toList := by
      cases root with
      | loan => decide
      | result name => exact quote_not_mem_identifier hroot
    have hbefore : '"' ∉ ("fetchTask(" ++ root.name ++ ")(").toList := by simp [hname]
    have hstring := (quotes_string (quote_not_mem_path hpath)).code_append hbefore
    have hsource := (hstring.append hinner).append_code (t := [')']) (by decide)
    simpa [source, quoted, Quoted.content] using hsource
  | comparison c => exact Comparison.Clean.quotes h.self
  | ratio q => exact Ratio.Clean.quotes h.self
  | oneOf options ih =>
    have hlist := quotes_list fun r hr => ih r hr (h.options r hr)
    have hsource := (hlist.code_append (s := "dsl.oneOf(".toList) (by decide)).append_code
      (t := [')']) (by decide)
    simpa [source, quoted] using hsource
  | allOf preds ih =>
    have hlist := quotes_list fun r hr => ih r hr (h.preds r hr)
    have hsource := (hlist.code_append (s := "dsl.allOf(".toList) (by decide)).append_code
      (t := [')']) (by decide)
    simpa [source, quoted] using hsource
  | branch cond yes no hyes hno =>
    have hcond := (Comparison.Clean.quotes h.self).code_append (s := "dsl.if_(".toList) (by decide)
    have hthen := (hyes h.yes).code_append (s := ").then(".toList) (by decide)
    have hbranch := (hcond.append hthen).append_code (t := [')']) (by decide)
    cases no with
    | none => simpa [source, sourceElse, quoted, quotedOptional] using hbranch
    | some r =>
      have helse := ((hno r rfl h.no).code_append (s := ".else(".toList) (by decide)).append_code
        (t := [')']) (by decide)
      have hsource := hbranch.append helse
      simpa [source, sourceElse, quoted, quotedOptional] using hsource

theorem not_blank_of_mem_path {s : String} (h : Lint.isCleanPath s = true) :
    ∀ c ∈ s.toList, Text.isBlank c = false := by
  simp only [Lint.isCleanPath, Bool.and_eq_true, Bool.not_eq_true', List.any_eq_false,
    Bool.not_eq_true] at h
  exact h.1.1.1

/-- Of what is read differently, the lint leaves out backslashes in paths and carriage returns in
texts. -/
theorem bare_iff {q : Quoted} (h : q.Clean) : (∀ c ∈ q.content, Bare c) ↔ q.Survives := by
  cases q with
  | path p =>
    constructor
    · intro hbare hslash
      exact (hbare '\\' hslash).slash rfl
    · intro hslash c hc
      have hblank := not_blank_of_mem_path h c hc
      refine ⟨?_, ?_, ?_, ?_⟩
      · rintro rfl
        exact quote_not_mem_path h hc
      · rintro rfl
        exact hslash hc
      · rintro rfl
        exact absurd hblank (by decide)
      · rintro rfl
        exact absurd hblank (by decide)
  | text s =>
    constructor
    · intro hbare hreturn
      exact (hbare '\r' hreturn).carriageReturn rfl
    · intro hreturn c hc
      have hescape := h c hc
      refine ⟨?_, ?_, ?_, ?_⟩
      · rintro rfl
        exact absurd hescape (by decide)
      · rintro rfl
        exact absurd hescape (by decide)
      · rintro rfl
        exact absurd hescape (by decide)
      · rintro rfl
        exact hreturn hc
  | symbol o =>
    have hbare : ∀ c ∈ o.symbol.toList, Bare c := by
      have hchars : ∀ c ∈ o.symbol.toList, c = '>' ∨ c = '=' ∨ c = '<' := by
        cases o <;> simp [Operator.symbol]
      intro c hc
      rcases hchars c hc with rfl | rfl | rfl <;> exact ⟨by decide, by decide, by decide, by decide⟩
    exact iff_of_true hbare trivial

/-- The lint has looked at all that stands between quotes. -/
theorem Clean.quoted {r : Rule} (h : r.Clean) : ∀ q ∈ r.quoted, q.Clean := by
  induction r using Rule.induction with
  | task root path each inner ih =>
    obtain ⟨-, hpath, -⟩ := h.self
    rw [Rule.quoted, List.forall_mem_cons]
    refine ⟨hpath, ?_⟩
    cases inner with
    | none => simp [quotedOptional]
    | some r => exact ih r rfl h.inner
  | comparison c => exact Operand.Clean.quoted h.self.rhs
  | ratio q =>
    rw [Rule.quoted, Ratio.quoted, List.forall_mem_append]
    refine ⟨Operand.Clean.quoted h.self.denominator, ?_⟩
    simp [Quoted.Clean]
  | oneOf options ih =>
    rw [Rule.quoted, quotedAll_eq]
    intro q hq
    obtain ⟨r, hr, hq⟩ := List.mem_flatMap.mp hq
    exact ih r hr (h.options r hr) q hq
  | allOf preds ih =>
    rw [Rule.quoted, quotedAll_eq]
    intro q hq
    obtain ⟨r, hr, hq⟩ := List.mem_flatMap.mp hq
    exact ih r hr (h.preds r hr) q hq
  | branch cond yes no hyes hno =>
    have hcond := Operand.Clean.quoted h.self.rhs
    rw [Rule.quoted, List.forall_mem_append, List.forall_mem_append]
    refine ⟨⟨hcond, hyes h.yes⟩, ?_⟩
    cases no with
    | none => simp [quotedOptional]
    | some r => exact hno r rfl h.no

/-- The target reads the string literals of a program that passed the lint as they were meant, and
in their order, exactly if no task path has a backslash and no text a carriage return. -/
theorem literals_source_iff {r : Rule} (h : r.lint = []) :
    Source.literals r.source.toList = some (r.quoted.map Quoted.content) ↔
      ∀ q ∈ r.quoted, q.Survives := by
  have hclean := lint_eq_nil.mp h
  rw [hclean.quotes.literals_iff, List.forall_mem_map]
  constructor
  · intro hbare q hq
    exact (bare_iff (hclean.quoted q hq)).mp (hbare q hq)
  · intro hsurvives q hq
    exact (bare_iff (hclean.quoted q hq)).mpr (hsurvives q hq)

/-- A path with a bracket and a text with a tab survive, as does the operator of a ratio. -/
theorem literals_source_iff_nested :
    let r : Rule := .task .loan ⟨"$.a[0].b", rfl⟩ false (some (.oneOf
      [.ratio ⟨"x", .literal (.text "per\tcent"), .atMost, .finite false 0 Double.fits_zero⟩,
        .comparison ⟨"y", .equal, .literal (.text "(a), b")⟩]))
    r.lint = [] ∧ Source.literals r.source.toList =
      some ["$.a[0].b".toList, "per\tcent".toList, "<=".toList, "(a), b".toList] := by
  intro r
  have hlint : r.lint = [] := by decide +kernel
  have hsurvives : ∀ q ∈ r.quoted, q.Survives := by
    simp [r, Rule.quoted, quotedOptional, quotedAll, Ratio.quoted, Comparison.quoted,
      Operand.quoted, Quoted.Survives]
  exact ⟨hlint, (literals_source_iff hlint).mpr hsurvives⟩

/-- The lint passes a text with a carriage return and a path that ends in a backslash. In both
programs the target finds a literal that does not end. -/
theorem literals_source_none :
    let broken : Rule := .comparison ⟨"x", .equal, .literal (.text "a\rb")⟩
    let unclosed : Rule := .task .loan ⟨"$.a\\", rfl⟩ false none
    (broken.lint = [] ∧ Source.literals broken.source.toList = none) ∧
      unclosed.lint = [] ∧ Source.literals unclosed.source.toList = none := by
  decide +kernel

end Rule

end Eligibility
