import Mathlib
import Eligibility.Proofs.Boundary
import Eligibility.Proofs.PlainNumber
import Eligibility.Review.Bounds

namespace Eligibility

namespace Text

/-- What follows the last separator, and what stands before it. -/
theorem append_inj_of_last {sep : Char} {as bs u v : List Char} (hu : sep ∉ u) (hv : sep ∉ v)
    (h : as ++ sep :: u = bs ++ sep :: v) : as = bs ∧ u = v := by
  have hother : ∀ {w : List Char}, sep ∉ w → ∀ c ∈ w.reverse, (c != sep) = true := by
    intro w hw c hc
    rw [bne_iff_ne]
    rintro rfl
    exact hw (List.mem_reverse.mp hc)
  have hstops : ∀ w : List Char, Stops (fun c => c != sep) (sep :: w) :=
    fun w => .cons (by simp) w
  have hreverse := congrArg List.reverse h
  simp only [List.reverse_append, List.reverse_cons, List.append_assoc, List.singleton_append]
    at hreverse
  obtain ⟨huv, hab⟩ :=
    append_inj_of_stops (hother hu) (hother hv) (hstops _) (hstops _) hreverse
  exact ⟨List.reverse_inj.mp (List.cons.inj hab).2, List.reverse_inj.mp huv⟩

theorem exists_digitChar {b n : Nat} (hb : 1 < b) {c : Char} (h : c ∈ Nat.toDigits b n) :
    ∃ m, c = Nat.digitChar m := by
  induction n using Nat.strongRecOn with
  | ind n ih =>
    rw [Nat.toDigits_eq_if hb] at h
    split at h
    · exact ⟨n, List.mem_singleton.mp h⟩
    · rename_i hn
      rcases List.mem_append.mp h with h | h
      · exact ih (n / b) (Nat.div_lt_self (by omega) hb) h
      · exact ⟨n % b, List.mem_singleton.mp h⟩

/-- Between quotes, a quote stands after a backslash. -/
def Guards (a b : Char) : Prop := b = '"' → a = '\\'

theorem guards_of_not_mem {cs : List Char} (h : '"' ∉ cs) (d : Char) :
    List.IsChain Guards (d :: cs) := by
  induction cs generalizing d with
  | nil => exact List.isChain_singleton d
  | cons c cs ih =>
    rw [List.mem_cons, not_or] at h
    exact List.isChain_cons_cons.mpr ⟨fun hc => absurd hc.symm h.1, ih h.2 c⟩

theorem quote_not_mem_quotedChar {c : Char} (h : c ≠ '"') : '"' ∉ quotedChar c := by
  have hcode : '"' ∉ hexCode c.toNat := by
    intro hmem
    obtain ⟨m, hm⟩ := exists_digitChar (by decide) hmem
    exact Nat.digitChar_ne '"' (by decide) hm.symm
  rw [quotedChar, if_neg h]
  split_ifs <;> simp [hcode, Ne.symm h]

theorem guards_quotedChar (c d : Char) : List.IsChain Guards (d :: quotedChar c) := by
  by_cases h : c = '"'
  · subst h
    simp [quotedChar, Guards]
  · exact guards_of_not_mem (quote_not_mem_quotedChar h) d

/-- Inside a quoted text every quote stands after a backslash. -/
theorem guards_quoted (cs : List Char) (d : Char) :
    List.IsChain Guards (d :: cs.flatMap quotedChar) := by
  induction cs generalizing d with
  | nil => exact List.isChain_singleton d
  | cons c cs ih =>
    rw [List.flatMap_cons, ← List.cons_append, List.isChain_append]
    refine ⟨guards_quotedChar c d, (List.isChain_cons.mp (ih d)).2, fun a _ b hb => ?_⟩
    exact (List.isChain_cons.mp (ih a)).1 b hb

/-- A quote after a bracket opens a quoted text; it is none of the quotes inside it. -/
theorem eq_nil_of_opening {s t : String} {before : List Char}
    (h : '(' :: '"' :: s.toList.flatMap quotedChar =
      before ++ '(' :: '"' :: t.toList.flatMap quotedChar) : before = [] := by
  cases before with
  | nil => rfl
  | cons c before =>
    have hguards := guards_quoted s.toList '"'
    rw [(List.cons.inj h).2] at hguards
    have hquote := (List.isChain_cons_cons.mp (List.isChain_append.mp hguards).2.1).1
    exact absurd (hquote rfl) (by decide)

/-- A bracket right before a quote cannot stand inside a quoted text, so it marks where the shown
literal starts. -/
theorem quoted_append_inj_left {s t : String} {as bs : List Char}
    (h : as ++ '(' :: '"' :: s.toList.flatMap quotedChar =
      bs ++ '(' :: '"' :: t.toList.flatMap quotedChar) : as = bs := by
  rcases List.append_eq_append_iff.mp h with ⟨cs, rfl, hcs⟩ | ⟨cs, rfl, hcs⟩
  · rw [eq_nil_of_opening hcs, List.append_nil]
  · rw [eq_nil_of_opening hcs, List.append_nil]

end Text

namespace Double

def isNumeralChar (c : Char) : Bool := c.isAlphanum || c == '.' || c == '-' || c == '+'

theorem isNumeralChar_of_isDigit {c : Char} (h : c.isDigit = true) : isNumeralChar c = true := by
  simp [isNumeralChar, Char.isAlphanum, h]

namespace Layout

theorem positional_chars (l : Layout) {ds : List Char} (h : Digits ds) (point : Int) :
    ∀ c ∈ l.positional ds point, isNumeralChar c = true := by
  intro c hc
  rcases l.positional_cases h point with ⟨whole, fs, he, hwhole, hfs, -⟩ | ⟨-, hds⟩
  · rw [he] at hc
    rcases List.mem_append.mp hc with hc | hc
    · exact isNumeralChar_of_isDigit (hwhole.digits c hc)
    · rcases List.mem_cons.mp hc with rfl | hc
      · rfl
      · exact isNumeralChar_of_isDigit (hfs.digits c hc)
  · exact isNumeralChar_of_isDigit (hds.digits c hc)

theorem exponentText_chars (l : Layout) (e : Int) :
    ∀ c ∈ l.exponentText e, isNumeralChar c = true := by
  have hdigits : ∀ c ∈ Nat.toDigits 10 e.natAbs, isNumeralChar c = true :=
    fun c hc => isNumeralChar_of_isDigit ((Digits.toDigits _).digits c hc)
  unfold exponentText
  split_ifs
  · exact List.forall_mem_cons.mpr ⟨rfl, hdigits⟩
  · exact List.forall_mem_append.mpr ⟨List.forall_mem_singleton.mpr rfl, hdigits⟩
  · exact List.forall_mem_append.mpr ⟨List.forall_mem_nil _, hdigits⟩

theorem scientific_chars (l : Layout) {ds : List Char} (h : Digits ds) (leading : Int) :
    ∀ c ∈ l.scientific ds leading, isNumeralChar c = true := by
  have hds : ∀ c ∈ ds, isNumeralChar c = true :=
    fun c hc => isNumeralChar_of_isDigit (h.digits c hc)
  unfold scientific
  refine List.forall_mem_append.mpr
    ⟨?_, List.forall_mem_cons.mpr ⟨rfl, l.exponentText_chars leading⟩⟩
  split
  · rw [List.forall_mem_cons] at hds
    exact List.forall_mem_cons.mpr ⟨hds.1, List.forall_mem_cons.mpr ⟨rfl, hds.2⟩⟩
  · exact hds

theorem magnitude_chars (l : Layout) (units : Nat) :
    ∀ c ∈ l.magnitude units, isNumeralChar c = true := by
  simp only [magnitude, decimal]
  split_ifs
  · simp [isNumeralChar]
  · simp [isNumeralChar]
  · exact l.positional_chars (.toDigits _) _
  · exact l.scientific_chars (.toDigits _) _

/-- In every layout a number consists of these characters; there is no blank among them. -/
theorem render_chars (l : Layout) (x : Double) :
    ∀ c ∈ (l.render x).toList, isNumeralChar c = true := by
  cases x with
  | nan => simp [render, isNumeralChar]
  | infinite negative => cases negative <;> simp [render, isNumeralChar]
  | finite negative units fits =>
    simp only [render, String.toList_ofList]
    split_ifs
    · exact List.forall_mem_cons.mpr ⟨rfl, l.magnitude_chars units⟩
    · exact l.magnitude_chars units

theorem not_mem_render (l : Layout) (x : Double) {c : Char} (h : isNumeralChar c = false) :
    c ∉ (l.render x).toList := by
  intro hc
  rw [l.render_chars x c hc] at h
  cases h

end Layout

end Double

namespace Literal

/-- How a literal is shown: a number or a truth value between brackets, or a quoted text. -/
inductive IsShown : List Char → Prop where
  | plain {tag body : List Char} (htag : tag = "Number".toList ∨ tag = "Boolean".toList)
      (hbody : ∀ c ∈ body, Double.isNumeralChar c = true) :
      IsShown (tag ++ '(' :: body ++ [')'])
  | quoted (s : String) :
      IsShown ("String".toList ++ '(' :: '"' :: s.toList.flatMap Text.quotedChar ++ ['"', ')'])

/-- Every literal is shown in one of these ways. -/
theorem isShown (v : Literal) : IsShown v.shown.toList := by
  cases v with
  | number x =>
    have h : (Literal.number x).shown.toList =
        "Number".toList ++ '(' :: (numberLayout.render x).toList ++ [')'] := by
      simp [shown]
    rw [h]
    exact .plain (.inl rfl) (numberLayout.render_chars x)
  | text s =>
    have h : (Literal.text s).shown.toList =
        "String".toList ++ '(' :: '"' :: s.toList.flatMap Text.quotedChar ++ ['"', ')'] := by
      simp [shown, Text.quoted]
    rw [h]
    exact .quoted s
  | truth b =>
    have h : (Literal.truth b).shown.toList =
        "Boolean".toList ++ '(' :: (if b then "true" else "false").toList ++ [')'] := by
      simp [shown]
    rw [h]
    refine .plain (.inr rfl) ?_
    cases b <;> simp [Double.isNumeralChar]

theorem IsShown.getLast? {s : List Char} (h : IsShown s) : s.getLast? = some ')' := by
  cases h with
  | plain htag hbody => exact List.getLast?_concat
  | quoted s =>
    rw [List.getLast?_append]
    rfl

/-- Before the closing bracket a quote stands only behind a quoted text. -/
theorem plain_ne_quoted {as bs cs tag body : List Char}
    (hbody : ∀ c ∈ body, Double.isNumeralChar c = true) :
    as ++ (tag ++ '(' :: body ++ [')']) ≠ bs ++ (cs ++ ['"', ')']) := by
  intro h
  have hbracket : as ++ tag ++ '(' :: body ++ [')'] = bs ++ cs ++ ['"'] ++ [')'] := by
    simpa using h
  have hlast := List.append_cancel_right hbracket
  have hmem : '"' ∈ '(' :: body := by
    apply List.mem_of_getLast?
    have := congrArg List.getLast? hlast
    simpa using this
  rcases List.mem_cons.mp hmem with hbracket | hquote
  · exact absurd hbracket (by decide)
  · exact absurd (hbody _ hquote) (by decide)

/-- A literal at the end of a text starts at one place only. -/
theorem IsShown.append_inj_left {as bs s t : List Char} (hs : IsShown s) (ht : IsShown t)
    (h : as ++ s = bs ++ t) : as = bs := by
  cases hs with
  | @plain tag body htag hbody =>
    cases ht with
    | @plain tag' body' htag' hbody' =>
      have hno : ∀ {cs : List Char}, (∀ c ∈ cs, Double.isNumeralChar c = true) → '(' ∉ cs :=
        fun hcs hmem => absurd (hcs _ hmem) (by decide)
      simp only [← List.append_assoc, List.append_cancel_right_eq] at h
      obtain ⟨htags, -⟩ := Text.append_inj_of_last (hno hbody) (hno hbody') h
      rcases htag with rfl | rfl <;> rcases htag' with rfl | rfl
      · exact List.append_cancel_right htags
      · simpa using congrArg List.getLast? htags
      · simpa using congrArg List.getLast? htags
      · exact List.append_cancel_right htags
    | quoted t => exact absurd h (plain_ne_quoted hbody)
  | quoted s =>
    cases ht with
    | plain htag' hbody' => exact absurd h.symm (plain_ne_quoted hbody')
    | quoted t =>
      simp only [← List.append_assoc, List.append_cancel_right_eq] at h
      exact List.append_cancel_right (Text.quoted_append_inj_left h)

end Literal

namespace Bounds.Conflict

/-- A name before and after a text that starts with a blank and holds as many blanks as another
one. The blanks of the two names are as many, so the longer name cannot go on with a blank. -/
theorem eq_nil_of_twice {name more u v : List Char} (hcount : u.count ' ' = v.count ' ')
    (h : ' ' :: u ++ name = more ++ (' ' :: v ++ (name ++ more))) : more = [] := by
  have hblank : more.count ' ' = 0 := by
    have := congrArg (List.count ' ') h
    simp only [List.count_append, List.cons_append, List.count_cons_self] at this
    omega
  cases more with
  | nil => rfl
  | cons c more =>
    have hc : c = ' ' := (List.cons.inj h).1.symm
    simp [hc] at hblank

/-- A name that stands at both ends of a text is told by the text, if the parts between have equally
many blanks. -/
theorem twice_inj {name name' u v : List Char} (hcount : u.count ' ' = v.count ' ')
    (h : name ++ (' ' :: u ++ name) = name' ++ (' ' :: v ++ name')) : name = name' := by
  rcases List.append_eq_append_iff.mp h with ⟨more, rfl, hmore⟩ | ⟨more, rfl, hmore⟩
  · rw [eq_nil_of_twice hcount hmore, List.append_nil]
  · rw [eq_nil_of_twice hcount.symm hmore, List.append_nil]

theorem toList_empty (l u : Double) (name : String) : ((empty l u).message name).toList =
    "vars.".toList ++ (name.toList ++ (' ' :: (">= ".toList ++ (numberText l).toList ++
      " and vars.".toList) ++ name.toList) ++ " <=".toList ++ ' ' :: (numberText u).toList) ++
      " admit no value".toList := by
  simp [message]

theorem toList_different (v w : Literal) (name : String) :
    ((different v w).message name).toList =
      "vars.".toList ++ (name.toList ++ " cannot equal both ".toList ++ v.shown.toList ++
        " and ".toList ++ w.shown.toList) := by
  simp [message]

theorem toList_outside (x : Double) (name : String) : ((outside x).message name).toList =
    "vars.".toList ++ (name.toList ++ " ==".toList ++ ' ' :: (numberText x).toList) ++
      " lies outside its other bounds".toList := by
  simp [message]

def lastChar : Conflict → Char
  | .empty .. => 'e'
  | .different .. => ')'
  | .outside _ => 's'

/-- The last character of a message tells the kind of the conflict. -/
theorem getLast?_message (c : Conflict) (name : String) :
    (c.message name).toList.getLast? = some c.lastChar := by
  cases c with
  | empty l u =>
    rw [toList_empty, List.getLast?_append]
    rfl
  | different v w =>
    rw [toList_different, ← List.append_assoc, List.getLast?_append, w.isShown.getLast?]
    rfl
  | outside x =>
    rw [toList_outside, List.getLast?_append]
    rfl

/-- The messages about conflicts of different variables are different. -/
theorem name_of_message {c d : Conflict} {x y : String} (h : c.message x = d.message y) :
    x = y := by
  have hlast : c.lastChar = d.lastChar := by
    have := c.getLast?_message x
    rw [h, d.getLast?_message y] at this
    exact (Option.some.inj this).symm
  have hblank : ∀ n, ' ' ∉ (numberText n).toList := fun n => numberLayout.not_mem_render n rfl
  rw [← String.toList_inj] at h ⊢
  cases c <;> cases d <;> try cases hlast
  case empty l u l' u' =>
    rw [toList_empty, toList_empty] at h
    simp only [List.append_cancel_right_eq, List.append_cancel_left_eq] at h
    obtain ⟨hnames, -⟩ := Text.append_inj_of_last (hblank u) (hblank u') h
    refine twice_inj ?_ (List.append_cancel_right hnames)
    simp [List.count_eq_zero_of_not_mem (hblank l), List.count_eq_zero_of_not_mem (hblank l')]
  case different v w v' w' =>
    rw [toList_different, toList_different, List.append_cancel_left_eq] at h
    have hfirst := List.append_cancel_right (w.isShown.append_inj_left w'.isShown h)
    exact List.append_cancel_right (v.isShown.append_inj_left v'.isShown hfirst)
  case outside n n' =>
    rw [toList_outside, toList_outside] at h
    simp only [List.append_cancel_right_eq, List.append_cancel_left_eq] at h
    exact List.append_cancel_right (Text.append_inj_of_last (hblank n) (hblank n') h).1

end Bounds.Conflict

end Eligibility
