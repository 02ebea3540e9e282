import Mathlib
import Eligibility.Text.Search

namespace Eligibility.Text

variable {word cs before after : List Char}

theorem cut?_of_starts (h : word <+: cs) : cut? word cs = some ([], cs.drop word.length) := by
  cases cs with
  | nil =>
    rw [List.prefix_nil.mp h]
    rfl
  | cons c cs => rw [cut?, if_pos (List.isPrefixOf_iff_prefix.mpr h)]

theorem cut?_cons (c : Char) (h : ¬ word <+: c :: cs) :
    cut? word (c :: cs) = (cut? word cs).map fun parts => (c :: parts.1, parts.2) := by
  rw [cut?, if_neg (by rwa [List.isPrefixOf_iff_prefix])]

/-- A text is not cut exactly if the word does not occur in it. -/
theorem cut?_eq_none_iff : cut? word cs = none ↔ ¬ word <:+: cs := by
  induction cs with
  | nil =>
    rw [cut?, List.infix_nil]
    split <;> simp_all
  | cons c cs ih =>
    rw [List.infix_cons_iff, not_or]
    by_cases hstarts : word <+: c :: cs
    · simp [cut?_of_starts hstarts, hstarts]
    · rw [cut?_cons c hstarts, Option.map_eq_none_iff, ih]
      simp [hstarts]

theorem cut?_nil_iff (hword : word ≠ []) :
    cut? word cs = some ([], after) ↔ cs = word ++ after := by
  constructor
  · intro h
    by_cases hstarts : word <+: cs
    · rw [cut?_of_starts hstarts] at h
      obtain ⟨rest, rfl⟩ := hstarts
      cases h
      simp
    · cases cs with
      | nil => simp [cut?, hword] at h
      | cons c cs =>
        rw [cut?_cons c hstarts] at h
        obtain ⟨parts, -, ⟨⟩⟩ := Option.map_eq_some_iff.mp h
  · rintro rfl
    simp [cut?_of_starts]

/-- A cut further on is one of the text without its first character. -/
theorem cut?_cons_iff (hword : word ≠ []) {b : Char} :
    cut? word cs = some (b :: before, after) ↔
      ∃ r, cs = b :: r ∧ ¬ word <+: b :: r ∧ cut? word r = some (before, after) := by
  constructor
  · intro h
    have hstarts : ¬ word <+: cs := by
      intro hstarts
      rw [cut?_of_starts hstarts] at h
      cases h
    cases cs with
    | nil => simp [cut?, hword] at h
    | cons c r =>
      rw [cut?_cons c hstarts] at h
      obtain ⟨⟨before', after'⟩, hparts, ⟨⟩⟩ := Option.map_eq_some_iff.mp h
      exact ⟨r, rfl, hstarts, hparts⟩
  · rintro ⟨r, rfl, hstarts, hparts⟩
    rw [cut?_cons b hstarts, hparts, Option.map_some]

/-- Whether a text starts with a word that occurs later shows before the later one ends. -/
theorem prefix_append_word_iff (hword : word ≠ []) (b : Char) (after : List Char) :
    word <+: b :: (before ++ word ++ after) ↔ word <+: b :: (before ++ word.dropLast) := by
  have hstart : b :: (before ++ word.dropLast) <+: b :: (before ++ word ++ after) := by
    rw [List.append_assoc, List.cons_prefix_cons, List.prefix_append_right_inj]
    exact ⟨rfl, (List.dropLast_prefix word).trans (List.prefix_append word after)⟩
  constructor
  · intro h
    apply List.prefix_of_prefix_length_le h hstart
    have hpos := List.length_pos_iff.mpr hword
    simp only [List.length_cons, List.length_append, List.length_dropLast]
    omega
  · intro h
    exact h.trans hstart

/-- What stands before the cut, even with all of the word but its last character, does not have the
word in it: the cut is at the first occurrence. -/
theorem cut?_eq_some_iff (hword : word ≠ []) :
    cut? word cs = some (before, after) ↔
      cs = before ++ word ++ after ∧ ¬ word <:+: before ++ word.dropLast := by
  induction before generalizing cs with
  | nil =>
    have hshort : ¬ word <:+: word.dropLast := by
      intro h
      have hle := h.length_le
      have hpos := List.length_pos_iff.mpr hword
      rw [List.length_dropLast] at hle
      omega
    simp [cut?_nil_iff hword, hshort]
  | cons b before ih =>
    rw [cut?_cons_iff hword, List.cons_append, List.cons_append, List.cons_append,
      List.infix_cons_iff, not_or, ← prefix_append_word_iff hword b after]
    constructor
    · rintro ⟨r, rfl, hstarts, hr⟩
      obtain ⟨rfl, hfirst⟩ := ih.mp hr
      exact ⟨rfl, hstarts, hfirst⟩
    · rintro ⟨rfl, hstarts, hfirst⟩
      exact ⟨_, rfl, hstarts, ih.mpr ⟨rfl, hfirst⟩⟩

/-- A word that ends in a character it has nowhere else does not overlap itself: after a text without
the word, it is found where it stands. -/
theorem cut?_append_word (hword : word ≠ []) (hlast : word.getLast hword ∉ word.dropLast)
    (h : ¬ word <:+: before) (after : List Char) :
    cut? word (before ++ word ++ after) = some (before, after) := by
  refine (cut?_eq_some_iff hword).mpr ⟨rfl, ?_⟩
  rintro ⟨u, v, huv⟩
  obtain ⟨more, hbefore, -⟩ | ⟨more, hmore, hdrop⟩ := List.append_eq_append_iff.mp huv
  · exact h ⟨u, more, hbefore.symm⟩
  · rcases List.eq_nil_or_concat more with rfl | ⟨init, c, rfl⟩
    · exact h ⟨u, [], by simpa using hmore⟩
    · -- The occurrence ends inside the word, so the word has its last character twice.
      have hc : word.getLast hword = c := by
        have hsome := congrArg List.getLast? hmore
        simpa [List.getLast?_append, List.getLast?_eq_some_getLast hword] using hsome
      exact hlast (by simp [hdrop, hc])

theorem cut?_append {c : Char} (h : c ∉ before) (after : List Char) :
    cut? [c] (before ++ c :: after) = some (before, after) := by
  have hcut := cut?_append_word (List.cons_ne_nil c []) (by simp)
    (by rwa [List.singleton_infix_iff]) after
  rwa [List.append_assoc] at hcut

theorem cut?_of_not_mem {c : Char} (h : c ∉ cs) : cut? [c] cs = none := by
  rwa [cut?_eq_none_iff, List.singleton_infix_iff]

theorem cut?_after_ends (hword : word ≠ []) (h : cut? word cs = some (before, after)) :
    after <:+ cs := by
  rw [((cut?_eq_some_iff hword).mp h).1]
  exact List.suffix_append _ after

theorem upTo_of_starts (h : word <+: cs) : upTo word cs = [] := by
  rw [upTo, cut?_of_starts h]

theorem upTo_cons (c : Char) (h : ¬ word <+: c :: cs) :
    upTo word (c :: cs) = c :: upTo word cs := by
  rw [upTo, upTo, cut?_cons c h]
  cases cut? word cs <;> rfl

/-- What stands before the first occurrence of a word is a start of the text. -/
theorem upTo_starts (hword : word ≠ []) : upTo word cs <+: cs := by
  unfold upTo
  split
  · rename_i hcut
    rw [((cut?_eq_some_iff hword).mp hcut).1, List.append_assoc]
    exact List.prefix_append _ _
  · exact List.prefix_refl cs

/-- A word that starts nowhere in the first part of a text is looked for in the rest of it. -/
theorem upTo_append {rest : List Char}
    (h : ∀ part, part ≠ [] → part <:+ before → ¬ word <+: part ++ rest) :
    upTo word (before ++ rest) = before ++ upTo word rest := by
  induction before with
  | nil => rfl
  | cons c before ih =>
    have hrest := ih fun part hne hpart => h part hne (hpart.trans (List.suffix_cons c before))
    have hstarts : ¬ word <+: c :: (before ++ rest) :=
      h _ (List.cons_ne_nil c before) (List.suffix_refl _)
    rw [List.cons_append, upTo_cons c hstarts, hrest, List.cons_append]

/-- The text up to a word does not have the word in it. -/
theorem not_infix_upTo (hword : word ≠ []) : ¬ word <:+: upTo word cs := by
  unfold upTo
  split
  · rename_i before after hcut
    intro h
    exact ((cut?_eq_some_iff hword).mp hcut).2 (h.trans (List.prefix_append _ _).isInfix)
  · rename_i hcut
    exact cut?_eq_none_iff.mp hcut

end Eligibility.Text
