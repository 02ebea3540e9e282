import Mathlib
import Eligibility.Text.Fence
import Eligibility.Proofs.Boundary
import Eligibility.Proofs.Cutting

namespace Eligibility.Text

variable {cs word : List Char}

/-- A text with no blank at either end. -/
structure Trimmed (cs : List Char) : Prop where
  starts : Stops isBlank cs
  ends : Stops isBlank cs.reverse

instance : Decidable (Trimmed cs) :=
  decidable_of_iff (Stops isBlank cs ∧ Stops isBlank cs.reverse)
    ⟨fun h => ⟨h.1, h.2⟩, fun h => ⟨h.starts, h.ends⟩⟩

theorem trimRight_eq (cs : List Char) : trimRight cs = (trimLeft cs.reverse).reverse := rfl

theorem trimRight_starts (cs : List Char) : trimRight cs <+: cs := by
  rw [trimRight_eq, ← List.reverse_suffix, List.reverse_reverse]
  exact List.dropWhile_suffix isBlank

theorem trim_within (cs : List Char) : trim cs <:+: cs :=
  (trimRight_starts _).isInfix.trans (List.dropWhile_suffix isBlank).isInfix

/-- Trimming leaves no blank at either end. -/
theorem trimmed_trim (cs : List Char) : Trimmed (trim cs) where
  starts := (stops_dropWhile isBlank cs).of_starts (trimRight_starts _)
  ends := by
    rw [trim, trimRight_eq, List.reverse_reverse]
    exact stops_dropWhile isBlank _

theorem trimLeft_of_blank {a : List Char} (ha : ∀ c ∈ a, isBlank c = true) : trimLeft a = [] :=
  List.dropWhile_eq_nil_iff.mpr ha

theorem trimRight_of_blank {b : List Char} (hb : ∀ c ∈ b, isBlank c = true) : trimRight b = [] := by
  rw [trimRight_eq, trimLeft_of_blank (by simpa using hb), List.reverse_nil]

theorem trimLeft_append (a : List Char) (hcs : Stops isBlank cs) :
    trimLeft (a ++ cs) = trimLeft a ++ cs := by
  rw [trimLeft, List.dropWhile_append]
  split
  · rename_i hblank
    rw [hcs.dropWhile, trimLeft, List.isEmpty_iff.mp hblank, List.nil_append]
  · rfl

theorem trimRight_append (hcs : Stops isBlank cs.reverse) (b : List Char) :
    trimRight (cs ++ b) = cs ++ trimRight b := by
  rw [trimRight_eq, List.reverse_append, trimLeft_append _ hcs, List.reverse_append,
    List.reverse_reverse, ← trimRight_eq]

/-- The blanks at the ends of a text are those of what stands around a trimmed part of it. -/
theorem trim_around (hne : cs ≠ []) (hcs : Trimmed cs) (a b : List Char) :
    trim (a ++ cs ++ b) = trimLeft a ++ cs ++ trimRight b := by
  have hright : Stops isBlank (trimLeft a ++ cs).reverse := by
    rw [List.reverse_append]
    exact hcs.ends.append (by simpa using hne) _
  rw [trim, List.append_assoc, trimLeft_append a (hcs.starts.append hne b), ← List.append_assoc,
    trimRight_append hright]

/-- Blanks around a trimmed text are stripped, and nothing else. -/
theorem trim_append {a b : List Char} (ha : ∀ c ∈ a, isBlank c = true) (hcs : Trimmed cs)
    (hb : ∀ c ∈ b, isBlank c = true) : trim (a ++ cs ++ b) = cs := by
  by_cases hne : cs = []
  · have hblank : trimLeft (a ++ b) = [] :=
      trimLeft_of_blank (List.forall_mem_append.mpr ⟨ha, hb⟩)
    rw [hne, List.append_nil, trim, hblank]
    rfl
  · rw [trim_around hne hcs, trimLeft_of_blank ha, trimRight_of_blank hb, List.nil_append,
      List.append_nil]

/-- A text with no blank at either end is left as it is. -/
theorem Trimmed.trim_eq (h : Trimmed cs) : trim cs = cs := by
  have := trim_append (a := []) (b := []) (by simp) h (by simp)
  rwa [List.nil_append, List.append_nil] at this

/-- Stripping blanks takes no word apart that has none at its ends. -/
theorem infix_trim_iff (hne : word ≠ []) (hword : Trimmed word) : word <:+: trim cs ↔ word <:+: cs := by
  constructor
  · intro h
    exact h.trans (trim_within cs)
  · rintro ⟨a, b, rfl⟩
    exact ⟨trimLeft a, trimRight b, (trim_around hne hword a b).symm⟩

theorem prefix_trimRight_iff (hword : Stops isBlank word.reverse) :
    word <+: trimRight cs ↔ word <+: cs := by
  constructor
  · intro h
    exact h.trans (trimRight_starts cs)
  · rintro ⟨rest, rfl⟩
    rw [trimRight_append hword]
    exact List.prefix_append word _

theorem fence_ne_nil : fence ≠ [] := by decide

theorem trimmed_fence : Trimmed fence := ⟨.cons (by decide) _, .cons (by decide) _⟩

theorem fence_starts_jsonFence : fence <+: jsonFence := by decide

/-- A text without a fence is its own body. -/
theorem fencedBody_of_no_fence (h : ¬ fence <:+: cs) : fencedBody cs = cs := by
  have hjson : ¬ jsonFence <:+: cs := fun hj => h (fence_starts_jsonFence.isInfix.trans hj)
  rw [fencedBody, cut?_eq_none_iff.mpr hjson, cut?_eq_none_iff.mpr h]

/-- A body has no fence in it. -/
theorem no_fence_fencedBody (cs : List Char) : ¬ fence <:+: fencedBody cs := by
  unfold fencedBody
  split
  · exact not_infix_upTo fence_ne_nil
  · split
    · exact not_infix_upTo fence_ne_nil
    · rename_i hcut
      exact cut?_eq_none_iff.mp hcut

theorem jsonFence_ne_nil : jsonFence ≠ [] := by decide

/-- A body is a part of the text. -/
theorem fencedBody_within (cs : List Char) : fencedBody cs <:+: cs := by
  unfold fencedBody
  split
  · rename_i hcut
    exact ((upTo_starts fence_ne_nil).trans (upTo_starts jsonFence_ne_nil)).isInfix.trans
      (cut?_after_ends jsonFence_ne_nil hcut).isInfix
  · split
    · rename_i hcut
      exact (upTo_starts fence_ne_nil).isInfix.trans (cut?_after_ends fence_ne_nil hcut).isInfix
    · exact List.infix_refl cs

theorem extractJson_within (reply : String) : (extractJson reply).toList <:+: reply.toList := by
  rw [extractJson, String.toList_ofList]
  exact (trim_within _).trans ((fencedBody_within _).trans (trim_within _))

theorem trimmed_extractJson (reply : String) : Trimmed (extractJson reply).toList := by
  rw [extractJson, String.toList_ofList]
  exact trimmed_trim _

theorem no_fence_extractJson (reply : String) : ¬ fence <:+: (extractJson reply).toList := by
  rw [extractJson, String.toList_ofList, infix_trim_iff fence_ne_nil trimmed_fence]
  exact no_fence_fencedBody _

/-- A reply comes through as it stands, up to the blanks around it, exactly if it has no fence. -/
theorem extractJson_eq_trim_iff (reply : String) :
    extractJson reply = String.ofList (trim reply.toList) ↔ ¬ fence <:+: reply.toList := by
  rw [extractJson, String.ofList_inj, ← infix_trim_iff fence_ne_nil trimmed_fence]
  constructor
  · intro h
    rw [← h, infix_trim_iff fence_ne_nil trimmed_fence]
    exact no_fence_fencedBody _
  · intro h
    rw [fencedBody_of_no_fence h, (trimmed_trim _).trim_eq]

/-- Taking the document out of a reply a second time changes nothing. -/
theorem extractJson_extractJson (reply : String) :
    extractJson (extractJson reply) = extractJson reply := by
  rw [(extractJson_eq_trim_iff _).mpr (no_fence_extractJson reply),
    (trimmed_extractJson reply).trim_eq, String.ofList_toList]

end Eligibility.Text
