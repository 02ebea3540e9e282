import Mathlib
import Eligibility.Text.Fence
import Eligibility.Proofs.Cutting
import Eligibility.Proofs.Fences

namespace Eligibility.Text

variable {a b body cs word part : List Char}

/-- A text that the next fence ends: none starts in it, not even with the last of its characters. -/
structure Unfenced (cs : List Char) : Prop where
  absent : ¬ fence <:+: cs
  ends : cs.getLast? ≠ some '`'

/-- The body of a block, without the blanks around it. -/
structure IsBody (cs : List Char) : Prop extends Unfenced cs where
  trimmed : Trimmed cs

instance : Decidable (IsBody cs) :=
  decidable_of_iff (¬ fence <:+: cs ∧ cs.getLast? ≠ some '`' ∧ Trimmed cs)
    ⟨fun h => ⟨⟨h.1, h.2.1⟩, h.2.2⟩, fun h => ⟨h.absent, h.ends, h.trimmed⟩⟩

/-- The backticks of a closing fence that are left in front of a mark, by what follows the fence. -/
def looseTicks (b : List Char) : List Char :=
  if "`json".toList <+: b then ['`'] else if "``json".toList <+: b then ['`', '`'] else []

theorem looseTicks_eq_nil_iff :
    looseTicks b = [] ↔ ¬ "`json".toList <+: b ∧ ¬ "``json".toList <+: b := by
  unfold looseTicks
  split
  · simp_all
  · split <;> simp_all

theorem mem_looseTicks {c : Char} (h : c ∈ looseTicks b) : c = '`' := by
  unfold looseTicks at h
  split at h
  · simpa using h
  · split at h
    · simpa using h
    · cases h

theorem trimmed_looseTicks (b : List Char) : Trimmed (looseTicks b) := by
  constructor
  · intro c hc
    rw [mem_looseTicks (List.mem_of_mem_head? hc)]
    decide
  · intro c hc
    rw [mem_looseTicks (List.mem_reverse.mp (List.mem_of_mem_head? hc))]
    decide

theorem looseTicks_trimRight (b : List Char) : looseTicks (trimRight b) = looseTicks b := by
  have hone : Stops isBlank "`json".toList.reverse := .cons (by decide) _
  have htwo : Stops isBlank "``json".toList.reverse := .cons (by decide) _
  exact if_congr (prefix_trimRight_iff hone) rfl (if_congr (prefix_trimRight_iff htwo) rfl rfl)

theorem mem_fence {c : Char} (h : c ∈ fence) : c = '`' := by
  have hfence : fence = List.replicate 3 '`' := rfl
  rw [hfence] at h
  exact List.eq_of_mem_replicate h

/-- No fence starts within a text that the next fence ends. -/
theorem Unfenced.not_starts (hbody : Unfenced body) (hne : part ≠ []) (hpart : part <:+ body)
    (rest : List Char) : ¬ fence <+: part ++ rest := by
  intro h
  obtain hinside | hacross := List.prefix_or_prefix_of_prefix h (List.prefix_append part rest)
  · exact hbody.absent (hinside.isInfix.trans hpart.isInfix)
  · -- The fence starts in the body and ends after it, so the body ends in one of its backticks.
    have hlast := mem_fence (hacross.subset (List.getLast_mem hne))
    obtain ⟨front, rfl⟩ := hpart
    apply hbody.ends
    rw [List.getLast?_append_of_ne_nil front hne, List.getLast?_eq_some_getLast hne, hlast]

/-- A fence, marked or not, is looked for after such a text. -/
theorem Unfenced.upTo_append (hbody : Unfenced body) (hword : fence <+: word) (rest : List Char) :
    upTo word (body ++ rest) = body ++ upTo word rest := by
  apply Text.upTo_append
  intro part hne hpart h
  exact hbody.not_starts hne hpart rest (hword.trans h)

theorem mark_after_one : jsonFence <+: '`' :: b ↔ "``json".toList <+: b :=
  List.prefix_cons_inj '`'

theorem mark_after_two : jsonFence <+: '`' :: '`' :: b ↔ "`json".toList <+: b := by
  rw [mark_after_one]
  exact List.prefix_cons_inj '`'

theorem mark_after_three : jsonFence <+: '`' :: '`' :: '`' :: b ↔ "json".toList <+: b := by
  rw [mark_after_two]
  exact List.prefix_cons_inj '`'

/-- What a closing fence leaves of itself: the next mark is looked for before the fence is. -/
theorem upTo_closing (b : List Char) :
    upTo fence (upTo jsonFence (fence ++ b)) = looseTicks b := by
  change upTo fence (upTo jsonFence ('`' :: '`' :: '`' :: b)) = looseTicks b
  by_cases hthree : jsonFence <+: '`' :: '`' :: '`' :: b
  · obtain ⟨rest, rfl⟩ := mark_after_three.mp hthree
    have hnone : looseTicks ("json".toList ++ rest) = [] := by
      simp [looseTicks_eq_nil_iff]
    rw [upTo_of_starts hthree, hnone]
    rfl
  rw [upTo_cons _ hthree]
  by_cases htwo : jsonFence <+: '`' :: '`' :: b
  · rw [upTo_of_starts htwo, looseTicks, if_pos (mark_after_two.mp htwo)]
    rfl
  rw [upTo_cons _ htwo]
  by_cases hone : jsonFence <+: '`' :: b
  · rw [upTo_of_starts hone, looseTicks, if_neg (mt mark_after_two.mpr htwo),
      if_pos (mark_after_one.mp hone)]
    rfl
  have hnone : looseTicks b = [] :=
    looseTicks_eq_nil_iff.mpr ⟨mt mark_after_two.mpr htwo, mt mark_after_one.mpr hone⟩
  have hfence : fence <+: '`' :: '`' :: '`' :: upTo jsonFence b := List.prefix_append fence _
  rw [upTo_cons _ hone, upTo_of_starts hfence, hnone]

/-- The body of a block goes up to its closing fence, and keeps the backticks that are left loose.
-/
theorem fencedBody_block (ha : ¬ jsonFence <:+: a) (hbody : Unfenced body) (b : List Char) :
    fencedBody (a ++ jsonFence ++ (body ++ (fence ++ b))) = body ++ looseTicks b := by
  have hcut := cut?_append_word jsonFence_ne_nil (by decide) ha (body ++ (fence ++ b))
  rw [fencedBody, hcut]
  calc upTo fence (upTo jsonFence (body ++ (fence ++ b)))
      = upTo fence (body ++ upTo jsonFence (fence ++ b)) := by
        rw [hbody.upTo_append fence_starts_jsonFence]
    _ = body ++ upTo fence (upTo jsonFence (fence ++ b)) := by
        rw [hbody.upTo_append (List.prefix_refl fence)]
    _ = body ++ looseTicks b := by rw [upTo_closing]

theorem trim_block (a body b : List Char) :
    trim (a ++ jsonFence ++ (body ++ (fence ++ b))) =
      trimLeft a ++ jsonFence ++ (body ++ (fence ++ trimRight b)) := by
  have hblock : Trimmed (jsonFence ++ body ++ fence) := by
    constructor
    · exact .cons (by decide) _
    · rw [List.reverse_append]
      exact trimmed_fence.ends.append (by simpa using fence_ne_nil) _
  have hne : jsonFence ++ body ++ fence ≠ [] := List.append_ne_nil_of_right_ne_nil _ fence_ne_nil
  simpa only [List.append_assoc] using trim_around hne hblock a b

/-- What is taken out of a reply with a marked block in it, from the first mark on. -/
theorem extractJson_block {a body : String} (ha : ¬ jsonFence <:+: a.toList)
    (hbody : Unfenced body.toList) (b : String) :
    extractJson (a ++ "```json" ++ body ++ "```" ++ b) =
      String.ofList (trim (body.toList ++ looseTicks b.toList)) := by
  have htext : (a ++ "```json" ++ body ++ "```" ++ b).toList =
      a.toList ++ jsonFence ++ (body.toList ++ (fence ++ b.toList)) := by
    simp only [String.toList_append, List.append_assoc]
    rfl
  have hleft : ¬ jsonFence <:+: trimLeft a.toList := by
    intro h
    exact ha (h.trans (List.dropWhile_suffix isBlank).isInfix)
  rw [extractJson, htext, trim_block, fencedBody_block hleft hbody, looseTicks_trimRight]

section Padded

variable {w₁ w₂ j : List Char}

theorem getLast?_of_blank {w : List Char} (hw : ∀ c ∈ w, isBlank c = true) :
    w.getLast? ≠ some '`' := by
  intro hlast
  have htick := hw '`' (List.mem_of_getLast? hlast)
  exact absurd htick (by decide)

/-- A body with blanks around it is ended by the next fence. -/
theorem IsBody.padded (hj : IsBody j) (h₁ : ∀ c ∈ w₁, isBlank c = true)
    (h₂ : ∀ c ∈ w₂, isBlank c = true) : Unfenced (w₁ ++ j ++ w₂) where
  absent := by
    rw [← infix_trim_iff fence_ne_nil trimmed_fence, trim_append h₁ hj.trimmed h₂]
    exact hj.absent
  ends := by
    by_cases hw : w₂ = []
    · subst hw
      by_cases hne : j = []
      · simpa [hne] using getLast?_of_blank h₁
      · rw [List.append_nil, List.getLast?_append_of_ne_nil w₁ hne]
        exact hj.ends
    · rw [List.getLast?_append_of_ne_nil _ hw]
      exact getLast?_of_blank h₂

/-- Backticks that are left after a body are not stripped with the blanks. -/
theorem IsBody.trim_ticks_iff (hj : IsBody j) (h₁ : ∀ c ∈ w₁, isBlank c = true)
    (h₂ : ∀ c ∈ w₂, isBlank c = true) (b : List Char) :
    trim (w₁ ++ j ++ w₂ ++ looseTicks b) = j ↔ looseTicks b = [] := by
  constructor
  · intro h
    by_contra hne
    have htrim : j = trimLeft (w₁ ++ j ++ w₂) ++ looseTicks b := by
      have haround := trim_around hne (trimmed_looseTicks b) (w₁ ++ j ++ w₂) []
      rwa [List.append_nil, h, trimRight_of_blank (by simp), List.append_nil] at haround
    apply hj.ends
    rw [htrim, List.getLast?_append_of_ne_nil _ hne, List.getLast?_eq_some_getLast hne,
      mem_looseTicks (List.getLast_mem hne)]
  · intro h
    rw [h, List.append_nil, trim_append h₁ hj.trimmed h₂]

end Padded

/-- The body of the first marked block is taken out of a reply, whatever other fences the reply has,
exactly if the backticks of its closing fence do not go on, by one or two, to a mark. For every reply,
what is taken out is a part of it without blanks at its ends and without a fence, and stays as it is
when it is taken out again. -/
theorem fenced_body_recovered_iff (a w₁ j w₂ b t : String) :
    (¬ jsonFence <:+: a.toList → (∀ c ∈ w₁.toList, isBlank c = true) → IsBody j.toList →
      (∀ c ∈ w₂.toList, isBlank c = true) →
      (extractJson (a ++ "```json" ++ w₁ ++ j ++ w₂ ++ "```" ++ b) = j ↔
        ¬ "`json".toList <+: b.toList ∧ ¬ "``json".toList <+: b.toList)) ∧
    (extractJson t).toList <:+: t.toList ∧ Trimmed (extractJson t).toList ∧
      ¬ fence <:+: (extractJson t).toList ∧ extractJson (extractJson t) = extractJson t := by
  constructor
  · intro ha h₁ hj h₂
    have hbody : Unfenced (w₁ ++ j ++ w₂).toList := by
      simpa only [String.toList_append] using hj.padded h₁ h₂
    have hblock := extractJson_block ha hbody b
    simp only [← String.append_assoc, String.toList_append] at hblock
    rw [hblock, ← looseTicks_eq_nil_iff, ← hj.trim_ticks_iff h₁ h₂, ← String.toList_inj,
      String.toList_ofList]
  · exact ⟨extractJson_within t, trimmed_extractJson t, no_fence_extractJson t,
      extractJson_extractJson t⟩

/-- Backticks before the mark and after the closing fence, and further fences of either kind. -/
theorem fenced_body_recovered_among_fences :
    let a := " Not ```[0]``` but ``"
    let j := "[\"`` `\", 1]"
    let b := "``` nor ```json [2]``` nor `json "
    let t := a ++ "```json" ++ " \n" ++ j ++ "\t" ++ "```" ++ b
    ¬ jsonFence <:+: a.toList ∧ IsBody j.toList ∧ extractJson t = j ∧
      extractJson (extractJson t) = j := by
  intro a j b t
  have ha : ¬ jsonFence <:+: a.toList := by decide +kernel
  have hj : IsBody j.toList := by decide +kernel
  have h₁ : ∀ c ∈ " \n".toList, isBlank c = true := List.all_eq_true.mp (by decide +kernel)
  have h₂ : ∀ c ∈ "\t".toList, isBlank c = true := List.all_eq_true.mp (by decide +kernel)
  obtain ⟨hblock, -, -, -, hagain⟩ := fenced_body_recovered_iff a " \n" j "\t" b t
  have hrecovered : extractJson t = j := (hblock ha h₁ hj h₂).mpr (by decide +kernel)
  exact ⟨ha, hj, hrecovered, hagain.trans hrecovered⟩

/-- A fourth backtick before a second mark is left in the body. -/
theorem fenced_body_with_loose_tick :
    let a := "Draft:\n"
    let j := "[true]"
    let b := "`json\n[false]\n```"
    ¬ jsonFence <:+: a.toList ∧ IsBody j.toList ∧ j.toList.head? ≠ some '`' ∧
      extractJson (a ++ "```json" ++ "\n" ++ j ++ "\n" ++ "```" ++ b) = "[true]\n`" := by
  decide +kernel

end Eligibility.Text
