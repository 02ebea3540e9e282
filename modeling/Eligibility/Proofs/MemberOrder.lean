import Mathlib
import Eligibility.Proofs.Schema

namespace Eligibility

namespace Json

/-- The same document, but for the order of the members of its objects. -/
inductive Shuffled : Json → Json → Prop where
  | null : Shuffled .null .null
  | bool (b : Bool) : Shuffled (.bool b) (.bool b)
  | number (n : Number) : Shuffled (.number n) (.number n)
  | string (s : String) : Shuffled (.string s) (.string s)
  | array {items items' : List Json} (count : items.length = items'.length)
      (each : ∀ j j', (j, j') ∈ items.zip items' → Shuffled j j') :
      Shuffled (.array items) (.array items')
  | object {ms ordered ms' : List (String × Json)} (order : ms.Perm ordered)
      (count : ordered.length = ms'.length)
      (keys : ∀ m m', (m, m') ∈ ordered.zip ms' → m.1 = m'.1)
      (each : ∀ m m', (m, m') ∈ ordered.zip ms' → Shuffled m.2 m'.2) :
      Shuffled (.object ms) (.object ms')

theorem valuesOf_perm {ms ms' : List (String × Json)} (h : ms.Perm ms') (key : String) :
    (valuesOf key ms).Perm (valuesOf key ms') :=
  (h.filter _).map _

/-- The members, put in one order, agree one by one. -/
theorem shuffled_object_iff {ms ms' : List (String × Json)} :
    Shuffled (.object ms) (.object ms') ↔ ∃ ordered, ms.Perm ordered ∧
      List.Forall₂ (fun m m' => m.1 = m'.1 ∧ Shuffled m.2 m'.2) ordered ms' := by
  constructor
  · intro h
    cases h with
    | object order count keys each =>
      exact ⟨_, order, List.forall₂_iff_zip.mpr ⟨count, fun hm => ⟨keys _ _ hm, each _ _ hm⟩⟩⟩
  · rintro ⟨ordered, order, hmembers⟩
    obtain ⟨count, hall⟩ := List.forall₂_iff_zip.mp hmembers
    exact .object order count (fun m m' hm => (hall hm).1) fun m m' hm => (hall hm).2

theorem shuffled_array_iff {items items' : List Json} :
    Shuffled (.array items) (.array items') ↔ List.Forall₂ Shuffled items items' := by
  rw [List.forall₂_iff_zip]
  constructor
  · intro h
    cases h with
    | array count each => exact ⟨count, fun hm => each _ _ hm⟩
  · rintro ⟨count, each⟩
    exact .array count fun j j' hm => each hm

theorem Shuffled.refl (j : Json) : Shuffled j j := by
  induction hsize : sizeOf j using Nat.strong_induction_on generalizing j with
  | h size ih =>
    subst hsize
    cases j with
    | null => exact .null
    | bool b => exact .bool b
    | number n => exact .number n
    | string s => exact .string s
    | array items =>
      refine shuffled_array_iff.mpr (List.forall₂_same.mpr fun i hi => ?_)
      exact ih (sizeOf i) (sizeOf_lt_of_mem_items hi) i rfl
    | object ms =>
      refine shuffled_object_iff.mpr ⟨ms, .refl ms, List.forall₂_same.mpr fun m hm => ⟨rfl, ?_⟩⟩
      exact ih (sizeOf m.2) (sizeOf_lt_of_mem_values (mem_valuesOf.mpr hm)) m.2 rfl

theorem Shuffled.symm {j j' : Json} (h : Shuffled j j') : Shuffled j' j := by
  induction h with
  | null => exact .null
  | bool b => exact .bool b
  | number n => exact .number n
  | string s => exact .string s
  | array count each ih =>
    have hflip : List.Forall₂ (fun i i' => Shuffled i' i) _ _ :=
      List.forall₂_iff_zip.mpr ⟨count, fun hm => ih _ _ hm⟩
    exact shuffled_array_iff.mpr hflip.flip
  | @object ms ordered ms' order count keys each ih =>
    have hflip : List.Forall₂ (fun m m' => m'.1 = m.1 ∧ Shuffled m'.2 m.2) ordered ms' :=
      List.forall₂_iff_zip.mpr ⟨count, fun hm => ⟨(keys _ _ hm).symm, ih _ _ hm⟩⟩
    obtain ⟨ordered', hmembers, order'⟩ := List.perm_comp_forall₂ order hflip
    exact shuffled_object_iff.mpr ⟨ordered', order'.symm, hmembers.flip⟩

/-- The values of a key are the same up to their order and the order inside them. -/
theorem Shuffled.values {ms ms' : List (String × Json)} (h : Shuffled (.object ms) (.object ms'))
    (key : String) :
    ∃ js, (valuesOf key ms).Perm js ∧ List.Forall₂ Shuffled js (valuesOf key ms') := by
  obtain ⟨ordered, order, hmembers⟩ := shuffled_object_iff.mp h
  refine ⟨valuesOf key ordered, valuesOf_perm order key, ?_⟩
  clear h order
  induction hmembers with
  | nil => exact .nil
  | @cons m m' ordered ms' hm hrest ih =>
    obtain ⟨k, j⟩ := m
    obtain ⟨k', j'⟩ := m'
    obtain ⟨rfl, hj⟩ : k = k' ∧ Shuffled j j' := hm
    rw [valuesOf_cons, valuesOf_cons]
    split
    · exact .cons hj ih
    · exact ih

theorem Shuffled.absent {ms ms' : List (String × Json)} (h : Shuffled (.object ms) (.object ms'))
    {key : String} (hkey : valuesOf key ms = []) : valuesOf key ms' = [] := by
  obtain ⟨js, hperm, heach⟩ := h.values key
  rw [hkey] at hperm
  rw [List.nil_perm.mp hperm] at heach
  exact List.forall₂_nil_left_iff.mp heach

/-- What stands once under a key does so after shuffling, in a shuffled form. -/
theorem Shuffled.once {ms ms' : List (String × Json)} (h : Shuffled (.object ms) (.object ms'))
    {key : String} {j : Json} (hkey : valuesOf key ms = [j]) :
    ∃ j', valuesOf key ms' = [j'] ∧ Shuffled j j' := by
  obtain ⟨js, hperm, heach⟩ := h.values key
  rw [hkey] at hperm
  rw [← List.singleton_perm.mp hperm] at heach
  obtain ⟨j', rest, hj, hrest, hvalues⟩ := List.forall₂_cons_left_iff.mp heach
  rw [List.forall₂_nil_left_iff.mp hrest] at hvalues
  exact ⟨j', hvalues, hj⟩

/-- A value without members stays as it is. -/
theorem Shuffled.once_of_eq {ms ms' : List (String × Json)}
    (h : Shuffled (.object ms) (.object ms')) {key : String} {j : Json}
    (hj : ∀ j', Shuffled j j' → j' = j) (hkey : valuesOf key ms = [j]) :
    valuesOf key ms' = [j] := by
  obtain ⟨j', hkey', hshuffled⟩ := h.once hkey
  rw [hkey', hj j' hshuffled]

theorem Shuffled.once_string {ms ms' : List (String × Json)}
    (h : Shuffled (.object ms) (.object ms')) {key s : String}
    (hkey : valuesOf key ms = [.string s]) : valuesOf key ms' = [.string s] :=
  h.once_of_eq (fun j' hj => by cases hj; rfl) hkey

theorem kindIn?_eq_none {kinds : List Kind} {ms : List (String × Json)}
    (h : ¬∃ s, valuesOf "typename" ms = [.string s]) : kindIn? kinds ms = none := by
  rw [kindIn?]
  split
  · exact absurd ⟨_, ‹_›⟩ h
  · rfl

/-- The kind of an object is not told by the order of its members. -/
theorem Shuffled.kindIn?_eq {ms ms' : List (String × Json)}
    (h : Shuffled (.object ms) (.object ms')) (kinds : List Kind) :
    kindIn? kinds ms' = kindIn? kinds ms := by
  by_cases htag : ∃ s, valuesOf "typename" ms = [.string s]
  · obtain ⟨s, hs⟩ := htag
    rw [kindIn?, kindIn?, hs, h.once_string hs]
  · have htag' : ¬∃ s, valuesOf "typename" ms' = [.string s] := fun ⟨s, hs⟩ =>
      htag ⟨s, h.symm.once_string hs⟩
    rw [kindIn?_eq_none htag, kindIn?_eq_none htag']

theorem exists_mem_zip {α β : Type} {as : List α} {bs : List β} (count : as.length = bs.length)
    {b : β} (hb : b ∈ bs) : ∃ a, (a, b) ∈ as.zip bs := by
  rw [← List.map_snd_zip count.ge] at hb
  obtain ⟨⟨a, _⟩, hm, rfl⟩ := List.mem_map.mp hb
  exact ⟨a, hm⟩

/-- A shuffled document is in plain form if the document is. -/
theorem Shuffled.isPlain {j j' : Json} (h : Shuffled j j') {slot : Slot}
    (hplain : Json.isPlain slot j = true) : Json.isPlain slot j' = true := by
  induction h generalizing slot with
  | @array items items' count each ih =>
    cases slot with
    | nodes kinds =>
      rw [Json.isPlain, itemsPlain_iff] at hplain ⊢
      intro i' hi'
      obtain ⟨i, hi⟩ := exists_mem_zip count hi'
      exact ih i i' hi (hplain i (List.of_mem_zip hi).1)
    | _ => cases hplain
  | @object ms ordered ms' order count keys each ih =>
    cases slot with
    | node kinds =>
      have hshuffled : Shuffled (.object ms) (.object ms') := .object order count keys each
      have hmember : ∀ m' ∈ ms', ∃ m ∈ ms, (m, m') ∈ ordered.zip ms' := by
        intro m' hm'
        obtain ⟨m, hm⟩ := exists_mem_zip count hm'
        exact ⟨m, order.mem_iff.mpr (List.of_mem_zip hm).1, hm⟩
      rw [Json.isPlain, Bool.and_eq_true, List.all_eq_true] at hplain ⊢
      obtain ⟨htags, hmembers⟩ := hplain
      constructor
      · intro t' ht'
        obtain ⟨⟨key, t⟩, ht, hzip⟩ := hmember _ (mem_valuesOf.mp ht')
        obtain rfl : key = "typename" := keys _ _ hzip
        have hword : Json.isPlain .word t = true := by
          rw [Json.isPlain]
          exact htags t (mem_valuesOf.mpr ht)
        simpa [Json.isPlain] using ih _ _ hzip hword
      · rw [hshuffled.kindIn?_eq]
        cases hkind : kindIn? kinds ms with
        | none => rfl
        | some k =>
          rw [hkind] at hmembers
          refine membersPlain_iff.mpr fun m' hm' slot hslot => ?_
          obtain ⟨m, hm, hzip⟩ := hmember m' hm'
          rw [← keys m m' hzip] at hslot
          exact ih m m' hzip (membersPlain_iff.mp hmembers m hm slot hslot)
    | word => cases hplain
    | _ => rfl
  | _ => exact hplain

end Json

open Json (Shuffled)

end Eligibility
