import Mathlib
import Eligibility.Proofs.SchemaFields

namespace Eligibility

namespace Json

theorem asText_eq_ok {j : Json} {s : String} : j.asText = .ok s ↔ j = .string s := by
  cases j <;> simp [asText]

theorem asBool_eq_ok {j : Json} {b : Bool} : j.asBool = .ok b ↔ j = .bool b := by
  cases j <;> simp [asBool]

theorem asDouble_eq_ok {j : Json} {x : Double} :
    j.asDouble = .ok x ↔ ∃ m : Number, j = .number m ∧ m.toDouble = x := by
  cases j with
  | number m => cases m <;> simp [asDouble, Number.toDouble]
  | _ => simp [asDouble]

theorem eq_string_of_isString {j : Json} (h : j.isString = true) : ∃ s, j = .string s := by
  cases j with
  | string s => exact ⟨s, rfl⟩
  | _ => cases h

theorem lookup_eq_some_iff {α : Type} {names : List (String × α)}
    (hnodup : (names.map Prod.fst).Nodup) {s : String} {a : α} :
    names.lookup s = some a ↔ (s, a) ∈ names := by
  induction names with
  | nil => simp
  | cons m names ih =>
    obtain ⟨t, b⟩ := m
    rw [List.map_cons, List.nodup_cons] at hnodup
    by_cases hst : s = t
    · subst hst
      have hnot : (s, a) ∉ names := fun hm => hnodup.1 (List.mem_map.mpr ⟨_, hm, rfl⟩)
      simp [hnot, eq_comm]
    · rw [List.lookup_cons, beq_false_of_ne hst]
      simp [hst, ih hnodup.2]

end Json

namespace TaskRoot

end TaskRoot

/-- What stands in a slot for these kinds is read in this place and narrowed by this function. -/
structure Fits {α : Type} (p : Place) (kinds : List Kind) (narrow : Node → Except Mismatch α)
    (node : α → Node) : Prop where
  admitted : kinds ⊆ p.kinds
  narrows : ∀ n a, narrow n = .ok a ↔ n = node a
  kind_mem : ∀ a, (node a).kind ∈ kinds
  admit_node : ∀ a, p.admit (node a) = .ok (node a)

namespace Fits

theorem var : Fits .node [.var] Node.asVar .var where
  admitted := by decide
  narrows n a := by cases n <;> simp [Node.asVar]
  kind_mem _ := by simp [Node.kind]
  admit_node _ := rfl

theorem term : Fits .node [.affineTerm] Node.asTerm .term where
  admitted := by decide
  narrows n a := by cases n <;> simp [Node.asTerm]
  kind_mem _ := by simp [Node.kind]
  admit_node _ := rfl

theorem comparison : Fits .node [.comparison] Node.asComparison fun c => .rule (.comparison c) where
  admitted := by decide
  narrows n a := by
    cases n with
    | rule r => cases r <;> simp [Node.asComparison]
    | _ => simp [Node.asComparison]
  kind_mem _ := by simp [Node.kind, Rule.kind]
  admit_node _ := rfl

theorem number : Fits .node [.value] Node.asNumber fun x => .literal (.number x) where
  admitted := by decide
  narrows n a := by
    cases n with
    | literal v => cases v <;> simp [Node.asNumber]
    | _ => simp [Node.asNumber]
  kind_mem _ := by simp [Node.kind]
  admit_node _ := rfl

theorem scalar : Fits .scalar Slot.scalars Node.asScalar Scalar.toNode where
  admitted := by decide
  narrows n a := by
    rcases n with (_ | _ | _) | _ | _ | _ | _ | _ <;> cases a <;>
      simp [Node.asScalar, Node.asNumber, Except.map, Scalar.toNode]
  kind_mem a := by cases a <;> simp [Scalar.toNode, Node.kind, Slot.scalars]
  admit_node a := by cases a <;> rfl

theorem operand : Fits .operand Slot.operands Node.asOperand Operand.toNode where
  admitted := by decide
  narrows n a := by cases n <;> cases a <;> simp [Node.asOperand, Operand.toNode]
  kind_mem a := by cases a <;> simp [Operand.toNode, Node.kind, Slot.operands]
  admit_node a := by cases a <;> rfl

theorem rule : Fits .rule Slot.rules Node.asRule .rule where
  admitted := by decide
  narrows n a := by cases n <;> simp [Node.asRule]
  kind_mem r := r.kind_mem_kinds
  admit_node _ := rfl

end Fits

/-- Reading a list and then narrowing it comes to reading and narrowing each element. -/
theorem Node.readEach_narrow {α : Type} {p : Place} {narrow : Node → Except Mismatch α}
    {items : List Json} {as : List α} :
    (readEach p items >>= List.mapM (Node.narrow narrow)) = .ok as ↔
      List.Forall₂ (fun i a => (read p i >>= Node.narrow narrow) = .ok a) items as := by
  induction items generalizing as with
  | nil =>
    rw [readEach, ok_bind, List.mapM_nil, List.forall₂_nil_left_iff]
    simp [pure, Except.pure, eq_comm]
  | cons i items ih =>
    simp only [List.forall₂_cons_left_iff, ← ih]
    simp only [readEach, bind_eq_ok, pure, Except.pure, Except.ok.injEq]
    constructor
    · rintro ⟨ns, ⟨n, hn, ns, hns, rfl⟩, has⟩
      rw [List.mapM_cons] at has
      simp only [bind_eq_ok, pure, Except.pure, Except.ok.injEq] at has
      obtain ⟨a, ha, as, has, rfl⟩ := has
      exact ⟨a, as, ⟨n, hn, ha⟩, ⟨ns, hns, has⟩, rfl⟩
    · rintro ⟨a, as, ⟨n, hn, ha⟩, ⟨ns, hns, has⟩, rfl⟩
      refine ⟨n :: ns, ⟨n, hn, ns, hns, rfl⟩, ?_⟩
      rw [List.mapM_cons, ha, ok_bind, has]
      rfl

section Slots

variable {α : Type} {p : Place} {kinds : List Kind} {narrow : Node → Except Mismatch α}
  {node : α → Node} {j : Json}

end Slots

end Eligibility
