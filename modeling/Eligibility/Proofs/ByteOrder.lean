import Mathlib

namespace Eligibility.Text

def bytes (s : String) : List UInt8 := s.toUTF8.data.toList

theorem bytes_eq (s : String) : bytes s = s.toList.flatMap String.utf8EncodeChar := by
  have h : bytes s = s.toList.utf8Encode.data.toList := by
    rw [String.utf8Encode_toList]
    rfl
  rw [h, List.utf8Encode, List.data_toByteArray]

/-- A smaller first byte decides; after the same first byte, the rest does. -/
theorem cons_byte_lt {m n : Nat} {u v : List UInt8} (hn : n < 256) (hle : m ≤ n)
    (hrest : m = n → u < v) : UInt8.ofNat m :: u < UInt8.ofNat n :: v := by
  rw [List.cons_lt_cons_iff]
  rcases Nat.lt_or_eq_of_le hle with hlt | heq
  · exact .inl ((UInt8.ofNat_lt_iff_lt (hlt.trans hn) hn).mpr hlt)
  · exact .inr ⟨by rw [heq], hrest heq⟩

/-- The encoding of a smaller character is smaller, whatever follows. -/
theorem encode_lt {c d : Char} (h : c < d) (u v : List UInt8) :
    String.utf8EncodeChar c ++ u < String.utf8EncodeChar d ++ v := by
  have hlt : c.val.toNat < d.val.toNat := h
  have hmax : d.val.toNat < 1114112 := by
    rcases d.valid with hvalid | ⟨-, hvalid⟩
    · omega
    · exact hvalid
  simp only [String.utf8EncodeChar]
  generalize c.val.toNat = m at hlt ⊢
  generalize d.val.toNat = n at hlt hmax ⊢
  -- the first difference is in the leading byte if the lengths differ
  by_cases hm : m ≤ 127
  · rw [if_pos hm]
    split_ifs
    · exact cons_byte_lt (by omega) (by omega) fun _ => by omega
    · exact cons_byte_lt (by omega) (by omega) fun _ => by omega
    · exact cons_byte_lt (by omega) (by omega) fun _ => by omega
    · exact cons_byte_lt (by omega) (by omega) fun _ => by omega
  · rw [if_neg hm, if_neg (by omega : ¬ n ≤ 127)]
    by_cases hm : m ≤ 2047
    · rw [if_pos hm]
      split_ifs
      · exact cons_byte_lt (by omega) (by omega) fun _ =>
          cons_byte_lt (by omega) (by omega) fun _ => by omega
      · exact cons_byte_lt (by omega) (by omega) fun _ => by omega
      · exact cons_byte_lt (by omega) (by omega) fun _ => by omega
    · rw [if_neg hm, if_neg (by omega : ¬ n ≤ 2047)]
      by_cases hm : m ≤ 65535
      · rw [if_pos hm]
        split_ifs
        · exact cons_byte_lt (by omega) (by omega) fun _ =>
            cons_byte_lt (by omega) (by omega) fun _ =>
            cons_byte_lt (by omega) (by omega) fun _ => by omega
        · exact cons_byte_lt (by omega) (by omega) fun _ => by omega
      · rw [if_neg hm, if_neg (by omega : ¬ n ≤ 65535)]
        exact cons_byte_lt (by omega) (by omega) fun _ =>
          cons_byte_lt (by omega) (by omega) fun _ =>
          cons_byte_lt (by omega) (by omega) fun _ =>
          cons_byte_lt (by omega) (by omega) fun _ => by omega

/-- The smaller of two texts has the smaller encoding: it is decided by the first character in which
they differ. -/
theorem flatMap_encode_lt {as bs : List Char} (h : as < bs) :
    as.flatMap String.utf8EncodeChar < bs.flatMap String.utf8EncodeChar := by
  induction h with
  | nil =>
    rename_i b bs
    obtain ⟨first, rest, hb⟩ := List.exists_cons_of_ne_nil (@String.utf8EncodeChar_ne_nil b)
    rw [List.flatMap_cons, hb]
    exact .nil
  | cons _ ih => exact List.append_left_lt ih
  | rel h => exact encode_lt h _ _

/-- Of two texts the smaller one has the smaller bytes. -/
theorem bytes_lt {s t : String} (h : s < t) : bytes s < bytes t := by
  rw [bytes_eq, bytes_eq]
  exact flatMap_encode_lt (String.lt_iff_toList_lt.mp h)

end Eligibility.Text
