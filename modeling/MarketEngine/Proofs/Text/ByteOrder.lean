import Mathlib.Data.String.Basic
/-!
# The order of texts by their bytes

Texts are compared character by character. Their bytes in UTF-8 compare in the same way
(`Text.bytes_lt_bytes`): of two characters the lesser has the lesser bytes, whatever follows them.
-/

namespace MarketEngine.Text

/-- The bytes of a text in UTF-8. -/
def bytes (s : String) : List UInt8 := s.toUTF8.data.toList

/-- The bytes of a text are those of its characters in turn. -/
theorem bytes_eq_flatMap (s : String) : bytes s = s.toList.flatMap String.utf8EncodeChar := by
  rw [bytes, String.toUTF8, ← String.utf8Encode_toList, List.utf8Encode,
    List.toList_data_toByteArray]

/-- Lists of bytes are compared by the numbers of their first bytes. -/
theorem ofNat_cons_lt_ofNat_cons {m n : Nat} (hm : m < 256) (hn : n < 256) (xs ys : List UInt8) :
    UInt8.ofNat m :: xs < UInt8.ofNat n :: ys ↔ m < n ∨ m = n ∧ xs < ys := by
  rw [List.cons_lt_cons_iff, UInt8.lt_iff_toNat_lt, ← UInt8.toNat_inj, UInt8.toNat_ofNat',
    UInt8.toNat_ofNat', Nat.mod_eq_of_lt hm, Nat.mod_eq_of_lt hn]

/-- A smaller character has the smaller bytes, whatever follows: the first byte says how many there
are, and more of them mean a larger character. -/
theorem utf8EncodeChar_append_lt {c d : Char} (h : c < d) (xs ys : List UInt8) :
    String.utf8EncodeChar c ++ xs < String.utf8EncodeChar d ++ ys := by
  have hbound (c : Char) : c.val.toNat < 1114112 := by
    rcases c.valid with hvalid | hvalid <;> omega
  have hc := hbound c
  have hd := hbound d
  have hlt : c.val.toNat < d.val.toNat := h
  simp only [String.utf8EncodeChar]
  generalize c.val.toNat = m at hc hlt
  generalize d.val.toNat = n at hd hlt
  have hdigits : m / 262144 < n / 262144 ∨ m / 262144 = n / 262144 ∧ m % 262144 < n % 262144 := by
    omega
  -- a first byte tells how many follow, so characters of different lengths differ there; those of
  -- one length differ at the first of their digits to the base 64 that differ
  rcases hdigits with hlead | ⟨hlead, hrest⟩ <;> split_ifs <;>
    simp (disch := omega) only [List.cons_append, List.nil_append, ofNat_cons_lt_ofNat_cons] <;>
    omega

/-- Texts in the order of their characters are in the order of their bytes. -/
theorem flatMap_utf8EncodeChar_lt {cs ds : List Char} (h : cs < ds) :
    cs.flatMap String.utf8EncodeChar < ds.flatMap String.utf8EncodeChar := by
  induction cs generalizing ds with
  | nil =>
    cases ds with
    | nil => cases h
    | cons d ds =>
      rw [List.flatMap_nil, List.flatMap_cons]
      cases hd : String.utf8EncodeChar d with
      | nil => exact absurd hd String.utf8EncodeChar_ne_nil
      | cons b rest => exact List.nil_lt_cons b _
  | cons c cs ih =>
    cases ds with
    | nil => cases h
    | cons d ds =>
      rw [List.flatMap_cons, List.flatMap_cons]
      rcases List.cons_lt_cons_iff.1 h with hlt | ⟨rfl, hrest⟩
      · exact utf8EncodeChar_append_lt hlt _ _
      · exact List.append_left_lt (ih hrest)

/-- The lesser of two texts has the lesser bytes. -/
theorem bytes_lt_bytes {s s' : String} (h : s < s') : bytes s < bytes s' := by
  rw [bytes_eq_flatMap, bytes_eq_flatMap]
  exact flatMap_utf8EncodeChar_lt (String.lt_iff_toList_lt.1 h)

end MarketEngine.Text
