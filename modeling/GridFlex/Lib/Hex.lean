import Mathlib

/-! Natural numbers as hexadecimal text, padded with zeros to a width. -/
namespace Hex

/-- The digits of `n`, most significant first, at least `width` of them. -/
def text (width n : ℕ) : List Char :=
  ((Nat.digits 16 n).reverse.map Nat.digitChar).leftpad width '0'

def digitValue (c : Char) : ℕ := "0123456789abcdef".toList.idxOf c

def value (digits : List Char) : ℕ := Nat.ofDigits 16 (digits.reverse.map digitValue)

theorem digitValue_digitChar : ∀ d < 16, digitValue (Nat.digitChar d) = d := by decide

theorem value_text (width n : ℕ) : value (text width n) = n := by
  have hdigits : (Nat.digits 16 n).map (digitValue ∘ Nat.digitChar) = Nat.digits 16 n := by
    calc
      _ = (Nat.digits 16 n).map id := List.map_congr_left fun d hd =>
        digitValue_digitChar d (Nat.digits_lt_base (by decide) hd)
      _ = Nat.digits 16 n := List.map_id _
  have hzero : digitValue '0' = 0 := by decide
  simp only [value, text, List.leftpad, List.reverse_append, List.map_append, List.map_reverse,
    List.reverse_reverse, List.map_map, hdigits, List.reverse_replicate, List.map_replicate, hzero,
    Nat.ofDigits_append_replicate_zero, Nat.ofDigits_digits]

theorem text_injective (width : ℕ) : Function.Injective (text width) :=
  Function.LeftInverse.injective (value_text width)

theorem text_length {width n : ℕ} (h : n < 16 ^ width) : (text width n).length = width := by
  have hdigits := (Nat.digits_length_le_iff (by decide) n).mpr h
  simp only [text, List.length_leftpad, List.length_map, List.length_reverse]
  omega

/-- Padding a padded text further is padding once. -/
theorem leftpad_text {width width' n : ℕ} (h : width ≤ width') :
    (text width n).leftpad width' '0' = text width' n := by
  simp only [text, List.leftpad, List.length_append, List.length_replicate, ← List.append_assoc,
    ← List.replicate_add]
  congr 2
  omega

theorem mem_text {width n : ℕ} {c : Char} (h : c ∈ text width n) :
    ∃ d < 16, c = Nat.digitChar d := by
  rcases List.mem_append.mp h with hpad | hdigit
  · exact ⟨0, by decide, List.eq_of_mem_replicate hpad⟩
  · obtain ⟨d, hd, rfl⟩ := List.mem_map.mp hdigit
    exact ⟨d, Nat.digits_lt_base (by decide) (List.mem_reverse.mp hd), rfl⟩

end Hex
