import FramedStore.Proofs.Record.Framing

/-!
# Lengths of records

A nested length is the shorter of the two indicators, and does not get shorter when the content gets
longer. So no record is shorter than the one that a shorter content has behind a nested length.
-/

namespace FramedStore

theorem Bytes.length_digits_mono {m n : Nat} (h : m ≤ n) :
    (digits m).length ≤ (digits n).length := by
  refine length_digits_le ?_
  have hlt := value_lt (digits n)
  rw [value_digits] at hlt
  omega

theorem Decimal.lt_pow_length_numeral (n : Nat) : n < 10 ^ (numeral n).length := by
  have hlt : value (numeral n) < 10 ^ (numeral n).length :=
    Positional.value_lt fun byte hbyte => digit_lt (isDigit_of_mem_numeral byte hbyte)
  rwa [value_numeral] at hlt

theorem ten_pow_le (k : Nat) : 10 ^ (k + 2) ≤ 256 ^ (k + 1) := by
  induction k with
  | zero => decide
  | succ k ih =>
    rw [Nat.pow_succ, Nat.pow_succ 256]
    omega

namespace Nested

theorem length_write_of_lt {n : Nat} (h : n < 255) : (write n).length = 1 := by
  rw [write, if_pos h]
  rfl

theorem length_write_of_le {n : Nat} (h : 255 ≤ n) :
    (write n).length = (Bytes.digits n).length + 2 := by
  rw [write, if_neg (by omega)]
  rfl

theorem length_write_mono {m n : Nat} (h : m ≤ n) : (write m).length ≤ (write n).length := by
  by_cases hm : m < 255
  · rw [length_write_of_lt hm]
    by_cases hn : n < 255
    · rw [length_write_of_lt hn]
    · rw [length_write_of_le (by omega)]
      omega
  · have hdigits := Bytes.length_digits_mono h
    rw [length_write_of_le (by omega), length_write_of_le (by omega)]
    omega

/-- A nested length is no longer than a decimal one with a guard. -/
theorem length_write_le_numeral (n : Nat) : (write n).length ≤ (Decimal.numeral n).length + 1 := by
  by_cases hn : n < 255
  · rw [length_write_of_lt hn]
    omega
  · have htens : 2 ≤ (Decimal.numeral n).length := by
      have hpos := List.length_pos_iff.mpr (Decimal.numeral_ne_nil (n / 10))
      rw [Decimal.numeral_of_le (by omega), List.length_append, List.length_singleton]
      omega
    obtain ⟨k, hk⟩ := Nat.exists_eq_add_of_le' htens
    have hlt := Decimal.lt_pow_length_numeral n
    have hpow := ten_pow_le k
    rw [hk] at hlt ⊢
    have hdigits := Bytes.length_digits_le (Nat.lt_of_lt_of_le hlt hpow)
    rw [length_write_of_le (by omega)]
    omega

end Nested

/-- No record is shorter than that of a shorter content behind a nested length. -/
theorem Framing.length_encode_byte_le (framing : Framing) {content longer : Bytes}
    (h : content.length ≤ longer.length) :
    (Framing.byte.encode content).length ≤ (framing.encode longer).length := by
  have hmono := Nested.length_write_mono h
  have hbyte : (Framing.byte.indicator content).length ≤ (framing.indicator longer).length := by
    cases framing with
    | byte => exact hmono
    | text =>
      have hle := Nested.length_write_le_numeral longer.length
      show (Nested.write content.length).length ≤ (TextIndicator.write longer).length
      rw [TextIndicator.write, List.length_append, List.length_singleton]
      omega
  rw [encode, encode, List.length_append, List.length_append]
  omega

end FramedStore
