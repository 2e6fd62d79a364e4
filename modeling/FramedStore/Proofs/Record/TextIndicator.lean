import FramedStore.Proofs.Effect.Checks
import FramedStore.Proofs.Text.Decimal
import FramedStore.Record.TextIndicator
import Mathlib.Data.List.TakeWhile

/-!
# Text indicators read back

`read` accepts exactly a decimal 64-bit length followed by a letter (`read_of_isPrefix`,
`numeral_of_read`), and `check` then accepts the one letter that belongs to the content.
-/

namespace FramedStore.TextIndicator

open Checks

/-! ### Guards -/

theorem isGuard_iff {byte : UInt8} :
    isGuard byte ↔ 97 ≤ byte.toNat ∧ byte.toNat ≤ 122 ∨ 65 ≤ byte.toNat ∧ byte.toNat ≤ 90 := by
  simp [isGuard, UInt8.le_iff_toNat_le]

theorem not_isDigit_of_isGuard {byte : UInt8} (h : isGuard byte) : ¬ Decimal.isDigit byte := by
  rw [isGuard_iff] at h
  rw [Decimal.isDigit_iff]
  omega

theorem isGuard_guardLetter {index : Nat} (h : index < 52) : isGuard (guardLetter index) := by
  rw [isGuard_iff]
  unfold guardLetter
  split
  · rw [UInt8.toNat_ofNat']
    omega
  · rw [UInt8.toNat_ofNat']
    omega

theorem isGuard_guardFor (length : Nat) (first : Option UInt8) : isGuard (guardFor length first) :=
  isGuard_guardLetter (Nat.mod_lt _ (by decide))

/-! ### Reading -/

theorem takeWhile_numeral {length : Nat} {guard : UInt8} (h : isGuard guard) (rest : Bytes) :
    (Decimal.numeral length ++ guard :: rest).takeWhile Decimal.isDigit =
      Decimal.numeral length := by
  rw [List.takeWhile_append_of_pos Decimal.isDigit_of_mem_numeral,
    List.takeWhile_cons_of_neg (not_isDigit_of_isGuard h), List.append_nil]

theorem length_numeral_le {length : Nat} (h : length < Offset.range) :
    (Decimal.numeral length).length ≤ maxDigits :=
  Decimal.length_numeral_le (by decide) (Nat.lt_trans h (by decide))

theorem read_of_isPrefix {bytes : Bytes} {length : Nat} {guard : UInt8} (h : length < Offset.range)
    (hguard : isGuard guard) (hfront : Decimal.numeral length ++ [guard] <+: bytes) :
    read bytes = .ok ⟨(Decimal.numeral length).length + 1, length⟩ := by
  obtain ⟨rest, rfl⟩ := hfront
  obtain ⟨hne, -, hlead⟩ := Decimal.isNumeral_numeral length
  have hlong := length_numeral_le h
  rw [List.append_assoc, List.singleton_append]
  simp only [read, takeWhile_numeral hguard, refuse_eq_ok, List.isEmpty_iff, hne,
    not_false_eq_true, true_and, not_and]
  refine ⟨by omega, hlead, ?_⟩
  rw [List.getElem?_append_right (Nat.le_refl _), Nat.sub_self]
  simp only [List.getElem?_cons_zero, require_eq_ok, refuse_eq_ok, Decimal.value_numeral,
    pure_eq_ok, and_true]
  exact ⟨hguard, by omega⟩

theorem append_singleton_isPrefix {front bytes : Bytes} {byte : UInt8} (h : front <+: bytes)
    (hget : bytes[front.length]? = some byte) : front ++ [byte] <+: bytes := by
  obtain ⟨rest, rfl⟩ := h
  rw [List.getElem?_append_right (Nat.le_refl _), Nat.sub_self] at hget
  obtain _ | ⟨c, rest⟩ := rest
  · simp at hget
  · obtain rfl : c = byte := by simpa using hget
    exact ⟨rest, by simp⟩

theorem numeral_of_read {bytes : Bytes} {found : Indicator} (h : read bytes = .ok found) :
    found.contentLength < Offset.range ∧
      found.headerLength = (Decimal.numeral found.contentLength).length + 1 ∧
      ∃ guard, isGuard guard ∧ Decimal.numeral found.contentLength ++ [guard] <+: bytes := by
  simp only [read, refuse_eq_ok, List.isEmpty_iff, not_and] at h
  obtain ⟨hne, hlong, hlead, h⟩ := h
  split at h
  · simp at h
  rename_i guard hget
  simp only [require_eq_ok, refuse_eq_ok, pure_eq_ok] at h
  obtain ⟨hguard, hlt, rfl⟩ := h
  have hnum : Decimal.IsNumeral (bytes.takeWhile Decimal.isDigit) :=
    ⟨hne, fun byte hb => List.mem_takeWhile_imp hb, hlead⟩
  have htake : bytes.takeWhile Decimal.isDigit <+: bytes :=
    List.takeWhile_prefix Decimal.isDigit
  rw [Decimal.numeral_value hnum]
  exact ⟨Nat.lt_of_not_le hlt, rfl, guard, hguard, append_singleton_isPrefix htake hget⟩

theorem check_eq_ok {bytes : Bytes} {indicator : Indicator} {first : Option UInt8} :
    check bytes indicator first = .ok () ↔
      bytes[indicator.headerLength - 1]? = some (guardFor indicator.contentLength first) := by
  unfold check
  split
  · simp [*]
  · rename_i found hfound
    rw [hfound]
    by_cases heq : found = guardFor indicator.contentLength first <;> simp [heq]

end FramedStore.TextIndicator
