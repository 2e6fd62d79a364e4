import FramedStore.Proofs.Bytes.Digits
import FramedStore.Text.Decimal

/-!
# Decimal numerals

The two directions of decimal numerals: `value_numeral` (a numeral stands for its number) and
`numeral_value` (digits without a leading zero are the numeral of the number they stand for).
-/

namespace FramedStore.Decimal

/-- The number of a digit's byte. -/
def digit (byte : UInt8) : Nat := byte.toNat - 48

theorem value_eq (ds : Bytes) : value ds = Positional.value 10 digit ds := rfl

theorem isDigit_iff {byte : UInt8} : isDigit byte ↔ 48 ≤ byte.toNat ∧ byte.toNat ≤ 57 := by
  simp [isDigit, UInt8.le_iff_toNat_le]

theorem toNat_digitByte {d : Nat} (h : d < 10) : (digitByte d).toNat = 48 + d := by
  rw [digitByte, UInt8.toNat_ofNat']
  omega

theorem isDigit_digitByte {d : Nat} (h : d < 10) : isDigit (digitByte d) := by
  rw [isDigit_iff, toNat_digitByte h]
  omega

theorem digit_digitByte {d : Nat} (h : d < 10) : digit (digitByte d) = d := by
  rw [digit, toNat_digitByte h]
  omega

theorem digitByte_digit {byte : UInt8} (h : isDigit byte) : digitByte (digit byte) = byte := by
  obtain ⟨h1, h2⟩ := isDigit_iff.mp h
  rw [← UInt8.toNat_inj, toNat_digitByte (by unfold digit; omega), digit]
  omega

theorem digit_lt {byte : UInt8} (h : isDigit byte) : digit byte < 10 := by
  obtain ⟨h1, h2⟩ := isDigit_iff.mp h
  unfold digit
  omega

theorem digit_inj {b c : UInt8} (hb : isDigit b) (hc : isDigit c) (h : digit b = digit c) :
    b = c := by
  rw [← digitByte_digit hb, h, digitByte_digit hc]

theorem numeral_of_lt {n : Nat} (h : n < 10) : numeral n = [digitByte n] := by
  rw [numeral, if_pos h]

theorem numeral_of_le {n : Nat} (h : 10 ≤ n) :
    numeral n = numeral (n / 10) ++ [digitByte (n % 10)] := by
  rw [numeral, if_neg (by omega)]

theorem numeral_ne_nil (n : Nat) : numeral n ≠ [] := by
  rw [numeral]
  split <;> simp

theorem isDigit_of_mem_numeral {n : Nat} : ∀ byte ∈ numeral n, isDigit byte := by
  induction n using numeral.induct with
  | case1 n h =>
    rw [numeral_of_lt h]
    simpa using isDigit_digitByte h
  | case2 n h ih =>
    rw [numeral_of_le (by omega)]
    intro byte hb
    rcases List.mem_append.mp hb with hb | hb
    · exact ih byte hb
    · rw [List.mem_singleton.mp hb]
      exact isDigit_digitByte (Nat.mod_lt _ (by decide))

@[simp] theorem value_numeral (n : Nat) : value (numeral n) = n := by
  induction n using numeral.induct with
  | case1 n h =>
    rw [numeral_of_lt h, value_eq, Positional.value_cons, digit_digitByte h]
    simp [Positional.value]
  | case2 n h ih =>
    have hd := digit_digitByte (Nat.mod_lt n (by decide : 0 < 10))
    rw [numeral_of_le (by omega), value_eq, Positional.value_append, ← value_eq, ih]
    simp only [Positional.value, List.foldl_cons, List.foldl_nil, List.length_singleton, hd]
    omega

theorem leads_numeral {n : Nat} (hn : n ≠ 0) : Positional.Leads digit (numeral n) := by
  induction n using numeral.induct with
  | case1 n h =>
    rw [numeral_of_lt h]
    simpa [Positional.Leads, digit_digitByte h] using hn
  | case2 n h ih =>
    rw [numeral_of_le (by omega)]
    obtain ⟨d, ds, hds⟩ := List.exists_cons_of_ne_nil (numeral_ne_nil (n / 10))
    have ih := ih (by omega)
    rw [hds] at ih ⊢
    exact ih

/-- Digits without a leading zero: a single digit, or several of which the first is not zero. -/
def IsNumeral (ds : Bytes) : Prop :=
  ds ≠ [] ∧ (∀ byte ∈ ds, isDigit byte) ∧ (1 < ds.length → ds.head? ≠ some (digitByte 0))

/-- Digits without a leading zero are the numeral of the number they stand for. -/
theorem numeral_value {ds : Bytes} (h : IsNumeral ds) : numeral (value ds) = ds := by
  obtain ⟨hne, hdigits, hhead⟩ := h
  obtain ⟨d, ds, rfl⟩ := List.exists_cons_of_ne_nil hne
  have hd := hdigits d (List.mem_cons_self ..)
  obtain rfl | ⟨e, es, rfl⟩ : ds = [] ∨ ∃ e es, ds = e :: es := by
    cases ds <;> simp
  · have hv : value [d] = digit d := by simp [value, digit]
    rw [hv, numeral_of_lt (digit_lt hd), digitByte_digit hd]
  · have hleads : Positional.Leads digit (d :: e :: es) := by
      intro c hc h0
      obtain rfl : d = c := by simpa using hc
      refine hhead (by simp) ?_
      rw [← h0, digitByte_digit hd]
      rfl
    have hpos : value (d :: e :: es) ≠ 0 := by
      have hle : 10 ^ (e :: es).length ≤ value (d :: e :: es) := Positional.pow_le_value hleads
      have : 0 < 10 ^ (e :: es).length := Nat.pow_pos (by decide)
      omega
    have hmem {n : Nat} : ∀ byte ∈ numeral n, isDigit byte := isDigit_of_mem_numeral
    refine Positional.value_inj (by decide : 0 < 10) (fun c hc => digit_lt (hmem c hc))
      (fun c hc => digit_lt (hdigits c hc))
      (fun c hc b hb => digit_inj (hmem c hc) (hdigits b hb)) (leads_numeral hpos) hleads ?_
    exact value_numeral _

theorem isNumeral_numeral (n : Nat) : IsNumeral (numeral n) := by
  refine ⟨numeral_ne_nil n, isDigit_of_mem_numeral, fun hlen hhead => ?_⟩
  by_cases hn : n = 0
  · rw [hn, numeral_of_lt (by decide)] at hlen
    simp at hlen
  · exact leads_numeral hn _ hhead (digit_digitByte (by decide))

/-- A number below `10 ^ width` has at most `width` digits. -/
theorem length_numeral_le {n width : Nat} (hw : 0 < width) (h : n < 10 ^ width) :
    (numeral n).length ≤ width := by
  by_cases hn : n = 0
  · rw [hn, numeral_of_lt (by decide)]
    exact hw
  by_contra hlt
  obtain ⟨d, ds, hds⟩ := List.exists_cons_of_ne_nil (numeral_ne_nil n)
  have hle : 10 ^ ds.length ≤ value (numeral n) := by
    rw [hds]
    exact Positional.pow_le_value (hds ▸ leads_numeral hn)
  have hwidth : 10 ^ width ≤ 10 ^ ds.length := by
    refine Nat.pow_le_pow_right (by decide) ?_
    simp only [hds, List.length_cons] at hlt
    omega
  rw [value_numeral] at hle
  omega

end FramedStore.Decimal
