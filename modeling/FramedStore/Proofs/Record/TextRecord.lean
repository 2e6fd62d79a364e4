import FramedStore.Proofs.Effect.Checks
import FramedStore.Proofs.Record.Framing
import FramedStore.Proofs.Text.Utf8

/-!
# Text records end where they say

A text that starts with a text record tells which one: `encode_append_inj`. The digits of the length
end at the guard, which is a letter, and the length says where the record's text ends.
-/

namespace FramedStore

namespace TextRecord

open TextIndicator

/-- The guard of a text as a character. -/
def guardOf (text : String) : Char :=
  Char.ofNat (guardFor (Utf8.encode text).length (Utf8.encode text).head?).toNat

theorem toNat_ofNat (byte : UInt8) : (Char.ofNat byte.toNat).toNat = byte.toNat := by
  have hvalid : byte.toNat.isValidChar := by
    have hlt := byte.toNat_lt
    exact .inl (by omega)
  rw [Char.ofNat, dif_pos hvalid]
  rfl

theorem isDigit_guardOf (text : String) : (guardOf text).isDigit = false := by
  have hguard := isGuard_guardFor (Utf8.encode text).length (Utf8.encode text).head?
  have hletter := isGuard_iff.mp hguard
  have hnine : ('9' : Char).toNat = 57 := rfl
  rw [Bool.eq_false_iff, Ne, Char.isDigit_iff_toNat, guardOf, toNat_ofNat, hnine]
  omega

theorem encode_eq (text : String) :
    encode text = (Utf8.encode text).length.repr ++ String.singleton (guardOf text) ++ text := rfl

theorem toList_encode_append (text rest : String) :
    (encode text ++ rest).toList =
      Nat.toDigits 10 (Utf8.encode text).length ++ guardOf text :: (text ++ rest).toList := by
  rw [encode_eq]
  simp only [String.toList_append, Nat.toList_repr, String.toList_singleton, List.append_assoc,
    List.cons_append, List.nil_append]

theorem takeWhile_encode_append (text rest : String) :
    (encode text ++ rest).toList.takeWhile Char.isDigit =
      Nat.toDigits 10 (Utf8.encode text).length := by
  have hdigits : ∀ c ∈ Nat.toDigits 10 (Utf8.encode text).length, c.isDigit :=
    fun c hc => Nat.isDigit_of_mem_toDigits (by decide) (by decide) hc
  rw [toList_encode_append, List.takeWhile_append_of_pos hdigits,
    List.takeWhile_cons_of_neg (by simp [isDigit_guardOf]), List.append_nil]

/-- **A text that starts with a text record tells which one.** -/
theorem encode_append_inj {s t rest rest' : String}
    (h : encode s ++ rest = encode t ++ rest') : s = t ∧ rest = rest' := by
  have hdigits : Nat.toDigits 10 (Utf8.encode s).length =
      Nat.toDigits 10 (Utf8.encode t).length := by
    rw [← takeWhile_encode_append s rest, ← takeWhile_encode_append t rest', h]
  have hlength : (Utf8.encode s).length = (Utf8.encode t).length := by
    have hvalue := congrArg (Nat.ofDigitChars 10 · 0) hdigits
    rwa [Nat.ofDigitChars_toDigits (by decide) (by decide),
      Nat.ofDigitChars_toDigits (by decide) (by decide)] at hvalue
  have hlist := congrArg String.toList h
  rw [toList_encode_append, toList_encode_append, hdigits, List.append_cancel_left_eq,
    List.cons.injEq, String.toList_inj] at hlist
  have hbytes := congrArg Utf8.encode hlist.2
  rw [Utf8.encode_append, Utf8.encode_append] at hbytes
  obtain ⟨htext, hrest⟩ := List.append_inj hbytes hlength
  exact ⟨Utf8.encode_inj.mp htext, Utf8.encode_inj.mp hrest⟩

/-! ### The bytes of a text record -/

theorem encode_digitChar {d : Nat} (h : d < 10) :
    Utf8.encode (String.singleton d.digitChar) = [Decimal.digitByte d] := by
  have hall : ∀ d < 10, d.digitChar.toNat < 128 ∧
      UInt8.ofNat d.digitChar.toNat = Decimal.digitByte d := by
    decide
  obtain ⟨hsmall, hbyte⟩ := hall d h
  rw [Utf8.encode_singleton hsmall, hbyte]

theorem encode_repr (n : Nat) : Utf8.encode n.repr = Decimal.numeral n := by
  rw [Nat.repr_eq_ofList_toDigits]
  induction n using Decimal.numeral.induct with
  | case1 n h =>
    rw [Nat.toDigits_of_lt_base h, Decimal.numeral_of_lt h]
    exact encode_digitChar h
  | case2 n h ih =>
    have hle := Nat.le_of_not_lt h
    rw [Nat.toDigits_of_base_le (by decide) hle, Decimal.numeral_of_le hle, String.ofList_append,
      Utf8.encode_append, ih]
    exact congrArg _ (encode_digitChar (Nat.mod_lt _ (by decide)))

/-- The text record of a text is the record of its bytes, as a text. -/
theorem encode_encode (text : String) :
    Utf8.encode (encode text) = Framing.text.encode (Utf8.encode text) := by
  have hguard := isGuard_guardFor (Utf8.encode text).length (Utf8.encode text).head?
  have hletter : (guardOf text).toNat =
      (guardFor (Utf8.encode text).length (Utf8.encode text).head?).toNat := toNat_ofNat _
  have hsmall : (guardOf text).toNat < 128 := by
    rw [hletter]
    have := isGuard_iff.mp hguard
    omega
  rw [encode_eq, Utf8.encode_append, Utf8.encode_append, encode_repr, Utf8.encode_singleton hsmall,
    hletter, UInt8.ofNat_toNat]
  rfl

/-- **A text is split behind the text record that it starts with.** -/
theorem splitFirst?_eq_ok {tag text rest : String} (hfits : (Utf8.encode tag).length < Offset.range) :
    splitFirst? tag = .ok (some (text, rest)) ↔ tag = encode text ++ rest := by
  have hbytes : tag = encode text ++ rest ↔
      Utf8.encode tag = Framing.text.encode (Utf8.encode text) ++ Utf8.encode rest := by
    rw [← encode_encode, ← Utf8.encode_append, Utf8.encode_inj]
  rw [hbytes, splitFirst?, Checks.bind_eq_ok]
  constructor
  · rintro ⟨_ | ⟨content, after⟩, hsplit, hdecode⟩
    · cases hdecode
    · rcases hcontent : Utf8.decode? content with _ | s <;>
        rcases hafter : Utf8.decode? after with _ | t <;>
        simp only [hcontent, hafter] at hdecode <;> cases hdecode
      rw [← Utf8.decode?_eq_some_iff.mp hcontent, ← Utf8.decode?_eq_some_iff.mp hafter]
      exact (Framing.eq_encode_of_splitFirst? hsplit).2
  · intro htag
    have hshort : (Utf8.encode text).length < Offset.range := by
      rw [htag, Framing.encode, List.length_append, List.length_append] at hfits
      omega
    refine ⟨some (Utf8.encode text, Utf8.encode rest), ?_, ?_⟩
    · rw [htag]
      exact Framing.splitFirst?_encode_append hshort _
    · simp only [Utf8.decode?_encode]
      rfl

end TextRecord

end FramedStore
