import FramedStore.Text.Utf8

/-!
# Text and its bytes

`decode?` accepts exactly the bytes of a text: `decode?_eq_some_iff`. So the bytes of a text determine
it, and reading them back cannot fail.
-/

namespace FramedStore.Utf8

theorem toList_loop (bytes : ByteArray) (i : Nat) (found : List UInt8) :
    ByteArray.toList.loop bytes i found = found.reverse ++ bytes.data.toList.drop i := by
  fun_induction ByteArray.toList.loop bytes i found with
  | case1 i found h ih =>
    have hi : i < bytes.data.toList.length := h
    have hget : bytes.get! i = bytes.data.toList[i] := getElem!_pos bytes.data i h
    rw [ih, hget, List.reverse_cons, List.append_assoc, List.singleton_append,
      List.getElem_cons_drop]
  | case2 i found h =>
    have hi : bytes.data.toList.length ≤ i := Nat.le_of_not_lt h
    rw [List.drop_eq_nil_of_le hi, List.append_nil]

theorem encode_eq (text : String) : encode text = text.toByteArray.data.toList := by
  unfold encode ByteArray.toList
  rw [toList_loop]
  rfl

theorem encode_append (s t : String) : encode (s ++ t) = encode s ++ encode t := by
  rw [encode_eq, encode_eq, encode_eq, String.toByteArray_append, ByteArray.data_append,
    Array.toList_append]

theorem encode_toString (c : Char) : encode c.toString = String.utf8EncodeChar c := by
  rw [encode_eq]
  show (String.singleton c).toByteArray.data.toList = _
  rw [String.toByteArray_singleton, List.utf8Encode, List.data_toByteArray,
    List.flatMap_singleton]

/-- The bytes of a text are those of its characters. -/
theorem encode_ofList (chars : List Char) :
    encode (String.ofList chars) = chars.flatMap fun c => encode c.toString := by
  simp only [encode_toString]
  rw [encode_eq, String.toByteArray_ofList, List.utf8Encode, List.data_toByteArray]

/-- The byte of an ASCII character is its number. -/
theorem encode_singleton {c : Char} (h : c.toNat < 128) :
    encode (String.singleton c) = [UInt8.ofNat c.toNat] :=
  (encode_toString c).trans (if_pos (Nat.le_of_lt_succ h))

theorem encode_inj {s t : String} : encode s = encode t ↔ s = t := by
  rw [encode_eq, encode_eq, Array.toList_inj, ← String.toByteArray_inj, ByteArray.ext_iff]

theorem decode?_eq_some_iff {bytes : Bytes} {text : String} :
    decode? bytes = some text ↔ bytes = encode text := by
  unfold decode? String.fromUTF8?
  rw [encode_eq]
  constructor
  · intro h
    split at h
    · obtain rfl := Option.some.inj h
      rfl
    · cases h
  · rintro rfl
    have hvalid : ByteArray.IsValidUTF8 ⟨text.toByteArray.data.toList.toArray⟩ :=
      text.isValidUTF8
    rw [dif_pos hvalid]
    rfl

@[simp] theorem decode?_encode (text : String) : decode? (encode text) = some text :=
  decode?_eq_some_iff.mpr rfl

theorem decode_eq_ok {bytes : Bytes} {text : String} :
    decode bytes = .ok text ↔ bytes = encode text := by
  rw [← decode?_eq_some_iff, decode]
  cases decode? bytes <;> simp

@[simp] theorem decode_encode (text : String) : decode (encode text) = .ok text := by
  simp [decode]

@[simp] theorem lossy_encode (text : String) : lossy (encode text) = text := by
  simp [lossy]

end FramedStore.Utf8
