import FramedStore.Proofs.Bytes.Digits
import FramedStore.Proofs.Effect.Checks
import FramedStore.Record.Nested

/-!
# Nested lengths read back

`read` accepts exactly the spellings of the 64-bit lengths (`read_of_isPrefix`, `spelling_of_read`),
whichever end of a byte string they are read from: `order` is the identity in front of a content and
the reversal behind it.
-/

namespace FramedStore.Nested

open Checks

/-- The bytes of a length in the order in which they are read. -/
def spelling (order : Bytes → Bytes) (length : Nat) : Bytes :=
  if length < 255 then [UInt8.ofNat length]
  else marker :: UInt8.ofNat (Bytes.digits length).length :: order (Bytes.digits length)

theorem reverse_writeBack (length : Nat) :
    (writeBack length).reverse = spelling List.reverse length := by
  unfold writeBack spelling
  split <;> simp

/-! ### The parts of a length -/

theorem ofNat_ne_marker {n : Nat} (h : n < 255) : UInt8.ofNat n ≠ marker := by
  rw [← UInt8.toNat_inj.ne, UInt8.toNat_ofNat', show marker.toNat = 255 from rfl]
  omega

theorem toNat_lt_of_ne_marker {byte : UInt8} (h : byte ≠ marker) : byte.toNat < 255 := by
  have hlt := byte.toNat_lt
  have hne : byte.toNat ≠ marker.toNat := UInt8.toNat_inj.ne.mpr h
  rw [show marker.toNat = 255 from rfl] at hne
  omega

theorem readDigits_eq_ok {ds : Bytes} {length : Nat} :
    readDigits ds = .ok length ↔ 255 ≤ length ∧ ds = Bytes.digits length := by
  unfold readDigits
  constructor
  · intro h
    split at h
    · cases h
    · rename_i hhead
      dsimp only at h
      split at h
      · cases h
      · obtain rfl := Except.ok.inj h
        exact ⟨by omega, (Bytes.digits_value hhead).symm⟩
  · rintro ⟨hle, rfl⟩
    rw [if_neg (Bytes.leads_iff.mp (Bytes.leads_digits _))]
    simp [show ¬ length < 255 by omega]

variable {short : Malformation} {order : Bytes → Bytes} {found : Indicator}

theorem read_cons {byte : UInt8} {rest : Bytes} (h : byte ≠ marker) :
    read short order (byte :: rest) = .ok ⟨1, byte.toNat⟩ := by
  rw [read, if_pos h]

/-- What a length of several bytes is made of. -/
theorem read_marker_eq_ok {rest : Bytes} :
    read short order (marker :: rest) = .ok found ↔
      ∃ inner, read short order rest = .ok inner ∧
        ¬ (inner.contentLength = 0 ∨ maxWidth < inner.contentLength) ∧
        inner.contentLength ≤ (rest.drop inner.headerLength).length ∧
        255 ≤ found.contentLength ∧
        order ((rest.drop inner.headerLength).take inner.contentLength) =
          Bytes.digits found.contentLength ∧
        found.headerLength = 1 + inner.headerLength + inner.contentLength := by
  obtain ⟨header, length⟩ := found
  rw [read, if_neg (not_not_intro rfl)]
  simp only [bind_eq_ok, refuse_eq_ok, readDigits_eq_ok, pure_eq_ok, Indicator.mk.injEq,
    List.length_take]
  constructor
  · rintro ⟨inner, hinner, hwidth, hlen, n, ⟨hle, hds⟩, hheader, rfl⟩
    exact ⟨inner, hinner, hwidth, by omega, hle, hds, hheader.symm⟩
  · rintro ⟨inner, hinner, hwidth, hlen, hle, hds, hheader⟩
    exact ⟨inner, hinner, hwidth, by omega, length, ⟨hle, hds⟩, hheader.symm, rfl⟩

/-- A number of digits that is accepted is a single byte. -/
theorem single_of_read {rest : Bytes} (h : read short order rest = .ok found)
    (hle : found.contentLength ≤ maxWidth) :
    ∃ byte tail, rest = byte :: tail ∧ byte ≠ marker ∧ found = ⟨1, byte.toNat⟩ := by
  obtain _ | ⟨byte, tail⟩ := rest
  · simp [read] at h
  by_cases hbyte : byte = marker
  · subst hbyte
    obtain ⟨_, -, -, -, h255, -⟩ := read_marker_eq_ok.mp h
    unfold maxWidth at hle
    omega
  · rw [read_cons hbyte] at h
    exact ⟨byte, tail, rfl, hbyte, (Except.ok.inj h).symm⟩

/-! ### Exactly the spellings are read -/

theorem length_spelling_le (hlength : ∀ ds, (order ds).length = ds.length) {length : Nat}
    (h : length < Offset.range) : (spelling order length).length ≤ maxWidth + 2 := by
  unfold spelling
  split
  · simp
  · have hle : (Bytes.digits length).length ≤ maxWidth := Bytes.length_digits_le h
    simpa [hlength] using hle

theorem lt_range_of_length_digits {length : Nat} (h : (Bytes.digits length).length ≤ maxWidth) :
    length < Offset.range := by
  have hlt := Bytes.value_lt (Bytes.digits length)
  rw [Bytes.value_digits] at hlt
  exact Nat.lt_of_lt_of_le hlt (Nat.pow_le_pow_right (by decide) h)

section Spelling

variable (hlength : ∀ ds, (order ds).length = ds.length) (hinvol : ∀ ds, order (order ds) = ds)
include hlength hinvol

theorem read_of_isPrefix {length : Nat} (h : length < Offset.range) {bytes : Bytes}
    (hfront : spelling order length <+: bytes) :
    read short order bytes = .ok ⟨(spelling order length).length, length⟩ := by
  obtain ⟨rest, rfl⟩ := hfront
  unfold spelling
  by_cases hlt : length < 255
  · have htoNat : (UInt8.ofNat length).toNat = length := by
      rw [UInt8.toNat_ofNat']
      omega
    rw [if_pos hlt, List.cons_append, read_cons (ofNat_ne_marker hlt), htoNat]
    rfl
  · have hwidth : (Bytes.digits length).length ≤ maxWidth := Bytes.length_digits_le h
    have hpos := Bytes.length_digits_pos (by omega : length ≠ 0)
    unfold maxWidth at hwidth
    rw [if_neg hlt, List.cons_append, List.cons_append]
    generalize hds : Bytes.digits length = ds at hwidth hpos ⊢
    have htoNat : (UInt8.ofNat ds.length).toNat = ds.length := by
      rw [UInt8.toNat_ofNat']
      omega
    refine read_marker_eq_ok.mpr
      ⟨_, read_cons (ofNat_ne_marker (by omega : ds.length < 255)), ?_, ?_, by simp; omega, ?_, ?_⟩
    · simp only [htoNat, maxWidth]
      omega
    · simp [htoNat, hlength]
    · have htake : (order ds ++ rest).take ds.length = order ds :=
        List.take_left' (hlength ds)
      simp only [htoNat, List.drop_succ_cons, List.drop_zero, htake, hinvol, hds]
    · simp [htoNat, hlength]
      omega

theorem spelling_of_read {bytes : Bytes} (h : read short order bytes = .ok found) :
    found.contentLength < Offset.range ∧
      found.headerLength = (spelling order found.contentLength).length ∧
      spelling order found.contentLength <+: bytes := by
  obtain _ | ⟨byte, bytes⟩ := bytes
  · simp [read] at h
  by_cases hbyte : byte = marker
  · subst hbyte
    obtain ⟨inner, hinner, hwidth, hlen, h255, hds, hheader⟩ := read_marker_eq_ok.mp h
    obtain ⟨width, tail, rfl, -, rfl⟩ := single_of_read hinner (by omega)
    simp only [List.drop_succ_cons, List.drop_zero] at hwidth hlen hds hheader
    have htake : (tail.take width.toNat).length = width.toNat := List.length_take_of_le hlen
    have hnum : (Bytes.digits found.contentLength).length = width.toNat := by
      rw [← hds, hlength, htake]
    have hspell : spelling order found.contentLength =
        marker :: width :: tail.take width.toNat := by
      rw [spelling, if_neg (by omega), hnum, ← hds, hinvol, UInt8.ofNat_toNat]
    rw [hspell]
    refine ⟨lt_range_of_length_digits (by rw [hnum]; omega), ?_, tail.drop width.toNat, ?_⟩
    · rw [hheader, List.length_cons, List.length_cons, htake]
      omega
    · rw [List.cons_append, List.cons_append, List.take_append_drop]
  · rw [read_cons hbyte] at h
    obtain rfl := Except.ok.inj h
    have hlt := toNat_lt_of_ne_marker hbyte
    have hspell : spelling order byte.toNat = [byte] := by
      rw [spelling, if_pos hlt, UInt8.ofNat_toNat]
    rw [hspell]
    exact ⟨Nat.lt_of_lt_of_le hlt (by decide), rfl, bytes, rfl⟩

end Spelling

end FramedStore.Nested
