import FramedStore.Proofs.Record.Framing
import FramedStore.Proofs.Record.Trailer

/-!
# Indicators are canonical

Whatever bytes there are, and whether or not there is as much content, an indicator is read off them
just where the one spelling of a 64-bit length stands (`ReadsExactly`). It is short, so that a window at
the end of the bytes it is read from is enough. This holds of both kinds of indicator and of trailers
(`indicators_canonical`).
-/

namespace FramedStore

/-- An indicator of one of the 64-bit lengths is read, with its own length, just where one stands, and
all other bytes are refused: `marks` tells the indicators of a length, and `stands` whether one stands at
the end of the bytes that it is read from. None is longer than `longest`, so that reading in a window
gives what reading gives. -/
structure ReadsExactly (read : Bytes → Except Malformation Indicator) (marks : Nat → Bytes → Prop)
    (stands : Bytes → Bytes → Prop) (window : Bytes → Bytes) (longest : Nat) : Prop where
  reads : ∀ bytes header length, read bytes = .ok ⟨header, length⟩ ↔
    length < Offset.range ∧ ∃ indicator, marks length indicator ∧ stands indicator bytes ∧
      header = indicator.length
  refuses : ∀ bytes, (∃ cause, read bytes = .error cause) ↔
    ∀ length < Offset.range, ∀ indicator, marks length indicator → ¬ stands indicator bytes
  short : ∀ length < Offset.range, ∀ indicator, marks length indicator → indicator.length ≤ longest
  inWindow : ∀ bytes, (read (window bytes)).toOption = (read bytes).toOption

/-- It is enough that what stands is read, and that what is read stands. -/
theorem readsExactly_of_stands {read : Bytes → Except Malformation Indicator}
    {marks : Nat → Bytes → Prop} {stands : Bytes → Bytes → Prop} {window : Bytes → Bytes}
    {longest : Nat}
    (hread : ∀ bytes length indicator, length < Offset.range → marks length indicator →
      stands indicator bytes → read bytes = .ok ⟨indicator.length, length⟩)
    (hfound : ∀ bytes found, read bytes = .ok found → found.contentLength < Offset.range ∧
      ∃ indicator, marks found.contentLength indicator ∧ stands indicator bytes ∧
        found.headerLength = indicator.length)
    (hshort : ∀ length < Offset.range, ∀ indicator, marks length indicator →
      indicator.length ≤ longest)
    (hwindow : ∀ indicator bytes, indicator.length ≤ longest →
      (stands indicator (window bytes) ↔ stands indicator bytes)) :
    ReadsExactly read marks stands window longest := by
  have hreads : ∀ bytes header length, read bytes = .ok ⟨header, length⟩ ↔
      length < Offset.range ∧ ∃ indicator, marks length indicator ∧ stands indicator bytes ∧
        header = indicator.length := by
    intro bytes header length
    constructor
    · exact hfound bytes ⟨header, length⟩
    · rintro ⟨hlt, indicator, hmarks, hstands, rfl⟩
      exact hread bytes length indicator hlt hmarks hstands
  refine ⟨hreads, fun bytes => ⟨?_, fun hnone => ?_⟩, hshort, fun bytes => ?_⟩
  · rintro ⟨cause, hcause⟩ length hlt indicator hmarks hstands
    cases hcause.symm.trans (hread bytes length indicator hlt hmarks hstands)
  · cases h : read bytes with
    | error cause => exact ⟨cause, rfl⟩
    | ok found =>
      obtain ⟨hlt, indicator, hmarks, hstands, -⟩ := hfound bytes found h
      exact absurd hstands (hnone _ hlt indicator hmarks)
  · -- an indicator that stands in the window stands in the bytes, and the other way round
    refine Option.ext fun ⟨header, length⟩ => ?_
    have hoption : ∀ x : Except Malformation Indicator,
        x.toOption = some ⟨header, length⟩ ↔ x = .ok ⟨header, length⟩ := by
      rintro (_ | _) <;> simp [Except.toOption]
    rw [hoption, hoption, hreads, hreads]
    refine and_congr_right fun hlt => exists_congr fun indicator => and_congr_right fun hmarks => ?_
    rw [hwindow indicator bytes (hshort length hlt indicator hmarks)]

/-! ### The three kinds -/

theorem isPrefix_take_iff {indicator bytes : Bytes} {longest : Nat} (h : indicator.length ≤ longest) :
    indicator <+: bytes.take longest ↔ indicator <+: bytes :=
  ⟨fun hfront => hfront.trans (List.take_prefix _ _), fun hfront =>
    List.prefix_take_iff.mpr ⟨hfront, h⟩⟩

theorem isSuffix_drop_iff {indicator bytes : Bytes} {longest : Nat} (h : indicator.length ≤ longest) :
    indicator <:+ bytes.drop (bytes.length - longest) ↔ indicator <:+ bytes := by
  refine ⟨fun hend => hend.trans (List.drop_suffix _ _), fun hend => ?_⟩
  refine List.suffix_of_suffix_length_le hend (List.drop_suffix _ _) ?_
  have hle := hend.length_le
  rw [List.length_drop]
  omega

namespace TextIndicator

/-- The guards are the 52 letters. -/
theorem exists_guardLetter {byte : UInt8} (h : isGuard byte) :
    ∃ index < 52, guardLetter index = byte := by
  have hlt := byte.toNat_lt
  rcases isGuard_iff.mp h with ⟨hlow, hhigh⟩ | ⟨hlow, hhigh⟩
  · refine ⟨byte.toNat - 97, by omega, ?_⟩
    rw [guardLetter, if_pos (by omega), Nat.add_sub_cancel' hlow, UInt8.ofNat_toNat]
  · refine ⟨byte.toNat - 39, by omega, ?_⟩
    rw [guardLetter, if_neg (by omega), Nat.add_sub_cancel' (by omega), UInt8.ofNat_toNat]

end TextIndicator

theorem readsExactly_byte : ReadsExactly Framing.byte.readIndicator
    (fun length indicator => indicator = Nested.write length) (· <+: ·)
    (List.take Framing.byte.maxIndicator) Framing.byte.maxIndicator := by
  refine readsExactly_of_stands ?_ ?_ ?_ fun indicator bytes h => isPrefix_take_iff h
  · rintro bytes length _ hlt rfl hfront
    exact Nested.read_of_isPrefix (fun _ => rfl) (fun _ => rfl) hlt hfront
  · intro bytes found h
    obtain ⟨hlt, hheader, hfront⟩ := Nested.spelling_of_read (fun _ => rfl) (fun _ => rfl) h
    exact ⟨hlt, _, rfl, hfront, hheader⟩
  · rintro length hlt _ rfl
    exact Nested.length_spelling_le (fun _ => rfl) hlt

theorem readsExactly_trailer : ReadsExactly Trailer.read
    (fun length trailer => trailer = Nested.writeBack length) (· <:+ ·)
    (fun bytes => bytes.drop (bytes.length - Trailer.maxLength)) Trailer.maxLength := by
  refine readsExactly_of_stands ?_ ?_ ?_ fun indicator bytes h => isSuffix_drop_iff h
  · rintro bytes length _ hlt rfl hend
    exact Trailer.read_of_isSuffix hlt hend
  · intro bytes found h
    obtain ⟨hlt, hheader, hend⟩ := Trailer.writeBack_of_read h
    exact ⟨hlt, _, rfl, hend, hheader⟩
  · rintro length hlt _ rfl
    exact Trailer.length_writeBack_le hlt

theorem readsExactly_text : ReadsExactly Framing.text.readIndicator
    (fun length indicator => ∃ index < 52,
      indicator = Decimal.numeral length ++ [TextIndicator.guardLetter index]) (· <+: ·)
    (List.take Framing.text.maxIndicator) Framing.text.maxIndicator := by
  refine readsExactly_of_stands ?_ ?_ ?_ fun indicator bytes h => isPrefix_take_iff h
  · rintro bytes length _ hlt ⟨index, hindex, rfl⟩ hfront
    rw [List.length_append]
    exact TextIndicator.read_of_isPrefix hlt (TextIndicator.isGuard_guardLetter hindex) hfront
  · intro bytes found h
    obtain ⟨hlt, hheader, guard, hguard, hfront⟩ := TextIndicator.numeral_of_read h
    obtain ⟨index, hindex, rfl⟩ := TextIndicator.exists_guardLetter hguard
    exact ⟨hlt, _, ⟨index, hindex, rfl⟩, hfront, by rw [hheader, List.length_append]; rfl⟩
  · rintro length hlt _ ⟨index, -, rfl⟩
    rw [List.length_append]
    exact Nat.succ_le_succ (TextIndicator.length_numeral_le hlt)

/-- **Indicators and trailers are canonical**, over all 64-bit lengths and all byte strings. A nested
length is read from the front where `Nested.write` has put it, a decimal length where it is followed by one
of the 52 letters, and a trailer from the end where `Nested.writeBack` has put it, with the place where it
begins. Windows of 10, 21 and 10 bytes are enough for this. -/
theorem indicators_canonical :
    ReadsExactly Framing.byte.readIndicator (fun length indicator => indicator = Nested.write length)
        (· <+: ·) (List.take 10) 10 ∧
      ReadsExactly Framing.text.readIndicator
        (fun length indicator => ∃ index < 52,
          indicator = Decimal.numeral length ++ [TextIndicator.guardLetter index])
        (· <+: ·) (List.take 21) 21 ∧
      ReadsExactly Trailer.read (fun length trailer => trailer = Nested.writeBack length)
        (· <:+ ·) (fun bytes => bytes.drop (bytes.length - 10)) 10 ∧
      (∀ bytes index length, (∃ found, Trailer.read bytes = .ok found ∧
          bytes.length - found.headerLength = index ∧ found.contentLength = length) ↔
        length < Offset.range ∧ Nested.writeBack length <:+ bytes ∧
          index = bytes.length - (Nested.writeBack length).length) ∧
      Framing.byte.maxIndicator = 10 ∧ Framing.text.maxIndicator = 21 ∧ Trailer.maxLength = 10 := by
  refine ⟨readsExactly_byte, readsExactly_text, readsExactly_trailer, fun bytes index length => ?_,
    rfl, rfl, rfl⟩
  constructor
  · rintro ⟨found, h, rfl, rfl⟩
    obtain ⟨hlt, hheader, hend⟩ := Trailer.writeBack_of_read h
    exact ⟨hlt, hend, by rw [hheader]⟩
  · rintro ⟨hlt, hend, rfl⟩
    exact ⟨_, Trailer.read_of_isSuffix hlt hend, rfl, rfl⟩

/-- The longest trailer, and a nested length that says its own width by a nested length. -/
example : Trailer.read (97 :: List.replicate 8 255 ++ [8, 255]) = .ok ⟨10, Offset.range - 1⟩ ∧
    Framing.byte.readIndicator [255, 255, 1, 255, 0] = .error (.lengthWidth 255) := by
  decide

end FramedStore
