import FramedStore.Proofs.Record.Nested
import FramedStore.Proofs.Record.TextIndicator
import FramedStore.Record.Framing

/-!
# Records taken off a byte string

For both framings, `splitFirst?` finds a record exactly where one was written
(`splitFirst?_canonical`): each record has one form, and what follows it does not matter.
-/

namespace FramedStore.Framing

open Checks

variable {framing : Framing} {content rest window bytes : Bytes} {found : Indicator}

/-! ### Indicators -/

theorem indicator_byte (content : Bytes) :
    Framing.byte.indicator content = Nested.spelling id content.length := rfl

theorem indicator_text (content : Bytes) :
    Framing.text.indicator content =
      Decimal.numeral content.length ++
        [TextIndicator.guardFor content.length content.head?] := rfl

theorem length_indicator_pos (framing : Framing) (content : Bytes) :
    0 < (framing.indicator content).length := by
  cases framing with
  | byte =>
    rw [indicator_byte, Nested.spelling]
    split <;> simp
  | text => simp [indicator_text]

theorem length_indicator_le (framing : Framing) (h : content.length < Offset.range) :
    (framing.indicator content).length ≤ framing.maxIndicator := by
  cases framing with
  | byte => exact Nested.length_spelling_le (fun _ => rfl) h
  | text => simpa [indicator_text, maxIndicator] using TextIndicator.length_numeral_le h

theorem readIndicator_of_isPrefix (h : content.length < Offset.range)
    (hfront : framing.indicator content <+: window) :
    framing.readIndicator window = .ok ⟨(framing.indicator content).length, content.length⟩ := by
  cases framing with
  | byte => exact Nested.read_of_isPrefix (fun _ => rfl) (fun _ => rfl) h hfront
  | text =>
    rw [indicator_text, List.length_append]
    exact TextIndicator.read_of_isPrefix h (TextIndicator.isGuard_guardFor _ _) hfront

theorem checkContent_of_isPrefix (hfront : framing.indicator content <+: window) :
    framing.checkContent window ⟨(framing.indicator content).length, content.length⟩
      content.head? = .ok () := by
  cases framing with
  | byte => rfl
  | text =>
    obtain ⟨rest, rfl⟩ := hfront
    refine TextIndicator.check_eq_ok.mpr ?_
    simp [indicator_text]

/-- An indicator that is read, and fits a content, is that content's. -/
theorem indicator_of_read (hread : framing.readIndicator window = .ok found)
    (hcheck : framing.checkContent window found content.head? = .ok ())
    (hlength : content.length = found.contentLength) :
    content.length < Offset.range ∧ framing.indicator content <+: window ∧
      found = ⟨(framing.indicator content).length, content.length⟩ := by
  obtain ⟨header, length⟩ := found
  obtain rfl : content.length = length := hlength
  cases framing with
  | byte =>
    obtain ⟨hlt, hheader, hfront⟩ := Nested.spelling_of_read (fun _ => rfl) (fun _ => rfl) hread
    exact ⟨hlt, hfront, congrArg (Indicator.mk · _) hheader⟩
  | text =>
    obtain ⟨hlt, hheader, guard, -, tail, rfl⟩ := TextIndicator.numeral_of_read hread
    have hguard := TextIndicator.check_eq_ok.mp hcheck
    dsimp only at hheader hguard hlt
    obtain rfl : guard = TextIndicator.guardFor content.length content.head? := by
      simpa [hheader] using hguard
    exact ⟨hlt, List.prefix_append _ _, by simp [indicator_text, hheader]⟩

/-! ### The first record -/

theorem encode_ne_nil (framing : Framing) (content : Bytes) : framing.encode content ≠ [] := by
  have h := length_indicator_pos framing content
  intro hnil
  simp [encode, List.length_pos_iff.mp h] at hnil

theorem splitFirst?_nil : framing.splitFirst? [] = .ok none := rfl

theorem splitFirst?_eq_ok (hne : bytes ≠ []) {answer : Option (Bytes × Bytes)} :
    framing.splitFirst? bytes = .ok answer ↔
      ∃ found, framing.readIndicator (bytes.take framing.maxIndicator) = .ok found ∧
        found.contentLength ≤ (bytes.drop found.headerLength).length ∧
        framing.checkContent (bytes.take framing.maxIndicator) found
          ((bytes.drop found.headerLength).take found.contentLength).head? = .ok () ∧
        answer = some ((bytes.drop found.headerLength).take found.contentLength,
          (bytes.drop found.headerLength).drop found.contentLength) := by
  unfold splitFirst?
  rw [if_neg (by simpa using hne)]
  simp only [bind_eq_ok, refuse_eq_ok, pure_eq_ok, List.length_take]
  constructor
  · rintro ⟨found, hread, hlength, ⟨⟩, hcheck, rfl⟩
    exact ⟨found, hread, by omega, hcheck, rfl⟩
  · rintro ⟨found, hread, hlength, hcheck, rfl⟩
    exact ⟨found, hread, by omega, (), hcheck, rfl⟩

theorem splitFirst?_encode_append (h : content.length < Offset.range) (rest : Bytes) :
    framing.splitFirst? (framing.encode content ++ rest) = .ok (some (content, rest)) := by
  have hfront : framing.indicator content <+:
      (framing.encode content ++ rest).take framing.maxIndicator := by
    refine List.prefix_take_iff.mpr ⟨?_, length_indicator_le framing h⟩
    rw [encode, List.append_assoc]
    exact List.prefix_append _ _
  have hdrop : (framing.encode content ++ rest).drop (framing.indicator content).length =
      content ++ rest := by
    rw [encode, List.append_assoc, List.drop_left]
  refine (splitFirst?_eq_ok (by simp [encode_ne_nil])).mpr
    ⟨_, readIndicator_of_isPrefix h hfront, ?_, ?_, ?_⟩
  · simp [hdrop]
  · simpa [hdrop] using checkContent_of_isPrefix hfront
  · simp [hdrop]

theorem eq_encode_of_splitFirst? (h : framing.splitFirst? bytes = .ok (some (content, rest))) :
    content.length < Offset.range ∧ bytes = framing.encode content ++ rest := by
  have hne : bytes ≠ [] := by
    rintro rfl
    simp [splitFirst?_nil] at h
  obtain ⟨found, hread, hlength, hcheck, hanswer⟩ := (splitFirst?_eq_ok hne).mp h
  obtain ⟨rfl, rfl⟩ : content = (bytes.drop found.headerLength).take found.contentLength ∧
      rest = (bytes.drop found.headerLength).drop found.contentLength := by simpa using hanswer
  obtain ⟨hlt, hfront, hfound⟩ :=
    indicator_of_read hread hcheck (List.length_take_of_le hlength)
  refine ⟨hlt, ?_⟩
  obtain ⟨tail, htail⟩ := (List.prefix_take_iff.mp hfront).1
  have hheader := congrArg Indicator.headerLength hfound
  dsimp only at hheader
  have hdrop : bytes.drop found.headerLength = tail := by
    rw [hheader]
    exact (congrArg (List.drop _) htail.symm).trans List.drop_left
  rw [encode, List.append_assoc, List.take_append_drop]
  exact htail.symm.trans (congrArg (_ ++ ·) hdrop.symm)

/-- Bytes that start with no record are refused. -/
theorem exists_splitFirst?_error (hne : bytes ≠ [])
    (hother : ∀ content rest, content.length < Offset.range →
      bytes ≠ framing.encode content ++ rest) :
    ∃ cause, framing.splitFirst? bytes = .error cause := by
  cases hsplit : framing.splitFirst? bytes with
  | error cause => exact ⟨cause, rfl⟩
  | ok answer =>
    obtain ⟨found, -, -, -, rfl⟩ := (splitFirst?_eq_ok hne).mp hsplit
    obtain ⟨hlt, heq⟩ := eq_encode_of_splitFirst? hsplit
    exact absurd heq (hother _ _ hlt)

/-! ### The canonical form -/

/-- **Records are canonical.** A record is found exactly where it was written, whatever follows it;
only the empty byte string has no record; and all other bytes are refused. -/
theorem splitFirst?_canonical (framing : Framing) (bytes : Bytes) :
    (∀ content rest, content.length < Offset.range →
      (framing.splitFirst? bytes = .ok (some (content, rest)) ↔
        bytes = framing.encode content ++ rest)) ∧
    (framing.splitFirst? bytes = .ok none ↔ bytes = []) ∧
    ((∃ cause, framing.splitFirst? bytes = .error cause) ↔
      bytes ≠ [] ∧ ∀ content rest, content.length < Offset.range →
        bytes ≠ framing.encode content ++ rest) := by
  refine ⟨fun content rest h => ⟨fun hsplit => (eq_encode_of_splitFirst? hsplit).2, ?_⟩,
    ⟨fun hnone => ?_, ?_⟩, ⟨?_, ?_⟩⟩
  · rintro rfl
    exact splitFirst?_encode_append h rest
  · by_contra hne
    obtain ⟨_, _, _, _, hanswer⟩ := (splitFirst?_eq_ok hne).mp hnone
    cases hanswer
  · rintro rfl
    exact splitFirst?_nil
  · rintro ⟨cause, hcause⟩
    refine ⟨?_, fun content rest h heq => ?_⟩
    · rintro rfl
      simp [splitFirst?_nil] at hcause
    · rw [heq, splitFirst?_encode_append h rest] at hcause
      cases hcause
  · rintro ⟨hne, hother⟩
    exact exists_splitFirst?_error hne hother

/-- The text record of a content that is a numeral, in front of another digit. -/
theorem splitFirst?_numeral :
    [49, 48].length < Offset.range ∧
      Framing.text.splitFirst? [50, 90, 49, 48, 55] = .ok (some ([49, 48], [55])) := by
  refine ⟨by decide, ((splitFirst?_canonical .text _).1 [49, 48] [55] (by decide)).mpr ?_⟩
  simp [encode, indicator_text, Decimal.numeral_of_lt]
  decide

end FramedStore.Framing
