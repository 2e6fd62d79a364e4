import FramedStore.Proofs.Bytes.Digits
import FramedStore.Proofs.Path
import FramedStore.Router.FileName

/-!
# The file names of tags

A file name has at most 200 bytes, and no character in it is special to a file system (`Safe`). So
behind a directory it names a file in that very directory. All of this is so for every checksum.
-/

namespace FramedStore.FileName

open String

variable {checksum : Bytes → UInt32}

/-! ### Characters -/

/-- A character that no file system takes for anything but itself. -/
def Safe (c : Char) : Prop :=
  isControl c = false ∧ c ∉ ['/', '\\', ':', '*', '?', '"', '<', '>', '|']

instance : DecidablePred Safe := fun _ => inferInstanceAs (Decidable (_ ∧ _))

theorem safe_upperDigit {n : Nat} (h : n < 16) : Safe (upperDigit n) := by
  revert n
  decide

theorem safe_digit {n : Nat} (h : n < 16) : Safe (Hex.digit n) := by
  revert n
  decide

/-- The two digits of a byte. -/
theorem nibbles_lt (byte : UInt8) : byte.toNat / 16 < 16 ∧ byte.toNat % 16 < 16 := by
  have hlt := byte.toNat_lt
  omega

/-- What holds of the percent sign and of the digits holds of every character of an escape. -/
theorem of_mem_escapeChar {P : Char → Prop} (hpercent : P '%')
    (hdigit : ∀ n < 16, P (upperDigit n)) {c found : Char} (h : found ∈ escapeChar c) : P found := by
  obtain ⟨byte, -, hfound⟩ := List.mem_flatMap.mp h
  obtain ⟨hhigh, hlow⟩ := nibbles_lt byte
  unfold escapeByte at hfound
  simp only [List.mem_cons, List.not_mem_nil, or_false] at hfound
  rcases hfound with rfl | rfl | rfl
  · exact hpercent
  · exact hdigit _ hhigh
  · exact hdigit _ hlow

section Escaped

variable {P : Char → Prop} (hpercent : P '%') (hdigit : ∀ n < 16, P (upperDigit n))
  (hplain : ∀ c, c ∉ special → isControl c = false → P c)
include hpercent hdigit hplain

theorem of_mem_encodeChar {c found : Char} (h : found ∈ encodeChar c) : P found := by
  unfold encodeChar at h
  split at h
  · exact of_mem_escapeChar hpercent hdigit h
  · rename_i hstays
    obtain rfl := List.mem_singleton.mp h
    rw [Bool.or_eq_true, not_or, Bool.not_eq_true, Bool.not_eq_true] at hstays
    exact hplain found (by simpa using hstays.1) hstays.2

/-- What also holds of the characters that stand for themselves holds of every character of an escaped
tag. -/
theorem of_mem_escape {tag : String} {found : Char} (h : found ∈ (escape tag).toList) : P found := by
  rw [escape, toList_ofList] at h
  cases hchars : tag.toList with
  | nil =>
    rw [hchars] at h
    obtain rfl := List.mem_singleton.mp h
    exact hpercent
  | cons first rest =>
    rw [hchars] at h
    rcases List.mem_append.mp h with hfirst | hrest
    · split at hfirst
      · exact of_mem_escapeChar hpercent hdigit hfirst
      · exact of_mem_encodeChar hpercent hdigit hplain hfirst
    · obtain ⟨c, -, hfound⟩ := List.mem_flatMap.mp hrest
      exact of_mem_encodeChar hpercent hdigit hplain hfound

end Escaped

theorem safe_escape {tag : String} {found : Char} (h : found ∈ (escape tag).toList) : Safe found := by
  have hpercent : Safe '%' := by decide
  refine of_mem_escape hpercent (fun n hn => safe_upperDigit hn) (fun c hspecial hcontrol => ?_) h
  exact ⟨hcontrol, fun hmem => hspecial (List.mem_append_left ['%', '~'] hmem)⟩

theorem fitting_isPrefix (budget : Nat) (chars : List Char) : fitting budget chars <+: chars := by
  induction chars generalizing budget with
  | nil => exact List.nil_prefix
  | cons c rest ih =>
    unfold fitting
    split
    · exact List.cons_prefix_cons.mpr ⟨rfl, ih _⟩
    · exact List.nil_prefix

theorem safe_mark {tag : String} {found : Char} (h : found ∈ (mark checksum tag).toList) :
    Safe found := by
  unfold mark Hex.ofBytes at h
  rw [toList_append, List.mem_append] at h
  rcases h with htilde | hdigits
  · obtain rfl : found = '~' := by simpa using htilde
    decide
  · rw [toList_ofList] at hdigits
    obtain ⟨byte, -, hfound⟩ := List.mem_flatMap.mp hdigits
    obtain ⟨hhigh, hlow⟩ := nibbles_lt byte
    simp only [List.mem_cons, List.not_mem_nil, or_false] at hfound
    rcases hfound with rfl | rfl
    · exact safe_digit hhigh
    · exact safe_digit hlow

/-- **No character of a file name is special.** -/
theorem safe_ofTagBy {tag : String} {found : Char} (h : found ∈ (ofTagBy checksum tag).toList) :
    Safe found := by
  unfold ofTagBy at h
  dsimp only at h
  split at h
  · exact safe_escape h
  · rw [toList_append, toList_ofList, List.mem_append] at h
    rcases h with hkept | hmark
    · exact safe_escape ((fitting_isPrefix _ _).subset hkept)
    · exact safe_mark hmark

/-! ### Lengths -/

theorem utf8Len_fitting_le (budget : Nat) (chars : List Char) :
    utf8Len (fitting budget chars) ≤ budget := by
  induction chars generalizing budget with
  | nil => exact Nat.zero_le _
  | cons c rest ih =>
    unfold fitting
    split
    · rename_i hle
      rw [utf8Len_cons]
      have hrest := ih (budget - c.utf8Size)
      omega
    · exact Nat.zero_le _

theorem utf8Size_digit {n : Nat} (h : n < 16) : (Hex.digit n).utf8Size = 1 := by
  revert n
  decide

theorem utf8ByteSize_hex (bytes : Bytes) : (Hex.ofBytes bytes).utf8ByteSize = 2 * bytes.length := by
  rw [Hex.ofBytes, utf8ByteSize_ofList]
  induction bytes with
  | nil => rfl
  | cons byte bytes ih =>
    obtain ⟨hhigh, hlow⟩ := nibbles_lt byte
    rw [List.flatMap_cons, utf8Len_append, ih]
    simp only [utf8Len_cons, utf8Len_nil, utf8Size_digit hhigh, utf8Size_digit hlow,
      List.length_cons]
    omega

theorem utf8ByteSize_mark (tag : String) : (mark checksum tag).utf8ByteSize = markLength := by
  rw [mark, utf8ByteSize_append, utf8ByteSize_hex, Bytes.length_bigEndian]
  rfl

/-- **A file name is not longer than a directory allows.** -/
theorem utf8ByteSize_ofTagBy_le (tag : String) :
    (ofTagBy checksum tag).utf8ByteSize ≤ maxLength := by
  unfold ofTagBy
  dsimp only
  split
  · assumption
  · have hkept := utf8Len_fitting_le (maxLength - markLength) (escape tag).toList
    rw [utf8ByteSize_append, utf8ByteSize_ofList, utf8ByteSize_mark]
    unfold maxLength markLength at *
    omega

/-! ### The file of a tag -/

/-- The name of the file of a tag. -/
def file (checksum : Bytes → UInt32) (tag : String) : String := ofTagBy checksum tag ++ ".tfr"

theorem file_inj {tag other : String} :
    file checksum tag = file checksum other ↔ ofTagBy checksum tag = ofTagBy checksum other :=
  String.append_left_inj _

theorem safe_file {tag : String} {found : Char} (h : found ∈ (file checksum tag).toList) :
    Safe found := by
  rw [file, toList_append, List.mem_append] at h
  rcases h with hname | hending
  · exact safe_ofTagBy hname
  · have hchars : (".tfr").toList = ['.', 't', 'f', 'r'] := by decide
    rw [hchars] at hending
    simp only [List.mem_cons, List.not_mem_nil, or_false] at hending
    rcases hending with rfl | rfl | rfl | rfl <;> decide

theorem plain_file (tag : String) : Path.Plain (file checksum tag) := by
  have hending : ∀ other : String, ¬ (".tfr".toList <:+ other.toList) →
      file checksum tag ≠ other := by
    rintro _ hnot rfl
    refine hnot ?_
    rw [file, toList_append]
    exact List.suffix_append _ _
  exact ⟨fun h => (safe_file h).2 (by decide), hending _ (by decide), hending _ (by decide),
    hending _ (by decide)⟩

theorem file_nul (tag : String) : (file checksum tag).contains (Char.ofNat 0) = false := by
  rw [contains_char_eq, decide_eq_false_iff_not]
  intro h
  have hcontrol := (safe_file h).1
  revert hcontrol
  decide

theorem file_short (tag : String) : Path.tooLong (file checksum tag) = false := by
  have hname : (ofTagBy checksum tag).utf8ByteSize ≤ maxLength := utf8ByteSize_ofTagBy_le tag
  have hending : (".tfr").utf8ByteSize = 4 := rfl
  unfold Path.tooLong file
  rw [decide_eq_false_iff_not, utf8ByteSize_append, hending]
  unfold maxLength at hname
  omega

end FramedStore.FileName
