import FramedStore.Proofs.Router.FileName
import FramedStore.Proofs.Text.Utf8
import FramedStore.Router.Children

/-!
# Tags with one file name

An escaped tag can be read back (`unescape_escape`), and no tilde is in it. So two tags have one file
name only if both names are cut, where the tilde in front of the checksum says where; and then the
tags agree in all that a cut name shows (`ofTagBy_eq_iff`). The checksum may be any one of 32 bits.
-/

namespace FramedStore.FileName

open String

variable {checksum : Bytes → UInt32} {tag other : String}

/-! ### Reading an escaped tag -/

/-- The number that a hexadecimal digit stands for, in upper or lower case. -/
def digitValue (c : Char) : Nat :=
  if c.toNat < 65 then c.toNat - 48 else if c.toNat < 97 then c.toNat - 55 else c.toNat - 87

theorem digitValue_upperDigit {n : Nat} (h : n < 16) : digitValue (upperDigit n) = n := by
  revert n
  decide

theorem digitValue_digit {n : Nat} (h : n < 16) : digitValue (Hex.digit n) = n := by
  revert n
  decide

/-- The bytes of a text in which some characters stand as percent escapes. -/
def unescape : List Char → Bytes
  | '%' :: high :: low :: rest =>
    UInt8.ofNat (16 * digitValue high + digitValue low) :: unescape rest
  | c :: rest => Utf8.encode c.toString ++ unescape rest
  | [] => []

theorem unescape_escapeByte (byte : UInt8) (rest : List Char) :
    unescape (escapeByte byte ++ rest) = byte :: unescape rest := by
  obtain ⟨hhigh, hlow⟩ := nibbles_lt byte
  show UInt8.ofNat (16 * digitValue (upperDigit _) + digitValue (upperDigit _)) :: _ = _
  rw [digitValue_upperDigit hhigh, digitValue_upperDigit hlow, Nat.div_add_mod, UInt8.ofNat_toNat]
  rfl

theorem unescape_escapeBytes (bytes : Bytes) (rest : List Char) :
    unescape (bytes.flatMap escapeByte ++ rest) = bytes ++ unescape rest := by
  induction bytes with
  | nil => rfl
  | cons byte bytes ih =>
    rw [List.flatMap_cons, List.append_assoc, unescape_escapeByte, ih, List.cons_append]

theorem unescape_cons {c : Char} (h : c ≠ '%') (rest : List Char) :
    unescape (c :: rest) = Utf8.encode c.toString ++ unescape rest := by
  rw [unescape]
  rintro _ _ _ rfl
  exact absurd rfl h

theorem unescape_encodeChar (c : Char) (rest : List Char) :
    unescape (encodeChar c ++ rest) = Utf8.encode c.toString ++ unescape rest := by
  unfold encodeChar
  split
  · exact unescape_escapeBytes _ rest
  · rename_i hstays
    refine unescape_cons ?_ rest
    rintro rfl
    exact hstays (by decide)

theorem unescape_flatMap_encodeChar (chars : List Char) :
    unescape (chars.flatMap encodeChar) = chars.flatMap fun c => Utf8.encode c.toString := by
  induction chars with
  | nil => rw [List.flatMap_nil, List.flatMap_nil, unescape]
  | cons c chars ih => rw [List.flatMap_cons, List.flatMap_cons, unescape_encodeChar, ih]

/-- **An escaped tag can be read back**, but for the empty one. -/
theorem unescape_escape (h : tag ≠ "") : unescape (escape tag).toList = Utf8.encode tag := by
  rw [escape, toList_ofList]
  cases hchars : tag.toList with
  | nil => exact absurd (toList_eq_nil_iff.mp hchars) h
  | cons first rest =>
    rw [← ofList_toList (s := tag), hchars, Utf8.encode_ofList, List.flatMap_cons, encodeChars,
      ← unescape_flatMap_encodeChar]
    split
    · exact unescape_escapeBytes _ _
    · exact unescape_encodeChar first _

/-- **Tags that are escaped alike are equal.** -/
theorem escape_inj : escape tag = escape other ↔ tag = other := by
  refine ⟨fun h => ?_, congrArg escape⟩
  -- the lone percent sign of the empty tag would be read back as the tag of a percent sign
  have hpercent : ∀ tag, tag ≠ "" → escape tag ≠ escape "" := by
    intro tag hne hescape
    have hread := unescape_escape hne
    have hempty : unescape (escape "").toList = Utf8.encode "%" := by decide +kernel
    rw [hescape, hempty, Utf8.encode_inj] at hread
    have hsign : escape "%" = "%25" := by decide +kernel
    have hlone : escape "" = "%" := by decide +kernel
    rw [← hread, hsign, hlone] at hescape
    exact absurd hescape (by decide)
  by_cases htag : tag = ""
  · by_contra hne
    subst htag
    exact hpercent other (Ne.symm hne) h.symm
  by_cases hother : other = ""
  · subst hother
    exact absurd h (hpercent tag htag)
  rw [← Utf8.encode_inj, ← unescape_escape htag, ← unescape_escape hother, h]

theorem tilde_not_mem_escape : '~' ∉ (escape tag).toList := by
  intro h
  have hpercent : ('%' : Char) ≠ '~' := by decide
  have hdigit : ∀ n < 16, upperDigit n ≠ '~' := by decide
  refine of_mem_escape (P := (· ≠ '~')) hpercent hdigit (fun c hspecial _ => ?_) h rfl
  rintro rfl
  exact hspecial (by decide)

/-! ### Cut names -/

/-- The longest front of a text that has no more than `budget` bytes. -/
structure LongestFront (budget : Nat) (chars front : List Char) : Prop where
  starts : front <+: chars
  fits : utf8Len front ≤ budget
  longest : ∀ shown, shown <+: chars → utf8Len shown ≤ budget → shown <+: front

theorem isPrefix_fitting {budget : Nat} {chars shown : List Char} (h : shown <+: chars)
    (hfits : utf8Len shown ≤ budget) : shown <+: fitting budget chars := by
  induction chars generalizing budget shown with
  | nil => rwa [fitting]
  | cons c rest ih =>
    cases shown with
    | nil => exact List.nil_prefix
    | cons first shown =>
      obtain ⟨rfl, hrest⟩ := List.cons_prefix_cons.mp h
      rw [utf8Len_cons] at hfits
      rw [fitting, if_pos (by omega)]
      exact List.cons_prefix_cons.mpr ⟨rfl, ih hrest (by omega)⟩

theorem longestFront_iff {budget : Nat} {chars front : List Char} :
    LongestFront budget chars front ↔ front = fitting budget chars := by
  constructor
  · rintro ⟨hstarts, hfits, hlongest⟩
    refine (isPrefix_fitting hstarts hfits).eq_of_length_le ?_
    exact (hlongest _ (fitting_isPrefix _ _) (utf8Len_fitting_le _ _)).length_le
  · rintro rfl
    exact ⟨fitting_isPrefix _ _, utf8Len_fitting_le _ _, fun _ => isPrefix_fitting⟩

theorem digits_inj {byte byte' : UInt8}
    (hhigh : Hex.digit (byte.toNat / 16) = Hex.digit (byte'.toNat / 16))
    (hlow : Hex.digit (byte.toNat % 16) = Hex.digit (byte'.toNat % 16)) : byte = byte' := by
  have hhigh := congrArg digitValue hhigh
  have hlow := congrArg digitValue hlow
  rw [digitValue_digit (nibbles_lt _).1, digitValue_digit (nibbles_lt _).1] at hhigh
  rw [digitValue_digit (nibbles_lt _).2, digitValue_digit (nibbles_lt _).2] at hlow
  rw [← UInt8.toNat_inj]
  omega

theorem hex_inj {bytes bytes' : Bytes} : Hex.ofBytes bytes = Hex.ofBytes bytes' ↔ bytes = bytes' := by
  refine ⟨fun h => ?_, congrArg Hex.ofBytes⟩
  rw [Hex.ofBytes, Hex.ofBytes, ofList_inj] at h
  induction bytes generalizing bytes' with
  | nil => cases bytes' <;> simp at h ⊢
  | cons byte bytes ih =>
    cases bytes' with
    | nil => simp at h
    | cons byte' bytes' =>
      simp only [List.flatMap_cons, List.cons_append, List.nil_append, List.cons.injEq] at h
      obtain ⟨hhigh, hlow, hrest⟩ := h
      rw [digits_inj hhigh hlow, ih hrest]

theorem mark_inj : mark checksum tag = mark checksum other ↔
    checksum (Utf8.encode tag) = checksum (Utf8.encode other) := by
  rw [mark, mark, String.append_right_inj, hex_inj]
  refine ⟨fun h => ?_, fun h => by rw [h]⟩
  have hfour : ∀ n : UInt32, Bytes.value (Bytes.bigEndian 4 n.toNat) = n.toNat := fun n =>
    (Bytes.value_bigEndian 4 _).trans (Nat.mod_eq_of_lt n.toNat_lt)
  rw [← UInt32.toNat_inj, ← hfour, h, hfour]

theorem length_mark (tag : String) : (mark checksum tag).toList.length = markLength := by
  have hlength : ∀ bytes : Bytes, (Hex.ofBytes bytes).toList.length = 2 * bytes.length := by
    intro bytes
    rw [Hex.ofBytes, toList_ofList]
    induction bytes with
    | nil => rfl
    | cons byte bytes ih =>
      rw [List.flatMap_cons, List.length_append, ih]
      simp only [List.length_cons, List.length_nil]
      omega
  rw [mark, toList_append, List.length_append, hlength, Bytes.length_bigEndian]
  rfl

theorem tilde_mem_mark : '~' ∈ (mark checksum tag).toList := by
  rw [mark, toList_append]
  exact List.mem_append_left _ (by decide)

theorem ofTagBy_of_le (h : (escape tag).utf8ByteSize ≤ maxLength) :
    ofTagBy checksum tag = escape tag := if_pos h

theorem ofTagBy_of_lt (h : maxLength < (escape tag).utf8ByteSize) :
    ofTagBy checksum tag =
      ofList (fitting (maxLength - markLength) (escape tag).toList) ++ mark checksum tag :=
  if_neg (Nat.not_le.mpr h)

/-- A cut name is not the name of a tag that is not cut. -/
theorem ofTagBy_ne (h : (escape tag).utf8ByteSize ≤ maxLength)
    (hother : maxLength < (escape other).utf8ByteSize) :
    ofTagBy checksum tag ≠ ofTagBy checksum other := by
  rw [ofTagBy_of_le h, ofTagBy_of_lt hother]
  intro heq
  have htilde : '~' ∈ (escape tag).toList := by
    rw [heq, toList_append]
    exact List.mem_append_right _ tilde_mem_mark
  exact tilde_not_mem_escape htilde

/-! ### The characters at the front -/

theorem exists_cons_escapeChar (c : Char) : ∃ rest, escapeChar c = '%' :: rest := by
  have hpos : 0 < (Utf8.encode c.toString).length := by
    rw [Utf8.encode_toString, length_utf8EncodeChar]
    exact c.utf8Size_pos
  obtain ⟨byte, bytes, hbytes⟩ := List.exists_cons_of_length_pos hpos
  rw [escapeChar, hbytes, List.flatMap_cons]
  exact ⟨_, rfl⟩

theorem exists_cons_escape (tag : String) :
    ∃ first rest, (escape tag).toList = first :: rest ∧ first ≠ '.' := by
  rw [escape, toList_ofList]
  have hpercent : ('%' : Char) ≠ '.' := by decide
  cases tag.toList with
  | nil => exact ⟨_, _, rfl, hpercent⟩
  | cons c chars =>
    by_cases hdot : c = '.'
    · obtain ⟨rest, hrest⟩ := exists_cons_escapeChar c
      rw [encodeChars, if_pos hdot, hrest]
      exact ⟨_, _, rfl, hpercent⟩
    rw [encodeChars, if_neg hdot, encodeChar]
    split
    · obtain ⟨rest, hrest⟩ := exists_cons_escapeChar c
      rw [hrest]
      exact ⟨_, _, rfl, hpercent⟩
    · exact ⟨_, _, rfl, hdot⟩

/-- A name has a character, and the first one is no dot. -/
theorem exists_cons_ofTagBy (tag : String) :
    ∃ first rest, (ofTagBy checksum tag).toList = first :: rest ∧ first ≠ '.' := by
  obtain ⟨first, rest, hescape, hdot⟩ := exists_cons_escape tag
  rcases Nat.lt_or_ge maxLength (escape tag).utf8ByteSize with hlt | hle
  · have hfits : first.utf8Size ≤ maxLength - markLength :=
      first.utf8Size_le_four.trans (by decide)
    rw [ofTagBy_of_lt hlt, toList_append, toList_ofList, hescape, fitting, if_pos hfits]
    exact ⟨_, _, rfl, hdot⟩
  · rw [ofTagBy_of_le hle]
    exact ⟨first, rest, hescape, hdot⟩

/-! ### One name for two tags -/

/-- What a file system asks of a name, whichever it is. -/
structure Acceptable (name : String) : Prop where
  pos : 1 ≤ name.utf8ByteSize
  short : name.utf8ByteSize ≤ 200
  visible : name.toList.head? ≠ some '.'
  safe : ∀ c ∈ name.toList, Safe c

theorem acceptable_ofTagBy (tag : String) : Acceptable (ofTagBy checksum tag) := by
  obtain ⟨first, rest, hchars, hdot⟩ := exists_cons_ofTagBy tag
  refine ⟨?_, utf8ByteSize_ofTagBy_le tag, ?_, fun c => safe_ofTagBy⟩
  · rw [← ofList_toList (s := ofTagBy checksum tag), utf8ByteSize_ofList, hchars, utf8Len_cons]
    have := first.utf8Size_pos
    omega
  · rw [hchars]
    simpa using hdot

theorem ofTagBy_eq_iff (hne : tag ≠ other) :
    ofTagBy checksum tag = ofTagBy checksum other ↔
      200 < (escape tag).utf8ByteSize ∧ 200 < (escape other).utf8ByteSize ∧
      (∃ front, LongestFront 191 (escape tag).toList front ∧
        LongestFront 191 (escape other).toList front) ∧
      checksum (Utf8.encode tag) = checksum (Utf8.encode other) := by
  simp only [longestFront_iff, exists_eq_left]
  constructor
  · intro heq
    rcases Nat.lt_or_ge maxLength (escape tag).utf8ByteSize with hlt | hle <;>
      rcases Nat.lt_or_ge maxLength (escape other).utf8ByteSize with hlt' | hle'
    · rw [ofTagBy_of_lt hlt, ofTagBy_of_lt hlt', ← toList_inj, toList_append, toList_append,
        toList_ofList, toList_ofList] at heq
      -- the marks are of one length, so they end the fronts at one place
      obtain ⟨hfront, hmark⟩ :=
        List.append_inj' heq ((length_mark tag).trans (length_mark other).symm)
      exact ⟨hlt, hlt', hfront, mark_inj.mp (toList_inj.mp hmark)⟩
    · exact absurd heq.symm (ofTagBy_ne hle' hlt)
    · exact absurd heq (ofTagBy_ne hle hlt')
    · rw [ofTagBy_of_le hle, ofTagBy_of_le hle', escape_inj] at heq
      exact absurd heq hne
  · rintro ⟨hlt, hlt', hfront, hchecksum⟩
    rw [ofTagBy_of_lt hlt, ofTagBy_of_lt hlt', mark_inj.mpr hchecksum]
    exact congrArg (fun front => ofList front ++ mark checksum other) hfront

/-- **When two tags share a file**, and what every file name is, whichever the checksum. -/
theorem file_names (checksum : Bytes → UInt32) (hne : tag ≠ other) :
    (ofTagBy checksum tag = ofTagBy checksum other ↔
      200 < (escape tag).utf8ByteSize ∧ 200 < (escape other).utf8ByteSize ∧
      (∃ front, LongestFront 191 (escape tag).toList front ∧
        LongestFront 191 (escape other).toList front) ∧
      checksum (Utf8.encode tag) = checksum (Utf8.encode other)) ∧
    ∀ any, Acceptable (ofTagBy checksum any) ∧ ∀ children : FileChildren,
      Path.ofString (children.pathBy checksum any) =
        Path.ofString children.directory ++ [ofTagBy checksum any ++ ".tfr"] :=
  ⟨ofTagBy_eq_iff hne, fun any =>
    ⟨acceptable_ofTagBy any, fun children => Path.ofString_join (plain_file any) children.directory⟩⟩

/-- Two tags with one checksum that differ behind 64 slashes; the last slash is cut inside its escape. -/
theorem file_names_collision :
    let slashes := ofList (List.replicate 32 '/')
    slashes ++ slashes ++ "eflnbzsdi" ≠ slashes ++ slashes ++ "zemjmenpl" ∧
      ofTag (slashes ++ slashes ++ "eflnbzsdi") = ofTag (slashes ++ slashes ++ "zemjmenpl") := by
  intro slashes
  have hne : slashes ++ slashes ++ "eflnbzsdi" ≠ slashes ++ slashes ++ "zemjmenpl" := by
    rw [Ne, String.append_right_inj]
    decide
  refine ⟨hne, (file_names Crc32.ofBytes hne).1.mpr
    ⟨?_, ?_, ⟨_, longestFront_iff.mpr rfl, ?_⟩, ?_⟩⟩
  · simp only [slashes, escape, toList_append, toList_ofList, utf8ByteSize_ofList]
    decide +kernel
  · simp only [slashes, escape, toList_append, toList_ofList, utf8ByteSize_ofList]
    decide +kernel
  · simp only [slashes, longestFront_iff, escape, toList_append, toList_ofList]
    decide +kernel
  · -- the register of the checksum, half of the slashes at a time
    have hfirst : (Utf8.encode (ofList (List.replicate 32 '/'))).foldl Crc32.step 0xFFFFFFFF =
        0x549BFCD7 := by decide +kernel
    have hsecond : (Utf8.encode (ofList (List.replicate 32 '/'))).foldl Crc32.step 0x549BFCD7 =
        0xA6D9E164 := by decide +kernel
    have hrest : (Utf8.encode "eflnbzsdi").foldl Crc32.step 0xA6D9E164 =
        (Utf8.encode "zemjmenpl").foldl Crc32.step 0xA6D9E164 := by decide +kernel
    simp only [slashes, Utf8.encode_append, Crc32.ofBytes, List.foldl_append, hfirst, hsecond, hrest]

end FramedStore.FileName
