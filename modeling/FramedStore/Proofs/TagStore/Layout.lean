import FramedStore.Proofs.TagStore.Raw

/-!
# Entries laid out in memory

The bytes of a list of entries are those of its pairs, one behind the other: entries are pairs of
records whose tags are text (`encodeEntries_eq_encodeRaws`). Where a pair stands, `pairAt?` gives its
bounds, and its tag and value are read from between them.
-/

namespace FramedStore.TagStore

open Effect

variable {framing : Framing}

/-- The bytes of a list of entries. -/
def encodeEntries (framing : Framing) (entries : List Entry) : Bytes :=
  entries.flatMap fun entry => encodePair framing entry.1 entry.2

@[simp] theorem encodeEntries_nil : encodeEntries framing [] = [] := rfl

@[simp] theorem encodeEntries_cons (entry : Entry) (entries : List Entry) :
    encodeEntries framing (entry :: entries) =
      encodePair framing entry.1 entry.2 ++ encodeEntries framing entries :=
  List.flatMap_cons

@[simp] theorem encodeEntries_append (entries more : List Entry) :
    encodeEntries framing (entries ++ more) =
      encodeEntries framing entries ++ encodeEntries framing more :=
  List.flatMap_append

theorem two_le_length_encodePair (framing : Framing) (tag : String) (value : Bytes) :
    2 ≤ (encodePair framing tag value).length := by
  have h1 := framing.length_indicator_pos (Utf8.encode tag)
  have h2 := framing.length_indicator_pos value
  rw [encodePair, List.length_append, framing.length_encode, framing.length_encode]
  omega

theorem two_mul_length_le (framing : Framing) (entries : List Entry) :
    2 * entries.length ≤ (encodeEntries framing entries).length :=
  Bytes.mul_length_le_flatMap (fun (tag, value) => two_le_length_encodePair framing tag value) entries

/-- The contents of the two records of an entry. -/
def rawOf (entry : Entry) : RawPair := (Utf8.encode entry.1, entry.2)

theorem encodeEntries_eq_encodeRaws (entries : List Entry) :
    encodeEntries framing entries = encodeRaws framing (entries.map rawOf) := by
  rw [encodeRaws, List.flatMap_map]
  rfl

theorem encodePair_ne_nil (entry : Entry) : encodePair framing entry.1 entry.2 ≠ [] :=
  encodeRaw_ne_nil (rawOf entry)

/-- The bounds of the pair of an entry that starts at `position`. -/
def pairOf (framing : Framing) (position : Nat) (entry : Entry) : PairBounds where
  tag := framing.boundsOf position (Utf8.encode entry.1)
  value := framing.boundsOf (position + (framing.encode (Utf8.encode entry.1)).length) entry.2

@[simp] theorem pairOf_start (position : Nat) (entry : Entry) :
    (pairOf framing position entry).start = position := rfl

@[simp] theorem pairOf_stop (position : Nat) (entry : Entry) :
    (pairOf framing position entry).stop =
      position + (encodePair framing entry.1 entry.2).length :=
  rawAt_stop position (rawOf entry)

section Pair

variable {bytes : Bytes} {position : Nat} {entry : Entry} (hcap : bytes.length ≤ Bytes.capacity)
  (h : encodePair framing entry.1 entry.2 <+: bytes.drop position)
include h

theorem rawOf_isPrefix : encodeRaw framing (rawOf entry) <+: bytes.drop position := h

theorem tag_isPrefix : framing.encode (Utf8.encode entry.1) <+: bytes.drop position :=
  (drop_tag (rawOf_isPrefix h)).1

theorem value_isPrefix : framing.encode entry.2 <+:
    bytes.drop (position + (framing.encode (Utf8.encode entry.1)).length) :=
  (drop_tag (rawOf_isPrefix h)).2

theorem readTag_pairOf :
    readTag (pairOf framing position entry).tag (⟨bytes⟩ : Memory) = .ok entry.1 ⟨bytes⟩ := by
  unfold readTag
  refine (bind_ok (Framing.slice_boundsOf (tag_isPrefix h))).trans ?_
  simp

theorem content_pairOf :
    content (pairOf framing position entry).value (⟨bytes⟩ : Memory) = .ok entry.2 ⟨bytes⟩ :=
  Framing.slice_boundsOf (value_isPrefix h)

theorem readPair_pairOf :
    readPair (pairOf framing position entry) (⟨bytes⟩ : Memory) = .ok entry ⟨bytes⟩ := by
  unfold readPair
  refine (bind_ok (readTag_pairOf h)).trans ?_
  refine (bind_ok (content_pairOf h)).trans ?_
  rfl

include hcap

theorem pairAt?_of_isPrefix :
    pairAt? framing position (⟨bytes⟩ : Memory) =
      .ok (some (pairOf framing position entry)) ⟨bytes⟩ :=
  pairAt?_raw hcap (rawOf_isPrefix h)

end Pair

theorem pairAt?_end {memory : Memory} {position : Nat} (h : memory.content.length ≤ position) :
    pairAt? framing position memory = .ok none memory := by
  unfold pairAt?
  refine (bind_ok (Framing.boundsAt?_end h)).trans ?_
  rfl

end FramedStore.TagStore
