import FramedStore.Proofs.Record.Cursor
import FramedStore.Proofs.Storage.Defaults
import FramedStore.Proofs.TagStore.Alike
import FramedStore.Proofs.TagStore.Raw

/-!
# Short reads

Of a storage that gives only so many bytes at once, a record can be skipped or removed however long it
is, since its content is not read. The search for a tag reads no value, and no tag of another length;
so all that a tag store needs to get by with short reads is the room for an indicator, for the tags, and
for the value that it is asked for (`short_reads_suffice`).
-/

namespace FramedStore

open Effect

/-! ### A limit on what is read at once -/

namespace Restricted

/-- A memory of which no more than `n` bytes can be read at once. -/
def limited (n : Nat) (memory : Memory) : Restricted := { memory, sliceLimit := some n }

/-- The outcome where no more than `n` bytes can be read at once is the one without the limit. -/
abbrev SameLimited {α : Type} (n : Nat) :
    EStateM.Result Error Restricted α → EStateM.Result Error Memory α → Prop :=
  Same fun s memory => s = limited n memory

variable {n : Nat} {α : Type} {start stop : Nat}

theorem sameLimited_onMemory (x : Effect Memory α) (memory : Memory) :
    SameLimited n (onMemory x (limited n memory)) (x memory) := by
  unfold onMemory
  rw [within_apply, show (limited n memory).memory = memory from rfl]
  cases x memory with
  | ok a memory => exact .ok a rfl
  | error e memory => exact .error ⟨rfl, rfl⟩

theorem slice_limited (h : stop - start ≤ n) (memory : Memory) :
    Storage.slice start stop (limited n memory) =
      onMemory (Storage.slice start stop) (limited n memory) := by
  have hcheck : checkSlice start stop (limited n memory) = .ok ⟨⟩ (limited n memory) := by
    unfold checkSlice
    refine (bind_ok (get_apply _)).trans ?_
    show (if n < stop - start then _ else _ : Effect Restricted Unit) (limited n memory) = _
    rw [if_neg (Nat.not_lt.mpr h)]
    rfl
  exact bind_ok hcheck

/-- No more than the limit can be read at once. -/
theorem slice_limited_error (h : n < stop - start) (memory : Memory) :
    Storage.slice start stop (limited n memory) =
      .error (.io (.other "slice too long")) (limited n memory) := by
  have hcheck : checkSlice start stop (limited n memory) =
      .error (.io (.other "slice too long")) (limited n memory) := by
    unfold checkSlice
    refine (bind_ok (get_apply _)).trans ?_
    show (if n < stop - start then _ else _ : Effect Restricted Unit) (limited n memory) = _
    rw [if_pos h]
    rfl
  have hcall : checkCall .slice (limited n memory) = .ok ⟨⟩ (limited n memory) := rfl
  exact (bind_ok hcall).trans (bind_error hcheck)

theorem alikeUpTo (n : Nat) : Storage.AlikeUpTo n fun s memory => s = limited n memory where
  size := by
    rintro _ memory rfl
    exact .ok _ rfl
  slice h := by
    rintro _ memory rfl
    rw [slice_limited h]
    exact sameLimited_onMemory _ memory
  delete start stop := by
    rintro _ memory rfl
    exact sameLimited_onMemory (Storage.delete start stop) memory

theorem alike_append (n : Nat) (added : Bytes) :
    Alike (fun s memory => s = limited n memory) (Storage.append added) (Storage.append added) := by
  rintro _ memory rfl
  exact sameLimited_onMemory (Storage.append added) memory

end Restricted

/-! ### At a cursor -/

namespace Cursor

variable {σ τ α : Type} {R : σ → τ → Prop}

/-- Cursors at one offset of related storages. -/
def Over (R : σ → τ → Prop) (cursor : Cursor σ) (other : Cursor τ) : Prop :=
  R cursor.storage other.storage ∧ cursor.offset = other.offset

theorem alike_onStorage {x : Effect σ α} {y : Effect τ α} (h : Alike R x y) :
    Alike (Over R) (onStorage x) (onStorage y) := by
  rintro ⟨s, offset⟩ ⟨t, _⟩ ⟨hst, rfl⟩
  have hsame := h s t hst
  rw [onStorage, onStorage, within_apply, within_apply]
  generalize x s = outcome, y t = outcome' at hsame
  cases hsame with
  | ok a h => exact .ok a ⟨h, rfl⟩
  | error h => exact .error ⟨h.1, h.2, rfl⟩

theorem alike_seek (offset : Nat) : Alike (Over R) (seek offset) (seek offset) :=
  fun _ _ h => .ok _ ⟨h.1, rfl⟩

theorem alike_collect (max : Int) {one : Effect σ (Option α)} {other : Effect τ (Option α)}
    (h : Alike R one other) : Alike R (collect max one) (collect max other) := by
  refine .scan (fun state => ?_) _
  refine .ite _ (.pure _) (.bind h fun answer => ?_)
  cases answer <;> exact .pure _

variable [Storage σ] [Storage τ] {n : Nat} {framing : Framing} (h : Storage.AlikeUpTo n R)
  (hn : framing.maxIndicator ≤ n)
include h hn

theorem alike_bounds? : Alike (Over R) (bounds? framing) (bounds? framing) := by
  intro cursor other hover
  unfold bounds?
  rw [bind_ok (get_apply cursor), bind_ok (get_apply other), hover.2]
  exact alike_onStorage (Framing.alike_boundsAt? h hn other.offset) cursor other hover

theorem alike_skip? : Alike (Over R) (skip? framing) (skip? framing) := by
  refine .bind (alike_bounds? h hn) fun bounds => ?_
  cases bounds with
  | none => exact .pure none
  | some bounds => exact .bind (alike_seek _) fun _ => .pure _

theorem alike_delete? : Alike (Over R) (delete? framing) (delete? framing) := by
  refine .bind (alike_bounds? h hn) fun bounds => ?_
  cases bounds with
  | none => exact .pure none
  | some bounds => exact .bind (alike_onStorage (h.delete _ _)) fun _ => .pure _

end Cursor

namespace TagStore

open Restricted (limited SameLimited)

variable {framing : Framing} {n : Nat} {bytes : Bytes} {tag : String}

/-! ### Values and tags that are read -/

/-- A pair of records stands at the front of a byte string behind other pairs. -/
def StandsBehind (framing : Framing) (bytes : Bytes) (before : List RawPair) (pair : RawPair) : Prop :=
  encodeRaws framing (before ++ [pair]) <+: bytes

theorem StandsBehind.of_drop {before : List RawPair} {pair : RawPair}
    (hbefore : encodeRaws framing before <+: bytes)
    (h : encodeRaw framing pair <+: bytes.drop (encodeRaws framing before).length) :
    StandsBehind framing bytes before pair := by
  obtain ⟨rest, rfl⟩ := hbefore
  rw [List.drop_left] at h
  rw [StandsBehind, encodeRaws_append, encodeRaws_cons, encodeRaws_nil, List.append_nil]
  exact (List.prefix_append_right_inj _).mpr h

/-- The value of the first pair under a tag has no more than `n` bytes. -/
def FirstValueWithin (framing : Framing) (n : Nat) (tag : String) (bytes : Bytes) : Prop :=
  ∀ before value, StandsBehind framing bytes before (Utf8.encode tag, value) →
    (∀ pair ∈ before, pair.1 ≠ Utf8.encode tag) → value.length ≤ n

/-- No tag, be it text or not, has more than `n` bytes. -/
def TagsWithin (framing : Framing) (n : Nat) (bytes : Bytes) : Prop :=
  ∀ before pair, StandsBehind framing bytes before pair → pair.1.length ≤ n

/-- A tag is read and nothing is changed. -/
theorem readTag_after {bounds : Bounds} {after : Memory}
    (h : readTag bounds (⟨bytes⟩ : Memory) = .ok tag after) : after = ⟨bytes⟩ := by
  obtain ⟨read, memory, hread, h⟩ := bind_ok_iff.mp h
  obtain rfl := Memory.after_slice _ hread
  cases hdecode : Utf8.decode read with
  | ok tag =>
    rw [hdecode] at h
    cases h
    rfl
  | error fault =>
    rw [hdecode] at h
    cases h

section Pairs

variable {pairs : List RawPair} {rest : Bytes}
  (hcap : (encodeRaws framing pairs ++ rest).length ≤ Bytes.capacity) (hrest : NoPair framing rest)
include hcap hrest

theorem standsBehind_iff {before : List RawPair} {pair : RawPair} :
    StandsBehind framing (encodeRaws framing pairs ++ rest) before pair ↔ before ++ [pair] <+: pairs :=
  encodeRaws_isPrefix_iff hcap hrest

theorem firstValueWithin_iff :
    FirstValueWithin framing n tag (encodeRaws framing pairs ++ rest) ↔
      ∀ pair ∈ pairs.find? (·.1 == Utf8.encode tag), pair.2.length ≤ n := by
  simp only [FirstValueWithin, standsBehind_iff hcap hrest, Option.mem_def,
    List.find?_eq_some_iff_append]
  constructor
  · rintro h ⟨_, value⟩ ⟨htag, before, after, rfl, hbefore⟩
    obtain rfl := beq_iff_eq.mp htag
    exact h before value ⟨after, List.append_assoc ..⟩ fun pair hpair => by simpa using hbefore pair hpair
  · rintro h before value ⟨after, rfl⟩ hbefore
    refine h (Utf8.encode tag, value) ⟨beq_self_eq_true _, before, after, List.append_assoc .., ?_⟩
    exact fun pair hpair => by simpa using hbefore pair hpair

theorem tagsWithin_iff :
    TagsWithin framing n (encodeRaws framing pairs ++ rest) ↔
      ∀ pair ∈ pairs, pair.1.length ≤ n := by
  simp only [TagsWithin, standsBehind_iff hcap hrest]
  constructor
  · intro h pair hpair
    obtain ⟨before, after, rfl⟩ := List.append_of_mem hpair
    exact h before pair ⟨after, List.append_assoc ..⟩
  · rintro h before pair ⟨after, rfl⟩
    exact h pair (by simp)

end Pairs

variable (hcap : bytes.length ≤ Bytes.capacity)
include hcap

/-- The pair that is found is the first one under the tag. -/
theorem standsBehind_of_findFrom? {pair : PairBounds} {after : Memory}
    (h : findFrom? framing tag 0 (⟨bytes⟩ : Memory) = .ok (some pair) after) :
    ∃ before value, StandsBehind framing bytes before (Utf8.encode tag, value) ∧
      (∀ pair ∈ before, pair.1 ≠ Utf8.encode tag) ∧ pair.value.contentLength = value.length := by
  obtain ⟨pairs, rest, rfl, hrest⟩ := exists_split framing bytes
  rcases findFrom?_raw hcap tag List.drop_zero hrest with
    ⟨before, value, after, rfl, hbefore, hfound⟩ | ⟨-, -, hfound⟩ | ⟨-, -, _, _, hfound⟩
  · obtain ⟨hpair, -⟩ := EStateM.Result.ok.inj (h.symm.trans hfound)
    obtain rfl := Option.some.inj hpair
    refine ⟨before, value, ⟨encodeRaws framing after ++ rest, ?_⟩, hbefore, ?_⟩
    · simp only [encodeRaws_append, encodeRaws_cons, encodeRaws_nil, List.append_nil,
        List.append_assoc]
    · exact framing.contentLength_boundsOf _ _
  · cases h.symm.trans hfound
  · cases h.symm.trans hfound

/-- At the end of some pairs, a pair that is found is the one behind them. -/
theorem standsBehind_of_pairAt? {before : List RawPair} {pair : PairBounds} {after : Memory}
    (hbefore : encodeRaws framing before <+: bytes)
    (h : pairAt? framing (encodeRaws framing before).length (⟨bytes⟩ : Memory) =
      .ok (some pair) after) :
    ∃ raw, StandsBehind framing bytes before raw ∧
      pair = rawAt framing (encodeRaws framing before).length raw ∧ after = ⟨bytes⟩ := by
  rcases pairAt?_cases framing (encodeRaws framing before).length hcap with
    ⟨-, hnone⟩ | ⟨raw, hraw, hfound⟩ | ⟨-, -, _, _, herror⟩
  · cases h.symm.trans hnone
  · obtain ⟨hpair, rfl⟩ := EStateM.Result.ok.inj (h.symm.trans hfound)
    exact ⟨raw, .of_drop hbefore hraw, Option.some.inj hpair, rfl⟩
  · cases h.symm.trans herror

theorem contentLength_le_of_findFrom? (hvalue : FirstValueWithin framing n tag bytes)
    {pair : PairBounds} {after : Memory}
    (h : findFrom? framing tag 0 (⟨bytes⟩ : Memory) = .ok (some pair) after) :
    pair.value.contentLength ≤ n := by
  obtain ⟨before, value, hstands, hbefore, hlength⟩ := standsBehind_of_findFrom? hcap h
  rw [hlength]
  exact hvalue before value hstands hbefore

/-! ### Look-ups and lists under a limit -/

variable (hn : framing.maxIndicator ≤ n)
include hn

theorem same_get? (htag : (Utf8.encode tag).length ≤ n)
    (hvalue : FirstValueWithin framing n tag bytes) :
    SameLimited n (get? framing tag (limited n ⟨bytes⟩)) (get? framing tag ⟨bytes⟩) := by
  refine same_bind (alike_findFrom? (Restricted.alikeUpTo n) hn htag 0 _ _ rfl)
    fun pair s memory hfound hs => ?_
  cases pair with
  | none => exact .ok none hs
  | some pair =>
    have hlength := contentLength_le_of_findFrom? hcap hvalue hfound
    exact Alike.bind (alike_content (Restricted.alikeUpTo n) hlength) (fun _ => .pure _) s memory hs

theorem same_erase (htag : (Utf8.encode tag).length ≤ n)
    (hvalue : FirstValueWithin framing n tag bytes) :
    SameLimited n (erase framing tag (limited n ⟨bytes⟩)) (erase framing tag ⟨bytes⟩) := by
  refine same_bind (alike_findFrom? (Restricted.alikeUpTo n) hn htag 0 _ _ rfl)
    fun pair s memory hfound hs => ?_
  cases pair with
  | none => exact .ok none hs
  | some pair =>
    have hlength := contentLength_le_of_findFrom? hcap hvalue hfound
    refine Alike.bind (alike_content (Restricted.alikeUpTo n) hlength) (fun value => ?_) s memory hs
    exact .bind ((Restricted.alikeUpTo n).delete _ _) fun _ => .pure _

/-- At the end of some pairs, the list of tags goes on with the tag behind them. -/
theorem same_iterate_tags {before : List RawPair} (hbefore : encodeRaws framing before <+: bytes)
    (htags : TagsWithin framing n bytes) (rounds : Nat) (found : List String) :
    SameLimited n
      (iterate (tagsRound framing) rounds ((encodeRaws framing before).length, found)
        (limited n ⟨bytes⟩))
      (iterate (tagsRound framing) rounds ((encodeRaws framing before).length, found) ⟨bytes⟩) := by
  induction rounds generalizing before found with
  | zero => exact .error ⟨rfl, rfl⟩
  | succ rounds ih =>
    refine same_iterate ?_ fun next s memory hround hs => ?_
    · refine same_bind (alike_pairAt? (Restricted.alikeUpTo n) hn _ _ _ rfl)
        fun pair s memory hpair hs => ?_
      cases pair with
      | none => exact .ok _ hs
      | some pair =>
        obtain ⟨raw, hraw, rfl, -⟩ := standsBehind_of_pairAt? hcap hbefore hpair
        have hlength : (rawAt framing (encodeRaws framing before).length raw).tag.contentLength ≤ n :=
          (framing.contentLength_boundsOf _ _).trans_le (htags before raw hraw)
        exact Alike.bind (alike_readTag (Restricted.alikeUpTo n) hlength) (fun _ => .pure _) s memory hs
    · -- the next round starts behind the pair that was found
      subst hs
      obtain ⟨pair, _, hpair, hround⟩ := bind_ok_iff.mp hround
      cases pair with
      | none => cases hround
      | some pair =>
        obtain ⟨raw, hraw, rfl, rfl⟩ := standsBehind_of_pairAt? hcap hbefore hpair
        obtain ⟨tag, _, htag, hround⟩ := bind_ok_iff.mp hround
        cases hround
        obtain rfl := readTag_after htag
        have hlater := ih hraw (tag :: found)
        rw [encodeRaws_append, encodeRaws_cons, encodeRaws_nil, List.append_nil,
          List.length_append] at hlater
        rw [rawAt_stop]
        exact hlater

/-! ### Short reads suffice -/

/-- What reads no content: bounds, skips and removals of records, and the number of pairs. -/
structure SkipsWithin (framing : Framing) (n : Nat) (bytes : Bytes) : Prop where
  boundsAt? : ∀ position, SameLimited n (framing.boundsAt? position (limited n ⟨bytes⟩))
    (framing.boundsAt? position ⟨bytes⟩)
  skip? : ∀ offset, Same (Cursor.Over fun s memory => s = limited n memory)
    (Cursor.skip? framing ⟨limited n ⟨bytes⟩, offset⟩) (Cursor.skip? framing ⟨⟨bytes⟩, offset⟩)
  delete? : ∀ offset, Same (Cursor.Over fun s memory => s = limited n memory)
    (Cursor.delete? framing ⟨limited n ⟨bytes⟩, offset⟩) (Cursor.delete? framing ⟨⟨bytes⟩, offset⟩)
  deleteMany : ∀ max offset, Same (Cursor.Over fun s memory => s = limited n memory)
    (Cursor.deleteMany framing max ⟨limited n ⟨bytes⟩, offset⟩)
    (Cursor.deleteMany framing max ⟨⟨bytes⟩, offset⟩)
  size : SameLimited n (TagStore.size framing (limited n ⟨bytes⟩)) (TagStore.size framing ⟨bytes⟩)

omit hcap in
theorem skipsWithin (bytes : Bytes) : SkipsWithin framing n bytes where
  boundsAt? position := Framing.alike_boundsAt? (Restricted.alikeUpTo n) hn position _ _ rfl
  skip? _ := Cursor.alike_skip? (Restricted.alikeUpTo n) hn _ _ ⟨rfl, rfl⟩
  delete? _ := Cursor.alike_delete? (Restricted.alikeUpTo n) hn _ _ ⟨rfl, rfl⟩
  deleteMany max _ := Alike.bind
    (Cursor.alike_collect max (Cursor.alike_delete? (Restricted.alikeUpTo n) hn))
    (fun _ => .pure _) _ _ ⟨rfl, rfl⟩
  size := alike_size (Restricted.alikeUpTo n) hn _ _ rfl

/-- **Short reads suffice**, whatever bytes are in a memory. -/
theorem short_reads_suffice (tag : String) :
    (∀ start stop, n < stop - start →
      ∃ e, Storage.slice start stop (limited n ⟨bytes⟩) = .error e (limited n ⟨bytes⟩)) ∧
    SkipsWithin framing n bytes ∧
    ((Utf8.encode tag).length ≤ n →
      SameLimited n (contains framing tag (limited n ⟨bytes⟩)) (contains framing tag ⟨bytes⟩) ∧
      (∀ value, SameLimited n (put framing tag value (limited n ⟨bytes⟩))
        (put framing tag value ⟨bytes⟩)) ∧
      (FirstValueWithin framing n tag bytes →
        SameLimited n (get? framing tag (limited n ⟨bytes⟩)) (get? framing tag ⟨bytes⟩) ∧
        SameLimited n (erase framing tag (limited n ⟨bytes⟩)) (erase framing tag ⟨bytes⟩))) ∧
    (TagsWithin framing n bytes →
      SameLimited n (tags framing (limited n ⟨bytes⟩)) (tags framing ⟨bytes⟩)) := by
  refine ⟨fun start stop h => ⟨_, Restricted.slice_limited_error h _⟩, skipsWithin hn bytes,
    fun htag => ⟨?_, fun value => ?_, fun hvalue => ?_⟩, fun htags => ?_⟩
  · exact alike_contains (Restricted.alikeUpTo n) hn htag _ _ rfl
  · exact leads_put (Restricted.alikeUpTo n) hn htag (fun _ _ h => h)
      (Restricted.alike_append n) value _ _ rfl
  · exact ⟨same_get? hcap hn htag hvalue, same_erase hcap hn htag hvalue⟩
  · have hfront : encodeRaws framing [] <+: bytes := List.nil_prefix
    exact same_iterate_tags hcap hn hfront htags _ []

omit hcap hn in
/-- Behind a value that is too long to be read, a short one is found. -/
theorem short_reads_suffice_behind_long_value :
    let pairs : List RawPair := [([98], List.replicate 12 0), ([97], [7])]
    let bytes := encodeRaws .byte pairs ++ []
    Framing.byte.maxIndicator ≤ 10 ∧ bytes.length ≤ Bytes.capacity ∧
      (Utf8.encode "a").length ≤ 10 ∧ FirstValueWithin .byte 10 "a" bytes ∧
      TagsWithin .byte 10 bytes ∧ SkipsWithin .byte 10 bytes ∧
      SameLimited 10 (get? .byte "a" (limited 10 ⟨bytes⟩)) (get? .byte "a" ⟨bytes⟩) ∧
      SameLimited 10 (tags .byte (limited 10 ⟨bytes⟩)) (tags .byte ⟨bytes⟩) := by
  intro pairs bytes
  have hcap : bytes.length ≤ Bytes.capacity := by decide
  have hn : Framing.byte.maxIndicator ≤ 10 := by decide
  have hencode : Utf8.encode "a" = [97] := by decide +kernel
  have htag : (Utf8.encode "a").length ≤ 10 := by
    rw [hencode]
    decide
  have hvalue : FirstValueWithin .byte 10 "a" bytes := (firstValueWithin_iff hcap noPair_nil).mpr (by
    rw [hencode]
    decide)
  have htags : TagsWithin .byte 10 bytes := (tagsWithin_iff hcap noPair_nil).mpr (by decide)
  obtain ⟨-, hskips, hkeyed, hlist⟩ := short_reads_suffice hcap hn "a"
  exact ⟨hn, hcap, htag, hvalue, htags, hskips, ((hkeyed htag).2.2 hvalue).1, hlist htags⟩

end TagStore

end FramedStore
