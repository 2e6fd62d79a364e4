import FramedStore.Proofs.Lookup
import FramedStore.Proofs.Record.Found
import FramedStore.Proofs.Text.Utf8
import FramedStore.TagStore.Basic

/-!
# Pairs of records in memory

Every memory starts with pairs of records, whose tags need not be text, and behind them either ends
or has bytes that start with no pair (`exists_split`). A search for a tag goes through those pairs and
fails at the rest (`findFrom?_raw`), and so do a look-up (`get?_raw`) and the removal of all pairs
under a tag (`eraseAll_raw`). Of a memory that is pairs and nothing else they give what a list of
pairs gives.
-/

namespace FramedStore

open Effect

/-- A tag and a value as the contents of two records. -/
abbrev RawPair := Bytes × Bytes

namespace TagStore

variable {framing : Framing} {bytes rest : Bytes} {position : Nat} {pair : RawPair}

/-- The bytes of a raw pair. -/
def encodeRaw (framing : Framing) (pair : RawPair) : Bytes :=
  framing.encode pair.1 ++ framing.encode pair.2

/-- The bytes of a list of raw pairs. -/
def encodeRaws (framing : Framing) (pairs : List RawPair) : Bytes :=
  pairs.flatMap (encodeRaw framing)

@[simp] theorem encodeRaws_nil : encodeRaws framing [] = [] := rfl

@[simp] theorem encodeRaws_cons (pair : RawPair) (pairs : List RawPair) :
    encodeRaws framing (pair :: pairs) = encodeRaw framing pair ++ encodeRaws framing pairs :=
  List.flatMap_cons

@[simp] theorem encodeRaws_append (pairs more : List RawPair) :
    encodeRaws framing (pairs ++ more) = encodeRaws framing pairs ++ encodeRaws framing more :=
  List.flatMap_append

theorem encodeRaw_ne_nil (pair : RawPair) : encodeRaw framing pair ≠ [] :=
  List.append_ne_nil_of_left_ne_nil (framing.encode_ne_nil pair.1) _

/-- The bounds of a raw pair that starts at `position`. -/
def rawAt (framing : Framing) (position : Nat) (pair : RawPair) : PairBounds where
  tag := framing.boundsOf position pair.1
  value := framing.boundsOf (position + (framing.encode pair.1).length) pair.2

@[simp] theorem rawAt_start (position : Nat) (pair : RawPair) :
    (rawAt framing position pair).start = position := rfl

@[simp] theorem rawAt_stop (position : Nat) (pair : RawPair) :
    (rawAt framing position pair).stop = position + (encodeRaw framing pair).length := by
  rw [encodeRaw, List.length_append, ← Nat.add_assoc]
  rfl

/-! ### A pair at a position -/

/-- A failure at bytes that are no record, or a record without its partner. -/
def Damaged {α : Type} (bytes : Bytes) (outcome : EStateM.Result Error Memory α) : Prop :=
  ∃ start cause, outcome = .error (.malformed start cause) ⟨bytes⟩

theorem drop_tag (h : encodeRaw framing pair <+: bytes.drop position) :
    framing.encode pair.1 <+: bytes.drop position ∧
      framing.encode pair.2 <+:
        bytes.drop (position + (framing.encode pair.1).length) := by
  obtain ⟨rest, hrest⟩ := h
  rw [encodeRaw, List.append_assoc] at hrest
  exact ⟨⟨_, hrest⟩, rest, (Bytes.drop_behind hrest.symm).symm⟩

/-- At most one pair stands at the front of a byte string. -/
theorem encodeRaw_isPrefix_unique {other : RawPair} (hcap : bytes.length ≤ Bytes.capacity)
    (h : encodeRaw framing pair <+: bytes) (hother : encodeRaw framing other <+: bytes) :
    pair = other := by
  rw [← List.drop_zero (l := bytes)] at h hother
  obtain ⟨htag, hvalue⟩ := drop_tag h
  obtain ⟨htag', hvalue'⟩ := drop_tag hother
  have hfirst : pair.1 = other.1 := Framing.encode_isPrefix_unique hcap htag htag'
  rw [← hfirst] at hvalue'
  have hcap' : (bytes.drop (0 + (framing.encode pair.1).length)).length ≤ Bytes.capacity :=
    (List.drop_sublist ..).length_le.trans hcap
  exact Prod.ext hfirst (Framing.encode_isPrefix_unique hcap' hvalue hvalue')

/-- **What looking for a pair comes to.** -/
theorem pairAt?_cases (framing : Framing) (position : Nat)
    (hcap : bytes.length ≤ Bytes.capacity) :
    (bytes.length ≤ position ∧ pairAt? framing position (⟨bytes⟩ : Memory) = .ok none ⟨bytes⟩) ∨
    (∃ pair, encodeRaw framing pair <+: bytes.drop position ∧
      pairAt? framing position (⟨bytes⟩ : Memory) =
        .ok (some (rawAt framing position pair)) ⟨bytes⟩) ∨
    (position < bytes.length ∧ (∀ pair, ¬ encodeRaw framing pair <+: bytes.drop position) ∧
      Damaged bytes (pairAt? framing position (⟨bytes⟩ : Memory))) := by
  unfold pairAt?
  rcases framing.boundsAt?_cases position hcap with
    ⟨hend, hbounds⟩ | ⟨tag, htag, hbounds⟩ | ⟨hlt, hnone, cause, hbounds⟩
  · exact .inl ⟨hend, bind_ok hbounds⟩
  · right
    have hlt : position < bytes.length := by
      have hle := htag.length_le
      have hpos := framing.length_indicator_pos tag
      rw [List.length_drop, framing.length_encode] at hle
      omega
    have htwo : ∀ pair : RawPair, encodeRaw framing pair <+: bytes.drop position →
        pair.1 = tag ∧ framing.encode pair.2 <+:
          bytes.drop (framing.boundsOf position tag).stop := by
      intro pair hpair
      obtain ⟨hfirst, hsecond⟩ := drop_tag hpair
      have hshort : (bytes.drop position).length ≤ Bytes.capacity := by
        rw [List.length_drop]
        omega
      have heq := Framing.encode_isPrefix_unique hshort hfirst htag
      rw [heq] at hsecond
      exact ⟨heq, hsecond⟩
    rw [bind_ok hbounds]
    rcases framing.boundsAt?_cases (framing.boundsOf position tag).stop hcap with
      ⟨hend, hvalue⟩ | ⟨value, hstart, hvalue⟩ | ⟨-, hnone, cause, hvalue⟩
    · refine .inr ⟨hlt, fun pair hpair => ?_, ?_⟩
      · have hle := (htwo pair hpair).2.length_le
        have hpos := framing.length_indicator_pos pair.2
        rw [List.length_drop, framing.length_encode] at hle
        omega
      · exact ⟨_, _, bind_ok hvalue⟩
    · refine .inl ⟨(tag, value), ?_, bind_ok hvalue⟩
      obtain ⟨rest, hrest⟩ := htag
      obtain ⟨rest', hrest'⟩ := hstart
      refine ⟨rest', ?_⟩
      have hdrop : bytes.drop (framing.boundsOf position tag).stop = rest :=
        Bytes.drop_behind hrest.symm
      rw [encodeRaw, List.append_assoc, ← hrest, hrest', hdrop]
    · exact .inr ⟨hlt, fun pair hpair => hnone pair.2 (htwo pair hpair).2, _, _, bind_error hvalue⟩
  · refine .inr (.inr ⟨hlt, fun pair hpair => hnone pair.1 (drop_tag hpair).1, ?_⟩)
    exact ⟨_, _, bind_error hbounds⟩

/-! ### The pairs at the front of a memory -/

/-- No pair stands at the front of a byte string. -/
def NoPair (framing : Framing) (rest : Bytes) : Prop :=
  ∀ pair, ¬ encodeRaw framing pair <+: rest

/-- Every byte string is pairs, and behind them bytes that start with none. -/
theorem exists_split (framing : Framing) (bytes : Bytes) :
    ∃ pairs rest, bytes = encodeRaws framing pairs ++ rest ∧ NoPair framing rest :=
  Bytes.exists_eq_flatMap encodeRaw_ne_nil bytes

theorem noPair_nil : NoPair framing [] := fun pair h =>
  encodeRaw_ne_nil pair (List.prefix_nil.mp h)

theorem encodeRaws_isPrefix_iff {front pairs : List RawPair}
    (hcap : (encodeRaws framing pairs ++ rest).length ≤ Bytes.capacity) (hrest : NoPair framing rest) :
    encodeRaws framing front <+: encodeRaws framing pairs ++ rest ↔ front <+: pairs := by
  induction front generalizing pairs with
  | nil => exact iff_of_true List.nil_prefix List.nil_prefix
  | cons first front ih =>
    cases pairs with
    | nil =>
      rw [encodeRaws_nil, List.nil_append, encodeRaws_cons, List.prefix_nil]
      exact iff_of_false (fun h => hrest first ((List.prefix_append ..).trans h)) nofun
    | cons pair pairs =>
      rw [encodeRaws_cons, encodeRaws_cons, List.append_assoc, List.cons_prefix_cons]
      rw [encodeRaws_cons, List.append_assoc] at hcap
      have hcap' : (encodeRaws framing pairs ++ rest).length ≤ Bytes.capacity := by
        rw [List.length_append] at hcap
        omega
      constructor
      · intro h
        obtain rfl := encodeRaw_isPrefix_unique hcap ((List.prefix_append ..).trans h)
          (List.prefix_append ..)
        exact ⟨rfl, (ih hcap').mp ((List.prefix_append_right_inj _).mp h)⟩
      · rintro ⟨rfl, h⟩
        exact (List.prefix_append_right_inj _).mpr ((ih hcap').mpr h)

section Search

variable {pairs : List RawPair} (hcap : bytes.length ≤ Bytes.capacity)
include hcap

theorem pairAt?_raw (h : encodeRaw framing pair <+: bytes.drop position) :
    pairAt? framing position (⟨bytes⟩ : Memory) =
      .ok (some (rawAt framing position pair)) ⟨bytes⟩ := by
  obtain ⟨htag, hvalue⟩ := drop_tag h
  unfold pairAt?
  rw [bind_ok (Framing.boundsAt?_of_isPrefix hcap htag)]
  exact bind_ok (Framing.boundsAt?_of_isPrefix hcap hvalue)

theorem pairAt?_rest (h : bytes.drop position = rest) (hrest : NoPair framing rest) :
    rest = [] ∧ pairAt? framing position (⟨bytes⟩ : Memory) = .ok none ⟨bytes⟩ ∨
      rest ≠ [] ∧ Damaged bytes (pairAt? framing position (⟨bytes⟩ : Memory)) := by
  subst h
  rcases pairAt?_cases framing position hcap with ⟨hend, hnone⟩ | ⟨pair, hpair, -⟩ | ⟨hlt, -, herror⟩
  · exact .inl ⟨List.drop_eq_nil_iff.mpr hend, hnone⟩
  · exact absurd hpair (hrest pair)
  · refine .inr ⟨fun hnil => ?_, herror⟩
    have hend := List.drop_eq_nil_iff.mp hnil
    omega

omit hcap in
theorem matchesTag_raw (h : encodeRaw framing pair <+: bytes.drop position) (tag : String) :
    matchesTag (rawAt framing position pair).tag tag (⟨bytes⟩ : Memory) =
      .ok (pair.1 == Utf8.encode tag) ⟨bytes⟩ := by
  have hlength : (rawAt framing position pair).tag.contentLength = pair.1.length :=
    framing.contentLength_boundsOf position _
  unfold matchesTag
  simp only [hlength, if_apply]
  split
  · -- tags of different lengths differ
    rename_i hne
    have hfalse : (pair.1 == Utf8.encode tag) = false := by
      rw [beq_eq_false_iff_ne]
      intro heq
      exact hne (congrArg List.length heq)
    rw [hfalse]
    rfl
  · exact (bind_ok (Framing.slice_boundsOf (drop_tag h).1)).trans rfl

theorem findRound_raw (h : encodeRaw framing pair <+: bytes.drop position) (tag : String) :
    findRound framing tag position (⟨bytes⟩ : Memory) =
      .ok (if pair.1 = Utf8.encode tag then .done (some (rawAt framing position pair))
        else .again (position + (encodeRaw framing pair).length)) ⟨bytes⟩ := by
  unfold findRound
  rw [bind_ok (pairAt?_raw hcap h)]
  refine (bind_ok (matchesTag_raw h tag)).trans ?_
  by_cases heq : pair.1 = Utf8.encode tag <;> simp [heq]

/-- What the search for a tag comes to where some pairs are ahead, and behind them bytes that are no
pair: the first pair under the tag, or the end, or a failure at those bytes. -/
inductive Searched (framing : Framing) (tag : String) (bytes : Bytes) (position : Nat)
    (pairs : List RawPair) (rest : Bytes)
    (outcome : EStateM.Result Error Memory (Option PairBounds)) : Prop
  | first (before : List RawPair) (value : Bytes) (after : List RawPair)
    (hpairs : pairs = before ++ (Utf8.encode tag, value) :: after)
    (hbefore : ∀ pair ∈ before, pair.1 ≠ Utf8.encode tag)
    (houtcome : outcome = .ok (some (rawAt framing
      (position + (encodeRaws framing before).length) (Utf8.encode tag, value))) ⟨bytes⟩)
  | absent (habsent : ∀ pair ∈ pairs, pair.1 ≠ Utf8.encode tag) (hrest : rest = [])
    (houtcome : outcome = .ok none ⟨bytes⟩)
  | damaged (habsent : ∀ pair ∈ pairs, pair.1 ≠ Utf8.encode tag) (hrest : rest ≠ [])
    (houtcome : Damaged bytes outcome)

/-- The search goes from pair to pair. -/
theorem iterate_findRound_raw (tag : String)
    (h : bytes.drop position = encodeRaws framing pairs ++ rest) (hrest : NoPair framing rest)
    {rounds : Nat} (hrounds : pairs.length < rounds) :
    Searched framing tag bytes position pairs rest
      (iterate (findRound framing tag) rounds position (⟨bytes⟩ : Memory)) := by
  induction pairs generalizing position rounds with
  | nil =>
    obtain ⟨rounds, rfl⟩ := Nat.exists_eq_add_one.mpr (Nat.zero_lt_of_lt hrounds)
    rcases pairAt?_rest hcap h hrest with ⟨hnil, hpair⟩ | ⟨hne, start, cause, hpair⟩
    · exact .absent nofun hnil (iterate_done ((bind_ok hpair).trans rfl))
    · exact .damaged nofun hne ⟨start, cause, iterate_error (bind_error hpair)⟩
  | cons pair pairs ih =>
    obtain ⟨rounds, rfl⟩ := Nat.exists_eq_add_one.mpr (Nat.zero_lt_of_lt hrounds)
    rw [encodeRaws_cons, List.append_assoc] at h
    have hround := findRound_raw hcap ⟨_, h.symm⟩ tag
    by_cases heq : pair.1 = Utf8.encode tag
    · rw [if_pos heq] at hround
      have hpair : pair = (Utf8.encode tag, pair.2) := Prod.ext heq rfl
      refine .first [] pair.2 pairs (congrArg (· :: pairs) hpair) nofun ?_
      rw [iterate_done hround, ← hpair]
      rfl
    · rw [if_neg heq] at hround
      rw [iterate_again hround]
      rcases ih (Bytes.drop_behind h) (Nat.lt_of_succ_lt_succ hrounds) with
        ⟨before, value, after, rfl, hbefore, hfound⟩ | ⟨habsent, hnil, hfound⟩ |
          ⟨habsent, hne, hfound⟩
      · refine .first (pair :: before) value after rfl (List.forall_mem_cons.mpr ⟨heq, hbefore⟩) ?_
        rw [hfound, encodeRaws_cons, List.length_append, ← Nat.add_assoc]
      · exact .absent (List.forall_mem_cons.mpr ⟨heq, habsent⟩) hnil hfound
      · exact .damaged (List.forall_mem_cons.mpr ⟨heq, habsent⟩) hne hfound

/-- **What the search for a tag comes to.** -/
theorem findFrom?_raw (tag : String)
    (h : bytes.drop position = encodeRaws framing pairs ++ rest) (hrest : NoPair framing rest) :
    Searched framing tag bytes position pairs rest
      (findFrom? framing tag position (⟨bytes⟩ : Memory)) :=
  iterate_findRound_raw hcap tag h hrest (Bytes.length_lt_range encodeRaw_ne_nil hcap h)

end Search

/-! ### The pairs under a tag -/

/-- The raw pairs that are not under a tag. -/
def without (tag : String) (pairs : List RawPair) : List RawPair :=
  pairs.filter (·.1 != Utf8.encode tag)

/-- The value of the first raw pair under a tag. -/
def firstValue (tag : String) (pairs : List RawPair) : Option Bytes :=
  (pairs.find? (·.1 == Utf8.encode tag)).map (·.2)

section Absent

variable {tag : String} {pairs : List RawPair}
  (habsent : ∀ pair ∈ pairs, pair.1 ≠ Utf8.encode tag)
include habsent

theorem without_absent : without tag pairs = pairs := filter_absent habsent

theorem firstValue_absent : firstValue tag pairs = none := by
  rw [firstValue, find?_absent habsent]
  rfl

end Absent

section First

variable {tag : String} {value : Bytes} {before after : List RawPair}
  (hbefore : ∀ pair ∈ before, pair.1 ≠ Utf8.encode tag)
include hbefore

theorem without_first :
    without tag (before ++ (Utf8.encode tag, value) :: after) = before ++ without tag after :=
  filter_first hbefore

theorem firstValue_first :
    firstValue tag (before ++ (Utf8.encode tag, value) :: after) = some value := by
  rw [firstValue, find?_first hbefore]
  rfl

end First

theorem length_encodeRaws_without_le (framing : Framing) (tag : String) (pairs : List RawPair) :
    (encodeRaws framing (without tag pairs)).length ≤ (encodeRaws framing pairs).length := by
  induction pairs with
  | nil => simp [without]
  | cons pair pairs ih =>
    by_cases hpair : pair.1 = Utf8.encode tag
    · rw [without, List.filter_cons_of_neg (by simp [hpair]), encodeRaws_cons, List.length_append]
      exact Nat.le_trans ih (Nat.le_add_left _ _)
    · rw [without, List.filter_cons_of_pos (by simp [hpair]), encodeRaws_cons, encodeRaws_cons,
        List.length_append, List.length_append]
      exact Nat.add_le_add_left ih _

theorem firstValue_without {tag other : String} (h : other ≠ tag) (pairs : List RawPair) :
    firstValue other (without tag pairs) = firstValue other pairs := by
  have hboth : ∀ pair : RawPair,
      decide ((pair.1 != Utf8.encode tag) = true ∧ (pair.1 == Utf8.encode other) = true) =
        (pair.1 == Utf8.encode other) := by
    intro pair
    by_cases heq : pair.1 = Utf8.encode other
    · have hne : Utf8.encode other ≠ Utf8.encode tag := fun htag => h (Utf8.encode_inj.mp htag)
      simp [heq, hne]
    · simp [heq]
  rw [firstValue, without, List.find?_filter, funext hboth]
  rfl

/-! ### Removing pairs -/

/-- An outcome in a state as wanted, which is a failure just if bytes are left over, and else an answer
as wanted. -/
def Leaves {σ α : Type} (rest : Bytes) (answer : α → Prop) (left : σ → Prop) :
    EStateM.Result Error σ α → Prop
  | .ok a s => rest = [] ∧ answer a ∧ left s
  | .error _ s => rest ≠ [] ∧ left s

theorem Leaves.eq_ok {σ α : Type} {a : α} {s : σ} {outcome : EStateM.Result Error σ α}
    (h : Leaves [] (· = a) (· = s) outcome) : outcome = .ok a s := by
  cases outcome with
  | ok =>
    obtain ⟨-, rfl, rfl⟩ := h
    rfl
  | error => exact absurd rfl h.1

theorem delete_rawAt (front behind : Bytes) (pair : RawPair) :
    Storage.delete (rawAt framing front.length pair).start (rawAt framing front.length pair).stop
        (⟨front ++ (encodeRaw framing pair ++ behind)⟩ : Memory) =
      .ok ⟨⟩ ⟨front ++ behind⟩ := by
  rw [Memory.delete_apply, rawAt_start, rawAt_stop, if_pos, ← List.append_assoc,
    Bytes.remove_middle]
  simp only [List.length_append]
  omega

variable {pairs : List RawPair}

/-- The pairs behind `front` are gone through once, by way of those under the tag. -/
theorem iterate_eraseAllRound_raw (tag : String) (hrest : NoPair framing rest) (front : Bytes)
    (hcap : (front ++ (encodeRaws framing pairs ++ rest)).length ≤ Bytes.capacity) (removed : Nat)
    {rounds : Nat} (hrounds : pairs.length < rounds) :
    Leaves rest (· = removed + pairs.countP (·.1 == Utf8.encode tag))
      (· = ⟨front ++ (encodeRaws framing (without tag pairs) ++ rest)⟩)
      (iterate (eraseAllRound framing tag) rounds (front.length, removed)
        (⟨front ++ (encodeRaws framing pairs ++ rest)⟩ : Memory)) := by
  induction hlength : pairs.length using Nat.strongRecOn
    generalizing pairs front removed rounds with
  | ind length ih =>
    obtain ⟨rounds, rfl⟩ := Nat.exists_eq_add_one.mpr (Nat.zero_lt_of_lt hrounds)
    rcases findFrom?_raw hcap tag List.drop_left hrest with
      ⟨before, value, after, rfl, hbefore, hfound⟩ | ⟨habsent, rfl, hfound⟩ |
        ⟨habsent, hne, _, _, hfound⟩
    · have hbytes : front ++ (encodeRaws framing (before ++ (Utf8.encode tag, value) :: after) ++
            rest) =
          front ++ encodeRaws framing before ++
            (encodeRaw framing (Utf8.encode tag, value) ++
              (encodeRaws framing after ++ rest)) := by
        simp only [encodeRaws_append, encodeRaws_cons, List.append_assoc]
      have hround : eraseAllRound framing tag (front.length, removed)
          (⟨front ++ (encodeRaws framing (before ++ (Utf8.encode tag, value) :: after) ++ rest)⟩ :
            Memory) =
          .ok (.again ((front ++ encodeRaws framing before).length, removed + 1))
            ⟨front ++ encodeRaws framing before ++ (encodeRaws framing after ++ rest)⟩ := by
        refine (bind_ok hfound).trans ?_
        rw [← List.length_append, hbytes]
        exact (bind_ok (delete_rawAt _ _ _)).trans rfl
      -- the kept pairs join the front, and the search goes on right behind them
      have hless : (front ++ encodeRaws framing before ++
          (encodeRaws framing after ++ rest)).length ≤ Bytes.capacity := by
        rw [hbytes] at hcap
        simp only [List.length_append] at hcap ⊢
        omega
      have hfewer : after.length < length := by
        rw [← hlength, List.length_append, List.length_cons]
        omega
      have hlater := ih _ hfewer _ hless (removed + 1) (show after.length < rounds by omega) rfl
      rw [iterate_again hround, without_first hbefore, countP_first hbefore, encodeRaws_append,
        Nat.add_comm _ 1, ← Nat.add_assoc]
      simpa only [List.append_assoc] using hlater
    · rw [without_absent habsent, countP_absent habsent, iterate_done ((bind_ok hfound).trans rfl)]
      exact ⟨rfl, rfl, rfl⟩
    · rw [without_absent habsent, iterate_error (bind_error hfound)]
      exact ⟨hne, rfl⟩

/-- **What the removal of all pairs under a tag comes to.** -/
theorem eraseAll_raw (tag : String) (hrest : NoPair framing rest)
    (hcap : (encodeRaws framing pairs ++ rest).length ≤ Bytes.capacity) :
    Leaves rest (· = pairs.countP (·.1 == Utf8.encode tag))
      (· = ⟨encodeRaws framing (without tag pairs) ++ rest⟩)
      (eraseAll framing tag (⟨encodeRaws framing pairs ++ rest⟩ : Memory)) := by
  have hmany := Bytes.length_lt_range encodeRaw_ne_nil hcap List.drop_zero
  have hleaves := iterate_eraseAllRound_raw tag hrest [] hcap 0 hmany
  rw [Nat.zero_add] at hleaves
  exact hleaves

/-! ### Look-ups -/

theorem content_rawAt (framing : Framing) (before after : List RawPair) (pair : RawPair)
    (rest : Bytes) :
    content (rawAt framing (encodeRaws framing before).length pair).value
        (⟨encodeRaws framing (before ++ pair :: after) ++ rest⟩ : Memory) =
      .ok pair.2 ⟨encodeRaws framing (before ++ pair :: after) ++ rest⟩ := by
  refine Framing.slice_boundsOf (drop_tag ?_).2
  rw [encodeRaws_append, List.append_assoc, List.drop_left, encodeRaws_cons, List.append_assoc]
  exact List.prefix_append _ _

/-- **What a look-up comes to**: the first value under the tag, or the end, or a failure at bytes that
are no pair. -/
theorem get?_raw (tag : String) (hrest : NoPair framing rest)
    (hcap : (encodeRaws framing pairs ++ rest).length ≤ Bytes.capacity) :
    (∃ value, firstValue tag pairs = some value ∧
      get? framing tag (⟨encodeRaws framing pairs ++ rest⟩ : Memory) =
        .ok (some value) ⟨encodeRaws framing pairs ++ rest⟩ ∧
      contains framing tag (⟨encodeRaws framing pairs ++ rest⟩ : Memory) =
        .ok true ⟨encodeRaws framing pairs ++ rest⟩) ∨
    (firstValue tag pairs = none ∧
      (rest = [] ∧
          get? framing tag (⟨encodeRaws framing pairs ++ rest⟩ : Memory) =
            .ok none ⟨encodeRaws framing pairs ++ rest⟩ ∧
          contains framing tag (⟨encodeRaws framing pairs ++ rest⟩ : Memory) =
            .ok false ⟨encodeRaws framing pairs ++ rest⟩ ∨
        rest ≠ [] ∧
          Damaged (encodeRaws framing pairs ++ rest)
            (get? framing tag (⟨encodeRaws framing pairs ++ rest⟩ : Memory)) ∧
          Damaged (encodeRaws framing pairs ++ rest)
            (contains framing tag (⟨encodeRaws framing pairs ++ rest⟩ : Memory)))) := by
  rcases findFrom?_raw hcap tag List.drop_zero hrest with
    ⟨before, value, after, rfl, hbefore, hfound⟩ | ⟨habsent, hnil, hfound⟩ |
      ⟨habsent, hne, start, cause, hfound⟩
  · rw [Nat.zero_add] at hfound
    exact .inl ⟨value, firstValue_first hbefore,
      (bind_ok hfound).trans ((bind_ok (content_rawAt framing before after _ rest)).trans rfl),
      (bind_ok hfound).trans rfl⟩
  · exact .inr ⟨firstValue_absent habsent,
      .inl ⟨hnil, (bind_ok hfound).trans rfl, (bind_ok hfound).trans rfl⟩⟩
  · exact .inr ⟨firstValue_absent habsent,
      .inr ⟨hne, ⟨start, cause, bind_error hfound⟩, ⟨start, cause, bind_error hfound⟩⟩⟩

theorem get?_eq_some {tag : String} {value : Bytes} {after : Memory} (hrest : NoPair framing rest)
    (hcap : (encodeRaws framing pairs ++ rest).length ≤ Bytes.capacity) :
    get? framing tag (⟨encodeRaws framing pairs ++ rest⟩ : Memory) = .ok (some value) after ↔
      firstValue tag pairs = some value ∧ after = ⟨encodeRaws framing pairs ++ rest⟩ := by
  rcases get?_raw tag hrest hcap with ⟨found, hfirst, hget, -⟩ | ⟨hfirst, ⟨-, hget, -⟩ |
    ⟨-, ⟨start, cause, hget⟩, -⟩⟩
  · rw [hfirst, hget]
    simp only [EStateM.Result.ok.injEq, Option.some.injEq]
    exact and_congr_right fun _ => eq_comm
  · rw [hfirst, hget]
    simp
  · rw [hfirst, hget]
    simp

/-! ### Pairs and nothing else -/

section Pairs

variable (tag : String) (hcap : (encodeRaws framing pairs).length ≤ Bytes.capacity)
include hcap

theorem get?_pairs :
    get? framing tag (⟨encodeRaws framing pairs⟩ : Memory) =
        .ok (firstValue tag pairs) ⟨encodeRaws framing pairs⟩ ∧
      contains framing tag (⟨encodeRaws framing pairs⟩ : Memory) =
        .ok (firstValue tag pairs).isSome ⟨encodeRaws framing pairs⟩ := by
  rw [← List.append_nil (encodeRaws framing pairs)] at hcap ⊢
  rcases get?_raw tag noPair_nil hcap with ⟨value, hfirst, hfound⟩ | ⟨hfirst, ⟨-, hend⟩ | ⟨hne, -⟩⟩
  · rw [hfirst]
    exact hfound
  · rw [hfirst]
    exact hend
  · exact absurd rfl hne

theorem eraseAll_pairs :
    eraseAll framing tag (⟨encodeRaws framing pairs⟩ : Memory) =
      .ok (pairs.countP (·.1 == Utf8.encode tag)) ⟨encodeRaws framing (without tag pairs)⟩ := by
  rw [← List.append_nil (encodeRaws framing pairs)] at hcap ⊢
  have hleaves := eraseAll_raw tag noPair_nil hcap
  rw [List.append_nil (encodeRaws framing (without tag pairs))] at hleaves
  exact hleaves.eq_ok

theorem erase_pairs :
    erase framing tag (⟨encodeRaws framing pairs⟩ : Memory) =
      .ok (firstValue tag pairs)
        ⟨encodeRaws framing (pairs.eraseP (·.1 == Utf8.encode tag))⟩ := by
  have hpairs : (encodeRaws framing pairs).drop 0 = encodeRaws framing pairs ++ [] := by simp
  unfold erase
  rcases findFrom?_raw hcap tag hpairs noPair_nil with
    ⟨before, value, after, rfl, hbefore, hfound⟩ | ⟨habsent, -, hfound⟩ | ⟨-, hne, -⟩
  · rw [Nat.zero_add] at hfound
    rw [firstValue_first hbefore, eraseP_first hbefore]
    have hcontent := content_rawAt framing before after (Utf8.encode tag, value) []
    rw [List.append_nil] at hcontent
    refine (bind_ok hfound).trans ((bind_ok hcontent).trans ?_)
    rw [encodeRaws_append, encodeRaws_cons, encodeRaws_append]
    exact (bind_ok (delete_rawAt _ _ _)).trans rfl
  · rw [firstValue_absent habsent, eraseP_absent habsent]
    exact (bind_ok hfound).trans rfl
  · exact absurd rfl hne

end Pairs

end TagStore

end FramedStore
