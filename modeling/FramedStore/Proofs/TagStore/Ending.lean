import FramedStore.Proofs.Record.Ending
import FramedStore.Proofs.TagStore.Sweep
import FramedStore.Router.Composite

/-!
# Scans end

A scan of a tag store that changes nothing goes on behind the pair that it has found (`Behind`), and the
removal of pairs makes the memory shorter. A walk has as many bytes before it (`left`) after an entry is
removed as it had before, and fewer after each step. So all of them end, whatever the bytes are
(`every_scan_ends`).
-/

namespace FramedStore

open Effect

namespace TagStore

variable {framing : Framing} {bytes : Bytes}

/-! ### To look is to read -/

section Reads

variable (memory : Memory)

theorem reads_pairAt? (framing : Framing) (position : Nat) :
    Reads memory (pairAt? framing position memory) := by
  refine .bind (Framing.reads_boundsAt? memory framing position) fun tag => ?_
  cases tag with
  | none => exact .pure none
  | some tag =>
    refine .bind (Framing.reads_boundsAt? memory framing tag.stop) fun value => ?_
    cases value with
    | none => exact .throw nofun
    | some value => exact .pure _

theorem reads_readTag (bounds : Bounds) : Reads memory (readTag bounds memory) := by
  refine .bind (memory.reads_slice _ _) fun bytes => ?_
  cases Utf8.decode bytes with
  | ok tag => exact .pure tag
  | error fault => exact .throw nofun

theorem reads_readPair (pair : PairBounds) : Reads memory (readPair pair memory) :=
  .bind (reads_readTag memory pair.tag) fun _ => .bind (memory.reads_slice _ _) fun _ => .pure _

theorem reads_matchesTag (bounds : Bounds) (tag : String) :
    Reads memory (matchesTag bounds tag memory) :=
  .ite _ (.pure false) (.bind (memory.reads_slice _ _) fun _ => .pure _)

end Reads

/-! ### Rounds -/

/-- A pair that is found starts at the position and ends behind it. -/
theorem pairAt?_lt {position : Nat} {pair : PairBounds} {after : Memory}
    (hcap : bytes.length ≤ Bytes.capacity)
    (h : pairAt? framing position (⟨bytes⟩ : Memory) = .ok (some pair) after) :
    pair.start = position ∧ position < pair.stop ∧ pair.stop ≤ bytes.length := by
  rcases pairAt?_cases framing position hcap with
    ⟨-, hnone⟩ | ⟨found, hfound, hpair⟩ | ⟨-, -, _, _, herror⟩
  · cases h.symm.trans hnone
  · cases h.symm.trans hpair
    have hle := hfound.length_le
    have hpos : 0 < (encodeRaw framing found).length :=
      List.length_pos_iff.mpr (encodeRaw_ne_nil found)
    rw [List.length_drop] at hle
    rw [rawAt_start, rawAt_stop]
    omega
  · cases h.symm.trans herror

section Rounds

variable {β γ : Type} {position : β → Nat} {wanted : EStateM.Result Error Memory γ → Prop}

/-- A round of a scan that changes nothing goes on at a later position. -/
abbrev Behind (bytes : Bytes) (position : β → Nat) (wanted : EStateM.Result Error Memory γ → Prop)
    (b : β) : EStateM.Result Error Memory (Round β γ) → Prop :=
  Round.Keeps (fun _ memory => memory = ⟨bytes⟩) (fun b _ => bytes.length - position b) wanted b ⟨bytes⟩

theorem endsWithin_of_behind (position : β → Nat) {step : β → Effect Memory (Round β γ)}
    (hwanted : ∀ outcome, wanted outcome → Finished outcome)
    (hstep : ∀ b, Behind bytes position wanted b (step b ⟨bytes⟩)) (b : β) :
    EndsWithin step (bytes.length + 1) b ⟨bytes⟩ := by
  refine endsWithin_of_keeps (fun _ memory => memory = ⟨bytes⟩) (fun b _ => bytes.length - position b)
    hwanted ?_ rfl (Nat.lt_succ_of_le (Nat.sub_le _ _))
  rintro b _ rfl
  exact hstep b

/-- A round that looks for a pair first. -/
theorem behind_pairAt? (hcap : bytes.length ≤ Bytes.capacity)
    (hfailed : ∀ e, e ≠ .unending → wanted (.error e ⟨bytes⟩)) {b : β}
    {next : Option PairBounds → Effect Memory (Round β γ)}
    (hend : Behind bytes position wanted b (next none ⟨bytes⟩))
    (hpair : ∀ pair, pair.start = position b → position b < pair.stop → pair.stop ≤ bytes.length →
      Behind bytes position wanted b (next (some pair) ⟨bytes⟩)) :
    Behind bytes position wanted b ((pairAt? framing (position b) >>= next) ⟨bytes⟩) := by
  refine .read hfailed (reads_pairAt? _ framing (position b)) fun pair h => ?_
  cases pair with
  | none => exact hend
  | some pair =>
    obtain ⟨hstart, hlt, hle⟩ := pairAt?_lt hcap h
    exact hpair pair hstart hlt hle

end Rounds

/-! ### Scans that change nothing -/

/-- A pair that is found has bytes. -/
structure Found (bytes : Bytes) (outcome : EStateM.Result Error Memory (Option PairBounds)) : Prop where
  reads : Reads ⟨bytes⟩ outcome
  pair : ∀ ⦃pair memory⦄, outcome = .ok (some pair) memory →
    pair.start < pair.stop ∧ pair.stop ≤ bytes.length

section Scans

variable (framing : Framing) (hcap : bytes.length ≤ Bytes.capacity) (tag : String)
include hcap

theorem behind_findRound (position : Nat) :
    Behind bytes id (Found bytes) position (findRound framing tag position ⟨bytes⟩) := by
  have hfailed : ∀ e, e ≠ .unending → Found bytes (.error e ⟨bytes⟩) := fun e he => ⟨⟨rfl, he⟩, nofun⟩
  refine behind_pairAt? (b := position) hcap hfailed ⟨rfl, nofun⟩ fun pair hstart hlt hle => ?_
  refine .read hfailed (reads_matchesTag _ pair.tag tag) fun found _ => ?_
  cases found with
  | true =>
    refine ⟨rfl, fun _ _ h => ?_⟩
    cases h
    exact ⟨hstart ▸ hlt, hle⟩
  | false => exact ⟨rfl, Nat.sub_lt_sub_left (hlt.trans_le hle) hlt⟩

theorem endsWithin_findRound (position : Nat) :
    EndsWithin (findRound framing tag) (bytes.length + 1) position (⟨bytes⟩ : Memory) :=
  endsWithin_of_behind id (fun _ h => h.reads.finished) (behind_findRound framing hcap tag) position

theorem found_findFrom? (position : Nat) :
    Found bytes (findFrom? framing tag position ⟨bytes⟩) := by
  have hrange := Bytes.lt_range_of_le_capacity hcap
  refine scan_spec (fun _ memory => memory = ⟨bytes⟩) (fun position _ => bytes.length - position) _ ?_
    rfl (Nat.lt_of_le_of_lt (Nat.sub_le _ _) hrange)
  rintro position _ rfl
  exact behind_findRound framing hcap tag position

theorem endsWithin_entriesRound (state : Nat × List Entry) :
    EndsWithin (entriesRound framing) (bytes.length + 1) state (⟨bytes⟩ : Memory) := by
  refine endsWithin_of_behind Prod.fst (fun _ h => h) (fun state => ?_) state
  refine behind_pairAt? hcap (fun _ he => he) trivial fun pair _ hlt hle => ?_
  exact .read (fun _ he => he) (reads_readPair _ pair) fun _ _ =>
    ⟨rfl, Nat.sub_lt_sub_left (hlt.trans_le hle) hlt⟩

theorem endsWithin_tagsRound (state : Nat × List String) :
    EndsWithin (tagsRound framing) (bytes.length + 1) state (⟨bytes⟩ : Memory) := by
  refine endsWithin_of_behind Prod.fst (fun _ h => h) (fun state => ?_) state
  refine behind_pairAt? hcap (fun _ he => he) trivial fun pair _ hlt hle => ?_
  exact .read (fun _ he => he) (reads_readTag _ pair.tag) fun _ _ =>
    ⟨rfl, Nat.sub_lt_sub_left (hlt.trans_le hle) hlt⟩

theorem endsWithin_sizeRound (state : Nat × Nat) :
    EndsWithin (sizeRound framing) (bytes.length + 1) state (⟨bytes⟩ : Memory) := by
  refine endsWithin_of_behind Prod.fst (fun _ h => h) (fun state => ?_) state
  refine .read (fun _ he => he) (Framing.reads_boundsAt? _ framing state.1) fun bounds h => ?_
  cases bounds with
  | none =>
    dsimp only
    rw [if_apply]
    split
    · exact nofun
    · trivial
  | some bounds =>
    obtain ⟨-, hlt, hle⟩ := Cursor.boundsAt?_lt hcap h
    exact ⟨rfl, Nat.sub_lt_sub_left (hlt.trans_le hle) hlt⟩

end Scans

/-! ### Scans that remove pairs -/

/-- The position may stay where it is, but then the memory is shorter. -/
theorem endsWithin_eraseAllRound (framing : Framing) (hcap : bytes.length ≤ Bytes.capacity)
    (tag : String) (state : Nat × Nat) :
    EndsWithin (eraseAllRound framing tag) (bytes.length + 1) state (⟨bytes⟩ : Memory) := by
  have hshort : bytes.length < bytes.length + 1 := Nat.lt_succ_self _
  refine endsWithin_of_keeps (fun _ memory => memory.content.length ≤ Bytes.capacity)
    (fun _ memory => memory.content.length) (fun _ h => h) ?_ hcap hshort
  rintro ⟨position, removed⟩ ⟨bytes⟩ hbytes
  replace hbytes : bytes.length ≤ Bytes.capacity := hbytes
  obtain ⟨hreads, hpair⟩ := found_findFrom? framing hbytes tag position
  rcases hfind : findFrom? framing tag position (⟨bytes⟩ : Memory) with ⟨_ | pair, memory⟩ | ⟨e, memory⟩
  · have hround : eraseAllRound framing tag (position, removed) (⟨bytes⟩ : Memory) =
        .ok (.done removed) memory := bind_ok hfind
    rw [hround]
    trivial
  · obtain ⟨hlt, hle⟩ := hpair hfind
    rw [hfind] at hreads
    obtain rfl : memory = ⟨bytes⟩ := hreads
    have hdelete : Storage.delete pair.start pair.stop (⟨bytes⟩ : Memory) =
        .ok ⟨⟩ ⟨bytes.remove pair.start pair.stop⟩ := by
      rw [Memory.delete_apply, if_pos ⟨hlt.le, hle⟩]
    have hround : eraseAllRound framing tag (position, removed) (⟨bytes⟩ : Memory) =
        .ok (.again (pair.start, removed + 1)) ⟨bytes.remove pair.start pair.stop⟩ :=
      (bind_ok hfind).trans (bind_ok hdelete)
    have hshorter : (bytes.remove pair.start pair.stop).length < bytes.length := by
      rw [Bytes.length_remove hlt.le hle]
      omega
    rw [hround]
    exact ⟨hshorter.le.trans hbytes, hshorter⟩
  · rw [hfind] at hreads
    have hround : eraseAllRound framing tag (position, removed) (⟨bytes⟩ : Memory) = .error e memory :=
      bind_error hfind
    rw [hround]
    exact hreads.2

end TagStore

namespace Walk

open TagStore

variable {framing : Framing} {walk : Walk Memory}

/-! ### Walks -/

/-- A walk stands in its memory, not before the entry that can be removed. -/
structure Sound (walk : Walk Memory) : Prop where
  capacity : walk.storage.content.length ≤ Bytes.capacity
  offset : walk.offset ≤ walk.storage.content.length
  current : ∀ start ∈ walk.current, start ≤ walk.offset

/-- The number of bytes that a walk still has before it. -/
def left (walk : Walk Memory) : Nat :=
  if walk.failed then 0 else walk.storage.content.length - walk.offset

theorem reads_look? (memory : Memory) (framing : Framing) (position : Nat) :
    Reads memory (look? framing position memory) := by
  refine .bind (reads_pairAt? memory framing position) fun pair => ?_
  cases pair with
  | none => exact .pure none
  | some pair => exact .bind (reads_readPair memory pair) fun _ => .pure _

/-- What the next step of a walk comes to: there is no entry, or fewer bytes are left. -/
def Nears (walk : Walk Memory) : EStateM.Result Error (Walk Memory) (Option Entry) → Prop
  | .ok none _ => True
  | .ok (some _) after => after.Sound ∧ after.left < walk.left
  | .error e after => e ≠ .unending ∧ after.Sound ∧ after.left < walk.left

theorem nears_next? (framing : Framing) (hwalk : walk.Sound) : walk.Nears (next? framing walk) := by
  obtain ⟨⟨bytes⟩, offset, current, _ | _⟩ := walk
  swap
  · exact trivial
  obtain ⟨hcap, hoffset, -⟩ := hwalk
  dsimp only at hcap hoffset
  have hreads := reads_look? ⟨bytes⟩ framing offset
  show Nears _ (next? framing (going bytes offset current))
  rw [next?_going]
  rcases hlook : look? framing offset (⟨bytes⟩ : Memory) with ⟨_ | ⟨pair, entry⟩, memory⟩ | ⟨e, memory⟩
  · trivial
  · rw [hlook] at hreads
    obtain rfl : memory = ⟨bytes⟩ := hreads
    obtain ⟨found, _, hfound, hlook⟩ := bind_ok_iff.mp hlook
    cases found with
    | none => cases hlook
    | some found =>
      obtain ⟨_, _, -, hlook⟩ := bind_ok_iff.mp hlook
      cases hlook
      obtain ⟨hstart, hlt, hle⟩ := pairAt?_lt hcap hfound
      refine ⟨⟨hcap, hle, ?_⟩, Nat.sub_lt_sub_left (hlt.trans_le hle) hlt⟩
      rintro _ ⟨⟩
      exact hstart ▸ hlt.le
  · -- a failed look stands before the end, and there are no entries after it
    rw [hlook] at hreads
    obtain ⟨rfl, he⟩ := hreads
    have hlt : offset < bytes.length := by
      by_contra hend
      cases hlook.symm.trans (look?_end (Nat.le_of_not_lt hend))
    exact ⟨he, ⟨hcap, hoffset, nofun⟩, Nat.sub_pos_of_lt hlt⟩

/-- To remove an entry moves the walk back by as much as the memory is shorter. -/
theorem removeCurrent_left (hwalk : walk.Sound) :
    ∃ removed after, removeCurrent walk = .ok removed after ∧ after.Sound ∧
      after.left = walk.left := by
  obtain ⟨⟨bytes⟩, offset, _ | start, failed⟩ := walk
  · exact ⟨false, _, rfl, hwalk, rfl⟩
  obtain ⟨hcap, hoffset, hcurrent⟩ := hwalk
  dsimp only at hcap hoffset
  have hle : start ≤ offset := hcurrent start rfl
  have hdelete : Storage.delete start offset (⟨bytes⟩ : Memory) =
      .ok ⟨⟩ ⟨bytes.remove start offset⟩ := by
    rw [Memory.delete_apply, if_pos ⟨hle, hoffset⟩]
  have hlength := Bytes.length_remove hle hoffset
  have hon : onStorage (Storage.delete start offset) (⟨⟨bytes⟩, offset, none, failed⟩ : Walk Memory) =
      .ok ⟨⟩ ⟨⟨bytes.remove start offset⟩, offset, none, failed⟩ := by
    rw [onStorage, within_apply, hdelete]
  have hlost : ∀ held ∈ (none : Option Nat), held ≤ start :=
    fun _ h => absurd h (Option.not_mem_none _)
  refine ⟨true, ⟨⟨bytes.remove start offset⟩, start, none, failed⟩, ?_, ⟨?_, ?_, hlost⟩, ?_⟩
  · unfold removeCurrent
    rw [bind_ok (get_apply _)]
    exact (bind_ok (set_apply _ _)).trans (bind_ok hon)
  · dsimp only
    omega
  · dsimp only
    omega
  · unfold left
    dsimp only
    rw [hlength]
    split <;> omega

/-- **A walk comes to its end**, whatever is removed on the way, also past errors: among more calls for
the next entry than bytes are left, one has none. -/
theorem exists_last (framing : Framing) (calls : List Call) (hwalk : walk.Sound)
    (hlt : walk.left < calls.count .next) :
    ∃ made ∈ trace (perform framing) calls walk, made.outcome = .ok (.entry none) := by
  induction calls generalizing walk with
  | nil => exact absurd hlt (Nat.not_lt_zero _)
  | cons call calls ih =>
    have hlater : ∀ after : Walk Memory, (step (perform framing) call walk).after = after →
        after.Sound → after.left < calls.count .next →
          ∃ made ∈ trace (perform framing) (call :: calls) walk, made.outcome = .ok (.entry none) := by
      rintro _ rfl hafter hlt
      obtain ⟨made, hmade, hnone⟩ := ih hafter hlt
      exact ⟨made, List.mem_cons_of_mem _ hmade, hnone⟩
    cases call with
    | next =>
      have hnext := nears_next? framing hwalk
      rw [List.count_cons_self] at hlt
      rcases h : next? framing walk with ⟨_ | entry, after⟩ | ⟨e, after⟩
      · have hstep : step (perform framing) .next walk = ⟨.next, walk, .ok (.entry none), after⟩ :=
          step_ok (bind_ok h)
        exact ⟨_, List.mem_cons_self, by rw [hstep]⟩
      · rw [h] at hnext
        have hstep : step (perform framing) .next walk =
            ⟨.next, walk, .ok (.entry (some entry)), after⟩ := step_ok (bind_ok h)
        exact hlater after (by rw [hstep]) hnext.1 (by have := hnext.2; omega)
      · rw [h] at hnext
        have hstep : step (perform framing) .next walk = ⟨.next, walk, .error e, after⟩ :=
          step_error (bind_error h)
        exact hlater after (by rw [hstep]) hnext.2.1 (by have := hnext.2.2; omega)
    | remove =>
      obtain ⟨removed, after, h, hafter, hleft⟩ := removeCurrent_left hwalk
      have hstep : step (perform framing) .remove walk = ⟨.remove, walk, .ok (.flag removed), after⟩ :=
        step_ok (bind_ok h)
      rw [List.count_cons_of_ne (by decide)] at hlt
      exact hlater after (by rw [hstep]) hafter (hleft ▸ hlt)
    | offset =>
      rw [List.count_cons_of_ne (by decide)] at hlt
      exact hlater walk rfl hwalk hlt

theorem endsWithin_sweepRound (framing : Framing) (chosen : String → Bool) (hwalk : walk.Sound)
    (seen : List (Entry × Option Bool)) :
    EndsWithin (sweepRound framing chosen) (walk.left + 1) seen walk := by
  refine endsWithin_of_keeps (fun _ => Sound) (fun _ => left) (fun _ h => h) ?_ hwalk
    (Nat.lt_succ_self _)
  intro seen walk hwalk
  have hnext := nears_next? framing hwalk
  rcases h : next? framing walk with ⟨_ | entry, after⟩ | ⟨e, after⟩
  · have hround : sweepRound framing chosen seen walk = .ok (.done seen.reverse) after := bind_ok h
    rw [hround]
    trivial
  · rw [h] at hnext
    obtain ⟨hafter, hlt⟩ := hnext
    by_cases hchosen : chosen entry.1
    · obtain ⟨removed, behind, hremove, hbehind, hleft⟩ := removeCurrent_left hafter
      have hround : sweepRound framing chosen seen walk =
          .ok (.again ((entry, some removed) :: seen)) behind := by
        refine (bind_ok h).trans ?_
        simp only [hchosen, if_true]
        exact bind_ok hremove
      rw [hround]
      exact ⟨hbehind, hleft.trans_lt hlt⟩
    · have hround : sweepRound framing chosen seen walk =
          .ok (.again ((entry, none) :: seen)) after := by
        refine (bind_ok h).trans ?_
        simp [hchosen]
      rw [hround]
      exact ⟨hafter, hlt⟩
  · rw [h] at hnext
    have hround : sweepRound framing chosen seen walk = .error e after := bind_error h
    rw [hround]
    exact hnext.1

theorem finished_run {α : Type} {effect : Effect (Walk Memory) α} {memory : Memory}
    (h : Finished (effect { storage := memory })) : Finished (run effect memory) := by
  unfold run
  split
  · trivial
  · rename_i hrun
    rwa [hrun] at h

end Walk

/-! ### All scans -/

section All

variable {framing : Framing} {bytes : Bytes}

/-- Repetitions at a cursor end, however many records are wanted. -/
structure Cursor.RepetitionsEnd (framing : Framing) (bytes : Bytes) (offset : Nat) (max : Int) :
    Prop where
  decodeMany : EndsWithin (collectRound (decode? framing)) (bytes.length + 1) (limit max, [])
      (⟨⟨bytes⟩, offset⟩ : Cursor Memory) ∧
    Finished (decodeMany framing max (⟨⟨bytes⟩, offset⟩ : Cursor Memory))
  deleteMany : EndsWithin (collectRound (delete? framing)) (bytes.length + 1) (limit max, [])
      (⟨⟨bytes⟩, offset⟩ : Cursor Memory) ∧
    Finished (deleteMany framing max (⟨⟨bytes⟩, offset⟩ : Cursor Memory))
  decodeManyBack : EndsWithin (collectRound decodeBack?) (bytes.length + 1) (limit max, [])
      (⟨⟨bytes⟩, offset⟩ : Cursor Memory) ∧
    Finished (decodeManyBack max (⟨⟨bytes⟩, offset⟩ : Cursor Memory))

theorem Cursor.repetitions_end (framing : Framing) (hcap : bytes.length ≤ Bytes.capacity)
    (offset : Nat) (max : Int) : RepetitionsEnd framing bytes offset max := by
  have hrange := Bytes.lt_range_of_le_capacity hcap
  have hdecode := endsWithin_decode? framing hcap offset (limit max, [])
  have hdelete := endsWithin_delete? framing hcap offset (limit max, [])
  have hback := endsWithin_decodeBack? hcap offset (limit max, [])
  exact ⟨⟨hdecode, hdecode.finished hrange⟩,
    ⟨hdelete, finished_bind (hdelete.finished hrange) fun _ _ _ => trivial⟩,
    ⟨hback, hback.finished hrange⟩⟩

/-- The scans of a tag store end. -/
structure TagStore.ScansEnd (framing : Framing) (bytes : Bytes) : Prop where
  find (tag : String) (position : Nat) :
    EndsWithin (findRound framing tag) (bytes.length + 1) position (⟨bytes⟩ : Memory) ∧
      Finished (findFrom? framing tag position (⟨bytes⟩ : Memory))
  eraseAll (tag : String) :
    EndsWithin (eraseAllRound framing tag) (bytes.length + 1) (0, 0) (⟨bytes⟩ : Memory) ∧
      Finished (eraseAll framing tag (⟨bytes⟩ : Memory))
  entries : EndsWithin (entriesRound framing) (bytes.length + 1) (0, []) (⟨bytes⟩ : Memory) ∧
    Finished (entries framing (⟨bytes⟩ : Memory))
  tags : EndsWithin (tagsRound framing) (bytes.length + 1) (0, []) (⟨bytes⟩ : Memory) ∧
    Finished (tags framing (⟨bytes⟩ : Memory))
  size : EndsWithin (sizeRound framing) (bytes.length + 1) (0, 0) (⟨bytes⟩ : Memory) ∧
    Finished (size framing (⟨bytes⟩ : Memory))

theorem TagStore.scans_end (framing : Framing) (hcap : bytes.length ≤ Bytes.capacity) :
    ScansEnd framing bytes := by
  have hends : ∀ {β γ : Type} {step : β → Effect Memory (Round β γ)} {b : β},
      EndsWithin step (bytes.length + 1) b ⟨bytes⟩ →
        EndsWithin step (bytes.length + 1) b ⟨bytes⟩ ∧ Finished (scan step b ⟨bytes⟩) :=
    fun h => ⟨h, h.finished (Bytes.lt_range_of_le_capacity hcap)⟩
  constructor
  case find => exact fun tag position => hends (endsWithin_findRound framing hcap tag position)
  case eraseAll => exact fun tag => hends (endsWithin_eraseAllRound framing hcap tag (0, 0))
  case entries => exact hends (endsWithin_entriesRound framing hcap (0, []))
  case tags => exact hends (endsWithin_tagsRound framing hcap (0, []))
  case size => exact hends (endsWithin_sizeRound framing hcap (0, 0))

/-- Walks from the front end, whatever they remove, and so does the removal of a namespace. -/
structure Walk.WalksEnd (framing : Framing) (bytes : Bytes) : Prop where
  calls (calls : List Call) : bytes.length < calls.count .next →
    ∃ made ∈ trace (perform framing) calls ({ storage := ⟨bytes⟩ } : Walk Memory),
      made.outcome = .ok (.entry none)
  sweep (chosen : String → Bool) :
    EndsWithin (sweepRound framing chosen) (bytes.length + 1) []
        ({ storage := ⟨bytes⟩ } : Walk Memory) ∧
      Finished (run (sweep framing chosen) (⟨bytes⟩ : Memory))
  clearSuper (super : String) : Finished (Composite.clearSuper framing super (⟨bytes⟩ : Memory))

theorem Walk.walks_end (framing : Framing) (hcap : bytes.length ≤ Bytes.capacity) :
    WalksEnd framing bytes := by
  have hsound : Sound ({ storage := ⟨bytes⟩ } : Walk Memory) := ⟨hcap, Nat.zero_le _, nofun⟩
  have hrun : ∀ chosen, Finished (run (sweep framing chosen) (⟨bytes⟩ : Memory)) := fun chosen =>
    finished_run ((endsWithin_sweepRound framing chosen hsound []).finished
      (Bytes.lt_range_of_le_capacity hcap))
  constructor
  case calls => exact fun calls hlt => exists_last framing calls hsound hlt
  case sweep => exact fun chosen => ⟨endsWithin_sweepRound framing chosen hsound [], hrun chosen⟩
  case clearSuper => exact fun super => finished_bind (hrun _) fun _ _ _ => trivial

/-- **Every scan over bytes in memory ends, whatever the bytes are**, within one round more than there
are bytes: a call at a cursor that finds a record gets on by a byte at least, and so repetitions at a
cursor, scans of a tag store and walks through it come to an answer or a failure. -/
theorem every_scan_ends (framing : Framing) {bytes : Bytes} (hcap : bytes.length ≤ Bytes.capacity) :
    (∀ offset, Cursor.Progress framing bytes offset) ∧
      (∀ offset max, Cursor.RepetitionsEnd framing bytes offset max) ∧
      TagStore.ScansEnd framing bytes ∧ Walk.WalksEnd framing bytes :=
  ⟨Cursor.progress framing hcap, Cursor.repetitions_end framing hcap,
    TagStore.scans_end framing hcap, Walk.walks_end framing hcap⟩

/-- Behind a pair without a content there is a length whose digits are missing. -/
theorem every_scan_ends_damaged :
    ([0, 0, 255, 2, 1] : Bytes).length ≤ Bytes.capacity ∧
      (∀ offset, Cursor.Progress .byte [0, 0, 255, 2, 1] offset) ∧
      (∀ offset max, Cursor.RepetitionsEnd .byte [0, 0, 255, 2, 1] offset max) ∧
      TagStore.ScansEnd .byte [0, 0, 255, 2, 1] ∧ Walk.WalksEnd .byte [0, 0, 255, 2, 1] :=
  have hcap : ([0, 0, 255, 2, 1] : Bytes).length ≤ Bytes.capacity := by decide
  ⟨hcap, every_scan_ends .byte hcap⟩

end All

end FramedStore
