import FramedStore.Proofs.Effect.Programs
import FramedStore.Proofs.TagStore.Keyed
import FramedStore.Router.Call
import Mathlib.Data.List.Flatten
import Mathlib.Data.List.GetD
import Mathlib.Logic.Function.Basic

/-!
# Calls under keys of their own

A key is a super-tag and a sub-tag. Both routers have a place for each key, a tag on a shelf, and a call
under a key changes the entries at its place alone (`onShelves`). So programs whose keys are apart do
not disturb each other, in whatever order they make their calls: each has the outcomes that it has
alone (`outcomesOf_shelves`), and the values under a key are those that its program leaves
(`values_of_interleaves`).
-/

namespace FramedStore

open Effect Multimap
open TagStore (Answer encodeEntries)

/-- A call under a super-tag and a sub-tag. -/
structure KeyedCall where
  super : String
  sub : String
  use : KeyedUse
  deriving Repr, DecidableEq

namespace KeyedCall

/-- The super-tag and the sub-tag. -/
def key (call : KeyedCall) : String × String := (call.super, call.sub)

/-- The call on a router. -/
def onRouter (call : KeyedCall) : RouterCall :=
  match call.use with
  | .put value => .put call.super call.sub value
  | .push value => .push call.super call.sub value
  | .get => .get call.super call.sub
  | .erase => .erase call.super call.sub
  | .contains => .contains call.super call.sub

@[simp] theorem super_onRouter (call : KeyedCall) : call.onRouter.super = call.super := by
  unfold onRouter
  cases call.use <;> rfl

/-! ### Programs -/

/-- No two programs use the same key. -/
def Apart (programs : List (List KeyedCall)) : Prop :=
  programs.Pairwise fun program other => ∀ call ∈ program, ∀ made ∈ other, call.key ≠ made.key

/-- The values under a key when all its calls have been made in their order, the oldest one first. -/
def stored (programs : List (List KeyedCall)) (key : String × String) : List Bytes :=
  (programs.flatten.filter (·.key == key)).foldl (fun values call => call.use.onValues values) []

variable {programs : List (List KeyedCall)} {call : KeyedCall}

theorem Apart.key_ne (h : Apart programs) {number other : Nat} (hne : number ≠ other)
    {made : KeyedCall} (hcall : call ∈ programs.getD number []) (hmade : made ∈ programs.getD other []) :
    call.key ≠ made.key := by
  have hlt : ∀ {place : Nat} {used : KeyedCall}, used ∈ programs.getD place [] →
      ∃ hplace : place < programs.length, used ∈ programs[place] := by
    intro place used hused
    by_cases hplace : place < programs.length
    · refine ⟨hplace, ?_⟩
      rwa [List.getD_eq_getElem _ _ hplace] at hused
    · rw [List.getD_eq_default _ _ (Nat.not_lt.mp hplace)] at hused
      cases hused
  obtain ⟨hnumber, hcall⟩ := hlt hcall
  obtain ⟨hother, hmade⟩ := hlt hmade
  rcases Nat.lt_or_gt_of_ne hne with hless | hmore
  · exact List.pairwise_iff_getElem.mp h _ _ hnumber hother hless call hcall made hmade
  · exact (List.pairwise_iff_getElem.mp h _ _ hother hnumber hmore made hmade call hcall).symm

/-! ### Entries on shelves -/

variable {ρ : Type} [DecidableEq ρ] (place : String × String → ρ × String)

omit [DecidableEq ρ] in
/-- What a call gives. -/
def answer (call : KeyedCall) (shelves : ρ → List Entry) : Answer :=
  (apply (call.use.onTag (place call.key).2) (shelves (place call.key).1)).1

/-- The entries after a call. -/
def after (call : KeyedCall) (shelves : ρ → List Entry) : ρ → List Entry :=
  Function.update shelves (place call.key).1
    (apply (call.use.onTag (place call.key).2) (shelves (place call.key).1)).2

/-- Makes a call on the shelf of its key; none fails. -/
def onShelves (call : KeyedCall) : Effect (ρ → List Entry) Answer := fun shelves =>
  .ok (call.answer place shelves) (call.after place shelves)

omit [DecidableEq ρ] in
/-- The shelf of a call fits into a memory. -/
def Fits (framing : Framing) (call : KeyedCall) (shelves : ρ → List Entry) : Prop :=
  (encodeEntries framing (shelves (place call.key).1)).length ≤ Bytes.capacity

omit [DecidableEq ρ] in
/-- The entries at the places of some kind. -/
def restrict (keep : ρ × String → Bool) (shelves : ρ → List Entry) (shelf : ρ) : List Entry :=
  only (fun tag => keep (shelf, tag)) (shelves shelf)

@[simp] theorem step_onShelves (call : KeyedCall) (shelves : ρ → List Entry) :
    step (onShelves place) call shelves =
      ⟨call, shelves, .ok (call.answer place shelves), call.after place shelves⟩ := rfl

theorem after_self (call : KeyedCall) (shelves : ρ → List Entry) :
    call.after place shelves (place call.key).1 =
      (apply (call.use.onTag (place call.key).2) (shelves (place call.key).1)).2 :=
  Function.update_self ..

variable {place}

theorem after_of_ne {shelf : ρ} (hshelf : shelf ≠ (place call.key).1) (shelves : ρ → List Entry) :
    call.after place shelves shelf = shelves shelf :=
  Function.update_of_ne hshelf ..

section Restrict

variable {keep : ρ × String → Bool} {framing : Framing} {shelves : ρ → List Entry}

omit [DecidableEq ρ] in
/-- A call gives the same where only the entries of some places are left, and its own is among them. -/
theorem answer_restrict (hkeep : keep (place call.key) = true) (shelves : ρ → List Entry) :
    call.answer place (restrict keep shelves) = call.answer place shelves := by
  rw [answer, restrict, apply_only _ call.use hkeep]
  rfl

theorem after_restrict (hkeep : keep (place call.key) = true) (shelves : ρ → List Entry) :
    call.after place (restrict keep shelves) = restrict keep (call.after place shelves) := by
  funext shelf
  by_cases hshelf : shelf = (place call.key).1
  · rw [hshelf, after_self, restrict, restrict, after_self, apply_only _ call.use hkeep]
  · rw [after_of_ne hshelf, restrict, restrict, after_of_ne hshelf]

/-- A call at another place is not seen. -/
theorem restrict_after (hkeep : keep (place call.key) = false) (shelves : ρ → List Entry) :
    restrict keep (call.after place shelves) = restrict keep shelves := by
  funext shelf
  by_cases hshelf : shelf = (place call.key).1
  · rw [hshelf, restrict, restrict, after_self]
    exact only_apply_of_not _ call.use hkeep
  · rw [restrict, restrict, after_of_ne hshelf]

omit [DecidableEq ρ] in
theorem Fits.restrict (h : Fits place framing call shelves) :
    Fits place framing call (restrict keep shelves) := by
  have hsub : (encodeEntries framing (KeyedCall.restrict keep shelves (place call.key).1)).Sublist
      (encodeEntries framing (shelves (place call.key).1)) :=
    List.filter_sublist.flatMap _
  exact Nat.le_trans hsub.length_le h

end Restrict

/-! ### Every order of the calls -/

variable {schedule : List (Nat × KeyedCall)} {framing : Framing}

/-- Whether a place is one of the program with a number. -/
def owns (place : String × String → ρ × String) (programs : List (List KeyedCall)) (number : Nat)
    (spot : ρ × String) : Bool :=
  (programs.getD number []).any (place ·.key == spot)

variable (place) in
theorem owns_self {number : Nat} (hcall : call ∈ programs.getD number []) :
    owns place programs number (place call.key) = true :=
  List.any_eq_true.mpr ⟨call, hcall, beq_self_eq_true _⟩

theorem Apart.owns_other (hapart : Apart programs) (hplace : Function.Injective place)
    {number other : Nat} (hne : number ≠ other) (hcall : call ∈ programs.getD number []) :
    owns place programs other (place call.key) = false := by
  rw [owns, List.any_eq_false]
  intro made hmade heq
  exact hapart.key_ne hne hcall hmade (hplace (eq_of_beq heq)).symm

section Schedule

variable (hplace : Function.Injective place) (hapart : Apart programs)
  (hmem : ∀ turn ∈ schedule, turn.2 ∈ programs.getD turn.1 []) (number : Nat)

include hmem in
/-- The calls of a program do the same where only the entries at its places are left. -/
theorem step_own : ∀ call ∈ callsOf number schedule, ∀ shelves : ρ → List Entry,
    (step (onShelves place) call (restrict (owns place programs number) shelves)).outcome =
        (step (onShelves place) call shelves).outcome ∧
      (step (onShelves place) call (restrict (owns place programs number) shelves)).after =
        restrict (owns place programs number) (step (onShelves place) call shelves).after := by
  intro call hcall shelves
  have hown := owns_self place (hmem (number, call) (mem_callsOf.mp hcall))
  exact ⟨congrArg Except.ok (answer_restrict hown shelves), after_restrict hown shelves⟩

include hplace hapart hmem

/-- The calls of other programs leave the entries at its places as they are. -/
theorem step_other : ∀ turn ∈ schedule, turn.1 ≠ number → ∀ shelves : ρ → List Entry,
    restrict (owns place programs number) (step (onShelves place) turn.2 shelves).after =
      restrict (owns place programs number) shelves := by
  intro turn hturn hne shelves
  exact restrict_after (hapart.owns_other hplace hne (hmem turn hturn)) shelves

/-- **A program among others whose keys are apart has the outcomes that it has alone.** -/
theorem outcomesOf_shelves :
    outcomesOf number (trace (onTurn (onShelves place)) schedule fun _ => []) =
      (trace (onShelves place) (callsOf number schedule) fun _ => []).map (·.outcome) :=
  outcomesOf_trace (restrict (owns place programs number)) (step_own hmem number)
    (step_other hplace hapart hmem number) fun _ => []

/-- The shelves of a program alone fit into a memory if those of all programs do. -/
theorem throughout_shelves
    (hfits : Throughout (onTurn (onShelves place)) (fun turn => Fits place framing turn.2) schedule
      fun _ => []) :
    Throughout (onShelves place) (Fits place framing) (callsOf number schedule) fun _ => [] :=
  throughout_alone (restrict (owns place programs number)) (step_own hmem number)
    (step_other hplace hapart hmem number) (fun _ _ h => h.restrict) (fun _ => []) hfits

variable {σ : Type} {perform : KeyedCall → Effect σ Answer} {mirrors : σ → (ρ → List Entry) → Prop}

/-- The same holds of what does to its states what the calls do to shelves. -/
theorem outcomesOf_mirrored
    (hperform : ∀ call s shelves, mirrors s shelves → Fits place framing call shelves →
      ∃ answer s' shelves', perform call s = .ok answer s' ∧
        onShelves place call shelves = .ok answer shelves' ∧ mirrors s' shelves')
    {s : σ} (hstart : mirrors s fun _ => [])
    (hfits : Throughout (onTurn (onShelves place)) (fun turn => Fits place framing turn.2) schedule
      fun _ => []) :
    outcomesOf number (trace (onTurn (onShelves place)) schedule fun _ => []) =
      (trace perform (callsOf number schedule) s).map (·.outcome) := by
  have halone := throughout_shelves hplace hapart hmem number hfits
  have hsame := runs_related (fun _ => mirrors) (fun _ => hperform) (callsOf number schedule) hstart
    halone
  rw [outcomesOf_shelves hplace hapart hmem, hsame.1]

end Schedule

theorem values_ending (hplace : Function.Injective place) (key : String × String)
    (calls : List KeyedCall) (shelves : ρ → List Entry) :
    values (ending (onShelves place) calls shelves (place key).1) (place key).2 =
      (calls.filter (·.key == key)).foldl (fun values call => call.use.onValues values)
        (values (shelves (place key).1) (place key).2) := by
  induction calls generalizing shelves with
  | nil => rfl
  | cons call calls ih =>
    simp only [ending, step_onShelves]
    rw [ih]
    by_cases hkey : call.key = key
    · rw [List.filter_cons_of_pos (by simpa using hkey), List.foldl_cons, ← hkey, after_self,
        values_apply]
    · rw [List.filter_cons_of_neg (by simpa using hkey)]
      congr 1
      by_cases hshelf : (place key).1 = (place call.key).1
      · have htag : (place key).2 ≠ (place call.key).2 :=
          fun htag => hkey (hplace (Prod.ext hshelf htag)).symm
        rw [hshelf, after_self, values_apply_of_ne _ htag]
      · rw [after_of_ne hshelf]

/-- **The values under a key are the same for every order of the calls.** -/
theorem values_of_interleaves (hplace : Function.Injective place) (hapart : Apart programs)
    (h : Interleaves programs schedule) (key : String × String) :
    values (ending (onTurn (onShelves place)) schedule (fun _ => []) (place key).1) (place key).2 =
      stored programs key := by
  rw [ending_onTurn, values_ending hplace, stored, values_nil]
  congr 1
  by_cases hused : ∃ number, ∃ call ∈ programs.getD number [], call.key = key
  · obtain ⟨number, call, hcall, hkey⟩ := hused
    have hkind : ∀ other, other ≠ number → ∀ made ∈ programs.getD other [], (made.key == key) = false := by
      intro other hother made hmade
      rw [beq_eq_false_iff_ne, ← hkey]
      exact hapart.key_ne hother hmade hcall
    rw [h.filter_eq hkind, filter_flatten_eq hkind]
  · have hkind : ∀ other, other ≠ 0 → ∀ made ∈ programs.getD other [], (made.key == key) = false := by
      intro other _ made hmade
      rw [beq_eq_false_iff_ne]
      exact fun hkey => hused ⟨other, made, hmade, hkey⟩
    rw [h.filter_eq hkind, filter_flatten_eq hkind]

end KeyedCall

end FramedStore
