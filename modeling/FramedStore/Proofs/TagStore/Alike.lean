import FramedStore.Proofs.Effect.Alike
import FramedStore.TagStore.Basic

/-!
# Tag stores in two storages

A tag store works on any storage. Where two storages have the same outcomes of the calls that it makes,
the two tag stores have the same outcomes too. Only look-ups and lists read a value or a tag whose length
is not known beforehand; for all else it is enough that short slices have the same outcome. Bytes are
added only at the end of a call, so that this may lead to states that are related in another way.
-/

namespace FramedStore

open Effect

variable {σ τ : Type} [Storage σ] [Storage τ] {R : σ → τ → Prop}

/-- The calls of a tag store on its storage have the same outcome on both sides. -/
structure Storage.Alike (R : σ → τ → Prop) : Prop where
  size : Effect.Alike R Storage.size Storage.size
  slice (start stop : Nat) :
    Effect.Alike R (Storage.slice start stop) (Storage.slice start stop)
  append (bytes : Bytes) : Effect.Alike R (Storage.append bytes) (Storage.append bytes)
  delete (start stop : Nat) :
    Effect.Alike R (Storage.delete start stop) (Storage.delete start stop)
  clear : Effect.Alike R Storage.clear Storage.clear

/-- The calls that add no bytes have the same outcome on both sides. -/
structure Storage.AlikeCut (R : σ → τ → Prop) : Prop where
  size : Effect.Alike R Storage.size Storage.size
  slice (start stop : Nat) :
    Effect.Alike R (Storage.slice start stop) (Storage.slice start stop)
  delete (start stop : Nat) :
    Effect.Alike R (Storage.delete start stop) (Storage.delete start stop)
  clear : Effect.Alike R Storage.clear Storage.clear

theorem Storage.Alike.cut (h : Storage.Alike R) : Storage.AlikeCut R :=
  ⟨h.size, h.slice, h.delete, h.clear⟩

/-- The same holds of a storage in a part of a state. -/
theorem Storage.AlikeCut.inPart {υ : Type} {view : υ → σ} {update : σ → υ → υ} {others : υ → Prop}
    (h : Storage.AlikeCut R) (hview : ∀ s u, view (update s u) = s)
    (hothers : ∀ s u, others u → others (update s u)) :
    @Storage.AlikeCut υ τ (.inPart view update) _ fun u t => R (view u) t ∧ others u :=
  @Storage.AlikeCut.mk υ τ (.inPart view update) _ _ (.within hview hothers h.size)
    (fun start stop => .within hview hothers (h.slice start stop))
    (fun start stop => .within hview hothers (h.delete start stop)) (.within hview hothers h.clear)

/-- The calls of a scan have the same outcome on both sides, as long as no more than `n` bytes are read
at once. -/
structure Storage.AlikeUpTo (n : Nat) (R : σ → τ → Prop) : Prop where
  size : Effect.Alike R Storage.size Storage.size
  slice {start stop : Nat} (h : stop - start ≤ n) :
    Effect.Alike R (Storage.slice start stop) (Storage.slice start stop)
  delete (start stop : Nat) :
    Effect.Alike R (Storage.delete start stop) (Storage.delete start stop)

theorem Storage.AlikeCut.upTo (h : Storage.AlikeCut R) (n : Nat) : Storage.AlikeUpTo n R :=
  ⟨h.size, fun _ => h.slice _ _, h.delete⟩

/-! ### Records -/

section Records

variable {n : Nat} {framing : Framing}

omit [Storage σ] [Storage τ] in
theorem Malformation.alike_ofExcept {α : Type} (position : Nat) (x : Except Malformation α) :
    Effect.Alike R (Malformation.ofExcept position x) (Malformation.ofExcept position x) := by
  cases x with
  | ok a => exact .pure a
  | error cause => exact .throw _

theorem Offset.add_le (a b : Nat) : Offset.add a b ≤ a + b := Nat.mod_le _ _

theorem Framing.one_le_maxIndicator (framing : Framing) : 1 ≤ framing.maxIndicator := by
  cases framing <;> decide

variable (h : Storage.AlikeUpTo n R) (hn : framing.maxIndicator ≤ n)
include h hn

theorem Framing.alike_firstByte? (window : Bytes) (indicator : Indicator) (position : Nat) :
    Effect.Alike R (firstByte? window indicator position)
      (firstByte? window indicator position) := by
  have hone := framing.one_le_maxIndicator
  have hadd := Offset.add_le position 1
  unfold firstByte?
  refine .ite _ (.pure none) ?_
  cases window[indicator.headerLength]? with
  | some found => exact .pure (some found)
  | none => exact .bind (h.slice (by omega)) fun bytes => .pure bytes.head?

/-- No content is read where the bounds of a record are found. -/
theorem Framing.alike_boundsAt? (position : Nat) :
    Effect.Alike R (framing.boundsAt? position) (framing.boundsAt? position) := by
  have hadd := Offset.add_le position framing.maxIndicator
  unfold boundsAt?
  refine .bind h.size fun size => .ite _ (.pure none) ?_
  refine .bind (h.slice (by omega)) fun window => ?_
  refine .bind (Malformation.alike_ofExcept _ _) fun indicator => ?_
  refine .ite _ (.throw_bind _ _ _) ?_
  refine .bind (alike_firstByte? h hn _ _ _) fun first => ?_
  exact .bind (Malformation.alike_ofExcept _ _) fun _ => .pure _

end Records

/-! ### Pairs -/

namespace TagStore

section UpTo

variable {n : Nat} {framing : Framing} {tag : String} (h : Storage.AlikeUpTo n R) (hn : framing.maxIndicator ≤ n)
include h

theorem alike_content {bounds : Bounds} (hlength : bounds.contentLength ≤ n) :
    Effect.Alike R (content bounds) (content bounds) :=
  h.slice hlength

theorem alike_readTag {bounds : Bounds} (hlength : bounds.contentLength ≤ n) :
    Effect.Alike R (readTag bounds) (readTag bounds) := by
  refine .bind (alike_content h hlength) fun bytes => ?_
  cases Utf8.decode bytes with
  | ok tag => exact .pure tag
  | error fault => exact .throw _

/-- A record of another length than the wanted tag is not read. -/
theorem alike_matchesTag (htag : (Utf8.encode tag).length ≤ n) (bounds : Bounds) :
    Effect.Alike R (matchesTag bounds tag) (matchesTag bounds tag) := by
  unfold matchesTag
  by_cases hlength : bounds.contentLength = (Utf8.encode tag).length
  · refine .ite _ (.pure false) (.bind (alike_content h ?_) fun _ => .pure _)
    rwa [hlength]
  · simp only [ne_eq, hlength, not_false_eq_true, if_true]
    exact .pure false

include hn

theorem alike_pairAt? (position : Nat) :
    Effect.Alike R (pairAt? framing position) (pairAt? framing position) := by
  refine .bind (Framing.alike_boundsAt? h hn position) fun tag => ?_
  cases tag with
  | none => exact .pure none
  | some tag =>
    refine .bind (Framing.alike_boundsAt? h hn tag.stop) fun value => ?_
    cases value with
    | none => exact .throw _
    | some value => exact .pure _

theorem alike_size : Effect.Alike R (size framing) (size framing) := by
  refine .scan (fun state => ?_) _
  refine .bind (Framing.alike_boundsAt? h hn state.1) fun bounds => ?_
  cases bounds with
  | none => exact .ite _ (.throw_bind _ _ _) (.pure _)
  | some bounds => exact .pure _

variable (htag : (Utf8.encode tag).length ≤ n)
include htag

theorem alike_findFrom? (position : Nat) :
    Effect.Alike R (findFrom? framing tag position) (findFrom? framing tag position) := by
  refine .scan (fun position => ?_) position
  refine .bind (alike_pairAt? h hn position) fun pair => ?_
  cases pair with
  | none => exact .pure _
  | some pair =>
    refine .bind (alike_matchesTag h htag pair.tag) fun found => ?_
    exact .ite _ (.pure _) (.pure _)

theorem alike_contains : Effect.Alike R (contains framing tag) (contains framing tag) :=
  .bind (alike_findFrom? h hn htag 0) fun _ => .pure _

theorem alike_eraseAll : Effect.Alike R (eraseAll framing tag) (eraseAll framing tag) := by
  refine .scan (fun state => ?_) _
  refine .bind (alike_findFrom? h hn htag state.1) fun pair => ?_
  cases pair with
  | none => exact .pure _
  | some pair => exact .bind (h.delete _ _) fun _ => .pure _

theorem leads_put {R' : σ → τ → Prop} (hweaker : ∀ s t, R s t → R' s t)
    (happend : ∀ bytes, Effect.Leads R R' (Storage.append bytes) (Storage.append bytes))
    (value : Bytes) : Effect.Leads R R' (put framing tag value) (put framing tag value) :=
  .bind hweaker (alike_eraseAll h hn htag) fun _ =>
    .bind (fun _ _ hst => hst) (happend _) fun _ => Alike.pure _

end UpTo

/-! ### Values and tags of any length -/

variable (h : Storage.AlikeCut R) (framing : Framing) (tag : String)
include h

theorem alike_find : Effect.Alike R (findFrom? framing tag 0) (findFrom? framing tag 0) :=
  alike_findFrom? (h.upTo _) (Nat.le_max_left _ _) (Nat.le_max_right _ _) 0

theorem alike_get? : Effect.Alike R (get? framing tag) (get? framing tag) := by
  refine .bind (alike_find h framing tag) fun pair => ?_
  cases pair with
  | none => exact .pure none
  | some pair => exact .bind (h.slice _ _) fun value => .pure (some value)

theorem alike_tags : Effect.Alike R (tags framing) (tags framing) := by
  refine .scan (fun state => ?_) _
  refine .bind (alike_pairAt? (h.upTo _) (Nat.le_refl _) state.1) fun pair => ?_
  cases pair with
  | none => exact .pure _
  | some pair => exact .bind (alike_readTag (h.upTo _) (Nat.le_refl _)) fun _ => .pure _

theorem alike_erase : Effect.Alike R (erase framing tag) (erase framing tag) := by
  refine .bind (alike_find h framing tag) fun pair => ?_
  cases pair with
  | none => exact .pure none
  | some pair =>
    refine .bind (h.slice _ _) fun value => ?_
    exact .bind (h.delete _ _) fun _ => .pure _

end TagStore

end FramedStore
