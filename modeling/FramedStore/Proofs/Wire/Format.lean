import FramedStore.Proofs.Bytes.Digits
import FramedStore.Proofs.Effect.Loop
import FramedStore.Wire.Reader

/-!
# Readers of exactly one format

A format says which bytes a value is written as. `Reader.Exact` ties a reader to one: it takes the
bytes of a value, whatever stands behind them, it takes nothing else, and it finds the end of the
input where they are cut short. Readers that run one after the other read one format behind the
other (`Exact.bind`), so that a message is exact because its fields are.
-/

namespace FramedStore

open Effect

/-- Which bytes a value is written as. -/
abbrev Format (α : Type) : Type := Bytes → α → Prop

namespace Format

variable {α β : Type}

/-- A value with its bytes, and behind them the bytes of a value whose format depends on it. -/
def chain (format : Format α) (next : α → Format β) : Format β := fun bytes b =>
  ∃ a front back, format front a ∧ next a back b ∧ bytes = front ++ back

end Format

namespace Reader

variable {α β : Type} {format format' : Format α} {limit n : Nat}

/-- A reader takes exactly the bytes of a format. -/
structure Exact (format : Format α) (reader : Reader α) : Prop where
  sound : ∀ {bytes rest a}, reader bytes = .ok a rest →
    ∃ front, format front a ∧ bytes = front ++ rest
  complete : ∀ {front a}, format front a → ∀ rest, reader (front ++ rest) = .ok a rest
  short : ∀ {whole front a}, format whole a → front <+: whole → front ≠ whole →
    reader front = .error (.io .endOfInput) []

namespace Exact

variable {reader : Reader α}

theorem congr (h : Exact format reader) (heq : ∀ bytes a, format bytes a ↔ format' bytes a) :
    Exact format' reader := by
  obtain rfl : format = format' := funext fun bytes => funext fun a => propext (heq bytes a)
  exact h

/-- **One reader behind the other.** -/
theorem bind {reader : Reader α} {next : α → Reader β} {later : α → Format β}
    (hreader : Exact format reader) (hnext : ∀ a, Exact (later a) (next a)) :
    Exact (format.chain later) (reader >>= next) where
  sound := by
    intro bytes rest b hread
    rw [bind_apply] at hread
    rcases hr : reader bytes with ⟨a, mid⟩ | ⟨e, mid⟩
    · rw [hr] at hread
      obtain ⟨front, hfront, rfl⟩ := hreader.sound hr
      obtain ⟨back, hback, rfl⟩ := (hnext a).sound hread
      exact ⟨front ++ back, ⟨a, front, back, hfront, hback, rfl⟩, (List.append_assoc ..).symm⟩
    · rw [hr] at hread
      cases hread
  complete := by
    rintro _ b ⟨a, front, back, hfront, hback, rfl⟩ rest
    rw [List.append_assoc, bind_ok (hreader.complete hfront _)]
    exact (hnext a).complete hback rest
  short := by
    rintro _ bytes b ⟨a, front, back, hfront, hback, rfl⟩ ⟨missing, hcut⟩ hne
    rcases List.append_eq_append_iff.mp hcut with ⟨tail, hsplit, -⟩ | ⟨read, rfl, hsplit⟩
    · by_cases htail : tail = []
      · -- the cut falls between the two values
        subst htail
        rw [List.append_nil] at hsplit
        subst hsplit
        have hback' : ([] : Bytes) ≠ back := by
          rintro rfl
          exact hne (List.append_nil _).symm
        rw [← List.append_nil front, bind_ok (hreader.complete hfront [])]
        exact (hnext a).short hback List.nil_prefix hback'
      · refine bind_error (hreader.short hfront ⟨tail, hsplit.symm⟩ ?_)
        rintro rfl
        exact htail (List.self_eq_append_right.mp hsplit)
    · rw [bind_ok (hreader.complete hfront read)]
      refine (hnext a).short hback ⟨missing, hsplit.symm⟩ ?_
      rintro rfl
      exact hne rfl

end Exact

/-! ### Readers that read nothing -/

theorem exact_pure (a : α) : Exact (fun bytes b => bytes = [] ∧ b = a) (pure a : Reader α) where
  sound := by
    intro bytes rest b hread
    cases hread
    exact ⟨[], ⟨rfl, rfl⟩, rfl⟩
  complete := by
    rintro _ b ⟨rfl, rfl⟩ rest
    rfl
  short := by
    rintro _ front b ⟨rfl, -⟩ hcut hne
    exact absurd (List.prefix_nil.mp hcut) hne

theorem exact_throw (e : Error) : Exact (fun _ _ => False) (throw e : Reader α) where
  sound := by
    intro bytes rest a hread
    cases hread
  complete := nofun
  short := nofun

theorem exact_ofExcept (x : Except Error α) :
    Exact (fun bytes a => bytes = [] ∧ x = .ok a) (Effect.ofExcept x : Reader α) := by
  cases x with
  | ok a => exact (exact_pure a).congr fun bytes b => by simp [eq_comm]
  | error e => exact (exact_throw e).congr fun bytes b => by simp

theorem Exact.ite {c : Prop} [Decidable c] {x y : Reader α} (hx : Exact format x)
    (hy : Exact format' y) :
    Exact (fun bytes a => if c then format bytes a else format' bytes a) (if c then x else y) := by
  by_cases hc : c
  · simpa only [hc, if_true] using hx
  · simpa only [hc, if_false] using hy

/-! ### Bytes, numbers and payloads -/

theorem exact_byte : Exact (fun bytes b => bytes = [b]) byte where
  sound := by
    intro bytes rest b hread
    rcases bytes with _ | ⟨_, bytes⟩
    · cases hread
    · cases hread
      exact ⟨[b], rfl, rfl⟩
  complete := by
    rintro _ b rfl rest
    rfl
  short := by
    rintro _ front b rfl hcut hne
    rcases List.prefix_cons_iff.mp hcut with rfl | ⟨tail, rfl, htail⟩
    · rfl
    · rw [List.prefix_nil.mp htail] at hne
      exact absurd rfl hne

theorem exact_take (n : Nat) : Exact (fun bytes a => bytes = a ∧ a.length = n) (take n) where
  sound := by
    intro bytes rest a hread
    unfold take at hread
    rw [bind_ok (get_apply bytes), if_apply] at hread
    split at hread
    · cases hread
    · rename_i hlength
      cases hread
      simp only [List.length_take] at hlength
      exact ⟨_, ⟨rfl, List.length_take_of_le (by omega)⟩, (List.take_append_drop n bytes).symm⟩
  complete := by
    rintro _ a ⟨rfl, hlength⟩ rest
    unfold take
    rw [bind_ok (get_apply _), List.take_left' hlength, List.drop_left' hlength, if_apply,
      if_neg (by omega)]
    rfl
  short := by
    rintro _ front a ⟨rfl, rfl⟩ hcut hne
    have hlt : front.length < _ := lt_of_le_of_ne hcut.length_le fun heq => hne (hcut.eq_of_length heq)
    unfold take
    rw [bind_ok (get_apply front), if_apply, if_pos (by rw [List.length_take]; omega)]
    rfl

theorem exact_number : Exact (fun bytes n => n < Offset.range ∧ bytes = Wire.number n) number := by
  refine ((exact_take 8).bind fun ds => exact_pure (Bytes.value ds)).congr fun bytes n => ⟨?_, ?_⟩
  · rintro ⟨_, ds, _, ⟨rfl, hlength⟩, ⟨rfl, rfl⟩, rfl⟩
    have hlt := Bytes.value_lt ds
    have hdigits := Bytes.bigEndian_value ds
    rw [hlength] at hlt hdigits
    exact ⟨hlt, by rw [List.append_nil, Wire.number, hdigits]⟩
  · rintro ⟨hlt, rfl⟩
    have hvalue : n = Bytes.value (Wire.number n) := by
      rw [Wire.number, Bytes.value_bigEndian]
      exact (Nat.mod_eq_of_lt hlt).symm
    exact ⟨_, _, [], ⟨rfl, Bytes.length_bigEndian 8 n⟩, ⟨rfl, hvalue⟩, (List.append_nil _).symm⟩

/-- A payload is a length within the limit and as many bytes. -/
theorem exact_payload (hlimit : limit < Offset.range) :
    Exact (fun bytes content => content.length ≤ limit ∧ bytes = Wire.payload content)
      (payload limit) := by
  have hbody : ∀ length, Exact
      (fun bytes content => length ≤ limit ∧ bytes = content ∧ content.length = length)
      (if limit < length then throw (.protocol (.payloadTooLarge length limit))
        else take length : Reader Bytes) := by
    intro length
    refine ((exact_throw _).ite (exact_take length)).congr fun bytes content => ?_
    split
    · simp
      omega
    · simp
      omega
  refine (exact_number.bind hbody).congr fun bytes content => ⟨?_, ?_⟩
  · rintro ⟨_, _, _, ⟨-, rfl⟩, ⟨hle, rfl, rfl⟩, rfl⟩
    exact ⟨hle, rfl⟩
  · rintro ⟨hle, rfl⟩
    exact ⟨content.length, _, content, ⟨Nat.lt_of_le_of_lt hle hlimit, rfl⟩, ⟨hle, rfl, rfl⟩, rfl⟩

end Reader

end FramedStore
