import FramedStore.Bytes
import Mathlib.Tactic.Ring
import Mathlib.Tactic.Linarith

/-!
# Numbers in byte strings

Positional numerals to any base, and with them the two directions of the base 256 numerals:
`value_digits` (the digits of a number stand for it) and `digits_value` (digits without a leading
zero are those of the number they stand for). Numerals of a fixed width follow.
-/

namespace FramedStore

/-! ### Positional numerals -/

namespace Positional

variable {base : Nat} {digit : UInt8 → Nat}

/-- The number that digits stand for, highest first. -/
def value (base : Nat) (digit : UInt8 → Nat) (ds : Bytes) : Nat :=
  ds.foldl (fun sum d => sum * base + digit d) 0

theorem foldl_eq (base : Nat) (digit : UInt8 → Nat) (ds : Bytes) (start : Nat) :
    ds.foldl (fun sum d => sum * base + digit d) start =
      start * base ^ ds.length + value base digit ds := by
  induction ds generalizing start with
  | nil => simp [value]
  | cons d ds ih =>
    have h := ih (start * base + digit d)
    have h0 := ih (0 * base + digit d)
    simp only [value, List.foldl_cons, List.length_cons] at h h0 ⊢
    rw [h, h0]
    ring

theorem value_cons (d : UInt8) (ds : Bytes) :
    value base digit (d :: ds) = digit d * base ^ ds.length + value base digit ds := by
  have h := foldl_eq base digit ds (0 * base + digit d)
  simpa [value] using h

theorem value_append (ds es : Bytes) :
    value base digit (ds ++ es) =
      value base digit ds * base ^ es.length + value base digit es := by
  rw [value, List.foldl_append, foldl_eq]
  rfl

theorem value_lt {ds : Bytes} (h : ∀ d ∈ ds, digit d < base) :
    value base digit ds < base ^ ds.length := by
  induction ds with
  | nil => simp [value]
  | cons d ds ih =>
    have ih := ih fun e he => h e (List.mem_cons_of_mem _ he)
    have hd := h d (List.mem_cons_self ..)
    rw [value_cons, List.length_cons, pow_succ]
    calc digit d * base ^ ds.length + value base digit ds
        < digit d * base ^ ds.length + base ^ ds.length := by omega
      _ = (digit d + 1) * base ^ ds.length := by ring
      _ ≤ base * base ^ ds.length := Nat.mul_le_mul_right _ hd
      _ = base ^ ds.length * base := by ring

/-- No leading zero: the first digit, if there is one, counts. -/
def Leads (digit : UInt8 → Nat) (ds : Bytes) : Prop := ∀ d ∈ ds.head?, digit d ≠ 0

theorem pow_le_value {d : UInt8} {ds : Bytes} (h : Leads digit (d :: ds)) :
    base ^ ds.length ≤ value base digit (d :: ds) := by
  have hd : digit d ≠ 0 := h d rfl
  rw [value_cons]
  calc base ^ ds.length = 1 * base ^ ds.length := by ring
    _ ≤ digit d * base ^ ds.length := Nat.mul_le_mul_right _ (by omega)
    _ ≤ digit d * base ^ ds.length + value base digit ds := Nat.le_add_right _ _

/-- Of two numerals without leading zeros, the shorter stands for the lower number. -/
theorem value_lt_of_length_lt {ds es : Bytes} (hbase : 0 < base) (hds : ∀ d ∈ ds, digit d < base)
    (hes : Leads digit es) (h : ds.length < es.length) :
    value base digit ds < value base digit es := by
  cases es with
  | nil => simp at h
  | cons e es =>
    have hlen : ds.length ≤ es.length := by simpa [Nat.lt_succ_iff] using h
    calc value base digit ds < base ^ ds.length := value_lt hds
      _ ≤ base ^ es.length := Nat.pow_le_pow_right hbase hlen
      _ ≤ value base digit (e :: es) := pow_le_value hes

/-- Numerals of one length that stand for one number are equal. -/
theorem eq_of_value_eq {ds es : Bytes} (hlen : ds.length = es.length)
    (hds : ∀ d ∈ ds, digit d < base) (hes : ∀ e ∈ es, digit e < base)
    (hinj : ∀ d ∈ ds, ∀ e ∈ es, digit d = digit e → d = e)
    (h : value base digit ds = value base digit es) : ds = es := by
  induction ds generalizing es with
  | nil => exact (List.length_eq_zero_iff.mp hlen.symm).symm
  | cons d ds ih =>
    obtain _ | ⟨e, es⟩ := es
    · simp at hlen
    have hlen : ds.length = es.length := by simpa using hlen
    have hds' := fun x hx => hds x (List.mem_cons_of_mem _ hx)
    have hes' := fun x hx => hes x (List.mem_cons_of_mem _ hx)
    have ltd := value_lt hds'
    have lte := value_lt hes'
    rw [value_cons, value_cons, hlen] at h
    rw [hlen] at ltd
    -- both tails stay below the weight of the first digit
    have hpos : 0 < base ^ es.length := by omega
    have hhead : digit d = digit e := by
      have hd := congrArg (· / base ^ es.length) h
      simpa [Nat.mul_comm _ (base ^ es.length), Nat.mul_add_div hpos, Nat.div_eq_of_lt ltd,
        Nat.div_eq_of_lt lte] using hd
    have htail : ds = es := by
      refine ih hlen hds' hes' (fun x hx y hy => ?_) (by rw [hhead] at h; omega)
      exact hinj x (List.mem_cons_of_mem _ hx) y (List.mem_cons_of_mem _ hy)
    rw [hinj d (List.mem_cons_self ..) e (List.mem_cons_self ..) hhead, htail]

/-- **Numerals are unique.** Two numerals without leading zeros that stand for one number are
equal. -/
theorem value_inj {ds es : Bytes} (hbase : 0 < base)
    (hds : ∀ d ∈ ds, digit d < base) (hes : ∀ e ∈ es, digit e < base)
    (hinj : ∀ d ∈ ds, ∀ e ∈ es, digit d = digit e → d = e)
    (leadd : Leads digit ds) (leade : Leads digit es)
    (h : value base digit ds = value base digit es) : ds = es := by
  rcases Nat.lt_trichotomy ds.length es.length with hlt | heq | hgt
  · have := value_lt_of_length_lt hbase hds leade hlt
    omega
  · exact eq_of_value_eq heq hds hes hinj h
  · have := value_lt_of_length_lt hbase hes leadd hgt
    omega

end Positional

namespace Bytes

/-! ### The fewest digits to base 256 -/

theorem value_eq (ds : Bytes) : value ds = Positional.value 256 UInt8.toNat ds := rfl

theorem value_append (ds es : Bytes) :
    value (ds ++ es) = value ds * 256 ^ es.length + value es :=
  Positional.value_append ds es

theorem value_lt (ds : Bytes) : value ds < 256 ^ ds.length :=
  Positional.value_lt fun d _ => d.toNat_lt

@[simp] theorem digits_zero : digits 0 = [] := by
  rw [digits]
  rfl

theorem digits_pos {n : Nat} (h : n ≠ 0) : digits n = digits (n / 256) ++ [UInt8.ofNat n] := by
  rw [digits, if_neg h]

@[simp] theorem value_digits (n : Nat) : value (digits n) = n := by
  induction n using digits.induct with
  | case1 => simp [value]
  | case2 n h ih =>
    rw [digits_pos h, value_append, ih]
    simp only [value, List.foldl_cons, List.foldl_nil, List.length_singleton, UInt8.toNat_ofNat']
    omega

theorem digits_ne_nil {n : Nat} (h : n ≠ 0) : digits n ≠ [] := by
  rw [digits_pos h]
  simp

theorem leads_digits (n : Nat) : Positional.Leads UInt8.toNat (digits n) := by
  induction n using digits.induct with
  | case1 => simp [Positional.Leads]
  | case2 n h ih =>
    rw [digits_pos h]
    by_cases h0 : n / 256 = 0
    · -- a single digit, which is the number itself
      simp only [h0, digits_zero, List.nil_append, Positional.Leads, List.head?_cons,
        Option.mem_some_iff, forall_eq', UInt8.toNat_ofNat']
      omega
    · intro d hd
      obtain ⟨e, es, he⟩ := List.exists_cons_of_ne_nil (digits_ne_nil h0)
      rw [he] at hd ih
      exact ih d hd

theorem leads_iff {ds : Bytes} : Positional.Leads UInt8.toNat ds ↔ ds.head? ≠ some 0 := by
  cases ds with
  | nil => simp [Positional.Leads]
  | cons d ds =>
    have hd : d.toNat = (0 : UInt8).toNat ↔ d = 0 := UInt8.toNat_inj
    simpa [Positional.Leads] using not_congr hd

/-- Digits without a leading zero are those of the number they stand for. -/
theorem digits_value {ds : Bytes} (h : ds.head? ≠ some 0) : digits (value ds) = ds := by
  refine Positional.value_inj (by decide : 0 < 256) (fun d _ => d.toNat_lt)
    (fun d _ => d.toNat_lt) (fun d _ e _ he => UInt8.toNat_inj.mp he) (leads_digits _)
    (leads_iff.mpr h) ?_
  exact value_digits (value ds)

/-- A number below `256 ^ width` has at most `width` digits. -/
theorem length_digits_le {n width : Nat} (h : n < 256 ^ width) : (digits n).length ≤ width := by
  by_contra hlt
  obtain ⟨d, ds, hds⟩ := List.exists_cons_of_length_pos (by omega : 0 < (digits n).length)
  have hle : 256 ^ ds.length ≤ value (digits n) := by
    rw [hds]
    exact Positional.pow_le_value (hds ▸ leads_digits n)
  have hwidth : 256 ^ width ≤ 256 ^ ds.length := by
    refine Nat.pow_le_pow_right (by decide) ?_
    simp only [hds, List.length_cons] at hlt
    omega
  rw [value_digits] at hle
  omega

theorem length_digits_pos {n : Nat} (h : n ≠ 0) : 0 < (digits n).length :=
  List.length_pos_iff.mpr (digits_ne_nil h)

/-! ### A fixed number of digits -/

@[simp] theorem length_bigEndian (width n : Nat) : (bigEndian width n).length = width := by
  induction width with
  | zero => rfl
  | succ width ih => simp [bigEndian, ih]

theorem shiftRight_eq (n width : Nat) : n >>> (8 * width) = n / 256 ^ width := by
  rw [Nat.shiftRight_eq_div_pow, Nat.pow_mul]

theorem value_bigEndian (width n : Nat) : value (bigEndian width n) = n % 256 ^ width := by
  induction width with
  | zero => simp [bigEndian, value, Nat.mod_one]
  | succ width ih =>
    rw [bigEndian, value_eq, Positional.value_cons, ← value_eq, ih, length_bigEndian,
      Nat.mod_pow_succ, UInt8.toNat_ofNat', shiftRight_eq]
    ring

/-- Digits of a fixed width are those of the number they stand for. -/
theorem bigEndian_value (ds : Bytes) : bigEndian ds.length (value ds) = ds := by
  refine Positional.eq_of_value_eq (length_bigEndian _ _) (fun d _ => d.toNat_lt)
    (fun d _ => d.toNat_lt) (fun d _ e _ he => UInt8.toNat_inj.mp he) ?_
  rw [← value_eq, ← value_eq, value_bigEndian, Nat.mod_eq_of_lt (value_lt ds)]

end Bytes

end FramedStore
