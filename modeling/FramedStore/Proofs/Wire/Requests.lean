import FramedStore.Proofs.Effect.Loop
import FramedStore.Wire.Request

/-!
# Requests read one after another

`Request.Parsed` says which requests can be read from the front of a byte string, one behind the
other, and what is left. Reading takes bytes away, so that there is such a sequence for every byte
string (`exists_parsed`).
-/

namespace FramedStore

open Effect

variable {α β : Type} {limit : Nat} {bytes rest : Bytes}

/-! ### What readers yield -/

/-- A reader that succeeds yields a value as wanted and leaves no more than it was given. -/
def Reader.Yields (wanted : α → Prop) (reader : Reader α) : Prop :=
  ∀ bytes a rest, reader bytes = .ok a rest → wanted a ∧ rest.length ≤ bytes.length

namespace Reader

variable {wanted : α → Prop}

theorem yields_pure {a : α} (h : wanted a) : Yields wanted (pure a : Reader α) := by
  intro bytes b rest hread
  cases hread
  exact ⟨h, Nat.le_refl _⟩

theorem yields_throw (e : Error) : Yields wanted (throw e : Reader α) := by
  intro bytes a rest hread
  cases hread

theorem Yields.bind {wanted' : β → Prop} {reader : Reader α} {next : α → Reader β}
    (hreader : Yields wanted reader) (hnext : ∀ a, wanted a → Yields wanted' (next a)) :
    Yields wanted' (reader >>= next) := by
  intro bytes b rest hread
  rw [bind_apply] at hread
  rcases hr : reader bytes with ⟨a, left⟩ | ⟨e, left⟩
  · rw [hr] at hread
    obtain ⟨ha, hleft⟩ := hreader bytes a left hr
    obtain ⟨hb, hrest⟩ := hnext a ha left b rest hread
    exact ⟨hb, Nat.le_trans hrest hleft⟩
  · rw [hr] at hread
    cases hread

theorem yields_take (count : Nat) : Yields (·.length = count) (take count) := by
  intro bytes front rest hread
  unfold take at hread
  rw [bind_ok (get_apply bytes), if_apply] at hread
  split at hread
  · cases hread
  · rename_i hlength
    cases hread
    simp only [List.length_take, List.length_drop] at hlength ⊢
    omega

theorem yields_number : Yields (fun _ => True) number :=
  (yields_take 8).bind fun _ _ => yields_pure trivial

theorem yields_payload (limit : Nat) : Yields (·.length ≤ limit) (payload limit) := by
  refine yields_number.bind fun length _ => ?_
  intro bytes front rest hread
  rw [if_apply] at hread
  split at hread
  · cases hread
  · obtain ⟨hlength, hrest⟩ := yields_take length bytes front rest hread
    exact ⟨by omega, hrest⟩

end Reader

/-! ### Services -/

namespace Service

theorem ofByte_byte (service : Service) : ofByte service.byte = .ok service := by
  cases service <;> rfl

theorem byte_of_ofByte {first : UInt8} {service : Service} (h : ofByte first = .ok service) :
    service.byte = first := by
  unfold ofByte at h
  split at h
  · cases h
    symm
    assumption
  · split at h
    · cases h
      symm
      assumption
    · cases h

end Service

/-! ### Requests at the front of a byte string -/

namespace Request

theorem yields_readFields (limit : Nat) (service : Service) (cause : UInt8) :
    Reader.Yields (·.service = service) (readFields limit service cause) := by
  unfold readFields
  split
  case h_9 => exact Reader.yields_throw _
  case h_4 | h_6 =>
    exact Reader.yields_number.bind fun _ _ => Reader.yields_number.bind fun _ _ =>
      Reader.yields_pure rfl
  case h_8 =>
    exact Reader.yields_number.bind fun _ _ => (Reader.yields_payload limit).bind fun _ _ =>
      Reader.yields_pure rfl
  case h_2 | h_5 => exact (Reader.yields_payload limit).bind fun _ _ => Reader.yields_pure rfl
  case h_1 | h_3 | h_7 => exact Reader.yields_pure rfl

theorem read_cons (limit : Nat) (first : UInt8) (bytes : Bytes) :
    read limit (first :: bytes) = match Service.ofByte first with
      | .error e => .error e bytes
      | .ok service => (do readFields limit service (← Reader.byte) : Reader Request) bytes := by
  rcases h : Service.ofByte first with e | service
  · have hread : Service.read (first :: bytes) = .error e bytes := by
      refine (bind_ok (rfl : Reader.byte (first :: bytes) = .ok first bytes)).trans ?_
      rw [h]
      rfl
    exact bind_error hread
  · have hread : Service.read (first :: bytes) = .ok service bytes := by
      refine (bind_ok (rfl : Reader.byte (first :: bytes) = .ok first bytes)).trans ?_
      rw [h]
      rfl
    exact bind_ok hread

/-- A request has a service, a cause and fields. -/
theorem read_eq_ok {request : Request} : read limit bytes = .ok request rest ↔
    ∃ (service : Service) (cause : UInt8) (fields : Bytes),
      bytes = service.byte :: cause :: fields ∧
        readFields limit service cause fields = .ok request rest := by
  constructor
  · intro h
    rcases bytes with _ | ⟨first, bytes⟩
    · cases h
    rw [read_cons] at h
    rcases hservice : Service.ofByte first with e | service
    · rw [hservice] at h
      cases h
    rw [hservice] at h
    rcases bytes with _ | ⟨cause, fields⟩
    · cases h
    exact ⟨service, cause, fields, by rw [Service.byte_of_ofByte hservice], h⟩
  · rintro ⟨service, cause, fields, rfl, h⟩
    rw [read_cons, Service.ofByte_byte]
    exact h

theorem length_of_read {request : Request} (h : read limit bytes = .ok request rest) :
    rest.length + 2 ≤ bytes.length := by
  obtain ⟨service, cause, fields, rfl, hfields⟩ := read_eq_ok.mp h
  obtain ⟨-, hle⟩ := yields_readFields limit service cause fields request rest hfields
  simp only [List.length_cons]
  omega

/-- The longest sequence of accepted requests at the front of a byte string, and what stands behind
them. -/
inductive Parsed (limit : Nat) (accepted : Request → Prop) : Bytes → List Request → Bytes → Prop
  | stop {bytes : Bytes}
    (h : ∀ request rest, read limit bytes = .ok request rest → ¬ accepted request) :
    Parsed limit accepted bytes [] bytes
  | next {bytes rest unread : Bytes} {request : Request} {requests : List Request}
    (h : read limit bytes = .ok request rest) (haccepted : accepted request)
    (later : Parsed limit accepted rest requests unread) :
    Parsed limit accepted bytes (request :: requests) unread

theorem exists_parsed (limit : Nat) (accepted : Request → Prop) (bytes : Bytes) :
    ∃ requests unread, Parsed limit accepted bytes requests unread := by
  induction hlength : bytes.length using Nat.strongRecOn generalizing bytes with
  | ind length ih =>
    by_cases hnext : ∃ request rest, read limit bytes = .ok request rest ∧ accepted request
    · obtain ⟨request, rest, hread, haccepted⟩ := hnext
      have hshorter := length_of_read hread
      obtain ⟨requests, unread, hlater⟩ := ih rest.length (by omega) rest rfl
      exact ⟨request :: requests, unread, .next hread haccepted hlater⟩
    · exact ⟨[], bytes, .stop fun request rest hread haccepted =>
        hnext ⟨request, rest, hread, haccepted⟩⟩

theorem Parsed.accepted {accepted : Request → Prop} {requests : List Request} {unread : Bytes}
    (h : Parsed limit accepted bytes requests unread) : ∀ request ∈ requests, accepted request := by
  induction h with
  | stop _ => exact nofun
  | next _ haccepted _ ih => exact List.forall_mem_cons.mpr ⟨haccepted, ih⟩

/-- There is only one such sequence. -/
theorem Parsed.unique {accepted : Request → Prop} {requests requests' : List Request}
    {unread unread' : Bytes} (h : Parsed limit accepted bytes requests unread)
    (h' : Parsed limit accepted bytes requests' unread') :
    requests = requests' ∧ unread = unread' := by
  induction h generalizing requests' unread' with
  | stop hstop =>
    cases h' with
    | stop _ => exact ⟨rfl, rfl⟩
    | next hread haccepted _ => exact absurd haccepted (hstop _ _ hread)
  | next hread haccepted _ ih =>
    cases h' with
    | stop hstop => exact absurd haccepted (hstop _ _ hread)
    | next hread' _ hlater' =>
      obtain ⟨rfl, rfl⟩ := EStateM.Result.ok.inj (hread.symm.trans hread')
      obtain ⟨rfl, rfl⟩ := ih hlater'
      exact ⟨rfl, rfl⟩

end Request

end FramedStore
