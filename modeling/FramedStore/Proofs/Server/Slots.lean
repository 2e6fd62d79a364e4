import FramedStore.Proofs.Distinct
import FramedStore.Proofs.Lookup
import FramedStore.Server
import FramedStore.Storage.Memory

/-!
# Slots of a server

A slot belongs to a session that is served, or it is stranded: the session was never started, since a
step failed behind which the slot is not given back. A stranded slot stays taken as long as the server
runs. So there are as many slots taken as there are sessions just as long as no start was stranded
(`live_of_serve`), and a server with all of its slots stranded refuses everyone
(`refuses_of_stranded`).

A slot is named by the number of its connection, and numbers start over after `Offset.range`
connections: one that is given again takes the slot of an earlier connection. So all of this is about
runs with fewer connections than that.
-/

namespace FramedStore.Server

/-- A start that fails at this step leaves its slot taken. -/
def Strands : StartStep → Prop
  | .prepare | .limitTime => True
  | .unblock | .share | .spawn => False

instance : DecidablePred Strands
  | .prepare | .limitTime => isTrue trivial
  | .unblock | .share | .spawn => isFalse id

variable {σ : Type}

/-- There is no free slot, and an accepted connection is closed at once. -/
def Full (server : Server σ) : Prop := server.maxConnections ≤ server.live.length

instance (server : Server σ) : Decidable (Full server) := inferInstanceAs (Decidable (_ ≤ _))

/-- The slots that an event strands. -/
def stranding (server : Server σ) : Event → List Nat
  | .accepted (some step) => if Strands step ∧ ¬ Full server then [server.nextId] else []
  | _ => []

/-- The connections that an event brings. -/
def Event.arrivals : Event → Nat
  | .accepted _ => 1
  | .received _ _ | .left _ => 0

/-- The connections that some events bring. -/
def arrivals : List Event → Nat
  | [] => 0
  | event :: events => event.arrivals + arrivals events

/-- Each slot that is taken belongs to a session or is stranded; so far there were `arrived`
connections. -/
structure Slots (limit arrived : Nat) (server : Server σ) (stranded : List Nat) : Prop where
  many : server.maxConnections = limit
  owned : server.live.Perm (server.sessions.map (·.1) ++ stranded)
  nodup : server.live.Nodup
  earlier : ∀ id ∈ server.live, id < server.nextId
  numbered : server.nextId ≤ arrived
  bounded : server.live.length ≤ limit

variable {limit arrived : Nat} {server after : Server σ} {stranded : List Nat} {step : StartStep}

/-! ### Accepted connections -/

theorem accept_of_full (h : Full server) (failing : Option StartStep) :
    server.accept failing = (none, server) := if_neg (Nat.not_lt.mpr h)

theorem accept_of_free (h : ¬ Full server) (failing : Option StartStep) :
    server.accept failing = server.start failing := if_pos (Nat.lt_of_not_le h)

/-- A connection is refused only for want of a slot. -/
theorem refused_iff (server : Server σ) : (server.accept none).1 = none ↔ Full server := by
  by_cases hfull : Full server
  · simp [accept_of_full hfull, hfull]
  · rw [accept_of_free hfull]
    simp [start, hfull]

/-- A new number has no slot. -/
theorem slotsBut_of_not_mem {id : Nat} (hnew : id ∉ server.live) :
    server.slotsBut id = server.live := filter_ne_of_not_mem hnew

theorem start_stranded (h : Strands step) (server : Server σ) :
    server.start (some step) =
      (none, { server with
        nextId := Offset.add server.nextId 1
        live := server.nextId :: server.slotsBut server.nextId }) := by
  cases step <;> first | rfl | exact h.elim

/-- A start that strands nothing leaves the slots as they are, if its number is a new one. -/
theorem start_failed (h : ¬ Strands step) (hnew : server.nextId ∉ server.live) :
    ∃ next, (next = server.nextId ∨ next = Offset.add server.nextId 1) ∧
      server.start (some step) = (none, { server with nextId := next }) := by
  cases step
  case unblock => exact ⟨_, .inl rfl, rfl⟩
  case share => exact ⟨_, .inr rfl, rfl⟩
  case spawn =>
    refine ⟨_, .inr rfl, ?_⟩
    rw [start, slotsBut_of_not_mem hnew]
  case prepare | limitTime => exact absurd trivial h

/-- A connection whose session is not started takes a slot only if it is stranded. -/
theorem accept_failed (hnew : server.nextId ∉ server.live) (step : StartStep) :
    (server.accept (some step)).1 = none ∧
      (server.accept (some step)).2.sessions = server.sessions ∧
      (server.accept (some step)).2.live =
        server.stranding (.accepted (some step)) ++ server.live := by
  by_cases hfull : Full server
  · simp [accept_of_full hfull, stranding, hfull]
  rw [accept_of_free hfull]
  by_cases hstrands : Strands step
  · simp [start_stranded hstrands, stranding, hstrands, hfull, slotsBut_of_not_mem hnew]
  · obtain ⟨next, -, hstart⟩ := start_failed hstrands hnew
    simp [hstart, stranding, hstrands]

/-! ### What keeps slots owned -/

namespace Slots

theorem idle (storage : σ) (maxPayload maxConnections : Nat) :
    Slots maxConnections 0 ({ storage, maxPayload, maxConnections } : Server σ) [] where
  many := rfl
  owned := List.Perm.refl _
  nodup := List.nodup_nil
  earlier := nofun
  numbered := Nat.le_refl _
  bounded := Nat.zero_le _

theorem length_live (h : Slots limit arrived server stranded) :
    server.live.length = server.sessions.length + stranded.length := by
  rw [h.owned.length_eq, List.length_append, List.length_map]

/-- The number of the next connection is a new one. -/
theorem nextId_not_mem (h : Slots limit arrived server stranded) : server.nextId ∉ server.live :=
  fun hmem => Nat.lt_irrefl _ (h.earlier _ hmem)

theorem next (h : Slots limit arrived server stranded) (harrived : arrived + 1 < Offset.range) :
    Offset.add server.nextId 1 = server.nextId + 1 :=
  Nat.mod_eq_of_lt (Nat.lt_of_le_of_lt (Nat.succ_le_succ h.numbered) harrived)

/-- Nothing but the slots and whose they are matters. -/
theorem of_same {arrived' : Nat} (h : Slots limit arrived server stranded)
    (hmax : after.maxConnections = server.maxConnections) (hlive : after.live = server.live)
    (hids : after.sessions.map (·.1) = server.sessions.map (·.1))
    (hnext : server.nextId ≤ after.nextId) (harrived : after.nextId ≤ arrived') :
    Slots limit arrived' after stranded where
  many := hmax.trans h.many
  owned := by rw [hlive, hids]; exact h.owned
  nodup := by rw [hlive]; exact h.nodup
  earlier id hid := by
    rw [hlive] at hid
    exact Nat.lt_of_lt_of_le (h.earlier id hid) hnext
  numbered := harrived
  bounded := by rw [hlive]; exact h.bounded

/-- A slot is taken, by a session or for good. -/
theorem take (h : Slots limit arrived server stranded) (harrived : arrived + 1 < Offset.range)
    (hfree : ¬ Full server) {stranded' : List Nat} (sessions : List (Nat × Session))
    (howned : (sessions.map (·.1) ++ stranded').Perm
      (server.nextId :: (server.sessions.map (·.1) ++ stranded))) :
    Slots limit (arrived + 1)
      { server with
        nextId := Offset.add server.nextId 1
        live := server.nextId :: server.slotsBut server.nextId
        sessions } stranded' := by
  rw [h.next harrived, slotsBut_of_not_mem h.nextId_not_mem]
  exact {
    many := h.many
    owned := (h.owned.cons _).trans howned.symm
    nodup := List.nodup_cons.mpr ⟨h.nextId_not_mem, h.nodup⟩
    earlier := by
      intro id hid
      rcases List.mem_cons.mp hid with rfl | hid
      · exact Nat.lt_succ_self _
      · exact Nat.lt_succ_of_lt (h.earlier id hid)
    numbered := Nat.succ_le_succ h.numbered
    bounded := by
      rw [← h.many]
      exact Nat.lt_of_not_le hfree }

theorem accept (h : Slots limit arrived server stranded) (harrived : arrived + 1 < Offset.range)
    (failing : Option StartStep) :
    Slots limit (arrived + 1) (server.accept failing).2
      (server.stranding (.accepted failing) ++ stranded) := by
  by_cases hfull : Full server
  · have hsame : Slots limit (arrived + 1) server stranded :=
      h.of_same rfl rfl rfl (Nat.le_refl _) (Nat.le_succ_of_le h.numbered)
    rw [accept_of_full hfull]
    cases failing <;> simpa [stranding, hfull] using hsame
  rw [accept_of_free hfull]
  rcases failing with _ | step
  · exact h.take harrived hfull ((server.nextId, _) :: server.sessions) (List.Perm.refl _)
  by_cases hstrands : Strands step
  · -- the session is missing, and the slot is the first stranded one
    rw [start_stranded hstrands, stranding, if_pos ⟨hstrands, hfull⟩]
    exact h.take harrived hfull server.sessions List.perm_middle
  · obtain ⟨next, hnext, hstart⟩ := start_failed hstrands h.nextId_not_mem
    rw [hstart, stranding, if_neg (fun hboth => hstrands hboth.1)]
    rw [h.next harrived] at hnext
    have hnumbered := h.numbered
    have hlower : server.nextId ≤ next := by omega
    have hupper : next ≤ arrived + 1 := by omega
    exact h.of_same rfl rfl rfl hlower hupper

/-- A session that ends gives its own slot back, and no other. -/
theorem vacate (h : Slots limit arrived server stranded) {id : Nat}
    (hid : id ∈ server.sessions.map (·.1)) : Slots limit arrived (server.vacate id) stranded where
  many := h.many
  owned := by
    have hother : id ∉ stranded := by
      have hnodup := h.owned.nodup_iff.mp h.nodup
      exact fun hmem => (List.disjoint_of_nodup_append hnodup) hid hmem
    have hsessions : (server.sessions.filter (·.1 ≠ id)).map (·.1) =
        (server.sessions.map (·.1)).filter (· ≠ id) := by
      rw [List.filter_map]
      rfl
    have howned := h.owned.filter (· ≠ id)
    rw [List.filter_append, filter_ne_of_not_mem hother, ← hsessions] at howned
    exact howned
  nodup := h.nodup.filter _
  earlier id' hid' := h.earlier id' (List.mem_of_mem_filter hid')
  numbered := h.numbered
  bounded := Nat.le_trans (List.length_filter_le _ _) h.bounded

end Slots

theorem mem_ids_of_lookup {id : Nat} {session : Session}
    (h : server.sessions.lookup id = some session) : id ∈ server.sessions.map (·.1) :=
  List.mem_map.mpr ⟨(id, session), mem_of_lookup h, rfl⟩

variable [Storage σ]

theorem Slots.deliver (h : Slots limit arrived server stranded) (id : Nat) (bytes : Bytes) :
    Slots limit arrived (server.deliver id bytes).2 stranded := by
  unfold Server.deliver
  rcases hlookup : server.sessions.lookup id with _ | session
  · exact h
  rcases hfed : session.feed bytes server.storage with ⟨⟨sent, session'⟩, storage⟩
  have hstored : Slots limit arrived { server with storage } stranded :=
    h.of_same rfl rfl rfl (Nat.le_refl _) h.numbered
  simp only [hfed]
  split
  · exact hstored.vacate (mem_ids_of_lookup hlookup)
  · refine hstored.of_same rfl rfl ?_ (Nat.le_refl _) h.numbered
    -- a session that goes on keeps its number
    rw [List.map_map]
    refine List.map_congr_left fun entry _ => ?_
    by_cases hentry : entry.1 = id <;> simp [hentry]

/-- **What an event does to the slots.** -/
theorem Slots.handle (h : Slots limit arrived server stranded) {event : Event}
    (harrived : arrived + event.arrivals < Offset.range) :
    Slots limit (arrived + event.arrivals) (server.handle event)
      (server.stranding event ++ stranded) := by
  cases event with
  | accepted failing => exact h.accept harrived failing
  | received id bytes => exact h.deliver id bytes
  | left id =>
    rcases hlookup : server.sessions.lookup id with _ | session
    · simpa [Server.handle, hlookup, stranding, Event.arrivals] using h
    · simpa [Server.handle, hlookup, stranding, Event.arrivals] using
        h.vacate (mem_ids_of_lookup hlookup)

/-! ### Runs -/

/-- The slots that some events strand, the last one first. -/
def strandedBy (server : Server σ) : List Event → List Nat
  | [] => []
  | event :: events => strandedBy (server.handle event) events ++ server.stranding event

theorem Slots.serve (h : Slots limit arrived server stranded) {events : List Event}
    (harrived : arrived + arrivals events < Offset.range) :
    Slots limit (arrived + arrivals events) (server.serve events)
      (server.strandedBy events ++ stranded) := by
  induction events generalizing arrived server stranded with
  | nil => exact h
  | cons event events ih =>
    have hsum : arrived + arrivals (event :: events) =
        arrived + event.arrivals + arrivals events := (Nat.add_assoc ..).symm
    rw [hsum] at harrived ⊢
    rw [strandedBy, List.append_assoc]
    exact ih (h.handle (Nat.lt_of_le_of_lt (Nat.le_add_right _ _) harrived)) harrived

theorem Slots.of_serve (storage : σ) (maxPayload maxConnections : Nat) {events : List Event}
    (harrived : arrivals events < Offset.range) :
    Slots maxConnections (arrivals events)
      (({ storage, maxPayload, maxConnections } : Server σ).serve events)
      (({ storage, maxPayload, maxConnections } : Server σ).strandedBy events) := by
  have hidle := Slots.idle storage maxPayload maxConnections
  rw [← Nat.zero_add (arrivals events)] at harrived
  simpa using hidle.serve harrived

/-- **The slots of a server.** Whatever has happened, as long as no number is given again, no more
slots are taken than there are. They are those of the sessions and the stranded ones: there are as many
as sessions just if no start was stranded, and a connection is refused just if the sessions and the
stranded slots make up all slots. One whose session is not started takes a slot only if it is
stranded. -/
theorem live_of_serve (storage : σ) (maxPayload maxConnections : Nat) (events : List Event)
    (harrived : arrivals events < Offset.range) :
    let idle : Server σ := { storage, maxPayload, maxConnections }
    let server := idle.serve events
    let stranded := idle.strandedBy events
    server.live.length = server.sessions.length + stranded.length ∧
      server.live.length ≤ maxConnections ∧
      (server.live.length = server.sessions.length ↔ stranded = []) ∧
      ((server.accept none).1 = none ↔
        server.sessions.length + stranded.length = maxConnections) ∧
      ∀ step, (server.accept (some step)).1 = none ∧
        (server.accept (some step)).2.sessions = server.sessions ∧
        (server.accept (some step)).2.live =
          server.stranding (.accepted (some step)) ++ server.live := by
  intro idle server stranded
  have hslots : Slots maxConnections (arrivals events) server stranded :=
    Slots.of_serve storage maxPayload maxConnections harrived
  have hlive := hslots.length_live
  have hbounded := hslots.bounded
  refine ⟨hlive, hbounded, ?_, ?_, accept_failed hslots.nextId_not_mem⟩
  · rw [← List.length_eq_zero_iff]
    omega
  · rw [refused_iff, Full, hslots.many]
    omega

/-- A session beside a start that stays stranded: both slots are taken, by one session. -/
theorem live_of_serve_stranded :
    let events : List Event :=
      [.accepted (some .prepare), .accepted none, .left 1, .accepted none]
    let server := ({ storage := ⟨[]⟩, maxPayload := 16, maxConnections := 2 } : Server Memory).serve
      events
    arrivals events < Offset.range ∧ server.live.length = server.sessions.length + 1 ∧
      server.live.length ≤ 2 ∧ server.live.length ≠ server.sessions.length ∧
      (server.accept none).1 = none := by
  intro events server
  have harrived : arrivals events < Offset.range := by decide
  obtain ⟨hlive, hbounded, hexact, hrefused, -⟩ :=
    live_of_serve (⟨[]⟩ : Memory) 16 2 events harrived
  exact ⟨harrived, hlive, hbounded, fun heq => absurd (hexact.mp heq) (by decide),
    hrefused.mpr rfl⟩

/-- One connection that could not be prepared holds the only slot: no session is served, and the next
connection is refused. -/
theorem live_of_unprepared :
    let idle : Server Memory := { storage := ⟨[]⟩, maxPayload := 16, maxConnections := 1 }
    let server := idle.serve [.accepted (some .prepare)]
    server.live.length = 1 ∧ server.sessions.length = 0 ∧ server.accept none = (none, server) :=
  ⟨rfl, rfl, rfl⟩

/-- A full server without sessions stays as it is. -/
theorem serve_of_full (hsessions : server.sessions = []) (hfull : Full server)
    (events : List Event) : server.serve events = server := by
  induction events with
  | nil => rfl
  | cons event events ih =>
    have hevent : server.handle event = server := by
      cases event with
      | accepted failing => rw [handle, accept_of_full hfull]
      | received id bytes => simp [handle, deliver, hsessions]
      | left id => simp [handle, hsessions]
    rw [serve, List.foldl_cons, hevent]
    exact ih

/-- **Once all slots are stranded, everyone is refused**, whatever happens later. -/
theorem refuses_of_stranded (storage : σ) {maxPayload maxConnections : Nat} {events : List Event}
    (harrived : arrivals events < Offset.range)
    (h : maxConnections ≤
      (({ storage, maxPayload, maxConnections } : Server σ).strandedBy events).length)
    (later : List Event) :
    let server := ({ storage, maxPayload, maxConnections } : Server σ).serve (events ++ later)
    server.sessions = [] ∧ ∀ failing, server.accept failing = (none, server) := by
  intro server
  have hslots := Slots.of_serve storage maxPayload maxConnections harrived
  have hlive := hslots.length_live
  have hbounded := hslots.bounded
  have hsessions := List.length_eq_zero_iff.mp (by omega :
    (({ storage, maxPayload, maxConnections } : Server σ).serve events).sessions.length = 0)
  have hfull : Full (({ storage, maxPayload, maxConnections } : Server σ).serve events) := by
    rw [Full, hslots.many]
    omega
  have hserver : server = ({ storage, maxPayload, maxConnections } : Server σ).serve events :=
    (List.foldl_append ..).trans (serve_of_full hsessions hfull later)
  rw [hserver]
  exact ⟨hsessions, accept_of_full hfull⟩

/-- Two starts that stay stranded while a session comes and goes. -/
example : (({ storage := ⟨[]⟩, maxPayload := 16, maxConnections := 2 } : Server Memory).strandedBy
    [.accepted (some .prepare), .accepted none, .left 1, .accepted (some .limitTime)]) = [2, 0] := rfl

end FramedStore.Server
