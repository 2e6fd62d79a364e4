import FramedStore.Proofs.Traffic.Line
import Mathlib.Data.List.Nodup

/-!
# The order of the answers

However the steps of clients and their sessions interleave, all calls act on the storage as if they were
made one after the other, in the order in which the sessions answer them, and each client sees of its
own calls what they give there (`Linearizes`, `run_linearizes`).
-/

namespace FramedStore.Traffic

open Effect
open scoped List

/-! ### Calls in an order -/

/-- A call with its request. -/
structure Call where
  id : CallId
  request : Request
  deriving DecidableEq

/-- Makes a call on a storage that is at hand. -/
def Call.perform (call : Call) : Effect Memory Storage.Answer :=
  call.request.perform

/-- The calls of a client, in its own order. -/
def User.calls (number : Nat) (user : User) : List Call :=
  user.program.mapIdx fun index request => ⟨⟨number, index⟩, request⟩

/-- The calls of one client. -/
def ofClient (number : Nat) (order : List Call) : List Call :=
  order.filter (·.id.client = number)

/-- What a client sees of its calls when all calls are made one after the other. -/
def results (number : Nat) (order : List Call) (storage : Memory) :
    List (Except Error Storage.Answer) :=
  ((trace Call.perform order storage).filter (·.call.id.client = number)).map
    fun made => Remote.seen made.outcome

/-- The call that is answered in a step. -/
def Event.answered? : Event → Option CallId
  | .answered id _ => some id
  | _ => none

/-- Calls one after the other that make a run of clients and their sessions. -/
structure Linearizes (users : List User) (storage : Memory) (events : List Event)
    (traffic : Traffic Memory) (order : List Call) : Prop where
  clients : traffic.lines.length = users.length
  /-- The calls are those that sessions have answered, whether or not the reply has been received. -/
  dispatched : order.map (·.id) = events.filterMap Event.answered?
  nodup : order.Nodup
  known : ∀ call ∈ order, call.id.client < users.length
  /-- Each client's own order is kept. -/
  own : ∀ number user, users[number]? = some user →
    ofClient number order <+: user.calls number
  /-- A call that has ended comes before each call whose request was sent after that. -/
  realTime : ∀ id outcome later request,
    [.received id outcome, .sent later request] <+ events → later ∈ order.map (·.id) →
      [id, later] <+ order.map (·.id)
  /-- Each client has got what its calls give in this order. -/
  results : ∀ number line, traffic.lines[number]? = some line →
    line.outcomes <+: results number order storage
  settled : ∀ number line, traffic.lines[number]? = some line → line.outstanding = none →
    line.outcomes = Traffic.results number order storage
  /-- No call of a client that has come to its end is left out. -/
  finished : ∀ number user line, users[number]? = some user →
    traffic.lines[number]? = some line → line.outstanding = none → line.program = [] →
      ofClient number order = user.calls number
  content : traffic.storage = ending Call.perform order storage
  /-- If all calls append, the content is the payloads of the clients, interleaved. -/
  appends : (∀ user ∈ users, ∀ request ∈ user.program, ∃ added, request = .append added) →
    traffic.storage.content = storage.content ++ order.flatMap (·.request.payload)

variable {number other : Nat} {user : User} {order : List Call} {call : Call} {storage : Memory}
  {id later : CallId} {request : Request}

section Calls

theorem getElem?_calls (number : Nat) (user : User) (index : Nat) :
    (user.calls number)[index]? = user.program[index]?.map fun request => ⟨⟨number, index⟩, request⟩ :=
  List.getElem?_mapIdx

theorem id_of_mem_take_calls {count : Nat} (h : call ∈ (user.calls number).take count) :
    call.id.client = number ∧ call.id.index < count ∧
      user.program[call.id.index]? = some call.request := by
  obtain ⟨index, hget⟩ := List.mem_iff_getElem?.mp h
  rw [List.getElem?_take] at hget
  split at hget
  · rw [getElem?_calls] at hget
    obtain ⟨request, hrequest, rfl⟩ := Option.map_eq_some_iff.mp hget
    exact ⟨rfl, ‹_›, hrequest⟩
  · cases hget

theorem ofClient_concat_self (h : call.id.client = number) (order : List Call) :
    ofClient number (order ++ [call]) = ofClient number order ++ [call] := by
  simp [ofClient, List.filter_append, h]

theorem ofClient_concat_ne (h : call.id.client ≠ number) (order : List Call) :
    ofClient number (order ++ [call]) = ofClient number order := by
  simp [ofClient, List.filter_append, h]

theorem results_concat_self (h : call.id.client = number) (order : List Call) (storage : Memory) :
    results number (order ++ [call]) storage = results number order storage ++
      [Remote.seen (step Call.perform call (ending Call.perform order storage)).outcome] := by
  simp [results, trace_concat, List.filter_append, h]

theorem results_concat_ne (h : call.id.client ≠ number) (order : List Call) (storage : Memory) :
    results number (order ++ [call]) storage = results number order storage := by
  simp [results, trace_concat, List.filter_append, h]

/-- A call does what its request does. -/
theorem step_perform (call : Call) (memory : Memory) :
    (step Call.perform call memory).outcome =
        (step Request.perform call.request memory).outcome ∧
      (step Call.perform call memory).after = (step Request.perform call.request memory).after := by
  unfold step Call.perform
  cases call.request.perform memory <;> exact ⟨rfl, rfl⟩

/-- Calls that append leave their payloads one behind the other. -/
theorem ending_appends {order : List Call} (storage : Memory)
    (h : ∀ call ∈ order, ∃ added, call.request = .append added) :
    (ending Call.perform order storage).content =
      storage.content ++ order.flatMap (·.request.payload) := by
  induction order generalizing storage with
  | nil => exact (List.append_nil _).symm
  | cons call order ih =>
    obtain ⟨⟨added, hadded⟩, horder⟩ := List.forall_mem_cons.mp h
    have hstep : (step Call.perform call storage).after = ⟨storage.content ++ added⟩ := by
      rw [(step_perform call storage).2, hadded]
      rfl
    rw [ending, hstep, ih _ horder, List.flatMap_cons, hadded, List.append_assoc]
    rfl

end Calls

/-! ### One client in the order -/

/-- How far a client has come, when calls have been answered in an order. -/
structure Fits (serverLimit : Nat) (user : User) (number : Nat) (stand : Stand) (order : List Call)
    (storage : Memory) : Prop where
  sound : stand.Sound serverLimit user.maxPayload
  program : user.program.drop stand.outcomes.length = stand.phase.request?.toList ++ stand.program
  own : ofClient number order =
    (user.calls number).take (stand.outcomes.length + stand.phase.reply?.toList.length)
  results : results number order storage =
    stand.outcomes ++ stand.phase.reply?.toList.map Reply.outcome

namespace Fits

variable {serverLimit : Nat} {stand stand' : Stand} {memory memory' : Memory} {event : Event}
  {program : List Request} {outcomes : List (Except Error Storage.Answer)} {reply : Reply}

theorem start (h : ∀ request ∈ user.program, request.Sendable serverLimit) (number : Nat)
    (storage : Memory) : Fits serverLimit user number ⟨user.program, [], .idle⟩ [] storage where
  sound := ⟨h, nofun, nofun⟩
  program := rfl
  own := rfl
  results := rfl

/-- A call that another client has answered changes nothing. -/
theorem concat_ne (h : Fits serverLimit user number stand order storage)
    (hne : call.id.client ≠ number) :
    Fits serverLimit user number stand (order ++ [call]) storage where
  sound := h.sound
  program := h.program
  own := by rw [ofClient_concat_ne hne, h.own]
  results := by rw [results_concat_ne hne, h.results]

/-- The call that waits for its reply is the next one of the client's. -/
theorem call_eq (h : Fits serverLimit user number stand order storage)
    (hrequest : stand.phase.request? = some request) :
    (user.calls number)[stand.outcomes.length]? =
      some ⟨⟨number, stand.outcomes.length⟩, request⟩ := by
  have hdrop := h.program
  rw [hrequest] at hdrop
  rw [getElem?_calls, ← List.head?_drop, hdrop]
  rfl

/-- The calls of a client that have been answered are its first ones. -/
theorem index_lt (h : Fits serverLimit user number stand order storage) (hcall : call ∈ order)
    (hclient : call.id.client = number) :
    call.id.index < stand.outcomes.length + stand.phase.reply?.toList.length := by
  have hmem : call ∈ ofClient number order := List.mem_filter.mpr ⟨hcall, by simpa using hclient⟩
  rw [h.own] at hmem
  exact (id_of_mem_take_calls hmem).2.1

theorem sent
    (h : Fits serverLimit user number ⟨request :: program, outcomes, .idle⟩ order storage) :
    Fits serverLimit user number ⟨program, outcomes, .posted request⟩ order storage where
  sound := {
    program := fun later hlater => h.sound.program later (List.mem_cons_of_mem _ hlater)
    posted := by
      rintro _ ⟨⟩
      exact h.sound.program request List.mem_cons_self
    answered := nofun }
  program := h.program
  own := h.own
  results := h.results

theorem answered (h : Fits serverLimit user number ⟨program, outcomes, .posted request⟩ order storage)
    (hcall : call = ⟨⟨number, outcomes.length⟩, request⟩)
    (hrespond : Session.respond request.run (ending Call.perform order storage) = (reply, memory'))
    (hsendable : reply.Sendable user.maxPayload) :
    Fits serverLimit user number ⟨program, outcomes, .answered request reply⟩ (order ++ [call])
        storage ∧
      memory' = ending Call.perform (order ++ [call]) storage := by
  obtain ⟨hwritten, houtcome, hafter⟩ := Session.written_of_respond hrespond hsendable
  obtain ⟨hstep, hstep'⟩ := step_perform call (ending Call.perform order storage)
  have hclient : call.id.client = number := by rw [hcall]
  have hrequest : call.request = request := by rw [hcall]
  rw [hrequest] at hstep hstep'
  have hget : (user.calls number)[outcomes.length]? = some call := hcall ▸ h.call_eq rfl
  refine ⟨⟨⟨h.sound.program, nofun, ?_⟩, h.program, ?_, ?_⟩, ?_⟩
  · rintro _ _ ⟨⟩
    exact hwritten
  · rw [ofClient_concat_self hclient, h.own]
    exact (List.take_add_one.trans (by rw [hget]; rfl)).symm
  · rw [results_concat_self hclient, h.results, hstep, ← houtcome]
    simp [Phase.reply?]
  · rw [ending_concat, hstep', hafter]

/-- The call whose reply is on its way has been answered. -/
theorem id_mem_of_answered
    (h : Fits serverLimit user number ⟨program, outcomes, .answered request reply⟩ order storage) :
    ⟨number, outcomes.length⟩ ∈ order.map (·.id) := by
  have hmem : ⟨⟨number, outcomes.length⟩, request⟩ ∈ ofClient number order := by
    rw [h.own]
    exact List.mem_iff_getElem?.mpr ⟨outcomes.length,
      (List.getElem?_take_of_lt (Nat.lt_succ_self outcomes.length)).trans (h.call_eq rfl)⟩
  exact List.mem_map.mpr ⟨_, (List.mem_filter.mp hmem).1, rfl⟩

theorem received
    (h : Fits serverLimit user number ⟨program, outcomes, .answered request reply⟩ order storage) :
    Fits serverLimit user number ⟨program, outcomes ++ [reply.outcome], .idle⟩ order storage where
  sound := ⟨h.sound.program, nofun, nofun⟩
  program := by
    have hdrop : user.program.drop outcomes.length = request :: program := h.program
    rw [List.length_append, ← List.drop_drop, hdrop]
    rfl
  own := by
    rw [h.own, List.length_append]
    rfl
  results := by
    rw [h.results]
    simp [Phase.reply?]

end Fits

/-! ### All clients in the order -/

theorem pair_sublist_concat {α : Type} {a b c : α} {l : List α} :
    [a, b] <+ l ++ [c] ↔ [a, b] <+ l ∨ a ∈ l ∧ b = c := by
  constructor
  · intro h
    obtain ⟨front, back, heq, hfront, hback⟩ := List.sublist_append_iff.mp h
    rcases List.sublist_singleton.mp hback with rfl | rfl
    · rw [List.append_nil] at heq
      exact .inl (heq ▸ hfront)
    · have hsplit : [a] ++ [b] = front ++ [c] := heq
      obtain ⟨rfl, hlast⟩ := List.append_inj' hsplit rfl
      exact .inr ⟨List.singleton_sublist.mp hfront, List.singleton_inj.mp hlast⟩
  · rintro (h | ⟨h, rfl⟩)
    · exact h.trans (List.sublist_append_left l [c])
    · exact (List.singleton_sublist.mpr h).append (List.Sublist.refl [b])

/-- What holds between two steps, when the sessions have answered calls in an order. -/
structure Consistent (serverLimit : Nat) (users : List User) (storage : Memory)
    (events : List Event) (traffic : Traffic Memory) (order : List Call) : Prop where
  clients : traffic.lines.length = users.length
  fits : ∀ {number : Nat} {user : User}, users[number]? = some user → ∃ stand,
    traffic.lines[number]? = some (stand.line serverLimit user.maxPayload) ∧
      Fits serverLimit user number stand order storage
  content : traffic.storage = ending Call.perform order storage
  dispatched : order.map (·.id) = events.filterMap Event.answered?
  nodup : (order.map (·.id)).Nodup
  known : ∀ call ∈ order, call.id.client < users.length
  received : ∀ id outcome, .received id outcome ∈ events → id ∈ order.map (·.id)
  realTime : ∀ id outcome later request,
    [.received id outcome, .sent later request] <+ events → later ∈ order.map (·.id) →
      [id, later] <+ order.map (·.id)

variable {serverLimit : Nat} {users : List User} {events : List Event} {event : Event}
  {traffic next : Traffic Memory}

namespace Consistent

theorem start (hprograms : ∀ user ∈ users, ∀ request ∈ user.program, request.Sendable serverLimit)
    (storage : Memory) :
    Consistent serverLimit users storage [] (Traffic.start serverLimit storage users) [] where
  clients := List.length_map ..
  fits := by
    intro number user hnumber
    refine ⟨⟨user.program, [], .idle⟩, ?_, .start
      (hprograms user (List.mem_of_getElem? hnumber)) number storage⟩
    rw [Traffic.start, List.getElem?_map, hnumber]
    rfl
  content := rfl
  dispatched := rfl
  nodup := List.nodup_nil
  known := fun _ h => absurd h List.not_mem_nil
  received := fun _ _ h => absurd h List.not_mem_nil
  realTime := fun _ _ _ _ _ h => absurd h List.not_mem_nil

/-- A step is one of a client or its session, and the others stay. -/
theorem on_line (hserver : serverLimit < Offset.range)
    (hlimits : ∀ user ∈ users, user.maxPayload < Offset.range)
    (hcons : Consistent serverLimit users storage events traffic order)
    (h : Step traffic event next) :
    ∃ number user stand stand', users[number]? = some user ∧
      Fits serverLimit user number stand order storage ∧
      stand.Step number traffic.storage event stand' next.storage ∧
      next.lines = traffic.lines.set number (stand'.line serverLimit user.maxPayload) := by
  obtain ⟨action, hact⟩ := h
  unfold act at hact
  cases hline : traffic.lines[action.client]? with
  | none =>
    rw [hline] at hact
    cases hact
  | some line =>
    have hlt : action.client < users.length :=
      hcons.clients ▸ (List.getElem?_eq_some_iff.mp hline).1
    obtain ⟨user, huser⟩ : ∃ user, users[action.client]? = some user :=
      ⟨_, List.getElem?_eq_getElem hlt⟩
    obtain ⟨stand, hstand, hfits⟩ := hcons.fits huser
    obtain rfl := Option.some.inj (hline.symm.trans hstand)
    simp only [hline] at hact
    split at hact
    · next event' line' memory heq =>
      cases hact
      obtain ⟨stand', rfl, hstep⟩ := onLine_eq_some hserver
        (hlimits user (List.mem_of_getElem? huser)) hfits.sound heq
      exact ⟨_, user, stand, stand', huser, hfits, hstep, rfl⟩
    · cases hact

/-- The clients after a step of one of them. -/
theorem fits_set (hcons : Consistent serverLimit users storage events traffic order) {stand : Stand}
    {order' : List Call} (huser : users[number]? = some user)
    (hfits : Fits serverLimit user number stand order' storage)
    (hothers : ∀ {other user stand}, other ≠ number →
      Fits serverLimit user other stand order storage →
        Fits serverLimit user other stand order' storage)
    (hlines : next.lines = traffic.lines.set number (stand.line serverLimit user.maxPayload)) :
    ∀ {other : Nat} {user : User}, users[other]? = some user → ∃ stand,
      next.lines[other]? = some (stand.line serverLimit user.maxPayload) ∧
        Fits serverLimit user other stand order' storage := by
  intro other user' huser'
  by_cases heq : other = number
  · subst heq
    obtain rfl := Option.some.inj (huser.symm.trans huser')
    refine ⟨stand, ?_, hfits⟩
    rw [hlines, List.getElem?_set_self
      (hcons.clients ▸ (List.getElem?_eq_some_iff.mp huser).1)]
  · obtain ⟨stand', hstand', hfits'⟩ := hcons.fits huser'
    refine ⟨stand', ?_, hothers heq hfits'⟩
    rw [hlines, List.getElem?_set_ne (Ne.symm heq), hstand']

/-- **A step keeps what holds between steps.** It puts the call that a session answers behind those
that have been answered before. -/
theorem step (hserver : serverLimit < Offset.range)
    (hlimits : ∀ user ∈ users, user.maxPayload < Offset.range)
    (hcons : Consistent serverLimit users storage events traffic order)
    (hstep : Step traffic event next)
    (hreplies : ∀ id reply user, event = .answered id reply → users[id.client]? = some user →
      reply.Sendable user.maxPayload) :
    ∃ order', Consistent serverLimit users storage (events ++ [event]) next order' := by
  obtain ⟨number, user, stand, stand', huser, hfits, hmove, hlines⟩ :=
    hcons.on_line hserver hlimits hstep
  have hclients : next.lines.length = users.length := by
    rw [hlines, List.length_set, hcons.clients]
  obtain ⟨lines, memory⟩ := next
  cases hmove with
  | sent request program outcomes =>
    refine ⟨order, hclients, hcons.fits_set huser hfits.sent (fun _ h => h) hlines, hcons.content, ?_,
      hcons.nodup, hcons.known, ?_, ?_⟩
    · rw [hcons.dispatched]
      simp [List.filterMap_append, Event.answered?]
    · intro id outcome hreceived
      exact hcons.received id outcome (by simpa using hreceived)
    · intro id outcome later request' hpair hlater
      rcases pair_sublist_concat.mp hpair with hpair | ⟨-, hlast⟩
      · exact hcons.realTime id outcome later request' hpair hlater
      · -- the call has just been sent, so that no session has answered it
        obtain ⟨rfl, rfl⟩ := Event.sent.inj hlast
        obtain ⟨call, hcall, hid⟩ := List.mem_map.mp hlater
        have hlt := hfits.index_lt hcall (by rw [hid])
        rw [hid] at hlt
        exact absurd hlt (Nat.lt_irrefl _)
  | @answered request _ _ reply program outcomes hrespond =>
    obtain ⟨call, hcall⟩ : ∃ call : Call, call = ⟨⟨number, outcomes.length⟩, request⟩ := ⟨_, rfl⟩
    have hclient : call.id.client = number := by rw [hcall]
    have hid : call.id = ⟨number, outcomes.length⟩ := by rw [hcall]
    have hids : (order ++ [call]).map (·.id) = order.map (·.id) ++ [call.id] := by simp
    rw [hcons.content] at hrespond
    obtain ⟨hanswered, hmemory⟩ := hfits.answered hcall hrespond
      (hreplies ⟨number, outcomes.length⟩ reply user rfl huser)
    refine ⟨order ++ [call], hclients, hcons.fits_set huser hanswered
      (fun hother h => h.concat_ne (hclient ▸ hother.symm)) hlines, hmemory, ?_, ?_, ?_, ?_, ?_⟩
    · rw [hids, hcons.dispatched, hid]
      simp [List.filterMap_append, Event.answered?]
    · rw [hids, List.nodup_append]
      refine ⟨hcons.nodup, List.nodup_singleton _, ?_⟩
      rintro id hmem _ hlast rfl
      obtain rfl := List.mem_singleton.mp hlast
      obtain ⟨earlier, hearlier, heq⟩ := List.mem_map.mp hmem
      have hlt := hfits.index_lt hearlier (by rw [heq, hclient])
      rw [heq, hid] at hlt
      exact absurd hlt (Nat.lt_irrefl _)
    · intro earlier hearlier
      rcases List.mem_append.mp hearlier with hearlier | hlast
      · exact hcons.known earlier hearlier
      · rw [List.mem_singleton.mp hlast, hclient]
        exact (List.getElem?_eq_some_iff.mp huser).1
    · intro id outcome hreceived
      rw [hids]
      exact List.mem_append_left _ (hcons.received id outcome (by simpa using hreceived))
    · intro id outcome later request' hpair hlater
      rw [hids] at hlater ⊢
      have hbefore : [.received id outcome, .sent later request'] <+ events :=
        (pair_sublist_concat.mp hpair).resolve_right nofun
      rw [pair_sublist_concat]
      rcases List.mem_append.mp hlater with hlater | hlast
      · exact .inl (hcons.realTime id outcome later request' hbefore hlater)
      · exact .inr ⟨hcons.received id outcome (hbefore.subset List.mem_cons_self),
          List.mem_singleton.mp hlast⟩
  | received request reply program outcomes =>
    refine ⟨order, hclients, hcons.fits_set huser hfits.received (fun _ h => h) hlines,
      hcons.content, ?_, hcons.nodup, hcons.known, ?_, ?_⟩
    · rw [hcons.dispatched]
      simp [List.filterMap_append, Event.answered?]
    · intro id outcome hreceived
      rcases List.mem_append.mp hreceived with hreceived | hlast
      · exact hcons.received id outcome hreceived
      · obtain ⟨rfl, rfl⟩ := Event.received.inj (List.mem_singleton.mp hlast)
        exact hfits.id_mem_of_answered
    · intro id outcome later request' hpair hlater
      exact hcons.realTime id outcome later request'
        ((pair_sublist_concat.mp hpair).resolve_right nofun) hlater

/-- **A run of clients is one of calls made one after the other.** -/
theorem linearizes (hcons : Consistent serverLimit users storage events traffic order) :
    Linearizes users storage events traffic order := by
  have hstand : ∀ {number line}, traffic.lines[number]? = some line → ∃ user stand,
      users[number]? = some user ∧ line = stand.line serverLimit user.maxPayload ∧
        Fits serverLimit user number stand order storage := by
    intro number line hline
    have hlt : number < users.length := hcons.clients ▸ (List.getElem?_eq_some_iff.mp hline).1
    have huser : users[number]? = some users[number] := List.getElem?_eq_getElem hlt
    obtain ⟨stand, hstand, hfits⟩ := hcons.fits huser
    exact ⟨_, stand, huser, Option.some.inj (hline.symm.trans hstand), hfits⟩
  have hidle : ∀ {stand : Stand} {limit : Nat},
      (stand.line serverLimit limit).outstanding = none → stand.phase.reply? = none := by
    intro stand limit hnone
    obtain ⟨program, outcomes, phase⟩ := stand
    cases phase with
    | idle => rfl
    | posted | answered => cases hnone
  refine ⟨hcons.clients, hcons.dispatched, .of_map _ hcons.nodup, hcons.known, ?_, hcons.realTime,
    ?_, ?_, ?_, hcons.content, ?_⟩
  · intro number user huser
    obtain ⟨stand, -, hfits⟩ := hcons.fits huser
    rw [hfits.own]
    exact List.take_prefix _ _
  · intro number line hline
    obtain ⟨user, stand, -, rfl, hfits⟩ := hstand hline
    rw [hfits.results]
    exact List.prefix_append _ _
  · intro number line hline hnone
    obtain ⟨user, stand, -, rfl, hfits⟩ := hstand hline
    rw [hfits.results, hidle hnone]
    exact (List.append_nil _).symm
  · intro number user line huser hline hnone hprogram
    obtain ⟨user', stand, huser', rfl, hfits⟩ := hstand hline
    obtain rfl := Option.some.inj (huser.symm.trans huser')
    have hrest : user.program.drop stand.outcomes.length = [] := by
      have hrequest : stand.phase.request? = none := hnone
      have hnext : stand.program = [] := hprogram
      rw [hfits.program, hrequest, hnext]
      rfl
    have hlength : (user.calls number).length ≤ stand.outcomes.length := by
      rw [User.calls, List.length_mapIdx]
      exact List.drop_eq_nil_iff.mp hrest
    rw [hfits.own, List.take_of_length_le (by omega)]
  · intro happend
    rw [hcons.content]
    refine ending_appends storage fun call hcall => ?_
    have hlt := hcons.known call hcall
    have huser : users[call.id.client]? = some users[call.id.client] := List.getElem?_eq_getElem hlt
    obtain ⟨stand, -, hfits⟩ := hcons.fits huser
    have hmem : call ∈ ofClient call.id.client order := List.mem_filter.mpr ⟨hcall, by simp⟩
    rw [hfits.own] at hmem
    exact happend _ (List.getElem_mem hlt) call.request
      (List.mem_of_getElem? (id_of_mem_take_calls hmem).2.2)

end Consistent

/-! ### Every interleaving -/

deriving instance DecidableEq for Event

theorem Run.follow {first last : Traffic Memory} {actions : List Action} {more : List Event}
    (h : Run first events traffic) (hfollow : traffic.follow actions = some (more, last)) :
    Run first (events ++ more) last := by
  induction actions generalizing events traffic more with
  | nil =>
    cases hfollow
    rwa [List.append_nil]
  | cons action actions ih =>
    obtain ⟨⟨event, next⟩, hact, hrest⟩ := Option.bind_eq_some_iff.mp hfollow
    obtain ⟨⟨later, final⟩, hlater, hdone⟩ := Option.bind_eq_some_iff.mp hrest
    cases hdone
    have hrun := ih (.snoc h ⟨action, hact⟩) hlater
    rwa [List.append_assoc] at hrun

/-- Each reply is one that the client takes. -/
def RepliesFit (users : List User) (events : List Event) : Prop :=
  ∀ id reply user, .answered id reply ∈ events → users[id.client]? = some user →
    reply.Sendable user.maxPayload

theorem consistent_run (hserver : serverLimit < Offset.range)
    (hlimits : ∀ user ∈ users, user.maxPayload < Offset.range)
    (hprograms : ∀ user ∈ users, ∀ request ∈ user.program, request.Sendable serverLimit)
    (hrun : Run (start serverLimit storage users) events traffic)
    (hreplies : RepliesFit users events) :
    ∃ order, Consistent serverLimit users storage events traffic order := by
  induction hrun with
  | nil => exact ⟨[], .start hprograms storage⟩
  | @snoc events event traffic next hrun hstep ih =>
    obtain ⟨order, hcons⟩ := ih fun id reply user hmem =>
      hreplies id reply user (List.mem_append_left _ hmem)
    refine hcons.step hserver hlimits hstep fun id reply user hevent => ?_
    exact hreplies id reply user (List.mem_append_right _ (List.mem_singleton.mpr hevent.symm))

/-- **Every interleaving is linearizable.** However the steps of clients and their sessions interleave,
the calls act on the storage one after the other. -/
theorem run_linearizes (hserver : serverLimit < Offset.range)
    (hlimits : ∀ user ∈ users, user.maxPayload < Offset.range)
    (hprograms : ∀ user ∈ users, ∀ request ∈ user.program, request.Sendable serverLimit)
    (hrun : Run (start serverLimit storage users) events traffic)
    (hreplies : RepliesFit users events) :
    ∃ order, Linearizes users storage events traffic order := by
  obtain ⟨order, hcons⟩ := consistent_run hserver hlimits hprograms hrun hreplies
  exact ⟨order, hcons.linearizes⟩

/-- Two clients with appends on their way at once, of which one gets an error, and a size that is
received after a later call has been answered. -/
theorem run_linearizes_overlapping :
    let users : List User :=
      [⟨64, [.append [1], .size]⟩, ⟨64, [.append [2, 3], .slice 0 9, .getAll]⟩]
    let text := "Range 0..9 is out of bounds for storage of size 4"
    let events : List Event :=
      [.sent ⟨0, 0⟩ (.append [1]), .sent ⟨1, 0⟩ (.append [2, 3]), .answered ⟨1, 0⟩ .done,
        .answered ⟨0, 0⟩ .done, .received ⟨0, 0⟩ (.ok .done), .sent ⟨0, 1⟩ .size,
        .received ⟨1, 0⟩ (.ok .done), .answered ⟨0, 1⟩ (.size 4), .sent ⟨1, 1⟩ (.slice 0 9),
        .answered ⟨1, 1⟩ (.error text), .received ⟨1, 1⟩ (.error (.remote text)),
        .received ⟨0, 1⟩ (.ok (.size 4)), .sent ⟨1, 2⟩ .getAll,
        .answered ⟨1, 2⟩ (.bytes [7, 2, 3, 1]), .received ⟨1, 2⟩ (.ok (.bytes [7, 2, 3, 1]))]
    100 < Offset.range ∧ (∀ user ∈ users, user.maxPayload < Offset.range) ∧
      (∀ user ∈ users, ∀ request ∈ user.program, request.Sendable 100) ∧
      RepliesFit users events ∧ ∃ traffic, Run (start 100 ⟨[7]⟩ users) events traffic ∧
        ∃ order, Linearizes users ⟨[7]⟩ events traffic order := by
  intro users text events
  have hserver : 100 < Offset.range := by decide
  have hlimits : ∀ user ∈ users, user.maxPayload < Offset.range := by decide
  have hprograms : ∀ user ∈ users, ∀ request ∈ user.program, request.Sendable 100 := by decide
  have hreplies : RepliesFit users events := by
    intro id reply user hanswered huser
    simp only [events, List.mem_cons, List.not_mem_nil, Event.answered.injEq, reduceCtorEq,
      false_or, or_false] at hanswered
    rcases hanswered with ⟨rfl, rfl⟩ | ⟨rfl, rfl⟩ | ⟨rfl, rfl⟩ | ⟨rfl, rfl⟩ | ⟨rfl, rfl⟩ <;>
      obtain rfl := Option.some.inj huser
    all_goals
      refine ⟨by decide +kernel, ?_⟩
      rintro count ⟨⟩
      try decide
  have hfollow : ((start 100 (⟨[7]⟩ : Memory) users).follow
      [.send 0, .send 1, .answer 1, .answer 0, .receive 0, .send 0, .receive 1, .answer 0, .send 1,
        .answer 1, .receive 1, .receive 0, .send 1, .answer 1, .receive 1]).map (·.1) =
      some events := by
    decide +kernel
  obtain ⟨⟨made, traffic⟩, htraffic, rfl⟩ := Option.map_eq_some_iff.mp hfollow
  have hrun : Run (start 100 ⟨[7]⟩ users) events traffic := Run.nil.follow htraffic
  exact ⟨hserver, hlimits, hprograms, hreplies, traffic, hrun,
    run_linearizes hserver hlimits hprograms hrun hreplies⟩

/-- **No client is stuck.** One that has not come to its end can take a step, or its session can. -/
theorem run_progress (hserver : serverLimit < Offset.range)
    (hlimits : ∀ user ∈ users, user.maxPayload < Offset.range)
    (hprograms : ∀ user ∈ users, ∀ request ∈ user.program, request.Sendable serverLimit)
    (hrun : Run (start serverLimit storage users) events traffic)
    (hreplies : RepliesFit users events) (hnumber : number < users.length) :
    ∃ line, traffic.lines[number]? = some line ∧
      (line.outstanding = none ∧ line.program = [] ∨
        ∃ action event next, action.client = number ∧ traffic.act action = some (event, next)) := by
  obtain ⟨order, hcons⟩ := consistent_run hserver hlimits hprograms hrun hreplies
  have huser : users[number]? = some users[number] := List.getElem?_eq_getElem hnumber
  obtain ⟨stand, hstand, hfits⟩ := hcons.fits huser
  refine ⟨_, hstand, ?_⟩
  rcases exists_onLine hserver (hlimits _ (List.getElem_mem hnumber)) hfits.sound number
    traffic.storage with ⟨hprogram, hphase⟩ | ⟨action, event, line, memory, rfl, hline⟩
  · refine .inl ⟨?_, hprogram⟩
    rw [Stand.line, hphase]
    rfl
  · refine .inr ⟨action, event, ⟨memory, traffic.lines.set action.client line⟩, rfl, ?_⟩
    unfold act
    simp only [hstand, hline]

end FramedStore.Traffic
