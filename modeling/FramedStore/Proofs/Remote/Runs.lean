import FramedStore.Proofs.Effect.Run
import FramedStore.Proofs.Remote.Call
import FramedStore.Proofs.Storage.Defaults

/-!
# The same run at a server

A run of calls on a remote storage, whose client is alone at the server, is the run in memory, step by
step. All calls but an insertion are one request or none; an insertion asks for the size and the
tail, and writes the tail again behind the bytes that are put in.
-/

namespace FramedStore

open Effect

/-! ### The requests of a call -/

/-- The request that a call is forwarded as, if it is one request. -/
def Storage.Call.request? : Storage.Call → Option Request
  | .size => some .size
  | .slice start stop => some (.slice start stop)
  | .getAll => some .getAll
  | .setAll content => some (.setAll content)
  | .append added => some (.append added)
  | .set start patch => some (.set start patch)
  | .delete start stop => some (.delete start stop)
  | .clear => some (.setAll [])
  | .insert _ _ | .sync | .close => none

/-- What a reply gives to the caller. -/
def Reply.answer : Reply → Storage.Answer
  | .bytes content => .bytes content
  | .size count => .size count
  | .done | .error _ => .done

namespace Remote

variable {σ : Type} [Storage σ] {limits : Limits} {memory memory' : Memory} {call : Storage.Call}
  {request : Request} {reply : Reply}

/-- The requests that are made for a call; all of them find the same content. -/
def requests : Storage.Call → Memory → List Request
  | .insert position added, memory =>
    if position ≤ memory.content.length then
      [.size, .slice position memory.content.length,
        .set position (added ++ memory.content.drop position)]
    else [.size]
  | call, _ => call.request?.toList

/-- All requests for a call, and all replies to them, are within the limits. -/
def WithinLimits (limits : Limits) (call : Storage.Call) (memory : Memory) : Prop :=
  ∀ request ∈ requests call memory, request.Sendable limits.server ∧
    (Session.respond request.run memory).1.payload.length ≤ limits.client

instance (limits : Limits) (call : Storage.Call) (memory : Memory) :
    Decidable (WithinLimits limits call memory) :=
  List.decidableBAll _ _

theorem mem_requests (h : call.request? = some request) (memory : Memory) :
    request ∈ requests call memory := by
  have hrequests : requests call memory = call.request?.toList := by
    cases call with
    | insert => cases h
    | _ => rfl
  rw [hrequests, h]
  exact List.mem_singleton_self request

/-! ### Calls as requests -/

/-- The outcome of a request as that of the call that is forwarded as it. -/
def answer : EStateM.Result Error σ Reply → EStateM.Result Error σ Storage.Answer
  | .ok reply s => .ok reply.answer s
  | .error e s => .error e s

omit [Storage σ] in
theorem answer_map {α : Type} (x : Effect σ α) (f : α → Reply) (s : σ) :
    (do return (f (← x)).answer : Effect σ Storage.Answer) s =
      answer ((do return f (← x) : Effect σ Reply) s) := by
  rw [bind_apply, bind_apply]
  cases x s <;> rfl

/-- In memory, a call is the request it is forwarded as. -/
theorem perform_eq_run (h : call.request? = some request) (memory : Memory) :
    Storage.perform call memory = answer (request.run memory) := by
  cases call with
  | insert | sync | close => cases h
  | size =>
    obtain rfl := Option.some.inj h
    exact answer_map Storage.size .size memory
  | slice start stop =>
    obtain rfl := Option.some.inj h
    exact answer_map (Storage.slice start stop) .bytes memory
  | getAll =>
    obtain rfl := Option.some.inj h
    exact answer_map Storage.getAll .bytes memory
  | setAll content =>
    obtain rfl := Option.some.inj h
    exact answer_map (Storage.setAll content) (fun _ => .done) memory
  | append added =>
    obtain rfl := Option.some.inj h
    exact answer_map (Storage.append added) (fun _ => .done) memory
  | set start patch =>
    obtain rfl := Option.some.inj h
    exact answer_map (Storage.set start patch) (fun _ => .done) memory
  | delete start stop =>
    obtain rfl := Option.some.inj h
    exact answer_map (Storage.delete start stop) (fun _ => .done) memory
  | clear =>
    obtain rfl := Option.some.inj h
    exact answer_map (Storage.setAll []) (fun _ => .done) memory

section Forwarded

variable {π : Type} [Peer π] {remote remote' : Remote π}

theorem callBytes_ok (hshape : reply.HasShape .bytes)
    (hcall : Remote.call request remote = .ok reply remote') :
    (do return .bytes (← callBytes request) : Effect (Remote π) Storage.Answer) remote =
      .ok reply.answer remote' := by
  cases hshape with
  | bytes content =>
    have hbytes : callBytes request remote = .ok content remote' := (bind_ok hcall).trans rfl
    exact (bind_ok hbytes).trans rfl

theorem callSize_ok (hshape : reply.HasShape .size)
    (hcall : Remote.call request remote = .ok reply remote') :
    (do return .size (← callSize request) : Effect (Remote π) Storage.Answer) remote =
      .ok reply.answer remote' := by
  cases hshape with
  | size =>
    have hsize : callSize request remote = .ok _ remote' := (bind_ok hcall).trans rfl
    exact (bind_ok hsize).trans rfl

theorem callDone_ok (hshape : reply.HasShape .done)
    (hcall : Remote.call request remote = .ok reply remote') :
    Storage.andDone (callDone request) remote = .ok reply.answer remote' := by
  cases hshape with
  | done =>
    have hdone : callDone request remote = .ok ⟨⟩ remote' := (bind_ok hcall).trans rfl
    exact (bind_ok hdone).trans rfl

/-- A forwarded call gives the reply to its request. -/
theorem perform_of_call_ok (h : call.request? = some request)
    (hshape : reply.HasShape request.replyShape)
    (hcall : Remote.call request remote = .ok reply remote') :
    Storage.perform call remote = .ok reply.answer remote' := by
  cases call with
  | insert | sync | close => cases h
  | size =>
    obtain rfl := Option.some.inj h
    exact callSize_ok hshape hcall
  | slice | getAll =>
    obtain rfl := Option.some.inj h
    exact callBytes_ok hshape hcall
  | setAll | append | set | delete | clear =>
    obtain rfl := Option.some.inj h
    exact callDone_ok hshape hcall

/-- A forwarded call fails as its request does. -/
theorem perform_of_call_error {e : Error} (h : call.request? = some request)
    (hcall : Remote.call request remote = .error e remote') :
    Storage.perform call remote = .error e remote' := by
  cases call with
  | insert | sync | close => cases h
  | size | slice | getAll | setAll | append | set | delete | clear =>
    obtain rfl := Option.some.inj h
    exact bind_error (bind_error hcall)

end Forwarded

/-- The reply to a request has the shape that the request asks for. -/
theorem hasShape_of_run (hlt : request = .size → memory.content.length < Offset.range)
    (hrun : request.run memory = .ok reply memory') : reply.HasShape request.replyShape := by
  cases request with
  | ping =>
    obtain ⟨rfl, -⟩ := EStateM.Result.ok.inj hrun
    exact .done
  | size =>
    obtain ⟨size, hsize, rfl⟩ := map_eq_ok hrun
    obtain ⟨rfl, -⟩ := EStateM.Result.ok.inj hsize
    exact .size (hlt rfl)
  | slice | getAll =>
    obtain ⟨content, -, rfl⟩ := map_eq_ok hrun
    exact .bytes content
  | setAll | append | set | delete =>
    obtain ⟨-, -, rfl⟩ := map_eq_ok hrun
    exact .done

/-- **A forwarded call does at the server what it does in memory.** -/
theorem perform_forwarded (h : call.request? = some request)
    (hlt : memory.content.length < Offset.range) (hfits : WithinLimits limits call memory) :
    Storage.perform call (alone limits memory) =
      match Storage.perform call memory with
      | .ok a memory' => .ok a (alone limits memory')
      | .error e memory' => .error (.remote e.message) (alone limits memory') := by
  obtain ⟨hsend, hpayload⟩ := hfits request (mem_requests h memory)
  rw [perform_eq_run h]
  cases hrun : request.run memory with
  | ok reply memory' =>
    rw [Session.respond_ok hrun] at hpayload
    have hshape := hasShape_of_run (fun _ => hlt) hrun
    exact perform_of_call_ok h hshape (call_ok hsend hrun hshape hpayload)
  | error e memory' =>
    rw [Session.respond_error hrun] at hpayload
    exact perform_of_call_error h (call_error hsend hrun hpayload)

theorem size_alone (limits : Limits) (hlt : memory.content.length < Offset.range) :
    Storage.size (alone limits memory) = .ok memory.content.length (alone limits memory) := by
  have hsend : Request.size.Sendable limits.server := ⟨Nat.zero_le _, nofun⟩
  have hrun : Request.size.run memory = .ok (.size memory.content.length) memory := rfl
  have hcall : call .size (alone limits memory) = _ :=
    call_ok hsend hrun (.size hlt) (Nat.zero_le _)
  have hsize : callSize .size (alone limits memory) =
      .ok memory.content.length (alone limits memory) := (bind_ok hcall).trans rfl
  exact hsize

/-- **An insertion is made at the server as it is in memory**, by way of its requests. -/
theorem insert_alone {position : Nat} {added : Bytes} (hposition : position ≤ memory.content.length)
    (hlt : memory.content.length < Offset.range)
    (hfits : WithinLimits limits (.insert position added) memory) :
    Storage.insert position added (alone limits memory) =
      .ok ⟨⟩ (alone limits ⟨memory.content.insertAt position added⟩) := by
  have hinsert : Storage.insert position added (alone limits memory) =
      Storage.insertByDefault position added (alone limits memory) := rfl
  -- what the requests come to at the server
  have htail : Storage.slice position memory.content.length memory =
      .ok (memory.content.drop position) memory := by
    rw [memory.slice_of_le hposition (Nat.le_refl _), Bytes.slice_to_end]
  have hwrite : Storage.set position (added ++ memory.content.drop position) memory =
      .ok ⟨⟩ ⟨memory.content.insertAt position added⟩ := by
    rw [Memory.set_apply, if_pos hposition, Bytes.insertAt_eq_overwrite hposition]
  have hrunTail : (Request.slice position memory.content.length).run memory =
      .ok (.bytes (memory.content.drop position)) memory := (bind_ok htail).trans rfl
  have hrunWrite : (Request.set position (added ++ memory.content.drop position)).run memory =
      .ok .done ⟨memory.content.insertAt position added⟩ := (bind_ok hwrite).trans rfl
  unfold WithinLimits at hfits
  rw [requests, if_pos hposition] at hfits
  obtain ⟨hsendTail, hpayload⟩ := hfits (.slice position memory.content.length) (by simp)
  obtain ⟨hsendWrite, -⟩ :=
    hfits (.set position (added ++ memory.content.drop position)) (by simp)
  rw [Session.respond_ok hrunTail] at hpayload
  -- and what the client makes of their replies
  have hslice : Storage.slice position memory.content.length (alone limits memory) =
      .ok (memory.content.drop position) (alone limits memory) :=
    (bind_ok (call_ok hsendTail hrunTail (.bytes _) hpayload)).trans rfl
  have hset : Storage.set position (added ++ memory.content.drop position) (alone limits memory) =
      .ok ⟨⟩ (alone limits ⟨memory.content.insertAt position added⟩) :=
    (bind_ok (call_ok hsendWrite hrunWrite .done (Nat.zero_le _))).trans rfl
  rw [hinsert, Storage.insertByDefault_ok hposition (size_alone limits hlt) hslice hset]

theorem insert_alone_outOfRange (limits : Limits) {position : Nat} (added : Bytes)
    (hposition : memory.content.length < position)
    (hlt : memory.content.length < Offset.range) :
    Storage.insert position added (alone limits memory) =
      .error (.outOfRange position memory.content.length memory.content.length)
        (alone limits memory) :=
  Storage.insertByDefault_error hposition (size_alone limits hlt)

/-! ### Runs -/

/-- A step at the server does what a step in memory does. A call that is one request fails with the
text of the error in memory, and the session can be used after any step. -/
structure SameAtServer (remote : Step Storage.Call (Remote (Link Memory)) Storage.Answer)
    (memory : Step Storage.Call Memory Storage.Answer) : Prop where
  content : remote.after.peer.server.storage = memory.after
  ok : ∀ a, remote.outcome = .ok a ↔ memory.outcome = .ok a
  error : (∃ e, remote.outcome = .error e) ↔ ∃ e, memory.outcome = .error e
  forwarded : ∀ request e, memory.call.request? = some request → memory.outcome = .error e →
    remote.outcome = .error (.remote e.message)
  usable : ping remote.after = .ok ⟨⟩ remote.after

/-- The outcomes of a call at the server and in memory are the same, but for the words of an error.
-/
abbrev Agree (limits : Limits) (call : Storage.Call) :
    EStateM.Result Error (Remote (Link Memory)) Storage.Answer →
      EStateM.Result Error Memory Storage.Answer → Prop :=
  Effect.Agree (fun remote after => remote = alone limits after)
    (fun e remote e' after => remote = alone limits after ∧
      ∀ request, call.request? = some request → e = .remote e'.message)

theorem perform_agree (hclose : call ≠ .close) (hlt : memory.content.length < Offset.range)
    (hfits : WithinLimits limits call memory) :
    Agree limits call (Storage.perform call (alone limits memory))
      (Storage.perform call memory) := by
  cases hrequest : call.request? with
  | some request =>
    rw [perform_forwarded hrequest hlt hfits]
    cases Storage.perform call memory with
    | ok a after => exact .ok a rfl
    | error e after => exact .error ⟨rfl, fun _ _ => rfl⟩
  | none =>
    cases call with
    | size | slice | getAll | setAll | append | set | delete | clear => cases hrequest
    | close => exact absurd rfl hclose
    | sync => exact .ok _ rfl
    | insert position added =>
      rcases Nat.lt_or_ge memory.content.length position with hout | hposition
      · have hmemory : Storage.insert position added memory =
            .error (.outOfRange position position memory.content.length) memory := by
          rw [Memory.insert_apply, if_neg (Nat.not_le.mpr hout)]
        have hlocal : Storage.perform (.insert position added) memory = _ := bind_error hmemory
        have hremote : Storage.perform (.insert position added) (alone limits memory) = _ :=
          bind_error (insert_alone_outOfRange limits added hout hlt)
        rw [hlocal, hremote]
        exact .error ⟨rfl, nofun⟩
      · have hmemory : Storage.insert position added memory =
            .ok ⟨⟩ ⟨memory.content.insertAt position added⟩ := by
          rw [Memory.insert_apply, if_pos hposition]
        have hlocal : Storage.perform (.insert position added) memory = _ := bind_ok hmemory
        have hremote : Storage.perform (.insert position added) (alone limits memory) = _ :=
          bind_ok (insert_alone hposition hlt hfits)
        rw [hlocal, hremote]
        exact .ok _ rfl

theorem step_sameAtServer (hclose : call ≠ .close) (hlt : memory.content.length < Offset.range)
    (hfits : WithinLimits limits call memory) :
    (step Storage.perform call (alone limits memory)).after =
        alone limits (step Storage.perform call memory).after ∧
      SameAtServer (step Storage.perform call (alone limits memory))
        (step Storage.perform call memory) := by
  rcases step_of_agree (perform_agree hclose hlt hfits) with
    ⟨a, _, after, rfl, hremote, hmemory⟩ | ⟨e, e', _, after, ⟨rfl, h⟩, hremote, hmemory⟩
  · rw [hremote, hmemory]
    exact ⟨rfl, rfl, fun _ => Iff.rfl, ⟨nofun, nofun⟩, nofun, ping_alone limits after⟩
  · rw [hremote, hmemory]
    refine ⟨rfl, rfl, fun _ => ⟨nofun, nofun⟩, ⟨fun _ => ⟨e', rfl⟩, fun _ => ⟨e, rfl⟩⟩, ?_,
      ping_alone limits after⟩
    intro request e'' hrequest he
    obtain rfl := Except.error.inj he
    exact congrArg Except.error (h request hrequest)

/-- **A remote storage is a storage in memory.** A client connects to a server that has no others;
its calls, and what they come to, are always within the limits. -/
theorem trace_sameAtServer (limits : Limits) {memory : Memory} {calls : List Storage.Call}
    (hfits : Throughout Storage.perform
      (fun call (memory : Memory) => call ≠ .close ∧ memory.content.length < Offset.range ∧
        WithinLimits limits call memory) calls memory) :
    ∃ channel id server,
      Link.connect limits.client (Server.fresh limits memory) = .ok (channel, id) server ∧
      List.Forall₂ SameAtServer
        (trace Storage.perform calls (⟨channel, ⟨server, id⟩⟩ : Remote (Link Memory)))
        (trace Storage.perform calls memory) := by
  refine ⟨_, _, _, connect_fresh limits memory, ?_⟩
  refine forall₂_trace (fun remote memory => remote = alone limits memory) ?_ calls _ _ rfl hfits
  rintro call _ memory rfl ⟨hclose, hlt, hwithin⟩
  exact step_sameAtServer hclose hlt hwithin

/-- A run that puts bytes in, and is refused a range before it goes on. -/
theorem trace_sameAtServer_refused :
    Throughout Storage.perform
      (fun call (memory : Memory) => call ≠ .close ∧ memory.content.length < Offset.range ∧
        WithinLimits ⟨64, 64, 1, by decide, by decide, by decide⟩ call memory)
      [.insert 1 [9], .slice 2 9, .insert 7 [], .getAll] ⟨[1, 2, 3]⟩ ∧
    ∃ channel id server,
      Link.connect 64 (Server.fresh ⟨64, 64, 1, by decide, by decide, by decide⟩
        (⟨[1, 2, 3]⟩ : Memory)) = .ok (channel, id) server ∧
      List.Forall₂ SameAtServer
        (trace Storage.perform [.insert 1 [9], .slice 2 9, .insert 7 [], .getAll]
          (⟨channel, ⟨server, id⟩⟩ : Remote (Link Memory)))
        (trace Storage.perform [.insert 1 [9], .slice 2 9, .insert 7 [], .getAll]
          (⟨[1, 2, 3]⟩ : Memory)) := by
  have hfits : Throughout Storage.perform
      (fun call (memory : Memory) => call ≠ .close ∧ memory.content.length < Offset.range ∧
        WithinLimits ⟨64, 64, 1, by decide, by decide, by decide⟩ call memory)
      [.insert 1 [9], .slice 2 9, .insert 7 [], .getAll] ⟨[1, 2, 3]⟩ := by
    unfold Throughout
    decide +kernel
  exact ⟨hfits, trace_sameAtServer ⟨64, 64, 1, by decide, by decide, by decide⟩ hfits⟩

end Remote

end FramedStore
