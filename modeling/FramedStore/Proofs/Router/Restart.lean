import FramedStore.Proofs.Router.Agreement
import FramedStore.Proofs.Router.Files
import FramedStore.Router.Restart

/-!
# A router over files

All entries are in the files of their super-tags after every call (`Backed`): a handle only notes the
length of its file, so that nothing is lost when a child is closed, or given up without being closed.
A router over files therefore answers as one with children in memory does that never stops, whenever
it is restarted (`files_agree`).
-/

namespace FramedStore.MultiStore

open Effect TagStore FileChildren

variable {directory super : String} {tags : Set String} {owners owners' : List String}
  {router mid router' : MultiStore FileChildren Handle} {contents : String → Option Bytes}
  {bytes : Bytes} {handle storage : Handle} {id : ChildId} {children factory : FileChildren}

/-! ### What is on the disk -/

/-- The files of a router hold the bytes of their super-tags, and each child that has not been handed
back serves the file of its owner. -/
structure Backed (directory : String) (tags : Set String) (owners : List String)
    (router : MultiStore FileChildren Handle) (contents : String → Option Bytes) : Prop where
  holds : Holds directory tags router.factory contents
  held : ∀ super id handle, owners[id]? = some super → router.held? id = some handle →
    super ∈ tags ∧ ∃ bytes, contents super = some bytes ∧ Serves directory super bytes handle

namespace Backed

/-- The disk has all there is to know for a router without children. -/
theorem start (h : Holds directory tags children contents) (capacity : Nat) (hpos : 0 < capacity) :
    Backed directory tags []
      ({ factory := children, capacity, capacity_pos := hpos } : MultiStore FileChildren Handle)
      contents :=
  ⟨h, by simp⟩

theorem relist (h : Backed directory tags owners router contents)
    (opened releasing : List (String × ChildId)) :
    Backed directory tags owners { router with opened, releasing } contents :=
  ⟨h.holds, h.held⟩

/-- A file is closed without a change to the disk. -/
theorem afterRelease {outcome : Except Error Unit} {lent : Lent FileChildren Handle}
    (h : Backed directory tags owners router contents) (hheld : router.held? id = some storage)
    (hrelease : (ChildFactory.release super).attempt ⟨router.factory, storage⟩ = .ok outcome lent) :
    outcome = .ok () ∧ Backed directory tags owners (router.afterRelease super id lent) contents := by
  -- no release of a file fails, and the child is not held any more
  cases hrelease
  refine ⟨rfl, h.holds, fun other old handle howner hold => ?_⟩
  have hne : old ≠ id := by
    rintro rfl
    have hgone : (router.afterLend old
        { storage := { storage with isOpen := false }, released := true } router.factory).held? old =
        none := held?_afterLend_self (lt_length_of_held? (Option.isSome_of_eq_some hheld))
    cases hgone.symm.trans hold
  rw [held?_afterRelease_ne hne] at hold
  exact h.held other old handle howner hold

/-- A file is opened, which is made if it is not there. -/
theorem enter (h : Backed directory tags owners router contents) (hordered : Ordered owners router)
    (hnames : tags.InjOn FileName.ofTag) (hsuper : super ∈ tags)
    (hopen : ChildFactory.openChild super router.factory = .ok storage factory) :
    Backed directory tags (owners ++ [super]) ({ router with factory }.enter super storage)
      (withFile contents super) := by
  obtain ⟨found, children', hfound, hserves, hholds⟩ := h.holds.openChild hnames hsuper
  obtain ⟨rfl, rfl⟩ := EStateM.Result.ok.inj (hopen.symm.trans hfound)
  refine ⟨(enter_factory { router with factory } super storage).symm ▸ hholds, ?_⟩
  intro other old handle howner hold
  rcases owner_concat.mp howner with howner | ⟨rfl, rfl⟩
  · have hkept := (hordered.withFactory factory).held?_enter howner super storage
    obtain ⟨hother, bytes, hbytes, hserves'⟩ :=
      h.held other old handle howner (hkept.symm.trans hold)
    refine ⟨hother, bytes, ?_, hserves'⟩
    by_cases heq : other = super
    · subst heq
      rw [withFile_of_some hbytes, hbytes]
    · exact (Function.update_of_ne heq ..).trans hbytes
  · have hself := held?_enter_self { router with factory } super storage
    rw [hordered.owners_length, hself] at hold
    obtain rfl := Option.some.inj hold
    exact ⟨hsuper, _, withFile_self contents super, hserves⟩

/-- An effect on a child that has bytes in memory too. -/
theorem afterLend {lent : Lent FileChildren Handle} {memory : Memory}
    (h : Backed directory tags owners router contents) (hordered : Ordered owners router)
    (hnames : tags.InjOn FileName.ofTag) (howner : owners[id]? = some super) (hsuper : super ∈ tags)
    (hheld : router.held? id = some storage)
    (hstands : Stands directory super router.factory.disk lent memory) :
    Backed directory tags owners (router.afterLend id { storage := lent.child } lent.factory)
      (Function.update contents super (some memory.content)) := by
  have hsome := Option.isSome_of_eq_some hheld
  refine ⟨h.holds.lend hnames hsuper hstands, fun other old handle hold hfound => ?_⟩
  -- no other child has the same owner, so none serves the file that changed
  by_cases heq : old = id
  · subst heq
    obtain rfl : super = other := Option.some.inj (howner.symm.trans hold)
    rw [held?_afterLend_self (lt_length_of_held? hsome)] at hfound
    obtain rfl := Option.some.inj hfound
    exact ⟨hsuper, _, Function.update_self .., hstands.serves⟩
  · rw [held?_afterLend_ne heq] at hfound
    have hother : other ≠ super := by
      rintro rfl
      exact heq (hordered.held_unique hold howner (Option.isSome_of_eq_some hfound) hsome)
    rw [Function.update_of_ne hother]
    exact h.held other old handle hold hfound

end Backed

/-- Files are closed one after the other, and none fails. -/
theorem Releases.backed {pending : List (String × ChildId)} {failure : Option Error}
    (h : Releases pending router failure router')
    (hbacked : Backed directory tags owners router contents) :
    failure = none ∧ Backed directory tags owners router' contents := by
  induction h with
  | nil => exact ⟨rfl, hbacked⟩
  | cons hid hheld hrelease _ ih =>
    obtain ⟨rfl, hbacked'⟩ := hbacked.afterRelease hheld hrelease
    exact ih hbacked'

theorem Gets.backed (hgets : Gets owners router super owners' id mid) (h : Settled owners router)
    (hnames : tags.InjOn FileName.ofTag) (hsuper : super ∈ tags)
    (hbacked : Backed directory tags owners router contents) :
    Backed directory tags owners' mid (withFile contents super) := by
  cases hgets with
  | found hid =>
    obtain ⟨howner, hsome⟩ := h.ordered.opened_held super id hid
    obtain ⟨handle, hheld⟩ := Option.isSome_iff_exists.mp hsome
    obtain ⟨-, bytes, hbytes, -⟩ := hbacked.held super id handle howner hheld
    rw [withFile_of_some hbytes]
    exact hbacked.relist _ _
  | opened hnot hopen hvictim => exact hbacked.enter h.ordered hnames hsuper hopen
  | displaced hnot hopen hvictim hheld hrelease =>
    obtain ⟨hheld', hrelease'⟩ := release_enter hheld hrelease super
    exact ((hbacked.enter h.ordered hnames hsuper hopen).afterRelease hheld' hrelease').2

/-- **A call is an effect on the bytes of its super-tag**, and these are on the disk when it is over. -/
theorem Accesses.backed {α : Type} {effect : Effect (Lent FileChildren Handle) α}
    {effect' : Effect Memory α} {outcome : Except Error α} {a : α} {before : Bytes}
    (h : Accesses owners router super effect owners' outcome router') (hsettled : Settled owners router)
    (hnames : tags.InjOn FileName.ofTag) (hsuper : super ∈ tags)
    (hbacked : Backed directory tags owners router contents)
    (hleads : ∀ disk, Leads (fun (lent : Lent FileChildren Handle) (memory : Memory) =>
        Stands directory super disk lent memory ∧ memory.content.length < Offset.range)
      (Stands directory super disk) effect effect')
    (hbefore : (contents super).getD [] = before) (hlt : before.length < Offset.range)
    (hresult : effect' ⟨before⟩ = .ok a ⟨bytes⟩) :
    outcome = .ok a ∧
      Backed directory tags owners' router' (Function.update contents super (some bytes)) := by
  cases h with
  | @used _ id mid storage outcome lent hgets hheld hrun =>
    obtain ⟨hmid, howner, -⟩ := hgets.settled hsettled
    have hbacked' := hgets.backed hsettled hnames hsuper hbacked
    obtain ⟨-, found, hfound, hserves⟩ := hbacked'.held super id storage howner hheld
    -- a file that has just been made holds nothing, as its super-tag did
    obtain rfl : before = found := by
      rw [withFile_self, hbefore] at hfound
      exact Option.some.inj hfound
    have hstands := hbacked'.holds.stands hsuper hfound hserves
    have hsame := hleads mid.factory.disk _ _ ⟨hstands, hlt⟩
    rw [hresult] at hsame
    rw [attempt_apply] at hrun
    generalize effect ⟨mid.factory, storage⟩ = result at hrun hsame
    cases hsame with
    | ok _ hstands' =>
      cases hrun
      have hafter := hbacked'.afterLend hmid.ordered hnames howner hsuper hheld hstands'
      rw [withFile, Function.update_idem] at hafter
      exact ⟨rfl, hafter⟩
  | refused hnot hopen =>
    obtain ⟨found, children', hfound, -⟩ := hbacked.holds.openChild hnames hsuper
    cases hopen.symm.trans hfound

/-! ### Deeds -/

/-- The call of a deed, if it is one. -/
def Deed.call? : Deed → Option RouterCall
  | .task single => single.call?
  | .restart => none

/-- A deed on the entries of all super-tags, which only calls change. -/
def Deed.onSpaces : Deed → Effect (String → List Entry) Answer
  | .task (.call call) => fun spaces =>
    .ok (call.onEntries (spaces call.super)).1 (call.onSpaces spaces)
  | .task .closeAll | .restart => return .done

/-- The bytes of the super-tag of a call are not too many for a memory. -/
def Deed.Fits (deed : Deed) (spaces : String → List Entry) : Prop :=
  ∀ call ∈ deed.call?, (childBytes spaces call.super).length ≤ Bytes.capacity

instance (deed : Deed) (spaces : String → List Entry) : Decidable (deed.Fits spaces) :=
  inferInstanceAs (Decidable (∀ call ∈ deed.call?, _))

/-- The entries of all super-tags are in their files, of which there is one for each super-tag that
has been used. -/
def Durable (directory : String) (tags : Set String) (calls : List RouterCall)
    (router : MultiStore FileChildren Handle) (spaces : String → List Entry) : Prop :=
  ∃ owners contents, Settled owners router ∧ Backed directory tags owners router contents ∧
    (∀ super, (contents super).getD [] = childBytes spaces super) ∧
    ∀ call ∈ calls, (contents call.super).isSome

namespace Durable

variable {calls : List RouterCall} {spaces : String → List Entry}

theorem read? (h : Durable directory tags calls router spaces) {call : RouterCall}
    (hcall : call ∈ calls) (hsuper : call.super ∈ tags) :
    router.factory.disk.read? (place directory call.super) =
      some (childBytes spaces call.super) := by
  obtain ⟨owners, contents, -, hbacked, hbytes, hused⟩ := h
  obtain ⟨bytes, hsome⟩ := Option.isSome_iff_exists.mp (hused call hcall)
  have hfile := hbacked.holds.find?_eq call.super hsuper
  rw [hsome] at hfile
  rw [Disk.read?_of_find? hfile, ← hbytes, hsome]
  rfl

theorem perform (h : Durable directory tags calls router spaces) (hnames : tags.InjOn FileName.ofTag)
    (call : RouterCall) (hsuper : call.super ∈ tags)
    (hcap : (childBytes spaces call.super).length ≤ Bytes.capacity) :
    ∃ router', MultiStore.perform call router =
        .ok (call.onEntries (spaces call.super)).1 router' ∧
      Durable directory tags (calls ++ [call]) router' (call.onSpaces spaces) := by
  obtain ⟨owners, contents, hsettled, hbacked, hbytes, hused⟩ := h
  obtain ⟨owners', outcome, router', haccess, haccesses⟩ :=
    access_accesses hsettled call.super call.onChild
  have hleads := fun disk => call.leads_onChild (alikeCut_file directory call.super disk)
    (fun _ _ hstands => hstands.1) (leads_append directory call.super disk)
  have hlt : (childBytes spaces call.super).length < Offset.range :=
    Nat.lt_of_le_of_lt hcap (by decide)
  obtain ⟨rfl, hbacked'⟩ := haccesses.backed hsettled hnames hsuper hbacked hleads (hbytes _) hlt
    (call.onChild_apply hcap)
  refine ⟨router', (perform_eq_access call router).trans (ok_of_attempt haccess), ?_⟩
  refine ⟨owners', _, haccesses.settled hsettled, hbacked', fun super => ?_, ?_⟩
  · rw [childBytes_onSpaces]
    by_cases heq : super = call.super
    · rw [heq, Function.update_self, Function.update_self]
      rfl
    · rw [Function.update_of_ne heq, Function.update_of_ne heq, hbytes]
  · intro made hmade
    by_cases heq : made.super = call.super
    · rw [heq, Function.update_self]
      rfl
    · rw [Function.update_of_ne heq]
      rcases List.mem_append.mp hmade with hmade | hmade
      · exact hused made hmade
      · exact absurd (congrArg RouterCall.super (List.mem_singleton.mp hmade)) heq

theorem closeAll (h : Durable directory tags calls router spaces) :
    ∃ router', MultiStore.closeAll router = .ok () router' ∧
      Durable directory tags calls router' spaces := by
  obtain ⟨owners, contents, hsettled, hbacked, hspaces⟩ := h
  obtain ⟨failure, router', hreleases, hclose, hsettled', -⟩ := closeAll_releases hsettled
  obtain ⟨rfl, hbacked'⟩ := hreleases.backed (hbacked.relist _ _)
  exact ⟨router', ok_of_attempt hclose, owners, contents, hsettled', hbacked', hspaces⟩

/-- The directory is found as it was left. -/
theorem restart (h : Durable directory tags calls router spaces) :
    ∃ router', onFiles .restart router = .ok .done router' ∧
      Durable directory tags calls router' spaces := by
  obtain ⟨owners, contents, hsettled, hbacked, hspaces⟩ := h
  obtain ⟨hdirectory, hstanding, hfind⟩ := hbacked.holds
  have hmade : inDirectory router.factory.directory router.factory.syncMode router.factory.disk =
      .ok router.factory := by
    unfold inDirectory
    rw [hdirectory, Disk.makeDirectories_self hstanding.short hstanding.directories]
    cases hdirectory
    rfl
  refine ⟨router.restart router.factory, ?_, [], contents, .start _ _ _, .start hbacked.holds _ _,
    hspaces⟩
  have hrestart : MultiStore.onFiles .restart router =
      (do
        let children ← .ofExcept (inDirectory router.factory.directory router.factory.syncMode
          router.factory.disk)
        set (router.restart children)
        return .done : Effect (MultiStore FileChildren Handle) Answer) router := rfl
  rw [hrestart, hmade]
  rfl

/-- A deed has the answer that it has on the entries, and these are on the disk when it is done. -/
theorem onFiles (h : Durable directory tags calls router spaces) (hnames : tags.InjOn FileName.ofTag)
    (deed : Deed) (hsuper : ∀ call ∈ deed.call?, call.super ∈ tags) (hfits : deed.Fits spaces) :
    ∃ answer router' spaces', MultiStore.onFiles deed router = .ok answer router' ∧
      deed.onSpaces spaces = .ok answer spaces' ∧
      Durable directory tags (calls ++ deed.call?.toList) router' spaces' := by
  cases deed with
  | task task =>
    cases task with
    | call call =>
      obtain ⟨router', hperform, hdurable⟩ :=
        h.perform hnames call (hsuper call (Option.mem_def.mpr rfl))
          (hfits call (Option.mem_def.mpr rfl))
      exact ⟨_, router', _, hperform, rfl, hdurable⟩
    | closeAll =>
      obtain ⟨router', hclose, hdurable⟩ := h.closeAll
      refine ⟨.done, router', spaces, (bind_ok hclose).trans rfl, rfl, ?_⟩
      change Durable directory tags (calls ++ []) router' spaces
      rwa [List.append_nil]
  | restart =>
    obtain ⟨router', hrestart, hdurable⟩ := h.restart
    refine ⟨.done, router', spaces, hrestart, rfl, ?_⟩
    change Durable directory tags (calls ++ []) router' spaces
    rwa [List.append_nil]

end Durable

theorem onParked_quiet {router : MultiStore Parked Memory} {spaces : String → List Entry} (deed : Deed)
    (h : Quiet owners router (childBytes spaces)) (hfits : deed.Fits spaces) :
    ∃ answer owners' router' spaces', onParked deed router = .ok answer router' ∧
      deed.onSpaces spaces = .ok answer spaces' ∧ Quiet owners' router' (childBytes spaces') := by
  cases deed with
  | task task =>
    cases task with
    | call call =>
      obtain ⟨owners', router', hperform, hquiet⟩ := perform_quiet call h (hfits call (Option.mem_def.mpr rfl))
      exact ⟨_, owners', router', _, hperform, rfl, hquiet⟩
    | closeAll =>
      obtain ⟨router', hclose, hquiet⟩ := closeAll_parked h
      exact ⟨.done, owners, router', spaces, (bind_ok hclose).trans rfl, rfl, hquiet⟩
  | restart => exact ⟨.done, owners, router, spaces, rfl, rfl, h⟩

/-! ### Runs -/

/-- An empty directory is as a router without entries leaves it. -/
theorem holds_inDirectory {syncMode : SyncMode} {disk : Disk}
    (hnul : directory.contains (Char.ofNat 0) = false)
    (hchildren : inDirectory directory syncMode disk = .ok children)
    (hempty : children.disk.list (Path.ofString directory) = []) (tags : Set String) :
    Holds directory tags children fun _ => none := by
  unfold inDirectory at hchildren
  cases hmade : disk.makeDirectories (Path.ofString directory) with
  | error cause =>
    rw [hmade] at hchildren
    cases hchildren
  | ok made =>
    rw [hmade] at hchildren
    cases hchildren
    refine ⟨rfl, ⟨hnul, Disk.short_of_makeDirectories hmade,
      Disk.isDirectory_of_makeDirectories hmade⟩, fun super _ => ?_⟩
    exact Disk.find?_concat_of_list_eq_nil hempty (FileName.file Crc32.ofBytes super)

theorem run_files {spaces : String → List Entry} (h : Durable directory tags [] router spaces)
    (hnames : tags.InjOn FileName.ofTag) (deeds : List Deed)
    (htags : ∀ call ∈ deeds.filterMap Deed.call?, call.super ∈ tags)
    (hfits : Throughout Deed.onSpaces Deed.Fits deeds spaces) :
    (trace onFiles deeds router).map (·.outcome) =
        (trace Deed.onSpaces deeds spaces).map (·.outcome) ∧
      Durable directory tags (deeds.filterMap Deed.call?) (ending onFiles deeds router)
        (ending Deed.onSpaces deeds spaces) := by
  have hwanted : Throughout Deed.onSpaces
      (fun deed spaces => deed.Fits spaces ∧ ∀ call ∈ deed.call?, call.super ∈ tags) deeds spaces := by
    intro made hmade
    refine ⟨hfits made hmade, fun call hcall => htags call (List.mem_filterMap.mpr ⟨made.call, ?_, hcall⟩)⟩
    rw [← map_call_trace deeds spaces]
    exact List.mem_map_of_mem hmade
  refine runs_related (fun made router spaces =>
    Durable directory tags (made.filterMap Deed.call?) router spaces) ?_ deeds h hwanted
  rintro made deed router spaces hdurable ⟨hfit, htag⟩
  obtain ⟨answer, router', spaces', hfiles, hspaces, hdurable'⟩ :=
    hdurable.onFiles hnames deed htag hfit
  refine ⟨answer, router', spaces', hfiles, hspaces, ?_⟩
  rw [List.filterMap_append]
  convert hdurable' using 2
  cases hcall : deed.call? <;> simp [hcall]

theorem run_parked {memories : MultiStore Parked Memory} {spaces : String → List Entry}
    (h : Quiet owners memories (childBytes spaces)) (deeds : List Deed)
    (hfits : Throughout Deed.onSpaces Deed.Fits deeds spaces) :
    (trace onParked deeds memories).map (·.outcome) =
      (trace Deed.onSpaces deeds spaces).map (·.outcome) := by
  refine (runs_related (fun _ memories spaces =>
    ∃ owners, Quiet owners memories (childBytes spaces)) ?_ deeds ⟨owners, h⟩ hfits).1
  rintro - deed memories spaces ⟨owners, hquiet⟩ hfit
  obtain ⟨answer, owners', memories', spaces', hparked, hspaces, hquiet'⟩ :=
    onParked_quiet deed hquiet hfit
  exact ⟨answer, memories', spaces', hparked, hspaces, owners', hquiet'⟩

/-- **Files lose nothing.** On an empty directory, and with super-tags whose files have different
names, a router answers as one does with children in memory that is never restarted, which is to say as
the entries of all super-tags do. At every point of the run, the file of each super-tag that has been
used holds the entries of that super-tag. -/
theorem files_agree (directory : String) (syncMode : SyncMode) (disk : Disk) (children : FileChildren)
    (capacity : Nat) (hpos : 0 < capacity) (hnul : directory.contains (Char.ofNat 0) = false)
    (hchildren : inDirectory directory syncMode disk = .ok children)
    (hempty : children.disk.list (Path.ofString directory) = []) (tags : Set String)
    (hnames : tags.InjOn FileName.ofTag) (deeds : List Deed)
    (htags : ∀ call ∈ deeds.filterMap Deed.call?, call.super ∈ tags)
    (hfits : Throughout Deed.onSpaces Deed.Fits deeds fun _ => []) :
    ∃ files memories, create children capacity = .ok files ∧
      create ({} : Parked) capacity = .ok memories ∧
      (trace onFiles deeds files).map (·.outcome) =
        (trace onParked deeds memories).map (·.outcome) ∧
      (trace onFiles deeds files).map (·.outcome) =
        (trace Deed.onSpaces deeds fun _ => []).map (·.outcome) ∧
      ∀ done, done <+: deeds → ∀ call ∈ done.filterMap Deed.call?,
        (ending onFiles done files).factory.disk.read?
            (Path.ofString (children.pathFor call.super)) =
          some (encodeEntries .byte (ending Deed.onSpaces done (fun _ => []) call.super)) := by
  have hholds := holds_inDirectory hnul hchildren hempty tags
  have hdurable : Durable directory tags []
      ({ factory := children, capacity, capacity_pos := hpos } : MultiStore FileChildren Handle)
      fun _ => [] :=
    ⟨[], _, .start children capacity hpos, .start hholds capacity hpos, fun _ => rfl, by simp⟩
  have hquiet : Quiet [] ({ factory := {}, capacity, capacity_pos := hpos } : MultiStore Parked Memory)
      (childBytes fun _ => []) := .start hpos
  have hfiles := (run_files hdurable hnames deeds htags hfits).1
  refine ⟨_, _, dif_pos hpos, dif_pos hpos, hfiles.trans (run_parked hquiet deeds hfits).symm, hfiles,
    ?_⟩
  rintro done ⟨rest, rfl⟩ call hcall
  have htags' : ∀ call ∈ done.filterMap Deed.call?, call.super ∈ tags := fun call hcall =>
    htags call (List.filterMap_append ▸ List.mem_append_left _ hcall)
  have hdone := (run_files hdurable hnames done htags' hfits.front).2
  have hwritten : Path.ofString (children.pathFor call.super) = place directory call.super := by
    rw [← ofString_written, ← hholds.directory_eq]
    rfl
  rw [hwritten]
  exact hdone.read? hcall (htags' call hcall)

/-- A run with two super-tags and room for one child, with restarts while a child is open and after all
have been closed. -/
theorem files_agree_displaced :
    let children : FileChildren :=
      { disk := ⟨[(["data", "children"], .directory), (["data"], .directory)]⟩
        directory := "data/children" }
    let tags : Set String := {"users/eu", "users/us"}
    let deeds : List Deed :=
      [.task (.call (.put "users/eu" "alice" [1])), .restart,
        .task (.call (.push "users/us" "bob" [2])), .task (.call (.get "users/eu" "alice")),
        .task .closeAll, .restart, .task (.call (.subTags "users/us")),
        .task (.call (.clearSuper "users/eu"))]
    inDirectory "data/children" .never {} = .ok children ∧
    children.disk.list (Path.ofString "data/children") = [] ∧ tags.InjOn FileName.ofTag ∧
    (∀ call ∈ deeds.filterMap Deed.call?, call.super ∈ tags) ∧
    Throughout Deed.onSpaces Deed.Fits deeds (fun _ => []) ∧
    ∃ files memories, create children 1 = .ok files ∧ create ({} : Parked) 1 = .ok memories ∧
      (trace onFiles deeds files).map (·.outcome) =
        (trace onParked deeds memories).map (·.outcome) ∧
      (trace onFiles deeds files).map (·.outcome) =
        (trace Deed.onSpaces deeds fun _ => []).map (·.outcome) ∧
      ∀ done, done <+: deeds → ∀ call ∈ done.filterMap Deed.call?,
        (ending onFiles done files).factory.disk.read?
            (Path.ofString (children.pathFor call.super)) =
          some (encodeEntries .byte (ending Deed.onSpaces done (fun _ => []) call.super)) := by
  intro children tags deeds
  have hpath : Path.ofString "data/children" = ["data", "children"] := by
    rw [Path.ofString_eq, splitOn_slash]
    decide +kernel
  have hnul : ("data/children").contains (Char.ofNat 0) = false := by
    rw [String.contains_char_eq]
    decide
  have hchildren : inDirectory "data/children" .never {} = .ok children := by
    unfold inDirectory
    rw [hpath]
    rfl
  have hempty : children.disk.list (Path.ofString "data/children") = [] := by
    rw [hpath]
    rfl
  have hother : FileName.ofTag "users/eu" ≠ FileName.ofTag "users/us" := by
    decide +kernel
  have hnames : tags.InjOn FileName.ofTag := by
    rintro _ (rfl | rfl) _ (rfl | rfl) heq
    · rfl
    · exact absurd heq hother
    · exact absurd heq.symm hother
    · rfl
  have htags : ∀ call ∈ deeds.filterMap Deed.call?, call.super ∈ tags := by
    have hsupers : ∀ call ∈ deeds.filterMap Deed.call?,
        call.super = "users/eu" ∨ call.super = "users/us" := by
      decide
    exact hsupers
  have hfits : Throughout Deed.onSpaces Deed.Fits deeds fun _ => [] := by
    unfold Throughout
    decide +kernel
  exact ⟨hchildren, hempty, hnames, htags, hfits,
    files_agree "data/children" .never {} children 1 (by decide) hnul hchildren hempty tags hnames
      deeds htags hfits⟩

end FramedStore.MultiStore
