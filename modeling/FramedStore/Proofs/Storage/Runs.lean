import FramedStore.Proofs.Effect.Run
import FramedStore.Proofs.Storage.Defaults
import FramedStore.Proofs.Storage.File

/-!
# The same run on every storage

A run of calls on a file, between which the file may be opened once more, is the run in memory, step
by step; so is one on a storage that has the required calls only.
-/

namespace FramedStore.Storage

open Effect

/-- A call on a storage, or that it is opened once more. -/
inductive Use
  | call (call : Call)
  | reopen
  deriving Repr, DecidableEq

variable {σ : Type} [Storage σ]

/-- Makes use of a storage that `reopen` opens once more. -/
def use (reopen : Effect σ Unit) : Use → Effect σ Answer
  | .call call => perform call
  | .reopen => andDone reopen

/-- Makes use of a storage that is always open. -/
def useOpen : Use → Effect σ Answer := use (pure ())

/-- A step on a file does what a step in memory does; the noted length is right, and a step that
fails changes nothing. -/
structure SameOnFile (file : Step Use File Answer) (memory : Step Use Memory Answer) : Prop where
  outcome : file.outcome = memory.outcome
  content : file.after.content = memory.after.content
  size : file.after.handle.size = file.after.content.length
  unchanged : ∀ e, memory.outcome = .error e →
    file.after = file.before ∧ memory.after = memory.before

/-- A step on a storage with the required calls only does what a step in memory does, but for the
range that is reported out of range. -/
structure SameByDefault (hold : Memory → σ) (plain : Step Use σ Answer)
    (memory : Step Use Memory Answer) : Prop where
  content : plain.after = hold memory.after
  ok : ∀ a, plain.outcome = .ok a ↔ memory.outcome = .ok a
  outOfRange : (∃ start stop size, plain.outcome = .error (.outOfRange start stop size)) ↔
    ∃ start stop size, memory.outcome = .error (.outOfRange start stop size)

theorem use_agree {file : File} (h : file.Ready) (hlt : file.content.length < Offset.range)
    {u : Use} (hu : u ≠ .call .close) :
    file.Agree (use File.reopen u file) (useOpen u (⟨file.content⟩ : Memory)) := by
  cases u with
  | call call => exact File.perform_agree h hlt fun heq => hu (congrArg Use.call heq)
  | reopen =>
    have hreopen : use File.reopen .reopen file = .ok .done file :=
      bind_ok (File.reopen_apply h)
    rw [hreopen]
    exact .made _ file h

theorem step_sameOnFile {file : File} (h : file.Ready)
    (hlt : file.content.length < Offset.range) {u : Use} (hu : u ≠ .call .close) :
    (step (use File.reopen) u file).after.Ready ∧
      SameOnFile (step (use File.reopen) u file) (step useOpen u (⟨file.content⟩ : Memory)) := by
  rcases step_of_agree (use_agree h hlt hu) with
    ⟨a, after, _, ⟨hafter, rfl⟩, hfile, hmemory⟩ | ⟨e, _, _, _, ⟨rfl, rfl, rfl⟩, hfile, hmemory⟩
  · rw [hfile, hmemory]
    exact ⟨hafter, rfl, rfl, hafter.size_eq, nofun⟩
  · rw [hfile, hmemory]
    exact ⟨h, rfl, rfl, h.size_eq, fun _ _ => ⟨rfl, rfl⟩⟩

theorem step_sameByDefault {hold : Memory → σ} (h : RequiredOnly hold) (u : Use)
    (memory : Memory) :
    (step useOpen u (hold memory)).after = hold (step useOpen u memory).after ∧
      SameByDefault hold (step useOpen u (hold memory)) (step useOpen u memory) := by
  have hagree : AgreeByDefault hold memory (useOpen u (hold memory)) (useOpen u memory) := by
    cases u with
    | call call => exact h.perform_agree call memory
    | reopen => exact .ok _ rfl
  rcases step_of_agree hagree with
    ⟨a, _, after, rfl, hplain, hmemory⟩ | ⟨_, _, _, _, ⟨rfl, rfl, hout, hout'⟩, hplain, hmemory⟩
  · rw [hplain, hmemory]
    exact ⟨rfl, rfl, fun _ => Iff.rfl, ⟨nofun, nofun⟩⟩
  · obtain ⟨start, stop, size, rfl⟩ := hout
    obtain ⟨start', stop', size', rfl⟩ := hout'
    rw [hplain, hmemory]
    exact ⟨rfl, rfl, fun _ => ⟨nofun, nofun⟩, ⟨fun _ => ⟨_, _, _, rfl⟩, fun _ => ⟨_, _, _, rfl⟩⟩⟩

/-- **A file is a storage in memory, and so are the required calls alone.** A file is opened, with
whatever it holds, and used without being closed; the content that it should have is always one
that 64 bits can count. -/
theorem trace_sameAsMemory {written : String} {syncMode : SyncMode} {disk disk' : Disk}
    {handle : Handle} (hopened : File.openAt written syncMode disk = .ok handle disk')
    {hold : Memory → σ} (hplain : RequiredOnly hold) {uses : List Use}
    (hfits : Throughout useOpen
      (fun u (memory : Memory) => u ≠ .call .close ∧ memory.content.length < Offset.range) uses
      ⟨(File.mk disk' handle).content⟩) :
    List.Forall₂ SameOnFile (trace (use File.reopen) uses ⟨disk', handle⟩)
        (trace useOpen uses (⟨(File.mk disk' handle).content⟩ : Memory)) ∧
      List.Forall₂ (SameByDefault hold)
        (trace useOpen uses (hold ⟨(File.mk disk' handle).content⟩))
        (trace useOpen uses (⟨(File.mk disk' handle).content⟩ : Memory)) := by
  constructor
  · refine forall₂_trace (fun file memory => file.Ready ∧ memory = ⟨file.content⟩) ?_ uses _ _
      ⟨File.ready_of_openAt hopened, rfl⟩ hfits
    rintro u file _ ⟨h, rfl⟩ ⟨hu, hlt⟩
    obtain ⟨hready, hsame⟩ := step_sameOnFile h hlt hu
    exact ⟨⟨hready, congrArg Memory.mk hsame.content.symm⟩, hsame⟩
  · refine forall₂_trace (fun plain memory => plain = hold memory) ?_ uses _ _ rfl hfits
    rintro u _ memory rfl -
    exact step_sameByDefault hplain u memory

/-- A run that puts bytes in, opens the file once more, removes bytes and asks for too many. -/
theorem trace_sameAsMemory_reopened :
    File.openAt "s" .everyWrite ⟨[(["s"], .file [1, 2, 3])]⟩ =
      .ok ⟨"s", ["s"], 3, .everyWrite, true⟩ ⟨[(["s"], .file [1, 2, 3])]⟩ ∧
    (RequiredOnly fun memory => ({ memory } : Restricted)) ∧
    Throughout useOpen
      (fun u (memory : Memory) => u ≠ .call .close ∧ memory.content.length < Offset.range)
      [.call (.insert 1 [9]), .reopen, .call (.delete 0 2), .call (.slice 4 9)] ⟨[1, 2, 3]⟩ ∧
    List.Forall₂ SameOnFile
      (trace (use File.reopen)
        [.call (.insert 1 [9]), .reopen, .call (.delete 0 2), .call (.slice 4 9)]
        ⟨⟨[(["s"], .file [1, 2, 3])]⟩, ⟨"s", ["s"], 3, .everyWrite, true⟩⟩)
      (trace useOpen [.call (.insert 1 [9]), .reopen, .call (.delete 0 2), .call (.slice 4 9)]
        (⟨[1, 2, 3]⟩ : Memory)) ∧
    List.Forall₂ (SameByDefault fun memory => ({ memory } : Restricted))
      (trace useOpen [.call (.insert 1 [9]), .reopen, .call (.delete 0 2), .call (.slice 4 9)]
        ({ memory := ⟨[1, 2, 3]⟩ } : Restricted))
      (trace useOpen [.call (.insert 1 [9]), .reopen, .call (.delete 0 2), .call (.slice 4 9)]
        (⟨[1, 2, 3]⟩ : Memory)) := by
  have hopened : File.openAt "s" .everyWrite ⟨[(["s"], .file [1, 2, 3])]⟩ =
      .ok ⟨"s", ["s"], 3, .everyWrite, true⟩ ⟨[(["s"], .file [1, 2, 3])]⟩ := by
    have hplain : Path.Plain "s" := ⟨by decide, by decide, by decide, by decide⟩
    have hnul : ("s").contains (Char.ofNat 0) = false := by
      rw [String.contains_char_eq]
      decide
    have hopen : Disk.openFile ⟨[(["s"], .file [1, 2, 3])]⟩ "s" = .ok ⟨[(["s"], .file [1, 2, 3])]⟩ :=
      Disk.openFile_plain hplain hnul rfl rfl
    unfold File.openAt
    rw [Path.ofString_plain hplain]
    simp only [bind_apply, get_apply, hopen]
    rfl
  have hfits : Throughout useOpen
      (fun u (memory : Memory) => u ≠ .call .close ∧ memory.content.length < Offset.range)
      [.call (.insert 1 [9]), .reopen, .call (.delete 0 2), .call (.slice 4 9)] ⟨[1, 2, 3]⟩ := by
    unfold Throughout
    decide +kernel
  exact ⟨hopened, Restricted.requiredOnly, hfits,
    trace_sameAsMemory hopened Restricted.requiredOnly hfits⟩

end FramedStore.Storage
