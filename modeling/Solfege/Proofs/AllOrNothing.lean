import Mathlib.Data.List.Basic
import Solfege.Command.Run

/-!
# Solfege.Proofs.AllOrNothing

A run of the command gives its whole answer or none, and touches no file but the output it was
asked for.

* `Disk.read_of_write`      — a file that has been written reads back, and nothing else changes.
* `Invocation.run_ending`   — the five ways in which a run can end.
* `run_allOrNothing`        — what follows for exit code, standard output and files.

A file is written where its path leads. The directories on the way are not replaced by it, so the
same path leads there afterwards (`walk_of_directories`).
-/

namespace Solfege
namespace Command
namespace Disk

variable {disk : Disk} {place other : Place} {path : String}

/-! ## One entry -/

theorem get?_put {entry : Entry} (h : place.isTop = false) :
    (disk.put place entry).get? place = some entry := by
  simp [get?, put, h]

theorem lookup_filter_ne (entries : List (Place × Entry)) (h : other ≠ place) :
    (entries.filter fun entry => entry.1 ≠ place).lookup other = entries.lookup other := by
  induction entries with
  | nil => rfl
  | cons entry rest ih =>
    obtain ⟨key, value⟩ := entry
    by_cases hkey : key = place
    · subst hkey
      rw [List.filter_cons_of_neg (by simp), ih, List.lookup_cons, beq_false_of_ne h]
    · rw [List.filter_cons_of_pos (by simpa using hkey), List.lookup_cons, List.lookup_cons, ih]

theorem get?_put_of_ne {entry : Entry} (h : other ≠ place) :
    (disk.put place entry).get? other = disk.get? other := by
  have hlookup : ((disk.put place entry).entries).lookup other = disk.entries.lookup other := by
    rw [put, List.lookup_cons, beq_false_of_ne h]
    exact lookup_filter_ne disk.entries h
  rw [get?, get?, hlookup]

/-! ## Where a path leads -/

/-- Only directories are passed on the way. -/
theorem walk_of_directories {after : Disk}
    (h : ∀ p, disk.get? p = some .directory → after.get? p = some .directory)
    {components : List (List Char)} {start : Place}
    (hwalk : disk.walk start components = .ok place) :
    after.walk start components = .ok place := by
  induction components generalizing start with
  | nil => exact hwalk
  | cons component rest ih =>
    rw [walk] at hwalk
    split at hwalk
    · cases hwalk
    · cases hwalk
    · rename_i hdirectory
      split at hwalk
      · cases hwalk
      · rename_i hname
        rw [walk, h start hdirectory]
        simp only [hname, if_false]
        exact ih hwalk

/-- A walk that stays where it is at the end has looked up a directory there. -/
theorem walk_append_here {components : List (List Char)} {start : Place}
    (hwalk : disk.walk start (components ++ [['.']]) = .ok place) :
    disk.get? place = some .directory := by
  induction components generalizing start with
  | nil =>
    rw [List.nil_append, walk] at hwalk
    split at hwalk
    · cases hwalk
    · cases hwalk
    · rename_i hdirectory
      split at hwalk
      · cases hwalk
      · cases hwalk
        exact hdirectory
  | cons component rest ih =>
    rw [List.cons_append, walk] at hwalk
    split at hwalk
    · cases hwalk
    · cases hwalk
    · split at hwalk
      · cases hwalk
      · exact ih hwalk

/-! ## One file -/

/-- The path leads to a file, or to where one can be made. -/
structure Leads (disk : Disk) (path : String) (place : Place) : Prop where
  follow : disk.follow path (Path.components path) = .ok place
  vacant : disk.get? place ≠ some .directory

theorem follow_append_here {components : List (List Char)}
    (h : disk.follow path (components ++ [['.']]) = .ok place) :
    disk.get? place = some .directory := by
  rw [follow] at h
  split at h
  · cases h
  · exact walk_append_here h

/-- A path that ends in a slash leads to a directory or nowhere, so nothing is written there; any
other is followed as it is for reading. -/
theorem leads_of_write {after : Disk} {bytes : ByteArray} (h : disk.write path bytes = .ok after) :
    ∃ place, disk.Leads path place ∧ after = disk.put place (.file bytes) := by
  rw [write] at h
  split at h
  · cases h
  · rename_i place hfollow
    split at h
    · cases h
    · rename_i hvacant
      have htarget : target path = Path.components path := by
        rw [target] at hfollow ⊢
        split at hfollow
        · exact absurd (follow_append_here hfollow) hvacant
        · rename_i hname
          rw [if_neg hname]
      rw [htarget] at hfollow
      cases h
      exact ⟨place, ⟨hfollow, hvacant⟩, rfl⟩

/-- Every place but the one that the path leads to holds what it held before. -/
def SameBut (disk after : Disk) (path : String) : Prop :=
  ∃ place, disk.Leads path place ∧ ∀ other, other ≠ place → after.get? other = disk.get? other

theorem Leads.isTop_eq_false (h : disk.Leads path place) : place.isTop = false := by
  rw [← Bool.not_eq_true]
  intro htop
  exact h.vacant (by rw [get?, if_pos htop])

theorem read_of_write {after : Disk} {bytes : ByteArray} (h : disk.write path bytes = .ok after) :
    after.read path = .ok bytes ∧ disk.SameBut after path := by
  obtain ⟨place, hleads, rfl⟩ := leads_of_write h
  have hdirectories : ∀ p, disk.get? p = some .directory →
      (disk.put place (.file bytes)).get? p = some .directory := by
    intro p hp
    have hne : p ≠ place := by
      rintro rfl
      exact hleads.vacant hp
    rw [get?_put_of_ne hne, hp]
  have hfollow : (disk.put place (.file bytes)).follow path (Path.components path) =
      .ok place := by
    have hbefore := hleads.follow
    rw [follow] at hbefore ⊢
    split at hbefore
    · cases hbefore
    · rename_i hlength
      rw [if_neg hlength]
      exact walk_of_directories hdirectories hbefore
  refine ⟨?_, place, hleads, fun other => get?_put_of_ne⟩
  simp only [read, hfollow, get?_put hleads.isTop_eq_false]

end Disk

/-! ## One run -/

theorem textOf_toUTF8 (text : String) : textOf text.toUTF8 = .ok text := by
  have hvalid : text.toUTF8.IsValidUTF8 := text.isValidUTF8
  rw [textOf, String.fromUTF8?, dif_pos hvalid]
  rfl

theorem toUTF8_of_textOf {bytes : ByteArray} {text : String} (h : textOf bytes = .ok text) :
    bytes = text.toUTF8 := by
  rw [textOf, String.fromUTF8?] at h
  by_cases hvalid : bytes.IsValidUTF8
  · rw [dif_pos hvalid] at h
    cases h
    rfl
  · rw [dif_neg hvalid] at h
    cases h

namespace Invocation

variable {i : Invocation} {disk : Disk} {source : String}

/-- The input has the right extension and is a file with this text. -/
structure Reads (i : Invocation) (disk : Disk) (source : String) : Prop where
  extension : i.hasInputExtension = true
  content : disk.read i.input = .ok source.toUTF8

theorem Reads.textOf_eq (h : i.Reads disk source) :
    (disk.read i.input).bind textOf = .ok source := by
  rw [h.content]
  exact textOf_toUTF8 source

theorem reads_of_textOf (hextension : i.hasInputExtension = true)
    (h : (disk.read i.input).bind textOf = .ok source) : i.Reads disk source := by
  refine ⟨hextension, ?_⟩
  cases hread : disk.read i.input with
  | error fault =>
    rw [hread] at h
    cases h
  | ok bytes =>
    rw [hread] at h
    rw [toUTF8_of_textOf h]

/-- How a run ends: without a source, refused, with a text on standard output, without a file to
write to, or with a text in a file. -/
inductive Ending [FrontMatter.Reader] (i : Invocation) (disk : Disk) : Reply × Disk → Prop where
  | unread (stderr : String) : (∀ source, ¬ i.Reads disk source) →
      Ending i disk (⟨1, "", stderr⟩, disk)
  | refused {source message : String} (stderr : String) : i.Reads disk source →
      i.plan source = .answer (failure message) → Ending i disk (⟨1, "", stderr⟩, disk)
  | printed {source text : String} (stderr : String) : i.Reads disk source →
      i.plan source = .answer (success text) → Ending i disk (⟨0, text, stderr⟩, disk)
  | unsaved {source path text : String} {fault : FileFault} (stderr : String) :
      i.Reads disk source → i.plan source = .save path text →
      disk.write path text.toUTF8 = .error fault → Ending i disk (⟨1, "", stderr⟩, disk)
  | saved {source path text : String} {after : Disk} (stderr : String) :
      i.Reads disk source → i.plan source = .save path text →
      disk.write path text.toUTF8 = .ok after → Ending i disk (⟨0, "", stderr⟩, after)

/-- A reply that is planned at once is a failure or a success. -/
theorem plan_answer [FrontMatter.Reader] {reply : Reply} (h : i.plan source = .answer reply) :
    (∃ message, reply = failure message) ∨ ∃ text, reply = success text := by
  rw [plan] at h
  split at h
  · split at h <;> cases h
    · exact .inl ⟨_, rfl⟩
    · exact .inr ⟨_, rfl⟩
  · split at h
    · split at h <;> cases h
      · exact .inl ⟨_, rfl⟩
      · exact .inr ⟨_, rfl⟩
    · split at h
      · cases h
        exact .inl ⟨_, rfl⟩
      · split at h <;> cases h
        exact .inr ⟨_, rfl⟩

theorem run_ending [FrontMatter.Reader] (i : Invocation) (disk : Disk) :
    i.Ending disk (i.run disk) := by
  rw [run]
  split
  · rename_i hextension
    split
    · rename_i fault hfault
      refine .unread _ fun source hreads => ?_
      rw [hreads.textOf_eq] at hfault
      cases hfault
    · rename_i source htext
      have hreads := reads_of_textOf hextension htext
      split
      · rename_i reply hplan
        obtain ⟨message, rfl⟩ | ⟨text, rfl⟩ := plan_answer hplan
        · exact .refused _ hreads hplan
        · exact .printed _ hreads hplan
      · rename_i path text hplan
        split
        · rename_i hwrite
          exact .unsaved _ hreads hplan hwrite
        · rename_i hwrite
          exact .saved _ hreads hplan hwrite
  · rename_i hextension
    exact .unread _ fun source hreads => hextension hreads.extension

/-- A run that fails prints nothing and leaves the files alone. -/
theorem Ending.of_failure [FrontMatter.Reader] {ending : Reply × Disk} (h : i.Ending disk ending)
    (hexit : ending.1.exit = 1) : ending.1.stdout = "" ∧ ending.2 = disk := by
  cases h with
  | unread stderr => exact ⟨rfl, rfl⟩
  | refused stderr => exact ⟨rfl, rfl⟩
  | printed stderr => cases hexit
  | unsaved stderr => exact ⟨rfl, rfl⟩
  | saved stderr => cases hexit

/-! ## Tokens and programs -/

theorem plan_of_inspection [FrontMatter.Reader] (h : i.tokens = true ∨ i.program = true)
    (source path text : String) : i.plan source ≠ .save path text := by
  intro hplan
  rw [plan] at hplan
  split at hplan
  · split at hplan <;> cases hplan
  · rename_i htokens
    rw [if_pos (h.resolve_left htokens)] at hplan
    split at hplan <;> cases hplan

theorem Ending.of_inspection [FrontMatter.Reader] {ending : Reply × Disk} (h : i.Ending disk ending)
    (hinspect : i.tokens = true ∨ i.program = true) : ending.2 = disk := by
  cases h with
  | unread stderr => rfl
  | refused stderr => rfl
  | printed stderr => rfl
  | unsaved stderr => rfl
  | saved stderr _ hplan => exact absurd hplan (plan_of_inspection hinspect _ _ _)

/-! ## Compiling -/

/-- What is made of a source if neither its tokens nor its program are asked for. -/
def compiled [FrontMatter.Reader] (i : Invocation) (source : String) : Except Error String :=
  if i.validate then compile source else compileUnchecked source

/-- The text can go where it is to go. -/
def Delivers (i : Invocation) (disk : Disk) (text : String) : Prop :=
  ∀ path, i.output = some path → ∃ after, disk.write path text.toUTF8 = .ok after

/-- The text is all of standard output, or all of the output file; no other file has changed. -/
def Delivered (i : Invocation) (disk : Disk) (text : String) (ending : Reply × Disk) : Prop :=
  match i.output with
  | none => ending.1.stdout = text ∧ ending.2 = disk
  | some path =>
    ending.1.stdout = "" ∧ ending.2.read path = .ok text.toUTF8 ∧ disk.SameBut ending.2 path

theorem plan_of_compiled [FrontMatter.Reader] (htokens : i.tokens = false)
    (hprogram : i.program = false) (source : String) :
    i.plan source =
      match i.compiled source with
      | .error error => .answer (failure ("Compilation error: " ++ error.message))
      | .ok abc =>
        match i.output with
        | none => .answer (success abc)
        | some path => .save path abc := by
  rw [plan, htokens, hprogram]
  rfl

theorem Reads.unique {other : String} (h : i.Reads disk source) (hother : i.Reads disk other) :
    other = source := by
  have htext := hother.textOf_eq
  rw [h.textOf_eq] at htext
  exact (Except.ok.inj htext).symm

section Compiling

variable (htokens : i.tokens = false) (hprogram : i.program = false)

include htokens hprogram

theorem compiled_of_failure [FrontMatter.Reader] {message : String}
    (h : i.plan source = .answer (failure message)) :
    ∃ error, i.compiled source = .error error := by
  rw [plan_of_compiled htokens hprogram] at h
  split at h
  · rename_i error hcompiled
    exact ⟨error, hcompiled⟩
  · split at h
    · injection h with hreply
      cases congrArg Reply.exit hreply
    · cases h

theorem compiled_of_success [FrontMatter.Reader] {text : String}
    (h : i.plan source = .answer (success text)) :
    i.compiled source = .ok text ∧ i.output = none := by
  rw [plan_of_compiled htokens hprogram] at h
  split at h
  · injection h with hreply
    cases congrArg Reply.exit hreply
  · rename_i abc hcompiled
    split at h
    · rename_i houtput
      injection h with hreply
      have htext : abc = text := congrArg Reply.stdout hreply
      exact ⟨htext ▸ hcompiled, houtput⟩
    · cases h

theorem compiled_of_save [FrontMatter.Reader] {path text : String}
    (h : i.plan source = .save path text) :
    i.compiled source = .ok text ∧ i.output = some path := by
  rw [plan_of_compiled htokens hprogram] at h
  split at h
  · cases h
  · rename_i hcompiled
    split at h
    · cases h
    · rename_i houtput
      cases h
      exact ⟨hcompiled, houtput⟩

theorem Ending.of_compiled [FrontMatter.Reader] {ending : Reply × Disk} (h : i.Ending disk ending)
    (hreads : i.Reads disk source) :
    (ending.1.exit = 0 ↔ ∃ abc, i.compiled source = .ok abc ∧ i.Delivers disk abc) ∧
      ∀ abc, i.compiled source = .ok abc → i.Delivers disk abc → i.Delivered disk abc ending := by
  cases h with
  | unread stderr hnone => exact absurd hreads (hnone source)
  | refused stderr hother hplan =>
    cases hreads.unique hother
    obtain ⟨error, hcompiled⟩ := compiled_of_failure htokens hprogram hplan
    simp [hcompiled]
  | printed stderr hother hplan =>
    cases hreads.unique hother
    obtain ⟨hcompiled, houtput⟩ := compiled_of_success htokens hprogram hplan
    simp [hcompiled, Delivers, Delivered, houtput]
  | @unsaved _ path text fault stderr hother hplan hwrite =>
    cases hreads.unique hother
    obtain ⟨hcompiled, houtput⟩ := compiled_of_save htokens hprogram hplan
    have hfull : ¬ i.Delivers disk text := by
      intro hdelivers
      obtain ⟨after, hafter⟩ := hdelivers path houtput
      rw [hwrite] at hafter
      cases hafter
    simp [hcompiled, hfull]
  | @saved _ path text after stderr hother hplan hwrite =>
    cases hreads.unique hother
    obtain ⟨hcompiled, houtput⟩ := compiled_of_save htokens hprogram hplan
    have hdelivers : i.Delivers disk text := by
      intro other hother
      rw [houtput] at hother
      cases hother
      exact ⟨after, hwrite⟩
    refine ⟨⟨fun _ => ⟨text, hcompiled, hdelivers⟩, fun _ => rfl⟩, fun abc habc _ => ?_⟩
    rw [hcompiled] at habc
    cases habc
    rw [Delivered, houtput]
    exact ⟨rfl, Disk.read_of_write hwrite⟩

end Compiling

end Invocation

theorem run_of_request [FrontMatter.Reader] {arguments : List String} {i : Invocation}
    (h : Request.ofArguments arguments = .run i) (disk : Disk) :
    run arguments disk = i.run disk := by
  rw [run, h]

/-- A run that exits with 1 prints nothing to standard output and changes no file. A run that lists
tokens or prints a program changes no file, whatever output it names. Any other run on a file of
the right extension that holds a text exits with 0 exactly if the text compiles and the output, if
one is named, can be written; then the music is the content of that output and nothing is printed,
or without one it is what is printed, and no other file has changed. -/
theorem run_allOrNothing [FrontMatter.Reader] (arguments : List String) (disk : Disk) :
    ((run arguments disk).1.exit = 1 →
      (run arguments disk).1.stdout = "" ∧ (run arguments disk).2 = disk) ∧
    ∀ i, Request.ofArguments arguments = .run i →
      (i.tokens = true ∨ i.program = true → (run arguments disk).2 = disk) ∧
      (i.tokens = false → i.program = false → ∀ source, i.Reads disk source →
        ((run arguments disk).1.exit = 0 ↔
          ∃ abc, i.compiled source = .ok abc ∧ i.Delivers disk abc) ∧
        ∀ abc, i.compiled source = .ok abc → i.Delivers disk abc →
          i.Delivered disk abc (run arguments disk)) := by
  refine ⟨fun hexit => ?_, fun i hrequest => ?_⟩
  · cases hrequest : Request.ofArguments arguments with
    | run i =>
      rw [run_of_request hrequest] at hexit ⊢
      exact (i.run_ending disk).of_failure hexit
    | version =>
      rw [run, hrequest] at hexit
      cases hexit
    | help =>
      rw [run, hrequest] at hexit
      cases hexit
    | mistake =>
      rw [run, hrequest] at hexit
      cases hexit
  · rw [run_of_request hrequest]
    have hending := i.run_ending disk
    exact ⟨hending.of_inspection, fun htokens hprogram source hreads =>
      hending.of_compiled htokens hprogram hreads⟩

def song : String := "Tempo 60\nCompas 2/4\nTonalidad Do M\nDo4 Blanca"

def songText : String := "X:1\nT:Generated\nQ:1/4=60\nM:2/4\nL:1/8\nK:Cmaj\nC4 | |\n"

/-- A song, and a directory to write to. -/
def songDisk : Disk :=
  (Disk.empty.add "song.mus" (.file song.toUTF8)).add "out" .directory

theorem run_allOrNothing_song :
    let i : Invocation := { input := "song.mus", output := some "out/song.abc", verbose := true }
    let ending := run ["-vo", "out/song.abc", "song.mus"] songDisk
    Request.ofArguments ["-vo", "out/song.abc", "song.mus"] = .run i ∧ i.Reads songDisk song ∧
      i.compiled song = .ok songText ∧ i.Delivers songDisk songText ∧
      ending.1.exit = 0 ∧ ending.1.stdout = "" ∧
      ending.2.read "out/song.abc" = .ok songText.toUTF8 := by
  intro i ending
  have hrequest : Request.ofArguments ["-vo", "out/song.abc", "song.mus"] = .run i := by
    decide +kernel
  have hreads : i.Reads songDisk song := ⟨by decide +kernel, by decide +kernel⟩
  have hcompiled : i.compiled song = .ok songText := by decide +kernel
  have hdelivers : i.Delivers songDisk songText := by
    rintro path ⟨⟩
    exact ⟨_, rfl⟩
  obtain ⟨hexit, hdelivered⟩ :=
    ((run_allOrNothing _ songDisk).2 i hrequest).2 rfl rfl song hreads
  have hfile := hdelivered songText hcompiled hdelivers
  exact ⟨hrequest, hreads, hcompiled, hdelivers, hexit.mpr ⟨songText, hcompiled, hdelivers⟩,
    hfile.1, hfile.2.1⟩

end Command
end Solfege
