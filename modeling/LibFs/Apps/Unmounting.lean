import LibFs.Model.Drivers

/-! What the drivers do on every path with the disk they have mounted. -/
namespace LibFs

open LibFs.Foundation Driver

def Unmounts (trace : List DriverEvent) : Prop :=
  ∀ before diskname after, trace = before ++ ⟨.fsMount diskname, (0 : Int)⟩ :: after →
    ∃ result, ⟨.fsUmount, result⟩ ∈ after

/-- The events with which a driver stops on the spot: in `thread_fs_cat` an empty file, in
`thread_fs_script` a `MOUNT` that fails, the assertion on `fread`, and a `NULL` argument. -/
def losesMount : DriverName → DriverEvent → Bool
  | .cat, ⟨.fsStat _, stat⟩ => decide ((stat : Int) = 0)
  | .script, ⟨.fsMount _, failed⟩ => decide ((failed : Int) ≠ 0)
  | .script, ⟨.fread dataSize, n⟩ => decide ((n : Nat) ≠ toSizeT dataSize)
  | .script, ⟨.useNull, _⟩ => true
  | _, _ => false

def mounts : DriverEvent → Bool
  | ⟨.fsMount _, failed⟩ => decide ((failed : Int) = 0)
  | _ => false

def umounts : DriverEvent → Bool
  | ⟨.fsUmount, _⟩ => true
  | _ => false

def mountEvents (name : DriverName) : Events DriverEvent where
  acquires := mounts
  releases := umounts
  faulty := losesMount name

@[simp] theorem losesMount_umount (name : DriverName) (result : Int) :
    losesMount name ⟨.fsUmount, result⟩ = false := by
  cases name <;> rfl

@[simp] theorem losesMount_mounted (name : DriverName) (diskname : List UInt8) :
    losesMount name ⟨.fsMount diskname, (0 : Int)⟩ = false := by
  cases name <;> rfl

theorem mounts_iff {event : DriverEvent} :
    mounts event = true ↔ ∃ diskname, event = ⟨.fsMount diskname, (0 : Int)⟩ := by
  obtain ⟨call, answer⟩ := event
  cases call <;> simp [mounts]

theorem umounts_iff {event : DriverEvent} :
    umounts event = true ↔ ∃ result, event = ⟨.fsUmount, result⟩ := by
  obtain ⟨call, answer⟩ := event
  cases call <;> simp [umounts]

theorem unmounts_iff (name : DriverName) {trace : List DriverEvent} :
    Unmounts trace ↔ AllReleased (mountEvents name) trace := by
  constructor
  · intro h before event after heq hmounts
    obtain ⟨diskname, rfl⟩ := mounts_iff.mp hmounts
    obtain ⟨result, hmem⟩ := h before diskname after heq
    exact ⟨_, hmem, umounts_iff.mpr ⟨result, rfl⟩⟩
  · intro h before diskname after heq
    obtain ⟨later, hmem, humounts⟩ := h before _ after heq (mounts_iff.mpr ⟨diskname, rfl⟩)
    obtain ⟨result, rfl⟩ := umounts_iff.mp humounts
    exact ⟨result, hmem⟩

/-- What a driver leaves: a disk that is still mounted is one that it has lost. -/
def Settled (watch : Watch) (_ : Ending) : Prop := watch.held = watch.blamed

abbrev Driver.Settles (name : DriverName) (watch : Watch) (driver : Driver) : Prop :=
  driver.Ends (Watch.step (mountEvents name)) Settled watch

section Settling

variable {name : DriverName} {held blamed : Bool}

@[simp] theorem watch_step_mountEvents {event : DriverEvent} :
    Watch.step (mountEvents name) ⟨held, blamed⟩ event =
      ⟨mounts event || (held && !umounts event), blamed || (held && losesMount name event)⟩ := rfl

@[simp] theorem settled_iff {ending : Ending} : Settled ⟨held, blamed⟩ ending ↔ held = blamed :=
  Iff.rfl

@[simp] theorem settles_umountAndDie : umountAndDie.Settles name ⟨held, false⟩ := by
  intro result
  simp [die, mounts, umounts]

@[simp] theorem settles_umountAndReturn : umountAndReturn.Settles name ⟨held, false⟩ := by
  intro result
  simp [die, returned, mounts, umounts]

/-- A failed mount is the end; in a script it may lose an earlier one. -/
theorem settles_mount {diskname : List UInt8} {next : Driver}
    (hheld : held = false ∨ name = .script) (hnext : next.Settles name ⟨true, false⟩) :
    Driver.Settles name ⟨held, false⟩
      (.call (.fsMount diskname) fun (failed : Int) => if failed ≠ 0 then die else next) := by
  intro failed
  simp only [Program.ends_ite, watch_step_mountEvents]
  constructor
  · intro hfailed
    rcases hheld with rfl | rfl
    · simpa [die, mounts] using hfailed
    · cases held <;> simp_all [die, mounts, umounts, losesMount]
  · intro hsuccess
    have hzero : (failed : Int) = 0 := not_not.mp hsuccess
    simpa [hzero, mounts, umounts] using hnext

end Settling

theorem settles_print {name : DriverName} {print : DriverCall}
    (hprint : ∀ answer, Watch.step (mountEvents name) ⟨true, false⟩ ⟨print, answer⟩ = ⟨true, false⟩)
    (argv : List (List UInt8)) : (printDriver print argv).Settles name ⟨false, false⟩ := by
  unfold printDriver
  split
  · refine settles_mount (.inl rfl) fun answer => ?_
    rw [hprint]
    exact settles_umountAndReturn
  · simp [die]

theorem settles_add (argv : List (List UInt8)) :
    (threadFsAdd argv).Settles .add ⟨false, false⟩ := by
  unfold threadFsAdd
  split
  · simp [die, mounts, umounts, losesMount]
  · simp [die]

theorem settles_rm (argv : List (List UInt8)) :
    (threadFsRm argv).Settles .rm ⟨false, false⟩ := by
  unfold threadFsRm
  split
  · exact settles_mount (.inl rfl) (by simp [mounts, umounts, losesMount])
  · simp [die]

theorem settles_cat (argv : List (List UInt8)) :
    (threadFsCat argv).Settles .cat ⟨false, false⟩ := by
  unfold threadFsCat
  split
  · refine settles_mount (.inl rfl) ?_
    simp only [Program.ends_call, Program.ends_ite]
    intro fsFd
    refine ⟨fun _ => by simp [mounts, umounts, losesMount], fun _ stat => ?_⟩
    by_cases hempty : (stat : Int) = 0
    · simp [hempty, returned, mounts, umounts, losesMount]
    · simp [hempty, mounts, umounts, losesMount]
  · simp [die]

theorem settles_stat (argv : List (List UInt8)) :
    (threadFsStat argv).Settles .stat ⟨false, false⟩ := by
  unfold threadFsStat
  split
  · exact settles_mount (.inl rfl) (by simp [returned, mounts, umounts, losesMount])
  · simp [die]

section Commands

variable {args : CommandArgs} {fsFd : Int} {mounted : Bool} {next : Driver}

@[simp] theorem settles_crashed : crashed.Settles .script ⟨mounted, false⟩ := by
  simp [crashed, mounts, umounts, losesMount]

theorem settles_loadFile {path : Option (List UInt8)} {next : Int → Int → Driver}
    (hnext : ∀ dataFd dataSize, (next dataFd dataSize).Settles .script ⟨mounted, false⟩) :
    (loadFile path next).Settles .script ⟨mounted, false⟩ := by
  simp [loadFile, hnext, mounts, umounts, losesMount]

theorem settles_umountCommand (hnext : next.Settles .script ⟨false, false⟩) :
    (umountCommand mounted next).Settles .script ⟨mounted, false⟩ := by
  cases mounted with
  | false => simpa [umountCommand] using hnext
  | true => simp [umountCommand, die, hnext, mounts, umounts]

variable (hnext : next.Settles .script ⟨mounted, false⟩)
include hnext

theorem settles_writeData {dataSize : Int} :
    (writeData fsFd dataSize next).Settles .script ⟨mounted, false⟩ := by
  simp [writeData, hnext, mounts, umounts, losesMount]

theorem settles_readData {readReqLength : Int} :
    (readData fsFd readReqLength next).Settles .script ⟨mounted, false⟩ := by
  simp [readData, hnext, mounts, umounts, losesMount]

theorem settles_seekCommand : (seekCommand args fsFd next).Settles .script ⟨mounted, false⟩ := by
  unfold seekCommand
  cases args 1 with
  | none => exact settles_crashed
  | some offset => simp [hnext, mounts, umounts, losesMount]

theorem settles_writeCommand : (writeCommand args fsFd next).Settles .script ⟨mounted, false⟩ := by
  unfold writeCommand
  cases args 1 with
  | none => exact settles_crashed
  | some dataSource =>
      simp only [Program.ends_ite]
      refine ⟨fun _ => ?_, fun _ => ⟨fun _ => ?_, fun _ => settles_umountAndDie⟩⟩
      · cases args 2 with
        | none => exact settles_crashed
        | some data => exact settles_writeData hnext
      · refine settles_loadFile fun dataFd dataSize => ?_
        simp [settles_writeData hnext, mounts, umounts, losesMount]

theorem settles_readCommand : (readCommand args fsFd next).Settles .script ⟨mounted, false⟩ := by
  unfold readCommand
  cases args 1 with
  | none => exact settles_crashed
  | some length =>
      cases args 2 with
      | none => exact settles_crashed
      | some dataSource =>
          simp only [Program.ends_ite]
          refine ⟨fun _ => ?_, fun _ => ⟨fun _ => ?_, fun _ => settles_umountAndDie⟩⟩
          · cases args 3 with
            | none => exact settles_crashed
            | some data => exact settles_readData hnext
          · refine settles_loadFile fun dataFd dataSize => ?_
            simp only [Program.ends_ite, Program.ends_call]
            intro dataFile data
            refine ⟨fun _ => by simp [mounts, umounts, losesMount], fun _ n => ?_⟩
            -- the assertion on what was read
            by_cases hread : (n : Nat) = toSizeT dataSize
            · simp [hread, settles_readData hnext, mounts, umounts, losesMount]
            · simp [hread, die, mounts, umounts, losesMount]

end Commands

theorem settles_scriptLoop (diskname : List UInt8) (script : List CommandArgs) (mounted : Bool)
    (fsFd : Int) : (scriptLoop diskname script mounted fsFd).Settles .script ⟨mounted, false⟩ := by
  induction script generalizing mounted fsFd with
  | nil => cases mounted <;> simp [scriptLoop, returned]
  | cons args rest ih =>
      unfold scriptLoop
      refine Program.ends_ite.mpr ⟨fun _ => settles_mount (.inr rfl) (ih true fsFd), fun _ => ?_⟩
      refine Program.ends_ite.mpr ⟨fun _ => settles_umountCommand (ih false fsFd), fun _ => ?_⟩
      refine Program.ends_ite.mpr ⟨fun _ => ?_, fun _ => ?_⟩
      · simp [createCommand, ih, mounts, umounts, losesMount]
      refine Program.ends_ite.mpr ⟨fun _ => ?_, fun _ => ?_⟩
      · simp [deleteCommand, ih, mounts, umounts, losesMount]
      refine Program.ends_ite.mpr ⟨fun _ => ?_, fun _ => ?_⟩
      · simp [openCommand, ih, mounts, umounts, losesMount]
      refine Program.ends_ite.mpr ⟨fun _ => ?_, fun _ => ?_⟩
      · simp [closeCommand, ih, mounts, umounts, losesMount]
      refine Program.ends_ite.mpr ⟨fun _ => settles_seekCommand (ih mounted fsFd), fun _ => ?_⟩
      refine Program.ends_ite.mpr ⟨fun _ => settles_writeCommand (ih mounted fsFd), fun _ => ?_⟩
      refine Program.ends_ite.mpr ⟨fun _ => settles_readCommand (ih mounted fsFd), fun _ => ?_⟩
      exact ih mounted fsFd

theorem settles_script (unset : CommandArgs) (argv : List (List UInt8)) :
    (threadFsScript unset argv).Settles .script ⟨false, false⟩ := by
  unfold threadFsScript
  split
  · rintro (_ | stream)
    · simp [die, mounts, losesMount]
    · exact settles_scriptLoop _ _ false (-1)
  · simp [die]

theorem settles_commands (name : DriverName) (unset : CommandArgs) (argv : List (List UInt8)) :
    (commands unset name argv).Settles name ⟨false, false⟩ := by
  cases name with
  | info => exact settles_print (fun _ => rfl) argv
  | ls => exact settles_print (fun _ => rfl) argv
  | add => exact settles_add argv
  | rm => exact settles_rm argv
  | cat => exact settles_cat argv
  | stat => exact settles_stat argv
  | script => exact settles_script unset argv

/-- A driver unmounts what it has mounted exactly on the paths on which the events that stop
it on the spot come when nothing is mounted any more. -/
theorem mounts_unmounted_iff (name : DriverName) (unset : CommandArgs) (argv : List (List UInt8))
    {trace : List DriverEvent} {ending : Ending}
    (hpath : (commands unset name argv).Path trace ending) :
    Unmounts trace ↔
      ∀ before event after, trace = before ++ event :: after → losesMount name event = true →
        Unmounts before := by
  have hsettled : (watch (mountEvents name) trace).held = (watch (mountEvents name) trace).blamed :=
    hpath.ends (settles_commands name unset argv)
  calc Unmounts trace ↔ (watch (mountEvents name) trace).held = false := by
        rw [unmounts_iff name, watch_held_iff]
    _ ↔ FaultsUnheld (mountEvents name) trace := by rw [hsettled, watch_blamed_iff]
    _ ↔ _ := by
        unfold FaultsUnheld
        simp only [unmounts_iff name]
        rfl

def lsTrace : List DriverEvent :=
  [⟨.fsMount (ascii "disk.fs"), (0 : Int)⟩, ⟨.fsLs, (0 : Int)⟩, ⟨.fsUmount, (0 : Int)⟩]

theorem lsTrace_path :
    (commands (fun _ => none) .ls [ascii "disk.fs"]).Path lsTrace .returned :=
  .call (.call (.call (.done _)))

theorem mounts_unmounted_iff_ls :
    Unmounts lsTrace ↔
      ∀ before event after, lsTrace = before ++ event :: after →
        losesMount .ls event = true → Unmounts before :=
  mounts_unmounted_iff .ls (fun _ => none) [ascii "disk.fs"] lsTrace_path

def emptyCatTrace : List DriverEvent :=
  [⟨.fsMount (ascii "disk.fs"), (0 : Int)⟩, ⟨.fsOpen (some (ascii "empty")), (0 : Int)⟩,
    ⟨.fsStat 0, (0 : Int)⟩]

theorem mounts_unmounted_refuted :
    ¬ ∀ (name : DriverName) (unset : CommandArgs) (argv : List (List UInt8))
      (trace : List DriverEvent) (ending : Ending),
      (commands unset name argv).Path trace ending → Unmounts trace := by
  intro hunmounts
  have hpath : (commands (fun _ => none) .cat [ascii "disk.fs", ascii "empty"]).Path
      emptyCatTrace .returned := .call (.call (.call (.done _)))
  obtain ⟨result, hmem⟩ := hunmounts _ _ _ _ _ hpath [] _ _ rfl
  simp at hmem

end LibFs
