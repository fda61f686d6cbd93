import LibFs.Apps.Outcomes
import LibFs.Mounting.Metadata

/-! `test_fs` from `main` on, in a process that has done nothing before, against the library as
it is. -/
namespace LibFs

open LibFs.Foundation Driver

theorem commandNames_cat : ∀ command ∈ commandNames,
    (command.2 = .cat ↔ command.1 = ascii "cat") := by
  simp [commandNames, ascii]

theorem commandNames_add : ∀ command ∈ commandNames,
    (command.2 = .add ↔ command.1 = ascii "add") := by
  simp [commandNames, ascii]

theorem commandNames_script : ∀ command ∈ commandNames,
    (command.2 = .script ↔ command.1 = ascii "script") := by
  simp [commandNames, ascii]

section Main

variable {serves : State L N → DriverEvent → State L N → Prop}
  {guard : State L N → DriverCall → Prop} {P : State L N → Ending → Prop} {s : State L N}
  {unset : CommandArgs} {argv : List (List UInt8)}

/-- `main` runs the command its first argument names, or `usage`, which exits. -/
theorem testFs_meets (husage : P s .died)
    (hcommand : ∀ cmd name args, argv = cmd :: args → (cmd, name) ∈ commandNames →
      Program.Meets serves guard P s (commands unset name args)) :
    Program.Meets serves guard P s (testFs unset argv) := by
  cases argv with
  | nil => exact husage
  | cons cmd args =>
      simp only [testFs]
      split
      · rename_i command hfind
        have hname : command.1 = cmd := by simpa using List.find?_some hfind
        have hmem := List.mem_of_find?_eq_some hfind
        exact hcommand cmd command.2 args rfl (hname ▸ hmem)
      · exact husage

theorem Sound.cons {k : DriverCall} {cmd : List UInt8} (h : Sound argv s k) :
    Sound (cmd :: argv) s k where
  returns hshort := h.returns fun arg hmem => hshort arg (List.mem_cons_of_mem cmd hmem)
  noRead := h.noRead
  noWrite := h.noWrite
  sizes := h.sizes
  unmounts := h.unmounts

end Main

section Runs

variable {host : Host} {unset : CommandArgs} {argv : List (List UInt8)} {trace : List DriverEvent}
  {t : State L N}

theorem testFs_sound (hcmd : argv.head? ≠ some (ascii "script")) :
    (testFs unset argv).Meets (Sound argv) (fun _ _ => True)
      (State.initial host : State L N) := by
  refine testFs_meets trivial fun cmd name args hargv hmem => ?_
  subst hargv
  have hname : name ≠ .script := fun hscript =>
    hcmd (congrArg some ((commandNames_script _ hmem).mp hscript))
  exact (command_sound host hname).mono (fun _ _ hsound => hsound.cons) fun _ _ _ => trivial

/-- A command that returns to `main` has left no disk open, except that `cat` always leaves
one open. -/
theorem returned_closed_iff
    (hexec : DriverExec (State.initial host) (testFs unset argv) trace t (.done .returned)) :
    t.device.disk.fd = none ↔ argv.head? ≠ some (ascii "cat") := by
  have hmain : (testFs unset argv).Meets (fun _ _ => True)
      (fun s ending => ending = .returned →
        (s.device.disk.fd = none ↔ argv.head? ≠ some (ascii "cat")))
      (State.initial host : State L N) := by
    refine testFs_meets nofun fun cmd name args hargv hmem => ?_
    refine (command_closes host).mono (fun _ _ _ => trivial) fun s ending hcloses hreturned => ?_
    rw [hcloses hreturned, hargv, List.head?_cons, ne_eq, ne_eq, Option.some.injEq,
      ← commandNames_cat _ hmem]
  exact hexec.meets hmain rfl

/-- Whatever the disk and the host, the only calls of a command line without a script that may
not return are the `fs_delete` of `rm` and the `fs_info` of `info`. -/
theorem only_risky_stop {k : DriverCall} {next : k.Answer → Driver}
    (hcmd : argv.head? ≠ some (ascii "script")) (hshort : ∀ arg ∈ argv, arg.length < 2 ^ 32)
    (hexec : DriverExec (State.initial host) (testFs unset argv) trace t (.call k next)) :
    Returns t k ∨ k.Risky := by
  have hsound : Sound argv t k := (hexec.meets (testFs_sound hcmd)).1
  by_cases hrisky : k.Risky
  · exact Or.inr hrisky
  · exact Or.inl (hsound.returns hshort hrisky)

/-- No command line without a script gets to `fs_read` or `fs_write` or sees a file that is not
empty. -/
theorem no_data_moved {rest : Driver} (hcmd : argv.head? ≠ some (ascii "script"))
    (hexec : DriverExec (State.initial host) (testFs unset argv) trace t rest) :
    (∀ fd count result, ⟨.fsRead fd count, result⟩ ∉ trace ∧ ⟨.fsWrite fd count, result⟩ ∉ trace) ∧
      (∀ fd stat, ⟨.fsStat fd, stat⟩ ∈ trace → stat = 0) ∧
      ∀ result, ⟨.fsUmount, result⟩ ∈ trace → result = 0 := by
  have hguarded := hexec.guarded (testFs_sound hcmd)
  refine ⟨fun fd count result => ⟨fun hmem => ?_, fun hmem => ?_⟩, fun fd stat hmem => ?_,
    fun result hmem => ?_⟩
  · obtain ⟨_, _, hsound, _⟩ := hguarded _ hmem
    exact hsound.noRead fd count rfl
  · obtain ⟨_, _, hsound, _⟩ := hguarded _ hmem
    exact hsound.noWrite fd count rfl
  · obtain ⟨_, after, hsound, hserves⟩ := hguarded _ hmem
    exact hsound.sizes fd stat after rfl hserves
  · obtain ⟨_, after, hsound, hserves⟩ := hguarded _ hmem
    exact ((hsound.unmounts rfl).umount hserves).1

/-- Wherever `add` has got to, it has exited with an error or is at a call that returns: it never
reports success, on any disk and for any file. -/
theorem add_dies {rest : Driver} (hshort : ∀ arg ∈ argv, arg.length < 2 ^ 32)
    (hexec : DriverExec (State.initial host) (testFs unset (ascii "add" :: argv)) trace t rest) :
    rest = die ∨ ∃ (k : DriverCall) (next : k.Answer → Driver),
      rest = .call k next ∧ Returns t k := by
  have hmain {guard : State L N → DriverCall → Prop} {P : State L N → Ending → Prop}
      (husage : P (State.initial host) .died)
      (hadd : (threadFsAdd argv).Meets guard P (State.initial host)) :
      (testFs unset (ascii "add" :: argv)).Meets guard P (State.initial host) := by
    refine testFs_meets husage fun cmd name args hargv hmem => ?_
    obtain ⟨rfl, rfl⟩ := List.cons.inj hargv
    have hname : name = .add := (commandNames_add _ hmem).mpr rfl
    subst hname
    exact hadd
  have hsound := hexec.meets (hmain rfl (keeps_add (Nat.zero_le N)))
  have hkept := hexec.meets (hmain trivial add_risks_nothing)
  cases rest with
  | done ending => exact Or.inl (congrArg Program.done hsound)
  | call k next => exact Or.inr ⟨k, next, rfl, hsound.1.returns hshort hkept.1⟩

theorem served_keepsData {path : List UInt8} {s after : State L N} {event : DriverEvent}
    (h : Anchored s ∧ KeepsData host path s) (hsafe : UmountsSafely s event.1)
    (hserves : Serves s event after) : Anchored after ∧ KeepsData host path after := by
  obtain ⟨hanchored, hkept⟩ := h
  rcases hserves.step with rfl | ⟨call, ret, hreaches, hstep⟩
  · exact ⟨hanchored, hkept⟩
  · refine ⟨hanchored.step hstep, hkept.step hanchored ?_ hstep⟩
    rintro io rfl
    obtain ⟨k, answer⟩ := event
    have hk : k = .fsUmount := by
      cases k <;> first | rfl | exact hreaches.elim
    rcases hsafe hk with hsession | hclosed
    · exact hsession
    -- with no disk open there is no object, and the call does not return
    · obtain ⟨fs, hlive, _⟩ := fsUnmount_cases hstep
      cases hanchored with
      | detached _ hnone => exact absurd hlive (hnone fs)
      | attached path' hattached =>
          obtain ⟨fd, _, hfd, _⟩ := hattached.serves.1
          simp [hclosed] at hfd

/-- Between any two of its calls `test_fs` can be stopped, in the middle of a script as well:
where the block count fits into an `int`, no file of the host has lost its superblock or data. -/
theorem test_fs_keeps_data {rest : Driver}
    (hexec : DriverExec (State.initial host) (testFs unset argv) trace t rest)
    (path : List UInt8) :
    (t.device.host.image path).size = (host.image path).size ∧
      ((host.image path).size / blockSize < 2 ^ 31 →
        ∀ b, b = superblockIndex ∨ fatBlocksFor ((host.image path).size / blockSize) + 1 < b →
          ∀ p < blockSize, t.device.host.block path b p = host.block path b p) := by
  have hmain : (testFs unset argv).Meets UmountsSafely (fun _ _ => True)
      (State.initial host : State L N) :=
    testFs_meets trivial fun _ _ _ _ _ =>
      (command_closes host).mono (fun _ _ hsafe => hsafe) fun _ _ _ => trivial
  have hkept := (hexec.kept (I := fun s => Anchored s ∧ KeepsData host path s) hmain
    ⟨anchored_initial host, keepsData_initial⟩ fun _ _ _ h hsafe hserves =>
      served_keepsData h hsafe hserves).2
  exact ⟨hkept.size, fun hfits b hb p hp => hkept.outside hfits hb hp⟩

end Runs

/-! `stat` and `add` on the sample disk. -/

def statLine : List (List UInt8) := [ascii "stat", diskD.bytes, nameA.bytes]

def statEvents : List DriverEvent :=
  [⟨.fsMount diskD.bytes, (0 : Int)⟩, ⟨.fsOpen (some nameA.bytes), (0 : Int)⟩,
    ⟨.fsStat 0, (0 : Int)⟩]

theorem stat_reaches (unset : CommandArgs) : ∃ s : State .packed 32, InSession s ∧
    DriverExec freshStart (testFs unset statLine) statEvents s
      (.call (.fsClose 0) fun _ => .call .fsUmount fun _ => returned) := by
  obtain ⟨s, hmount⟩ := freshMount_returns
  obtain ⟨opened, hsession, hopen, hstat⟩ := served_opened hmount
  exact ⟨opened, hsession, .call (served_freshMount hmount) (.call hopen (.call hstat .here))⟩

theorem stat_returns (unset : CommandArgs) : ∃ (closed : Int) (t : State .packed 32),
    DriverExec freshStart (testFs unset statLine)
      (statEvents ++ [⟨.fsClose 0, closed⟩, ⟨.fsUmount, (0 : Int)⟩]) t (.done .returned) := by
  obtain ⟨s, hsession, hexec⟩ := stat_reaches unset
  obtain ⟨closed, after, hclose⟩ := fsClose_returns 0 s
  have hstep : step (.fsClose 0) s = .ok (closed, after) := hclose
  have hcall : (Call.fsClose 0 : Call .packed).InSession := trivial
  obtain ⟨t, humount⟩ := (hsession.step hcall hstep).served_umount
  have hserves : Serves s ⟨.fsClose 0, (closed : Int)⟩ after := ⟨.fsClose 0, rfl, hstep⟩
  exact ⟨closed, t, hexec.append (.call hserves (.call humount .here))⟩

theorem returned_closed_iff_stat : ∃ t : State .packed 32,
    t.device.disk.fd = none ↔ statLine.head? ≠ some (ascii "cat") := by
  obtain ⟨_, t, hexec⟩ := stat_returns noArgs
  exact ⟨t, returned_closed_iff hexec⟩

theorem only_risky_stop_stat : ∃ s : State .packed 32,
    Returns s (.fsClose 0) ∨ (DriverCall.fsClose 0).Risky := by
  obtain ⟨s, _, hexec⟩ := stat_reaches noArgs
  have hshort : ∀ arg ∈ statLine, arg.length < 2 ^ 32 := by decide
  exact ⟨s, only_risky_stop (by decide) hshort hexec⟩

theorem no_data_moved_stat : ∃ (closed : Int) (t : State .packed 32),
    DriverExec freshStart (testFs noArgs statLine)
      (statEvents ++ [⟨.fsClose 0, closed⟩, ⟨.fsUmount, (0 : Int)⟩]) t (.done .returned) ∧
    ∀ fd stat, ⟨.fsStat fd, stat⟩ ∈
      statEvents ++ [⟨.fsClose 0, closed⟩, ⟨.fsUmount, (0 : Int)⟩] → stat = 0 := by
  obtain ⟨closed, t, hexec⟩ := stat_returns noArgs
  exact ⟨closed, t, hexec, (no_data_moved (by decide) hexec).2.1⟩

theorem test_fs_keeps_data_stat : ∃ t : State .packed 32,
    ∀ b, b = superblockIndex ∨ 1 < b → ∀ p < blockSize,
      t.device.host.block diskD.bytes b p = freshStart.device.host.block diskD.bytes b p := by
  obtain ⟨_, t, hexec⟩ := stat_returns noArgs
  have hkept := (test_fs_keeps_data hexec diskD.bytes).2
  have hblocks : ((sampleHost 4 0 fun _ => 0).image diskD.bytes).size / blockSize = 4 := rfl
  have hfat : fatBlocksFor 4 = 0 := by decide
  rw [hblocks, hfat] at hkept
  exact ⟨t, hkept (by decide)⟩

def addEvents : List DriverEvent :=
  [⟨.openFile (some nameA.bytes), (3 : Int)⟩, ⟨.fstat 3, ⟨false, true, 0⟩⟩, ⟨.mmap 0 3, true⟩,
    ⟨.fsMount diskD.bytes, (0 : Int)⟩, ⟨.fsCreate (some nameA.bytes), (0 : Int)⟩,
    ⟨.fsOpen (some nameA.bytes), (-1 : Int)⟩, ⟨.fsUmount, (0 : Int)⟩]

theorem add_exec (unset : CommandArgs) : ∃ t : State .packed 32,
    DriverExec freshStart (testFs unset [ascii "add", diskD.bytes, nameA.bytes]) addEvents t
      (.done .died) := by
  obtain ⟨s, hmount⟩ := freshMount_returns
  obtain ⟨created, hsession, hcreate, hopen⟩ := served_created hmount nameA (by decide) (by decide)
  obtain ⟨t, humount⟩ := hsession.served_umount
  exact ⟨t, .call rfl (.call rfl (.call rfl (.call (served_freshMount hmount)
    (.call hcreate (.call hopen (.call humount .here))))))⟩

theorem add_dies_exec : ∃ t : State .packed 32,
    DriverExec freshStart (testFs noArgs [ascii "add", diskD.bytes, nameA.bytes]) addEvents t die ∧
    (die = die ∨ ∃ (k : DriverCall) (next : k.Answer → Driver),
      die = .call k next ∧ Returns t k) := by
  obtain ⟨t, hexec⟩ := add_exec noArgs
  exact ⟨t, hexec, add_dies (by decide) hexec⟩

end LibFs
