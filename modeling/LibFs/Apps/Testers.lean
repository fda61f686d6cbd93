import LibFs.Apps.Served
import LibFs.Apps.Unmounting

/-! The three small test programs. None of them gets to an `fs_umount`, so none writes. -/
namespace LibFs

open LibFs.Foundation Driver

section Unwritten

variable {s t : State L N} {event : DriverEvent} {image : List UInt8 → Image}

theorem served_image (hcall : event.1 ≠ .fsUmount) (hserves : Serves s event t) :
    t.device.host.image = s.device.host.image := by
  obtain ⟨k, answer⟩ := event
  rcases k.kinds with ⟨diskname, rfl⟩ | rfl | hsession
  · obtain ⟨call, hreaches, hstep⟩ := hserves
    cases call with
    | fsMount req => exact fsMount_image (Except.ok.inj hstep)
    | _ => exact hreaches.elim
  · exact absurd rfl hcall
  · rw [served_device hsession hserves]

abbrev Driver.Unwritten (image : List UInt8 → Image) (s : State L N) (driver : Driver) : Prop :=
  driver.Meets (fun s k => s.device.host.image = image ∧ k ≠ .fsUmount)
    (fun s ending => s.device.host.image = image ∧ ending ≠ .returned) s

theorem unwritten_call {k : DriverCall} {next : k.Answer → Driver}
    (himage : s.device.host.image = image) (hk : k ≠ .fsUmount)
    (hnext : ∀ answer (after : State L N), Serves s ⟨k, answer⟩ after →
      after.device.host.image = image → (next answer).Unwritten image after) :
    Driver.Unwritten image s (.call k next) :=
  ⟨⟨himage, hk⟩, fun answer after hserves =>
    hnext answer after hserves ((served_image hk hserves).trans himage)⟩

theorem unwritten_assert {cond : Bool} {next : Driver} (himage : s.device.host.image = image)
    (hnext : cond = true → next.Unwritten image s) : (assert cond next).Unwritten image s :=
  Program.meets_ite (fun _ => ⟨himage, nofun⟩) fun hcond => hnext (by simpa using hcond)

theorem unwritten_crashed (himage : s.device.host.image = image) :
    crashed.Unwritten image s :=
  unwritten_call himage nofun fun _ _ _ hafter => ⟨hafter, nofun⟩

theorem unwritten_writer (argv : List (List UInt8)) (himage : s.device.host.image = image) :
    (simpleWriter argv).Unwritten image s := by
  unfold simpleWriter
  split
  · refine unwritten_call himage nofun fun ret mounted hmount himage => ?_
    refine unwritten_assert himage fun hret => ?_
    have hzero : (ret : Int) = 0 := eq_of_beq hret
    rw [hzero] at hmount
    have hdisk := (served_mount hmount).2.1
    refine unwritten_call himage nofun fun ret created hcreate himage => ?_
    refine unwritten_assert himage fun hret => ?_
    obtain ⟨fs, i, hlive, hname⟩ := served_create hdisk hcreate (eq_of_beq hret)
    refine unwritten_call himage nofun fun fd opened hopen himage => ?_
    refine unwritten_assert himage fun hfd => ?_
    have hrefused : (fd : Int) = -1 := served_open_taken hopen hlive hname
    rw [hrefused] at hfd
    contradiction
  · exact unwritten_crashed himage

theorem unwritten_reader (sameData : Bool) (argv : List (List UInt8))
    (himage : s.device.host.image = image) : (simpleReader sameData argv).Unwritten image s := by
  unfold simpleReader
  split
  · refine unwritten_call himage nofun fun ret mounted _ himage => ?_
    refine unwritten_assert himage fun _ => ?_
    refine unwritten_call himage nofun fun fd opened _ himage => ?_
    refine unwritten_assert himage fun _ => ?_
    refine unwritten_call himage nofun fun _ sought _ himage => ?_
    refine unwritten_call himage nofun fun ret _ hread himage => ?_
    refine unwritten_assert himage fun hret => ?_
    have hzero : (0 : Int) = ret := (Prod.mk.inj hread).1
    rw [← hzero] at hret
    contradiction
  · exact unwritten_crashed himage

/-- Neither tester ever reports success, from whatever state and on whatever disk, and neither
has changed a file of the host when it stops. -/
theorem simple_testers_fail {driver rest : Driver} {argv : List (List UInt8)}
    {trace : List DriverEvent}
    (hdriver : driver = simpleWriter argv ∨ ∃ sameData, driver = simpleReader sameData argv)
    (hexec : DriverExec s driver trace t rest) :
    rest ≠ returned ∧ t.device.host.image = s.device.host.image := by
  have hmeets : driver.Unwritten s.device.host.image s := by
    rcases hdriver with rfl | ⟨sameData, rfl⟩
    · exact unwritten_writer argv rfl
    · exact unwritten_reader sameData argv rfl
  have hrest := hexec.meets hmeets
  cases rest with
  | done ending =>
      refine ⟨?_, hrest.1⟩
      rintro ⟨⟩
      exact hrest.2 rfl
  | call k next => exact ⟨nofun, hrest.1.1⟩

end Unwritten

def myfileName : CStr := ⟨myfile, by decide⟩

/-- What the writer has created is not opened. -/
theorem simple_testers_fail_writer : ∃ s : State .packed 32,
    DriverExec freshStart (simpleWriter [diskD.bytes])
      [⟨.fsMount diskD.bytes, (0 : Int)⟩, ⟨.fsCreate (some myfile), (0 : Int)⟩,
        ⟨.fsOpen (some myfile), (-1 : Int)⟩] s die ∧
    die ≠ returned ∧ s.device.host.image = freshStart.device.host.image := by
  obtain ⟨s, hmount⟩ := freshMount_returns
  obtain ⟨created, _, hcreate, hopen⟩ :=
    served_created hmount myfileName (by decide) (by decide)
  have hexec : DriverExec freshStart (simpleWriter [diskD.bytes])
      [⟨.fsMount diskD.bytes, (0 : Int)⟩, ⟨.fsCreate (some myfile), (0 : Int)⟩,
        ⟨.fsOpen (some myfile), (-1 : Int)⟩] created die :=
    .call (served_freshMount hmount) (.call hcreate (.call hopen .here))
  exact ⟨created, hexec, simple_testers_fail (.inl rfl) hexec⟩

/-! A program that never unmounts. -/

section Mounts

variable {s t : State L N} {driver rest : Driver} {trace : List DriverEvent}

theorem mounts_at_most_once (hexec : DriverExec s driver trace t rest)
    (hnone : ∀ event ∈ trace, event.1 ≠ .fsUmount) :
    trace.countP mounts ≤ if s.device.disk.fd.isSome then 0 else 1 := by
  induction hexec with
  | here => simp
  | @call s middle _ k _ answer _ _ hserves _ ih =>
      obtain ⟨hcall, hnone⟩ := List.forall_mem_cons.mp hnone
      have hrest := ih hnone
      rw [List.countP_cons]
      rcases k.kinds with ⟨diskname, rfl⟩ | rfl | hsession
      · by_cases hzero : (answer : Int) = 0
        · have hmount : Serves s ⟨.fsMount diskname, (0 : Int)⟩ middle := hzero ▸ hserves
          obtain ⟨hclosed, hdisk, _⟩ := served_mount hmount
          rw [if_pos hdisk.diskOpen] at hrest
          simpa [hclosed, mounts, hzero] using hrest
        · have hquiet : mounts ⟨.fsMount diskname, answer⟩ = false := decide_eq_false hzero
          rw [hquiet]
          by_cases hopen : s.device.disk.fd.isSome
          · rw [served_mount_open hopen hserves] at hrest
            simpa using hrest
          · rw [if_neg hopen]
            exact hrest.trans (by split <;> simp)
      · exact absurd rfl hcall
      · have hquiet : mounts ⟨k, answer⟩ = false := by
          cases k <;> first | exact hsession.elim | rfl
        rw [served_device hsession hserves] at hrest
        simpa [hquiet] using hrest

theorem image_kept (hexec : DriverExec s driver trace t rest)
    (hnone : ∀ event ∈ trace, event.1 ≠ .fsUmount) :
    t.device.host.image = s.device.host.image := by
  induction hexec with
  | here => rfl
  | call hserves _ ih =>
      obtain ⟨hcall, hnone⟩ := List.forall_mem_cons.mp hnone
      exact (ih hnone).trans (served_image hcall hserves)

end Mounts

theorem mountTester_mounts : mountTester.Meets (fun (_ : State L N) k => k ≠ .fsUmount)
    (fun _ _ => True) s :=
  ⟨nofun, fun _ _ _ => ⟨nofun, fun _ _ _ => ⟨nofun, fun _ _ _ => trivial⟩⟩⟩

/-- `mount_tester` reports at most one success, whatever the disks hold, and writes nothing. -/
theorem mount_tester_once {s t : State L N} {rest : Driver} {trace : List DriverEvent}
    (hexec : DriverExec s mountTester trace t rest) :
    trace.countP mounts ≤ 1 ∧ t.device.host.image = s.device.host.image := by
  have hnone (event : DriverEvent) (hmem : event ∈ trace) : event.1 ≠ .fsUmount := by
    obtain ⟨_, _, hcall, _⟩ := hexec.guarded mountTester_mounts event hmem
    exact hcall
  exact ⟨(mounts_at_most_once hexec hnone).trans (by split <;> simp), image_kept hexec hnone⟩

/-! `mount_tester` next to a disk that is named as its first one. -/

def testerHost : Host where
  image _ :=
    { size := 4 * blockSize
      byte := fun p => if p < 7 then (ascii "disk.fs").getD p 0 else (sampleSuper 4 0).raw p
      sizeFits := by decide }
  fds _ := none

def testerStart : State .packed 32 := .initial testerHost

def mountNamed (diskname : CStr) : MountRequest .packed := { freshMount with diskname := diskname }

def testerEvents : List DriverEvent :=
  [⟨.fsMount (ascii "disk.fs"), (0 : Int)⟩, ⟨.fsMount (ascii "disk"), (-1 : Int)⟩,
    ⟨.fsMount (ascii "dk.fs"), (-1 : Int)⟩]

theorem testerStart_mounts :
    ∃ s, fsMount (mountNamed ⟨ascii "disk.fs", by decide⟩) testerStart = (0, s) :=
  ⟨_, fsMount_returns _ testerStart (by decide) rfl (by decide)⟩

theorem tester_exec : ∃ t : State .packed 32,
    DriverExec testerStart mountTester testerEvents t returned := by
  obtain ⟨s, hmount⟩ := testerStart_mounts
  have hfirst : Serves testerStart ⟨.fsMount (ascii "disk.fs"), (0 : Int)⟩ s :=
    ⟨.fsMount (mountNamed ⟨ascii "disk.fs", by decide⟩), rfl, (congrArg Except.ok hmount :)⟩
  have hopen := (inSession_of_mount hmount).diskOpen
  have hrefused (diskname : CStr) : Serves s ⟨.fsMount diskname.bytes, (-1 : Int)⟩ s :=
    ⟨.fsMount (mountNamed diskname), rfl, congrArg Except.ok (fsMount_open _ hopen)⟩
  exact ⟨s, .call hfirst (.call (hrefused ⟨ascii "disk", by decide⟩)
    (.call (hrefused ⟨ascii "dk.fs", by decide⟩) .here))⟩

theorem mount_tester_once_first : ∃ t : State .packed 32,
    DriverExec testerStart mountTester testerEvents t returned ∧
      testerEvents.countP mounts ≤ 1 ∧ t.device.host.image = testerStart.device.host.image := by
  obtain ⟨t, hexec⟩ := tester_exec
  exact ⟨t, hexec, mount_tester_once hexec⟩

end LibFs
