import LibFs.Apps.Commands

/-! How the drivers fare with the library as it is. A file that has just been created cannot
be opened, and one that can be opened has no size. -/
namespace LibFs

open LibFs.Foundation Driver

variable {argv : List (List UInt8)}

def Closes (name : DriverName) (s : State L N) (ending : Ending) : Prop :=
  ending = .returned → (s.device.disk.fd = none ↔ name ≠ .cat)

theorem closes_died (name : DriverName) (s : State L N) : Closes name s .died := by
  simp [Closes]

section Contracts

variable {s : State L N}

theorem closes_closed {name : DriverName} (hname : name ≠ .cat) (s : State L N)
    (hclosed : s.device.disk.fd = none) : Closes name s .returned :=
  fun _ => ⟨fun _ => hname, fun _ => hclosed⟩

variable (hfits : s.fdOpenCount ≤ N)
include hfits

theorem keeps_print {name : DriverName} {print : DriverCall} (hname : name ≠ .cat)
    (hprint : print.InSession) (hsound : ∀ t : State L N, Ready t → Sound argv t print) :
    (printDriver print argv).Meets (Sound argv) (Closes name) s := by
  unfold printDriver
  split
  · refine keeps_mount hfits (closes_died name) fun mounted h => ?_
    refine keeps_session hprint h (hsound mounted h) fun _ printed h _ => ?_
    exact keeps_umountAndReturn h (closes_died name) (closes_closed hname)
  · exact closes_died name s

theorem keeps_rm : (threadFsRm argv).Meets (Sound argv) (Closes .rm) s := by
  unfold threadFsRm
  split
  · refine keeps_mount hfits (closes_died .rm) fun mounted h => ?_
    refine keeps_session trivial h (sound_delete _) fun failed deleted h _ => ?_
    refine Program.meets_ite (fun _ => keeps_umountAndDie h (closes_died .rm)) fun _ => ?_
    exact keeps_umountAndReturn h (closes_died .rm) (closes_closed nofun)
  · exact closes_died .rm s

/-- `thread_fs_add` dies: its `fs_open` refuses the name its `fs_create` has just put into
the directory. -/
theorem keeps_add :
    (threadFsAdd argv).Meets (Sound argv) (fun _ ending => ending = .died) s := by
  unfold threadFsAdd
  split
  · rename_i diskname filename rest
    have hmem : filename ∈ diskname :: filename :: rest := by simp
    refine keeps_host trivial fun fd => Program.meets_ite (fun _ => rfl) fun _ => ?_
    refine keeps_host trivial fun st => Program.meets_ite (fun _ => rfl) fun _ => ?_
    refine Program.meets_ite (fun _ => rfl) fun _ => ?_
    refine keeps_host trivial fun buf => Program.meets_ite (fun _ => rfl) fun _ => ?_
    refine keeps_mount hfits (fun _ => rfl) fun mounted h => ?_
    refine keeps_session trivial h (h.sound trivial ⟨_, hmem, rfl⟩)
      fun failed created h' hcreate => ?_
    refine Program.meets_ite (fun _ => keeps_umountAndDie h' fun _ => rfl) fun hzero => ?_
    obtain ⟨fs, i, hlive, hname⟩ := served_create h.session hcreate (not_not.mp hzero)
    refine keeps_session trivial h' (h'.sound trivial ⟨_, hmem, rfl⟩)
      fun fsFd refused h'' hopen => ?_
    have hrefused : (fsFd : Int) = -1 := served_open_taken hopen hlive hname
    refine Program.meets_ite (fun _ => keeps_umountAndDie h'' fun _ => rfl) fun hopened => ?_
    have hnegative : (-1 : Int) < 0 := by decide
    exact absurd (hrefused.trans_lt hnegative) hopened
  · exact rfl

omit hfits in
theorem add_risks_nothing :
    (threadFsAdd argv).Meets (fun _ k => ¬ k.Risky) (fun _ _ => True) s := by
  have hdies (t : State L N) :
      umountAndDie.Meets (fun _ k => ¬ k.Risky) (fun _ _ => True) t :=
    ⟨nofun, fun _ _ _ => trivial⟩
  unfold threadFsAdd
  split
  · refine ⟨nofun, fun fd t _ => Program.meets_ite (fun _ => trivial) fun _ => ?_⟩
    refine ⟨nofun, fun st t _ => Program.meets_ite (fun _ => trivial) fun _ => ?_⟩
    refine Program.meets_ite (fun _ => trivial) fun _ => ?_
    refine ⟨nofun, fun buf t _ => Program.meets_ite (fun _ => trivial) fun _ => ?_⟩
    refine ⟨nofun, fun failed t _ => Program.meets_ite (fun _ => trivial) fun _ => ?_⟩
    refine ⟨nofun, fun failed t _ => Program.meets_ite (fun _ => hdies t) fun _ => ?_⟩
    refine ⟨nofun, fun fsFd t _ => Program.meets_ite (fun _ => hdies t) fun _ => ?_⟩
    refine ⟨nofun, fun count t _ => ⟨nofun, fun failed t _ => ?_⟩⟩
    refine Program.meets_ite (fun _ => hdies t) fun _ => ?_
    exact ⟨nofun, fun _ _ _ => Program.meets_ite (fun _ => trivial) fun _ => trivial⟩
  · trivial

theorem keeps_cat : (threadFsCat argv).Meets (Sound argv) (Closes .cat) s := by
  unfold threadFsCat
  split
  · rename_i diskname filename rest
    have hmem : filename ∈ diskname :: filename :: rest := by simp
    refine keeps_mount hfits (closes_died .cat) fun mounted h => ?_
    refine keeps_session trivial h (h.sound trivial ⟨_, hmem, rfl⟩) fun fsFd opened h hopen => ?_
    refine Program.meets_ite (fun _ => keeps_umountAndDie h (closes_died .cat)) fun hfd => ?_
    have hempty (stat : Int) (next : State L N)
        (hserves : Serves opened ⟨.fsStat fsFd, stat⟩ next) : stat = 0 :=
      served_open_stat hopen hfd hserves
    refine keeps_session trivial h (h.sound_stat hempty) fun stat after h hstat => ?_
    have hzero : (stat : Int) = 0 := hempty stat after hstat
    refine Program.meets_ite (fun _ => keeps_umountAndDie h (closes_died .cat)) fun _ => ?_
    refine Program.meets_ite (fun _ => ?_) fun hsize => absurd hzero hsize
    have hopen : after.device.disk.fd ≠ none := Option.isSome_iff_ne_none.mp h.session.diskOpen
    exact fun _ => ⟨fun hclosed => absurd hclosed hopen, fun hcat => absurd rfl hcat⟩
  · exact closes_died .cat s

theorem keeps_stat : (threadFsStat argv).Meets (Sound argv) (Closes .stat) s := by
  unfold threadFsStat
  split
  · rename_i diskname filename rest
    have hmem : filename ∈ diskname :: filename :: rest := by simp
    have hdied := closes_died (L := L) (N := N) .stat
    refine keeps_mount hfits hdied fun mounted h => ?_
    refine keeps_session trivial h (h.sound trivial ⟨_, hmem, rfl⟩) fun fsFd opened h hopen => ?_
    refine Program.meets_ite (fun _ => keeps_umountAndDie h hdied) fun hfd => ?_
    have hempty (stat : Int) (next : State L N)
        (hserves : Serves opened ⟨.fsStat fsFd, stat⟩ next) : stat = 0 :=
      served_open_stat hopen hfd hserves
    refine keeps_session trivial h (h.sound_stat hempty) fun stat after h hstat => ?_
    have hzero : (stat : Int) = 0 := hempty stat after hstat
    refine Program.meets_ite (fun hneg => ?_) fun _ => ?_
    · exact absurd hneg hzero.not_lt
    refine Program.meets_ite (fun _ => ?_) fun hsize => absurd hzero hsize
    refine keeps_session trivial h (h.sound trivial trivial) fun _ closed h _ => ?_
    exact ⟨h.sound_umount, fun _ after hserves =>
      closes_closed (nofun : DriverName.stat ≠ .cat) after (h.session.umount hserves).2⟩
  · exact closes_died .stat s

end Contracts

/-! The script runner, whatever the script. -/

def UmountsSafely (s : State L N) (k : DriverCall) : Prop :=
  k = .fsUmount → InSession s ∨ s.device.disk.fd = none

/-- The variable `mounted` of the runner agrees with the library. -/
def MountedIs (s : State L N) : Bool → Prop
  | true => InSession s
  | false => s.device.disk.fd = none

theorem MountedIs.served {s after : State L N} {mounted : Bool} {event : DriverEvent}
    (h : MountedIs s mounted) (hcall : event.1.InSession) (hserves : Serves s event after) :
    MountedIs after mounted := by
  cases mounted with
  | true =>
      rcases hserves.step with rfl | ⟨call, ret, hreaches, hstep⟩
      · exact h
      · exact InSession.step h (hreaches.inSession hcall) hstep
  | false =>
      unfold MountedIs at h ⊢
      rw [served_device hcall hserves]
      exact h

theorem MountedIs.umounts {s : State L N} {mounted : Bool} (h : MountedIs s mounted)
    (k : DriverCall) : UmountsSafely s k := by
  intro _
  cases mounted with
  | true => exact Or.inl h
  | false => exact Or.inr h

theorem closes_crashed (name : DriverName) (s : State L N) : Closes name s .crashed := by
  simp [Closes]

theorem script_closes {s : State L N} {mounted : Bool} (h : MountedIs s mounted)
    (diskname : List UInt8) (commands : List CommandArgs) (fsFd : Int) :
    (scriptLoop diskname commands mounted fsFd).Meets UmountsSafely (Closes .script) s := by
  have hdied := closes_died (L := L) (N := N) .script
  have hreturned := closes_closed (L := L) (N := N) (nofun : DriverName.script ≠ .cat)
  induction commands generalizing s mounted fsFd with
  | nil =>
      cases mounted with
      | true =>
          refine ⟨h.umounts _, fun failed after hserves => ?_⟩
          refine Program.meets_ite (fun _ => hdied after) fun _ => ?_
          exact hreturned after (InSession.umount h hserves).2
      | false => exact hreturned s h
  | cons args rest ih =>
      refine meets_command (I := fun s => MountedIs s mounted) h (fun _ => ?_) (fun _ => ?_)
        (fun _ => ?_) (fun _ fd after _ _ hafter => ih hafter fd)
        fun _ after hafter => ih hafter fsFd
      · refine meets_mount hdied (h.umounts _) fun after hserves => ?_
        have hmounted : MountedIs after true := (served_mount hserves).2.1
        exact ih hmounted fsFd
      · refine meets_umount hdied (fun _ => h.umounts _) (fun hon ret after hserves => ?_)
          fun hoff => ?_
        · rw [hon] at h
          have hclosed : MountedIs after false := (InSession.umount h hserves).2
          exact ih hclosed fsFd
        · exact ih (hoff ▸ h) fsFd
      · exact commandRule_of_invariant hdied (closes_crashed .script)
          (fun k s hs => hs.umounts k) fun k hk s answer after hs => hs.served hk.inSession

theorem script_ends {s : State L N} (hclosed : s.device.disk.fd = none) (unset : CommandArgs) :
    (threadFsScript unset argv).Meets UmountsSafely (Closes .script) s := by
  unfold threadFsScript
  split
  · refine ⟨nofun, fun fdScript after hserves => ?_⟩
    have hunmounted : MountedIs after false := by
      unfold MountedIs
      rwa [served_host (k := .fopen _) trivial hserves]
    cases fdScript with
    | none => exact closes_died .script after
    | some stream => exact script_closes hunmounted _ _ _
  · exact closes_died .script s

/-! From the start of a process. -/

section Commands

variable (host : Host) {unset : CommandArgs} {name : DriverName}

theorem command_sound (hname : name ≠ .script) :
    (commands unset name argv).Meets (Sound argv) (Closes name)
      (State.initial host : State L N) := by
  have hcount : (State.initial host : State L N).fdOpenCount ≤ N := Nat.zero_le N
  cases name with
  | info => exact keeps_print hcount nofun trivial fun _ _ => sound_info
  | ls => exact keeps_print hcount nofun trivial fun _ h => h.sound trivial trivial
  | add =>
      refine (keeps_add hcount).mono (fun _ _ hsound => hsound) ?_
      rintro after ending rfl
      exact closes_died .add after
  | rm => exact keeps_rm hcount
  | cat => exact keeps_cat hcount
  | stat => exact keeps_stat hcount
  | script => exact absurd rfl hname

theorem command_closes : (commands unset name argv).Meets UmountsSafely (Closes name)
    (State.initial host : State L N) := by
  by_cases hname : name = .script
  · subst hname
    exact script_ends rfl unset
  · exact (command_sound host hname).mono
      (fun _ _ hsound humount => Or.inl (hsound.unmounts humount)) fun _ _ hcloses => hcloses

end Commands

end LibFs
