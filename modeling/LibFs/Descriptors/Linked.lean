import LibFs.Directory.Uniqueness
import LibFs.Descriptors.Allocation

/-! Descriptors refer to files by name. The existence test of `fs_open` refuses the
names that are in the directory, so a descriptor it gives out starts with the name of
no entry, and `fs_stat` on it reaches the section it should not normally reach. -/
namespace LibFs

open LibFs.Foundation

def LinkedToEntry (fd : Int) (s : State L N) : Prop :=
  ∃ fs i, s.fileSystem = .live fs ∧ (fs.rootDir i).live ∧ fs.rootDir.name i = fdName fd s ∧
    (∀ j, (fs.rootDir j).live → fs.rootDir.name j = fdName fd s → j = i) ∧
    fsStat fd s = .ok (fs.rootDir i).fileSize.toInt ∧ statEntry fd fs s ≠ none

def DescriptorsLinked (s : State L N) : Prop :=
  ∀ fd, isValidFD fd s = true → LinkedToEntry fd s

/-- An `fs_open` meets a counter at the end of the table or an entry of its name. -/
def NothingOpened (e : ApiEvent L N) : Prop :=
  ∀ noReturn filename, e.call = .fsOpen noReturn filename → e.before.fdOpenCount = N ∨
    ∃ fs i, e.before.fileSystem = .live fs ∧ fs.rootDir.name i = filename.bytes

def NoneOpen (s : State L N) : Prop :=
  (∃ fs, s.fileSystem = .live fs) ∧ ∀ i, (s.fdTable i).filename.text = []

theorem NoneOpen.linked {s : State L N} (h : NoneOpen s) : DescriptorsLinked s := by
  intro fd hvalid
  obtain ⟨_, i, _, hnamed⟩ := isValidFD_iff.mp hvalid
  exact absurd (h.2 i) hnamed

theorem opened_unlinked {s : State L N} {fs : FsSystem L} {filename : CStr} (i : Fin N)
    (hlive : s.fileSystem = .live fs) (hname : filename.bytes ≠ [])
    (hlength : filename.strlen < fsFilenameLen)
    (hfresh : ∀ j, fs.rootDir.name j ≠ filename.bytes) :
    isValidFD (i : Nat) (s.openFd i filename) = true ∧
      statEntry (i : Nat) fs (s.openFd i filename) = none ∧
      fsStat (i : Nat) (s.openFd i filename) = .ok 0 := by
  have hnamed : fdName (i : Nat) (s.openFd i filename) = filename.bytes := by
    simp [fdName, hlength]
  have hvalid := isValidFD_openFd i hlive hname hlength
  have hstat : statEntry (i : Nat) fs (s.openFd i filename) = none := by
    apply firstSlot_none.mpr
    intro j
    rw [hnamed]
    simpa using (hfresh j).symm
  refine ⟨hvalid, hstat, ?_⟩
  simp [fsStat, hvalid, hlive, hstat]

section Steps

variable {e : ApiEvent L N}

theorem linked_of_nothingOpened (hnone : NoneOpen e.before) (hcall : e.call.OnFiles)
    (hguard : NothingOpened e) (hstep : step e.call e.before = .ok (e.ret, e.after)) :
    NoneOpen e.after ∧ DescriptorsLinked e.after := by
  have hnext : NoneOpen e.after := by
    obtain ⟨⟨fs, hfs⟩, hunnamed⟩ := hnone
    obtain ⟨hlive, heffect⟩ := tableEffect [] hfs hcall.inSession hstep
    cases heffect with
    | opens i hopen hcount hret hname hlength hafter =>
        rw [hopen] at hstep
        have hfailed := (fsOpen_refused hstep (Or.inr (Or.inr (hguard _ _ hopen)))).1
        omega
    | closes i hclose hret hname hafter => exact absurd (hunnamed i) hname
    | keeps hrefused hfds hcount hnames hslots =>
        exact ⟨hlive, fun i => (hnames i).trans (hunnamed i)⟩
  exact ⟨hnext, hnext.linked⟩

theorem nothingOpened_of_linked (hnone : NoneOpen e.before) (hcall : e.call.OnFiles)
    (hlinked : DescriptorsLinked e.after)
    (hstep : step e.call e.before = .ok (e.ret, e.after)) : NothingOpened e := by
  intro noReturn filename hopen
  obtain ⟨⟨fs, hfs⟩, _⟩ := hnone
  rw [hopen] at hstep hcall
  rcases fsOpen_live hfs hstep with
    ⟨_, _, hinvalid | hfull | ⟨i, hi⟩⟩ | ⟨hvalid, hlength, hfresh, i, _, _, hafter⟩
  · rw [hcall.2.2] at hinvalid
    contradiction
  · exact Or.inl hfull
  · exact Or.inr ⟨fs, i, hfs, hi⟩
  · exfalso
    obtain ⟨hfd, hstat, _⟩ := opened_unlinked i hfs (isValidName_ne_nil hvalid) hlength hfresh
    rw [hafter] at hlinked
    obtain ⟨fs', _, hfs', _, _, _, _, hfound⟩ := hlinked i hfd
    have hsame : fs' = fs := by simpa [hfs] using hfs'.symm
    exact hfound (hsame ▸ hstat)

end Steps

/-- From an empty table on, every accepted descriptor is linked to an entry after each
call of a run if and only if no open of the run succeeds. -/
theorem descriptors_linked_throughout_iff {start s : State L N} {past : List (ApiEvent L N)}
    (hlive : ∃ fs, start.fileSystem = .live fs)
    (hempty : ∀ i, (start.fdTable i).filename.text = []) (hrun : ApiRun start past s)
    (hcalls : ∀ e ∈ past, e.call.OnFiles) :
    (∀ e ∈ past, NothingOpened e) ↔ ∀ e ∈ past, DescriptorsLinked e.after := by
  rw [← throughout_forall NothingOpened, ← throughout_forall fun e => DescriptorsLinked e.after]
  exact hrun.guarded_iff_good (I := fun _ s => NoneOpen s) ⟨hlive, hempty⟩
    ((throughout_forall (fun e => e.call.OnFiles) past).mpr hcalls)
    (fun _ _ hnone hcall hguard hstep => linked_of_nothingOpened hnone hcall hguard hstep)
    (fun _ _ hnone hcall hgood hstep => nothingOpened_of_linked hnone hcall hgood hstep)

theorem descriptors_linked_throughout_iff_open :
    (∀ e ∈ [blankOpening], NothingOpened e) ↔ ∀ e ∈ [blankOpening], DescriptorsLinked e.after :=
  descriptors_linked_throughout_iff ⟨_, rfl⟩ (formatted_freshTable blankDir).2 blankOpening_run
    blankOpening_onFiles

/-- Opening "a" on a blank directory succeeds, and no entry is named "a". -/
theorem descriptors_linked_refuted :
    ¬ ∀ (start s : State .packed 32) (fs : FsSystem .packed) (past : List (ApiEvent .packed 32)),
      Mounted start fs → DistinctLive fs.rootDir → FreshTable start → ApiRun start past s →
        (∀ e ∈ past, e.call.OnFiles) → ∀ e ∈ past, DescriptorsLinked e.after := by
  intro hallLinked
  have hlinked := hallLinked _ _ _ _ (formatted_mounted blankDir) blankDir_distinct
    (formatted_freshTable blankDir) blankOpening_run blankOpening_onFiles blankOpening
    (List.mem_singleton_self _)
  obtain ⟨hvalid, hstat, _⟩ := opened_unlinked (s := formattedState blankDir) (0 : Fin 32) rfl
    (by decide) (by decide) blankDir_lacks
  obtain ⟨fs, _, hlive, _, _, _, _, hfound⟩ := hlinked 0 hvalid
  cases hlive
  exact hfound hstat

end LibFs
