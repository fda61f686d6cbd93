import LibFs.Model.Api

/-! Uniqueness of the live names of the directory over runs of `fs_create` and
`fs_delete`. The filling loop of `fs_create` has no `break`: it names every empty
entry, so the law holds exactly as long as at most one entry is empty whenever a
file is really created. -/
namespace LibFs

open LibFs.Foundation

def DistinctLive (dir : RootDir L) : Prop :=
  ∀ i j, (dir i).live → (dir j).live → dir.name i = dir.name j → i = j

def FillsOne (filename : CStr) (dir dir' : RootDir L) : Prop :=
  ∃ i, ¬ (dir i).live ∧ (dir' i).live ∧ dir'.name i = filename.bytes ∧
    (dir' i).fileSize = 0 ∧ (dir' i).fileFirstIndex = fatEOC ∧ ∀ j, j ≠ i → dir' j = dir j

/-- Calls of `fs_create` and `fs_delete` with names of 1 to 15 characters, for
which `isValidName` passes. -/
def NameCall (e : ApiEvent L N) : Prop :=
  match e.call with
  | .fsCreate noReturn filename =>
      1 ≤ filename.strlen ∧ filename.strlen ≤ 15 ∧ isValidName noReturn filename = true
  | .fsDelete _ filename => 1 ≤ filename.strlen ∧ filename.strlen ≤ 15
  | _ => False

def OneFreeEntry (e : ApiEvent L N) : Prop :=
  ∀ noReturn filename fs, e.call = .fsCreate noReturn filename →
    e.before.fileSystem = .live fs → (∀ i, fs.rootDir.name i ≠ filename.bytes) →
      ∀ i j, ¬ (fs.rootDir i).live → ¬ (fs.rootDir j).live → i = j

def NamesKept (e : ApiEvent L N) : Prop :=
  (∃ fs, e.after.fileSystem = .live fs ∧ DistinctLive fs.rootDir) ∧
    ∀ noReturn filename fs fs', e.call = .fsCreate noReturn filename → e.ret = 0 →
      e.before.fileSystem = .live fs → e.after.fileSystem = .live fs' →
        FillsOne filename fs.rootDir fs'.rootDir

theorem DistinctLive.resetAll {dir : RootDir L} (h : DistinctLive dir) (filename : CStr) :
    DistinctLive (resetAll filename dir) := by
  intro i j hi hj hname
  rw [name_resetAll_of_live hi, name_resetAll_of_live hj] at hname
  have hsamei := (resetAll_live hi).1
  have hsamej := (resetAll_live hj).1
  rw [hsamei] at hi
  rw [hsamej] at hj
  exact h i j hi hj hname

section FillAll

variable {filename : CStr} {dir : RootDir L} (hlength : filename.strlen < fsFilenameLen)
include hlength

theorem fillAll_fillsOne (hone : ∀ i j, ¬ (dir i).live → ¬ (dir j).live → i = j)
    (hfree : ∃ i, ¬ (dir i).live) : FillsOne filename dir (fillAll filename dir) := by
  obtain ⟨i, hi⟩ := hfree
  refine ⟨i, hi, fillAll_allLive filename dir i, name_fillAll_of_empty hi hlength, ?_⟩
  rw [fillAll_of_empty hi]
  refine ⟨rfl, rfl, fun j hj => ?_⟩
  apply fillAll_of_live
  by_contra hempty
  exact hj (hone j i hempty hi)

theorem fillAll_name (i : Fin fsFileMaxCount) :
    ((dir i).live ∧ (fillAll filename dir).name i = dir.name i) ∨
      (¬ (dir i).live ∧ (fillAll filename dir).name i = filename.bytes) := by
  by_cases hi : (dir i).live
  · exact Or.inl ⟨hi, name_fillAll_of_live hi⟩
  · exact Or.inr ⟨hi, name_fillAll_of_empty hi hlength⟩

theorem DistinctLive.fillAll (h : DistinctLive dir) (hfresh : ∀ i, dir.name i ≠ filename.bytes)
    (hone : ∀ i j, ¬ (dir i).live → ¬ (dir j).live → i = j) :
    DistinctLive (fillAll filename dir) := by
  intro i j _ _ hname
  rcases fillAll_name hlength i with ⟨hi, hnamei⟩ | ⟨hi, hnamei⟩ <;>
    rcases fillAll_name hlength j with ⟨hj, hnamej⟩ | ⟨hj, hnamej⟩ <;>
      rw [hnamei, hnamej] at hname
  · exact h i j hi hj hname
  · exact absurd hname (hfresh i)
  · exact absurd hname.symm (hfresh j)
  · exact hone i j hi hj

/-- Two empty entries get the same name. -/
theorem fillAll_distinct_only (h : DistinctLive (LibFs.fillAll filename dir)) :
    ∀ i j, ¬ (dir i).live → ¬ (dir j).live → i = j := by
  intro i j hi hj
  have hname : (LibFs.fillAll filename dir).name i = (LibFs.fillAll filename dir).name j :=
    (name_fillAll_of_empty hi hlength).trans (name_fillAll_of_empty hj hlength).symm
  exact h i j (fillAll_allLive filename dir i) (fillAll_allLive filename dir j) hname

end FillAll

def NamesDistinct (s : State L N) : Prop :=
  ∃ fs, s.fileSystem = .live fs ∧ DistinctLive fs.rootDir

theorem namesKept_of_oneFreeEntry {e : ApiEvent L N} (hstate : NamesDistinct e.before)
    (hcall : NameCall e) (hguard : OneFreeEntry e)
    (hstep : step e.call e.before = .ok (e.ret, e.after)) :
    NamesDistinct e.after ∧ NamesKept e := by
  obtain ⟨fs, hlive, hdistinct⟩ := hstate
  obtain ⟨before, call, ret, after⟩ := e
  cases call <;> simp only [NameCall] at hcall
  case fsCreate noReturn filename =>
    rcases fsCreate_live hlive hstep with
      ⟨hret, hsame, _⟩ | ⟨hret, _, hlength, hfresh, hfree, hnext⟩
    · have hafter : after.fileSystem = .live fs :=
        (congrArg State.fileSystem hsame).trans hlive
      refine ⟨⟨fs, hafter, hdistinct⟩, ⟨fs, hafter, hdistinct⟩, ?_⟩
      intro _ _ _ _ _ hzero
      simp only at hret hzero
      omega
    · have hone := hguard noReturn filename fs rfl hlive hfresh
      have hafter : after.fileSystem =
          .live { fs with rootDir := fillAll filename fs.rootDir } :=
        congrArg State.fileSystem hnext
      have hkept := hdistinct.fillAll hlength hfresh hone
      refine ⟨⟨_, hafter, hkept⟩, ⟨_, hafter, hkept⟩, ?_⟩
      intro _ filename' fs₁ fs₂ hsame _ hbefore hlast
      cases hsame
      rw [hlive] at hbefore
      rw [hafter] at hlast
      cases hbefore
      cases hlast
      exact fillAll_fillsOne hlength hone hfree
  case fsDelete unassigned filename =>
    have hdelete : fsDelete unassigned filename before = .ok (ret, after) := hstep
    obtain ⟨deleteFile, pFAT, _, _, _, hnext⟩ := fsDelete_live hlive hdelete
    have hafter : after.fileSystem = .live { fs with
        rootDir := resetAll filename fs.rootDir, fatBlocks := pFAT } :=
      congrArg State.fileSystem hnext
    refine ⟨⟨_, hafter, hdistinct.resetAll filename⟩,
      ⟨_, hafter, hdistinct.resetAll filename⟩, ?_⟩
    intro _ _ _ _ hcreate
    cases hcreate

theorem oneFreeEntry_of_namesKept {e : ApiEvent L N} (hcall : NameCall e) (hkept : NamesKept e)
    (hstep : step e.call e.before = .ok (e.ret, e.after)) : OneFreeEntry e := by
  intro noReturn filename fs hcreate hlive hfresh i j hi hj
  obtain ⟨before, call, ret, after⟩ := e
  subst hcreate
  obtain ⟨fs', hafter, hdistinct⟩ := hkept.1
  rcases fsCreate_live hlive hstep with
    ⟨_, _, hinvalid | ⟨k, hk⟩ | hfull⟩ | ⟨_, _, hlength, _, _, hnext⟩
  · rw [hcall.2.2] at hinvalid
    contradiction
  · exact absurd hk (hfresh k)
  · exact absurd (hfull i) hi
  · rw [hnext] at hafter
    cases hafter
    exact fillAll_distinct_only hlength hdistinct i j hi hj

/-- Over a run of creations and deletions the live names stay distinct, and each
creation fills exactly one entry, if and only if every creation of a name that
is not in the directory meets at most one empty entry. -/
theorem namesKept_throughout_iff {start s : State L N} {fs : FsSystem L}
    {past : List (ApiEvent L N)} (hlive : start.fileSystem = .live fs)
    (hdistinct : DistinctLive fs.rootDir) (hrun : ApiRun start past s)
    (hcalls : ∀ e ∈ past, NameCall e) :
    (∀ e ∈ past, OneFreeEntry e) ↔ ∀ e ∈ past, NamesKept e := by
  rw [← throughout_forall OneFreeEntry, ← throughout_forall NamesKept]
  exact hrun.guarded_iff_good (I := fun _ s => NamesDistinct s) ⟨fs, hlive, hdistinct⟩
    ((throughout_forall NameCall past).mpr hcalls)
    (fun _ _ hinv hcall hguard hstep => namesKept_of_oneFreeEntry hinv hcall hguard hstep)
    (fun _ _ _ hcall hgood hstep => oneFreeEntry_of_namesKept hcall hgood hstep)

def blankCreation : ApiEvent .packed 32 :=
  ⟨formattedState blankDir, .fsCreate true nameA, 0, createdState⟩

theorem blankCreation_run :
    ApiRun (formattedState blankDir) [blankCreation] (createdState : State .packed 32) :=
  .snoc .nil blankDir_create

theorem blankCreation_nameCall : ∀ e ∈ [blankCreation], NameCall e := by
  simp only [List.mem_singleton, forall_eq]
  exact ⟨by decide, by decide, by decide⟩

theorem blankDir_distinct : DistinctLive (blankDir : RootDir L) := by
  intro i j hi
  exact absurd hi (blankDir_empty i)

theorem namesKept_throughout_blank :
    (∀ e ∈ [blankCreation], OneFreeEntry e) ↔ ∀ e ∈ [blankCreation], NamesKept e :=
  namesKept_throughout_iff rfl blankDir_distinct blankCreation_run blankCreation_nameCall

/-- One creation on a blank directory makes 128 live entries of one name. -/
theorem namesKept_refuted :
    ¬ ∀ (start s : State .packed 32) (fs : FsSystem .packed) (past : List (ApiEvent .packed 32)),
      Mounted start fs → DistinctLive fs.rootDir → ApiRun start past s →
        (∀ e ∈ past, NameCall e) → ∀ e ∈ past, NamesKept e := by
  intro hkeeps
  have hkept := hkeeps _ _ _ _ (formatted_mounted blankDir) blankDir_distinct blankCreation_run
    blankCreation_nameCall blankCreation (List.mem_singleton_self _)
  obtain ⟨⟨fs, hafter, hdistinct⟩, _⟩ := hkept
  cases hafter
  have hsame := fillAll_distinct_only (by decide) hdistinct 0 1 (blankDir_empty 0)
    (blankDir_empty 1)
  exact absurd hsame (by decide)

end LibFs
