import LibFs.Directory.Deletion

/-! Creating a deleted name again. The freed entry keeps its name, and the scan of
`fs_create` looks at free entries too, so the name stays taken until another creation
fills the entry. Every creation that fills one entry fills all the free ones. -/
namespace LibFs

open LibFs.Foundation

def OtherName (filename : CStr) (e : ApiEvent L N) : Prop :=
  match e.call with
  | .fsCreate _ other => other.bytes ≠ filename.bytes
  | .fsDelete _ other => other.bytes ≠ filename.bytes
  | _ => False

def CreatesFresh (e : ApiEvent L N) : Prop :=
  ∃ noReturn other fs, e.call = .fsCreate noReturn other ∧ isValidName noReturn other = true ∧
    e.before.fileSystem = .live fs ∧ ∀ i, fs.rootDir.name i ≠ other.bytes

def Recreated (noReturn : Bool) (filename : CStr) (s : State L N) : Prop :=
  ∃ next fs, fsCreate noReturn filename s = .ok (0, next) ∧ next.fileSystem = .live fs ∧
    (∃ i, (fs.rootDir i).live ∧ fs.rootDir.name i = filename.bytes) ∧
    ∀ i, (fs.rootDir i).live → fs.rootDir.name i = filename.bytes →
      (fs.rootDir i).fileSize = 0 ∧ (fs.rootDir i).fileFirstIndex = fatEOC

structure Stale (filename : CStr) (dir : RootDir L) : Prop where
  carried : ∃ i, dir.name i = filename.bytes
  free : ∀ i, dir.name i = filename.bytes → ¬ (dir i).live

/-- What other calls make of a deleted name: it is stale until a creation has filled
the free entries, and then nothing carries it. -/
inductive NameFate (filename : CStr) (past : List (ApiEvent L N)) (s : State L N) : Prop where
  | stale {fs : FsSystem L} : s.fileSystem = .live fs → (∀ e ∈ past, ¬ CreatesFresh e) →
      Stale filename fs.rootDir → NameFate filename past s
  | gone {fs : FsSystem L} : s.fileSystem = .live fs → (∃ e ∈ past, CreatesFresh e) →
      (∀ i, fs.rootDir.name i ≠ filename.bytes) → NameFate filename past s

section Directories

variable {filename other : CStr} {dir : RootDir L}

section Stale

variable (hshort : filename.strlen < fsFilenameLen)
include hshort

theorem stale_resetAll {i : Fin fsFileMaxCount} (hname : dir.name i = filename.bytes) :
    Stale filename (resetAll filename dir) where
  carried := ⟨i, (name_resetAll_iff hshort).mpr hname⟩
  free _ hj hlive := (resetAll_live hlive).2 ((name_resetAll_iff hshort).mp hj)

theorem Stale.resetAll (h : Stale filename dir) (other : CStr) :
    Stale filename (resetAll other dir) where
  carried := by
    obtain ⟨i, hi⟩ := h.carried
    exact ⟨i, (name_resetAll_iff hshort).mpr hi⟩
  free i hi hlive :=
    h.free i ((name_resetAll_iff hshort).mp hi) ((resetAll_live hlive).1 ▸ hlive)

end Stale

theorem fillAll_lacks (hfree : ∀ i, dir.name i = filename.bytes → ¬ (dir i).live)
    (hother : other.bytes ≠ filename.bytes) (hlength : other.strlen < fsFilenameLen)
    (i : Fin fsFileMaxCount) : (fillAll other dir).name i ≠ filename.bytes := by
  rcases fillAll_name hlength i with ⟨hlive, hname⟩ | ⟨_, hname⟩
  · rw [hname]
    exact fun heq => hfree i heq hlive
  · exact hname.trans_ne hother

end Directories

section Steps

variable {filename : CStr} {past : List (ApiEvent L N)} {e : ApiEvent L N}

theorem nameFate_delete {unassigned : RootEntry L} {other : CStr}
    (hshort : filename.strlen < fsFilenameLen) (hcall : e.call = .fsDelete unassigned other)
    (hinv : NameFate filename past e.before)
    (hstep : fsDelete unassigned other e.before = .ok (e.ret, e.after)) :
    NameFate filename (e :: past) e.after := by
  have hnot : ¬ CreatesFresh e := by
    rintro ⟨_, _, _, hcreate, _⟩
    rw [hcall] at hcreate
    cases hcreate
  cases hinv with
  | stale hlive hpast hstale =>
      obtain ⟨_, _, _, _, _, hnext⟩ := fsDelete_live hlive hstep
      refine .stale (congrArg State.fileSystem hnext) ?_ (hstale.resetAll hshort other)
      simpa [hnot] using hpast
  | gone hlive hpast hlacks =>
      obtain ⟨_, _, _, _, _, hnext⟩ := fsDelete_live hlive hstep
      obtain ⟨event, hmem, hfresh⟩ := hpast
      exact .gone (congrArg State.fileSystem hnext)
        ⟨event, List.mem_cons_of_mem _ hmem, hfresh⟩ fun i =>
          mt (name_resetAll_iff hshort).mp (hlacks i)

theorem nameFate_create {noReturn : Bool} {other : CStr}
    (hcall : e.call = .fsCreate noReturn other) (hother : other.bytes ≠ filename.bytes)
    (hinv : NameFate filename past e.before)
    (hstep : fsCreate noReturn other e.before = .ok (e.ret, e.after)) :
    NameFate filename (e :: past) e.after := by
  cases hinv with
  | @stale fs hlive hpast hstale =>
      rcases fsCreate_live hlive hstep with
        ⟨_, hsame, hrefused⟩ | ⟨_, hvalid, hlength, hfresh, _, hnext⟩
      · have hnot : ¬ CreatesFresh e := by
          rintro ⟨_, _, fs', hcreate, hpasses, hlive', hnone⟩
          rw [hcall] at hcreate
          cases hcreate
          rw [hlive] at hlive'
          cases hlive'
          rcases hrefused with hinvalid | ⟨i, hi⟩ | hfull
          · rw [hpasses] at hinvalid
            contradiction
          · exact hnone i hi
          · -- the stale entry is free
            obtain ⟨i, hi⟩ := hstale.carried
            exact hstale.free i hi (hfull i)
        refine .stale (hsame ▸ hlive) ?_ hstale
        simpa [hnot] using hpast
      · have hfills : CreatesFresh e := ⟨noReturn, other, fs, hcall, hvalid, hlive, hfresh⟩
        exact .gone (congrArg State.fileSystem hnext) ⟨e, List.mem_cons_self, hfills⟩
          (fillAll_lacks hstale.free hother hlength)
  | gone hlive hpast hlacks =>
      have hkept : ∃ event ∈ e :: past, CreatesFresh event := by
        obtain ⟨event, hmem, hfresh⟩ := hpast
        exact ⟨event, List.mem_cons_of_mem _ hmem, hfresh⟩
      rcases fsCreate_live hlive hstep with ⟨_, hsame, _⟩ | ⟨_, _, hlength, _, _, hnext⟩
      · exact .gone (hsame ▸ hlive) hkept hlacks
      · exact .gone (congrArg State.fileSystem hnext) hkept
          (fillAll_lacks (fun i hi => absurd hi (hlacks i)) hother hlength)

theorem nameFate_step (hshort : filename.strlen < fsFilenameLen) (hother : OtherName filename e)
    (hinv : NameFate filename past e.before)
    (hstep : step e.call e.before = .ok (e.ret, e.after)) :
    NameFate filename (e :: past) e.after := by
  cases hcall : e.call <;> rw [hcall] at hstep <;> simp only [OtherName, hcall] at hother
  case fsCreate noReturn other => exact nameFate_create hcall hother hinv hstep
  case fsDelete unassigned other => exact nameFate_delete hshort hcall hinv hstep

end Steps

theorem recreated_iff {noReturn : Bool} {filename : CStr} {s : State L N} {fs : FsSystem L}
    (hlive : s.fileSystem = .live fs) (hvalid : isValidName noReturn filename = true)
    (hlength : filename.strlen < fsFilenameLen) (hfree : ∃ i, ¬ (fs.rootDir i).live) :
    Recreated noReturn filename s ↔ ∀ i, fs.rootDir.name i ≠ filename.bytes := by
  constructor
  · rintro ⟨next, _, hcreate, _⟩
    rcases fsCreate_live hlive hcreate with ⟨hret, _⟩ | ⟨_, _, _, hfresh, _⟩
    · exact absurd hret (by decide)
    · exact hfresh
  · intro hfresh
    refine ⟨_, _, fsCreate_fills hlive hvalid hlength hfresh hfree, rfl, ?_, ?_⟩
    · obtain ⟨i, hi⟩ := hfree
      exact ⟨i, fillAll_allLive filename fs.rootDir i, name_fillAll_of_empty hi hlength⟩
    · intro i _ hname
      dsimp only at hname ⊢
      by_cases hi : (fs.rootDir i).live
      · rw [name_fillAll_of_live hi] at hname
        exact absurd hname (hfresh i)
      · rw [fillAll_of_empty hi]
        exact ⟨rfl, rfl⟩

/-- After a deletion and calls on other names, creating the name again succeeds if and
only if one of those calls was a creation that filled the free entries. -/
theorem recreated_after_delete_iff {s s₁ s₂ : State L N} {fs fs₂ : FsSystem L}
    {past : List (ApiEvent L N)} {unassigned : RootEntry L} {filename : CStr} {ret : Int}
    {i : Fin fsFileMaxCount} (hlive : s.fileSystem = .live fs)
    (hname : fs.rootDir.name i = filename.bytes)
    (hdelete : fsDelete unassigned filename s = .ok (ret, s₁)) (hrun : ApiRun s₁ past s₂)
    (hother : ∀ e ∈ past, OtherName filename e) (hlive₂ : s₂.fileSystem = .live fs₂)
    (hfree : ∃ i, ¬ (fs₂.rootDir i).live) {noReturn : Bool}
    (hvalid : isValidName noReturn filename = true) (hlength : filename.strlen < fsFilenameLen) :
    Recreated noReturn filename s₂ ↔ ∃ e ∈ past, CreatesFresh e := by
  obtain ⟨_, _, _, _, _, hnext⟩ := fsDelete_live hlive hdelete
  have hstart : NameFate filename [] s₁ :=
    .stale (congrArg State.fileSystem hnext) (by simp) (stale_resetAll hlength hname)
  have hfate : NameFate filename past s₂ :=
    hrun.invariant (I := NameFate filename) hstart
      (fun _ _ hinv hguard hstep => nameFate_step hlength hguard hinv hstep)
      ((throughout_forall (OtherName filename) past).mpr hother)
  rw [recreated_iff hlive₂ hvalid hlength hfree]
  cases hfate with
  | stale hlive' hpast hstale =>
      rw [hlive₂] at hlive'
      cases hlive'
      obtain ⟨j, hj⟩ := hstale.carried
      refine iff_of_false (fun hlacks => hlacks j hj) ?_
      rintro ⟨e, he, hfresh⟩
      exact hpast e he hfresh
  | gone hlive' hpast hlacks =>
      rw [hlive₂] at hlive'
      cases hlive'
      exact iff_of_true hlacks hpast

/-! The file "a" is deleted, and "b" is created in its place and deleted. -/

def freedFat : FatBuffer := oneFileFat.set 1 0
def freedDir : RootDir .packed := resetAll nameA (oneFileDir 4096)

def freedFs (dir : RootDir .packed) : FsSystem .packed :=
  { oneFileFs 4096 with rootDir := dir, fatBlocks := .live freedFat }
def freedState (dir : RootDir .packed) : State .packed 32 :=
  { oneFileState 4096 with fileSystem := .live (freedFs dir) }

theorem freedDir_free (i : Fin fsFileMaxCount) : ¬ (freedDir i).live := by
  intro hi
  obtain ⟨hsame, hother⟩ := resetAll_live hi
  have hlive : (oneFileDir 4096 i : RootEntry .packed).live := hsame ▸ hi
  rw [oneFileDir_live.mp hlive] at hother
  exact hother oneFileDir_name

theorem freed_delete :
    fsDelete blankEntry nameA (oneFileState 4096) = .ok (0, freedState freedDir) :=
  oneFile_delete rfl

def creationB : ApiEvent .packed 32 :=
  ⟨freedState freedDir, .fsCreate true nameB, 0, freedState (fillAll nameB freedDir)⟩

def deletionB : ApiEvent .packed 32 :=
  ⟨freedState (fillAll nameB freedDir), .fsDelete blankEntry nameB, 0,
    freedState (resetAll nameB (fillAll nameB freedDir))⟩

theorem freedDir_lacks (i : Fin fsFileMaxCount) : freedDir.name i ≠ nameB.bytes := by
  unfold freedDir
  rw [Ne, name_resetAll_iff (by decide), oneFileDir_name]
  split <;> decide

theorem filledB_name (i : Fin fsFileMaxCount) : (fillAll nameB freedDir).name i = nameB.bytes :=
  name_fillAll_of_empty (freedDir_free i) (by decide)

theorem filledB_delete :
    fsDelete blankEntry nameB (freedState (fillAll nameB freedDir)) =
      .ok (0, freedState (resetAll nameB (fillAll nameB freedDir))) := by
  have hlive : (freedState (fillAll nameB freedDir)).fileSystem =
      .live (freedFs (fillAll nameB freedDir)) := rfl
  have hlast (j : Fin fsFileMaxCount) (hj : 127 < j) :
      (freedFs (fillAll nameB freedDir)).rootDir.name j ≠ nameB.bytes := by
    have hlt : j.val < 128 := j.isLt
    have hgt : 127 < j.val := hj
    omega
  have hwalk : freeChain (fillAll nameB freedDir 127).fileBlckSize
      (fillAll nameB freedDir 127).fileFirstIndex (.live freedFat) = .ok (.live freedFat) := by
    rw [fillAll_of_empty (freedDir_free 127)]
    rfl
  have hreturns : fsDelete blankEntry nameB (freedState (fillAll nameB freedDir)) = _ :=
    fsDelete_returns hlive (filledB_name 127) hlast hwalk
  exact hreturns

theorem recreation_run : ApiRun (freedState freedDir) [deletionB, creationB] deletionB.after := by
  have hlive : (freedState freedDir).fileSystem = .live (freedFs freedDir) := rfl
  have hcreate : fsCreate true nameB (freedState freedDir) = _ :=
    fsCreate_fills hlive (by decide) (by decide) freedDir_lacks ⟨0, freedDir_free 0⟩
  exact .snoc (.snoc .nil hcreate) filledB_delete

theorem recreated_after_delete_iff_filled : Recreated true nameA deletionB.after ↔
    ∃ e ∈ [deletionB, creationB], CreatesFresh e := by
  have hother : ∀ e ∈ [deletionB, creationB], OtherName nameA e := by
    simp only [List.mem_cons, List.not_mem_nil, or_false, forall_eq_or_imp, forall_eq]
    exact ⟨(by decide : nameB.bytes ≠ nameA.bytes), (by decide : nameB.bytes ≠ nameA.bytes)⟩
  have hlast : deletionB.after.fileSystem =
      .live (freedFs (resetAll nameB (fillAll nameB freedDir))) := rfl
  have hfree : ∃ i, ¬ ((freedFs (resetAll nameB (fillAll nameB freedDir))).rootDir i).live :=
    ⟨0, (stale_resetAll (by decide) (filledB_name 0)).free 0
      ((name_resetAll_iff (by decide)).mpr (filledB_name 0))⟩
  exact recreated_after_delete_iff (oneFile_live 4096) (oneFile_name 4096) freed_delete
    recreation_run hother hlast hfree (by decide) (by decide)

/-- Right after its deletion the name is taken. -/
theorem recreated_after_delete_refuted :
    ¬ ∀ (s s₁ : State .packed 32) (fs fs₁ : FsSystem .packed) (unassigned : RootEntry .packed)
      (filename : CStr) (i : Fin fsFileMaxCount), Mounted s fs → DistinctLive fs.rootDir →
        (fs.rootDir i).live → fs.rootDir.name i = filename.bytes →
        isValidName true filename = true → filename.strlen < fsFilenameLen →
        fsDelete unassigned filename s = .ok (0, s₁) → s₁.fileSystem = .live fs₁ →
        (∃ j, ¬ (fs₁.rootDir j).live) → Recreated true filename s₁ := by
  intro hrecreated
  have hwf : WellFormed (sampleSuper 2048 1) oneFileFat (oneFileDir 4096 : RootDir .packed) :=
    oneFile_wellFormed (by decide)
  have hfreed : (freedState freedDir).fileSystem = .live (freedFs freedDir) := rfl
  have hfree : ∃ j, ¬ ((freedFs freedDir).rootDir j).live := ⟨0, freedDir_free 0⟩
  have hagain := hrecreated _ _ _ _ blankEntry nameA 0 (oneFile_mounted 4096) hwf.names
    (oneFileDir_live.mpr rfl) oneFileDir_name (by decide) (by decide) freed_delete hfreed hfree
  have hlacks := (recreated_iff hfreed (by decide) (by decide) hfree).mp hagain
  exact hlacks 0 ((name_resetAll_iff (by decide)).mpr oneFileDir_name)

end LibFs
