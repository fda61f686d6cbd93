import LibFs.Directory.Blocks

/-! What a free entry is. `fs_create` and `fs_delete` decide by the flag; the scans
for a name and the listing decide by the name. `fs_delete` sets the flag and leaves
the name, so the two notions stay together as long as nothing is deleted. -/
namespace LibFs

open LibFs.Foundation

def FreeNotionsAgree (dir : RootDir L) : Prop :=
  ∀ i, (dir i).isEmpty = true ↔ dir.name i = []

def existingEntry (dir : RootDir L) (i : Fin fsFileMaxCount) : List LsLine :=
  if (dir i).live then [.usedEntries, .entry i (dir.name i)] else [.usedEntries]

/-- The two notions agree, `fs_ls` lists the files that exist, and every scan, for an
argument or for the name of a descriptor, matches exactly them. -/
structure SlotsAgree (s : State L N) (fs : FsSystem L) : Prop where
  loaded : s.fileSystem = .live fs
  agree : FreeNotionsAgree fs.rootDir
  listed : fsLs s =
    .ok (.title :: (List.finRange fsFileMaxCount).flatMap (existingEntry fs.rootDir), 0)
  matched : ∀ filename : CStr, filename.bytes ≠ [] → ∀ i,
    fs.rootDir.matchesName filename i = true ↔
      (fs.rootDir i).live ∧ fs.rootDir.name i = filename.bytes
  taken : ∀ filename : CStr, filename.bytes ≠ [] →
    (nameTaken filename fs.rootDir = true ↔
      ∃ i, (fs.rootDir i).live ∧ fs.rootDir.name i = filename.bytes)
  stats : ∀ fd, isValidFD fd s = true →
    ((statEntry fd fs s).isSome = true ↔
      ∃ i, (fs.rootDir i).live ∧ fs.rootDir.name i = fdName fd s)

def DeletesNothing (e : ApiEvent L N) : Prop :=
  ∀ unassigned filename fs, e.call = .fsDelete unassigned filename →
    e.before.fileSystem = .live fs → ∀ i, fs.rootDir.name i ≠ filename.bytes

def FreeNotionsKept (e : ApiEvent L N) : Prop :=
  ∃ fs, SlotsAgree e.after fs

section Agreement

variable {dir : RootDir L} {i : Fin fsFileMaxCount}

theorem FreeNotionsAgree.live_iff (h : FreeNotionsAgree dir) :
    (dir i).live ↔ dir.name i ≠ [] := by
  rw [Ne, ← h i]
  simp [RootEntry.live]

theorem FreeNotionsAgree.named_iff (h : FreeNotionsAgree dir) {name : List UInt8}
    (hname : name ≠ []) : dir.name i = name ↔ (dir i).live ∧ dir.name i = name := by
  constructor
  · intro heq
    exact ⟨h.live_iff.mpr (heq.trans_ne hname), heq⟩
  · exact And.right

theorem FreeNotionsAgree.lsEntry (h : FreeNotionsAgree dir) (i : Fin fsFileMaxCount) :
    lsEntry dir i = existingEntry dir i := by
  unfold LibFs.lsEntry existingEntry
  by_cases hlive : (dir i).live
  · have hlength : (dir.name i).length ≠ 0 := by simpa using h.live_iff.mp hlive
    rw [if_pos hlive, if_pos hlength]
  · have hlength : ¬ (dir.name i).length ≠ 0 := by simpa using mt h.live_iff.mpr hlive
    rw [if_neg hlive, if_neg hlength]

theorem slotsAgree_of_agree {s : State L N} {fs : FsSystem L} (hlive : s.fileSystem = .live fs)
    (h : FreeNotionsAgree fs.rootDir) : SlotsAgree s fs where
  loaded := hlive
  agree := h
  listed := by
    unfold fsLs
    simp only [hlive, Pointer.deref_live]
    rw [funext h.lsEntry]
  matched filename hname i := by
    rw [RootDir.matchesName_iff]
    exact h.named_iff hname
  taken filename hname := by
    rw [nameTaken_iff]
    exact exists_congr fun i => h.named_iff hname
  stats fd hvalid := by
    unfold statEntry
    rw [firstSlot_isSome]
    refine exists_congr fun i => ?_
    rw [beq_iff_eq, eq_comm]
    exact h.named_iff (fdName_ne_nil hvalid)

theorem FreeNotionsAgree.fillAll (h : FreeNotionsAgree dir) {filename : CStr}
    (hname : filename.bytes ≠ []) (hlength : filename.strlen < fsFilenameLen) :
    FreeNotionsAgree (fillAll filename dir) := by
  intro i
  by_cases hi : (dir i).live
  · rw [fillAll_of_live hi, name_fillAll_of_live hi]
    exact h i
  · rw [fillAll_of_empty hi, RootEntry.isEmpty_fill, name_fillAll_of_empty hi hlength]
    simp [hname]

/-- A deletion keeps the agreement only by matching nothing. -/
theorem agree_resetAll_iff (h : FreeNotionsAgree dir) {filename : CStr}
    (hname : filename.bytes ≠ []) : FreeNotionsAgree (resetAll filename dir) ↔
      ∀ i, dir.name i ≠ filename.bytes := by
  have hempty (i : Fin fsFileMaxCount) : (resetAll filename dir).name i = [] ↔ dir.name i = [] :=
    name_resetAll_iff (by decide)
  constructor
  · intro hagree i hi
    have hstale := (hagree i).mp (by rw [resetAll_match hi]; rfl)
    rw [hempty, hi] at hstale
    exact hname hstale
  · intro hother i
    rw [hempty, resetAll_other (hother i)]
    exact h i

end Agreement

def Agreeing (s : State L N) : Prop :=
  ∃ fs, s.fileSystem = .live fs ∧ FreeNotionsAgree fs.rootDir

theorem NameCall.delete_ne_nil {e : ApiEvent L N} (h : NameCall e) {unassigned : RootEntry L}
    {filename : CStr} (hcall : e.call = .fsDelete unassigned filename) : filename.bytes ≠ [] := by
  rw [NameCall, hcall] at h
  exact List.ne_nil_of_length_pos h.1

section Steps

variable {e : ApiEvent L N}

theorem agreeing_delete_iff {unassigned : RootEntry L} {filename : CStr} {fs : FsSystem L}
    {before after : State L N} {ret : Int} (hlive : before.fileSystem = .live fs)
    (hagree : FreeNotionsAgree fs.rootDir) (hname : filename.bytes ≠ [])
    (hstep : fsDelete unassigned filename before = .ok (ret, after)) :
    Agreeing after ↔ ∀ i, fs.rootDir.name i ≠ filename.bytes := by
  obtain ⟨_, pFAT, _, _, _, rfl⟩ := fsDelete_live hlive hstep
  rw [← agree_resetAll_iff hagree hname]
  constructor
  · rintro ⟨fs', hlive', h⟩
    cases hlive'
    exact h
  · intro h
    exact ⟨_, rfl, h⟩

theorem agreeing_create {noReturn : Bool} {filename : CStr} {fs : FsSystem L}
    {before after : State L N} {ret : Int} (hlive : before.fileSystem = .live fs)
    (hagree : FreeNotionsAgree fs.rootDir)
    (hstep : fsCreate noReturn filename before = .ok (ret, after)) : Agreeing after := by
  rcases fsCreate_live hlive hstep with ⟨_, rfl, _⟩ | ⟨_, hvalid, hlength, _, _, rfl⟩
  · exact ⟨fs, hlive, hagree⟩
  · exact ⟨_, rfl, hagree.fillAll (isValidName_ne_nil hvalid) hlength⟩

theorem freeNotionsKept_of_deletesNothing (hstate : Agreeing e.before) (hcall : NameCall e)
    (hguard : DeletesNothing e) (hstep : step e.call e.before = .ok (e.ret, e.after)) :
    Agreeing e.after ∧ FreeNotionsKept e := by
  obtain ⟨fs, hlive, hagree⟩ := hstate
  have hnext : Agreeing e.after := by
    obtain ⟨before, call, ret, after⟩ := e
    cases call <;> simp only [NameCall] at hcall
    case fsCreate noReturn filename => exact agreeing_create hlive hagree hstep
    case fsDelete unassigned filename =>
      have hdelete : fsDelete unassigned filename before = .ok (ret, after) := hstep
      have hname := List.ne_nil_of_length_pos hcall.1
      exact (agreeing_delete_iff hlive hagree hname hdelete).mpr
        (hguard unassigned filename fs rfl hlive)
  obtain ⟨fs', hlive', hagree'⟩ := hnext
  exact ⟨⟨fs', hlive', hagree'⟩, fs', slotsAgree_of_agree hlive' hagree'⟩

theorem deletesNothing_of_freeNotionsKept (hstate : Agreeing e.before) (hcall : NameCall e)
    (hkept : FreeNotionsKept e) (hstep : step e.call e.before = .ok (e.ret, e.after)) :
    DeletesNothing e := by
  intro unassigned filename fs hdelete hlive
  obtain ⟨fs₀, hlive₀, hagree⟩ := hstate
  rw [hlive] at hlive₀
  cases hlive₀
  obtain ⟨fs', hafter⟩ := hkept
  rw [hdelete] at hstep
  have hreturns : fsDelete unassigned filename e.before = .ok (e.ret, e.after) := hstep
  exact (agreeing_delete_iff hlive hagree (hcall.delete_ne_nil hdelete) hreturns).mp
    ⟨fs', hafter.loaded, hafter.agree⟩

end Steps

/-- Over a run of creations and deletions the notions of a free entry keep agreeing,
and listing and scans keep seeing exactly the existing files, if and only if no
deletion of the run deletes anything. -/
theorem freeNotions_throughout_iff {start s : State L N} {fs : FsSystem L}
    {past : List (ApiEvent L N)} (hlive : start.fileSystem = .live fs)
    (hagree : FreeNotionsAgree fs.rootDir) (hrun : ApiRun start past s)
    (hcalls : ∀ e ∈ past, NameCall e) :
    (∀ e ∈ past, DeletesNothing e) ↔ ∀ e ∈ past, FreeNotionsKept e := by
  rw [← throughout_forall DeletesNothing, ← throughout_forall FreeNotionsKept]
  exact hrun.guarded_iff_good (I := fun _ s => Agreeing s) ⟨fs, hlive, hagree⟩
    ((throughout_forall NameCall past).mpr hcalls)
    (fun _ _ hinv hcall hguard hstep => freeNotionsKept_of_deletesNothing hinv hcall hguard hstep)
    (fun _ _ hinv hcall hgood hstep => deletesNothing_of_freeNotionsKept hinv hcall hgood hstep)

theorem blankDir_agree : FreeNotionsAgree (blankDir : RootDir L) := by
  intro i
  exact iff_of_true rfl (blankDir_name i)

theorem freeNotions_throughout_blank :
    (∀ e ∈ [blankCreation], DeletesNothing e) ↔ ∀ e ∈ [blankCreation], FreeNotionsKept e :=
  freeNotions_throughout_iff rfl blankDir_agree blankCreation_run blankCreation_nameCall

theorem oneFile_agree (fileSize : BitVec 32) :
    FreeNotionsAgree (oneFileDir fileSize : RootDir L) := by
  intro i
  rw [oneFileDir_name, ← not_iff_not, Bool.not_eq_true]
  refine oneFileDir_live.trans ?_
  split
  · rename_i hi
    exact iff_of_true hi (by decide)
  · rename_i hi
    simp [hi]

theorem oneFileDeletion_nameCall (fileSize : BitVec 32) (fat : FatBuffer) :
    ∀ e ∈ [oneFileDeletion fileSize fat], NameCall e := by
  simp only [List.mem_singleton, forall_eq]
  exact ⟨by decide, by decide⟩

/-- The entry of a deleted file is free by its flag and still has its name. -/
theorem freeNotions_refuted :
    ¬ ∀ (start s : State .packed 32) (fs : FsSystem .packed) (past : List (ApiEvent .packed 32)),
      Mounted start fs → FreeNotionsAgree fs.rootDir → ApiRun start past s →
        (∀ e ∈ past, NameCall e) →
          ∃ fs', s.fileSystem = .live fs' ∧ FreeNotionsAgree fs'.rootDir := by
  intro hagrees
  have hrun : ApiRun (oneFileState 4096) [oneFileDeletion 4096 (oneFileFat.set 1 0)] _ :=
    oneFileDeletion_run rfl
  have hend := hagrees _ _ _ _ (oneFile_mounted 4096) (oneFile_agree 4096) hrun
    (oneFileDeletion_nameCall 4096 _)
  have hnone := (agreeing_delete_iff (oneFile_live 4096) (oneFile_agree 4096) (by decide)
    (oneFile_delete rfl)).mp hend
  exact hnone 0 oneFileDir_name

end LibFs
