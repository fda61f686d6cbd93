import LibFs.Directory.Deletion
import LibFs.Model.Effects

/-! What a call that takes a name or a descriptor may refuse. A refusal comes before the call
has changed anything; `fs_create` notices a full directory only behind its filling loop,
but then the loop has met no entry to fill. Two of the tests are inverted: `fs_open`
refuses the names that exist, `fs_lseek` the descriptors that are valid. So each keeps
to its contract only where both the test and its inverse refuse. -/
namespace LibFs

open LibFs.Foundation

def Call.MayRefuse : Call L → Prop
  | .fsCreate _ _ => True
  | .fsOpen _ _ => True
  | .fsClose _ => True
  | .fsStat _ => True
  | .fsLseek _ _ => True
  | _ => False

/-- A call that returns -1 leaves the directory, the FAT, the descriptor table, its
counter and everything else as they were. -/
theorem refused_unchanged {call : Call L} {s next : State L N} (hcall : call.MayRefuse)
    (h : step call s = .ok (-1, next)) : next = s := by
  cases call <;> simp only [Call.MayRefuse] at hcall
  case fsCreate noReturn filename =>
    rcases fsCreate_cases h with ⟨_, hsame⟩ | ⟨fs, hlive⟩
    · exact hsame
    · rcases fsCreate_live hlive h with ⟨_, hsame, _⟩ | ⟨hret, _⟩
      · exact hsame
      · exact absurd hret (by decide)
  case fsOpen noReturn filename =>
    rcases fsOpen_cases h with ⟨_, hsame, _⟩ | ⟨_, _, _, i, _, hret, _⟩
    · exact hsame
    · -- an issued descriptor is not negative
      omega
  case fsClose fd =>
    rcases fsClose_cases h with ⟨_, hsame, _⟩ | ⟨hret, _⟩
    · exact hsame
    · exact absurd hret (by decide)
  case fsStat fd => exact step_reads h
  case fsLseek fd offset =>
    rcases fsLseek_cases h with ⟨_, hsame, _⟩ | ⟨hret, _⟩
    · exact hsame
    · exact absurd hret (by decide)

/-- Closing a descriptor that was never opened. -/
theorem refused_unchanged_close :
    ∃ next : State .packed 32, step (.fsClose 0) (formattedState blankDir) = .ok (-1, next) ∧
      next = formattedState blankDir := by
  have hinvalid : isValidFD 0 (formattedState blankDir : State .packed 32) = false := by decide
  have hstep : step (.fsClose 0) (formattedState blankDir : State .packed 32) =
      .ok (-1, formattedState blankDir) := by
    simp [step, fsClose, hinvalid]
  have hcall : (Call.fsClose 0 : Call .packed).MayRefuse := trivial
  exact ⟨_, hstep, refused_unchanged hcall hstep⟩

def EmptyUnnamed (dir : RootDir L) : Prop :=
  ∀ i, ¬ (dir i).live → dir.name i = []

structure OpenedAt (filename : CStr) (i : Fin N) (s next : State L N) : Prop where
  name : (next.fdTable i).filename.text = filename.bytes
  offset : (next.fdTable i).offset = 0
  used : (next.fdTable i).used = true
  others : ∀ j, j ≠ i → next.fdTable j = s.fdTable j
  fileSystem : next.fileSystem = s.fileSystem
  device : next.device = s.device

/-- `fs_open` accepts exactly the files that exist while there is room. -/
structure OpensExisting (noReturn : Bool) (filename : CStr) (s : State L N) : Prop where
  opens : NameExists filename s → s.fdOpenCount < N →
    ∃ (i : Fin N) (next : State L N), fsOpen noReturn filename s = .ok ((i : Nat), next) ∧
      OpenedAt filename i s next
  refuses : ¬ (NameExists filename s ∧ s.fdOpenCount < N) →
    fsOpen noReturn filename s = .ok (-1, s)

section Opening

variable {s : State L N} {fs : FsSystem L} {noReturn : Bool} {filename : CStr}

theorem fsOpen_full (hlive : s.fileSystem = .live fs) (hfull : s.fdOpenCount = N) :
    fsOpen noReturn filename s = .ok (-1, s) := by
  cases hvalid : isValidName noReturn filename <;> simp [fsOpen, hlive, hvalid, hfull]

theorem fsOpen_existing {ret : Int} {next : State L N} (hexists : NameExists filename s)
    (h : fsOpen noReturn filename s = .ok (ret, next)) : ret = -1 := by
  obtain ⟨fs, i, hlive, _, hname⟩ := hexists
  exact (fsOpen_refused h (Or.inr (Or.inr (Or.inr ⟨fs, i, hlive, hname⟩)))).1

theorem name_lacking (hempty : EmptyUnnamed fs.rootDir) (hlive : s.fileSystem = .live fs)
    (hname : filename.bytes ≠ []) (hnone : ¬ NameExists filename s) (i : Fin fsFileMaxCount) :
    fs.rootDir.name i ≠ filename.bytes := by
  intro hi
  by_cases hentry : (fs.rootDir i).live
  · exact hnone ⟨fs, i, hlive, hentry, hi⟩
  · exact hname (hi ▸ hempty i hentry)

end Opening

/-- As long as the counter has not run past the table, `fs_open` does what it is
documented to do if and only if the table is full. -/
theorem opens_existing_iff {s : State L N} {fs : FsSystem L} (hlive : s.fileSystem = .live fs)
    (hempty : EmptyUnnamed fs.rootDir) {noReturn : Bool} {filename : CStr}
    (hvalid : isValidName noReturn filename = true) (hlength : filename.strlen < fsFilenameLen)
    (hcount : s.fdOpenCount ≤ N) :
    OpensExisting noReturn filename s ↔ s.fdOpenCount = N := by
  constructor
  · intro hcontract
    by_contra hroom
    have hslot : s.fdOpenCount < N := by omega
    by_cases hexists : NameExists filename s
    · obtain ⟨i, _, hopen, _⟩ := hcontract.opens hexists hslot
      have hrefused := fsOpen_existing hexists hopen
      omega
    · have hfresh := name_lacking hempty hlive (isValidName_ne_nil hvalid) hexists
      have hrefuses := hcontract.refuses fun h => hexists h.1
      rw [fsOpen_returns (i := ⟨s.fdOpenCount, hslot⟩) hlive hvalid hlength hfresh rfl] at hrefuses
      simp only [Except.ok.injEq, Prod.mk.injEq] at hrefuses
      omega
  · intro hfull
    constructor
    · intro _ hroom
      omega
    · intro _
      exact fsOpen_full hlive hfull

theorem oneFile_emptyUnnamed (fileSize : BitVec 32) :
    EmptyUnnamed (oneFileDir fileSize : RootDir L) := by
  intro i hi
  have hnonzero : i ≠ 0 := fun heq => hi (oneFileDir_live.mpr heq)
  rw [oneFileDir_name, if_neg hnonzero]

def fullState : State .packed 32 := { oneFileState 4096 with fdOpenCount := 32 }

theorem opens_existing_iff_full :
    OpensExisting true nameA fullState ↔ fullState.fdOpenCount = 32 := by
  have hlive : fullState.fileSystem = .live (oneFileFs 4096) := rfl
  exact opens_existing_iff hlive (oneFile_emptyUnnamed 4096) (by decide) (by decide) (le_refl 32)

/-- The one file on the disk cannot be opened. -/
theorem opens_existing_refuted :
    ¬ ∀ (s : State .packed 32) (fs : FsSystem .packed) (filename : CStr), Mounted s fs →
      EmptyUnnamed fs.rootDir → isValidName true filename = true →
        filename.strlen < fsFilenameLen → s.fdOpenCount ≤ 32 →
          OpensExisting true filename s := by
  intro hopens
  have hcontract := hopens _ _ nameA (oneFile_mounted 4096) (oneFile_emptyUnnamed 4096)
    (by decide) (by decide) (Nat.zero_le _)
  have hexists : NameExists nameA (oneFileState 4096) :=
    ⟨oneFileFs 4096, 0, rfl, oneFileDir_live.mpr rfl, oneFileDir_name⟩
  obtain ⟨i, _, hopen, _⟩ := hcontract.opens hexists (by decide)
  have hrefused := fsOpen_existing hexists hopen
  omega

/-! Seeking. -/

def WithinFile (fd : Int) (offset : BitVec 64) (s : State L N) : Prop :=
  isValidFD fd s = true ∧ ∃ size, fsStat fd s = .ok size ∧ (offset.toNat : Int) ≤ size

/-- `fs_lseek` moves the offset of accepted descriptors within their files, and refuses
everything else. -/
structure SeekMeets (fd : Int) (offset : BitVec 64) (s : State L N) : Prop where
  seeks : WithinFile fd offset s → ∃ i : Fin N, fd = i ∧
    fsLseek fd offset s = .ok (0, s.setFd i { s.fdTable i with offset := offset })
  refuses : ¬ WithinFile fd offset s → fsLseek fd offset s = .ok (-1, s)

section Seeking

variable {s : State L N} {fd : Int} {offset : BitVec 64}

theorem fsLseek_valid (h : isValidFD fd s = true) : fsLseek fd offset s = .ok (-1, s) := by
  simp [fsLseek, h]

theorem fsLseek_invalid {next : State L N} (h : isValidFD fd s = false) :
    fsLseek fd offset s ≠ .ok (-1, next) := by
  intro hstep
  rcases fsLseek_cases hstep with ⟨_, _, hvalid⟩ | ⟨hret, _⟩
  · simp [h] at hvalid
  · exact absurd hret (by decide)

end Seeking

/-- `fs_lseek` does what it is documented to do if and only if the descriptor is
accepted and the offset lies behind the end of its file. -/
theorem seek_meets_iff (fd : Int) (offset : BitVec 64) (s : State L N) :
    SeekMeets fd offset s ↔
      isValidFD fd s = true ∧ ∀ size, fsStat fd s = .ok size → size < offset.toNat := by
  constructor
  · intro hmeets
    have hvalid : isValidFD fd s = true := by
      by_contra hinvalid
      rw [Bool.not_eq_true] at hinvalid
      refine fsLseek_invalid hinvalid (hmeets.refuses ?_)
      rintro ⟨hvalid, _⟩
      simp [hinvalid] at hvalid
    refine ⟨hvalid, fun size hsize => ?_⟩
    by_contra hwithin
    obtain ⟨_, _, hseek⟩ := hmeets.seeks ⟨hvalid, size, hsize, by omega⟩
    rw [fsLseek_valid hvalid] at hseek
    simp at hseek
  · rintro ⟨hvalid, hbehind⟩
    constructor
    · rintro ⟨_, size, hsize, hwithin⟩
      have hlt := hbehind size hsize
      omega
    · intro _
      exact fsLseek_valid hvalid

def OpenOnFiles (s : State L N) (fs : FsSystem L) : Prop :=
  ∀ i, (s.fdTable i).filename.text ≠ [] → ∃ j, (fs.rootDir j).live ∧
    fs.rootDir.name j = (s.fdTable i).filename.text ∧ 0 ≤ (fs.rootDir j).fileSize.toInt

def seekState : State .packed 32 := (oneFileState 4096).openFd 0 nameA

theorem seekState_mounted : Mounted seekState (oneFileFs 4096) :=
  let h := oneFile_mounted 4096
  ⟨h.loaded, h.diskOpen, h.allocated, h.checked⟩

theorem seekState_open : OpenOnFiles seekState (oneFileFs 4096) := by
  intro i hi
  by_cases hzero : i = 0
  · subst hzero
    have htext : (seekState.fdTable 0).filename.text = nameA.bytes := by
      unfold seekState
      rw [State.openFd_same]
      exact FdTableEntry.text_opened nameA _ (by decide)
    exact ⟨0, oneFileDir_live.mpr rfl, oneFileDir_name.trans htext.symm, by decide⟩
  · unfold seekState at hi
    rw [State.openFd_ne _ _ hzero] at hi
    change FdTableEntry.zero.filename.text ≠ [] at hi
    exact absurd (by decide) hi

/-- Not even offset 0 can be sought in an open file. -/
theorem seek_meets_refuted :
    ¬ ∀ (s : State .packed 32) (fs : FsSystem .packed) (fd : Int) (offset : BitVec 64),
      Mounted s fs → OpenOnFiles s fs → SeekMeets fd offset s := by
  intro hseeks
  have hmeets := hseeks _ _ 0 0 seekState_mounted seekState_open
  have hvalid : isValidFD 0 seekState = true :=
    isValidFD_openFd (0 : Fin 32) rfl (by decide) (by decide)
  have hstat : fsStat 0 seekState = .ok 4096 := rfl
  obtain ⟨_, _, hseek⟩ := hmeets.seeks ⟨hvalid, 4096, hstat, by decide⟩
  rw [fsLseek_valid hvalid] at hseek
  simp at hseek

end LibFs
