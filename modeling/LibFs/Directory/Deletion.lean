import LibFs.Directory.Blocks

/-! One call of `fs_delete`. In a well-formed directory it damages no other file: the
walk follows the file's own chain and is never longer than it. But the call tests
nothing, so what should be refused is deleted, or walked from an unassigned local. -/
namespace LibFs

open LibFs.Foundation

def NoStaleName (dir : RootDir L) : Prop :=
  ∀ i j, (dir i).live → ¬ (dir j).live → dir.name j ≠ dir.name i

structure OthersKept (filename : CStr) (i : Fin fsFileMaxCount) (chain : List Nat)
    (fs fs' : FsSystem L) (fat fat' : FatBuffer) : Prop where
  cleared : ∀ k, fat'.get k ≠ fat.get k → k ∈ chain ∧ fat'.get k = 0
  entries : ∀ j, fs.rootDir.name j ≠ filename.bytes → fs'.rootDir j = fs.rootDir j
  files : ∀ j, j ≠ i → (fs.rootDir j).live → fs'.rootDir j = fs.rootDir j ∧
    ∀ other, FileChain fs.sp fat (fs.rootDir j) other → FileChain fs'.sp fat' (fs'.rootDir j) other

theorem only_match {dir : RootDir L} {filename : CStr} {i j : Fin fsFileMaxCount}
    (hnames : DistinctLive dir) (hstale : NoStaleName dir) (hi : (dir i).live)
    (hname : dir.name i = filename.bytes) (hne : j ≠ i) : dir.name j ≠ filename.bytes := by
  intro hj
  by_cases hlive : (dir j).live
  · exact hne (hnames j i hlive hi (hj.trans hname.symm))
  · exact hstale i j hi hlive (hj.trans hname.symm)

section Walk

variable {fs : FsSystem L} {fat fat' : FatBuffer} {filename : CStr} {i : Fin fsFileMaxCount}
  {chain : List Nat} {count : Nat}

theorem othersKept_of_walk (hwf : WellFormed fs.sp fat fs.rootDir)
    (hstale : NoStaleName fs.rootDir) (hi : (fs.rootDir i).live)
    (hname : fs.rootDir.name i = filename.bytes)
    (hchain : FileChain fs.sp fat (fs.rootDir i) chain)
    (hget : ∀ k, fat'.get k = if k ∈ chain.take count then 0 else fat.get k) :
    OthersKept filename i chain fs
      { fs with rootDir := resetAll filename fs.rootDir, fatBlocks := .live fat' } fat fat' := by
  constructor
  · intro k hchanged
    rw [hget k] at hchanged ⊢
    by_cases hk : k ∈ chain.take count
    · exact ⟨List.mem_of_mem_take hk, if_pos hk⟩
    · rw [if_neg hk] at hchanged
      exact absurd rfl hchanged
  · intro j hother
    exact resetAll_other hother
  · intro j hne hj
    have hsame := resetAll_other (only_match hwf.names hstale hi hname hne)
    refine ⟨hsame, fun other hother => ?_⟩
    dsimp only
    rw [hsame]
    apply hother.congr
    intro k hk
    -- the chains of two files share no block
    have hnot : k ∉ chain.take count := fun hin =>
      hwf.disjoint i j chain other hi hj hne.symm hchain hother (List.mem_of_mem_take hin) hk
    rw [hget k, if_neg hnot]

end Walk

/-- Deleting an existing file of a well-formed file system returns 0, stays inside the
FAT and damages nothing else. -/
theorem delete_damages_nothing {s : State L N} {fs : FsSystem L} {fat : FatBuffer}
    (hmount : Mounted s fs) (hfat : fs.fatBlocks = .live fat)
    (hwf : WellFormed fs.sp fat fs.rootDir) (hstale : NoStaleName fs.rootDir)
    {i : Fin fsFileMaxCount} {filename : CStr} (hi : (fs.rootDir i).live)
    (hname : fs.rootDir.name i = filename.bytes) (unassigned : RootEntry L) :
    ∃ fs' fat' chain, fsDelete unassigned filename s = .ok (0, { s with fileSystem := .live fs' }) ∧
      fs'.fatBlocks = .live fat' ∧ FileChain fs.sp fat (fs.rootDir i) chain ∧
      OthersKept filename i chain fs fs' fat fat' := by
  obtain ⟨chain, hchain⟩ := hwf.chains i hi
  obtain ⟨pFAT, hwalk⟩ := hchain.walk_returns hmount.accepted (hmount.fat_size hfat)
    hchain.fileBlckSize_le
  obtain ⟨fat', rfl, _, hget⟩ := hchain.walk_frees hchain.fileBlckSize_le hwalk
  have hlast (j : Fin fsFileMaxCount) (hj : i < j) : fs.rootDir.name j ≠ filename.bytes :=
    only_match hwf.names hstale hi hname hj.ne'
  rw [← hfat] at hwalk
  exact ⟨_, fat', chain, fsDelete_returns hmount.loaded hname hlast hwalk, rfl, hchain,
    othersKept_of_walk hwf hstale hi hname hchain hget⟩

/-! A disk with two files of one block each, "a" in block 1 and "b" in block 2. -/

def nameB : CStr := ⟨[98], by decide⟩

def twoFile (i : Fin fsFileMaxCount) : CStr × BitVec 16 := if i = 0 then (nameA, 1) else (nameB, 2)

def twoFileDir : RootDir .packed := rootDirOf fun i =>
  if i ≤ 1 then
    { blankEntry with
      filename := CharArray.copy (fun _ => 0) (twoFile i).1
      fileSize := 4096
      fileFirstIndex := (twoFile i).2
      emptyByte := 0 }
  else blankEntry

def twoFileBytes : Bytes := fun p => if 2 ≤ p ∧ p < 6 then 0xFF else 0
def twoFileFat : FatBuffer := ⟨blockSize * 1, twoFileBytes⟩
def twoFileFs : FsSystem .packed := loadedFs 2048 1 twoFileDir twoFileBytes
def twoFileState : State .packed 32 := loadedState 2048 1 twoFileDir twoFileBytes

theorem twoFileDir_live {i : Fin fsFileMaxCount} : (twoFileDir i).live ↔ i ≤ 1 := by
  unfold twoFileDir rootDirOf
  dsimp only
  split
  · rename_i hi
    exact ⟨fun _ => hi, fun _ => rfl⟩
  · rename_i hi
    exact ⟨fun h => absurd h (blankDir_empty i), fun h => absurd h hi⟩

theorem twoFileDir_name {i : Fin fsFileMaxCount} :
    twoFileDir.name i = if i ≤ 1 then (twoFile i).1.bytes else [] := by
  have hshort : (twoFile i).1.strlen < fsFilenameLen := by
    unfold twoFile
    split <;> decide
  have hlength : (if i ≤ 1 then (twoFile i).1.bytes else []).length < fsFilenameLen := by
    split
    · exact hshort
    · decide
  apply (RootDir.name_eq_iff hlength).mpr
  unfold twoFileDir rootDirOf
  dsimp only
  split
  · exact CharArray.text_copy _ _ hshort
  · exact CharArray.text_eq_nil.mpr rfl

theorem twoFile_cases {i : Fin fsFileMaxCount} (hi : (twoFileDir i).live) : i = 0 ∨ i = 1 := by
  have hle := twoFileDir_live.mp hi
  rw [Fin.le_def] at hle
  rcases Nat.le_one_iff_eq_zero_or_eq_one.mp hle with h | h
  · exact Or.inl (Fin.ext h)
  · exact Or.inr (Fin.ext h)

theorem twoFile_chain {i : Fin fsFileMaxCount} (hi : (twoFileDir i).live) :
    FileChain (sampleSuper 2048 1) twoFileFat (twoFileDir i) [(twoFile i).2.toNat] := by
  rcases twoFile_cases hi with rfl | rfl
  · exact ⟨by decide, List.nodup_singleton _, by decide,
      rfl, (by decide : twoFileFat.links 1 = fatEOC.toNat)⟩
  · exact ⟨by decide, List.nodup_singleton _, by decide,
      rfl, (by decide : twoFileFat.links 2 = fatEOC.toNat)⟩

theorem twoFile_wellFormed : WellFormed (sampleSuper 2048 1) twoFileFat twoFileDir where
  chains i hi := ⟨_, twoFile_chain hi⟩
  disjoint i j chain chain' hi hj hne hchain hchain' := by
    rw [hchain.unique (twoFile_chain hi), hchain'.unique (twoFile_chain hj),
      List.disjoint_singleton]
    rcases twoFile_cases hi with rfl | rfl <;> rcases twoFile_cases hj with rfl | rfl <;>
      first | exact absurd rfl hne | decide
  names i j hi hj hname := by
    rw [twoFileDir_name, twoFileDir_name, if_pos (twoFileDir_live.mp hi),
      if_pos (twoFileDir_live.mp hj)] at hname
    rcases twoFile_cases hi with rfl | rfl <;> rcases twoFile_cases hj with rfl | rfl <;>
      first | rfl | exact absurd hname (by decide)

theorem twoFile_noStaleName : NoStaleName twoFileDir := by
  intro i j hi hj
  rw [twoFileDir_name, twoFileDir_name, if_pos (twoFileDir_live.mp hi),
    if_neg (mt twoFileDir_live.mpr hj)]
  rcases twoFile_cases hi with rfl | rfl <;> decide

theorem twoFile_mounted : Mounted twoFileState twoFileFs :=
  loaded_mounted _ _ (by decide) (by decide)

/-- "a" is deleted and "b" keeps its block. -/
theorem delete_damages_nothing_two_files :
    ∃ fs' fat', fsDelete blankEntry nameA twoFileState =
        .ok (0, { twoFileState with fileSystem := .live fs' }) ∧
      fs'.fatBlocks = .live fat' ∧ FileChain fs'.sp fat' (fs'.rootDir 1) [2] := by
  have hname : twoFileFs.rootDir.name 0 = nameA.bytes := twoFileDir_name
  obtain ⟨fs', fat', _, hdelete, hfat', _, hkept⟩ :=
    delete_damages_nothing twoFile_mounted rfl twoFile_wellFormed twoFile_noStaleName
      (twoFileDir_live.mpr (by decide) : (twoFileDir 0).live) hname blankEntry
  have hlive : (twoFileDir 1).live := twoFileDir_live.mpr le_rfl
  exact ⟨fs', fat', hdelete, hfat', (hkept.files 1 (by decide) hlive).2 _ (twoFile_chain hlive)⟩

def NameExists (filename : CStr) (s : State L N) : Prop :=
  ∃ fs i, s.fileSystem = .live fs ∧ (fs.rootDir i).live ∧ fs.rootDir.name i = filename.bytes

def NameOpen (filename : CStr) (s : State L N) : Prop :=
  ∃ fd, isValidFD fd s = true ∧ fdName fd s = filename.bytes

/-- What `fs_delete` is documented to refuse and to do. -/
structure DeleteContract (unassigned : RootEntry L) (filename : CStr) (s : State L N) : Prop where
  refuses : ¬ NameExists filename s ∨ NameOpen filename s →
    fsDelete unassigned filename s = .ok (-1, s)
  deletes : NameExists filename s → ¬ NameOpen filename s →
    ∃ next, fsDelete unassigned filename s = .ok (0, next) ∧ ¬ NameExists filename next

def WalkInside : Nat → BitVec 16 → FatBuffer → Prop
  | 0, _, _ => True
  | count + 1, current, fat =>
      (0 ≤ current.toInt ∧ current.toInt < fat.entries) ∧
        WalkInside count (fat.get current.toInt.toNat) (fat.set current.toInt.toNat 0)

theorem walkInside_iff {count : Nat} {current : BitVec 16} {fat : FatBuffer} :
    (∃ pFAT, freeChain count current (.live fat) = .ok pFAT) ↔ WalkInside count current fat := by
  induction count generalizing current fat with
  | zero => exact iff_of_true ⟨_, rfl⟩ trivial
  | succ count ih =>
      simp only [freeChain, Pointer.deref_live, WalkInside]
      rw [← ih]
      split
      · rename_i hinside
        exact ⟨fun h => ⟨hinside, h⟩, fun h => h.2⟩
      · rename_i houtside
        simp [houtside]

/-- The file exists, is not open, and the walk from the last entry of its name stays
inside the FAT. -/
def Deletable (filename : CStr) (fs : FsSystem L) (fat : FatBuffer) (s : State L N) : Prop :=
  NameExists filename s ∧ ¬ NameOpen filename s ∧
    ∃ j, fs.rootDir.name j = filename.bytes ∧
      (∀ k, j < k → fs.rootDir.name k ≠ filename.bytes) ∧
      WalkInside (fs.rootDir j).fileBlckSize (fs.rootDir j).fileFirstIndex fat

section Contract

variable {s next : State L N} {fs : FsSystem L} {fat : FatBuffer} {filename : CStr}
  {unassigned : RootEntry L}

theorem fsDelete_never_refuses : fsDelete unassigned filename s ≠ .ok (-1, next) := by
  intro h
  obtain ⟨fs, hlive⟩ := fsDelete_cases h
  obtain ⟨_, _, _, _, hret, _⟩ := fsDelete_live hlive h
  exact absurd hret (by decide)

theorem fsDelete_removes {ret : Int} (hlive : s.fileSystem = .live fs)
    (h : fsDelete unassigned filename s = .ok (ret, next)) : ¬ NameExists filename next := by
  obtain ⟨_, _, _, _, _, rfl⟩ := fsDelete_live hlive h
  rintro ⟨fs', i, hlive', hi, hname⟩
  cases hlive'
  exact (resetAll_live hi).2 ((name_resetAll_of_live hi).symm.trans hname)

theorem fsDelete_walk {ret : Int} (hlive : s.fileSystem = .live fs)
    (hfat : fs.fatBlocks = .live fat) (h : fsDelete unassigned filename s = .ok (ret, next))
    {i : Fin fsFileMaxCount} (hname : fs.rootDir.name i = filename.bytes) :
    ∃ j, fs.rootDir.name j = filename.bytes ∧
      (∀ k, j < k → fs.rootDir.name k ≠ filename.bytes) ∧
      WalkInside (fs.rootDir j).fileBlckSize (fs.rootDir j).fileFirstIndex fat := by
  obtain ⟨deleteFile, pFAT, hkept, hwalk, _, _⟩ := fsDelete_live hlive h
  rw [hfat] at hwalk
  rcases hkept with ⟨j, hmatch, hlast, rfl⟩ | ⟨hnone, _⟩
  · refine ⟨j, RootDir.matchesName_iff.mp hmatch, fun k hk => ?_, walkInside_iff.mp ⟨_, hwalk⟩⟩
    exact RootDir.matchesName_false_iff.mp (hlast k hk)
  · exact absurd hname (RootDir.matchesName_false_iff.mp (hnone i))

theorem deletable_of_contract (hlive : s.fileSystem = .live fs) (hfat : fs.fatBlocks = .live fat)
    (h : DeleteContract unassigned filename s) : Deletable filename fs fat s := by
  have hrefused : ¬ (¬ NameExists filename s ∨ NameOpen filename s) := fun hrefuse =>
    fsDelete_never_refuses (h.refuses hrefuse)
  rw [not_or, not_not] at hrefused
  obtain ⟨hexists, hclosed⟩ := hrefused
  obtain ⟨next, hdelete, _⟩ := h.deletes hexists hclosed
  obtain ⟨fs', i, hlive', _, hname⟩ := hexists
  rw [hlive] at hlive'
  cases hlive'
  exact ⟨⟨fs, i, hlive, ‹_›, hname⟩, hclosed, fsDelete_walk hlive hfat hdelete hname⟩

theorem contract_of_deletable (hlive : s.fileSystem = .live fs) (hfat : fs.fatBlocks = .live fat)
    (h : Deletable filename fs fat s) : DeleteContract unassigned filename s := by
  obtain ⟨hexists, hclosed, j, hname, hlast, hinside⟩ := h
  constructor
  · rintro (hnone | hopen)
    · exact absurd hexists hnone
    · exact absurd hopen hclosed
  · intro _ _
    obtain ⟨pFAT, hwalk⟩ := walkInside_iff.mpr hinside
    rw [← hfat] at hwalk
    have hreturns : fsDelete unassigned filename s = _ :=
      fsDelete_returns hlive hname hlast hwalk
    exact ⟨_, hreturns, fsDelete_removes hlive hreturns⟩

end Contract

/-- On a mounted file system `fs_delete` does what it is documented to do if and only
if the file exists, is not open and its walk stays inside the FAT. -/
theorem delete_contract_iff {s : State L N} {fs : FsSystem L} {fat : FatBuffer}
    (hmount : Mounted s fs) (hfat : fs.fatBlocks = .live fat) (unassigned : RootEntry L)
    (filename : CStr) :
    DeleteContract unassigned filename s ↔ Deletable filename fs fat s :=
  ⟨deletable_of_contract hmount.loaded hfat, contract_of_deletable hmount.loaded hfat⟩

theorem delete_contract_iff_one_file :
    DeleteContract blankEntry nameA (oneFileState 4096) ↔
      Deletable nameA (oneFileFs 4096) oneFileFat (oneFileState 4096) :=
  delete_contract_iff (oneFile_mounted 4096) rfl blankEntry nameA

/-- Deleting a file that does not exist is not refused. -/
theorem delete_contract_refuted :
    ¬ ∀ (unassigned : RootEntry .packed) (filename : CStr) (s : State .packed 32)
      (fs : FsSystem .packed), Mounted s fs → DeleteContract unassigned filename s := by
  intro hcontracts
  have hcontract := hcontracts blankEntry nameA _ _ (formatted_mounted blankDir)
  have hnone : ¬ NameExists nameA (formattedState blankDir : State .packed 32) := by
    rintro ⟨fs, i, hlive, hi, _⟩
    cases hlive
    exact blankDir_empty i hi
  exact fsDelete_never_refuses (hcontract.refuses (Or.inl hnone))

end LibFs
