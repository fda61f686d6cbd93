import LibFs.Foundation.Slots
import LibFs.Foundation.Chain
import LibFs.Model.Mount

/-! The directory half of `fs.c`: `fs_create`, `fs_delete` and `fs_ls`. Values the
source leaves unassigned are arguments: what a caller sees when `isValidName`
falls off its end, and the local `delete_file` before its first assignment. -/
namespace LibFs

open LibFs.Foundation

/-- `isValidName`, with `fileName` read as `filename`. `strlen` is narrowed to
`unsigned`; past the length test the last character is compared with NUL and
the function returns only when they agree. -/
def isValidName (noReturn : Bool) (filename : CStr) : Bool :=
  let fileLen := filename.strlen % 2 ^ 32
  if 0 < fileLen ∧ fileLen < fsFilenameLen then
    if filename.bytes.getD (fileLen - 1) 0 = 0 then true else noReturn
  else false

theorem isValidName_ne_nil {noReturn : Bool} {filename : CStr}
    (h : isValidName noReturn filename = true) : filename.bytes ≠ [] := by
  intro hnil
  simp [isValidName, CStr.strlen, hnil] at h

namespace RootEntry

/-- A directory entry filled in for a new file. The assignment of the name is
read as copying it, and the one of `padding` as filling its bytes. -/
def fill (filename : CStr) (e : RootEntry L) : RootEntry L :=
  { e with
    filename := e.filename.copy filename
    fileSize := 0
    fileFirstIndex := fatEOC
    padding := fun _ => UInt8.ofNat blockSize
    emptyByte := 0 }

def reset (e : RootEntry L) : RootEntry L :=
  { e with fileSize := 0, fileFirstIndex := fatEOC, emptyByte := 1 }

@[simp] theorem isEmpty_fill (filename : CStr) (e : RootEntry L) :
    (e.fill filename).isEmpty = false := rfl

@[simp] theorem live_fill (filename : CStr) (e : RootEntry L) : (e.fill filename).live := rfl

@[simp] theorem isEmpty_reset (e : RootEntry L) : e.reset.isEmpty = true := rfl

@[simp] theorem not_live_reset (e : RootEntry L) : ¬ e.reset.live := by
  simp [live]

@[simp] theorem filename_reset (e : RootEntry L) : e.reset.filename = e.filename := rfl

@[simp] theorem text_fill (filename : CStr) (e : RootEntry L)
    (h : filename.strlen < fsFilenameLen) : (e.fill filename).filename.text = filename.bytes :=
  CharArray.text_copy e.filename filename h

theorem terminated_fill (filename : CStr) (e : RootEntry L)
    (h : filename.strlen < fsFilenameLen) : (e.fill filename).filename.Terminated :=
  CharArray.terminated_copy e.filename filename h

end RootEntry

def nameTaken (filename : CStr) (dir : RootDir L) : Bool :=
  decide (∃ i, dir.matchesName filename i = true)

theorem nameTaken_iff {filename : CStr} {dir : RootDir L} :
    nameTaken filename dir = true ↔ ∃ i, dir.name i = filename.bytes := by
  simp [nameTaken]

theorem nameTaken_false_iff {filename : CStr} {dir : RootDir L} :
    nameTaken filename dir = false ↔ ∀ i, dir.name i ≠ filename.bytes := by
  simp [nameTaken]

/-- The body of the filling loop of `fs_create`, which has no `break`. -/
def fillVisit (filename : CStr) (foundFreeEntry : Bool) (e : RootEntry L) :
    Bool × RootEntry L :=
  if e.isEmpty then (true, e.fill filename) else (foundFreeEntry, e)

def fillLoop (filename : CStr) (dir : RootDir L) : Bool × RootDir L :=
  let filled := sweep (fun i entries found => fillVisit filename found (entries i)) false dir.entry
  (filled.1, { dir with entry := filled.2 })

def fsCreate (noReturn : Bool) (filename : CStr) (s : State L N) :
    Except Fault (Int × State L N) :=
  if s.fileSystem.isNull then .ok (-1, s)
  else if !isValidName noReturn filename then .ok (-1, s)
  else
    match s.fileSystem.deref with
    | .error fault => .error fault
    | .ok fs =>
        if nameTaken filename fs.rootDir then .ok (-1, s)
        else
          let filled := fillLoop filename fs.rootDir
          let written := { s with fileSystem := .live { fs with rootDir := filled.2 } }
          if !filled.1 then .ok (-1, written)
          -- a longer name would be copied past the end of the field
          else if filename.strlen < fsFilenameLen then .ok (0, written)
          else .error .outOfBounds

/-- The body of the search loop of `fs_delete`, which goes on after a match. -/
def deleteVisit (filename : CStr) (dir : RootDir L) (i : Fin fsFileMaxCount)
    (deleteFile : RootEntry L) : RootEntry L × RootEntry L :=
  if dir.matchesName filename i then (dir i, (dir i).reset) else (deleteFile, dir i)

def deleteLoop (unassigned : RootEntry L) (filename : CStr) (dir : RootDir L) :
    RootEntry L × RootDir L :=
  let found := sweep (fun i entries deleteFile =>
    deleteVisit filename { dir with entry := entries } i deleteFile) unassigned dir.entry
  (found.1, { dir with entry := found.2 })

/-- The chain walk of `fs_delete`, with `pFAT` read as the `uint16_t` array. The
index is the entry narrowed to `int16_t`, which keeps its bits. -/
def freeChain : Nat → BitVec 16 → Pointer FatBuffer → Except Fault (Pointer FatBuffer)
  | 0, _, pFAT => .ok pFAT
  | count + 1, currentIndex, pFAT =>
      match pFAT.deref with
      | .error fault => .error fault
      | .ok fat =>
          if 0 ≤ currentIndex.toInt ∧ currentIndex.toInt < fat.entries then
            let nextIndex := fat.get currentIndex.toInt.toNat
            freeChain count nextIndex (.live (fat.set currentIndex.toInt.toNat 0))
          else .error .outOfBounds

/-- `file_size / BLOCK_SIZE` converted to `unsigned`. -/
def RootEntry.fileBlckSize (e : RootEntry L) : Nat :=
  (e.fileSize.toInt.tdiv blockSize % 2 ^ 32).toNat

def fsDelete (unassigned : RootEntry L) (filename : CStr) (s : State L N) :
    Except Fault (Int × State L N) :=
  match s.fileSystem.deref with
  | .error fault => .error fault
  | .ok fs =>
      let found := deleteLoop unassigned filename fs.rootDir
      match freeChain found.1.fileBlckSize found.1.fileFirstIndex fs.fatBlocks with
      | .error fault => .error fault
      | .ok pFAT =>
          .ok (0, { s with fileSystem := .live { fs with rootDir := found.2, fatBlocks := pFAT } })

inductive LsLine where
  | title
  | usedEntries
  | entry (index : Nat) (filename : List UInt8)
deriving DecidableEq

def lsEntry (dir : RootDir L) (i : Fin fsFileMaxCount) : List LsLine :=
  if (dir.name i).length ≠ 0 then [.usedEntries, .entry i (dir.name i)] else [.usedEntries]

def fsLs (s : State L N) : Except Fault (List LsLine × Int) :=
  match s.fileSystem.deref with
  | .error fault => .error fault
  | .ok fs => .ok (.title :: (List.finRange fsFileMaxCount).flatMap (lsEntry fs.rootDir), 0)

/-! What the loops do to the directory. -/

def fillAll (filename : CStr) (dir : RootDir L) : RootDir L :=
  { dir with entry := fun i => if (dir i).isEmpty then (dir i).fill filename else dir i }

def resetAll (filename : CStr) (dir : RootDir L) : RootDir L :=
  { dir with entry := fun i => if dir.matchesName filename i then (dir i).reset else dir i }

theorem fillLoop_eq (filename : CStr) (dir : RootDir L) : fillLoop filename dir =
    (decide (∃ i, (dir i).isEmpty = true), fillAll filename dir) := by
  have hdir : { dir with entry := (fillAll filename dir).entry } = fillAll filename dir := rfl
  unfold fillLoop
  rw [sweep_eq (fillAll filename dir).entry fun i found => found || (dir i).isEmpty]
  · rw [foldl_flag]
    dsimp only
    rw [hdir]
  · intro i current found hcurrent
    rw [hcurrent i le_rfl]
    unfold fillVisit fillAll
    cases h : (dir i).isEmpty <;> simp [h]

theorem deleteLoop_eq (unassigned : RootEntry L) (filename : CStr) (dir : RootDir L) :
    Kept (dir.matchesName filename) dir.entry unassigned
        (deleteLoop unassigned filename dir).1 ∧
      (deleteLoop unassigned filename dir).2 = resetAll filename dir := by
  unfold deleteLoop
  rw [sweep_eq (resetAll filename dir).entry
    fun i kept => if dir.matchesName filename i then dir i else kept]
  · exact ⟨foldl_kept (dir.matchesName filename) dir.entry unassigned, rfl⟩
  · intro i current kept hcurrent
    -- the entries reset so far are in front of the name
    have hname : RootDir.matchesName filename { dir with entry := current } i =
        dir.matchesName filename i := by
      have hentries (j : Fin fsFileMaxCount) (hj : i ≤ j) :
          ({ dir with entry := current } : RootDir L) j = dir j := hcurrent j hj
      unfold RootDir.matchesName
      rw [RootDir.name_congr hentries rfl]
    unfold deleteVisit resetAll
    rw [hname]
    cases h : dir.matchesName filename i <;> simp [hcurrent i le_rfl, h]

section Names

variable {filename : CStr} {dir : RootDir L} {i : Fin fsFileMaxCount}

theorem fillAll_of_live (h : (dir i).live) : fillAll filename dir i = dir i :=
  if_neg (by simpa [RootEntry.live] using h)

theorem fillAll_of_empty (h : ¬ (dir i).live) : fillAll filename dir i = (dir i).fill filename :=
  if_pos (by simpa [RootEntry.live] using h)

theorem fillAll_allLive (filename : CStr) (dir : RootDir L) (i : Fin fsFileMaxCount) :
    (fillAll filename dir i).live := by
  by_cases h : (dir i).live
  · rwa [fillAll_of_live h]
  · rw [fillAll_of_empty h]
    exact RootEntry.live_fill filename _

theorem fillAll_full (h : ∀ i, (dir i).live) : fillAll filename dir = dir :=
  RootDir.ext (funext fun i => fillAll_of_live (h i)) rfl

theorem name_fillAll_of_live (h : (dir i).live) : (fillAll filename dir).name i = dir.name i := by
  rw [RootDir.name_live (fillAll_allLive filename dir i), fillAll_of_live h, RootDir.name_live h]

theorem name_fillAll_of_empty (h : ¬ (dir i).live) (hlength : filename.strlen < fsFilenameLen) :
    (fillAll filename dir).name i = filename.bytes := by
  apply (RootDir.name_eq_iff hlength).mpr
  rw [fillAll_of_empty h, RootEntry.text_fill _ _ hlength]

theorem resetAll_match (h : dir.name i = filename.bytes) :
    resetAll filename dir i = (dir i).reset :=
  if_pos (RootDir.matchesName_iff.mpr h)

theorem resetAll_other (h : dir.name i ≠ filename.bytes) : resetAll filename dir i = dir i :=
  if_neg (by simpa using h)

@[simp] theorem filename_resetAll (filename : CStr) (dir : RootDir L) (i : Fin fsFileMaxCount) :
    (resetAll filename dir i).filename = (dir i).filename := by
  by_cases h : dir.name i = filename.bytes
  · rw [resetAll_match h, RootEntry.filename_reset]
  · rw [resetAll_other h]

/-- What a reset entry holds behind its field is written over, so that only the names that
end in their fields are certain to be kept. -/
theorem name_resetAll_iff {text : List UInt8} (h : text.length < fsFilenameLen) :
    (resetAll filename dir).name i = text ↔ dir.name i = text := by
  rw [RootDir.name_eq_iff h, filename_resetAll, RootDir.name_eq_iff h]

theorem resetAll_live (h : (resetAll filename dir i).live) :
    resetAll filename dir i = dir i ∧ dir.name i ≠ filename.bytes := by
  by_cases hname : dir.name i = filename.bytes
  · rw [resetAll_match hname] at h
    exact absurd h (RootEntry.not_live_reset _)
  · exact ⟨resetAll_other hname, hname⟩

theorem name_resetAll_of_live (h : (resetAll filename dir i).live) :
    (resetAll filename dir).name i = dir.name i := by
  have hsame := (resetAll_live h).1
  rw [RootDir.name_live h, hsame, RootDir.name_live (hsame ▸ h)]

end Names

section Specifications

variable {s next : State L N} {fs : FsSystem L} {ret : Int}

theorem fsCreate_live {noReturn : Bool} {filename : CStr} (hlive : s.fileSystem = .live fs)
    (h : fsCreate noReturn filename s = .ok (ret, next)) :
    (ret = -1 ∧ next = s ∧ (isValidName noReturn filename = false ∨
        (∃ i, fs.rootDir.name i = filename.bytes) ∨ ∀ i, (fs.rootDir i).live)) ∨
      (ret = 0 ∧ isValidName noReturn filename = true ∧ filename.strlen < fsFilenameLen ∧
        (∀ i, fs.rootDir.name i ≠ filename.bytes) ∧ (∃ i, ¬ (fs.rootDir i).live) ∧
        next = { s with
          fileSystem := .live { fs with rootDir := fillAll filename fs.rootDir } }) := by
  unfold fsCreate at h
  simp only [hlive, Pointer.isNull_live, Pointer.deref_live, fillLoop_eq] at h
  cases hvalid : isValidName noReturn filename with
  | false =>
      simp only [hvalid, Bool.not_false, if_true, Bool.false_eq_true, if_false,
        Except.ok.injEq, Prod.mk.injEq] at h
      exact Or.inl ⟨h.1.symm, h.2.symm, Or.inl rfl⟩
  | true =>
      simp only [hvalid, Bool.not_true, Bool.false_eq_true, if_false] at h
      cases htaken : nameTaken filename fs.rootDir with
      | true =>
          simp only [htaken, if_true, Except.ok.injEq, Prod.mk.injEq] at h
          exact Or.inl ⟨h.1.symm, h.2.symm, Or.inr (Or.inl (nameTaken_iff.mp htaken))⟩
      | false =>
          by_cases hfree : ∃ i, (fs.rootDir i).isEmpty = true
          · by_cases hlength : filename.strlen < fsFilenameLen
            · simp only [htaken, hfree, hlength, decide_true, Bool.not_true, if_true,
                Bool.false_eq_true, if_false, Except.ok.injEq, Prod.mk.injEq] at h
              refine Or.inr ⟨h.1.symm, rfl, hlength, nameTaken_false_iff.mp htaken, ?_, h.2.symm⟩
              simpa [RootEntry.live] using hfree
            · simp only [htaken, hfree, hlength, decide_true, Bool.not_true, if_false,
                Bool.false_eq_true, reduceCtorEq] at h
          · simp only [htaken, hfree, decide_false, Bool.not_false, if_true,
              Bool.false_eq_true, if_false, Except.ok.injEq, Prod.mk.injEq] at h
            -- the loop has met no empty entry, so what it wrote back is what it read
            have hfull : ∀ i, (fs.rootDir i).live := by simpa [RootEntry.live] using hfree
            have hsame : fillAll filename fs.rootDir = fs.rootDir := fillAll_full hfull
            have hnext : next = s := by
              rw [← h.2, hsame, ← hlive]
            exact Or.inl ⟨h.1.symm, hnext, Or.inr (Or.inr hfull)⟩

theorem fsCreate_cases {noReturn : Bool} {filename : CStr}
    (h : fsCreate noReturn filename s = .ok (ret, next)) :
    (ret = -1 ∧ next = s) ∨ ∃ fs, s.fileSystem = .live fs := by
  cases hpointer : s.fileSystem with
  | null =>
      simp only [fsCreate, hpointer, Pointer.isNull_null, if_true, Except.ok.injEq,
        Prod.mk.injEq] at h
      exact Or.inl ⟨h.1.symm, h.2.symm⟩
  | live fs => exact Or.inr ⟨fs, rfl⟩
  | freed =>
      cases hvalid : isValidName noReturn filename with
      | false =>
          simp only [fsCreate, hpointer, hvalid, Pointer.isNull_freed, Bool.not_false, if_true,
            Bool.false_eq_true, if_false, Except.ok.injEq, Prod.mk.injEq] at h
          exact Or.inl ⟨h.1.symm, h.2.symm⟩
      | true => simp [fsCreate, hpointer, hvalid] at h

theorem fsDelete_cases {unassigned : RootEntry L} {filename : CStr}
    (h : fsDelete unassigned filename s = .ok (ret, next)) : ∃ fs, s.fileSystem = .live fs := by
  cases hpointer : s.fileSystem with
  | live fs => exact ⟨fs, rfl⟩
  | _ => simp [fsDelete, hpointer] at h

theorem fsCreate_fills {noReturn : Bool} {filename : CStr} (hlive : s.fileSystem = .live fs)
    (hvalid : isValidName noReturn filename = true) (hlength : filename.strlen < fsFilenameLen)
    (hfresh : ∀ i, fs.rootDir.name i ≠ filename.bytes) (hfree : ∃ i, ¬ (fs.rootDir i).live) :
    fsCreate noReturn filename s = .ok (0, { s with
      fileSystem := .live { fs with rootDir := fillAll filename fs.rootDir } }) := by
  have htaken := nameTaken_false_iff.mpr hfresh
  have hempty : ∃ i, (fs.rootDir i).isEmpty = true := by simpa [RootEntry.live] using hfree
  unfold fsCreate
  simp only [hlive, Pointer.isNull_live, Pointer.deref_live, fillLoop_eq, hvalid, htaken, hempty,
    hlength, decide_true, Bool.not_true, Bool.false_eq_true, if_false, if_true]

theorem fsCreate_total {noReturn : Bool} {filename : CStr} (hlive : s.fileSystem = .live fs)
    (hlength : isValidName noReturn filename = true → filename.strlen < fsFilenameLen) :
    ∃ out, fsCreate noReturn filename s = .ok out := by
  cases hvalid : isValidName noReturn filename with
  | false => exact ⟨(-1, s), by simp [fsCreate, hlive, hvalid]⟩
  | true =>
      unfold fsCreate
      simp only [hlive, hvalid, hlength hvalid, Pointer.isNull_live, Pointer.deref_live,
        Bool.not_true, Bool.false_eq_true, if_false, if_true]
      split
      · exact ⟨_, rfl⟩
      · split <;> exact ⟨_, rfl⟩

theorem fsDelete_live {unassigned : RootEntry L} {filename : CStr}
    (hlive : s.fileSystem = .live fs) (h : fsDelete unassigned filename s = .ok (ret, next)) :
    ∃ deleteFile pFAT,
      Kept (fs.rootDir.matchesName filename) fs.rootDir.entry unassigned deleteFile ∧
      freeChain deleteFile.fileBlckSize deleteFile.fileFirstIndex fs.fatBlocks = .ok pFAT ∧
      ret = 0 ∧ next = { s with
        fileSystem := .live { fs with
          rootDir := resetAll filename fs.rootDir, fatBlocks := pFAT } } := by
  unfold fsDelete at h
  simp only [hlive, Pointer.deref_live] at h
  obtain ⟨hkept, hdir⟩ := deleteLoop_eq unassigned filename fs.rootDir
  split at h
  · cases h
  · rename_i pFAT hchain
    simp only [Except.ok.injEq, Prod.mk.injEq] at h
    rw [hdir] at h
    exact ⟨_, pFAT, hkept, hchain, h.1.symm, h.2.symm⟩

theorem fsDelete_returns {unassigned : RootEntry L} {filename : CStr} {i : Fin fsFileMaxCount}
    {pFAT : Pointer FatBuffer} (hlive : s.fileSystem = .live fs)
    (hmatch : fs.rootDir.name i = filename.bytes)
    (hlast : ∀ j, i < j → fs.rootDir.name j ≠ filename.bytes)
    (hchain : freeChain (fs.rootDir i).fileBlckSize (fs.rootDir i).fileFirstIndex
      fs.fatBlocks = .ok pFAT) :
    fsDelete unassigned filename s = .ok (0, { s with
      fileSystem := .live { fs with
        rootDir := resetAll filename fs.rootDir, fatBlocks := pFAT } }) := by
  obtain ⟨hkept, hdir⟩ := deleteLoop_eq unassigned filename fs.rootDir
  have hfile := hkept.eq_last (RootDir.matchesName_iff.mpr hmatch) fun j hj =>
    RootDir.matchesName_false_iff.mpr (hlast j hj)
  unfold fsDelete
  simp only [hlive, Pointer.deref_live, hfile, hchain, hdir]

end Specifications

/-! The chain walk refines the walk over links. -/

theorem bitVec16_index (current : BitVec 16) (h : 0 ≤ current.toInt) :
    current.toInt.toNat = current.toNat := by
  rw [BitVec.toInt_eq_toNat_cond] at h ⊢
  split at h <;> omega

theorem freeChain_links {count : Nat} {current : BitVec 16} {fat : FatBuffer}
    {result : Pointer FatBuffer} (h : freeChain count current (.live fat) = .ok result) :
    ∃ fat', result = .live fat' ∧ fat'.size = fat.size ∧
      fat'.links = unlink 0 count current.toNat fat.links := by
  induction count generalizing current fat with
  | zero =>
      simp only [freeChain, Except.ok.injEq] at h
      exact ⟨fat, h.symm, rfl, rfl⟩
  | succ count ih =>
      simp only [freeChain, Pointer.deref_live] at h
      split at h
      · rename_i hindex
        obtain ⟨fat', rfl, hsize, hlinks⟩ := ih h
        refine ⟨fat', rfl, hsize, ?_⟩
        rw [hlinks, unlink, FatBuffer.links_set, bitVec16_index current hindex.1]
        rfl
      · contradiction

theorem freeChain_unallocated {count : Nat} {current : BitVec 16} {pFAT result : Pointer FatBuffer}
    (hfat : pFAT.isLive = false) (h : freeChain count current pFAT = .ok result) :
    result = pFAT := by
  cases count with
  | zero =>
      simp only [freeChain, Except.ok.injEq] at h
      exact h.symm
  | succ count => cases pFAT <;> simp [freeChain] at h hfat

theorem freeChain_isLive {count : Nat} {current : BitVec 16} {pFAT result : Pointer FatBuffer}
    (h : freeChain count current pFAT = .ok result) : result.isLive = pFAT.isLive := by
  cases hfat : pFAT.isLive with
  | true =>
      obtain ⟨fat, rfl⟩ := Pointer.isLive_iff.mp hfat
      obtain ⟨fat', rfl, _⟩ := freeChain_links h
      rfl
  | false => rw [freeChain_unallocated hfat h, hfat]

theorem freeChain_returns {fat : FatBuffer} {stop count : Nat} {current : BitVec 16}
    {chain : List Nat} (hlinked : Linked fat.links stop current.toNat chain)
    (hnodup : chain.Nodup) (hbounds : ∀ k ∈ chain, k < fat.entries ∧ k < 2 ^ 15)
    (hcount : count ≤ chain.length) :
    ∃ result, freeChain count current (.live fat) = .ok result := by
  induction chain generalizing fat current count with
  | nil =>
      rw [Nat.le_zero.mp hcount]
      exact ⟨_, rfl⟩
  | cons head tail ih =>
      cases count with
      | zero => exact ⟨_, rfl⟩
      | succ count =>
          obtain ⟨hhead, htail⟩ := hlinked
          obtain ⟨hfresh, hnodup⟩ := List.nodup_cons.mp hnodup
          obtain ⟨hin, hsigned⟩ := hbounds head List.mem_cons_self
          have htoInt : current.toInt = head := by
            rw [BitVec.toInt_eq_toNat_cond, hhead]
            omega
          have hguard : 0 ≤ current.toInt ∧ current.toInt < fat.entries := by omega
          have hnext : Linked (fat.set head 0).links stop (fat.get head).toNat tail := by
            apply htail.congr
            intro k hk
            have hne : k ≠ head := fun heq => hfresh (heq ▸ hk)
            simp [FatBuffer.links_set, hne]
          obtain ⟨result, hresult⟩ := ih hnext hnodup
            (fun k hk => hbounds k (List.mem_cons_of_mem _ hk)) (Nat.le_of_succ_le_succ hcount)
          refine ⟨result, ?_⟩
          simp only [freeChain, Pointer.deref_live]
          rw [if_pos hguard]
          simpa [htoInt] using hresult

end LibFs
