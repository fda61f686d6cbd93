import LibFs.Model.Types
import Mathlib.Data.List.FinRange

/-! The names in the root directory as `strcmp`, `strlen` and `printf` read them. A name
ends at the first NUL from the start of its field on, wherever that is: in the field,
further on in the entry, in one of the entries behind it or behind the array. -/
namespace LibFs

open LibFs.Foundation

namespace RootDir

/-- The memory from an entry on, up to a NUL behind the array. -/
def bytesFrom (dir : RootDir L) (i : Fin fsFileMaxCount) : List UInt8 :=
  ((List.finRange fsFileMaxCount).drop i).flatMap (fun j => (dir j).bytes) ++ dir.behind.bytes

def name (dir : RootDir L) (i : Fin fsFileMaxCount) : List UInt8 := stringAt (dir.bytesFrom i)

/-- `!strcmp(root_dir[i].filename, filename)`. -/
def matchesName (filename : CStr) (dir : RootDir L) (i : Fin fsFileMaxCount) : Bool :=
  dir.name i == filename.bytes

@[simp] theorem matchesName_iff {filename : CStr} {dir : RootDir L} {i : Fin fsFileMaxCount} :
    dir.matchesName filename i = true ↔ dir.name i = filename.bytes := by
  simp [matchesName]

theorem matchesName_false_iff {filename : CStr} {dir : RootDir L} {i : Fin fsFileMaxCount} :
    dir.matchesName filename i = false ↔ dir.name i ≠ filename.bytes := by
  simp [matchesName]

variable {dir dir' : RootDir L} {i : Fin fsFileMaxCount}

theorem bytesFrom_cons (dir : RootDir L) (i : Fin fsFileMaxCount) :
    dir.bytesFrom i = (dir i).bytes ++
      (((List.finRange fsFileMaxCount).drop (i + 1)).flatMap (fun j => (dir j).bytes) ++
        dir.behind.bytes) := by
  have hdrop : (List.finRange fsFileMaxCount).drop i =
      i :: (List.finRange fsFileMaxCount).drop (i + 1) := by
    rw [List.drop_eq_getElem_cons (by simp)]
    simp
  simp [bytesFrom, hdrop]

theorem name_congr (hentries : ∀ j, i ≤ j → dir j = dir' j) (hbehind : dir.behind = dir'.behind) :
    dir.name i = dir'.name i := by
  have hbytes : ∀ j ∈ (List.finRange fsFileMaxCount).drop i, (dir j).bytes = (dir' j).bytes := by
    intro j hj
    obtain ⟨k, hk, rfl⟩ := List.mem_iff_getElem.mp hj
    rw [hentries]
    simp [Fin.le_def]
  unfold name bytesFrom
  rw [List.flatMap_congr hbytes, hbehind]

end RootDir

namespace RootEntry

/-- The string of an entry that holds the end of its name. -/
def ownName (e : RootEntry L) : List UInt8 := stringAt e.bytes

theorem bytes_eq (e : RootEntry L) : e.bytes = List.ofFn e.filename ++
    (List.range (L.entrySize - fsFilenameLen)).map fun p => e.byte (fsFilenameLen + p) := by
  have hfield : (List.range fsFilenameLen).map e.byte = List.ofFn e.filename := by
    apply List.ext_getElem
    · simp
    · intro p hp _
      have hlt : p < fsFilenameLen := by simpa using hp
      simp [byte, hlt]
  have hsize : L.entrySize = fsFilenameLen + (L.entrySize - fsFilenameLen) := by
    unfold Layout.entrySize fsFilenameLen
    omega
  unfold bytes
  rw [hsize, List.range_add, List.map_append, hfield, List.map_map]
  simp

theorem emptyByte_mem_bytes (e : RootEntry L) : e.emptyByte ∈ e.bytes := by
  apply List.mem_map.mpr
  refine ⟨32, List.mem_range.mpr ?_, by simp [byte, fsFilenameLen]⟩
  unfold Layout.entrySize
  omega

/-- The flag of a live entry is a NUL behind its name. -/
theorem live.ends {e : RootEntry L} (h : e.live) : 0 ∈ e.bytes := by
  have hzero : e.emptyByte = 0 := by simpa [live, isEmpty] using h
  simpa [hzero] using e.emptyByte_mem_bytes

theorem ends_of_terminated {e : RootEntry L} (h : e.filename.Terminated) : 0 ∈ e.bytes := by
  rw [bytes_eq]
  exact List.mem_append_left _ h

theorem ownName_terminated {e : RootEntry L} (h : e.filename.Terminated) :
    e.ownName = e.filename.text := by
  unfold ownName
  rw [bytes_eq, stringAt_append h]
  rfl

end RootEntry

namespace RootDir

variable {dir dir' : RootDir L} {i : Fin fsFileMaxCount}

theorem name_own (h : 0 ∈ (dir i).bytes) : dir.name i = (dir i).ownName := by
  unfold name
  rw [bytesFrom_cons, stringAt_append h]
  rfl

theorem name_live (h : (dir i).live) : dir.name i = (dir i).ownName := name_own h.ends

theorem name_terminated (h : (dir i).filename.Terminated) :
    dir.name i = (dir i).filename.text :=
  (name_own (RootEntry.ends_of_terminated h)).trans (RootEntry.ownName_terminated h)

theorem name_unterminated (h : ¬ (dir i).filename.Terminated) :
    ∃ rest, dir.name i = List.ofFn (dir i).filename ++ rest := by
  unfold name
  rw [bytesFrom_cons, RootEntry.bytes_eq, List.append_assoc, stringAt_append_nulFree h]
  exact ⟨_, rfl⟩

theorem name_eq_iff {text : List UInt8} (h : text.length < fsFilenameLen) :
    dir.name i = text ↔ (dir i).filename.text = text := by
  by_cases hends : (dir i).filename.Terminated
  · rw [name_terminated hends]
  · obtain ⟨rest, hname⟩ := name_unterminated hends
    rw [hname, CharArray.text_unterminated hends]
    constructor
    · rintro rfl
      simp at h
    · rintro rfl
      simp at h

end RootDir

end LibFs
