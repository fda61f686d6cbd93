import LibFs.Model.Directory

/-! The descriptor half of `fs.c`: `fs_open`, `isValidFD`, `fs_close`, `fs_stat`
and `fs_lseek`, with the calls of `isvalidFD` read as `isValidFD`. -/
namespace LibFs

open LibFs.Foundation

def fdSlot (N : Nat) (fd : Int) : Option (Fin N) :=
  if h : 0 ≤ fd ∧ fd < N then some ⟨fd.toNat, by omega⟩ else none

theorem fdSlot_eq_some {fd : Int} {i : Fin N} : fdSlot N fd = some i ↔ fd = i := by
  unfold fdSlot
  have hi := i.isLt
  split
  · simp only [Option.some.injEq, Fin.ext_iff]
    omega
  · simp only [reduceCtorEq, false_iff]
    omega

@[simp] theorem fdSlot_natCast (i : Fin N) : fdSlot N (i : Nat) = some i :=
  fdSlot_eq_some.mpr rfl

namespace State

def setFd (s : State L N) (i : Fin N) (entry : FdTableEntry) : State L N :=
  { s with fdTable := Function.update s.fdTable i entry }

def writeFd (s : State L N) (fd : Int) (change : FdTableEntry → FdTableEntry) :
    Except Fault (State L N) :=
  match fdSlot N fd with
  | none => .error .outOfBounds
  | some i => .ok (s.setFd i (change (s.fdTable i)))

@[simp] theorem setFd_fileSystem (s : State L N) (i : Fin N) (entry : FdTableEntry) :
    (s.setFd i entry).fileSystem = s.fileSystem := rfl
@[simp] theorem setFd_fdOpenCount (s : State L N) (i : Fin N) (entry : FdTableEntry) :
    (s.setFd i entry).fdOpenCount = s.fdOpenCount := rfl
@[simp] theorem setFd_device (s : State L N) (i : Fin N) (entry : FdTableEntry) :
    (s.setFd i entry).device = s.device := rfl
@[simp] theorem setFd_same (s : State L N) (i : Fin N) (entry : FdTableEntry) :
    (s.setFd i entry).fdTable i = entry := by
  simp [setFd]
theorem setFd_ne (s : State L N) {i j : Fin N} (entry : FdTableEntry) (h : j ≠ i) :
    (s.setFd i entry).fdTable j = s.fdTable j := by
  simp [setFd, h]

@[simp] theorem writeFd_natCast (s : State L N) (i : Fin N)
    (change : FdTableEntry → FdTableEntry) :
    s.writeFd (i : Nat) change = .ok (s.setFd i (change (s.fdTable i))) := by
  simp [writeFd]

end State

/-- What `fs_open` makes of a slot. The slot is not given to a name that does not fit. -/
def FdTableEntry.opened (filename : CStr) (entry : FdTableEntry) : FdTableEntry :=
  if h : filename.strlen < fsFilenameLen then
    ⟨entry.filename.copy filename, entry.filename.terminated_copy filename h, 0, true⟩
  else entry

def FdTableEntry.closed (entry : FdTableEntry) : FdTableEntry :=
  ⟨entry.filename.clearFirst, CharArray.terminated_clearFirst (n := 15) entry.filename, 0, false⟩

@[simp] theorem FdTableEntry.text_opened (filename : CStr) (entry : FdTableEntry)
    (h : filename.strlen < fsFilenameLen) :
    (entry.opened filename).filename.text = filename.bytes := by
  simp [opened, h]

theorem FdTableEntry.offset_opened {filename : CStr} (entry : FdTableEntry)
    (h : filename.strlen < fsFilenameLen) : (entry.opened filename).offset = 0 := by
  simp [opened, h]

@[simp] theorem FdTableEntry.text_closed (entry : FdTableEntry) :
    entry.closed.filename.text = [] :=
  CharArray.text_clearFirst (n := 15) entry.filename

namespace State

def openFd (s : State L N) (i : Fin N) (filename : CStr) : State L N :=
  { s.setFd i ((s.fdTable i).opened filename) with fdOpenCount := s.fdOpenCount + 1 }

@[simp] theorem openFd_fileSystem (s : State L N) (i : Fin N) (filename : CStr) :
    (s.openFd i filename).fileSystem = s.fileSystem := rfl
@[simp] theorem openFd_fdOpenCount (s : State L N) (i : Fin N) (filename : CStr) :
    (s.openFd i filename).fdOpenCount = s.fdOpenCount + 1 := rfl
@[simp] theorem openFd_device (s : State L N) (i : Fin N) (filename : CStr) :
    (s.openFd i filename).device = s.device := rfl
@[simp] theorem openFd_same (s : State L N) (i : Fin N) (filename : CStr) :
    (s.openFd i filename).fdTable i = (s.fdTable i).opened filename :=
  s.setFd_same i _
theorem openFd_ne (s : State L N) {i j : Fin N} (filename : CStr) (h : j ≠ i) :
    (s.openFd i filename).fdTable j = s.fdTable j :=
  s.setFd_ne _ h

end State

/-- The existence test answers -1 when a name does match. -/
def fsOpen (noReturn : Bool) (filename : CStr) (s : State L N) :
    Except Fault (Int × State L N) :=
  if s.fileSystem.isNull then .ok (-1, s)
  else if !isValidName noReturn filename then .ok (-1, s)
  else if s.fdOpenCount = N then .ok (-1, s)
  else
    match s.fileSystem.deref with
    | .error fault => .error fault
    | .ok fs =>
        if nameTaken filename fs.rootDir then .ok (-1, s)
        else if filename.strlen < fsFilenameLen then
          match s.writeFd s.fdOpenCount (FdTableEntry.opened filename) with
          | .error fault => .error fault
          | .ok written =>
              .ok (s.fdOpenCount, { written with fdOpenCount := s.fdOpenCount + 1 })
        else .error .outOfBounds

/-- `strlen(fd_table[fd].filename) == 0` is the test for an unused slot. -/
def isValidFD (fd : Int) (s : State L N) : Bool :=
  if s.fileSystem.isNull then false
  else
    match fdSlot N fd with
    | none => false
    | some i => (s.fdTable i).filename.text.length != 0

def fsClose (fd : Int) (s : State L N) : Except Fault (Int × State L N) :=
  if !isValidFD fd s then .ok (-1, s)
  else
    match s.writeFd fd FdTableEntry.closed with
    | .error fault => .error fault
    | .ok written => .ok (0, written)

def fdName (fd : Int) (s : State L N) : List UInt8 :=
  match fdSlot N fd with
  | none => []
  | some i => (s.fdTable i).filename.text

/-- The entry `fs_stat` stops at; `none` is the section it should not normally
reach. -/
def statEntry (fd : Int) (fs : FsSystem L) (s : State L N) : Option (Fin fsFileMaxCount) :=
  firstSlot fun i => fdName fd s == fs.rootDir.name i

def fsStat (fd : Int) (s : State L N) : Except Fault Int :=
  if !isValidFD fd s then .ok (-1)
  else
    match s.fileSystem.deref with
    | .error fault => .error fault
    | .ok fs =>
        match statEntry fd fs s with
        | some i => .ok (fs.rootDir i).fileSize.toInt
        | none => .ok 0

/-- The comparison converts the `int` to `size_t`. -/
def fsLseek (fd : Int) (offset : BitVec 64) (s : State L N) : Except Fault (Int × State L N) :=
  let isValid := !isValidFD fd s
  if !isValid then .ok (-1, s)
  else
    match fsStat fd s with
    | .error fault => .error fault
    | .ok size =>
        if BitVec.ofInt 64 size < offset then .ok (-1, s)
        else
          match s.writeFd fd fun entry => { entry with offset := offset } with
          | .error fault => .error fault
          | .ok written => .ok (0, written)

/-- `fs_write` is still to be written in the source and returns 0. -/
def fsWrite (_fd _count : Int) (s : State L N) : Int × State L N := (0, s)

/-- So is `fs_read`, which leaves the buffer as it is. -/
def fsRead (_fd _count : Int) (s : State L N) : Int × State L N := (0, s)

section Specifications

variable {s next : State L N} {fs : FsSystem L} {ret fd : Int}

theorem isValidFD_iff : isValidFD fd s = true ↔
    s.fileSystem.isNull = false ∧ ∃ i : Fin N, fd = i ∧ (s.fdTable i).filename.text ≠ [] := by
  unfold isValidFD
  cases hnull : s.fileSystem.isNull with
  | true => simp
  | false =>
      simp only [Bool.false_eq_true, if_false, true_and]
      split
      · rename_i hslot
        simp only [Bool.false_eq_true, false_iff, not_exists, not_and]
        intro i hi
        rw [fdSlot_eq_some.mpr hi] at hslot
        contradiction
      · rename_i i hslot
        have hfd := fdSlot_eq_some.mp hslot
        constructor
        · intro h
          exact ⟨i, hfd, by simpa using h⟩
        · rintro ⟨j, hj, htext⟩
          have heq : i = j := by
            apply Fin.ext
            omega
          subst heq
          simpa using htext

theorem isValidFD_slot (hnull : s.fileSystem.isNull = false) (i : Fin N) :
    isValidFD (i : Nat) s = true ↔ (s.fdTable i).filename.text ≠ [] := by
  simp [isValidFD, hnull]

theorem fdName_ne_nil (h : isValidFD fd s = true) :
    fdName fd s ≠ [] := by
  obtain ⟨_, i, rfl, htext⟩ := isValidFD_iff.mp h
  simpa [fdName] using htext

theorem isValidFD_openFd {filename : CStr} (i : Fin N) (hlive : s.fileSystem = .live fs)
    (hname : filename.bytes ≠ []) (hlength : filename.strlen < fsFilenameLen) :
    isValidFD (i : Nat) (s.openFd i filename) = true := by
  apply (isValidFD_slot (by simp [hlive]) i).mpr
  simpa [hlength] using hname

theorem fsOpen_live {noReturn : Bool} {filename : CStr} (hlive : s.fileSystem = .live fs)
    (h : fsOpen noReturn filename s = .ok (ret, next)) :
    (ret = -1 ∧ next = s ∧ (isValidName noReturn filename = false ∨ s.fdOpenCount = N ∨
        ∃ i, fs.rootDir.name i = filename.bytes)) ∨
      (isValidName noReturn filename = true ∧ filename.strlen < fsFilenameLen ∧
        (∀ i, fs.rootDir.name i ≠ filename.bytes) ∧
        ∃ i : Fin N, s.fdOpenCount = i ∧ ret = i ∧
          next = s.openFd i filename) := by
  unfold fsOpen at h
  simp only [hlive, Pointer.isNull_live, Pointer.deref_live, Bool.false_eq_true, if_false] at h
  cases hvalid : isValidName noReturn filename with
  | false =>
      simp only [hvalid, Bool.not_false, if_true, Except.ok.injEq, Prod.mk.injEq] at h
      exact Or.inl ⟨h.1.symm, h.2.symm, Or.inl rfl⟩
  | true =>
      simp only [hvalid, Bool.not_true, Bool.false_eq_true, if_false] at h
      split at h
      · rename_i hfull
        simp only [Except.ok.injEq, Prod.mk.injEq] at h
        exact Or.inl ⟨h.1.symm, h.2.symm, Or.inr (Or.inl hfull)⟩
      · cases htaken : nameTaken filename fs.rootDir with
        | true =>
            simp only [htaken, if_true, Except.ok.injEq, Prod.mk.injEq] at h
            exact Or.inl ⟨h.1.symm, h.2.symm, Or.inr (Or.inr (nameTaken_iff.mp htaken))⟩
        | false =>
            by_cases hlength : filename.strlen < fsFilenameLen
            · simp only [htaken, hlength, Bool.false_eq_true, if_false, if_true] at h
              unfold State.writeFd at h
              cases hslot : fdSlot N s.fdOpenCount with
              | none => simp [hslot] at h
              | some i =>
                  simp only [hslot, Except.ok.injEq, Prod.mk.injEq] at h
                  have hfd := fdSlot_eq_some.mp hslot
                  have hcount : s.fdOpenCount = i := by omega
                  refine Or.inr ⟨rfl, hlength, nameTaken_false_iff.mp htaken, i, hcount, ?_,
                    h.2.symm⟩
                  rw [← h.1, hcount]
            · simp only [htaken, hlength, Bool.false_eq_true, if_false, reduceCtorEq] at h

def OpenRefused (noReturn : Bool) (filename : CStr) (s : State L N) : Prop :=
  s.fileSystem.isNull = true ∨ isValidName noReturn filename = false ∨ s.fdOpenCount = N ∨
    ∃ fs i, s.fileSystem = .live fs ∧ fs.rootDir.name i = filename.bytes

theorem fsOpen_cases {noReturn : Bool} {filename : CStr}
    (h : fsOpen noReturn filename s = .ok (ret, next)) :
    (ret = -1 ∧ next = s ∧ OpenRefused noReturn filename s) ∨
      (isValidName noReturn filename = true ∧ filename.strlen < fsFilenameLen ∧
        (∃ fs, s.fileSystem = .live fs ∧ ∀ i, fs.rootDir.name i ≠ filename.bytes) ∧
        ∃ i : Fin N, s.fdOpenCount = i ∧ ret = i ∧
          next = s.openFd i filename) := by
  cases hpointer : s.fileSystem with
  | null =>
      simp only [fsOpen, hpointer, Pointer.isNull_null, if_true, Except.ok.injEq,
        Prod.mk.injEq] at h
      exact Or.inl ⟨h.1.symm, h.2.symm, Or.inl (by simp [hpointer])⟩
  | live fs =>
      rcases fsOpen_live hpointer h with ⟨hret, hnext, hrefused⟩ | ⟨hvalid, hlength, hfresh, hslot⟩
      · refine Or.inl ⟨hret, hnext, Or.inr ?_⟩
        rcases hrefused with hinvalid | hfull | ⟨i, hi⟩
        · exact Or.inl hinvalid
        · exact Or.inr (Or.inl hfull)
        · exact Or.inr (Or.inr ⟨fs, i, hpointer, hi⟩)
      · exact Or.inr ⟨hvalid, hlength, ⟨fs, rfl, hfresh⟩, hslot⟩
  | freed =>
      cases hvalid : isValidName noReturn filename with
      | false =>
          simp only [fsOpen, hpointer, hvalid, Pointer.isNull_freed, Bool.not_false, if_true,
            Bool.false_eq_true, if_false, Except.ok.injEq, Prod.mk.injEq] at h
          exact Or.inl ⟨h.1.symm, h.2.symm, Or.inr (Or.inl hvalid)⟩
      | true =>
          by_cases hfull : s.fdOpenCount = N
          · simp only [fsOpen, hpointer, hvalid, hfull, Pointer.isNull_freed, Bool.not_true,
              if_true, Bool.false_eq_true, if_false, Except.ok.injEq, Prod.mk.injEq] at h
            exact Or.inl ⟨h.1.symm, h.2.symm, Or.inr (Or.inr (Or.inl hfull))⟩
          · simp [fsOpen, hpointer, hvalid, hfull] at h

theorem fsOpen_returns {noReturn : Bool} {filename : CStr} {i : Fin N}
    (hlive : s.fileSystem = .live fs) (hvalid : isValidName noReturn filename = true)
    (hlength : filename.strlen < fsFilenameLen)
    (hfresh : ∀ i, fs.rootDir.name i ≠ filename.bytes) (hcount : s.fdOpenCount = i) :
    fsOpen noReturn filename s = .ok ((i : Nat), s.openFd i filename) := by
  have hfree : s.fdOpenCount ≠ N := by
    have hi := i.isLt
    omega
  have htaken := nameTaken_false_iff.mpr hfresh
  unfold fsOpen
  simp only [hlive, Pointer.isNull_live, Pointer.deref_live, hvalid, hfree, htaken, hlength,
    Bool.not_true, Bool.false_eq_true, if_false, if_true]
  simp [hcount, State.openFd]

theorem fsOpen_total {noReturn : Bool} {filename : CStr} (hlive : s.fileSystem = .live fs)
    (hlength : isValidName noReturn filename = true → filename.strlen < fsFilenameLen)
    (hcount : s.fdOpenCount ≤ N) :
    ∃ ret next, fsOpen noReturn filename s = .ok (ret, next) := by
  cases hvalid : isValidName noReturn filename with
  | false => exact ⟨-1, s, by simp [fsOpen, hlive, hvalid]⟩
  | true =>
      by_cases hfull : s.fdOpenCount = N
      · exact ⟨-1, s, by simp [fsOpen, hlive, hvalid, hfull]⟩
      · cases htaken : nameTaken filename fs.rootDir with
        | true => exact ⟨-1, s, by simp [fsOpen, hlive, hvalid, hfull, htaken]⟩
        | false =>
            have hslot : s.fdOpenCount < N := by omega
            exact ⟨_, _, fsOpen_returns (i := ⟨s.fdOpenCount, hslot⟩) hlive hvalid
              (hlength hvalid) (nameTaken_false_iff.mp htaken) rfl⟩

theorem fsOpen_refused {noReturn : Bool} {filename : CStr}
    (h : fsOpen noReturn filename s = .ok (ret, next))
    (hrefused : OpenRefused noReturn filename s) :
    ret = -1 ∧ next = s := by
  rcases fsOpen_cases h with ⟨hret, hnext, _⟩ | ⟨hvalid, _, ⟨fs, hlive, hfresh⟩, i, hcount, _⟩
  · exact ⟨hret, hnext⟩
  · exfalso
    have hi := i.isLt
    rcases hrefused with hnull | hinvalid | hfull | ⟨fs', j, hlive', hj⟩
    · simp [hlive] at hnull
    · simp [hvalid] at hinvalid
    · omega
    · rw [hlive] at hlive'
      cases hlive'
      exact hfresh j hj

theorem fsClose_cases (h : fsClose fd s = .ok (ret, next)) :
    (ret = -1 ∧ next = s ∧ isValidFD fd s = false) ∨
      (ret = 0 ∧ isValidFD fd s = true ∧
        ∃ i : Fin N, fd = i ∧ next = s.setFd i (s.fdTable i).closed) := by
  unfold fsClose at h
  cases hvalid : isValidFD fd s with
  | false =>
      simp only [hvalid, Bool.not_false, if_true, Except.ok.injEq, Prod.mk.injEq] at h
      exact Or.inl ⟨h.1.symm, h.2.symm, rfl⟩
  | true =>
      obtain ⟨_, i, rfl, _⟩ := isValidFD_iff.mp hvalid
      simp only [hvalid, Bool.not_true, Bool.false_eq_true, if_false, State.writeFd_natCast,
        Except.ok.injEq, Prod.mk.injEq] at h
      exact Or.inr ⟨h.1.symm, rfl, i, rfl, h.2.symm⟩

theorem fsClose_closes {i : Fin N} (hvalid : isValidFD (i : Nat) s = true) :
    fsClose (i : Nat) s = .ok (0, s.setFd i (s.fdTable i).closed) := by
  simp [fsClose, hvalid]

theorem fsClose_returns (fd : Int) (s : State L N) :
    ∃ ret next, fsClose fd s = .ok (ret, next) := by
  cases hvalid : isValidFD fd s with
  | false => exact ⟨-1, s, by simp [fsClose, hvalid]⟩
  | true =>
      obtain ⟨_, i, rfl, _⟩ := isValidFD_iff.mp hvalid
      exact ⟨_, _, fsClose_closes hvalid⟩

theorem fsStat_invalid (h : isValidFD fd s = false) : fsStat fd s = .ok (-1) := by
  simp [fsStat, h]

theorem fsStat_returns (fd : Int) (hlive : s.fileSystem = .live fs) :
    ∃ size, fsStat fd s = .ok size := by
  unfold fsStat
  simp only [hlive, Pointer.deref_live]
  split
  · exact ⟨_, rfl⟩
  · split <;> exact ⟨_, rfl⟩

/-- `fs_lseek` refuses the descriptors that are valid. On any other one the bound
it compares with is the largest `size_t`, so nothing but the table's range
stands in the way of the assignment. -/
theorem fsLseek_cases {offset : BitVec 64} (h : fsLseek fd offset s = .ok (ret, next)) :
    (ret = -1 ∧ next = s ∧ isValidFD fd s = true) ∨
      (ret = 0 ∧ isValidFD fd s = false ∧
        ∃ i : Fin N, fd = i ∧
          next = s.setFd i { s.fdTable i with offset := offset }) := by
  unfold fsLseek at h
  cases hvalid : isValidFD fd s with
  | true =>
      simp only [hvalid, Bool.not_true, Bool.not_false, if_true, Except.ok.injEq,
        Prod.mk.injEq] at h
      exact Or.inl ⟨h.1.symm, h.2.symm, rfl⟩
  | false =>
      have hmax : ¬ BitVec.ofInt 64 (-1) < offset := by
        have hlt := offset.isLt
        simp only [BitVec.lt_def, BitVec.reduceOfInt, BitVec.toNat_ofNat]
        omega
      simp only [hvalid, fsStat_invalid hvalid, hmax, Bool.not_false, Bool.not_true,
        Bool.false_eq_true, if_false] at h
      unfold State.writeFd at h
      cases hslot : fdSlot N fd with
      | none => simp [hslot] at h
      | some i =>
          simp only [hslot, Except.ok.injEq, Prod.mk.injEq] at h
          exact Or.inr ⟨h.1.symm, rfl, i, fdSlot_eq_some.mp hslot, h.2.symm⟩

theorem fsLseek_returns (i : Fin N) (offset : BitVec 64) :
    ∃ ret next, fsLseek (i : Nat) offset s = .ok (ret, next) := by
  unfold fsLseek
  cases hvalid : isValidFD (i : Nat) s with
  | true => exact ⟨-1, s, rfl⟩
  | false =>
      simp only [fsStat_invalid hvalid, Bool.not_false, Bool.not_true, Bool.false_eq_true, if_false,
        State.writeFd_natCast]
      split <;> exact ⟨_, _, rfl⟩

end Specifications

end LibFs
