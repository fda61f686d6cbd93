import LibFs.Model.Api

/-! The name check. `isValidName` compares the last character of the name with NUL,
which it never is, so it never reaches its `return true`: on every name of legal
length the caller sees whatever is there when a function ends without a value. -/
namespace LibFs

open LibFs.Foundation

/-- The length as `isValidName` sees it, narrowed to `unsigned`. -/
def CStr.fileLen (filename : CStr) : Nat := filename.strlen % 2 ^ 32

theorem CStr.getD_ne_zero (filename : CStr) {k : Nat} (hk : k < filename.strlen) :
    filename.bytes.getD k 0 ≠ 0 := by
  have hlength : k < filename.bytes.length := hk
  rw [List.getD_eq_getElem?_getD, List.getElem?_eq_getElem hlength, Option.getD_some]
  intro hzero
  exact filename.nulFree (hzero ▸ List.getElem_mem hlength)

theorem isValidName_iff {noReturn : Bool} {filename : CStr} :
    isValidName noReturn filename = true ↔
      (0 < filename.fileLen ∧ filename.fileLen < fsFilenameLen) ∧ noReturn = true := by
  unfold isValidName
  dsimp only
  by_cases hlegal : 0 < filename.fileLen ∧ filename.fileLen < fsFilenameLen
  · have hle : filename.fileLen ≤ filename.strlen := Nat.mod_le _ _
    have hlast : filename.bytes.getD (filename.fileLen - 1) 0 ≠ 0 :=
      filename.getD_ne_zero (by omega)
    unfold CStr.fileLen at hlegal hlast ⊢
    rw [if_pos hlegal, if_neg hlast]
    exact ⟨fun h => ⟨hlegal, h⟩, And.right⟩
  · unfold CStr.fileLen at hlegal ⊢
    rw [if_neg hlegal]
    exact iff_of_false Bool.false_ne_true fun h => hlegal h.1

def CStr.Legal (filename : CStr) : Prop :=
  1 ≤ filename.strlen ∧ filename.strlen ≤ fsFilenameLen - 1

theorem CStr.Legal.lt {filename : CStr} (h : filename.Legal) :
    filename.strlen < fsFilenameLen := by
  have hle := h.2
  unfold fsFilenameLen at hle ⊢
  omega

/-- What the check of `fs_create` and `fs_open` promises of a name, for every file
system it may be used on. -/
structure NameCheckMeets (L : Layout) (N : Nat) (noReturn : Bool) (filename : CStr) : Prop where
  accepts : isValidName noReturn filename = true ↔ filename.Legal
  creates : filename.Legal → ∀ (s : State L N) (fs : FsSystem L), Mounted s fs →
    (∃ i, ¬ (fs.rootDir i).live) → (∀ i, fs.rootDir.name i ≠ filename.bytes) →
      ∃ next, fsCreate noReturn filename s = .ok (0, next)
  fits : isValidName noReturn filename = true → ∀ field : CharArray fsFilenameLen,
    filename.strlen < fsFilenameLen ∧ (field.copy filename).text = filename.bytes
  returns : ∀ (s : State L N) (fs : FsSystem L), Mounted s fs →
    (∃ out, fsCreate noReturn filename s = .ok out) ∧
      (s.fdOpenCount ≤ N → ∃ out, fsOpen noReturn filename s = .ok out)

theorem nameCheckMeets_of_accepts {noReturn : Bool} {filename : CStr}
    (haccepts : isValidName noReturn filename = true ↔ filename.Legal) :
    NameCheckMeets L N noReturn filename where
  accepts := haccepts
  creates hlegal s fs hmount hfree hfresh :=
    ⟨_, fsCreate_fills hmount.loaded (haccepts.mpr hlegal) hlegal.lt hfresh hfree⟩
  fits hvalid field :=
    ⟨(haccepts.mp hvalid).lt, field.text_copy filename (haccepts.mp hvalid).lt⟩
  returns s fs hmount := by
    have hlength (hvalid : isValidName noReturn filename = true) :
        filename.strlen < fsFilenameLen := (haccepts.mp hvalid).lt
    refine ⟨fsCreate_total hmount.loaded hlength, fun hcount => ?_⟩
    obtain ⟨ret, next, hopen⟩ := fsOpen_total hmount.loaded hlength hcount
    exact ⟨_, hopen⟩

theorem nameCheckMeets_iff {noReturn : Bool} {filename : CStr} :
    NameCheckMeets L N noReturn filename ↔
      (isValidName noReturn filename = true ↔ filename.Legal) :=
  ⟨NameCheckMeets.accepts, nameCheckMeets_of_accepts⟩

/-- Whatever value the check may end with, it does what is promised of a name if and only if
the name's length, narrowed to 32 bits, is illegal: then it ends with a value of its own. -/
theorem nameCheck_meets_iff (L : Layout) (N : Nat) (filename : CStr) :
    (∀ noReturn, NameCheckMeets L N noReturn filename) ↔
      filename.fileLen = 0 ∨ fsFilenameLen ≤ filename.fileLen := by
  have hle : filename.fileLen ≤ filename.strlen := Nat.mod_le _ _
  have hlegal : filename.Legal → 0 < filename.fileLen ∧ filename.fileLen < fsFilenameLen := by
    rintro ⟨hpos, hshort⟩
    have hmod : filename.fileLen = filename.strlen := by
      refine Nat.mod_eq_of_lt ?_
      unfold fsFilenameLen at hshort
      omega
    unfold fsFilenameLen at hshort ⊢
    omega
  simp only [nameCheckMeets_iff, isValidName_iff]
  constructor
  · intro hmeets
    by_contra hwithin
    -- a name within the bounds is refused or accepted as the missing value is
    have hrefused : ¬ filename.Legal := fun h => nomatch ((hmeets false).mpr h).2
    exact hrefused ((hmeets true).mp ⟨by omega, rfl⟩)
  · intro hbounds noReturn
    refine iff_of_false (fun haccepted => ?_) fun h => ?_
    · omega
    · have hwithin := hlegal h
      omega

theorem CStr.exists_strlen (n : Nat) : ∃ filename : CStr, filename.strlen = n :=
  ⟨⟨List.replicate n 97, by simp [List.mem_replicate]⟩, List.length_replicate⟩

/-- Whatever value the check ends with, some name is treated wrongly: false refuses
"a", and true accepts a name of 2 ^ 32 + 1 characters, which does not fit its field. -/
theorem nameCheck_refuted :
    (¬ ∀ filename : CStr, NameCheckMeets .packed 32 false filename) ∧
      ¬ ∀ filename : CStr, NameCheckMeets .packed 32 true filename := by
  constructor
  · intro hmeets
    have hvalid := (hmeets nameA).accepts.mpr ⟨by decide, by decide⟩
    exact absurd (isValidName_iff.mp hvalid).2 (by decide)
  · intro hmeets
    obtain ⟨filename, hlength⟩ := CStr.exists_strlen (2 ^ 32 + 1)
    have hvalid : isValidName true filename = true := by
      rw [isValidName_iff, CStr.fileLen, hlength]
      decide
    have hfits := ((hmeets filename).fits hvalid fun _ => 0).1
    rw [hlength] at hfits
    exact absurd hfits (by decide)

end LibFs
