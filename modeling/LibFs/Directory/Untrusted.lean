import LibFs.Directory.Deletion
import LibFs.Mounting.RoundTrip

/-! Deleting on an image nobody has checked. A mount looks at the superblock only, so the
size and the first index of an entry and every link of the FAT are arbitrary; the walk
zeroes what it visits, and a chain that closes on itself sends it on from entry 0. -/
namespace LibFs

open LibFs.Foundation

/-- The FAT indices the chain walk uses, up to the first one outside the array. -/
def walkIndices : Nat → BitVec 16 → FatBuffer → List Int
  | 0, _, _ => []
  | count + 1, current, fat =>
      if 0 ≤ current.toInt ∧ current.toInt < fat.entries then
        current.toInt ::
          walkIndices count (fat.get current.toInt.toNat) (fat.set current.toInt.toNat 0)
      else [current.toInt]

def deletedFile (unassigned : RootEntry L) (filename : CStr) (dir : RootDir L) : RootEntry L :=
  (deleteLoop unassigned filename dir).1

/-- What a deletion should keep to, the FAT having `fat_blck_amount` blocks. -/
structure StaysInside (unassigned : RootEntry L) (filename : CStr) (fs : FsSystem L)
    (fat : FatBuffer) : Prop where
  indices : ∀ x ∈ walkIndices (deletedFile unassigned filename fs.rootDir).fileBlckSize
    (deletedFile unassigned filename fs.rootDir).fileFirstIndex fat,
      0 ≤ x ∧ x < 2048 * fs.sp.fatBlckAmount
  steps : ((deletedFile unassigned filename fs.rootDir).fileBlckSize : Int) ≤
    2048 * fs.sp.fatBlckAmount

/-- The links of a chain stay below `bound` for `count` steps from `first` and, when the
chain closes on itself before that, from 0 for the steps that are left. -/
def ChainContained (link : Nat → Nat) (bound count first : Nat) : Prop :=
  (∀ j < count, link^[j] first < bound) ∧
    ∀ q r j, q < r → link^[q] first = link^[r] first → r + 1 + j < count → link^[j] 0 < bound

def ContainedFile (filename : CStr) (fs : FsSystem L) (fat : FatBuffer) : Prop :=
  ∃ i, fs.rootDir.name i = filename.bytes ∧
    (∀ j, i < j → fs.rootDir.name j ≠ filename.bytes) ∧
    ((fs.rootDir i).fileBlckSize : Int) ≤ 2048 * fs.sp.fatBlckAmount ∧
    ChainContained fat.links (2048 * fs.sp.fatBlckAmount.toNat) (fs.rootDir i).fileBlckSize
      (fs.rootDir i).fileFirstIndex.toNat

section Walk

variable {count bound : Nat} {current : BitVec 16} {fat : FatBuffer}

theorem walkIndices_inside_iff :
    WalkInside count current fat ↔
      ∀ x ∈ walkIndices count current fat, 0 ≤ x ∧ x < fat.entries := by
  induction count generalizing current fat with
  | zero => simp [WalkInside, walkIndices]
  | succ count ih =>
      unfold WalkInside walkIndices
      split
      · rename_i hinside
        simp only [List.mem_cons, forall_eq_or_imp, ih, FatBuffer.entries_set]
      · rename_i houtside
        simp [houtside]

theorem toInt_lt_iff (hbound : bound ≤ 2 ^ 15) :
    0 ≤ current.toInt ∧ current.toInt < bound ↔ current.toNat < bound := by
  rw [BitVec.toInt_eq_toNat_cond]
  have hlt := current.isLt
  split <;> omega

/-- Below a bound that the array and the signed index reach, the walk uses the indices
that clearing its links visits. -/
theorem walkIndices_below_iff (hentries : bound ≤ fat.entries) (hbound : bound ≤ 2 ^ 15) :
    (∀ x ∈ walkIndices count current fat, 0 ≤ x ∧ x < bound) ↔
      ∀ k ∈ visits 0 count current.toNat fat.links, k < bound := by
  induction count generalizing current fat with
  | zero => simp [walkIndices, visits]
  | succ count ih =>
      unfold walkIndices visits
      by_cases hbelow : current.toNat < bound
      · have hint := (toInt_lt_iff hbound).mpr hbelow
        have hinside : 0 ≤ current.toInt ∧ current.toInt < fat.entries := by omega
        have hlinks := fat.links_set current.toNat 0
        rw [if_pos hinside, List.forall_mem_cons, List.forall_mem_cons,
          bitVec16_index current hint.1, ih (by simpa using hentries), hlinks]
        simp only [hint, hbelow, and_self, true_and]
        rfl
      · have hint := mt (toInt_lt_iff hbound).mp hbelow
        refine iff_of_false (fun hall => hint (hall _ ?_)) fun hall =>
          hbelow (hall _ List.mem_cons_self)
        split <;> simp

end Walk

section Deleting

variable {fs : FsSystem L} {fat : FatBuffer} {filename : CStr}

theorem deletedFile_last (unassigned : RootEntry L) {dir : RootDir L}
    (hcarried : ∃ i, dir.name i = filename.bytes) :
    ∃ i, dir.name i = filename.bytes ∧ (∀ j, i < j → dir.name j ≠ filename.bytes) ∧
      deletedFile unassigned filename dir = dir i := by
  obtain ⟨k, hk⟩ := hcarried
  rcases (deleteLoop_eq unassigned filename dir).1 with ⟨i, hmatch, hlast, heq⟩ | ⟨hnone, _⟩
  · exact ⟨i, RootDir.matchesName_iff.mp hmatch,
      fun j hj => RootDir.matchesName_false_iff.mp (hlast j hj), heq⟩
  · exact absurd hk (RootDir.matchesName_false_iff.mp (hnone k))

theorem containedFile_iff {i : Fin fsFileMaxCount} (hname : fs.rootDir.name i = filename.bytes)
    (hlast : ∀ j, i < j → fs.rootDir.name j ≠ filename.bytes) :
    ContainedFile filename fs fat ↔
      ((fs.rootDir i).fileBlckSize : Int) ≤ 2048 * fs.sp.fatBlckAmount ∧
        ChainContained fat.links (2048 * fs.sp.fatBlckAmount.toNat) (fs.rootDir i).fileBlckSize
          (fs.rootDir i).fileFirstIndex.toNat := by
  constructor
  · rintro ⟨j, hnameJ, hlastJ, hcontained⟩
    rcases lt_trichotomy i j with hlt | rfl | hlt
    · exact absurd hnameJ (hlast j hlt)
    · exact hcontained
    · exact absurd hname (hlastJ i hlt)
  · exact fun hcontained => ⟨i, hname, hlast, hcontained⟩

theorem Accepted.entries_eq {sp : SuperBlock} {d : Device} (haccepted : Accepted sp d)
    (hsize : fat.size = fatByteCount sp.fatBlckAmount) (hpos : 0 ≤ sp.fatBlckAmount) :
    fat.entries = 2048 * sp.fatBlckAmount.toNat := by
  unfold FatBuffer.entries
  rw [hsize, haccepted.fatByteCount_eq hpos]
  omega

theorem StaysInside.returns {s : State L N} {unassigned : RootEntry L}
    (h : StaysInside unassigned filename fs fat) (hmounted : Mounted s fs)
    (hfat : fs.fatBlocks = .live fat)
    (hcarried : ∃ i, fs.rootDir.name i = filename.bytes) :
    ∃ next, fsDelete unassigned filename s = .ok (0, next) := by
  have hpos : 0 ≤ fs.sp.fatBlckAmount := by
    have hsteps := h.steps
    omega
  have hentries := hmounted.accepted.entries_eq (hmounted.fat_size hfat) hpos
  obtain ⟨i, hname, hlast, hfile⟩ := deletedFile_last unassigned hcarried
  have hindices := h.indices
  rw [hfile] at hindices
  have hinside : WalkInside (fs.rootDir i).fileBlckSize (fs.rootDir i).fileFirstIndex fat := by
    rw [walkIndices_inside_iff]
    intro x hx
    have hbounds := hindices x hx
    omega
  obtain ⟨pFAT, hwalk⟩ := walkInside_iff.mpr hinside
  rw [← hfat] at hwalk
  exact ⟨_, fsDelete_returns hmounted.loaded hname hlast hwalk⟩

theorem staysInside_iff {d : Device} (haccepted : Accepted fs.sp d)
    (hsize : fat.size = fatByteCount fs.sp.fatBlckAmount) (unassigned : RootEntry L)
    (hcarried : ∃ i, fs.rootDir.name i = filename.bytes) :
    StaysInside unassigned filename fs fat ↔ ContainedFile filename fs fat := by
  obtain ⟨i, hname, hlast, hfile⟩ := deletedFile_last unassigned hcarried
  rw [containedFile_iff hname hlast]
  have hstays : StaysInside unassigned filename fs fat ↔
      ((fs.rootDir i).fileBlckSize : Int) ≤ 2048 * fs.sp.fatBlckAmount ∧
        ∀ x ∈ walkIndices (fs.rootDir i).fileBlckSize (fs.rootDir i).fileFirstIndex fat,
          0 ≤ x ∧ x < 2048 * fs.sp.fatBlckAmount := by
    rw [← hfile]
    exact ⟨fun h => ⟨h.steps, h.indices⟩, fun h => ⟨h.2, h.1⟩⟩
  rw [hstays]
  refine and_congr_right fun hsteps => ?_
  have hpos : 0 ≤ fs.sp.fatBlckAmount := by omega
  have hle := haccepted.fat_le
  have hentries := haccepted.entries_eq hsize hpos
  have hbound : 2048 * fs.sp.fatBlckAmount = ((2048 * fs.sp.fatBlckAmount.toNat : Nat) : Int) := by
    omega
  rw [hbound, walkIndices_below_iff hentries.ge (by omega), forall_visits_iff]
  rfl

end Deleting

/-- After a successful mount, deleting a name that an entry carries keeps to the FAT if and
only if the last entry of the name has no more blocks than the FAT has entries and its
chain stays inside. -/
theorem deletion_stays_inside_iff {req : MountRequest L} {s s' : State L N}
    (hmount : fsMount req s = (0, s')) :
    ∃ fs fat, s'.fileSystem = .live fs ∧ fs.fatBlocks = .live fat ∧
      ∀ unassigned filename, (∃ i, fs.rootDir.name i = filename.bytes) →
        (StaysInside unassigned filename fs fat ↔ ContainedFile filename fs fat) := by
  obtain ⟨_, _, hcheck, rfl⟩ := fsMount_succeeds hmount
  exact ⟨req.accepted _, req.fat _, rfl, rfl, fun unassigned filename hcarried =>
    staysInside_iff (req.check_accepted hcheck) rfl unassigned hcarried⟩

/-! A disk of four blocks, none of them for the FAT, with one file "a" of one block. -/

def untrustedHost : Host :=
  sampleHost 4 0 fun p => if p = 4096 then 97 else if p = 4096 + 17 then 16 else 0

def untrustedStart : State .packed 32 := .initial untrustedHost

def untrustedFs : FsSystem .packed :=
  freshMount.accepted (freshMount.opened untrustedStart.device).2

theorem untrusted_mounted : fsMount freshMount untrustedStart = (0, { untrustedStart with
    fileSystem := .live untrustedFs
    device := (freshMount.rootRead (freshMount.opened untrustedStart.device).2).device }) :=
  fsMount_returns freshMount untrustedStart (by decide) rfl (by decide)

theorem untrusted_name : untrustedFs.rootDir.name 0 = nameA.bytes := by
  decide

theorem untrusted_last (j : Fin fsFileMaxCount) (hj : 0 < j) :
    untrustedFs.rootDir.name j ≠ nameA.bytes := by
  revert j
  decide +kernel

theorem deletion_stays_inside_iff_untrusted : ∃ s' fs fat,
    fsMount freshMount untrustedStart = (0, s') ∧ s'.fileSystem = .live fs ∧
      fs.fatBlocks = .live fat ∧
      (StaysInside blankEntry nameA fs fat ↔ ContainedFile nameA fs fat) := by
  obtain ⟨fs, fat, hlive, hfat, hiff⟩ := deletion_stays_inside_iff untrusted_mounted
  cases hlive
  exact ⟨_, _, fat, untrusted_mounted, rfl, hfat, hiff blankEntry nameA ⟨0, untrusted_name⟩⟩

/-- Entry 0 of a FAT without entries is read and written. -/
theorem deletion_stays_inside_refuted :
    ¬ ∀ (req : MountRequest .packed) (s s' : State .packed 32) (fs : FsSystem .packed)
        (fat : FatBuffer) (unassigned : RootEntry .packed) (filename : CStr),
      fsMount req s = (0, s') → s'.fileSystem = .live fs → fs.fatBlocks = .live fat →
        (∃ i, fs.rootDir.name i = filename.bytes) →
          StaysInside unassigned filename fs fat := by
  intro hstays
  have hinside := hstays _ _ _ _ _ blankEntry nameA untrusted_mounted rfl rfl ⟨0, untrusted_name⟩
  obtain ⟨i, hname, _, hfile⟩ : ∃ i, untrustedFs.rootDir.name i = nameA.bytes ∧
      (∀ j, i < j → untrustedFs.rootDir.name j ≠ nameA.bytes) ∧
      deletedFile blankEntry nameA untrustedFs.rootDir = untrustedFs.rootDir i :=
    deletedFile_last blankEntry ⟨0, untrusted_name⟩
  have hfirst : i = 0 := by
    by_contra hne
    exact untrusted_last i (Fin.pos_iff_ne_zero.mpr hne) hname
  have hsteps := hinside.steps
  rw [hfile, hfirst] at hsteps
  revert hsteps
  decide

end LibFs
