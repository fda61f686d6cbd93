import LibFs.Model.Api

/-! What the superblock check lets through. The number of FAT blocks comes from a
division that rounds down, and the signature is compared as far as the name of the
disk goes, which need not be how far the signature goes. -/
namespace LibFs

open LibFs.Foundation

/-! The layout an accepted superblock describes. -/

inductive Region where
  | superblock
  | fat
  | rootDir
  | data
deriving DecidableEq

def Region.Holds (sp : SuperBlock) (b : Int) : Region → Prop
  | .superblock => b = superblockIndex
  | .fat => fatIndex ≤ b ∧ b ≤ sp.fatBlckAmount
  | .rootDir => b = sp.fatBlckAmount + 1
  | .data => sp.fatBlckAmount + 2 ≤ b ∧ b < sp.fatBlckAmount + 2 + sp.dataBlckAmount

def checkedValues (diskBlocks : Int) : List Int :=
  let diskFatCount := (diskBlocks * 2).tdiv blockSize
  [diskBlocks * 2, diskFatCount, 2 + diskFatCount, diskBlocks - (2 + diskFatCount),
    diskFatCount + 1, diskFatCount + 2]

structure Usable (sp : SuperBlock) (d : Device) : Prop where
  trueCount : sp.dskBlckAmount = d.disk.bcount
  noOverflow : ∀ value ∈ checkedValues (blockDiskCount d), -2 ^ 31 ≤ value ∧ value < 2 ^ 31
  fatCount : 0 ≤ sp.fatBlckAmount
  dataCount : 0 ≤ sp.dataBlckAmount
  indices : sp.rootDirIndex = sp.fatBlckAmount + 1 ∧ sp.dataBlckIndex = sp.fatBlckAmount + 2
  inside : ∀ (region : Region) (b : Int), region.Holds sp b → 0 ≤ b ∧ b < d.disk.bcount
  partitioned : ∀ b : Int, 0 ≤ b → b < d.disk.bcount → ∃! region : Region, region.Holds sp b
  covered : sp.dataBlckAmount ≤ 2048 * sp.fatBlckAmount
  recomputed : (infoFatBlkCount sp : Int) = sp.fatBlckAmount

theorem blockDiskCount_open {d : Device} (hopen : d.disk.fd.isSome) :
    blockDiskCount d = toInt d.disk.bcount := by
  obtain ⟨fd, hfd⟩ := Option.isSome_iff_exists.mp hopen
  simp [blockDiskCount, hfd]

theorem infoFatBlkCount_eq {sp : SuperBlock} (h : 0 ≤ sp.dataBlckAmount) :
    (infoFatBlkCount sp : Int) = sp.dataBlckAmount / 2048 := by
  have hbound : sp.dataBlckAmount < 2 ^ 15 := (int16At_bounds sp.raw 14).2
  simp only [infoFatBlkCount, blockSize]
  omega

section Layout

variable {sp : SuperBlock} {d : Device}

theorem regions_partition (hfat : 0 ≤ sp.fatBlckAmount) {b : Int} (hlow : 0 ≤ b)
    (hhigh : b < sp.fatBlckAmount + 2 + sp.dataBlckAmount) :
    ∃! region : Region, region.Holds sp b := by
  have hunique (region : Region) (hholds : region.Holds sp b)
      (hothers : ∀ other : Region, other.Holds sp b → other = region) :
      ∃! region : Region, region.Holds sp b := ⟨region, hholds, hothers⟩
  rcases lt_trichotomy b (sp.fatBlckAmount + 1) with hbefore | hroot | hafter
  · rcases hlow.eq_or_lt with hzero | hpos
    · refine hunique .superblock hzero.symm fun other hother => ?_
      cases other <;> simp only [Region.Holds, fatIndex, reduceCtorEq] at hother ⊢ <;> omega
    · refine hunique .fat ⟨hpos, by omega⟩ fun other hother => ?_
      cases other <;>
        simp only [Region.Holds, superblockIndex, reduceCtorEq] at hother ⊢ <;> omega
  · refine hunique .rootDir hroot fun other hother => ?_
    cases other <;>
      simp only [Region.Holds, superblockIndex, reduceCtorEq] at hother ⊢ <;> omega
  · refine hunique .data ⟨by omega, hhigh⟩ fun other hother => ?_
    cases other <;>
      simp only [Region.Holds, superblockIndex, reduceCtorEq] at hother ⊢ <;> omega

theorem Accepted.usable (haccepted : Accepted sp d) (hopen : d.disk.fd.isSome)
    (hsmall : d.disk.bcount < 2 ^ 15) (hexact : d.disk.bcount % 2049 = 2) : Usable sp d := by
  have hcount : blockDiskCount d = d.disk.bcount := by
    rw [blockDiskCount_open hopen, toInt_eq (by omega)]
  have htrue : sp.dskBlckAmount = d.disk.bcount := by rw [← haccepted.blocks, hcount]
  have hfat : sp.fatBlckAmount = (d.disk.bcount : Int) * 2 / 4096 := by
    rw [haccepted.fat, htrue, Int.tdiv_eq_ediv_of_nonneg (by omega)]
  have hdata := haccepted.data
  rw [htrue] at hdata
  have hdataCount : 0 ≤ sp.dataBlckAmount := by omega
  refine
    { trueCount := htrue
      noOverflow := ?_
      fatCount := by omega
      dataCount := hdataCount
      indices := ⟨haccepted.root, haccepted.dataIndex⟩
      inside := ?_
      partitioned := fun b hlow hhigh => regions_partition (by omega) hlow (by omega)
      covered := by omega
      recomputed := by
        rw [infoFatBlkCount_eq hdataCount]
        omega }
  · rw [hcount]
    unfold checkedValues blockSize
    rw [Int.tdiv_eq_ediv_of_nonneg (by omega)]
    simp only [List.mem_cons, List.not_mem_nil, or_false, forall_eq_or_imp, forall_eq]
    omega
  · intro region b hholds
    cases region <;>
      simp only [Region.Holds, superblockIndex, fatIndex] at hholds <;> omega

theorem Usable.exact (h : Usable sp d) (haccepted : Accepted sp d) :
    d.disk.bcount < 2 ^ 15 ∧ d.disk.bcount % 2049 = 2 := by
  have hbound : sp.dskBlckAmount < 2 ^ 15 := (int16At_bounds sp.raw 8).2
  have htrue := h.trueCount
  have hfat := h.fatCount
  have hdata := haccepted.data
  have hcovered := h.covered
  have hrecomputed := h.recomputed
  rw [infoFatBlkCount_eq h.dataCount] at hrecomputed
  have hle := haccepted.fat_le
  omega

end Layout

/-- An accepted superblock describes a usable disk if and only if the disk has fewer
than 32768 blocks and exactly 2048 data blocks for each block of its FAT. -/
theorem superblock_usable_iff {fileSize : Int} {diskname : CStr} {sp : SuperBlock} {d : Device}
    (hopen : d.disk.fd.isSome) (hcheck : sysErrorCheck fileSize diskname sp d = 0) :
    Usable sp d ↔ d.disk.bcount < 2 ^ 15 ∧ d.disk.bcount % 2049 = 2 := by
  have haccepted := sysErrorCheck_accepted hcheck
  constructor
  · exact fun h => h.exact haccepted
  · exact fun ⟨hsmall, hexact⟩ => haccepted.usable hopen hsmall hexact

theorem superblock_usable_iff_one_fat :
    Usable (sampleSuper 2051 1) (sampleDisk 2051 1 fun _ => 0) ↔ 2051 < 2 ^ 15 ∧ 2051 % 2049 = 2 :=
  have hcheck : sysErrorCheck 1 diskD (sampleSuper 2051 1) (sampleDisk 2051 1 fun _ => 0) = 0 := by
    decide
  superblock_usable_iff rfl hcheck

/-- A disk of 100 blocks passes with no block for its FAT and 98 data blocks. -/
theorem superblock_usable_refuted :
    ¬ ∀ (fileSize : Int) (diskname : CStr) (sp : SuperBlock) (d : Device), d.disk.fd.isSome →
      sysErrorCheck fileSize diskname sp d = 0 → Usable sp d := by
  intro husables
  have husable := husables 1 diskD (sampleSuper 100 0) (sampleDisk 100 0 fun _ => 0) rfl (by decide)
  have hcovered := husable.covered
  revert hcovered
  decide

/-! The signature check. -/

section Signature

variable {diskname : CStr} {sp : SuperBlock}

theorem signatureLoop_passes_iff {i left : Nat} :
    (signatureLoop diskname sp i left).2 = true ↔
      ∀ j, i ≤ j → j < i + left → sp.signature j = diskname.bytes.getD j 0 := by
  induction left generalizing i with
  | zero =>
      simp only [signatureLoop, true_iff]
      intro j hlow hhigh
      omega
  | succ left ih =>
      unfold signatureLoop
      by_cases hsame : sp.signature i = diskname.bytes.getD i 0
      · rw [if_neg (by simpa using hsame), ih]
        constructor
        · intro hrest j hlow hhigh
          rcases hlow.eq_or_lt with rfl | hlt
          · exact hsame
          · exact hrest j hlt (by omega)
        · intro hall j hlow hhigh
          exact hall j (by omega) (by omega)
      · rw [if_pos (by simpa using hsame)]
        simp only [Bool.false_eq_true, false_iff]
        intro hall
        exact hsame (hall i le_rfl (by omega))

theorem mem_signatureLoop_iff {i left k : Nat} :
    k ∈ (signatureLoop diskname sp i left).1 ↔ i ≤ k ∧ k < i + left ∧
      ∀ j, i ≤ j → j < k → sp.signature j = diskname.bytes.getD j 0 := by
  induction left generalizing i with
  | zero =>
      simp only [signatureLoop, List.not_mem_nil, false_iff]
      omega
  | succ left ih =>
      unfold signatureLoop
      by_cases hsame : sp.signature i = diskname.bytes.getD i 0
      · rw [if_neg (by simpa using hsame), List.mem_cons, ih]
        constructor
        · rintro (rfl | ⟨hlow, hhigh, hbefore⟩)
          · exact ⟨le_rfl, by omega, fun j hlow hhigh => by omega⟩
          · refine ⟨by omega, by omega, fun j hj hjk => ?_⟩
            rcases hj.eq_or_lt with rfl | hlt
            · exact hsame
            · exact hbefore j hlt hjk
        · rintro ⟨hlow, hhigh, hbefore⟩
          rcases hlow.eq_or_lt with rfl | hlt
          · exact Or.inl rfl
          · exact Or.inr ⟨hlt, by omega, fun j hj hjk => hbefore j (by omega) hjk⟩
      · rw [if_pos (by simpa using hsame), List.mem_singleton]
        constructor
        · rintro rfl
          exact ⟨le_rfl, by omega, fun j hlow hhigh => by omega⟩
        · rintro ⟨hlow, _, hbefore⟩
          by_contra hne
          exact hsame (hbefore i le_rfl (by omega))

theorem sysErrorCheck_eq (fileSize : Int) (diskname : CStr) (sp : SuperBlock) (d : Device) :
    sysErrorCheck fileSize diskname sp d =
      if (signatureLoop diskname sp 0 fileSize.toNat).2 then sysErrorCheck 0 diskname sp d
      else -1 := by
  have hany : (List.range fileSize.toNat).any
      (fun i => sp.signature i != diskname.bytes.getD i 0) =
      !(signatureLoop diskname sp 0 fileSize.toNat).2 := by
    rw [Bool.eq_iff_iff, Bool.not_eq_true', ← Bool.not_eq_true, signatureLoop_passes_iff]
    simp
  cases hscan : (signatureLoop diskname sp 0 fileSize.toNat).2 with
  | true =>
      rw [hscan] at hany
      unfold sysErrorCheck
      rw [hany]
      simp
  | false =>
      rw [hscan] at hany
      unfold sysErrorCheck
      rw [hany]
      simp

theorem signatureText_eq_iff : sp.signatureText = diskname.bytes ↔
    diskname.strlen ≤ signatureMax ∧
      (∀ i < diskname.strlen, sp.signature i = diskname.bytes.getD i 0) ∧
      (diskname.strlen < signatureMax → sp.signature diskname.strlen = 0) := by
  have hget (i : Nat) (hi : i < diskname.bytes.length) :
      diskname.bytes.getD i 0 = diskname.bytes[i] := by
    simp [List.getElem?_eq_getElem hi]
  unfold SuperBlock.signatureText
  rw [CharArray.text_eq_iff diskname.nulFree]
  constructor
  · rintro ⟨hle, hsame, hstop⟩
    refine ⟨hle, fun i hi => ?_, hstop⟩
    rw [hget i hi]
    exact hsame i hi
  · rintro ⟨hle, hsame, hstop⟩
    refine ⟨hle, fun i hi => ?_, hstop⟩
    rw [← hget i hi]
    exact hsame i hi

/-- The whole signature is compared and nothing else: no byte behind it is read, and the
comparison passes exactly when the string it holds is the name. -/
def SignatureCompared (diskname : CStr) (sp : SuperBlock) : Prop :=
  let scan := signatureLoop diskname sp 0 (toInt diskname.strlen).toNat
  (∀ i ∈ scan.1, i < signatureMax) ∧ (scan.2 = true ↔ sp.signatureText = diskname.bytes)

/-- The comparison is settled inside the signature, by a byte that differs, by a name as
long as the field, or by a NUL right behind the name. -/
def SignatureSettled (diskname : CStr) (sp : SuperBlock) : Prop :=
  (∃ i < min diskname.strlen signatureMax, sp.signature i ≠ diskname.bytes.getD i 0) ∨
    diskname.strlen = signatureMax ∨
      (diskname.strlen < signatureMax ∧ sp.signature diskname.strlen = 0)

/-- For names the mount admits, what is compared is the whole signature and nothing else
if and only if the comparison is settled inside it. -/
theorem signature_compared_iff (hlength : diskname.strlen ≤ diskNameMax) :
    (∀ d, sysErrorCheck (toInt diskname.strlen) diskname sp d =
      if (signatureLoop diskname sp 0 (toInt diskname.strlen).toNat).2 then
        sysErrorCheck 0 diskname sp d
      else -1) ∧
    (SignatureCompared diskname sp ↔ SignatureSettled diskname sp) := by
  refine ⟨fun d => sysErrorCheck_eq _ _ _ _, ?_⟩
  have hsize : (toInt diskname.strlen).toNat = diskname.strlen := by
    unfold diskNameMax at hlength
    rw [toInt_eq (by omega), Int.toNat_natCast]
  unfold SignatureCompared SignatureSettled
  simp only [hsize, mem_signatureLoop_iff, signatureLoop_passes_iff, signatureText_eq_iff,
    Nat.zero_le, Nat.zero_add, true_and, forall_const]
  by_cases hdiffers :
      ∃ i < min diskname.strlen signatureMax, sp.signature i ≠ diskname.bytes.getD i 0
  · obtain ⟨i, hi, hne⟩ := hdiffers
    refine iff_of_true ⟨fun k hk => ?_, ?_⟩ (Or.inl ⟨i, hi, hne⟩)
    · by_contra hge
      exact hne (hk.2 i (by omega))
    · refine iff_of_false (fun hall => hne (hall i (by omega))) fun htext => ?_
      exact hne (htext.2.1 i (by omega))
  · have hsame : ∀ i < min diskname.strlen signatureMax,
        sp.signature i = diskname.bytes.getD i 0 := by
      simpa using hdiffers
    simp only [hdiffers, false_or]
    constructor
    · rintro ⟨hreads, hpasses⟩
      -- a longer name has its ninth byte compared
      have hle : diskname.strlen ≤ signatureMax := by
        by_contra hgt
        have hread := hreads signatureMax ⟨by omega, fun j hj => hsame j (by omega)⟩
        omega
      have htext := hpasses.mp fun j hj => hsame j (by omega)
      rcases hle.eq_or_lt with heq | hlt
      · exact Or.inl heq
      · exact Or.inr ⟨hlt, htext.2.2 hlt⟩
    · intro hsettled
      have hle : diskname.strlen ≤ signatureMax := by omega
      refine ⟨fun k hk => by omega, fun hall => ⟨hle, hall, fun hlt => ?_⟩, fun htext => htext.2.1⟩
      rcases hsettled with heq | ⟨_, hstop⟩
      · omega
      · exact hstop

theorem signature_compared_iff_d :
    (∀ d, sysErrorCheck (toInt diskD.strlen) diskD (sampleSuper 4 0) d =
      if (signatureLoop diskD (sampleSuper 4 0) 0 (toInt diskD.strlen).toNat).2 then
        sysErrorCheck 0 diskD (sampleSuper 4 0) d
      else -1) ∧
    (SignatureCompared diskD (sampleSuper 4 0) ↔ SignatureSettled diskD (sampleSuper 4 0)) :=
  signature_compared_iff (by decide)

/-- A name of nine characters has a byte behind the signature compared with its last. -/
theorem signature_compared_refuted :
    ¬ ∀ (diskname : CStr) (sp : SuperBlock), 1 ≤ diskname.strlen → diskname.strlen ≤ diskNameMax →
      SignatureCompared diskname sp := by
  intro hcompares
  have hreads := (hcompares ⟨List.replicate 9 100, by decide⟩ ⟨fun _ => 100⟩ (by decide)
    (by decide)).1 8 (by decide)
  exact absurd hreads (by decide)

end Signature

end LibFs
