import LibFs.Mounting.RoundTrip

/-! The FAT as a mount leaves it in memory. The destination `&fat_blocks[i]` of FAT block
`i` is entry `i` of the array and not entry `2048 * i`, so a block is loaded over all but
the first entry of the block before it. -/
namespace LibFs

open LibFs.Foundation

def blockWord (block : Bytes) (w : Nat) : BitVec 16 :=
  BitVec.ofNat 16 (leNat 2 (slice block (2 * w)))

def diskEntry (host : Host) (path : List UInt8) (k : Nat) : BitVec 16 :=
  blockWord (host.block path (fatIndex + k / 2048)) (k % 2048)

def FatFaithful (host : Host) (path : List UInt8) (blocks : Nat) (fat : FatBuffer) : Prop :=
  ∀ k < 2048 * blocks, fat.get k = diskEntry host path k

/-- The entry on disk that is loaded as entry `k` when block `last` is the last one. -/
def loadedFrom (last k : Nat) : Nat := 2048 * min k last + (k - min k last)

theorem lt_loadedFrom {last k : Nat} (hlast : 0 < last) (hk : 0 < k) : k < loadedFrom last k := by
  unfold loadedFrom
  omega

section Entries

variable {fat : FatBuffer} {block : Nat → Bytes} {last : Nat}

/-- An entry of the loaded array is a word of the block that was laid over it last, or
still zero. -/
theorem get_loaded
    (hbytes : fat.bytes = loadStrided blockSize 2 block (last + 1) fun _ => 0) (k : Nat) :
    fat.get k = if k < last + 2048 then blockWord (block (min k last)) (k - min k last) else 0 := by
  have hbyte (p : Nat) (hp : p < 2) : slice fat.bytes (2 * k) p =
      if k < last + 2048 then slice (block (min k last)) (2 * (k - min k last)) p else 0 := by
    unfold slice
    rw [hbytes, loadStrided_apply (by decide) (by decide)]
    have hindex : (2 * k + p) / 2 = k := by omega
    rw [hindex]
    unfold blockSize
    split
    · rw [if_pos (by omega)]
      congr 1
      omega
    · rw [if_neg (by omega)]
  unfold FatBuffer.get
  rw [leNat_congr hbyte]
  split
  · rfl
  · simp [leNat]

theorem get_loaded_diskEntry {host : Host} {path : List UInt8}
    (hbytes : fat.bytes = loadStrided blockSize 2 (fun i => host.block path (fatIndex + i))
      (last + 1) fun _ => 0) (k : Nat) :
    fat.get k = if k < last + 2048 then diskEntry host path (loadedFrom last k) else 0 := by
  rw [get_loaded hbytes]
  split
  · have hword : k - min k last < 2048 := by omega
    unfold diskEntry loadedFrom
    rw [Nat.mul_add_div (by decide), Nat.div_eq_of_lt hword, Nat.add_zero, Nat.mul_add_mod,
      Nat.mod_eq_of_lt hword]
  · rfl

/-- With two blocks or more, an entry behind the first is loaded right only when it is zero:
what it is loaded from lies further back on the disk and is zero for the same reason. -/
theorem fatFaithful_loaded_iff {host : Host} {path : List UInt8}
    (hbytes : fat.bytes = loadStrided blockSize 2 (fun i => host.block path (fatIndex + i))
      (last + 1) fun _ => 0) :
    FatFaithful host path (last + 1) fat ↔
      last = 0 ∨ ∀ k, 0 < k → k < 2048 * (last + 1) → diskEntry host path k = 0 := by
  have hget := get_loaded_diskEntry hbytes
  constructor
  · intro hfaithful
    refine or_iff_not_imp_left.mpr fun hlast => ?_
    -- from the last entry of the FAT down
    intro k
    induction hdist : 2048 * (last + 1) - k using Nat.strong_induction_on generalizing k with
    | _ dist ih =>
        intro hpos hk
        rw [← hfaithful k hk, hget k]
        split
        · rename_i hin
          have hback := lt_loadedFrom (Nat.pos_of_ne_zero hlast) hpos
          have hinside : loadedFrom last k < 2048 * (last + 1) := by
            unfold loadedFrom
            omega
          exact ih _ (by omega) _ rfl (by omega) hinside
        · rfl
  · rintro (rfl | hzero) k hk
    · rw [hget k, if_pos (by omega)]
      simp [loadedFrom]
    · rw [hget k]
      rcases Nat.eq_zero_or_pos k with rfl | hpos
      · rw [if_pos (by omega)]
        simp [loadedFrom]
      · rw [hzero k hpos hk]
        split
        · refine hzero _ ?_ ?_ <;> unfold loadedFrom <;> omega
        · rfl

end Entries

/-- The loading loop leaves every byte from `size` on alone, whatever the memory holds. -/
def LoadedInside (req : MountRequest L) (d : Device) (size : Nat) : Prop :=
  ∀ (buffer : Bytes) (p : Nat), size ≤ p →
    (loadFat (fun i => req.io (i + 1)) (req.blocks d) buffer (req.superblock d).device).1 p =
      buffer p

section Whole

variable {req : MountRequest L}

/-- The loop never leaves the array: its destinations are too close together for that. -/
theorem Loadable.loadedInside {d : Device} {path : List UInt8} (hwhole : ∀ i, req.io i = .whole)
    (h : Loadable req d path) : LoadedInside req d (blockSize * req.blocks d) := by
  intro buffer p hp
  have hdisk : ∀ i < req.blocks d, fatIndex + i < (req.superblock d).device.disk.bcount := by
    simpa using h.fatOnDisk
  simp only [hwhole]
  rw [loadFat_whole (req.superblock_serves h.serves) hdisk]
  refine loadStrided_outside (fun i hi => ?_) hp
  unfold blockSize
  omega

theorem Loadable.fatFaithful_iff {d : Device} {path : List UInt8}
    (hwhole : ∀ i, req.io i = .whole) (h : Loadable req d path) :
    FatFaithful d.host path (req.blocks d) (req.fat d) ↔
      req.blocks d ≤ 1 ∨
        ∀ k, 0 < k → k < 2048 * req.blocks d → diskEntry d.host path k = 0 := by
  have hbytes : (req.fat d).bytes = _ := h.fatRead_eq hwhole
  rcases hblocks : req.blocks d with _ | last
  · refine iff_of_true (fun k hk => ?_) (Or.inl (Nat.zero_le 1))
    omega
  · rw [hblocks] at hbytes
    rw [fatFaithful_loaded_iff hbytes]
    exact or_congr_left (by omega)

/-- After a successful mount the array holds the FAT of the disk, loaded inside its
bounds, if and only if the FAT has at most one block or is zero behind its first entry. -/
theorem fat_loaded_iff {s s' : State L N} (hwhole : ∀ i, req.io i = .whole)
    (hmount : fsMount req s = (0, s')) :
    ∃ fs fat, s'.fileSystem = .live fs ∧ fs.fatBlocks = .live fat ∧
      (FatFaithful s.device.host req.diskname.bytes fs.sp.fatBlckAmount.toNat fat ∧
          LoadedInside req (req.opened s.device).2 (blockSize * fs.sp.fatBlckAmount.toNat) ↔
        fs.sp.fatBlckAmount.toNat ≤ 1 ∨
          ∀ k, 0 < k → k < 2048 * fs.sp.fatBlckAmount.toNat →
            diskEntry s.device.host req.diskname.bytes k = 0) := by
  obtain ⟨hloadable, himage, _⟩ := fsMount_loadable hmount
  obtain ⟨_, _, _, rfl⟩ := fsMount_succeeds hmount
  refine ⟨req.accepted _, req.fat _, rfl, rfl, ?_⟩
  have hfaithful := hloadable.fatFaithful_iff hwhole
  have hinside := hloadable.loadedInside hwhole
  unfold FatFaithful diskEntry Host.block at hfaithful ⊢
  rw [himage] at hfaithful
  exact (and_iff_left hinside).trans hfaithful

end Whole

theorem fat_loaded_iff_two_fat : ∃ s', fsMount twoFatMount twoFatStart = (0, s') ∧
    ∃ fs fat, s'.fileSystem = .live fs ∧ fs.fatBlocks = .live fat ∧
      (FatFaithful twoFatHost diskD.bytes fs.sp.fatBlckAmount.toNat fat ∧
          LoadedInside twoFatMount (twoFatMount.opened twoFatStart.device).2
            (blockSize * fs.sp.fatBlckAmount.toNat) ↔
        fs.sp.fatBlckAmount.toNat ≤ 1 ∨
          ∀ k, 0 < k → k < 2048 * fs.sp.fatBlckAmount.toNat →
            diskEntry twoFatHost diskD.bytes k = 0) := by
  obtain ⟨s', hmount⟩ := twoFat_mounted
  have hhost : twoFatStart.device.host = twoFatHost := rfl
  have hname : twoFatMount.diskname = diskD := rfl
  have hloaded := fat_loaded_iff (fun _ => rfl) hmount
  rw [hhost, hname] at hloaded
  exact ⟨s', hmount, hloaded⟩

/-- The entry 1 of a FAT of two blocks is loaded as the first entry of its second block. -/
theorem fat_loaded_refuted :
    ¬ ∀ (req : MountRequest .packed) (s s' : State .packed 32) (fs : FsSystem .packed)
        (fat : FatBuffer), (∀ i, req.io i = .whole) → fsMount req s = (0, s') →
      s'.fileSystem = .live fs → fs.fatBlocks = .live fat →
        FatFaithful s.device.host req.diskname.bytes fs.sp.fatBlckAmount.toNat fat ∧
          LoadedInside req (req.opened s.device).2 (blockSize * fs.sp.fatBlckAmount.toNat) := by
  intro hloads
  obtain ⟨s', hmount⟩ := twoFat_mounted
  obtain ⟨hloadable, himage, _⟩ := fsMount_loadable hmount
  obtain ⟨_, _, _, hnext⟩ := fsMount_succeeds hmount
  subst hnext
  have hfaithful := (hloads _ _ _ _ _ (fun _ => rfl) hmount rfl rfl).1
  have hdisk := hloadable.fatFaithful_iff fun _ => rfl
  unfold FatFaithful diskEntry Host.block at hdisk hfaithful
  rw [himage] at hdisk
  rcases hdisk.mp hfaithful with hone | hzero
  · revert hone
    decide
  · have hentry := hzero 1 (by decide) (by decide)
    revert hentry
    decide

end LibFs
