import LibFs.Mounting.Transfers

/-! Mounting a disk and unmounting it again. A FAT block is loaded over the one
before it from its second entry on, and the windows stored back overlap in the same
way, so the disk is restored exactly when the blocks agree where they overlap. -/
namespace LibFs

open LibFs.Foundation

/-- The number of FAT blocks `sys_error_check` computes for a disk. -/
def fatBlocksFor (blocks : Nat) : Nat := ((toInt blocks * 2).tdiv blockSize).toNat

def FatWindowsAgree (host : Host) (path : List UInt8) : Prop :=
  ∀ i, i + 1 < fatBlocksFor ((host.image path).size / blockSize) →
    ∀ k, 2 ≤ k → k < blockSize →
      host.block path (fatIndex + i) k = host.block path (fatIndex + (i + 1)) (k - 2)

structure Loadable (req : MountRequest L) (d : Device) (path : List UInt8) : Prop where
  serves : d.Serves path
  fatOnDisk : ∀ i < req.blocks d, fatIndex + i < d.disk.bcount
  blocks : req.blocks d = fatBlocksFor d.disk.bcount
  root : ∀ i < req.blocks d, req.rootIndex d ≠ fatIndex + i

theorem loadable_of_check {req : MountRequest L} {d : Device} {path : List UInt8}
    (hserves : d.Serves path) (hcheck : req.check d = 0) : Loadable req d path := by
  have haccepted := req.check_accepted hcheck
  obtain ⟨fd, _, hfd, _⟩ := hserves.1
  refine ⟨hserves, fun i hi => haccepted.fat_on_disk hi, ?_, fun i hi => ?_⟩
  · have hblocks := haccepted.blocks
    simp only [blockDiskCount, hfd] at hblocks
    unfold MountRequest.blocks fatBlocksFor
    rw [haccepted.fat, hblocks]
    rfl
  · have hle := haccepted.fat_le
    unfold MountRequest.blocks at hi
    unfold MountRequest.rootIndex toSizeT fatIndex
    rw [haccepted.root]
    omega

section Whole

variable {req : MountRequest L} {d : Device} {path : List UInt8}

theorem Loadable.fatRead_eq (hwhole : ∀ i, req.io i = .whole) (h : Loadable req d path) :
    (req.fatRead d).1 =
      loadStrided blockSize 2 (fun i => d.host.block path (fatIndex + i)) (req.blocks d)
        (fun _ => 0) := by
  have hdisk : ∀ i < req.blocks d, fatIndex + i < (req.superblock d).device.disk.bcount := by
    simpa using h.fatOnDisk
  unfold MountRequest.fatRead
  simp only [hwhole]
  rw [loadFat_whole (req.superblock_serves h.serves) hdisk]
  unfold Host.block
  rw [req.superblock_image]

theorem Loadable.rootDir_toBytes (hwhole : ∀ i, req.io i = .whole) (h : Loadable req d path)
    (hroot : req.rootIndex d < d.disk.bcount) {p : Nat} (hp : p < blockSize) :
    (req.accepted d).rootDir.toBytes p = d.host.block path (req.rootIndex d) p := by
  simp only [MountRequest.accepted]
  rw [RootDir.toBytes_ofBytes _ _ hp, rootRead_buffer (hwhole _) h.serves, if_pos ⟨hroot, hp⟩]

theorem Loadable.flush_block (hwhole : ∀ i, req.io i = .whole) (h : Loadable req d path)
    (b : Nat) {p : Nat} (hp : p < blockSize) :
    ((req.accepted d).flush (fun _ => .whole) (req.fat d) (req.rootRead d).device).host.block
        path b p =
      if fatIndex ≤ b ∧ b < fatIndex + req.blocks d then
        (req.fatRead d).1 (2 * (b - fatIndex) + p)
      else d.host.block path b p := by
  have hflush := flush_whole (req.accepted d) (req.fat d) (req.rootRead_serves h.serves)
    (fun i hi => by rw [req.rootRead_disk]; exact h.fatOnDisk i hi) b hp
  have hold : (req.rootRead d).device.host.block path b = d.host.block path b := by
    unfold Host.block
    rw [req.rootRead_image]
  rw [hflush, hold]
  split
  · rename_i hroot
    obtain ⟨hindex, hin⟩ : b = req.rootIndex d ∧ b < (req.rootRead d).device.disk.bcount := hroot
    rw [req.rootRead_disk] at hin
    -- the root block is written back as it was read, and it is no FAT block
    have hfree : ¬ (fatIndex ≤ b ∧ b < fatIndex + req.blocks d) := by
      rintro ⟨hlow, hhigh⟩
      exact h.root (b - fatIndex) (by omega) (by omega)
    rw [if_neg hfree]
    subst hindex
    exact h.rootDir_toBytes hwhole hin hp
  · rfl

theorem Loadable.flush_byte_iff (hwhole : ∀ i, req.io i = .whole) (h : Loadable req d path)
    (hcount : d.disk.bcount = (d.host.image path).size / blockSize) :
    (((req.accepted d).flush (fun _ => .whole) (req.fat d)
        (req.rootRead d).device).host.image path).byte = (d.host.image path).byte ↔
      FatWindowsAgree d.host path := by
  have hfat := h.fatRead_eq hwhole
  unfold FatWindowsAgree
  rw [← hcount, ← h.blocks]
  refine Iff.trans ?_ (loadStrided_windows_iff blockSize 2 (req.blocks d)
    (fun i => d.host.block path (fatIndex + i)) fun _ => 0)
  rw [← hfat]
  constructor
  · intro hsame i hi k hk
    have hblock := h.flush_block hwhole (fatIndex + i) hk
    rw [if_pos ⟨by omega, by omega⟩, Nat.add_sub_cancel_left] at hblock
    rw [← hblock]
    unfold Host.block
    rw [hsame]
  · intro hwindows
    apply Host.byte_eq_of_blocks
    intro b p hp
    rw [h.flush_block hwhole b hp]
    split
    · rename_i hb
      have hwindow := hwindows (b - fatIndex) (by omega) p hp
      rwa [Nat.add_sub_cancel' hb.1] at hwindow
    · rfl

end Whole

section Unmounting

variable {req : MountRequest L} {s s' : State L N} (hmount : fsMount req s = (0, s'))
include hmount

theorem fsMount_loadable : Loadable req (req.opened s.device).2 req.diskname.bytes ∧
    (req.opened s.device).2.host.image = s.device.host.image ∧
    (req.opened s.device).2.disk.bcount =
      (s.device.host.image req.diskname.bytes).size / blockSize := by
  obtain ⟨_, hopen, hcheck, _⟩ := fsMount_succeeds hmount
  obtain ⟨_, hserves, hcount, himage⟩ := req.opened_zero hopen
  refine ⟨loadable_of_check hserves hcheck, himage, ?_⟩
  rw [hcount, Nat.mul_div_cancel _ (by decide)]

theorem fsUnmount_mounted (io : Nat → Transfer) : ∃ s'', fsUnmount io s' = .ok (0, s'') ∧
    s''.device.host.image = ((req.accepted (req.opened s.device).2).flush io
      (req.fat (req.opened s.device).2)
      (req.rootRead (req.opened s.device).2).device).host.image := by
  obtain ⟨fd, _, hfd, _⟩ := (fsMount_loadable hmount).1.serves.1
  obtain ⟨_, _, _, rfl⟩ := fsMount_succeeds hmount
  obtain ⟨s'', hunmount, _, himage⟩ := fsUnmount_succeeds io (s := { s with
    fileSystem := .live (req.accepted (req.opened s.device).2)
    device := (req.rootRead (req.opened s.device).2).device }) rfl rfl (by simp [hfd])
  exact ⟨s'', hunmount, himage⟩

theorem flush_mounted_iff (hwhole : ∀ i, req.io i = .whole) :
    (((req.accepted (req.opened s.device).2).flush (fun _ => .whole)
        (req.fat (req.opened s.device).2)
        (req.rootRead (req.opened s.device).2).device).host.image req.diskname.bytes).byte =
        (s.device.host.image req.diskname.bytes).byte ↔
      FatWindowsAgree s.device.host req.diskname.bytes := by
  obtain ⟨hloadable, himage, hcount⟩ := fsMount_loadable hmount
  rw [← himage] at hcount
  have hiff := hloadable.flush_byte_iff hwhole hcount
  unfold FatWindowsAgree Host.block at hiff ⊢
  rwa [himage] at hiff

end Unmounting

/-- A mount followed by an unmount returns, and it leaves the bytes of the disk as
they were if and only if the FAT blocks agree where they are laid over each other. -/
theorem unmount_after_mount_iff {req : MountRequest L} {s s' : State L N}
    (hwhole : ∀ i, req.io i = .whole) (hmount : fsMount req s = (0, s')) :
    ∃ s'', fsUnmount (fun _ => .whole) s' = .ok (0, s'') ∧
      ((s''.device.host.image req.diskname.bytes).byte =
          (s.device.host.image req.diskname.bytes).byte ↔
        FatWindowsAgree s.device.host req.diskname.bytes) := by
  obtain ⟨s'', hunmount, hflush⟩ := fsUnmount_mounted hmount fun _ => .whole
  refine ⟨s'', hunmount, ?_⟩
  rw [hflush]
  exact flush_mounted_iff hmount hwhole

/-! A disk of 4096 blocks, two of them for the FAT, whose second FAT entry is 1. -/

def twoFatHost : Host := sampleHost 4096 2 fun p => if p = 4096 + 2 then 1 else 0
def twoFatStart : State .packed 32 := .initial twoFatHost
def twoFatMount : MountRequest .packed := mountD ⟨⟨fun _ => 0⟩, blankDir, .null⟩

theorem twoFat_mounted : ∃ s', fsMount twoFatMount twoFatStart = (0, s') :=
  ⟨_, fsMount_returns twoFatMount twoFatStart (by decide) rfl (by decide)⟩

theorem unmount_after_mount_iff_two_fat : ∃ s' s'', fsMount twoFatMount twoFatStart = (0, s') ∧
    fsUnmount (fun _ => .whole) s' = .ok (0, s'') ∧
      ((s''.device.host.image diskD.bytes).byte = (twoFatHost.image diskD.bytes).byte ↔
        FatWindowsAgree twoFatHost diskD.bytes) := by
  obtain ⟨s', hmount⟩ := twoFat_mounted
  obtain ⟨s'', hunmount⟩ := unmount_after_mount_iff (fun _ => rfl) hmount
  exact ⟨s', s'', hmount, hunmount⟩

/-- The first FAT block comes back with its second entry overwritten by the second
block's first entry. -/
theorem unmount_after_mount_refuted :
    ¬ ∀ (req : MountRequest .packed) (s s' s'' : State .packed 32), (∀ i, req.io i = .whole) →
      fsMount req s = (0, s') → fsUnmount (fun _ => .whole) s' = .ok (0, s'') →
        (s''.device.host.image req.diskname.bytes).byte =
          (s.device.host.image req.diskname.bytes).byte := by
  intro hrestores
  obtain ⟨s', hmount⟩ := twoFat_mounted
  obtain ⟨s'', hunmount, hflush⟩ := fsUnmount_mounted hmount fun _ => .whole
  have hsame := hrestores _ _ _ _ (fun _ => rfl) hmount hunmount
  rw [hflush] at hsame
  have hagree := (flush_mounted_iff hmount fun _ => rfl).mp hsame
  have hentry := hagree 0 (by decide) 2 (by decide) (by decide)
  revert hentry
  decide

end LibFs
