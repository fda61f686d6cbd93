import LibFs.Mounting.Transfers
import LibFs.Model.Effects

/-! The directory across an unmount and the next mount. It is written and read as
one block, while the array has 33 or 36 bytes for each of its 128 entries, so the
last entries come from whatever the memory of the new object held. -/
namespace LibFs

open LibFs.Foundation

/-- The file system in memory was loaded from the disk named `diskname`, which is
still open. Its directory and its FAT may since have become anything. -/
structure MountedFrom (diskname : CStr) (s : State L N) (fs : FsSystem L) : Prop where
  loaded : s.fileSystem = .live fs
  allocated : ∃ fat, fs.fatBlocks = .live fat
  serves : s.device.Serves diskname.bytes
  size : (s.device.host.image diskname.bytes).size = s.device.disk.bcount * blockSize
  named : ¬ (diskNameMax < toInt diskname.strlen ∨ toInt diskname.strlen = 0)
  checked : sysErrorCheck (toInt diskname.strlen) diskname fs.sp s.device = 0
  superblock : superblockIndex < s.device.disk.bcount → ∀ p < blockSize,
    fs.sp.raw p = s.device.host.block diskname.bytes superblockIndex p

def SameFields (dir dir' : RootDir L) : Prop :=
  ∀ i, ((dir i).filename = (dir' i).filename ∧ (dir i).fileSize = (dir' i).fileSize ∧
    (dir i).fileFirstIndex = (dir' i).fileFirstIndex) ∧ (dir i).isEmpty = (dir' i).isEmpty

/-- The bytes of the directory array that reach the disk: those of one block, when
the root block is a block of the disk. -/
def Stored (fs : FsSystem L) (d : Device) (offset : Nat) : Prop :=
  toSizeT fs.sp.rootDirIndex < d.disk.bcount ∧ offset < blockSize

instance (fs : FsSystem L) (d : Device) (offset : Nat) : Decidable (Stored fs d offset) :=
  inferInstanceAs (Decidable (_ ∧ _))

def FreshAgrees (stored : Nat → Prop) (dir fresh : RootDir L) : Prop :=
  ∀ i : Fin fsFileMaxCount,
    (∀ k < 22, ¬ stored (L.entrySize * i + k) → (fresh i).byte k = (dir i).byte k) ∧
      (¬ stored (L.entrySize * i + 32) → (fresh i).isEmpty = (dir i).isEmpty)

theorem RootEntry.byte_emptyByte (e : RootEntry L) : e.byte 32 = e.emptyByte := by
  simp [byte, fsFilenameLen]

/-- Loading a buffer that holds `dir` where it was stored and `fresh` elsewhere. -/
theorem sameFields_iff {stored : Nat → Prop} {dir fresh : RootDir L} {buffer : Bytes}
    {behind : CStr}
    (hstored : ∀ offset, stored offset → buffer offset = dir.toBytes offset)
    (hfresh : ∀ offset, ¬ stored offset → buffer offset = fresh.toBytes offset) :
    SameFields (RootDir.ofBytes buffer behind) dir ↔ FreshAgrees stored dir fresh := by
  refine forall_congr' fun i => and_congr ?_ ?_
  · rw [RootEntry.fields_eq_iff]
    refine forall₂_congr fun k hk => ?_
    have hsize : k < L.entrySize := by
      unfold Layout.entrySize
      omega
    have hbyte : (RootDir.ofBytes buffer behind i : RootEntry L).byte k =
        buffer (L.entrySize * i + k) := RootEntry.byte_ofBytes _ hsize
    rw [hbyte]
    by_cases hk : stored (L.entrySize * i + k)
    · rw [hstored _ hk, dir.toBytes_entry i hsize]
      exact iff_of_true rfl fun hout => absurd hk hout
    · rw [hfresh _ hk, fresh.toBytes_entry i hsize]
      exact ⟨fun h _ => h, fun h => h hk⟩
  · have hsize : 32 < L.entrySize := by
      unfold Layout.entrySize
      omega
    have hflag : (RootDir.ofBytes buffer behind i : RootEntry L).isEmpty =
        (buffer (L.entrySize * i + 32) != 0) := rfl
    rw [hflag]
    by_cases hk : stored (L.entrySize * i + 32)
    · rw [hstored _ hk, dir.toBytes_entry i hsize, RootEntry.byte_emptyByte]
      exact iff_of_true rfl fun hout => absurd hk hout
    · rw [hfresh _ hk, fresh.toBytes_entry i hsize, RootEntry.byte_emptyByte]
      exact ⟨fun h _ => h, fun h => h hk⟩

theorem mountedFrom_mount {req : MountRequest L} {s s' : State L N} (hwhole : req.io 0 = .whole)
    (hmount : fsMount req s = (0, s')) :
    MountedFrom req.diskname s' (req.accepted (req.opened s.device).2) := by
  obtain ⟨hnamed, hopen, hcheck, rfl⟩ := fsMount_succeeds hmount
  obtain ⟨_, hserves, hsize, himage⟩ := req.opened_zero hopen
  constructor
  · rfl
  · exact ⟨_, rfl⟩
  · exact req.rootRead_serves hserves
  · simpa [himage] using hsize
  · exact of_decide_eq_false hnamed
  · have hcount : blockDiskCount (req.superblock (req.opened s.device).2).device =
        blockDiskCount (req.rootRead (req.opened s.device).2).device := by simp [blockDiskCount]
    have hle : req.nameLength ≤ diskNameMax :=
      not_lt.mp fun hlong => of_decide_eq_false hnamed (Or.inl hlong)
    rw [← hcheck]
    exact (sysErrorCheck_congr hle (fun _ _ => rfl) hcount).symm
  · intro hsome p hp
    simp only [MountRequest.rootRead_disk] at hsome
    apply (sp_raw hwhole hserves hsome hp).trans
    unfold Host.block
    rw [req.rootRead_image]

theorem MountedFrom.step {diskname : CStr} {fs : FsSystem L} {e : ApiEvent L N}
    (h : MountedFrom diskname e.before fs) (hcall : e.call.InSession)
    (hstep : step e.call e.before = .ok (e.ret, e.after)) :
    ∃ fs', MountedFrom diskname e.after fs' := by
  obtain ⟨fat, hfat⟩ := h.allocated
  obtain ⟨hdevice, dir, fat', hlive⟩ := step_session h.loaded hfat hcall hstep
  exact ⟨_, hlive, ⟨fat', rfl⟩, hdevice ▸ h.serves, hdevice ▸ h.size, h.named,
    hdevice ▸ h.checked, hdevice ▸ h.superblock⟩

theorem MountedFrom.run {diskname : CStr} {start s : State L N} {fs : FsSystem L}
    {past : List (ApiEvent L N)} (h : MountedFrom diskname start fs) (hrun : ApiRun start past s)
    (hcalls : ∀ e ∈ past, e.call.InSession) : ∃ fs', MountedFrom diskname s fs' :=
  hrun.invariant (I := fun _ s => ∃ fs, MountedFrom diskname s fs) ⟨fs, h⟩
    (fun _ _ hinv hcall hstep => hinv.elim fun _ h => h.step hcall hstep)
    ((throughout_forall (fun e => e.call.InSession) past).mpr hcalls)

/-- What unmounting leaves of the disk `d` and the object `fs`: a closed disk of the
same size, the superblock where it was unless the root block is in its place, and
one block of the directory. -/
structure WrittenBack (diskname : CStr) (d : Device) (fs : FsSystem L) (s' : State L N) : Prop where
  closed : s'.device.disk.fd = none
  size : (s'.device.host.image diskname.bytes).size = d.disk.bcount * blockSize
  superblock : 0 < toSizeT fs.sp.rootDirIndex → superblockIndex < d.disk.bcount →
    ∀ p < blockSize, s'.device.host.block diskname.bytes superblockIndex p = fs.sp.raw p
  directory : toSizeT fs.sp.rootDirIndex < d.disk.bcount → ∀ p < blockSize,
    s'.device.host.block diskname.bytes (toSizeT fs.sp.rootDirIndex) p = fs.rootDir.toBytes p

section Remount

variable {diskname : CStr} {s : State L N} {fs : FsSystem L} (h : MountedFrom diskname s fs)
include h

theorem MountedFrom.fatOnDisk (i : Nat) (hi : i < fs.sp.fatBlckAmount.toNat) :
    fatIndex + i < s.device.disk.bcount :=
  (sysErrorCheck_accepted h.checked).fat_on_disk hi

theorem MountedFrom.unmount :
    ∃ s', fsUnmount (fun _ => .whole) s = .ok (0, s') ∧ WrittenBack diskname s.device fs s' := by
  obtain ⟨fat, hfat⟩ := h.allocated
  obtain ⟨fd, _, hfd, _⟩ := h.serves.1
  obtain ⟨s', hunmount, hdisk, himage⟩ := fsUnmount_succeeds (fun _ => .whole) h.loaded hfat
    (by simp [hfd])
  have hblock (b p : Nat) (hp : p < blockSize) :=
    flush_whole fs fat h.serves h.fatOnDisk b hp
  refine ⟨s', hunmount, by rw [hdisk], ?_, fun hroot hsome p hp => ?_, fun hin p hp => ?_⟩
  · rw [himage, FsSystem.flush_size, h.size]
  · rw [h.superblock hsome p hp]
    have hsuper := hblock superblockIndex p hp
    have hnotRoot : superblockIndex ≠ toSizeT fs.sp.rootDirIndex := hroot.ne
    have hnotFat : ¬ fatIndex ≤ superblockIndex := by decide
    rw [if_neg fun h => hnotRoot h.1, if_neg fun h => hnotFat h.1] at hsuper
    rw [← hsuper]
    unfold Host.block
    rw [himage]
  · have hdir := hblock (toSizeT fs.sp.rootDirIndex) p hp
    rw [if_pos ⟨rfl, hin⟩] at hdir
    rw [← hdir]
    unfold Host.block
    rw [himage]

end Remount

section Remounting

variable {req : MountRequest L} {s s' : State L N} {fs : FsSystem L} {fd : Nat}
  (h : MountedFrom req.diskname s fs) (hback : WrittenBack req.diskname s.device fs s')
  (hwhole : ∀ i, req.io i = .whole)
include h hback

theorem WrittenBack.reopened (hopen : (req.opened s'.device).1 = 0) :
    (req.opened s'.device).2.Serves req.diskname.bytes ∧
      (req.opened s'.device).2.disk.bcount = s.device.disk.bcount ∧
      blockDiskCount (req.opened s'.device).2 = blockDiskCount s.device ∧
      ∀ b, (req.opened s'.device).2.host.block req.diskname.bytes b =
        s'.device.host.block req.diskname.bytes b := by
  obtain ⟨_, hserves, hsize, himage⟩ := req.opened_zero hopen
  have hcount : (req.opened s'.device).2.disk.bcount = s.device.disk.bcount :=
    Nat.eq_of_mul_eq_mul_right (by decide) (hsize.symm.trans hback.size)
  refine ⟨hserves, hcount, ?_, fun b => ?_⟩
  · rw [hserves.blockDiskCount, h.serves.blockDiskCount, hcount]
  · unfold Host.block
    rw [himage]

include hwhole

theorem WrittenBack.remount_returns (hanswer : req.answer = ⟨some fd, false⟩)
    (hroot : 0 < toSizeT fs.sp.rootDirIndex) (hsome : superblockIndex < s.device.disk.bcount) :
    ∃ s'', fsMount req s' = (0, s'') := by
  have hopen : (req.opened s'.device).1 = 0 := by
    apply req.opened_returns hanswer hback.closed
    rw [hback.size, Nat.mul_mod_left]
  obtain ⟨hserves, hcount, hblocks, hblock⟩ := hback.reopened h hopen
  have hraw (p : Nat) (hp : p < blockSize) :
      (req.sp (req.opened s'.device).2).raw p = fs.sp.raw p := by
    rw [sp_raw (hwhole 0) hserves (hcount ▸ hsome) hp, hblock]
    exact hback.superblock hroot hsome p hp
  have hle : toInt req.diskname.strlen ≤ diskNameMax :=
    not_lt.mp fun hlong => h.named (Or.inl hlong)
  have hcheck : req.check (req.opened s'.device).2 = 0 := by
    rw [← h.checked]
    refine sysErrorCheck_congr hle hraw (Eq.trans ?_ hblocks)
    rw [(req.superblock_serves hserves).blockDiskCount, hserves.blockDiskCount,
      req.superblock_disk]
  exact ⟨_, fsMount_returns req s' (decide_eq_false h.named) hopen hcheck⟩

theorem WrittenBack.remount_sameFields_iff {s'' : State L N} (hmount : fsMount req s' = (0, s'')) :
    ∃ fs'', s''.fileSystem = .live fs'' ∧
      (SameFields fs''.rootDir fs.rootDir ↔
        FreshAgrees (Stored fs s.device) fs.rootDir req.fresh.rootDir) := by
  obtain ⟨_, hopen, hcheck, rfl⟩ := fsMount_succeeds hmount
  obtain ⟨hserves, hcount, hblocks, hblock⟩ := hback.reopened h hopen
  have hroot : req.rootIndex (req.opened s'.device).2 = toSizeT fs.sp.rootDirIndex := by
    unfold MountRequest.rootIndex
    rw [(req.check_accepted hcheck).root_eq (sysErrorCheck_accepted h.checked) hblocks]
  refine ⟨_, rfl, sameFields_iff (fun offset hin => ?_) fun offset hout => ?_⟩
  · obtain ⟨hin, hoffset⟩ := hin
    rw [rootRead_buffer (hwhole _) hserves, hroot, hcount, if_pos ⟨hin, hoffset⟩, hblock]
    exact hback.directory hin offset hoffset
  · rw [rootRead_buffer (hwhole _) hserves, hroot, hcount]
    exact if_neg hout

end Remounting

/-- An unmount followed by a mount of the same disk keeps the fields of all 128
entries if and only if the new object's memory already holds them wherever the
stored block does not reach. The mount succeeds on every disk that has a
superblock block other than its root block. -/
theorem directory_persists_iff {req : MountRequest L} {s : State L N} {fs : FsSystem L} {fd : Nat}
    (h : MountedFrom req.diskname s fs) (hwhole : ∀ i, req.io i = .whole)
    (hanswer : req.answer = ⟨some fd, false⟩) :
    ∃ s', fsUnmount (fun _ => .whole) s = .ok (0, s') ∧
      (0 < toSizeT fs.sp.rootDirIndex → superblockIndex < s.device.disk.bcount →
        ∃ s'', fsMount req s' = (0, s'')) ∧
      ∀ s'', fsMount req s' = (0, s'') → ∃ fs'', s''.fileSystem = .live fs'' ∧
        (SameFields fs''.rootDir fs.rootDir ↔
          FreshAgrees (Stored fs s.device) fs.rootDir req.fresh.rootDir) := by
  obtain ⟨s', hunmount, hback⟩ := h.unmount
  exact ⟨s', hunmount, hback.remount_returns h hwhole hanswer,
    fun _ hmount => hback.remount_sameFields_iff h hwhole hmount⟩

/-! The directory that `fs_create("a")` leaves on a blank disk: 128 files "a". -/

def createdFs : FsSystem .packed := formattedFs (fillAll nameA blankDir)

def zeroMount : MountRequest .packed :=
  mountD ⟨⟨fun _ => 0⟩, RootDir.ofBytes (fun _ => 0) CStr.empty, .null⟩

theorem created_mountedFrom :
    MountedFrom zeroMount.diskname (createdState : State .packed 32) createdFs where
  loaded := rfl
  allocated := ⟨_, rfl⟩
  serves := ⟨⟨3, 0, rfl, rfl⟩, le_rfl⟩
  size := rfl
  named := by decide
  checked := by decide
  superblock _ p hp := by
    change _ = if 0 * blockSize + p < blockSize then
      (sampleSuper 4 0).raw (0 * blockSize + p) else 0
    rw [Nat.zero_mul, Nat.zero_add, if_pos hp]
    rfl

theorem directory_persists_iff_created :
    ∃ s', fsUnmount (fun _ => .whole) (createdState : State .packed 32) = .ok (0, s') ∧
      ∃ s'', fsMount zeroMount s' = (0, s'') := by
  obtain ⟨s', hunmount, hremount, _⟩ := directory_persists_iff created_mountedFrom
    (fun _ => rfl) rfl
  exact ⟨s', hunmount, hremount (by decide) (by decide)⟩

/-- In zeroed memory the last entry loses its name. -/
theorem directory_persists_refuted :
    ¬ ∀ (req : MountRequest .packed) (s s' s'' : State .packed 32) (fs fs'' : FsSystem .packed),
      MountedFrom req.diskname s fs → (∀ i, req.io i = .whole) →
        fsUnmount (fun _ => .whole) s = .ok (0, s') → fsMount req s' = (0, s'') →
          s''.fileSystem = .live fs'' → SameFields fs''.rootDir fs.rootDir := by
  intro hpersists
  obtain ⟨s', hunmount, hback⟩ := created_mountedFrom.unmount
  obtain ⟨s'', hmount⟩ := hback.remount_returns created_mountedFrom (fun _ => rfl) rfl
    (by decide) (by decide)
  obtain ⟨fs'', hlive, hiff⟩ :=
    hback.remount_sameFields_iff created_mountedFrom (fun _ => rfl) hmount
  have hsame := hpersists _ _ _ _ _ _ created_mountedFrom (fun _ => rfl) hunmount hmount hlive
  have hfresh := hiff.mp hsame
  have hname := (hfresh 127).1 0 (by decide) (by decide)
  revert hname
  decide

end LibFs
