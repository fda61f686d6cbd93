import LibFs.Mounting.Transfers

/-! What becomes of a host operation that fails or moves fewer bytes than a block. The
two block functions take any count for success, and mounting and unmounting do not look
at what the block functions return. -/
namespace LibFs

open LibFs.Foundation

def Device.Addresses (d : Device) (block : Nat) : Prop :=
  (∃ fd, d.disk.fd = some fd ∧ (d.host.fds fd).isSome) ∧ block < d.disk.bcount ∧
    block * blockSize % 2 ^ 64 < 2 ^ 63

/-- The transfer of a block took place and moved all of it. -/
def Full (t : Transfer) (block : Nat) (d : Device) : Prop :=
  d.Addresses block ∧ t = .whole

def Short (t : Transfer) (block : Nat) (d : Device) : Prop :=
  d.Addresses block ∧ t.seeks = true ∧ ∃ count, t.moves = some count ∧ count ≠ Fin.last blockSize

section Blocks

variable (t : Transfer) (block : Nat) (d : Device)

/-- A block function returns 0 when the transfer took place, whatever it moved. -/
private theorem not_short_iff {returns : Prop}
    (h : returns ↔ d.Addresses block ∧ t.seeks = true ∧ t.moves.isSome) :
    (returns → Full t block d) ↔ ¬ Short t block d := by
  rw [h]
  constructor
  · rintro hfull ⟨haddress, hseeks, count, hmoves, hcount⟩
    obtain ⟨_, hwhole⟩ := hfull ⟨haddress, hseeks, by rw [hmoves]; rfl⟩
    rw [hwhole] at hmoves
    exact hcount (Option.some.inj hmoves).symm
  · rintro hshort ⟨haddress, hseeks, hmoves⟩
    obtain ⟨count, hcount⟩ := Option.isSome_iff_exists.mp hmoves
    refine ⟨haddress, ?_⟩
    by_contra hne
    refine hshort ⟨haddress, hseeks, count, hcount, fun hlast => hne ?_⟩
    cases t
    simp_all [Transfer.whole]

theorem lseek_isSome_iff (host : Host) (seeks : Bool) (fd offset : Nat) :
    (host.lseek seeks fd offset).isSome ↔
      (host.fds fd).isSome ∧ seeks = true ∧ offset < 2 ^ 63 := by
  unfold Host.lseek
  cases host.fds fd with
  | none => simp
  | some file => simp

theorem seekTo_fds_isSome {host : Host} {fd : Nat} {file : HostFd} (h : host.fds fd = some file)
    (moved : HostFd) (cursor k : Nat) :
    ((host.seekTo fd moved cursor).fds k).isSome = (host.fds k).isSome := by
  by_cases hk : k = fd
  · subst hk
    simp [Host.seekTo, h]
  · simp [Host.seekTo, hk]

theorem lseek_fds_isSome {host next : Host} {seeks : Bool} {fd offset : Nat}
    (h : host.lseek seeks fd offset = some next) (k : Nat) :
    (next.fds k).isSome = (host.fds k).isSome := by
  obtain ⟨file, hfile, rfl⟩ := Host.lseek_some h
  exact seekTo_fds_isSome hfile file offset k

theorem read_isSome_iff (host : Host) (moves : Option (Fin (blockSize + 1))) (fd : Nat)
    (buffer : Bytes) (offset : Nat) :
    (host.read moves fd buffer offset).isSome ↔ (host.fds fd).isSome ∧ moves.isSome := by
  unfold Host.read
  cases host.fds fd <;> cases moves <;> simp

theorem write_isSome_iff (host : Host) (moves : Option (Fin (blockSize + 1))) (fd : Nat)
    (source : Bytes) :
    (host.write moves fd source).isSome ↔ (host.fds fd).isSome ∧ moves.isSome := by
  unfold Host.write
  cases host.fds fd <;> cases moves <;> simp

private theorem takes_place_iff {fd : Nat} (hfd : d.disk.fd = some fd)
    (hblock : block < d.disk.bcount) {moves : Host → Prop}
    (hmoves : ∀ host, moves host ↔ (host.fds fd).isSome ∧ t.moves.isSome) :
    (∃ host, d.host.lseek t.seeks fd (block * blockSize % 2 ^ 64) = some host ∧ moves host) ↔
      d.Addresses block ∧ t.seeks = true ∧ t.moves.isSome := by
  have hseek := lseek_isSome_iff d.host t.seeks fd (block * blockSize % 2 ^ 64)
  constructor
  · rintro ⟨host, hhost, hmoved⟩
    obtain ⟨hopen, hseeks, hoffset⟩ := hseek.mp (by rw [hhost]; rfl)
    exact ⟨⟨⟨fd, hfd, hopen⟩, hblock, hoffset⟩, hseeks, ((hmoves host).mp hmoved).2⟩
  · rintro ⟨⟨⟨fd', hfd', hopen⟩, _, hoffset⟩, hseeks, hmoved⟩
    rw [hfd] at hfd'
    cases hfd'
    obtain ⟨host, hhost⟩ := Option.isSome_iff_exists.mp (hseek.mpr ⟨hopen, hseeks, hoffset⟩)
    refine ⟨host, hhost, (hmoves host).mpr ⟨?_, hmoved⟩⟩
    rw [lseek_fds_isSome hhost, hopen]

theorem blockRead_ret_iff (buffer : Bytes) (offset : Nat) :
    (blockRead t block buffer offset d).ret = 0 ↔
      d.Addresses block ∧ t.seeks = true ∧ t.moves.isSome := by
  cases hfd : d.disk.fd with
  | none => simp [blockRead, Device.Addresses, hfd]
  | some fd =>
      by_cases hblock : block < d.disk.bcount
      · rw [← takes_place_iff t block d hfd hblock fun host =>
          read_isSome_iff host t.moves fd buffer offset]
        unfold blockRead
        simp only [hfd, if_neg (Nat.not_le.mpr hblock)]
        cases d.host.lseek t.seeks fd (block * blockSize % 2 ^ 64) with
        | none => simp
        | some host => cases hread : host.read t.moves fd buffer offset <;> simp [hread]
      · rw [blockRead_refused t buffer offset (Nat.not_lt.mp hblock)]
        simp [Device.Addresses, hblock]

theorem blockWrite_ret_iff (source : Bytes) :
    (blockWrite t block source d).1 = 0 ↔
      d.Addresses block ∧ t.seeks = true ∧ t.moves.isSome := by
  cases hfd : d.disk.fd with
  | none => simp [blockWrite, Device.Addresses, hfd]
  | some fd =>
      by_cases hblock : block < d.disk.bcount
      · rw [← takes_place_iff t block d hfd hblock fun host =>
          write_isSome_iff host t.moves fd source]
        unfold blockWrite
        simp only [hfd, if_neg (Nat.not_le.mpr hblock)]
        cases d.host.lseek t.seeks fd (block * blockSize % 2 ^ 64) with
        | none => simp
        | some host => cases hwrite : host.write t.moves fd source <;> simp [hwrite]
      · rw [blockWrite_refused (Nat.not_lt.mp hblock)]
        simp [Device.Addresses, hblock]

end Blocks

/-! No transfer changes which blocks can be sought. -/

section Addresses

theorem addresses_congr {d d' : Device} (hdisk : d'.disk = d.disk)
    (hfds : ∀ k, (d'.host.fds k).isSome = (d.host.fds k).isSome) (block : Nat) :
    d'.Addresses block ↔ d.Addresses block := by
  unfold Device.Addresses
  rw [hdisk]
  simp only [hfds]

theorem write_fds_isSome {host next : Host} {moves : Option (Fin (blockSize + 1))} {fd : Nat}
    {source : Bytes} (h : host.write moves fd source = some next) (k : Nat) :
    (next.fds k).isSome = (host.fds k).isSome := by
  unfold Host.write at h
  split at h
  · rename_i file count hfile
    cases h
    exact seekTo_fds_isSome hfile file (file.cursor + count) k
  · contradiction

@[simp] theorem blockRead_addresses (t : Transfer) (block : Nat) (buffer : Bytes) (offset : Nat)
    (d : Device) (b : Nat) :
    (blockRead t block buffer offset d).device.Addresses b ↔ d.Addresses b := by
  rcases blockRead_device t block buffer offset d with h | ⟨fd, file, cursor, hfile, h⟩
  · rw [h]
  · rw [h]
    refine addresses_congr (by rfl) (fun k => ?_) b
    exact seekTo_fds_isSome hfile file cursor k

@[simp] theorem blockWrite_addresses (t : Transfer) (block : Nat) (source : Bytes) (d : Device)
    (b : Nat) : (blockWrite t block source d).2.Addresses b ↔ d.Addresses b := by
  refine addresses_congr (blockWrite_disk t block source d) (fun k => ?_) b
  unfold blockWrite
  split
  · rfl
  · split
    · rfl
    · split
      · rfl
      · rename_i host hseek
        split
        · exact lseek_fds_isSome hseek k
        · rename_i next hwrite
          exact (write_fds_isSome hwrite k).trans (lseek_fds_isSome hseek k)

variable (io : Nat → Transfer) (count : Nat) (buffer : Bytes) (d : Device) (b : Nat)

@[simp] theorem loadFat_addresses :
    (loadFat io count buffer d).2.Addresses b ↔ d.Addresses b := by
  induction count with
  | zero => rfl
  | succ count ih => simp only [loadFat, blockRead_addresses, ih]

@[simp] theorem storeFat_addresses :
    (storeFat io count buffer d).Addresses b ↔ d.Addresses b := by
  induction count with
  | zero => rfl
  | succ count ih => simp only [storeFat, blockWrite_addresses, ih]

variable {d b}

theorem Device.Serves.addresses {path : List UInt8} (h : d.Serves path)
    (hb : b < d.disk.bcount) : d.Addresses b := by
  obtain ⟨fd, cursor, hdisk, hfds, _⟩ := h.lseek hb
  have hsize := (d.host.image path).sizeFits
  have hcount := h.2
  have hlt : b * blockSize < d.disk.bcount * blockSize :=
    Nat.mul_lt_mul_of_pos_right hb (by decide)
  exact ⟨⟨fd, hdisk, by rw [hfds]; rfl⟩, hb, by omega⟩

end Addresses

/-! Mounting and unmounting. -/

structure ReadInFull (req : MountRequest L) (d : Device) : Prop where
  superblock : Full (req.io 0) superblockIndex d
  fatBlocks : ∀ i < req.blocks d, Full (req.io (i + 1)) (toSizeT (fatIndex + i))
    (loadFat (fun i => req.io (i + 1)) i (fun _ => 0) (req.superblock d).device).2
  root : Full (req.io (req.blocks d + 1)) (req.rootIndex d) (req.fatRead d).2

structure WrittenInFull (io : Nat → Transfer) (fs : FsSystem L) (d : Device) : Prop where
  fatBlocks : ∀ i < fs.sp.fatBlckAmount.toNat,
    Full (fs.fatTransfers io i) (toSizeT (fatIndex + i))
      (storeFat (fs.fatTransfers io) i fs.fatBytes d)
  root : Full (io fs.sp.fatBlckAmount.toNat) (toSizeT fs.sp.rootDirIndex)
    (storeFat (fs.fatTransfers io) fs.sp.fatBlckAmount.toNat fs.fatBytes d)

def MountTransfers (req : MountRequest L) (d : Device) : Prop :=
  (∀ i ≤ req.blocks d + 1, req.io i = .whole) ∧ req.rootIndex d < d.disk.bcount

/-- Every transfer of the unmount moves a whole block that is on the disk, and the FAT has
been allocated unless it has no blocks. -/
def UnmountTransfers (io : Nat → Transfer) (fs : FsSystem L) (d : Device) : Prop :=
  (∀ i ≤ fs.sp.fatBlckAmount.toNat, io i = .whole) ∧
    (∀ i < fs.sp.fatBlckAmount.toNat,
      fs.fatBlocks.isLive = true ∧ d.Addresses (toSizeT (fatIndex + i))) ∧
    d.Addresses (toSizeT fs.sp.rootDirIndex)

theorem readInFull_iff {req : MountRequest L} {d : Device} {path : List UInt8}
    (hserves : d.Serves path) (hcheck : req.check d = 0) :
    ReadInFull req d ↔ MountTransfers req d := by
  have haccepted := req.check_accepted hcheck
  constructor
  · rintro ⟨⟨_, hsuper⟩, hfat, haddress, hroot⟩
    refine ⟨fun i hi => ?_, ?_⟩
    · cases i with
      | zero => exact hsuper
      | succ i =>
          rcases (Nat.le_of_succ_le_succ hi).eq_or_lt with rfl | hlt
          · exact hroot
          · exact (hfat i hlt).2
    · have haddress' : (req.fatRead d).2.disk = d.disk := req.fatRead_disk d
      rw [← haddress']
      exact haddress.2.1
  · rintro ⟨hwhole, hroot⟩
    refine ⟨⟨hserves.addresses (Nat.zero_lt_of_lt hroot), hwhole 0 (Nat.zero_le _)⟩,
      fun i hi => ⟨?_, hwhole (i + 1) (by omega)⟩, ?_, hwhole _ le_rfl⟩
    · have hin := haccepted.fat_on_disk hi
      rw [loadFat_addresses, toSizeT_fatIndex hserves hin]
      exact (req.superblock_serves hserves).addresses (by simpa using hin)
    · exact (req.fatRead_serves hserves).addresses (by simpa using hroot)

theorem fatTransfers_whole_iff (io : Nat → Transfer) (fs : FsSystem L) (i : Nat) :
    fs.fatTransfers io i = .whole ↔ fs.fatBlocks.isLive = true ∧ io i = .whole := by
  unfold FsSystem.fatTransfers Transfer.whole
  cases fs.fatBlocks <;> simp [Pointer.isLive]

theorem writtenInFull_iff (io : Nat → Transfer) (fs : FsSystem L) (d : Device) :
    WrittenInFull io fs d ↔ UnmountTransfers io fs d := by
  constructor
  · rintro ⟨hfat, haddress, hroot⟩
    simp only [Full, storeFat_addresses, fatTransfers_whole_iff] at hfat haddress
    refine ⟨fun i hi => ?_, fun i hi => ⟨(hfat i hi).2.1, (hfat i hi).1⟩, haddress⟩
    rcases hi.eq_or_lt with rfl | hlt
    · exact hroot
    · exact (hfat i hlt).2.2
  · rintro ⟨hwhole, hfat, hroot⟩
    refine ⟨fun i hi => ⟨?_, ?_⟩, ?_, hwhole _ le_rfl⟩
    · rw [storeFat_addresses]
      exact (hfat i hi).2
    · exact (fatTransfers_whole_iff io fs i).mpr ⟨(hfat i hi).1, hwhole i hi.le⟩
    · rw [storeFat_addresses]
      exact hroot

def MountUnharmed (req : MountRequest L) (s : State L N) : Prop :=
  req.nameRefused = true ∨ (req.opened s.device).1 ≠ 0 ∨ req.check (req.opened s.device).2 ≠ 0 ∨
    MountTransfers req (req.opened s.device).2

/-- There is no object to write out, its FAT cannot be freed, there is no disk to write to,
or all writes are whole. -/
def UnmountUnharmed (io : Nat → Transfer) (s : State L N) : Prop :=
  ∀ fs, s.fileSystem = .live fs → fs.fatBlocks ≠ .freed → s.device.disk.fd.isSome →
    UnmountTransfers io fs s.device

theorem mount_reports_iff (req : MountRequest L) (s : State L N) :
    ((fsMount req s).1 = 0 → ReadInFull req (req.opened s.device).2) ↔ MountUnharmed req s := by
  rw [fsMount_ret]
  unfold MountUnharmed
  cases hname : req.nameRefused with
  | true => simp
  | false =>
      by_cases hopen : (req.opened s.device).1 = 0
      · by_cases hcheck : req.check (req.opened s.device).2 = 0
        · have hserves := (req.opened_zero hopen).2.1
          simp [hopen, hcheck, readInFull_iff hserves hcheck]
        · simp [hopen, hcheck]
      · simp [hopen]

theorem unmount_reports_iff (io : Nat → Transfer) (s : State L N) :
    (∀ next, fsUnmount io s = .ok (0, next) →
      ∃ fs, s.fileSystem = .live fs ∧ WrittenInFull io fs s.device) ↔ UnmountUnharmed io s := by
  constructor
  · intro hreports fs hlive hfat hopen
    obtain ⟨next, hunmount, _⟩ := fsUnmount_open io hlive hfat hopen
    obtain ⟨fs', hlive', hwritten⟩ := hreports next hunmount
    rw [hlive] at hlive'
    cases hlive'
    exact (writtenInFull_iff io fs s.device).mp hwritten
  · intro hunharmed next hunmount
    obtain ⟨fs, hlive, hfat, hret, _⟩ := fsUnmount_cases hunmount
    refine ⟨fs, hlive, (writtenInFull_iff io fs s.device).mpr ?_⟩
    refine hunharmed fs hlive hfat (Option.isSome_iff_ne_none.mpr fun hclosed => ?_)
    simp [blockDiskClose, hclosed] at hret

/-- A block function returns 0 only for a full transfer if and only if the transfer is not
short; a mount or an unmount returns 0 only if all its blocks were moved in full if and
only if it fails before its last transfer or all of its transfers are whole. -/
theorem io_failures_reported_iff :
    (∀ t block buffer offset d,
      ((blockRead t block buffer offset d).ret = 0 → Full t block d) ↔ ¬ Short t block d) ∧
    (∀ t block source d,
      ((blockWrite t block source d).1 = 0 → Full t block d) ↔ ¬ Short t block d) ∧
    (∀ (req : MountRequest L) (s : State L N),
      ((fsMount req s).1 = 0 → ReadInFull req (req.opened s.device).2) ↔ MountUnharmed req s) ∧
    (∀ (io : Nat → Transfer) (s : State L N),
      (∀ next, fsUnmount io s = .ok (0, next) →
        ∃ fs, s.fileSystem = .live fs ∧ WrittenInFull io fs s.device) ↔
          UnmountUnharmed io s) := by
  refine ⟨fun t block buffer offset d => ?_, fun t block source d => ?_, mount_reports_iff,
    unmount_reports_iff⟩
  · exact not_short_iff t block d (blockRead_ret_iff t block d buffer offset)
  · exact not_short_iff t block d (blockWrite_ret_iff t block d source)

def unreadableMount : MountRequest .packed :=
  { freshMount with io := fun i => if i = 1 then ⟨true, none⟩ else .whole }

theorem io_failures_reported_refuted :
    ¬ ((∀ t block buffer offset d,
        (blockRead t block buffer offset d).ret = 0 → Full t block d) ∧
      (∀ t block source d, (blockWrite t block source d).1 = 0 → Full t block d) ∧
      (∀ (req : MountRequest .packed) (s : State .packed 32),
        (fsMount req s).1 = 0 → ReadInFull req (req.opened s.device).2) ∧
      (∀ (io : Nat → Transfer) (s : State .packed 32) (next : State .packed 32),
        fsUnmount io s = .ok (0, next) →
          ∃ fs, s.fileSystem = .live fs ∧ WrittenInFull io fs s.device)) := by
  rintro ⟨_, _, hmounts, _⟩
  have hmount := fsMount_returns unreadableMount freshStart (by decide) rfl (by decide)
  have hread := hmounts unreadableMount freshStart (by rw [hmount])
  have hroot : unreadableMount.io 1 = .whole := hread.root.2
  have hmoves := congrArg Transfer.moves hroot
  simp [unreadableMount, Transfer.whole] at hmoves

end LibFs
