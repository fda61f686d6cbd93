import LibFs.Model.Disk
import LibFs.Model.RootDir
import Mathlib.Tactic.Linarith

/-! The mounting half of `fs.c`: the globals, the superblock check, `fs_mount`
and `fs_unmount`. The source does not compile as it stands; `file_size` in
`fs_mount` is read as `diskNameLen`, `calloc` as reserving the product it is
given, and `block_disk_close` as taking no argument. -/
namespace LibFs

open LibFs.Foundation

/-- The global variables of `fs.c` together with those of `disk.c`. The descriptor
table has `N` slots, which bounds its counter; the conversion of the counter to `int` is
left out, since it matters only to tables of more than `2 ^ 31` slots. -/
structure State (L : Layout) (N : Nat) where
  fileSystem : Pointer (FsSystem L)
  fdTable : Fin N → FdTableEntry
  fdOpenCount : Nat
  device : Device

def State.initial (host : Host) : State L N where
  fileSystem := .null
  fdTable _ := .zero
  fdOpenCount := 0
  device := ⟨⟨none, 0⟩, host⟩

def sysErrorCheck (fileSize : Int) (diskname : CStr) (sp : SuperBlock) (d : Device) : Int :=
  if (List.range fileSize.toNat).any (fun i => sp.signature i != diskname.bytes.getD i 0) then -1
  else
    let diskBlocks := blockDiskCount d
    if diskBlocks ≠ sp.dskBlckAmount then -1
    else
      let diskFatCount := (diskBlocks * 2).tdiv blockSize
      if diskFatCount ≠ sp.fatBlckAmount then -1
      else
        let diskDataBlcks := diskBlocks - (2 + diskFatCount)
        if diskDataBlcks ≠ sp.dataBlckAmount then -1
        else if diskFatCount + 1 ≠ sp.rootDirIndex then -1
        else if diskFatCount + 2 ≠ sp.dataBlckIndex then -1
        else 0

/-- The loop of the signature check, `left` bytes from index `i` on: the indices of
`signature` it reads, and whether it gets to its end. -/
def signatureLoop (diskname : CStr) (sp : SuperBlock) : Nat → Nat → List Nat × Bool
  | _, 0 => ([], true)
  | i, left + 1 =>
      if sp.signature i != diskname.bytes.getD i 0 then ([i], false)
      else
        let rest := signatureLoop diskname sp (i + 1) left
        (i :: rest.1, rest.2)

/-- The bytes reserved for the FAT: `unsigned` arithmetic up to the factor
`sizeof(uint16_t)`, which is a `size_t`. -/
def fatByteCount (fatBlckAmount : Int) : Nat :=
  (fatBlckAmount % 2 ^ 32).toNat * (blockSize / 2) % 2 ^ 32 * 2

/-- The arguments of a mount: the name, what the host answers, and what the
memory `malloc` returns happens to hold. -/
structure MountRequest (L : Layout) where
  diskname : CStr
  answer : OpenAnswer
  io : Nat → Transfer
  fresh : FsSystem L

/-- The loading loop. `&fat_blocks[i]` is two bytes further on for each block. -/
def loadFat (io : Nat → Transfer) : Nat → Bytes → Device → Bytes × Device
  | 0, buffer, d => (buffer, d)
  | i + 1, buffer, d =>
      let before := loadFat io i buffer d
      let loaded := blockRead (io i) (toSizeT (fatIndex + i)) before.1 (2 * i) before.2
      (loaded.buffer, loaded.device)

def storeFat (io : Nat → Transfer) : Nat → Bytes → Device → Device
  | 0, _, d => d
  | i + 1, buffer, d =>
      (blockWrite (io i) (toSizeT (fatIndex + i)) (slice buffer (2 * i))
        (storeFat io i buffer d)).2

namespace MountRequest

variable (req : MountRequest L)

def nameLength : Int := toInt req.diskname.strlen

def nameRefused : Bool := decide (diskNameMax < req.nameLength ∨ req.nameLength = 0)

def opened (d : Device) : Int × Device := blockDiskOpen req.answer (some req.diskname) d

def superblock (d : Device) : BlockRead :=
  blockRead (req.io 0) superblockIndex req.fresh.sp.raw 0 d

def check (d : Device) : Int :=
  sysErrorCheck req.nameLength req.diskname ⟨(req.superblock d).buffer⟩ (req.superblock d).device

end MountRequest

def fsMount (req : MountRequest L) (s : State L N) : Int × State L N :=
  if req.nameRefused then (-1, s)
  else
    let opened := req.opened s.device
    if opened.1 ≠ 0 then (-1, { s with device := opened.2 })
    else
      -- `malloc` has replaced the global pointer from here on
      let super := req.superblock opened.2
      let sp : SuperBlock := ⟨super.buffer⟩
      if req.check opened.2 ≠ 0 then
        (-1, { s with
          fileSystem := .live
            { req.fresh with sp := sp, fatBlocks := req.fresh.fatBlocks.stale }
          device := super.device })
      else
        let blocks := sp.fatBlckAmount.toNat
        let fat := loadFat (fun i => req.io (i + 1)) blocks (fun _ => 0) super.device
        let root := blockRead (req.io (blocks + 1)) (toSizeT sp.rootDirIndex)
          req.fresh.rootDir.toBytes 0 fat.2
        (0, { s with
          fileSystem := .live
            { sp := sp
              rootDir := RootDir.ofBytes root.buffer req.fresh.rootDir.behind
              fatBlocks := .live ⟨fatByteCount sp.fatBlckAmount, fat.1⟩ }
          device := root.device })

/-- The transfers of the storing loop. From `NULL` there is nothing to write, so that
each `write` fails behind its `lseek`. -/
def FsSystem.fatTransfers (io : Nat → Transfer) (fs : FsSystem L) (i : Nat) : Transfer :=
  match fs.fatBlocks with
  | .live _ => io i
  | _ => ⟨(io i).seeks, none⟩

def FsSystem.fatBytes (fs : FsSystem L) : Bytes :=
  match fs.fatBlocks with
  | .live fat => fat.bytes
  | _ => fun _ => 0

def fsUnmount (io : Nat → Transfer) (s : State L N) : Except Fault (Int × State L N) :=
  match s.fileSystem.deref with
  | .error fault => .error fault
  | .ok fs =>
      let blocks := fs.sp.fatBlckAmount.toNat
      let stored := storeFat (fs.fatTransfers io) blocks fs.fatBytes s.device
      let rooted := (blockWrite (io blocks) (toSizeT fs.sp.rootDirIndex)
        fs.rootDir.toBytes stored).2
      match fs.fatBlocks with
      -- `free` of what no allocation has returned, or of what is free already
      | .freed => .error .freedPointer
      | _ =>
          let closed := blockDiskClose rooted
          .ok (closed.1, { s with fileSystem := .freed, device := closed.2 })

/-- The first line `fs_info` prints reads a string at the number of blocks. -/
def fsInfo (s : State L N) : Except Fault Int :=
  if s.fileSystem.isNull then .ok (-1)
  else
    match s.fileSystem.deref with
    | .error fault => .error fault
    | .ok _ => .error .wildPointer

/-- The number of FAT blocks that `fs_info` works out for its second line. -/
def infoFatBlkCount (sp : SuperBlock) : Nat :=
  let fatBytes := (sp.dataBlckAmount * 2 % 2 ^ 32).toNat
  fatBytes / blockSize

/-- A file system is mounted: its disk is open, its superblock passed the check
against that disk, and the FAT has been allocated. -/
structure Mounted (s : State L N) (fs : FsSystem L) : Prop where
  loaded : s.fileSystem = .live fs
  diskOpen : s.device.disk.fd.isSome
  allocated : ∃ fat, fs.fatBlocks = .live fat ∧ fat.size = fatByteCount fs.sp.fatBlckAmount
  checked : ∃ diskname, sysErrorCheck (toInt diskname.strlen) diskname fs.sp s.device = 0

/-! What the loops do to the device. -/

section Loops

variable (io : Nat → Transfer) (count : Nat) (buffer : Bytes) (d : Device)

@[simp] theorem loadFat_disk : (loadFat io count buffer d).2.disk = d.disk := by
  induction count with
  | zero => rfl
  | succ count ih => simp only [loadFat, blockRead_disk, ih]

@[simp] theorem loadFat_image : (loadFat io count buffer d).2.host.image = d.host.image := by
  induction count with
  | zero => rfl
  | succ count ih => simp only [loadFat, blockRead_image, ih]

@[simp] theorem storeFat_disk : (storeFat io count buffer d).disk = d.disk := by
  induction count with
  | zero => rfl
  | succ count ih => simp only [storeFat, blockWrite_disk, ih]

@[simp] theorem storeFat_size (path : List UInt8) :
    ((storeFat io count buffer d).host.image path).size = (d.host.image path).size := by
  induction count with
  | zero => rfl
  | succ count ih => simp only [storeFat, blockWrite_size, ih]

variable {d}

theorem loadFat_serves {path : List UInt8} (h : d.Serves path) :
    (loadFat io count buffer d).2.Serves path := by
  induction count with
  | zero => exact h
  | succ count ih => exact blockRead_serves _ _ _ ih

end Loops

/-! What an accepted superblock says. -/

theorem int16At_bounds (raw : Bytes) (offset : Nat) :
    -2 ^ 15 ≤ int16At raw offset ∧ int16At raw offset < 2 ^ 15 := by
  unfold int16At
  have hlow := BitVec.le_toInt (BitVec.ofNat 16 (leNat 2 (slice raw offset)))
  have hhigh := BitVec.toInt_lt (x := BitVec.ofNat 16 (leNat 2 (slice raw offset)))
  constructor <;> simpa using ‹_›

structure Accepted (sp : SuperBlock) (d : Device) : Prop where
  blocks : blockDiskCount d = sp.dskBlckAmount
  fat : sp.fatBlckAmount = (sp.dskBlckAmount * 2).tdiv 4096
  data : sp.dataBlckAmount = sp.dskBlckAmount - (2 + sp.fatBlckAmount)
  root : sp.rootDirIndex = sp.fatBlckAmount + 1
  dataIndex : sp.dataBlckIndex = sp.fatBlckAmount + 2

private theorem refused_or_eq_zero {c : Prop} [Decidable c] {x : Int} :
    (if c then -1 else x) = 0 ↔ ¬ c ∧ x = 0 := by
  split <;> simp [*]

theorem sysErrorCheck_accepted {fileSize : Int} {diskname : CStr} {sp : SuperBlock} {d : Device}
    (h : sysErrorCheck fileSize diskname sp d = 0) : Accepted sp d := by
  simp only [sysErrorCheck, refused_or_eq_zero, ne_eq, not_not] at h
  obtain ⟨_, hblocks, hfat, hdata, hroot, hindex, _⟩ := h
  rw [hfat] at hdata hroot hindex
  rw [hblocks] at hfat hdata
  exact ⟨hblocks, hfat.symm, hdata.symm, hroot.symm, hindex.symm⟩

section Mounted

variable {s : State L N} {fs : FsSystem L}

theorem Mounted.accepted (h : Mounted s fs) : Accepted fs.sp s.device := by
  obtain ⟨_, hcheck⟩ := h.checked
  exact sysErrorCheck_accepted hcheck

theorem Mounted.fat_size (h : Mounted s fs) {fat : FatBuffer} (hfat : fs.fatBlocks = .live fat) :
    fat.size = fatByteCount fs.sp.fatBlckAmount := by
  obtain ⟨fat', hfat', hsize⟩ := h.allocated
  rw [hfat] at hfat'
  cases hfat'
  exact hsize

end Mounted

theorem sysErrorCheck_congr {fileSize : Int} {diskname : CStr} {sp sp' : SuperBlock}
    {d d' : Device} (hfile : fileSize ≤ diskNameMax) (hraw : ∀ p < blockSize, sp.raw p = sp'.raw p)
    (hcount : blockDiskCount d = blockDiskCount d') :
    sysErrorCheck fileSize diskname sp d = sysErrorCheck fileSize diskname sp' d' := by
  have hfield (offset : Nat) (hoffset : offset + 2 ≤ blockSize) :
      int16At sp.raw offset = int16At sp'.raw offset := by
    have hbytes : leNat 2 (slice sp.raw offset) = leNat 2 (slice sp'.raw offset) :=
      leNat_congr fun p hp => hraw (offset + p) (by omega)
    unfold int16At
    rw [hbytes]
  have hsignature : (List.range fileSize.toNat).any
      (fun i => sp.signature i != diskname.bytes.getD i 0) =
      (List.range fileSize.toNat).any (fun i => sp'.signature i != diskname.bytes.getD i 0) := by
    rw [Bool.eq_iff_iff, List.any_eq_true, List.any_eq_true]
    refine exists_congr fun i => and_congr_right fun hi => ?_
    have hlt := List.mem_range.mp hi
    unfold diskNameMax at hfile
    unfold SuperBlock.signature
    rw [hraw i (by unfold blockSize; omega)]
  unfold sysErrorCheck SuperBlock.dskBlckAmount SuperBlock.fatBlckAmount SuperBlock.dataBlckAmount
    SuperBlock.rootDirIndex SuperBlock.dataBlckIndex
  rw [hsignature, hcount, hfield 8 (by decide), hfield 10 (by decide), hfield 12 (by decide),
    hfield 14 (by decide), hraw 16 (by decide)]

private theorem tdiv_nonpos {a : Int} (h : a ≤ 0) : a.tdiv 4096 ≤ 0 := by
  have hneg : 0 ≤ (-a).tdiv 4096 := Int.tdiv_nonneg (by omega) (by norm_num)
  rw [Int.neg_tdiv] at hneg
  omega

namespace Accepted

variable {sp : SuperBlock} {d : Device}

theorem root_eq {sp' : SuperBlock} {d' : Device} (h : Accepted sp d) (h' : Accepted sp' d')
    (hcount : blockDiskCount d = blockDiskCount d') : sp.rootDirIndex = sp'.rootDirIndex := by
  have hblocks := h.blocks.symm.trans (hcount.trans h'.blocks)
  rw [h.root, h'.root, h.fat, h'.fat, hblocks]

theorem fat_le (h : Accepted sp d) : sp.fatBlckAmount ≤ 15 := by
  have hbound : sp.dskBlckAmount < 2 ^ 15 := (int16At_bounds sp.raw 8).2
  rw [h.fat]
  rcases Int.lt_or_le sp.dskBlckAmount 0 with hneg | hpos
  · have hle := tdiv_nonpos (a := sp.dskBlckAmount * 2) (by omega)
    omega
  · rw [Int.tdiv_eq_ediv_of_nonneg (by omega)]
    omega

theorem fat_on_disk (h : Accepted sp d) {i : Nat} (hi : i < sp.fatBlckAmount.toNat) :
    fatIndex + i < d.disk.bcount := by
  have hfat := h.fat
  have hpos : 0 ≤ sp.dskBlckAmount := by
    by_contra hneg
    have hle := tdiv_nonpos (a := sp.dskBlckAmount * 2) (by omega)
    omega
  rw [Int.tdiv_eq_ediv_of_nonneg (by omega)] at hfat
  have hblocks := h.blocks
  unfold blockDiskCount at hblocks
  split at hblocks
  · omega
  · have hle := toInt_le d.disk.bcount
    unfold fatIndex
    omega

/-- An accepted FAT has one entry for each two of its bytes, and no index into
it is too large for the signed 16-bit index `fs_delete` uses. -/
theorem fatByteCount_eq (h : Accepted sp d) (hpos : 0 ≤ sp.fatBlckAmount) :
    fatByteCount sp.fatBlckAmount = 4096 * sp.fatBlckAmount.toNat := by
  have hle := h.fat_le
  unfold fatByteCount blockSize
  omega

end Accepted

/-! The exits of `fs_mount`. -/

namespace MountRequest

variable (req : MountRequest L) (d : Device)

def sp : SuperBlock := ⟨(req.superblock d).buffer⟩
def blocks : Nat := (req.sp d).fatBlckAmount.toNat
def rootIndex : Nat := toSizeT (req.sp d).rootDirIndex

def rejected : FsSystem L :=
  { req.fresh with sp := req.sp d, fatBlocks := req.fresh.fatBlocks.stale }

def fatRead : Bytes × Device :=
  loadFat (fun i => req.io (i + 1)) (req.blocks d) (fun _ => 0) (req.superblock d).device

def rootRead : BlockRead :=
  blockRead (req.io (req.blocks d + 1)) (req.rootIndex d) req.fresh.rootDir.toBytes 0
    (req.fatRead d).2

def fat : FatBuffer := ⟨fatByteCount (req.sp d).fatBlckAmount, (req.fatRead d).1⟩

def accepted : FsSystem L where
  sp := req.sp d
  rootDir := RootDir.ofBytes (req.rootRead d).buffer req.fresh.rootDir.behind
  fatBlocks := .live (req.fat d)

@[simp] theorem superblock_disk : (req.superblock d).device.disk = d.disk :=
  blockRead_disk _ _ _ _ _
@[simp] theorem superblock_image : (req.superblock d).device.host.image = d.host.image :=
  blockRead_image _ _ _ _ _
@[simp] theorem fatRead_disk : (req.fatRead d).2.disk = d.disk := by simp [fatRead]
@[simp] theorem fatRead_image : (req.fatRead d).2.host.image = d.host.image := by simp [fatRead]
@[simp] theorem rootRead_disk : (req.rootRead d).device.disk = d.disk := by simp [rootRead]
@[simp] theorem rootRead_image : (req.rootRead d).device.host.image = d.host.image := by
  simp [rootRead]

theorem superblock_serves {d : Device} {path : List UInt8} (h : d.Serves path) :
    (req.superblock d).device.Serves path :=
  blockRead_serves _ _ _ h
theorem fatRead_serves {d : Device} {path : List UInt8} (h : d.Serves path) :
    (req.fatRead d).2.Serves path :=
  loadFat_serves _ _ _ (req.superblock_serves h)
theorem rootRead_serves {d : Device} {path : List UInt8} (h : d.Serves path) :
    (req.rootRead d).device.Serves path :=
  blockRead_serves _ _ _ (req.fatRead_serves h)

theorem check_accepted {d : Device} (h : req.check d = 0) : Accepted (req.sp d) d := by
  have haccepted := sysErrorCheck_accepted h
  have hblocks : blockDiskCount (req.superblock d).device = (req.sp d).dskBlckAmount :=
    haccepted.blocks
  refine ⟨?_, haccepted.fat, haccepted.data, haccepted.root, haccepted.dataIndex⟩
  simpa [blockDiskCount] using hblocks

variable {d : Device}

theorem opened_zero (h : (req.opened d).1 = 0) :
    d.disk.fd = none ∧ (req.opened d).2.Serves req.diskname.bytes ∧
      (d.host.image req.diskname.bytes).size = (req.opened d).2.disk.bcount * blockSize ∧
      (req.opened d).2.host.image = d.host.image := by
  rcases blockDiskOpen_cases req.answer req.diskname d with ⟨hrefused, _⟩ | ⟨hclosed, _, hopened⟩
  · exact absurd (h.symm.trans hrefused) (by decide)
  · exact ⟨hclosed, hopened⟩

theorem opened_returns {fd : Nat} (hanswer : req.answer = ⟨some fd, false⟩)
    (hclosed : d.disk.fd = none)
    (hsize : (d.host.image req.diskname.bytes).size % blockSize = 0) : (req.opened d).1 = 0 := by
  simp [opened, blockDiskOpen, hanswer, hclosed, hsize]

theorem opened_refused (h : (req.opened d).1 ≠ 0) :
    (req.opened d).2.disk = d.disk ∧ (req.opened d).2.host.image = d.host.image := by
  rcases blockDiskOpen_cases req.answer req.diskname d with ⟨_, hsame⟩ | ⟨_, hzero, _⟩
  · exact hsame
  · exact absurd hzero h

end MountRequest

theorem fsMount_cases {req : MountRequest L} {s next : State L N} {ret : Int}
    (h : fsMount req s = (ret, next)) :
    (ret = -1 ∧ req.nameRefused = true ∧ next = s) ∨
      (ret = -1 ∧ req.nameRefused = false ∧ (req.opened s.device).1 ≠ 0 ∧
        next = { s with device := (req.opened s.device).2 }) ∨
      (ret = -1 ∧ req.nameRefused = false ∧ (req.opened s.device).1 = 0 ∧
        req.check (req.opened s.device).2 ≠ 0 ∧
        next = { s with
          fileSystem := .live (req.rejected (req.opened s.device).2)
          device := (req.superblock (req.opened s.device).2).device }) ∨
      (ret = 0 ∧ req.nameRefused = false ∧ (req.opened s.device).1 = 0 ∧
        req.check (req.opened s.device).2 = 0 ∧
        next = { s with
          fileSystem := .live (req.accepted (req.opened s.device).2)
          device := (req.rootRead (req.opened s.device).2).device }) := by
  unfold fsMount at h
  cases hname : req.nameRefused with
  | true =>
      simp only [hname, if_true, Prod.mk.injEq] at h
      exact Or.inl ⟨h.1.symm, rfl, h.2.symm⟩
  | false =>
      simp only [hname, Bool.false_eq_true, if_false] at h
      split at h
      · rename_i hopen
        simp only [Prod.mk.injEq] at h
        exact Or.inr (Or.inl ⟨h.1.symm, rfl, hopen, h.2.symm⟩)
      · rename_i hopen
        have hopened := not_not.mp hopen
        split at h
        · rename_i hcheck
          simp only [Prod.mk.injEq] at h
          exact Or.inr (Or.inr (Or.inl ⟨h.1.symm, rfl, hopened, hcheck, h.2.symm⟩))
        · rename_i hcheck
          simp only [Prod.mk.injEq] at h
          exact Or.inr (Or.inr (Or.inr ⟨h.1.symm, rfl, hopened, not_not.mp hcheck, h.2.symm⟩))

theorem fsMount_ret (req : MountRequest L) (s : State L N) : (fsMount req s).1 =
    if req.nameRefused then -1
    else if (req.opened s.device).1 ≠ 0 then -1
    else if req.check (req.opened s.device).2 ≠ 0 then -1 else 0 := by
  unfold fsMount
  simp only [apply_ite Prod.fst]

theorem fsMount_returns (req : MountRequest L) (s : State L N) (hname : req.nameRefused = false)
    (hopen : (req.opened s.device).1 = 0) (hcheck : req.check (req.opened s.device).2 = 0) :
    fsMount req s = (0, { s with
      fileSystem := .live (req.accepted (req.opened s.device).2)
      device := (req.rootRead (req.opened s.device).2).device }) := by
  unfold fsMount
  simp only [hname, hopen, hcheck, ne_eq, not_true_eq_false, if_false, Bool.false_eq_true]
  rfl

theorem fsMount_rejects (req : MountRequest L) (s : State L N) (hname : req.nameRefused = false)
    (hopen : (req.opened s.device).1 = 0) (hcheck : req.check (req.opened s.device).2 ≠ 0) :
    fsMount req s = (-1, { s with
      fileSystem := .live (req.rejected (req.opened s.device).2)
      device := (req.superblock (req.opened s.device).2).device }) := by
  unfold fsMount
  simp only [hname, hopen, hcheck, ne_eq, not_true_eq_false, not_false_eq_true, if_false, if_true,
    Bool.false_eq_true]
  rfl

theorem fsMount_open (req : MountRequest L) {s : State L N} (hopen : s.device.disk.fd.isSome) :
    fsMount req s = (-1, s) := by
  unfold fsMount MountRequest.opened
  rw [blockDiskOpen_open hopen]
  simp

theorem fsMount_succeeds {req : MountRequest L} {s next : State L N}
    (h : fsMount req s = (0, next)) :
    req.nameRefused = false ∧ (req.opened s.device).1 = 0 ∧
      req.check (req.opened s.device).2 = 0 ∧
      next = { s with
        fileSystem := .live (req.accepted (req.opened s.device).2)
        device := (req.rootRead (req.opened s.device).2).device } := by
  rcases fsMount_cases h with ⟨hret, _⟩ | ⟨hret, _⟩ | ⟨hret, _⟩ | ⟨_, hsuccess⟩
  · exact absurd hret (by decide)
  · exact absurd hret (by decide)
  · exact absurd hret (by decide)
  · exact hsuccess

theorem fsMount_image {req : MountRequest L} {s next : State L N} {ret : Int}
    (h : fsMount req s = (ret, next)) : next.device.host.image = s.device.host.image := by
  rcases fsMount_cases h with
    ⟨_, _, hnext⟩ | ⟨_, _, hrefused, hnext⟩ | ⟨_, _, hopen, _, hnext⟩ | ⟨_, _, hopen, _, hnext⟩
  · rw [hnext]
  · rw [hnext]
    exact (req.opened_refused hrefused).2
  · rw [hnext]
    simpa using (req.opened_zero hopen).2.2.2
  · rw [hnext]
    simpa using (req.opened_zero hopen).2.2.2

/-! The exits of `fs_unmount`. -/

def FsSystem.flush (io : Nat → Transfer) (fs : FsSystem L) (fat : FatBuffer) (d : Device) :
    Device :=
  (blockWrite (io fs.sp.fatBlckAmount.toNat) (toSizeT fs.sp.rootDirIndex) fs.rootDir.toBytes
    (storeFat io fs.sp.fatBlckAmount.toNat fat.bytes d)).2

def FsSystem.writeBack (io : Nat → Transfer) (fs : FsSystem L) (d : Device) : Device :=
  (blockWrite (io fs.sp.fatBlckAmount.toNat) (toSizeT fs.sp.rootDirIndex) fs.rootDir.toBytes
    (storeFat (fs.fatTransfers io) fs.sp.fatBlckAmount.toNat fs.fatBytes d)).2

namespace FsSystem

variable (io : Nat → Transfer) (fs : FsSystem L) (fat : FatBuffer) (d : Device)

@[simp] theorem flush_disk : (fs.flush io fat d).disk = d.disk := by
  simp [flush]

@[simp] theorem flush_size (path : List UInt8) :
    ((fs.flush io fat d).host.image path).size = (d.host.image path).size := by
  simp [flush]

@[simp] theorem writeBack_disk : (fs.writeBack io d).disk = d.disk := by
  simp [writeBack]

variable {fs fat}

theorem fatTransfers_live (hfat : fs.fatBlocks = .live fat) : fs.fatTransfers io = io := by
  funext i
  simp [fatTransfers, hfat]

theorem writeBack_live (hfat : fs.fatBlocks = .live fat) :
    fs.writeBack io d = fs.flush io fat d := by
  have hbytes : fs.fatBytes = fat.bytes := by simp [fatBytes, hfat]
  rw [writeBack, fatTransfers_live io hfat, hbytes]
  rfl

end FsSystem

section Unmounting

variable {io : Nat → Transfer} {s next : State L N} {fs : FsSystem L} {fat : FatBuffer}

theorem fsUnmount_returns (io : Nat → Transfer) (hlive : s.fileSystem = .live fs)
    (hfat : fs.fatBlocks ≠ .freed) :
    fsUnmount io s = .ok ((blockDiskClose (fs.writeBack io s.device)).1,
      { s with
        fileSystem := .freed, device := (blockDiskClose (fs.writeBack io s.device)).2 }) := by
  unfold fsUnmount
  cases hpointer : fs.fatBlocks with
  | freed => exact absurd hpointer hfat
  | _ =>
      simp only [hlive, hpointer, Pointer.deref_live]
      rfl

theorem fsUnmount_live (hlive : s.fileSystem = .live fs) (hfat : fs.fatBlocks = .live fat) :
    fsUnmount io s = .ok ((blockDiskClose (fs.flush io fat s.device)).1,
      { s with
        fileSystem := .freed, device := (blockDiskClose (fs.flush io fat s.device)).2 }) := by
  rw [fsUnmount_returns io hlive (by simp [hfat]), FsSystem.writeBack_live io s.device hfat]

theorem fsUnmount_open (io : Nat → Transfer) (hlive : s.fileSystem = .live fs)
    (hfat : fs.fatBlocks ≠ .freed) (hopen : s.device.disk.fd.isSome) :
    ∃ next, fsUnmount io s = .ok (0, next) ∧ next.device.disk = { s.device.disk with fd := none } ∧
      next.device.host.image = (fs.writeBack io s.device).host.image := by
  obtain ⟨fd, hfd⟩ := Option.isSome_iff_exists.mp hopen
  have hclose := blockDiskClose_open (d := fs.writeBack io s.device) (by simpa using hfd)
  rw [fsUnmount_returns io hlive hfat, hclose]
  exact ⟨_, rfl, by simp, rfl⟩

theorem fsUnmount_succeeds (io : Nat → Transfer) (hlive : s.fileSystem = .live fs)
    (hfat : fs.fatBlocks = .live fat) (hopen : s.device.disk.fd.isSome) :
    ∃ next, fsUnmount io s = .ok (0, next) ∧ next.device.disk = { s.device.disk with fd := none } ∧
      next.device.host.image = (fs.flush io fat s.device).host.image := by
  rw [← FsSystem.writeBack_live io s.device hfat]
  exact fsUnmount_open io hlive (by simp [hfat]) hopen

/-- Everything a call of `fs_unmount` can do. It returns from an object whose FAT pointer
can be freed, be it `NULL`. -/
theorem fsUnmount_cases {ret : Int} (h : fsUnmount io s = .ok (ret, next)) :
    ∃ fs, s.fileSystem = .live fs ∧ fs.fatBlocks ≠ .freed ∧
      ret = (blockDiskClose (fs.writeBack io s.device)).1 ∧
      next = { s with
        fileSystem := .freed, device := (blockDiskClose (fs.writeBack io s.device)).2 } := by
  cases hpointer : s.fileSystem with
  | null => simp [fsUnmount, hpointer] at h
  | freed => simp [fsUnmount, hpointer] at h
  | live fs =>
      have hfat : fs.fatBlocks ≠ .freed := by
        intro hfreed
        simp [fsUnmount, hpointer, hfreed] at h
      rw [fsUnmount_returns io hpointer hfat] at h
      simp only [Except.ok.injEq, Prod.mk.injEq] at h
      exact ⟨fs, rfl, hfat, h.1.symm, h.2.symm⟩

end Unmounting

end LibFs
