import LibFs.Foundation.Run
import LibFs.Model.Descriptors

/-! The interface of the library as one machine: a call carries its arguments
together with everything the environment decides about it. -/
namespace LibFs

open LibFs.Foundation

/-- The calls that a run is made of. `fs_info` and the stubs `fs_read` and `fs_write`, which
change no state, are not among them. -/
inductive Call (L : Layout) where
  | fsMount (req : MountRequest L)
  | fsUnmount (io : Nat → Transfer)
  | fsCreate (noReturn : Bool) (filename : CStr)
  | fsDelete (unassigned : RootEntry L) (filename : CStr)
  | fsLs
  | fsOpen (noReturn : Bool) (filename : CStr)
  | fsClose (fd : Int)
  | fsStat (fd : Int)
  | fsLseek (fd : Int) (offset : BitVec 64)

def step : Call L → State L N → Except Fault (Int × State L N)
  | .fsMount req, s => .ok (fsMount req s)
  | .fsUnmount io, s => fsUnmount io s
  | .fsCreate noReturn filename, s => fsCreate noReturn filename s
  | .fsDelete unassigned filename, s => fsDelete unassigned filename s
  | .fsLs, s => (fsLs s).map fun out => (out.2, s)
  | .fsOpen noReturn filename, s => fsOpen noReturn filename s
  | .fsClose fd, s => fsClose fd s
  | .fsStat fd, s => (fsStat fd s).map fun size => (size, s)
  | .fsLseek fd offset, s => fsLseek fd offset s

abbrev ApiEvent (L : Layout) (N : Nat) := Event (State L N) (Call L) Int
abbrev ApiRun (start : State L N) := Run (step (L := L) (N := N)) start

/-! Disks named "d" and the states they are mounted in. -/

def diskD : CStr := ⟨[100], by decide⟩
def nameA : CStr := ⟨[97], by decide⟩

/-! Block counts and slots are written as literals. -/

instance blockCount_neZero : NeZero (2 ^ 15) := ⟨by decide⟩
instance slotCount_neZero : NeZero 32 := ⟨by decide⟩

/-- The superblock of a disk of `blocks` blocks, `fat` of them for the FAT. -/
def sampleSuper (blocks fat : Nat) : SuperBlock where
  raw p :=
    if p = 0 then 100
    else if 8 ≤ p ∧ p < 10 then leByte blocks (p - 8)
    else if 10 ≤ p ∧ p < 12 then leByte (fat + 1) (p - 10)
    else if 12 ≤ p ∧ p < 14 then leByte (fat + 2) (p - 12)
    else if 14 ≤ p ∧ p < 16 then leByte (blocks - fat - 2) (p - 14)
    else if p = 16 then leByte fat 0
    else 0

/-- A host whose files are all that disk, `content` behind the superblock. -/
def sampleHost (blocks : Fin (2 ^ 15)) (fat : Nat) (content : Bytes) : Host where
  image _ :=
    { size := blocks * blockSize
      byte := fun p => if p < blockSize then (sampleSuper blocks fat).raw p else content p
      sizeFits := by
        have hlt := blocks.isLt
        unfold blockSize
        omega }
  fds _ := none

def sampleDisk (blocks : Fin (2 ^ 15)) (fat : Nat) (content : Bytes) : Device where
  disk := ⟨some 3, blocks⟩
  host := (sampleHost blocks fat content).openPath 3 diskD.bytes

def loadedFs (blocks : Fin (2 ^ 15)) (fat : Nat) (dir : RootDir L) (bytes : Bytes) : FsSystem L :=
  ⟨sampleSuper blocks fat, dir, .live ⟨blockSize * fat, bytes⟩⟩

def loadedState (blocks : Fin (2 ^ 15)) (fat : Nat) (dir : RootDir L) (bytes : Bytes) :
    State L N where
  fileSystem := .live (loadedFs blocks fat dir bytes)
  fdTable _ := .zero
  fdOpenCount := 0
  device := sampleDisk blocks fat fun _ => 0

theorem loaded_mounted {blocks : Fin (2 ^ 15)} {fat : Nat} (dir : RootDir L) (bytes : Bytes)
    (hcheck : sysErrorCheck (toInt diskD.strlen) diskD (sampleSuper blocks fat)
      (sampleDisk blocks fat fun _ => 0) = 0)
    (hsize : blockSize * fat = fatByteCount (sampleSuper blocks fat).fatBlckAmount) :
    Mounted (loadedState blocks fat dir bytes : State L N) (loadedFs blocks fat dir bytes) where
  loaded := rfl
  diskOpen := rfl
  allocated := ⟨_, rfl, hsize⟩
  checked := ⟨diskD, hcheck⟩

def blankEntry : RootEntry L := ⟨fun _ => 0, 0, 0, fun _ => 0, 1, fun _ => 0⟩
theorem blankEntry_terminated : (blankEntry : RootEntry L).filename.Terminated :=
  (List.mem_ofFn' _ _).mpr ⟨⟨0, by decide⟩, rfl⟩

/-- A directory with a NUL right behind its last entry. -/
def rootDirOf (entry : Fin fsFileMaxCount → RootEntry L) : RootDir L := ⟨entry, .empty⟩

def blankDir : RootDir L := rootDirOf fun _ => blankEntry

/-- Four blocks, none of them for the FAT. -/
def formattedFs (dir : RootDir L) : FsSystem L := loadedFs 4 0 dir fun _ => 0
def formattedState (dir : RootDir L) : State L N := loadedState 4 0 dir fun _ => 0

theorem formatted_mounted (dir : RootDir L) :
    Mounted (formattedState dir : State L N) (formattedFs dir) :=
  loaded_mounted dir _ (by decide) (by decide)

theorem blankDir_empty (i : Fin fsFileMaxCount) : ¬ (blankDir i : RootEntry L).live := by
  change ¬ ((1 : UInt8) != 0) = false
  decide

theorem blankDir_name (i : Fin fsFileMaxCount) : (blankDir : RootDir L).name i = [] := by
  apply (RootDir.name_eq_iff (by decide)).mpr
  simp [blankDir, rootDirOf, blankEntry, fsFilenameLen, CharArray.text_eq_nil]

theorem blankDir_lacks (i : Fin fsFileMaxCount) :
    (blankDir : RootDir L).name i ≠ nameA.bytes :=
  (blankDir_name i).trans_ne (by decide)

def mountD (fresh : FsSystem L) : MountRequest L :=
  ⟨diskD, ⟨some 3, false⟩, fun _ => .whole, fresh⟩

def freshStart : State .packed 32 := .initial (sampleHost 4 0 fun _ => 0)
def freshMount : MountRequest .packed := mountD ⟨⟨fun _ => 0⟩, blankDir, .null⟩

theorem freshMount_returns : ∃ s, fsMount freshMount freshStart = (0, s) :=
  ⟨_, fsMount_returns freshMount freshStart (by decide) rfl (by decide)⟩

def createdState : State L N := formattedState (fillAll nameA blankDir)

theorem blankDir_create : step (.fsCreate true nameA) (formattedState blankDir : State L N) =
    .ok (0, createdState) := by
  have hvalid : isValidName true nameA = true := by decide
  have hlength : nameA.strlen < fsFilenameLen := by decide
  have hlive : (formattedState blankDir : State L N).fileSystem =
      .live (formattedFs blankDir) := rfl
  exact fsCreate_fills hlive hvalid hlength blankDir_lacks ⟨0, blankDir_empty 0⟩

def openedState : State L 32 := (formattedState blankDir).openFd 0 nameA

theorem blankDir_open : step (.fsOpen true nameA) (formattedState blankDir : State L 32) =
    .ok (0, openedState) :=
  fsOpen_returns (i := 0) rfl (by decide) (by decide) blankDir_lacks rfl

def blankOpening : ApiEvent .packed 32 :=
  ⟨formattedState blankDir, .fsOpen true nameA, 0, openedState⟩

theorem blankOpening_run : ApiRun (formattedState blankDir) [blankOpening] openedState :=
  .snoc .nil blankDir_open

end LibFs
