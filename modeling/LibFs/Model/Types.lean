import LibFs.Foundation.Bytes
import LibFs.Model.CString
import Mathlib.Data.Int.Notation
import Mathlib.Data.List.FinRange

/-! The data of `fs.c`: the structs of the on-disk format and of the two global
tables. Structs that are read from disk are kept byte for byte, so that what a
block transfer moves is determined. -/
namespace LibFs

open LibFs.Foundation

def signatureMax : Nat := 8
def blockSize : Nat := 4096
def superblockIndex : Nat := 0
def fatIndex : Nat := 1
def fsFilenameLen : Nat := 16
def fsFileMaxCount : Nat := 128
def fatEOC : BitVec 16 := 0xFFFF
/-- Not defined in `fs.c`; the revision before it has 255. -/
def diskNameMax : Nat := 255

/-- What an undefined operation stops with. A call that reaches one has no
result and leads to no state. -/
inductive Fault where
  | nullPointer
  | freedPointer
  | wildPointer
  | outOfBounds
deriving DecidableEq

/-- A pointer: `NULL`, pointing to an object, or to none, because the object is gone or the
bytes of the pointer were never assigned. -/
inductive Pointer (α : Type) where
  | null
  | live (object : α)
  | freed

def Pointer.isNull : Pointer α → Bool
  | .null => true
  | _ => false

def Pointer.isLive : Pointer α → Bool
  | .live _ => true
  | _ => false

def Pointer.deref : Pointer α → Except Fault α
  | .null => .error .nullPointer
  | .live object => .ok object
  | .freed => .error .freedPointer

/-- What is left of a pointer in memory that `malloc` hands out: its object is gone. -/
def Pointer.stale : Pointer α → Pointer α
  | .live _ => .freed
  | pointer => pointer

@[simp] theorem Pointer.isNull_null : (Pointer.null : Pointer α).isNull = true := rfl
@[simp] theorem Pointer.isNull_live (object : α) : (Pointer.live object).isNull = false := rfl
@[simp] theorem Pointer.isNull_freed : (Pointer.freed : Pointer α).isNull = false := rfl
@[simp] theorem Pointer.isLive_live (object : α) : (Pointer.live object).isLive = true := rfl

theorem Pointer.isLive_iff {pointer : Pointer α} :
    pointer.isLive = true ↔ ∃ object, pointer = .live object := by
  cases pointer <;> simp [isLive]

@[simp] theorem Pointer.isLive_stale (pointer : Pointer α) : pointer.stale.isLive = false := by
  cases pointer <;> rfl

@[simp] theorem Pointer.stale_ne_live (pointer : Pointer α) (object : α) :
    pointer.stale ≠ .live object := by
  cases pointer <;> simp [stale]

@[simp] theorem Pointer.deref_null :
    (Pointer.null : Pointer α).deref = .error .nullPointer := rfl
@[simp] theorem Pointer.deref_live (object : α) : (Pointer.live object).deref = .ok object := rfl
@[simp] theorem Pointer.deref_freed :
    (Pointer.freed : Pointer α).deref = .error .freedPointer := rfl

/-- `struct superBlock`, which fills its block exactly. Reading the signature
past its eight bytes reads the fields behind it. -/
structure SuperBlock where
  raw : Bytes

def int16At (raw : Bytes) (offset : Nat) : Int :=
  (BitVec.ofNat 16 (leNat 2 (slice raw offset))).toInt

namespace SuperBlock

def signature (sp : SuperBlock) (i : Nat) : UInt8 := sp.raw i

def signatureText (sp : SuperBlock) : List UInt8 :=
  CharArray.text fun i : Fin signatureMax => sp.signature i

def dskBlckAmount (sp : SuperBlock) : Int := int16At sp.raw 8
def rootDirIndex (sp : SuperBlock) : Int := int16At sp.raw 10
def dataBlckIndex (sp : SuperBlock) : Int := int16At sp.raw 12
def dataBlckAmount (sp : SuperBlock) : Int := int16At sp.raw 14
def fatBlckAmount (sp : SuperBlock) : Int := (sp.raw 16).toBitVec.toInt

end SuperBlock

/-- The two C layouts of `struct root_entry`: the TODO in the source asks for
`packed`, the declaration as it stands has natural alignment. -/
inductive Layout where
  | packed
  | natural
deriving DecidableEq

def Layout.tail : Layout → Nat
  | .packed => 0
  | .natural => 3

def Layout.entrySize (L : Layout) : Nat := 33 + L.tail

/-- `struct root_entry`. The flag is kept as the byte it is stored in, since a
directory read from disk may hold any byte there. -/
structure RootEntry (L : Layout) where
  filename : CharArray fsFilenameLen
  fileSize : BitVec 32
  fileFirstIndex : BitVec 16
  padding : CharArray 10
  emptyByte : UInt8
  tail : CharArray L.tail

namespace RootEntry

def isEmpty (e : RootEntry L) : Bool := e.emptyByte != 0

def live (e : RootEntry L) : Prop := e.isEmpty = false

instance (e : RootEntry L) : Decidable e.live := inferInstanceAs (Decidable (_ = _))

def byte (e : RootEntry L) (p : Nat) : UInt8 :=
  if h : p < fsFilenameLen then e.filename ⟨p, h⟩
  else if p < 20 then leByte e.fileSize.toNat (p - 16)
  else if p < 22 then leByte e.fileFirstIndex.toNat (p - 20)
  else if h : p < 32 then e.padding ⟨p - 22, by omega⟩
  else if p = 32 then e.emptyByte
  else if h : p - 33 < L.tail then e.tail ⟨p - 33, h⟩
  else 0

def bytes (e : RootEntry L) : List UInt8 := (List.range L.entrySize).map e.byte

def ofBytes (raw : Bytes) : RootEntry L where
  filename i := raw i
  fileSize := BitVec.ofNat 32 (leNat 4 (slice raw 16))
  fileFirstIndex := BitVec.ofNat 16 (leNat 2 (slice raw 20))
  padding i := raw (22 + i)
  emptyByte := raw 32
  tail i := raw (33 + i)

private theorem ofNat_leNat_toNat {width bits : Nat} (raw : Bytes) (h : 256 ^ width = 2 ^ bits) :
    (BitVec.ofNat bits (leNat width raw)).toNat = leNat width raw := by
  have hlt := leNat_lt width raw
  rw [BitVec.toNat_ofNat, Nat.mod_eq_of_lt (h ▸ hlt)]

theorem byte_ofBytes (raw : Bytes) {p : Nat} (hp : p < L.entrySize) :
    (ofBytes raw : RootEntry L).byte p = raw p := by
  unfold byte ofBytes Layout.entrySize at *
  simp only [fsFilenameLen]
  split
  · rfl
  · split
    · rw [ofNat_leNat_toNat _ (by norm_num), leByte_leNat _ (by omega)]
      simp only [slice]
      congr 1
      omega
    · split
      · rw [ofNat_leNat_toNat _ (by norm_num), leByte_leNat _ (by omega)]
        simp only [slice]
        congr 1
        omega
      · split
        · congr 1
          omega
        · split
          · rename_i heq
            rw [heq]
          · rw [dif_pos (by omega)]
            congr 1
            omega

theorem leNat_fileSize (e : RootEntry L) : leNat 4 (slice e.byte 16) = e.fileSize.toNat := by
  apply leNat_eq_of_bytes e.fileSize.isLt
  intro p hp
  have hhigh : 16 + p < 20 := by omega
  simp [slice, byte, fsFilenameLen, hhigh]

theorem leNat_fileFirstIndex (e : RootEntry L) :
    leNat 2 (slice e.byte 20) = e.fileFirstIndex.toNat := by
  apply leNat_eq_of_bytes e.fileFirstIndex.isLt
  intro p hp
  have hlow : ¬ 20 + p < 16 := by omega
  have hhigh : 20 + p < 22 := by omega
  simp [slice, byte, fsFilenameLen, hlow, hhigh]

@[simp] theorem ofBytes_byte (e : RootEntry L) : ofBytes e.byte = e := by
  have hsize := e.leNat_fileSize
  have hindex := e.leNat_fileFirstIndex
  cases e with
  | mk filename fileSize fileFirstIndex padding emptyByte tail =>
      simp only [ofBytes, hsize, hindex, BitVec.ofNat_toNat, BitVec.setWidth_eq]
      congr 1
      · funext i
        have hi : i.val < fsFilenameLen := i.isLt
        simp only [byte, dif_pos hi]
      · funext i
        have hi := i.isLt
        have h16 : ¬ 22 + i.val < 16 := by omega
        have h20 : ¬ 22 + i.val < 20 := by omega
        have h22 : ¬ 22 + i.val < 22 := by omega
        have h32 : 22 + i.val < 32 := by omega
        simp [byte, fsFilenameLen, h16, h20, h32]
      · funext i
        have hi := i.isLt
        have h16 : ¬ 33 + i.val < 16 := by omega
        have h20 : ¬ 33 + i.val < 20 := by omega
        have h22 : ¬ 33 + i.val < 22 := by omega
        have h32 : ¬ 33 + i.val < 32 := by omega
        have h33 : ¬ 33 + i.val = 32 := by omega
        simp [byte, fsFilenameLen, h16, h20, h22, h32, h33]

theorem fields_eq_iff {e e' : RootEntry L} :
    e.filename = e'.filename ∧ e.fileSize = e'.fileSize ∧ e.fileFirstIndex = e'.fileFirstIndex ↔
      ∀ k < 22, e.byte k = e'.byte k := by
  constructor
  · rintro ⟨hname, hsize, hindex⟩ k hk
    unfold byte
    simp only [hname, hsize, hindex, hk, if_true]
  · intro hbytes
    refine ⟨funext fun i => ?_, ?_, ?_⟩
    · have hi : i.val < fsFilenameLen := i.isLt
      have hbyte := hbytes i (hi.trans (by decide))
      simpa only [byte, dif_pos hi] using hbyte
    · apply BitVec.eq_of_toNat_eq
      rw [← leNat_fileSize, ← leNat_fileSize]
      exact leNat_congr fun p hp => hbytes (16 + p) (by omega)
    · apply BitVec.eq_of_toNat_eq
      rw [← leNat_fileFirstIndex, ← leNat_fileFirstIndex]
      exact leNat_congr fun p hp => hbytes (20 + p) (by omega)

end RootEntry

instance : NeZero fsFileMaxCount := ⟨by decide⟩

/-- `struct root_entry[128]`. A name that has no terminator in its field is read on through
the fields and the entries behind it; `behind` is the string that lies behind the array,
where the pointer `fat_blocks` is. -/
@[ext]
structure RootDir (L : Layout) where
  entry : Fin fsFileMaxCount → RootEntry L
  behind : CStr

instance : CoeFun (RootDir L) fun _ => Fin fsFileMaxCount → RootEntry L := ⟨RootDir.entry⟩

def RootDir.toBytes (dir : RootDir L) : Bytes := fun p =>
  if h : p / L.entrySize < fsFileMaxCount then
    (dir ⟨p / L.entrySize, h⟩).byte (p % L.entrySize)
  else 0

def RootDir.ofBytes (raw : Bytes) (behind : CStr) : RootDir L where
  entry i := RootEntry.ofBytes (slice raw (L.entrySize * i))
  behind := behind

theorem Layout.entrySize_pos (L : Layout) : 0 < L.entrySize := by
  unfold Layout.entrySize
  omega

theorem RootDir.toBytes_entry (dir : RootDir L) (i : Fin fsFileMaxCount) {p : Nat}
    (hp : p < L.entrySize) : dir.toBytes (L.entrySize * i + p) = (dir i).byte p := by
  have hdiv : (L.entrySize * i.val + p) / L.entrySize = i.val := by
    rw [Nat.mul_add_div L.entrySize_pos, Nat.div_eq_of_lt hp, Nat.add_zero]
  have hmod : (L.entrySize * i.val + p) % L.entrySize = p := by
    rw [Nat.mul_add_mod, Nat.mod_eq_of_lt hp]
  simp [RootDir.toBytes, hdiv, hmod]

theorem RootDir.toBytes_ofBytes (raw : Bytes) (behind : CStr) {p : Nat} (hp : p < blockSize) :
    (RootDir.ofBytes raw behind : RootDir L).toBytes p = raw p := by
  have hentry : p / L.entrySize < fsFileMaxCount := by
    apply Nat.div_lt_of_lt_mul
    unfold Layout.entrySize fsFileMaxCount
    unfold blockSize at hp
    omega
  rw [RootDir.toBytes, dif_pos hentry, RootDir.ofBytes,
    RootEntry.byte_ofBytes _ (Nat.mod_lt _ L.entrySize_pos), slice, Nat.div_add_mod]

/-- `uint16_t *fat_blocks`: the bytes `calloc` reserved, read as entries. -/
structure FatBuffer where
  size : Nat
  bytes : Bytes

namespace FatBuffer

def entries (fat : FatBuffer) : Nat := fat.size / 2

def get (fat : FatBuffer) (k : Nat) : BitVec 16 :=
  BitVec.ofNat 16 (leNat 2 (slice fat.bytes (2 * k)))

def set (fat : FatBuffer) (k : Nat) (value : BitVec 16) : FatBuffer :=
  { fat with bytes := overlay fat.bytes (2 * k) 2 (leByte value.toNat) }

def links (fat : FatBuffer) : Nat → Nat := fun k => (fat.get k).toNat

@[simp] theorem size_set (fat : FatBuffer) (k : Nat) (value : BitVec 16) :
    (fat.set k value).size = fat.size := rfl

@[simp] theorem entries_set (fat : FatBuffer) (k : Nat) (value : BitVec 16) :
    (fat.set k value).entries = fat.entries := rfl

@[simp] theorem get_set_same (fat : FatBuffer) (k : Nat) (value : BitVec 16) :
    (fat.set k value).get k = value := by
  unfold get set
  have hbytes : leNat 2 (slice (overlay fat.bytes (2 * k) 2 (leByte value.toNat)) (2 * k)) =
      value.toNat :=
    leNat_eq_of_bytes value.isLt fun p hp => by simp [slice, overlay, hp]
  rw [hbytes]
  simp

theorem get_set_ne (fat : FatBuffer) {j k : Nat} (value : BitVec 16) (h : j ≠ k) :
    (fat.set k value).get j = fat.get j := by
  unfold get set
  rw [leNat_congr]
  intro p hp
  exact overlay_outside _ _ (by omega)

theorem links_set (fat : FatBuffer) (k : Nat) (value : BitVec 16) :
    (fat.set k value).links = Function.update fat.links k value.toNat := by
  funext j
  by_cases h : j = k
  · subst h
    simp [links]
  · simp [links, get_set_ne _ _ h, h]

end FatBuffer

structure FsSystem (L : Layout) where
  sp : SuperBlock
  rootDir : RootDir L
  fatBlocks : Pointer FatBuffer

/-- A slot of `fd_table`. The table starts out zeroed, and a name that is copied into a slot
fits it together with its terminator. -/
structure FdTableEntry where
  filename : CharArray fsFilenameLen
  terminated : filename.Terminated
  offset : BitVec 64
  used : Bool

def FdTableEntry.zero : FdTableEntry := ⟨fun _ => 0, by decide, 0, false⟩

theorem FdTableEntry.length_text_lt (entry : FdTableEntry) :
    entry.filename.text.length < fsFilenameLen :=
  CharArray.length_text_lt entry.terminated

end LibFs
