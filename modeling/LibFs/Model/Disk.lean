import LibFs.Model.Types

/-! `disk.c` over a model of the host. A host file is a flat run of bytes, a host
descriptor has a path and a cursor, and what each system call answers is an
argument of the operation that makes it. -/
namespace LibFs

open LibFs.Foundation

def toInt (n : Nat) : Int := (n : Int).bmod (2 ^ 32)

def toSizeT (n : Int) : Nat := (n % 2 ^ 64).toNat

theorem toInt_eq {n : Nat} (h : n < 2 ^ 31) : toInt n = n := by
  unfold toInt
  rw [Int.bmod_def]
  split <;> omega

theorem toInt_le (n : Nat) : toInt n ≤ n := by
  unfold toInt
  rw [Int.bmod_def]
  split <;> omega

theorem toInt_bounds (n : Nat) : -2 ^ 31 ≤ toInt n ∧ toInt n < 2 ^ 31 := by
  unfold toInt
  rw [Int.bmod_def]
  split <;> omega

theorem toSizeT_natCast {n : Nat} (h : n < 2 ^ 64) : toSizeT n = n := by
  unfold toSizeT
  omega

structure Image where
  size : Nat
  byte : Bytes
  sizeFits : size < 2 ^ 63

structure HostFd where
  path : List UInt8
  cursor : Nat

structure Host where
  image : List UInt8 → Image
  fds : Nat → Option HostFd

/-- The answers to `open` and to the `fstat` after it. -/
structure OpenAnswer where
  fd : Option Nat
  fstatFails : Bool

/-- The answers to `lseek` and to the `read` or `write` after it: `moves` is
`none` when the transfer fails and else the number of bytes it moved. -/
structure Transfer where
  seeks : Bool
  moves : Option (Fin (blockSize + 1))

def Transfer.whole : Transfer := ⟨true, some (Fin.last blockSize)⟩

namespace Host

def openPath (host : Host) (fd : Nat) (path : List UInt8) : Host :=
  { host with fds := Function.update host.fds fd (some ⟨path, 0⟩) }

def close (host : Host) (fd : Nat) : Host :=
  { host with fds := Function.update host.fds fd none }

def seekTo (host : Host) (fd : Nat) (file : HostFd) (cursor : Nat) : Host :=
  { host with fds := Function.update host.fds fd (some { file with cursor := cursor }) }

def lseek (host : Host) (seeks : Bool) (fd offset : Nat) : Option Host :=
  match host.fds fd with
  | none => none
  | some file => if seeks && offset < 2 ^ 63 then some (host.seekTo fd file offset) else none

def read (host : Host) (moves : Option (Fin (blockSize + 1))) (fd : Nat) (buffer : Bytes)
    (offset : Nat) : Option (Bytes × Host) :=
  match host.fds fd, moves with
  | some file, some count =>
      some (overlay buffer offset count (slice (host.image file.path).byte file.cursor),
        host.seekTo fd file (file.cursor + count))
  | _, _ => none

def write (host : Host) (moves : Option (Fin (blockSize + 1))) (fd : Nat) (source : Bytes) :
    Option Host :=
  match host.fds fd, moves with
  | some file, some count =>
      let image := host.image file.path
      some { host.seekTo fd file (file.cursor + count) with
        image := Function.update host.image file.path
          { image with byte := overlay image.byte file.cursor count source } }
  | _, _ => none

end Host

/-- `struct disk`; `none` is `INVALID_FD`. -/
structure Disk where
  fd : Option Nat
  bcount : Nat

structure Device where
  disk : Disk
  host : Host

def blockDiskOpen (answer : OpenAnswer) (diskname : Option CStr) (d : Device) : Int × Device :=
  match diskname with
  | none => (-1, d)
  | some diskname =>
      if d.disk.fd.isSome then (-1, d)
      else
        match answer.fd with
        | none => (-1, d)
        | some fd =>
            let opened := { d with host := d.host.openPath fd diskname.bytes }
            let size := (d.host.image diskname.bytes).size
            if answer.fstatFails then (-1, opened)
            else if size % blockSize ≠ 0 then (-1, opened)
            else (0, { opened with disk := ⟨some fd, size / blockSize⟩ })

def blockDiskClose (d : Device) : Int × Device :=
  match d.disk.fd with
  | none => (-1, d)
  | some fd => (0, { disk := { d.disk with fd := none }, host := d.host.close fd })

def blockDiskCount (d : Device) : Int :=
  match d.disk.fd with
  | none => -1
  | some _ => toInt d.disk.bcount

def blockWrite (t : Transfer) (block : Nat) (source : Bytes) (d : Device) : Int × Device :=
  match d.disk.fd with
  | none => (-1, d)
  | some fd =>
      if d.disk.bcount ≤ block then (-1, d)
      else
        match d.host.lseek t.seeks fd (block * blockSize % 2 ^ 64) with
        | none => (-1, d)
        | some host =>
            match host.write t.moves fd source with
            | none => (-1, { d with host := host })
            | some host => (0, { d with host := host })

structure BlockRead where
  ret : Int
  buffer : Bytes
  device : Device

def blockRead (t : Transfer) (block : Nat) (buffer : Bytes) (offset : Nat) (d : Device) :
    BlockRead :=
  match d.disk.fd with
  | none => ⟨-1, buffer, d⟩
  | some fd =>
      if d.disk.bcount ≤ block then ⟨-1, buffer, d⟩
      else
        match d.host.lseek t.seeks fd (block * blockSize % 2 ^ 64) with
        | none => ⟨-1, buffer, d⟩
        | some host =>
            match host.read t.moves fd buffer offset with
            | none => ⟨-1, buffer, { d with host := host }⟩
            | some (buffer, host) => ⟨0, buffer, { d with host := host }⟩

/-- The device has `path` open and counted no block past the end of its file. -/
def Device.Serves (d : Device) (path : List UInt8) : Prop :=
  (∃ fd cursor, d.disk.fd = some fd ∧ d.host.fds fd = some ⟨path, cursor⟩) ∧
    d.disk.bcount * blockSize ≤ (d.host.image path).size

theorem Device.Serves.blockDiskCount {d : Device} {path : List UInt8} (h : d.Serves path) :
    LibFs.blockDiskCount d = toInt d.disk.bcount := by
  obtain ⟨fd, _, hfd, _⟩ := h.1
  simp [LibFs.blockDiskCount, hfd]

def Host.block (host : Host) (path : List UInt8) (b : Nat) : Bytes :=
  slice (host.image path).byte (b * blockSize)

theorem Host.lseek_some {host next : Host} {seeks : Bool} {fd offset : Nat}
    (h : host.lseek seeks fd offset = some next) :
    ∃ file, host.fds fd = some file ∧ next = host.seekTo fd file offset := by
  unfold Host.lseek at h
  split at h
  · contradiction
  · rename_i file hfile
    split at h
    · exact ⟨file, hfile, (Option.some.inj h).symm⟩
    · contradiction

theorem Host.read_some {host next : Host} {moves : Option (Fin (blockSize + 1))} {fd : Nat}
    {buffer result : Bytes} {offset : Nat}
    (h : host.read moves fd buffer offset = some (result, next)) :
    ∃ file cursor, host.fds fd = some file ∧ next = host.seekTo fd file cursor := by
  unfold Host.read at h
  split at h
  · rename_i file _ hfile
    simp only [Option.some.injEq, Prod.mk.injEq] at h
    exact ⟨file, _, hfile, h.2.symm⟩
  · contradiction

section Reading

variable (t : Transfer) (block : Nat) (buffer : Bytes) (offset : Nat) (d : Device)

theorem blockRead_device : (blockRead t block buffer offset d).device = d ∨
    ∃ fd file cursor, d.host.fds fd = some file ∧
      (blockRead t block buffer offset d).device =
        { d with host := d.host.seekTo fd file cursor } := by
  unfold blockRead
  split
  · exact Or.inl rfl
  · rename_i fd hfd
    split
    · exact Or.inl rfl
    · split
      · exact Or.inl rfl
      · rename_i host hseek
        obtain ⟨file, hfile, rfl⟩ := Host.lseek_some hseek
        split
        · exact Or.inr ⟨fd, file, _, hfile, rfl⟩
        · rename_i result next hread
          obtain ⟨file', cursor, hfile', rfl⟩ := Host.read_some hread
          refine Or.inr ⟨fd, file, cursor, hfile, ?_⟩
          simp only [Host.seekTo, Function.update_self, Option.some.injEq] at hfile'
          simp [Host.seekTo, ← hfile']

@[simp] theorem blockRead_disk : (blockRead t block buffer offset d).device.disk = d.disk := by
  rcases blockRead_device t block buffer offset d with h | ⟨_, _, _, _, h⟩ <;> rw [h]

@[simp] theorem blockRead_image :
    (blockRead t block buffer offset d).device.host.image = d.host.image := by
  rcases blockRead_device t block buffer offset d with h | ⟨_, _, _, _, h⟩ <;> rw [h]
  rfl

variable {block d}

theorem blockRead_serves {path : List UInt8} (h : d.Serves path) :
    (blockRead t block buffer offset d).device.Serves path := by
  rcases blockRead_device t block buffer offset d with heq | ⟨fd, file, cursor, hfile, heq⟩
  · rw [heq]
    exact h
  · obtain ⟨⟨fd', cursor', hdisk, hfds⟩, hcount⟩ := h
    rw [heq]
    refine ⟨?_, hcount⟩
    by_cases hsame : fd' = fd
    · subst hsame
      rw [hfile] at hfds
      cases Option.some.inj hfds
      exact ⟨fd', cursor, hdisk, by simp [Host.seekTo]⟩
    · exact ⟨fd', cursor', hdisk, by simp [Host.seekTo, hsame, hfds]⟩

theorem blockRead_refused (h : d.disk.bcount ≤ block) :
    blockRead t block buffer offset d = ⟨-1, buffer, d⟩ := by
  unfold blockRead
  split
  · rfl
  · rw [if_pos h]

end Reading

theorem blockRead_buffer_congr (t : Transfer) (block : Nat) (buffer : Bytes) (offset : Nat)
    {d d' : Device} (hdisk : d.disk = d'.disk) (himage : d.host.image = d'.host.image)
    (hfds : ∀ fd, d'.disk.fd = some fd → d.host.fds fd = d'.host.fds fd) :
    (blockRead t block buffer offset d).buffer = (blockRead t block buffer offset d').buffer := by
  unfold blockRead
  rw [hdisk]
  cases hfd : d'.disk.fd with
  | none => rfl
  | some fd =>
      dsimp only
      split
      · rfl
      · unfold Host.lseek Host.read
        rw [hfds fd hfd]
        cases d'.host.fds fd with
        | none => rfl
        | some file =>
            generalize block * blockSize % 2 ^ 64 = cursor
            by_cases hseek : (t.seeks && decide (cursor < 2 ^ 63)) = true
            · simp only [hseek, if_true]
              cases t.moves <;> simp [Host.seekTo, himage]
            · simp only [if_neg hseek]

/-- The byte offset of a counted block fits `size_t` and the file position, so
seeking to it reaches it. -/
theorem Device.Serves.lseek {d : Device} {path : List UInt8} (h : d.Serves path)
    {block : Nat} (hblock : block < d.disk.bcount) :
    ∃ fd cursor, d.disk.fd = some fd ∧ d.host.fds fd = some ⟨path, cursor⟩ ∧
      d.host.lseek true fd (block * blockSize % 2 ^ 64) =
        some (d.host.seekTo fd ⟨path, cursor⟩ (block * blockSize)) := by
  obtain ⟨⟨fd, cursor, hdisk, hfds⟩, hcount⟩ := h
  have hsize := (d.host.image path).sizeFits
  have hlt : block * blockSize < d.disk.bcount * blockSize :=
    Nat.mul_lt_mul_of_pos_right hblock (by decide)
  have hmod : block * blockSize % 2 ^ 64 = block * blockSize := by omega
  have hfits : block * blockSize < 2 ^ 63 := by omega
  refine ⟨fd, cursor, hdisk, hfds, ?_⟩
  rw [hmod]
  simp only [Host.lseek, hfds, hfits, decide_true, Bool.and_self, if_true]

theorem blockRead_whole {d : Device} {path : List UInt8} (h : d.Serves path) {block : Nat}
    (hblock : block < d.disk.bcount) (buffer : Bytes) (offset : Nat) :
    (blockRead .whole block buffer offset d).ret = 0 ∧
      (blockRead .whole block buffer offset d).buffer =
        overlay buffer offset blockSize (d.host.block path block) := by
  obtain ⟨fd, cursor, hdisk, hfds, hseek⟩ := h.lseek hblock
  unfold blockRead
  simp only [hdisk, if_neg (Nat.not_le.mpr hblock), Transfer.whole]
  rw [hseek]
  simp [Host.read, Host.seekTo, Host.block]

theorem blockWrite_refused {d : Device} {block : Nat} (h : d.disk.bcount ≤ block) (t : Transfer)
    (source : Bytes) : blockWrite t block source d = (-1, d) := by
  unfold blockWrite
  split
  · rfl
  · rw [if_pos h]

theorem blockWrite_whole {d : Device} {path : List UInt8} (h : d.Serves path) {block : Nat}
    (hblock : block < d.disk.bcount) (source : Bytes) :
    (blockWrite .whole block source d).1 = 0 ∧
      (blockWrite .whole block source d).2.disk = d.disk ∧
      (blockWrite .whole block source d).2.Serves path ∧
      (blockWrite .whole block source d).2.host.image =
        Function.update d.host.image path { d.host.image path with
          byte := overlay (d.host.image path).byte (block * blockSize) blockSize source } := by
  obtain ⟨fd, cursor, hdisk, hfds, hseek⟩ := h.lseek hblock
  have hcount := h.2
  unfold blockWrite
  simp only [hdisk, if_neg (Nat.not_le.mpr hblock), Transfer.whole]
  rw [hseek]
  simp [Host.write, Host.seekTo, Device.Serves, hcount, hdisk]

theorem Host.write_some {host next : Host} {moves : Option (Fin (blockSize + 1))} {fd : Nat}
    {source : Bytes} (h : host.write moves fd source = some next) : ∃ file cursor byte,
      next = { host.seekTo fd file cursor with
        image := Function.update host.image file.path
          { host.image file.path with byte := byte } } := by
  unfold Host.write at h
  split at h
  · rename_i file count _
    exact ⟨file, file.cursor + count, _, (Option.some.inj h).symm⟩
  · contradiction

@[simp] theorem blockWrite_disk (t : Transfer) (block : Nat) (source : Bytes) (d : Device) :
    (blockWrite t block source d).2.disk = d.disk := by
  unfold blockWrite
  split
  · rfl
  · split
    · rfl
    · split
      · rfl
      · split <;> rfl

@[simp] theorem blockWrite_size (t : Transfer) (block : Nat) (source : Bytes) (d : Device)
    (path : List UInt8) : ((blockWrite t block source d).2.host.image path).size =
      (d.host.image path).size := by
  unfold blockWrite
  split
  · rfl
  · split
    · rfl
    · split
      · rfl
      · rename_i host hseek
        obtain ⟨file, _, rfl⟩ := Host.lseek_some hseek
        split
        · rfl
        · rename_i next hwrite
          obtain ⟨file', cursor, byte, rfl⟩ := Host.write_some hwrite
          by_cases hpath : path = file'.path
          · subst hpath
            simp [Host.seekTo]
          · simp [Host.seekTo, hpath]

theorem blockWrite_block {d : Device} {path : List UInt8} (h : d.Serves path) {block : Nat}
    (hblock : block < d.disk.bcount) (source : Bytes) {b p : Nat} (hp : p < blockSize) :
    (blockWrite .whole block source d).2.host.block path b p =
      if b = block then source p else d.host.block path b p := by
  have hbyte : ((blockWrite .whole block source d).2.host.image path).byte =
      overlay (d.host.image path).byte (block * blockSize) blockSize source := by
    rw [(blockWrite_whole h hblock source).2.2.2, Function.update_self]
  unfold Host.block slice
  rw [hbyte]
  by_cases hb : b = block
  · subst hb
    rw [if_pos rfl, overlay_inside _ _ (by omega) (by omega)]
    congr 1
    omega
  · rw [if_neg hb, overlay_outside]
    rcases Nat.lt_or_gt_of_ne hb with hlt | hgt
    · have hle := Nat.mul_le_mul_right blockSize hlt
      rw [Nat.succ_mul] at hle
      omega
    · have hle := Nat.mul_le_mul_right blockSize hgt
      rw [Nat.succ_mul] at hle
      omega

theorem Host.byte_eq_of_blocks {host host' : Host} {path : List UInt8}
    (h : ∀ b, ∀ p < blockSize, host'.block path b p = host.block path b p) :
    (host'.image path).byte = (host.image path).byte := by
  funext q
  have hq := h (q / blockSize) (q % blockSize) (Nat.mod_lt _ (by decide))
  unfold Host.block slice at hq
  rwa [Nat.mul_comm, Nat.div_add_mod] at hq

theorem blockDiskOpen_cases (answer : OpenAnswer) (diskname : CStr) (d : Device) :
    ((blockDiskOpen answer (some diskname) d).1 = -1 ∧
        (blockDiskOpen answer (some diskname) d).2.disk = d.disk ∧
        (blockDiskOpen answer (some diskname) d).2.host.image = d.host.image) ∨
      (d.disk.fd = none ∧ (blockDiskOpen answer (some diskname) d).1 = 0 ∧
        (blockDiskOpen answer (some diskname) d).2.Serves diskname.bytes ∧
        (d.host.image diskname.bytes).size =
          (blockDiskOpen answer (some diskname) d).2.disk.bcount * blockSize ∧
        (blockDiskOpen answer (some diskname) d).2.host.image = d.host.image) := by
  unfold blockDiskOpen
  simp only
  split
  · exact Or.inl ⟨rfl, rfl, rfl⟩
  · rename_i hclosed
    split
    · exact Or.inl ⟨rfl, rfl, rfl⟩
    · split
      · exact Or.inl ⟨rfl, rfl, rfl⟩
      · split
        · exact Or.inl ⟨rfl, rfl, rfl⟩
        · rename_i hmultiple
          have hsize := Nat.div_mul_cancel (Nat.dvd_of_mod_eq_zero (not_not.mp hmultiple))
          refine Or.inr ⟨by simpa using hclosed, rfl, ⟨⟨_, 0, rfl, ?_⟩, hsize.le⟩, hsize.symm, rfl⟩
          simp [Host.openPath]

theorem blockDiskOpen_open {d : Device} (h : d.disk.fd.isSome) (answer : OpenAnswer)
    (diskname : CStr) : blockDiskOpen answer (some diskname) d = (-1, d) := by
  simp [blockDiskOpen, h]

theorem blockDiskClose_open {d : Device} {fd : Nat} (h : d.disk.fd = some fd) :
    blockDiskClose d = (0, { disk := { d.disk with fd := none }, host := d.host.close fd }) := by
  simp [blockDiskClose, h]

@[simp] theorem blockDiskClose_image (d : Device) :
    (blockDiskClose d).2.host.image = d.host.image := by
  unfold blockDiskClose
  split <;> rfl

@[simp] theorem blockDiskClose_fd (d : Device) : (blockDiskClose d).2.disk.fd = none := by
  unfold blockDiskClose
  split
  · assumption
  · rfl

end LibFs
