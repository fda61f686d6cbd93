import LibFs.Mounting.Transfers

/-! What writing can do to the files of the host when nothing is assumed about how many
bytes the host moves: new bytes in front of old ones in the blocks that are written, and
nothing anywhere else. -/
namespace LibFs

open LibFs.Foundation

def InBlock (block q : Nat) : Prop := block * blockSize ≤ q ∧ q < block * blockSize + blockSize

theorem inBlock_iff {block q : Nat} : InBlock block q ↔ q / blockSize = block := by
  unfold InBlock blockSize
  omega

/-- From `d` to `d'` only the open file at `path` has changed, and the bytes that have
are those `written` says. -/
structure Rewritten (path : List UInt8) (written : Nat → UInt8 → Prop) (d d' : Device) :
    Prop where
  serves : d'.Serves path
  disk : d'.disk = d.disk
  size : (d'.host.image path).size = (d.host.image path).size
  others : ∀ other, other ≠ path → d'.host.image other = d.host.image other
  bytes : ∀ q, (d'.host.image path).byte q = (d.host.image path).byte q ∨
    written q ((d'.host.image path).byte q)

section Rules

variable {path : List UInt8} {written more : Nat → UInt8 → Prop} {d d' d'' : Device}

theorem Rewritten.refl (h : d.Serves path) : Rewritten path written d d :=
  ⟨h, rfl, rfl, fun _ _ => rfl, fun _ => Or.inl rfl⟩

theorem Rewritten.trans (h : Rewritten path written d d') (h' : Rewritten path written d' d'') :
    Rewritten path written d d'' where
  serves := h'.serves
  disk := h'.disk.trans h.disk
  size := h'.size.trans h.size
  others other hne := (h'.others other hne).trans (h.others other hne)
  bytes q := by
    rcases h'.bytes q with hsame | hwritten
    · rw [hsame]
      exact h.bytes q
    · exact Or.inr hwritten

theorem Rewritten.mono (h : Rewritten path written d d')
    (hmore : ∀ q byte, written q byte → more q byte) : Rewritten path more d d' where
  serves := h.serves
  disk := h.disk
  size := h.size
  others := h.others
  bytes q := (h.bytes q).imp_right (hmore q _)

end Rules

section Blocks

variable {path : List UInt8} {d : Device}

theorem Device.Serves.seekTo {fd : Nat} {file : HostFd} (h : d.Serves path)
    (hfile : d.host.fds fd = some file) (cursor : Nat) :
    Device.Serves { d with host := d.host.seekTo fd file cursor } path := by
  obtain ⟨⟨fd', cursor', hdisk, hfds⟩, hcount⟩ := h
  refine ⟨?_, hcount⟩
  by_cases hsame : fd' = fd
  · subst hsame
    rw [hfile] at hfds
    cases Option.some.inj hfds
    exact ⟨fd', cursor, hdisk, by simp [Host.seekTo]⟩
  · exact ⟨fd', cursor', hdisk, by simp [Host.seekTo, hsame, hfds]⟩

theorem blockWrite_unmoved {t : Transfer} (hfails : t.seeks = false ∨ t.moves = none) (block : Nat)
    (source : Bytes) (h : d.Serves path) :
    Rewritten path (fun _ _ => False) d (blockWrite t block source d).2 := by
  rcases Nat.lt_or_ge block d.disk.bcount with hin | hout
  · obtain ⟨fd, cursor, hdisk, hfds, hseek⟩ := h.lseek hin
    unfold blockWrite
    simp only [hdisk, if_neg (Nat.not_le.mpr hin)]
    cases hseeks : t.seeks with
    | false =>
        have hnone : d.host.lseek false fd (block * blockSize % 2 ^ 64) = none := by
          simp [Host.lseek, hfds]
        simp only [hnone]
        exact .refl h
    | true =>
        have hmoves : t.moves = none := hfails.resolve_left (by simp [hseeks])
        have hnone : (d.host.seekTo fd ⟨path, cursor⟩ (block * blockSize)).write none fd
            source = none := by simp [Host.write]
        simp only [hseek, hmoves, hnone]
        exact ⟨h.seekTo hfds (block * blockSize), rfl, rfl, fun _ _ => rfl, fun _ => Or.inl rfl⟩
  · rw [blockWrite_refused hout]
    exact .refl h

theorem blockWrite_rewritten (t : Transfer) (block : Nat) (source : Bytes) (h : d.Serves path) :
    Rewritten path
      (fun q byte => block < d.disk.bcount ∧ InBlock block q ∧
        byte = source (q - block * blockSize))
      d (blockWrite t block source d).2 := by
  by_cases hfails : t.seeks = false ∨ t.moves = none
  · exact (blockWrite_unmoved hfails block source h).mono fun _ _ hq => hq.elim
  obtain ⟨hseeks, hmoves⟩ := not_or.mp hfails
  rw [Bool.not_eq_false] at hseeks
  rcases Nat.lt_or_ge block d.disk.bcount with hin | hout
  · obtain ⟨fd, cursor, hdisk, hfds, hseek⟩ := h.lseek hin
    obtain ⟨count, hcount⟩ := Option.ne_none_iff_exists'.mp hmoves
    unfold blockWrite
    simp only [hdisk, if_neg (Nat.not_le.mpr hin), hseeks, hseek, hcount,
      Host.write, Host.seekTo, Function.update_self]
    refine ⟨⟨⟨fd, _, hdisk, Function.update_self ..⟩, ?_⟩, rfl, ?_, fun other hne => ?_,
      fun q => ?_⟩
    · simpa using h.2
    · simp
    · simp [hne]
    · simp only [Function.update_self]
      have hlength := count.isLt
      by_cases hq : block * blockSize ≤ q ∧ q < block * blockSize + count
      · refine Or.inr ⟨hin, ⟨hq.1, by omega⟩, ?_⟩
        rw [overlay_inside _ _ hq.1 hq.2]
      · exact Or.inl (overlay_outside _ _ (by omega))
  · rw [blockWrite_refused hout]
    exact .refl h

theorem storeFat_unmoved {io : Nat → Transfer} (hmoves : ∀ i, (io i).moves = none) (count : Nat)
    (buffer : Bytes) (h : d.Serves path) :
    Rewritten path (fun _ _ => False) d (storeFat io count buffer d) := by
  induction count with
  | zero => exact .refl h
  | succ count ih => exact ih.trans (blockWrite_unmoved (.inr (hmoves count)) _ _ ih.serves)

def StoresFat (count : Nat) (buffer : Bytes) (q : Nat) (byte : UInt8) : Prop :=
  ∃ i < count, InBlock (fatIndex + i) q ∧ byte = buffer (2 * i + (q - (fatIndex + i) * blockSize))

theorem storeFat_rewritten (io : Nat → Transfer) {count : Nat} (buffer : Bytes)
    (h : d.Serves path) (hdisk : ∀ i < count, fatIndex + i < d.disk.bcount) :
    Rewritten path (StoresFat count buffer) d (storeFat io count buffer d) := by
  induction count with
  | zero => exact .refl h
  | succ count ih =>
      have hbefore := ih fun i hi => hdisk i (by omega)
      have hwrite := blockWrite_rewritten (io count) (toSizeT (fatIndex + count))
        (slice buffer (2 * count)) hbefore.serves
      rw [toSizeT_fatIndex h (hdisk count (by omega))] at hwrite
      rw [storeFat, toSizeT_fatIndex h (hdisk count (by omega))]
      refine (hbefore.mono ?_).trans (hwrite.mono ?_)
      · rintro q byte ⟨i, hi, hq⟩
        exact ⟨i, by omega, hq⟩
      · rintro q byte ⟨_, hq, hbyte⟩
        exact ⟨count, by omega, hq, hbyte⟩

def FsSystem.StoresRoot (fs : FsSystem L) (blocks q : Nat) (byte : UInt8) : Prop :=
  toSizeT fs.sp.rootDirIndex < blocks ∧ InBlock (toSizeT fs.sp.rootDirIndex) q ∧
    byte = fs.rootDir.toBytes (q - toSizeT fs.sp.rootDirIndex * blockSize)

def FsSystem.Stores (fs : FsSystem L) (fat : FatBuffer) (blocks q : Nat) (byte : UInt8) : Prop :=
  StoresFat fs.sp.fatBlckAmount.toNat fat.bytes q byte ∨ fs.StoresRoot blocks q byte

theorem flush_rewritten (io : Nat → Transfer) (fs : FsSystem L) (fat : FatBuffer)
    (h : d.Serves path) (hdisk : ∀ i < fs.sp.fatBlckAmount.toNat, fatIndex + i < d.disk.bcount) :
    Rewritten path (fs.Stores fat d.disk.bcount) d (fs.flush io fat d) := by
  have hfat := storeFat_rewritten io fat.bytes h hdisk
  have hroot := blockWrite_rewritten (io fs.sp.fatBlckAmount.toNat) (toSizeT fs.sp.rootDirIndex)
    fs.rootDir.toBytes hfat.serves
  rw [storeFat_disk] at hroot
  exact (hfat.mono fun q byte hq => Or.inl hq).trans (hroot.mono fun q byte hq => Or.inr hq)

section Unallocated

variable {fs : FsSystem L} (hfat : fs.fatBlocks.isLive = false) (h : d.Serves path)
include hfat h

theorem storeFat_unallocated (io : Nat → Transfer) (count : Nat) :
    Rewritten path (fun _ _ => False) d (storeFat (fs.fatTransfers io) count fs.fatBytes d) := by
  refine storeFat_unmoved (fun i => ?_) count fs.fatBytes h
  unfold FsSystem.fatTransfers
  cases hpointer : fs.fatBlocks with
  | live fat => simp [hpointer] at hfat
  | _ => rfl

/-- Without a FAT only the root directory is written, wherever the superblock places it. -/
theorem writeBack_unallocated (io : Nat → Transfer) :
    Rewritten path (fs.StoresRoot d.disk.bcount) d (fs.writeBack io d) := by
  have hstored := storeFat_unallocated hfat h io fs.sp.fatBlckAmount.toNat
  have hroot := blockWrite_rewritten (io fs.sp.fatBlckAmount.toNat) (toSizeT fs.sp.rootDirIndex)
    fs.rootDir.toBytes hstored.serves
  rw [storeFat_disk] at hroot
  exact (hstored.mono fun _ _ hq => hq.elim).trans hroot

theorem writeBack_unallocated_whole {q : Nat} {byte : UInt8}
    (hstores : fs.StoresRoot d.disk.bcount q byte) :
    ((fs.writeBack (fun _ => .whole) d).host.image path).byte q = byte := by
  obtain ⟨hroot, hin, rfl⟩ := hstores
  have hstored := storeFat_unallocated hfat h (fun _ => .whole) fs.sp.fatBlckAmount.toNat
  have hwrite := blockWrite_block hstored.serves (by simpa using hroot) fs.rootDir.toBytes
    (Nat.mod_lt q (by decide : 0 < blockSize)) (b := toSizeT fs.sp.rootDirIndex)
  rw [if_pos rfl] at hwrite
  have hq := Nat.div_add_mod' q blockSize
  rw [inBlock_iff.mp hin] at hq
  have hmod : q % blockSize = q - toSizeT fs.sp.rootDirIndex * blockSize := by omega
  simp only [Host.block, slice, hq] at hwrite
  rw [← hmod, ← hwrite]
  rfl

end Unallocated

end Blocks

end LibFs
