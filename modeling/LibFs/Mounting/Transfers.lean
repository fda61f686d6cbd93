import LibFs.Model.Api

/-! The loops over the FAT and the final write-back when every host operation moves
a whole block. Both loops advance their buffer by one 16-bit entry for each block. -/
namespace LibFs

open LibFs.Foundation

section Transfers

variable {d : Device} {path : List UInt8} {count : Nat} {buffer : Bytes}

theorem loadFat_block (io : Nat → Transfer) (b : Nat) :
    (loadFat io count buffer d).2.host.block path b = d.host.block path b := by
  unfold Host.block
  rw [loadFat_image]

theorem toSizeT_fatIndex {i : Nat} (h : d.Serves path) (hi : fatIndex + i < d.disk.bcount) :
    toSizeT (fatIndex + i) = fatIndex + i := by
  have hsize := (d.host.image path).sizeFits
  have hcount := h.2
  have hlt : fatIndex + i < 2 ^ 64 := by
    unfold blockSize at hcount
    omega
  exact_mod_cast toSizeT_natCast hlt

theorem loadFat_whole (h : d.Serves path) (hdisk : ∀ i < count, fatIndex + i < d.disk.bcount) :
    (loadFat (fun _ => .whole) count buffer d).1 =
      loadStrided blockSize 2 (fun i => d.host.block path (fatIndex + i)) count buffer := by
  induction count with
  | zero => rfl
  | succ count ih =>
      have hcount := hdisk count (by omega)
      have hin : fatIndex + count <
          (loadFat (fun _ => .whole) count buffer d).2.disk.bcount := by simpa using hcount
      have hread := blockRead_whole (loadFat_serves (fun _ => .whole) count buffer h) hin
        (loadFat (fun _ => .whole) count buffer d).1 (2 * count)
      rw [loadFat, toSizeT_fatIndex h hcount]
      simp only
      rw [hread.2, loadFat_block, ih fun i hi => hdisk i (by omega)]
      rfl

theorem storeFat_whole (buffer : Bytes) (h : d.Serves path)
    (hdisk : ∀ i < count, fatIndex + i < d.disk.bcount) :
    (storeFat (fun _ => .whole) count buffer d).Serves path ∧
      ∀ b, ∀ p < blockSize, (storeFat (fun _ => .whole) count buffer d).host.block path b p =
        if fatIndex ≤ b ∧ b < fatIndex + count then buffer (2 * (b - fatIndex) + p)
        else d.host.block path b p := by
  induction count with
  | zero =>
      refine ⟨h, fun b p _ => ?_⟩
      rw [if_neg (by omega)]
      rfl
  | succ count ih =>
      obtain ⟨hserves, hblocks⟩ := ih fun i hi => hdisk i (by omega)
      have hcount := hdisk count (by omega)
      have hin : fatIndex + count <
          (storeFat (fun _ => .whole) count buffer d).disk.bcount := by simpa using hcount
      rw [storeFat, toSizeT_fatIndex h hcount]
      refine ⟨(blockWrite_whole hserves hin _).2.2.1, fun b p hp => ?_⟩
      rw [blockWrite_block hserves hin _ hp, hblocks b p hp]
      by_cases hb : b = fatIndex + count
      · subst hb
        rw [if_pos rfl, if_pos (by omega)]
        simp only [slice]
        congr 1
        omega
      · rw [if_neg hb]
        by_cases hbefore : fatIndex ≤ b ∧ b < fatIndex + count
        · rw [if_pos hbefore, if_pos (by omega)]
        · rw [if_neg hbefore, if_neg (by omega)]

theorem flush_whole (fs : FsSystem L) (fat : FatBuffer) (h : d.Serves path)
    (hdisk : ∀ i < fs.sp.fatBlckAmount.toNat, fatIndex + i < d.disk.bcount)
    (b : Nat) {p : Nat} (hp : p < blockSize) :
    (fs.flush (fun _ => .whole) fat d).host.block path b p =
      if b = toSizeT fs.sp.rootDirIndex ∧ b < d.disk.bcount then fs.rootDir.toBytes p
      else if fatIndex ≤ b ∧ b < fatIndex + fs.sp.fatBlckAmount.toNat then
        fat.bytes (2 * (b - fatIndex) + p)
      else d.host.block path b p := by
  obtain ⟨hserves, hblocks⟩ := storeFat_whole fat.bytes h hdisk
  rw [← hblocks b p hp]
  unfold FsSystem.flush
  rcases Nat.lt_or_ge (toSizeT fs.sp.rootDirIndex) d.disk.bcount with hin | hout
  · rw [blockWrite_block hserves (by simpa using hin) _ hp]
    by_cases hb : b = toSizeT fs.sp.rootDirIndex
    · rw [if_pos hb, if_pos ⟨hb, hb ▸ hin⟩]
    · rw [if_neg hb, if_neg fun hroot => hb hroot.1]
  · rw [blockWrite_refused (by simpa using hout), if_neg (by omega)]

variable {req : MountRequest L}

theorem sp_raw (hwhole : req.io 0 = .whole) (h : d.Serves path)
    (hsome : superblockIndex < d.disk.bcount)
    {p : Nat} (hp : p < blockSize) :
    (req.sp d).raw p = d.host.block path superblockIndex p := by
  simp only [MountRequest.sp]
  unfold MountRequest.superblock
  rw [hwhole, (blockRead_whole h hsome _ _).2]
  exact overlay_inside _ _ (Nat.zero_le p) (by omega)

theorem rootRead_buffer (hwhole : req.io (req.blocks d + 1) = .whole) (h : d.Serves path)
    (p : Nat) : (req.rootRead d).buffer p =
      if req.rootIndex d < d.disk.bcount ∧ p < blockSize then
        d.host.block path (req.rootIndex d) p
      else req.fresh.rootDir.toBytes p := by
  unfold MountRequest.rootRead
  rw [hwhole]
  rcases Nat.lt_or_ge (req.rootIndex d) d.disk.bcount with hin | hout
  · rw [(blockRead_whole (req.fatRead_serves h) (by simpa using hin) _ _).2]
    unfold overlay Host.block
    simp [hin]
  · rw [blockRead_refused _ _ _ (by simpa using hout), if_neg (by omega)]

end Transfers

end LibFs
