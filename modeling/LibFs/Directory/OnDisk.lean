import LibFs.Directory.Sessions
import LibFs.Mounting.Settling

/-! The directory on a disk, over any number of processes that mount it, use it and unmount
it. What a session cannot do to the directory in memory, no process can do to the one on the
disk, as far as its entries are written out. -/
namespace LibFs

open LibFs.Foundation

def Call.Whole : Call L → Prop
  | .fsMount req => ∀ i, req.io i = .whole
  | .fsUnmount io => io = fun _ => .whole
  | _ => True

/-- The entries that lie inside the root block; the others are never written. -/
def OnDisk (L : Layout) (i : Fin fsFileMaxCount) : Prop :=
  L.entrySize * i + L.entrySize ≤ blockSize

def entriesOf (raw : Bytes) (i : Fin fsFileMaxCount) : RootEntry L :=
  RootEntry.ofBytes (slice raw (L.entrySize * i))

/-- The entries in the file at `path`, read from the block they have to be in. -/
def Host.rootEntries (host : Host) (path : List UInt8) : Fin fsFileMaxCount → RootEntry L :=
  entriesOf (host.block path (rootBlockFor ((host.image path).size / blockSize)))

/-- What the entries on a disk may have become. Names are those that end in their fields. -/
structure Aged (dir dir' : Fin fsFileMaxCount → RootEntry L) : Prop where
  entries : ∀ i, OnDisk L i → Truncated (dir i) (dir' i)
  terminated : ∀ i, OnDisk L i → (dir i).filename.Terminated → (dir' i).filename.Terminated
  keys : ∀ i j, OnDisk L i → OnDisk L j → (dir i).filename.Terminated →
    (dir j).filename.Terminated → (dir i).key = (dir j).key → (dir' i).key = (dir' j).key
  listed : ∀ i, OnDisk L i → (dir i).filename.text ≠ [] → (dir' i).filename.text ≠ []

section Rules

variable {dir dir' dir'' : Fin fsFileMaxCount → RootEntry L}

theorem Aged.refl (dir : Fin fsFileMaxCount → RootEntry L) : Aged dir dir where
  entries _ _ := Or.inl ⟨rfl, rfl⟩
  terminated _ _ hends := hends
  keys _ _ _ _ _ _ hsame := hsame
  listed _ _ hname := hname

theorem Aged.trans (h : Aged dir dir') (h' : Aged dir' dir'') : Aged dir dir'' where
  entries i hi := (h.entries i hi).trans (h'.entries i hi)
  terminated i hi hends := h'.terminated i hi (h.terminated i hi hends)
  keys i j hi hj hends hends' hsame := h'.keys i j hi hj (h.terminated i hi hends)
    (h.terminated j hj hends') (h.keys i j hi hj hends hends' hsame)
  listed i hi hname := h'.listed i hi (h.listed i hi hname)

theorem Aged.congr (h : Aged dir dir') (hsame : ∀ i, OnDisk L i → dir'' i = dir' i) :
    Aged dir dir'' where
  entries i hi := (hsame i hi).symm ▸ h.entries i hi
  terminated i hi hends := (hsame i hi).symm ▸ h.terminated i hi hends
  keys i j hi hj hends hends' hkey := by
    rw [hsame i hi, hsame j hj]
    exact h.keys i j hi hj hends hends' hkey
  listed i hi hname := (hsame i hi).symm ▸ h.listed i hi hname

theorem Descends.aged {fs fs' : FsSystem L} (h : Descends fs fs') :
    Aged fs.rootDir.entry fs'.rootDir.entry where
  entries i _ := h.entries i
  terminated i _ := h.terminated i
  keys i j _ _ hends hends' hsame := by
    rw [← RootDir.key_terminated hends, ← RootDir.key_terminated hends'] at hsame
    have hkey := h.keys i j hends hends' hsame
    rwa [RootDir.key_terminated (h.terminated i hends),
      RootDir.key_terminated (h.terminated j hends')] at hkey
  listed i _ := by
    have hnamed (dir : RootDir L) : (dir i).filename.text ≠ [] ↔ dir.name i ≠ [] :=
      not_congr (RootDir.name_eq_iff (by decide)).symm
    rw [hnamed, hnamed]
    exact h.listed i

end Rules

/-! Directories as bytes. -/

theorem RootEntry.ofBytes_congr {raw raw' : Bytes} (hsame : ∀ p < L.entrySize, raw p = raw' p) :
    (ofBytes raw : RootEntry L) = ofBytes raw' := by
  have hbytes : (ofBytes raw : RootEntry L).byte = (ofBytes raw' : RootEntry L).byte := by
    funext p
    by_cases hp : p < L.entrySize
    · rw [byte_ofBytes _ hp, byte_ofBytes _ hp, hsame p hp]
    · unfold Layout.entrySize at hp
      have hlow : ¬ p < 32 := by omega
      have hflag : p ≠ 32 := by omega
      have htail : ¬ p - 33 < L.tail := by omega
      have hfields : ¬ p < fsFilenameLen ∧ ¬ p < 20 ∧ ¬ p < 22 := by
        unfold fsFilenameLen
        omega
      simp [byte, hlow, hflag, htail, hfields]
  rw [← ofBytes_byte (ofBytes raw), hbytes, ofBytes_byte]

section Bytes

variable {raw : Bytes} {dir : RootDir L} {i : Fin fsFileMaxCount}

theorem entriesOf_block (hblock : ∀ p < blockSize, raw p = dir.toBytes p)
    (hi : OnDisk L i) : entriesOf raw i = dir i := by
  have hentry : (RootEntry.ofBytes (slice raw (L.entrySize * i)) : RootEntry L) =
      RootEntry.ofBytes (dir i).byte := by
    refine RootEntry.ofBytes_congr fun p hp => ?_
    unfold OnDisk at hi
    rw [slice, hblock _ (by omega), dir.toBytes_entry i hp]
  exact hentry.trans (dir i).ofBytes_byte

theorem entriesOf_same {raw' : Bytes} (hblock : ∀ p < blockSize, raw p = raw' p)
    (hi : OnDisk L i) : (entriesOf raw i : RootEntry L) = entriesOf raw' i :=
  RootEntry.ofBytes_congr fun p hp => by
    unfold OnDisk at hi
    exact hblock _ (by omega)

end Bytes

theorem Host.rootEntries_congr {host host' : Host} {path : List UInt8}
    (hsame : host'.image path = host.image path) :
    (host'.rootEntries path : Fin fsFileMaxCount → RootEntry L) = host.rootEntries path := by
  unfold Host.rootEntries Host.block
  rw [hsame]

section Transfers

variable {s : State L N} {path : List UInt8} {fs : FsSystem L} {fat : FatBuffer}
  (h : Attached s path) (hlive : s.fileSystem = .live fs) (hfat : fs.fatBlocks = .live fat)
include h hlive hfat

theorem Attached.place :
    toSizeT fs.sp.rootDirIndex = rootBlockFor ((s.device.host.image path).size / blockSize) := by
  rw [(h.metadata hlive hfat).2, h.blocks]

theorem Attached.flush_rootEntries {i : Fin fsFileMaxCount} (hi : OnDisk L i) :
    (fs.flush (fun _ => .whole) fat s.device).host.rootEntries path i =
      if toSizeT fs.sp.rootDirIndex < s.device.disk.bcount then fs.rootDir i
      else s.device.host.rootEntries path i := by
  have haccepted := h.checked hlive hfat
  have hblock (p : Nat) (hp : p < blockSize) :=
    flush_whole fs fat h.serves (fun _ hi => haccepted.fat_on_disk hi)
      (toSizeT fs.sp.rootDirIndex) hp
  unfold Host.rootEntries
  rw [FsSystem.flush_size, ← h.place hlive hfat]
  split
  · rename_i hroot
    refine entriesOf_block (fun p hp => ?_) hi
    rw [hblock p hp, if_pos ⟨rfl, hroot⟩]
  · rename_i hroot
    have hnotFat : ¬ (fatIndex ≤ toSizeT fs.sp.rootDirIndex ∧
        toSizeT fs.sp.rootDirIndex < fatIndex + fs.sp.fatBlckAmount.toNat) := by
      have hle := haccepted.fat_le
      rw [haccepted.root]
      unfold toSizeT fatIndex
      omega
    refine entriesOf_same (fun p hp => ?_) hi
    rw [hblock p hp, if_neg fun hin => hroot hin.2, if_neg hnotFat]

end Transfers

theorem mounted_rootEntries {req : MountRequest L} {s next : State L N}
    (hwhole : ∀ i, req.io i = .whole) (hmount : fsMount req s = (0, next))
    (hroot : req.rootIndex (req.opened s.device).2 < (req.opened s.device).2.disk.bcount)
    {i : Fin fsFileMaxCount} (hi : OnDisk L i) :
    (req.accepted (req.opened s.device).2).rootDir i =
      next.device.host.rootEntries req.diskname.bytes i := by
  obtain ⟨hloadable, hopened, _⟩ := fsMount_loadable hmount
  have himage := fsMount_image hmount
  have hattached := attached_of_mounted hmount
  have hnext := (fsMount_succeeds hmount).2.2.2
  have hlive : next.fileSystem = .live (req.accepted (req.opened s.device).2) := by rw [hnext]
  refine entriesOf_same (fun p hp => ?_) hi
  rw [rootRead_buffer (hwhole _) hloadable.serves, if_pos ⟨hroot, hp⟩, ← hattached.place hlive rfl]
  unfold Host.block
  rw [hopened, himage]
  rfl

/-- What a process that has been started on `host` keeps to with the file at `path`: the
directory on the disk has aged, and so has the one in memory that may replace it. -/
structure Ages (host : Host) (path : List UInt8) (s : State L N) : Prop where
  anchored : Anchored s
  onDisk : Aged (host.rootEntries path : Fin fsFileMaxCount → RootEntry L)
    (s.device.host.rootEntries path)
  inMemory : ∀ fs fat, s.fileSystem = .live fs → fs.fatBlocks = .live fat →
    s.device.Serves path → toSizeT fs.sp.rootDirIndex < s.device.disk.bcount →
    Aged (host.rootEntries path) fs.rootDir.entry

section Steps

variable {host : Host} {path : List UInt8} {s next : State L N} {ret : Int}

theorem Ages.mount {req : MountRequest L} (h : Ages host path s) (hwhole : ∀ i, req.io i = .whole)
    (hmount : fsMount req s = (ret, next)) : Ages host path next := by
  have hstep : LibFs.step (.fsMount req) s = .ok (ret, next) := congrArg Except.ok hmount
  have hanchored := h.anchored.step hstep
  have hdisk : Aged (host.rootEntries path : Fin fsFileMaxCount → RootEntry L)
      (next.device.host.rootEntries path) := by
    rw [Host.rootEntries_congr (congrFun (fsMount_image hmount) path)]
    exact h.onDisk
  refine ⟨hanchored, hdisk, fun fs fat hlive hfat hserves hroot => ?_⟩
  rcases fsMount_cases hmount with
    ⟨_, _, hnext⟩ | ⟨_, _, _, hnext⟩ | ⟨_, _, _, _, hnext⟩ | ⟨hzero, _, _, _, hnext⟩
  · rw [hnext] at hlive hserves hroot
    exact h.inMemory fs fat hlive hfat hserves hroot
  · cases h.anchored with
    | detached _ hnone =>
        rw [hnext] at hlive
        exact absurd hlive (hnone fs)
    | attached path' hattached =>
        obtain ⟨fd, _, hfd, _⟩ := hattached.serves.1
        have hopen : s.device.disk.fd.isSome := by simp [hfd]
        rw [fsMount_open req hopen, Prod.mk.injEq] at hmount
        rw [← hmount.2] at hlive hserves hroot
        exact h.inMemory fs fat hlive hfat hserves hroot
  · rw [hnext] at hlive
    cases hlive
    simp [MountRequest.rejected] at hfat
  · rw [hzero] at hmount
    have hattached := attached_of_mounted hmount
    have hname : req.diskname.bytes = path := hattached.serves.path_eq hserves
    have hin : req.rootIndex (req.opened s.device).2 < (req.opened s.device).2.disk.bcount := by
      rw [hnext] at hlive hroot
      cases hlive
      rwa [req.rootRead_disk] at hroot
    refine hdisk.congr fun i hi => ?_
    rw [← hname, ← mounted_rootEntries hwhole hmount hin hi]
    rw [hnext] at hlive
    cases hlive
    rfl

theorem Ages.unmount (h : Ages host path s) (hsession : InSession s)
    (hunmount : fsUnmount (fun _ => .whole) s = .ok (ret, next)) : Ages host path next := by
  have hstep : LibFs.step (.fsUnmount fun _ => .whole) s = .ok (ret, next) := hunmount
  have hanchored := h.anchored.step hstep
  obtain ⟨fs, fat, hlive, hfat, hnext⟩ := hsession.flushed hunmount
  refine ⟨hanchored, ?_, fun fs' _ hlive' => ?_⟩
  · have hdir : (next.device.host.rootEntries path : Fin fsFileMaxCount → RootEntry L) =
        (fs.flush (fun _ => .whole) fat s.device).host.rootEntries path := by
      apply Host.rootEntries_congr
      rw [hnext, blockDiskClose_image]
    rw [hdir]
    cases h.anchored with
    | detached _ hnone => exact absurd hlive (hnone fs)
    | attached path' hattached =>
        by_cases hpath : path' = path
        · subst hpath
          by_cases hroot : toSizeT fs.sp.rootDirIndex < s.device.disk.bcount
          · refine (h.inMemory fs fat hlive hfat hattached.serves hroot).congr fun i hi => ?_
            rw [hattached.flush_rootEntries hlive hfat hi, if_pos hroot]
          · refine h.onDisk.congr fun i hi => ?_
            rw [hattached.flush_rootEntries hlive hfat hi, if_neg hroot]
        · have hflush := hattached.flush hlive hfat fun _ => .whole
          rw [Host.rootEntries_congr (hflush.others path (Ne.symm hpath))]
          exact h.onDisk
  · rw [hnext] at hlive'
    cases hlive'

theorem Ages.step {call : Call L} (h : Ages host path s) (hwhole : call.Whole)
    (hmounted : ∀ io, call = .fsUnmount io → InSession s)
    (hstep : step call s = .ok (ret, next)) : Ages host path next := by
  rcases call.kinds with ⟨req, rfl⟩ | ⟨io, rfl⟩ | hsession
  · exact h.mount hwhole (Except.ok.inj hstep)
  · have hio : io = fun _ => .whole := hwhole
    rw [hio] at hstep
    exact h.unmount (hmounted io rfl) hstep
  · obtain ⟨hdevice, hobject⟩ := step_object hsession hstep
    refine ⟨h.anchored.step hstep, by rw [hdevice]; exact h.onDisk, ?_⟩
    intro fs' fat' hlive' hfat' hserves hroot
    obtain ⟨fs, hlive, hsp, hisLive⟩ := hobject fs' hlive'
    obtain ⟨fs'', hlive'', hdescends⟩ := step_descends hlive hsession hstep
    rw [hlive'] at hlive''
    cases hlive''
    obtain ⟨fat, hfat⟩ := Pointer.isLive_iff.mp (hisLive.symm.trans (by simp [hfat']))
    rw [hdevice] at hserves hroot
    rw [hsp] at hroot
    exact (h.inMemory fs fat hlive hfat hserves hroot).trans hdescends.aged

end Steps

/-- Processes one after the other, each started on the files that the one before it left,
that unmount only what is mounted. -/
inductive Processes (L : Layout) (N : Nat) (host : Host) : Host → Prop where
  | none : Processes L N host host
  | next {before start : Host} {s : State L N} {past : List (ApiEvent L N)} :
      Processes L N host before → start.image = before.image →
      ApiRun (State.initial start) past s → (∀ e ∈ past, e.call.Whole) →
      Throughout UnmountsMounted past → Processes L N host s.device.host

end LibFs
