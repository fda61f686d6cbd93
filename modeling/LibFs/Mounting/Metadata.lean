import LibFs.Disk.Writes
import LibFs.Mounting.Guard
import LibFs.Mounting.RoundTrip

/-! Which bytes of the host's files a process can ever change. Only `fs_unmount` writes,
and where it writes what is mounted has been fixed by the superblock check against the size
of the file that is open. -/
namespace LibFs

open LibFs.Foundation

/-- The block `sys_error_check` wants the root directory in, as the `size_t` it is written
at. -/
def rootBlockFor (blocks : Nat) : Nat := toSizeT ((toInt blocks * 2).tdiv blockSize + 1)

def MetadataBlock (blocks b : Nat) : Prop :=
  (fatIndex ≤ b ∧ b < fatIndex + fatBlocksFor blocks) ∨ b = rootBlockFor blocks

theorem MetadataBlock.bounds {blocks b : Nat} (hfits : blocks < 2 ^ 31)
    (h : MetadataBlock blocks b) : 0 < b ∧ b ≤ fatBlocksFor blocks + 1 := by
  unfold MetadataBlock rootBlockFor fatBlocksFor toSizeT fatIndex at *
  rw [toInt_eq hfits] at h ⊢
  have hpos : 0 ≤ ((blocks : Int) * 2).tdiv blockSize :=
    Int.tdiv_nonneg (by omega) (by decide)
  have hle : ((blocks : Int) * 2).tdiv blockSize ≤ blocks * 2 :=
    Int.tdiv_le_self _ (by omega)
  generalize ((blocks : Int) * 2).tdiv blockSize = fatBlocks at *
  omega

/-- The open disk is the file at `path`, all of it, and a file system that has its FAT has
passed the superblock check against it. -/
structure Attached (s : State L N) (path : List UInt8) : Prop where
  serves : s.device.Serves path
  size : (s.device.host.image path).size = s.device.disk.bcount * blockSize
  accepted : ∀ fs, s.fileSystem = .live fs → fs.fatBlocks.isLive = true → Accepted fs.sp s.device

inductive Anchored (s : State L N) : Prop where
  | detached : s.device.disk.fd = none → (∀ fs, s.fileSystem ≠ .live fs) → Anchored s
  | attached (path : List UInt8) : Attached s path → Anchored s

theorem anchored_initial (host : Host) : Anchored (State.initial host : State L N) :=
  .detached rfl fun _ h => nomatch h

theorem Accepted.congr {sp : SuperBlock} {d d' : Device} (h : Accepted sp d)
    (hdisk : d'.disk = d.disk) : Accepted sp d' := by
  refine ⟨?_, h.fat, h.data, h.root, h.dataIndex⟩
  have hblocks := h.blocks
  unfold blockDiskCount at hblocks ⊢
  rwa [hdisk]

section Steps

variable {s next : State L N} {ret : Int} {path : List UInt8}

theorem Attached.session {call : Call L} (h : Attached s path) (hcall : call.InSession)
    (hstep : step call s = .ok (ret, next)) : Attached next path := by
  obtain ⟨hdevice, hobject⟩ := step_object hcall hstep
  refine ⟨hdevice ▸ h.serves, hdevice ▸ h.size, fun fs' hlive' hfat' => ?_⟩
  obtain ⟨fs, hlive, hsp, hfat⟩ := hobject fs' hlive'
  rw [hsp, hdevice]
  exact h.accepted fs hlive (hfat ▸ hfat')

theorem attached_of_mounted {req : MountRequest L} (hmount : fsMount req s = (0, next)) :
    Attached next req.diskname.bytes := by
  obtain ⟨_, hopen, hcheck, hnext⟩ := fsMount_succeeds hmount
  obtain ⟨_, hserves, hsize, himage⟩ := req.opened_zero hopen
  rw [hnext]
  refine ⟨req.rootRead_serves hserves, ?_, ?_⟩
  · simpa [himage] using hsize
  · rintro fs hfs _
    cases hfs
    exact (req.check_accepted hcheck).congr (req.rootRead_disk _)

theorem attached_mount {req : MountRequest L} (hclosed : s.device.disk.fd = none)
    (hlive : ∀ fs, s.fileSystem ≠ .live fs) (hmount : fsMount req s = (ret, next)) :
    Anchored next := by
  rcases fsMount_cases hmount with
    ⟨_, _, hnext⟩ | ⟨_, _, hrefused, hnext⟩ | ⟨_, _, hopen, _, hnext⟩ | ⟨hzero, _⟩
  · exact hnext ▸ .detached hclosed hlive
  · rw [hnext]
    refine .detached ?_ hlive
    simp only [(req.opened_refused hrefused).1]
    exact hclosed
  · obtain ⟨_, hserves, hsize, himage⟩ := req.opened_zero hopen
    rw [hnext]
    refine .attached req.diskname.bytes ⟨req.superblock_serves hserves, ?_, ?_⟩
    · simpa [himage] using hsize
    · rintro fs hfs hfat
      cases hfs
      simp [MountRequest.rejected] at hfat
  · rw [hzero] at hmount
    exact .attached req.diskname.bytes (attached_of_mounted hmount)

theorem Anchored.step {call : Call L} (h : Anchored s) (hstep : step call s = .ok (ret, next)) :
    Anchored next := by
  rcases call.kinds with ⟨req, rfl⟩ | ⟨io, rfl⟩ | hsession
  · have hmount : fsMount req s = (ret, next) := Except.ok.inj hstep
    cases h with
    | detached hclosed hlive => exact attached_mount hclosed hlive hmount
    | attached path hattached =>
        obtain ⟨fd, _, hfd, _⟩ := hattached.serves.1
        rw [fsMount_open req (by simp [hfd]), Prod.mk.injEq] at hmount
        exact hmount.2 ▸ .attached path hattached
  · obtain ⟨_, _, _, _, hnext⟩ := fsUnmount_cases hstep
    rw [hnext]
    exact .detached (blockDiskClose_fd _) fun _ hlive => nomatch hlive
  · cases h with
    | detached hclosed hlive =>
        obtain ⟨hdevice, hobject⟩ := step_object hsession hstep
        refine .detached (hdevice ▸ hclosed) fun fs' hlive' => ?_
        obtain ⟨fs, hfs, _⟩ := hobject fs' hlive'
        exact hlive fs hfs
    | attached path hattached => exact .attached path (hattached.session hsession hstep)

end Steps

theorem anchored_of_run {host : Host} {s : State L N} {past : List (ApiEvent L N)}
    (hrun : ApiRun (State.initial host) past s) : Anchored s :=
  hrun.always (I := fun _ s => Anchored s) (anchored_initial host)
    fun _ _ hinv hstep => hinv.step hstep

theorem Attached.blocks {s : State L N} {path : List UInt8} (h : Attached s path) :
    s.device.disk.bcount = (s.device.host.image path).size / blockSize := by
  rw [h.size, Nat.mul_div_cancel _ (by decide)]

/-! Writing an object out to the disk it was checked against. -/

section Flush

variable {s : State L N} {path : List UInt8} {fs : FsSystem L} {fat : FatBuffer}
  (h : Attached s path) (hlive : s.fileSystem = .live fs) (hfat : fs.fatBlocks = .live fat)
include h hlive hfat

theorem Attached.checked : Accepted fs.sp s.device := h.accepted fs hlive (by simp [hfat])

theorem Attached.flush (io : Nat → Transfer) :
    Rewritten path (fs.Stores fat s.device.disk.bcount) s.device (fs.flush io fat s.device) :=
  flush_rewritten io fs fat h.serves fun _ hi => (h.checked hlive hfat).fat_on_disk hi

theorem Attached.metadata : fs.sp.fatBlckAmount.toNat = fatBlocksFor s.device.disk.bcount ∧
    toSizeT fs.sp.rootDirIndex = rootBlockFor s.device.disk.bcount := by
  have haccepted := h.checked hlive hfat
  have hblocks := haccepted.blocks
  rw [h.serves.blockDiskCount] at hblocks
  unfold fatBlocksFor rootBlockFor
  rw [haccepted.root, haccepted.fat, hblocks]
  exact ⟨rfl, rfl⟩

theorem Attached.stores {q : Nat} {byte : UInt8}
    (hstores : fs.Stores fat s.device.disk.bcount q byte) :
    MetadataBlock ((s.device.host.image path).size / blockSize) (q / blockSize) := by
  obtain ⟨hcount, hroot⟩ := h.metadata hlive hfat
  rw [← h.blocks]
  rcases hstores with ⟨i, hi, hq, _⟩ | ⟨_, hq, _⟩
  · refine Or.inl ?_
    rw [inBlock_iff.mp hq]
    omega
  · exact Or.inr ((inBlock_iff.mp hq).trans hroot)

end Flush

theorem InSession.flushed {s next : State L N} {io : Nat → Transfer} {ret : Int} (h : InSession s)
    (hunmount : fsUnmount io s = .ok (ret, next)) :
    ∃ fs fat, s.fileSystem = .live fs ∧ fs.fatBlocks = .live fat ∧
      next = { s with
        fileSystem := .freed, device := (blockDiskClose (fs.flush io fat s.device)).2 } := by
  obtain ⟨fs, fat, hlive, hfat⟩ := h.object
  have heq := (fsUnmount_live hlive hfat).symm.trans hunmount
  simp only [Except.ok.injEq, Prod.mk.injEq] at heq
  exact ⟨fs, fat, hlive, hfat, heq.2.symm⟩

theorem step_files {call : Call L} {s next : State L N} {ret : Int} (h : Anchored s)
    (hmounted : ∀ io, call = .fsUnmount io → InSession s)
    (hstep : step call s = .ok (ret, next)) (path : List UInt8) :
    (next.device.host.image path).size = (s.device.host.image path).size ∧
      ∀ q, ¬ MetadataBlock ((s.device.host.image path).size / blockSize) (q / blockSize) →
        (next.device.host.image path).byte q = (s.device.host.image path).byte q := by
  rcases call.kinds with ⟨req, rfl⟩ | ⟨io, rfl⟩ | hsession
  · have himage := fsMount_image (Except.ok.inj hstep : fsMount req s = (ret, next))
    rw [himage]
    exact ⟨rfl, fun _ _ => rfl⟩
  · obtain ⟨fs, fat, hlive, hfat, hnext⟩ := (hmounted io rfl).flushed hstep
    cases h with
    | detached _ hnone => exact absurd hlive (hnone fs)
    | attached path' hattached =>
        have hflush := hattached.flush hlive hfat io
        rw [hnext]
        simp only [blockDiskClose_image]
        by_cases hpath : path = path'
        · subst hpath
          refine ⟨hflush.size, fun q hq => ?_⟩
          rcases hflush.bytes q with hsame | hstores
          · exact hsame
          · exact absurd (hattached.stores hlive hfat hstores) hq
        · rw [hflush.others path hpath]
          exact ⟨rfl, fun _ _ => rfl⟩
  · rw [(step_object hsession hstep).1]
    exact ⟨rfl, fun _ _ => rfl⟩

structure KeepsData (host : Host) (path : List UInt8) (s : State L N) : Prop where
  size : (s.device.host.image path).size = (host.image path).size
  bytes : ∀ q, ¬ MetadataBlock ((host.image path).size / blockSize) (q / blockSize) →
    (s.device.host.image path).byte q = (host.image path).byte q

/-- `fs_unmount` is called only while a file system is mounted. -/
def UnmountsMounted (past : List (ApiEvent L N)) (e : ApiEvent L N) : Prop :=
  ∀ io, e.call = .fsUnmount io → mountedBy past = true

section Kept

variable {host : Host} {path : List UInt8} {s next : State L N}

theorem keepsData_initial : KeepsData host path (State.initial host : State L N) :=
  ⟨rfl, fun _ _ => rfl⟩

theorem KeepsData.step {call : Call L} {ret : Int} (h : KeepsData host path s)
    (hanchored : Anchored s) (hmounted : ∀ io, call = .fsUnmount io → InSession s)
    (hstep : step call s = .ok (ret, next)) : KeepsData host path next := by
  obtain ⟨hsize, hbytes⟩ := step_files hanchored hmounted hstep path
  rw [h.size] at hbytes
  exact ⟨hsize.trans h.size, fun q hq => (hbytes q hq).trans (h.bytes q hq)⟩

theorem keepsData_of_run {past : List (ApiEvent L N)} (hrun : ApiRun (State.initial host) past s)
    (hmounted : Throughout UnmountsMounted past) (path : List UInt8) : KeepsData host path s := by
  refine (hrun.invariant (I := fun past s => (mountedBy past = true → InSession s) ∧
      Anchored s ∧ KeepsData host path s)
    ⟨fun hnone => by simp [mountedBy] at hnone, anchored_initial host, keepsData_initial⟩
    (fun past event hinv hunmounts hstep => ?_) hmounted).2.2
  obtain ⟨hsession, hanchored, hkept⟩ := hinv
  exact ⟨inSession_step hsession hstep, hanchored.step hstep,
    hkept.step hanchored (fun io hcall => hsession (hunmounts io hcall)) hstep⟩

variable (h : KeepsData host path s)
include h

theorem KeepsData.block {b : Nat} (hb : ¬ MetadataBlock ((host.image path).size / blockSize) b)
    {p : Nat} (hp : p < blockSize) : s.device.host.block path b p = host.block path b p := by
  refine h.bytes _ ?_
  rwa [inBlock_iff.mp (by unfold InBlock; omega : InBlock b (b * blockSize + p))]

theorem KeepsData.outside (hfits : (host.image path).size / blockSize < 2 ^ 31) {b : Nat}
    (hb : b = superblockIndex ∨ fatBlocksFor ((host.image path).size / blockSize) + 1 < b)
    {p : Nat} (hp : p < blockSize) : s.device.host.block path b p = host.block path b p := by
  refine h.block (fun hmeta => ?_) hp
  have hbounds := hmeta.bounds hfits
  unfold superblockIndex at hb
  omega

end Kept

/-- In every run of a process that unmounts only what is mounted, with any outcomes of the
host's operations, every file keeps its size and all its bytes but those of its FAT blocks
and of its root block; where the block count fits into an `int`, the superblock and all data
blocks are never written. -/
theorem only_metadata_written {host : Host} {s : State L N} {past : List (ApiEvent L N)}
    (hrun : ApiRun (State.initial host) past s) (hmounted : Throughout UnmountsMounted past)
    (path : List UInt8) :
    (s.device.host.image path).size = (host.image path).size ∧
      (∀ b, ¬ MetadataBlock ((host.image path).size / blockSize) b →
        ∀ p < blockSize, s.device.host.block path b p = host.block path b p) ∧
      ((host.image path).size / blockSize < 2 ^ 31 →
        ∀ b, b = superblockIndex ∨ fatBlocksFor ((host.image path).size / blockSize) + 1 < b →
          ∀ p < blockSize, s.device.host.block path b p = host.block path b p) := by
  have hkept := keepsData_of_run hrun hmounted path
  exact ⟨hkept.size, fun b hb p hp => hkept.block hb hp,
    fun hfits b hb p hp => hkept.outside hfits hb hp⟩

theorem freshMount_run : ∃ s, ApiRun freshStart [⟨freshStart, .fsMount freshMount, 0, s⟩] s ∧
    fsMount freshMount freshStart = (0, s) := by
  obtain ⟨s, hmount⟩ := freshMount_returns
  have hstep : step (.fsMount freshMount) freshStart = .ok (0, s) := congrArg Except.ok hmount
  exact ⟨s, .snoc .nil hstep, hmount⟩

theorem only_metadata_written_sample : ∃ s s' : State .packed 32,
    fsMount freshMount freshStart = (0, s) ∧ fsUnmount (fun _ => .whole) s = .ok (0, s') ∧
      ∀ b, b = superblockIndex ∨ 1 < b → ∀ p < blockSize,
        s'.device.host.block diskD.bytes b p = freshStart.device.host.block diskD.bytes b p := by
  obtain ⟨s, hrun, hmount⟩ := freshMount_run
  obtain ⟨s', hunmount, _⟩ := fsUnmount_mounted hmount fun _ => .whole
  have hstep : step (.fsUnmount fun _ => .whole) s = .ok (0, s') := hunmount
  have hboth : ApiRun (State.initial (sampleHost 4 0 fun _ => 0)) [⟨s, _, 0, s'⟩, _] s' :=
    hrun.snoc hstep
  have hmounted : Throughout UnmountsMounted
      [⟨s, .fsUnmount fun _ => .whole, 0, s'⟩, ⟨freshStart, .fsMount freshMount, 0, s⟩] :=
    by simp [UnmountsMounted, mountedBy]
  have hkept := (only_metadata_written hboth hmounted diskD.bytes).2.2
  have hblocks : ((sampleHost 4 0 fun _ => 0).image diskD.bytes).size / blockSize = 4 := rfl
  have hfat : fatBlocksFor 4 = 0 := by decide
  rw [hblocks, hfat] at hkept
  exact ⟨s, s', hmount, hunmount, hkept (by decide)⟩

/-! A write-back that the host cuts short. -/

section Torn

variable {s : State L N} {path : List UInt8} {fs : FsSystem L} {fat : FatBuffer}
  (h : Attached s path) (hlive : s.fileSystem = .live fs) (hfat : fs.fatBlocks = .live fat)
include h hlive hfat

theorem Attached.whole {q : Nat} {byte : UInt8}
    (hstores : fs.Stores fat s.device.disk.bcount q byte) :
    byte = ((fs.flush (fun _ => .whole) fat s.device).host.image path).byte q := by
  have haccepted := h.checked hlive hfat
  have hflush := flush_whole fs fat h.serves (fun _ hi => haccepted.fat_on_disk hi) (q / blockSize)
    (Nat.mod_lt q (by decide : 0 < blockSize))
  have hq : q / blockSize * blockSize + q % blockSize = q := Nat.div_add_mod' q blockSize
  have hmod : q % blockSize = q - q / blockSize * blockSize := by omega
  simp only [Host.block, slice, hq] at hflush
  rw [hflush, hmod]
  rcases hstores with ⟨i, hi, hin, hbyte⟩ | ⟨hroot, hin, hbyte⟩
  · have hnotRoot : ¬ (q / blockSize = toSizeT fs.sp.rootDirIndex ∧
        q / blockSize < s.device.disk.bcount) := by
      have hle := haccepted.fat_le
      rw [inBlock_iff.mp hin, haccepted.root]
      unfold toSizeT fatIndex
      omega
    rw [if_neg hnotRoot, inBlock_iff.mp hin, if_pos (by omega), Nat.add_sub_cancel_left]
    exact hbyte
  · rw [inBlock_iff.mp hin, if_pos ⟨rfl, hroot⟩]
    exact hbyte

end Torn

theorem Attached.torn {s : State L N} {path : List UInt8} {fs : FsSystem L} (h : Attached s path)
    (hlive : s.fileSystem = .live fs) (io : Nat → Transfer) (other : List UInt8) (q : Nat) :
    ((fs.writeBack io s.device).host.image other).byte q =
        (s.device.host.image other).byte q ∨
      ((fs.writeBack io s.device).host.image other).byte q =
        ((fs.writeBack (fun _ => .whole) s.device).host.image other).byte q := by
  cases hisLive : fs.fatBlocks.isLive with
  | true =>
      obtain ⟨fat, hfat⟩ := Pointer.isLive_iff.mp hisLive
      rw [FsSystem.writeBack_live io _ hfat, FsSystem.writeBack_live _ _ hfat]
      have hflush := h.flush hlive hfat io
      by_cases hpath : other = path
      · subst hpath
        exact (hflush.bytes q).imp_right (h.whole hlive hfat)
      · exact Or.inl (by rw [hflush.others other hpath])
  | false =>
      have hroot := writeBack_unallocated hisLive h.serves io
      by_cases hpath : other = path
      · subst hpath
        exact (hroot.bytes q).imp_right fun hstores =>
          (writeBack_unallocated_whole hisLive h.serves hstores).symm
      · exact Or.inl (by rw [hroot.others other hpath])

/-- In every reachable state an `fs_unmount` that returns returns 0, whatever becomes of its
writes, and leaves each byte of each file as it was or as an unmount whose writes all
succeed would have left it. -/
theorem unmount_old_or_new {host : Host} {s next : State L N} {past : List (ApiEvent L N)}
    {io : Nat → Transfer} {ret : Int} (hrun : ApiRun (State.initial host) past s)
    (hunmount : fsUnmount io s = .ok (ret, next)) :
    ret = 0 ∧ ∃ whole, fsUnmount (fun _ => .whole) s = .ok (0, whole) ∧ ∀ path q,
      (next.device.host.image path).byte q = (s.device.host.image path).byte q ∨
        (next.device.host.image path).byte q = (whole.device.host.image path).byte q := by
  obtain ⟨fs, hlive, hfat, _, _⟩ := fsUnmount_cases hunmount
  cases anchored_of_run hrun with
  | detached _ hnone => exact absurd hlive (hnone fs)
  | attached path' h =>
      obtain ⟨fd, _, hfd, _⟩ := h.serves.1
      have hopen : s.device.disk.fd.isSome := by simp [hfd]
      obtain ⟨after, hreturns, _, hafter⟩ := fsUnmount_open io hlive hfat hopen
      obtain ⟨whole, hwhole, _, himage⟩ := fsUnmount_open (fun _ => .whole) hlive hfat hopen
      have heq := hreturns.symm.trans hunmount
      simp only [Except.ok.injEq, Prod.mk.injEq] at heq
      obtain ⟨hret, rfl⟩ := heq
      refine ⟨hret.symm, whole, hwhole, fun path q => ?_⟩
      rw [himage, hafter]
      exact h.torn hlive io path q

/-- Every write fails. -/
theorem unmount_old_or_new_failing : ∃ s s' whole : State .packed 32,
    fsUnmount (fun _ => ⟨true, none⟩) s = .ok (0, s') ∧
      fsUnmount (fun _ => .whole) s = .ok (0, whole) ∧ ∀ path q,
        (s'.device.host.image path).byte q = (s.device.host.image path).byte q ∨
          (s'.device.host.image path).byte q = (whole.device.host.image path).byte q := by
  obtain ⟨s, hrun, hmount⟩ := freshMount_run
  obtain ⟨s', hunmount, _⟩ := fsUnmount_mounted hmount fun _ => ⟨true, none⟩
  obtain ⟨_, whole, hwhole, hbytes⟩ := unmount_old_or_new hrun hunmount
  exact ⟨s, s', whole, hunmount, hwhole, hbytes⟩

end LibFs
