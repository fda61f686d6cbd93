import LibFs.Mounting.Metadata
import LibFs.Mounting.Persistence

/-! An unmount leaves the FAT blocks of its disk as overlapping windows of one buffer, and
such blocks are loaded and stored without a change. So one write-back settles a disk:
until a file is created or deleted, nothing that is done with it changes a byte. -/
namespace LibFs

open LibFs.Foundation

/-- A call that creates and deletes nothing, on a host that moves whole blocks. -/
def Call.Quiet : Call L → Prop
  | .fsMount req => ∀ i, req.io i = .whole
  | .fsUnmount io => io = fun _ => .whole
  | .fsCreate _ _ => False
  | .fsDelete _ _ => False
  | _ => True

theorem Device.Serves.path_eq {d : Device} {path path' : List UInt8} (h : d.Serves path)
    (h' : d.Serves path') : path = path' := by
  obtain ⟨⟨fd, cursor, hdisk, hfds⟩, _⟩ := h
  obtain ⟨⟨fd', cursor', hdisk', hfds'⟩, _⟩ := h'
  rw [hdisk] at hdisk'
  cases hdisk'
  rw [hfds] at hfds'
  cases hfds'
  rfl

section Unmounting

variable {s : State L N} {path : List UInt8} {fs : FsSystem L} {fat : FatBuffer}

theorem Attached.windows (h : Attached s path) (hlive : s.fileSystem = .live fs)
    (hfat : fs.fatBlocks = .live fat) :
    FatWindowsAgree (fs.flush (fun _ => .whole) fat s.device).host path := by
  have haccepted := h.checked hlive hfat
  obtain ⟨hcount, _⟩ := h.metadata hlive hfat
  have hle := haccepted.fat_le
  intro i hi k hlow hk
  rw [FsSystem.flush_size, ← h.blocks, ← hcount] at hi
  have hblock (j p : Nat) (hj : j < fs.sp.fatBlckAmount.toNat) (hp : p < blockSize) :
      (fs.flush (fun _ => .whole) fat s.device).host.block path (fatIndex + j) p =
        fat.bytes (2 * j + p) := by
    have hnotRoot : ¬ (fatIndex + j = toSizeT fs.sp.rootDirIndex ∧
        fatIndex + j < s.device.disk.bcount) := by
      rw [haccepted.root]
      unfold toSizeT fatIndex
      omega
    rw [flush_whole fs fat h.serves (fun _ hi => haccepted.fat_on_disk hi) _ hp, if_neg hnotRoot,
      if_pos (by omega), Nat.add_sub_cancel_left]
  rw [hblock i k (by omega) hk, hblock (i + 1) (k - 2) hi (by omega)]
  congr 1
  omega

end Unmounting

/-- The file at `path` is as it was in `host`, and writing out what is mounted would leave
it so. -/
structure Rests (host : Host) (path : List UInt8) (s : State L N) : Prop where
  anchored : Anchored s
  same : s.device.host.image path = host.image path
  flush : ∀ fs fat, s.fileSystem = .live fs → fs.fatBlocks = .live fat →
    ((fs.flush (fun _ => .whole) fat s.device).host.image path).byte = (host.image path).byte

section Steps

variable {host : Host} {path : List UInt8} {s next : State L N} {ret : Int}

theorem Rests.mount {req : MountRequest L} (h : Rests host path s)
    (hagree : FatWindowsAgree host path) (hwhole : ∀ i, req.io i = .whole)
    (hmount : fsMount req s = (ret, next)) : Rests host path next := by
  have hstep : LibFs.step (.fsMount req) s = .ok (ret, next) := congrArg Except.ok hmount
  have hanchored := h.anchored.step hstep
  have hsame : next.device.host.image path = host.image path := by
    rw [fsMount_image hmount, h.same]
  refine ⟨hanchored, hsame, fun fs fat hlive hfat => ?_⟩
  rcases fsMount_cases hmount with
    ⟨_, _, hnext⟩ | ⟨_, _, hrefused, hnext⟩ | ⟨_, _, _, _, hnext⟩ | ⟨hzero, _, _, _, hnext⟩
  · rw [hnext] at hlive ⊢
    exact h.flush fs fat hlive hfat
  · cases h.anchored with
    | detached _ hnone =>
        rw [hnext] at hlive
        exact absurd hlive (hnone fs)
    | attached path' hattached =>
        obtain ⟨fd, _, hfd, _⟩ := hattached.serves.1
        have hopen : s.device.disk.fd.isSome := by simp [hfd]
        rw [fsMount_open req hopen, Prod.mk.injEq] at hmount
        rw [← hmount.2] at hlive ⊢
        exact h.flush fs fat hlive hfat
  · rw [hnext] at hlive
    cases hlive
    simp [MountRequest.rejected] at hfat
  · rw [hzero] at hmount
    cases hanchored with
    | detached _ hnone => exact absurd hlive (hnone fs)
    | attached path' hattached =>
        by_cases hpath : path = path'
        · subst hpath
          have hserves := (fsMount_loadable hmount).1.serves
          have hname : req.diskname.bytes = path := by
            have hread := req.rootRead_serves hserves
            rw [hnext] at hattached
            exact hread.path_eq hattached.serves
          have hflush := flush_mounted_iff hmount hwhole
          rw [hname] at hflush
          unfold FatWindowsAgree Host.block at hflush hagree
          rw [h.same] at hflush
          rw [hnext] at hlive ⊢
          cases hlive
          cases hfat
          exact hflush.mpr hagree
        · rw [(hattached.flush hlive hfat _).others path hpath, hsame]

theorem Rests.unmount (h : Rests host path s) (hsession : InSession s)
    (hunmount : fsUnmount (fun _ => .whole) s = .ok (ret, next)) : Rests host path next := by
  have hstep : LibFs.step (.fsUnmount fun _ => .whole) s = .ok (ret, next) := hunmount
  have hanchored := h.anchored.step hstep
  obtain ⟨fs, fat, hlive, hfat, hnext⟩ := hsession.flushed hunmount
  have himage : next.device.host.image = (fs.flush (fun _ => .whole) fat s.device).host.image := by
    rw [hnext, blockDiskClose_image]
  refine ⟨hanchored, ?_, fun fs' _ hlive' => ?_⟩
  · rw [himage, Image.mk.injEq]
    have hsize := FsSystem.flush_size (fun _ => .whole) fs fat s.device path
    rw [h.same] at hsize
    exact ⟨hsize, h.flush fs fat hlive hfat⟩
  · rw [hnext] at hlive'
    cases hlive'

theorem step_quiet {call : Call L} (hcall : call.InSession) (hquiet : call.Quiet)
    (hstep : step call s = .ok (ret, next)) :
    next.fileSystem = s.fileSystem ∧ next.device = s.device := by
  cases step_effect hcall hstep with
  | unchanged hnext _ _ =>
      rw [hnext]
      exact ⟨rfl, rfl⟩
  | created hcreate _ _ =>
      rw [hcreate] at hquiet
      exact hquiet.elim
  | deleted hdelete _ _ _ =>
      rw [hdelete] at hquiet
      exact hquiet.elim
  | opened i _ _ _ _ _ _ hnext =>
      rw [hnext]
      exact ⟨rfl, rfl⟩
  | closed i _ _ _ hnext =>
      rw [hnext]
      exact ⟨rfl, rfl⟩
  | sought i _ _ hnext =>
      rw [hnext]
      exact ⟨rfl, rfl⟩

theorem Rests.step {call : Call L} (h : Rests host path s) (hagree : FatWindowsAgree host path)
    (hquiet : call.Quiet) (hmounted : ∀ io, call = .fsUnmount io → InSession s)
    (hstep : step call s = .ok (ret, next)) : Rests host path next := by
  rcases call.kinds with ⟨req, rfl⟩ | ⟨io, rfl⟩ | hsession
  · exact h.mount hagree hquiet (Except.ok.inj hstep)
  · have hwhole : io = fun _ => .whole := hquiet
    rw [hwhole] at hstep
    exact h.unmount (hmounted io rfl) hstep
  · obtain ⟨hfileSystem, hdevice⟩ := step_quiet hsession hquiet hstep
    refine ⟨h.anchored.step hstep, by rw [hdevice, h.same], ?_⟩
    rw [hfileSystem, hdevice]
    exact h.flush

end Steps

/-- Unmounting what is mounted settles its disk: whatever is done after it with whole
transfers, mounts of any disks included, changes no byte of the file as long as nothing is
created or deleted and only what is mounted is unmounted. -/
theorem unmount_settles {host : Host} {s s' s'' : State L N} {ret : Int} {path : List UInt8}
    {past later : List (ApiEvent L N)} (hrun : ApiRun (State.initial host) past s)
    (hmounted : mountedBy past = true) (hserves : s.device.Serves path)
    (hunmount : fsUnmount (fun _ => .whole) s = .ok (ret, s')) (hlater : ApiRun s' later s'')
    (hquiet : ∀ e ∈ later, e.call.Quiet) (hunmounts : Throughout UnmountsMounted later) :
    s''.device.host.image path = s'.device.host.image path := by
  obtain ⟨fs, fat, hlive, hfat, hnext⟩ := (inSession_of_run hrun hmounted).flushed hunmount
  have hagree : FatWindowsAgree s'.device.host path := by
    cases anchored_of_run hrun with
    | detached _ hnone => exact absurd hlive (hnone fs)
    | attached path' hattached =>
        have hpath : path = path' := hserves.path_eq hattached.serves
        have hwindows := hattached.windows hlive hfat
        unfold FatWindowsAgree Host.block at hwindows ⊢
        rw [hnext, blockDiskClose_image, hpath]
        exact hwindows
  have hstart : Rests s'.device.host path s' := by
    have hstep : step (.fsUnmount fun _ => .whole) s = .ok (ret, s') := hunmount
    refine ⟨(anchored_of_run hrun).step hstep, rfl, fun fs' _ hlive' => ?_⟩
    rw [hnext] at hlive'
    cases hlive'
  refine (hlater.invariant (I := fun past s => (mountedBy past = true → InSession s) ∧
      Rests s'.device.host path s) ⟨fun hnone => by simp [mountedBy] at hnone, hstart⟩
    (fun _ _ hinv hcall hstep => ⟨inSession_step hinv.1 hstep, ?_⟩)
    (throughout_and.mpr ⟨(throughout_forall _ later).mpr hquiet, hunmounts⟩)).2.same
  exact hinv.2.step hagree hcall.1 (fun io hunmount => hinv.1 (hcall.2 io hunmount)) hstep

/-- The sample disk, unmounted, mounted once more and unmounted again. -/
theorem unmount_settles_sample : ∃ s s' s'' final : State .packed 32,
    fsMount freshMount freshStart = (0, s) ∧ fsUnmount (fun _ => .whole) s = .ok (0, s') ∧
      fsMount freshMount s' = (0, s'') ∧ fsUnmount (fun _ => .whole) s'' = .ok (0, final) ∧
      final.device.host.image diskD.bytes = s'.device.host.image diskD.bytes := by
  obtain ⟨s, hrun, hmount⟩ := freshMount_run
  have hfrom := mountedFrom_mount rfl hmount
  obtain ⟨s', hunmount, hback⟩ := hfrom.unmount
  have hroot : 0 < toSizeT (freshMount.accepted
      (freshMount.opened freshStart.device).2).sp.rootDirIndex := by decide
  obtain ⟨s'', hremount⟩ := hback.remount_returns hfrom (fun _ => rfl) rfl hroot
    (by rw [(fsMount_succeeds hmount).2.2.2]; decide)
  obtain ⟨final, hagain, _⟩ := fsUnmount_mounted hremount fun _ => .whole
  have hmountStep : step (.fsMount freshMount) s' = .ok (0, s'') := congrArg Except.ok hremount
  have hagainStep : step (.fsUnmount fun _ => .whole) s'' = .ok (0, final) := hagain
  have hsettled := unmount_settles hrun rfl hfrom.serves hunmount
    (.snoc (.snoc .nil hmountStep) hagainStep) (by simp [Call.Quiet, freshMount, mountD])
    (by simp [UnmountsMounted, mountedBy])
  exact ⟨s, s', s'', final, hmount, hunmount, hremount, hagain, hsettled⟩

end LibFs
