import LibFs.Mounting.Failure
import LibFs.Mounting.Metadata

/-! The order in which disks are opened and closed. An open disk refuses every mount, a mount
that has opened one keeps it open even when the superblock check refuses it, and only
`fs_unmount` closes it. -/
namespace LibFs

open LibFs.Foundation

def LeavesOpen : List (ApiEvent L N) → Prop
  | [] => False
  | e :: past =>
      match e.call with
      | .fsMount _ => OpensDisk e ∨ LeavesOpen past
      | .fsUnmount _ => False
      | _ => LeavesOpen past

/-- A mount opens a disk only when none is open, and an unmount returns only when one is;
it then returns 0. -/
structure InTurn (past : List (ApiEvent L N)) (e : ApiEvent L N) : Prop where
  opens : OpensDisk e → ¬ LeavesOpen past
  mounts : ∀ req, e.call = .fsMount req → e.ret = 0 → OpensDisk e
  unmounts : ∀ io, e.call = .fsUnmount io → LeavesOpen past ∧ e.ret = 0

structure HistoryTells (past : List (ApiEvent L N)) (s : State L N) : Prop where
  diskOpen : LeavesOpen past ↔ s.device.disk.fd.isSome
  object : s.device.disk.fd = none → ∀ fs, s.fileSystem ≠ .live fs

section Steps

variable {past : List (ApiEvent L N)} {e : ApiEvent L N}

theorem leavesOpen_mount {req : MountRequest L} (hcall : e.call = .fsMount req) :
    LeavesOpen (e :: past) ↔ OpensDisk e ∨ LeavesOpen past := by
  rw [LeavesOpen, hcall]

theorem leavesOpen_unmount {io : Nat → Transfer} (hcall : e.call = .fsUnmount io) :
    ¬ LeavesOpen (e :: past) := by
  rw [LeavesOpen, hcall]
  exact id

theorem leavesOpen_session (hcall : e.call.InSession) :
    LeavesOpen (e :: past) ↔ LeavesOpen past := by
  obtain ⟨before, call, ret, after⟩ := e
  cases call <;> simp only [Call.InSession] at hcall <;> rfl

theorem not_opensDisk (hcall : ∀ req, e.call ≠ .fsMount req) : ¬ OpensDisk e :=
  fun ⟨req, hmount, _⟩ => hcall req hmount

theorem inTurn_mount {req : MountRequest L} (hcall : e.call = .fsMount req)
    (hinv : HistoryTells past e.before) (hmount : fsMount req e.before = (e.ret, e.after)) :
    HistoryTells (e :: past) e.after ∧ InTurn past e := by
  have hhistory : LeavesOpen (e :: past) ↔ OpensDisk e ∨ LeavesOpen past :=
    leavesOpen_mount hcall
  cases hdisk : e.before.device.disk.fd with
  | some fd =>
      have hbefore : e.before.device.disk.fd.isSome := by simp [hdisk]
      have hpast := hinv.diskOpen.mpr hbefore
      rw [fsMount_open req hbefore, Prod.mk.injEq] at hmount
      obtain ⟨hret, hafter⟩ := hmount
      refine ⟨hafter ▸ ⟨iff_of_true (hhistory.mpr (.inr hpast)) hbefore, hinv.object⟩,
        fun hopens => ?_, fun _ _ hzero => ?_, fun io hunmount => ?_⟩
      · obtain ⟨_, _, hclosed, _⟩ := hopens
        simp [hdisk] at hclosed
      · omega
      · simp [hcall] at hunmount
  | none =>
      have hpast : ¬ LeavesOpen past := by simp [hinv.diskOpen, hdisk]
      have hopens : OpensDisk e ↔ e.after.device.disk.fd.isSome :=
        ⟨fun ⟨_, _, _, hafter⟩ => hafter, fun hafter => ⟨req, hcall, hdisk, hafter⟩⟩
      refine ⟨⟨?_, fun hclosed => ?_⟩, fun _ => hpast, fun _ _ hzero => ?_, fun io hunmount => ?_⟩
      · rw [hhistory, hopens]
        exact or_iff_left hpast
      · have hkeeps : ¬ OpensDisk e := by simp [hopens, hclosed]
        rw [object_of_mount hcall hkeeps hmount]
        exact hinv.object hdisk
      · rw [hzero] at hmount
        exact hopens.mpr (inSession_of_mount hmount).diskOpen
      · simp [hcall] at hunmount

theorem inTurn_unmount {io : Nat → Transfer} (hcall : e.call = .fsUnmount io)
    (hinv : HistoryTells past e.before) (hstep : fsUnmount io e.before = .ok (e.ret, e.after)) :
    HistoryTells (e :: past) e.after ∧ InTurn past e := by
  obtain ⟨fs, hlive, hfat, _, hafter⟩ := fsUnmount_cases hstep
  have hopen : e.before.device.disk.fd.isSome :=
    Option.isSome_iff_ne_none.mpr fun hclosed => hinv.object hclosed fs hlive
  obtain ⟨_, hreturns, _⟩ := fsUnmount_open io hlive hfat hopen
  have heq := hreturns.symm.trans hstep
  simp only [Except.ok.injEq, Prod.mk.injEq] at heq
  have hclosed : e.after.device.disk.fd = none := by
    rw [hafter]
    exact blockDiskClose_fd _
  refine ⟨⟨iff_of_false (leavesOpen_unmount hcall) (by simp [hclosed]), fun _ fs' => ?_⟩,
    fun hopens => absurd hopens (not_opensDisk (by simp [hcall])), fun req hmount => ?_,
    fun _ _ => ⟨hinv.diskOpen.mpr hopen, heq.1.symm⟩⟩
  · simp [hafter]
  · simp [hcall] at hmount

theorem inTurn_session (hcall : e.call.InSession) (hinv : HistoryTells past e.before)
    (hstep : step e.call e.before = .ok (e.ret, e.after)) :
    HistoryTells (e :: past) e.after ∧ InTurn past e := by
  obtain ⟨hdevice, hobject⟩ := step_object hcall hstep
  have hmounts (req : MountRequest L) : e.call ≠ .fsMount req := by
    intro h
    simp [h, Call.InSession] at hcall
  have hunmounts (io : Nat → Transfer) : e.call ≠ .fsUnmount io := by
    intro h
    simp [h, Call.InSession] at hcall
  refine ⟨⟨?_, fun hclosed fs' hlive' => ?_⟩,
    fun hopens => absurd hopens (not_opensDisk hmounts), fun req h => absurd h (hmounts req),
    fun io h => absurd h (hunmounts io)⟩
  · rw [leavesOpen_session hcall, hdevice]
    exact hinv.diskOpen
  · obtain ⟨fs, hlive, _⟩ := hobject fs' hlive'
    exact hinv.object (hdevice ▸ hclosed) fs hlive

theorem inTurn_step (hinv : HistoryTells past e.before)
    (hstep : step e.call e.before = .ok (e.ret, e.after)) :
    HistoryTells (e :: past) e.after ∧ InTurn past e := by
  rcases e.call.kinds with ⟨req, hmount⟩ | ⟨io, hunmount⟩ | hsession
  · rw [hmount] at hstep
    exact inTurn_mount hmount hinv (Except.ok.inj hstep)
  · rw [hunmount] at hstep
    exact inTurn_unmount hunmount hinv hstep
  · exact inTurn_session hsession hinv hstep

end Steps

theorem historyTells_initial (host : Host) : HistoryTells [] (State.initial host : State L N) :=
  ⟨by simp [LeavesOpen, State.initial], fun _ _ => by simp [State.initial]⟩

/-- In every run of a process the mounts that open a disk, accepted or not, and the unmounts
take turns, beginning with a mount; a mount that succeeds is one of these, and `fs_unmount`
never returns -1. -/
theorem mounts_in_turn {host : Host} {s : State L N} {past : List (ApiEvent L N)}
    (hrun : ApiRun (State.initial host) past s) : Throughout InTurn past :=
  (hrun.always_good (I := HistoryTells) (historyTells_initial host)
    fun _ _ hinv hstep => inTurn_step hinv hstep).2

theorem mounts_in_turn_mounted : ∃ s s', fsMount freshMount freshStart = (0, s) ∧
    fsUnmount (fun _ => .whole) s = .ok (0, s') ∧ Throughout InTurn
      [⟨s, .fsUnmount fun _ => .whole, 0, s'⟩, ⟨freshStart, .fsMount freshMount, 0, s⟩] := by
  obtain ⟨s, hrun, hmount⟩ := freshMount_run
  obtain ⟨s', hunmount, _⟩ := fsUnmount_mounted hmount fun _ => .whole
  have hstep : step (.fsUnmount fun _ => .whole) s = .ok (0, s') := hunmount
  have hboth : ApiRun (State.initial (sampleHost 4 0 fun _ => 0)) [⟨s, _, 0, s'⟩, _] s' :=
    hrun.snoc hstep
  exact ⟨s, s', hmount, hunmount, mounts_in_turn hboth⟩

/-! `fs_info` prints a number as a string once there is an object. -/

section Info

variable {past : List (ApiEvent L N)} {e : ApiEvent L N}

theorem isNull_step
    (hinv : e.before.fileSystem.isNull = true ↔ ∀ e' ∈ past, ¬ OpensDisk e')
    (hstep : step e.call e.before = .ok (e.ret, e.after)) :
    e.after.fileSystem.isNull = true ↔ ∀ e' ∈ e :: past, ¬ OpensDisk e' := by
  rw [List.forall_mem_cons, ← hinv]
  by_cases hopens : OpensDisk e
  · obtain ⟨fs, hlive⟩ := object_of_opensDisk hopens hstep
    exact iff_of_false (by simp [hlive]) fun hnone => hnone.1 hopens
  · cases objectFate hstep with
    | opens h => exact absurd h hopens
    | same hsame => simp [hsame, hopens]
    | freed hlive hafter => simp [hafter, hlive]
    | created _ hlive hafter => simp [hafter, hlive]
    | deleted _ hlive hafter => simp [hafter, hlive]

theorem fsInfo_iff {s : State L N} {ret : Int} :
    fsInfo s = .ok ret ↔ ret = -1 ∧ s.fileSystem.isNull = true := by
  cases hpointer : s.fileSystem <;> simp [fsInfo, hpointer, eq_comm]

end Info

/-- In every run of a process `fs_info` returns as long as no mount has opened a disk, and
then -1: it never succeeds. -/
theorem info_returns_iff {host : Host} {s : State L N} {past : List (ApiEvent L N)}
    (hrun : ApiRun (State.initial host) past s) (ret : Int) :
    fsInfo s = .ok ret ↔ ret = -1 ∧ ∀ e ∈ past, ¬ OpensDisk e := by
  have hnull := hrun.always
    (I := fun past s => s.fileSystem.isNull = true ↔ ∀ e ∈ past, ¬ OpensDisk e)
    (by simp [State.initial]) fun _ _ => isNull_step
  rw [fsInfo_iff, hnull]

theorem info_returns_iff_mounted : ∃ s, fsMount freshMount freshStart = (0, s) ∧
    (fsInfo freshStart = .ok (-1) ↔ -1 = (-1 : Int) ∧
      ∀ e ∈ ([] : List (ApiEvent .packed 32)), ¬ OpensDisk e) ∧
      (fsInfo s = .ok 0 ↔ 0 = (-1 : Int) ∧
        ∀ e ∈ [(⟨freshStart, .fsMount freshMount, 0, s⟩ : ApiEvent .packed 32)],
          ¬ OpensDisk e) := by
  obtain ⟨s, hrun, hmount⟩ := freshMount_run
  exact ⟨s, hmount, info_returns_iff .nil (-1), info_returns_iff hrun 0⟩

/-! After a mount that the superblock check refuses. -/

structure Stuck (sp : SuperBlock) (fatBlocks : Pointer FatBuffer) (d : Device) (s : State L N) :
    Prop where
  object : ∃ fs, s.fileSystem = .live fs ∧ fs.sp = sp ∧ fs.fatBlocks = fatBlocks
  device : s.device = d

theorem stuck_of_rejected {req : MountRequest L} {s next : State L N} {ret : Int}
    (hmount : fsMount req s = (ret, next)) (hret : ret ≠ 0) (hclosed : s.device.disk.fd = none)
    (hopened : next.device.disk.fd.isSome) :
    Stuck (req.sp (req.opened s.device).2) req.fresh.fatBlocks.stale next.device next ∧
      next.device.Serves req.diskname.bytes := by
  rcases fsMount_cases hmount with
    ⟨_, _, hnext⟩ | ⟨_, _, hrefused, hnext⟩ | ⟨_, _, hopen, _, hnext⟩ | ⟨hzero, _⟩
  · simp [hnext, hclosed] at hopened
  · simp [hnext, (req.opened_refused hrefused).1, hclosed] at hopened
  · rw [hnext]
    exact ⟨⟨⟨_, rfl, rfl, rfl⟩, rfl⟩, req.superblock_serves (req.opened_zero hopen).2.1⟩
  · exact absurd hzero hret

structure Idles (e : ApiEvent L N) : Prop where
  mounts : ∀ req, e.call = .fsMount req → e.ret = -1 ∧ e.after = e.before
  device : e.after.device = e.before.device

/-- What an unmount may do to the files then: it writes the block the superblock names. -/
structure RootOnly (path : List UInt8) (sp : SuperBlock) (d d' : Device) : Prop where
  sizes : ∀ other, (d'.host.image other).size = (d.host.image other).size
  bytes : ∀ other q, (other = path → q / blockSize ≠ toSizeT sp.rootDirIndex) →
    (d'.host.image other).byte q = (d.host.image other).byte q

section Rejected

variable {sp : SuperBlock} {fatBlocks : Pointer FatBuffer} {d : Device} {s : State L N}
  {path : List UInt8}

theorem Stuck.step {e : ApiEvent L N} (h : Stuck sp fatBlocks d e.before)
    (hfat : fatBlocks.isLive = false) (hopen : d.disk.fd.isSome)
    (hcall : ∀ io, e.call ≠ .fsUnmount io)
    (hstep : step e.call e.before = .ok (e.ret, e.after)) :
    Stuck sp fatBlocks d e.after ∧ Idles e := by
  obtain ⟨⟨fs, hlive, hsp, hfatBlocks⟩, hdevice⟩ := h
  rcases e.call.kinds with ⟨req, hmount⟩ | ⟨io, hunmount⟩ | hsession
  · rw [hmount] at hstep
    have hrefused : fsMount req e.before = (e.ret, e.after) := Except.ok.inj hstep
    rw [fsMount_open req (hdevice ▸ hopen), Prod.mk.injEq] at hrefused
    obtain ⟨hret, hafter⟩ := hrefused
    rw [← hafter]
    exact ⟨⟨⟨fs, hlive, hsp, hfatBlocks⟩, hdevice⟩,
      fun _ _ => ⟨hret.symm, hafter.symm⟩, by rw [hafter]⟩
  · exact absurd hunmount (hcall io)
  · obtain ⟨fs', hlive', hsp', hfatBlocks'⟩ :=
      step_unallocated hlive (hfatBlocks ▸ hfat) hsession hstep
    have hsame := (step_object hsession hstep).1
    refine ⟨⟨⟨fs', hlive', hsp'.trans hsp, hfatBlocks'.trans hfatBlocks⟩, hsame.trans hdevice⟩,
      fun req hmount => ?_, hsame⟩
    simp [hmount, Call.InSession] at hsession

theorem Stuck.unmount_returns (h : Stuck sp fatBlocks d s) (hfat : fatBlocks.isLive = false)
    (io : Nat → Transfer) : (∃ out, fsUnmount io s = .ok out) ↔ fatBlocks = .null := by
  obtain ⟨⟨fs, hlive, _, rfl⟩, _⟩ := h
  cases hpointer : fs.fatBlocks with
  | null => exact iff_of_true ⟨_, fsUnmount_returns io hlive (by simp [hpointer])⟩ rfl
  | live fat => simp [hpointer] at hfat
  | freed =>
      refine iff_of_false (fun ⟨out, hreturns⟩ => ?_) nofun
      obtain ⟨_, hlive', hfreed, _⟩ := fsUnmount_cases hreturns
      rw [hlive] at hlive'
      cases hlive'
      exact hfreed hpointer

theorem Stuck.unmount (h : Stuck sp fatBlocks d s) (hfat : fatBlocks.isLive = false)
    (hserves : d.Serves path) {io : Nat → Transfer} {ret : Int} {next : State L N}
    (hunmount : fsUnmount io s = .ok (ret, next)) :
    ret = 0 ∧ next.device.disk.fd = none ∧ RootOnly path sp d next.device := by
  obtain ⟨⟨fs, hlive, rfl, rfl⟩, rfl⟩ := h
  obtain ⟨fs', hlive', hnotFreed, _⟩ := fsUnmount_cases hunmount
  rw [hlive] at hlive'
  cases hlive'
  obtain ⟨fd, _, hfd, _⟩ := hserves.1
  obtain ⟨after, hreturns, hdisk, himage⟩ :=
    fsUnmount_open io hlive hnotFreed (by simp [hfd])
  have heq := hreturns.symm.trans hunmount
  simp only [Except.ok.injEq, Prod.mk.injEq] at heq
  obtain ⟨rfl, rfl⟩ := heq
  have hroot := writeBack_unallocated hfat hserves io
  refine ⟨rfl, by rw [hdisk], ⟨fun other => ?_, fun other q hother => ?_⟩⟩
  · rw [himage]
    by_cases hpath : other = path
    · rw [hpath, hroot.size]
    · rw [hroot.others other hpath]
  · rw [himage]
    by_cases hpath : other = path
    · subst hpath
      refine (hroot.bytes q).resolve_right fun ⟨_, hin, _⟩ => ?_
      exact hother rfl (inBlock_iff.mp hin)
    · rw [hroot.others other hpath]

end Rejected

end LibFs
