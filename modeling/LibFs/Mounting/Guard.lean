import LibFs.Model.Effects

/-! The pointer as the sign that a file system is mounted. Four calls test it
before anything else; `fs_unmount`, `fs_delete` and `fs_ls` dereference it at once,
`fs_lseek` takes a refused descriptor for a good one, `fs_unmount` leaves it
dangling and a mount refused by the superblock check leaves it set. -/
namespace LibFs

open LibFs.Foundation

def mountedBy : List (ApiEvent L N) → Bool
  | [] => false
  | e :: past =>
      match e.call with
      | .fsMount _ => if e.ret = 0 then true else mountedBy past
      | .fsUnmount _ => if e.ret = 0 then false else mountedBy past
      | _ => mountedBy past

def Call.TestsPointer : Call L → Prop
  | .fsCreate _ _ => True
  | .fsOpen _ _ => True
  | .fsClose _ => True
  | .fsStat _ => True
  | _ => False

def NotRejected (req : MountRequest L) (s : State L N) : Prop :=
  req.nameRefused = true ∨ (req.opened s.device).1 ≠ 0 ∨ req.check (req.opened s.device).2 = 0

/-- No unmount, no mount refused by the superblock check, and the calls that do not
test the pointer only while a file system is mounted. -/
structure GuardedCall (past : List (ApiEvent L N)) (e : ApiEvent L N) : Prop where
  mounts : ∀ req, e.call = .fsMount req → NotRejected req e.before
  unmounts : ∀ io, e.call ≠ .fsUnmount io
  uses : e.call.InSession → mountedBy past = true ∨ e.call.TestsPointer

def GuardSound (past : List (ApiEvent L N)) (e : ApiEvent L N) : Prop :=
  (e.after.fileSystem.isNull = true ↔ mountedBy (e :: past) = false) ∧
    (mountedBy past = false → (∀ req, e.call ≠ .fsMount req) → e.ret = -1 ∧ e.after = e.before)

/-- A file system is mounted, with its object, its FAT and its disk. -/
structure InSession (s : State L N) : Prop where
  object : ∃ fs fat, s.fileSystem = .live fs ∧ fs.fatBlocks = .live fat
  diskOpen : s.device.disk.fd.isSome

inductive PointerTells (past : List (ApiEvent L N)) (s : State L N) : Prop where
  | unmounted : mountedBy past = false → s.fileSystem = .null → PointerTells past s
  | mounted : mountedBy past = true → InSession s → PointerTells past s

section Calls

variable {s next : State L N} {ret : Int} {call : Call L}

theorem inSession_of_mount {req : MountRequest L} (h : fsMount req s = (0, next)) :
    InSession next := by
  obtain ⟨_, hopen, _, rfl⟩ := fsMount_succeeds h
  obtain ⟨_, hserves, _, _⟩ := req.opened_zero hopen
  obtain ⟨fd, _, hfd, _⟩ := hserves.1
  exact ⟨⟨_, _, rfl, rfl⟩, by simp [hfd]⟩

theorem InSession.step (h : InSession s) (hcall : call.InSession)
    (hstep : step call s = .ok (ret, next)) : InSession next := by
  obtain ⟨fs, fat, hlive, hfat⟩ := h.object
  obtain ⟨hdevice, dir, fat', hnext⟩ := step_session hlive hfat hcall hstep
  exact ⟨⟨_, fat', hnext, rfl⟩, hdevice ▸ h.diskOpen⟩

theorem InSession.unmount {io : Nat → Transfer} (h : InSession s)
    (hstep : fsUnmount io s = .ok (ret, next)) :
    ret = 0 ∧ next.fileSystem = .freed ∧ next.device.disk.fd = none := by
  obtain ⟨fs, fat, hlive, hfat⟩ := h.object
  obtain ⟨after, hreturns, hdisk, _⟩ := fsUnmount_succeeds io hlive hfat h.diskOpen
  have heq := hreturns.symm.trans hstep
  obtain ⟨_, _, _, _, hafter⟩ := fsUnmount_cases hstep
  simp only [Except.ok.injEq, Prod.mk.injEq] at heq
  refine ⟨heq.1.symm, by rw [hafter], ?_⟩
  rw [← heq.2, hdisk]

theorem step_null_iff (hnull : s.fileSystem = .null) (hcall : ∀ req, call ≠ .fsMount req) :
    step call s = .ok (-1, s) ↔ call.TestsPointer := by
  have hinvalid (fd : Int) : isValidFD fd s = false := by simp [isValidFD, hnull]
  cases call with
  | fsMount req => exact absurd rfl (hcall req)
  | fsUnmount io => simp [step, fsUnmount, hnull, Call.TestsPointer]
  | fsCreate noReturn filename => simp [step, fsCreate, hnull, Call.TestsPointer]
  | fsDelete unassigned filename => simp [step, fsDelete, hnull, Call.TestsPointer]
  | fsLs => simp [step, fsLs, hnull, Call.TestsPointer, Except.map]
  | fsOpen noReturn filename => simp [step, fsOpen, hnull, Call.TestsPointer]
  | fsClose fd => simp [step, fsClose, hinvalid, Call.TestsPointer]
  | fsStat fd => simp [step, fsStat, hinvalid, Call.TestsPointer, Except.map]
  | fsLseek fd offset =>
      refine iff_of_false (fun h => ?_) id
      rcases fsLseek_cases h with ⟨_, _, hvalid⟩ | ⟨hret, _⟩
      · rw [hinvalid] at hvalid
        contradiction
      · exact absurd hret (by decide)

end Calls

section Steps

variable {past : List (ApiEvent L N)} {e : ApiEvent L N}

theorem mountedBy_mount (past : List (ApiEvent L N)) {req : MountRequest L}
    (hcall : e.call = .fsMount req) :
    mountedBy (e :: past) = if e.ret = 0 then true else mountedBy past := by
  rw [mountedBy, hcall]

theorem mountedBy_unmount (past : List (ApiEvent L N)) {io : Nat → Transfer}
    (hcall : e.call = .fsUnmount io) :
    mountedBy (e :: past) = if e.ret = 0 then false else mountedBy past := by
  rw [mountedBy, hcall]

theorem mountedBy_session (past : List (ApiEvent L N)) (hcall : e.call.InSession) :
    mountedBy (e :: past) = mountedBy past := by
  obtain ⟨before, call, ret, after⟩ := e
  cases call <;> simp only [Call.InSession] at hcall <;> rfl

theorem PointerTells.isNull_iff {s : State L N} (h : PointerTells past s) :
    s.fileSystem.isNull = true ↔ mountedBy past = false := by
  cases h with
  | unmounted hpast hnull => simp [hpast, hnull]
  | mounted hpast hsession =>
      obtain ⟨fs, _, hlive, _⟩ := hsession.object
      simp [hpast, hlive]

theorem PointerTells.null {s : State L N} (h : PointerTells past s)
    (hpast : mountedBy past = false) : s.fileSystem = .null := by
  cases h with
  | unmounted _ hnull => exact hnull
  | mounted hmounted _ => simp [hpast] at hmounted

theorem refused_step (hnull : e.before.fileSystem = .null) (hcall : ∀ req, e.call ≠ .fsMount req)
    (htests : e.call.TestsPointer) (hstep : step e.call e.before = .ok (e.ret, e.after)) :
    e.ret = -1 ∧ e.after = e.before := by
  have heq := ((step_null_iff hnull hcall).mpr htests).symm.trans hstep
  simp only [Except.ok.injEq, Prod.mk.injEq] at heq
  exact ⟨heq.1.symm, heq.2.symm⟩

theorem pointerTells_mount {req : MountRequest L} (hcall : e.call = .fsMount req)
    (hinv : PointerTells past e.before) (hguard : NotRejected req e.before)
    (hmount : fsMount req e.before = (e.ret, e.after)) : PointerTells (e :: past) e.after := by
  have hhistory := mountedBy_mount past hcall
  cases hinv with
  | mounted hpast hsession =>
      rw [fsMount_open req hsession.diskOpen, Prod.mk.injEq] at hmount
      rw [← hmount.2]
      exact .mounted (by simp [hhistory, hpast]) hsession
  | unmounted hpast hnull =>
      rcases fsMount_cases hmount with
        ⟨hret, _, hafter⟩ | ⟨hret, _, _, hafter⟩ | ⟨_, hnamed, hopen, hcheck, _⟩ | ⟨hret, _⟩
      · exact .unmounted (by simp [hhistory, hret, hpast]) (by rw [hafter]; exact hnull)
      · exact .unmounted (by simp [hhistory, hret, hpast]) (by rw [hafter]; exact hnull)
      · rcases hguard with hname | hrefused | hpasses
        · simp [hname] at hnamed
        · exact absurd hopen hrefused
        · exact absurd hpasses hcheck
      · rw [hret] at hmount
        exact .mounted (by simp [hhistory, hret]) (inSession_of_mount hmount)

theorem guardSound_of_guarded (hinv : PointerTells past e.before) (hguard : GuardedCall past e)
    (hstep : step e.call e.before = .ok (e.ret, e.after)) :
    PointerTells (e :: past) e.after ∧ GuardSound past e := by
  have hrefused (hpast : mountedBy past = false) (hcall : ∀ req, e.call ≠ .fsMount req) :
      e.ret = -1 ∧ e.after = e.before := by
    rcases e.call.kinds with ⟨req, hmount⟩ | ⟨io, hunmount⟩ | hsession
    · exact absurd hmount (hcall req)
    · exact absurd hunmount (hguard.unmounts io)
    · have htests := (hguard.uses hsession).resolve_left (by simp [hpast])
      exact refused_step (hinv.null hpast) hcall htests hstep
  have hnext : PointerTells (e :: past) e.after := by
    rcases e.call.kinds with ⟨req, hmount⟩ | ⟨io, hunmount⟩ | hsession
    · rw [hmount] at hstep
      exact pointerTells_mount hmount hinv (hguard.mounts req hmount) (Except.ok.inj hstep)
    · exact absurd hunmount (hguard.unmounts io)
    · have hhistory := mountedBy_session past hsession
      cases hinv with
      | mounted hpast hobject => exact .mounted (hhistory.trans hpast) (hobject.step hsession hstep)
      | unmounted hpast hnull =>
          have hsame := (hrefused hpast fun req hmount => by
            simp [hmount, Call.InSession] at hsession).2
          exact .unmounted (hhistory.trans hpast) (by rw [hsame]; exact hnull)
  exact ⟨hnext, hnext.isNull_iff, hrefused⟩

theorem notRejected_of_guardSound {req : MountRequest L} (hcall : e.call = .fsMount req)
    (hinv : PointerTells past e.before) (hgood : GuardSound past e)
    (hmount : fsMount req e.before = (e.ret, e.after)) : NotRejected req e.before := by
  by_contra hrejected
  simp only [NotRejected, not_or, not_not, Bool.not_eq_true] at hrejected
  obtain ⟨hnamed, hopen, hcheck⟩ := hrejected
  rw [fsMount_rejects req e.before hnamed hopen hcheck, Prod.mk.injEq] at hmount
  have hpast : mountedBy past = false := by
    cases hinv with
    | unmounted hpast _ => exact hpast
    | mounted _ hsession =>
        rw [MountRequest.opened, blockDiskOpen_open hsession.diskOpen] at hopen
        exact absurd hopen (by simp)
  have hhistory : mountedBy (e :: past) = false := by
    simp [mountedBy_mount past hcall, ← hmount.1, hpast]
  have hnull := hgood.1.mpr hhistory
  simp [← hmount.2] at hnull

theorem guarded_of_guardSound (hinv : PointerTells past e.before) (hgood : GuardSound past e)
    (hstep : step e.call e.before = .ok (e.ret, e.after)) : GuardedCall past e := by
  refine ⟨fun req hcall => ?_, fun io hcall => ?_, fun hsession => ?_⟩
  · rw [hcall] at hstep
    exact notRejected_of_guardSound hcall hinv hgood (Except.ok.inj hstep)
  · rw [hcall] at hstep
    cases hinv with
    | unmounted _ hnull => simp [step, fsUnmount, hnull] at hstep
    | mounted _ hobject =>
        obtain ⟨hret, hfreed, _⟩ := hobject.unmount hstep
        have hnull := hgood.1.mpr (by simp [mountedBy_unmount past hcall, hret])
        simp [hfreed] at hnull
  · cases hpast : mountedBy past with
    | true => exact Or.inl rfl
    | false =>
        have hcall (req : MountRequest L) : e.call ≠ .fsMount req := by
          intro hmount
          simp [hmount, Call.InSession] at hsession
        obtain ⟨hret, hafter⟩ := hgood.2 hpast hcall
        rw [hret, hafter] at hstep
        exact Or.inr ((step_null_iff (hinv.null hpast) hcall).mp hstep)

theorem inSession_step (hinv : mountedBy past = true → InSession e.before)
    (hstep : step e.call e.before = .ok (e.ret, e.after))
    (hmounted : mountedBy (e :: past) = true) : InSession e.after := by
  rcases e.call.kinds with ⟨req, hcall⟩ | ⟨io, hcall⟩ | hsession
  · rw [hcall] at hstep
    have hmount : fsMount req e.before = (e.ret, e.after) := Except.ok.inj hstep
    rw [mountedBy_mount past hcall] at hmounted
    by_cases hret : e.ret = 0
    · rw [hret] at hmount
      exact inSession_of_mount hmount
    · have hbefore := hinv (by simpa [hret] using hmounted)
      rw [fsMount_open req hbefore.diskOpen, Prod.mk.injEq] at hmount
      exact hmount.2 ▸ hbefore
  · rw [hcall] at hstep
    rw [mountedBy_unmount past hcall] at hmounted
    by_cases hret : e.ret = 0
    · simp [hret] at hmounted
    · have hbefore := hinv (by simpa [hret] using hmounted)
      exact absurd (hbefore.unmount hstep).1 hret
  · rw [mountedBy_session past hsession] at hmounted
    exact (hinv hmounted).step hsession hstep

end Steps

theorem inSession_of_run {host : Host} {s : State L N} {past : List (ApiEvent L N)}
    (hrun : ApiRun (State.initial host) past s) (hmounted : mountedBy past = true) :
    InSession s :=
  hrun.always (I := fun past s => mountedBy past = true → InSession s)
    (fun hnone => by simp [mountedBy] at hnone) (fun _ _ => inSession_step) hmounted

/-- From a fresh process, the pointer is NULL exactly when nothing is mounted and
calls without a file system are refused, throughout a run, if and only if every call
is guarded; and after guarded calls that leave nothing mounted the next call returns
-1 and changes nothing if and only if it is one that tests the pointer. -/
theorem guard_sound_throughout_iff {host : Host} {s : State L N} {past : List (ApiEvent L N)}
    (hrun : ApiRun (State.initial host) past s) :
    (Throughout GuardedCall past ↔ Throughout GuardSound past) ∧
      (Throughout GuardedCall past → mountedBy past = false →
        ∀ call : Call L, (∀ req, call ≠ .fsMount req) →
          (step call s = .ok (-1, s) ↔ call.TestsPointer)) := by
  have hstart : PointerTells [] (State.initial host : State L N) := .unmounted rfl rfl
  constructor
  · exact hrun.guarded_iff_good (I := PointerTells) hstart
      ((throughout_forall (fun _ => True) past).mpr fun _ _ => trivial)
      (fun _ _ hinv _ hguard hstep => guardSound_of_guarded hinv hguard hstep)
      (fun _ _ hinv _ hgood hstep => guarded_of_guardSound hinv hgood hstep)
  · intro hguard hpast call hcall
    have hinv := (hrun.guarded_good (I := PointerTells) hstart
      (fun _ _ hinv hguard hstep => guardSound_of_guarded hinv hguard hstep) hguard).1
    exact step_null_iff (hinv.null hpast) hcall

def guardedEvents (s : State .packed 32) : List (ApiEvent .packed 32) :=
  [⟨s, .fsLs, 0, s⟩, ⟨freshStart, .fsMount freshMount, 0, s⟩,
    ⟨freshStart, .fsOpen true nameA, -1, freshStart⟩]

theorem guard_sound_throughout_iff_mounted : ∃ s, fsMount freshMount freshStart = (0, s) ∧
    (Throughout GuardedCall (guardedEvents s) ↔ Throughout GuardSound (guardedEvents s)) := by
  obtain ⟨s, hmount⟩ := freshMount_returns
  have hopen : step (.fsOpen true nameA) freshStart = .ok (-1, freshStart) := rfl
  have hstep : step (.fsMount freshMount) freshStart = .ok (0, s) := congrArg Except.ok hmount
  have hls : step .fsLs s = .ok (0, s) := by
    obtain ⟨fs, _, hlive, _⟩ := (inSession_of_mount hmount).object
    simp [step, fsLs, hlive, Except.map]
  exact ⟨s, hmount, (guard_sound_throughout_iff (.snoc (.snoc (.snoc .nil hopen) hstep) hls)).1⟩

/-- Before anything has been mounted `fs_ls` dereferences NULL. -/
theorem guard_sound_refuted :
    ¬ ∀ (host : Host) (s : State .packed 32) (past : List (ApiEvent .packed 32)),
      ApiRun (State.initial host) past s →
        (s.fileSystem.isNull = true ↔ mountedBy past = false) ∧
          (mountedBy past = false → ∀ call : Call .packed, (∀ req, call ≠ .fsMount req) →
            step call s = .ok (-1, s)) := by
  intro hguards
  have hrefused := (hguards (sampleHost 4 0 fun _ => 0) _ [] .nil).2 rfl .fsLs (by simp)
  simp [step, fsLs, State.initial, Except.map] at hrefused

end LibFs
