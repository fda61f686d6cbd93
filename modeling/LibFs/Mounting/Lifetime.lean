import LibFs.Mounting.Guard
import LibFs.Mounting.Transfers

/-! Descriptors across mounts. `fs_unmount` looks at no descriptor, and `fs_open`
takes the object of a rejected mount for a mounted file system. -/
namespace LibFs

open LibFs.Foundation

/-- The descriptors returned since the last successful mount, when there was one. -/
def sinceMount : List (ApiEvent L N) → Option (List Int)
  | [] => none
  | e :: past =>
      match e.call with
      | .fsMount _ => if e.ret = 0 then some [] else sinceMount past
      | .fsOpen _ _ => if e.ret = -1 then sinceMount past else (sinceMount past).map (e.ret :: ·)
      | _ => sinceMount past

def ReturnedSinceMount (past : List (ApiEvent L N)) (fd : Int) : Prop :=
  ∃ fds, sinceMount past = some fds ∧ fd ∈ fds

/-- Unmounts only when no descriptor is accepted, and before the first successful
mount only opens whose name is refused. -/
structure LifetimeGuard (past : List (ApiEvent L N)) (e : ApiEvent L N) : Prop where
  unmounts : ∀ io, e.call = .fsUnmount io → ∀ fd, isValidFD fd e.before = false
  opens : ∀ noReturn filename, e.call = .fsOpen noReturn filename → sinceMount past = none →
    OpenRefused noReturn filename e.before

structure DescriptorsLocal (past : List (ApiEvent L N)) (e : ApiEvent L N) : Prop where
  unmounts : ∀ io, e.call = .fsUnmount io → (∃ fd, isValidFD fd e.before = true) →
    e.ret = -1 ∧ e.after.fileSystem = e.before.fileSystem ∧
      e.after.device.disk = e.before.device.disk
  accepted : ∀ fd, isValidFD fd e.after = true → ReturnedSinceMount (e :: past) fd

def Call.AcrossMounts : Call L → Prop
  | .fsMount _ => True
  | .fsUnmount _ => True
  | .fsCreate _ _ => True
  | .fsOpen _ _ => True
  | .fsClose _ => True
  | _ => False

/-- What guarded calls keep: named slots were returned since the mount, and while no
disk is open there are none and no object is live. -/
structure SlotsReturned (past : List (ApiEvent L N)) (s : State L N) : Prop where
  returned : ∀ i : Fin N, (s.fdTable i).filename.text ≠ [] → ReturnedSinceMount past i
  closed : s.device.disk.fd = none →
    (∀ i, (s.fdTable i).filename.text = []) ∧ ∀ fs, s.fileSystem ≠ .live fs

section Steps

variable {s next : State L N} {ret : Int} {call : Call L}

theorem step_slots (hcall : call.InSession) (h : step call s = .ok (ret, next)) :
    next.device = s.device ∧ (∀ fs, next.fileSystem = .live fs → ∃ fs, s.fileSystem = .live fs) ∧
      ∀ i : Fin N, (next.fdTable i).filename.text ≠ [] → (s.fdTable i).filename.text ≠ [] ∨
        ∃ noReturn filename fs, call = .fsOpen noReturn filename ∧ ret = i ∧
          s.fileSystem = .live fs := by
  cases step_effect hcall h with
  | unchanged hnext _ _ =>
      rw [hnext]
      exact ⟨rfl, fun fs hfs => ⟨fs, hfs⟩, fun _ hi => Or.inl hi⟩
  | created _ hlive hnext =>
      rw [hnext]
      exact ⟨rfl, fun _ _ => ⟨_, hlive⟩, fun _ hi => Or.inl hi⟩
  | deleted _ hlive _ hnext =>
      rw [hnext]
      exact ⟨rfl, fun _ _ => ⟨_, hlive⟩, fun _ hi => Or.inl hi⟩
  | @opened noReturn filename fs i hopen hlive _ _ _ hret hnext =>
      rw [hnext]
      refine ⟨rfl, fun fs hfs => ⟨fs, hfs⟩, fun j hj => ?_⟩
      by_cases heq : j = i
      · exact Or.inr ⟨noReturn, filename, fs, hopen, by rw [heq, hret], hlive⟩
      · rw [s.openFd_ne _ heq] at hj
        exact Or.inl hj
  | closed i _ _ _ hnext =>
      rw [hnext]
      refine ⟨rfl, fun fs hfs => ⟨fs, hfs⟩, fun j hj => Or.inl ?_⟩
      by_cases heq : j = i
      · subst heq
        simp at hj
      · rwa [s.setFd_ne _ heq] at hj
  | sought i _ _ hnext =>
      rw [hnext]
      refine ⟨rfl, fun fs hfs => ⟨fs, hfs⟩, fun j hj => Or.inl ?_⟩
      by_cases heq : j = i
      · subst heq
        simpa using hj
      · rwa [s.setFd_ne _ heq] at hj

end Steps

section Invariant

variable {past : List (ApiEvent L N)} {e : ApiEvent L N}

theorem sinceMount_mount (past : List (ApiEvent L N)) {req : MountRequest L}
    (hcall : e.call = .fsMount req) :
    sinceMount (e :: past) = if e.ret = 0 then some [] else sinceMount past := by
  rw [sinceMount, hcall]

theorem sinceMount_open (past : List (ApiEvent L N)) {noReturn : Bool} {filename : CStr}
    (hcall : e.call = .fsOpen noReturn filename) : sinceMount (e :: past) =
      if e.ret = -1 then sinceMount past else (sinceMount past).map (e.ret :: ·) := by
  rw [sinceMount, hcall]

theorem ReturnedSinceMount.later {fd : Int} (h : ReturnedSinceMount past fd)
    (hcall : e.call.InSession) : ReturnedSinceMount (e :: past) fd := by
  obtain ⟨fds, hfds, hmem⟩ := h
  by_cases hopen : ∃ noReturn filename, e.call = .fsOpen noReturn filename
  · obtain ⟨_, _, hopen⟩ := hopen
    unfold ReturnedSinceMount
    rw [sinceMount_open past hopen]
    split
    · exact ⟨fds, hfds, hmem⟩
    · exact ⟨e.ret :: fds, by rw [hfds]; rfl, List.mem_cons_of_mem _ hmem⟩
  · refine ⟨fds, ?_, hmem⟩
    rw [← hfds]
    obtain ⟨before, call, ret, after⟩ := e
    cases call <;> simp [Call.InSession] at hcall hopen <;> rfl

theorem returned_open {noReturn : Bool} {filename : CStr} {fd : Nat}
    (hguard : LifetimeGuard past e) (hopen : e.call = .fsOpen noReturn filename)
    (hret : e.ret = fd) (hstep : step e.call e.before = .ok (e.ret, e.after)) :
    ReturnedSinceMount (e :: past) fd := by
  have hsuccess : e.ret ≠ -1 := by omega
  cases hpast : sinceMount past with
  | none =>
      have hrefused := hguard.opens noReturn filename hopen hpast
      rw [hopen] at hstep
      exact absurd (fsOpen_refused hstep hrefused).1 hsuccess
  | some fds =>
      refine ⟨e.ret :: fds, ?_, hret ▸ List.mem_cons_self⟩
      rw [sinceMount_open past hopen, if_neg hsuccess, hpast]
      rfl

theorem slotsReturned_session (hinv : SlotsReturned past e.before) (hguard : LifetimeGuard past e)
    (hcall : e.call.InSession) (hstep : step e.call e.before = .ok (e.ret, e.after)) :
    SlotsReturned (e :: past) e.after := by
  obtain ⟨hdevice, hlive, hslots⟩ := step_slots hcall hstep
  constructor
  · intro i hi
    rcases hslots i hi with hold | ⟨_, _, _, hopen, hret, _⟩
    · exact (hinv.returned i hold).later hcall
    · exact returned_open hguard hopen hret hstep
  · intro hclosed
    rw [hdevice] at hclosed
    obtain ⟨hempty, hdead⟩ := hinv.closed hclosed
    refine ⟨fun i => ?_, fun fs hfs => ?_⟩
    · by_contra hi
      rcases hslots i hi with hold | ⟨_, _, fs, _, _, hfs⟩
      · exact hold (hempty i)
      · exact hdead fs hfs
    · obtain ⟨fs', hfs'⟩ := hlive fs hfs
      exact hdead fs' hfs'

theorem slotsReturned_mount {req : MountRequest L} (hinv : SlotsReturned past e.before)
    (hcall : e.call = .fsMount req) (hmount : fsMount req e.before = (e.ret, e.after)) :
    SlotsReturned (e :: past) e.after := by
  have hhistory := sinceMount_mount past hcall
  have hfailed (hret : e.ret = -1) (fd : Int) (h : ReturnedSinceMount past fd) :
      ReturnedSinceMount (e :: past) fd := by
    unfold ReturnedSinceMount
    rwa [hhistory, if_neg (by omega)]
  rcases fsMount_cases hmount with
    ⟨hret, _, hafter⟩ | ⟨hret, _, hopen, hafter⟩ | ⟨_, _, hopen, _, hafter⟩ |
      ⟨_, _, hopen, _, hafter⟩
  · rw [hafter]
    exact ⟨fun i hi => hfailed hret i (hinv.returned i hi), hinv.closed⟩
  · have hdisk := (req.opened_refused hopen).1
    rw [hafter]
    refine ⟨fun i hi => hfailed hret i (hinv.returned i hi), fun hclosed => ?_⟩
    exact hinv.closed (by rw [← hdisk]; exact hclosed)
  all_goals
    -- the disk was closed, so no slot had a name; it is open now
    obtain ⟨hclosed, hserves, _⟩ := req.opened_zero hopen
    obtain ⟨fd, _, hfd, _⟩ := hserves.1
    have hempty := (hinv.closed hclosed).1
    rw [hafter]
    exact ⟨fun i hi => absurd (hempty i) hi, fun hnone => by simp [hfd] at hnone⟩

theorem slotsReturned_unmount {io : Nat → Transfer} (hguard : LifetimeGuard past e)
    (hcall : e.call = .fsUnmount io) (hunmount : fsUnmount io e.before = .ok (e.ret, e.after)) :
    SlotsReturned (e :: past) e.after := by
  obtain ⟨fs, hlive, _, _, hafter⟩ := fsUnmount_cases hunmount
  have hempty (i : Fin N) : (e.before.fdTable i).filename.text = [] := by
    by_contra hi
    have hvalid := (isValidFD_slot (s := e.before) (by simp [hlive]) i).mpr hi
    simp [hguard.unmounts io hcall i] at hvalid
  rw [hafter]
  exact ⟨fun i hi => absurd (hempty i) hi, fun _ => ⟨hempty, fun _ => by simp⟩⟩

theorem slotsReturned_step (hinv : SlotsReturned past e.before) (hguard : LifetimeGuard past e)
    (hstep : step e.call e.before = .ok (e.ret, e.after)) : SlotsReturned (e :: past) e.after := by
  rcases e.call.kinds with ⟨req, hcall⟩ | ⟨io, hcall⟩ | hcall
  · rw [hcall] at hstep
    exact slotsReturned_mount hinv hcall (Except.ok.inj hstep)
  · rw [hcall] at hstep
    exact slotsReturned_unmount hguard hcall hstep
  · exact slotsReturned_session hinv hguard hcall hstep

theorem SlotsReturned.accepted {s : State L N} (h : SlotsReturned past s) {fd : Int}
    (hvalid : isValidFD fd s = true) : ReturnedSinceMount past fd := by
  obtain ⟨_, i, rfl, hi⟩ := isValidFD_iff.mp hvalid
  exact h.returned i hi

theorem descriptorsLocal_of_guarded (hinv : SlotsReturned past e.before)
    (hguard : LifetimeGuard past e) (hstep : step e.call e.before = .ok (e.ret, e.after)) :
    SlotsReturned (e :: past) e.after ∧ DescriptorsLocal past e := by
  have hnext := slotsReturned_step hinv hguard hstep
  refine ⟨hnext, fun io hcall hopen => ?_, fun _ => hnext.accepted⟩
  obtain ⟨fd, hvalid⟩ := hopen
  simp [hguard.unmounts io hcall fd] at hvalid

theorem guarded_of_descriptorsLocal (hgood : DescriptorsLocal past e)
    (hstep : step e.call e.before = .ok (e.ret, e.after)) : LifetimeGuard past e := by
  constructor
  · intro io hcall fd
    by_contra hvalid
    have hkept := (hgood.unmounts io hcall ⟨fd, by simpa using hvalid⟩).2.1
    rw [hcall] at hstep
    obtain ⟨fs, hlive, _, _, hafter⟩ := fsUnmount_cases hstep
    simp [hafter, hlive] at hkept
  · intro noReturn filename hcall hpast
    rw [hcall] at hstep
    rcases fsOpen_cases hstep with
      ⟨_, _, hrefused⟩ | ⟨hvalid, hlength, ⟨fs, hlive, _⟩, i, _, hret, hafter⟩
    · exact hrefused
    · exfalso
      have haccepted : isValidFD i e.after = true := by
        rw [hafter]
        exact isValidFD_openFd i hlive (isValidName_ne_nil hvalid) hlength
      obtain ⟨fds, hfds, _⟩ := hgood.accepted i haccepted
      rw [sinceMount_open past hcall, if_neg (by omega), hpast] at hfds
      cases hfds

end Invariant

/-- From a fresh process, an unmount is refused while a descriptor is accepted and
every accepted descriptor was returned since the last successful mount, throughout a
run, if and only if every call of the run is guarded. -/
theorem descriptors_local_throughout_iff {host : Host} {s : State L N}
    {past : List (ApiEvent L N)} (hrun : ApiRun (State.initial host) past s) :
    Throughout LifetimeGuard past ↔ Throughout DescriptorsLocal past := by
  have hstart : SlotsReturned [] (State.initial host : State L N) := by
    have hempty : (FdTableEntry.zero).filename.text = [] := by decide
    exact ⟨fun _ hi => absurd hempty hi,
      fun _ => ⟨fun _ => hempty, fun _ => by simp [State.initial]⟩⟩
  exact hrun.guarded_iff_good (I := SlotsReturned) hstart
    ((throughout_forall (fun _ => True) past).mpr fun _ _ => trivial)
    (fun _ _ hinv _ hguard hstep => descriptorsLocal_of_guarded hinv hguard hstep)
    (fun _ _ _ _ hgood hstep => guarded_of_descriptorsLocal hgood hstep)

theorem freshMount_unnamed {s : State .packed 32}
    (hmount : fsMount freshMount freshStart = (0, s)) :
    ∃ fs fat, s.fileSystem = .live fs ∧ fs.fatBlocks = .live fat ∧ s.device.disk.fd.isSome ∧
      s.fdOpenCount = 0 ∧ ∀ i, fs.rootDir.name i = [] := by
  obtain ⟨_, hopen, _, rfl⟩ := fsMount_succeeds hmount
  obtain ⟨_, hserves, _, himage⟩ := freshMount.opened_zero hopen
  obtain ⟨fd, _, hfd, _⟩ := hserves.1
  refine ⟨_, _, rfl, rfl, by simp [hfd], rfl, fun i => ?_⟩
  have hroot : freshMount.rootIndex (freshMount.opened freshStart.device).2 = 1 := by decide
  apply (RootDir.name_eq_iff (by decide)).mpr
  apply CharArray.text_eq_nil.mpr
  change (freshMount.rootRead (freshMount.opened freshStart.device).2).buffer
    (Layout.packed.entrySize * i + 0) = 0
  rw [rootRead_buffer rfl hserves, hroot]
  split
  · unfold Host.block
    rw [himage]
    exact if_neg (by omega)
  · exact (RootDir.toBytes_entry blankDir i (by decide)).trans rfl

def openAndClose (s s' : State .packed 32) : List (ApiEvent .packed 32) :=
  let opened := s.openFd 0 nameA
  let closed := opened.setFd 0 (opened.fdTable 0).closed
  [⟨closed, .fsUnmount fun _ => .whole, 0, s'⟩, ⟨opened, .fsClose 0, 0, closed⟩,
    ⟨s, .fsOpen true nameA, 0, opened⟩, ⟨freshStart, .fsMount freshMount, 0, s⟩]

theorem descriptors_local_throughout_iff_mounted : ∃ s s',
    ApiRun freshStart (openAndClose s s') s' ∧
      (Throughout LifetimeGuard (openAndClose s s') ↔
        Throughout DescriptorsLocal (openAndClose s s')) := by
  obtain ⟨s, hmount⟩ := freshMount_returns
  obtain ⟨fs, fat, hlive, hfat, hdisk, hcount, hunnamed⟩ := freshMount_unnamed hmount
  have hmountStep : step (.fsMount freshMount) freshStart = .ok (0, s) := congrArg Except.ok hmount
  have hopen : step (.fsOpen true nameA) s = _ :=
    fsOpen_returns (i := 0) hlive (by decide) (by decide)
      (fun i => (hunnamed i).trans_ne (by decide)) hcount
  have hclose : step (.fsClose 0) (s.openFd 0 nameA) = _ :=
    fsClose_closes (i := (0 : Fin 32)) (isValidFD_openFd 0 hlive (by decide) (by decide))
  obtain ⟨s', hunmount, _⟩ := fsUnmount_succeeds (fun _ => .whole)
    (s := (s.openFd 0 nameA).setFd 0 ((s.openFd 0 nameA).fdTable 0).closed) hlive hfat hdisk
  have hrun : ApiRun freshStart (openAndClose s s') s' :=
    .snoc (.snoc (.snoc (.snoc .nil hmountStep) hopen) hclose) hunmount
  exact ⟨s, s', hrun, descriptors_local_throughout_iff hrun⟩

/-- Mounting, opening a file and unmounting: the unmount returns 0. -/
theorem descriptors_local_refuted :
    ¬ ∀ (host : Host) (s : State .packed 32) (past : List (ApiEvent .packed 32)),
      ApiRun (State.initial host) past s → (∀ e ∈ past, e.call.AcrossMounts) →
        Throughout DescriptorsLocal past := by
  intro hrefuses
  obtain ⟨s, hmount⟩ := freshMount_returns
  obtain ⟨fs, fat, hlive, hfat, hdisk, hcount, hunnamed⟩ := freshMount_unnamed hmount
  have hmountStep : step (.fsMount freshMount) freshStart = .ok (0, s) := congrArg Except.ok hmount
  have hopen : step (.fsOpen true nameA) s = _ :=
    fsOpen_returns (i := 0) hlive (by decide) (by decide)
      (fun i => (hunnamed i).trans_ne (by decide)) hcount
  obtain ⟨s', hunmount, _⟩ := fsUnmount_succeeds (fun _ => .whole) (s := s.openFd 0 nameA)
    hlive hfat hdisk
  have hunmountStep : step (.fsUnmount fun _ => .whole) (s.openFd 0 nameA) = .ok (0, s') := hunmount
  have haccepted : isValidFD 0 (s.openFd 0 nameA) = true :=
    isValidFD_openFd (0 : Fin 32) hlive (by decide) (by decide)
  have hlocal := (hrefuses _ _ _ (.snoc (.snoc (.snoc .nil hmountStep) hopen) hunmountStep)
    (by simp [Call.AcrossMounts])).1
  have hret : (0 : Int) = -1 := (hlocal.unmounts _ rfl ⟨0, haccepted⟩).1
  exact absurd hret (by decide)

end LibFs
