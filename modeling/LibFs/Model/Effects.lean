import LibFs.Model.Api

/-! What a call can do, outcome by outcome. -/
namespace LibFs

open LibFs.Foundation

/-- The calls that neither mount nor unmount. -/
def Call.InSession : Call L → Prop
  | .fsMount _ => False
  | .fsUnmount _ => False
  | _ => True

theorem Call.kinds (call : Call L) :
    (∃ req, call = .fsMount req) ∨ (∃ io, call = .fsUnmount io) ∨ call.InSession := by
  cases call with
  | fsMount req => exact Or.inl ⟨req, rfl⟩
  | fsUnmount io => exact Or.inr (Or.inl ⟨io, rfl⟩)
  | _ => exact Or.inr (Or.inr (by simp [InSession]))

inductive Effect (call : Call L) (s : State L N) (ret : Int) (next : State L N) : Prop where
  | unchanged : next = s → (∀ noReturn filename, call = .fsOpen noReturn filename → ret = -1) →
      (∀ fd, call = .fsClose fd → ret = -1) → Effect call s ret next
  | created {noReturn : Bool} {filename : CStr} {fs : FsSystem L} :
      call = .fsCreate noReturn filename → s.fileSystem = .live fs →
      next = { s with
        fileSystem := .live { fs with rootDir := fillAll filename fs.rootDir } } →
      Effect call s ret next
  | deleted {unassigned deleteFile : RootEntry L} {filename : CStr} {fs : FsSystem L}
      {pFAT : Pointer FatBuffer} :
      call = .fsDelete unassigned filename → s.fileSystem = .live fs →
      freeChain deleteFile.fileBlckSize deleteFile.fileFirstIndex fs.fatBlocks = .ok pFAT →
      next = { s with
        fileSystem := .live { fs with
          rootDir := resetAll filename fs.rootDir, fatBlocks := pFAT } } →
      Effect call s ret next
  | opened {noReturn : Bool} {filename : CStr} {fs : FsSystem L} (i : Fin N) :
      call = .fsOpen noReturn filename → s.fileSystem = .live fs → filename.bytes ≠ [] →
      filename.strlen < fsFilenameLen → s.fdOpenCount = i → ret = i →
      next = s.openFd i filename → Effect call s ret next
  | closed (i : Fin N) : call = .fsClose i → isValidFD i s = true → ret = 0 →
      next = s.setFd i (s.fdTable i).closed → Effect call s ret next
  | sought (i : Fin N) {offset : BitVec 64} : call = .fsLseek i offset →
      isValidFD i s = false → next = s.setFd i { s.fdTable i with offset := offset } →
      Effect call s ret next

theorem step_reads {α : Type} {x : Except Fault α} {f : α → Int} {s next : State L N} {ret : Int}
    (h : (x.map fun a => (f a, s)) = .ok (ret, next)) : next = s := by
  cases x with
  | error fault => simp [Except.map] at h
  | ok a =>
      simp only [Except.map, Except.ok.injEq, Prod.mk.injEq] at h
      exact h.2.symm

theorem step_effect {call : Call L} {s next : State L N} {ret : Int} (hcall : call.InSession)
    (h : step call s = .ok (ret, next)) : Effect call s ret next := by
  cases call <;> simp only [Call.InSession] at hcall
  case fsCreate noReturn filename =>
    rcases fsCreate_cases h with ⟨_, hsame⟩ | ⟨fs, hlive⟩
    · exact .unchanged hsame (by simp) (by simp)
    · rcases fsCreate_live hlive h with ⟨_, hsame, _⟩ | ⟨_, _, _, _, _, hnext⟩
      · exact .unchanged hsame (by simp) (by simp)
      · exact .created rfl hlive hnext
  case fsDelete unassigned filename =>
    have hdelete : fsDelete unassigned filename s = .ok (ret, next) := h
    obtain ⟨fs, hlive⟩ := fsDelete_cases hdelete
    obtain ⟨_, _, _, hwalk, _, hnext⟩ := fsDelete_live hlive hdelete
    exact .deleted rfl hlive hwalk hnext
  case fsLs => exact .unchanged (step_reads h) (by simp) (by simp)
  case fsOpen noReturn filename =>
    rcases fsOpen_cases h with
      ⟨hret, hsame, _⟩ | ⟨hvalid, hlength, ⟨fs, hlive, _⟩, i, hcount, hret, hnext⟩
    · exact .unchanged hsame (fun _ _ _ => hret) (by simp)
    · exact .opened i rfl hlive (isValidName_ne_nil hvalid) hlength hcount hret hnext
  case fsClose fd =>
    rcases fsClose_cases h with ⟨hret, hsame, _⟩ | ⟨hret, hvalid, i, rfl, hnext⟩
    · exact .unchanged hsame (by simp) fun _ _ => hret
    · exact .closed i rfl hvalid hret hnext
  case fsStat fd => exact .unchanged (step_reads h) (by simp) (by simp)
  case fsLseek fd offset =>
    rcases fsLseek_cases h with ⟨_, hsame, _⟩ | ⟨_, hinvalid, i, rfl, hnext⟩
    · exact .unchanged hsame (by simp) (by simp)
    · exact .sought i rfl hinvalid hnext

theorem step_object {call : Call L} {s next : State L N} {ret : Int} (hcall : call.InSession)
    (h : step call s = .ok (ret, next)) :
    next.device = s.device ∧ ∀ fs', next.fileSystem = .live fs' → ∃ fs,
      s.fileSystem = .live fs ∧ fs'.sp = fs.sp ∧ fs'.fatBlocks.isLive = fs.fatBlocks.isLive := by
  cases step_effect hcall h with
  | unchanged hnext _ _ =>
      rw [hnext]
      exact ⟨rfl, fun fs' hfs => ⟨fs', hfs, rfl, rfl⟩⟩
  | created _ hlive hnext =>
      rw [hnext]
      refine ⟨rfl, fun fs' hfs => ⟨_, hlive, ?_⟩⟩
      cases hfs
      exact ⟨rfl, rfl⟩
  | @deleted _ _ _ fs _ _ hlive hwalk hnext =>
      rw [hnext]
      refine ⟨rfl, fun fs' hfs => ⟨_, hlive, ?_⟩⟩
      cases hfs
      exact ⟨rfl, freeChain_isLive hwalk⟩
  | opened i _ _ _ _ _ _ hnext =>
      rw [hnext]
      exact ⟨rfl, fun fs' hfs => ⟨fs', hfs, rfl, rfl⟩⟩
  | closed i _ _ _ hnext =>
      rw [hnext]
      exact ⟨rfl, fun fs' hfs => ⟨fs', hfs, rfl, rfl⟩⟩
  | sought i _ _ hnext =>
      rw [hnext]
      exact ⟨rfl, fun fs' hfs => ⟨fs', hfs, rfl, rfl⟩⟩

theorem step_unallocated {call : Call L} {s next : State L N} {ret : Int} {fs : FsSystem L}
    (hlive : s.fileSystem = .live fs) (hfat : fs.fatBlocks.isLive = false)
    (hcall : call.InSession) (h : step call s = .ok (ret, next)) :
    ∃ fs', next.fileSystem = .live fs' ∧ fs'.sp = fs.sp ∧ fs'.fatBlocks = fs.fatBlocks := by
  cases step_effect hcall h with
  | unchanged hnext _ _ => exact ⟨fs, hnext ▸ hlive, rfl, rfl⟩
  | created _ hfs hnext =>
      rw [hlive] at hfs
      cases hfs
      rw [hnext]
      exact ⟨_, rfl, rfl, rfl⟩
  | deleted _ hfs hwalk hnext =>
      rw [hlive] at hfs
      cases hfs
      rw [hnext]
      exact ⟨_, rfl, rfl, freeChain_unallocated hfat hwalk⟩
  | opened i _ _ _ _ _ _ hnext => exact ⟨fs, hnext ▸ hlive, rfl, rfl⟩
  | closed i _ _ _ hnext => exact ⟨fs, hnext ▸ hlive, rfl, rfl⟩
  | sought i _ _ hnext => exact ⟨fs, hnext ▸ hlive, rfl, rfl⟩

theorem step_session {call : Call L} {s next : State L N} {ret : Int} {fs : FsSystem L}
    {fat : FatBuffer} (hlive : s.fileSystem = .live fs) (hfat : fs.fatBlocks = .live fat)
    (hcall : call.InSession) (h : step call s = .ok (ret, next)) :
    next.device = s.device ∧ ∃ dir fat',
      next.fileSystem = .live { fs with rootDir := dir, fatBlocks := .live fat' } := by
  have hsame : s.fileSystem =
      .live { fs with rootDir := fs.rootDir, fatBlocks := .live fat } := by rw [hlive, ← hfat]
  cases step_effect hcall h with
  | unchanged hnext _ _ =>
      rw [hnext]
      exact ⟨rfl, _, _, hsame⟩
  | @created _ filename fs' _ hfs hnext =>
      rw [hlive] at hfs
      cases hfs
      rw [hnext]
      exact ⟨rfl, _, fat, by rw [hfat]⟩
  | deleted _ hfs hwalk hnext =>
      rw [hlive] at hfs
      cases hfs
      rw [hfat] at hwalk
      obtain ⟨fat', rfl, _⟩ := freeChain_links hwalk
      rw [hnext]
      exact ⟨rfl, _, fat', rfl⟩
  | opened i _ _ _ _ _ _ hnext =>
      rw [hnext]
      exact ⟨rfl, _, _, hsame⟩
  | closed i _ _ _ hnext =>
      rw [hnext]
      exact ⟨rfl, _, _, hsame⟩
  | sought i _ _ hnext =>
      rw [hnext]
      exact ⟨rfl, _, _, hsame⟩

/-! What a call makes of the object the pointer is to. -/

/-- The call is a mount that opens its disk, be it accepted or not. -/
def OpensDisk (e : ApiEvent L N) : Prop :=
  ∃ req, e.call = .fsMount req ∧ e.before.device.disk.fd = none ∧ e.after.device.disk.fd.isSome

section Objects

variable {e : ApiEvent L N}

theorem object_of_mount {req : MountRequest L} (hcall : e.call = .fsMount req)
    (hkeeps : ¬ OpensDisk e) (hmount : fsMount req e.before = (e.ret, e.after)) :
    e.after.fileSystem = e.before.fileSystem := by
  have hopens (hopen : (req.opened e.before.device).1 = 0)
      (hdisk : e.after.device.disk = (req.opened e.before.device).2.disk) : False := by
    obtain ⟨hclosed, hserves, _⟩ := req.opened_zero hopen
    obtain ⟨fd, _, hfd, _⟩ := hserves.1
    exact hkeeps ⟨req, hcall, hclosed, by simp [hdisk, hfd]⟩
  rcases fsMount_cases hmount with
    ⟨_, _, hafter⟩ | ⟨_, _, _, hafter⟩ | ⟨_, _, hopen, _, hafter⟩ | ⟨_, _, hopen, _, hafter⟩
  · rw [hafter]
  · rw [hafter]
  · exact (hopens hopen (by simp [hafter])).elim
  · exact (hopens hopen (by simp [hafter])).elim

theorem object_of_opensDisk (hopens : OpensDisk e)
    (hstep : step e.call e.before = .ok (e.ret, e.after)) :
    ∃ fs, e.after.fileSystem = .live fs := by
  obtain ⟨req, hcall, hclosed, hopened⟩ := hopens
  rw [hcall] at hstep
  rcases fsMount_cases (Except.ok.inj hstep : fsMount req e.before = _) with
    ⟨_, _, hafter⟩ | ⟨_, _, hrefused, hafter⟩ | ⟨_, _, _, _, hafter⟩ | ⟨_, _, _, _, hafter⟩
  · simp [hafter, hclosed] at hopened
  · simp [hafter, (req.opened_refused hrefused).1, hclosed] at hopened
  · exact ⟨_, by rw [hafter]⟩
  · exact ⟨_, by rw [hafter]⟩

inductive ObjectFate (e : ApiEvent L N) : Prop where
  | opens : OpensDisk e → ObjectFate e
  | same : e.after.fileSystem = e.before.fileSystem → ObjectFate e
  | freed {fs : FsSystem L} : e.before.fileSystem = .live fs → e.after.fileSystem = .freed →
      ObjectFate e
  | created {noReturn : Bool} {filename : CStr} {fs : FsSystem L} :
      e.call = .fsCreate noReturn filename → e.before.fileSystem = .live fs →
      e.after.fileSystem = .live { fs with rootDir := fillAll filename fs.rootDir } → ObjectFate e
  | deleted {unassigned : RootEntry L} {filename : CStr} {fs : FsSystem L}
      {pFAT : Pointer FatBuffer} :
      e.call = .fsDelete unassigned filename → e.before.fileSystem = .live fs →
      e.after.fileSystem = .live { fs with
        rootDir := resetAll filename fs.rootDir, fatBlocks := pFAT } → ObjectFate e

theorem objectFate (hstep : step e.call e.before = .ok (e.ret, e.after)) : ObjectFate e := by
  rcases e.call.kinds with ⟨req, hcall⟩ | ⟨io, hcall⟩ | hsession
  · rw [hcall] at hstep
    by_cases hopens : OpensDisk e
    · exact .opens hopens
    · exact .same (object_of_mount hcall hopens (Except.ok.inj hstep))
  · rw [hcall] at hstep
    obtain ⟨_, hlive, _, _, hafter⟩ := fsUnmount_cases hstep
    exact .freed hlive (by rw [hafter])
  · cases step_effect hsession hstep with
    | unchanged hafter _ _ => exact .same (by rw [hafter])
    | created hcall hlive hafter => exact .created hcall hlive (by rw [hafter])
    | deleted hcall hlive _ hafter => exact .deleted hcall hlive (by rw [hafter])
    | opened i _ _ _ _ _ _ hafter => exact .same (by rw [hafter]; rfl)
    | closed i _ _ _ hafter => exact .same (by rw [hafter]; rfl)
    | sought i _ _ hafter => exact .same (by rw [hafter]; rfl)

end Objects

end LibFs
