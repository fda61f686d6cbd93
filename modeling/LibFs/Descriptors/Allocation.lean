import LibFs.Foundation.Handles
import LibFs.Model.Effects
import Mathlib.Algebra.Ring.CharZero
import Mathlib.Algebra.Ring.Int.Defs

/-! The descriptor table as a handle table. `fs_open` takes the slot its counter
points at and `fs_close` never lowers the counter: descriptors are fresh, but a
closed one is not given out again. -/
namespace LibFs

open LibFs.Foundation

def openFds : List (ApiEvent L N) → Finset Int
  | [] => ∅
  | e :: past =>
      match e.call with
      | .fsOpen _ _ => if e.ret = -1 then openFds past else insert e.ret (openFds past)
      | .fsClose fd => if e.ret = 0 then (openFds past).erase fd else openFds past
      | _ => openFds past

section History

variable {past : List (ApiEvent L N)} {e : ApiEvent L N}

theorem openFds_open {noReturn : Bool} {filename : CStr} {i : Fin N}
    (hcall : e.call = .fsOpen noReturn filename) (hret : e.ret = i) :
    openFds (e :: past) = insert (i : Int) (openFds past) := by
  have hsuccess : (i : Int) ≠ -1 := by omega
  simp [openFds, hcall, hret, hsuccess]

theorem openFds_close {fd : Int} (hcall : e.call = .fsClose fd) (hret : e.ret = 0) :
    openFds (e :: past) = (openFds past).erase fd := by
  simp [openFds, hcall, hret]

theorem openFds_refused
    (hopens : ∀ noReturn filename, e.call = .fsOpen noReturn filename → e.ret = -1)
    (hcloses : ∀ fd, e.call = .fsClose fd → e.ret = -1) : openFds (e :: past) = openFds past := by
  cases hcall : e.call with
  | fsOpen noReturn filename => simp [openFds, hcall, hopens noReturn filename hcall]
  | fsClose fd => simp [openFds, hcall, hcloses fd hcall]
  | _ => simp [openFds, hcall]

end History

/-- Calls of `fs_create`, `fs_delete`, `fs_open` and `fs_close` with names of 1 to 15
characters, for which `isValidName` passes. -/
def Call.OnFiles : Call L → Prop
  | .fsCreate noReturn filename =>
      1 ≤ filename.strlen ∧ filename.strlen ≤ 15 ∧ isValidName noReturn filename = true
  | .fsDelete _ filename => 1 ≤ filename.strlen ∧ filename.strlen ≤ 15
  | .fsOpen noReturn filename =>
      1 ≤ filename.strlen ∧ filename.strlen ≤ 15 ∧ isValidName noReturn filename = true
  | .fsClose _ => True
  | _ => False

theorem Call.OnFiles.inSession {call : Call L} (h : call.OnFiles) : call.InSession := by
  cases call <;> trivial

theorem blankOpening_onFiles : ∀ e ∈ [blankOpening], e.call.OnFiles := by
  simp only [List.mem_singleton, forall_eq]
  exact ⟨by decide, by decide, by decide⟩

def FreshTable (s : State L N) : Prop :=
  s.fdOpenCount = 0 ∧ ∀ i, (s.fdTable i).filename.text = []

theorem formatted_freshTable (dir : RootDir L) : FreshTable (formattedState dir : State L N) :=
  ⟨rfl, fun _ => by change FdTableEntry.zero.filename.text = []; decide⟩

def Call.target : Call L → Option Int
  | .fsClose fd => some fd
  | .fsStat fd => some fd
  | .fsLseek fd _ => some fd
  | _ => none

structure Represents (h : Handles) (past : List (ApiEvent L N)) (s : State L N) : Prop where
  live : ∃ fs, s.fileSystem = .live fs
  issued : s.fdOpenCount = h.issued
  named : ∀ i : Fin N, (s.fdTable i).filename.text ≠ [] ↔ i.val ∈ h.held
  inTable : h.issued ≤ N
  history : openFds past = h.held.map Nat.castEmbedding

theorem represents_empty {s : State L N} (hlive : ∃ fs, s.fileSystem = .live fs)
    (hfresh : FreshTable s) : Represents .empty [] s where
  live := hlive
  issued := hfresh.1
  named i := iff_of_false (fun hi => hi (hfresh.2 i)) (by simp [Handles.empty])
  inTable := Nat.zero_le N
  history := (Finset.map_empty _).symm

section Represented

variable {h : Handles} {past : List (ApiEvent L N)} {s : State L N} (hrep : Represents h past s)
include hrep

theorem Represents.mem_openFds (k : Nat) : (k : Int) ∈ openFds past ↔ k ∈ h.held := by
  rw [hrep.history]
  exact Finset.mem_map' Nat.castEmbedding

theorem Represents.card_openFds : (openFds past).card = h.held.card := by
  rw [hrep.history, Finset.card_map]

theorem Represents.accepted_iff (fd : Int) : isValidFD fd s = true ↔ fd ∈ openFds past := by
  rw [isValidFD_iff]
  constructor
  · rintro ⟨_, i, rfl, hi⟩
    exact (hrep.mem_openFds i).mpr ((hrep.named i).mp hi)
  · intro hmem
    rw [hrep.history] at hmem
    obtain ⟨k, hk, rfl⟩ := Finset.mem_map.mp hmem
    have hlt : k < N := (h.bounded k hk).trans_le hrep.inTable
    obtain ⟨fs, hlive⟩ := hrep.live
    exact ⟨by simp [hlive], ⟨k, hlt⟩, rfl, (hrep.named ⟨k, hlt⟩).mpr hk⟩

end Represented

/-- What a call of a session can do to the table: give out the next slot, close one
slot, or leave names, counter and named slots alone. -/
inductive TableEffect (past : List (ApiEvent L N)) (e : ApiEvent L N) : Prop where
  | opens {noReturn : Bool} {filename : CStr} (i : Fin N) :
      e.call = .fsOpen noReturn filename → e.before.fdOpenCount = i → e.ret = i →
      filename.bytes ≠ [] → filename.strlen < fsFilenameLen →
      e.after = e.before.openFd i filename → TableEffect past e
  | closes (i : Fin N) :
      e.call = .fsClose i → e.ret = 0 → (e.before.fdTable i).filename.text ≠ [] →
      e.after = e.before.setFd i (e.before.fdTable i).closed → TableEffect past e
  | keeps :
      (∀ noReturn filename, e.call = .fsOpen noReturn filename → e.ret = -1) →
      openFds (e :: past) = openFds past → e.after.fdOpenCount = e.before.fdOpenCount →
      (∀ i, (e.after.fdTable i).filename.text = (e.before.fdTable i).filename.text) →
      (∀ i, (e.before.fdTable i).filename.text ≠ [] → e.after.fdTable i = e.before.fdTable i) →
      TableEffect past e

theorem TableEffect.sameTable {past : List (ApiEvent L N)} {e : ApiEvent L N}
    (hopens : ∀ noReturn filename, e.call = .fsOpen noReturn filename → e.ret = -1)
    (hcloses : ∀ fd, e.call = .fsClose fd → e.ret = -1)
    (hcount : e.after.fdOpenCount = e.before.fdOpenCount)
    (htable : e.after.fdTable = e.before.fdTable) : TableEffect past e :=
  .keeps hopens (openFds_refused hopens hcloses) hcount (fun _ => by rw [htable])
    fun _ _ => by rw [htable]

theorem tableEffect (past : List (ApiEvent L N)) {e : ApiEvent L N} {fs : FsSystem L}
    (hlive : e.before.fileSystem = .live fs) (hcall : e.call.InSession)
    (hstep : step e.call e.before = .ok (e.ret, e.after)) :
    (∃ fs, e.after.fileSystem = .live fs) ∧ TableEffect past e := by
  cases step_effect hcall hstep with
  | unchanged hnext hopens hcloses =>
      refine ⟨?_, .sameTable hopens hcloses (by rw [hnext]) (by rw [hnext])⟩
      rw [hnext]
      exact ⟨fs, hlive⟩
  | created hcreate _ hnext =>
      refine ⟨?_, .sameTable (by simp [hcreate]) (by simp [hcreate]) (by rw [hnext])
        (by rw [hnext])⟩
      rw [hnext]
      exact ⟨_, rfl⟩
  | deleted hdelete _ _ hnext =>
      refine ⟨?_, .sameTable (by simp [hdelete]) (by simp [hdelete]) (by rw [hnext])
        (by rw [hnext])⟩
      rw [hnext]
      exact ⟨_, rfl⟩
  | opened i hopen _ hname hlength hcount hret hnext =>
      refine ⟨?_, .opens i hopen hcount hret hname hlength hnext⟩
      rw [hnext]
      exact ⟨fs, hlive⟩
  | closed i hclose hvalid hret hnext =>
      refine ⟨?_, .closes i hclose hret ((isValidFD_slot (by simp [hlive]) i).mp hvalid) hnext⟩
      rw [hnext]
      exact ⟨fs, hlive⟩
  | @sought i offset hseek hinvalid hnext =>
      -- only the offset of a slot without a name changes
      have hunnamed : ¬ (e.before.fdTable i).filename.text ≠ [] := by
        rw [← isValidFD_slot (s := e.before) (by simp [hlive]) i, hinvalid]
        decide
      refine ⟨?_, .keeps (by simp [hseek]) (openFds_refused (by simp [hseek]) (by simp [hseek]))
        (by rw [hnext]; rfl) (fun j => ?_) fun j hj => ?_⟩
      · rw [hnext]
        exact ⟨fs, hlive⟩
      · rw [hnext]
        by_cases heq : j = i
        · subst heq
          simp
        · rw [e.before.setFd_ne _ heq]
      · rw [hnext]
        exact e.before.setFd_ne _ fun heq => hunnamed (heq ▸ hj)

section Steps

variable {h : Handles} {past : List (ApiEvent L N)} {e : ApiEvent L N}
  (hrep : Represents h past e.before)

include hrep

theorem Represents.opens {noReturn : Bool} {filename : CStr} {i : Fin N}
    (hcall : e.call = .fsOpen noReturn filename) (hcount : e.before.fdOpenCount = i)
    (hret : e.ret = i) (hname : filename.bytes ≠ []) (hlength : filename.strlen < fsFilenameLen)
    (hafter : e.after = e.before.openFd i filename) : Represents h.issue (e :: past) e.after := by
  have hissued : h.issued = i := hrep.issued.symm.trans hcount
  rw [hafter]
  refine ⟨hrep.live, ?_, fun j => ?_, ?_, ?_⟩
  · rw [State.openFd_fdOpenCount, hrep.issued]
    rfl
  · by_cases heq : j = i
    · subst heq
      simp [hlength, hname, hissued]
    · have hne : j.val ≠ h.issued := fun hj => heq (Fin.ext (hj.trans hissued))
      rw [e.before.openFd_ne filename heq, hrep.named j, Handles.mem_issue]
      simp [hne]
  · have hi := i.isLt
    change h.issued + 1 ≤ N
    omega
  · rw [openFds_open hcall hret, hrep.history, ← hissued]
    exact (Finset.map_insert _ _ _).symm

theorem Represents.closes {i : Fin N} (hcall : e.call = .fsClose i) (hret : e.ret = 0)
    (hafter : e.after = e.before.setFd i (e.before.fdTable i).closed) :
    Represents (h.release i) (e :: past) e.after := by
  rw [hafter]
  refine ⟨hrep.live, hrep.issued, fun j => ?_, hrep.inTable, ?_⟩
  · by_cases heq : j = i
    · subst heq
      simp
    · have hne : j.val ≠ i := fun hj => heq (Fin.ext hj)
      rw [e.before.setFd_ne _ heq, hrep.named j, Handles.mem_release]
      simp [hne]
  · rw [openFds_close hcall hret, hrep.history]
    exact (Finset.map_erase _ _ _).symm

theorem Represents.keeps (hlive : ∃ fs, e.after.fileSystem = .live fs)
    (hfds : openFds (e :: past) = openFds past)
    (hcount : e.after.fdOpenCount = e.before.fdOpenCount)
    (hnames : ∀ i, (e.after.fdTable i).filename.text = (e.before.fdTable i).filename.text) :
    Represents h (e :: past) e.after where
  live := hlive
  issued := hcount.trans hrep.issued
  named i := by rw [hnames i, hrep.named i]
  inTable := hrep.inTable
  history := hfds.trans hrep.history

end Steps

/-- What is promised of one call: a descriptor given out is new, the accepted
descriptors are the open ones, and an open slot changes only by a call on it. -/
structure DescriptorsSound (past : List (ApiEvent L N)) (e : ApiEvent L N) : Prop where
  fresh : ∀ noReturn filename, e.call = .fsOpen noReturn filename → e.ret ≠ -1 →
    ∃ i : Fin N, e.ret = i ∧ e.ret ∉ openFds past ∧ (e.after.fdTable i).offset = 0
  accepted : ∀ fd, isValidFD fd e.after = true ↔ fd ∈ openFds (e :: past)
  independent : ∀ i : Fin N, (i : Int) ∈ openFds past → e.call.target ≠ some (i : Int) →
    e.after.fdTable i = e.before.fdTable i

/-- The step of the refinement: every call of a session issues a handle, releases one
or changes none. -/
theorem represents_step {h : Handles} {past : List (ApiEvent L N)} {e : ApiEvent L N}
    (hrep : Represents h past e.before) (hcall : e.call.InSession)
    (hstep : step e.call e.before = .ok (e.ret, e.after)) :
    ∃ h', Represents h' (e :: past) e.after ∧ DescriptorsSound past e := by
  obtain ⟨fs, hfs⟩ := hrep.live
  obtain ⟨hlive, heffect⟩ := tableEffect past hfs hcall hstep
  cases heffect with
  | @opens noReturn filename i hopen hcount hret hname hlength hafter =>
      have hnext := hrep.opens hopen hcount hret hname hlength hafter
      have hissued : h.issued = i := hrep.issued.symm.trans hcount
      have hnew : (i : Int) ∉ openFds past := by
        rw [hrep.mem_openFds, ← hissued]
        exact h.issued_notMem
      refine ⟨_, hnext, ⟨fun _ _ _ _ => ?_, hnext.accepted_iff, fun j hj _ => ?_⟩⟩
      · refine ⟨i, hret, hret ▸ hnew, ?_⟩
        rw [hafter, State.openFd_same, FdTableEntry.offset_opened _ hlength]
      · have hne : j ≠ i := fun heq => hnew (heq ▸ hj)
        rw [hafter, e.before.openFd_ne filename hne]
  | closes i hclose hret hname hafter =>
      have hnext := hrep.closes hclose hret hafter
      refine ⟨_, hnext, ⟨fun _ _ hopen => ?_, hnext.accepted_iff, fun j _ htarget => ?_⟩⟩
      · rw [hclose] at hopen
        cases hopen
      · have hne : j ≠ i := by
          rintro rfl
          exact htarget (by rw [hclose]; rfl)
        rw [hafter, e.before.setFd_ne _ hne]
  | keeps hrefused hfds hcount hnames hslots =>
      have hnext := hrep.keeps hlive hfds hcount hnames
      refine ⟨h, hnext, ⟨fun _ _ hopen hret => absurd (hrefused _ _ hopen) hret,
        hnext.accepted_iff, fun j hj _ => hslots j ?_⟩⟩
      exact (hrep.named j).mpr ((hrep.mem_openFds j).mp hj)

def Call.OnTable (N : Nat) : Call L → Prop
  | .fsOpen noReturn filename =>
      isValidName noReturn filename = true → filename.strlen < fsFilenameLen
  | .fsClose _ => True
  | .fsStat _ => True
  | .fsLseek fd _ => ∃ i : Fin N, fd = i
  | _ => False

theorem Represents.returns {h : Handles} {past : List (ApiEvent L N)} {s : State L N}
    (hrep : Represents h past s) {call : Call L} (hcall : call.OnTable N) :
    ∃ ret next, step call s = .ok (ret, next) := by
  obtain ⟨fs, hlive⟩ := hrep.live
  cases call <;> simp only [Call.OnTable] at hcall
  case fsOpen noReturn filename =>
    exact fsOpen_total hlive hcall (hrep.issued.trans_le hrep.inTable)
  case fsClose fd => exact fsClose_returns fd s
  case fsStat fd =>
    obtain ⟨size, hsize⟩ := fsStat_returns fd hlive
    exact ⟨size, s, by simp [step, hsize, Except.map]⟩
  case fsLseek fd offset =>
    obtain ⟨i, rfl⟩ := hcall
    exact fsLseek_returns i offset

/-- From an unused table on, while one file system stays mounted, every call of a run
keeps the descriptors sound, and no call on a descriptor fails to return. -/
theorem descriptors_sound_throughout {start s : State L N} {past : List (ApiEvent L N)}
    (hlive : ∃ fs, start.fileSystem = .live fs) (hfresh : FreshTable start)
    (hrun : ApiRun start past s) (hcalls : ∀ e ∈ past, e.call.InSession) :
    Throughout DescriptorsSound past ∧ (∀ fd, isValidFD fd s = true ↔ fd ∈ openFds past) ∧
      ∀ call : Call L, call.OnTable N → ∃ ret next, step call s = .ok (ret, next) := by
  obtain ⟨⟨h, hrep⟩, hsound⟩ := hrun.guarded_good (I := fun past s => ∃ h, Represents h past s)
    ⟨_, represents_empty hlive hfresh⟩
    (fun past e ⟨_, hrep⟩ hcall hstep => by
      obtain ⟨h', hnext, hgood⟩ := represents_step hrep hcall hstep
      exact ⟨⟨h', hnext⟩, hgood⟩)
    ((throughout_forall (fun e => e.call.InSession) past).mpr hcalls)
  exact ⟨hsound, hrep.accepted_iff, fun _ hcall => hrep.returns hcall⟩

theorem descriptors_sound_throughout_open :
    Throughout DescriptorsSound [blankOpening] ∧
      (∀ fd, isValidFD fd (openedState : State .packed 32) = true ↔ fd ∈ openFds [blankOpening]) ∧
      ∀ call : Call .packed, call.OnTable 32 →
        ∃ ret next, step call (openedState : State .packed 32) = .ok (ret, next) :=
  descriptors_sound_throughout ⟨_, rfl⟩ (formatted_freshTable blankDir) blankOpening_run
    (by simp [blankOpening, Call.InSession])

end LibFs
