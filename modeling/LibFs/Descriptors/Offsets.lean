import LibFs.Descriptors.Linked
import LibFs.Mounting.Lifetime

/-! What becomes of descriptors over the whole life of a process, across any number of
mounts. Slots are given out in order and never given back, no accepted descriptor is ever
moved from the start of its file, and none ever shows a size. -/
namespace LibFs

open LibFs.Foundation

theorem step_table {call : Call L} {s next : State L N} {ret : Int}
    (hcall : ¬ call.InSession) (hstep : step call s = .ok (ret, next)) :
    next.fdTable = s.fdTable ∧ next.fdOpenCount = s.fdOpenCount ∧
      (next.fileSystem = .null → s.fileSystem = .null) := by
  rcases call.kinds with ⟨req, rfl⟩ | ⟨io, rfl⟩ | hsession
  · rcases fsMount_cases (Except.ok.inj hstep : fsMount req s = (ret, next)) with
      ⟨_, _, rfl⟩ | ⟨_, _, _, rfl⟩ | ⟨_, _, _, _, rfl⟩ | ⟨_, _, _, _, rfl⟩
    · exact ⟨rfl, rfl, id⟩
    · exact ⟨rfl, rfl, id⟩
    · exact ⟨rfl, rfl, nofun⟩
    · exact ⟨rfl, rfl, nofun⟩
  · obtain ⟨_, _, _, _, _, rfl⟩ := fsUnmount_cases hstep
    exact ⟨rfl, rfl, nofun⟩
  · exact absurd hsession hcall

theorem step_fits {call : Call L} {s next : State L N} {ret : Int} (hfits : s.fdOpenCount ≤ N)
    (hstep : step call s = .ok (ret, next)) : next.fdOpenCount ≤ N := by
  by_cases hsession : call.InSession
  · cases step_effect hsession hstep with
    | opened i _ _ _ _ hcount _ hnext =>
        have hi := i.isLt
        rw [hnext, State.openFd_fdOpenCount, hcount]
        exact hi
    | unchanged hnext _ _ => exact hnext ▸ hfits
    | created _ _ hnext => exact hnext ▸ hfits
    | deleted _ _ _ hnext => exact hnext ▸ hfits
    | closed i _ _ _ hnext => exact hnext ▸ hfits
    | sought i _ _ hnext => exact hnext ▸ hfits
  · exact (step_table hsession hstep).2.1 ▸ hfits

/-! Descriptors in the order they were returned. -/

def returnedFds : List (ApiEvent L N) → List Int
  | [] => []
  | e :: past =>
      match e.call with
      | .fsOpen _ _ => if e.ret = -1 then returnedFds past else returnedFds past ++ [e.ret]
      | _ => returnedFds past

section Returned

variable {past : List (ApiEvent L N)} {e : ApiEvent L N}

theorem returnedFds_open (past : List (ApiEvent L N)) {noReturn : Bool} {filename : CStr}
    (hcall : e.call = .fsOpen noReturn filename) : returnedFds (e :: past) =
      if e.ret = -1 then returnedFds past else returnedFds past ++ [e.ret] := by
  rw [returnedFds, hcall]

theorem returnedFds_other (hcall : ∀ noReturn filename, e.call ≠ .fsOpen noReturn filename) :
    returnedFds (e :: past) = returnedFds past := by
  obtain ⟨before, call, ret, after⟩ := e
  cases call with
  | fsOpen noReturn filename => exact absurd rfl (hcall noReturn filename)
  | _ => rfl

def firstFds (count : Nat) : List Int := (List.range count).map Nat.cast

theorem firstFds_succ (count : Nat) : firstFds (count + 1) = firstFds count ++ [(count : Int)] := by
  simp [firstFds, List.range_succ]

structure Counted (past : List (ApiEvent L N)) (s : State L N) : Prop where
  returned : returnedFds past = firstFds s.fdOpenCount
  fits : s.fdOpenCount ≤ N

theorem Counted.keep (h : Counted past e.before)
    (hcount : e.after.fdOpenCount = e.before.fdOpenCount)
    (hreturned : returnedFds (e :: past) = returnedFds past) : Counted (e :: past) e.after :=
  ⟨by rw [hreturned, hcount, h.returned], hcount ▸ h.fits⟩

theorem Counted.step (h : Counted past e.before)
    (hstep : step e.call e.before = .ok (e.ret, e.after)) : Counted (e :: past) e.after := by
  have hfits := step_fits h.fits hstep
  by_cases hopen : ∃ noReturn filename, e.call = .fsOpen noReturn filename
  · obtain ⟨noReturn, filename, hcall⟩ := hopen
    have hreturned := returnedFds_open past hcall
    rw [hcall] at hstep
    rcases fsOpen_cases hstep with ⟨hret, hafter, _⟩ | ⟨_, _, _, i, hcount, hret, hafter⟩
    · rw [if_pos hret] at hreturned
      exact h.keep (by rw [hafter]) hreturned
    · have hadded : e.after.fdOpenCount = e.before.fdOpenCount + 1 := by rw [hafter]; rfl
      rw [if_neg (by omega), h.returned, hret, ← hcount] at hreturned
      exact ⟨by rw [hreturned, hadded, firstFds_succ], hfits⟩
  · have hother (noReturn : Bool) (filename : CStr) : e.call ≠ .fsOpen noReturn filename :=
      fun hcall => hopen ⟨noReturn, filename, hcall⟩
    refine h.keep ?_ (returnedFds_other hother)
    by_cases hsession : e.call.InSession
    · cases step_effect hsession hstep with
      | unchanged hafter _ _ => rw [hafter]
      | created _ _ hafter => rw [hafter]
      | deleted _ _ _ hafter => rw [hafter]
      | opened _ hcall _ _ _ _ _ _ => exact absurd hcall (hother _ _)
      | closed i _ _ _ hafter => rw [hafter]; rfl
      | sought i _ _ hafter => rw [hafter]; rfl
    · exact (step_table hsession hstep).2.1

end Returned

theorem counted_of_run {host : Host} {s : State L N} {past : List (ApiEvent L N)}
    (hrun : ApiRun (State.initial host) past s) : Counted past s :=
  hrun.always (I := Counted) ⟨rfl, Nat.zero_le _⟩ fun _ _ hinv hstep => hinv.step hstep

/-- Over the whole life of a process, whatever is mounted, unmounted and closed in between,
the descriptors `fs_open` returns are 0, 1, 2 and so on, and there are never more of them
than the table has slots. -/
theorem descriptors_in_order {host : Host} {s : State L N} {past : List (ApiEvent L N)}
    (hrun : ApiRun (State.initial host) past s) :
    returnedFds past = firstFds s.fdOpenCount ∧ s.fdOpenCount ≤ N := by
  have hcounted := counted_of_run hrun
  exact ⟨hcounted.returned, hcounted.fits⟩

/-! Offsets. -/

/-- Named slots have offset 0, and before anything has been mounted there are none. -/
structure AtStart (s : State L N) : Prop where
  offsets : ∀ i : Fin N, (s.fdTable i).filename.text ≠ [] → (s.fdTable i).offset = 0
  unnamed : s.fileSystem = .null → ∀ i : Fin N, (s.fdTable i).filename.text = []

theorem AtStart.step {call : Call L} {s next : State L N} {ret : Int} (h : AtStart s)
    (hstep : step call s = .ok (ret, next)) : AtStart next := by
  by_cases hsession : call.InSession
  · cases step_effect hsession hstep with
    | unchanged hnext _ _ => exact hnext ▸ h
    | created _ _ hnext =>
        rw [hnext]
        exact ⟨h.offsets, nofun⟩
    | deleted _ _ _ hnext =>
        rw [hnext]
        exact ⟨h.offsets, nofun⟩
    | @opened _ filename fs i _ hlive _ hlength _ _ hnext =>
        rw [hnext]
        refine ⟨fun j hj => ?_, fun hnull => ?_⟩
        · by_cases heq : j = i
          · rw [heq, s.openFd_same, FdTableEntry.offset_opened _ hlength]
          · rw [s.openFd_ne _ heq] at hj ⊢
            exact h.offsets j hj
        · rw [State.openFd_fileSystem, hlive] at hnull
          contradiction
    | closed i _ _ _ hnext =>
        rw [hnext]
        refine ⟨fun j hj => ?_, fun hnull j => ?_⟩
        · by_cases heq : j = i
          · rw [heq, s.setFd_same]
            rfl
          · rw [s.setFd_ne _ heq] at hj ⊢
            exact h.offsets j hj
        · by_cases heq : j = i
          · rw [heq, s.setFd_same, FdTableEntry.text_closed]
          · rw [s.setFd_ne _ heq]
            exact h.unnamed hnull j
    | sought i _ hinvalid hnext =>
        -- only a slot without a name is ever sought in
        have hunnamed : (s.fdTable i).filename.text = [] := by
          cases hpointer : s.fileSystem with
          | null => exact h.unnamed hpointer i
          | _ =>
              by_contra hnamed
              have hvalid := (isValidFD_slot (by simp [hpointer]) i).mpr hnamed
              rw [hvalid] at hinvalid
              contradiction
        rw [hnext]
        refine ⟨fun j hj => ?_, fun hnull j => ?_⟩
        · by_cases heq : j = i
          · rw [heq, s.setFd_same] at hj
            exact absurd hunnamed hj
          · rw [s.setFd_ne _ heq] at hj ⊢
            exact h.offsets j hj
        · by_cases heq : j = i
          · rw [heq, s.setFd_same]
            exact hunnamed
          · rw [s.setFd_ne _ heq]
            exact h.unnamed hnull j
  · obtain ⟨htable, _, hnull⟩ := step_table hsession hstep
    exact ⟨htable ▸ h.offsets, htable ▸ fun hnext => h.unnamed (hnull hnext)⟩

/-- In every state a process can reach, each descriptor that is accepted has offset 0. -/
theorem accepted_at_start {host : Host} {s : State L N} {past : List (ApiEvent L N)}
    (hrun : ApiRun (State.initial host) past s) (i : Fin N)
    (hvalid : isValidFD (i : Nat) s = true) : (s.fdTable i).offset = 0 := by
  have hempty : (FdTableEntry.zero).filename.text = [] := by decide
  have hatStart := hrun.always (I := fun _ s => AtStart s)
    ⟨fun _ hi => absurd hempty hi, fun _ _ => hempty⟩ fun _ _ hinv hstep => hinv.step hstep
  obtain ⟨_, j, heq, hnamed⟩ := isValidFD_iff.mp hvalid
  have hij : i = j := by
    apply Fin.ext
    omega
  exact hatStart.offsets i (hij ▸ hnamed)

/-! Sizes. -/

def SizesHidden (s : State L N) : Prop :=
  ∃ fs, s.fileSystem = .live fs ∧ ∀ i : Fin N, (s.fdTable i).filename.text ≠ [] →
    ∀ j, fs.rootDir.name j = (s.fdTable i).filename.text → (fs.rootDir j).fileSize = 0

section Sizes

variable {s next : State L N} {ret : Int}

theorem SizesHidden.step {call : Call L} (h : SizesHidden s) (hcall : call.InSession)
    (hstep : step call s = .ok (ret, next)) : SizesHidden next := by
  obtain ⟨fs, hlive, hsizes⟩ := h
  cases step_effect hcall hstep with
  | unchanged hnext _ _ =>
      rw [hnext]
      exact ⟨fs, hlive, hsizes⟩
  | @created _ filename _ _ hfs hnext =>
      rw [hlive] at hfs
      cases hfs
      rw [hnext]
      refine ⟨_, rfl, fun i hi j hj => ?_⟩
      by_cases hfree : (fs.rootDir j).live
      · rw [name_fillAll_of_live hfree] at hj
        simp only [fillAll_of_live hfree]
        exact hsizes i hi j hj
      · simp only [fillAll_of_empty hfree]
        rfl
  | @deleted _ _ filename _ _ _ hfs _ hnext =>
      rw [hlive] at hfs
      cases hfs
      rw [hnext]
      refine ⟨_, rfl, fun i hi j hj => ?_⟩
      by_cases hmatch : fs.rootDir.name j = filename.bytes
      · simp only [resetAll_match hmatch]
        rfl
      · rw [resetAll_other hmatch]
        exact hsizes i hi j ((name_resetAll_iff (s.fdTable i).length_text_lt).mp hj)
  | @opened noReturn filename _ i hopen _ _ hlength hcount _ hnext =>
      rw [hopen] at hstep
      have hfresh : ∀ j, fs.rootDir.name j ≠ filename.bytes := by
        rcases fsOpen_live hlive hstep with ⟨_, hsame, _⟩ | ⟨_, _, hfresh, _⟩
        · have hadvanced : next.fdOpenCount = s.fdOpenCount + 1 := by rw [hnext]; rfl
          rw [hsame] at hadvanced
          omega
        · exact hfresh
      rw [hnext]
      refine ⟨fs, hlive, fun k hk j hj => ?_⟩
      by_cases heq : k = i
      · rw [heq, s.openFd_same, FdTableEntry.text_opened _ _ hlength] at hj
        exact absurd hj (hfresh j)
      · rw [s.openFd_ne _ heq] at hk hj
        exact hsizes k hk j hj
  | closed i _ _ _ hnext =>
      rw [hnext]
      refine ⟨fs, hlive, fun k hk j hj => ?_⟩
      by_cases heq : k = i
      · rw [heq, s.setFd_same, FdTableEntry.text_closed] at hk
        exact absurd rfl hk
      · rw [s.setFd_ne _ heq] at hk hj
        exact hsizes k hk j hj
  | sought i _ _ hnext =>
      rw [hnext]
      refine ⟨fs, hlive, fun k hk j hj => ?_⟩
      by_cases heq : k = i
      · rw [heq, s.setFd_same] at hk hj
        exact hsizes i hk j hj
      · rw [s.setFd_ne _ heq] at hk hj
        exact hsizes k hk j hj

theorem SizesHidden.stat {fd size : Int} (h : SizesHidden s) (hstat : fsStat fd s = .ok size) :
    size = if isValidFD fd s then 0 else -1 := by
  obtain ⟨fs, hlive, hsizes⟩ := h
  cases hvalid : isValidFD fd s with
  | false =>
      rw [fsStat_invalid hvalid, Except.ok.injEq] at hstat
      exact hstat.symm
  | true =>
      obtain ⟨_, i, rfl, hnamed⟩ := isValidFD_iff.mp hvalid
      simp only [fsStat, hvalid, hlive, Bool.not_true, Bool.false_eq_true, if_false,
        Pointer.deref_live] at hstat
      cases hentry : statEntry (i : Nat) fs s with
      | none =>
          simp only [hentry, Except.ok.injEq] at hstat
          exact hstat.symm
      | some j =>
          have hfound := List.find?_some hentry
          have hname : (s.fdTable i).filename.text = fs.rootDir.name j := by
            simpa [fdName] using hfound
          simp only [hentry, Except.ok.injEq, hsizes i hnamed j hname.symm] at hstat
          exact hstat.symm

end Sizes

/-- In a session that begins with no descriptor open `fs_stat` answers 0 for every descriptor
that is accepted, whatever the sizes of the files are. -/
theorem stats_hidden {start s : State L N} {past : List (ApiEvent L N)} (hnone : NoneOpen start)
    (hrun : ApiRun start past s) (hcalls : ∀ e ∈ past, e.call.InSession) :
    ∀ e ∈ past, ∀ fd, e.call = .fsStat fd →
      e.ret = if isValidFD fd e.before then 0 else -1 := by
  obtain ⟨⟨fs, hlive⟩, hunnamed⟩ := hnone
  have hstart : SizesHidden start := ⟨fs, hlive, fun i hi => absurd (hunnamed i) hi⟩
  refine (throughout_forall (fun e => ∀ fd, e.call = .fsStat fd →
    e.ret = if isValidFD fd e.before then 0 else -1) past).mp ?_
  refine (hrun.guarded_good (I := fun _ s => SizesHidden s) hstart
    (fun past e hinv hcall hstep => ⟨hinv.step hcall hstep, fun fd hstat => ?_⟩)
    ((throughout_forall (fun e => e.call.InSession) past).mpr hcalls)).2
  rw [hstat] at hstep
  obtain ⟨size, hsize⟩ := fsStat_returns fd hinv.choose_spec.1
  simp only [step, hsize, Except.map, Except.ok.injEq, Prod.mk.injEq] at hstep
  rw [← hstep.1]
  exact hinv.stat hsize

/-- The file "a" opened on a blank directory, and asked for its size. -/
theorem stats_hidden_open :
    (0 : Int) = if isValidFD 0 (openedState : State .packed 32) then 0 else -1 := by
  obtain ⟨_, _, hstat⟩ := opened_unlinked (s := (formattedState blankDir : State .packed 32)) 0 rfl
    (by decide : nameA.bytes ≠ []) (by decide) blankDir_lacks
  have hstep : step (.fsStat 0) (openedState : State .packed 32) = .ok (0, openedState) := by
    have hsize : fsStat 0 (openedState : State .packed 32) = .ok 0 := hstat
    simp [step, hsize, Except.map]
  have hnone : NoneOpen (formattedState blankDir : State .packed 32) :=
    ⟨⟨_, rfl⟩, fun _ => (by decide : (FdTableEntry.zero).filename.text = [])⟩
  exact stats_hidden hnone (blankOpening_run.snoc hstep)
    (by simp [blankOpening, Call.InSession]) ⟨openedState, .fsStat 0, 0, openedState⟩
    List.mem_cons_self 0 rfl

theorem freshOpen_run : ∃ s : State .packed 32,
    ApiRun freshStart [⟨s, .fsOpen true nameA, 0, s.openFd 0 nameA⟩,
      ⟨freshStart, .fsMount freshMount, 0, s⟩] (s.openFd 0 nameA) ∧ s.fdOpenCount = 0 ∧
      isValidFD 0 (s.openFd 0 nameA) = true := by
  obtain ⟨s, hmount⟩ := freshMount_returns
  obtain ⟨fs, _, hlive, _, _, hcount, hunnamed⟩ := freshMount_unnamed hmount
  have hmountStep : step (.fsMount freshMount) freshStart = .ok (0, s) := congrArg Except.ok hmount
  have hopenStep : step (.fsOpen true nameA) s = .ok (0, s.openFd 0 nameA) :=
    fsOpen_returns (i := 0) hlive (by decide) (by decide)
      (fun i => (hunnamed i).trans_ne (by decide)) hcount
  exact ⟨s, .snoc (.snoc .nil hmountStep) hopenStep, hcount,
    isValidFD_openFd (0 : Fin 32) hlive (by decide) (by decide)⟩

theorem descriptors_in_order_open : ∃ s : State .packed 32,
    returnedFds [⟨s, .fsOpen true nameA, 0, s.openFd 0 nameA⟩,
      ⟨freshStart, .fsMount freshMount, 0, s⟩] = firstFds (s.openFd 0 nameA).fdOpenCount := by
  obtain ⟨s, hrun, _⟩ := freshOpen_run
  exact ⟨s, (descriptors_in_order hrun).1⟩

theorem accepted_at_start_open : ∃ s : State .packed 32,
    isValidFD 0 (s.openFd 0 nameA) = true ∧ ((s.openFd 0 nameA).fdTable 0).offset = 0 := by
  obtain ⟨s, hrun, _, hvalid⟩ := freshOpen_run
  exact ⟨s, hvalid, accepted_at_start hrun 0 hvalid⟩

end LibFs
