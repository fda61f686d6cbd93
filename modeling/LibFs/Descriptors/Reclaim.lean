import LibFs.Descriptors.Allocation

/-! What becomes of a closed slot. `fs_close` empties the slot and leaves the counter,
so the count of open descriptors is right until the first close that succeeds and
never again. -/
namespace LibFs

open LibFs.Foundation

def Call.OpensOrCloses : Call L → Prop
  | .fsOpen _ _ => True
  | .fsClose _ => True
  | _ => False

theorem Call.OpensOrCloses.inSession {call : Call L} (h : call.OpensOrCloses) :
    call.InSession := by
  cases call <;> trivial

def NothingClosed (e : ApiEvent L N) : Prop :=
  ∀ fd, e.call = .fsClose fd → isValidFD fd e.before = false

/-- What is promised of one call: the counter is the number of open descriptors, and
a valid name meets a full table only when all descriptors are open. -/
structure SlotsReclaimed (past : List (ApiEvent L N)) (e : ApiEvent L N) : Prop where
  counted : e.after.fdOpenCount = (openFds (e :: past)).card
  full : ∀ noReturn filename, e.call = .fsOpen noReturn filename →
    isValidName noReturn filename = true → e.before.fdOpenCount = N → (openFds past).card = N

section Steps

variable {h : Handles} {past : List (ApiEvent L N)} {e : ApiEvent L N}

theorem Represents.counted_iff {s : State L N} (hrep : Represents h past s) :
    s.fdOpenCount = (openFds past).card ↔ h.AllHeld := by
  rw [hrep.issued, hrep.card_openFds]
  exact eq_comm

theorem slotsReclaimed_of_nothingClosed (hrep : Represents h past e.before) (hall : h.AllHeld)
    (hcall : e.call.OpensOrCloses) (hguard : NothingClosed e)
    (hstep : step e.call e.before = .ok (e.ret, e.after)) :
    (∃ h', Represents h' (e :: past) e.after ∧ h'.AllHeld) ∧ SlotsReclaimed past e := by
  have hcounted := hrep.counted_iff.mpr hall
  have hnext : ∃ h', Represents h' (e :: past) e.after ∧ h'.AllHeld := by
    obtain ⟨fs, hfs⟩ := hrep.live
    obtain ⟨hlive, heffect⟩ := tableEffect past hfs hcall.inSession hstep
    cases heffect with
    | opens i hopen hcount hret hname hlength hafter =>
        exact ⟨_, hrep.opens hopen hcount hret hname hlength hafter, hall.issue⟩
    | closes i hclose hret hname hafter =>
        have hvalid := (isValidFD_slot (by simp [hfs]) i).mpr hname
        rw [hguard i hclose] at hvalid
        contradiction
    | keeps hrefused hfds hcount hnames hslots =>
        exact ⟨h, hrep.keeps hlive hfds hcount hnames, hall⟩
  obtain ⟨h', hrep', hall'⟩ := hnext
  exact ⟨⟨h', hrep', hall'⟩, hrep'.counted_iff.mpr hall',
    fun _ _ _ _ hfull => hcounted.symm.trans hfull⟩

theorem nothingClosed_of_slotsReclaimed (hrep : Represents h past e.before) (hall : h.AllHeld)
    (hgood : SlotsReclaimed past e) (hstep : step e.call e.before = .ok (e.ret, e.after)) :
    NothingClosed e := by
  intro fd hclose
  rw [hclose] at hstep
  rcases fsClose_cases hstep with ⟨_, _, hinvalid⟩ | ⟨hret, hvalid, i, rfl, hafter⟩
  · exact hinvalid
  · exfalso
    have hreleased := (hrep.closes hclose hret hafter).counted_iff.mp hgood.counted
    have hheld : i.val ∈ h.held :=
      (hrep.mem_openFds i).mp ((hrep.accepted_iff i).mp hvalid)
    exact hall.not_release hheld hreleased

end Steps

/-- Over a run of opens and closes the counter is the number of open descriptors if
and only if no close succeeds. -/
theorem slots_reclaimed_throughout_iff {start s : State L N} {past : List (ApiEvent L N)}
    (hlive : ∃ fs, start.fileSystem = .live fs) (hfresh : FreshTable start)
    (hrun : ApiRun start past s) (hcalls : ∀ e ∈ past, e.call.OpensOrCloses) :
    (∀ e ∈ past, NothingClosed e) ↔ Throughout SlotsReclaimed past := by
  rw [← throughout_forall NothingClosed]
  exact hrun.guarded_iff_good (I := fun past s => ∃ h, Represents h past s ∧ h.AllHeld)
    ⟨_, represents_empty hlive hfresh, Handles.allHeld_empty⟩
    ((throughout_forall (fun e => e.call.OpensOrCloses) past).mpr hcalls)
    (fun _ _ ⟨_, hrep, hall⟩ hcall hguard hstep =>
      slotsReclaimed_of_nothingClosed hrep hall hcall hguard hstep)
    (fun _ _ ⟨_, hrep, hall⟩ _ hgood hstep =>
      nothingClosed_of_slotsReclaimed hrep hall hgood hstep)

def closedState : State L 32 :=
  (openedState : State L 32).setFd 0 ((openedState : State L 32).fdTable 0).closed

def openedClosing : ApiEvent .packed 32 := ⟨openedState, .fsClose 0, 0, closedState⟩

theorem openedClosing_run :
    ApiRun (formattedState blankDir) [openedClosing, blankOpening] closedState := by
  have hvalid : isValidFD 0 (openedState : State .packed 32) = true :=
    isValidFD_openFd (0 : Fin 32) rfl (by decide) (by decide)
  have hclose : fsClose 0 (openedState : State .packed 32) = .ok (0, closedState) :=
    fsClose_closes (i := (0 : Fin 32)) hvalid
  exact .snoc blankOpening_run hclose

theorem openedClosing_calls : ∀ e ∈ [openedClosing, blankOpening],
    e.call.OpensOrCloses ∧ e.call.OnFiles := by
  intro e he
  rcases List.mem_cons.mp he with rfl | hopening
  · exact ⟨trivial, trivial⟩
  · refine ⟨?_, blankOpening_onFiles e hopening⟩
    rw [List.mem_singleton.mp hopening]
    trivial

theorem slots_reclaimed_throughout_iff_open :
    (∀ e ∈ [openedClosing, blankOpening], NothingClosed e) ↔
      Throughout SlotsReclaimed [openedClosing, blankOpening] :=
  slots_reclaimed_throughout_iff ⟨_, rfl⟩ (formatted_freshTable blankDir) openedClosing_run
    fun e he => (openedClosing_calls e he).1

/-- Opening "a" and closing it leaves the counter at 1 and nothing open. -/
theorem slots_reclaimed_refuted :
    ¬ ∀ (start s : State .packed 32) (fs : FsSystem .packed) (past : List (ApiEvent .packed 32)),
      Mounted start fs → FreshTable start → ApiRun start past s →
        (∀ e ∈ past, e.call.OpensOrCloses ∧ e.call.OnFiles) → Throughout SlotsReclaimed past := by
  intro hallReclaimed
  have hreclaimed := hallReclaimed _ _ _ _ (formatted_mounted blankDir)
    (formatted_freshTable blankDir) openedClosing_run openedClosing_calls
  have hcount : (1 : Nat) = 0 := hreclaimed.1.counted
  exact absurd hcount (by decide)

end LibFs
