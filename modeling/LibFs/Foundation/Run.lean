import Mathlib.Data.List.Basic

/-! Finite runs of a deterministic machine whose calls may fail to return.
A call that ends in an error reaches no state, so a run records exactly the
calls that returned, newest first. -/
namespace LibFs.Foundation

variable {σ κ ρ ε : Type}

structure Event (σ κ ρ : Type) where
  before : σ
  call : κ
  ret : ρ
  after : σ

inductive Run (step : κ → σ → Except ε (ρ × σ)) (start : σ) :
    List (Event σ κ ρ) → σ → Prop where
  | nil : Run step start [] start
  | snoc {past : List (Event σ κ ρ)} {state next : σ} {call : κ} {ret : ρ} :
      Run step start past state → step call state = .ok (ret, next) →
      Run step start (⟨state, call, ret, next⟩ :: past) next

/-- Each event of a history satisfies `P` together with the events before it. -/
def Throughout (P : List (Event σ κ ρ) → Event σ κ ρ → Prop) : List (Event σ κ ρ) → Prop
  | [] => True
  | event :: past => P past event ∧ Throughout P past

@[simp] theorem throughout_nil (P : List (Event σ κ ρ) → Event σ κ ρ → Prop) :
    Throughout P [] := trivial

@[simp] theorem throughout_cons (P : List (Event σ κ ρ) → Event σ κ ρ → Prop)
    (event : Event σ κ ρ) (past : List (Event σ κ ρ)) :
    Throughout P (event :: past) ↔ P past event ∧ Throughout P past := Iff.rfl

theorem throughout_forall (P : Event σ κ ρ → Prop) (past : List (Event σ κ ρ)) :
    Throughout (fun _ event => P event) past ↔ ∀ event ∈ past, P event := by
  induction past with
  | nil => simp
  | cons event past ih => simp [ih]

variable {step : κ → σ → Except ε (ρ × σ)} {start state : σ} {past : List (Event σ κ ρ)}

section Rules

variable {I : List (Event σ κ ρ) → σ → Prop}
  {allowed guard good : List (Event σ κ ρ) → Event σ κ ρ → Prop}

theorem Run.invariant (hrun : Run step start past state) (hstart : I [] start)
    (hstep : ∀ past event, I past event.before → guard past event →
      step event.call event.before = .ok (event.ret, event.after) →
      I (event :: past) event.after)
    (hguard : Throughout guard past) : I past state := by
  induction hrun with
  | nil => exact hstart
  | @snoc past state next call ret _ hcall ih =>
      obtain ⟨hevent, hpast⟩ := hguard
      exact hstep past ⟨state, call, ret, next⟩ (ih hpast) hevent hcall

theorem Run.guarded_good (hrun : Run step start past state) (hstart : I [] start)
    (hstep : ∀ past event, I past event.before → guard past event →
      step event.call event.before = .ok (event.ret, event.after) →
      I (event :: past) event.after ∧ good past event)
    (hguard : Throughout guard past) : I past state ∧ Throughout good past := by
  refine hrun.invariant (I := fun past state => I past state ∧ Throughout good past)
    ⟨hstart, trivial⟩ ?_ hguard
  intro past event hinv hevent hcall
  obtain ⟨hnext, hgood⟩ := hstep past event hinv.1 hevent hcall
  exact ⟨hnext, hgood, hinv.2⟩

theorem Run.always_good (hrun : Run step start past state) (hstart : I [] start)
    (hstep : ∀ past event, I past event.before →
      step event.call event.before = .ok (event.ret, event.after) →
      I (event :: past) event.after ∧ good past event) : I past state ∧ Throughout good past :=
  hrun.guarded_good hstart (fun past event hinv _ => hstep past event hinv)
    ((throughout_forall (fun _ => True) past).mpr fun _ _ => trivial)

theorem Run.always (hrun : Run step start past state) (hstart : I [] start)
    (hstep : ∀ past event, I past event.before →
      step event.call event.before = .ok (event.ret, event.after) →
      I (event :: past) event.after) : I past state := by
  induction hrun with
  | nil => exact hstart
  | @snoc past state next call ret _ hcall ih => exact hstep past ⟨state, call, ret, next⟩ ih hcall

theorem throughout_and :
    Throughout (fun past event => allowed past event ∧ guard past event) past ↔
      Throughout allowed past ∧ Throughout guard past := by
  induction past with
  | nil => simp
  | cons event past ih =>
      simp only [throughout_cons, ih]
      tauto

/-- When the guard of an allowed call is also necessary for it to be good, a run
of allowed calls is good throughout exactly when it is guarded throughout. -/
theorem Run.guarded_iff_good (hrun : Run step start past state) (hstart : I [] start)
    (hallowed : Throughout allowed past)
    (forward : ∀ past event, I past event.before → allowed past event → guard past event →
      step event.call event.before = .ok (event.ret, event.after) →
      I (event :: past) event.after ∧ good past event)
    (backward : ∀ past event, I past event.before → allowed past event → good past event →
      step event.call event.before = .ok (event.ret, event.after) → guard past event) :
    Throughout guard past ↔ Throughout good past := by
  have carried {past state} (hrun : Run step start past state)
      (hallowed : Throughout allowed past) (hguard : Throughout guard past) :
      I past state ∧ Throughout good past :=
    hrun.guarded_good hstart
      (fun past event hinv hevent => forward past event hinv hevent.1 hevent.2)
      (throughout_and.mpr ⟨hallowed, hguard⟩)
  induction hrun with
  | nil => simp
  | @snoc past state next call ret hrun hcall ih =>
      obtain ⟨hcallAllowed, hpastAllowed⟩ := hallowed
      simp only [throughout_cons]
      constructor
      · rintro ⟨hevent, hpast⟩
        have hinv := (carried hrun hpastAllowed hpast).1
        exact ⟨(forward past _ hinv hcallAllowed hevent hcall).2, (ih hpastAllowed).mp hpast⟩
      · rintro ⟨hevent, hpast⟩
        have hguards := (ih hpastAllowed).mpr hpast
        have hinv := (carried hrun hpastAllowed hguards).1
        exact ⟨backward past _ hinv hcallAllowed hevent hcall, hguards⟩

end Rules

/-! Events of a run taken by themselves. -/

theorem Run.last {event : Event σ κ ρ} (hrun : Run step start (event :: past) state) :
    Run step start past event.before ∧
      step event.call event.before = .ok (event.ret, event.after) ∧ state = event.after := by
  cases hrun with
  | snoc hrun hcall => exact ⟨hrun, hcall, rfl⟩

theorem Run.cut {later : List (Event σ κ ρ)} (hrun : Run step start (later ++ past) state) :
    ∃ middle, Run step start past middle ∧ Run step middle later state := by
  induction later generalizing state with
  | nil => exact ⟨state, hrun, .nil⟩
  | cons event later ih =>
      obtain ⟨hbefore, hcall, rfl⟩ := hrun.last
      obtain ⟨middle, hpast, hlater⟩ := ih hbefore
      exact ⟨middle, hpast, hlater.snoc hcall⟩

/-- A rule of turns: when an event of kind `F` bars those of kind `K` until one of kind `C`
has cleared the way, there is one of these before any of them that comes later. -/
theorem Run.turns {B : σ → Prop} {F K C : Event σ κ ρ → Prop}
    (hrun : Run step start past state)
    (hbars : ∀ event, step event.call event.before = .ok (event.ret, event.after) →
      F event → B event.after)
    (hkeeps : ∀ event, step event.call event.before = .ok (event.ret, event.after) →
      B event.before → ¬ C event → B event.after)
    (hrefuses : ∀ event, step event.call event.before = .ok (event.ret, event.after) →
      B event.before → ¬ K event)
    {later between earlier : List (Event σ κ ρ)} {second first : Event σ κ ρ}
    (hpast : past = later ++ second :: (between ++ first :: earlier)) (hfirst : F first)
    (hsecond : K second) : ∃ event ∈ between, C event := by
  by_contra hnone
  push Not at hnone
  subst hpast
  obtain ⟨_, hrun, _⟩ := hrun.cut
  obtain ⟨hbefore, hcall, _⟩ := hrun.last
  obtain ⟨middle, hmiddle, hbetween⟩ := hbefore.cut
  obtain ⟨_, hfirstCall, rfl⟩ := hmiddle.last
  have hbarred := hbetween.invariant (I := fun _ state => B state)
    (hbars first hfirstCall hfirst)
    (fun _ event hinv hclear hstep => hkeeps event hstep hinv hclear)
    ((throughout_forall (fun event => ¬ C event) between).mpr hnone)
  exact hrefuses second hcall hbarred hsecond

/-! What a machine answers, told by a smaller one. The small machine is never refused and
sees of a call only the question it asks; a relation between its states and those of the
machine that every call keeps makes the two give the same answers in any run. -/

section Simulation

variable {ι α : Type}

/-- The answers to a list of questions, newest first, and the state they lead to. -/
def dialogue (answer : ι → α → ρ × α) (start : α) : List ι → List ρ × α
  | [] => ([], start)
  | question :: past =>
      let told := dialogue answer start past
      let out := answer question told.2
      (out.1 :: told.1, out.2)

def questions (ask : κ → Option ι) (past : List (Event σ κ ρ)) : List ι :=
  past.filterMap fun event => ask event.call

variable {ask : κ → Option ι} {answer : ι → α → ρ × α}

theorem questions_cons {event : Event σ κ ρ} {question : ι}
    (hask : ask event.call = some question) (past : List (Event σ κ ρ)) :
    questions ask (event :: past) = question :: questions ask past := by
  simp [questions, hask]

/-- When every call that asks keeps the relation, the answers of a run of such calls are
those of the small machine, and the relation holds of where the two end. -/
theorem Run.simulated {R : List (Event σ κ ρ) → α → σ → Prop} {abstract : α}
    (hrun : Run step start past state) (hstart : R [] abstract start)
    (hstep : ∀ past event a question, R past a event.before → ask event.call = some question →
      step event.call event.before = .ok (event.ret, event.after) →
      event.ret = (answer question a).1 ∧ R (event :: past) (answer question a).2 event.after)
    (hasks : ∀ event ∈ past, (ask event.call).isSome) :
    past.map Event.ret = (dialogue answer abstract (questions ask past)).1 ∧
      R past (dialogue answer abstract (questions ask past)).2 state := by
  refine hrun.invariant (I := fun past state =>
    past.map Event.ret = (dialogue answer abstract (questions ask past)).1 ∧
      R past (dialogue answer abstract (questions ask past)).2 state) ⟨rfl, hstart⟩ ?_
    ((throughout_forall (fun event => (ask event.call).isSome) past).mpr hasks)
  intro past event hinv hasked hcall
  obtain ⟨question, hquestion⟩ := Option.isSome_iff_exists.mp hasked
  obtain ⟨hret, hnext⟩ := hstep past event _ question hinv.2 hquestion hcall
  rw [questions_cons hquestion, List.map_cons, hret, hinv.1]
  exact ⟨rfl, hnext⟩

end Simulation

end LibFs.Foundation
