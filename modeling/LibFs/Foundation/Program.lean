import Mathlib.Data.List.Induction

/-! Programs that make calls and end. What a program does next depends on the answers it
gets, so its behaviour is the set of its paths: the calls with their answers, oldest first,
and the ending they lead to. A property of all paths is checked along the program by a
monitor that reads each event once. -/
namespace LibFs.Foundation

inductive Program (κ : Type) (ρ : κ → Type) (ω : Type) : Type where
  | done (ending : ω)
  | call (k : κ) (next : ρ k → Program κ ρ ω)

variable {κ ω σ : Type} {ρ : κ → Type}

abbrev Answered (κ : Type) (ρ : κ → Type) := (k : κ) × ρ k

inductive Program.Path : Program κ ρ ω → List (Answered κ ρ) → ω → Prop where
  | done (ending : ω) : Path (.done ending) [] ending
  | call {k : κ} {next : ρ k → Program κ ρ ω} {answer : ρ k} {trace : List (Answered κ ρ)}
      {ending : ω} : Path (next answer) trace ending →
      Path (.call k next) (⟨k, answer⟩ :: trace) ending

/-- Whatever the answers, the monitor ends in a state that satisfies `P`. -/
def Program.Ends (step : σ → Answered κ ρ → σ) (P : σ → ω → Prop) : σ → Program κ ρ ω → Prop
  | state, .done ending => P state ending
  | state, .call k next => ∀ answer, Ends step P (step state ⟨k, answer⟩) (next answer)

section Rules

variable {step : σ → Answered κ ρ → σ} {P : σ → ω → Prop} {state : σ}

@[simp] theorem Program.ends_done {ending : ω} :
    (Program.done ending : Program κ ρ ω).Ends step P state ↔ P state ending := Iff.rfl

@[simp] theorem Program.ends_call {k : κ} {next : ρ k → Program κ ρ ω} :
    (Program.call k next).Ends step P state ↔
      ∀ answer, (next answer).Ends step P (step state ⟨k, answer⟩) := Iff.rfl

@[simp] theorem Program.ends_ite {c : Prop} [Decidable c] {first second : Program κ ρ ω} :
    (if c then first else second).Ends step P state ↔
      (c → first.Ends step P state) ∧ (¬c → second.Ends step P state) := by
  by_cases hc : c <;> simp [hc]

/-- The rule of the monitor: what it ends in along the program it ends in on every path. -/
theorem Program.Path.ends {program : Program κ ρ ω} {trace : List (Answered κ ρ)} {ending : ω}
    (hpath : program.Path trace ending) (h : program.Ends step P state) :
    P (trace.foldl step state) ending := by
  induction hpath generalizing state with
  | done ending => exact h
  | call _ ih => exact ih (h _)

end Rules

/-! A resource that events acquire and release, and events that are faulty when it is held. -/

structure Events (ε : Type) where
  acquires : ε → Bool
  releases : ε → Bool
  faulty : ε → Bool

/-- The resource is held, and a faulty event has occurred while it was. -/
structure Watch where
  held : Bool
  blamed : Bool

variable {ε : Type}

def Watch.step (events : Events ε) (watch : Watch) (event : ε) : Watch where
  held := events.acquires event || (watch.held && !events.releases event)
  blamed := watch.blamed || (watch.held && events.faulty event)

def watch (events : Events ε) (trace : List ε) : Watch :=
  trace.foldl (Watch.step events) ⟨false, false⟩

def AllReleased (events : Events ε) (trace : List ε) : Prop :=
  ∀ before event after, trace = before ++ event :: after → events.acquires event = true →
    ∃ later ∈ after, events.releases later = true

/-- Each faulty event occurs when all that was acquired has been released. -/
def FaultsUnheld (events : Events ε) (trace : List ε) : Prop :=
  ∀ before event after, trace = before ++ event :: after → events.faulty event = true →
    AllReleased events before

section Watching

variable {events : Events ε} {trace : List ε}

theorem watch_concat (trace : List ε) (event : ε) :
    watch events (trace ++ [event]) = (watch events trace).step events event := by
  simp [watch]

theorem forall_concat_iff {P : List ε → ε → List ε → Prop} {last : ε} :
    (∀ before event after, trace ++ [last] = before ++ event :: after → P before event after) ↔
      (∀ before event after, trace = before ++ event :: after →
        P before event (after ++ [last])) ∧ P trace last [] := by
  constructor
  · intro hall
    refine ⟨fun before event after heq => hall _ _ _ (by simp [heq]), hall _ _ _ rfl⟩
  · rintro ⟨hbefore, hlast⟩ before event after heq
    rcases List.eq_nil_or_concat after with rfl | ⟨after, final, rfl⟩
    · obtain ⟨rfl, hevent⟩ := List.append_inj' heq rfl
      cases hevent
      exact hlast
    · rw [List.concat_eq_append, ← List.cons_append, ← List.append_assoc] at heq
      obtain ⟨htrace, hfinal⟩ := List.append_inj' heq rfl
      cases hfinal
      rw [List.concat_eq_append]
      exact hbefore _ _ _ htrace

theorem watch_held_iff : (watch events trace).held = false ↔ AllReleased events trace := by
  induction trace using List.reverseRecOn with
  | nil => simp [watch, AllReleased]
  | append_singleton trace last ih =>
      unfold AllReleased at ih ⊢
      rw [watch_concat, forall_concat_iff]
      cases hacquires : events.acquires last with
      | true => simp [Watch.step, hacquires]
      | false =>
          cases hreleases : events.releases last with
          | true => simp [Watch.step, hacquires, hreleases]
          | false => simpa [Watch.step, hacquires, hreleases] using ih

theorem watch_blamed_iff : (watch events trace).blamed = false ↔ FaultsUnheld events trace := by
  induction trace using List.reverseRecOn with
  | nil => simp [watch, FaultsUnheld]
  | append_singleton trace last ih =>
      unfold FaultsUnheld at ih ⊢
      rw [watch_concat, forall_concat_iff, ← ih, ← watch_held_iff]
      cases hfaulty : events.faulty last <;> simp [Watch.step, hfaulty]

end Watching

end LibFs.Foundation
