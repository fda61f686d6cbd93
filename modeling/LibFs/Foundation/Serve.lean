import LibFs.Foundation.Program

/-! Programs next to a machine that answers their calls. An execution stops anywhere, with
what is left of the program; a call the machine has no answer to is where it has to. What a
program does is proved along the program, with a guard for each call it comes to. -/
namespace LibFs.Foundation

variable {κ ω σ : Type} {ρ : κ → Type}

namespace Program

/-- The calls that have been answered, oldest first, the state and the rest of the program. -/
inductive Exec (serves : σ → Answered κ ρ → σ → Prop) :
    σ → Program κ ρ ω → List (Answered κ ρ) → σ → Program κ ρ ω → Prop where
  | here {state : σ} {program : Program κ ρ ω} : Exec serves state program [] state program
  | call {state middle final : σ} {k : κ} {next : ρ k → Program κ ρ ω} {answer : ρ k}
      {trace : List (Answered κ ρ)} {rest : Program κ ρ ω} :
      serves state ⟨k, answer⟩ middle → Exec serves middle (next answer) trace final rest →
      Exec serves state (.call k next) (⟨k, answer⟩ :: trace) final rest

/-- Each call is made in a state that meets the guard, and the endings meet `P`. -/
def Meets (serves : σ → Answered κ ρ → σ → Prop) (guard : σ → κ → Prop) (P : σ → ω → Prop) :
    σ → Program κ ρ ω → Prop
  | state, .done ending => P state ending
  | state, .call k next => guard state k ∧
      ∀ answer after, serves state ⟨k, answer⟩ after → Meets serves guard P after (next answer)

section Rules

variable {serves : σ → Answered κ ρ → σ → Prop} {guard : σ → κ → Prop} {P : σ → ω → Prop}
  {state final : σ} {program rest : Program κ ρ ω} {trace : List (Answered κ ρ)} {ending : ω}

@[simp] theorem meets_done :
    (Program.done ending : Program κ ρ ω).Meets serves guard P state ↔ P state ending := Iff.rfl

@[simp] theorem meets_call {k : κ} {next : ρ k → Program κ ρ ω} :
    (Program.call k next).Meets serves guard P state ↔ guard state k ∧
      ∀ answer after, serves state ⟨k, answer⟩ after →
        (next answer).Meets serves guard P after := Iff.rfl

theorem meets_ite {c : Prop} [Decidable c] {first second : Program κ ρ ω}
    (hfirst : c → first.Meets serves guard P state)
    (hsecond : ¬ c → second.Meets serves guard P state) :
    (if c then first else second).Meets serves guard P state := by
  split
  · exact hfirst ‹_›
  · exact hsecond ‹_›

theorem Meets.mono {guard' : σ → κ → Prop} {P' : σ → ω → Prop}
    (h : program.Meets serves guard P state) (hguard : ∀ state k, guard state k → guard' state k)
    (hP : ∀ state ending, P state ending → P' state ending) :
    program.Meets serves guard' P' state := by
  induction program generalizing state with
  | done ending => exact hP _ _ h
  | call k next ih => exact ⟨hguard _ _ h.1, fun _ _ hserves => ih _ (h.2 _ _ hserves)⟩

theorem Exec.meets (hexec : Exec serves state program trace final rest)
    (h : program.Meets serves guard P state) : rest.Meets serves guard P final := by
  induction hexec with
  | here => exact h
  | call hserves _ ih => exact ih (h.2 _ _ hserves)

theorem Exec.guarded (hexec : Exec serves state program trace final rest)
    (h : program.Meets serves guard P state) :
    ∀ event ∈ trace, ∃ before after, guard before event.1 ∧ serves before event after := by
  induction hexec with
  | here => simp
  | @call state middle _ k _ answer _ _ hserves _ ih =>
      intro event hmem
      rcases List.mem_cons.mp hmem with rfl | hmem
      · exact ⟨state, middle, h.1, hserves⟩
      · exact ih (h.2 _ _ hserves) event hmem

theorem Exec.kept {I : σ → Prop} (hexec : Exec serves state program trace final rest)
    (h : program.Meets serves guard P state) (hstart : I state)
    (hkept : ∀ state event after, I state → guard state event.1 → serves state event after →
      I after) : I final := by
  induction hexec with
  | here => exact hstart
  | call hserves _ ih => exact ih (h.2 _ _ hserves) (hkept _ _ _ hstart h.1 hserves)

theorem Exec.tail {k : κ} {next : ρ k → Program κ ρ ω} {answer : ρ k}
    (hexec : Exec serves state (.call k next) (⟨k, answer⟩ :: trace) final rest) :
    ∃ middle, serves state ⟨k, answer⟩ middle ∧
      Exec serves middle (next answer) trace final rest := by
  cases hexec with
  | call hserves hexec => exact ⟨_, hserves, hexec⟩

theorem Exec.restrict {serves' : σ → Answered κ ρ → σ → Prop}
    (hexec : Exec serves state program trace final rest)
    (h : ∀ event ∈ trace, ∀ state after, serves state event after → serves' state event after) :
    Exec serves' state program trace final rest := by
  induction hexec with
  | here => exact .here
  | call hserves _ ih =>
      obtain ⟨hevent, htrace⟩ := List.forall_mem_cons.mp h
      exact .call (hevent _ _ hserves) (ih htrace)

theorem Exec.append {middle : σ} {left : Program κ ρ ω} {later : List (Answered κ ρ)}
    (hexec : Exec serves state program trace middle left)
    (hlater : Exec serves middle left later final rest) :
    Exec serves state program (trace ++ later) final rest := by
  induction hexec with
  | here => exact hlater
  | call hserves _ ih => exact .call hserves (ih hlater)

end Rules

end Program

end LibFs.Foundation
