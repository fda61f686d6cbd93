import Mathlib.Data.Fintype.Card
import Mathlib.Data.List.FinRange
import Mathlib.Logic.Function.Basic

/-! Fixed arrays scanned by counting loops. The loop that visits every slot in
index order, may rewrite the slot it visits and threads one accumulator is
`sweep`; the loop that stops at the first match is `firstSlot`. -/
namespace LibFs.Foundation

variable {n : Nat} {α β : Type}

/-- A visit sees the array as the visits before it have left it. -/
def sweep (visit : Fin n → (Fin n → α) → β → β × α) (acc : β) (slots : Fin n → α) :
    β × (Fin n → α) :=
  (List.finRange n).foldl (fun (state : β × (Fin n → α)) i =>
    let out := visit i state.2 state.1
    (out.1, Function.update state.2 i out.2)) (acc, slots)

private theorem sweep_list {visit : Fin n → (Fin n → α) → β → β × α} {f : Fin n → α}
    {g : Fin n → β → β} {slots : Fin n → α}
    (hvisit : ∀ i current acc, (∀ j, i ≤ j → current j = slots j) →
      visit i current acc = (g i acc, f i)) (indices : List (Fin n))
    (hsorted : indices.Pairwise (· < ·)) (acc : β) (current : Fin n → α)
    (hcurrent : ∀ i ∈ indices, ∀ j, i ≤ j → current j = slots j) :
    indices.foldl (fun (state : β × (Fin n → α)) i =>
        ((visit i state.2 state.1).1,
          Function.update state.2 i (visit i state.2 state.1).2)) (acc, current) =
      (indices.foldl (fun acc i => g i acc) acc,
        fun i => if i ∈ indices then f i else current i) := by
  induction indices generalizing acc current with
  | nil => simp
  | cons head tail ih =>
      obtain ⟨hhead, htail⟩ := List.pairwise_cons.mp hsorted
      have hout := hvisit head current acc (hcurrent head List.mem_cons_self)
      -- the visits still to come look at slots behind the one just written
      have hrest : ∀ i ∈ tail, ∀ j, i ≤ j → Function.update current head (f head) j = slots j := by
        intro i hi j hj
        rw [Function.update_of_ne ((hhead i hi).trans_le hj).ne']
        exact hcurrent head List.mem_cons_self j ((hhead i hi).le.trans hj)
      simp only [List.foldl_cons, hout]
      rw [ih htail _ _ hrest]
      refine Prod.ext rfl (funext fun i => ?_)
      by_cases hi : i ∈ tail
      · simp [hi]
      · by_cases heq : i = head
        · subst heq
          simp [hi]
        · simp [hi, heq]

/-- When a visit looks at no slot in front of its own, a sweep rewrites the array from
its old contents. -/
theorem sweep_eq {visit : Fin n → (Fin n → α) → β → β × α} {slots : Fin n → α} (f : Fin n → α)
    (g : Fin n → β → β)
    (hvisit : ∀ i current acc, (∀ j, i ≤ j → current j = slots j) →
      visit i current acc = (g i acc, f i)) (acc : β) :
    sweep visit acc slots = ((List.finRange n).foldl (fun acc i => g i acc) acc, f) := by
  have hlist := sweep_list hvisit (List.finRange n) (List.pairwise_lt_finRange n) acc slots
    fun _ _ _ _ => rfl
  unfold sweep
  rw [hlist]
  simp

theorem foldl_flag (p : Fin n → Bool) :
    (List.finRange n).foldl (fun found i => found || p i) false = decide (∃ i, p i = true) := by
  have hlist (indices : List (Fin n)) (found : Bool) :
      indices.foldl (fun found i => found || p i) found = (found || indices.any p) := by
    induction indices generalizing found with
    | nil => simp
    | cons head tail ih => simp [ih, Bool.or_assoc]
  rw [hlist, Bool.false_or, Bool.eq_iff_iff]
  simp

/-- The slot that a search keeping every match is left with: the last matching
one, or the initial value when there is none. -/
def Kept (p : Fin n → Bool) (slots : Fin n → α) (initial result : α) : Prop :=
  (∃ i, p i = true ∧ (∀ j, i < j → p j = false) ∧ result = slots i) ∨
    ((∀ i, p i = false) ∧ result = initial)

theorem Kept.eq_last {p : Fin n → Bool} {slots : Fin n → α} {initial result : α}
    (h : Kept p slots initial result) {i : Fin n} (hmatch : p i = true)
    (hlast : ∀ j, i < j → p j = false) : result = slots i := by
  rcases h with ⟨k, hk, hafter, rfl⟩ | ⟨hnone, _⟩
  · rcases lt_trichotomy i k with hlt | rfl | hlt
    · rw [hlast k hlt] at hk
      contradiction
    · rfl
    · rw [hafter i hlt] at hmatch
      contradiction
  · rw [hnone i] at hmatch
    contradiction

private theorem foldl_kept_list (p : Fin n → Bool) (slots : Fin n → α) (indices : List (Fin n))
    (hsorted : indices.Pairwise (· < ·)) (initial : α) :
    (∃ i ∈ indices, p i = true ∧ (∀ j ∈ indices, i < j → p j = false) ∧
        indices.foldl (fun kept i => if p i then slots i else kept) initial = slots i) ∨
      ((∀ i ∈ indices, p i = false) ∧
        indices.foldl (fun kept i => if p i then slots i else kept) initial = initial) := by
  induction indices generalizing initial with
  | nil => simp
  | cons head tail ih =>
      obtain ⟨hhead, htail⟩ := List.pairwise_cons.mp hsorted
      simp only [List.foldl_cons]
      rcases ih htail (if p head then slots head else initial) with
        ⟨i, hi, hmatch, hlast, hresult⟩ | ⟨hnone, hresult⟩
      · refine Or.inl ⟨i, List.mem_cons_of_mem _ hi, hmatch, ?_, hresult⟩
        intro j hj hlt
        rcases List.mem_cons.mp hj with rfl | hj
        · exact absurd (hhead i hi) (lt_asymm hlt)
        · exact hlast j hj hlt
      · -- no later slot matches, so the head decides
        cases hp : p head with
        | true =>
            refine Or.inl ⟨head, List.mem_cons_self, hp, ?_, by simpa [hp] using hresult⟩
            intro j hj hlt
            rcases List.mem_cons.mp hj with rfl | hj
            · exact absurd hlt (lt_irrefl _)
            · exact hnone j hj
        | false =>
            refine Or.inr ⟨?_, by simpa [hp] using hresult⟩
            intro j hj
            rcases List.mem_cons.mp hj with rfl | hj
            · exact hp
            · exact hnone j hj

theorem foldl_kept (p : Fin n → Bool) (slots : Fin n → α) (initial : α) :
    Kept p slots initial ((List.finRange n).foldl
      (fun kept i => if p i then slots i else kept) initial) := by
  rcases foldl_kept_list p slots _ (List.pairwise_lt_finRange n) initial with
    ⟨i, _, hmatch, hlast, hresult⟩ | ⟨hnone, hresult⟩
  · exact Or.inl ⟨i, hmatch, fun j => hlast j (List.mem_finRange j), hresult⟩
  · exact Or.inr ⟨fun i => hnone i (List.mem_finRange i), hresult⟩

def firstSlot (p : Fin n → Bool) : Option (Fin n) := (List.finRange n).find? p

theorem firstSlot_none {p : Fin n → Bool} : firstSlot p = none ↔ ∀ i, p i = false := by
  simp [firstSlot]

theorem firstSlot_isSome {p : Fin n → Bool} : (firstSlot p).isSome = true ↔ ∃ i, p i = true := by
  rw [← not_iff_not, Bool.not_eq_true, Option.isSome_eq_false_iff, Option.isNone_iff_eq_none,
    firstSlot_none]
  simp

theorem card_kinds_le {κ μ : Type} [DecidableEq κ] [DecidableEq μ] {before : Fin n → κ}
    {after : Fin n → μ} (h : after.FactorsThrough before) :
    (Finset.univ.image after).card ≤ (Finset.univ.image before).card := by
  rcases isEmpty_or_nonempty (Fin n) with hempty | ⟨⟨i⟩⟩
  · simp
  · have : Nonempty μ := ⟨after i⟩
    obtain ⟨update, rfl⟩ := (Function.factorsThrough_iff after).mp h
    rw [← Finset.image_image]
    exact Finset.card_image_le

/-! Cells written one at a time. A history of writes, newest first, determines the
cells: each holds what was written to it last, or what it held at first. -/

section Writes

variable {ι : Type} [DecidableEq ι]

def replay (original : ι → α) : List (ι × α) → ι → α
  | [] => original
  | write :: past => Function.update (replay original past) write.1 write.2

def latest (past : List (ι × α)) (i : ι) : Option α :=
  (past.find? fun write => write.1 = i).map Prod.snd

theorem replay_eq_latest (original : ι → α) (past : List (ι × α)) (i : ι) :
    replay original past i = (latest past i).getD (original i) := by
  induction past with
  | nil => rfl
  | cons write past ih =>
      by_cases h : write.1 = i
      · simp [replay, latest, h]
      · have hne : i ≠ write.1 := fun heq => h heq.symm
        rw [replay, Function.update_of_ne hne, ih]
        simp [latest, h]

end Writes

end LibFs.Foundation
