import Mathlib.Data.List.Nodup
import Mathlib.Data.Set.Insert
import Mathlib.Logic.Function.Iterate

/-! Chains threaded through an array whose entries name the next element. Only
the links are looked at: the array is a function and the chain a list. -/
namespace LibFs.Foundation

variable {κ : Type}

/-- Following `link` from `first` visits `chain` in order and arrives at `stop`. -/
def Linked (link : κ → κ) (stop : κ) : κ → List κ → Prop
  | first, [] => first = stop
  | first, head :: tail => first = head ∧ Linked link stop (link head) tail

theorem Linked.unique {link : κ → κ} {stop first : κ} {left right : List κ}
    (hleft : Linked link stop first left) (hright : Linked link stop first right)
    (hlength : left.length = right.length) : left = right := by
  induction left generalizing first right with
  | nil => exact (List.length_eq_zero_iff.mp hlength.symm).symm
  | cons head tail ih =>
      cases right with
      | nil => simp at hlength
      | cons head' tail' =>
          obtain ⟨rfl, hleft⟩ := hleft
          obtain ⟨rfl, hright⟩ := hright
          rw [ih hleft hright (by simpa using hlength)]

/-- Frame rule: a chain does not see changes made off it. -/
theorem Linked.congr {link link' : κ → κ} {stop first : κ} {chain : List κ}
    (h : Linked link stop first chain) (hsame : ∀ k ∈ chain, link' k = link k) :
    Linked link' stop first chain := by
  induction chain generalizing first with
  | nil => exact h
  | cons head tail ih =>
      obtain ⟨rfl, htail⟩ := h
      refine ⟨rfl, ?_⟩
      rw [hsame first List.mem_cons_self]
      exact ih htail fun k hk => hsame k (List.mem_cons_of_mem _ hk)

/-! What a walk that overwrites the entries it has seen leaves of the links. -/

structure Overwritten (free : κ) (seen : Set κ) (link link' : κ → κ) : Prop where
  inside : ∀ k ∈ seen, link' k = free
  outside : ∀ k ∉ seen, link' k = link k

theorem Overwritten.start {free : κ} {link : κ → κ} : Overwritten free ∅ link link :=
  ⟨by simp, by simp⟩

def ClosedUpTo (link : κ → κ) (seen : Set κ) (current : κ) : Prop :=
  ∀ k ∈ seen, link k ∈ seen ∨ link k = current

section Seen

variable {link : κ → κ} {seen : Set κ} {current : κ}

theorem ClosedUpTo.visit (h : ClosedUpTo link seen current) :
    ClosedUpTo link (insert current seen) (link current) := by
  intro k hk
  rcases hk with rfl | hk
  · exact Or.inr rfl
  · rcases h k hk with hseen | heq
    · exact Or.inl (Set.mem_insert_of_mem _ hseen)
    · exact Or.inl (heq ▸ Set.mem_insert _ _)

theorem ClosedUpTo.iterate (h : ClosedUpTo link seen current) (hcurrent : current ∈ seen)
    (j : Nat) : link^[j] current ∈ seen := by
  induction j with
  | zero => exact hcurrent
  | succ j ih =>
      rw [Function.iterate_succ_apply']
      rcases h _ ih with hseen | heq
      · exact hseen
      · rw [heq]
        exact hcurrent

theorem exists_iterate_succ {count : Nat} {k : κ} :
    (∃ j < count + 1, link^[j] current = k) ↔
      k = current ∨ ∃ j < count, link^[j] (link current) = k := by
  constructor
  · rintro ⟨j, hj, rfl⟩
    cases j with
    | zero => exact Or.inl rfl
    | succ j => exact Or.inr ⟨j, Nat.lt_of_succ_lt_succ hj, rfl⟩
  · rintro (rfl | ⟨j, hj, rfl⟩)
    · exact ⟨0, Nat.succ_pos _, rfl⟩
    · exact ⟨j + 1, Nat.succ_lt_succ hj, rfl⟩

def Revisits (link : κ → κ) (seen : Set κ) (current : κ) (r : Nat) : Prop :=
  link^[r] current ∈ seen ∨ ∃ q < r, link^[q] current = link^[r] current

theorem revisits_succ {r : Nat} : Revisits link seen current (r + 1) ↔
    Revisits link (insert current seen) (link current) r := by
  unfold Revisits
  constructor
  · rintro (hseen | ⟨q, hq, heq⟩)
    · exact Or.inl (Set.mem_insert_of_mem _ hseen)
    · cases q with
      | zero => exact Or.inl (Or.inl heq.symm)
      | succ q => exact Or.inr ⟨q, Nat.lt_of_succ_lt_succ hq, heq⟩
  · rintro ((heq | hseen) | ⟨q, hq, heq⟩)
    · exact Or.inr ⟨0, Nat.succ_pos _, heq.symm⟩
    · exact Or.inl hseen
    · exact Or.inr ⟨q + 1, Nat.succ_lt_succ hq, heq⟩

end Seen

variable [DecidableEq κ]

/-- Walk `count` links from `current`, overwriting each visited entry by `free`. -/
def unlink (free : κ) : Nat → κ → (κ → κ) → (κ → κ)
  | 0, _, link => link
  | count + 1, current, link =>
      unlink free count (link current) (Function.update link current free)

theorem unlink_same_or_free (free : κ) (count : Nat) (current : κ) (link : κ → κ) (k : κ) :
    unlink free count current link k = link k ∨ unlink free count current link k = free := by
  induction count generalizing current link with
  | zero => exact Or.inl rfl
  | succ count ih =>
      rcases ih (link current) (Function.update link current free) with hsame | hfree
      · rw [unlink, hsame]
        by_cases hk : k = current
        · subst hk
          exact Or.inr (Function.update_self ..)
        · exact Or.inl (Function.update_of_ne hk ..)
      · exact Or.inr hfree

theorem unlink_linked (free : κ) {link : κ → κ} {stop first : κ} {chain : List κ} {count : Nat}
    (hlinked : Linked link stop first chain) (hnodup : chain.Nodup)
    (hcount : count ≤ chain.length) :
    unlink free count first link = fun k => if k ∈ chain.take count then free else link k := by
  induction chain generalizing first link count with
  | nil =>
      have hzero : count = 0 := Nat.le_zero.mp hcount
      simp [hzero, unlink]
  | cons head tail ih =>
      cases count with
      | zero => simp [unlink]
      | succ count =>
          obtain ⟨rfl, htail⟩ := hlinked
          obtain ⟨hhead, hnodup⟩ := List.nodup_cons.mp hnodup
          have hframe : ∀ k ∈ tail, Function.update link first free k = link k := by
            intro k hk
            have hne : k ≠ first := fun heq => hhead (heq ▸ hk)
            exact Function.update_of_ne hne _ _
          rw [unlink, ih (htail.congr hframe) hnodup (Nat.le_of_succ_le_succ hcount)]
          funext k
          by_cases hk : k ∈ tail.take count
          · simp [hk]
          · by_cases heq : k = first
            · subst heq
              simp [hk]
            · simp [hk, heq]

/-! The entries such a walk comes to. It follows the links it found as long as they lead
somewhere new; an entry it has overwritten sends it to `free`, and from `free` the same
happens once more. -/

def visits (free : κ) : Nat → κ → (κ → κ) → List κ
  | 0, _, _ => []
  | count + 1, current, link =>
      current :: visits free count (link current) (Function.update link current free)

section Visits

variable {free current k : κ} {seen : Set κ} {link link' : κ → κ} {count : Nat}

theorem Overwritten.visit (h : Overwritten free seen link link') (current : κ) :
    Overwritten free (insert current seen) link (Function.update link' current free) := by
  constructor
  · intro k hk
    by_cases heq : k = current
    · rw [heq, Function.update_self]
    · rw [Function.update_of_ne heq]
      exact h.inside k (Set.mem_of_mem_insert_of_ne hk heq)
  · intro k hk
    rw [Set.mem_insert_iff, not_or] at hk
    rw [Function.update_of_ne hk.1]
    exact h.outside k hk.2

theorem Overwritten.update_same (h : Overwritten free seen link link')
    (hcurrent : current ∈ seen) : Function.update link' current free = link' := by
  rw [← h.inside current hcurrent, Function.update_eq_self]

theorem visits_stuck (h : Overwritten free seen link link') (hfree : free ∈ seen) :
    visits free count free link' = List.replicate count free := by
  induction count with
  | zero => rfl
  | succ count ih =>
      rw [visits, h.inside free hfree, h.update_same hfree, ih]
      rfl

theorem mem_visits_restarted (h : Overwritten free seen link link')
    (hclosed : ClosedUpTo link seen current) (hfree : free ∈ seen ∨ current = free) :
    (k ∈ visits free count current link' ∨ k ∈ seen) ↔
      (∃ j < count, link^[j] current = k) ∨ k ∈ seen := by
  induction count generalizing current seen link' with
  | zero => simp [visits]
  | succ count ih =>
      by_cases hcurrent : current ∈ seen
      · have hin : free ∈ seen := hfree.elim id fun heq => heq ▸ hcurrent
        rw [visits, h.inside current hcurrent, h.update_same hcurrent, visits_stuck h hin]
        constructor
        · rintro (hk | hk)
          · rcases List.mem_cons.mp hk with rfl | hk
            · exact Or.inr hcurrent
            · exact Or.inr (List.eq_of_mem_replicate hk ▸ hin)
          · exact Or.inr hk
        · rintro (⟨j, _, rfl⟩ | hk)
          · exact Or.inr (hclosed.iterate hcurrent j)
          · exact Or.inr hk
      · have hin : free ∈ insert current seen :=
          hfree.elim (Set.mem_insert_of_mem _) fun heq => heq ▸ Set.mem_insert _ _
        have hrest := ih (h.visit current) hclosed.visit (Or.inl hin)
        rw [Set.mem_insert_iff] at hrest
        rw [visits, h.outside current hcurrent, List.mem_cons, exists_iterate_succ, or_assoc,
          or_left_comm, hrest, or_left_comm, ← or_assoc]

/-- The entries a walk comes to are those it finds by following the links, and those that
follow `free` for the steps left after an entry has been visited again. -/
theorem mem_visits_from (h : Overwritten free seen link link')
    (hclosed : ClosedUpTo link seen current) :
    (k ∈ visits free count current link' ∨ k ∈ seen) ↔
      ((∃ j < count, link^[j] current = k) ∨
        ∃ r j, r + 1 + j < count ∧ Revisits link seen current r ∧ link^[j] free = k) ∨
      k ∈ seen := by
  induction count generalizing current seen link' with
  | zero => simp [visits]
  | succ count ih =>
      by_cases hcurrent : current ∈ seen
      · have hall : ClosedUpTo link seen free := by
          intro k hk
          rcases hclosed k hk with hseen | heq
          · exact Or.inl hseen
          · exact Or.inl (heq ▸ hcurrent)
        have hrest : (k ∈ visits free count free link' ∨ k ∈ seen) ↔
            (∃ j < count, link^[j] free = k) ∨ k ∈ seen :=
          mem_visits_restarted h hall (Or.inr rfl)
        rw [visits, h.inside current hcurrent, h.update_same hcurrent, List.mem_cons]
        constructor
        · rintro ((rfl | hk) | hk)
          · exact Or.inr hcurrent
          · rcases hrest.mp (Or.inl hk) with ⟨j, hj, heq⟩ | hseen
            · exact Or.inl (Or.inr ⟨0, j, by omega, Or.inl hcurrent, heq⟩)
            · exact Or.inr hseen
          · exact Or.inr hk
        · rintro ((⟨j, _, rfl⟩ | ⟨r, j, hj, _, heq⟩) | hk)
          · exact Or.inr (hclosed.iterate hcurrent j)
          · rcases hrest.mpr (Or.inl ⟨j, by omega, heq⟩) with hvisited | hseen
            · exact Or.inl (Or.inr hvisited)
            · exact Or.inr hseen
          · exact Or.inr hk
      · have hrest := ih (h.visit current) hclosed.visit
        have hshift : (∃ r j, r + 1 + j < count + 1 ∧ Revisits link seen current r ∧
            link^[j] free = k) ↔ ∃ r j, r + 1 + j < count ∧
              Revisits link (insert current seen) (link current) r ∧ link^[j] free = k := by
          constructor
          · rintro ⟨r, j, hj, hrevisits, heq⟩
            cases r with
            | zero =>
                rcases hrevisits with hseen | ⟨q, hq, _⟩
                · exact absurd hseen hcurrent
                · exact absurd hq (Nat.not_lt_zero q)
            | succ r => exact ⟨r, j, by omega, revisits_succ.mp hrevisits, heq⟩
          · rintro ⟨r, j, hj, hrevisits, heq⟩
            exact ⟨r + 1, j, by omega, revisits_succ.mpr hrevisits, heq⟩
        rw [Set.mem_insert_iff] at hrest
        rw [visits, h.outside current hcurrent, List.mem_cons, exists_iterate_succ, hshift,
          or_assoc, or_left_comm, hrest, or_left_comm, ← or_assoc, ← or_assoc]

theorem forall_visits_iff {first : κ} {P : κ → Prop} :
    (∀ k ∈ visits free count first link, P k) ↔
      (∀ j < count, P (link^[j] first)) ∧
        ∀ q r j, q < r → link^[q] first = link^[r] first → r + 1 + j < count →
          P (link^[j] free) := by
  have hstart : Overwritten free ∅ link link := Overwritten.start
  have hclosed : ClosedUpTo link ∅ first := by simp [ClosedUpTo]
  have hmem (k : κ) : (k ∈ visits free count first link ∨ k ∈ (∅ : Set κ)) ↔ _ :=
    mem_visits_from hstart hclosed
  simp only [Set.mem_empty_iff_false, or_false, Revisits, false_or] at hmem
  constructor
  · intro hall
    refine ⟨fun j hj => hall _ ((hmem _).mpr (Or.inl ⟨j, hj, rfl⟩)), ?_⟩
    intro q r j hq heq hj
    exact hall _ ((hmem _).mpr (Or.inr ⟨r, j, hj, ⟨q, hq, heq⟩, rfl⟩))
  · rintro ⟨hchain, hrestart⟩ k hk
    rcases (hmem k).mp hk with ⟨j, hj, rfl⟩ | ⟨r, j, hj, ⟨q, hq, heq⟩, rfl⟩
    · exact hchain j hj
    · exact hrestart q r j hq heq hj

end Visits

end LibFs.Foundation
