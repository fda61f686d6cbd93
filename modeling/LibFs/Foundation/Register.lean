import Mathlib.Data.Fintype.Basic
import Mathlib.Data.Finset.Image

/-! An array of names, each marked as taken or free, and what can be said of it without
its slots: which names are taken and which are free. A name may be both. -/
namespace LibFs.Foundation

@[ext] structure Register (α : Type) where
  taken : Finset α
  free : Finset α

namespace Register

variable {α : Type} [DecidableEq α] {n : Nat} {marked : Fin n → α × Bool} {name : α}

def of (marked : Fin n → α × Bool) : Register α where
  taken := (Finset.univ.filter fun i => (marked i).2 = false).image fun i => (marked i).1
  free := (Finset.univ.filter fun i => (marked i).2 = true).image fun i => (marked i).1

def known (r : Register α) : Finset α := r.taken ∪ r.free

def enter (name : α) (r : Register α) : Register α := ⟨insert name r.taken, ∅⟩

def drop (name : α) (r : Register α) : Register α where
  taken := r.taken.erase name
  free := if name ∈ r.taken then insert name r.free else r.free

theorem mem_taken : name ∈ (of marked).taken ↔ ∃ i, marked i = (name, false) := by
  simp only [of, Finset.mem_image, Finset.mem_filter, Finset.mem_univ, true_and, Prod.ext_iff]
  exact exists_congr fun i => and_comm

theorem mem_free : name ∈ (of marked).free ↔ ∃ i, marked i = (name, true) := by
  simp only [of, Finset.mem_image, Finset.mem_filter, Finset.mem_univ, true_and, Prod.ext_iff]
  exact exists_congr fun i => and_comm

theorem mem_known : name ∈ (of marked).known ↔ ∃ i, (marked i).1 = name := by
  simp only [known, Finset.mem_union, mem_taken, mem_free, ← exists_or]
  refine exists_congr fun i => ?_
  rcases marked i with ⟨found, _ | _⟩ <;> simp

theorem nonempty_free : (of marked).free.Nonempty ↔ ∃ i, (marked i).2 = true := by
  simp [of, Finset.Nonempty, Finset.mem_image]

theorem of_fill (hfree : (of marked).free.Nonempty) :
    of (fun i => if (marked i).2 then (name, false) else marked i) = (of marked).enter name := by
  obtain ⟨k, hk⟩ := nonempty_free.mp hfree
  ext other
  · rw [mem_taken, enter, Finset.mem_insert, mem_taken]
    constructor
    · rintro ⟨i, hi⟩
      split at hi
      · exact Or.inl (congrArg Prod.fst hi).symm
      · exact Or.inr ⟨i, hi⟩
    · rintro (rfl | ⟨i, hi⟩)
      · exact ⟨k, if_pos hk⟩
      · exact ⟨i, by simp [hi]⟩
  · rw [mem_free]
    refine iff_of_false ?_ (Finset.notMem_empty other)
    rintro ⟨i, hi⟩
    split at hi
    · simp at hi
    · rename_i htaken
      exact htaken (congrArg Prod.snd hi)

theorem of_clear : of (fun i => if (marked i).1 = name then ((marked i).1, true) else marked i) =
    (of marked).drop name := by
  ext other
  · rw [mem_taken, drop, Finset.mem_erase, mem_taken]
    constructor
    · rintro ⟨i, hi⟩
      split at hi
      · simp at hi
      · rename_i hother
        exact ⟨fun heq => hother ((congrArg Prod.fst hi).trans heq), i, hi⟩
    · rintro ⟨hother, i, hi⟩
      exact ⟨i, by simp [hi, hother]⟩
  · have hdropped : other ∈ ((of marked).drop name).free ↔
        (other = name ∧ ∃ i, marked i = (name, false)) ∨ ∃ i, marked i = (other, true) := by
      simp only [drop, ← mem_taken, ← mem_free]
      split <;> simp [*]
    rw [hdropped, mem_free]
    constructor
    · rintro ⟨i, hi⟩
      split at hi
      · rename_i hname
        obtain rfl : name = other := hname.symm.trans (congrArg Prod.fst hi)
        cases hmark : (marked i).2 with
        | false => exact Or.inl ⟨rfl, i, Prod.ext hname hmark⟩
        | true => exact Or.inr ⟨i, Prod.ext hname hmark⟩
      · exact Or.inr ⟨i, hi⟩
    · rintro (⟨rfl, i, hi⟩ | ⟨i, hi⟩)
      · exact ⟨i, by simp [hi]⟩
      · exact ⟨i, by simp [hi]⟩

end Register

end LibFs.Foundation
