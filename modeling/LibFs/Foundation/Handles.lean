import Mathlib.Data.Finset.Card

/-! A table that numbers its handles in order and never gives a number out again.
A released handle leaves a gap; what is counted is what has been issued. -/
namespace LibFs.Foundation

structure Handles where
  issued : Nat
  held : Finset Nat
  bounded : ∀ k ∈ held, k < issued

namespace Handles

def empty : Handles := ⟨0, ∅, by simp⟩

def issue (h : Handles) : Handles where
  issued := h.issued + 1
  held := insert h.issued h.held
  bounded k hk := by
    rcases Finset.mem_insert.mp hk with rfl | hk
    · exact Nat.lt_succ_self _
    · exact (h.bounded k hk).trans (Nat.lt_succ_self _)

def release (h : Handles) (k : Nat) : Handles where
  issued := h.issued
  held := h.held.erase k
  bounded j hj := h.bounded j (Finset.mem_of_mem_erase hj)

theorem issued_notMem (h : Handles) : h.issued ∉ h.held :=
  fun hmem => lt_irrefl _ (h.bounded _ hmem)

@[simp] theorem mem_issue {h : Handles} {k : Nat} :
    k ∈ h.issue.held ↔ k = h.issued ∨ k ∈ h.held :=
  Finset.mem_insert

@[simp] theorem mem_release {h : Handles} {j k : Nat} :
    j ∈ (h.release k).held ↔ j ≠ k ∧ j ∈ h.held :=
  Finset.mem_erase

@[simp] theorem card_issue (h : Handles) : h.issue.held.card = h.held.card + 1 :=
  Finset.card_insert_of_notMem h.issued_notMem

theorem card_release {h : Handles} {k : Nat} (hk : k ∈ h.held) :
    (h.release k).held.card + 1 = h.held.card :=
  Finset.card_erase_add_one hk

def AllHeld (h : Handles) : Prop := h.held.card = h.issued

theorem allHeld_empty : empty.AllHeld := rfl

theorem AllHeld.issue {h : Handles} (hall : h.AllHeld) : h.issue.AllHeld := by
  rw [AllHeld, card_issue, hall]
  rfl

theorem AllHeld.not_release {h : Handles} (hall : h.AllHeld) {k : Nat} (hk : k ∈ h.held) :
    ¬ (h.release k).AllHeld := by
  have hcard := card_release hk
  have hissued : (h.release k).issued = h.issued := rfl
  unfold AllHeld at hall ⊢
  omega

end Handles

end LibFs.Foundation
