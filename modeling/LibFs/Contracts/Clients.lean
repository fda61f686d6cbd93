import LibFs.Contracts.Names
import LibFs.Descriptors.Offsets
import LibFs.Mounting.Alternation

/-! What a program that uses the library can rely on. Whether a call returns, rather than
running into undefined behaviour, can be told from the calls made before and their results. -/
namespace LibFs

open LibFs.Foundation

/-- The arguments do not keep the call from returning while a file system is mounted. What
`fs_delete` does depends on the chains on the disk. -/
def Call.Proper (N : Nat) : Call L → Prop
  | .fsCreate _ filename => filename.strlen < 2 ^ 32
  | .fsDelete _ _ => False
  | .fsOpen _ filename => filename.strlen < 2 ^ 32
  | .fsLseek fd _ => 0 ≤ fd ∧ fd < N
  | _ => True

theorem CStr.fits_of_valid {noReturn : Bool} {filename : CStr} (hlength : filename.strlen < 2 ^ 32)
    (hvalid : isValidName noReturn filename = true) : filename.strlen < fsFilenameLen := by
  have hlegal := (isValidName_iff.mp hvalid).1.2
  unfold CStr.fileLen at hlegal
  rwa [Nat.mod_eq_of_lt hlength] at hlegal

theorem InSession.returns {s : State L N} {call : Call L} (h : InSession s)
    (hfits : s.fdOpenCount ≤ N) (hproper : call.Proper N) :
    ∃ out, LibFs.step call s = .ok out := by
  obtain ⟨fs, fat, hlive, hfat⟩ := h.object
  cases call with
  | fsMount req => exact ⟨_, rfl⟩
  | fsUnmount io => exact ⟨_, fsUnmount_live hlive hfat⟩
  | fsCreate noReturn filename => exact fsCreate_total hlive (CStr.fits_of_valid hproper)
  | fsDelete unassigned filename => exact hproper.elim
  | fsLs => exact ⟨(0, s), by simp [LibFs.step, fsLs, hlive, Except.map]⟩
  | fsOpen noReturn filename =>
      obtain ⟨ret, next, hreturns⟩ := fsOpen_total hlive (CStr.fits_of_valid hproper) hfits
      exact ⟨_, hreturns⟩
  | fsClose fd =>
      obtain ⟨ret, next, hreturns⟩ := fsClose_returns fd s
      exact ⟨_, hreturns⟩
  | fsStat fd =>
      obtain ⟨size, hsize⟩ := fsStat_returns fd hlive
      exact ⟨(size, s), by simp [LibFs.step, hsize, Except.map]⟩
  | fsLseek fd offset =>
      obtain ⟨hlow, hhigh⟩ := hproper
      have hslot : fd.toNat < N := by omega
      obtain ⟨ret, next, hreturns⟩ := fsLseek_returns (s := s) ⟨fd.toNat, hslot⟩ offset
      have hfd : ((fd.toNat : Nat) : Int) = fd := Int.toNat_of_nonneg hlow
      rw [← hfd]
      exact ⟨_, hreturns⟩

/-- In every state a process can reach, when the calls so far tell that a file system is
mounted then every proper call returns, `fs_unmount` included; and when they tell that no
disk is open then `fs_unmount` does not. -/
theorem history_tells_safety {host : Host} {s : State L N} {past : List (ApiEvent L N)}
    (hrun : ApiRun (State.initial host) past s) :
    (mountedBy past = true → ∀ call : Call L, call.Proper N → ∃ out, step call s = .ok out) ∧
      (¬ LeavesOpen past → ∀ io, ¬ ∃ out, step (.fsUnmount io) s = .ok out) := by
  have hfits : s.fdOpenCount ≤ N := (counted_of_run hrun).fits
  refine ⟨fun hmounted call hproper => (inSession_of_run hrun hmounted).returns hfits hproper, ?_⟩
  rintro hclosed io ⟨⟨ret, next⟩, hreturns⟩
  have hstep : step (.fsUnmount io) s = .ok (ret, next) := hreturns
  have hturns := ((hrun.snoc hstep).always_good (I := HistoryTells) (historyTells_initial host)
    fun _ _ hinv hstep => inTurn_step hinv hstep).2.1
  exact hclosed (hturns.unmounts io rfl).1

theorem history_tells_safety_mounted : ∃ s : State .packed 32,
    fsMount freshMount freshStart = (0, s) ∧ ∃ out, step (.fsOpen true nameA) s = .ok out := by
  obtain ⟨s, hrun, hmount⟩ := freshMount_run
  exact ⟨s, hmount, (history_tells_safety hrun).1 rfl (.fsOpen true nameA)
    (by decide : nameA.strlen < 2 ^ 32)⟩

end LibFs
