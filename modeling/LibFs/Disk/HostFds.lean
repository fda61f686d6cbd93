import LibFs.Foundation.Run
import LibFs.Model.Api

/-! The host descriptors of the block layer. `block_disk_open` obtains one before it
asks for the size of the file, and the two exits behind that return without closing
it; a descriptor lost there is never closed, since `disk.fd` does not name it. -/
namespace LibFs

open LibFs.Foundation

inductive DiskCall where
  | blockDiskOpen (answer : OpenAnswer) (images : List UInt8 → Image) (diskname : Option CStr)
  | blockDiskClose

def Device.withImages (d : Device) (images : List UInt8 → Image) : Device :=
  { d with host := { d.host with image := images } }

def diskStep : DiskCall → Device → Except Fault (Int × Device)
  | .blockDiskOpen answer images diskname, d =>
      .ok (blockDiskOpen answer diskname (d.withImages images))
  | .blockDiskClose, d => .ok (blockDiskClose d)

abbrev DiskEvent := Event Device DiskCall Int
abbrev DiskRun (start : Device) := Run diskStep start

def Obtained (start d : Device) (fd : Nat) : Prop :=
  start.host.fds fd = none ∧ d.host.fds fd ≠ none

def Opens (e : DiskEvent) (diskname : CStr) (answer : OpenAnswer) (images : List UInt8 → Image)
    (fd : Nat) : Prop :=
  e.call = .blockDiskOpen answer images (some diskname) ∧ e.before.disk.fd = none ∧
    answer.fd = some fd

def FreshFd (e : DiskEvent) : Prop :=
  ∀ diskname answer images fd, Opens e diskname answer images fd → e.before.host.fds fd = none

def OpensWholeBlocks (e : DiskEvent) : Prop :=
  ∀ diskname answer images fd, Opens e diskname answer images fd →
    answer.fstatFails = false ∧ (images diskname.bytes).size % blockSize = 0

structure NoFdLeaked (start : Device) (e : DiskEvent) : Prop where
  held : ∀ fd, Obtained start e.after fd ↔ e.after.disk.fd = some fd
  refused : ∀ answer images diskname, e.call = .blockDiskOpen answer images diskname →
    e.ret = -1 → e.after.disk = e.before.disk ∧
      ∀ fd, Obtained start e.after fd ↔ Obtained start e.before fd

/-- The descriptor of the disk is the only one obtained, and those of others stay
open. -/
structure FdsKept (start d : Device) : Prop where
  held : ∀ fd, Obtained start d fd ↔ d.disk.fd = some fd
  others : ∀ fd, start.host.fds fd ≠ none → d.host.fds fd ≠ none

section Calls

variable {start d : Device} {answer : OpenAnswer} {diskname : CStr} {fd : Nat}

theorem blockDiskOpen_asks_nothing {diskname : Option CStr}
    (h : diskname = none ∨ d.disk.fd ≠ none ∨ answer.fd = none) :
    blockDiskOpen answer diskname d = (-1, d) := by
  cases diskname with
  | none => rfl
  | some diskname =>
      cases hdisk : d.disk.fd with
      | some fd => simp [blockDiskOpen, hdisk]
      | none =>
          have hfailed : answer.fd = none := by simpa [hdisk] using h
          simp [blockDiskOpen, hdisk, hfailed]

theorem blockDiskOpen_obtains (hclosed : d.disk.fd = none) (hfd : answer.fd = some fd)
    (hstat : answer.fstatFails = false)
    (hsize : (d.host.image diskname.bytes).size % blockSize = 0) :
    blockDiskOpen answer (some diskname) d =
      (0, { disk := ⟨some fd, (d.host.image diskname.bytes).size / blockSize⟩,
            host := d.host.openPath fd diskname.bytes }) := by
  simp [blockDiskOpen, hclosed, hfd, hstat, hsize]

/-- Behind a failed test the descriptor is open and `disk` does not know it. -/
theorem blockDiskOpen_loses (hclosed : d.disk.fd = none) (hfd : answer.fd = some fd)
    (hbad : ¬ (answer.fstatFails = false ∧ (d.host.image diskname.bytes).size % blockSize = 0)) :
    blockDiskOpen answer (some diskname) d =
      (-1, { d with host := d.host.openPath fd diskname.bytes }) := by
  cases hstat : answer.fstatFails with
  | true => simp [blockDiskOpen, hclosed, hfd, hstat]
  | false =>
      have hsize : (d.host.image diskname.bytes).size % blockSize ≠ 0 :=
        fun hzero => hbad ⟨hstat, hzero⟩
      simp [blockDiskOpen, hclosed, hfd, hstat, hsize]

theorem fdsKept_start (hclosed : start.disk.fd = none) : FdsKept start start where
  held fd := by simp [Obtained, hclosed]
  others _ h := h

theorem FdsKept.fresh (h : FdsKept start d) (hfresh : d.host.fds fd = none) :
    start.host.fds fd = none := by
  by_contra hstart
  exact h.others fd hstart hfresh

theorem FdsKept.withImages (h : FdsKept start d) (images : List UInt8 → Image) :
    FdsKept start (d.withImages images) := ⟨h.held, h.others⟩

theorem FdsKept.opened (h : FdsKept start d) (hclosed : d.disk.fd = none)
    (hfresh : d.host.fds fd = none) (path : List UInt8) (bcount : Nat) :
    FdsKept start { disk := ⟨some fd, bcount⟩, host := d.host.openPath fd path } where
  held k := by
    by_cases hk : k = fd
    · subst hk
      simp [Obtained, Host.openPath, h.fresh hfresh]
    · have hnone : ¬ Obtained start d k := by simp [h.held, hclosed]
      have hne : fd ≠ k := fun heq => hk heq.symm
      simpa [Obtained, Host.openPath, hk, hne] using hnone
  others k hk := by
    have hne : k ≠ fd := fun heq => hk (heq ▸ h.fresh hfresh)
    simpa [Host.openPath, hne] using h.others k hk

theorem FdsKept.closed (h : FdsKept start d) : FdsKept start (blockDiskClose d).2 := by
  cases hdisk : d.disk.fd with
  | none => simpa [blockDiskClose, hdisk] using h
  | some fd =>
      rw [blockDiskClose_open hdisk]
      constructor
      · intro k
        by_cases hk : k = fd
        · simp [Obtained, Host.close, hk]
        · have hnone : ¬ Obtained start d k := by
            rw [h.held, hdisk, Option.some.injEq]
            exact fun heq => hk heq.symm
          simpa [Obtained, Host.close, hk] using hnone
      · intro k hk
        -- what is closed is the descriptor of the disk, which was obtained
        have hne : k ≠ fd := fun heq => hk (heq ▸ ((h.held fd).mpr hdisk).1)
        simpa [Host.close, hne] using h.others k hk

end Calls

section Steps

variable {start : Device} {e : DiskEvent}

theorem fdsKept_step (hinv : FdsKept start e.before) (hfresh : FreshFd e)
    (hguard : OpensWholeBlocks e) (hstep : diskStep e.call e.before = .ok (e.ret, e.after)) :
    FdsKept start e.after ∧ NoFdLeaked start e := by
  obtain ⟨before, call, ret, after⟩ := e
  dsimp only at hinv hstep ⊢
  cases call with
  | blockDiskClose =>
      simp only [diskStep, Except.ok.injEq] at hstep
      have hnext : FdsKept start after := by
        have hafter : (blockDiskClose before).2 = after := by rw [hstep]
        exact hafter ▸ hinv.closed
      exact ⟨hnext, hnext.held, by simp⟩
  | blockDiskOpen answer images diskname =>
      simp only [diskStep, Except.ok.injEq] at hstep
      have hthere := hinv.withImages images
      by_cases hasks : diskname = none ∨ before.disk.fd ≠ none ∨ answer.fd = none
      · have hsame := (blockDiskOpen_asks_nothing (d := before.withImages images) hasks).symm
        rw [hstep, Prod.mk.injEq] at hsame
        obtain ⟨_, rfl⟩ := hsame
        exact ⟨hthere, hthere.held, fun _ _ _ _ _ => ⟨rfl, fun _ => Iff.rfl⟩⟩
      · simp only [not_or, not_not] at hasks
        obtain ⟨hname, hclosed, hfd⟩ := hasks
        obtain ⟨diskname, rfl⟩ := Option.ne_none_iff_exists'.mp hname
        obtain ⟨fd, hfd⟩ := Option.ne_none_iff_exists'.mp hfd
        have hopens : Opens ⟨before, .blockDiskOpen answer images (some diskname), ret, after⟩
            diskname answer images fd := ⟨rfl, hclosed, hfd⟩
        obtain ⟨hstat, hsize⟩ := hguard _ _ _ _ hopens
        have hopened := (blockDiskOpen_obtains (d := before.withImages images) hclosed hfd hstat
          hsize).symm
        rw [hstep, Prod.mk.injEq] at hopened
        obtain ⟨rfl, rfl⟩ := hopened
        have hnext := hthere.opened hclosed (hfresh _ _ _ _ hopens) diskname.bytes
          ((images diskname.bytes).size / blockSize)
        exact ⟨hnext, hnext.held, by simp⟩

theorem opensWholeBlocks_of_noFdLeaked (hinv : FdsKept start e.before) (hfresh : FreshFd e)
    (hgood : NoFdLeaked start e) (hstep : diskStep e.call e.before = .ok (e.ret, e.after)) :
    OpensWholeBlocks e := by
  intro diskname answer images fd hopens
  by_contra hbad
  obtain ⟨hcall, hclosed, hfd⟩ := hopens
  have hlost := blockDiskOpen_loses (d := e.before.withImages images) hclosed hfd hbad
  rw [hcall, diskStep, hlost, Except.ok.injEq, Prod.mk.injEq] at hstep
  have hopen := hgood.held fd
  rw [← hstep.2] at hopen
  -- the descriptor is open, and the disk is still closed
  have hnone := hinv.fresh (hfresh _ _ _ _ ⟨hcall, hclosed, hfd⟩)
  simp [Obtained, Host.openPath, Device.withImages, hclosed, hnone] at hopen

end Steps

/-- Over a run of opens and closes of the disk, the obtained host descriptors are
that of the disk and no other, and a refused open obtains none, if and only if every
file the host opens passes `fstat` and holds a number of whole blocks. -/
theorem noFdLeaked_throughout_iff {start d : Device} {past : List DiskEvent}
    (hclosed : start.disk.fd = none) (hrun : DiskRun start past d)
    (hfresh : ∀ e ∈ past, FreshFd e) :
    (∀ e ∈ past, OpensWholeBlocks e) ↔ ∀ e ∈ past, NoFdLeaked start e := by
  rw [← throughout_forall OpensWholeBlocks, ← throughout_forall (NoFdLeaked start)]
  exact hrun.guarded_iff_good (I := fun _ d => FdsKept start d) (fdsKept_start hclosed)
    ((throughout_forall FreshFd past).mpr hfresh)
    (fun _ _ hinv hevent hguard hstep => fdsKept_step hinv hevent hguard hstep)
    (fun _ _ hinv hevent hgood hstep => opensWholeBlocks_of_noFdLeaked hinv hevent hgood hstep)

/-! A disk image of one byte. -/

def byteImage : Image := ⟨1, fun _ => 0, by decide⟩

def closedDevice : Device := ⟨⟨none, 0⟩, ⟨fun _ => byteImage, fun _ => none⟩⟩

def byteOpening : DiskEvent where
  before := closedDevice
  call := .blockDiskOpen ⟨some 3, false⟩ (fun _ => byteImage) (some diskD)
  ret := -1
  after := { closedDevice with host := closedDevice.host.openPath 3 diskD.bytes }

theorem byteOpening_run : DiskRun closedDevice [byteOpening] byteOpening.after :=
  .snoc .nil rfl

theorem byteOpening_fresh : ∀ e ∈ [byteOpening], FreshFd e := by
  simp only [List.mem_singleton, forall_eq]
  intro _ _ _ _ _
  rfl

theorem noFdLeaked_throughout_byte :
    (∀ e ∈ [byteOpening], OpensWholeBlocks e) ↔ ∀ e ∈ [byteOpening], NoFdLeaked closedDevice e :=
  noFdLeaked_throughout_iff rfl byteOpening_run byteOpening_fresh

/-- Opening it is refused, and its descriptor stays open. -/
theorem noFdLeaked_refuted :
    ¬ ∀ (start d : Device) (past : List DiskEvent), start.disk.fd = none →
      DiskRun start past d → (∀ e ∈ past, FreshFd e) → ∀ e ∈ past, NoFdLeaked start e := by
  intro hnoLeak
  have hgood := hnoLeak _ _ _ rfl byteOpening_run byteOpening_fresh byteOpening
    (List.mem_singleton_self _)
  have hopen := (hgood.held 3).mp ⟨rfl, by simp [byteOpening, Host.openPath]⟩
  cases hopen

end LibFs
