import LibFs.Model.Api

/-! What a failed mount leaves behind. The disk has been opened and the global
pointer replaced before the superblock is checked, and the exit behind the check
undoes neither. -/
namespace LibFs

open LibFs.Foundation

def OpenFails (req : MountRequest L) (d : Device) : Prop :=
  req.answer.fd = none ∨ req.answer.fstatFails = true ∨
    (d.host.image req.diskname.bytes).size % blockSize ≠ 0

/-- Either the mount gets past the superblock check, or it stops in front of
reading the superblock on a system whose pointer is NULL. -/
def CleanMount (req : MountRequest L) (s : State L N) : Prop :=
  (req.nameRefused = false ∧ ¬ OpenFails req s.device ∧
      req.check (req.opened s.device).2 = 0) ∨
    (req.nameRefused = true ∨ OpenFails req s.device) ∧ s.fileSystem = .null

/-- No disk is open, no object is pointed to, and every later mount returns what it
would have returned without the failure. -/
structure LeftAsItWas (s next : State L N) : Prop where
  closed : next.device.disk.fd = none
  null : next.fileSystem = .null
  later : ∀ req : MountRequest L, (fsMount req next).1 = (fsMount req s).1

section Opening

variable {req : MountRequest L} {d d' : Device}

theorem opened_refused_iff (hclosed : d.disk.fd = none) :
    (req.opened d).1 ≠ 0 ↔ OpenFails req d := by
  unfold MountRequest.opened blockDiskOpen OpenFails
  simp only [hclosed, Option.isSome_none, Bool.false_eq_true, if_false]
  cases req.answer.fd with
  | none => simp
  | some fd =>
      cases req.answer.fstatFails with
      | true => simp
      | false =>
          by_cases hsize : (d.host.image req.diskname.bytes).size % blockSize = 0 <;> simp [hsize]

theorem opened_congr (req : MountRequest L) (hdisk : d.disk = d'.disk)
    (himage : d.host.image = d'.host.image) :
    (req.opened d).1 = (req.opened d').1 ∧ ((req.opened d').1 = 0 →
      (req.opened d).2.disk = (req.opened d').2.disk ∧
      (req.opened d).2.host.image = (req.opened d').2.host.image ∧
      ∀ fd, (req.opened d').2.disk.fd = some fd →
        (req.opened d).2.host.fds fd = (req.opened d').2.host.fds fd) := by
  unfold MountRequest.opened blockDiskOpen
  simp only [hdisk, himage]
  split
  · simp
  · cases req.answer.fd with
    | none => simp
    | some fd =>
        dsimp only
        split
        · simp
        · split
          · simp
          · simp [Host.openPath, himage]

theorem fsMount_ret_congr {s s' : State L N} (req : MountRequest L)
    (hdisk : s'.device.disk = s.device.disk)
    (himage : s'.device.host.image = s.device.host.image) :
    (fsMount req s').1 = (fsMount req s).1 := by
  obtain ⟨hret, hopened⟩ := opened_congr req hdisk himage
  rw [fsMount_ret, fsMount_ret, hret]
  by_cases hopen : (req.opened s.device).1 = 0
  · obtain ⟨hdisk', himage', hfds⟩ := hopened hopen
    have hbuffer := blockRead_buffer_congr (req.io 0) superblockIndex req.fresh.sp.raw 0 hdisk'
      himage' hfds
    have hcheck : req.check (req.opened s'.device).2 = req.check (req.opened s.device).2 := by
      unfold MountRequest.check sysErrorCheck blockDiskCount
      rw [req.superblock_disk, req.superblock_disk, hdisk']
      unfold MountRequest.superblock
      rw [hbuffer]
    rw [hcheck]
  · simp [hopen]

end Opening

section Failing

variable {req : MountRequest L} {s next : State L N}

theorem leftAsItWas_of_clean (hclosed : s.device.disk.fd = none) (hclean : CleanMount req s)
    (hmount : fsMount req s = (-1, next)) : LeftAsItWas s next := by
  rcases fsMount_cases hmount with
    ⟨_, hname, rfl⟩ | ⟨_, hname, hopen, rfl⟩ | ⟨_, hname, hopen, hcheck, _⟩ | ⟨hret, _⟩
  · rcases hclean with ⟨hnamed, _⟩ | ⟨_, hnull⟩
    · simp [hname] at hnamed
    · exact ⟨hclosed, hnull, fun _ => rfl⟩
  · rcases hclean with ⟨_, hopens, _⟩ | ⟨_, hnull⟩
    · exact absurd ((opened_refused_iff hclosed).mp hopen) hopens
    · obtain ⟨hdisk, himage⟩ := req.opened_refused hopen
      exact ⟨(congrArg Disk.fd hdisk).trans hclosed, hnull, fun req' =>
        fsMount_ret_congr req' hdisk himage⟩
  · rcases hclean with ⟨_, _, hpasses⟩ | ⟨hstops | hstops, _⟩
    · exact absurd hpasses hcheck
    · simp [hname] at hstops
    · exact absurd hopen ((opened_refused_iff hclosed).mpr hstops)
  · exact absurd hret (by decide)

theorem clean_of_leftAsItWas (hclosed : s.device.disk.fd = none)
    (hleft : ∀ next, fsMount req s = (-1, next) → LeftAsItWas s next) : CleanMount req s := by
  rcases hmount : fsMount req s with ⟨ret, next⟩
  rcases fsMount_cases hmount with
    ⟨rfl, hname, rfl⟩ | ⟨rfl, _, hopen, rfl⟩ | ⟨rfl, _, _, _, rfl⟩ | ⟨_, hname, hopen, hcheck, _⟩
  · exact Or.inr ⟨Or.inl hname, (hleft _ hmount).null⟩
  · exact Or.inr ⟨Or.inr ((opened_refused_iff hclosed).mp hopen), (hleft _ hmount).null⟩
  · -- the pointer is live although the mount failed
    have hnull := (hleft _ hmount).null
    simp at hnull
  · refine Or.inl ⟨hname, fun hfails => ?_, hcheck⟩
    exact (opened_refused_iff hclosed).mpr hfails hopen

end Failing

/-- With no disk open a failing mount leaves the system as it was if and only if the
mount does not fail at the superblock check and the pointer was NULL; on a mounted
file system it always leaves everything as it was. -/
theorem failed_mount_iff (req : MountRequest L) (s : State L N) :
    (s.device.disk.fd = none →
      ((∀ next, fsMount req s = (-1, next) → LeftAsItWas s next) ↔ CleanMount req s)) ∧
      ∀ fs, Mounted s fs → fsMount req s = (-1, s) :=
  ⟨fun hclosed => ⟨clean_of_leftAsItWas hclosed,
      fun hclean _ => leftAsItWas_of_clean hclosed hclean⟩,
    fun _ hmounted => fsMount_open req hmounted.diskOpen⟩

/-! A disk of four blocks whose superblock says that one of them is FAT. -/

def wrongFatStart : State .packed 32 := .initial (sampleHost 4 1 fun _ => 0)
def wrongFatMount : MountRequest .packed := mountD ⟨⟨fun _ => 0⟩, blankDir, .null⟩

theorem failed_mount_iff_wrong_fat :
    ((∀ next, fsMount wrongFatMount wrongFatStart = (-1, next) → LeftAsItWas wrongFatStart next) ↔
        CleanMount wrongFatMount wrongFatStart) ∧
      fsMount wrongFatMount (formattedState blankDir) =
        (-1, (formattedState blankDir : State .packed 32)) :=
  ⟨(failed_mount_iff wrongFatMount wrongFatStart).1 rfl,
    (failed_mount_iff wrongFatMount _).2 _ (formatted_mounted blankDir)⟩

/-- A mount refused by the superblock check leaves its object behind. -/
theorem failed_mount_refuted :
    ¬ ∀ (req : MountRequest .packed) (s next : State .packed 32), s.fileSystem = .null →
      s.device.disk.fd = none → fsMount req s = (-1, next) →
        next.device.disk.fd = none ∧ next.fileSystem = .null := by
  intro hundone
  have hrejects := fsMount_rejects wrongFatMount wrongFatStart (by decide) rfl (by decide)
  have hkept := hundone _ _ _ rfl rfl hrejects
  exact absurd hkept.2 (by simp)

end LibFs
