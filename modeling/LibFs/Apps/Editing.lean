import LibFs.Apps.TestFs
import LibFs.Directory.OnDisk

/-! What a command line makes of the directory on the disk it names, on a host that moves whole
blocks: `rm` frees every entry of the name, `add` may fill every free entry with it, and the
other commands leave the entries as they are. -/
namespace LibFs

open LibFs.Foundation Driver

def ServesWhole (s : State L N) : DriverEvent → State L N → Prop
  | ⟨.fsMount diskname, ret⟩, next =>
      Replies (fun call => (DriverCall.fsMount diskname).Reaches call ∧ call.Whole) s ret next
  | ⟨.fsUmount, ret⟩, next =>
      Replies (fun call => DriverCall.fsUmount.Reaches call ∧ call.Whole) s ret next
  | event, next => Serves s event next

theorem ServesWhole.serves {s next : State L N} {event : DriverEvent}
    (h : ServesWhole s event next) : Serves s event next := by
  obtain ⟨k, answer⟩ := event
  cases k with
  | fsMount diskname =>
      obtain ⟨call, hreaches, hstep⟩ := h
      exact ⟨call, hreaches.1, hstep⟩
  | fsUmount =>
      obtain ⟨call, hreaches, hstep⟩ := h
      exact ⟨call, hreaches.1, hstep⟩
  | _ => exact h

def Filled (filename : CStr) (e e' : RootEntry L) : Prop :=
  e' = if e.isEmpty then e.fill filename else e

/-- What `fs_delete` makes of an entry. The name of one that holds no NUL goes on in the
entries behind it. -/
structure Freed (filename : CStr) (e e' : RootEntry L) : Prop where
  kept : e' = e ∨ e' = e.reset
  named : 0 ∈ e.bytes → e' = if e.ownName = filename.bytes then e.reset else e

theorem freed_resetAll (filename : CStr) (dir : RootDir L) (i : Fin fsFileMaxCount) :
    Freed filename (dir i) (resetAll filename dir i) := by
  constructor
  · by_cases hname : dir.name i = filename.bytes
    · exact Or.inr (resetAll_match hname)
    · exact Or.inl (resetAll_other hname)
  · intro hends
    rw [← RootDir.name_own hends]
    split
    · exact resetAll_match ‹_›
    · exact resetAll_other ‹_›

def Edit (edit : RootEntry L → RootEntry L → Prop)
    (entries entries' : Fin fsFileMaxCount → RootEntry L) : Prop :=
  ∀ i, OnDisk L i → edit (entries i) (entries' i)

def HasRoot (host : Host) (path : List UInt8) : Prop :=
  rootBlockFor ((host.image path).size / blockSize) < (host.image path).size / blockSize

/-- The disk at `path` is mounted and not written yet, and its entries are to become what `edit`
makes of them. -/
structure Pending (host : Host) (path : List UInt8) (edit : RootEntry L → RootEntry L → Prop)
    (s : State L N) : Prop where
  attached : Attached s path
  files : s.device.host.image = host.image
  object : ∃ fs fat, s.fileSystem = .live fs ∧ fs.fatBlocks = .live fat ∧
    (HasRoot host path → Edit edit (host.rootEntries path) fs.rootDir.entry)

structure Written (host : Host) (path : List UInt8) (edit : RootEntry L → RootEntry L → Prop)
    (s : State L N) : Prop where
  others : ∀ other ≠ path, s.device.host.image other = host.image other
  edited : HasRoot host path → Edit edit (host.rootEntries path) (s.device.host.rootEntries path)
  kept : ¬ HasRoot host path →
    Edit (L := L) (· = ·) (host.rootEntries path) (s.device.host.rootEntries path)

section Calls

variable {host : Host} {path : List UInt8} {edit : RootEntry L → RootEntry L → Prop}
  {s next : State L N} {ret : Int}

theorem Attached.hasRoot_iff (h : Attached s path) (hfiles : s.device.host.image = host.image)
    {fs : FsSystem L} {fat : FatBuffer} (hlive : s.fileSystem = .live fs)
    (hfat : fs.fatBlocks = .live fat) :
    HasRoot host path ↔ toSizeT fs.sp.rootDirIndex < s.device.disk.bcount := by
  rw [h.place hlive hfat, h.blocks, hfiles]
  exact Iff.rfl

theorem pending_mount {diskname : List UInt8} (hfiles : s.device.host.image = host.image)
    (hserves : ServesWhole s ⟨.fsMount diskname, (0 : Int)⟩ next) :
    Pending host diskname (· = ·) next := by
  obtain ⟨call, ⟨hreaches, hwhole⟩, hstep⟩ := hserves
  cases call with
  | fsMount req =>
      have hmount : fsMount req s = (0, next) := Except.ok.inj hstep
      have hname : req.diskname.bytes = diskname := hreaches
      have himage := (fsMount_image hmount).trans hfiles
      have hattached := attached_of_mounted hmount
      have hnext := (fsMount_succeeds hmount).2.2.2
      have hlive : next.fileSystem = .live (req.accepted (req.opened s.device).2) := by rw [hnext]
      rw [← hname]
      refine ⟨hattached, himage, _, _, hlive, rfl, fun hroot i hi => ?_⟩
      have hin := (hattached.hasRoot_iff himage hlive rfl).mp hroot
      have hblock : req.rootIndex (req.opened s.device).2 <
          (req.opened s.device).2.disk.bcount := by
        rw [hnext] at hin
        rwa [req.rootRead_disk] at hin
      exact ((mounted_rootEntries hwhole hmount hblock hi).trans
        (congrFun (Host.rootEntries_congr (congrFun himage _)) i)).symm
  | _ => exact hreaches.elim

theorem files_mount {diskname : List UInt8} (hfiles : s.device.host.image = host.image)
    (hserves : ServesWhole s ⟨.fsMount diskname, ret⟩ next) :
    next.device.host.image = host.image := by
  obtain ⟨call, ⟨hreaches, _⟩, hstep⟩ := hserves
  cases call with
  | fsMount req => exact (fsMount_image (Except.ok.inj hstep)).trans hfiles
  | _ => exact hreaches.elim

theorem Pending.session (h : Pending host path edit s) : InSession s := by
  obtain ⟨fs, fat, hlive, hfat, _⟩ := h.object
  obtain ⟨fd, _, hfd, _⟩ := h.attached.serves.1
  exact ⟨⟨fs, fat, hlive, hfat⟩, by simp [hfd]⟩

theorem Pending.umount (h : Pending host path edit s)
    (hserves : ServesWhole s ⟨.fsUmount, ret⟩ next) : Written host path edit next := by
  obtain ⟨call, ⟨hreaches, hwhole⟩, hstep⟩ := hserves
  cases call with
  | fsUnmount io =>
      obtain ⟨fs, fat, hlive, hfat, hobject⟩ := h.object
      have hio : io = fun _ => .whole := hwhole
      obtain ⟨fs', fat', hlive', hfat', hnext⟩ := h.session.flushed hstep
      rw [hlive] at hlive'
      cases hlive'
      rw [hfat] at hfat'
      cases hfat'
      have himage : next.device.host.image =
          (fs.flush (fun _ => .whole) fat s.device).host.image := by
        rw [hnext, blockDiskClose_image, hio]
      have hentries (i : Fin fsFileMaxCount) (hi : OnDisk L i) :
          next.device.host.rootEntries path i =
            if toSizeT fs.sp.rootDirIndex < s.device.disk.bcount then fs.rootDir i
            else s.device.host.rootEntries path i := by
        rw [Host.rootEntries_congr (congrFun himage path)]
        exact h.attached.flush_rootEntries hlive hfat hi
      have hiff := h.attached.hasRoot_iff h.files hlive hfat
      refine ⟨fun other hother => ?_, fun hroot i hi => ?_, fun hroot i hi => ?_⟩
      · rw [himage, (h.attached.flush hlive hfat fun _ => .whole).others other hother, h.files]
      · rw [hentries i hi, if_pos (hiff.mp hroot)]
        exact hobject hroot i hi
      · rw [hentries i hi, if_neg (mt hiff.mpr hroot),
          Host.rootEntries_congr (congrFun h.files path)]
  | _ => exact hreaches.elim

theorem Pending.step {call : Call L} (h : Pending host path edit s) (hcall : call.InSession)
    (hstep : LibFs.step call s = .ok (ret, next)) :
    Pending host path edit next ∨
      (∃ noReturn filename, call = .fsCreate noReturn filename ∧
        Pending host path (Relation.Comp edit (Filled filename)) next) ∨
      ∃ unassigned filename, call = .fsDelete unassigned filename := by
  have hattached := h.attached.session hcall hstep
  have hdevice := (step_object hcall hstep).1
  have hfiles : next.device.host.image = host.image := by rw [hdevice, h.files]
  obtain ⟨fs, fat, hlive, hfat, hobject⟩ := h.object
  have hkept (hsame : next.fileSystem = s.fileSystem) : Pending host path edit next :=
    ⟨hattached, hfiles, fs, fat, hsame.trans hlive, hfat, hobject⟩
  cases step_effect hcall hstep with
  | unchanged hnext _ _ => exact Or.inl (hkept (by rw [hnext]))
  | @created noReturn filename _ hcreate hfs hnext =>
      rw [hlive] at hfs
      cases hfs
      have hafter : next.fileSystem =
          .live { fs with rootDir := fillAll filename fs.rootDir } := by rw [hnext]
      exact Or.inr (Or.inl ⟨noReturn, filename, hcreate, hattached, hfiles, _, fat, hafter, hfat,
        fun hroot i hi => ⟨fs.rootDir i, hobject hroot i hi, rfl⟩⟩)
  | deleted hdelete _ _ _ => exact Or.inr (Or.inr ⟨_, _, hdelete⟩)
  | opened i _ _ _ _ _ _ hnext => exact Or.inl (hkept (by rw [hnext]; rfl))
  | closed i _ _ _ hnext => exact Or.inl (hkept (by rw [hnext]; rfl))
  | sought i _ _ hnext => exact Or.inl (hkept (by rw [hnext]; rfl))

theorem Pending.delete {unassigned : RootEntry L} {filename : CStr} (h : Pending host path edit s)
    (hstep : LibFs.step (.fsDelete unassigned filename) s = .ok (ret, next)) :
    Pending host path (Relation.Comp edit (Freed filename)) next := by
  have hcall : (Call.fsDelete unassigned filename).InSession := trivial
  have hfiles : next.device.host.image = host.image := by
    rw [(step_object hcall hstep).1, h.files]
  obtain ⟨fs, fat, hlive, hfat, hobject⟩ := h.object
  obtain ⟨_, _, _, hwalk, _, hnext⟩ := fsDelete_live hlive hstep
  rw [hfat] at hwalk
  obtain ⟨fat', rfl, _⟩ := freeChain_links hwalk
  exact ⟨h.attached.session hcall hstep, hfiles, _, fat', by rw [hnext], rfl, fun hroot i hi =>
    ⟨fs.rootDir i, hobject hroot i hi, freed_resetAll filename fs.rootDir i⟩⟩

end Calls

def DriverCall.Looks : DriverCall → Prop
  | .fsMount _ => False
  | .fsUmount => False
  | .fsCreate _ => False
  | .fsDelete _ => False
  | _ => True

theorem DriverCall.Looks.inSession {k : DriverCall} (h : k.Looks) : k.InSession := by
  cases k <;> first | exact h | trivial

abbrev Driver.Keeps (G : State L N → Prop) (P : State L N → Ending → Prop) (s : State L N)
    (driver : Driver) : Prop :=
  Program.Meets ServesWhole (fun s _ => G s) P s driver

section Drivers

variable {host : Host} {path : List UInt8} {edit : RootEntry L → RootEntry L → Prop}
  {s next : State L N} {G : State L N → Prop} {P : State L N → Ending → Prop}

theorem Pending.looked {event : DriverEvent} (h : Pending host path edit s)
    (hlooks : event.1.Looks) (hserves : ServesWhole s event next) :
    Pending host path edit next := by
  obtain ⟨k, answer⟩ := event
  rcases hserves.serves.step with rfl | ⟨call, ret, hreaches, hstep⟩
  · exact h
  · have hcall := hreaches.inSession hlooks.inSession
    rcases h.step hcall hstep with hsame | ⟨_, _, rfl, _⟩ | ⟨_, _, rfl⟩
    · exact hsame
    -- no looking call reaches `fs_create` or `fs_delete`
    all_goals cases k <;> first | exact hreaches.elim | exact hlooks.elim

theorem Pending.created {filename : List UInt8} {ret : Int} (h : Pending host path (· = ·) s)
    (hserves : ServesWhole s ⟨.fsCreate (some filename), ret⟩ next) :
    Pending host path (· = ·) next ∨ ∃ name : CStr, name.bytes = filename ∧
      Pending host path (Filled name) next := by
  obtain ⟨call, hreaches, hstep⟩ := hserves
  cases call with
  | fsCreate noReturn name =>
      have hname : name.bytes = filename := (Option.some.inj hreaches).symm
      have hcall : (Call.fsCreate noReturn name : Call L).InSession := trivial
      rcases h.step hcall hstep with hsame | ⟨_, _, hcreate, hfilled⟩ | ⟨_, _, hdelete⟩
      · exact Or.inl hsame
      · cases hcreate
        rw [Relation.eq_comp] at hfilled
        exact Or.inr ⟨name, hname, hfilled⟩
      · cases hdelete
  | _ => exact hreaches.elim

theorem Pending.deleted {filename : List UInt8} {ret : Int} (h : Pending host path (· = ·) s)
    (hserves : ServesWhole s ⟨.fsDelete (some filename), ret⟩ next) :
    ∃ name : CStr, name.bytes = filename ∧ Pending host path (Freed name) next := by
  obtain ⟨call, hreaches, hstep⟩ := hserves
  cases call with
  | fsDelete unassigned name =>
      have hfreed := h.delete hstep
      rw [Relation.eq_comp] at hfreed
      exact ⟨name, (Option.some.inj hreaches).symm, hfreed⟩
  | _ => exact hreaches.elim

theorem whole_host {k : DriverCall} {next : k.Answer → Driver} (hk : k.IsHost) (hG : G s)
    (hnext : ∀ answer, (next answer).Keeps G P s) : Driver.Keeps G P s (.call k next) := by
  refine ⟨hG, fun answer after hserves => ?_⟩
  rw [served_host hk hserves.serves]
  exact hnext answer

theorem whole_mount {next : Driver} (hfiles : s.device.host.image = host.image) (hG : G s)
    (hdied : ∀ t : State L N, t.device.host.image = host.image → P t .died)
    (hnext : ∀ after, Pending host path (· = ·) after → next.Keeps G P after) :
    Driver.Keeps G P s
      (.call (.fsMount path) fun (failed : Int) => if failed ≠ 0 then die else next) := by
  refine ⟨hG, fun failed after hserves => ?_⟩
  refine Program.meets_ite (fun _ => hdied after (files_mount hfiles hserves)) fun hzero => ?_
  have hmounted : (failed : Int) = 0 := not_not.mp hzero
  rw [hmounted] at hserves
  exact hnext after (pending_mount hfiles hserves)

variable (hG : ∀ t : State L N, t.device.host.image = host.image → G t)
include hG

theorem whole_look {k : DriverCall} {next : k.Answer → Driver} (h : Pending host path edit s)
    (hk : k.Looks) (hnext : ∀ answer after, Pending host path edit after →
      (next answer).Keeps G P after) : Driver.Keeps G P s (.call k next) :=
  ⟨hG s h.files, fun answer after hserves => hnext answer after (h.looked hk hserves)⟩

variable (hP : ∀ t ending, Written host path edit t → P t ending)
include hP

theorem whole_umountAndDie (h : Pending host path edit s) : umountAndDie.Keeps G P s :=
  ⟨hG s h.files, fun _ after hserves => hP after .died (h.umount hserves)⟩

theorem whole_umountAndReturn (h : Pending host path edit s) : umountAndReturn.Keeps G P s :=
  ⟨hG s h.files, fun _ after hserves =>
    Program.meets_ite (fun _ => hP after .died (h.umount hserves))
      fun _ => hP after .returned (h.umount hserves)⟩

end Drivers

/-! The drivers, from any state in which the files are those of `host`. -/

section Commands

variable {host : Host} {diskname : List UInt8} {args : List (List UInt8)} {s : State L N}
  {G : State L N → Prop} {P : State L N → Ending → Prop}
  (hfiles : s.device.host.image = host.image)
  (hG : ∀ t : State L N, t.device.host.image = host.image → G t)
  (hdied : ∀ t : State L N, t.device.host.image = host.image → P t .died)
include hfiles hG hdied

theorem whole_rm (hP : ∀ name t ending, args.head? = some name.bytes →
    Written host diskname (Freed name) t → P t ending) :
    (threadFsRm (diskname :: args)).Keeps G P s := by
  cases args with
  | nil => exact hdied s hfiles
  | cons filename rest =>
      refine whole_mount hfiles (hG s hfiles) hdied fun mounted h => ?_
      refine ⟨hG mounted h.files, fun failed deleted hdelete => ?_⟩
      obtain ⟨name, hname, h⟩ := h.deleted hdelete
      have hwritten (t : State L N) (ending : Ending)
          (hwritten : Written host diskname (Freed name) t) : P t ending :=
        hP name t ending (by rw [List.head?_cons, hname]) hwritten
      exact Program.meets_ite (fun _ => whole_umountAndDie hG hwritten h)
        fun _ => whole_umountAndReturn hG hwritten h

variable (hP : ∀ t ending, Written host diskname (· = ·) t → P t ending)
include hP

theorem whole_add (hfilled : ∀ name t ending, args.head? = some name.bytes →
    Written host diskname (Filled name) t → P t ending) :
    (threadFsAdd (diskname :: args)).Keeps G P s := by
  cases args with
  | nil => exact hdied s hfiles
  | cons filename rest =>
      refine whole_host trivial (hG s hfiles) fun fd => ?_
      refine Program.meets_ite (fun _ => hdied s hfiles) fun _ => ?_
      refine whole_host trivial (hG s hfiles) fun st => ?_
      refine Program.meets_ite (fun _ => hdied s hfiles) fun _ => ?_
      refine Program.meets_ite (fun _ => hdied s hfiles) fun _ => ?_
      refine whole_host trivial (hG s hfiles) fun buf => ?_
      refine Program.meets_ite (fun _ => hdied s hfiles) fun _ => ?_
      refine whole_mount hfiles (hG s hfiles) hdied fun mounted h => ?_
      refine ⟨hG mounted h.files, fun failed created hcreate => ?_⟩
      -- from here on it does not matter whether the directory has been filled
      have hedit : ∃ edit, Pending host diskname edit created ∧
          ∀ t ending, Written host diskname edit t → P t ending := by
        rcases h.created hcreate with hsame | ⟨name, hname, hpending⟩
        · exact ⟨_, hsame, hP⟩
        · have hhead : (filename :: rest).head? = some name.bytes := by rw [List.head?_cons, hname]
          exact ⟨_, hpending, fun t ending => hfilled name t ending hhead⟩
      obtain ⟨edit, h, hwritten⟩ := hedit
      refine Program.meets_ite (fun _ => whole_umountAndDie hG hwritten h) fun _ => ?_
      refine whole_look hG h trivial fun fsFd opened h => ?_
      refine Program.meets_ite (fun _ => whole_umountAndDie hG hwritten h) fun _ => ?_
      refine whole_look hG h trivial fun _ filled h => ?_
      refine whole_look hG h trivial fun failed closed h => ?_
      exact Program.meets_ite (fun _ => whole_umountAndDie hG hwritten h)
        fun _ => whole_umountAndReturn hG hwritten h

theorem whole_print {print : DriverCall} (hlooks : print.Looks) :
    (printDriver print (diskname :: args)).Keeps G P s := by
  refine whole_mount hfiles (hG s hfiles) hdied fun mounted h => ?_
  exact whole_look hG h hlooks fun _ printed h => whole_umountAndReturn hG hP h

theorem whole_stat : (threadFsStat (diskname :: args)).Keeps G P s := by
  cases args with
  | nil => exact hdied s hfiles
  | cons filename rest =>
      refine whole_mount hfiles (hG s hfiles) hdied fun mounted h => ?_
      refine whole_look hG h trivial fun fsFd opened h => ?_
      refine Program.meets_ite (fun _ => whole_umountAndDie hG hP h) fun _ => ?_
      refine whole_look hG h trivial fun stat sized h => ?_
      refine Program.meets_ite (fun _ => ?_) fun _ => Program.meets_ite (fun _ => ?_) fun _ => ?_
      · exact whole_look hG h trivial fun _ closed h => whole_umountAndDie hG hP h
      · refine whole_look hG h trivial fun _ closed h => ?_
        exact ⟨hG closed h.files, fun _ after hserves => hP after .returned (h.umount hserves)⟩
      · refine whole_look hG h trivial fun failed closed h => ?_
        exact Program.meets_ite (fun _ => whole_umountAndDie hG hP h)
          fun _ => whole_umountAndReturn hG hP h

theorem whole_cat
    (hreturned : ∀ t : State L N, t.device.host.image = host.image → P t .returned) :
    (threadFsCat (diskname :: args)).Keeps G P s := by
  cases args with
  | nil => exact hdied s hfiles
  | cons filename rest =>
      refine whole_mount hfiles (hG s hfiles) hdied fun mounted h => ?_
      refine whole_look hG h trivial fun fsFd opened h => ?_
      refine Program.meets_ite (fun _ => whole_umountAndDie hG hP h) fun _ => ?_
      refine whole_look hG h trivial fun stat sized h => ?_
      refine Program.meets_ite (fun _ => whole_umountAndDie hG hP h) fun _ => ?_
      refine Program.meets_ite (fun _ => hreturned sized h.files) fun _ => ?_
      refine whole_look hG h trivial fun buf loaded h => ?_
      refine Program.meets_ite (fun _ => whole_umountAndDie hG hP h) fun _ => ?_
      refine whole_look hG h trivial fun _ read h => ?_
      refine whole_look hG h trivial fun failed closed h => ?_
      exact Program.meets_ite (fun _ => whole_umountAndDie hG hP h)
        fun _ => whole_umountAndReturn hG hP h

end Commands

def DriverName.Edits (name : DriverName) (args : List (List UInt8))
    (edit : RootEntry L → RootEntry L → Prop) : Prop :=
  match name with
  | .add => edit = (· = ·) ∨ ∃ filename, args.head? = some filename.bytes ∧ edit = Filled filename
  | .rm => edit = (· = ·) ∨ ∃ filename, args.head? = some filename.bytes ∧ edit = Freed filename
  | _ => edit = (· = ·)

theorem DriverName.edits_nothing (name : DriverName) (args : List (List UInt8)) :
    name.Edits args ((· = ·) : RootEntry L → RootEntry L → Prop) := by
  cases name <;> first | exact rfl | exact Or.inl rfl

structure Edited (host : Host) (diskname : List UInt8) (name : DriverName)
    (args : List (List UInt8)) (t : State L N) : Prop where
  others : ∀ other ≠ diskname, t.device.host.image other = host.image other
  entries : ∃ edit : RootEntry L → RootEntry L → Prop, name.Edits args edit ∧
    Edit edit (host.rootEntries diskname) (t.device.host.rootEntries diskname)

theorem commandNames_unique : ∀ command ∈ commandNames, ∀ other ∈ commandNames,
    command.1 = other.1 → command.2 = other.2 := by
  simp [commandNames, ascii]

section Runs

variable {host : Host} {unset : CommandArgs} {cmd diskname : List UInt8}
  {args : List (List UInt8)} {trace : List DriverEvent} {t : State L N}

theorem edited_of_files (name : DriverName) (args : List (List UInt8))
    (hfiles : t.device.host.image = host.image) : Edited host diskname name args t where
  others other _ := by rw [hfiles]
  entries := by
    refine ⟨_, name.edits_nothing args, fun i _ => ?_⟩
    rw [Host.rootEntries_congr (congrFun hfiles diskname)]

theorem Written.toEdited {name : DriverName} {edit : RootEntry L → RootEntry L → Prop}
    (h : Written host diskname edit t) (hedits : name.Edits args edit) :
    Edited host diskname name args t where
  others := h.others
  entries := by
    by_cases hroot : HasRoot host diskname
    · exact ⟨edit, hedits, h.edited hroot⟩
    · exact ⟨_, name.edits_nothing args, h.kept hroot⟩

end Runs

/-! `rm a` on a disk whose first entry is an empty file of that name. -/

def rmStart : State .packed 32 := .initial (sampleHost 4 0 fun p => if p = 4096 then 97 else 0)

def rmFs : FsSystem .packed := freshMount.accepted (freshMount.opened rmStart.device).2

theorem rm_mounts : ∃ s, fsMount freshMount rmStart = (0, s) ∧ s.fileSystem = .live rmFs :=
  ⟨_, fsMount_returns freshMount rmStart (by decide) rfl (by decide), rfl⟩

theorem rm_empty (i : Fin fsFileMaxCount) : (rmFs.rootDir i).fileBlckSize = 0 := by
  revert i
  decide +kernel

def rmLine : List (List UInt8) := [ascii "rm", diskD.bytes, nameA.bytes]

def rmEvents : List DriverEvent :=
  [⟨.fsMount diskD.bytes, (0 : Int)⟩, ⟨.fsDelete (some nameA.bytes), (0 : Int)⟩,
    ⟨.fsUmount, (0 : Int)⟩]

theorem rm_deletes {s : State .packed 32} (hlive : s.fileSystem = .live rmFs) :
    ∃ next, fsDelete blankEntry nameA s = .ok (0, next) := by
  have hblocks : (deleteLoop blankEntry nameA rmFs.rootDir).1.fileBlckSize = 0 := by
    rcases (deleteLoop_eq blankEntry nameA rmFs.rootDir).1 with ⟨i, _, _, hkept⟩ | ⟨_, hkept⟩
    · rw [hkept]
      exact rm_empty i
    · rw [hkept]
      decide
  simp [fsDelete, hlive, hblocks, freeChain]

theorem rm_exec (unset : CommandArgs) : ∃ t : State .packed 32,
    Program.Exec ServesWhole rmStart (testFs unset rmLine) rmEvents t (.done .returned) := by
  obtain ⟨s, hmount, hfs⟩ := rm_mounts
  have hmountStep : step (.fsMount freshMount) rmStart = .ok (0, s) := congrArg Except.ok hmount
  have hmountServes : ServesWhole rmStart ⟨.fsMount diskD.bytes, (0 : Int)⟩ s :=
    ⟨.fsMount freshMount, ⟨rfl, fun _ => rfl⟩, hmountStep⟩
  obtain ⟨deleted, hdelete⟩ := rm_deletes hfs
  have hdeleteServes : ServesWhole s ⟨.fsDelete (some nameA.bytes), (0 : Int)⟩ deleted :=
    ⟨.fsDelete blankEntry nameA, rfl, hdelete⟩
  have hcall : (Call.fsDelete blankEntry nameA : Call .packed).InSession := trivial
  have hsession := (inSession_of_mount hmount).step hcall hdelete
  obtain ⟨fs, fat, hlive, hfat⟩ := hsession.object
  obtain ⟨t, hunmount, _⟩ := fsUnmount_succeeds (fun _ => .whole) hlive hfat hsession.diskOpen
  have humountServes : ServesWhole deleted ⟨.fsUmount, (0 : Int)⟩ t :=
    ⟨.fsUnmount fun _ => .whole, ⟨trivial, rfl⟩, hunmount⟩
  exact ⟨t, .call hmountServes (.call hdeleteServes (.call humountServes .here))⟩

end LibFs
