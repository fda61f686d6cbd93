import LibFs.Contracts.Clients
import LibFs.Model.Serve

/-! The drivers run against the library: what it answers while a file system is mounted, and the
rules for the calls a driver makes meanwhile. -/
namespace LibFs

open LibFs.Foundation Driver

def DriverCall.InSession : DriverCall → Prop
  | .fsMount _ => False
  | .fsUmount => False
  | _ => True

theorem DriverCall.kinds (k : DriverCall) :
    (∃ diskname, k = .fsMount diskname) ∨ k = .fsUmount ∨ k.InSession := by
  cases k with
  | fsMount diskname => exact Or.inl ⟨diskname, rfl⟩
  | fsUmount => exact Or.inr (Or.inl rfl)
  | _ => exact Or.inr (Or.inr trivial)

def DriverCall.IsHost : DriverCall → Prop
  | .openFile _ => True
  | .fstat _ => True
  | .mmap _ _ => True
  | .malloc _ => True
  | .calloc _ => True
  | .fopen _ => True
  | .fread _ => True
  | _ => False

structure Ready (s : State L N) : Prop where
  session : InSession s
  fits : s.fdOpenCount ≤ N

section Answers

variable {s next : State L N} {k : DriverCall} {event : DriverEvent}

theorem DriverCall.Reaches.inSession {call : Call L} (h : k.Reaches call)
    (hk : k.InSession) : call.InSession := by
  cases k <;> cases call <;> first | exact hk | exact h | exact trivial

theorem served_device (hcall : event.1.InSession) (hserves : Serves s event next) :
    next.device = s.device := by
  rcases hserves.step with rfl | ⟨call, ret, hreaches, hstep⟩
  · rfl
  · exact (step_object (hreaches.inSession hcall) hstep).1

theorem served_fits (hfits : s.fdOpenCount ≤ N) (hserves : Serves s event next) :
    next.fdOpenCount ≤ N := by
  rcases hserves.step with rfl | ⟨call, ret, _, hstep⟩
  · exact hfits
  · exact step_fits hfits hstep

theorem Ready.served (h : Ready s) (hcall : event.1.InSession) (hserves : Serves s event next) :
    Ready next := by
  refine ⟨?_, served_fits h.fits hserves⟩
  rcases hserves.step with rfl | ⟨call, ret, hreaches, hstep⟩
  · exact h.session
  · exact h.session.step (hreaches.inSession hcall) hstep

theorem served_host {answer : k.Answer} (hhost : k.IsHost) (hserves : Serves s ⟨k, answer⟩ next) :
    next = s := by
  cases k <;> first | exact hhost.elim | exact hserves

theorem served_mount {diskname : List UInt8}
    (hserves : Serves s ⟨.fsMount diskname, (0 : Int)⟩ next) :
    s.device.disk.fd = none ∧ InSession next ∧ next.fdOpenCount = s.fdOpenCount := by
  obtain ⟨call, hreaches, hstep⟩ := hserves
  cases call with
  | fsMount req =>
      have hmount : fsMount req s = (0, next) := Except.ok.inj hstep
      obtain ⟨_, hopen, _, hnext⟩ := fsMount_succeeds hmount
      exact ⟨(req.opened_zero hopen).1, inSession_of_mount hmount, by rw [hnext]⟩
  | _ => exact hreaches.elim

theorem served_mount_open {diskname : List UInt8} {ret : Int} (hopen : s.device.disk.fd.isSome)
    (hserves : Serves s ⟨.fsMount diskname, ret⟩ next) : next = s := by
  obtain ⟨call, hreaches, hstep⟩ := hserves
  cases call with
  | fsMount req =>
      have hmount : fsMount req s = (ret, next) := Except.ok.inj hstep
      rw [fsMount_open req hopen] at hmount
      exact (Prod.mk.inj hmount).2.symm
  | _ => exact hreaches.elim

theorem InSession.umount {ret : Int} (h : InSession s)
    (hserves : Serves s ⟨.fsUmount, ret⟩ next) : ret = 0 ∧ next.device.disk.fd = none := by
  obtain ⟨call, hreaches, hstep⟩ := hserves
  cases call with
  | fsUnmount io =>
      obtain ⟨hret, _, hclosed⟩ := h.unmount hstep
      exact ⟨hret, hclosed⟩
  | _ => exact hreaches.elim

theorem served_create {filename : List UInt8} {ret : Int} (h : InSession s)
    (hserves : Serves s ⟨.fsCreate (some filename), ret⟩ next) (hzero : ret = 0) :
    ∃ fs i, next.fileSystem = .live fs ∧ fs.rootDir.name i = filename := by
  obtain ⟨call, hreaches, hstep⟩ := hserves
  cases call with
  | fsCreate noReturn name =>
      obtain ⟨fs, _, hlive, _⟩ := h.object
      have hname : name.bytes = filename := (Option.some.inj hreaches).symm
      rcases fsCreate_live hlive hstep with ⟨hret, _⟩ | ⟨_, _, hlength, _, ⟨i, hi⟩, hnext⟩
      · omega
      · rw [hnext, ← hname]
        exact ⟨_, i, rfl, name_fillAll_of_empty hi hlength⟩
  | _ => exact hreaches.elim

theorem served_open_taken {filename : List UInt8} {ret : Int} {fs : FsSystem L}
    {i : Fin fsFileMaxCount} (hserves : Serves s ⟨.fsOpen (some filename), ret⟩ next)
    (hlive : s.fileSystem = .live fs) (htaken : fs.rootDir.name i = filename) : ret = -1 := by
  obtain ⟨call, hreaches, hstep⟩ := hserves
  cases call with
  | fsOpen noReturn name =>
      have hname : filename = name.bytes := Option.some.inj hreaches
      exact (fsOpen_refused hstep
        (Or.inr (Or.inr (Or.inr ⟨fs, i, hlive, htaken.trans hname⟩)))).1
  | _ => exact hreaches.elim

theorem served_open_range {filename : Option (List UInt8)} {fd : Int}
    (hserves : Serves s ⟨.fsOpen filename, fd⟩ next) (hopened : ¬ fd < 0) : fd < N := by
  cases filename with
  | none =>
      obtain ⟨_, hrefused, _⟩ := hserves
      omega
  | some filename =>
      obtain ⟨call, hreaches, hstep⟩ := hserves
      cases call with
      | fsOpen noReturn name =>
          rcases fsOpen_cases hstep with ⟨hret, _⟩ | ⟨_, _, _, i, _, hret, _⟩
          · omega
          · have hi := i.isLt
            omega
      | _ => exact hreaches.elim

theorem served_open_stat {filename : List UInt8} {fd stat : Int} {after : State L N}
    (hserves : Serves s ⟨.fsOpen (some filename), fd⟩ next) (hfd : ¬ fd < 0)
    (hstat : Serves next ⟨.fsStat fd, stat⟩ after) : stat = 0 := by
  obtain ⟨call, hreaches, hstep⟩ := hserves
  cases call with
  | fsOpen noReturn name =>
      rcases fsOpen_cases hstep with ⟨hret, _⟩ | ⟨hvalid, hlength, ⟨fs, hlive, hfresh⟩, hopened⟩
      · omega
      · obtain ⟨i, _, hret, hnext⟩ := hopened
        have hempty := (opened_unlinked i hlive (isValidName_ne_nil hvalid) hlength hfresh).2.2
        obtain ⟨call, hreaches, hstep⟩ := hstat
        cases call with
        | fsStat fd' =>
            have hfd' : fd' = i := hreaches.trans hret
            simp only [step, hfd', hnext, hempty, Except.map, Except.ok.injEq,
              Prod.mk.injEq] at hstep
            exact hstep.1.symm
        | _ => exact hreaches.elim
  | _ => exact hreaches.elim

end Answers

section Returning

variable {s : State L N} {k : DriverCall}

theorem returns_host (hk : k.IsHost) : Returns s k := by
  cases k <;> first | exact hk.elim | exact fun _ hreaches => hreaches.elim

theorem returns_mount (diskname : List UInt8) : Returns s (.fsMount diskname) := by
  intro call hreaches
  cases call with
  | fsMount req => exact ⟨_, rfl⟩
  | _ => exact hreaches.elim

/-- Where a string is read there is one. `fs_info` reads one at a number. -/
def DriverCall.Named : DriverCall → Prop
  | .fsCreate filename => filename ≠ none
  | .fsOpen filename => filename ≠ none
  | .fsDelete filename => filename ≠ none
  | .fsInfo => False
  | .useNull => False
  | _ => True

theorem Ready.returns_proper (h : Ready s) (hnamed : k.Named)
    (hproper : ∀ call : Call L, k.Reaches call → call.Proper N) : Returns s k := by
  have hreturns (call : Call L) (hreaches : k.Reaches call) : ∃ out, step call s = .ok out :=
    h.session.returns h.fits (hproper call hreaches)
  cases k with
  | fsCreate filename =>
      cases filename with
      | none => exact absurd rfl hnamed
      | some filename => exact hreturns
  | fsOpen filename =>
      cases filename with
      | none => exact absurd rfl hnamed
      | some filename => exact hreturns
  | fsDelete filename =>
      cases filename with
      | none => exact absurd rfl hnamed
      | some filename => exact hreturns
  | fsInfo => exact hnamed.elim
  | useNull => exact hnamed.elim
  | _ => exact hreturns

end Returning

def DriverCall.Risky : DriverCall → Prop
  | .fsDelete _ => True
  | .fsInfo => True
  | _ => False

/-- What a driver that runs no script keeps to: its calls return, save perhaps `fs_delete` and
`fs_info`, no data is transferred, files have no size, and only what is mounted is unmounted.
A name of 2^32 bytes or more would pass `isValidName` by its length modulo 2^32. -/
structure Sound (argv : List (List UInt8)) (s : State L N) (k : DriverCall) : Prop where
  returns : (∀ arg ∈ argv, arg.length < 2 ^ 32) → ¬ k.Risky → Returns s k
  noRead : ∀ fd count, k ≠ .fsRead fd count
  noWrite : ∀ fd count, k ≠ .fsWrite fd count
  sizes : ∀ fd stat next, k = .fsStat fd → Serves s ⟨.fsStat fd, stat⟩ next → stat = 0
  unmounts : k = .fsUmount → InSession s

section Soundness

variable {s : State L N} {argv : List (List UInt8)} {k : DriverCall}

def DriverCall.IsPlain : DriverCall → Prop
  | .fsRead _ _ => False
  | .fsWrite _ _ => False
  | .fsStat _ => False
  | .fsUmount => False
  | _ => True

theorem sound_plain (hk : k.IsPlain)
    (hreturns : (∀ arg ∈ argv, arg.length < 2 ^ 32) → ¬ k.Risky → Returns s k) :
    Sound argv s k where
  returns := hreturns
  noRead := by
    rintro _ _ rfl
    exact hk
  noWrite := by
    rintro _ _ rfl
    exact hk
  sizes := by
    rintro _ _ _ rfl
    exact hk.elim
  unmounts := by
    rintro rfl
    exact hk.elim

theorem sound_host (hk : k.IsHost) : Sound argv s k := by
  refine sound_plain ?_ fun _ _ => returns_host hk
  cases k <;> first | exact hk.elim | exact trivial

theorem sound_mount (diskname : List UInt8) : Sound argv s (.fsMount diskname) :=
  sound_plain trivial fun _ _ => returns_mount diskname

theorem sound_delete (filename : Option (List UInt8)) : Sound argv s (.fsDelete filename) :=
  sound_plain trivial fun _ hsafe => absurd trivial hsafe

theorem sound_info : Sound argv s .fsInfo :=
  sound_plain trivial fun _ hsafe => absurd trivial hsafe

def DriverCall.From (argv : List (List UInt8)) : DriverCall → Prop
  | .fsCreate filename => ∃ name ∈ argv, filename = some name
  | .fsOpen filename => ∃ name ∈ argv, filename = some name
  | .fsDelete _ => False
  | .fsLseek _ _ => False
  | .fsInfo => False
  | .useNull => False
  | _ => True

theorem DriverCall.Reaches.proper {call : Call L} (h : k.Reaches call) (hfrom : k.From argv)
    (hshort : ∀ arg ∈ argv, arg.length < 2 ^ 32) : call.Proper N := by
  have hname {filename : Option (List UInt8)} {name : CStr}
      (hfilename : ∃ arg ∈ argv, filename = some arg) (hbytes : filename = some name.bytes) :
      name.strlen < 2 ^ 32 := by
    obtain ⟨arg, hmem, rfl⟩ := hfilename
    unfold CStr.strlen
    rw [← Option.some.inj hbytes]
    exact hshort arg hmem
  cases k <;> cases call <;>
    first | exact trivial | exact h.elim | exact hfrom.elim | exact hname hfrom h

theorem Ready.returns (h : Ready s) (hfrom : k.From argv)
    (hshort : ∀ arg ∈ argv, arg.length < 2 ^ 32) : Returns s k := by
  refine h.returns_proper ?_ fun call hreaches => hreaches.proper hfrom hshort
  cases k with
  | fsCreate filename =>
      obtain ⟨name, _, rfl⟩ := hfrom
      exact Option.some_ne_none name
  | fsOpen filename =>
      obtain ⟨name, _, rfl⟩ := hfrom
      exact Option.some_ne_none name
  | fsDelete filename => exact hfrom.elim
  | fsInfo => exact hfrom
  | useNull => exact hfrom
  | _ => trivial

theorem Ready.sound (h : Ready s) (hk : k.IsPlain) (hfrom : k.From argv) : Sound argv s k :=
  sound_plain hk fun hshort _ => h.returns hfrom hshort

theorem Ready.sound_umount (h : Ready s) : Sound argv s .fsUmount where
  returns hshort _ := by
    have hfrom : DriverCall.fsUmount.From argv := trivial
    exact h.returns hfrom hshort
  noRead _ _ := by simp
  noWrite _ _ := by simp
  sizes _ _ _ hcall := by simp at hcall
  unmounts _ := h.session

theorem Ready.sound_stat {fd : Int} (h : Ready s)
    (hempty : ∀ stat next, Serves s ⟨.fsStat fd, stat⟩ next → stat = 0) :
    Sound argv s (.fsStat fd) where
  returns hshort _ := by
    have hfrom : (DriverCall.fsStat fd).From argv := trivial
    exact h.returns hfrom hshort
  noRead _ _ := by simp
  noWrite _ _ := by simp
  sizes _ stat next hcall hserves := by
    cases hcall
    exact hempty stat next hserves
  unmounts hcall := by simp at hcall

end Soundness

/-! Along a driver. -/

section Rules

variable {s : State L N} {argv : List (List UInt8)} {P : State L N → Ending → Prop}
  {k : DriverCall} {next : k.Answer → Driver}

theorem keeps_host (hk : k.IsHost) (hnext : ∀ answer, (next answer).Meets (Sound argv) P s) :
    Driver.Meets (Sound argv) P s (.call k next) := by
  refine ⟨sound_host hk, fun answer after hserves => ?_⟩
  rw [served_host hk hserves]
  exact hnext answer

theorem keeps_session (hk : k.InSession) (h : Ready s) (hsound : Sound argv s k)
    (hnext : ∀ answer after, Ready after → Serves s ⟨k, answer⟩ after →
      (next answer).Meets (Sound argv) P after) :
    Driver.Meets (Sound argv) P s (.call k next) :=
  ⟨hsound, fun answer after hserves => hnext answer after (h.served hk hserves) hserves⟩

theorem keeps_mount {diskname : List UInt8} {next : Driver} (hfits : s.fdOpenCount ≤ N)
    (hdied : ∀ t, P t .died)
    (hnext : ∀ after, Ready after → next.Meets (Sound argv) P after) :
    Driver.Meets (Sound argv) P s
      (.call (.fsMount diskname) fun (failed : Int) => if failed ≠ 0 then die else next) := by
  refine ⟨sound_mount diskname, fun failed after hserves => ?_⟩
  refine Program.meets_ite (fun _ => hdied after) fun hzero => ?_
  have hmounted : (failed : Int) = 0 := not_not.mp hzero
  rw [hmounted] at hserves
  obtain ⟨_, hsession, hcount⟩ := served_mount hserves
  exact hnext after ⟨hsession, hcount ▸ hfits⟩

theorem keeps_umountAndDie (h : Ready s) (hdied : ∀ t, P t .died) :
    umountAndDie.Meets (Sound argv) P s :=
  ⟨h.sound_umount, fun _ after _ => hdied after⟩

theorem keeps_umountAndReturn (h : Ready s) (hdied : ∀ t, P t .died)
    (hreturned : ∀ t : State L N, t.device.disk.fd = none → P t .returned) :
    umountAndReturn.Meets (Sound argv) P s := by
  refine ⟨h.sound_umount, fun failed after hserves => ?_⟩
  exact Program.meets_ite (fun _ => hdied after) fun _ =>
    hreturned after (h.session.umount hserves).2

end Rules

/-! Calls on the sample disk. -/

def noArgs : CommandArgs := fun _ => none

theorem InSession.served_umount {s : State L N} (h : InSession s) :
    ∃ after, Serves s ⟨.fsUmount, (0 : Int)⟩ after := by
  obtain ⟨fs, fat, hlive, hfat⟩ := h.object
  obtain ⟨after, hunmount, _⟩ := fsUnmount_succeeds (fun _ => .whole) hlive hfat h.diskOpen
  exact ⟨after, .fsUnmount fun _ => .whole, trivial, hunmount⟩

section Sample

variable {s : State .packed 32} (hmount : fsMount freshMount freshStart = (0, s))
include hmount

theorem served_freshMount : Serves freshStart ⟨.fsMount diskD.bytes, (0 : Int)⟩ s :=
  ⟨.fsMount freshMount, rfl, (congrArg Except.ok hmount :)⟩

/-- The last entry is not read from the disk. -/
theorem freshMount_free {fs : FsSystem .packed} (hlive : s.fileSystem = .live fs) :
    ¬ (fs.rootDir 127).live := by
  obtain ⟨_, hopen, _, rfl⟩ := fsMount_succeeds hmount
  obtain ⟨_, hserves, _, _⟩ := freshMount.opened_zero hopen
  cases hlive
  have hflag : ((freshMount.accepted (freshMount.opened freshStart.device).2).rootDir
      127).emptyByte = 1 := by
    change (freshMount.rootRead (freshMount.opened freshStart.device).2).buffer
      (Layout.packed.entrySize * 127 + 32) = 1
    rw [rootRead_buffer rfl hserves, if_neg fun hin => absurd hin.2 (by decide)]
    exact (RootDir.toBytes_entry blankDir (127 : Fin fsFileMaxCount) (by decide)).trans rfl
  simp [RootEntry.live, RootEntry.isEmpty, hflag]

theorem served_created (name : CStr) (hvalid : isValidName true name = true)
    (hlength : name.strlen < fsFilenameLen) : ∃ created, InSession created ∧
      Serves s ⟨.fsCreate (some name.bytes), (0 : Int)⟩ created ∧
      Serves created ⟨.fsOpen (some name.bytes), (-1 : Int)⟩ created := by
  obtain ⟨fs, _, hlive, _, _, _, hunnamed⟩ := freshMount_unnamed hmount
  have hfresh (i : Fin fsFileMaxCount) : fs.rootDir.name i ≠ name.bytes :=
    (hunnamed i).trans_ne (isValidName_ne_nil hvalid).symm
  have hfree := freshMount_free hmount hlive
  have hcreate : step (.fsCreate true name) s = .ok (0, _) :=
    fsCreate_fills hlive hvalid hlength hfresh ⟨_, hfree⟩
  have hcall : (Call.fsCreate true name : Call .packed).InSession := trivial
  refine ⟨_, (inSession_of_mount hmount).step hcall hcreate, ⟨.fsCreate true name, rfl, hcreate⟩,
    .fsOpen true name, rfl, ?_⟩
  have htaken : nameTaken name (fillAll name fs.rootDir) = true :=
    nameTaken_iff.mpr ⟨_, name_fillAll_of_empty hfree hlength⟩
  simp [LibFs.step, fsOpen, hvalid, htaken]

theorem served_opened : ∃ opened, InSession opened ∧
    Serves s ⟨.fsOpen (some nameA.bytes), (0 : Int)⟩ opened ∧
    Serves opened ⟨.fsStat 0, (0 : Int)⟩ opened := by
  obtain ⟨fs, _, hlive, _, _, hcount, hunnamed⟩ := freshMount_unnamed hmount
  have hopen : step (.fsOpen true nameA) s = .ok (0, _) :=
    fsOpen_returns (i := 0) hlive (by decide) (by decide)
      (fun i => (hunnamed i).trans_ne (by decide)) hcount
  have hopened : Serves s ⟨.fsOpen (some nameA.bytes), (0 : Int)⟩ (s.openFd 0 nameA) :=
    ⟨.fsOpen true nameA, rfl, hopen⟩
  obtain ⟨stat, hstat⟩ := fsStat_returns (s := s.openFd 0 nameA) 0 hlive
  have hserves : Serves (s.openFd 0 nameA) ⟨.fsStat 0, stat⟩ (s.openFd 0 nameA) :=
    ⟨.fsStat 0, rfl, by simp [LibFs.step, hstat, Except.map]⟩
  have hzero : stat = 0 := served_open_stat hopened (by decide) hserves
  have hcall : (Call.fsOpen true nameA : Call .packed).InSession := trivial
  exact ⟨_, (inSession_of_mount hmount).step hcall hopen, hopened, hzero ▸ hserves⟩

end Sample

end LibFs
