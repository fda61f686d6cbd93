import LibFs.Foundation.Serve
import LibFs.Model.Drivers
import LibFs.Model.Effects

/-! The library behind the drivers: which calls of the interface a driver's call can be, and
what it is answered. `fs_umount` is `fs_unmount`, an `int` offset becomes a `size_t`, and what
the host answers is arbitrary. -/
namespace LibFs

open LibFs.Foundation

variable {s next : State L N}

/-- The calls of the interface behind a driver's call. A `NULL` name is not a string, so
there are none behind a call with it. -/
def DriverCall.Reaches : DriverCall → Call L → Prop
  | .fsMount diskname, .fsMount req => req.diskname.bytes = diskname
  | .fsUmount, .fsUnmount _ => True
  | .fsCreate filename, .fsCreate _ name => filename = some name.bytes
  | .fsDelete filename, .fsDelete _ name => filename = some name.bytes
  | .fsOpen filename, .fsOpen _ name => filename = some name.bytes
  | .fsClose fd, .fsClose fd' => fd' = fd
  | .fsStat fd, .fsStat fd' => fd' = fd
  | .fsLseek fd offset, .fsLseek fd' offset' => fd' = fd ∧ offset' = BitVec.ofInt 64 offset
  | .fsLs, .fsLs => True
  | _, _ => False

def Replies (reaches : Call L → Prop) (s : State L N) (ret : Int) (next : State L N) : Prop :=
  ∃ call, reaches call ∧ step call s = .ok (ret, next)

/-- `fs_create` and `fs_open` do not look at the name when no file system is mounted. -/
def NullRefused (s : State L N) (ret : Int) (next : State L N) : Prop :=
  s.fileSystem.isNull = true ∧ ret = -1 ∧ next = s

def Serves (s : State L N) : DriverEvent → State L N → Prop
  | ⟨.fsMount diskname, ret⟩, next => Replies (DriverCall.fsMount diskname).Reaches s ret next
  | ⟨.fsUmount, ret⟩, next => Replies DriverCall.fsUmount.Reaches s ret next
  | ⟨.fsCreate none, ret⟩, next => NullRefused s ret next
  | ⟨.fsCreate filename, ret⟩, next => Replies (DriverCall.fsCreate filename).Reaches s ret next
  | ⟨.fsDelete filename, ret⟩, next => Replies (DriverCall.fsDelete filename).Reaches s ret next
  | ⟨.fsOpen none, ret⟩, next => NullRefused s ret next
  | ⟨.fsOpen filename, ret⟩, next => Replies (DriverCall.fsOpen filename).Reaches s ret next
  | ⟨.fsClose fd, ret⟩, next => Replies (DriverCall.fsClose fd).Reaches s ret next
  | ⟨.fsStat fd, ret⟩, next => Replies (DriverCall.fsStat fd).Reaches s ret next
  | ⟨.fsLseek fd offset, ret⟩, next => Replies (DriverCall.fsLseek fd offset).Reaches s ret next
  | ⟨.fsLs, ret⟩, next => Replies DriverCall.fsLs.Reaches s ret next
  | ⟨.fsInfo, ret⟩, next => fsInfo s = .ok ret ∧ next = s
  | ⟨.fsWrite fd count, ret⟩, next => fsWrite fd count s = (ret, next)
  | ⟨.fsRead fd count, ret⟩, next => fsRead fd count s = (ret, next)
  | _, next => next = s

/-- A call that returns whatever the host and the values left unassigned may be. -/
def Returns (s : State L N) : DriverCall → Prop
  | .fsCreate none => s.fileSystem.isNull = true
  | .fsOpen none => s.fileSystem.isNull = true
  | .fsDelete none => False
  | .fsInfo => ∃ out, fsInfo s = .ok out
  | .useNull => False
  | k => ∀ call, k.Reaches call → ∃ out, step call s = .ok out

abbrev DriverExec (s : State L N) (driver : Driver) (trace : List DriverEvent)
    (next : State L N) (rest : Driver) : Prop :=
  Program.Exec Serves s driver trace next rest

abbrev Driver.Meets (guard : State L N → DriverCall → Prop) (P : State L N → Ending → Prop)
    (s : State L N) (driver : Driver) : Prop :=
  Program.Meets Serves guard P s driver

theorem Serves.step {event : DriverEvent} (h : Serves s event next) :
    next = s ∨ ∃ call ret, event.1.Reaches call ∧ LibFs.step call s = .ok (ret, next) := by
  have hreplies {reaches : Call L → Prop} {ret : Int} (h : Replies reaches s ret next) :
      next = s ∨ ∃ call ret, reaches call ∧ LibFs.step call s = .ok (ret, next) := by
    obtain ⟨call, hreaches, hstep⟩ := h
    exact Or.inr ⟨call, ret, hreaches, hstep⟩
  obtain ⟨call, answer⟩ := event
  cases call with
  | fsCreate filename =>
      cases filename with
      | none => exact Or.inl h.2.2
      | some filename => exact hreplies h
  | fsOpen filename =>
      cases filename with
      | none => exact Or.inl h.2.2
      | some filename => exact hreplies h
  | fsInfo => exact Or.inl h.2
  | fsWrite fd count => exact Or.inl (Prod.mk.inj h).2.symm
  | fsRead fd count => exact Or.inl (Prod.mk.inj h).2.symm
  | openFile _ => exact Or.inl h
  | fstat _ => exact Or.inl h
  | mmap _ _ => exact Or.inl h
  | malloc _ => exact Or.inl h
  | calloc _ => exact Or.inl h
  | fopen _ => exact Or.inl h
  | fread _ => exact Or.inl h
  | useNull => exact Or.inl h
  | _ => exact hreplies h

end LibFs
