import LibFs.Foundation.Register
import LibFs.Foundation.Run
import LibFs.Descriptors.Offsets
import LibFs.Directory.Sessions

/-! What a program sees of a session on a directory whose names end in their fields. The
results of the calls that return are those of a machine that knows which names are taken and
which are free, and which descriptors it has given out: entries, chains, sizes and offsets
never show. -/
namespace LibFs

open LibFs.Foundation

/-- What a call of a session asks for, with what a missing return value comes to. The offset
of a seek is not part of it. -/
inductive Request where
  | fsCreate (noReturn : Bool) (filename : CStr)
  | fsDelete (filename : CStr)
  | fsLs
  | fsOpen (noReturn : Bool) (filename : CStr)
  | fsClose (fd : Int)
  | fsStat (fd : Int)
  | fsLseek (fd : Int)

def Call.request : Call L → Option Request
  | .fsMount _ => none
  | .fsUnmount _ => none
  | .fsCreate noReturn filename => some (.fsCreate noReturn filename)
  | .fsDelete _ filename => some (.fsDelete filename)
  | .fsLs => some .fsLs
  | .fsOpen noReturn filename => some (.fsOpen noReturn filename)
  | .fsClose fd => some (.fsClose fd)
  | .fsStat fd => some (.fsStat fd)
  | .fsLseek fd _ => some (.fsLseek fd)

theorem Call.request_isSome {call : Call L} : call.request.isSome ↔ call.InSession := by
  cases call <;> simp [request, InSession]

structure Session where
  names : Register (List UInt8)
  fds : Handles

namespace Session

def begin (dir : RootDir L) (count : Nat) : Session := ⟨.of dir.key, ⟨count, ∅, by simp⟩⟩

def holds (c : Session) (fd : Int) : Bool := decide (0 ≤ fd ∧ fd.toNat ∈ c.fds.held)

/-- The result of a call and what there is to know after it, for a table of `slots`. -/
def answer (slots : Nat) : Request → Session → Int × Session
  | .fsCreate noReturn filename, c =>
      if isValidName noReturn filename = true ∧ filename.bytes ∉ c.names.known ∧
          c.names.free.Nonempty then
        (0, { c with names := c.names.enter filename.bytes })
      else (-1, c)
  | .fsDelete filename, c => (0, { c with names := c.names.drop filename.bytes })
  | .fsLs, c => (0, c)
  | .fsOpen noReturn filename, c =>
      if isValidName noReturn filename = true ∧ filename.bytes ∉ c.names.known ∧
          c.fds.issued ≠ slots then
        (c.fds.issued, { c with fds := c.fds.issue })
      else (-1, c)
  | .fsClose fd, c =>
      if c.holds fd then (0, { c with fds := c.fds.release fd.toNat }) else (-1, c)
  | .fsStat fd, c => (if c.holds fd then 0 else -1, c)
  | .fsLseek fd, c => (if c.holds fd then -1 else 0, c)

end Session

structure Shows (past : List (ApiEvent L N)) (c : Session) (s : State L N) : Prop where
  names : ∃ fs, s.fileSystem = .live fs ∧ (∀ i, (fs.rootDir i).filename.Terminated) ∧
    .of fs.rootDir.key = c.names
  fds : Represents c.fds past s
  sizes : SizesHidden s

def Tells (past : List (ApiEvent L N)) (c : Session) (e : ApiEvent L N) (q : Request) : Prop :=
  e.ret = (c.answer N q).1 ∧ Shows (e :: past) (c.answer N q).2 e.after

section Names

variable {dir : RootDir L} {filename : CStr}

theorem known_keys {name : List UInt8} :
    name ∈ (Register.of dir.key).known ↔ ∃ i, dir.name i = name :=
  Register.mem_known

theorem free_keys : (Register.of dir.key).free.Nonempty ↔ ∃ i, ¬ (dir i).live := by
  rw [Register.nonempty_free]
  refine exists_congr fun i => ?_
  simp [RootDir.key, RootEntry.live]

theorem register_fillAll (hlength : filename.strlen < fsFilenameLen)
    (hfree : (Register.of dir.key).free.Nonempty) :
    .of (fillAll filename dir).key = (Register.of dir.key).enter filename.bytes := by
  have hkeys : (fillAll filename dir).key =
      fun i => if (dir.key i).2 then (filename.bytes, false) else dir.key i :=
    funext (key_fillAll hlength)
  rw [hkeys, Register.of_fill hfree]

theorem register_resetAll (hends : ∀ i, (dir i).filename.Terminated) :
    .of (resetAll filename dir).key = (Register.of dir.key).drop filename.bytes := by
  have hkeys : (resetAll filename dir).key =
      fun i => if (dir.key i).1 = filename.bytes then ((dir.key i).1, true) else dir.key i := by
    funext i
    simpa only [beq_iff_eq] using key_resetAll (hends i)
  rw [hkeys, Register.of_clear]

end Names

section Steps

variable {past : List (ApiEvent L N)} {c : Session} {e : ApiEvent L N}

theorem Represents.quiet {h : Handles} (hrep : Represents h past e.before)
    (hcall : e.call.InSession) (hstep : step e.call e.before = .ok (e.ret, e.after))
    (hopens : ∀ noReturn filename, e.call = .fsOpen noReturn filename → e.ret = -1)
    (hcloses : ∀ fd, e.call = .fsClose fd → e.ret = -1) : Represents h (e :: past) e.after := by
  obtain ⟨fs, hfs⟩ := hrep.live
  obtain ⟨hlive, heffect⟩ := tableEffect past hfs hcall hstep
  cases heffect with
  | opens i hopen _ hret _ _ _ =>
      have hrefused := hopens _ _ hopen
      omega
  | closes i hclose hret _ _ =>
      have hrefused := hcloses _ hclose
      omega
  | keeps _ hfds hcount hnames _ => exact hrep.keeps hlive hfds hcount hnames

theorem Represents.holds (hrep : Represents c.fds past e.before) (fd : Int) :
    isValidFD fd e.before = c.holds fd := by
  rw [Bool.eq_iff_iff, hrep.accepted_iff, hrep.history, Session.holds, decide_eq_true_iff,
    Finset.mem_map]
  constructor
  · rintro ⟨k, hk, rfl⟩
    exact ⟨Int.natCast_nonneg k, hk⟩
  · rintro ⟨hlow, hheld⟩
    exact ⟨fd.toNat, hheld, Int.toNat_of_nonneg hlow⟩

theorem Shows.keep (h : Shows past c e.before) (hcall : e.call.InSession)
    (hstep : step e.call e.before = .ok (e.ret, e.after))
    (hopens : ∀ noReturn filename, e.call = .fsOpen noReturn filename → e.ret = -1)
    (hcloses : ∀ fd, e.call = .fsClose fd → e.ret = -1)
    (hobject : e.after.fileSystem = e.before.fileSystem) : Shows (e :: past) c e.after :=
  ⟨hobject ▸ h.names, h.fds.quiet hcall hstep hopens hcloses, h.sizes.step hcall hstep⟩

theorem Shows.create {noReturn : Bool} {filename : CStr} (h : Shows past c e.before)
    (hcreate : e.call = .fsCreate noReturn filename)
    (hstep : step e.call e.before = .ok (e.ret, e.after)) :
    Tells past c e (.fsCreate noReturn filename) := by
  have hcall : e.call.InSession := by simp [hcreate, Call.InSession]
  have hfds := h.fds.quiet hcall hstep (by simp [hcreate]) (by simp [hcreate])
  have hsizes := h.sizes.step hcall hstep
  obtain ⟨fs, hlive, hends, hnames⟩ := h.names
  rw [hcreate] at hstep
  simp only [Tells, Session.answer]
  rcases fsCreate_live hlive hstep with
    ⟨hret, hafter, hreason⟩ | ⟨hret, hvalid, hlength, hfresh, hfree, hafter⟩
  · rw [if_neg]
    · exact ⟨hret, ⟨fs, hafter ▸ hlive, hends, hnames⟩, hfds, hsizes⟩
    · rw [← hnames, known_keys, free_keys]
      rintro ⟨hvalid, hfresh, i, hfree⟩
      rcases hreason with hinvalid | htaken | hfull
      · simp [hvalid] at hinvalid
      · exact hfresh htaken
      · exact hfree (hfull i)
  · have hroom := free_keys.mpr hfree
    have hfilled (i : Fin fsFileMaxCount) : (fillAll filename fs.rootDir i).filename.Terminated :=
      terminated_fillAll hlength (hends i)
    rw [if_pos]
    · have hlive' : e.after.fileSystem =
          .live { fs with rootDir := fillAll filename fs.rootDir } := by rw [hafter]
      refine ⟨hret, ⟨_, hlive', hfilled, ?_⟩, hfds, hsizes⟩
      rw [register_fillAll hlength hroom, hnames]
    · rw [← hnames, known_keys, not_exists]
      exact ⟨hvalid, hfresh, hroom⟩

theorem Shows.delete {unassigned : RootEntry L} {filename : CStr} (h : Shows past c e.before)
    (hdelete : e.call = .fsDelete unassigned filename)
    (hstep : step e.call e.before = .ok (e.ret, e.after)) :
    Tells past c e (.fsDelete filename) := by
  have hcall : e.call.InSession := by simp [hdelete, Call.InSession]
  have hfds := h.fds.quiet hcall hstep (by simp [hdelete]) (by simp [hdelete])
  have hsizes := h.sizes.step hcall hstep
  obtain ⟨fs, hlive, hends, hnames⟩ := h.names
  rw [hdelete] at hstep
  obtain ⟨_, pFAT, _, _, hret, hafter⟩ := fsDelete_live hlive hstep
  have hfreed (i : Fin fsFileMaxCount) : (resetAll filename fs.rootDir i).filename.Terminated :=
    terminated_resetAll (hends i)
  have hlive' : e.after.fileSystem =
      .live { fs with rootDir := resetAll filename fs.rootDir, fatBlocks := pFAT } := by rw [hafter]
  refine ⟨hret, ⟨_, hlive', hfreed, ?_⟩, hfds, hsizes⟩
  rw [register_resetAll hends, hnames]
  rfl

theorem Shows.opened {noReturn : Bool} {filename : CStr} (h : Shows past c e.before)
    (hopen : e.call = .fsOpen noReturn filename)
    (hstep : step e.call e.before = .ok (e.ret, e.after)) :
    Tells past c e (.fsOpen noReturn filename) := by
  have hcall : e.call.InSession := by simp [hopen, Call.InSession]
  have hkeep := h.keep hcall hstep
  have hsizes := h.sizes.step hcall hstep
  obtain ⟨fs, hlive, hends, hnames⟩ := h.names
  rw [hopen] at hstep
  simp only [Tells, Session.answer]
  rcases fsOpen_live hlive hstep with
    ⟨hret, hafter, hreason⟩ | ⟨hvalid, hlength, hfresh, i, hcount, hret, hafter⟩
  · rw [if_neg]
    · exact ⟨hret, hkeep (fun _ _ _ => hret) (by simp [hopen]) (by rw [hafter])⟩
    · rw [← hnames, known_keys, ← h.fds.issued]
      rintro ⟨hvalid, hfresh, hroom⟩
      rcases hreason with hinvalid | hfull | htaken
      · simp [hvalid] at hinvalid
      · exact hroom hfull
      · exact hfresh htaken
  · rw [if_pos]
    · have hname := isValidName_ne_nil hvalid
      refine ⟨by rw [hret, ← h.fds.issued, hcount],
        ⟨fs, by rw [hafter]; exact hlive, hends, hnames⟩, ?_, hsizes⟩
      exact h.fds.opens hopen hcount hret hname hlength hafter
    · rw [← hnames, known_keys, not_exists, ← h.fds.issued, hcount]
      exact ⟨hvalid, hfresh, i.isLt.ne⟩

theorem Shows.closed {fd : Int} (h : Shows past c e.before) (hclose : e.call = .fsClose fd)
    (hstep : step e.call e.before = .ok (e.ret, e.after)) :
    Tells past c e (.fsClose fd) := by
  have hcall : e.call.InSession := by simp [hclose, Call.InSession]
  have hkeep := h.keep hcall hstep
  have hsizes := h.sizes.step hcall hstep
  obtain ⟨fs, hlive, hends, hnames⟩ := h.names
  rw [hclose] at hstep
  simp only [Tells, Session.answer]
  rw [← h.fds.holds]
  rcases fsClose_cases hstep with ⟨hret, hafter, hinvalid⟩ | ⟨hret, hvalid, i, rfl, hafter⟩
  · rw [hinvalid, if_neg (by decide)]
    exact ⟨hret, hkeep (by simp [hclose]) (fun _ _ => hret) (by rw [hafter])⟩
  · rw [hvalid, if_pos rfl]
    refine ⟨hret, ⟨fs, by rw [hafter]; exact hlive, hends, hnames⟩, ?_, hsizes⟩
    exact h.fds.closes hclose hret hafter

theorem Shows.looked {q : Request} (h : Shows past c e.before) (hcall : e.call.InSession)
    (hstep : step e.call e.before = .ok (e.ret, e.after))
    (hopens : ∀ noReturn filename, e.call ≠ .fsOpen noReturn filename)
    (hcloses : ∀ fd, e.call ≠ .fsClose fd)
    (hobject : e.after.fileSystem = e.before.fileSystem) (hsame : (c.answer N q).2 = c)
    (hret : e.ret = (c.answer N q).1) : Tells past c e q := by
  refine ⟨hret, hsame.symm ▸ h.keep hcall hstep ?_ ?_ hobject⟩
  · exact fun _ _ hopen => absurd hopen (hopens _ _)
  · exact fun _ hclose => absurd hclose (hcloses _)

theorem Shows.listed (h : Shows past c e.before) (hls : e.call = .fsLs)
    (hstep : step e.call e.before = .ok (e.ret, e.after)) : Tells past c e .fsLs := by
  refine h.looked (by simp [hls, Call.InSession]) hstep (by simp [hls]) (by simp [hls]) ?_ rfl ?_
  all_goals
    obtain ⟨fs, hlive, _⟩ := h.names
    rw [hls] at hstep
    simp only [step, fsLs, hlive, Pointer.deref_live, Except.map, Except.ok.injEq,
      Prod.mk.injEq] at hstep
  · rw [hstep.2]
  · exact hstep.1.symm

theorem Shows.sized {fd : Int} (h : Shows past c e.before) (hstat : e.call = .fsStat fd)
    (hstep : step e.call e.before = .ok (e.ret, e.after)) : Tells past c e (.fsStat fd) := by
  obtain ⟨fs, hlive, _⟩ := h.names
  obtain ⟨size, hsize⟩ := fsStat_returns fd hlive
  have hout := hstep
  simp only [hstat, step, hsize, Except.map, Except.ok.injEq, Prod.mk.injEq] at hout
  refine h.looked (by simp [hstat, Call.InSession]) hstep (by simp [hstat]) (by simp [hstat])
    (by rw [hout.2]) rfl ?_
  rw [← hout.1, h.sizes.stat hsize, h.fds.holds]
  rfl

theorem Shows.sought {fd : Int} {offset : BitVec 64} (h : Shows past c e.before)
    (hseek : e.call = .fsLseek fd offset)
    (hstep : step e.call e.before = .ok (e.ret, e.after)) : Tells past c e (.fsLseek fd) := by
  have hlooked := h.looked (q := .fsLseek fd) (by simp [hseek, Call.InSession]) hstep
    (by simp [hseek]) (by simp [hseek])
  rw [hseek] at hstep
  simp only [Session.answer, ← h.fds.holds] at hlooked
  rcases fsLseek_cases hstep with ⟨hret, hafter, hvalid⟩ | ⟨hret, hinvalid, i, _, hafter⟩
  · exact hlooked (by rw [hafter]) trivial (by rw [hret, hvalid, if_pos rfl])
  · exact hlooked (by rw [hafter]; rfl) trivial (by rw [hret, hinvalid, if_neg (by decide)])

theorem Shows.answered {q : Request} (h : Shows past c e.before)
    (hrequest : e.call.request = some q)
    (hstep : step e.call e.before = .ok (e.ret, e.after)) : Tells past c e q := by
  cases hcall : e.call <;> rw [hcall] at hrequest <;> cases hrequest
  case fsCreate => exact h.create hcall hstep
  case fsDelete => exact h.delete hcall hstep
  case fsLs => exact h.listed hcall hstep
  case fsOpen => exact h.opened hcall hstep
  case fsClose => exact h.closed hcall hstep
  case fsStat => exact h.sized hcall hstep
  case fsLseek => exact h.sought hcall hstep

end Steps

theorem loaded_noneOpen (blocks : Fin (2 ^ 15)) (fat : Nat) (dir : RootDir L) (bytes : Bytes) :
    NoneOpen (loadedState blocks fat dir bytes : State L N) :=
  ⟨⟨_, rfl⟩, fun _ => (by decide : (FdTableEntry.zero).filename.text = [])⟩

section Runs

variable {start s : State L N} {past : List (ApiEvent L N)} {fs : FsSystem L}

theorem NoneOpen.shows (hnone : NoneOpen start) (hlive : start.fileSystem = .live fs)
    (hends : ∀ i, (fs.rootDir i).filename.Terminated) (hfits : start.fdOpenCount ≤ N) :
    Shows [] (.begin fs.rootDir start.fdOpenCount) start where
  names := ⟨fs, hlive, hends, rfl⟩
  fds :=
    { live := ⟨fs, hlive⟩
      issued := rfl
      named := fun i => iff_of_false (fun hi => hi (hnone.2 i)) (Finset.notMem_empty _)
      inTable := hfits
      history := (Finset.map_empty _).symm }
  sizes := ⟨fs, hlive, fun i hi => absurd (hnone.2 i) hi⟩

def told (dir : RootDir L) (count : Nat) (past : List (ApiEvent L N)) : List Int × Session :=
  dialogue (Session.answer N) (.begin dir count) (questions Call.request past)

theorem NoneOpen.tells (hnone : NoneOpen start) (hlive : start.fileSystem = .live fs)
    (hends : ∀ i, (fs.rootDir i).filename.Terminated) (hfits : start.fdOpenCount ≤ N)
    (hrun : ApiRun start past s) (hcalls : ∀ e ∈ past, e.call.InSession) :
    past.map Event.ret = (told fs.rootDir start.fdOpenCount past).1 ∧
      Shows past (told fs.rootDir start.fdOpenCount past).2 s :=
  hrun.simulated (R := Shows) (hnone.shows hlive hends hfits)
    (fun _ _ _ _ hshows hrequest hstep => hshows.answered hrequest hstep)
    fun e he => Call.request_isSome.mpr (hcalls e he)

/-- In a session that begins with no descriptor open, on names that end in their fields, the
results of calls that all return are the answers of the session machine, and in the end `fs_ls`
lists the names the machine knows. -/
theorem session_answers (hnone : NoneOpen start) (hlive : start.fileSystem = .live fs)
    (hends : ∀ i, (fs.rootDir i).filename.Terminated) (hfits : start.fdOpenCount ≤ N)
    (hrun : ApiRun start past s) (hcalls : ∀ e ∈ past, e.call.InSession) :
    past.map Event.ret = (told fs.rootDir start.fdOpenCount past).1 ∧
      ∀ lines ret name, fsLs s = .ok (lines, ret) → name ≠ [] →
        ((∃ i, .entry i name ∈ lines) ↔
          name ∈ (told fs.rootDir start.fdOpenCount past).2.names.known) := by
  obtain ⟨hanswers, hshows⟩ := hnone.tells hlive hends hfits hrun hcalls
  refine ⟨hanswers, fun lines ret name hls hname => ?_⟩
  obtain ⟨fs', hlive', _, hnames⟩ := hshows.names
  rw [← hnames, known_keys]
  constructor
  · rintro ⟨i, hline⟩
    obtain ⟨slot, _, hslot, _⟩ := (mem_fsLs hlive' hls).mp hline
    exact ⟨slot, hslot.symm⟩
  · rintro ⟨slot, rfl⟩
    exact ⟨slot, (mem_fsLs hlive' hls).mpr ⟨slot, rfl, rfl, hname⟩⟩

end Runs

def closingB : ApiEvent .packed 32 :=
  ⟨openingB.after, .fsClose 0, 0, openingB.after.setFd 0 (openingB.after.fdTable 0).closed⟩

/-- "b" is created and deleted, "a" created, and "b" opened and closed. -/
def recreationEvents : List (ApiEvent .packed 32) :=
  [closingB, openingB, recreationA, deletionB, creationB]

theorem recreationEvents_run : ApiRun (freedState freedDir) recreationEvents closingB.after := by
  have hlive : (freedState renamedDir).fileSystem = .live (freedFs renamedDir) := rfl
  have hvalid := isValidFD_openFd (0 : Fin 32) hlive (by decide : nameB.bytes ≠ []) (by decide)
  have hclose : step (.fsClose 0) openingB.after = .ok (0, closingB.after) :=
    fsClose_closes (i := (0 : Fin 32)) hvalid
  exact openingB_run.snoc hclose

theorem session_answers_recreation :
    recreationEvents.map Event.ret = (told freedDir 0 recreationEvents).1 ∧
      ∀ lines ret, fsLs closingB.after = .ok (lines, ret) →
        ((∃ i, .entry i nameA.bytes ∈ lines) ↔
          nameA.bytes ∈ (told freedDir 0 recreationEvents).2.names.known) := by
  have hnone : NoneOpen (freedState freedDir) :=
    ⟨⟨_, rfl⟩, fun _ => (by decide : (FdTableEntry.zero).filename.text = [])⟩
  have hcalls : ∀ e ∈ recreationEvents, e.call.InSession := by
    simp [recreationEvents, closingB, openingB, recreationA, deletionB, creationB, Call.InSession]
  have hcount : (freedState freedDir).fdOpenCount = 0 := rfl
  obtain ⟨hanswers, hlisted⟩ := session_answers hnone freedDir_live freedDir_terminated
    (Nat.zero_le _) recreationEvents_run hcalls
  rw [freedFs_rootDir, hcount] at hanswers hlisted
  exact ⟨hanswers, fun lines ret hls => hlisted lines ret nameA.bytes hls (by decide)⟩

/-- Two sessions whose calls all return, on whatever disks, in structures laid out in whatever
way, that begin with the same names taken and free, all ending in their fields, the same number
of descriptors given out and none open, return the same to the same requests. -/
theorem sessions_alike {L L' : Layout} {N : Nat} {start s : State L N} {start' s' : State L' N}
    {past : List (ApiEvent L N)} {past' : List (ApiEvent L' N)} {fs : FsSystem L}
    {fs' : FsSystem L'} (hnone : NoneOpen start) (hnone' : NoneOpen start')
    (hlive : start.fileSystem = .live fs) (hlive' : start'.fileSystem = .live fs')
    (hends : ∀ i, (fs.rootDir i).filename.Terminated)
    (hends' : ∀ i, (fs'.rootDir i).filename.Terminated)
    (hnames : Register.of fs.rootDir.key = .of fs'.rootDir.key)
    (hcount : start.fdOpenCount = start'.fdOpenCount) (hfits : start.fdOpenCount ≤ N)
    (hrun : ApiRun start past s) (hrun' : ApiRun start' past' s')
    (hcalls : ∀ e ∈ past, e.call.InSession) (hcalls' : ∀ e ∈ past', e.call.InSession)
    (hrequests : questions Call.request past = questions Call.request past') :
    past.map Event.ret = past'.map Event.ret := by
  have hbegin : Session.begin fs.rootDir start.fdOpenCount =
      .begin fs'.rootDir start'.fdOpenCount := by
    simp only [Session.begin, hnames, hcount]
  rw [(hnone.tells hlive hends hfits hrun hcalls).1,
    (hnone'.tells hlive' hends' (hcount ▸ hfits) hrun' hcalls').1]
  unfold told
  rw [hbegin, hrequests]

/-! The file "a" is deleted from a disk and "b" opened, whatever the size of "a" is and with
whatever FAT. -/

section OneFile

variable (L : Layout) (fat : Nat) (fileSize : BitVec 32) (freed : FatBuffer)

def oneFileStart : State L 32 := loadedState 2048 fat (oneFileDir fileSize) fun _ => 0

def emptiedFs : FsSystem L :=
  ⟨sampleSuper 2048 fat, resetAll nameA (oneFileDir fileSize), .live freed⟩

def emptiedState : State L 32 :=
  { oneFileStart L fat fileSize with fileSystem := .live (emptiedFs L fat fileSize freed) }

def emptying : List (ApiEvent L 32) :=
  let emptied := emptiedState L fat fileSize freed
  [⟨emptied, .fsOpen true nameB, 0, emptied.openFd 0 nameB⟩,
    ⟨oneFileStart L fat fileSize, .fsDelete blankEntry nameA, 0, emptied⟩]

variable {L fat fileSize freed}

theorem emptying_run (hwalk : freeChain (oneFileDir fileSize 0 : RootEntry L).fileBlckSize 1
      (.live ⟨blockSize * fat, fun _ => 0⟩) = .ok (.live freed)) :
    ApiRun (oneFileStart L fat fileSize) (emptying L fat fileSize freed)
      ((emptiedState L fat fileSize freed).openFd 0 nameB) := by
  have hlive : (oneFileStart L fat fileSize).fileSystem =
      .live (loadedFs 2048 fat (oneFileDir fileSize) fun _ => 0) := rfl
  have hlast (j : Fin fsFileMaxCount) (hj : 0 < j) :
      (oneFileDir fileSize : RootDir L).name j ≠ nameA.bytes := by
    rw [oneFileDir_name, if_neg hj.ne']
    decide
  have hname : (loadedFs 2048 fat (oneFileDir fileSize : RootDir L) fun _ => 0).rootDir.name 0 =
      nameA.bytes := oneFileDir_name
  have hdelete : fsDelete blankEntry nameA (oneFileStart L fat fileSize) =
      .ok (0, emptiedState L fat fileSize freed) := fsDelete_returns hlive hname hlast hwalk
  have hlacks (i : Fin fsFileMaxCount) :
      (emptiedFs L fat fileSize freed).rootDir.name i ≠ nameB.bytes := by
    change (resetAll nameA (oneFileDir fileSize)).name i ≠ nameB.bytes
    rw [Ne, name_resetAll_iff (by decide), oneFileDir_name]
    split <;> decide
  have hemptied : (emptiedState L fat fileSize freed).fileSystem =
      .live (emptiedFs L fat fileSize freed) := rfl
  have hopen : fsOpen true nameB (emptiedState L fat fileSize freed) =
      .ok (0, (emptiedState L fat fileSize freed).openFd 0 nameB) :=
    fsOpen_returns (i := 0) hemptied (by decide) (by decide) hlacks rfl
  exact .snoc (.snoc .nil hdelete) hopen

theorem oneFileDir_terminated (i : Fin fsFileMaxCount) :
    (oneFileDir fileSize i : RootEntry L).filename.Terminated := by
  unfold oneFileDir rootDirOf
  dsimp only
  split
  · exact CharArray.terminated_copy _ _ (by decide)
  · exact blankEntry_terminated

theorem oneFileDir_key (i : Fin fsFileMaxCount) :
    (oneFileDir fileSize : RootDir L).key i =
      if i = 0 then (nameA.bytes, false) else ([], true) := by
  rw [RootDir.key, oneFileDir_name]
  unfold oneFileDir rootDirOf
  dsimp only
  split <;> rfl

end OneFile

/-- The size of the file, the FAT and the layout of the entries do not matter. -/
theorem sessions_alike_emptying :
    (emptying .packed 1 4096 (FatBuffer.set ⟨blockSize * 1, fun _ => 0⟩ 1 0)).map Event.ret =
      (emptying .natural 0 0 ⟨blockSize * 0, fun _ => 0⟩).map Event.ret := by
  have hlive (L : Layout) (fat : Nat) (fileSize : BitVec 32) :
      (oneFileStart L fat fileSize).fileSystem =
        .live (loadedFs 2048 fat (oneFileDir fileSize) fun _ => 0) := rfl
  have hkeys : (oneFileDir 4096 : RootDir .packed).key = (oneFileDir 0 : RootDir .natural).key := by
    funext i
    rw [oneFileDir_key, oneFileDir_key]
  have hcalls (L : Layout) (fat : Nat) (fileSize : BitVec 32) (freed : FatBuffer) :
      ∀ e ∈ emptying L fat fileSize freed, e.call.InSession := by
    simp [emptying, Call.InSession]
  have hwalk : freeChain (oneFileDir 4096 0 : RootEntry .packed).fileBlckSize 1
      (.live ⟨blockSize * 1, fun _ => 0⟩) =
        .ok (.live (FatBuffer.set ⟨blockSize * 1, fun _ => 0⟩ 1 0)) := rfl
  have hwalk' : freeChain (oneFileDir 0 0 : RootEntry .natural).fileBlckSize 1
      (.live ⟨blockSize * 0, fun _ => 0⟩) = .ok (.live ⟨blockSize * 0, fun _ => 0⟩) := rfl
  exact sessions_alike (loaded_noneOpen _ _ _ _) (loaded_noneOpen _ _ _ _)
    (hlive .packed 1 4096) (hlive .natural 0 0) oneFileDir_terminated oneFileDir_terminated
    (congrArg Register.of hkeys) rfl (Nat.zero_le _) (emptying_run hwalk) (emptying_run hwalk')
    (hcalls _ _ _ _) (hcalls _ _ _ _) rfl

end LibFs
