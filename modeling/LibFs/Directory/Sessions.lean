import LibFs.Directory.Recreation
import LibFs.Model.Effects

/-! What a whole session can make of the file system it was mounted with. Nothing is ever
allocated: entries and blocks are only given up. And the loops of `fs_create` and
`fs_delete` treat alike whatever entries they cannot tell apart. -/
namespace LibFs

open LibFs.Foundation

/-- What these loops look at in an entry. -/
def RootDir.key (dir : RootDir L) (i : Fin fsFileMaxCount) : List UInt8 × Bool :=
  (dir.name i, (dir i).isEmpty)

def RootEntry.key (e : RootEntry L) : List UInt8 × Bool := (e.filename.text, e.isEmpty)

theorem RootDir.key_terminated {dir : RootDir L} {i : Fin fsFileMaxCount}
    (h : (dir i).filename.Terminated) : dir.key i = (dir i).key := by
  rw [RootDir.key, RootDir.name_terminated h, RootEntry.key]

def Truncated (e e' : RootEntry L) : Prop :=
  (e'.fileSize = e.fileSize ∧ e'.fileFirstIndex = e.fileFirstIndex) ∨
    (e'.fileSize = 0 ∧ e'.fileFirstIndex = fatEOC)

def FreedOnly (fat fat' : FatBuffer) : Prop :=
  fat'.size = fat.size ∧ ∀ k, fat'.get k = fat.get k ∨ fat'.get k = 0

structure Descends (fs fs' : FsSystem L) : Prop where
  superblock : fs'.sp = fs.sp
  fat : ∀ fat, fs.fatBlocks = .live fat → ∃ fat', fs'.fatBlocks = .live fat' ∧ FreedOnly fat fat'
  entries : ∀ i, Truncated (fs.rootDir i) (fs'.rootDir i)
  terminated : ∀ i, (fs.rootDir i).filename.Terminated → (fs'.rootDir i).filename.Terminated
  keys : ∀ i j, (fs.rootDir i).filename.Terminated → (fs.rootDir j).filename.Terminated →
    fs.rootDir.key i = fs.rootDir.key j → fs'.rootDir.key i = fs'.rootDir.key j
  listed : ∀ i, fs.rootDir.name i ≠ [] → fs'.rootDir.name i ≠ []

section Rules

variable {fs fs' fs'' : FsSystem L}

theorem Truncated.trans {e e' e'' : RootEntry L} (h : Truncated e e') (h' : Truncated e' e'') :
    Truncated e e'' := by
  rcases h' with ⟨hsize, hindex⟩ | hempty
  · unfold Truncated
    rw [hsize, hindex]
    exact h
  · exact Or.inr hempty

theorem FreedOnly.trans {fat fat' fat'' : FatBuffer} (h : FreedOnly fat fat')
    (h' : FreedOnly fat' fat'') : FreedOnly fat fat'' := by
  refine ⟨h'.1.trans h.1, fun k => ?_⟩
  rcases h'.2 k with hsame | hfree
  · rw [hsame]
    exact h.2 k
  · exact Or.inr hfree

theorem Descends.refl (fs : FsSystem L) : Descends fs fs where
  superblock := rfl
  fat fat hfat := ⟨fat, hfat, rfl, fun _ => Or.inl rfl⟩
  entries _ := Or.inl ⟨rfl, rfl⟩
  terminated _ h := h
  keys _ _ _ _ h := h
  listed _ h := h

theorem Descends.trans (h : Descends fs fs') (h' : Descends fs' fs'') : Descends fs fs'' where
  superblock := h'.superblock.trans h.superblock
  fat fat hfat := by
    obtain ⟨fat', hfat', hfreed⟩ := h.fat fat hfat
    obtain ⟨fat'', hfat'', hfreed'⟩ := h'.fat fat' hfat'
    exact ⟨fat'', hfat'', hfreed.trans hfreed'⟩
  entries i := (h.entries i).trans (h'.entries i)
  terminated i hi := h'.terminated i (h.terminated i hi)
  keys i j hi hj hsame :=
    h'.keys i j (h.terminated i hi) (h.terminated j hj) (h.keys i j hi hj hsame)
  listed i hi := h'.listed i (h.listed i hi)

end Rules

section Steps

variable {s next : State L N} {ret : Int} {fs : FsSystem L} {filename : CStr} {dir : RootDir L}

theorem freeChain_freedOnly {count : Nat} {current : BitVec 16} {fat : FatBuffer}
    {pFAT : Pointer FatBuffer} (h : freeChain count current (.live fat) = .ok pFAT) :
    ∃ fat', pFAT = .live fat' ∧ FreedOnly fat fat' := by
  obtain ⟨fat', rfl, hsize, hlinks⟩ := freeChain_links h
  refine ⟨fat', rfl, hsize, fun k => ?_⟩
  have hvalue : fat'.links k = fat.links k ∨ fat'.links k = 0 := by
    rw [hlinks]
    exact unlink_same_or_free 0 _ _ _ k
  exact hvalue.imp BitVec.eq_of_toNat_eq fun hzero => BitVec.eq_of_toNat_eq hzero

theorem terminated_fillAll (hlength : filename.strlen < fsFilenameLen) {i : Fin fsFileMaxCount}
    (h : (dir i).filename.Terminated) : (fillAll filename dir i).filename.Terminated := by
  by_cases hi : (dir i).live
  · rwa [fillAll_of_live hi]
  · rw [fillAll_of_empty hi]
    exact RootEntry.terminated_fill _ _ hlength

theorem key_fillAll (hlength : filename.strlen < fsFilenameLen) (i : Fin fsFileMaxCount) :
    (fillAll filename dir).key i =
      if (dir.key i).2 then (filename.bytes, false) else dir.key i := by
  have hkey : (fillAll filename dir).key i = ((fillAll filename dir).name i, false) :=
    congrArg (Prod.mk _) (fillAll_allLive filename dir i)
  rw [hkey]
  by_cases hi : (dir i).live
  · have hlive : (dir i).isEmpty = false := hi
    simp [RootDir.key, hlive, name_fillAll_of_live hi]
  · have hempty : (dir i).isEmpty = true := by simpa [RootEntry.live] using hi
    simp [RootDir.key, hempty, name_fillAll_of_empty hi hlength]

theorem truncated_fillAll (i : Fin fsFileMaxCount) :
    Truncated (dir i) (fillAll filename dir i) := by
  by_cases h : (dir i).live
  · rw [fillAll_of_live h]
    exact Or.inl ⟨rfl, rfl⟩
  · rw [fillAll_of_empty h]
    exact Or.inr ⟨rfl, rfl⟩

theorem truncated_resetAll (i : Fin fsFileMaxCount) :
    Truncated (dir i) (resetAll filename dir i) := by
  by_cases h : dir.name i = filename.bytes
  · rw [resetAll_match h]
    exact Or.inr ⟨rfl, rfl⟩
  · rw [resetAll_other h]
    exact Or.inl ⟨rfl, rfl⟩

theorem terminated_resetAll {i : Fin fsFileMaxCount} (h : (dir i).filename.Terminated) :
    (resetAll filename dir i).filename.Terminated := by
  rwa [filename_resetAll]

theorem key_resetAll {i : Fin fsFileMaxCount} (h : (dir i).filename.Terminated) :
    (resetAll filename dir).key i =
      if (dir.key i).1 == filename.bytes then ((dir.key i).1, true) else dir.key i := by
  rw [RootDir.key_terminated (terminated_resetAll h), RootDir.key_terminated h, RootEntry.key,
    RootEntry.key, filename_resetAll, ← RootDir.name_terminated h]
  by_cases hname : dir.name i = filename.bytes
  · simp [hname, resetAll_match hname]
  · simp [hname, resetAll_other hname]

theorem descends_fillAll (hlength : filename.strlen < fsFilenameLen)
    (hname : filename.bytes ≠ []) :
    Descends fs { fs with rootDir := fillAll filename fs.rootDir } where
  superblock := rfl
  fat fat hfat := ⟨fat, hfat, rfl, fun _ => Or.inl rfl⟩
  entries := truncated_fillAll
  terminated _ h := terminated_fillAll hlength h
  keys i j _ _ hsame := by rw [key_fillAll hlength, key_fillAll hlength, hsame]
  listed i hi := by
    rcases fillAll_name hlength i with ⟨_, hkept⟩ | ⟨_, hfilled⟩
    · exact hkept.trans_ne hi
    · exact hfilled.trans_ne hname

theorem descends_resetAll {count : Nat} {current : BitVec 16} {pFAT : Pointer FatBuffer}
    (hwalk : freeChain count current fs.fatBlocks = .ok pFAT) :
    Descends fs { fs with rootDir := resetAll filename fs.rootDir, fatBlocks := pFAT } where
  superblock := rfl
  fat fat hfat := freeChain_freedOnly (hfat ▸ hwalk)
  entries := truncated_resetAll
  terminated _ h := terminated_resetAll h
  keys i j hi hj hsame := by rw [key_resetAll hi, key_resetAll hj, hsame]
  listed _ hi := mt (name_resetAll_iff (by decide)).mp hi

theorem step_descends {call : Call L} (hlive : s.fileSystem = .live fs) (hcall : call.InSession)
    (hstep : step call s = .ok (ret, next)) :
    ∃ fs', next.fileSystem = .live fs' ∧ Descends fs fs' := by
  cases step_effect hcall hstep with
  | unchanged hnext _ _ => exact ⟨fs, hnext ▸ hlive, .refl fs⟩
  | @created noReturn filename fs' hcreate hfs hnext =>
      rw [hlive] at hfs
      cases hfs
      rw [hcreate] at hstep
      rcases fsCreate_live hlive hstep with ⟨_, hsame, _⟩ | ⟨_, hvalid, hlength, _⟩
      · exact ⟨fs, hsame ▸ hlive, .refl fs⟩
      · rw [hnext]
        exact ⟨_, rfl, descends_fillAll hlength (isValidName_ne_nil hvalid)⟩
  | deleted _ hfs hwalk hnext =>
      rw [hlive] at hfs
      cases hfs
      rw [hnext]
      exact ⟨_, rfl, descends_resetAll hwalk⟩
  | opened i _ _ _ _ _ _ hnext => exact ⟨fs, hnext ▸ hlive, .refl fs⟩
  | closed i _ _ _ hnext => exact ⟨fs, hnext ▸ hlive, .refl fs⟩
  | sought i _ _ hnext => exact ⟨fs, hnext ▸ hlive, .refl fs⟩

end Steps

theorem mem_fsLs {s : State L N} {fs : FsSystem L} (hlive : s.fileSystem = .live fs)
    {lines : List LsLine} {ret : Int} (hls : fsLs s = .ok (lines, ret)) {k : Nat}
    {name : List UInt8} : .entry k name ∈ lines ↔
      ∃ i : Fin fsFileMaxCount, k = i ∧ name = fs.rootDir.name i ∧ fs.rootDir.name i ≠ [] := by
  simp only [fsLs, hlive, Pointer.deref_live, Except.ok.injEq, Prod.mk.injEq] at hls
  rw [← hls.1]
  simp only [List.mem_cons, reduceCtorEq, List.mem_flatMap, List.mem_finRange, true_and, false_or]
  refine exists_congr fun i => ?_
  unfold lsEntry
  split
  · rename_i hname
    have hname : fs.rootDir.name i ≠ [] := by simpa using hname
    simp [hname]
  · rename_i hname
    have hname : fs.rootDir.name i = [] := by simpa using hname
    simp [hname]

section Runs

variable {start s : State L N} {past : List (ApiEvent L N)} {fs : FsSystem L}
  (hlive : start.fileSystem = .live fs) (hrun : ApiRun start past s)
  (hcalls : ∀ e ∈ past, e.call.InSession)
include hlive hrun hcalls

theorem session_descends : ∃ fs', s.fileSystem = .live fs' ∧ Descends fs fs' := by
  refine hrun.invariant (I := fun _ s => ∃ fs', s.fileSystem = .live fs' ∧ Descends fs fs')
    ⟨fs, hlive, .refl fs⟩ (fun _ _ hinv hcall hstep => ?_)
    ((throughout_forall (fun e => e.call.InSession) past).mpr hcalls)
  obtain ⟨fs', hlive', hdescends⟩ := hinv
  obtain ⟨fs'', hnext, hstepped⟩ := step_descends hlive' hcall hstep
  exact ⟨fs'', hnext, hdescends.trans hstepped⟩

/-- A session allocates nothing: the superblock stays, each FAT entry stays or becomes free,
and each directory entry keeps its size and first block or becomes that of an empty
file. -/
theorem session_allocates_nothing : ∃ fs', s.fileSystem = .live fs' ∧ fs'.sp = fs.sp ∧
    (∀ fat, fs.fatBlocks = .live fat → ∃ fat', fs'.fatBlocks = .live fat' ∧ FreedOnly fat fat') ∧
      ∀ i, Truncated (fs.rootDir i) (fs'.rootDir i) := by
  obtain ⟨fs', hlive', hdescends⟩ := session_descends hlive hrun hcalls
  exact ⟨fs', hlive', hdescends.superblock, hdescends.fat, hdescends.entries⟩

/-- A session tells no entries apart that agreed in name and flag when it began, as long as
their names end in their fields; when all do, the number of different files never exceeds
the number of different entries there were. -/
theorem session_merges_entries : ∃ fs', s.fileSystem = .live fs' ∧
    (∀ i j, (fs.rootDir i).filename.Terminated → (fs.rootDir j).filename.Terminated →
      fs.rootDir.key i = fs.rootDir.key j → fs'.rootDir.key i = fs'.rootDir.key j) ∧
      ((∀ i, (fs.rootDir i).filename.Terminated) →
        ((Finset.univ.filter fun i => (fs'.rootDir i).live).image
          fun i => fs'.rootDir.name i).card ≤ (Finset.univ.image fs.rootDir.key).card) := by
  obtain ⟨fs', hlive', hdescends⟩ := session_descends hlive hrun hcalls
  refine ⟨fs', hlive', hdescends.keys, fun hends => ?_⟩
  have hnames : (fun i => (fs'.rootDir.key i).1).FactorsThrough fs.rootDir.key :=
    fun i j hsame => congrArg Prod.fst (hdescends.keys i j (hends i) (hends j) hsame)
  calc _ ≤ (Finset.univ.image fun i => fs'.rootDir.name i).card :=
        Finset.card_le_card (Finset.image_subset_image (Finset.filter_subset _ _))
    _ ≤ _ := card_kinds_le hnames

/-- Whatever slot `fs_ls` once lists it lists from then on, also when the file in it has been
deleted. -/
theorem session_keeps_listing {lines lines' : List LsLine} {ret ret' : Int}
    (hls : fsLs start = .ok (lines, ret)) (hls' : fsLs s = .ok (lines', ret')) (i : Nat)
    (name : List UInt8) (hline : .entry i name ∈ lines) : ∃ name', .entry i name' ∈ lines' := by
  obtain ⟨fs', hlive', hdescends⟩ := session_descends hlive hrun hcalls
  obtain ⟨slot, rfl, rfl, hname⟩ := (mem_fsLs hlive hls).mp hline
  exact ⟨_, (mem_fsLs hlive' hls').mpr ⟨slot, rfl, rfl, hdescends.listed slot hname⟩⟩

end Runs

/-! "b" is created on a disk with the names of a deleted file, and deleted. -/

theorem recreation_calls : ∀ e ∈ [deletionB, creationB], e.call.InSession := by
  simp [deletionB, creationB, Call.InSession]

theorem freedDir_live :
    (freedState freedDir).fileSystem = .live (freedFs freedDir) := rfl

theorem session_allocates_nothing_recreation : ∃ fs', deletionB.after.fileSystem = .live fs' ∧
    fs'.sp = (freedFs freedDir).sp ∧ (∀ fat, (freedFs freedDir).fatBlocks = .live fat →
      ∃ fat', fs'.fatBlocks = .live fat' ∧ FreedOnly fat fat') ∧
      ∀ i, Truncated ((freedFs freedDir).rootDir i) (fs'.rootDir i) :=
  session_allocates_nothing freedDir_live recreation_run recreation_calls

theorem freedDir_terminated (i : Fin fsFileMaxCount) : (freedDir i).filename.Terminated := by
  refine terminated_resetAll ?_
  unfold oneFileDir rootDirOf
  dsimp only
  split
  · exact CharArray.terminated_copy _ _ (by decide)
  · exact blankEntry_terminated

theorem freedDir_key {i : Fin fsFileMaxCount} (hi : i ≠ 0) : freedDir.key i = ([], true) := by
  have hname : freedDir.name i = [] := by
    unfold freedDir
    rw [name_resetAll_iff (by decide), oneFileDir_name, if_neg hi]
  have hempty : (freedDir i).isEmpty = true := by simpa [RootEntry.live] using freedDir_free i
  rw [RootDir.key, hname, hempty]

/-- The entries 1 and 2 were blank. -/
theorem session_merges_entries_recreation : ∃ fs', deletionB.after.fileSystem = .live fs' ∧
    fs'.rootDir.key 1 = fs'.rootDir.key 2 ∧
      ((Finset.univ.filter fun i => (fs'.rootDir i).live).image
        fun i => fs'.rootDir.name i).card ≤ (Finset.univ.image freedDir.key).card := by
  obtain ⟨fs', hlive, hmerges, hcard⟩ :=
    session_merges_entries freedDir_live recreation_run recreation_calls
  have hkeys : freedDir.key 1 = freedDir.key 2 :=
    (freedDir_key (by decide)).trans (freedDir_key (by decide)).symm
  exact ⟨fs', hlive, hmerges 1 2 (freedDir_terminated 1) (freedDir_terminated 2) hkeys,
    hcard freedDir_terminated⟩

theorem session_keeps_listing_recreation : ∃ lines ret name,
    fsLs deletionB.after = .ok (lines, ret) ∧ .entry 0 name ∈ lines := by
  have hname : freedDir.name 0 ≠ [] := by
    unfold freedDir
    rw [Ne, name_resetAll_iff (by decide), oneFileDir_name]
    decide
  obtain ⟨lines, hls⟩ : ∃ lines, fsLs (freedState freedDir) = .ok (lines, 0) := ⟨_, rfl⟩
  obtain ⟨lines', hls'⟩ : ∃ lines, fsLs deletionB.after = .ok (lines, 0) := ⟨_, rfl⟩
  have hline := (mem_fsLs freedDir_live hls).mpr ⟨0, rfl, rfl, hname⟩
  obtain ⟨name, hlisted⟩ :=
    session_keeps_listing freedDir_live recreation_run recreation_calls hls hls' 0 _ hline
  exact ⟨lines', 0, name, hls', hlisted⟩

/-! Creations take turns with what makes room for them. -/

/-- The call may free an entry: it deletes a name that is there, or is a mount that opens
a disk. -/
def FreesEntry (e : ApiEvent L N) : Prop :=
  (∃ unassigned filename fs i, e.call = .fsDelete unassigned filename ∧
      e.before.fileSystem = .live fs ∧ fs.rootDir.name i = filename.bytes) ∨ OpensDisk e

def DirectoryFull (s : State L N) : Prop :=
  ∀ fs, s.fileSystem = .live fs → ∀ i, (fs.rootDir i).live

section Turns

variable {e : ApiEvent L N}

theorem full_of_creation {noReturn : Bool} {filename : CStr}
    (hcall : e.call = .fsCreate noReturn filename) (hret : e.ret = 0)
    (hstep : step e.call e.before = .ok (e.ret, e.after)) :
    DirectoryFull e.after ∧ ¬ DirectoryFull e.before := by
  rw [hcall] at hstep
  rcases fsCreate_cases hstep with ⟨hrefused, _⟩ | ⟨fs, hlive⟩
  · omega
  · rcases fsCreate_live hlive hstep with ⟨hrefused, _⟩ | ⟨_, _, _, _, ⟨i, hfree⟩, hafter⟩
    · omega
    · refine ⟨fun fs' hlive' j => ?_, fun hfull => hfree (hfull fs hlive i)⟩
      rw [hafter] at hlive'
      cases hlive'
      exact fillAll_allLive filename fs.rootDir j

theorem full_kept (hfull : DirectoryFull e.before) (hkeeps : ¬ FreesEntry e)
    (hstep : step e.call e.before = .ok (e.ret, e.after)) : DirectoryFull e.after := by
  unfold DirectoryFull at hfull ⊢
  cases objectFate hstep with
  | opens hopens => exact absurd (Or.inr hopens) hkeeps
  | same hsame => rwa [hsame]
  | freed _ hfreed =>
      rw [hfreed]
      exact fun _ hlive => nomatch hlive
  | created _ hlive hafter =>
      rw [hafter]
      rintro _ ⟨⟩
      rw [fillAll_full (hfull _ hlive)]
      exact hfull _ hlive
  | @deleted unassigned filename fs _ hcall hlive hafter =>
      have hnone : resetAll filename fs.rootDir = fs.rootDir := by
        refine RootDir.ext (funext fun i => resetAll_other fun hmatch => hkeeps (Or.inl ?_)) rfl
        exact ⟨unassigned, filename, fs, i, hcall, hlive, hmatch⟩
      rw [hafter, hnone]
      rintro _ ⟨⟩ i
      exact hfull fs hlive i

def FreesName (filename : CStr) (e : ApiEvent L N) : Prop :=
  (∃ unassigned other, e.call = .fsDelete unassigned other ∧ other.bytes = filename.bytes) ∨
    OpensDisk e

def NameLive (filename : CStr) (s : State L N) : Prop :=
  ∀ fs, s.fileSystem = .live fs → ∃ i, (fs.rootDir i).live ∧ fs.rootDir.name i = filename.bytes

theorem live_of_creation {noReturn : Bool} {filename : CStr}
    (hcall : e.call = .fsCreate noReturn filename) (hret : e.ret = 0)
    (hstep : step e.call e.before = .ok (e.ret, e.after)) : NameLive filename e.after := by
  rw [hcall] at hstep
  rcases fsCreate_cases hstep with ⟨hrefused, _⟩ | ⟨fs, hlive⟩
  · omega
  · rcases fsCreate_live hlive hstep with ⟨hrefused, _⟩ | ⟨_, _, hlength, _, ⟨i, hfree⟩, hafter⟩
    · omega
    · rw [hafter]
      rintro _ ⟨⟩
      exact ⟨i, fillAll_allLive filename fs.rootDir i, name_fillAll_of_empty hfree hlength⟩

theorem live_kept {filename : CStr} (hname : NameLive filename e.before)
    (hkeeps : ¬ FreesName filename e) (hstep : step e.call e.before = .ok (e.ret, e.after)) :
    NameLive filename e.after := by
  unfold NameLive at hname ⊢
  cases objectFate hstep with
  | opens hopens => exact absurd (Or.inr hopens) hkeeps
  | same hsame => rwa [hsame]
  | freed _ hfreed =>
      rw [hfreed]
      exact fun _ hlive => nomatch hlive
  | created _ hlive hafter =>
      obtain ⟨i, hi, hnamed⟩ := hname _ hlive
      rw [hafter]
      rintro _ ⟨⟩
      exact ⟨i, fillAll_allLive _ _ i, (name_fillAll_of_live hi).trans hnamed⟩
  | @deleted unassigned other fs _ hcall hlive hafter =>
      obtain ⟨i, hi, hnamed⟩ := hname _ hlive
      have hother : fs.rootDir.name i ≠ other.bytes := fun hmatch =>
        hkeeps (Or.inl ⟨unassigned, other, hcall, hmatch.symm.trans hnamed⟩)
      have hsurvives : (resetAll other fs.rootDir i).live := resetAll_survivor.mpr ⟨hi, hother⟩
      rw [hafter]
      rintro _ ⟨⟩
      exact ⟨i, hsurvives, (name_resetAll_of_live hsurvives).trans hnamed⟩

/-- In any run a name is opened after it was created only if it has been deleted, or another
disk mounted, in between. -/
theorem creation_bars_opening {start s : State L N} {past : List (ApiEvent L N)}
    (hrun : ApiRun start past s) {later between earlier : List (ApiEvent L N)}
    {second first : ApiEvent L N} (hpast : past = later ++ second :: (between ++ first :: earlier))
    {noReturn noReturn' : Bool} {filename : CStr}
    (hfirst : first.call = .fsCreate noReturn filename) (hret : first.ret = 0)
    (hsecond : second.call = .fsOpen noReturn' filename) (hopened : second.ret ≠ -1) :
    ∃ e ∈ between, FreesName filename e := by
  refine hrun.turns (B := NameLive filename)
    (F := fun e => (∃ noReturn, e.call = .fsCreate noReturn filename) ∧ e.ret = 0)
    (K := fun e => (∃ noReturn, e.call = .fsOpen noReturn filename) ∧ e.ret ≠ -1)
    ?_ ?_ ?_ hpast ⟨⟨_, hfirst⟩, hret⟩ ⟨⟨_, hsecond⟩, hopened⟩
  · rintro e hstep ⟨⟨_, hcall⟩, hzero⟩
    exact live_of_creation hcall hzero hstep
  · intro e hstep hname hkeeps
    exact live_kept hname hkeeps hstep
  · rintro e hstep hname ⟨⟨_, hcall⟩, hopened⟩
    rw [hcall] at hstep
    rcases fsOpen_cases hstep with ⟨hrefused, _⟩ | ⟨_, _, ⟨fs, hlive, hfresh⟩, _⟩
    · exact hopened hrefused
    · obtain ⟨i, _, hnamed⟩ := hname fs hlive
      exact hfresh i hnamed

/-- Between any two creations that succeed, in whatever run, a name that is there has been
deleted or a disk has been mounted. -/
theorem creations_take_turns {start s : State L N} {past : List (ApiEvent L N)}
    (hrun : ApiRun start past s) {later between earlier : List (ApiEvent L N)}
    {second first : ApiEvent L N} (hpast : past = later ++ second :: (between ++ first :: earlier))
    {noReturn noReturn' : Bool} {filename filename' : CStr}
    (hfirst : first.call = .fsCreate noReturn filename) (hret : first.ret = 0)
    (hsecond : second.call = .fsCreate noReturn' filename') (hret' : second.ret = 0) :
    ∃ e ∈ between, FreesEntry e := by
  refine hrun.turns (B := DirectoryFull)
    (F := fun e => (∃ noReturn filename, e.call = .fsCreate noReturn filename) ∧ e.ret = 0)
    (K := fun e => (∃ noReturn filename, e.call = .fsCreate noReturn filename) ∧ e.ret = 0)
    ?_ ?_ ?_ hpast ⟨⟨_, _, hfirst⟩, hret⟩ ⟨⟨_, _, hsecond⟩, hret'⟩
  · rintro e hstep ⟨⟨_, _, hcall⟩, hzero⟩
    exact (full_of_creation hcall hzero hstep).1
  · intro e hstep hfull hkeeps
    exact full_kept hfull hkeeps hstep
  · rintro e hstep hfull ⟨⟨_, _, hcall⟩, hzero⟩
    exact (full_of_creation hcall hzero hstep).2 hfull

/-- The directory once "b" has been created and deleted. -/
def recreatedDir : RootDir .packed := resetAll nameB (fillAll nameB freedDir)

def recreationA : ApiEvent .packed 32 :=
  ⟨freedState recreatedDir, .fsCreate true nameA, 0, freedState (fillAll nameA recreatedDir)⟩

theorem recreatedDir_name (i : Fin fsFileMaxCount) : recreatedDir.name i = nameB.bytes :=
  (name_resetAll_iff (by decide)).mpr (filledB_name i)

theorem recreatedDir_free : ¬ (recreatedDir 0).live :=
  (stale_resetAll (by decide) (filledB_name 0)).free 0 (recreatedDir_name 0)

theorem freedFs_rootDir (dir : RootDir .packed) : (freedFs dir).rootDir = dir := rfl

theorem recreationA_step : step (.fsCreate true nameA) (freedState recreatedDir) =
    .ok (0, freedState (fillAll nameA recreatedDir)) := by
  have hlive : (freedState recreatedDir).fileSystem = .live (freedFs recreatedDir) := rfl
  have hlacks (i : Fin fsFileMaxCount) :
      (freedFs recreatedDir).rootDir.name i ≠ nameA.bytes := by
    rw [freedFs_rootDir, recreatedDir_name]
    decide
  have hfree : ∃ i, ¬ ((freedFs recreatedDir).rootDir i).live := ⟨0, recreatedDir_free⟩
  have hcreate : fsCreate true nameA (freedState recreatedDir) = _ :=
    fsCreate_fills hlive (by decide) (by decide) hlacks hfree
  rw [freedFs_rootDir] at hcreate
  exact hcreate

theorem recreationA_run :
    ApiRun (freedState freedDir) [recreationA, deletionB, creationB] recreationA.after :=
  recreation_run.snoc recreationA_step

theorem creations_take_turns_recreation : ∃ e ∈ [deletionB], FreesEntry e :=
  creations_take_turns recreationA_run (List.nil_append _).symm rfl rfl rfl rfl

def renamedDir : RootDir .packed := fillAll nameA recreatedDir

def openingB : ApiEvent .packed 32 :=
  ⟨freedState renamedDir, .fsOpen true nameB, 0, (freedState renamedDir).openFd 0 nameB⟩

theorem renamedDir_lacks (i : Fin fsFileMaxCount) : renamedDir.name i ≠ nameB.bytes := by
  have hfree : ¬ (recreatedDir i).live :=
    (stale_resetAll (by decide) (filledB_name 0)).free i (recreatedDir_name i)
  unfold renamedDir
  rw [name_fillAll_of_empty hfree (by decide)]
  decide

theorem openingB_step : step (.fsOpen true nameB) (freedState renamedDir) =
    .ok (0, (freedState renamedDir).openFd 0 nameB) := by
  have hlive : (freedState renamedDir).fileSystem = .live (freedFs renamedDir) := rfl
  have hlacks (i : Fin fsFileMaxCount) : (freedFs renamedDir).rootDir.name i ≠ nameB.bytes := by
    rw [freedFs_rootDir]
    exact renamedDir_lacks i
  have hcount : (freedState renamedDir).fdOpenCount = (0 : Fin 32) := rfl
  exact fsOpen_returns hlive (by decide) (by decide) hlacks hcount

theorem openingB_run : ApiRun (freedState freedDir)
    [openingB, recreationA, deletionB, creationB] openingB.after :=
  recreationA_run.snoc openingB_step

theorem creation_bars_opening_recreation :
    ∃ e ∈ [recreationA, deletionB], FreesName nameB e :=
  creation_bars_opening openingB_run (List.nil_append _).symm rfl rfl rfl (by decide)

end Turns

end LibFs
