import LibFs.Directory.Uniqueness

/-! The blocks of deleted files. `fs_delete` walks `file_size / BLOCK_SIZE` links,
rounded down, and starts from the last entry that carries the name, live or not.
It frees a file's chain when that entry is the file and its size is a whole
number of blocks; then no run of creations and deletions loses a block. -/
namespace LibFs

open LibFs.Foundation

def RootEntry.blocks (e : RootEntry L) : Int := (e.fileSize.toInt + (blockSize - 1)) / blockSize

/-- The chain of a file in a FAT that describes `fatBlckAmount` blocks. -/
structure FileChain (sp : SuperBlock) (fat : FatBuffer) (e : RootEntry L) (chain : List Nat) :
    Prop where
  length : (chain.length : Int) = e.blocks
  nodup : chain.Nodup
  inRange : ∀ k ∈ chain, (k : Int) < 2048 * sp.fatBlckAmount
  linked : Linked fat.links fatEOC.toNat e.fileFirstIndex.toNat chain

structure Chained (sp : SuperBlock) (fat : FatBuffer) (dir : RootDir L) : Prop where
  chains : ∀ i, (dir i).live → ∃ chain, FileChain sp fat (dir i) chain
  disjoint : ∀ i j chain chain', (dir i).live → (dir j).live → i ≠ j →
    FileChain sp fat (dir i) chain → FileChain sp fat (dir j) chain' → chain.Disjoint chain'

structure WellFormed (sp : SuperBlock) (fat : FatBuffer) (dir : RootDir L) : Prop
    extends Chained sp fat dir where
  names : DistinctLive dir

def OnLiveChain (sp : SuperBlock) (fat : FatBuffer) (dir : RootDir L) (k : Nat) : Prop :=
  ∃ i chain, (dir i).live ∧ FileChain sp fat (dir i) chain ∧ k ∈ chain

/-- An entry that is in use and belongs to no live file. -/
def Leaked (sp : SuperBlock) (fat : FatBuffer) (dir : RootDir L) (k : Nat) : Prop :=
  fat.get k ≠ 0 ∧ ¬ OnLiveChain sp fat dir k

def ExistingCall (e : ApiEvent L N) : Prop :=
  match e.call with
  | .fsCreate _ _ => True
  | .fsDelete _ filename => ∃ fs i, e.before.fileSystem = .live fs ∧ (fs.rootDir i).live ∧
      fs.rootDir.name i = filename.bytes
  | _ => False

/-- The condition under which deleting the file in slot `i` frees its chain, `j`
being the last slot that carries its name: they are one slot and the size is a
multiple of the block size (or negative, when there is no block), or neither has
a block to walk. -/
structure WholeBlocksAt (filename : CStr) (dir : RootDir L) (i j : Fin fsFileMaxCount) :
    Prop where
  live : (dir i).live
  name : dir.name i = filename.bytes
  nameLast : dir.name j = filename.bytes
  last : ∀ k, j < k → dir.name k ≠ filename.bytes
  whole : i = j ∧ ((blockSize : Int) ∣ (dir i).fileSize.toInt ∨ (dir i).fileSize.toInt < 0) ∨
    (dir i).blocks = 0 ∧ -blockSize < (dir j).fileSize.toInt ∧ (dir j).fileSize.toInt < blockSize

def WholeBlocks (e : ApiEvent L N) : Prop :=
  ∀ unassigned filename fs, e.call = .fsDelete unassigned filename →
    e.before.fileSystem = .live fs → ∃ i j, WholeBlocksAt filename fs.rootDir i j

def FreesChain (e : ApiEvent L N) : Prop :=
  ∀ unassigned filename fs fs' fat fat' i chain, e.call = .fsDelete unassigned filename →
    e.before.fileSystem = .live fs → fs.fatBlocks = .live fat →
    e.after.fileSystem = .live fs' → fs'.fatBlocks = .live fat' →
    (fs.rootDir i).live → fs.rootDir.name i = filename.bytes →
    FileChain fs.sp fat (fs.rootDir i) chain → ∀ k ∈ chain, fat'.get k = 0

section Chains

variable {sp : SuperBlock} {fat fat' : FatBuffer} {e : RootEntry L} {chain chain' : List Nat}

theorem FileChain.unique (h : FileChain sp fat e chain) (h' : FileChain sp fat e chain') :
    chain = chain' := by
  have hlength := h.length.trans h'.length.symm
  exact h.linked.unique h'.linked (by omega)

theorem FileChain.congr (h : FileChain sp fat e chain)
    (hsame : ∀ k ∈ chain, fat'.get k = fat.get k) : FileChain sp fat' e chain where
  length := h.length
  nodup := h.nodup
  inRange := h.inRange
  linked := h.linked.congr fun k hk => by simp only [FatBuffer.links, hsame k hk]

theorem FileChain.eq_nil (h : FileChain sp fat e chain) (hblocks : e.blocks = 0) : chain = [] := by
  have hlength := h.length
  rw [hblocks] at hlength
  exact List.length_eq_zero_iff.mp (by omega)

theorem RootEntry.blocks_fill (filename : CStr) (e : RootEntry L) :
    (e.fill filename).blocks = 0 := by
  simp [blocks, fill, blockSize]

theorem FileChain.fill (filename : CStr) (e : RootEntry L) :
    FileChain sp fat (e.fill filename) [] where
  length := (RootEntry.blocks_fill filename e).symm
  nodup := List.nodup_nil
  inRange := by simp
  linked := rfl

theorem RootEntry.fileBlckSize_eq_zero (hlow : -blockSize < e.fileSize.toInt)
    (hhigh : e.fileSize.toInt < blockSize) : e.fileBlckSize = 0 := by
  have hzero : e.fileSize.toInt.tdiv blockSize = 0 := by
    rcases Int.lt_or_le e.fileSize.toInt 0 with hneg | hpos
    · have hsmall : (-e.fileSize.toInt).tdiv blockSize = 0 :=
        Int.tdiv_eq_zero_of_lt (by omega) (by omega)
      rw [Int.neg_tdiv] at hsmall
      omega
    · exact Int.tdiv_eq_zero_of_lt hpos hhigh
  simp [fileBlckSize, hzero]

theorem FileChain.fileBlckSize_eq (h : FileChain sp fat e chain)
    (hwhole : (blockSize : Int) ∣ e.fileSize.toInt ∨ e.fileSize.toInt < 0) :
    e.fileBlckSize = chain.length := by
  have hlength := h.length
  unfold RootEntry.blocks at hlength
  rcases hwhole with ⟨m, hm⟩ | hneg
  · have hhigh := BitVec.toInt_lt (x := e.fileSize)
    unfold RootEntry.fileBlckSize
    rw [hm] at hlength hhigh ⊢
    simp only [blockSize, Nat.cast_ofNat] at hlength hhigh ⊢
    rw [Int.mul_tdiv_cancel_left _ (by norm_num)]
    omega
  · unfold blockSize at hlength
    have hlow : -blockSize < e.fileSize.toInt := by
      unfold blockSize
      omega
    rw [RootEntry.fileBlckSize_eq_zero hlow (hneg.trans (by decide))]
    omega

theorem FileChain.fileBlckSize_le (h : FileChain sp fat e chain) :
    e.fileBlckSize ≤ chain.length := by
  have hlength := h.length
  unfold RootEntry.blocks blockSize at hlength
  rcases Int.lt_or_le e.fileSize.toInt 0 with hneg | hpos
  · have hlow : -blockSize < e.fileSize.toInt := by
      unfold blockSize
      omega
    rw [RootEntry.fileBlckSize_eq_zero hlow (hneg.trans (by decide))]
    exact Nat.zero_le _
  · unfold RootEntry.fileBlckSize blockSize
    rw [Int.tdiv_eq_ediv_of_nonneg hpos]
    omega

theorem FileChain.walk_frees (h : FileChain sp fat e chain) {count : Nat}
    {pFAT : Pointer FatBuffer} (hcount : count ≤ chain.length)
    (hwalk : freeChain count e.fileFirstIndex (.live fat) = .ok pFAT) :
    ∃ fat', pFAT = .live fat' ∧ fat'.size = fat.size ∧
      ∀ k, fat'.get k = if k ∈ chain.take count then 0 else fat.get k := by
  obtain ⟨fat', hfat', hsize, hlinks⟩ := freeChain_links hwalk
  refine ⟨fat', hfat', hsize, fun k => ?_⟩
  rw [unlink_linked 0 h.linked h.nodup hcount] at hlinks
  apply BitVec.eq_of_toNat_eq
  have hk := congrFun hlinks k
  simp only [FatBuffer.links] at hk
  rw [hk]
  split <;> rfl

theorem FileChain.walk_returns (h : FileChain sp fat e chain) {count : Nat} {d : Device}
    (haccepted : Accepted sp d) (hsize : fat.size = fatByteCount sp.fatBlckAmount)
    (hcount : count ≤ chain.length) :
    ∃ pFAT, freeChain count e.fileFirstIndex (.live fat) = .ok pFAT := by
  refine freeChain_returns h.linked h.nodup (fun k hk => ?_) hcount
  have hin := h.inRange k hk
  have hle := haccepted.fat_le
  have hbytes := haccepted.fatByteCount_eq (by omega)
  unfold FatBuffer.entries
  omega

end Chains

def NoTwins (dir : RootDir L) : Prop :=
  ∀ i j, (dir i).live → (dir j).live → i ≠ j → dir.name i = dir.name j → (dir i).blocks = 0

section Creation

variable {sp : SuperBlock} {fat : FatBuffer} {dir : RootDir L} {filename : CStr}

theorem Chained.fillAll (h : Chained sp fat dir) : Chained sp fat (fillAll filename dir) := by
  have hempty (i : Fin fsFileMaxCount) (chain : List Nat) (hi : ¬ (dir i).live)
      (hchain : FileChain sp fat (LibFs.fillAll filename dir i) chain) : chain = [] := by
    rw [fillAll_of_empty hi] at hchain
    exact hchain.eq_nil (RootEntry.blocks_fill _ _)
  constructor
  · intro i _
    by_cases hi : (dir i).live
    · rw [fillAll_of_live hi]
      exact h.chains i hi
    · rw [fillAll_of_empty hi]
      exact ⟨[], FileChain.fill _ _⟩
  · intro i j chain chain' _ _ hne hchain hchain'
    by_cases hi : (dir i).live
    · by_cases hj : (dir j).live
      · rw [fillAll_of_live hi] at hchain
        rw [fillAll_of_live hj] at hchain'
        exact h.disjoint i j chain chain' hi hj hne hchain hchain'
      · rw [hempty j chain' hj hchain']
        exact List.disjoint_nil_right _
    · rw [hempty i chain hi hchain]
      exact List.disjoint_nil_left _

theorem NoTwins.fillAll (h : NoTwins dir) (hlength : filename.strlen < fsFilenameLen)
    (hfresh : ∀ i, dir.name i ≠ filename.bytes) : NoTwins (fillAll filename dir) := by
  intro i j _ _ hne hname
  rcases fillAll_name hlength i with ⟨hi, hnamei⟩ | ⟨hi, _⟩
  · rcases fillAll_name hlength j with ⟨hj, hnamej⟩ | ⟨_, hnamej⟩
    · rw [hnamei, hnamej] at hname
      rw [fillAll_of_live hi]
      exact h i j hi hj hne hname
    · rw [hnamei, hnamej] at hname
      exact absurd hname (hfresh i)
  · rw [fillAll_of_empty hi]
    exact RootEntry.blocks_fill _ _

theorem Leaked.of_fillAll {k : Nat} (h : Leaked sp fat (fillAll filename dir) k) :
    Leaked sp fat dir k := by
  refine ⟨h.1, ?_⟩
  rintro ⟨i, chain, hi, hchain, hk⟩
  have hsame : fillAll filename dir i = dir i := fillAll_of_live hi
  exact h.2 ⟨i, chain, hsame ▸ hi, hsame ▸ hchain, hk⟩

end Creation

section Deletion

variable {sp : SuperBlock} {fat fat' : FatBuffer} {dir : RootDir L} {filename : CStr}
  {i : Fin fsFileMaxCount} {freed : List Nat}

theorem resetAll_survivor {j : Fin fsFileMaxCount} :
    (resetAll filename dir j).live ↔ (dir j).live ∧ dir.name j ≠ filename.bytes := by
  constructor
  · intro h
    obtain ⟨hsame, hname⟩ := resetAll_live h
    exact ⟨hsame ▸ h, hname⟩
  · rintro ⟨hj, hname⟩
    rwa [resetAll_other hname]

variable (h : Chained sp fat dir) (hi : (dir i).live) (hname : dir.name i = filename.bytes)
  (hfreed : FileChain sp fat (dir i) freed)
  (hfat : ∀ k, fat'.get k = if k ∈ freed then 0 else fat.get k)
include h hi hname hfreed hfat

theorem survivor_chain {j : Fin fsFileMaxCount} (hj : (dir j).live)
    (hother : dir.name j ≠ filename.bytes) (chain : List Nat) :
    FileChain sp fat' (dir j) chain ↔ FileChain sp fat (dir j) chain := by
  have hne : i ≠ j := fun heq => hother (heq ▸ hname)
  have carry {chain : List Nat} (hchain : FileChain sp fat (dir j) chain) :
      FileChain sp fat' (dir j) chain := by
    apply hchain.congr
    intro k hk
    have hnot : k ∉ freed := fun hin => h.disjoint i j freed chain hi hj hne hfreed hchain hin hk
    rw [hfat k, if_neg hnot]
  constructor
  · intro hchain
    obtain ⟨old, hold⟩ := h.chains j hj
    rw [hchain.unique (carry hold)]
    exact hold
  · exact carry

theorem Chained.resetAll : Chained sp fat' (resetAll filename dir) := by
  constructor
  · intro j hj
    obtain ⟨hlive, hother⟩ := resetAll_survivor.mp hj
    obtain ⟨chain, hchain⟩ := h.chains j hlive
    rw [(resetAll_live hj).1]
    exact ⟨chain, (survivor_chain h hi hname hfreed hfat hlive hother chain).mpr hchain⟩
  · intro j k chain chain' hj hk hne hchain hchain'
    obtain ⟨hjlive, hjother⟩ := resetAll_survivor.mp hj
    obtain ⟨hklive, hkother⟩ := resetAll_survivor.mp hk
    rw [(resetAll_live hj).1] at hchain
    rw [(resetAll_live hk).1] at hchain'
    exact h.disjoint j k chain chain' hjlive hklive hne
      ((survivor_chain h hi hname hfreed hfat hjlive hjother chain).mp hchain)
      ((survivor_chain h hi hname hfreed hfat hklive hkother chain').mp hchain')

omit h in
theorem deleted_chain_freed (htwins : NoTwins dir) {j : Fin fsFileMaxCount} (hj : (dir j).live)
    (hsame : dir.name j = filename.bytes) {chain : List Nat}
    (hchain : FileChain sp fat (dir j) chain) {k : Nat} (hk : k ∈ chain) : fat'.get k = 0 := by
  by_cases heq : j = i
  · subst heq
    rw [hfat k, if_pos (hfreed.unique hchain ▸ hk)]
  · have hblocks := htwins j i hj hi heq (hsame.trans hname.symm)
    rw [hchain.eq_nil hblocks] at hk
    contradiction

theorem Leaked.of_resetAll (htwins : NoTwins dir) {k : Nat}
    (hleak : Leaked sp fat' (LibFs.resetAll filename dir) k) : Leaked sp fat dir k := by
  obtain ⟨hused, hoff⟩ := hleak
  constructor
  · intro hzero
    apply hused
    rw [hfat k, hzero, ite_self]
  · rintro ⟨j, chain, hj, hchain, hk⟩
    by_cases hsame : dir.name j = filename.bytes
    · exact hused (deleted_chain_freed hi hname hfreed hfat htwins hj hsame hchain hk)
    · have hsurvives := resetAll_survivor.mpr ⟨hj, hsame⟩
      refine hoff ⟨j, chain, hsurvives, ?_, hk⟩
      rw [(resetAll_live hsurvives).1]
      exact (survivor_chain h hi hname hfreed hfat hj hsame chain).mpr hchain

end Deletion

theorem NoTwins.resetAll {dir : RootDir L} (h : NoTwins dir) (filename : CStr) :
    NoTwins (resetAll filename dir) := by
  intro i j hi hj hne hname
  rw [name_resetAll_of_live hi, name_resetAll_of_live hj] at hname
  have hsamei := (resetAll_live hi).1
  have hsamej := (resetAll_live hj).1
  rw [hsamei] at hi ⊢
  rw [hsamej] at hj
  exact h i j hi hj hne hname

/-- What a run of creations and guarded deletions keeps, relative to the tables it
started with. -/
structure BlocksKept (sp : SuperBlock) (fat₀ : FatBuffer) (dir₀ : RootDir L) (s : State L N) :
    Prop where
  tables : ∃ fs fat, s.fileSystem = .live fs ∧ fs.fatBlocks = .live fat ∧ fs.sp = sp ∧
    fat.size = fat₀.size ∧ Chained sp fat fs.rootDir ∧ NoTwins fs.rootDir ∧
    ∀ k, Leaked sp fat fs.rootDir k → Leaked sp fat₀ dir₀ k

theorem freeChain_frees {sp : SuperBlock} {fat : FatBuffer} {dir : RootDir L} {filename : CStr}
    {i j : Fin fsFileMaxCount} {pFAT : Pointer FatBuffer} (hchained : Chained sp fat dir)
    (hguard : WholeBlocksAt filename dir i j)
    (hwalk : freeChain (dir j).fileBlckSize (dir j).fileFirstIndex (.live fat) = .ok pFAT) :
    ∃ fat' freed, pFAT = .live fat' ∧ fat'.size = fat.size ∧ FileChain sp fat (dir i) freed ∧
      ∀ k, fat'.get k = if k ∈ freed then 0 else fat.get k := by
  obtain ⟨freed, hfreed⟩ := hchained.chains i hguard.live
  rcases hguard.whole with ⟨rfl, hwhole⟩ | ⟨hnone, hlow, hhigh⟩
  · rw [hfreed.fileBlckSize_eq hwhole] at hwalk
    obtain ⟨fat', hfat', hsize, hget⟩ := hfreed.walk_frees le_rfl hwalk
    refine ⟨fat', freed, hfat', hsize, hfreed, fun k => ?_⟩
    rw [hget k, List.take_length]
  · rw [RootEntry.fileBlckSize_eq_zero hlow hhigh, freeChain, Except.ok.injEq] at hwalk
    refine ⟨fat, freed, hwalk.symm, rfl, hfreed, fun k => ?_⟩
    simp [hfreed.eq_nil hnone]

theorem freeChain_guarded_returns {sp : SuperBlock} {fat : FatBuffer} {dir : RootDir L}
    {filename : CStr} {i j : Fin fsFileMaxCount} {d : Device} (haccepted : Accepted sp d)
    (hsize : fat.size = fatByteCount sp.fatBlckAmount) (hchained : Chained sp fat dir)
    (hguard : WholeBlocksAt filename dir i j) :
    ∃ pFAT, freeChain (dir j).fileBlckSize (dir j).fileFirstIndex (.live fat) = .ok pFAT := by
  rcases hguard.whole with ⟨rfl, _⟩ | ⟨_, hlow, hhigh⟩
  · obtain ⟨freed, hfreed⟩ := hchained.chains i hguard.live
    exact hfreed.walk_returns haccepted hsize hfreed.fileBlckSize_le
  · rw [RootEntry.fileBlckSize_eq_zero hlow hhigh]
    exact ⟨.live fat, rfl⟩

theorem blocksKept_start {start : State L N} {fs₀ : FsSystem L} {fat₀ : FatBuffer}
    (hlive : start.fileSystem = .live fs₀) (hfat : fs₀.fatBlocks = .live fat₀)
    (hwf : WellFormed fs₀.sp fat₀ fs₀.rootDir) :
    BlocksKept fs₀.sp fat₀ fs₀.rootDir start where
  tables := by
    refine ⟨fs₀, fat₀, hlive, hfat, rfl, rfl, hwf.toChained, ?_, fun _ h => h⟩
    intro i j hi hj hne hname
    exact absurd (hwf.names i j hi hj hname) hne

section Calls

variable {sp : SuperBlock} {fat₀ : FatBuffer} {dir₀ : RootDir L} {s next : State L N} {ret : Int}
  {filename : CStr} (hinv : BlocksKept sp fat₀ dir₀ s)
include hinv

theorem blocksKept_create {noReturn : Bool}
    (h : fsCreate noReturn filename s = .ok (ret, next)) : BlocksKept sp fat₀ dir₀ next := by
  obtain ⟨fs, fat, hlive, hfat, hsp, hsize, hchained, htwins, hleaks⟩ := hinv.tables
  rcases fsCreate_live hlive h with ⟨_, rfl, _⟩ | ⟨_, _, hlength, hfresh, _, rfl⟩
  · exact hinv
  · exact ⟨_, fat, rfl, hfat, hsp, hsize, hchained.fillAll, htwins.fillAll hlength hfresh,
      fun k hk => hleaks k hk.of_fillAll⟩

theorem blocksKept_delete {unassigned : RootEntry L} {fs : FsSystem L}
    {i j : Fin fsFileMaxCount} (hlive : s.fileSystem = .live fs)
    (hat : WholeBlocksAt filename fs.rootDir i j)
    (h : fsDelete unassigned filename s = .ok (ret, next)) :
    BlocksKept sp fat₀ dir₀ next ∧ ∃ fat fs' fat', fs.fatBlocks = .live fat ∧
      next.fileSystem = .live fs' ∧ fs'.fatBlocks = .live fat' ∧
      ∀ m chain, (fs.rootDir m).live → fs.rootDir.name m = filename.bytes →
        FileChain fs.sp fat (fs.rootDir m) chain → ∀ k ∈ chain, fat'.get k = 0 := by
  obtain ⟨fs₁, fat, hlive₁, hfat, rfl, hsize, hchained, htwins, hleaks⟩ := hinv.tables
  rw [hlive] at hlive₁
  cases hlive₁
  obtain ⟨deleteFile, pFAT, hkept, hwalk, _, hnext⟩ := fsDelete_live hlive h
  have hfile : deleteFile = fs.rootDir j := by
    apply hkept.eq_last (RootDir.matchesName_iff.mpr hat.nameLast)
    intro k hk
    exact RootDir.matchesName_false_iff.mpr (hat.last k hk)
  rw [hfile, hfat] at hwalk
  obtain ⟨fat', freed, rfl, hsize', hfreed, hget⟩ := freeChain_frees hchained hat hwalk
  rw [hnext]
  constructor
  · exact ⟨_, fat', rfl, rfl, rfl, hsize'.trans hsize,
      hchained.resetAll hat.live hat.name hfreed hget, htwins.resetAll filename,
      fun k hk => hleaks k (hk.of_resetAll hchained hat.live hat.name hfreed hget htwins)⟩
  · refine ⟨fat, _, fat', hfat, rfl, rfl, ?_⟩
    intro m chain hm hname hchain k hk
    exact deleted_chain_freed hat.live hat.name hfreed hget htwins hm hname hchain hk

end Calls

theorem blocksKept_step {sp : SuperBlock} {fat₀ : FatBuffer} {dir₀ : RootDir L}
    {e : ApiEvent L N} (hinv : BlocksKept sp fat₀ dir₀ e.before) (hcall : ExistingCall e)
    (hguard : WholeBlocks e) (hstep : step e.call e.before = .ok (e.ret, e.after)) :
    BlocksKept sp fat₀ dir₀ e.after ∧ FreesChain e := by
  obtain ⟨before, call, ret, after⟩ := e
  cases call <;> simp only [ExistingCall] at hcall
  case fsCreate noReturn filename =>
    exact ⟨blocksKept_create hinv hstep, fun _ _ _ _ _ _ _ _ hdelete => by cases hdelete⟩
  case fsDelete unassigned filename =>
    have hdelete : fsDelete unassigned filename before = .ok (ret, after) := hstep
    obtain ⟨fs, _, hlive, _⟩ := hcall
    obtain ⟨i, j, hat⟩ := hguard unassigned filename fs rfl hlive
    obtain ⟨hkept, fat, fs', fat', hfat, hafter, hfat', hfreed⟩ :=
      blocksKept_delete hinv hlive hat hdelete
    refine ⟨hkept, ?_⟩
    intro _ filename' fs₁ fs₂ fat₁ fat₂ m chain hsame hbefore hfat₁ hlast hfat₂
    cases hsame
    rw [hlive] at hbefore
    cases hbefore
    rw [hfat] at hfat₁
    cases hfat₁
    rw [hafter] at hlast
    cases hlast
    rw [hfat'] at hfat₂
    cases hfat₂
    exact hfreed m chain

/-- Over a run of creations and deletions of existing files, each deletion made on
whole blocks, deleted chains are freed, no entry leaks that had not leaked at the
start, and the next such deletion returns. -/
theorem no_block_leaked {start s : State L N} {fs₀ : FsSystem L} {fat₀ : FatBuffer}
    {past : List (ApiEvent L N)} (hmount : Mounted start fs₀) (hfat : fs₀.fatBlocks = .live fat₀)
    (hwf : WellFormed fs₀.sp fat₀ fs₀.rootDir) (hrun : ApiRun start past s)
    (hcalls : ∀ e ∈ past, ExistingCall e) (hguard : ∀ e ∈ past, WholeBlocks e) :
    (∀ e ∈ past, FreesChain e) ∧
      ∃ fs fat, s.fileSystem = .live fs ∧ fs.fatBlocks = .live fat ∧
        (∀ k, Leaked fs.sp fat fs.rootDir k → Leaked fs₀.sp fat₀ fs₀.rootDir k) ∧
        ∀ unassigned filename i j, WholeBlocksAt filename fs.rootDir i j →
          ∃ next, fsDelete unassigned filename s = .ok (0, next) := by
  obtain ⟨hinv, hfrees⟩ := hrun.guarded_good
    (I := fun _ s => BlocksKept fs₀.sp fat₀ fs₀.rootDir s)
    (blocksKept_start hmount.loaded hfat hwf)
    (fun _ _ hinv hguard hstep => blocksKept_step hinv hguard.1 hguard.2 hstep)
    (throughout_and.mpr ⟨(throughout_forall ExistingCall past).mpr hcalls,
      (throughout_forall WholeBlocks past).mpr hguard⟩)
  obtain ⟨fs, fat, hlive, hfat', hsp, hsize, hchained, _, hleaks⟩ := hinv.tables
  refine ⟨(throughout_forall FreesChain past).mp hfrees, fs, fat, hlive, hfat', ?_, ?_⟩
  · rw [hsp]
    exact hleaks
  · intro unassigned filename i j hat
    obtain ⟨pFAT, hwalk⟩ := freeChain_guarded_returns hmount.accepted
      (hsize.trans (hmount.fat_size hfat)) hchained hat
    rw [← hfat'] at hwalk
    exact ⟨_, fsDelete_returns hlive hat.nameLast hat.last hwalk⟩

/-! A disk of 2048 blocks with one file "a", whose only block is block 1. -/

def oneFileDir (fileSize : BitVec 32) : RootDir L := rootDirOf fun i =>
  if i = 0 then
    { blankEntry with
      filename := CharArray.copy (fun _ => 0) nameA
      fileSize := fileSize
      fileFirstIndex := 1
      emptyByte := 0 }
  else blankEntry

def oneFileBytes : Bytes := fun p => if p = 2 ∨ p = 3 then 0xFF else 0
def oneFileFat : FatBuffer := ⟨blockSize * 1, oneFileBytes⟩
def oneFileFs (fileSize : BitVec 32) : FsSystem .packed :=
  loadedFs 2048 1 (oneFileDir fileSize) oneFileBytes
def oneFileState (fileSize : BitVec 32) : State .packed 32 :=
  loadedState 2048 1 (oneFileDir fileSize) oneFileBytes

theorem oneFile_mounted (fileSize : BitVec 32) :
    Mounted (oneFileState fileSize) (oneFileFs fileSize) :=
  loaded_mounted _ _ (by decide) (by decide)

theorem oneFileDir_live {fileSize : BitVec 32} {i : Fin fsFileMaxCount} :
    (oneFileDir fileSize i : RootEntry L).live ↔ i = 0 := by
  unfold oneFileDir rootDirOf
  dsimp only
  split
  · rename_i hi
    exact ⟨fun _ => hi, fun _ => rfl⟩
  · rename_i hi
    exact ⟨fun h => absurd h (blankDir_empty i), fun h => absurd h hi⟩

theorem oneFileDir_name {fileSize : BitVec 32} {i : Fin fsFileMaxCount} :
    (oneFileDir fileSize : RootDir L).name i = if i = 0 then nameA.bytes else [] := by
  have hlength : (if i = 0 then nameA.bytes else []).length < fsFilenameLen := by
    split <;> decide
  apply (RootDir.name_eq_iff hlength).mpr
  unfold oneFileDir rootDirOf
  dsimp only
  split
  · exact CharArray.text_copy _ nameA (by decide)
  · exact CharArray.text_eq_nil.mpr rfl

theorem oneFile_chain {fileSize : BitVec 32}
    (hblocks : (fileSize.toInt + (blockSize - 1)) / blockSize = 1) :
    FileChain (sampleSuper 2048 1) oneFileFat (oneFileDir fileSize 0 : RootEntry L) [1] where
  length := hblocks.symm
  nodup := List.nodup_singleton 1
  inRange := by decide
  linked := ⟨rfl, (by decide : oneFileFat.links 1 = fatEOC.toNat)⟩

theorem oneFile_wellFormed {fileSize : BitVec 32}
    (hblocks : (fileSize.toInt + (blockSize - 1)) / blockSize = 1) :
    WellFormed (sampleSuper 2048 1) oneFileFat (oneFileDir fileSize : RootDir L) where
  chains i hi := by
    rw [oneFileDir_live.mp hi]
    exact ⟨[1], oneFile_chain hblocks⟩
  disjoint i j _ _ hi hj hne := by
    exact absurd ((oneFileDir_live.mp hi).trans (oneFileDir_live.mp hj).symm) hne
  names i j hi hj _ := (oneFileDir_live.mp hi).trans (oneFileDir_live.mp hj).symm

def oneFileDeleted (fileSize : BitVec 32) (fat : FatBuffer) : State .packed 32 :=
  { oneFileState fileSize with
    fileSystem := .live { oneFileFs fileSize with
      rootDir := resetAll nameA (oneFileDir fileSize), fatBlocks := .live fat } }

def oneFileDeletion (fileSize : BitVec 32) (fat : FatBuffer) : ApiEvent .packed 32 :=
  ⟨oneFileState fileSize, .fsDelete blankEntry nameA, 0, oneFileDeleted fileSize fat⟩

theorem oneFileDir_last (fileSize : BitVec 32) (j : Fin fsFileMaxCount) (hj : 0 < j) :
    (oneFileDir fileSize : RootDir .packed).name j ≠ nameA.bytes := by
  rw [oneFileDir_name, if_neg hj.ne']
  decide

theorem oneFile_live (fileSize : BitVec 32) :
    (oneFileState fileSize).fileSystem = .live (oneFileFs fileSize) := rfl

theorem oneFile_name (fileSize : BitVec 32) :
    (oneFileFs fileSize).rootDir.name 0 = nameA.bytes := oneFileDir_name

theorem oneFile_delete {fileSize : BitVec 32} {fat : FatBuffer}
    (hwalk : freeChain (oneFileDir fileSize 0 : RootEntry .packed).fileBlckSize 1
      (.live oneFileFat) = .ok (.live fat)) :
    fsDelete blankEntry nameA (oneFileState fileSize) = .ok (0, oneFileDeleted fileSize fat) := by
  have hreturns : fsDelete blankEntry nameA (oneFileState fileSize) = _ :=
    fsDelete_returns (oneFile_live fileSize) (oneFile_name fileSize) (oneFileDir_last fileSize)
      hwalk
  exact hreturns

theorem oneFileDeletion_run {fileSize : BitVec 32} {fat : FatBuffer}
    (hwalk : freeChain (oneFileDir fileSize 0 : RootEntry .packed).fileBlckSize 1
      (.live oneFileFat) = .ok (.live fat)) :
    ApiRun (oneFileState fileSize) [oneFileDeletion fileSize fat]
      (oneFileDeleted fileSize fat) := by
  have hstep : fsDelete blankEntry nameA (oneFileState fileSize) = _ := oneFile_delete hwalk
  exact .snoc .nil hstep

theorem oneFileDeletion_existing (fileSize : BitVec 32) (fat : FatBuffer) :
    ∀ e ∈ [oneFileDeletion fileSize fat], ExistingCall e := by
  simp only [List.mem_singleton, forall_eq]
  exact ⟨oneFileFs fileSize, 0, rfl, oneFileDir_live.mpr rfl, oneFileDir_name⟩

theorem oneFileDeletion_whole (fat : FatBuffer) :
    ∀ e ∈ [oneFileDeletion 4096 fat], WholeBlocks e := by
  simp only [List.mem_singleton, forall_eq]
  intro _ filename fs hdelete hlive
  cases hdelete
  cases hlive
  exact ⟨0, 0, oneFileDir_live.mpr rfl, oneFileDir_name, oneFileDir_name, oneFileDir_last 4096,
    Or.inl ⟨rfl, Or.inl (by decide)⟩⟩

theorem no_block_leaked_one_file :
    FreesChain (oneFileDeletion 4096 (oneFileFat.set 1 0)) :=
  (no_block_leaked (oneFile_mounted 4096) rfl (oneFile_wellFormed (by decide))
    (oneFileDeletion_run rfl) (oneFileDeletion_existing 4096 _) (oneFileDeletion_whole _)).1 _
    (List.mem_singleton_self _)

/-- Deleting a file of one byte leaves its block allocated to nobody. -/
theorem block_leak_refuted :
    ¬ ∀ (start s : State .packed 32) (fs₀ : FsSystem .packed) (fat₀ : FatBuffer)
      (past : List (ApiEvent .packed 32)),
      Mounted start fs₀ → fs₀.fatBlocks = .live fat₀ → WellFormed fs₀.sp fat₀ fs₀.rootDir →
        ApiRun start past s → (∀ e ∈ past, ExistingCall e) →
          ∃ fs fat, s.fileSystem = .live fs ∧ fs.fatBlocks = .live fat ∧
            ∀ k, Leaked fs.sp fat fs.rootDir k → Leaked fs₀.sp fat₀ fs₀.rootDir k := by
  intro hnoLeak
  have hwf : WellFormed (sampleSuper 2048 1) oneFileFat (oneFileDir 1 : RootDir .packed) :=
    oneFile_wellFormed (by decide)
  obtain ⟨fs, fat, hlive, hfat, hleaks⟩ := hnoLeak _ _ _ _ _ (oneFile_mounted 1) rfl hwf
    (oneFileDeletion_run rfl) (oneFileDeletion_existing 1 oneFileFat)
  cases hlive
  cases hfat
  have hend : Leaked (sampleSuper 2048 1) oneFileFat
      (resetAll nameA (oneFileDir 1 : RootDir .packed)) 1 := by
    refine ⟨by decide, ?_⟩
    rintro ⟨i, _, hi, _, _⟩
    obtain ⟨hlive, hother⟩ := resetAll_survivor.mp hi
    rw [oneFileDir_live.mp hlive] at hother
    exact hother oneFileDir_name
  exact (hleaks 1 hend).2 ⟨0, [1], oneFileDir_live.mpr rfl, oneFile_chain (by decide), by decide⟩

end LibFs
