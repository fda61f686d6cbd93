import LibFs.Apps.Served

/-! A rule for the commands of a script. What holds between two commands is given by an
invariant; what the commands may call, by a guard. -/
namespace LibFs

open LibFs.Foundation Driver

def scriptWords (words : List String) : List (Option (List UInt8)) := words.map (some ∘ ascii)

structure Formed (args : CommandArgs) : Prop where
  first : args 0 ∈ scriptWords ["CREATE", "OPEN", "SEEK", "WRITE", "READ"] → args 1 ≠ none
  written : args 0 = some (ascii "WRITE") → args 1 = some (ascii "DATA") → args 2 ≠ none
  source : args 0 = some (ascii "READ") → args 2 ≠ none
  expected : args 0 = some (ascii "READ") → args 2 = some (ascii "DATA") → args 3 ≠ none

def DriverCall.MadeBy (args : CommandArgs) (fsFd : Int) : DriverCall → Prop
  | .fsCreate filename => args 0 = some (ascii "CREATE") ∧ filename = args 1
  | .fsDelete filename => args 0 = some (ascii "DELETE") ∧ filename = args 1
  | .fsOpen filename => args 0 = some (ascii "OPEN") ∧ filename = args 1
  | .fsClose fd => fd = fsFd
  | .fsLseek fd _ => args 0 = some (ascii "SEEK") ∧ fd = fsFd
  | .fsWrite fd _ => fd = fsFd
  | .fsRead fd _ => fd = fsFd
  | k => k.IsHost

def Allocates : DriverEvent → Prop
  | ⟨.calloc _, allocated⟩ => allocated = true
  | ⟨.fopen _, stream⟩ => stream ≠ none
  | _ => True

section Rules

variable (serves : State L N → DriverEvent → State L N → Prop)
  (guard : State L N → DriverCall → Prop) (P : State L N → Ending → Prop)

/-- What it takes to get from one command to the next with `I`. -/
structure CommandRule (I : State L N → Prop) (args : CommandArgs) (fsFd : Int) : Prop where
  call : ∀ k : DriverCall, k.MadeBy args fsFd → ∀ s, I s → guard s k ∧
    ∀ answer after, serves s ⟨k, answer⟩ after → I after
  died : ∀ s, P s .died
  umounted : ∀ s, I s → Program.Meets serves guard P s umountAndDie
  malformed : ¬ Formed args → ∀ s, I s → Program.Meets serves guard P s crashed
  starved : ∀ s event after, serves s event after → ¬ Allocates event →
    ∀ t, I t → Program.Meets serves guard P t crashed

end Rules

section Commands

variable {serves : State L N → DriverEvent → State L N → Prop}
  {guard : State L N → DriverCall → Prop} {P : State L N → Ending → Prop} {I : State L N → Prop}
  {args : CommandArgs} {fsFd : Int} {next : Driver} {s : State L N}
  (h : CommandRule serves guard P I args fsFd) (hs : I s)
include h hs

theorem CommandRule.calls {k : DriverCall} {next : k.Answer → Driver} (hk : k.MadeBy args fsFd)
    (hnext : ∀ answer after, serves s ⟨k, answer⟩ after → I after →
      Program.Meets serves guard P after (next answer)) :
    Program.Meets serves guard P s (.call k next) := by
  obtain ⟨hguard, hkept⟩ := h.call k hk s hs
  exact ⟨hguard, fun answer after hserves =>
    hnext answer after hserves (hkept answer after hserves)⟩

theorem CommandRule.checked {k : DriverCall} {next : k.Answer → Driver} {fails : k.Answer → Prop}
    [DecidablePred fails] (hk : k.MadeBy args fsFd)
    (hnext : ∀ answer after, serves s ⟨k, answer⟩ after → ¬ fails answer → I after →
      Program.Meets serves guard P after (next answer)) :
    Program.Meets serves guard P s
      (.call k fun answer => if fails answer then umountAndDie else next answer) :=
  h.calls hs hk fun answer after hserves hafter =>
    Program.meets_ite (fun _ => h.umounted after hafter) fun hpasses =>
      hnext answer after hserves hpasses hafter

theorem CommandRule.missing {arg : Option (List UInt8)} (hformed : Formed args → arg ≠ none)
    (harg : arg = none) : Program.Meets serves guard P s crashed :=
  h.malformed (fun hargs => hformed hargs harg) s hs

variable (hnext : ∀ after, I after → Program.Meets serves guard P after next)

theorem CommandRule.loadFile {path : Option (List UInt8)} {next : Int → Int → Driver}
    (hnext : ∀ dataFd dataSize after, I after →
      Program.Meets serves guard P after (next dataFd dataSize)) :
    Program.Meets serves guard P s (loadFile path next) := by
  refine h.checked hs trivial fun dataFd opened _ _ hopened => ?_
  refine h.calls hopened trivial fun st found _ hfound => ?_
  refine Program.meets_ite (fun _ => h.umounted found hfound) fun _ => ?_
  refine Program.meets_ite (fun _ => h.umounted found hfound) fun _ => ?_
  exact hnext dataFd _ found hfound

include hnext

theorem CommandRule.writeData {dataSize : Int} :
    Program.Meets serves guard P s (writeData fsFd dataSize next) :=
  h.checked hs rfl fun _ after _ _ hafter => hnext after hafter

theorem CommandRule.readData {length : Int} :
    Program.Meets serves guard P s (readData fsFd length next) := by
  refine Program.meets_ite (fun _ => h.umounted s hs) fun _ => ?_
  refine h.calls hs trivial fun readBuf reserved hcalloc hreserved => ?_
  refine h.checked hreserved rfl fun count read _ _ hread => ?_
  refine Program.meets_ite (fun hmissing => ?_) fun _ => hnext read hread
  have hstarved : ¬ Allocates ⟨.calloc (length + 1), readBuf⟩ := by
    simpa [Allocates] using hmissing
  exact h.starved _ _ _ hcalloc hstarved read hread

theorem CommandRule.create (hword : args 0 = some (ascii "CREATE")) :
    Program.Meets serves guard P s (createCommand args next) :=
  h.checked hs ⟨hword, rfl⟩ fun _ after _ _ hafter => hnext after hafter

theorem CommandRule.delete (hword : args 0 = some (ascii "DELETE")) :
    Program.Meets serves guard P s (deleteCommand args next) :=
  h.checked hs ⟨hword, rfl⟩ fun _ after _ _ hafter => hnext after hafter

theorem CommandRule.close : Program.Meets serves guard P s (closeCommand fsFd next) :=
  h.checked hs rfl fun _ after _ _ hafter => hnext after hafter

theorem CommandRule.seek (hword : args 0 = some (ascii "SEEK")) :
    Program.Meets serves guard P s (seekCommand args fsFd next) := by
  unfold seekCommand
  split
  · exact h.missing hs (fun hargs => hargs.first (by rw [hword]; decide)) ‹_›
  · exact h.checked hs ⟨hword, rfl⟩ fun _ after _ _ hafter => hnext after hafter

theorem CommandRule.write (hword : args 0 = some (ascii "WRITE")) :
    Program.Meets serves guard P s (writeCommand args fsFd next) := by
  unfold writeCommand
  split
  · exact h.missing hs (fun hargs => hargs.first (by rw [hword]; decide)) ‹_›
  · rename_i dataSource hsource
    refine Program.meets_ite (fun hdata => ?_) fun _ => ?_
    · rw [hdata] at hsource
      split
      · exact h.missing hs (fun hargs => hargs.written hword hsource) ‹_›
      · exact h.writeData hs hnext
    · refine Program.meets_ite (fun _ => ?_) fun _ => h.umounted s hs
      refine h.loadFile hs fun dataFd dataSize loaded hloaded => ?_
      exact h.checked hloaded trivial fun _ mapped _ _ hmapped => h.writeData hmapped hnext

theorem CommandRule.read (hword : args 0 = some (ascii "READ")) :
    Program.Meets serves guard P s (readCommand args fsFd next) := by
  unfold readCommand
  split
  · exact h.missing hs (fun hargs => hargs.first (by rw [hword]; decide)) ‹_›
  dsimp only
  split
  · exact h.missing hs (fun hargs => hargs.source hword) ‹_›
  rename_i dataSource hsource
  refine Program.meets_ite (fun hdata => ?_) fun _ => ?_
  · rw [hdata] at hsource
    split
    · exact h.missing hs (fun hargs => hargs.expected hword hsource) ‹_›
    · exact h.readData hs hnext
  · refine Program.meets_ite (fun _ => ?_) fun _ => h.umounted s hs
    refine h.loadFile hs fun _ dataSize loaded hloaded => ?_
    refine h.calls hloaded trivial fun dataFile opened hfopen hopened => ?_
    refine h.calls hopened trivial fun data reserved hcalloc hreserved => ?_
    refine Program.meets_ite (fun hmissing => ?_) fun _ => ?_
    · rcases hmissing with hclosed | ⟨hmissing, _⟩
      · have hstarved : ¬ Allocates ⟨.fopen (args 3), dataFile⟩ := not_not.mpr hclosed
        exact h.starved _ _ _ hfopen hstarved reserved hreserved
      · have hstarved : ¬ Allocates ⟨.calloc (dataSize + 1), data⟩ := by
          simpa [Allocates] using hmissing
        exact h.starved _ _ _ hcalloc hstarved reserved hreserved
    · refine h.calls hreserved trivial fun n filled _ hfilled => ?_
      refine Program.meets_ite (fun _ => h.died filled) fun _ => ?_
      exact Program.meets_ite (fun _ => h.umounted filled hfilled) fun _ => h.readData hfilled hnext

omit hnext in
theorem CommandRule.opens {next : Int → Driver} (hword : args 0 = some (ascii "OPEN"))
    (hopened : ∀ (fd : Int) after, serves s ⟨.fsOpen (args 1), fd⟩ after → ¬ fd < 0 → I after →
      Program.Meets serves guard P after (next fd)) :
    Program.Meets serves guard P s (openCommand args next) :=
  h.checked hs ⟨hword, rfl⟩ hopened

end Commands

section Loop

variable {serves : State L N → DriverEvent → State L N → Prop}
  {guard : State L N → DriverCall → Prop} {P : State L N → Ending → Prop} {I : State L N → Prop}
  {args : CommandArgs} {rest : List CommandArgs} {mounted : Bool} {fsFd : Int} {s : State L N}
  {diskname : List UInt8} {next : Driver}

theorem DriverCall.MadeBy.inSession {k : DriverCall} (h : k.MadeBy args fsFd) : k.InSession := by
  cases k <;> first | exact trivial | exact h.elim

theorem commandRule_of_invariant (hdied : ∀ s, P s .died) (hcrashed : ∀ s, P s .crashed)
    (hguard : ∀ k s, I s → guard s k)
    (hkept : ∀ k : DriverCall, k.MadeBy args fsFd → ∀ s answer after, I s →
      serves s ⟨k, answer⟩ after → I after) :
    CommandRule serves guard P I args fsFd where
  call k hk s hs :=
    ⟨hguard k s hs, fun answer after hserves => hkept k hk s answer after hs hserves⟩
  died := hdied
  umounted s hs := ⟨hguard .fsUmount s hs, fun _ after _ => hdied after⟩
  malformed _ s hs := ⟨hguard .useNull s hs, fun _ after _ => hcrashed after⟩
  starved _ _ _ _ _ t ht := ⟨hguard .useNull t ht, fun _ after _ => hcrashed after⟩

theorem meets_mount (hdied : ∀ s, P s .died) (hguard : guard s (.fsMount diskname))
    (hnext : ∀ after, serves s ⟨.fsMount diskname, (0 : Int)⟩ after →
      Program.Meets serves guard P after next) :
    Program.Meets serves guard P s (mountCommand diskname next) := by
  refine ⟨hguard, fun failed after hserves => ?_⟩
  refine Program.meets_ite (fun _ => hdied after) fun hzero => hnext after ?_
  have hmounted : (failed : Int) = 0 := not_not.mp hzero
  rwa [hmounted] at hserves

theorem meets_umount (hdied : ∀ s, P s .died) (hguard : mounted = true → guard s .fsUmount)
    (hnext : mounted = true → ∀ (ret : Int) after, serves s ⟨.fsUmount, ret⟩ after →
      Program.Meets serves guard P after next)
    (hidle : mounted = false → Program.Meets serves guard P s next) :
    Program.Meets serves guard P s (umountCommand mounted next) := by
  unfold umountCommand
  cases mounted with
  | true =>
      refine ⟨hguard rfl, fun failed after hserves => ?_⟩
      exact Program.meets_ite (fun _ => hdied after) fun _ => hnext rfl failed after hserves
  | false => exact hidle rfl

def commandWords : List (Option (List UInt8)) :=
  scriptWords ["CREATE", "DELETE", "OPEN", "CLOSE", "SEEK", "WRITE", "READ"]

/-- The commands after which the variables of the loop are not what they were. -/
def loopWords : List (Option (List UInt8)) := scriptWords ["MOUNT", "UMOUNT", "OPEN"]

theorem meets_command (hs : I s)
    (hmount : args 0 = some (ascii "MOUNT") → Program.Meets serves guard P s
      (mountCommand diskname (scriptLoop diskname rest true fsFd)))
    (humount : args 0 = some (ascii "UMOUNT") → Program.Meets serves guard P s
      (umountCommand mounted (scriptLoop diskname rest false fsFd)))
    (hrule : args 0 ∈ commandWords → CommandRule serves guard P I args fsFd)
    (hopened : args 0 = some (ascii "OPEN") → ∀ (fd : Int) after,
      serves s ⟨.fsOpen (args 1), fd⟩ after → ¬ fd < 0 → I after →
      Program.Meets serves guard P after (scriptLoop diskname rest mounted fd))
    (hnext : args 0 ∉ loopWords → ∀ after, I after →
      Program.Meets serves guard P after (scriptLoop diskname rest mounted fsFd)) :
    Program.Meets serves guard P s (scriptLoop diskname (args :: rest) mounted fsFd) := by
  have hcommand {word : String} (hargs : args 0 = some (ascii word))
      (hmem : some (ascii word) ∈ commandWords) : CommandRule serves guard P I args fsFd :=
    hrule (hargs ▸ hmem)
  have hgoes {word : String} (hargs : args 0 = some (ascii word))
      (hmem : some (ascii word) ∉ loopWords) (after : State L N) (hafter : I after) :
      Program.Meets serves guard P after (scriptLoop diskname rest mounted fsFd) :=
    hnext (hargs ▸ hmem) after hafter
  unfold scriptLoop
  refine Program.meets_ite hmount fun hnotMount => ?_
  refine Program.meets_ite humount fun hnotUmount => ?_
  refine Program.meets_ite (fun hargs => ?_) fun _ => ?_
  · exact (hcommand hargs (by decide)).create hs (hgoes hargs (by decide)) hargs
  refine Program.meets_ite (fun hargs => ?_) fun _ => ?_
  · exact (hcommand hargs (by decide)).delete hs (hgoes hargs (by decide)) hargs
  refine Program.meets_ite (fun hargs => ?_) fun hnotOpen => ?_
  · exact (hcommand hargs (by decide)).opens hs hargs (hopened hargs)
  refine Program.meets_ite (fun hargs => ?_) fun _ => ?_
  · exact (hcommand hargs (by decide)).close hs (hgoes hargs (by decide))
  refine Program.meets_ite (fun hargs => ?_) fun _ => ?_
  · exact (hcommand hargs (by decide)).seek hs (hgoes hargs (by decide)) hargs
  refine Program.meets_ite (fun hargs => ?_) fun _ => ?_
  · exact (hcommand hargs (by decide)).write hs (hgoes hargs (by decide)) hargs
  refine Program.meets_ite (fun hargs => ?_) fun _ => ?_
  · exact (hcommand hargs (by decide)).read hs (hgoes hargs (by decide)) hargs
  refine hnext ?_ s hs
  simp only [loopWords, scriptWords, List.map_cons, List.map_nil, List.mem_cons, List.not_mem_nil,
    or_false, not_or]
  exact ⟨hnotMount, hnotUmount, hnotOpen⟩

end Loop

end LibFs
