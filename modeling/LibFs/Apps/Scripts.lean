import LibFs.Apps.Outcomes
import LibFs.Apps.Parsing
import LibFs.Directory.Sessions

/-! What can be told of a script before it is run. One that opens a file it has created does
not get to its end; one whose commands are in order stops, if at all, only at a deletion. -/
namespace LibFs

open LibFs.Foundation Driver

/-! Names in a script. -/

theorem fgets_length_le (left : Nat) (stream : List UInt8) :
    (fgets left stream).1.length ≤ left := by
  induction left generalizing stream with
  | zero => simp [fgets]
  | succ left ih =>
      cases stream with
      | nil => simp [fgets]
      | cons byte stream =>
          unfold fgets
          split
          · simp
          · simpa using ih stream

theorem field_length_le {line field : List UInt8} (hfield : field ∈ fields tab line) :
    field.length ≤ line.length :=
  calc field.length ≤ (fields tab line).flatten.length :=
        (List.sublist_flatten_of_mem hfield).length_le
    _ = (line.filter (· != tab)).length := by rw [flatten_fields]
    _ ≤ line.length := List.length_filter_le _ _

theorem commandLine_length_le (buffer : List UInt8) :
    (commandLine buffer).length ≤ buffer.length :=
  (List.takeWhile_sublist _).length_le.trans (List.takeWhile_sublist _).length_le

theorem tokenise_name {line name : List UInt8} {args : CommandArgs}
    (hname : (tokenise line args).2 1 = some name) : name.length ≤ line.length := by
  have hassigned : ((1 : Fin totalCommandParts) : Nat) ≤ max 1 (fields tab line).length :=
    le_max_left _ _
  rw [tokenise_args, if_pos hassigned] at hname
  exact field_length_le (List.mem_of_getElem? hname)

theorem script_names_short (args : CommandArgs) (stream : List UInt8) :
    ∀ command ∈ scriptCommands args stream, ∀ name, command.2 1 = some name →
      name.length < lineBufferSize := by
  induction args, stream using scriptCommands.induct with
  | case1 args =>
      rw [scriptCommands, dif_pos rfl]
      simp
  | case2 args stream hne read command hend =>
      rw [scriptCommands, dif_neg hne]
      simp only [read, command] at hend
      simp [hend]
  | case3 args stream hne read command hgoes ih =>
      rw [scriptCommands, dif_neg hne]
      simp only [read, command] at hgoes
      simp only [hgoes, if_false, List.forall_mem_cons]
      refine ⟨fun name hname => ?_, ih⟩
      have hline := (tokenise_name hname).trans (commandLine_length_le _)
      have hread := fgets_length_le (lineBufferSize - 1) stream
      exact Nat.lt_of_le_pred (by decide) (hline.trans hread)

/-! A file that is created and then opened. -/

/-- `CREATE` and, with no `MOUNT` and no `DELETE` of that file in between, `OPEN`. -/
def CreatesThenOpens (commands : List CommandArgs) : Prop :=
  ∃ before create between opening rest filename,
    commands = before ++ create :: (between ++ opening :: rest) ∧
      create 0 = some (ascii "CREATE") ∧ create 1 = some filename ∧
      opening 0 = some (ascii "OPEN") ∧ opening 1 = some filename ∧
      ∀ args ∈ between, args 0 ≠ some (ascii "MOUNT") ∧
        (args 0 = some (ascii "DELETE") → args 1 ≠ some filename)

section Incomplete

variable {s after : State L N} {diskname : List UInt8} {args : CommandArgs}
  {rest : List CommandArgs} {mounted : Bool} {fsFd : Int}

abbrev Driver.Incomplete (s : State L N) (driver : Driver) : Prop :=
  driver.Meets (fun _ _ => True) (fun _ ending => ending ≠ .returned) s

theorem incomplete_rule {I : State L N → Prop}
    (hkept : ∀ k : DriverCall, k.MadeBy args fsFd → ∀ s answer after, I s →
      Serves s ⟨k, answer⟩ after → I after) :
    CommandRule Serves (fun _ _ => True) (fun _ ending => ending ≠ .returned) I args fsFd :=
  commandRule_of_invariant nofun nofun (fun _ _ _ => trivial) hkept

theorem incomplete_append {I : State L N → Prop} {before : List CommandArgs} (hs : I s)
    (hkept : ∀ args ∈ before, ∀ fsFd k, DriverCall.MadeBy args fsFd k → ∀ s answer after, I s →
      Serves s ⟨k, answer⟩ after → I after)
    (hmount : ∀ args ∈ before, args 0 = some (ascii "MOUNT") → ∀ s after, I s →
      Serves s ⟨.fsMount diskname, (0 : Int)⟩ after → I after)
    (humount : ∀ s (ret : Int) after, I s → Serves s ⟨.fsUmount, ret⟩ after → I after)
    (hrest : ∀ mounted fsFd s, I s → (scriptLoop diskname rest mounted fsFd).Incomplete s) :
    (scriptLoop diskname (before ++ rest) mounted fsFd).Incomplete s := by
  induction before generalizing s mounted fsFd with
  | nil => exact hrest mounted fsFd s hs
  | cons args before ih =>
      obtain ⟨hargs, hbefore⟩ := List.forall_mem_cons.mp hkept
      obtain ⟨hmountArgs, hmountBefore⟩ := List.forall_mem_cons.mp hmount
      have hnext (mounted : Bool) (fsFd : Int) (after : State L N) (hafter : I after) :
          (scriptLoop diskname (before ++ rest) mounted fsFd).Incomplete after :=
        ih hafter hbefore hmountBefore
      refine meets_command hs (fun hword => ?_) (fun _ => ?_)
        (fun _ => incomplete_rule (hargs fsFd)) (fun _ fd after _ _ => hnext mounted fd after)
        (fun _ => hnext mounted fsFd)
      · exact meets_mount nofun trivial fun after hserves =>
          hnext true fsFd after (hmountArgs hword s after hs hserves)
      · exact meets_umount nofun (fun _ => trivial)
          (fun _ ret after hserves => hnext false fsFd after (humount s ret after hs hserves))
          fun _ => hnext false fsFd s hs

theorem served_nameLive {name : CStr} {event : DriverEvent} (h : NameLive name s)
    (hmount : ∀ diskname, event.1 ≠ .fsMount diskname)
    (hdelete : event.1 ≠ .fsDelete (some name.bytes)) (hserves : Serves s event after) :
    NameLive name after := by
  rcases hserves.step with rfl | ⟨call, ret, hreaches, hstep⟩
  · exact h
  · refine live_kept (e := ⟨s, call, ret, after⟩) h (fun hfrees => ?_) hstep
    obtain ⟨k, answer⟩ := event
    rcases hfrees with ⟨unassigned, other, hcall, hname⟩ | ⟨req, hcall, _⟩
    · have hcall : call = .fsDelete unassigned other := hcall
      subst hcall
      cases k <;> simp only [DriverCall.Reaches] at hreaches
      exact hdelete (by rw [hreaches, hname])
    · have hcall : call = .fsMount req := hcall
      subst hcall
      cases k <;> simp only [DriverCall.Reaches] at hreaches
      exact hmount _ rfl

theorem served_create_live {filename : Option (List UInt8)} {ret : Int}
    (hserves : Serves s ⟨.fsCreate filename, ret⟩ after) (hzero : ret = 0) :
    ∃ name : CStr, filename = some name.bytes ∧ NameLive name after := by
  cases filename with
  | none =>
      obtain ⟨_, hrefused, _⟩ := hserves
      omega
  | some filename =>
      obtain ⟨call, hreaches, hstep⟩ := hserves
      cases call with
      | fsCreate noReturn name =>
          exact ⟨name, hreaches, live_of_creation (e := ⟨s, _, ret, after⟩) rfl hzero hstep⟩
      | _ => exact hreaches.elim

theorem served_open_refused {name : CStr} {fd : Int} (h : NameLive name s)
    (hserves : Serves s ⟨.fsOpen (some name.bytes), fd⟩ after) : fd = -1 := by
  obtain ⟨call, hreaches, hstep⟩ := hserves
  cases call with
  | fsOpen noReturn other =>
      have hother : name.bytes = other.bytes := Option.some.inj hreaches
      rcases fsOpen_cases hstep with ⟨hret, _⟩ | ⟨_, _, ⟨fs, hlive, hfresh⟩, _⟩
      · exact hret
      · obtain ⟨i, _, hi⟩ := h fs hlive
        exact absurd (hi.trans hother) (hfresh i)
  | _ => exact hreaches.elim

theorem incomplete_open {name : CStr} (h : NameLive name s)
    (hword : args 0 = some (ascii "OPEN")) (hname : args 1 = some name.bytes) :
    (scriptLoop diskname (args :: rest) mounted fsFd).Incomplete s := by
  have hopens : scriptLoop diskname (args :: rest) mounted fsFd =
      openCommand args (scriptLoop diskname rest mounted) := by
    simp [scriptLoop, hword, ascii]
  rw [hopens, openCommand, hname]
  refine ⟨trivial, fun fd after hserves => ?_⟩
  have hrefused : (fd : Int) = -1 := served_open_refused h hserves
  refine Program.meets_ite (fun _ => ⟨trivial, fun _ _ _ => nofun⟩) fun hopened => ?_
  exact absurd (hrefused.trans_lt (by decide : (-1 : Int) < 0)) hopened

end Incomplete

theorem scriptLoop_incomplete {commands : List CommandArgs} (h : CreatesThenOpens commands)
    (diskname : List UInt8) (mounted : Bool) (fsFd : Int) (s : State L N) :
    (scriptLoop diskname commands mounted fsFd).Incomplete s := by
  obtain ⟨before, create, between, opening, rest, filename, rfl, hcreate, hcreated, hopen, hopened,
    hbetween⟩ := h
  refine incomplete_append (I := fun _ => True) trivial (fun _ _ _ _ _ _ _ _ _ _ => trivial)
    (fun _ _ _ _ _ _ _ => trivial) (fun _ _ _ _ _ => trivial) fun mounted fsFd s _ => ?_
  have hcreates : scriptLoop diskname (create :: (between ++ opening :: rest)) mounted fsFd =
      createCommand create (scriptLoop diskname (between ++ opening :: rest) mounted fsFd) := by
    simp [scriptLoop, hcreate, ascii]
  rw [hcreates]
  refine ⟨trivial, fun failed after hserves => ?_⟩
  refine Program.meets_ite (fun _ => ⟨trivial, fun _ _ _ => nofun⟩) fun hzero => ?_
  obtain ⟨name, hname, hlive⟩ := served_create_live hserves (not_not.mp hzero)
  have hfilename : filename = name.bytes := Option.some.inj (hcreated.symm.trans hname)
  subst hfilename
  refine incomplete_append (I := NameLive name) hlive (fun args hmem fsFd k hk s answer after hs =>
    served_nameLive hs ?_ ?_) (fun args hmem hmount => absurd hmount (hbetween args hmem).1)
    (fun s ret after hs => served_nameLive hs nofun nofun)
    fun mounted fsFd s hs => incomplete_open hs hopen hopened
  · rintro diskname rfl
    exact hk
  · rintro rfl
    exact (hbetween args hmem).2 hk.1 hk.2.symm

/-! Commands in order. -/

/-- The commands are formed, those that need a file system stand between a `MOUNT` and the next
`UMOUNT`, and each `SEEK` stands behind an `OPEN`. -/
def Ordered : Bool → Bool → List CommandArgs → Prop
  | _, _, [] => True
  | mounted, opened, args :: rest =>
      if args 0 = some (ascii "MOUNT") then Ordered true opened rest
      else if args 0 = some (ascii "UMOUNT") then Ordered false opened rest
      else (args 0 ∈ commandWords → mounted = true ∧ Formed args ∧
          (args 0 = some (ascii "SEEK") → opened = true)) ∧
        Ordered mounted (opened || args 0 == some (ascii "OPEN")) rest

def Supplied (s : State L N) (event : DriverEvent) (next : State L N) : Prop :=
  Serves s event next ∧ Allocates event

def ReturnsUndeleted (s : State L N) (k : DriverCall) : Prop :=
  Returns s k ∨ ∃ filename, k = .fsDelete filename

section Soundness

variable {s : State L N} {diskname : List UInt8} {args : CommandArgs}
  {mounted opened : Bool} {fsFd : Int}

theorem umounted_returns (h : Ready s) : Returns s .fsUmount :=
  h.returns_proper trivial fun call hreaches => by
    cases call <;> first | exact trivial | exact hreaches.elim

section Calls

variable {k : DriverCall} (hk : k.MadeBy args fsFd) (hdelete : ∀ filename, k ≠ .fsDelete filename)
include hk hdelete

theorem madeBy_named (hformed : Formed args) : k.Named := by
  cases k with
  | fsCreate filename =>
      rw [DriverCall.Named, hk.2]
      exact hformed.first (by rw [hk.1]; decide)
  | fsOpen filename =>
      rw [DriverCall.Named, hk.2]
      exact hformed.first (by rw [hk.1]; decide)
  | fsDelete filename => exact absurd rfl (hdelete filename)
  | useNull => exact hk
  | _ => trivial

theorem madeBy_proper (hseek : args 0 = some (ascii "SEEK") → 0 ≤ fsFd ∧ fsFd < N)
    (hshort : ∀ name, args 1 = some name → name.length < 2 ^ 32) {call : Call L}
    (hreaches : k.Reaches call) : call.Proper N := by
  have hname {filename : Option (List UInt8)} {name : CStr} (hargs : filename = args 1)
      (hbytes : filename = some name.bytes) : name.strlen < 2 ^ 32 :=
    hshort _ (hargs.symm.trans hbytes)
  have hdescriptor {fd fd' : Int} (hfd : args 0 = some (ascii "SEEK") ∧ fd = fsFd)
      (hfd' : fd' = fd) : 0 ≤ fd' ∧ fd' < N := by
    rw [hfd', hfd.2]
    exact hseek hfd.1
  cases k with
  | fsDelete filename => exact absurd rfl (hdelete filename)
  | _ =>
      cases call <;>
        first
        | exact trivial
        | exact hreaches.elim
        | exact hname hk.2 hreaches
        | exact hdescriptor hk hreaches.1

end Calls

structure At (mounted opened : Bool) (fsFd : Int) (s : State L N) : Prop where
  fits : s.fdOpenCount ≤ N
  ready : mounted = true → Ready s
  inTable : opened = true → 0 ≤ fsFd ∧ fsFd < N

theorem ordered_rule (hformed : Formed args)
    (hseek : args 0 = some (ascii "SEEK") → 0 ≤ fsFd ∧ fsFd < N)
    (hshort : ∀ name, args 1 = some name → name.length < 2 ^ 32) :
    CommandRule (Supplied (L := L) (N := N)) ReturnsUndeleted (fun _ _ => True)
      (At true opened fsFd) args fsFd where
  call k hk s hs := by
    refine ⟨?_, fun answer after hserves => ?_⟩
    · by_cases hdelete : ∃ filename, k = .fsDelete filename
      · exact Or.inr hdelete
      · have hother := not_exists.mp hdelete
        exact Or.inl ((hs.ready rfl).returns_proper (madeBy_named hk hother hformed)
          fun _ hreaches => madeBy_proper hk hother hseek hshort hreaches)
    · have hready := (hs.ready rfl).served hk.inSession hserves.1
      exact ⟨hready.fits, fun _ => hready, hs.inTable⟩
  died _ := trivial
  umounted s hs := ⟨Or.inl (umounted_returns (hs.ready rfl)), fun _ _ _ => trivial⟩
  malformed hargs := absurd hformed hargs
  starved _ _ _ hserves hstarved := absurd hserves.2 hstarved

section Order

variable {rest : List CommandArgs} (h : Ordered mounted opened (args :: rest))
include h

theorem Ordered.mount (hword : args 0 = some (ascii "MOUNT")) : Ordered true opened rest := by
  rwa [Ordered, if_pos hword] at h

theorem Ordered.umount (hword : args 0 = some (ascii "UMOUNT")) : Ordered false opened rest := by
  have hother : args 0 ≠ some (ascii "MOUNT") := by
    rw [hword]
    decide
  rwa [Ordered, if_neg hother, if_pos hword] at h

theorem Ordered.other (hmount : args 0 ≠ some (ascii "MOUNT"))
    (humount : args 0 ≠ some (ascii "UMOUNT")) :
    (args 0 ∈ commandWords → mounted = true ∧ Formed args ∧
      (args 0 = some (ascii "SEEK") → opened = true)) ∧
      Ordered mounted (opened || args 0 == some (ascii "OPEN")) rest := by
  rwa [Ordered, if_neg hmount, if_neg humount] at h

theorem Ordered.command (hword : args 0 ∈ commandWords) :
    mounted = true ∧ Formed args ∧ (args 0 = some (ascii "SEEK") → opened = true) := by
  refine (h.other ?_ ?_).1 hword
  · rintro hmount
    rw [hmount] at hword
    revert hword
    decide
  · rintro humount
    rw [humount] at hword
    revert hword
    decide

theorem Ordered.opens (hword : args 0 = some (ascii "OPEN")) : Ordered mounted true rest := by
  have hrest := (h.other (by rw [hword]; decide) (by rw [hword]; decide)).2
  rwa [hword, beq_self_eq_true, Bool.or_true] at hrest

theorem Ordered.goes (hword : args 0 ∉ loopWords) : Ordered mounted opened rest := by
  have hnot {word : String} (hmem : some (ascii word) ∈ loopWords) :
      args 0 ≠ some (ascii word) := fun hargs => hword (hargs ▸ hmem)
  have hrest := (h.other (hnot (by decide)) (hnot (by decide))).2
  have hnotOpen : (args 0 == some (ascii "OPEN")) = false := by
    simpa using hnot (by decide : some (ascii "OPEN") ∈ loopWords)
  rwa [hnotOpen, Bool.or_false] at hrest

end Order

theorem scriptLoop_sound {commands : List CommandArgs} (h : At mounted opened fsFd s)
    (hordered : Ordered mounted opened commands)
    (hshort : ∀ args ∈ commands, ∀ name, args 1 = some name → name.length < 2 ^ 32) :
    Program.Meets Supplied ReturnsUndeleted (fun _ _ => True) s
      (scriptLoop diskname commands mounted fsFd) := by
  induction commands generalizing s mounted opened fsFd with
  | nil =>
      cases mounted with
      | true =>
          refine ⟨Or.inl (umounted_returns (h.ready rfl)), fun failed after _ => ?_⟩
          exact Program.meets_ite (fun _ => trivial) fun _ => trivial
      | false => trivial
  | cons args rest ih =>
      obtain ⟨hargs, hrest⟩ := List.forall_mem_cons.mp hshort
      refine meets_command h (fun hword => ?_) (fun hword => ?_) (fun hword => ?_)
        (fun hword fd after hserves hfd hafter => ?_) fun hword after hafter =>
          ih hafter (hordered.goes hword) hrest
      · refine meets_mount (fun _ => trivial) (Or.inl (returns_mount diskname)) fun after hserves =>
          ih ⟨served_fits h.fits hserves.1, fun _ => ?_, h.inTable⟩ (hordered.mount hword) hrest
        exact ⟨(served_mount hserves.1).2.1, served_fits h.fits hserves.1⟩
      · refine meets_umount (fun _ => trivial) (fun hon => Or.inl (umounted_returns (h.ready hon)))
          (fun _ ret after hserves => ?_) fun _ => ?_
        · exact ih ⟨served_fits h.fits hserves.1, nofun, h.inTable⟩ (hordered.umount hword) hrest
        · exact ih ⟨h.fits, nofun, h.inTable⟩ (hordered.umount hword) hrest
      · obtain ⟨rfl, hformed, hopened⟩ := hordered.command hword
        exact ordered_rule hformed (fun hseek => h.inTable (hopened hseek)) hargs
      · have hrange : 0 ≤ fd ∧ fd < N := ⟨not_lt.mp hfd, served_open_range hserves.1 hfd⟩
        exact ih ⟨hafter.fits, hafter.ready, fun _ => hrange⟩ (hordered.opens hword) hrest

end Soundness

/-! Scripts that `test_fs` is given. -/

def InOrder (commands : List (List Nat × CommandArgs)) : Prop :=
  (∀ command ∈ commands, ∀ i ∈ command.1, i < totalCommandParts) ∧
    Ordered false false (commands.map Prod.snd)

theorem testFs_script (unset : CommandArgs) (args : List (List UInt8)) :
    testFs unset (ascii "script" :: args) = threadFsScript unset args := by
  simp [testFs, commandNames, ascii, commands]

section Runs

variable {s t : State L N} {unset : CommandArgs} {diskname script stream : List UInt8}
  {more : List (List UInt8)} {trace : List DriverEvent} {rest : Driver}

theorem script_exec
    (hexec : DriverExec s (testFs unset (ascii "script" :: diskname :: script :: more))
      (⟨.fopen (some script), some stream⟩ :: trace) t rest) :
    DriverExec s (scriptLoop diskname ((scriptCommands unset stream).map Prod.snd) false (-1))
      trace t rest := by
  rw [testFs_script, threadFsScript] at hexec
  obtain ⟨opened, hserves, hexec⟩ := hexec.tail
  have hsame : opened = s := hserves
  rwa [hsame] at hexec

/-- A script that opens a file it has created does not get to its end: the library bars the file
from being opened, whatever the disk and whatever was done before. -/
theorem script_never_completes
    (hcreates : CreatesThenOpens ((scriptCommands unset stream).map Prod.snd))
    (hexec : DriverExec s (testFs unset (ascii "script" :: diskname :: script :: more))
      (⟨.fopen (some script), some stream⟩ :: trace) t rest) : rest ≠ returned := by
  have hmeets := (script_exec hexec).meets (scriptLoop_incomplete hcreates diskname false (-1) s)
  rintro rfl
  exact hmeets rfl

/-- A script in order, on a host that has the memory and the files, stops only where a file is
deleted: no other call of it fails to return. -/
theorem script_sound {host : Host} {k : DriverCall} {next : k.Answer → Driver}
    (horder : InOrder (scriptCommands unset stream)) (hhost : ∀ event ∈ trace, Allocates event)
    (hexec : DriverExec (State.initial host)
      (testFs unset (ascii "script" :: diskname :: script :: more))
      (⟨.fopen (some script), some stream⟩ :: trace) t (.call k next)) :
    Returns t k ∨ ∃ filename, k = .fsDelete filename := by
  have hstart : At false false (-1) (State.initial host : State L N) :=
    ⟨Nat.zero_le N, nofun, nofun⟩
  have hshort : ∀ args ∈ (scriptCommands unset stream).map Prod.snd, ∀ name,
      args 1 = some name → name.length < 2 ^ 32 := by
    intro args hmem name hname
    obtain ⟨command, hcommand, rfl⟩ := List.mem_map.mp hmem
    exact (script_names_short unset stream command hcommand name hname).trans (by decide)
  have hsupplied := (script_exec hexec).restrict
    fun event hmem _ _ hserves => (⟨hserves, hhost event hmem⟩ : Supplied _ event _)
  exact (hsupplied.meets (scriptLoop_sound hstart horder.2 hshort)).1

end Runs

/-! A script that creates a file and opens it. -/

theorem scriptCommands_cons {args : CommandArgs} {line rest : List UInt8} (hline : newline ∉ line)
    (hvisible : visible line = line) (hfits : line.length < lineBufferSize - 1)
    (hsome : fields tab line ≠ []) : scriptCommands args (line ++ newline :: rest) =
      tokenise line args :: scriptCommands (tokenise line args).2 rest := by
  rw [scriptCommands_line hline (Or.inr rfl) (by simp), hvisible, if_neg hsome]
  unfold unread
  rw [if_pos hfits, List.tail_cons]

theorem tokenise_cell {line : List UInt8} {args : CommandArgs} {i : Fin totalCommandParts}
    (hi : i ≤ max 1 (fields tab line).length) :
    (tokenise line args).2 i = (fields tab line)[i.val]? := by
  rw [tokenise_args, if_pos hi]

def mountLine : List UInt8 := ascii "MOUNT"
def createLine : List UInt8 := ascii "CREATE\tfile_fs"
def openLine : List UInt8 := ascii "OPEN\tfile_fs"

def mountArgs : CommandArgs := (tokenise mountLine noArgs).2
def createArgs : CommandArgs := (tokenise createLine mountArgs).2
def openArgs : CommandArgs := (tokenise openLine createArgs).2

def createOpenScript : List UInt8 :=
  mountLine ++ newline :: (createLine ++ newline :: (openLine ++ newline :: []))

theorem createOpenScript_commands : scriptCommands noArgs createOpenScript =
    [tokenise mountLine noArgs, tokenise createLine mountArgs, tokenise openLine createArgs] := by
  unfold createOpenScript
  rw [scriptCommands_cons (by decide) (by decide) (by decide) (by decide),
    scriptCommands_cons (by decide) (by decide) (by decide) (by decide),
    scriptCommands_cons (by decide) (by decide) (by decide) (by decide), scriptCommands,
    dif_pos rfl]
  rfl

theorem mountArgs_word : mountArgs 0 = some (ascii "MOUNT") :=
  (tokenise_cell (by decide)).trans (by decide)

theorem createArgs_word : createArgs 0 = some (ascii "CREATE") :=
  (tokenise_cell (by decide)).trans (by decide)

theorem createArgs_name : createArgs 1 = some (ascii "file_fs") :=
  (tokenise_cell (by decide)).trans (by decide)

theorem openArgs_word : openArgs 0 = some (ascii "OPEN") :=
  (tokenise_cell (by decide)).trans (by decide)

theorem openArgs_name : openArgs 1 = some (ascii "file_fs") :=
  (tokenise_cell (by decide)).trans (by decide)

theorem createOpenScript_creates :
    CreatesThenOpens ((scriptCommands noArgs createOpenScript).map Prod.snd) := by
  rw [createOpenScript_commands]
  exact ⟨[mountArgs], createArgs, [], openArgs, [], ascii "file_fs", rfl, createArgs_word,
    createArgs_name, openArgs_word, openArgs_name, by simp⟩

theorem formed_of_argument {args : CommandArgs} (hargument : args 1 ≠ none)
    (hwrite : args 0 ≠ some (ascii "WRITE")) (hread : args 0 ≠ some (ascii "READ")) :
    Formed args where
  first _ := hargument
  written hword := absurd hword hwrite
  source hword := absurd hword hread
  expected hword := absurd hword hread

theorem createOpenScript_inOrder : InOrder (scriptCommands noArgs createOpenScript) := by
  rw [createOpenScript_commands]
  constructor
  · simp only [List.forall_mem_cons, List.not_mem_nil, false_imp_iff, implies_true, and_true]
    refine ⟨(tokenise_inside_iff _ _).mpr ?_, (tokenise_inside_iff _ _).mpr ?_,
      (tokenise_inside_iff _ _).mpr ?_⟩ <;> decide
  · have hcreate : Formed createArgs := formed_of_argument (by simp [createArgs_name])
      (by simp [createArgs_word, ascii]) (by simp [createArgs_word, ascii])
    have hopen : Formed openArgs := formed_of_argument (by simp [openArgs_name])
      (by simp [openArgs_word, ascii]) (by simp [openArgs_word, ascii])
    have hordered : Ordered false false [mountArgs, createArgs, openArgs] := by
      simp [Ordered, mountArgs_word, createArgs_word, openArgs_word, hcreate, hopen, ascii]
    exact hordered

def scriptLine : List (List UInt8) := [ascii "script", diskD.bytes, ascii "script"]

def fileFs : CStr := ⟨ascii "file_fs", by decide⟩

def scriptEvents : List DriverEvent :=
  [⟨.fopen (some (ascii "script")), some createOpenScript⟩, ⟨.fsMount diskD.bytes, (0 : Int)⟩,
    ⟨.fsCreate (some fileFs.bytes), (0 : Int)⟩]

theorem createOpenScript_loop :
    scriptLoop diskD.bytes ((scriptCommands noArgs createOpenScript).map Prod.snd) false (-1) =
      mountCommand diskD.bytes (createCommand createArgs
        (openCommand openArgs (scriptLoop diskD.bytes [] true))) := by
  rw [createOpenScript_commands]
  change scriptLoop diskD.bytes [mountArgs, createArgs, openArgs] false (-1) = _
  simp [scriptLoop, mountArgs_word, createArgs_word, openArgs_word, ascii]

theorem script_reaches : ∃ s : State .packed 32, InSession s ∧
    Serves s ⟨.fsOpen (some fileFs.bytes), (-1 : Int)⟩ s ∧
    DriverExec freshStart (testFs noArgs scriptLine) scriptEvents s
      (openCommand openArgs (scriptLoop diskD.bytes [] true)) := by
  obtain ⟨s, hmount⟩ := freshMount_returns
  obtain ⟨created, hsession, hcreate, hopen⟩ := served_created hmount fileFs (by decide) (by decide)
  have hopened : Serves freshStart ⟨.fopen (some (ascii "script")), some createOpenScript⟩
    freshStart := rfl
  have hexec : DriverExec freshStart (scriptLoop diskD.bytes
      ((scriptCommands noArgs createOpenScript).map Prod.snd) false (-1))
      [⟨.fsMount diskD.bytes, (0 : Int)⟩, ⟨.fsCreate (some fileFs.bytes), (0 : Int)⟩] created
      (openCommand openArgs (scriptLoop diskD.bytes [] true)) := by
    rw [createOpenScript_loop, createCommand, createArgs_name]
    exact .call (served_freshMount hmount) (.call hcreate .here)
  refine ⟨created, hsession, hopen, ?_⟩
  unfold scriptLine
  rw [testFs_script, threadFsScript]
  exact .call hopened hexec

theorem script_never_completes_created : ∃ t : State .packed 32,
    DriverExec freshStart (testFs noArgs scriptLine)
      (scriptEvents ++ [⟨.fsOpen (some fileFs.bytes), (-1 : Int)⟩, ⟨.fsUmount, (0 : Int)⟩]) t die ∧
    die ≠ returned := by
  obtain ⟨s, hsession, hopen, hexec⟩ := script_reaches
  obtain ⟨t, humount⟩ := hsession.served_umount
  rw [openCommand, openArgs_name] at hexec
  have hdies := hexec.append (.call hopen (.call humount .here))
  exact ⟨t, hdies, script_never_completes createOpenScript_creates hdies⟩

theorem script_sound_created : ∃ s : State .packed 32,
    Returns s (.fsOpen (openArgs 1)) ∨
      ∃ filename, DriverCall.fsOpen (openArgs 1) = .fsDelete filename := by
  obtain ⟨s, _, _, hexec⟩ := script_reaches
  exact ⟨s, script_sound createOpenScript_inOrder (by simp [Allocates]) hexec⟩

end LibFs
