import LibFs.Model.Script

/-! The commands of a script against its lines. The tokenising loop tests its bound behind
the assignment, so a line of four fields assigns a fifth cell; it stops at the first NULL, so
a shorter line leaves the cells behind it as they were; and a line that does not fit the
buffer is read in pieces. -/
namespace LibFs

open LibFs.Foundation

def Blank (line : List UInt8) : Prop := fields tab line = []

instance (line : List UInt8) : Decidable (Blank line) := inferInstanceAs (Decidable (_ = _))

/-- The lines of a script up to the first blank one. -/
def scriptLines (script : List UInt8) : List (List UInt8) :=
  (script.splitOn newline).takeWhile fun line => decide ¬ Blank line

def lineArgs (line : List UInt8) : CommandArgs := fun i => (fields tab line)[i.val]?

/-- One command for each line, tokenised inside the array into the fields of its line. -/
def ParsesExactly (initial : CommandArgs) (script : List UInt8) : Prop :=
  (∀ command ∈ scriptCommands initial script, ∀ i ∈ command.1, i < totalCommandParts) ∧
    (scriptCommands initial script).map Prod.snd = (scriptLines script).map lineArgs

/-- The lines that are parsed right when the cells hold `args` before them: no NULs, all but
the last line shorter than the buffer and what of the last is read later only tabs, at most
three fields, and no cell behind the fields that was not NULL already. -/
def Parsable : CommandArgs → List (List UInt8) → Prop
  | _, [] => True
  | args, line :: rest =>
      0 ∉ line ∧ (rest ≠ [] → line.length + 1 < lineBufferSize) ∧
        (∀ byte ∈ line.drop (lineBufferSize - 1), byte = tab) ∧
        (fields tab line).length < totalCommandParts ∧
        (∀ i : Fin totalCommandParts, (fields tab line).length < i → args i = none) ∧
        Parsable (lineArgs line) rest

/-! Reading lines. -/

def LineEnd (rest : List UInt8) : Prop := rest = [] ∨ rest.head? = some newline

theorem fgets_line {left : Nat} {line rest : List UInt8} (hline : newline ∉ line)
    (hrest : LineEnd rest) : fgets left (line ++ rest) =
      if line.length < left then (line ++ rest.take 1, rest.tail)
      else (line.take left, line.drop left ++ rest) := by
  induction line generalizing left with
  | nil =>
      cases left with
      | zero => simp [fgets]
      | succ left =>
          cases rest with
          | nil => simp [fgets]
          | cons byte rest =>
              have hbyte : byte = newline := by simpa [LineEnd] using hrest
              simp [fgets, hbyte]
  | cons byte line ih =>
      obtain ⟨hbyte, hline⟩ : ¬ newline = byte ∧ newline ∉ line := by simpa using hline
      cases left with
      | zero => simp [fgets]
      | succ left =>
          have hne : (byte == newline) = false := by simpa using fun h => hbyte h.symm
          simp only [List.cons_append, fgets, hne, Bool.false_eq_true, if_false, ih hline,
            List.length_cons, Nat.succ_lt_succ_iff]
          split <;> simp

@[simp] theorem scriptLines_nil : scriptLines [] = [] := by
  simp [scriptLines, Blank]

theorem scriptLines_line {line rest : List UInt8} (hline : newline ∉ line)
    (hrest : LineEnd rest) : scriptLines (line ++ rest) =
      if Blank line then [] else line :: scriptLines rest.tail := by
  cases rest with
  | nil =>
      rw [List.append_nil, List.tail_nil, scriptLines_nil]
      unfold scriptLines
      rw [List.splitOn_eq_singleton hline]
      by_cases hblank : Blank line <;> simp [hblank]
  | cons byte rest =>
      have hbyte : byte = newline := by simpa [LineEnd] using hrest
      unfold scriptLines
      rw [hbyte, List.splitOn_append_cons_self_of_not_mem hline]
      by_cases hblank : Blank line <;> simp [hblank]

theorem exists_line (stream : List UInt8) :
    ∃ line rest, stream = line ++ rest ∧ newline ∉ line ∧ LineEnd rest := by
  refine ⟨stream.takeWhile (· != newline), stream.dropWhile (· != newline),
    List.takeWhile_append_dropWhile.symm, fun hmem => ?_, ?_⟩
  · simpa using List.mem_takeWhile_imp hmem
  · have hhead := List.head?_dropWhile_not (· != newline) stream
    unfold LineEnd
    cases hrest : stream.dropWhile (· != newline) with
    | nil => exact Or.inl rfl
    | cons byte rest => simpa [hrest] using hhead

/-- The part of a line that the tokeniser gets to see. -/
def visible (line : List UInt8) : List UInt8 :=
  (line.take (lineBufferSize - 1)).takeWhile (· != 0)

theorem commandLine_append {line rest : List UInt8} (hline : newline ∉ line)
    (hrest : LineEnd rest) : commandLine (line ++ rest) = line.takeWhile (· != 0) := by
  unfold commandLine
  induction line with
  | nil =>
      cases rest with
      | nil => rfl
      | cons byte rest =>
          have hbyte : byte = newline := by simpa [LineEnd] using hrest
          simp [hbyte, newline]
  | cons byte line ih =>
      obtain ⟨hbyte, hline⟩ : ¬ newline = byte ∧ newline ∉ line := by simpa using hline
      have hne : byte ≠ newline := fun h => hbyte h.symm
      by_cases hzero : byte = 0
      · simp [hzero]
      · simp [hzero, hne, ih hline]

theorem commandLine_fgets {line rest : List UInt8} (hline : newline ∉ line)
    (hrest : LineEnd rest) :
    commandLine (fgets (lineBufferSize - 1) (line ++ rest)).1 = visible line := by
  rw [fgets_line hline hrest]
  unfold visible
  split
  · rename_i hfits
    rw [commandLine_append hline (by cases rest <;> simp_all [LineEnd]),
      List.take_of_length_le hfits.le]
  · have htake : newline ∉ line.take (lineBufferSize - 1) := fun h => hline (List.mem_of_mem_take h)
    have hline := commandLine_append htake (Or.inl rfl)
    rwa [List.append_nil] at hline

theorem visible_fields_iff (line : List UInt8) : fields tab (visible line) = fields tab line ↔
    0 ∉ line ∧ ∀ byte ∈ line.drop (lineBufferSize - 1), byte = tab := by
  have hsplit : line = visible line ++
      ((line.take (lineBufferSize - 1)).dropWhile (· != 0) ++ line.drop (lineBufferSize - 1)) := by
    unfold visible
    rw [← List.append_assoc, List.takeWhile_append_dropWhile, List.take_append_drop]
  conv_lhs => rhs; rw [hsplit]
  rw [eq_comm, fields_append_eq_iff]
  constructor
  · intro htabs
    -- what `strchr` would find behind a NUL starts with it
    have hnul : (line.take (lineBufferSize - 1)).dropWhile (· != 0) = [] := by
      have hhead := List.head?_dropWhile_not (· != 0) (line.take (lineBufferSize - 1))
      cases hrest : (line.take (lineBufferSize - 1)).dropWhile (· != 0) with
      | nil => rfl
      | cons byte rest =>
          have hbyte : byte = 0 := by simpa [hrest] using hhead
          have htab := htabs byte (by simp [hrest])
          rw [hbyte] at htab
          exact absurd htab (by decide)
    have hdrop : ∀ byte ∈ line.drop (lineBufferSize - 1), byte = tab :=
      fun byte hbyte => htabs byte (List.mem_append_right _ hbyte)
    refine ⟨fun hzero => ?_, hdrop⟩
    rw [← List.take_append_drop (lineBufferSize - 1) line, List.mem_append] at hzero
    rcases hzero with hzero | hzero
    · have hfalse := List.dropWhile_eq_nil_iff.mp hnul 0 hzero
      exact absurd hfalse (by decide)
    · exact absurd (hdrop 0 hzero) (by decide)
  · rintro ⟨hnul, hdrop⟩ byte hbyte
    rcases List.mem_append.mp hbyte with hbyte | hbyte
    · have hnone : (line.take (lineBufferSize - 1)).dropWhile (· != 0) = [] := by
        rw [List.dropWhile_eq_nil_iff]
        intro byte hmem
        simp only [bne_iff_ne, ne_eq]
        rintro rfl
        exact hnul (List.mem_of_mem_take hmem)
      rw [hnone] at hbyte
      contradiction
    · exact hdrop byte hbyte

/-! Tokenising a line. -/

theorem CommandArgs.write_apply (args : CommandArgs) (k : Nat) (value : Option (List UInt8))
    (i : Fin totalCommandParts) : args.write k value i = if i.val = k then value else args i := by
  unfold CommandArgs.write
  split
  · rename_i hk
    by_cases hi : i.val = k
    · have heq : i = ⟨k, hk⟩ := Fin.ext hi
      rw [if_pos hi, heq, Function.update_self]
    · have hne : i ≠ ⟨k, hk⟩ := fun heq => hi (congrArg Fin.val heq)
      rw [if_neg hi, Function.update_of_ne hne]
  · rename_i hk
    have hi := i.isLt
    rw [if_neg (by omega)]

theorem strtok_token (saved : List UInt8) : (strtok saved).1 = (fields tab saved).head? :=
  (nextField_fields saved).1

theorem strtok_saved (saved : List UInt8) :
    fields tab (strtok saved).2 = (fields tab saved).tail :=
  (nextField_fields saved).2

theorem fields_of_token {saved : List UInt8} (h : (strtok saved).1.isSome) :
    ∃ head tail, fields tab saved = head :: tail := by
  rw [strtok_token, List.isSome_head?] at h
  exact List.exists_cons_of_ne_nil (by simpa using h)

theorem fields_of_no_token {saved : List UInt8} (h : ¬ (strtok saved).1.isSome) :
    fields tab saved = [] := by
  rwa [strtok_token, Option.not_isSome_iff_eq_none, List.head?_eq_none_iff] at h

/-- The loop takes the fields off one by one, and its last assignment is NULL unless the
array ends before. -/
theorem tokenLoop_args (commandIndex : Nat) (saved : List UInt8) (args : CommandArgs)
    (i : Fin totalCommandParts) : (tokenLoop commandIndex saved args).2 i =
      if commandIndex ≤ i ∧ i ≤ commandIndex + (fields tab saved).length then
        (fields tab saved)[i.val - commandIndex]?
      else args i := by
  induction commandIndex, saved, args using tokenLoop.induct with
  | case1 commandIndex saved args token assigned hgoes ih =>
      obtain ⟨head, tail, hfields⟩ := fields_of_token hgoes.2
      have htoken : token.1 = some head := (strtok_token saved).trans (by rw [hfields]; rfl)
      have hsaved : fields tab token.2 = tail := (strtok_saved saved).trans (by rw [hfields]; rfl)
      have hassigned : assigned i = if i.val = commandIndex then token.1 else args i :=
        args.write_apply commandIndex token.1 i
      rw [tokenLoop, if_pos hgoes, hfields]
      change (tokenLoop (commandIndex + 1) token.2 assigned).2 i = _
      rw [ih, hsaved, hassigned, htoken, List.length_cons]
      rcases Nat.lt_trichotomy i.val commandIndex with hlt | heq | hgt
      · rw [if_neg (by omega), if_neg (by omega), if_neg (by omega)]
      · rw [if_neg (by omega), if_pos heq, if_pos (by omega), heq]
        simp
      · have hindex : i.val - commandIndex = i.val - (commandIndex + 1) + 1 := by omega
        rw [hindex, List.getElem?_cons_succ]
        by_cases hin : i.val ≤ commandIndex + 1 + tail.length
        · rw [if_pos (by omega), if_pos (by omega)]
        · rw [if_neg (by omega), if_neg (by omega), if_neg (by omega)]
  | case2 commandIndex saved args token hstops =>
      have hi := i.isLt
      rw [tokenLoop, if_neg hstops]
      simp only
      rw [CommandArgs.write_apply]
      rcases Nat.lt_or_ge commandIndex totalCommandParts with hin | hout
      · have hnil : fields tab saved = [] := fields_of_no_token fun hsome => hstops ⟨hin, hsome⟩
        rw [strtok_token, hnil]
        by_cases heq : i.val = commandIndex
        · rw [if_pos heq, if_pos ⟨heq.ge, heq.le⟩]
          rfl
        · rw [if_neg heq, if_neg fun hrange => heq (hrange.2.antisymm hrange.1)]
      · rw [if_neg (by omega), if_neg (by omega)]

theorem mem_tokenLoop_iff (commandIndex : Nat) (saved : List UInt8) (args : CommandArgs)
    {j : Nat} (hindex : commandIndex ≤ totalCommandParts) :
    j ∈ (tokenLoop commandIndex saved args).1 ↔
      commandIndex ≤ j ∧ j ≤ commandIndex + (fields tab saved).length ∧
        j ≤ totalCommandParts := by
  induction commandIndex, saved, args using tokenLoop.induct with
  | case1 commandIndex saved args token assigned hgoes ih =>
      obtain ⟨head, tail, hfields⟩ := fields_of_token hgoes.2
      have hsaved : fields tab token.2 = tail := (strtok_saved saved).trans (by rw [hfields]; rfl)
      rw [tokenLoop, if_pos hgoes, List.mem_cons, ih (by omega), hsaved, hfields,
        List.length_cons]
      omega
  | case2 commandIndex saved args token hstops =>
      rw [tokenLoop, if_neg hstops, List.mem_singleton]
      rcases Nat.lt_or_ge commandIndex totalCommandParts with hin | hout
      · have hnil : fields tab saved = [] := fields_of_no_token fun hsome => hstops ⟨hin, hsome⟩
        rw [hnil, List.length_nil]
        omega
      · omega

theorem tokenise_args (line : List UInt8) (args : CommandArgs) (i : Fin totalCommandParts) :
    (tokenise line args).2 i =
      if i ≤ max 1 (fields tab line).length then (fields tab line)[i.val]? else args i := by
  unfold tokenise
  simp only
  rw [tokenLoop_args, CommandArgs.write_apply, strtok_token, strtok_saved, List.length_tail]
  rcases Nat.eq_zero_or_pos i.val with hzero | hpos
  · rw [if_neg (by omega), if_pos hzero, if_pos (by omega), hzero, List.head?_eq_getElem?]
  · have hindex : i.val - 1 + 1 = i.val := by omega
    rw [List.getElem?_tail, hindex]
    by_cases hin : i.val ≤ max 1 (fields tab line).length
    · rw [if_pos (by omega), if_pos hin]
    · rw [if_neg (by omega), if_neg (by omega), if_neg hin]

theorem tokenise_inside_iff (line : List UInt8) (args : CommandArgs) :
    (∀ i ∈ (tokenise line args).1, i < totalCommandParts) ↔
      (fields tab line).length < totalCommandParts := by
  unfold tokenise
  simp only [List.mem_cons, forall_eq_or_imp]
  constructor
  · rintro ⟨_, hall⟩
    by_contra hlong
    have hlast : totalCommandParts ∈
        (tokenLoop 1 (strtok line).2 (args.write 0 (strtok line).1)).1 := by
      rw [mem_tokenLoop_iff _ _ _ (by decide), strtok_saved, List.length_tail]
      unfold totalCommandParts at hlong ⊢
      omega
    exact absurd (hall _ hlast) (lt_irrefl _)
  · intro hshort
    refine ⟨by decide, fun i hi => ?_⟩
    rw [mem_tokenLoop_iff _ _ _ (by decide), strtok_saved, List.length_tail] at hi
    unfold totalCommandParts at hshort ⊢
    omega

theorem tokenise_exact_iff {line : List UInt8} (args : CommandArgs) (hline : ¬ Blank line) :
    (fields tab (visible line)).length < totalCommandParts ∧
        (tokenise (visible line) args).2 = lineArgs line ↔
      (0 ∉ line ∧ ∀ byte ∈ line.drop (lineBufferSize - 1), byte = tab) ∧
        (fields tab line).length < totalCommandParts ∧
        ∀ i : Fin totalCommandParts, (fields tab line).length < i → args i = none := by
  rw [← visible_fields_iff]
  constructor
  · rintro ⟨hshort, hargs⟩
    have hcell (i : Nat) (hi : i < totalCommandParts)
        (hfirst : i ≤ max 1 (fields tab (visible line)).length) :
        (fields tab (visible line))[i]? = (fields tab line)[i]? := by
      have hequal := congrFun hargs ⟨i, hi⟩
      rwa [tokenise_args, if_pos hfirst] at hequal
    have hlength : (fields tab line).length ≤ (fields tab (visible line)).length := by
      have hlast := hcell _ hshort (le_max_right _ _)
      rw [List.getElem?_eq_none le_rfl, eq_comm, List.getElem?_eq_none_iff] at hlast
      exact hlast
    have hfields : fields tab (visible line) = fields tab line := by
      apply List.ext_getElem?
      intro i
      rcases Nat.lt_or_ge (fields tab (visible line)).length i with hlt | hle
      · rw [List.getElem?_eq_none hlt.le, List.getElem?_eq_none (hlength.trans hlt.le)]
      · exact hcell i (by omega) (hle.trans (le_max_right _ _))
    refine ⟨hfields, hfields ▸ hshort, fun i hi => ?_⟩
    have hpos : 0 < (fields tab line).length := List.length_pos_iff.mpr hline
    have hequal := congrFun hargs i
    rw [tokenise_args, if_neg (by rw [hfields]; omega)] at hequal
    rw [hequal]
    exact List.getElem?_eq_none hi.le
  · rintro ⟨hfields, hshort, hcells⟩
    refine ⟨hfields ▸ hshort, funext fun i => ?_⟩
    rw [tokenise_args, hfields]
    split
    · rfl
    · rename_i hbehind
      have hlt : (fields tab line).length < i := by omega
      rw [hcells i hlt]
      exact (List.getElem?_eq_none hlt.le).symm

/-! Running a script. -/

section Script

variable {args : CommandArgs} {line rest : List UInt8}

/-- What is left of the stream once the first line or its first piece has been read. -/
def unread (line rest : List UInt8) : List UInt8 :=
  if line.length < lineBufferSize - 1 then rest.tail
  else line.drop (lineBufferSize - 1) ++ rest

theorem scriptCommands_line (hline : newline ∉ line) (hrest : LineEnd rest)
    (hne : line ++ rest ≠ []) : scriptCommands args (line ++ rest) =
      if fields tab (visible line) = [] then []
      else tokenise (visible line) args ::
        scriptCommands (tokenise (visible line) args).2 (unread line rest) := by
  have hunread : (fgets (lineBufferSize - 1) (line ++ rest)).2 = unread line rest := by
    rw [fgets_line hline hrest]
    unfold unread
    split <;> rfl
  have hfirst : (tokenise (visible line) args).2 0 = (fields tab (visible line))[0]? := by
    rw [tokenise_args]
    exact if_pos (Nat.zero_le _)
  rw [scriptCommands, dif_neg hne]
  simp only
  rw [commandLine_fgets hline hrest, hunread, hfirst]
  simp

theorem visible_blank (h : Blank line) : fields tab (visible line) = [] := by
  unfold Blank at h
  rw [fields_eq_nil_iff] at h ⊢
  intro byte hbyte
  exact h byte (List.mem_of_mem_take ((List.takeWhile_sublist _).subset hbyte))

theorem scriptCommands_blank (hline : newline ∉ line) (hrest : LineEnd rest)
    (hblank : Blank line) : scriptCommands args (line ++ rest) = [] := by
  by_cases hne : line ++ rest = []
  · rw [scriptCommands, dif_pos hne]
  · rw [scriptCommands_line hline hrest hne, if_pos (visible_blank hblank)]

end Script

theorem parsesExactly_unread_iff {line rest : List UInt8} (hline : newline ∉ line)
    (hrest : LineEnd rest) (htabs : ∀ byte ∈ line.drop (lineBufferSize - 1), byte = tab)
    (hnext : ParsesExactly (lineArgs line) rest.tail ↔
      Parsable (lineArgs line) (scriptLines rest.tail)) :
    (∀ command ∈ scriptCommands (lineArgs line) (unread line rest),
          ∀ i ∈ command.1, i < totalCommandParts) ∧
        (scriptCommands (lineArgs line) (unread line rest)).map Prod.snd =
          (scriptLines rest.tail).map lineArgs ↔
      (scriptLines rest.tail ≠ [] → line.length + 1 < lineBufferSize) ∧
        Parsable (lineArgs line) (scriptLines rest.tail) := by
  unfold unread
  by_cases hfits : line.length < lineBufferSize - 1
  · rw [if_pos hfits]
    have hshort : line.length + 1 < lineBufferSize := by omega
    simp only [hshort, implies_true, true_and]
    exact hnext
  · have hlong : ¬ line.length + 1 < lineBufferSize := by omega
    have hdrop : newline ∉ line.drop (lineBufferSize - 1) :=
      fun hmem => hline (List.mem_of_mem_drop hmem)
    -- the tabs that did not fit are read as a line of their own, which ends the script
    rw [if_neg hfits, scriptCommands_blank hdrop hrest (fields_eq_nil_iff.mpr htabs)]
    cases scriptLines rest.tail with
    | nil => simp [Parsable]
    | cons next lines => simp [hlong]

/-- A script is parsed one command a line, each inside the array and into the fields of its
line, if and only if all its lines are parsable one after the other. -/
theorem script_parses_iff (args : CommandArgs) (script : List UInt8) :
    ParsesExactly args script ↔ Parsable args (scriptLines script) := by
  induction hlength : script.length using Nat.strong_induction_on generalizing args script with
  | _ length ih =>
      obtain ⟨line, rest, rfl, hline, hrest⟩ := exists_line script
      unfold ParsesExactly
      rw [scriptLines_line hline hrest]
      by_cases hblank : Blank line
      · rw [scriptCommands_blank hline hrest hblank, if_pos hblank]
        simp [Parsable]
      have hne : line ++ rest ≠ [] := by
        intro hnil
        rw [(List.append_eq_nil_iff.mp hnil).1] at hblank
        exact hblank fields_nil
      rw [scriptCommands_line hline hrest hne, if_neg hblank]
      by_cases hvisible : fields tab (visible line) = []
      · rw [if_pos hvisible]
        refine iff_of_false (by simp) ?_
        rintro ⟨hnul, _, htabs, _⟩
        exact hblank (((visible_fields_iff line).mpr ⟨hnul, htabs⟩).symm.trans hvisible)
      rw [if_neg hvisible, List.forall_mem_cons, List.map_cons, List.map_cons, List.cons.injEq,
        and_and_and_comm, tokenise_inside_iff, tokenise_exact_iff args hblank]
      have htail : rest.tail.length < length := by
        have hpos := List.length_pos_iff.mpr hne
        rw [List.length_append] at hpos hlength
        rw [List.length_tail]
        omega
      have hnext := ih _ htail (lineArgs line) rest.tail rfl
      constructor
      · rintro ⟨⟨⟨hnul, htabs⟩, hshort, hcells⟩, hcommands⟩
        have hargs := ((tokenise_exact_iff args hblank).mpr ⟨⟨hnul, htabs⟩, hshort, hcells⟩).2
        rw [hargs, parsesExactly_unread_iff hline hrest htabs hnext] at hcommands
        exact ⟨hnul, hcommands.1, htabs, hshort, hcells, hcommands.2⟩
      · rintro ⟨hnul, hfits, htabs, hshort, hcells, hlines⟩
        have hargs := ((tokenise_exact_iff args hblank).mpr ⟨⟨hnul, htabs⟩, hshort, hcells⟩).2
        refine ⟨⟨⟨hnul, htabs⟩, hshort, hcells⟩, ?_⟩
        rw [hargs, parsesExactly_unread_iff hline hrest htabs hnext]
        exact ⟨hfits, hlines⟩

/-- The command `READ 5 DATA x`, with tabs. -/
def readScript : List UInt8 := [82, 69, 65, 68, 9, 53, 9, 68, 65, 84, 65, 9, 120]

/-- It has four fields, so a fifth cell is assigned. -/
theorem script_parses_refuted :
    ¬ ∀ (initial : CommandArgs) (script : List UInt8), ParsesExactly initial script := by
  intro hparses
  have hinside := (hparses (fun _ => none) (readScript ++ [])).1
  have hfields : (fields tab (visible readScript)).length = 4 := by decide
  have hsome : fields tab (visible readScript) ≠ [] := by
    intro hnil
    rw [hnil] at hfields
    contradiction
  rw [scriptCommands_line (by decide) (Or.inl rfl) (by decide), if_neg hsome] at hinside
  have hshort := (tokenise_inside_iff _ _).mp (hinside _ List.mem_cons_self)
  rw [hfields] at hshort
  exact absurd hshort (by decide)

end LibFs
