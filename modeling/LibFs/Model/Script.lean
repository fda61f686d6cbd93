import LibFs.Foundation.Fields
import LibFs.Model.Disk

/-! The script runner of `test_fs.c` up to the commands it executes: reading lines with
`fgets`, cutting them up with `strtok`, and the comparison of the `READ` command. -/
namespace LibFs

open LibFs.Foundation

def newline : UInt8 := 10
def tab : UInt8 := 9
def lineBufferSize : Nat := 1024
def totalCommandParts : Nat := 4

instance : NeZero totalCommandParts := ⟨by decide⟩

/-- `char *command_args[total_command_parts]`, a pointer given by the field it was set to.
A cell that is not assigned again keeps what an earlier line left in it. -/
abbrev CommandArgs := Fin totalCommandParts → Option (List UInt8)

/-- What `fgets` stores when there is room for `left` bytes, and the stream behind it. -/
def fgets : Nat → List UInt8 → List UInt8 × List UInt8
  | 0, stream => ([], stream)
  | _ + 1, [] => ([], [])
  | left + 1, byte :: stream =>
      if byte == newline then ([byte], stream)
      else
        let rest := fgets left stream
        (byte :: rest.1, rest.2)

/-- The buffer as a string, after the newline found by `strchr` has been replaced by a
NUL. -/
def commandLine (buffer : List UInt8) : List UInt8 :=
  (buffer.takeWhile (· != 0)).takeWhile (· != newline)

/-- `strtok(NULL, "\t")` with what the last call left to scan. -/
def strtok (saved : List UInt8) : Option (List UInt8) × List UInt8 := nextField tab saved

/-- An assignment to `command_args[i]`. Outside the array it hits other memory, which
is not modelled; the loop records that it was made. -/
def CommandArgs.write (args : CommandArgs) (i : Nat) (value : Option (List UInt8)) :
    CommandArgs :=
  if h : i < totalCommandParts then Function.update args ⟨i, h⟩ value else args

/-- The tokenising loop from `command_index` on: the indices it assigns, and the cells. -/
def tokenLoop (commandIndex : Nat) (saved : List UInt8) (args : CommandArgs) :
    List Nat × CommandArgs :=
  let token := strtok saved
  let assigned := args.write commandIndex token.1
  -- the bound is tested behind the assignment
  if commandIndex < totalCommandParts ∧ token.1.isSome then
    let rest := tokenLoop (commandIndex + 1) token.2 assigned
    (commandIndex :: rest.1, rest.2)
  else ([commandIndex], assigned)
termination_by totalCommandParts - commandIndex

def tokenise (line : List UInt8) (args : CommandArgs) : List Nat × CommandArgs :=
  let token := strtok line
  let rest := tokenLoop 1 token.2 (args.write 0 token.1)
  (0 :: rest.1, rest.2)

theorem fgets_length_lt {left : Nat} {stream : List UInt8} (hne : stream ≠ []) :
    (fgets (left + 1) stream).2.length < stream.length := by
  induction left generalizing stream with
  | zero =>
      cases stream with
      | nil => contradiction
      | cons byte stream =>
          unfold fgets
          split
          · simp
          · simp [fgets]
  | succ left ih =>
      cases stream with
      | nil => contradiction
      | cons byte stream =>
          unfold fgets
          split
          · simp
          · cases stream with
            | nil => simp [fgets]
            | cons next stream => exact (ih (List.cons_ne_nil _ _)).trans (Nat.lt_succ_self _)

/-- The commands a script has executed as long as none of them stops the program, each with
the indices assigned for it. The loop ends when `fgets` returns NULL or a line holds no
command. -/
def scriptCommands (args : CommandArgs) (stream : List UInt8) : List (List Nat × CommandArgs) :=
  if h : stream = [] then []
  else
    let read := fgets (lineBufferSize - 1) stream
    let command := tokenise (commandLine read.1) args
    if command.2 0 = none then []
    else command :: scriptCommands command.2 read.2
termination_by stream.length
decreasing_by exact fgets_length_lt h

/-! The `READ` command. -/

/-- What a `READ` expects: the `DATA` argument, which lies in the line buffer, or the contents
of a `FILE`, whose size is an `off_t`. -/
inductive Expected where
  | data (argument : CStr) (inLine : argument.strlen < lineBufferSize)
  | file (contents : List UInt8) (sizeFits : contents.length < 2 ^ 63)

def Expected.contents : Expected → List UInt8
  | .data argument _ => argument.bytes
  | .file contents _ => contents

structure ReadData where
  byte : Bytes
  dataSize : Int

/-- `none` when the assertion on what `fread` returned fails; the buffer of a file is one
byte longer than the file and was filled with zeros. -/
def Expected.load : Expected → Option ReadData
  | .data argument _ => some ⟨fun i => argument.bytes.getD i 0, toInt argument.strlen⟩
  | .file contents _ =>
      let dataSize := toInt contents.length
      let n := min (toSizeT dataSize) contents.length
      if n = toSizeT dataSize then some ⟨fun i => (contents.take n).getD i 0, dataSize⟩
      else none

inductive ReadReport where
  | aborted
  | died
  | compared (count : Nat) (correct : Bool)
deriving DecidableEq

/-- `read_buf` behind `fs_read`; what lies behind its `len + 1` bytes is arbitrary. -/
def readBuf (readReqLength : Int) (read : List UInt8) (beyond : Bytes) : Bytes := fun i =>
  if i ≤ readReqLength.toNat then read.getD i 0 else beyond i

/-- The `READ` command; `answer` is what `fs_read` puts into the buffer, `none` when it
fails. -/
def scriptRead (readReqLength : Int) (expected : Expected) (answer : Option (List UInt8))
    (beyond : Bytes) : ReadReport :=
  match expected.load with
  | none => .aborted
  | some data =>
      if readReqLength < 0 then .died
      else
        match answer with
        | none => .died
        | some read =>
            let count := toSizeT (data.dataSize + 1)
            .compared count
              (decide (∀ i < count, data.byte i = readBuf readReqLength read beyond i))

end LibFs
