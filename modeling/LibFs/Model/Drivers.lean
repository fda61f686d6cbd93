import LibFs.Foundation.Program
import LibFs.Model.Script

/-! The command-line drivers of `test_fs.c` as programs that call the library and the host.
What is left out are calls whose results nothing looks at and that change nothing for the
library: messages, `munmap`, `free`, `close` and `fclose`. -/
namespace LibFs

open LibFs.Foundation

def ascii (text : String) : List UInt8 := text.toList.map fun c => UInt8.ofNat c.toNat

/-- The calls of the drivers; a `NULL` argument is `none`. -/
inductive DriverCall where
  | fsMount (diskname : List UInt8)
  | fsUmount
  | fsCreate (filename : Option (List UInt8))
  | fsDelete (filename : Option (List UInt8))
  | fsOpen (filename : Option (List UInt8))
  | fsClose (fd : Int)
  | fsStat (fd : Int)
  | fsLseek (fd offset : Int)
  | fsWrite (fd count : Int)
  | fsRead (fd count : Int)
  | fsLs
  | fsInfo
  | openFile (path : Option (List UInt8))
  | fstat (fd : Int)
  | mmap (length fd : Int)
  | malloc (size : Int)
  | calloc (count : Int)
  | fopen (path : Option (List UInt8))
  | fread (count : Int)
  /-- Not a call: a `NULL` pointer is read through, or handed to a function that does so. -/
  | useNull

structure FileStatus where
  fails : Bool
  isRegular : Bool
  size : Nat

/-- What a call answers: an `int` unless the call is one of the host that returns something
else. A pointer to memory is known by whether it is not `NULL`, a stream by its contents. -/
abbrev DriverCall.Answer : DriverCall → Type
  | .fstat _ => FileStatus
  | .mmap _ _ => Bool
  | .malloc _ => Bool
  | .calloc _ => Bool
  | .fopen _ => Option (List UInt8)
  | .fread _ => Nat
  | .useNull => Unit
  | _ => Int

/-- A driver returns, ends the process (by `die` or a failed assertion), or has used a `NULL`
pointer, which is undefined; nothing it might do then is followed. -/
inductive Ending where
  | returned
  | died
  | crashed
deriving DecidableEq

abbrev Driver := Program DriverCall DriverCall.Answer Ending
abbrev DriverEvent := Answered DriverCall DriverCall.Answer

namespace Driver

def returned : Driver := .done .returned
def die : Driver := .done .died
def crashed : Driver := .call .useNull fun _ => .done .crashed

/-- `fs_umount(); die(...);` -/
def umountAndDie : Driver := .call .fsUmount fun _ => die

/-- `if (fs_umount()) die(...);` at the end of a driver. -/
def umountAndReturn : Driver :=
  .call .fsUmount fun (failed : Int) => if failed ≠ 0 then die else returned

end Driver

open Driver

def printDriver (print : DriverCall) : List (List UInt8) → Driver
  | diskname :: _ =>
      .call (.fsMount diskname) fun (failed : Int) =>
        if failed ≠ 0 then die
        else .call print fun _ => umountAndReturn
  | _ => die

def threadFsInfo : List (List UInt8) → Driver := printDriver .fsInfo
def threadFsLs : List (List UInt8) → Driver := printDriver .fsLs

def threadFsAdd : List (List UInt8) → Driver
  | diskname :: filename :: _ =>
      .call (.openFile (some filename)) fun (fd : Int) =>
        if fd < 0 then die
        else .call (.fstat fd) fun (st : FileStatus) =>
          if st.fails then die
          else if !st.isRegular then die
          else .call (.mmap st.size fd) fun (buf : Bool) =>
            if !buf then die
            else .call (.fsMount diskname) fun (failed : Int) =>
              if failed ≠ 0 then die
              else .call (.fsCreate (some filename)) fun (failed : Int) =>
                if failed ≠ 0 then umountAndDie
                else .call (.fsOpen (some filename)) fun (fsFd : Int) =>
                  if fsFd < 0 then umountAndDie
                  else .call (.fsWrite fsFd st.size) fun _ =>
                    .call (.fsClose fsFd) fun (failed : Int) =>
                      if failed ≠ 0 then umountAndDie
                      else umountAndReturn
  | _ => die

def threadFsRm : List (List UInt8) → Driver
  | diskname :: filename :: _ =>
      .call (.fsMount diskname) fun (failed : Int) =>
        if failed ≠ 0 then die
        else .call (.fsDelete (some filename)) fun (failed : Int) =>
          if failed ≠ 0 then umountAndDie
          else umountAndReturn
  | _ => die

def threadFsCat : List (List UInt8) → Driver
  | diskname :: filename :: _ =>
      .call (.fsMount diskname) fun (failed : Int) =>
        if failed ≠ 0 then die
        else .call (.fsOpen (some filename)) fun (fsFd : Int) =>
          if fsFd < 0 then umountAndDie
          else .call (.fsStat fsFd) fun (stat : Int) =>
            if stat < 0 then umountAndDie
            -- an empty file
            else if stat = 0 then returned
            else .call (.malloc stat) fun (buf : Bool) =>
              if !buf then umountAndDie
              else .call (.fsRead fsFd stat) fun _ =>
                .call (.fsClose fsFd) fun (failed : Int) =>
                  if failed ≠ 0 then umountAndDie
                  else umountAndReturn
  | _ => die

def threadFsStat : List (List UInt8) → Driver
  | diskname :: filename :: _ =>
      .call (.fsMount diskname) fun (failed : Int) =>
        if failed ≠ 0 then die
        else .call (.fsOpen (some filename)) fun (fsFd : Int) =>
          if fsFd < 0 then umountAndDie
          else .call (.fsStat fsFd) fun (stat : Int) =>
            if stat < 0 then .call (.fsClose fsFd) fun _ => umountAndDie
            else if stat = 0 then
              .call (.fsClose fsFd) fun _ => .call .fsUmount fun _ => returned
            else .call (.fsClose fsFd) fun (failed : Int) =>
              if failed ≠ 0 then umountAndDie
              else umountAndReturn
  | _ => die

/-! The script runner. -/

def isSpace (byte : UInt8) : Bool := byte == 32 || (9 ≤ byte && byte ≤ 13)
def isDigit (byte : UInt8) : Bool := 48 ≤ byte && byte ≤ 57
def minus : UInt8 := 45
def plus : UInt8 := 43

def digitsValue (text : List UInt8) : Nat :=
  (text.takeWhile isDigit).foldl (fun value digit => 10 * value + (digit - 48).toNat) 0

/-- `atoi`. A number that does not fit into an `int`, which is undefined, is cut to 32
bits. -/
def atoi (text : List UInt8) : Int :=
  let text := text.dropWhile isSpace
  let value : Int :=
    if text.head? = some minus then -digitsValue text.tail
    else if text.head? = some plus then digitsValue text.tail
    else digitsValue text
  value.bmod (2 ^ 32)

/-- A host file of the commands `WRITE` and `READ` is opened and has to be regular; its size
goes into an `int`. -/
def loadFile (path : Option (List UInt8)) (next : Int → Int → Driver) : Driver :=
  .call (.openFile path) fun (dataFd : Int) =>
    if dataFd < 0 then umountAndDie
    else .call (.fstat dataFd) fun (st : FileStatus) =>
      if st.fails then umountAndDie
      else if !st.isRegular then umountAndDie
      else next dataFd (toInt st.size)

section Commands

variable (args : CommandArgs) (fsFd : Int)

def mountCommand (diskname : List UInt8) (next : Driver) : Driver :=
  .call (.fsMount diskname) fun (failed : Int) => if failed ≠ 0 then die else next

def umountCommand (mounted : Bool) (next : Driver) : Driver :=
  if mounted then .call .fsUmount fun (failed : Int) => if failed ≠ 0 then die else next
  else next

def createCommand (next : Driver) : Driver :=
  .call (.fsCreate (args 1)) fun (failed : Int) => if failed ≠ 0 then umountAndDie else next

def deleteCommand (next : Driver) : Driver :=
  .call (.fsDelete (args 1)) fun (failed : Int) => if failed ≠ 0 then umountAndDie else next

def openCommand (next : Int → Driver) : Driver :=
  .call (.fsOpen (args 1)) fun (fsFd : Int) => if fsFd < 0 then umountAndDie else next fsFd

def closeCommand (next : Driver) : Driver :=
  .call (.fsClose fsFd) fun (failed : Int) => if failed ≠ 0 then umountAndDie else next

def seekCommand (next : Driver) : Driver :=
  match args 1 with
  | none => crashed
  | some offset =>
      .call (.fsLseek fsFd (atoi offset)) fun (failed : Int) =>
        if failed ≠ 0 then umountAndDie else next

def writeData (dataSize : Int) (next : Driver) : Driver :=
  .call (.fsWrite fsFd dataSize) fun (count : Int) => if count < 0 then umountAndDie else next

def writeCommand (next : Driver) : Driver :=
  match args 1 with
  | none => crashed
  | some dataSource =>
      if dataSource = ascii "DATA" then
        match args 2 with
        | none => crashed
        | some data => writeData fsFd (toInt data.length) next
      else if dataSource = ascii "FILE" then
        loadFile (args 2) fun dataFd dataSize =>
          .call (.mmap dataSize dataFd) fun (data : Bool) =>
            if !data then umountAndDie else writeData fsFd dataSize next
      else umountAndDie

/-- From the test of `read_req_length` on. Both outcomes of the comparison go on with the
next command. -/
def readData (readReqLength : Int) (next : Driver) : Driver :=
  if readReqLength < 0 then umountAndDie
  else .call (.calloc (readReqLength + 1)) fun (readBuf : Bool) =>
    .call (.fsRead fsFd readReqLength) fun (count : Int) =>
      if count < 0 then umountAndDie
      else if !readBuf then crashed
      else next

def readCommand (next : Driver) : Driver :=
  match args 1 with
  | none => crashed
  | some length =>
      let readReqLength := atoi length
      match args 2 with
      | none => crashed
      | some dataSource =>
          if dataSource = ascii "DATA" then
            match args 3 with
            | none => crashed
            | some _ => readData fsFd readReqLength next
          else if dataSource = ascii "FILE" then
            loadFile (args 3) fun _ dataSize =>
              .call (.fopen (args 3)) fun (dataFile : Option (List UInt8)) =>
                .call (.calloc (dataSize + 1)) fun (data : Bool) =>
                  if dataFile = none ∨ (!data ∧ dataSize ≠ 0) then crashed
                  else .call (.fread dataSize) fun (n : Nat) =>
                    -- the assertion
                    if n ≠ toSizeT dataSize then die
                    else if !data then umountAndDie
                    else readData fsFd readReqLength next
          else umountAndDie

end Commands

/-- The loop over the commands of a script. A command that is none of these does nothing. -/
def scriptLoop (diskname : List UInt8) : List CommandArgs → Bool → Int → Driver
  | [], mounted, _ => if mounted then umountAndReturn else returned
  | args :: rest, mounted, fsFd =>
      let command := args 0
      let next := scriptLoop diskname rest
      if command = some (ascii "MOUNT") then mountCommand diskname (next true fsFd)
      else if command = some (ascii "UMOUNT") then umountCommand mounted (next false fsFd)
      else if command = some (ascii "CREATE") then createCommand args (next mounted fsFd)
      else if command = some (ascii "DELETE") then deleteCommand args (next mounted fsFd)
      else if command = some (ascii "OPEN") then openCommand args (next mounted)
      else if command = some (ascii "CLOSE") then closeCommand fsFd (next mounted fsFd)
      else if command = some (ascii "SEEK") then seekCommand args fsFd (next mounted fsFd)
      else if command = some (ascii "WRITE") then writeCommand args fsFd (next mounted fsFd)
      else if command = some (ascii "READ") then readCommand args fsFd (next mounted fsFd)
      else next mounted fsFd

/-- What is in `command_args` before the first line is arbitrary. -/
def threadFsScript (unset : CommandArgs) : List (List UInt8) → Driver
  | diskname :: script :: _ =>
      .call (.fopen (some script)) fun (fdScript : Option (List UInt8)) =>
        match fdScript with
        | none => die
        | some stream =>
            scriptLoop diskname ((scriptCommands unset stream).map Prod.snd) false (-1)
  | _ => die

inductive DriverName where
  | info
  | ls
  | add
  | rm
  | cat
  | stat
  | script

def commands (unset : CommandArgs) : DriverName → List (List UInt8) → Driver
  | .info => threadFsInfo
  | .ls => threadFsLs
  | .add => threadFsAdd
  | .rm => threadFsRm
  | .cat => threadFsCat
  | .stat => threadFsStat
  | .script => threadFsScript unset

/-! The `main` functions. Each takes its arguments without the name of the program; a missing
`argv[1]` is a `NULL` handed to `fs_mount`. -/

/-- The table `commands` of `test_fs.c`. -/
def commandNames : List (List UInt8 × DriverName) :=
  [(ascii "info", .info), (ascii "ls", .ls), (ascii "add", .add), (ascii "rm", .rm),
    (ascii "cat", .cat), (ascii "stat", .stat), (ascii "script", .script)]

def usage : Driver := die

/-- `main` of `test_fs.c`. -/
def testFs (unset : CommandArgs) : List (List UInt8) → Driver
  | [] => usage
  | cmd :: args =>
      match commandNames.find? fun command => command.1 == cmd with
      | some command => commands unset command.2 args
      | none => usage

def myfile : List UInt8 := ascii "myfile"

def assert (cond : Bool) (next : Driver) : Driver := if !cond then die else next

/-- `main` of `simple_writer.c`. -/
def simpleWriter : List (List UInt8) → Driver
  | diskname :: _ =>
      .call (.fsMount diskname) fun (ret : Int) => assert (ret == 0) <|
        .call (.fsCreate (some myfile)) fun (ret : Int) => assert (ret == 0) <|
          .call (.fsOpen (some myfile)) fun (fd : Int) => assert (0 ≤ fd) <|
            .call (.fsWrite fd 26) fun (ret : Int) => assert (ret == 26) <|
              .call (.fsClose fd) fun _ => .call .fsUmount fun _ => returned
  | [] => crashed

/-- `main` of `simple_reader.c`; `sameData` is what `strncmp` says of the ten bytes. -/
def simpleReader (sameData : Bool) : List (List UInt8) → Driver
  | diskname :: _ =>
      .call (.fsMount diskname) fun (ret : Int) => assert (ret == 0) <|
        .call (.fsOpen (some myfile)) fun (fd : Int) => assert (0 ≤ fd) <|
          .call (.fsLseek fd 12) fun _ =>
            .call (.fsRead fd 10) fun (ret : Int) => assert (ret == 10) <| assert sameData <|
              .call (.fsClose fd) fun _ => .call .fsUmount fun _ => returned
  | [] => crashed

/-- `main` of `mount_tester.c`. -/
def mountTester : Driver :=
  .call (.fsMount (ascii "disk.fs")) fun _ =>
    .call (.fsMount (ascii "disk")) fun _ =>
      .call (.fsMount (ascii "dk.fs")) fun _ => returned

end LibFs
