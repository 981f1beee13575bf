import Chip8.Binary.Decimal
import Chip8.Machine.State

/-
  This file defines the command line: the options of a run and
  how arguments are read.

  Key definitions include:
    * `Options`
    * `UsageError`, `UsageError.message`
    * `Options.parse`
-/

------------------------------------------------------------
-- Options
------------------------------------------------------------

namespace Chip8

/- What the arguments choose. -/
structure Options where
  /- The file of the program. -/
  rom : String
  /- The wanted magnification of the window. -/
  scale : UInt32 := 16
  /- The instructions of one frame. -/
  cyclesPerStep : UInt32 := 10
  /- The most frames of one second. -/
  frameRate : UInt32 := 60
  /- The pitch of the tone in single precision. -/
  pitch : Binary.Value :=
    .finite false (440 * Binary.binary32.unit)
  /- Whether the tone is never played. -/
  mute : Bool := false
deriving DecidableEq

namespace Options

/- The configuration of the machine. -/
def config (options : Options) : Config :=
  ⟨options.cyclesPerStep⟩

end Options

------------------------------------------------------------
-- Settings and Errors
------------------------------------------------------------

/- An option that takes a value. -/
inductive Setting where
  | scale
  | cyclesPerStep
  | frameRate
  | pitch
deriving DecidableEq

namespace Setting

/- The name of a setting behind its two dashes. -/
def name : Setting → String
| .scale => "scale"
| .cyclesPerStep => "cycles-per-step"
| .frameRate => "fps"
| .pitch => "tone-hz"

/- The setting with exactly this name. -/
def ofName? (text : String) : Option Setting :=
  [.scale, .cyclesPerStep, .frameRate, .pitch].find?
    fun setting => setting.name = text

end Setting

/- Why the arguments choose no options. -/
inductive UsageError where
  /- No option has this name, or no more files are taken. -/
  | unknownArgument (text : String)
  /- A setting has no value. -/
  | missingValue (setting : Setting)
  /- A value is none of its setting. -/
  | badValue (setting : Setting) (value : String)
  /- A setting or flag is given twice. -/
  | repeated (name : String)
  /- A flag has a value. -/
  | unexpectedValue (name : String)
  /- The file has an empty name. -/
  | emptyRom
  /- There is no file. -/
  | missingRom
  /- Help is asked for. -/
  | helpWanted
  /- The version is asked for. -/
  | versionWanted
deriving DecidableEq

namespace UsageError

/- How the command line is used. -/
def usage : String :=
  "Usage: chip8 [OPTIONS] <ROM>\n\n" ++
    "Options:\n" ++
    "  --scale <N>            window magnification [16]\n" ++
    "  --cycles-per-step <N>  instructions per frame [10]\n" ++
    "  --fps <N>              frames per second [60]\n" ++
    "  --tone-hz <HZ>         beeper pitch [440]\n" ++
    "  --mute                 never open an audio stream\n" ++
    "  -h, --help             print help\n" ++
    "  -V, --version          print version"

/- The report of a usage error. -/
def message : UsageError → String
| .unknownArgument text =>
    "error: unexpected argument '" ++ text ++ "' found"
| .missingValue setting =>
    "error: a value is required for '--" ++ setting.name ++
      "'"
| .badValue setting value =>
    "error: invalid value '" ++ value ++ "' for '--" ++
      setting.name ++ "'"
| .repeated name =>
    "error: the argument '--" ++ name ++
      "' cannot be used multiple times"
| .unexpectedValue name =>
    "error: no value is taken by '--" ++ name ++ "'"
| .emptyRom => "error: a value is required for '<ROM>'"
| .missingRom => "error: '<ROM>' was not provided"
| .helpWanted => usage
| .versionWanted => "chip8 0.1.0"

end UsageError

------------------------------------------------------------
-- Values
------------------------------------------------------------

namespace Options

/-
  A whole number with an optional sign that fits into 32 bits
  without one.
-/
def readCount? (text : String) : Option UInt32 :=
  let (negative, digits) := Binary.splitSign text.toList
  let size := Binary.digitsValue digits
  if digits = [] ∨ !digits.all Char.isDigit then
    none
  else if negative && size ≠ 0 then
    none
  else if size < 4294967296 then
    some (UInt32.ofNat size)
  else
    none

/- A pitch in single precision. -/
def readPitch? (text : String) : Option Binary.Value :=
  Binary.binary32.read? text.toList

------------------------------------------------------------
-- Reading Arguments
------------------------------------------------------------

/- An argument whose value is not checked yet. -/
inductive Pending where
  | none
  /- The file. -/
  | rom (text : String)
  /- A setting that has or awaits a separate value. -/
  | setting (setting : Setting) (value : Option String)
deriving DecidableEq

/- What was read so far. -/
structure Draft where
  rom : Option String := none
  scale : Option UInt32 := none
  cyclesPerStep : Option UInt32 := none
  frameRate : Option UInt32 := none
  pitch : Option Binary.Value := none
  mute : Bool := false
  pending : Pending := .none

namespace Draft

/- Fill a field that is still empty with a value read. -/
def fill
    {α : Type}
    (setting : Setting)
    (value : String)
    (field : Option α)
    (read? : String → Option α) :
    Except UsageError (Option α) :=
  match field, read? value with
  | some _, _ => .error (.repeated setting.name)
  | none, none => .error (.badValue setting value)
  | none, some a => .ok (some a)

/- Give a setting its value. -/
def assign
    (draft : Draft)
    (setting : Setting)
    (value : String) : Except UsageError Draft :=
  match setting with
  | .scale => do
      let n ← fill setting value draft.scale readCount?
      return { draft with scale := n }
  | .cyclesPerStep => do
      let n ← fill setting value draft.cyclesPerStep
        readCount?
      return { draft with cyclesPerStep := n }
  | .frameRate => do
      let n ← fill setting value draft.frameRate readCount?
      return { draft with frameRate := n }
  | .pitch => do
      let p ← fill setting value draft.pitch readPitch?
      return { draft with pitch := p }

/- Check the pending argument. -/
def settle (draft : Draft) : Except UsageError Draft :=
  let settled := { draft with pending := .none }
  match draft.pending with
  | .none => .ok draft
  | .rom text =>
      if text = "" then
        .error .emptyRom
      else
        .ok { settled with rom := some text }
  | .setting setting none => .error (.missingValue setting)
  | .setting setting (some value) =>
      settled.assign setting value

/- Whether the file was already met. -/
def hasRom (draft : Draft) : Bool :=
  match draft.pending with
  | .rom _ => true
  | _ => draft.rom.isSome

/-
  Read the file.  A second one is reported before a pending
  argument is checked.
-/
def readRom
    (draft : Draft)
    (text : String) : Except UsageError Draft :=
  if draft.hasRom then
    .error (.unknownArgument text)
  else do
    let settled ← draft.settle
    return { settled with pending := .rom text }

/- Read a flag that takes no value. -/
def readFlag
    (draft : Draft)
    (name : String)
    (value : Option String)
    (effect : Draft → Except UsageError Draft) :
    Except UsageError Draft :=
  match value with
  | some _ => .error (.unexpectedValue name)
  | none => draft.settle >>= effect

/- Set the flag that mutes the tone. -/
def setMute (draft : Draft) : Except UsageError Draft :=
  if draft.mute then
    .error (.repeated "mute")
  else
    .ok { draft with mute := true }

/-
  Read a long option.  An attached value is checked at once, a
  separate one when the next known argument or the end is met.
-/
def readLong
    (draft : Draft)
    (name : String)
    (value : Option String) : Except UsageError Draft :=
  match Setting.ofName? name, name, value with
  | some setting, _, some text => do
      let settled ← draft.settle
      settled.assign setting text
  | some setting, _, none => do
      let settled ← draft.settle
      return { settled with pending := .setting setting none }
  | none, "mute", _ => draft.readFlag name value setMute
  | none, "help", _ =>
      draft.readFlag name value fun _ => .error .helpWanted
  | none, "version", _ =>
      draft.readFlag name value fun _ => .error .versionWanted
  | none, _, _ => .error (.unknownArgument ("--" ++ name))

/- Read the first flag of a group of short ones. -/
def readShort
    (draft : Draft)
    (flag : Char) : Except UsageError Draft :=
  match flag with
  | 'h' => draft.settle >>= fun _ => .error .helpWanted
  | 'V' => draft.settle >>= fun _ => .error .versionWanted
  | _ => .error (.unknownArgument (String.ofList ['-', flag]))

/- Read an argument that is no option. -/
def readPlain
    (draft : Draft)
    (text : String) : Except UsageError Draft :=
  match draft.pending with
  | .setting setting none =>
      .ok { draft with pending := .setting setting (some text) }
  | _ => draft.readRom text

/- The name of a long option and the value attached to it. -/
def splitLong (body : List Char) : String × Option String :=
  (String.ofList (body.takeWhile (· ≠ '=')),
    (body.dropWhile (· ≠ '=')).tail?.map String.ofList)

/-
  Read all arguments, the first error wins.  Two dashes alone
  end the options.
-/
def readAll
    (draft : Draft)
    (optionsEnded : Bool) :
    List String → Except UsageError Draft
| [] => draft.settle
| text :: rest =>
    if optionsEnded then do
      let next ← draft.readRom text
      next.readAll true rest
    else
      match text.toList with
      | ['-', '-'] => draft.readAll true rest
      | '-' :: '-' :: body => do
          let (name, value) := splitLong body
          let next ← draft.readLong name value
          next.readAll false rest
      | '-' :: flag :: _ => do
          let next ← draft.readShort flag
          next.readAll false rest
      | _ => do
          let next ← draft.readPlain text
          next.readAll false rest

end Draft

/- The options that arguments choose. -/
def parse (arguments : List String) :
    Except UsageError Options := do
  let draft ← Draft.readAll {} false arguments
  match draft.rom with
  | none => .error .missingRom
  | some rom =>
      let base : Options := { rom := rom }
      .ok
        { base with
          scale := draft.scale.getD base.scale
          cyclesPerStep :=
            draft.cyclesPerStep.getD base.cyclesPerStep
          frameRate := draft.frameRate.getD base.frameRate
          pitch := draft.pitch.getD base.pitch
          mute := draft.mute }

end Options

end Chip8
