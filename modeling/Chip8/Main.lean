import Chip8.Keyboard
import Chip8.Machine.Host
import Chip8.Options
import Chip8.Screen.Picture
import Chip8.Sound.Stream

/-
  This file defines the program: it runs a file frame by frame.
  For every line of standard input, which names the keys that
  are held, it writes one picture to standard output; notices
  go to standard error.

  Key definitions include:
    * `Program.frames`
    * `main`
-/

------------------------------------------------------------
-- Notices
------------------------------------------------------------

namespace Chip8

namespace Program

/- Write a notice unless it is too detailed. -/
def report (notice : Notice) : IO Unit :=
  if Level.info.admits notice.level then
    IO.eprintln (notice.level.label ++ " " ++ notice.message)
  else
    pure ()

/- Write the notices of an outcome and keep the machine. -/
def settle
    {α : Type}
    (outcome : Outcome α) : IO Machine := do
  outcome.notices.forM report
  return outcome.machine

------------------------------------------------------------
-- Frames
------------------------------------------------------------

/- The keys that a line names. -/
def heldKeys (line : String) : List HostKey :=
  (line.trimAscii.toString.toList).map HostKey.ofChar

/- Tell the machine about keys that went down or up. -/
def feed
    (m : Machine) : List (Nibble × Bool) → IO Machine
| [] => pure m
| (key, down) :: events => do
    feed (← settle (m.setKey key.val down)) events

/- The time that a frame takes at least, in milliseconds. -/
def frameTime (options : Options) : UInt32 :=
  if options.frameRate = 0 then
    0
  else
    1000 / options.frameRate

/- Run frames until standard input ends. -/
partial def frames
    (options : Options)
    (sound : Option SoundStream)
    (m : Machine)
    (held : List HostKey)
    (earlier : Nat) : IO Unit := do
  let line ← (← IO.getStdin).getLine
  if line.isEmpty then
    return
  let keys := heldKeys line
  let m ← feed m (HostKey.events held keys)
  let now ← IO.monoNanosNow
  let m ← settle (m.step ((now - earlier).toFloat / 1000000.0))
  let sound :=
    sound.map fun stream => stream.setActive m.soundActive
  let stdout ← IO.getStdout
  stdout.write
    (Picture.ofScreen (.ofFactor options.scale) m.screen)
  stdout.flush
  IO.sleep (frameTime options)
  frames options sound m keys now

/- Open the sound stream; there is no device in a terminal. -/
def openSound (options : Options) : IO (Option SoundStream) :=
  if options.mute then
    pure none
  else
    let bits := Binary.binary32.encode options.pitch
    match SoundStream.start
        (Float32.ofBits (UInt32.ofNat bits)) none with
    | .ok stream => pure (some stream)
    | .error fault => do
        report (.soundDisabled fault.message)
        return none

/- A seed from the entropy of the host. -/
def freshSeed : IO UInt64 := do
  let bytes ← IO.getRandomBytes 8
  return bytes.toList.foldl
    (fun seed byte => seed * 256 + byte.toUInt64) 0

/- Report what went wrong with a file. -/
def reject
    (options : Options)
    (activity : String)
    (cause : String) : IO UInt32 := do
  IO.eprintln
    ("Error: " ++ activity ++ " " ++ options.rom ++ ": " ++
      cause)
  return 1

/- Run a program that was read from a file. -/
def run
    (options : Options)
    (program : ByteArray) : IO UInt32 := do
  let m :=
    Machine.initial options.config (.ofSeed (← freshSeed))
  let loaded := m.load program.toList
  let m ← settle loaded
  match loaded.result with
  | .error fault => reject options "loading" fault.message
  | .ok () =>
      report (.programStarted options.rom program.size)
      let sound ← openSound options
      frames options sound m [] (← IO.monoNanosNow)
      return 0

/- Read a file and run it. -/
def runFile (options : Options) : IO UInt32 := do
  match ← (IO.FS.readBinFile options.rom).toBaseIO with
  | .ok program => run options program
  | .error cause => reject options "reading" cause.toString

end Program

end Chip8

------------------------------------------------------------
-- Command Line
------------------------------------------------------------

/- Read the arguments and run the file they name. -/
def main (arguments : List String) : IO UInt32 := do
  match Chip8.Options.parse arguments with
  | .ok options => Chip8.Program.runFile options
  | .error .helpWanted =>
      IO.println Chip8.UsageError.helpWanted.message
      return 0
  | .error .versionWanted =>
      IO.println Chip8.UsageError.versionWanted.message
      return 0
  | .error usageError =>
      IO.eprintln usageError.message
      return 2
