import Chip8.Notice
import Chip8.Sound.Frames
import Chip8.Sound.Sample
import Chip8.Sound.Tone

/-
  This file defines the sound stream: a tone that a gate lets
  through or holds back, and how the stream is opened on a
  device.

  Key definitions include:
    * `SoundDevice`, `SoundFault`
    * `SoundStream.start`
    * `SoundStream.setActive`
    * `SoundStream.fillWith`, `SoundStream.fill`
-/

------------------------------------------------------------
-- Devices
------------------------------------------------------------

namespace Chip8

/-
  A device for sound output.  Each of the three requests of
  opening a stream may fail with a cause.
-/
structure SoundDevice where
  format : SampleFormat
  channels : Channels
  rate : UInt32
  queryFailure : Option String
  buildFailure : Option String
  playFailure : Option String

/- Why no stream could be opened. -/
inductive SoundFault where
  | noDevice
  | query (cause : String)
  | build (cause : String)
  | play (cause : String)
deriving DecidableEq

/- The report of a sound fault: what was tried and the cause. -/
def SoundFault.message : SoundFault → String
| .noDevice => "no output device available"
| .query cause => "querying output config: " ++ cause
| .build cause => "building output stream: " ++ cause
| .play cause => "starting audio stream: " ++ cause

------------------------------------------------------------
-- Streams
------------------------------------------------------------

/- A stream that plays its tone while it is active. -/
structure SoundStream where
  format : SampleFormat
  channels : Channels
  tone : Tone
  active : Bool

namespace SoundStream

/- Open a stream that is not active yet. -/
def start
    (pitch : Float32) :
    Option SoundDevice → Except SoundFault SoundStream
| none => .error .noDevice
| some device =>
    match device.queryFailure, device.buildFailure,
        device.playFailure with
    | some cause, _, _ => .error (.query cause)
    | none, some cause, _ => .error (.build cause)
    | none, none, some cause => .error (.play cause)
    | none, none, none =>
        .ok
          { format := device.format
            channels := device.channels
            tone := .start pitch device.rate.toFloat32
            active := false }

/- Open or close the gate. -/
def setActive
    (stream : SoundStream)
    (on : Bool) : SoundStream :=
  { stream with active := on }

/- A sample of the tone, or silence while the tone stands. -/
def drawSample
    (active : Bool)
    (tone : Tone) : Float32 × Tone :=
  if active then tone.next else (0, tone)

/-
  Fill a buffer with samples that are converted by some rule.
  The gate is read once, when the buffer is begun.
-/
def fillWith
    {β : Type}
    (convert : Float32 → β)
    (stream : SoundStream)
    (length : Nat) : List β × SoundStream :=
  let filled :=
    Frames.fill (drawSample stream.active) convert
      stream.channels stream.tone length
  (filled.1, { stream with tone := filled.2 })

/- Fill a buffer in the format of the device. -/
def fill
    (stream : SoundStream)
    (length : Nat) : List Sample × SoundStream :=
  stream.fillWith stream.format.convert length

/- The notice of a failure that the device reports later. -/
def failureNotice (cause : String) : Notice :=
  .soundFailed cause

end SoundStream

end Chip8
