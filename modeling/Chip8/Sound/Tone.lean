import Chip8.Binary.Format

/-
  This file defines the tone: a quiet sine of a fixed pitch,
  sampled at a fixed rate in single precision.

  Key definitions include:
    * `Tone`
    * `Tone.next`
-/

------------------------------------------------------------
-- Remainder in Single Precision
------------------------------------------------------------

namespace Chip8

/- The exact remainder of two single precision numbers. -/
def singleRemainder
    (a : Float32)
    (b : Float32) : Float32 :=
  let value :=
    Binary.Value.remainder
      (Binary.binary32.decode a.toBits.toNat)
      (Binary.binary32.decode b.toBits.toNat)
  Float32.ofBits
    (UInt32.ofNat (Binary.binary32.encode value))

------------------------------------------------------------
-- Tone
------------------------------------------------------------

/-
  The sample clock counts samples modulo the sample rate, so
  that it starts again after each second.
-/
structure Tone where
  clock : Float32
  rate : Float32
  pitch : Float32

namespace Tone

/- A tone at its beginning. -/
def start
    (pitch : Float32)
    (rate : Float32) : Tone :=
  ⟨0, rate, pitch⟩

/- The single next to one fifth. -/
def amplitude : Float32 :=
  Float32.ofBits 0x3E4CCCCD

/- The single next to half the circumference of a unit circle. -/
def pi : Float32 :=
  Float32.ofBits 0x40490FDB

/-
  The next sample.  The clock moves first, and the phase is
  computed from left to right.
-/
def next (tone : Tone) : Float32 × Tone :=
  let clock := singleRemainder (tone.clock + 1) tone.rate
  let phase := clock * tone.pitch * 2 * pi / tone.rate
  (amplitude * phase.sin, { tone with clock := clock })

end Tone

end Chip8
