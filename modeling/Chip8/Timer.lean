import Chip8.Binary.Format

/-
  This file defines the delay and sound timers and the clock
  that counts them down sixty times in a second of elapsed
  time.

  Key definitions include:
    * `Timer.tick`
    * `TimerClock`, `TimerClock.reset`
    * `TimerClock.advance`
    * `TimerClock.pendingTime`
-/

------------------------------------------------------------
-- Timers
------------------------------------------------------------

namespace Chip8

/- A count that goes down to zero and stays there. -/
abbrev Timer :=
  UInt8

namespace Timer

/- One step down, except at zero. -/
def tick (timer : Timer) : Timer :=
  if timer = 0 then 0 else timer - 1

/- Several steps down. -/
def tickMany
    (timer : Timer) : Nat → Timer
| 0 => timer
| count + 1 => timer.tick.tickMany count

theorem toNat_tick (timer : Timer) :
    timer.tick.toNat = timer.toNat - 1 := by
  unfold tick
  split
  · rename_i h
    simp [h]
  · rename_i h
    have hPos : timer.toNat ≠ 0 := fun hv =>
      h (UInt8.toNat_inj.mp hv)
    have := timer.toNat_lt
    simp only [UInt8.toNat_sub, UInt8.toNat_ofNat]
    omega

theorem toNat_tickMany
    (timer : Timer)
    (count : Nat) :
    (timer.tickMany count).toNat = timer.toNat - count := by
  induction count generalizing timer with
  | zero => rfl
  | succ count ih =>
      rw [tickMany, ih, toNat_tick]
      omega

end Timer

------------------------------------------------------------
-- Elapsed Time
------------------------------------------------------------

/-
  Elapsed milliseconds as a count of grains of double
  precision.
-/
abbrev Grains :=
  Nat

namespace Grains

open Binary

/-
  The milliseconds between two ticks: the double next to
  1000 / 60.
-/
def interval : Grains :=
  binary64.roundQuotient (1000 * binary64.unit) 60

/- Rounded sum, as doubles are added. -/
def add
    (a : Grains)
    (b : Grains) : Grains :=
  binary64.roundQuotient (a + b) 1

/-
  The whole part of the rounded quotient of a time and the
  interval, as doubles are divided.
-/
def intervals (a : Grains) : Nat :=
  binary64.roundQuotient (a * binary64.unit) interval /
    binary64.unit

/-
  The time that a double of milliseconds stands for, if it is
  finite and positive.
-/
def ofMilliseconds? (delta : Float) : Option Grains :=
  match binary64.decode delta.toBits.toNat with
  | .finite false grains =>
      if grains = 0 then none else some grains
  | _ => none

/- The double of milliseconds that a time is. -/
def toMilliseconds (a : Grains) : Float :=
  Float.ofBits
    (UInt64.ofNat (binary64.encode (.finite false a)))

end Grains

------------------------------------------------------------
-- Timer Clock
------------------------------------------------------------

/-
  Both timers and the elapsed time that has not completed an
  interval.
-/
structure TimerClock where
  delay : Timer
  sound : Timer
  pending : Grains
deriving DecidableEq

namespace TimerClock

/- Timers at zero, no time elapsed. -/
def zero : TimerClock :=
  ⟨0, 0, 0⟩

/- Start anew with both timers and the elapsed time at zero. -/
def reset (_clock : TimerClock) : TimerClock :=
  zero

@[simp] theorem reset_eq_zero (clock : TimerClock) :
    clock.reset = zero :=
  rfl

/- The time that has not completed an interval. -/
def pendingTime (clock : TimerClock) : Float :=
  clock.pending.toMilliseconds

/- The most ticks that one advance carries out. -/
def tickLimit : Nat :=
  255

/- The largest tick count that an advance reports. -/
def reportLimit : Nat :=
  4294967295

/-
  The time that has elapsed since the last completed interval
  when a delta is over.  A delta that is no positive number is
  no time at all.
-/
def elapsed
    (clock : TimerClock)
    (delta : Float) : Grains :=
  match Grains.ofMilliseconds? delta with
  | some time => Grains.add clock.pending time
  | none => clock.pending

/- Tick both timers and keep what completes no interval. -/
def settle
    (clock : TimerClock)
    (elapsed : Grains) : TimerClock :=
  let ticks := min (Grains.intervals elapsed) tickLimit
  { delay := clock.delay.tickMany ticks
    sound := clock.sound.tickMany ticks
    pending := elapsed % Grains.interval }

/-
  Let time elapse and tell how many intervals it completed.
  Both timers are at zero after 255 ticks, so no more are
  carried out.
-/
def advance
    (clock : TimerClock)
    (delta : Float) : TimerClock × Nat :=
  let elapsed := clock.elapsed delta
  (clock.settle elapsed,
    min (Grains.intervals elapsed) reportLimit)

end TimerClock

end Chip8
