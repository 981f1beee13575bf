import Chip8.Proofs.Rounding
import Chip8.Timer

/-
  This file defines the calls of a timer clock and shows that
  between them a clock keeps less than an interval of time,
  which double precision holds exactly.

  Key definitions include:
    * `ClockCall`
    * `TimerClock.after`, `TimerClock.run`
    * `TimerClock.Settled`

  The main statements are:
    * `TimerClock.settled_after`
    * `TimerClock.settled_run`
-/

------------------------------------------------------------
-- Calls of a Clock
------------------------------------------------------------

namespace Chip8

open Binary

/- What happens to a timer clock. -/
inductive ClockCall where
  /- A timer is set. -/
  | setDelay (value : UInt8)
  | setSound (value : UInt8)
  /- The clock starts anew. -/
  | reset
  /- Time elapses. -/
  | advance (delta : Float)

namespace TimerClock

/- The clock after a call. -/
def after
    (clock : TimerClock) : ClockCall → TimerClock
| .setDelay value => { clock with delay := value }
| .setSound value => { clock with sound := value }
| .reset => clock.reset
| .advance delta => (clock.advance delta).1

/- The clock after a list of calls. -/
def run
    (clock : TimerClock) : List ClockCall → TimerClock
| [] => clock
| call :: calls => (clock.after call).run calls

end TimerClock

------------------------------------------------------------
-- Times
------------------------------------------------------------

namespace Grains

theorem interval_pos : 0 < interval := by
  decide +kernel

/- The interval and a rounded sum are doubles. -/
theorem holds_interval : binary64.Holds interval :=
  Format.holds_roundQuotient _ _

theorem holds_add (a b : Grains) :
    binary64.Holds (add a b) :=
  Format.holds_roundQuotient _ _

end Grains

namespace TimerClock

------------------------------------------------------------
-- Settled Clocks
------------------------------------------------------------

/- The clock keeps a double that is less than an interval. -/
structure Settled (clock : TimerClock) : Prop where
  lt_interval : clock.pending < Grains.interval
  holds : binary64.Holds clock.pending

variable {clock : TimerClock}

theorem settled_zero : zero.Settled := by
  constructor
  · exact Grains.interval_pos
  · exact Nat.dvd_zero _

theorem holds_elapsed
    (hSettled : clock.Settled)
    (delta : Float) :
    binary64.Holds (clock.elapsed delta) := by
  unfold elapsed
  split
  · exact Grains.holds_add _ _
  · exact hSettled.holds

/- What an advance keeps is a remainder of two doubles. -/
theorem settled_settle
    {elapsed : Grains}
    (hHolds : binary64.Holds elapsed) :
    (clock.settle elapsed).Settled := by
  constructor
  · exact Nat.mod_lt _ Grains.interval_pos
  · exact
      Format.holds_mod hHolds Grains.holds_interval
        Grains.interval_pos

theorem settled_after
    (hSettled : clock.Settled)
    (call : ClockCall) :
    (clock.after call).Settled := by
  cases call with
  | setDelay value =>
      exact ⟨hSettled.lt_interval, hSettled.holds⟩
  | setSound value =>
      exact ⟨hSettled.lt_interval, hSettled.holds⟩
  | reset =>
      exact settled_zero
  | advance delta =>
      exact settled_settle (holds_elapsed hSettled delta)

theorem settled_run
    (hSettled : clock.Settled)
    (calls : List ClockCall) :
    (clock.run calls).Settled := by
  induction calls generalizing clock with
  | nil =>
      exact hSettled
  | cons call calls ih =>
      exact ih (settled_after hSettled call)

end TimerClock

end Chip8
