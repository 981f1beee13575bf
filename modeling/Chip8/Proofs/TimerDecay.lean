import Chip8.Proofs.DoubleQuotients
import Chip8.Proofs.PendingTime

/-
  This file shows that both timers fall by what advances
  report, down to zero, although an advance carries out few
  ticks and reports a limited count, and that both counts are
  those of the rounded quotient of doubles.

  Key definitions include:
    * `TimerClock.reported`
    * `TimerClock.elapsedTime`

  The main statements are:
    * `TimerClock.denotes_quotient`
    * `TimerClock.timers_after_advances`
    * `TimerClock.timers_fall_by_reports`
-/

------------------------------------------------------------
-- Counted Ticks
------------------------------------------------------------

namespace Chip8

open Binary

namespace TimerClock

variable {clock : TimerClock}

/- The sum of what advances by deltas report. -/
def reported
    (clock : TimerClock) : List Float → Nat
| [] => 0
| delta :: deltas =>
    (clock.advance delta).2 +
      (clock.advance delta).1.reported deltas

/-
  A timer is at zero after as many ticks as are carried out at
  most, so it falls by all that are reported.
-/
theorem toNat_tickMany_min
    (timer : Timer)
    (count : Nat) :
    (timer.tickMany (min count tickLimit)).toNat =
      timer.toNat - min count reportLimit := by
  have hMost : timer.toNat < 256 := timer.toNat_lt
  have hTicks : tickLimit = 255 := rfl
  have hReports : reportLimit = 4294967295 := rfl
  rw [Timer.toNat_tickMany]
  omega

theorem delay_advance
    (clock : TimerClock)
    (delta : Float) :
    (clock.advance delta).1.delay.toNat =
      clock.delay.toNat - (clock.advance delta).2 :=
  toNat_tickMany_min _ _

theorem sound_advance
    (clock : TimerClock)
    (delta : Float) :
    (clock.advance delta).1.sound.toNat =
      clock.sound.toNat - (clock.advance delta).2 :=
  toNat_tickMany_min _ _

/- Advances in a row take the sum of their reports away. -/
theorem timers_after_advances
    (clock : TimerClock)
    (deltas : List Float) :
    (clock.run (deltas.map .advance)).delay.toNat =
        clock.delay.toNat - clock.reported deltas ∧
      (clock.run (deltas.map .advance)).sound.toNat =
        clock.sound.toNat - clock.reported deltas := by
  induction deltas generalizing clock with
  | nil =>
      exact ⟨rfl, rfl⟩
  | cons delta deltas ih =>
      have hRest := ih (clock.advance delta).1
      rw [delay_advance, sound_advance] at hRest
      rw [reported, ← Nat.sub_sub, ← Nat.sub_sub]
      exact hRest

------------------------------------------------------------
-- Quotients of Doubles
------------------------------------------------------------

/-
  The elapsed time as a double.  Only a delta that is finite
  and positive is added.
-/
def elapsedTime
    (clock : TimerClock)
    (delta : Float) : Float :=
  if delta.isFinite ∧ 0 < delta then
    clock.pendingTime + delta
  else
    clock.pendingTime

theorem denotes_elapsedTime
    (hSettled : clock.Settled)
    (delta : Float) :
    Grains.Denotes (clock.elapsedTime delta)
      (clock.elapsed delta) := by
  have hAdded := Grains.not_idle_iff delta
  unfold elapsedTime
  rcases Grains.idle_or_denotes delta with
    hIdle | ⟨time, hPos, hDelta⟩
  · rw [if_neg (mt hAdded.mpr (not_not_intro hIdle)),
      elapsed_of_idle hIdle]
    exact denotes_pendingTime hSettled
  · have hTime := Grains.not_idle_of_denotes hDelta hPos
    rw [if_pos (hAdded.mp hTime)]
    exact denotes_elapsed hSettled hPos hDelta

/-
  The quotient of the elapsed time and the interval is finite,
  and its whole part is the count of intervals.
-/
theorem denotes_quotient
    (hSettled : clock.Settled)
    (delta : Float) :
    Grains.Denotes (clock.elapsedTime delta / (1000 / 60))
      (binary64.roundQuotient
        (clock.elapsed delta * binary64.unit)
        Grains.interval) := by
  apply
    Grains.denotes_div (denotes_elapsedTime hSettled delta)
      Grains.denotes_interval Grains.interval_pos
  · decide +kernel
  · have hHalf (time limit : Nat) :
        time < limit → 2 < limit → time / 2 + 1 < limit := by
      omega
    exact
      Nat.lt_of_le_of_lt
        (binary64.roundQuotient_mul_le _ (twoPow_pos _)
          (by decide +kernel))
        (hHalf _ _ (elapsed_lt_limit hSettled delta)
          (by decide +kernel))

/-
  Whatever calls lead to a clock, both timers fall by the sum
  of what further advances report.  The ticks that an advance
  carries out and those that it reports are the quotient of
  doubles, cut off to eight and to 32 bits; the quotient is
  not negative, so that cutting it off rounds it down.
-/
theorem timers_fall_by_reports
    (calls : List ClockCall)
    (deltas : List Float) :
    let clock := zero.run calls
    let after := clock.run (deltas.map .advance)
    (after.delay.toNat =
        clock.delay.toNat - clock.reported deltas ∧
      after.sound.toNat =
        clock.sound.toNat - clock.reported deltas) ∧
    ∀ delta,
      let quotient := clock.elapsedTime delta / (1000 / 60)
      let ticks := quotient.toUInt8.toNat
      (quotient.isFinite = true ∧ 0 ≤ quotient) ∧
      (clock.advance delta).1.delay =
        clock.delay.tickMany ticks ∧
      (clock.advance delta).1.sound =
        clock.sound.tickMany ticks ∧
      (clock.advance delta).2 = quotient.toUInt32.toNat := by
  have hSettled := settled_run settled_zero calls
  refine ⟨timers_after_advances _ deltas, ?_⟩
  intro delta
  have hQuotient := denotes_quotient hSettled delta
  dsimp only
  rw [Grains.toNat_toUInt8 hQuotient,
    Grains.toNat_toUInt32 hQuotient]
  exact
    ⟨⟨Grains.isFinite_of_denotes hQuotient,
        Grains.nonneg_of_denotes hQuotient⟩,
      rfl, rfl, rfl⟩

end TimerClock

end Chip8
