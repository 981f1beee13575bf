import Chip8.Proofs.DoubleOrder
import Chip8.Proofs.TimerAccount

/-
  This file shows that the time a timer clock keeps is always a
  finite double, not negative and less than an interval, that
  no sum of it with a delta overflows, and that a delta which
  is no positive number changes nothing.

  The main statements are:
    * `Format.roundQuotient_add_lt`
    * `TimerClock.elapsed_lt_limit`
    * `TimerClock.advance_of_idle`
    * `TimerClock.pending_stays_short`
-/

------------------------------------------------------------
-- Sums below the Limit
------------------------------------------------------------

namespace Chip8

open Binary

namespace Binary.Format

variable {format : Format}

/- Rounding moves a quotient by half a step at most. -/
theorem two_mul_nearest_mul_le
    (n d : Nat) :
    2 * (nearest n d * d) ≤ 2 * n + d := by
  have hSplit := Nat.div_add_mod' n d
  unfold nearest
  dsimp only
  split
  · omega
  · split
    · rw [Nat.add_mul]
      omega
    · rcases Nat.mod_two_eq_zero_or_one (n / d) with
        hEven | hOdd
      · rw [hEven, Nat.add_zero]
        omega
      · rw [hOdd, Nat.add_mul]
        omega

/- A number below a power of two is a whole step below it. -/
theorem add_step_le
    {a k : Nat}
    (hHolds : format.Holds a)
    (hLt : a < twoPow (format.fractionBits + 1 + k)) :
    a + twoPow k ≤ twoPow (format.fractionBits + 1 + k) := by
  have hHalf :
      twoPow (format.fractionBits + 1 + k) =
        2 * twoPow (format.fractionBits + k) := by
    rw [← twoPow_succ]
    congr 1
    omega
  by_cases hLow : a < twoPow (format.fractionBits + k)
  · have hStep : twoPow k ≤ twoPow (format.fractionBits + k) :=
      twoPow_le (Nat.le_add_left _ _)
    omega
  · have hLog : a.log2 = format.fractionBits + k := by
      have hPos : 0 < a :=
        Nat.lt_of_lt_of_le (twoPow_pos _) (Nat.not_lt.mp hLow)
      have hBelow := (log2_lt_iff hPos).mpr hLt
      have hAbove := mt (log2_lt_iff hPos).mp hLow
      omega
    have hSpare : format.spare a = k := by
      rw [Format.spare, hLog, Nat.add_sub_cancel_left]
    have hStep : twoPow k ∣ a := by
      rw [← hSpare]
      exact hHolds
    have hPower :
        twoPow k ∣ twoPow (format.fractionBits + 1 + k) :=
      twoPow_dvd (Nat.le_add_left _ _)
    have hLeft := Nat.dvd_sub hPower hStep
    have hLeast := Nat.le_of_dvd (by omega) hLeft
    omega

/-
  A sum of a number below a power of two and one less than
  half a step stays below the power when it is rounded.
-/
theorem roundQuotient_add_lt
    {a b k : Nat}
    (hHolds : format.Holds b)
    (hb : b < twoPow (format.fractionBits + 1 + (k + 1)))
    (ha : a < twoPow k) :
    format.roundQuotient (a + b) 1 <
      twoPow (format.fractionBits + 1 + (k + 1)) := by
  have hBelow := add_step_le hHolds hb
  have hTwice := twoPow_succ k
  have hSpare : format.spare (a + b) ≤ k + 1 :=
    spare_le_of_lt (by omega)
  have hStep := twoPow_le hSpare
  have hNear :=
    two_mul_nearest_mul_le (a + b) (twoPow (format.spare (a + b)))
  unfold roundQuotient
  simp only [Nat.div_one, Nat.one_mul]
  omega

end Binary.Format

------------------------------------------------------------
-- Short and Idle Times
------------------------------------------------------------

namespace Grains

/- A time that is less than an interval completes none. -/
theorem intervals_of_lt_interval
    {time : Grains}
    (hHolds : binary64.Holds time)
    (hShort : time < interval) :
    time.intervals = 0 := by
  have hNone : time / interval = 0 :=
    Nat.div_eq_of_lt hShort
  have hFine :
      binary64.spare (time * binary64.unit / interval) <
        binary64.unitExponent := by
    have hBelow :
        time * binary64.unit / interval < binary64.unit := by
      rw [Nat.div_lt_iff_lt_mul interval_pos,
        Nat.mul_comm time]
      exact
        Nat.mul_lt_mul_of_pos_left hShort (twoPow_pos _)
    have hScale :
        binary64.unit =
          twoPow (binary64.fractionBits + 1 + 1021) :=
      rfl
    rw [hScale] at hBelow
    exact
      Nat.lt_of_le_of_lt (Format.spare_le_of_lt hBelow)
        (by decide)
  have hFar :=
    not_nearlyWhole_of_short hHolds (by rw [hNone]; decide)
  rw [intervals_of_spare_lt hFine, if_neg hFar, hNone]

/- An idle delta stands for no time. -/
theorem ofMilliseconds?_of_idle
    {delta : Float}
    (hIdle : Idle delta) :
    ofMilliseconds? delta = none := by
  unfold ofMilliseconds?
  split
  · rename_i time hDenotes
    by_cases hZero : time = 0
    · exact if_pos hZero
    · exact
        absurd hIdle
          (not_idle_of_denotes hDenotes
            (Nat.pos_of_ne_zero hZero))
  · rfl

end Grains

------------------------------------------------------------
-- Pending Time
------------------------------------------------------------

namespace TimerClock

variable {clock : TimerClock}
variable {delta : Float}

theorem elapsed_of_idle
    (hIdle : Grains.Idle delta) :
    clock.elapsed delta = clock.pending := by
  unfold elapsed
  rw [Grains.ofMilliseconds?_of_idle hIdle]

/- An advance by an idle delta changes and reports nothing. -/
theorem advance_of_idle
    (hSettled : clock.Settled)
    (hIdle : Grains.Idle delta) :
    clock.advance delta = (clock, 0) := by
  have hNone :=
    Grains.intervals_of_lt_interval hSettled.holds
      hSettled.lt_interval
  have hKept :
      clock.pending % Grains.interval = clock.pending :=
    Nat.mod_eq_of_lt hSettled.lt_interval
  unfold advance settle
  dsimp only
  rw [elapsed_of_idle hIdle, hNone, hKept, Nat.zero_min,
    Nat.zero_min]
  rfl

/- The time that has elapsed is never too large for a double. -/
theorem elapsed_lt_limit
    (hSettled : clock.Settled)
    (delta : Float) :
    clock.elapsed delta < binary64.limit := by
  have hPending : clock.pending < twoPow 2044 :=
    Nat.lt_trans hSettled.lt_interval (by decide +kernel)
  rcases Grains.idle_or_denotes delta with
    hIdle | ⟨time, hPos, hDelta⟩
  · rw [elapsed_of_idle hIdle]
    exact
      Nat.lt_trans hSettled.lt_interval (by decide +kernel)
  · have hLimit :
        binary64.limit =
          twoPow (binary64.fractionBits + 1 + (2044 + 1)) :=
      rfl
    have hTime : time < binary64.limit :=
      Format.lt_limit_of_decode (by decide) hDelta
    rw [elapsed_of_denotes clock hDelta hPos]
    rw [hLimit] at hTime ⊢
    exact
      Format.roundQuotient_add_lt
        (Format.holds_of_decode hDelta) hTime hPending

/-
  A delta that denotes a time is added as doubles are, and the
  sum is finite.
-/
theorem denotes_elapsed
    {time : Grains}
    (hSettled : clock.Settled)
    (hPos : 0 < time)
    (hDelta : Grains.Denotes delta time) :
    Grains.Denotes (clock.pendingTime + delta)
      (clock.elapsed delta) := by
  have hFinite := elapsed_lt_limit hSettled delta
  rw [elapsed_of_denotes clock hDelta hPos] at hFinite ⊢
  exact
    Grains.denotes_add (denotes_pendingTime hSettled) hDelta
      hFinite

/-
  Whatever calls lead to a clock, it keeps a finite time that
  is not negative and less than an interval.  An idle delta
  leaves all as it was, and any other one is added without an
  overflow.
-/
theorem pending_stays_short (calls : List ClockCall) :
    let clock := zero.run calls
    (Grains.Denotes (1000 / 60) Grains.interval ∧
      Grains.Denotes clock.pendingTime clock.pending ∧
      clock.pending < Grains.interval) ∧
    (clock.pendingTime.isFinite = true ∧
      0 ≤ clock.pendingTime ∧
      clock.pendingTime < 1000 / 60) ∧
    (∀ delta,
      Grains.Idle delta →
        clock.advance delta = (clock, 0)) ∧
    ∀ delta,
      ¬ Grains.Idle delta →
        Grains.Denotes (clock.pendingTime + delta)
          (clock.elapsed delta) := by
  have hSettled := settled_run settled_zero calls
  have hKept := denotes_pendingTime hSettled
  refine ⟨?_, ?_, ?_, ?_⟩
  · exact
      ⟨Grains.denotes_interval, hKept, hSettled.lt_interval⟩
  · refine
      ⟨Grains.isFinite_of_denotes hKept,
        Grains.nonneg_of_denotes hKept, ?_⟩
    exact
      Grains.lt_of_denotes hKept Grains.denotes_interval
        hSettled.lt_interval
  · intro delta hIdle
    exact advance_of_idle hSettled hIdle
  · intro delta hTime
    rcases (Grains.idle_or_denotes delta).resolve_left hTime with
      ⟨time, hPos, hDelta⟩
    exact denotes_elapsed hSettled hPos hDelta

/- Three idle deltas after twenty milliseconds. -/
theorem afterTwenty_idle :
    let clock := zero.run [.setDelay 9, .advance 20]
    0 < clock.pending ∧
      clock.delay = 8 ∧
      Grains.Idle (-0.0) ∧
      clock.advance (-0.0) = (clock, 0) ∧
      Grains.Idle (0 / 0) ∧
      clock.advance (0 / 0) = (clock, 0) ∧
      Grains.Idle (1 / 0) ∧
      clock.advance (1 / 0) = (clock, 0) ∧
      ¬ Grains.Idle 30 ∧
      Grains.Denotes (clock.pendingTime + 30)
        (clock.elapsed 30) := by
  have hShort :=
    pending_stays_short [.setDelay 9, .advance 20]
  have hMinusZero : Grains.Idle (-0.0) :=
    .inl (by decide +kernel)
  have hNaN : Grains.Idle (0 / 0) :=
    .inr (.inr (.inl (by decide +kernel)))
  have hInf : Grains.Idle (1 / 0) :=
    .inr (.inr (.inr (by decide +kernel)))
  have hThirty : ¬ Grains.Idle 30 :=
    Grains.not_idle_of_denotes
      (show Grains.Denotes 30 (.whole 30) by decide +kernel)
      (by decide +kernel)
  rcases hShort with
    ⟨_, _, hIdle, hTime⟩
  exact
    ⟨by decide +kernel, by decide +kernel,
      hMinusZero, hIdle _ hMinusZero,
      hNaN, hIdle _ hNaN,
      hInf, hIdle _ hInf,
      hThirty, hTime _ hThirty⟩

end TimerClock

end Chip8
