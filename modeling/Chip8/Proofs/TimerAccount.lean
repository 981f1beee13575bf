import Chip8.Proofs.Doubles

/-
  This file shows how an advance of a timer clock accounts for
  the elapsed time.  The time that is kept is an exact
  remainder, but the intervals are a rounded quotient: they
  make up the elapsed time unless the quotient is rounded up
  to a whole number, and then one interval is counted twice.

  Key definitions include:
    * `Grains.NearlyWhole`
    * `TimerClock.MakesUp`
    * `TimerClock.Accounts`

  The main statements are:
    * `Grains.intervals_eq`
    * `Grains.not_nearlyWhole_of_short`
    * `TimerClock.advance_accounts`
    * `TimerClock.fiftyMilliseconds_counted_twice`
-/

------------------------------------------------------------
-- Rounded Intervals
------------------------------------------------------------

namespace Chip8

open Binary

namespace Grains

/- What a time is short of the next whole interval. -/
def missing (time : Grains) : Grains :=
  interval - time % interval

/-
  Whether the quotient of a time and the interval is rounded
  up to a whole number: it is short of the number by at most
  half the spacing of the doubles around it.
-/
def NearlyWhole (time : Grains) : Prop :=
  2 * (time.missing * binary64.unit) ≤
    interval *
      twoPow
        (binary64.spare (time * binary64.unit / interval))

instance : DecidablePred NearlyWhole :=
  fun _ => Nat.decLe _ _

/- A whole number of milliseconds. -/
def whole (count : Nat) : Grains :=
  count * binary64.unit

/- The interval is the quotient of 1000 and 60 as doubles. -/
theorem denotes_interval : Denotes (1000 / 60) interval := by
  decide +kernel

variable {time : Grains}

/- A quotient that can be reported keeps places of its own. -/
theorem spare_lt_of_intervals_lt
    (hReported : time.intervals < TimerClock.reportLimit) :
    binary64.spare (time * binary64.unit / interval) <
      binary64.unitExponent := by
  have hUnit : 0 < binary64.unit := twoPow_pos _
  by_cases hPos : 0 < time * binary64.unit / interval
  · have hLeast :=
      Format.twoPow_log2_le_roundQuotient binary64 hPos
    have hMost :
        binary64.roundQuotient (time * binary64.unit) interval <
          twoPow 32 * binary64.unit := by
      rw [← Nat.div_lt_iff_lt_mul hUnit]
      exact Nat.lt_trans hReported (by decide)
    have hLog :
        (time * binary64.unit / interval).log2 <
          32 + binary64.unitExponent := by
      apply Nat.lt_of_not_le
      intro hLarge
      have hAbove := twoPow_le hLarge
      rw [Format.unit, ← twoPow_add] at hMost
      exact
        Nat.not_lt.mpr (Nat.le_trans hAbove hLeast) hMost
    have hKept : binary64.fractionBits = 52 := rfl
    have hScale : binary64.unitExponent = 1074 := rfl
    unfold Format.spare
    omega
  · rw [Nat.eq_zero_of_not_pos hPos]
    decide

/- Intervals are whole ones unless a quotient is rounded up. -/
theorem intervals_of_spare_lt
    (hFine :
      binary64.spare (time * binary64.unit / interval) <
        binary64.unitExponent) :
    time.intervals =
      if time.NearlyWhole then time / interval + 1
      else time / interval := by
  have hQuotient :=
    Format.roundQuotient_div binary64 time interval_pos hFine
  change time.intervals = _ at hQuotient
  rw [hQuotient]
  by_cases hNear : time.NearlyWhole
  · rw [if_pos hNear]
    exact if_pos hNear
  · rw [if_neg hNear]
    exact if_neg hNear

theorem intervals_eq
    (hReported : time.intervals < TimerClock.reportLimit) :
    time.intervals =
      if time.NearlyWhole then time / interval + 1
      else time / interval :=
  intervals_of_spare_lt (spare_lt_of_intervals_lt hReported)

theorem div_le_intervals
    (hReported : time.intervals < TimerClock.reportLimit) :
    time / interval ≤ time.intervals := by
  rw [intervals_eq hReported]
  split
  · exact Nat.le_succ _
  · exact Nat.le_refl _

/- A time whose intervals can be reported is not too large. -/
theorem lt_limit_of_intervals_lt
    (hReported : time.intervals < TimerClock.reportLimit) :
    time < binary64.limit := by
  have hCount : time / interval < TimerClock.reportLimit :=
    Nat.lt_of_le_of_lt (div_le_intervals hReported) hReported
  have hRoom :
      TimerClock.reportLimit * interval ≤ binary64.limit := by
    decide +kernel
  rw [Nat.div_lt_iff_lt_mul interval_pos] at hCount
  exact Nat.lt_of_lt_of_le hCount hRoom

/-
  Within the first two intervals no quotient is rounded up,
  since the interval and twice the interval are doubles.
-/
theorem not_nearlyWhole_of_short
    (hHolds : binary64.Holds time)
    (hShort : time / interval < 2) :
    ¬ time.NearlyWhole := by
  have hNext :=
    Format.holds_next_of_lt holds_interval hShort
  have hFar :=
    @Format.missing_of_holds binary64 time interval
      binary64.unitExponent interval_pos (by decide) hHolds
      hNext
  unfold NearlyWhole missing Format.unit
  exact Nat.not_le.mpr hFar

end Grains

------------------------------------------------------------
-- Accounts
------------------------------------------------------------

namespace TimerClock

/-
  Whether the intervals that an advance reports and the time
  that it keeps make up a time.
-/
def MakesUp
    (clock : TimerClock)
    (delta : Float)
    (time : Grains) : Prop :=
  (clock.advance delta).2 * Grains.interval +
    (clock.advance delta).1.pending = time

instance
    (clock : TimerClock)
    (delta : Float)
    (time : Grains) :
    Decidable (clock.MakesUp delta time) :=
  Nat.decEq _ _

/-
  How an advance accounts for the elapsed time: the sum of
  the time that was kept and the delta, as doubles are added.
-/
structure Accounts
    (clock : TimerClock)
    (delta : Float)
    (sum : Grains) : Prop where
  sum_denoted :
    Grains.Denotes (clock.pendingTime + delta) sum
  kept_denoted :
    Grains.Denotes (clock.advance delta).1.pendingTime
      (clock.advance delta).1.pending
  kept_lt :
    (clock.advance delta).1.pending < Grains.interval
  balance : ¬ sum.NearlyWhole → clock.MakesUp delta sum
  surplus :
    sum.NearlyWhole →
      clock.MakesUp delta (sum + Grains.interval)
  short :
    sum / Grains.interval < 2 → clock.MakesUp delta sum

variable {clock : TimerClock}

/- A settled clock keeps a time that its double denotes. -/
theorem denotes_pendingTime
    (hSettled : clock.Settled) :
    Grains.Denotes clock.pendingTime clock.pending := by
  apply Grains.denotes_toMilliseconds hSettled.holds
  exact Nat.lt_trans hSettled.lt_interval (by decide +kernel)

/- The elapsed time is the sum of what was kept and a delta. -/
theorem elapsed_of_denotes
    (clock : TimerClock)
    {delta : Float}
    {time : Grains}
    (hDelta : Grains.Denotes delta time)
    (hPos : 0 < time) :
    clock.elapsed delta = Grains.add clock.pending time := by
  unfold elapsed
  rw [Grains.ofMilliseconds?_of_denotes hDelta hPos]

/- A report below the limit is the whole count of intervals. -/
theorem intervals_of_reported
    {delta : Float}
    (hReported : (clock.advance delta).2 < reportLimit) :
    (clock.advance delta).2 =
      (clock.elapsed delta).intervals := by
  unfold advance at hReported ⊢
  dsimp only at hReported ⊢
  omega

/- A reported advance makes up the time, or an interval more. -/
theorem makesUp_of_reported
    {delta : Float}
    (hReported : (clock.advance delta).2 < reportLimit) :
    clock.MakesUp delta
      (if (clock.elapsed delta).NearlyWhole then
        clock.elapsed delta + Grains.interval
      else
        clock.elapsed delta) := by
  have hTicks := intervals_of_reported hReported
  have hLimit : (clock.elapsed delta).intervals < reportLimit := by
    rw [← hTicks]
    exact hReported
  have hKept :
      (clock.advance delta).1.pending =
        clock.elapsed delta % Grains.interval :=
    rfl
  have hSplit :=
    Nat.div_add_mod' (clock.elapsed delta) Grains.interval
  unfold MakesUp
  rw [hTicks, hKept, Grains.intervals_eq hLimit]
  split
  · rw [Nat.add_mul]
    omega
  · exact hSplit

/-
  Every advance with a positive delta and a report below the
  limit, in every clock that calls can lead to, accounts for
  the elapsed time.
-/
theorem advance_accounts
    (calls : List ClockCall)
    {delta : Float}
    {time : Grains}
    (hDelta : Grains.Denotes delta time)
    (hPos : 0 < time)
    (hReported :
      ((zero.run calls).advance delta).2 < reportLimit) :
    ∃ sum, (zero.run calls).Accounts delta sum := by
  have hSettled := settled_run settled_zero calls
  generalize zero.run calls = clock at hSettled hReported ⊢
  have hElapsed := elapsed_of_denotes clock hDelta hPos
  have hHolds := holds_elapsed hSettled delta
  have hKept := settled_after hSettled (.advance delta)
  have hTotal := makesUp_of_reported hReported
  have hFinite : clock.elapsed delta < binary64.limit := by
    apply Grains.lt_limit_of_intervals_lt
    rw [← intervals_of_reported hReported]
    exact hReported
  refine ⟨clock.elapsed delta, ?_⟩
  constructor
  · rw [hElapsed] at hFinite ⊢
    exact
      Grains.denotes_add (denotes_pendingTime hSettled) hDelta
        hFinite
  · exact denotes_pendingTime hKept
  · exact hKept.lt_interval
  · intro hFar
    rw [if_neg hFar] at hTotal
    exact hTotal
  · intro hNear
    rw [if_pos hNear] at hTotal
    exact hTotal
  · intro hShort
    have hFar := Grains.not_nearlyWhole_of_short hHolds hShort
    rw [if_neg hFar] at hTotal
    exact hTotal

/- Thirty milliseconds after twenty are accounted for. -/
theorem thirtyAfterTwenty_accounts :
    Grains.Denotes 30 (.whole 30) ∧
      0 < Grains.whole 30 ∧
      ((zero.run [.setDelay 9, .advance 20]).advance 30).2 <
        reportLimit ∧
      ∃ sum,
        (zero.run [.setDelay 9, .advance 20]).Accounts 30
          sum := by
  have hDelta : Grains.Denotes 30 (.whole 30) := by
    decide +kernel
  have hPos : 0 < Grains.whole 30 := by
    decide +kernel
  have hReported :
      ((zero.run [.setDelay 9, .advance 20]).advance 30).2 <
        reportLimit := by
    decide +kernel
  exact
    ⟨hDelta, hPos, hReported,
      advance_accounts [.setDelay 9, .advance 20] hDelta hPos
        hReported⟩

/-
  An advance does not make up the elapsed time always.  Fifty
  milliseconds are less than three intervals, but three are
  reported, and what is kept of the third is counted again.
-/
theorem fiftyMilliseconds_counted_twice :
    ¬ ∀ (calls : List ClockCall)
        (delta : Float)
        (time sum : Grains),
      Grains.Denotes delta time →
      0 < time →
      ((zero.run calls).advance delta).2 < reportLimit →
      Grains.Denotes ((zero.run calls).pendingTime + delta)
        sum →
      (zero.run calls).MakesUp delta sum ∧
        ((zero.run calls).advance delta).1.pending <
          Grains.interval := by
  intro hAlways
  have hFifty :=
    hAlways [] 50 (.whole 50) (.whole 50)
      (by decide +kernel) (by decide +kernel)
      (by decide +kernel) (by decide +kernel)
  have hSurplus :
      ¬ (zero.run []).MakesUp 50 (.whole 50) := by
    decide +kernel
  exact hSurplus hFifty.1

end TimerClock

end Chip8
