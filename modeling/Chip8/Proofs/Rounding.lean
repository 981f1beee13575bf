import Chip8.Binary.Format

/-
  This file shows how a rounded quotient compares to the exact
  one.  Rounding may carry a quotient that is not whole to the
  next whole number, but only from a distance of half the
  spacing that the format has there.

  Key definitions include:
    * `Format.Holds`

  The main statements are:
    * `Format.roundQuotient_div`
    * `Format.holds_roundQuotient`
    * `Format.roundQuotient_of_holds`
    * `Format.holds_mod`
    * `Format.missing_of_holds`
    * `Format.lt_limit_of_decode`
    * `Format.decode_encode`
-/

------------------------------------------------------------
-- Powers of Two
------------------------------------------------------------

namespace Chip8

namespace Binary

theorem twoPow_succ (n : Nat) :
    twoPow (n + 1) = 2 * twoPow n :=
  Nat.pow_succ'

theorem twoPow_add (m n : Nat) :
    twoPow (m + n) = twoPow m * twoPow n :=
  Nat.pow_add 2 m n

theorem twoPow_pos (n : Nat) : 0 < twoPow n :=
  Nat.two_pow_pos n

theorem twoPow_dvd
    {m n : Nat}
    (h : m ≤ n) :
    twoPow m ∣ twoPow n :=
  Nat.pow_dvd_pow 2 h

theorem twoPow_le
    {m n : Nat}
    (h : m ≤ n) :
    twoPow m ≤ twoPow n :=
  Nat.pow_le_pow_right Nat.zero_lt_two h

theorem twoPow_log2_le
    {n : Nat}
    (hPos : 0 < n) :
    twoPow n.log2 ≤ n :=
  Nat.log2_self_le (Nat.ne_of_gt hPos)

theorem lt_twoPow_log2 (n : Nat) :
    n < twoPow (n.log2 + 1) :=
  Nat.lt_log2_self

theorem log2_lt_iff
    {n k : Nat}
    (hPos : 0 < n) :
    n.log2 < k ↔ n < twoPow k :=
  Nat.log2_lt (Nat.ne_of_gt hPos)

theorem log2_mul_twoPow
    {n : Nat}
    (hPos : 0 < n)
    (k : Nat) :
    (n * twoPow k).log2 = n.log2 + k := by
  have hStep := twoPow_pos k
  rw [Nat.log2_eq_iff (Nat.ne_of_gt (Nat.mul_pos hPos hStep))]
  constructor
  · exact
      Nat.le_trans (Nat.le_of_eq (twoPow_add n.log2 k))
        (Nat.mul_le_mul_right _ (twoPow_log2_le hPos))
  · rw [Nat.add_right_comm]
    exact
      Nat.lt_of_lt_of_eq
        (Nat.mul_lt_mul_of_pos_right (lt_twoPow_log2 n) hStep)
        (twoPow_add (n.log2 + 1) k).symm

/- Places that are dropped are missing from the logarithm. -/
theorem log2_div_twoPow (n k : Nat) :
    (n / twoPow k).log2 = n.log2 - k := by
  have hStep := twoPow_pos k
  by_cases hLess : n < twoPow k
  · have hLog : n.log2 ≤ k := by
      by_cases hPos : 0 < n
      · exact Nat.le_of_lt ((log2_lt_iff hPos).mpr hLess)
      · rw [Nat.eq_zero_of_not_pos hPos, Nat.log2_zero]
        exact Nat.zero_le k
    rw [Nat.div_eq_of_lt hLess, Nat.log2_zero]
    omega
  · have hPos : 0 < n := by omega
    have hLog : k ≤ n.log2 :=
      (Nat.le_log2 (Nat.ne_of_gt hPos)).mpr (Nat.not_lt.mp hLess)
    have hWhole : 0 < n / twoPow k :=
      Nat.div_pos (Nat.not_lt.mp hLess) hStep
    rw [Nat.log2_eq_iff (Nat.ne_of_gt hWhole)]
    constructor
    · change twoPow (n.log2 - k) ≤ n / twoPow k
      rw [Nat.le_div_iff_mul_le hStep, ← twoPow_add,
        Nat.sub_add_cancel hLog]
      exact twoPow_log2_le hPos
    · change n / twoPow k < twoPow (n.log2 - k + 1)
      rw [Nat.div_lt_iff_lt_mul hStep, ← twoPow_add,
        Nat.add_right_comm, Nat.sub_add_cancel hLog]
      exact lt_twoPow_log2 n

/- A quotient has as many places as its parts differ by. -/
theorem log2_le_add_log2_div
    (n : Nat)
    {d : Nat}
    (hd : 0 < d) :
    n.log2 ≤ (n / d).log2 + 1 + d.log2 := by
  by_cases hPos : 0 < n
  · apply Nat.lt_succ_iff.mp
    rw [log2_lt_iff hPos]
    calc
      n < d * (n / d + 1) := Nat.lt_mul_div_succ n hd
      _ ≤ twoPow (d.log2 + 1) * twoPow ((n / d).log2 + 1) :=
        Nat.mul_le_mul (Nat.le_of_lt (lt_twoPow_log2 d))
          (lt_twoPow_log2 (n / d))
      _ = twoPow ((n / d).log2 + 1 + d.log2 + 1) := by
        rw [← twoPow_add]
        congr 1
        omega
  · rw [Nat.eq_zero_of_not_pos hPos, Nat.log2_zero]
    exact Nat.zero_le _

namespace Format

------------------------------------------------------------
-- Nearest Whole Numbers
------------------------------------------------------------

theorem div_le_nearest (n d : Nat) :
    n / d ≤ nearest n d := by
  unfold nearest
  dsimp only
  split
  · omega
  · split <;> omega

theorem nearest_le_succ (n d : Nat) :
    nearest n d ≤ n / d + 1 := by
  unfold nearest
  dsimp only
  split
  · omega
  · split <;> omega

/- A whole quotient is its own nearest whole number. -/
theorem nearest_mul_self
    (n : Nat)
    {d : Nat}
    (hPos : 0 < d) :
    nearest (n * d) d = n := by
  unfold nearest
  simp [Nat.mul_mod_left, Nat.mul_div_cancel n hPos, hPos]

theorem nearest_mul_right
    (n d : Nat)
    {c : Nat}
    (hPos : 0 < c) :
    nearest (n * c) (d * c) = nearest n d := by
  have hLess (r : Nat) : 2 * (r * c) < d * c ↔ 2 * r < d := by
    rw [← Nat.mul_assoc, Nat.mul_lt_mul_right hPos]
  have hMore (r : Nat) : d * c < 2 * (r * c) ↔ d < 2 * r := by
    rw [← Nat.mul_assoc, Nat.mul_lt_mul_right hPos]
  unfold nearest
  simp only [Nat.mul_div_mul_right n d hPos,
    Nat.mul_mod_mul_right, hLess, hMore]

/- The steps of a quotient are those of its whole part and rest. -/
theorem mul_div_eq
    (a w : Nat)
    {b : Nat}
    (hb : 0 < b) :
    a * w / b = a / b * w + a % b * w / b := by
  have hProduct : a * w = b * (a / b * w) + a % b * w := by
    rw [← Nat.mul_assoc, ← Nat.add_mul, Nat.div_add_mod]
  rw [hProduct, Nat.mul_add_div hb]

/-
  What is missing to the next whole number, in steps: those
  that follow the last whole step, less the rest of that one.
-/
theorem missing_mul_eq
    (a b w : Nat) :
    (b - a % b) * w =
      b * (w - a % b * w / b) - a % b * w % b := by
  have hSteps := Nat.div_add_mod (a % b * w) b
  rw [Nat.sub_mul, Nat.mul_sub]
  omega

/-
  If a quotient is rounded to one of an even count `w` of
  steps in each whole, its whole part grows by one exactly if
  at most half a step is missing.
-/
theorem nearest_mul_div
    (a : Nat)
    {b w : Nat}
    (hb : 0 < b)
    (hw : 0 < w)
    (hEven : w % 2 = 0) :
    nearest (a * w) b / w =
      if 2 * ((b - a % b) * w) ≤ b then a / b + 1
      else a / b := by
  have hFloor := mul_div_eq a w hb
  have hMissing := missing_mul_eq a b w
  have hMod : a * w % b = a % b * w % b :=
    (Nat.mod_mul_mod a w b).symm
  have hRest : a % b * w % b < b := Nat.mod_lt _ hb
  have hLess : a % b * w / b < w := by
    apply Nat.div_lt_of_lt_mul
    exact Nat.mul_lt_mul_of_pos_right (Nat.mod_lt a hb) hw
  -- `f` steps and a `rest` of one lie above the whole part `k`.
  unfold nearest
  simp only [hFloor, hMod, hMissing]
  generalize a % b * w % b = rest at hRest ⊢
  generalize a % b * w / b = f at hLess ⊢
  generalize a / b = k
  have hWhole (n : Nat) (hn : n < w) :
      (k * w + n) / w = k := by
    rw [Nat.mul_comm, Nat.mul_add_div hw,
      Nat.div_eq_of_lt hn, Nat.add_zero]
  by_cases hLast : f = w - 1
  · have hNext : (k * w + f + 1) / w = k + 1 := by
      have hSum : k * w + f + 1 = (k + 1) * w := by
        rw [Nat.add_mul]
        omega
      rw [hSum, Nat.mul_div_cancel _ hw]
    have hOne : b * (w - f) = b := by
      have hStep : w - f = 1 := by omega
      rw [hStep, Nat.mul_one]
    have hOdd : (k * w + f) % 2 = 1 := by
      have hMul : k * w % 2 = 0 := by
        rw [Nat.mul_mod, hEven, Nat.mul_zero, Nat.zero_mod]
      omega
    rw [hOne]
    split
    · rw [if_neg (by omega), hWhole _ hLess]
    · split
      · rw [if_pos (by omega), hNext]
      · rw [if_pos (by omega), hOdd, hNext]
  · have hTwo : 2 * b ≤ b * (w - f) := by
      rw [Nat.mul_comm 2 b]
      exact Nat.mul_le_mul_left b (by omega)
    have hFar : ¬ 2 * (b * (w - f) - rest) ≤ b := by omega
    rw [if_neg hFar]
    split
    · exact hWhole _ hLess
    · split
      · exact hWhole (f + 1) (by omega)
      · rw [Nat.add_assoc]
        exact hWhole _ (by omega)

------------------------------------------------------------
-- Rounded Quotients
------------------------------------------------------------

variable (format : Format)

/-
  The whole part of a rounded quotient is the exact one or one
  more.  It is one more exactly if what is missing to the next
  whole number is at most half the spacing of the format at
  the quotient.
-/
theorem roundQuotient_div
    (a : Nat)
    {b e : Nat}
    (hb : 0 < b)
    (hFine : format.spare (a * twoPow e / b) < e) :
    format.roundQuotient (a * twoPow e) b / twoPow e =
      if 2 * ((b - a % b) * twoPow e) ≤
          b * twoPow (format.spare (a * twoPow e / b)) then
        a / b + 1
      else
        a / b := by
  unfold roundQuotient
  generalize format.spare (a * twoPow e / b) = p at hFine
  have hStep := twoPow_pos p
  have hUnit : twoPow e = twoPow (e - p) * twoPow p := by
    rw [← twoPow_add]
    congr 1
    omega
  have hEven : twoPow (e - p) % 2 = 0 := by
    have hSucc : e - p = e - p - 1 + 1 := by omega
    rw [hSucc, twoPow_succ, Nat.mul_mod_right]
  have hHalf :
      2 * ((b - a % b) * (twoPow (e - p) * twoPow p)) ≤
          b * twoPow p ↔
        2 * ((b - a % b) * twoPow (e - p)) ≤ b := by
    rw [← Nat.mul_assoc (b - a % b), ← Nat.mul_assoc 2,
      Nat.mul_le_mul_right_iff hStep]
  simp only [hUnit, hHalf]
  rw [← Nat.mul_assoc a, nearest_mul_right _ _ hStep,
    Nat.mul_div_mul_right _ _ hStep,
    nearest_mul_div a hb (twoPow_pos _) hEven]

/- Nothing is rounded to nothing. -/
theorem roundQuotient_zero (b : Nat) :
    format.roundQuotient 0 b = 0 := by
  unfold roundQuotient nearest
  simp

/- Rounding does not leave the binade of a quotient downward. -/
theorem twoPow_log2_le_roundQuotient
    {a b : Nat}
    (hPos : 0 < a / b) :
    twoPow (a / b).log2 ≤ format.roundQuotient a b := by
  unfold roundQuotient
  have hStep := twoPow_pos (format.spare (a / b))
  have hDvd :
      twoPow (format.spare (a / b)) ∣
        twoPow (a / b).log2 := by
    apply twoPow_dvd
    unfold spare
    omega
  rcases hDvd with ⟨c, hc⟩
  have hFloor : c ≤ a / (b * twoPow (format.spare (a / b))) := by
    rw [← Nat.div_div_eq_div_mul,
      Nat.le_div_iff_mul_le hStep, Nat.mul_comm, ← hc]
    exact twoPow_log2_le hPos
  rw [hc, Nat.mul_comm]
  exact
    Nat.mul_le_mul_right _
      (Nat.le_trans hFloor (div_le_nearest _ _))

/- Rounding does not even double a quotient. -/
theorem roundQuotient_le (a b : Nat) :
    format.roundQuotient a b ≤ 2 * (a / b) + 1 := by
  have hStep : twoPow (format.spare (a / b)) ≤ a / b + 1 := by
    by_cases hPos : 0 < a / b
    · have hLeast := twoPow_log2_le hPos
      have hLess :
          twoPow (format.spare (a / b)) ≤
            twoPow (a / b).log2 :=
        twoPow_le (Nat.sub_le _ _)
      omega
    · rw [Nat.eq_zero_of_not_pos hPos, spare, Nat.log2_zero,
        Nat.zero_sub]
      exact Nat.le_refl 1
  unfold roundQuotient
  dsimp only
  generalize format.spare (a / b) = s at hStep ⊢
  have hNearest :=
    Nat.mul_le_mul_right (twoPow s)
      (nearest_le_succ a (b * twoPow s))
  have hFloor := Nat.div_mul_le_self (a / b) (twoPow s)
  rw [← Nat.div_div_eq_div_mul, Nat.add_mul] at hNearest
  omega

/- A number is at least halved if it is divided by four. -/
theorem roundQuotient_mul_le
    (a : Nat)
    {b c : Nat}
    (hPos : 0 < c)
    (hLarge : 4 * c ≤ b) :
    format.roundQuotient (a * c) b ≤ a / 2 + 1 := by
  have hRounded := roundQuotient_le format (a * c) b
  have hQuotient : a * c / b * 4 ≤ a := by
    apply Nat.le_of_mul_le_mul_right _ hPos
    calc
      a * c / b * 4 * c = a * c / b * (4 * c) :=
        Nat.mul_assoc _ _ _
      _ ≤ a * c / b * b := Nat.mul_le_mul_left _ hLarge
      _ ≤ a * c := Nat.div_mul_le_self _ _
  omega

------------------------------------------------------------
-- Exact Numbers
------------------------------------------------------------

/-
  Whether the format holds a count of grains exactly: nothing
  is set below the last place that it keeps.
-/
def Holds
    (format : Format)
    (grains : Nat) : Prop :=
  twoPow (format.spare grains) ∣ grains

variable {format}

theorem spare_le_spare
    {a b : Nat}
    (h : a ≤ b) :
    format.spare a ≤ format.spare b := by
  have hLog : a.log2 ≤ b.log2 := by
    by_cases hPos : 0 < a
    · rw [Nat.le_log2 (by omega)]
      exact Nat.le_trans (twoPow_log2_le hPos) h
    · have hZero : a = 0 := by omega
      rw [hZero]
      exact Nat.zero_le _
  unfold spare
  omega

/- A number with few places has few below the last one kept. -/
theorem spare_le_of_lt
    {a k : Nat}
    (hFew : a < twoPow (format.fractionBits + 1 + k)) :
    format.spare a ≤ k := by
  by_cases hPos : 0 < a
  · have hLog := (log2_lt_iff hPos).mpr hFew
    unfold spare
    omega
  · rw [Nat.eq_zero_of_not_pos hPos, spare, Nat.log2_zero]
    omega

/- Without its trailing places a number has few places. -/
theorem div_spare_lt
    (format : Format)
    (a : Nat) :
    a / twoPow (format.spare a) <
      twoPow (format.fractionBits + 1) := by
  rw [Nat.div_lt_iff_lt_mul (twoPow_pos _), ← twoPow_add]
  apply Nat.lt_of_lt_of_le (lt_twoPow_log2 a)
  apply twoPow_le
  unfold spare
  omega

/- Few places above a step are all kept. -/
theorem holds_mul_twoPow
    {n p : Nat}
    (hFew : n ≤ twoPow (format.fractionBits + 1)) :
    format.Holds (n * twoPow p) := by
  have hStep := twoPow_pos p
  unfold Holds
  by_cases hFull : n = twoPow (format.fractionBits + 1)
  · have hLog :
        (twoPow (format.fractionBits + 1 + p)).log2 =
          format.fractionBits + 1 + p :=
      Nat.log2_two_pow
    rw [hFull, ← twoPow_add, spare, hLog]
    exact twoPow_dvd (by omega)
  · have hBelow :
        n * twoPow p < twoPow (format.fractionBits + 1 + p) := by
      rw [twoPow_add]
      exact Nat.mul_lt_mul_of_pos_right (by omega) hStep
    have hSpare : format.spare (n * twoPow p) ≤ p :=
      spare_le_of_lt hBelow
    exact Nat.dvd_trans (twoPow_dvd hSpare) (Nat.dvd_mul_left _ _)

/- Rounding leaves alone what the format holds. -/
theorem roundQuotient_of_holds
    {a : Nat}
    (hHolds : format.Holds a) :
    format.roundQuotient a 1 = a := by
  have hStep := twoPow_pos (format.spare a)
  have hNearest :
      nearest a (twoPow (format.spare a)) =
        a / twoPow (format.spare a) := by
    rcases hHolds with
      ⟨n, hn⟩
    have hProduct : a = n * twoPow (format.spare a) := by
      rw [Nat.mul_comm, ← hn]
    generalize twoPow (format.spare a) = step at hStep hProduct
    rw [hProduct, nearest_mul_self n hStep,
      Nat.mul_div_cancel n hStep]
  unfold roundQuotient
  simp only [Nat.div_one, Nat.one_mul]
  rw [hNearest, Nat.div_mul_cancel hHolds]

/- What is rounded to the format is held by it. -/
theorem holds_roundQuotient
    (a b : Nat) :
    format.Holds (format.roundQuotient a b) := by
  have hKept := div_spare_lt format (a / b)
  unfold roundQuotient
  generalize format.spare (a / b) = p at hKept
  apply holds_mul_twoPow
  have hNearest := nearest_le_succ a (b * twoPow p)
  rw [← Nat.div_div_eq_div_mul] at hNearest
  omega

/- A remainder of numbers of the format is one of them. -/
theorem holds_mod
    {a b : Nat}
    (ha : format.Holds a)
    (hb : format.Holds b)
    (hPos : 0 < b) :
    format.Holds (a % b) := by
  by_cases hLess : a < b
  · rw [Nat.mod_eq_of_lt hLess]
    exact ha
  · have hRest : a % b < b := Nat.mod_lt a hPos
    have hStep : twoPow (format.spare b) ∣ a := by
      have hSpare : format.spare b ≤ format.spare a :=
        spare_le_spare (by omega)
      exact Nat.dvd_trans (twoPow_dvd hSpare) ha
    have hDvd : twoPow (format.spare b) ∣ a % b :=
      (Nat.dvd_mod_iff hb).mpr hStep
    have hSpare : format.spare (a % b) ≤ format.spare b :=
      spare_le_spare (by omega)
    exact Nat.dvd_trans (twoPow_dvd hSpare) hDvd

/- A format holds a number as well as twice the number. -/
theorem holds_mul
    {a : Nat}
    (hHolds : format.Holds a)
    (k : Nat) :
    format.Holds (a * twoPow k) := by
  rw [← Nat.div_mul_cancel hHolds, Nat.mul_assoc, ← twoPow_add]
  exact holds_mul_twoPow (Nat.le_of_lt (div_spare_lt format a))

/- The first two multiples of a number are held with it. -/
theorem holds_next_of_lt
    {a b : Nat}
    (hHolds : format.Holds b)
    (hCount : a / b < 2) :
    format.Holds ((a / b + 1) * b) := by
  rcases Nat.lt_succ_iff_lt_or_eq.mp hCount with
    hNone | hOne
  · rw [Nat.lt_one_iff.mp hNone, Nat.zero_add, Nat.one_mul]
    exact hHolds
  · rw [hOne, Nat.mul_comm]
    exact holds_mul hHolds 1

theorem add_missing
    (a : Nat)
    {b : Nat}
    (hb : 0 < b) :
    a + (b - a % b) = (a / b + 1) * b := by
  have hRest := Nat.mod_lt a hb
  have hSplit := Nat.div_add_mod' a b
  rw [Nat.add_mul]
  omega

/- What is missing to a number of the format is a whole step. -/
theorem twoPow_spare_le_missing
    {a b : Nat}
    (hb : 0 < b)
    (hHolds : format.Holds a)
    (hNext : format.Holds ((a / b + 1) * b)) :
    twoPow (format.spare a) ≤ b - a % b := by
  have hRest := Nat.mod_lt a hb
  have hReach := add_missing a hb
  have hSpare :
      format.spare a ≤ format.spare ((a / b + 1) * b) :=
    spare_le_spare (by omega)
  have hReached := Nat.dvd_trans (twoPow_dvd hSpare) hNext
  rw [← hReach, Nat.dvd_add_right hHolds] at hReached
  exact Nat.le_of_dvd (by omega) hReached

/- A quotient with no trailing places is far from a whole one. -/
theorem missing_of_spare_eq_zero
    {a b e : Nat}
    (hb : 0 < b)
    (hFine : format.fractionBits + 1 < e)
    (hLow : format.spare (a * twoPow e / b) = 0) :
    b < 2 * ((b - a % b) * twoPow e) := by
  have hQuotient :
      a * twoPow e < b * twoPow (format.fractionBits + 1) := by
    rw [Nat.mul_comm b, ← Nat.div_lt_iff_lt_mul hb]
    apply Nat.lt_of_lt_of_le (lt_twoPow_log2 _)
    apply twoPow_le
    unfold spare at hLow
    omega
  have hSmall :
      2 * (b * twoPow (format.fractionBits + 1)) ≤
        b * twoPow e := by
    rw [Nat.mul_left_comm, ← twoPow_succ]
    exact Nat.mul_le_mul_left b (twoPow_le hFine)
  have hFar :
      b * twoPow e ≤
        a * twoPow e + (b - a % b) * twoPow e := by
    rw [← Nat.add_mul, add_missing a hb]
    apply Nat.mul_le_mul_right
    exact Nat.le_mul_of_pos_left b (Nat.succ_pos _)
  have hWhole := Nat.le_mul_of_pos_right b (twoPow_pos e)
  omega

/-
  Above that a number bounds the spacing at its quotient: the
  quotient has as many places as the format keeps.
-/
theorem spacing_le
    {a b e : Nat}
    (hb : 0 < b)
    (hHigh : format.spare (a * twoPow e / b) ≠ 0) :
    twoPow format.fractionBits *
        (b * twoPow (format.spare (a * twoPow e / b))) ≤
      a * twoPow e := by
  have hLog :
      (a * twoPow e / b).log2 =
        format.fractionBits +
          format.spare (a * twoPow e / b) := by
    unfold spare at hHigh ⊢
    omega
  have hPos : 0 < a * twoPow e / b := by
    apply Nat.pos_of_ne_zero
    intro hZero
    rw [hZero, spare, Nat.log2_zero, Nat.zero_sub] at hHigh
    exact hHigh rfl
  rw [Nat.mul_comm b, ← Nat.mul_assoc, ← twoPow_add, ← hLog,
    ← Nat.le_div_iff_mul_le hb]
  exact twoPow_log2_le hPos

/-
  If the format holds a number and the next multiple of
  another, then what is missing to the multiple exceeds half
  the spacing of the format at their quotient.
-/
theorem missing_of_holds
    {a b e : Nat}
    (hb : 0 < b)
    (hFine : format.fractionBits + 1 < e)
    (hHolds : format.Holds a)
    (hNext : format.Holds ((a / b + 1) * b)) :
    b * twoPow (format.spare (a * twoPow e / b)) <
      2 * ((b - a % b) * twoPow e) := by
  by_cases hLow : format.spare (a * twoPow e / b) = 0
  · rw [hLow]
    exact
      Nat.lt_of_le_of_lt (Nat.le_of_eq (Nat.mul_one b))
        (missing_of_spare_eq_zero hb hFine hLow)
  · have hStep := twoPow_spare_le_missing hb hHolds hNext
    generalize b - a % b = missing at hStep ⊢
    apply Nat.lt_of_not_le
    intro hNear
    have hBound :
        twoPow (format.fractionBits + 1) * missing ≤ a := by
      apply Nat.le_of_mul_le_mul_right _ (twoPow_pos e)
      calc
        twoPow (format.fractionBits + 1) * missing * twoPow e =
            twoPow format.fractionBits *
              (2 * (missing * twoPow e)) := by
          rw [twoPow_succ, Nat.mul_comm 2]
          simp only [Nat.mul_assoc]
        _ ≤ twoPow format.fractionBits *
              (b * twoPow
                (format.spare (a * twoPow e / b))) :=
          Nat.mul_le_mul_left _ hNear
        _ ≤ a * twoPow e := spacing_le hb hLow
    have hPlaces := div_spare_lt format a
    have hLeast :
        twoPow (format.fractionBits + 1) ≤
          a / twoPow (format.spare a) := by
      rw [Nat.le_div_iff_mul_le (twoPow_pos _)]
      exact Nat.le_trans (Nat.mul_le_mul_left _ hStep) hBound
    omega

------------------------------------------------------------
-- Bits of Exact Numbers
------------------------------------------------------------

/- What bits say that denote a number without a sign. -/
theorem fields_of_decode
    {bits a : Nat}
    (hDecode : format.decode bits = .finite false a) :
    let fraction := bits % twoPow format.fractionBits
    let upper := bits / twoPow format.fractionBits
    let exponent := upper % twoPow format.exponentBits
    upper / twoPow format.exponentBits % 2 = 0 ∧
      exponent ≠ twoPow format.exponentBits - 1 ∧
      a =
        if exponent = 0 then fraction
        else
          (twoPow format.fractionBits + fraction) *
            twoPow (exponent - 1) := by
  unfold decode at hDecode
  dsimp only at hDecode ⊢
  split at hDecode
  · split at hDecode <;> contradiction
  · rename_i hNumber
    split at hDecode
    · rename_i hLow
      rw [if_pos hLow]
      rw [Value.finite.injEq, decide_eq_false_iff_not] at hDecode
      exact ⟨by omega, hNumber, hDecode.2.symm⟩
    · rename_i hLow
      rw [if_neg hLow]
      rw [Value.finite.injEq, decide_eq_false_iff_not] at hDecode
      exact ⟨by omega, hNumber, hDecode.2.symm⟩

/- Bits without a sign whose exponent is not full denote one. -/
theorem decode_of_fields
    {bits : Nat}
    (hSign :
      bits / twoPow format.fractionBits /
          twoPow format.exponentBits % 2 =
        0)
    (hNumber :
      bits / twoPow format.fractionBits %
          twoPow format.exponentBits ≠
        twoPow format.exponentBits - 1) :
    ∃ a, format.decode bits = .finite false a := by
  unfold decode
  dsimp only
  rw [if_neg hNumber, hSign]
  split
  · exact ⟨_, rfl⟩
  · exact ⟨_, rfl⟩

/- What bits denote is not too large. -/
theorem lt_limit_of_decode
    {bits a : Nat}
    (hWide : 1 < format.exponentBits)
    (hDecode : format.decode bits = .finite false a) :
    a < format.limit := by
  have hTop : 4 ≤ twoPow format.exponentBits :=
    twoPow_le hWide
  have hStep := twoPow_pos format.fractionBits
  have hFraction :
      bits % twoPow format.fractionBits <
        twoPow format.fractionBits :=
    Nat.mod_lt _ hStep
  have hBelow :
      bits / twoPow format.fractionBits %
          twoPow format.exponentBits <
        twoPow format.exponentBits :=
    Nat.mod_lt _ (twoPow_pos _)
  have hLimit (k : Nat) (hk : k + 3 ≤ twoPow format.exponentBits) :
      twoPow (format.fractionBits + 1) * twoPow k ≤
        format.limit := by
    rw [← twoPow_add]
    apply twoPow_le
    omega
  rcases fields_of_decode hDecode with
    ⟨_, hNumber, hFields⟩
  rw [hFields]
  split
  · have hLeast := hLimit 0 (by omega)
    rw [twoPow_succ, show twoPow 0 = 1 from rfl,
      Nat.mul_one] at hLeast
    omega
  · apply
      Nat.lt_of_lt_of_le _
        (hLimit
          (bits / twoPow format.fractionBits %
            twoPow format.exponentBits - 1)
          (by omega))
    apply Nat.mul_lt_mul_of_pos_right _ (twoPow_pos _)
    rw [twoPow_succ]
    omega

/- What bits denote is held by the format. -/
theorem holds_of_decode
    {bits a : Nat}
    (hDecode : format.decode bits = .finite false a) :
    format.Holds a := by
  rcases fields_of_decode hDecode with
    ⟨_, _, hFields⟩
  have hFraction :
      bits % twoPow format.fractionBits <
        twoPow format.fractionBits :=
    Nat.mod_lt _ (twoPow_pos _)
  rw [hFields]
  split
  · rw [← Nat.mul_one (bits % twoPow format.fractionBits)]
    apply @holds_mul_twoPow format _ 0
    rw [twoPow_succ]
    omega
  · apply holds_mul_twoPow
    rw [twoPow_succ]
    omega

/- What the two lower fields of bits without a sign denote. -/
theorem decode_fields
    {exponent fraction : Nat}
    (hFraction : fraction < twoPow format.fractionBits)
    (hExponent : exponent < twoPow format.exponentBits - 1) :
    format.decode
        (exponent * twoPow format.fractionBits + fraction) =
      .finite false
        (if exponent = 0 then fraction
        else
          (twoPow format.fractionBits + fraction) *
            twoPow (exponent - 1)) := by
  have hPos := twoPow_pos format.fractionBits
  have hLow :
      (exponent * twoPow format.fractionBits + fraction) %
        twoPow format.fractionBits = fraction := by
    rw [Nat.mul_comm, Nat.mul_add_mod,
      Nat.mod_eq_of_lt hFraction]
  have hHigh :
      (exponent * twoPow format.fractionBits + fraction) /
        twoPow format.fractionBits = exponent := by
    rw [Nat.mul_comm, Nat.mul_add_div hPos,
      Nat.div_eq_of_lt hFraction, Nat.add_zero]
  have hUpper : exponent % twoPow format.exponentBits = exponent :=
    Nat.mod_eq_of_lt (by omega)
  have hSign : exponent / twoPow format.exponentBits = 0 :=
    Nat.div_eq_of_lt (by omega)
  have hNumber : exponent ≠ twoPow format.exponentBits - 1 := by
    omega
  unfold decode
  simp only [hLow, hHigh, hUpper, hSign, if_neg hNumber]
  split <;> rfl

/- The bits of a number without a sign. -/
theorem encode_finite (a : Nat) :
    format.encode (.finite false a) =
      format.spare a * twoPow format.fractionBits +
        a / twoPow (format.spare a) :=
  Nat.zero_add _

/- The bits of finite numbers lie below those of infinity. -/
theorem encode_lt_infinity
    {a : Nat}
    (hWide : 1 < format.exponentBits)
    (hFinite : a < format.limit) :
    format.encode (.finite false a) < format.infinity := by
  have hTop : 4 ≤ twoPow format.exponentBits :=
    twoPow_le hWide
  have hPlaces := div_spare_lt format a
  rw [twoPow_succ] at hPlaces
  have hSpare :
      format.spare a + 2 ≤ twoPow format.exponentBits - 1 := by
    by_cases hPos : 0 < a
    · have hBelow := (log2_lt_iff hPos).mpr hFinite
      unfold spare
      omega
    · have hZero : a = 0 := by omega
      rw [hZero, spare, Nat.log2_zero]
      omega
  rw [encode_finite]
  calc
    format.spare a * twoPow format.fractionBits +
          a / twoPow (format.spare a) <
        format.spare a * twoPow format.fractionBits +
          2 * twoPow format.fractionBits :=
      Nat.add_lt_add_left hPlaces _
    _ = (format.spare a + 2) * twoPow format.fractionBits :=
      (Nat.add_mul _ _ _).symm
    _ ≤ format.infinity := Nat.mul_le_mul_right _ hSpare

/-
  The bits of a number that the format holds and that is not
  too large denote the number.
-/
theorem decode_encode
    {a : Nat}
    (hWide : 1 < format.exponentBits)
    (hHolds : format.Holds a)
    (hFinite : a < format.limit) :
    format.decode (format.encode (.finite false a)) =
      .finite false a := by
  have hTop : 4 ≤ twoPow format.exponentBits :=
    twoPow_le hWide
  rw [encode_finite]
  by_cases hLow : a < twoPow format.fractionBits
  · have hSpare : format.spare a = 0 := by
      by_cases hPos : 0 < a
      · have hLog := (log2_lt_iff hPos).mpr hLow
        unfold spare
        omega
      · have hZero : a = 0 := by omega
        rw [hZero, spare, Nat.log2_zero, Nat.zero_sub]
    have hWhole : a / twoPow 0 = a := Nat.div_one a
    rw [hSpare, hWhole, decode_fields hLow (by omega),
      if_pos rfl]
  · -- The leading place of the number carries into the exponent.
    have hPos : 0 < a := by
      have := twoPow_pos format.fractionBits
      omega
    have hLog :
        a.log2 = format.fractionBits + format.spare a := by
      have hAbove := mt (log2_lt_iff hPos).mp hLow
      unfold spare
      omega
    have hExponent :
        format.spare a + 1 < twoPow format.exponentBits - 1 := by
      have hBelow := (log2_lt_iff hPos).mpr hFinite
      omega
    have hLeast := twoPow_log2_le hPos
    have hMost := lt_twoPow_log2 a
    have hSplit := Nat.div_mul_cancel hHolds
    have hStep := twoPow_pos (format.spare a)
    rw [hLog, twoPow_add] at hLeast
    rw [hLog, Nat.add_right_comm, twoPow_add, twoPow_succ] at hMost
    generalize format.spare a = p at *
    generalize hPlaces : a / twoPow p = places at *
    rw [← hSplit] at hLeast hMost
    have hLead := Nat.le_of_mul_le_mul_right hLeast hStep
    have hNext := Nat.lt_of_mul_lt_mul_right hMost
    have hFields :
        p * twoPow format.fractionBits + places =
          (p + 1) * twoPow format.fractionBits +
            (places - twoPow format.fractionBits) := by
      rw [Nat.add_mul]
      omega
    rw [hFields, decode_fields (by omega) hExponent,
      if_neg (Nat.succ_ne_zero p), Nat.add_sub_cancel,
      Nat.add_sub_cancel' hLead, hSplit]

end Format

end Binary

end Chip8
