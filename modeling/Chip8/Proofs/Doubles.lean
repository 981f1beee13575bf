import Chip8.Proofs.ClockRun
import Mathlib

/-
  This file shows that times are added as the doubles that
  denote them: the rounded sum of grains is what the sum of
  two doubles denotes.

  Key definitions include:
    * `Grains.Denotes`
    * `Grains.Guards`
    * `Grains.Packs`

  The main statements are:
    * `Grains.packs_unpack`, `Grains.decode_pack`
    * `Grains.packs_roundWithAccuracy`
    * `Grains.denotes_toMilliseconds`
    * `Grains.denotes_add`
-/

------------------------------------------------------------
-- Denoted Times
------------------------------------------------------------

namespace Chip8

open Binary

open Float.Model (UnpackedFloat)

open Float.Model.UnpackedFloat (ExtendedMantissa)

namespace Grains

/- Whether a double denotes a time. -/
def Denotes
    (number : Float)
    (time : Grains) : Prop :=
  binary64.decode number.toBits.toNat = .finite false time

instance
    (number : Float)
    (time : Grains) :
    Decidable (Denotes number time) :=
  inferInstanceAs (Decidable (_ = _))

/- A delta that denotes a positive time stands for it. -/
theorem ofMilliseconds?_of_denotes
    {delta : Float}
    {time : Grains}
    (hDelta : Denotes delta time)
    (hPos : 0 < time) :
    ofMilliseconds? delta = some time := by
  unfold ofMilliseconds?
  rw [hDelta]
  exact if_neg (Nat.ne_of_gt hPos)

------------------------------------------------------------
-- Guard Bits
------------------------------------------------------------

/-
  The guard bits of a shifted mantissa tell on which side of
  the middle a quotient lies between two whole numbers.
-/
structure Guards
    (mantissa : ExtendedMantissa)
    (n d : Nat) : Prop where
  whole : mantissa.mantissa = n / d
  round : mantissa.roundBit = true ↔ d ≤ 2 * (n % d)
  sticky :
    mantissa.stickyBit = true ↔
      n % d ≠ 0 ∧ 2 * (n % d) ≠ d

/- The rest of a division is kept in the guard bits. -/
theorem guards_fraction
    (n : Nat)
    {d : Nat}
    (hd : 0 < d) :
    Guards
      (.ofMantissaAndAccuracy (n / d)
        (UnpackedFloat.accuracyOfFraction (n % d) d))
      n d := by
  unfold UnpackedFloat.accuracyOfFraction
  by_cases hNone : n % d = 0
  · rw [if_pos hNone]
    constructor
    · rfl
    · exact iff_of_false Bool.false_ne_true (by omega)
    · exact iff_of_false Bool.false_ne_true (by omega)
  · rw [if_neg hNone]
    rcases Nat.lt_trichotomy (2 * (n % d)) d with
      hLess | hMiddle | hMore
    · rw [Nat.compare_eq_lt.mpr hLess]
      constructor
      · rfl
      · exact iff_of_false Bool.false_ne_true (by omega)
      · exact iff_of_true rfl (by omega)
    · rw [Nat.compare_eq_eq.mpr hMiddle]
      constructor
      · rfl
      · exact iff_of_true rfl (by omega)
      · exact iff_of_false Bool.false_ne_true (by omega)
    · rw [Nat.compare_eq_gt.mpr hMore]
      constructor
      · rfl
      · exact iff_of_true rfl (by omega)
      · exact iff_of_true rfl (by omega)

/- A whole number divided by one leaves no rest. -/
theorem guards_exact (n : Nat) :
    Guards (.ofMantissaAndAccuracy n .exact) n 1 := by
  have hWhole := guards_fraction n Nat.one_pos
  rw [Nat.div_one, Nat.mod_one] at hWhole
  exact hWhole

/- A shift by one place halves the quotient. -/
theorem guards_shiftRightOne
    {mantissa : ExtendedMantissa}
    {n d : Nat}
    (h : Guards mantissa n d)
    (hPos : 0 < d) :
    Guards mantissa.shiftRightOne n (d * 2) := by
  have hRest : n % d < d := Nat.mod_lt n hPos
  have hMod : n % (d * 2) = n % d + d * (n / d % 2) :=
    Nat.mod_mul
  have hParity := Nat.mod_two_eq_zero_or_one (n / d)
  constructor
  · rw [← Nat.div_div_eq_div_mul, ← h.whole]
    rfl
  · rw [hMod, ExtendedMantissa.shiftRightOne, h.whole,
      bne_iff_ne]
    rcases hParity with hEven | hOdd
    · rw [hEven]
      omega
    · rw [hOdd]
      omega
  · rw [hMod, ExtendedMantissa.shiftRightOne, Bool.or_eq_true,
      h.round, h.sticky]
    rcases hParity with hEven | hOdd
    · rw [hEven]
      omega
    · rw [hOdd]
      omega

theorem guards_shiftRight
    {mantissa : ExtendedMantissa}
    {n d : Nat}
    (h : Guards mantissa n d)
    (hPos : 0 < d)
    (k : Nat) :
    Guards (mantissa >>> k) n (d * twoPow k) := by
  induction k with
  | zero =>
      rw [show d * twoPow 0 = d from Nat.mul_one d]
      exact h
  | succ k ih =>
      rw [twoPow_succ, Nat.mul_comm 2, ← Nat.mul_assoc]
      exact
        guards_shiftRightOne ih
          (Nat.mul_pos hPos (twoPow_pos k))

theorem guards_exact_shiftRight
    (n k : Nat) :
    Guards
      (ExtendedMantissa.ofMantissaAndAccuracy n .exact >>> k)
      n (twoPow k) := by
  have hShifted :=
    guards_shiftRight (guards_exact n) Nat.one_pos k
  rw [Nat.one_mul] at hShifted
  exact hShifted

/- Guard bits are all that rounding to the nearest needs. -/
theorem roundedMantissa_of_guards
    {mantissa : ExtendedMantissa}
    {n d : Nat}
    (h : Guards mantissa n d)
    (hPos : 0 < d) :
    mantissa.roundedMantissa = Format.nearest n d := by
  rcases mantissa with
    ⟨whole, round, sticky⟩
  rcases h with
    ⟨hWhole, hRound, hSticky⟩
  dsimp only at hWhole hRound hSticky
  subst hWhole
  unfold Format.nearest ExtendedMantissa.roundedMantissa
  cases round <;> cases sticky <;>
    simp only [Bool.false_eq_true, false_iff, true_iff]
      at hRound hSticky
  · -- Nothing is left of the quotient.
    exact (if_pos (by omega)).symm
  · exact (if_pos (by omega)).symm
  · exact ((if_neg (by omega)).trans (if_neg (by omega))).symm
  · exact ((if_neg (by omega)).trans (if_pos (by omega))).symm

------------------------------------------------------------
-- Unpacked Numbers
------------------------------------------------------------

/-
  The numbers that are packed without a loss, and the times
  that they count: the exponent of a grain is -1074.  Their
  mantissa fills its places, or has the exponent of a grain.
-/
inductive Packs : UnpackedFloat → Grains → Prop
| zero :
    Packs (.zero .positive) 0
| finite
    {m t : Nat}
    (hPos : 0 < m)
    (hPlaces : m < twoPow 53)
    (hLead : twoPow 52 ≤ m ∨ t = 0) :
    Packs (.finite .positive m (t - 1074) hPos) (m * twoPow t)

theorem packs_of_eq
    {sign : UnpackedFloat.Sign}
    {k m t : Nat}
    {e : Int}
    {hPos : 0 < k}
    {time : Grains}
    (hSign : sign = .positive)
    (hMantissa : k = m)
    (hExponent : e = t - 1074)
    (hTime : time = m * twoPow t)
    (hPlaces : m < twoPow 53)
    (hLead : twoPow 52 ≤ m ∨ t = 0) :
    Packs (.finite sign k e hPos) time := by
  subst hSign hMantissa hExponent hTime
  exact .finite hPos hPlaces hLead

/- The fields of a double's bits. -/
theorem toNat_unpackMantissa (bits : BitVec 64) :
    (@UnpackedFloat.unpackMantissa .binary64 bits).toNat =
      bits.toNat % twoPow 52 := by
  rw [UnpackedFloat.unpackMantissa_def]
  simp [twoPow]

theorem toNat_unpackExponent (bits : BitVec 64) :
    (@UnpackedFloat.unpackExponent .binary64 bits).toNat =
      bits.toNat / twoPow 52 % twoPow 11 := by
  rw [UnpackedFloat.unpackExponent_def]
  simp [Nat.shiftRight_eq_div_pow, twoPow]

theorem toNat_unpackSign (bits : BitVec 64) :
    (@UnpackedFloat.unpackSign .binary64 bits).toNat =
      bits.toNat / twoPow 52 / twoPow 11 % 2 := by
  rw [UnpackedFloat.unpackSign_def]
  simp [Nat.shiftRight_eq_div_pow, twoPow,
    Nat.div_div_eq_div_mul]

/-
  A double that denotes a time unpacks to the number that
  counts it and is packed without a loss.
-/
theorem packs_unpack
    {bits : BitVec 64}
    {time : Grains}
    (hDecode :
      binary64.decode bits.toNat = .finite false time) :
    Packs (.unpack .binary64 bits) time := by
  rcases Format.fields_of_decode hDecode with
    ⟨hSign, hNumber, hTime⟩
  rw [binary64] at hSign hNumber hTime
  dsimp only at hSign hNumber hTime
  rw [← toNat_unpackSign] at hSign
  rw [← toNat_unpackExponent] at hNumber hTime
  rw [← toNat_unpackMantissa] at hTime
  have hPositive :
      UnpackedFloat.Sign.ofBitVec
          (@UnpackedFloat.unpackSign .binary64 bits) =
        .positive := by
    have hZero :
        @UnpackedFloat.unpackSign .binary64 bits = 0 :=
      BitVec.eq_of_toNat_eq hSign
    rw [hZero]
    rfl
  have hDouble : twoPow 53 = 2 * twoPow 52 := rfl
  fun_cases UnpackedFloat.unpack .binary64 bits with
  | case1 mantissa exponent _ _ hTop =>
    exact absurd (congrArg BitVec.toNat hTop) hNumber
  | case2 mantissa exponent hTop =>
    exact absurd (congrArg BitVec.toNat hTop) hNumber
  | case3 mantissa exponent _ _ _ hLow hZero =>
    have hExponent : exponent.toNat = 0 :=
      congrArg BitVec.toNat hLow
    have hMantissa : mantissa.toNat = 0 :=
      congrArg BitVec.toNat hZero
    rw [if_pos hExponent, hMantissa] at hTime
    have hZero :
        Packs
          (.zero
            (.ofBitVec
              (@UnpackedFloat.unpackSign .binary64 bits)))
          0 := by
      rw [hPositive]
      exact .zero
    rw [hTime]
    exact hZero
  | case4 mantissa exponent e _ _ _ hLow =>
    have hExponent : exponent.toNat = 0 :=
      congrArg BitVec.toNat hLow
    have hPlaces : mantissa.toNat < twoPow 52 := mantissa.isLt
    rw [if_pos hExponent] at hTime
    have hScale : e = (exponent.toNat : Int) - 1075 := rfl
    apply packs_of_eq (t := 0) hPositive rfl
    · omega
    · rw [hTime]
      exact (Nat.mul_one _).symm
    · omega
    · exact .inr rfl
  | case5 mantissa exponent e _ _ _ hLow =>
    have hExponent : exponent.toNat ≠ 0 := by
      intro h
      exact hLow (BitVec.eq_of_toNat_eq h)
    have hPlaces : mantissa.toNat < twoPow 52 := mantissa.isLt
    have hScale : e = (exponent.toNat : Int) - 1075 := rfl
    have hLead :
        (1#1 ++ mantissa).toNat = twoPow 52 + mantissa.toNat := by
      rw [BitVec.toNat_append,
        ← Nat.shiftLeft_add_eq_or_of_lt mantissa.isLt]
      rfl
    rw [if_neg hExponent] at hTime
    apply
      packs_of_eq (t := exponent.toNat - 1) hPositive hLead
    · omega
    · rw [hTime]
    · omega
    · omega

/- What packed fields without a sign denote. -/
theorem decode_packComponents
    (m : Nat)
    {exponent : Nat}
    (hExponent : exponent < 2047) :
    binary64.decode
        (UnpackedFloat.packComponents .binary64 .positive
          (.ofNat 11 exponent) (.ofNat 52 m)).toNat =
      .finite false
        (if exponent = 0 then m % twoPow 52
        else
          (twoPow 52 + m % twoPow 52) *
            twoPow (exponent - 1)) := by
  have hFraction : m % twoPow 52 < twoPow 52 :=
    Nat.mod_lt m (twoPow_pos 52)
  have hBits :
      (UnpackedFloat.packComponents .binary64 .positive
        (.ofNat 11 exponent) (.ofNat 52 m)).toNat =
        exponent * twoPow 52 + m % twoPow 52 := by
    unfold UnpackedFloat.packComponents
    rw [BitVec.toNat_append, BitVec.toNat_append,
      ← Nat.shiftLeft_add_eq_or_of_lt (BitVec.isLt _),
      ← Nat.shiftLeft_add_eq_or_of_lt (BitVec.isLt _),
      BitVec.toNat_ofNat, BitVec.toNat_ofNat,
      Nat.mod_eq_of_lt (show exponent < 2 ^ 11 by omega)]
    simp [Nat.shiftLeft_eq, UnpackedFloat.Sign.toBitVec, twoPow]
  rw [hBits]
  exact
    @Format.decode_fields binary64 exponent (m % twoPow 52)
      hFraction hExponent

/- A time that is not too large bounds its exponent. -/
theorem exponent_lt
    {m t : Nat}
    (hLead : twoPow 52 ≤ m ∨ t = 0)
    (hFinite : m * twoPow t < binary64.limit) :
    t < 2046 := by
  by_contra hLarge
  have hFull : twoPow 52 ≤ m :=
    hLead.resolve_right (by omega)
  have hStep : twoPow 2046 ≤ twoPow t :=
    twoPow_le (by omega)
  have hLimit :
      binary64.limit = twoPow 52 * twoPow 2046 := by
    rw [← twoPow_add]
    rfl
  rw [hLimit] at hFinite
  exact Nat.not_lt.mpr (Nat.mul_le_mul hFull hStep) hFinite

/- A packed number denotes the time that it counts. -/
theorem decode_pack
    {number : UnpackedFloat}
    {time : Grains}
    (hPacks : Packs number time)
    (hFinite : time < binary64.limit) :
    binary64.decode
        (UnpackedFloat.pack .binary64 number).toNat =
      .finite false time := by
  rcases hPacks with
    _ | ⟨hPos, hPlaces, hLead⟩
  · rfl
  rename_i m t
  have hTop := exponent_lt hLead hFinite
  have hWidth :
      Float.Model.Format.binary64.mantissaBits = 53 :=
    rfl
  have hBiased :
      ((t : Int) - 1074 +
          Float.Model.Format.binary64.exponentBias +
          (52 : Nat)).toNat =
        t + 1 := by
    have hBias :
        Float.Model.Format.binary64.exponentBias = 1023 :=
      rfl
    omega
  have hDouble : twoPow 53 = 2 * twoPow 52 := rfl
  unfold UnpackedFloat.pack
  dsimp only
  rw [hBiased, hWidth, if_neg (by omega)]
  by_cases hFull : twoPow 52 ≤ m
  · -- The leading place is not written.
    have hLog : m.log2 + 1 = 53 := by
      have hBelow := (log2_lt_iff hPos).mpr hPlaces
      have hAbove :=
        (Nat.le_log2 (Nat.ne_of_gt hPos)).mpr hFull
      omega
    have hRest : m % twoPow 52 = m - twoPow 52 := by
      rw [Nat.mod_eq_sub_mod hFull]
      exact Nat.mod_eq_of_lt (by omega)
    rw [if_pos hLog, decode_packComponents m (by omega),
      if_neg (Nat.succ_ne_zero t), Nat.add_sub_cancel, hRest,
      Nat.add_sub_cancel' hFull]
  · have hLog : m.log2 + 1 ≠ 53 := by
      have hBelow :=
        (log2_lt_iff hPos).mpr (Nat.not_le.mp hFull)
      omega
    have hGrain : t = 0 := hLead.resolve_left hFull
    rw [if_neg hLog]
    refine (decode_packComponents m (by omega)).trans ?_
    rw [if_pos rfl, Nat.mod_eq_of_lt (Nat.not_le.mp hFull),
      hGrain]
    exact congrArg _ (Nat.mul_one m).symm

------------------------------------------------------------
-- Rounded Quotients
------------------------------------------------------------

/-
  A mantissa that is the upper part of a time is rounded at
  the last place that is kept of the time.
-/
theorem targetExponent_eq
    {m t : Nat}
    {time : Grains}
    (hWhole : time / twoPow t = m)
    (hKept : 0 < m ∨ t = 0) :
    Float.Model.Format.binary64.targetExponent
        (Float.Model.totalExponent m (t - 1074)) =
      (binary64.spare time : Int) - 1074 := by
  have hWidth :
      Float.Model.Format.binary64.mantissaBits = 53 :=
    rfl
  have hLeast :
      Float.Model.Format.binary64.minExponent = -1074 :=
    rfl
  have hLog : time.log2 = m.log2 + t := by
    have hUpper := log2_div_twoPow time t
    have hLarge : t ≤ time.log2 := by
      rcases hKept with
        hPos | rfl
      · rw [← hWhole, Nat.div_pos_iff] at hPos
        have hTime := Nat.lt_of_lt_of_le hPos.1 hPos.2
        exact
          (Nat.le_log2 (Nat.ne_of_gt hTime)).mpr hPos.2
      · exact Nat.zero_le _
    rw [hWhole] at hUpper
    omega
  rw [Format.spare, hLog, binary64]
  unfold Float.Model.Format.targetExponent
    Float.Model.totalExponent
  rw [hWidth, hLeast]
  dsimp only
  omega

theorem shiftToTargetExponent_eq
    {m t : Nat}
    {time : Grains}
    (hWhole : time / twoPow t = m)
    (hKept : 0 < m ∨ t = 0)
    (accuracy : UnpackedFloat.Accuracy) :
    let lost := binary64.spare time - t
    UnpackedFloat.shiftToTargetExponent .binary64 m
        (t - 1074) accuracy =
      (ExtendedMantissa.ofMantissaAndAccuracy m accuracy >>>
          lost,
        ((t + lost : Nat) : Int) - 1074) := by
  have hLost :
      ((binary64.spare time : Int) - 1074 -
          (t - 1074)).toNat =
        binary64.spare time - t := by
    omega
  unfold UnpackedFloat.shiftToTargetExponent
    UnpackedFloat.shiftToExponent
  dsimp only
  rw [targetExponent_eq hWhole hKept, hLost]
  congr 1
  omega

/- A rounded mantissa fills its places, or one more. -/
theorem rounded_places
    (a b : Nat) :
    let s := binary64.spare (a / b)
    let n := Format.nearest a (b * twoPow s)
    n ≤ twoPow 53 ∧ (twoPow 52 ≤ n ∨ s = 0) := by
  dsimp only
  generalize hSpare : binary64.spare (a / b) = s
  have hFloor := Format.div_le_nearest a (b * twoPow s)
  have hCeil := Format.nearest_le_succ a (b * twoPow s)
  have hBelow : a / b / twoPow s < twoPow 53 := by
    rw [← hSpare]
    exact Format.div_spare_lt binary64 (a / b)
  rw [Nat.div_div_eq_div_mul] at hBelow
  refine ⟨by omega, ?_⟩
  by_cases hLow : s = 0
  · exact .inr hLow
  · have hLog : (a / b).log2 = 52 + s := by
      change (a / b).log2 - 52 = s at hSpare
      omega
    have hLeast : twoPow (52 + s) ≤ a / b := by
      rw [← hLog]
      apply twoPow_log2_le
      apply Nat.pos_of_ne_zero
      intro hZero
      rw [hZero, Nat.log2_zero] at hLog
      omega
    rw [twoPow_add, ← Nat.le_div_iff_mul_le (twoPow_pos s),
      Nat.div_div_eq_div_mul] at hLeast
    exact .inl (Nat.le_trans hLeast hFloor)

/-
  A mantissa that is too long by one place is a power of two,
  and the place is lost without a loss.
-/
theorem carried_places
    {n s : Nat}
    (hPos : 0 < n)
    (hMost : n ≤ twoPow 53)
    (hLead : twoPow 52 ≤ n ∨ s = 0) :
    let lost := binary64.spare (n * twoPow s) - s
    0 < n / twoPow lost ∧
      n / twoPow lost * twoPow (s + lost) = n * twoPow s ∧
      n / twoPow lost < twoPow 53 ∧
      (twoPow 52 ≤ n / twoPow lost ∨ s + lost = 0) := by
  have hSpare :
      binary64.spare (n * twoPow s) = n.log2 + s - 52 := by
    rw [← log2_mul_twoPow hPos]
    rfl
  dsimp only
  rw [hSpare]
  by_cases hLong : n = twoPow 53
  · have hLog : n.log2 = 53 := by
      rw [hLong]
      exact Nat.log2_two_pow
    have hLost : n.log2 + s - 52 - s = 1 := by
      omega
    have hHalf : twoPow 53 / twoPow 1 = twoPow 52 := by
      decide +kernel
    have hSame :
        twoPow 52 * twoPow (s + 1) = twoPow 53 * twoPow s := by
      rw [← twoPow_add, ← twoPow_add]
      congr 1
      omega
    rw [hLost, hLong, hHalf]
    exact
      ⟨twoPow_pos 52, hSame, by decide +kernel,
        .inl (Nat.le_refl _)⟩
  · have hLog : n.log2 < 53 :=
      (log2_lt_iff hPos).mpr (by omega)
    have hLost : n.log2 + s - 52 - s = 0 := by
      omega
    have hNone : n / twoPow 0 = n := Nat.div_one n
    rw [hLost, hNone]
    exact ⟨hPos, rfl, by omega, hLead⟩

/-
  A rounded mantissa is shifted once more, in case that it is
  too long, and can then be packed.
-/
theorem packs_of_shift
    {m n s : Nat}
    {e : Int}
    {accuracy : UnpackedFloat.Accuracy}
    {mantissa : ExtendedMantissa}
    (hShift :
      UnpackedFloat.shiftToTargetExponent .binary64 m e
          accuracy =
        (mantissa, (s : Int) - 1074))
    (hRounded : mantissa.roundedMantissa = n)
    (hMost : n ≤ twoPow 53)
    (hLead : twoPow 52 ≤ n ∨ s = 0) :
    Packs
      (UnpackedFloat.roundWithAccuracy .binary64 .positive m e
        accuracy)
      (n * twoPow s) := by
  unfold UnpackedFloat.roundWithAccuracy
  rw [hShift]
  dsimp only
  rw [hRounded]
  by_cases hPos : 0 < n
  · rcases carried_places hPos hMost hLead with
      ⟨hn, hSame, hPlaces, hFull⟩
    have hWhole :=
      (guards_exact_shiftRight n
        (binary64.spare (n * twoPow s) - s)).whole
    rw [shiftToTargetExponent_eq
      (Nat.mul_div_cancel n (twoPow_pos s)) (.inl hPos) .exact]
    dsimp only
    rw [dif_neg (by rw [hWhole]; omega)]
    exact packs_of_eq rfl hWhole rfl hSame.symm hPlaces hFull
  · rw [Nat.eq_zero_of_not_pos hPos, Nat.zero_mul]
    unfold UnpackedFloat.shiftToTargetExponent
      UnpackedFloat.shiftToExponent
    dsimp only
    rw [dif_pos]
    · exact .zero
    · exact
        (guards_exact_shiftRight 0 _).whole.trans
          (Nat.zero_div _)

/-
  Rounding a quotient of mantissas gives the rounded quotient
  of what they count, as long as no place that is kept was
  dropped before.
-/
theorem packs_roundWithAccuracy
    {w d c g : Nat}
    {a b : Grains}
    (hd : 0 < d)
    (hLeft : w * twoPow c = a)
    (hRight : d * twoPow c = b * twoPow g)
    (hFine : g ≤ binary64.spare (a / b)) :
    Packs
      (UnpackedFloat.roundWithAccuracy .binary64 .positive
        (w / d) (g - 1074)
        (UnpackedFloat.accuracyOfFraction (w % d) d))
      (binary64.roundQuotient a b) := by
  have hPlaces := rounded_places a b
  unfold Format.roundQuotient
  dsimp only at hPlaces ⊢
  have hWhole : a / b / twoPow g = w / d := by
    rw [Nat.div_div_eq_div_mul, ← hRight, ← hLeft,
      Nat.mul_div_mul_right w d (twoPow_pos c)]
  have hKept : 0 < w / d ∨ g = 0 := by
    rw [← hWhole]
    by_cases hNone : g = 0
    · exact .inr hNone
    · have hLog : g ≤ (a / b).log2 :=
        Nat.le_trans hFine (Nat.sub_le _ _)
      have hNonzero : a / b ≠ 0 := by
        intro hZero
        rw [hZero, Nat.log2_zero] at hLog
        omega
      exact
        .inl
          (Nat.div_pos ((Nat.le_log2 hNonzero).mp hLog)
            (twoPow_pos g))
  have hShift :=
    shiftToTargetExponent_eq hWhole hKept
      (UnpackedFloat.accuracyOfFraction (w % d) d)
  dsimp only at hShift
  rw [Nat.add_sub_cancel' hFine] at hShift
  generalize binary64.spare (a / b) = s at *
  have hRounded :
      (ExtendedMantissa.ofMantissaAndAccuracy (w / d)
          (UnpackedFloat.accuracyOfFraction (w % d) d) >>>
          (s - g)).roundedMantissa =
        Format.nearest a (b * twoPow s) := by
    rw [roundedMantissa_of_guards
        (guards_shiftRight (guards_fraction w hd) hd (s - g))
        (Nat.mul_pos hd (twoPow_pos _)),
      ← Format.nearest_mul_right _ _ (twoPow_pos c), hLeft,
      Nat.mul_right_comm, hRight, Nat.mul_assoc, ← twoPow_add,
      Nat.add_sub_cancel' hFine]
  exact packs_of_shift hShift hRounded hPlaces.1 hPlaces.2

/-
  Rounding first widens a mantissa to the exponent that it is
  rounded at.
-/
theorem packs_round
    {m : Nat}
    (hPos : 0 < m)
    (t : Nat) :
    Packs
      (UnpackedFloat.round .binary64 .positive m (t - 1074))
      (binary64.roundQuotient (m * twoPow t) 1) := by
  generalize hSpare : binary64.spare (m * twoPow t) = s
  have hWidened :
      m * twoPow (t - s) * twoPow (t - (t - s)) =
        m * twoPow t := by
    rw [Nat.mul_assoc, ← twoPow_add]
    congr 2
    omega
  have hRound :
      UnpackedFloat.round .binary64 .positive m (t - 1074) =
        UnpackedFloat.roundWithAccuracy .binary64 .positive
          (m * twoPow (t - s))
          ((t - (t - s) : Nat) - 1074) .exact := by
    have hWiden :
        ((t : Int) - 1074 - ((s : Int) - 1074)).toNat =
          t - s := by
      omega
    have hScale :
        (t : Int) - 1074 - (t - s : Nat) =
          (t - (t - s) : Nat) - 1074 := by
      omega
    unfold UnpackedFloat.round UnpackedFloat.decreaseExponent
    dsimp only
    rw [targetExponent_eq
        (Nat.mul_div_cancel m (twoPow_pos t)) (.inl hPos),
      hSpare, hWiden, hScale, Nat.shiftLeft_eq]
    rfl
  have hFine :
      t - (t - s) ≤ binary64.spare (m * twoPow t / 1) := by
    rw [Nat.div_one, hSpare]
    omega
  have hPacks :=
    packs_roundWithAccuracy Nat.one_pos hWidened rfl hFine
  rw [Nat.div_one, Nat.mod_one] at hPacks
  rw [hRound]
  exact hPacks

------------------------------------------------------------
-- Rounded Sums
------------------------------------------------------------

/- Two exact mantissas are added before they are rounded. -/
theorem add_finite
    {m n : Nat}
    (hm : 0 < m)
    (hn : 0 < n)
    (t u : Nat) :
    UnpackedFloat.add .binary64
        (.finite .positive m (t - 1074) hm)
        (.finite .positive n (u - 1074) hn) =
      UnpackedFloat.round .binary64 .positive
        (m * twoPow (t - min t u) + n * twoPow (u - min t u))
        ((min t u : Nat) - 1074) := by
  have hScale :
      min ((t : Int) - 1074) ((u : Int) - 1074) =
        ((min t u : Nat) : Int) - 1074 := by
    omega
  have hWidenLeft :
      ((t : Int) - 1074 - ((min t u : Nat) - 1074)).toNat =
        t - min t u := by
    omega
  have hWidenRight :
      ((u : Int) - 1074 - ((min t u : Nat) - 1074)).toNat =
        u - min t u := by
    omega
  unfold UnpackedFloat.add UnpackedFloat.decreaseExponent
  dsimp only
  rw [hScale, hWidenLeft, hWidenRight, Nat.shiftLeft_eq,
    Nat.shiftLeft_eq]
  unfold UnpackedFloat.normalize
  have hExact :
      UnpackedFloat.Sign.positive.apply
            (m * 2 ^ (t - min t u) : Nat) +
          UnpackedFloat.Sign.positive.apply
            (n * 2 ^ (u - min t u) : Nat) =
        ((m * twoPow (t - min t u) +
          n * twoPow (u - min t u) : Nat) : Int) :=
    rfl
  have hPos :
      0 < m * twoPow (t - min t u) + n * twoPow (u - min t u) :=
    Nat.add_pos_left (Nat.mul_pos hm (twoPow_pos _)) _
  have hCompare :
      compare
          ((m * twoPow (t - min t u) +
            n * twoPow (u - min t u) : Nat) : Int) 0 =
        .gt :=
    compare_gt_iff_gt.mpr (Int.natCast_pos.mpr hPos)
  rw [hExact, hCompare]
  rfl

/-
  If two doubles denote times, and the rounded sum of these is
  not too large, then the sum of the doubles denotes it.
-/
theorem denotes_add
    {x y : Float}
    {a b : Grains}
    (hx : Denotes x a)
    (hy : Denotes y b)
    (hFinite : add a b < binary64.limit) :
    Denotes (x + y) (add a b) := by
  have hRepack (z : Float) :
      UnpackedFloat.pack .binary64
          (.unpack .binary64 z.toBits.toBitVec) =
        z.toBits.toBitVec :=
    UnpackedFloat.pack_unpack_of_valid z.toModel.valid
  have hSum :
      (x + y).toBits.toBitVec =
        UnpackedFloat.pack .binary64
          (.add .binary64
            (.unpack .binary64 x.toBits.toBitVec)
            (.unpack .binary64 y.toBits.toBitVec)) :=
    rfl
  have hLeft := hRepack x
  have hRight := hRepack y
  have hPacksLeft := packs_unpack hx
  have hPacksRight := packs_unpack hy
  unfold Denotes
  change
    binary64.decode (x + y).toBits.toBitVec.toNat = _
  rw [hSum]
  generalize
    UnpackedFloat.unpack .binary64 x.toBits.toBitVec = left
    at hPacksLeft hLeft ⊢
  generalize
    UnpackedFloat.unpack .binary64 y.toBits.toBitVec = right
    at hPacksRight hRight ⊢
  cases hPacksLeft with
  | zero =>
    have hAdd :
        UnpackedFloat.add .binary64 (.zero .positive) right =
          right := by
      cases hPacksRight <;> rfl
    have hSame : add 0 b = b := by
      rw [add, Nat.zero_add]
      exact
        Format.roundQuotient_of_holds (Format.holds_of_decode hy)
    rw [hAdd, hRight, hSame]
    exact hy
  | finite hm hPlacesLeft hLeadLeft =>
    rename_i m t
    cases hPacksRight with
    | zero =>
      have hSame : add (m * twoPow t) 0 = m * twoPow t := by
        rw [add, Nat.add_zero]
        exact
          Format.roundQuotient_of_holds
            (Format.holds_of_decode hx)
      rw [hSame, ← hx]
      exact congrArg (binary64.decode ·.toNat) hLeft
    | finite hn hPlacesRight hLeadRight =>
      rename_i n u
      have hPos :
          0 < m * twoPow (t - min t u) +
            n * twoPow (u - min t u) :=
        Nat.add_pos_left (Nat.mul_pos hm (twoPow_pos _)) _
      have hExact :
          (m * twoPow (t - min t u) +
              n * twoPow (u - min t u)) * twoPow (min t u) =
            m * twoPow t + n * twoPow u := by
        rw [Nat.add_mul, Nat.mul_assoc, Nat.mul_assoc,
          ← twoPow_add, ← twoPow_add,
          Nat.sub_add_cancel (Nat.min_le_left t u),
          Nat.sub_add_cancel (Nat.min_le_right t u)]
      have hPacks := packs_round hPos (min t u)
      rw [hExact] at hPacks
      rw [add_finite hm hn]
      exact decode_pack hPacks hFinite

/- Bits that denote a time are kept as they are. -/
theorem denotes_ofBits
    {bits : UInt64}
    {time : Grains}
    (hDecode :
      binary64.decode bits.toNat = .finite false time) :
    Denotes (Float.ofBits bits) time := by
  rcases Format.fields_of_decode hDecode with
    ⟨_, hNumber, _⟩
  have hField := toNat_unpackExponent bits.toBitVec
  have hPack :=
    @UnpackedFloat.pack_unpack .binary64 bits.toBitVec
      (by decide)
  rw [if_neg] at hPack
  · exact
      (congrArg (binary64.decode ·.toNat) hPack).trans hDecode
  · intro hNaN
    unfold UnpackedFloat.isNaNBits at hNaN
    rw [decide_eq_true_eq] at hNaN
    have hTop := congrArg BitVec.toNat hNaN.1
    exact hNumber (hField.symm.trans hTop)

/- A time is denoted by its double. -/
theorem denotes_toMilliseconds
    {a : Grains}
    (hHolds : binary64.Holds a)
    (hFinite : a < binary64.limit) :
    Denotes a.toMilliseconds a := by
  have hDecode := Format.decode_encode (by decide) hHolds hFinite
  have hBelow : binary64.encode (.finite false a) < 2 ^ 64 :=
    Nat.lt_trans
      (Format.encode_lt_infinity (by decide) hFinite)
      (by decide +kernel)
  have hBits :
      (UInt64.ofNat (binary64.encode (.finite false a))).toNat =
        binary64.encode (.finite false a) :=
    UInt64.toNat_ofNat_of_lt hBelow
  apply denotes_ofBits
  rw [hBits]
  exact hDecode

end Grains

end Chip8
