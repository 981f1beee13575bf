import Chip8.Proofs.DoubleOrder

/-
  This file shows that times are divided as the doubles that
  denote them, and what is left of a double that denotes a
  time when it is cut off to an integer.

  The main statements are:
    * `Grains.denotes_div`
    * `Grains.toNat_toUInt8`, `Grains.toNat_toUInt32`
-/

------------------------------------------------------------
-- Rounded Quotients
------------------------------------------------------------

namespace Chip8

open Binary

open Float.Model (UnpackedFloat)

open Float.Model.UnpackedFloat (ExtendedMantissa)

namespace Grains

/-
  A mantissa is widened before it is divided, so far that the
  quotient has enough places, or is one of grains.
-/
theorem divCore_eq
    {m n t u : Nat}
    (hm : 0 < m)
    (hn : 0 < n)
    (hLow : u ≤ t + 1074) :
    let places :=
      (m * twoPow (t + 1074)).log2 - 53 - (n * twoPow u).log2
    let g := min (t + 1074 - u) places
    let wide := m * twoPow (t + 1074 - u - g)
    UnpackedFloat.divCore .binary64 m (t - 1074) n (u - 1074) =
      (wide / n, (g : Int) - 1074,
        UnpackedFloat.accuracyOfFraction (wide % n) n) := by
  have hWidth :
      Float.Model.Format.binary64.mantissaBits = 53 :=
    rfl
  have hLeast :
      Float.Model.Format.binary64.minExponent = -1074 :=
    rfl
  dsimp only
  rw [log2_mul_twoPow hm, log2_mul_twoPow hn]
  have hTarget :
      min ((t : Int) - 1074 - (u - 1074))
          (Float.Model.Format.binary64.targetExponent
            (Float.Model.totalExponent m (t - 1074) -
              Float.Model.totalExponent n (u - 1074))) =
        ((min (t + 1074 - u)
          (m.log2 + (t + 1074) - 53 - (n.log2 + u)) : Nat) :
            Int) - 1074 := by
    unfold Float.Model.Format.targetExponent
      Float.Model.totalExponent
    rw [hWidth, hLeast]
    omega
  have hShift :
      ((t : Int) - 1074 - (u - 1074) -
          (((min (t + 1074 - u)
            (m.log2 + (t + 1074) - 53 - (n.log2 + u)) : Nat) :
              Int) - 1074)).toNat =
        t + 1074 - u -
          min (t + 1074 - u)
            (m.log2 + (t + 1074) - 53 - (n.log2 + u)) := by
    omega
  unfold UnpackedFloat.divCore
  dsimp only
  rw [hTarget, hShift, Nat.shiftLeft_eq]
  rfl

/-
  Two packed numbers are divided to the rounded quotient of
  what they count, unless the divisor is too large.
-/
theorem packs_div
    {m n t u : Nat}
    (hm : 0 < m)
    (hn : 0 < n)
    (hLow : u ≤ t + 1074) :
    Packs
      (.div .binary64 (.finite .positive m (t - 1074) hm)
        (.finite .positive n (u - 1074) hn))
      (binary64.roundQuotient (m * twoPow (t + 1074))
        (n * twoPow u)) := by
  have hDivisor : 0 < n * twoPow u :=
    Nat.mul_pos hn (twoPow_pos u)
  have hCore := divCore_eq hm hn hLow
  have hPlaces :=
    log2_le_add_log2_div (m * twoPow (t + 1074)) hDivisor
  dsimp only at hCore
  generalize hWidth :
    (m * twoPow (t + 1074)).log2 - 53 - (n * twoPow u).log2 =
      places
    at hCore
  generalize hScale : min (t + 1074 - u) places = g at hCore
  have hWide :
      m * twoPow (t + 1074 - u - g) * twoPow (u + g) =
        m * twoPow (t + 1074) := by
    rw [Nat.mul_assoc, ← twoPow_add]
    congr 2
    omega
  have hNarrow :
      n * twoPow (u + g) = n * twoPow u * twoPow g := by
    rw [twoPow_add, Nat.mul_assoc]
  have hFine :
      g ≤
        binary64.spare
          (m * twoPow (t + 1074) / (n * twoPow u)) := by
    change _ ≤ Nat.log2 _ - 52
    omega
  unfold UnpackedFloat.div
  dsimp only
  rw [hCore]
  exact packs_roundWithAccuracy hn hWide hNarrow hFine

/-
  Times are divided as the doubles that denote them, unless
  the divisor is huge.
-/
theorem denotes_div
    {x y : Float}
    {a b : Grains}
    (hx : Denotes x a)
    (hy : Denotes y b)
    (hPos : 0 < b)
    (hLow : b < twoPow 53 * binary64.unit)
    (hFinite :
      binary64.roundQuotient (a * binary64.unit) b <
        binary64.limit) :
    Denotes (x / y)
      (binary64.roundQuotient (a * binary64.unit) b) := by
  have hQuotient :
      (x / y).toBits.toBitVec =
        UnpackedFloat.pack .binary64
          (.div .binary64 x.toModel.unpack y.toModel.unpack) :=
    rfl
  have hDividend := packs_of_denotes hx
  have hDivisor := packs_of_denotes hy
  unfold Denotes
  change
    binary64.decode (x / y).toBits.toBitVec.toNat = _
  rw [hQuotient]
  apply decode_pack _ hFinite
  generalize x.toModel.unpack = left at hDividend ⊢
  generalize y.toModel.unpack = right at hDivisor ⊢
  rcases hDivisor with
    _ | ⟨hn, hPlacesRight, hLead⟩
  · exact absurd hPos (Nat.lt_irrefl 0)
  rename_i n u
  rcases hDividend with
    _ | ⟨hm, hPlacesLeft, hLeadLeft⟩
  · rw [Nat.zero_mul, Format.roundQuotient_zero]
    exact .zero
  rename_i m t
  have hExponent : u ≤ 1074 := by
    by_contra hLarge
    have hFull : twoPow 52 ≤ n :=
      hLead.resolve_right (by omega)
    have hStep : twoPow 1075 ≤ twoPow u :=
      twoPow_le (by omega)
    have hSame :
        twoPow 53 * binary64.unit =
          twoPow 52 * twoPow 1075 := by
      rw [Format.unit, ← twoPow_add, ← twoPow_add]
      rfl
    rw [hSame] at hLow
    exact
      Nat.not_lt.mpr (Nat.mul_le_mul hFull hStep) hLow
  have hUnit :
      m * twoPow t * binary64.unit = m * twoPow (t + 1074) := by
    rw [Format.unit, Nat.mul_assoc, ← twoPow_add]
    rfl
  rw [hUnit]
  exact packs_div hm hn (by omega)

------------------------------------------------------------
-- Integers of Doubles
------------------------------------------------------------

/- A double is cut off to the whole part of its time. -/
theorem toInt_of_packs
    {number : UnpackedFloat}
    {time : Grains}
    (hPacks : Packs number time)
    (least most : Int) :
    number.toInt least most = (time / binary64.unit : Nat) := by
  rcases hPacks with
    _ | ⟨hPos, hPlaces, hLead⟩
  · rw [Nat.zero_div]
    rfl
  rename_i m t
  have hWiden : ((t : Int) - 1074 - 0).toNat = t - 1074 := by
    omega
  have hDrop :
      (0 - ((t : Int) - 1074 - (t - 1074 : Nat))).toNat =
        1074 - t := by
    omega
  have hWhole :=
    (guards_exact_shiftRight (m * twoPow (t - 1074))
      (1074 - t)).whole
  have hScale :
      m * twoPow (t - 1074) / twoPow (1074 - t) =
        m * twoPow t / binary64.unit := by
    have hUnit :
        twoPow (1074 - t) * twoPow (min t 1074) =
          binary64.unit := by
      change _ = twoPow 1074
      rw [← twoPow_add]
      congr 1
      omega
    have hTime :
        m * twoPow (t - 1074) * twoPow (min t 1074) =
          m * twoPow t := by
      rw [Nat.mul_assoc, ← twoPow_add]
      congr 2
      omega
    rw [← hUnit, ← hTime,
      Nat.mul_div_mul_right _ _ (twoPow_pos (min t 1074))]
  unfold UnpackedFloat.toInt UnpackedFloat.roundToInt
    UnpackedFloat.decreaseExponent
    UnpackedFloat.shiftToExponent
  dsimp only
  rw [hWiden, hDrop, Nat.shiftLeft_eq, ← hScale, ← hWhole]
  rfl

theorem toNat_toUInt8
    {x : Float}
    {a : Grains}
    (hx : Denotes x a) :
    x.toUInt8.toNat = min (a / binary64.unit) 255 := by
  have hCut :
      x.toUInt8 =
        .ofNatClamp (x.toModel.unpack.toInt 0 255).toNat :=
    rfl
  rw [hCut, toInt_of_packs (packs_of_denotes hx),
    Int.toNat_natCast]
  generalize a / binary64.unit = count
  unfold UInt8.ofNatClamp
  split
  · rename_i hFits
    rw [UInt8.toNat_ofNatLT]
    exact (Nat.min_eq_left (Nat.le_of_lt_succ hFits)).symm
  · rename_i hLarge
    rw [UInt8.toNat_ofNatLT]
    have hMost := Nat.le_of_succ_le (Nat.not_lt.mp hLarge)
    exact (Nat.min_eq_right hMost).symm

theorem toNat_toUInt32
    {x : Float}
    {a : Grains}
    (hx : Denotes x a) :
    x.toUInt32.toNat = min (a / binary64.unit) 4294967295 := by
  have hCut :
      x.toUInt32 =
        .ofNatClamp
          (x.toModel.unpack.toInt 0 4294967295).toNat :=
    rfl
  rw [hCut, toInt_of_packs (packs_of_denotes hx),
    Int.toNat_natCast]
  generalize a / binary64.unit = count
  unfold UInt32.ofNatClamp
  split
  · rename_i hFits
    rw [UInt32.toNat_ofNatLT]
    exact (Nat.min_eq_left (Nat.le_of_lt_succ hFits)).symm
  · rename_i hLarge
    rw [UInt32.toNat_ofNatLT]
    have hMost := Nat.le_of_succ_le (Nat.not_lt.mp hLarge)
    exact (Nat.min_eq_right hMost).symm

end Grains

end Chip8
