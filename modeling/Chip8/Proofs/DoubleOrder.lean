import Chip8.Proofs.Doubles

/-
  This file shows that doubles which denote times are finite
  and compare as the times do, and which doubles denote none.

  Key definitions include:
    * `Grains.Idle`

  The main statements are:
    * `Grains.lt_of_denotes`
    * `Grains.idle_or_denotes`
    * `Grains.not_idle_of_denotes`
-/

------------------------------------------------------------
-- Order of Packed Numbers
------------------------------------------------------------

namespace Chip8

open Binary

open Float.Model (UnpackedFloat)

namespace Grains

/-
  Numbers that are packed without a loss compare as the times
  that they count: a greater exponent is a greater number,
  since the mantissa below it fills its places.
-/
theorem lt_of_packs
    {left right : UnpackedFloat}
    {a b : Grains}
    (hLeft : Packs left a)
    (hRight : Packs right b)
    (hLess : a < b) :
    left.lt right = true := by
  rcases hRight with
    _ | ⟨hn, hPlacesRight, hLeadRight⟩
  · exact absurd hLess (Nat.not_lt_zero a)
  rename_i n u
  rcases hLeft with
    _ | ⟨hm, hPlacesLeft, hLeadLeft⟩
  · rfl
  rename_i m t
  have hCompare :
      ((compare ((t : Int) - 1074) ((u : Int) - 1074)).then
        (compare m n)) = .lt := by
    rcases Nat.lt_trichotomy t u with
      hBelow | hSame | hAbove
    · rw [Int.compare_eq_lt.mpr (by omega)]
      rfl
    · subst hSame
      have hMantissa : m < n :=
        Nat.lt_of_mul_lt_mul_right hLess
      rw [Int.compare_eq_eq.mpr rfl,
        Nat.compare_eq_lt.mpr hMantissa]
      rfl
    · -- The greater exponent would count a greater time.
      have hFull : twoPow 52 ≤ m :=
        hLeadLeft.resolve_right (by omega)
      have hCarry : n * twoPow u ≤ m * twoPow t := by
        calc
          n * twoPow u ≤ twoPow 53 * twoPow u :=
            Nat.mul_le_mul_right _ (Nat.le_of_lt hPlacesRight)
          _ = twoPow 52 * twoPow (u + 1) := by
            rw [← twoPow_add, ← twoPow_add, Nat.add_comm u 1,
              ← Nat.add_assoc]
          _ ≤ m * twoPow t :=
            Nat.mul_le_mul hFull (twoPow_le hAbove)
      exact absurd hLess (Nat.not_lt.mpr hCarry)
  exact beq_iff_eq.mpr (congrArg some hCompare)

------------------------------------------------------------
-- Order of Doubles
------------------------------------------------------------

variable {x y : Float}
variable {a b : Grains}

/- The comparisons of doubles are those of unpacked numbers. -/
theorem float_lt_iff (x y : Float) :
    x < y ↔ x.toModel.unpack.lt y.toModel.unpack = true :=
  decide_eq_true_iff (p := x.toModel < y.toModel)

theorem float_le_iff (x y : Float) :
    x ≤ y ↔ x.toModel.unpack.le y.toModel.unpack = true :=
  decide_eq_true_iff (p := x.toModel ≤ y.toModel)

theorem float_beq (x y : Float) :
    (x == y) = x.toModel.unpack.beq y.toModel.unpack :=
  rfl

theorem packs_of_denotes
    (hx : Denotes x a) :
    Packs x.toModel.unpack a :=
  packs_unpack hx

theorem isFinite_of_denotes
    (hx : Denotes x a) :
    x.isFinite = true := by
  have hPacks := packs_of_denotes hx
  change x.toModel.unpack.isFinite = true
  generalize x.toModel.unpack = number at hPacks ⊢
  cases hPacks <;> rfl

/- A double that denotes a time is not negative. -/
theorem nonneg_of_denotes
    (hx : Denotes x a) :
    0 ≤ x := by
  have hPacks := packs_of_denotes hx
  rw [float_le_iff]
  change (UnpackedFloat.zero .positive).le _ = true
  generalize x.toModel.unpack = number at hPacks ⊢
  cases hPacks <;> rfl

/- Doubles that denote times compare as the times. -/
theorem lt_of_denotes
    (hx : Denotes x a)
    (hy : Denotes y b)
    (hLess : a < b) :
    x < y := by
  rw [float_lt_iff]
  exact
    lt_of_packs (packs_of_denotes hx) (packs_of_denotes hy)
      hLess

------------------------------------------------------------
-- Idle Deltas
------------------------------------------------------------

/- A double that is no time: zero, negative or not finite. -/
def Idle (delta : Float) : Prop :=
  (delta == 0) = true ∨
    delta < 0 ∨
    delta.isNaN = true ∨
    delta.isInf = true

/- What is idle does not unpack to a positive number. -/
theorem idle_iff (delta : Float) :
    Idle delta ↔
      ∀ (m : Nat) (e : Int) (hPos : 0 < m),
        delta.toModel.unpack ≠ .finite .positive m e hPos := by
  have hZero : (0 : Float).toModel.unpack = .zero .positive :=
    rfl
  have hNaN : delta.isNaN = delta.toModel.unpack.isNaN := rfl
  have hInf : delta.isInf = delta.toModel.unpack.isInf := rfl
  unfold Idle
  rw [float_beq, float_lt_iff, hZero, hNaN, hInf]
  generalize delta.toModel.unpack = number
  cases number with
  | notANumber =>
    exact iff_of_true (.inr (.inr (.inl rfl))) nofun
  | infinity sign =>
    exact iff_of_true (.inr (.inr (.inr rfl))) nofun
  | zero sign =>
    exact iff_of_true (.inl rfl) nofun
  | finite sign m e hPos =>
    cases sign with
    | negative =>
      exact iff_of_true (.inr (.inl rfl)) nofun
    | positive =>
      constructor
      · rintro (h | h | h | h) <;> cases h
      · intro h
        exact absurd rfl (h m e hPos)

/-
  Bits that unpack to a positive number denote a time, since
  neither their sign is set nor is their exponent full.
-/
theorem decode_of_unpack
    {bits : BitVec 64}
    {m : Nat}
    {e : Int}
    {hPos : 0 < m}
    (hUnpack :
      UnpackedFloat.unpack .binary64 bits =
        .finite .positive m e hPos) :
    ∃ time, binary64.decode bits.toNat = .finite false time := by
  have hFields :
      UnpackedFloat.Sign.ofBitVec
            (@UnpackedFloat.unpackSign .binary64 bits) =
          .positive ∧
        @UnpackedFloat.unpackExponent .binary64 bits ≠ -1#11 := by
    unfold UnpackedFloat.unpack at hUnpack
    dsimp only at hUnpack
    split at hUnpack
    · split at hUnpack <;> contradiction
    · rename_i hNumber
      refine ⟨?_, hNumber⟩
      split at hUnpack
      · split at hUnpack
        · contradiction
        · exact (UnpackedFloat.finite.inj hUnpack).1
      · exact (UnpackedFloat.finite.inj hUnpack).1
  rcases hFields with
    ⟨hPositive, hNumber⟩
  have hSign :
      bits.toNat / twoPow 52 / twoPow 11 % 2 = 0 := by
    rw [← toNat_unpackSign]
    by_contra hSet
    have hNonzero :
        @UnpackedFloat.unpackSign .binary64 bits ≠ 0#1 := by
      intro hZero
      exact hSet (congrArg BitVec.toNat hZero)
    unfold UnpackedFloat.Sign.ofBitVec at hPositive
    rw [if_neg hNonzero] at hPositive
    contradiction
  have hExponent :
      bits.toNat / twoPow 52 % twoPow 11 ≠ twoPow 11 - 1 := by
    rw [← toNat_unpackExponent]
    intro hTop
    exact hNumber (BitVec.eq_of_toNat_eq hTop)
  exact Format.decode_of_fields hSign hExponent

/- A double is idle or denotes a positive time. -/
theorem idle_or_denotes (delta : Float) :
    Idle delta ∨ ∃ time, 0 < time ∧ Denotes delta time := by
  by_cases hIdle : Idle delta
  · exact .inl hIdle
  · rw [idle_iff] at hIdle
    push Not at hIdle
    rcases hIdle with
      ⟨m, e, hPos, hUnpack⟩
    rcases decode_of_unpack hUnpack with
      ⟨time, hDenotes⟩
    have hPacks := packs_of_denotes hDenotes
    rw [hUnpack] at hPacks
    cases hPacks
    exact
      .inr
        ⟨_, Nat.mul_pos hPos (twoPow_pos _), hDenotes⟩

theorem not_idle_of_denotes
    (hx : Denotes x a)
    (hPos : 0 < a) :
    ¬ Idle x := by
  rw [idle_iff]
  have hPacks := packs_of_denotes hx
  generalize x.toModel.unpack = number at hPacks
  intro hNone
  rcases hPacks with
    _ | ⟨hm, _, _⟩
  · exact Nat.lt_irrefl 0 hPos
  · exact hNone _ _ hm rfl

/- The deltas that are not idle are finite and positive. -/
theorem not_idle_iff (delta : Float) :
    ¬ Idle delta ↔ delta.isFinite = true ∧ 0 < delta := by
  constructor
  · intro hTime
    rcases (idle_or_denotes delta).resolve_left hTime with
      ⟨time, hPos, hDenotes⟩
    have hZero : Denotes 0 0 := by
      decide +kernel
    exact
      ⟨isFinite_of_denotes hDenotes,
        lt_of_denotes hZero hDenotes hPos⟩
  · rintro ⟨hFinite, hPos⟩
    rw [idle_iff]
    rw [float_lt_iff] at hPos
    change delta.toModel.unpack.isFinite = true at hFinite
    change (UnpackedFloat.zero .positive).lt _ = true at hPos
    generalize delta.toModel.unpack = number at hFinite hPos ⊢
    intro hNone
    cases number with
    | notANumber => cases hFinite
    | infinity sign => cases hFinite
    | zero sign => cases hPos
    | finite sign m e hm =>
      cases sign with
      | negative => cases hPos
      | positive => exact hNone m e hm rfl

end Grains

end Chip8
