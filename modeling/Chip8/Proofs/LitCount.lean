import Chip8.Proofs.Drawing

/-
  This file keeps account of the lit pixels while a sprite is
  drawn.  Switching a place over lights one pixel more or one
  less, so the count grows by the set bits of the sprite, but
  for two with each lit pixel that is switched off.

  Key definitions include:
    * `Sprite.bits`
    * `Screen.switchedOff`

  The main statements are:
    * `Screen.lit_toggle`
    * `Screen.lit_toggleAll`
    * `Screen.draw_accounts_for_lit`
-/

------------------------------------------------------------
-- Bits of a Sprite
------------------------------------------------------------

namespace Chip8

namespace Sprite

/- How many bits of a row are set. -/
def rowBits (row : UInt8) : Nat :=
  (List.range 8).countP row.toNat.testBit

/- How many bits of a sprite are set. -/
def bits : Sprite → Nat
| [] => 0
| row :: rows => rowBits row + bits rows

theorem length_rowHits
    (x y : Nat)
    (row : UInt8) :
    (rowHits x y row).length = rowBits row := by
  -- The columns count the bits from the other end.
  have hColumns :
      (List.range 8).map (fun column => 7 - column) =
        (List.range 8).reverse := by
    decide
  calc
    (rowHits x y row).length
    _ = (List.range 8).countP (hasColumn row) := by
      rw [rowHits, List.length_map,
        List.countP_eq_length_filter]
    _ = ((List.range 8).map fun column => 7 - column).countP
          row.toNat.testBit :=
      List.countP_map.symm
    _ = rowBits row := by
      rw [hColumns, List.countP_reverse, rowBits]

/- A sprite hits one place for each of its set bits. -/
theorem length_hits
    (x y : Nat)
    (sprite : Sprite) :
    (sprite.hits x y).length = sprite.bits := by
  induction sprite generalizing y with
  | nil => rfl
  | cons row rows ih =>
      rw [hits, List.length_append, length_rowHits, ih, bits]

end Sprite

------------------------------------------------------------
-- Pixels Switched Off
------------------------------------------------------------

namespace Screen

/-
  How often a lit pixel is switched off while places are
  switched over one after the other.  A pixel that is met
  again may be switched off more than once.
-/
def switchedOff
    (screen : Screen) : List (Fin 2048) → Nat
| [] => 0
| p :: ps =>
    (screen.cells.read p).toNat +
      (screen.toggle p).switchedOff ps

variable (screen : Screen)

/- One place more is lit, or one less if it was lit. -/
theorem lit_toggle (p : Fin 2048) :
    (screen.toggle p).lit +
        2 * (screen.cells.read p).toNat =
      screen.lit + 1 := by
  have hLength : p.val < screen.pixels.length := by
    simp
  have hRead :
      screen.pixels[p.val] = screen.cells.read p :=
    Cells.getElem_toList screen.cells p hLength
  have hPixels :
      (screen.toggle p).pixels =
        screen.pixels.set p.val (!screen.cells.read p) :=
    Vector.toList_set p.isLt
  -- A count that falls by one must not be zero before.
  have hLit : screen.cells.read p = true → 0 < screen.lit := by
    intro hOn
    have hMem := List.getElem_mem hLength
    rw [hRead, hOn] at hMem
    exact List.count_pos_iff.mpr hMem
  unfold lit at *
  rw [hPixels, List.count_set hLength, hRead]
  cases hOn : screen.cells.read p with
  | true =>
      have hSome := hLit hOn
      change
        screen.pixels.count true - 1 + 0 + 2 =
          screen.pixels.count true + 1
      omega
  | false => rfl

/-
  With each place the count of lit pixels grows by one, but
  falls by one if a lit pixel is switched off.
-/
theorem lit_toggleAll (ps : List (Fin 2048)) :
    (screen.toggleAll ps).1.lit +
        2 * screen.switchedOff ps =
      screen.lit + ps.length := by
  induction ps generalizing screen with
  | nil => rfl
  | cons p ps ih =>
      have hFirst := screen.lit_toggle p
      have hRest := ih (screen.toggle p)
      simp only [toggleAll, switchedOff, List.length_cons]
      omega

/- No lit pixel is met if none is switched off. -/
theorem met_eq_false_iff (ps : List (Fin 2048)) :
    (screen.toggleAll ps).2 = false ↔
      screen.switchedOff ps = 0 := by
  induction ps generalizing screen with
  | nil => simp [toggleAll, switchedOff]
  | cons p ps ih =>
      simp only [toggleAll, switchedOff, Bool.or_eq_false_iff,
        ih, Nat.add_eq_zero_iff, Bool.toNat_eq_zero]

------------------------------------------------------------
-- Drawing
------------------------------------------------------------

/-
  A drawing lights as many pixels as its sprite has set bits,
  less two for each time that it switches a lit pixel off.  It
  tells of no collision exactly if the count of lit pixels
  grows by all the set bits.
-/
theorem draw_accounts_for_lit
    (x y : UInt8)
    (sprite : Sprite) :
    let drawn := screen.draw x y sprite
    let places := sprite.hits x.toNat y.toNat
    screen.lit + sprite.bits =
        drawn.1.lit + 2 * screen.switchedOff places ∧
      (drawn.2 = false ↔
        drawn.1.lit = screen.lit + sprite.bits) := by
  intro drawn places
  have hLength : places.length = sprite.bits :=
    sprite.length_hits x.toNat y.toNat
  have hAccount := screen.lit_toggleAll places
  have hMet := screen.met_eq_false_iff places
  have hDrawn : drawn = screen.toggleAll places := rfl
  rw [hDrawn, ← hLength, hMet]
  omega

end Screen

end Chip8
