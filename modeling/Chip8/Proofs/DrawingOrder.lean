import Chip8.Proofs.Drawing

/-
  This file shows that the screen forgets in which order it
  was drawn on.  A run of drawings switches over the places of
  all its sprites; only how often each pixel is met matters,
  and meeting every pixel twice as often changes nothing.

  Key definitions include:
    * `Drawing`
    * `Screen.drawAll`

  The main statements are:
    * `Sprite.hits_append`
    * `Screen.toggleAll_perm`
    * `Screen.toggleAll_append_perm`
    * `Screen.drawings_commute_and_cancel`
-/

------------------------------------------------------------
-- Runs of Drawings
------------------------------------------------------------

namespace Chip8

/- A sprite and where its top left corner is put. -/
structure Drawing where
  x : UInt8
  y : UInt8
  sprite : Sprite

/- The places that a drawing hits. -/
def Drawing.hits (drawing : Drawing) : List (Fin 2048) :=
  drawing.sprite.hits drawing.x.toNat drawing.y.toNat

/- Draw one sprite after the other. -/
def Screen.drawAll
    (screen : Screen) : List Drawing → Screen
| [] => screen
| drawing :: drawings =>
    let drawn :=
      screen.draw drawing.x drawing.y drawing.sprite
    drawn.1.drawAll drawings

------------------------------------------------------------
-- Places of a Sprite in Two Parts
------------------------------------------------------------

namespace Sprite

theorem hits_congr
    (x : Nat)
    {y z : Nat}
    (h : y % 32 = z % 32)
    (sprite : Sprite) :
    sprite.hits x y = sprite.hits x z := by
  induction sprite generalizing y z with
  | nil => rfl
  | cons row rows ih =>
      have hBelow : (y + 1) % 32 = (z + 1) % 32 := by omega
      have hRow : rowHits x y row = rowHits x z row := by
        simp only [rowHits, Screen.position, h]
      rw [hits, hits, hRow, ih hBelow]

/- The lower part of a sprite begins below the upper part. -/
theorem hits_append
    (x y : Nat)
    (upper lower : Sprite) :
    hits x y (upper ++ lower) =
      hits x y upper ++ hits x (y + upper.length) lower := by
  induction upper generalizing y with
  | nil => rfl
  | cons row rows ih =>
      have hBelow :
          y + 1 + rows.length =
            y + (row :: rows).length := by
        simp only [List.length_cons]
        omega
      rw [List.cons_append, hits, ih, hits,
        List.append_assoc, hBelow]

end Sprite

------------------------------------------------------------
-- Order of Places
------------------------------------------------------------

namespace Screen

/- Screens whose pixels are all the same are the same. -/
theorem eq_of_read
    {screen other : Screen}
    (h :
      ∀ q, screen.cells.read q = other.cells.read q) :
    screen = other := by
  cases screen
  cases other
  exact congrArg Screen.mk (Cells.ext_read h)

variable (screen : Screen)

/- The order in which places are switched over is lost. -/
theorem toggleAll_perm
    {ps qs : List (Fin 2048)}
    (h : ps.Perm qs) :
    (screen.toggleAll ps).1 = (screen.toggleAll qs).1 := by
  apply eq_of_read
  intro q
  rw [read_toggleAll, read_toggleAll, h.count_eq q]

/- Places that are switched over twice are as before. -/
theorem toggleAll_append_perm
    {ps qs : List (Fin 2048)}
    (h : qs.Perm ps) :
    (screen.toggleAll (ps ++ qs)).1 = screen := by
  apply eq_of_read
  intro q
  have hEven : (ps.count q + ps.count q) % 2 ≠ 1 := by omega
  rw [read_toggleAll, List.count_append, h.count_eq q,
    decide_eq_false hEven, Bool.xor_false]

------------------------------------------------------------
-- Order of Drawings
------------------------------------------------------------

/- A run of drawings switches over the places of them all. -/
theorem drawAll_eq_toggleAll (drawings : List Drawing) :
    screen.drawAll drawings =
      (screen.toggleAll (drawings.flatMap Drawing.hits)).1 := by
  induction drawings generalizing screen with
  | nil => rfl
  | cons drawing drawings ih =>
      rw [drawAll, ih, List.flatMap_cons, toggleAll_append]
      rfl

/- A sprite may be drawn in two parts. -/
theorem draw_append
    (x y : UInt8)
    (upper lower : Sprite) :
    let first := screen.draw x y upper
    let second :=
      first.1.draw x
        (UInt8.ofNat ((y.toNat + upper.length) % 256)) lower
    screen.draw x y (upper ++ lower) =
      (second.1, first.2 || second.2) := by
  intro first second
  -- The height divides 256, so both ways to wrap agree.
  have hRow :
      (UInt8.ofNat
          ((y.toNat + upper.length) % 256)).toNat % 32 =
        (y.toNat + upper.length) % 32 := by
    simp only [UInt8.toNat_ofNat']
    omega
  have hLower := Sprite.hits_congr x.toNat hRow lower
  unfold draw
  rw [Sprite.hits_append, toggleAll_append, ← hLower]
  rfl

/-
  Drawings commute and cancel: a permuted run of drawings
  leaves the same screen, and a run followed by a permuted one
  leaves the screen as it was.  A sprite drawn in two parts,
  the lower one below the upper one, leaves the same screen,
  and it collides if one of its parts does.
-/
theorem drawings_commute_and_cancel
    (drawings : List Drawing) :
    (∀ others, others.Perm drawings →
      screen.drawAll others = screen.drawAll drawings ∧
        (screen.drawAll drawings).drawAll others =
          screen) ∧
      ∀ (x y : UInt8) (upper lower : Sprite),
        let first := screen.draw x y upper
        let second :=
          first.1.draw x
            (UInt8.ofNat ((y.toNat + upper.length) % 256))
            lower
        screen.draw x y (upper ++ lower) =
          (second.1, first.2 || second.2) := by
  constructor
  · intro others hPerm
    have hHits := hPerm.flatMap_right Drawing.hits
    constructor
    · rw [drawAll_eq_toggleAll, drawAll_eq_toggleAll]
      exact screen.toggleAll_perm hHits
    · have hBoth :=
        screen.toggleAll_append
          (drawings.flatMap Drawing.hits)
          (others.flatMap Drawing.hits)
      calc
        (screen.drawAll drawings).drawAll others
        _ = (screen.toggleAll
              (drawings.flatMap Drawing.hits ++
                others.flatMap Drawing.hits)).1 := by
          rw [drawAll_eq_toggleAll, drawAll_eq_toggleAll,
            hBoth]
        _ = screen := screen.toggleAll_append_perm hHits
  · exact screen.draw_append

/-
  Drawings that overlap each other and wrap around both edges.
  The last one is tall enough to overlap itself.
-/
def overlapping : List Drawing :=
  [⟨60, 30, [0xFF, 0x81, 0xFF]⟩,
   ⟨190, 255, [0xC3, 0x3C]⟩,
   ⟨3, 5, List.replicate 33 0x81⟩]

/- Drawn forwards and then backwards, they vanish. -/
theorem overlapping_vanish :
    overlapping.reverse.Perm overlapping ∧
      (blank.drawAll overlapping).pixel 60 30 = true ∧
      (blank.drawAll overlapping).drawAll
        overlapping.reverse = blank := by
  have hPerm := List.reverse_perm overlapping
  have hCancel :=
    (drawings_commute_and_cancel blank overlapping).1
      overlapping.reverse hPerm
  refine ⟨hPerm, ?_, hCancel.2⟩
  rw [drawAll_eq_toggleAll, pixel, read_toggleAll]
  decide +kernel

end Screen

end Chip8
