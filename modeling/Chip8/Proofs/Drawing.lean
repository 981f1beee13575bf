import Chip8.Screen

/-
  This file shows what a drawing does to each pixel.  Places
  of the sprite that fall on the same pixel, because the
  coordinates wrap around, are counted: their parity decides
  whether the pixel is switched over, and two of them, or one
  on a lit pixel, are a collision.

  Key definitions include:
    * `Sprite.places`
    * `Sprite.fallsOn`
    * `Sprite.hitCount`

  The main statements are:
    * `Screen.read_toggleAll`
    * `Screen.met_toggleAll`
    * `Sprite.count_hits`
    * `Screen.draw_by_hits`
-/

------------------------------------------------------------
-- Counting Hits
------------------------------------------------------------

namespace Chip8

namespace Sprite

/- The places of a sprite, as pairs of a row and a column. -/
def places (sprite : Sprite) : List (Nat × Nat) :=
  (List.range sprite.length).flatMap fun i =>
    (List.range 8).map fun j => (i, j)

/-
  Whether a place is set in a sprite with its top left corner
  at `(x, y)` and falls on the pixel `(px, py)`.
-/
def fallsOn
    (x y : Nat)
    (sprite : Sprite)
    (px py : Nat)
    (place : Nat × Nat) : Bool :=
  (sprite.getD place.1 0).toNat.testBit (7 - place.2) &&
    (decide ((x + place.2) % 64 = px) &&
      decide ((y + place.1) % 32 = py))

/- How many places of a sprite fall on a pixel. -/
def hitCount
    (x y : Nat)
    (sprite : Sprite)
    (px py : Nat) : Nat :=
  sprite.places.countP (sprite.fallsOn x y px py)

/- The first row is counted apart from the rows below it. -/
theorem hitCount_cons
    (x y : Nat)
    (row : UInt8)
    (rows : Sprite)
    (px py : Nat) :
    hitCount x y (row :: rows) px py =
      (List.range 8).countP
          (fun j =>
            hasColumn row j &&
              (decide ((x + j) % 64 = px) &&
                decide (y % 32 = py))) +
        hitCount x (y + 1) rows px py := by
  have hPlaces :
      places (row :: rows) =
        (List.range 8).map (fun j => (0, j)) ++
          (places rows).map fun p => (p.1 + 1, p.2) := by
    simp [places, List.range_succ_eq_map, List.flatMap_map,
      List.map_flatMap]
  have hBelow :
      fallsOn x y (row :: rows) px py ∘
          (fun p : Nat × Nat => (p.1 + 1, p.2)) =
        fallsOn x (y + 1) rows px py := by
    funext p
    have hRow : y + (p.1 + 1) = y + 1 + p.1 := by omega
    simp only [Function.comp, fallsOn, List.getD_cons_succ,
      hRow]
  unfold hitCount
  rw [hPlaces, List.countP_append, List.countP_map,
    List.countP_map, hBelow]
  rfl

end Sprite

------------------------------------------------------------
-- Positions
------------------------------------------------------------

namespace Screen

theorem position_eq_iff
    {x y px py : Nat}
    (hpx : px < 64)
    (hpy : py < 32) :
    position x y = position px py ↔
      x % 64 = px ∧ y % 32 = py := by
  simp only [position, Fin.ext_iff]
  omega

/- Every cell of the screen is the place of a pixel. -/
theorem exists_position (p : Fin 2048) :
    ∃ (px : Fin 64) (py : Fin 32),
      position px.val py.val = p := by
  have hp := p.isLt
  refine
    ⟨⟨p.val % 64, by omega⟩, ⟨p.val / 64, by omega⟩, ?_⟩
  apply Fin.ext
  simp only [position]
  omega

end Screen

/-
  A pixel occurs among the places that a sprite hits as often
  as places of the sprite fall on it.
-/
theorem Sprite.count_hits
    (x y : Nat)
    (sprite : Sprite)
    {px py : Nat}
    (hpx : px < 64)
    (hpy : py < 32) :
    (sprite.hits x y).count (Screen.position px py) =
      sprite.hitCount x y px py := by
  induction sprite generalizing y with
  | nil => rfl
  | cons row rows ih =>
      rw [hits, List.count_append, ih, hitCount_cons]
      congr 1
      unfold rowHits
      rw [List.count, List.countP_map, List.countP_filter]
      apply List.countP_congr
      intro j _
      simp [Screen.position_eq_iff hpx hpy, and_comm]

/- Of thirty-three rows, the first and the last meet. -/
example :
    Sprite.hitCount 60 5 (List.replicate 33 0x81) 3 5 = 2 := by
  decide +kernel

------------------------------------------------------------
-- Switching Pixels Over
------------------------------------------------------------

namespace Screen

/- A pixel is switched over if it is met an odd count of times. -/
theorem read_toggleAll
    (screen : Screen)
    (ps : List (Fin 2048))
    (q : Fin 2048) :
    (screen.toggleAll ps).1.cells.read q =
      (screen.cells.read q ^^
        decide (ps.count q % 2 = 1)) := by
  induction ps generalizing screen with
  | nil => simp [toggleAll]
  | cons p ps ih =>
      rw [toggleAll, ih, read_toggle]
      by_cases h : p = q
      · have hParity :
            decide ((ps.count q + 1) % 2 = 1) =
              !decide (ps.count q % 2 = 1) := by
          rw [← decide_not, decide_eq_decide]
          omega
        rw [if_pos h, h, List.count_cons_self, hParity]
        simp
      · rw [if_neg h, List.count_cons_of_ne h]

/-
  A lit pixel is met if some pixel is met twice, or once and
  was lit before.  The order in which the pixels are met does
  not matter.
-/
theorem met_toggleAll
    (screen : Screen)
    (ps : List (Fin 2048)) :
    (screen.toggleAll ps).2 = true ↔
      ∃ q, 2 ≤ (screen.cells.read q).toNat + ps.count q := by
  induction ps generalizing screen with
  | nil =>
      have hOnce (q : Fin 2048) :=
        (screen.cells.read q).toNat_lt
      simp [toggleAll, hOnce]
  | cons p ps ih =>
      have hLater (q : Fin 2048) (hDark : screen.cells.read p = false) :
          ((screen.toggle p).cells.read q).toNat +
              ps.count q =
            (screen.cells.read q).toNat +
              (p :: ps).count q := by
        rw [read_toggle]
        by_cases h : p = q
        · rw [if_pos h, ← h, hDark, List.count_cons_self]
          simp only [Bool.not_false, Bool.toNat_true,
            Bool.toNat_false]
          omega
        · rw [if_neg h, List.count_cons_of_ne h]
      cases hMet : screen.cells.read p with
      | true =>
          have hTwice :
              2 ≤ (screen.cells.read p).toNat +
                (p :: ps).count p := by
            rw [hMet, List.count_cons_self, Bool.toNat_true]
            omega
          simp only [toggleAll, hMet, Bool.true_or, true_iff]
          exact ⟨p, hTwice⟩
      | false =>
          simp only [toggleAll, hMet, Bool.false_or, ih,
            hLater _ hMet]

------------------------------------------------------------
-- Drawing
------------------------------------------------------------

/-
  A drawing switches a pixel over exactly if an odd count of
  the sprite's places falls on it.  It tells of a collision
  exactly if at least two fall on some pixel, a pixel that was
  lit before counting as one.
-/
theorem draw_by_hits
    (screen : Screen)
    (x y : UInt8)
    (sprite : Sprite) :
    (∀ (px : Fin 64) (py : Fin 32),
      (screen.draw x y sprite).1.pixel px py =
        (screen.pixel px py ^^
          decide
            (sprite.hitCount x.toNat y.toNat px py % 2 =
              1))) ∧
      ((screen.draw x y sprite).2 = true ↔
        ∃ (px : Fin 64) (py : Fin 32),
          2 ≤ (screen.pixel px py).toNat +
            sprite.hitCount x.toNat y.toNat px py) := by
  have hCount (px : Fin 64) (py : Fin 32) :=
    sprite.count_hits x.toNat y.toNat px.isLt py.isLt
  constructor
  · intro px py
    unfold draw pixel
    rw [read_toggleAll, hCount]
  · unfold draw pixel
    rw [met_toggleAll]
    constructor
    · rintro ⟨q, hTwice⟩
      rcases exists_position q with ⟨px, py, rfl⟩
      rw [hCount] at hTwice
      exact ⟨px, py, hTwice⟩
    · rintro ⟨px, py, hTwice⟩
      rw [← hCount] at hTwice
      exact ⟨position px py, hTwice⟩

end Screen

end Chip8
