import Chip8.Proofs.Drawing
import Chip8.Screen.Raster
import Mathlib.Data.List.Count

/-
  This file shows that all views of the screen show the same
  pixels: the single pixel, the pixels row by row and their
  copy, the lines of the text, the raster of colours, and the
  count of lit pixels.

  Key definitions include:
    * `Screen.lines`

  The main statements are:
    * `Screen.getElem?_pixels`
    * `Screen.getElem?_row`
    * `Screen.paint_eq`
    * `Screen.views_agree`
-/

------------------------------------------------------------
-- Pixels Row by Row
------------------------------------------------------------

namespace Chip8

namespace Screen

variable (screen : Screen)

/- The pixels are in the order of their places. -/
theorem getElem?_pixels (p : Fin 2048) :
    screen.pixels[p.val]? = some (screen.cells.read p) := by
  have hLength : p.val < screen.pixels.length := by
    simp
  rw [List.getElem?_eq_getElem hLength]
  exact congrArg some (Cells.getElem_toList _ p hLength)

theorem getElem?_snapshot (p : Fin 2048) :
    screen.snapshot[p.val]? = some (screen.cells.read p) := by
  simp [snapshot, Cells.read]

------------------------------------------------------------
-- Lines of the Text
------------------------------------------------------------

/- The lines of the text, without their ends. -/
def lines : List (List Char) :=
  (List.range height).map screen.row

theorem sign_injective : Function.Injective sign := by
  intro on other
  cases on <;> cases other <;> simp [sign]

theorem text_lines :
    screen.text.toList =
      screen.lines.flatMap fun line => line ++ ['\n'] := by
  rw [text, String.toList_ofList, lines, List.flatMap_map]

theorem getElem?_lines
    {y : Nat}
    (hy : y < 32) :
    screen.lines[y]? = some (screen.row y) := by
  simp [lines, height, hy]

/- A line shows the pixels of its row. -/
theorem getElem?_row (x y : Nat) :
    (screen.row (y % 32))[x % 64]? =
      some (sign (screen.pixel x y)) := by
  have hColumn : x % 64 < width := Nat.mod_lt x (by decide)
  have hPlace :
      y % 32 * width + x % 64 = (position x y).val :=
    rfl
  rw [row, List.getElem?_map,
    List.getElem?_take_of_lt hColumn, List.getElem?_drop,
    hPlace, getElem?_pixels]
  rfl

theorem length_row
    {y : Nat}
    (hy : y < 32) :
    (screen.row y).length = 64 := by
  simp only [row, List.length_map, List.length_take,
    List.length_drop, length_pixels, width]
  omega

theorem newline_not_mem_row (y : Nat) :
    '\n' ∉ screen.row y := by
  intro hMem
  rcases List.mem_map.mp hMem with ⟨on, _, hSign⟩
  cases on <;> simp [sign] at hSign

theorem count_row (y : Nat) :
    (screen.row y).count '#' =
      ((screen.pixels.drop (y * width)).take width).count
        true :=
  List.count_map_of_injective _ sign sign_injective true

/- So many lines show so many rows of pixels. -/
theorem count_rows (count : Nat) :
    ((List.range count).flatMap fun y =>
        screen.row y ++ ['\n']).count '#' =
      (screen.pixels.take (count * width)).count true := by
  induction count with
  | zero => simp
  | succ count ih =>
      rw [List.range_succ, List.flatMap_append,
        List.count_append, ih, List.flatMap_singleton,
        List.count_append, count_row, Nat.succ_mul,
        List.take_add, List.count_append]
      rfl

theorem count_text :
    screen.text.toList.count '#' = screen.lit := by
  have hAll : screen.pixels.length ≤ height * width := by
    simp [height, width]
  rw [text, String.toList_ofList, count_rows,
    List.take_of_length_le hAll, lit]

------------------------------------------------------------
-- Rasters
------------------------------------------------------------

theorem ofPixel_injective :
    Function.Injective Colour.ofPixel := by
  unfold Function.Injective
  decide

/-
  The pixels colour as many words as both reach; further words
  of the buffer follow as they were.
-/
theorem paint_eq
    (pixels : List Bool)
    (buffer : List UInt32) :
    paint pixels buffer =
      (pixels.take buffer.length).map Colour.ofPixel ++
        buffer.drop pixels.length := by
  induction pixels generalizing buffer with
  | nil => simp [paint]
  | cons on pixels ih =>
      cases buffer with
      | nil => rfl
      | cons word buffer => simp [paint, ih]

section Rasterize

variable (buffer : List UInt32)

theorem rasterize_eq :
    screen.rasterize buffer =
      (screen.pixels.take buffer.length).map
          Colour.ofPixel ++
        buffer.drop 2048 := by
  rw [rasterize, paint_eq, length_pixels]

theorem length_rasterize :
    (screen.rasterize buffer).length = buffer.length := by
  have hLength :
      min buffer.length 2048 + (buffer.length - 2048) =
        buffer.length := by
    omega
  simpa [rasterize_eq] using hLength

variable {buffer}

theorem getElem?_rasterize
    {k : Nat}
    (hBuffer : k < buffer.length)
    (hScreen : k < 2048) :
    (screen.rasterize buffer)[k]? =
      some
        (Colour.ofPixel (screen.pixel (k % 64) (k / 64))) := by
  have hPlace : k = (position (k % 64) (k / 64)).val := by
    simp only [position]
    omega
  have hPainted :
      k <
        ((screen.pixels.take buffer.length).map
          Colour.ofPixel).length := by
    simpa using Nat.lt_min.mpr ⟨hBuffer, hScreen⟩
  have hPixel :=
    screen.getElem?_pixels (position (k % 64) (k / 64))
  rw [← hPlace] at hPixel
  rw [rasterize_eq, List.getElem?_append_left hPainted,
    List.getElem?_map, List.getElem?_take_of_lt hBuffer,
    hPixel]
  rfl

theorem getElem?_rasterize_of_le
    {k : Nat}
    (hBeyond : 2048 ≤ k) :
    (screen.rasterize buffer)[k]? = buffer[k]? := by
  by_cases hBuffer : k < buffer.length
  · have hPainted :
        ((screen.pixels.take buffer.length).map
          Colour.ofPixel).length = 2048 := by
      have hFull : 2048 ≤ buffer.length := by omega
      simp [Nat.min_eq_right hFull]
    have hSum : 2048 + (k - 2048) = k := by omega
    rw [rasterize_eq,
      List.getElem?_append_right (hPainted ▸ hBeyond),
      hPainted, List.getElem?_drop, hSum]
  · have hNone : buffer.length ≤ k := by omega
    rw [List.getElem?_eq_none hNone, List.getElem?_eq_none]
    rw [length_rasterize]
    exact hNone

/- A raster of the whole screen has a word for each pixel. -/
theorem take_rasterize
    (hFull : 2048 ≤ buffer.length) :
    (screen.rasterize buffer).take 2048 =
      screen.pixels.map Colour.ofPixel := by
  have hLength :
      (screen.pixels.map Colour.ofPixel).length = 2048 := by
    simp
  have hAll : screen.pixels.length ≤ buffer.length := by
    simpa using hFull
  rw [rasterize_eq, List.take_of_length_le hAll,
    List.take_left' hLength]

end Rasterize

------------------------------------------------------------
-- All Views
------------------------------------------------------------

/-
  All views agree on every pixel, whose coordinates wrap
  around: the pixels row by row and their copy; the 32 lines
  of 64 signs that make up the text; and a raster, which
  colours as many words of a buffer as there are pixels and
  leaves the others.  The count of lit pixels is the one of
  signs in the text and of colours in a whole raster.
-/
theorem views_agree :
    (∀ x y : Nat,
      let place := y % 32 * 64 + x % 64
      screen.pixels[place]? = some (screen.pixel x y) ∧
        screen.snapshot[place]? =
          some (screen.pixel x y)) ∧
      (screen.text.toList =
          (screen.lines.flatMap fun line => line ++ ['\n']) ∧
        screen.lines.length = 32 ∧
        (∀ line ∈ screen.lines,
          line.length = 64 ∧ '\n' ∉ line) ∧
        ∀ x y : Nat,
          ∃ signs,
            screen.lines[y % 32]? = some signs ∧
              (signs[x % 64]? = some '#' ↔
                screen.pixel x y = true)) ∧
      (Colour.on ≠ Colour.off ∧
        ∀ buffer : List UInt32,
          let raster := screen.rasterize buffer
          raster.length = buffer.length ∧
            (∀ k, k < min buffer.length 2048 →
              raster[k]? =
                some
                  (if screen.pixel (k % 64) (k / 64) then
                    Colour.on
                  else
                    Colour.off)) ∧
            ∀ k, 2048 ≤ k → raster[k]? = buffer[k]?) ∧
      screen.lit = screen.text.toList.count '#' ∧
        ∀ buffer : List UInt32,
          2048 ≤ buffer.length →
            screen.lit =
              ((screen.rasterize buffer).take 2048).count
                Colour.on := by
  refine ⟨?_, ⟨?_, ?_, ?_, ?_⟩, ⟨?_, ?_⟩, ?_, ?_⟩
  · intro x y
    exact
      ⟨screen.getElem?_pixels (position x y),
        screen.getElem?_snapshot (position x y)⟩
  · exact screen.text_lines
  · rw [lines, List.length_map, List.length_range, height]
  · intro line hLine
    rcases List.mem_map.mp hLine with ⟨y, hy, rfl⟩
    exact
      ⟨screen.length_row (List.mem_range.mp hy),
        screen.newline_not_mem_row y⟩
  · intro x y
    have hRow : y % 32 < 32 := Nat.mod_lt y (by decide)
    refine
      ⟨screen.row (y % 32), screen.getElem?_lines hRow, ?_⟩
    rw [getElem?_row]
    cases screen.pixel x y <;> simp [sign]
  · decide
  · intro buffer
    refine ⟨screen.length_rasterize buffer, ?_, ?_⟩
    · intro k hk
      exact
        screen.getElem?_rasterize (by omega) (by omega)
    · intro k hBeyond
      exact screen.getElem?_rasterize_of_le hBeyond
  · exact screen.count_text.symm
  · intro buffer hFull
    rw [take_rasterize _ hFull]
    exact
      (List.count_map_of_injective _ Colour.ofPixel
        ofPixel_injective true).symm

/- A sprite over the last corner wraps into all corners. -/
def cornered : Screen :=
  (blank.draw 62 31 [0xF0, 0xF0]).1

/-
  A buffer of one word shows the first corner, and one that is
  longer than the screen keeps what is behind it.
-/
theorem cornered_views_agree :
    let short : List UInt32 := [7]
    let long : List UInt32 := List.replicate 2049 7
    (0 < min short.length 2048 ∧ 2048 ≤ long.length) ∧
      cornered.pixels[2046]? = some true ∧
      (cornered.rasterize short)[0]? = some Colour.on ∧
      (cornered.rasterize long)[2048]? = some 7 ∧
      cornered.lit =
        ((cornered.rasterize long).take 2048).count
          Colour.on := by
  intro short long
  have hShort : 0 < min short.length 2048 := by decide
  have hLong : 2048 ≤ long.length := by
    rw [List.length_replicate]
    decide
  have hKept : long[2048]? = some 7 := by
    rw [List.getElem?_replicate]
    rfl
  have hLast : cornered.pixel 62 31 = true := by
    rw [pixel, cornered, draw, read_toggleAll]
    decide +kernel
  have hFirst : cornered.pixel (0 % 64) (0 / 64) = true := by
    rw [pixel, cornered, draw, read_toggleAll]
    decide +kernel
  rcases views_agree cornered with
    ⟨hPixels, _, ⟨_, hRaster⟩, _, hLit⟩
  have hLastPixel := (hPixels 62 31).1
  have hFirstWord := (hRaster short).2.1 0 hShort
  rw [hLast] at hLastPixel
  rw [hFirst, if_pos rfl] at hFirstWord
  exact
    ⟨⟨hShort, hLong⟩, hLastPixel, hFirstWord,
      ((hRaster long).2.2 2048 (Nat.le_refl 2048)).trans hKept,
      hLit long hLong⟩

end Screen

end Chip8
