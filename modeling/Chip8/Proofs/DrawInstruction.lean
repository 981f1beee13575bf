import Chip8.Proofs.Dispatch
import Chip8.Proofs.Drawing
import Chip8.Proofs.WordForm

/-
  This file follows the drawing instruction from the bytes in
  memory to the pixels and the flag.  The sprites that it can
  draw are no taller than the screen, so that no two of their
  places fall on one pixel: then a collision is a pixel that
  was lit before and is dark afterwards.

  Key definitions include:
    * `Memory.byteAt`

  The main statements are:
    * `Sprite.mem_hits`, `Sprite.place_mem_hits`
    * `Sprite.nodup_hits`
    * `Screen.pixel_draw_of_placed`
    * `Screen.pixel_draw_of_unplaced`
    * `Screen.collision_iff_darkened`
    * `Machine.draw_instruction`
-/

------------------------------------------------------------
-- Places of a Sprite
------------------------------------------------------------

namespace Chip8

/- Places of a height and a width fall on different pixels. -/
theorem Screen.position_inj
    {x y r c s d : Nat}
    (hr : r < 32)
    (hs : s < 32)
    (hc : c < 64)
    (hd : d < 64)
    (h :
      position (x + c) (y + r) = position (x + d) (y + s)) :
    r = s ∧ c = d := by
  simp only [position, Fin.mk.injEq] at h
  omega

namespace Sprite

open Screen

variable {x y : Nat} {p : Fin 2048}

theorem mem_rowHits {row : UInt8} :
    p ∈ rowHits x y row ↔
      ∃ c, c < 8 ∧ hasColumn row c = true ∧
        position (x + c) y = p := by
  simp only [rowHits, List.mem_map, List.mem_filter,
    List.mem_range, and_assoc]

/- A sprite hits the pixels on which its set places fall. -/
theorem mem_hits {sprite : Sprite} :
    p ∈ sprite.hits x y ↔
      ∃ r c, ∃ h : r < sprite.length,
        c < 8 ∧ hasColumn sprite[r] c = true ∧
          position (x + c) (y + r) = p := by
  induction sprite generalizing y with
  | nil => simp [hits]
  | cons row rows ih =>
      rw [hits, List.mem_append, mem_rowHits, ih]
      constructor
      · rintro
          (⟨c, hc, hSet, hAt⟩ | ⟨r, c, h, hc, hSet, hAt⟩)
        · exact ⟨0, c, Nat.zero_lt_succ _, hc, hSet, hAt⟩
        · have hRow : y + 1 + r = y + (r + 1) := by omega
          rw [hRow] at hAt
          exact
            ⟨r + 1, c, Nat.succ_lt_succ h, hc, hSet, hAt⟩
      · rintro ⟨r, c, h, hc, hSet, hAt⟩
        cases r with
        | zero => exact Or.inl ⟨c, hc, hSet, hAt⟩
        | succ r =>
            have hRow : y + (r + 1) = y + 1 + r := by omega
            rw [hRow] at hAt
            exact
              Or.inr
                ⟨r, c, Nat.lt_of_succ_lt_succ h, hc, hSet,
                  hAt⟩

/-
  A sprite that fits the height hits the pixel under a place
  only if that place is set: no other place falls there.
-/
theorem place_mem_hits
    {sprite : Sprite}
    (hShort : sprite.length ≤ 32)
    {r c : Nat}
    (hr : r < sprite.length)
    (hc : c < 8) :
    position (x + c) (y + r) ∈ sprite.hits x y ↔
      hasColumn sprite[r] c = true := by
  rw [mem_hits]
  constructor
  · rintro ⟨s, d, hs, hd, hSet, hAt⟩
    have hSame :=
      position_inj (by omega) (by omega) (by omega)
        (by omega) hAt
    obtain ⟨rfl, rfl⟩ := hSame
    exact hSet
  · intro hSet
    exact ⟨r, c, hr, hc, hSet, rfl⟩

theorem nodup_rowHits (row : UInt8) :
    (rowHits x y row).Nodup := by
  have hColumns :
      ((List.range 8).filter (hasColumn row)).Nodup :=
    List.nodup_range.filter _
  apply List.pairwise_map.mpr
  apply hColumns.imp_of_mem
  intro c d hc hd hNe hAt
  have hcLt := List.mem_range.mp (List.mem_filter.mp hc).1
  have hdLt := List.mem_range.mp (List.mem_filter.mp hd).1
  have hSame :=
    position_inj (y := y) (r := 0) (s := 0) (by decide)
      (by decide) (by omega) (by omega) hAt
  exact hNe hSame.2

/- A sprite that fits the height hits no pixel twice. -/
theorem nodup_hits
    {sprite : Sprite}
    (hShort : sprite.length ≤ 32) :
    (sprite.hits x y).Nodup := by
  induction sprite generalizing y with
  | nil => exact List.nodup_nil
  | cons row rows ih =>
      simp only [List.length_cons] at hShort
      rw [hits, List.nodup_append]
      refine ⟨nodup_rowHits row, ih (by omega), ?_⟩
      -- A lower row is less than the height below the top one.
      intro p hTop q hBelow hEq
      rcases mem_rowHits.mp hTop with ⟨c, hc, _, rfl⟩
      rcases mem_hits.mp hBelow with ⟨r, d, h, hd, _, rfl⟩
      have hRow : y + 1 + r = y + (r + 1) := by omega
      rw [hRow] at hEq
      have hSame :=
        position_inj (y := y) (r := 0) (s := r + 1)
          (by decide) (by omega) (by omega) (by omega) hEq
      omega

end Sprite

------------------------------------------------------------
-- Switching Pixels Over Once
------------------------------------------------------------

namespace Screen

variable (screen : Screen)

section Once

variable {ps : List (Fin 2048)} {q : Fin 2048}

theorem read_toggleAll_of_not_mem (hMissed : q ∉ ps) :
    (screen.toggleAll ps).1.cells.read q =
      screen.cells.read q := by
  rw [read_toggleAll, List.count_eq_zero_of_not_mem hMissed]
  exact Bool.xor_false _

theorem read_toggleAll_of_mem
    (hNodup : ps.Nodup)
    (hMet : q ∈ ps) :
    (screen.toggleAll ps).1.cells.read q =
      !screen.cells.read q := by
  rw [read_toggleAll, hNodup.count, if_pos hMet]
  exact Bool.xor_true _

/- A lit pixel that is met once is dark afterwards. -/
theorem met_toggleAll_of_nodup (hNodup : ps.Nodup) :
    (screen.toggleAll ps).2 = true ↔
      ∃ q, screen.cells.read q = true ∧
        (screen.toggleAll ps).1.cells.read q = false := by
  rw [met_toggleAll]
  apply exists_congr
  intro q
  by_cases hMet : q ∈ ps
  · rw [read_toggleAll_of_mem screen hNodup hMet,
      hNodup.count, if_pos hMet]
    cases screen.cells.read q <;> simp
  · rw [read_toggleAll_of_not_mem screen hMet,
      List.count_eq_zero_of_not_mem hMet]
    cases screen.cells.read q <;> simp

end Once

------------------------------------------------------------
-- Drawing Short Sprites
------------------------------------------------------------

/- Both coordinates wrap around. -/
theorem pixel_mod (px py : Nat) :
    screen.pixel (px % 64) (py % 32) =
      screen.pixel px py := by
  simp only [pixel, position, Nat.mod_mod]

section Short

variable {x y : UInt8} {sprite : Sprite}

/- A place switches its pixel over if it is set. -/
theorem pixel_draw_of_placed
    (hShort : sprite.length ≤ 32)
    {r c : Nat}
    (hr : r < sprite.length)
    (hc : c < 8) :
    (screen.draw x y sprite).1.pixel (x.toNat + c)
        (y.toNat + r) =
      (screen.pixel (x.toNat + c) (y.toNat + r) ^^
        Sprite.hasColumn sprite[r] c) := by
  have hNodup :=
    Sprite.nodup_hits (x := x.toNat) (y := y.toNat) hShort
  have hHit :=
    Sprite.place_mem_hits (x := x.toNat) (y := y.toNat)
      hShort hr hc
  unfold draw pixel
  cases hSet : Sprite.hasColumn sprite[r] c with
  | true =>
      rw [Bool.xor_true]
      exact read_toggleAll_of_mem screen hNodup
        (hHit.mpr hSet)
  | false =>
      have hMissed := mt hHit.mp (by simp [hSet])
      rw [Bool.xor_false]
      exact read_toggleAll_of_not_mem screen hMissed

/- A pixel on which no place falls stays as it is. -/
theorem pixel_draw_of_unplaced
    {px py : Nat}
    (hNone :
      ∀ r c, r < sprite.length → c < 8 →
        position (x.toNat + c) (y.toNat + r) ≠
          position px py) :
    (screen.draw x y sprite).1.pixel px py =
      screen.pixel px py := by
  have hMissed :
      position px py ∉ sprite.hits x.toNat y.toNat := by
    intro hHit
    rcases Sprite.mem_hits.mp hHit with
      ⟨r, c, hr, hc, _, hAt⟩
    exact hNone r c hr hc hAt
  unfold draw pixel
  exact read_toggleAll_of_not_mem screen hMissed

/- A short sprite collides if it darkens a lit pixel. -/
theorem collision_iff_darkened
    (hShort : sprite.length ≤ 32) :
    (screen.draw x y sprite).2 = true ↔
      ∃ (px : Fin 64) (py : Fin 32),
        screen.pixel px py = true ∧
          (screen.draw x y sprite).1.pixel px py =
            false := by
  have hMet :=
    screen.met_toggleAll_of_nodup
      (Sprite.nodup_hits (x := x.toNat) (y := y.toNat)
        hShort)
  unfold draw pixel
  rw [hMet]
  constructor
  · rintro ⟨q, hLit, hDark⟩
    rcases exists_position q with ⟨px, py, rfl⟩
    exact ⟨px, py, hLit, hDark⟩
  · rintro ⟨px, py, hLit, hDark⟩
    exact ⟨position px py, hLit, hDark⟩

end Short

end Screen

------------------------------------------------------------
-- Rows in Memory
------------------------------------------------------------

namespace Memory

/- The byte at a number, which counts modulo 4096. -/
def byteAt
    (memory : Memory)
    (k : Nat) : UInt8 :=
  memory.bytes.read ⟨k % 4096, Nat.mod_lt _ (by decide)⟩

/- The wrap at 65536 is lost in the wrap at 4096. -/
theorem get_add_ofNat
    (memory : Memory)
    (a : UInt16)
    (k : Nat) :
    memory.get (a + UInt16.ofNat k) =
      memory.byteAt (a.toNat + k) := by
  have hCell := cell_add a k
  simp only [cell] at hCell
  unfold get byteAt
  congr 1
  apply Fin.ext
  simp only [cell]
  omega

end Memory

------------------------------------------------------------
-- The Instruction
------------------------------------------------------------

namespace Machine

variable {m : Machine} {x y : Register} {rows : Nibble}

theorem machine_cycle_draw
    (hMode : m.mode = .running)
    (hWord : m.fetched = .ofDigits 0xD x y rows.val) :
    m.cycle.machine =
      { m.drawSprite x y rows with pc := m.pc + 2 } := by
  have hCurrent : m.current = .draw x y rows := by
    rw [current, hWord, Instruction.decode_draw]
  rw [machine_cycle hMode hCurrent]
  rfl

/-
  The instruction DXYN draws the N bytes at the index at the
  place that VX and VY had before it.  A pixel on which one of
  its bits falls is switched over if the bit is set, and the
  others stay.  VF tells whether a pixel that was lit is dark
  now.  Only the program counter moves besides.
-/
theorem draw_instruction
    (hMode : m.mode = .running)
    (hWord : m.fetched = .ofDigits 0xD x y rows.val) :
    let vx := (m.registers.get x).toNat
    let vy := (m.registers.get y).toNat
    let after := m.cycle.machine
    (∀ r c, r < rows.val → c < 8 →
      after.screen.pixel ((vx + c) % 64) ((vy + r) % 32) =
        (m.screen.pixel ((vx + c) % 64) ((vy + r) % 32) ^^
          (m.memory.byteAt
            (m.index.toNat + r)).toNat.testBit (7 - c))) ∧
      (∀ (px : Fin 64) (py : Fin 32),
        (∀ r c, r < rows.val → c < 8 →
          ¬(px.val = (vx + c) % 64 ∧
            py.val = (vy + r) % 32)) →
        after.screen.pixel px py = m.screen.pixel px py) ∧
      (∃ collided : Bool,
        after.registers = m.registers.setFlag collided ∧
          (collided = true ↔
            ∃ (px : Fin 64) (py : Fin 32),
              m.screen.pixel px py = true ∧
                after.screen.pixel px py = false)) ∧
      after =
        { m with
          screen := after.screen
          registers := after.registers
          pc := m.pc + 2 } := by
  intro vx vy after
  have hAfter : after = _ := machine_cycle_draw hMode hWord
  have hLength := m.memory.length_read m.index rows.val
  have hShort :
      (m.memory.read m.index rows.val).length ≤ 32 := by
    have hRows := rows.isLt
    omega
  have hScreen :
      after.screen =
        (m.screen.draw (m.registers.get x)
          (m.registers.get y)
          (m.memory.read m.index rows.val)).1 :=
    congrArg Machine.screen hAfter
  refine ⟨?_, ?_, ?_, ?_⟩
  · intro r c hr hc
    have hRow :
        r < (m.memory.read m.index rows.val).length := by
      omega
    have hPlaced :=
      m.screen.pixel_draw_of_placed (x := m.registers.get x)
        (y := m.registers.get y) hShort hRow hc
    rw [Memory.getElem_read, Memory.get_add_ofNat] at hPlaced
    rw [Screen.pixel_mod, Screen.pixel_mod, hScreen]
    exact hPlaced
  · intro px py hNone
    rw [hScreen]
    apply Screen.pixel_draw_of_unplaced
    intro r c hr hc hAt
    rw [hLength] at hr
    rw [Screen.position_eq_iff px.isLt py.isLt] at hAt
    exact hNone r c hr hc ⟨hAt.1.symm, hAt.2.symm⟩
  · refine ⟨_, congrArg Machine.registers hAfter, ?_⟩
    rw [hScreen]
    exact m.screen.collision_iff_darkened hShort
  · rw [hAfter]
    rfl

/-
  A machine at DF13 with its index one cell before the
  instruction, counted past the end of memory.  The sprite
  leaves the screen at the right and at the bottom, and meets
  the only lit pixel with the last bit of its second row.
-/
def sketching : Machine :=
  { initial {} (.ofSeed 7) with
    registers :=
      (Registers.zero.set (.ofNat 0xF) 62).set (.ofNat 1) 255
    memory := Memory.blank.write 0x0F [0x81, 0xDF, 0x13]
    pc := 0x10
    index := 0xF00F
    screen := Screen.blank.toggle (Screen.position 5 0) }

/- The lit pixel is dark afterwards, and VF is one. -/
theorem sketching_collides :
    sketching.mode = .running ∧
      sketching.fetched =
        .ofDigits 0xD (.ofNat 0xF) (.ofNat 1) 3 ∧
      sketching.screen.pixel 5 0 = true ∧
      sketching.cycle.machine.screen.pixel 5 0 = false ∧
      sketching.cycle.machine.registers.flag = 1 := by
  have hWord :
      sketching.fetched =
        .ofDigits 0xD (.ofNat 0xF) (.ofNat 1)
          (Nibble.ofNat 3).val := by
    decide +kernel
  have hLit : sketching.screen.pixel 5 0 = true := by
    decide +kernel
  rcases draw_instruction (m := sketching) rfl hWord with
    ⟨hPlaced, _, ⟨collided, hRegisters, hCollided⟩, _⟩
  have hDark :
      sketching.cycle.machine.screen.pixel 5 0 = false :=
    (hPlaced 1 7 (by decide) (by decide)).trans
      (by decide +kernel)
  have hTrue : collided = true :=
    hCollided.mpr
      ⟨⟨5, by decide⟩, ⟨0, by decide⟩, hLit, hDark⟩
  refine ⟨rfl, hWord, hLit, hDark, ?_⟩
  rw [hRegisters, hTrue]
  exact Registers.get_set_self _ _ _

end Machine

end Chip8
