import Chip8.Proofs.Footprint

/-
  This file shows that the installation of a program is exact:
  either its bytes stand in memory from 0x200 on and nothing
  but memory, program counter and mode has changed, or the
  program is too large and nothing has changed at all.

  Key definitions include:
    * `Word.bytes`, `Word.image`
    * `Machine.Installs`

  The main statements are:
    * `Memory.fetch_of_read_image`
    * `Machine.installs_of_fits`
    * `Machine.load_exact_or_refused`
-/

------------------------------------------------------------
-- Bytes of Words
------------------------------------------------------------

namespace Chip8

namespace Word

/- The two bytes of a word, the high one first. -/
def bytes (w : Word) : List UInt8 :=
  [UInt8.ofNat (w.toNat / 256), UInt8.ofNat w.toNat]

/- The bytes of a list of words as they stand in memory. -/
def image (words : List Word) : List UInt8 :=
  words.flatMap bytes

theorem image_cons
    (w : Word)
    (words : List Word) :
    image (w :: words) = w.bytes ++ image words :=
  List.flatMap_cons

theorem length_image (words : List Word) :
    (image words).length = 2 * words.length := by
  induction words with
  | nil => rfl
  | cons w words ih =>
      rw [image_cons, List.length_append, ih,
        List.length_cons]
      simp only [bytes, List.length_cons, List.length_nil]
      omega

/- Each word stands at twice its place. -/
theorem getElem?_image
    (words : List Word)
    {k : Nat}
    (hk : k < words.length) :
    (image words)[2 * k]? =
        some (UInt8.ofNat (words[k].toNat / 256)) ∧
      (image words)[2 * k + 1]? =
        some (UInt8.ofNat words[k].toNat) := by
  induction words generalizing k with
  | nil => simp at hk
  | cons w words ih =>
      rw [image_cons]
      cases k with
      | zero => exact ⟨rfl, rfl⟩
      | succ k => exact ih (Nat.lt_of_succ_lt_succ hk)

end Word

------------------------------------------------------------
-- Words in Memory
------------------------------------------------------------

namespace Memory

theorem getElem?_read
    (memory : Memory)
    (a : UInt16)
    {count k : Nat}
    (hk : k < count) :
    (memory.read a count)[k]? =
      some (memory.get (a + UInt16.ofNat k)) := by
  have hLt : k < (memory.read a count).length := by
    simpa using hk
  rw [List.getElem?_eq_getElem hLt, getElem_read]

/- A word is fetched from its two bytes. -/
theorem fetch_of_get
    {memory : Memory}
    {a : UInt16}
    {w : Word}
    (hHigh : memory.get a = UInt8.ofNat (w.toNat / 256))
    (hLow : memory.get (a + 1) = UInt8.ofNat w.toNat) :
    memory.fetch a = w := by
  have hLt := w.toNat_lt
  unfold fetch
  rw [hHigh, hLow]
  apply UInt16.toNat_inj.mp
  simp only [UInt16.toNat_ofNat', UInt8.toNat_ofNat']
  omega

/- Where the image of words stands, the words are fetched. -/
theorem fetch_of_read_image
    {memory : Memory}
    {a : UInt16}
    {words : List Word}
    (hRead :
      memory.read a (2 * words.length) = Word.image words)
    {k : Nat}
    (hk : k < words.length) :
    memory.fetch (a + UInt16.ofNat (2 * k)) = words[k] := by
  rcases Word.getElem?_image words hk with ⟨hHigh, hLow⟩
  rw [← hRead, getElem?_read _ _ (by omega)] at hHigh hLow
  have hNext :
      a + UInt16.ofNat (2 * k) + 1 =
        a + UInt16.ofNat (2 * k + 1) := by
    rw [UInt16.ofNat_add, UInt16.add_assoc]
    rfl
  apply fetch_of_get
  · exact Option.some.inj hHigh
  · rw [hNext]
    exact Option.some.inj hLow

end Memory

------------------------------------------------------------
-- Installed Programs
------------------------------------------------------------

namespace Machine

/-
  Whether one machine becomes the other by the installation of
  a program: its bytes stand from 0x200 on, every other byte
  stays, and the machine runs from there.
-/
structure Installs
    (m : Machine)
    (program : List UInt8)
    (after : Machine) : Prop where
  inside :
    ∀ (b : Fin 4096) (i : Nat) (h : i < program.length),
      b.val = 0x200 + i →
        after.memory.bytes.read b = program[i]
  outside :
    ∀ b : Fin 4096,
      b.val < 0x200 ∨ 0x200 + program.length ≤ b.val →
        after.memory.bytes.read b = m.memory.bytes.read b
  rest :
    after =
      { m with
        memory := after.memory
        pc := 0x200
        mode := .running }

/- A program that is too large is refused. -/
theorem load_of_too_large
    (m : Machine)
    {program : List UInt8}
    (hLarge : Memory.programLimit < program.length) :
    m.load program =
      .quiet m
        (.error
          (.programTooLarge program.length
            Memory.programLimit)) := by
  unfold load
  rw [if_neg (Nat.not_le_of_gt hLarge)]

/- A program that fits is written from 0x200 on. -/
theorem load_of_fits
    (m : Machine)
    {program : List UInt8}
    (hFits : program.length ≤ Memory.programLimit) :
    m.load program =
      { machine :=
          { m with
            memory := m.memory.write 0x200 program
            pc := 0x200
            mode := .running }
        result := .ok ()
        notices := [.programLoaded program.length] } := by
  unfold load
  rw [if_pos hFits]
  rfl

theorem installs_of_fits
    (m : Machine)
    {program : List UInt8}
    (hFits : program.length ≤ Memory.programLimit) :
    m.Installs program (m.load program).machine := by
  have hLimit : Memory.programLimit = 3584 := rfl
  have hStart : (0x200 : UInt16).toNat = 0x200 := rfl
  rw [load_of_fits m hFits]
  constructor
  case inside =>
    intro b i hi hb
    have hCell :
        Memory.cell (0x200 + UInt16.ofNat i) = b := by
      apply Fin.ext
      rw [Memory.cell_add, hb]
      simp only [Memory.cell, hStart]
      omega
    rw [← hCell]
    exact Memory.get_write _ _ _ (by omega) i hi
  case outside =>
    intro b hb
    rcases Memory.read_write_cases m.memory 0x200 program b
        with hKept | ⟨k, hk, hMet⟩
    · exact hKept
    · rw [hStart] at hMet
      omega
  case rest => rfl

/- A program of words that fit stands as their image. -/
theorem load_image
    (m : Machine)
    {words : List Word}
    (hFits : 2 * words.length ≤ Memory.programLimit) :
    (m.load (Word.image words)).machine =
      { m with
        memory := m.memory.write 0x200 (Word.image words)
        pc := 0x200
        mode := .running } := by
  rw [← Word.length_image] at hFits
  rw [load_of_fits m hFits]

theorem read_load
    (m : Machine)
    {words : List Word}
    (hFits : 2 * words.length ≤ Memory.programLimit) :
    (m.load (Word.image words)).machine.memory.read 0x200
        (2 * words.length) =
      Word.image words := by
  have hLimit : Memory.programLimit = 3584 := rfl
  have hLength := Word.length_image words
  rw [load_image m hFits, ← hLength]
  exact Memory.read_write m.memory 0x200 (by omega)

/- The words of a program are fetched where it stands. -/
theorem fetch_load
    (m : Machine)
    {words : List Word}
    (hFits : 2 * words.length ≤ Memory.programLimit)
    {k : Nat}
    (hk : k < words.length) :
    (m.load (Word.image words)).machine.memory.fetch
        (0x200 + UInt16.ofNat (2 * k)) =
      words[k] := by
  exact Memory.fetch_of_read_image (read_load m hFits) hk

/-
  A program of more than 3584 bytes is refused and changes
  nothing.  Every other program is installed exactly, and its
  words are the ones that are fetched.
-/
theorem load_exact_or_refused
    (m : Machine)
    (program : List UInt8)
    (words : List Word) :
    (3584 < program.length →
      (m.load program).result =
          .error (.programTooLarge program.length 3584) ∧
        (m.load program).machine = m) ∧
    (program.length ≤ 3584 →
      (m.load program).result = .ok () ∧
        m.Installs program (m.load program).machine) ∧
    (2 * words.length ≤ 3584 →
      ∀ (k : Nat) (h : k < words.length),
        (m.load (Word.image words)).machine.memory.fetch
            (0x200 + UInt16.ofNat (2 * k)) =
          words[k]) := by
  refine ⟨?_, ?_, ?_⟩
  · intro hLarge
    have hLoad := load_of_too_large m hLarge
    rw [hLoad]
    exact ⟨rfl, rfl⟩
  · intro hFits
    have hLoad := load_of_fits m hFits
    refine ⟨?_, installs_of_fits m hFits⟩
    rw [hLoad]
  · intro hFits k hk
    exact fetch_load m hFits hk

/- A machine that waits for a key, its memory blank. -/
def parked : Machine :=
  { initial {} (.ofSeed 7) with
    memory := .blank
    pc := 0x300
    mode := .awaitingKey Nibble.least }

/- One byte too much is refused; two words are installed. -/
theorem parked_load :
    (parked.load (List.replicate 3585 0xAA)).machine.mode =
        .awaitingKey Nibble.least ∧
      (parked.load (Word.image [0x60FF, 0xA2F0])).result =
        .ok () ∧
      parked.Installs [0x60, 0xFF, 0xA2, 0xF0]
        (parked.load (Word.image [0x60FF, 0xA2F0])).machine ∧
      (parked.load
            (Word.image [0x60FF, 0xA2F0])).machine.memory.fetch
          0x202 =
        0xA2F0 := by
  have hBytes :
      Word.image [0x60FF, 0xA2F0] =
        [0x60, 0xFF, 0xA2, 0xF0] := by
    decide
  have hLength :
      (List.replicate 3585 (0xAA : UInt8)).length = 3585 :=
    List.length_replicate
  have hRefused :=
    (load_exact_or_refused parked
      (List.replicate 3585 0xAA) []).1 (by omega)
  have hLoaded :=
    (load_exact_or_refused parked
      (Word.image [0x60FF, 0xA2F0])
      [0x60FF, 0xA2F0]).2
  rcases hLoaded.1 (by decide) with ⟨hResult, hInstalls⟩
  have hFetched := hLoaded.2 (by decide) 1 (by decide)
  refine ⟨?_, hResult, ?_, hFetched⟩
  · rw [hRefused.2]
    rfl
  · rw [hBytes] at hInstalls ⊢
    exact hInstalls

end Machine

end Chip8
