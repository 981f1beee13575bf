import Chip8.Machine.Execute
import Chip8.Proofs.ListingText
import Chip8.Proofs.WordForm

/-
  This file shows that the listing of an instruction tells the
  instruction, up to a register that a shift ignores, and the
  word, up to a digit that decoding ignores.

  Key definitions include:
    * `Instruction.ofAssembly?`
    * `Instruction.Alike`
    * `Word.Alike`

  The main statements are:
    * `Instruction.listing_eq_iff_alike`
    * `Instruction.decode_alike_iff`
    * `Instruction.listing_tells_instruction`
-/

------------------------------------------------------------
-- Instructions of Lines
------------------------------------------------------------

namespace Chip8

namespace Instruction

/-
  The instruction of an assembly line.  A shift is given the
  register that it changes for the one that it ignores.
-/
def ofAssembly? : Assembly → Option Instruction
| ⟨.cls, []⟩ => some .clearScreen
| ⟨.ret, []⟩ => some .ret
| ⟨.jp, [.target target]⟩ => some (.jump target)
| ⟨.jp, [.register _, .target target]⟩ =>
    some (.jumpOffset target)
| ⟨.call, [.target target]⟩ => some (.call target)
| ⟨.se, [.register x, .byte byte]⟩ =>
    some (.skipIf (.equalsByte x byte))
| ⟨.se, [.register x, .register y]⟩ =>
    some (.skipIf (.equalsRegister x y))
| ⟨.sne, [.register x, .byte byte]⟩ =>
    some (.skipIf (.differsByte x byte))
| ⟨.sne, [.register x, .register y]⟩ =>
    some (.skipIf (.differsRegister x y))
| ⟨.skp, [.register x]⟩ => some (.skipIf (.keyHeld x))
| ⟨.sknp, [.register x]⟩ => some (.skipIf (.keyFree x))
| ⟨.ld, [.register x, .byte byte]⟩ => some (.setByte x byte)
| ⟨.ld, [.register x, .register y]⟩ =>
    some (.combine .copy x y)
| ⟨.ld, [.index, .target target]⟩ => some (.setIndex target)
| ⟨.ld, [.register x, .delayTimer]⟩ => some (.getDelay x)
| ⟨.ld, [.register x, .key]⟩ => some (.awaitKey x)
| ⟨.ld, [.register x, .indexed]⟩ => some (.load x)
| ⟨.ld, [.delayTimer, .register x]⟩ => some (.setDelay x)
| ⟨.ld, [.soundTimer, .register x]⟩ => some (.setSound x)
| ⟨.ld, [.glyph, .register x]⟩ => some (.pointGlyph x)
| ⟨.ld, [.decimal, .register x]⟩ => some (.storeDecimal x)
| ⟨.ld, [.indexed, .register x]⟩ => some (.store x)
| ⟨.add, [.register x, .byte byte]⟩ => some (.addByte x byte)
| ⟨.add, [.register x, .register y]⟩ =>
    some (.combine .add x y)
| ⟨.add, [.index, .register x]⟩ => some (.addIndex x)
| ⟨.or, [.register x, .register y]⟩ =>
    some (.combine .bitOr x y)
| ⟨.and, [.register x, .register y]⟩ =>
    some (.combine .bitAnd x y)
| ⟨.xor, [.register x, .register y]⟩ =>
    some (.combine .bitXor x y)
| ⟨.sub, [.register x, .register y]⟩ =>
    some (.combine .sub x y)
| ⟨.subn, [.register x, .register y]⟩ =>
    some (.combine .subFrom x y)
| ⟨.shr, [.register x]⟩ => some (.combine .shiftRight x x)
| ⟨.shl, [.register x]⟩ => some (.combine .shiftLeft x x)
| ⟨.rnd, [.register x, .byte mask]⟩ => some (.random x mask)
| ⟨.drw, [.register x, .register y, .rows rows]⟩ =>
    some (.draw x y rows)
| ⟨.undefined, [.word word]⟩ => some (.unknown word)
| _ => none

/-
  Whether two instructions are the same, or the same shift of
  the same register.
-/
inductive Alike : Instruction → Instruction → Prop
| same (instruction : Instruction) :
    Alike instruction instruction
| shift
    {operation : Operation}
    (hShift :
      operation = .shiftRight ∨ operation = .shiftLeft)
    (x y z : Register) :
    Alike (.combine operation x y) (.combine operation x z)

variable {i j k : Instruction}

theorem Alike.symm (h : i.Alike j) : j.Alike i := by
  cases h with
  | same => exact .same i
  | shift hShift x y z => exact .shift hShift x z y

theorem Alike.trans
    (hFirst : i.Alike j)
    (hSecond : j.Alike k) :
    i.Alike k := by
  cases hFirst with
  | same => exact hSecond
  | shift hShift x y z =>
      cases hSecond with
      | same => exact .shift hShift x y z
      | shift _ _ _ other => exact .shift hShift x y other

/- A line is read as an instruction like the one listed. -/
theorem ofAssembly?_assembly (i : Instruction) :
    ∃ j, ofAssembly? i.assembly = some j ∧ i.Alike j := by
  cases i with
  | skipIf condition =>
      cases condition with
      | _ => exact ⟨_, rfl, .same _⟩
  | combine operation x y =>
      cases operation with
      | shiftRight =>
          exact ⟨_, rfl, .shift (Or.inl rfl) x y x⟩
      | shiftLeft =>
          exact ⟨_, rfl, .shift (Or.inr rfl) x y x⟩
      | _ => exact ⟨_, rfl, .same _⟩
  | _ => exact ⟨_, rfl, .same _⟩

/- Instructions are listed the same if they are alike. -/
theorem listing_eq_iff_alike :
    i.listing = j.listing ↔ i.Alike j := by
  constructor
  · intro hListing
    have hText := String.ofList_injective hListing
    have hLine := Assembly.text_injective hText
    rcases ofAssembly?_assembly i with ⟨read, hRead, hAlike⟩
    rcases ofAssembly?_assembly j with ⟨other, hOther, hLike⟩
    rw [hLine, hOther] at hRead
    obtain rfl := Option.some.inj hRead
    exact hAlike.trans hLike.symm
  · intro hAlike
    cases hAlike with
    | same => rfl
    | shift hShift x y z =>
        rcases hShift with rfl | rfl
        · rfl
        · rfl

/- Instructions that are alike do the same. -/
theorem execute_of_alike
    (hAlike : i.Alike j)
    (m : Machine) :
    m.execute i = m.execute j := by
  cases hAlike with
  | same => rfl
  | shift hShift x y z =>
      rcases hShift with rfl | rfl
      · rfl
      · rfl

end Instruction

------------------------------------------------------------
-- Words of Instructions
------------------------------------------------------------

namespace Word

/-
  Whether two words are the same, or differ in the last digit
  of 5XY_ and 9XY_ or in the third digit of 8X_6 and 8X_E.
-/
inductive Alike : Word → Word → Prop
| same (w : Word) :
    Alike w w
| equalsRegister (x y : Register) (a b : Nibble) :
    Alike (.ofDigits 0x5 x y a.val) (.ofDigits 0x5 x y b.val)
| differsRegister (x y : Register) (a b : Nibble) :
    Alike (.ofDigits 0x9 x y a.val) (.ofDigits 0x9 x y b.val)
| shiftRight (x y z : Register) :
    Alike (.ofDigits 0x8 x y 0x6) (.ofDigits 0x8 x z 0x6)
| shiftLeft (x y z : Register) :
    Alike (.ofDigits 0x8 x y 0xE) (.ofDigits 0x8 x z 0xE)

variable {v w : Word}

/- The fields of a word are its digits. -/
theorem ofDigits_fields (w : Word) :
    ofDigits w.family.val w.x w.y w.n.val = w := by
  have hLt := w.toNat_lt
  apply UInt16.toNat_inj.mp
  simp only [ofDigits, family, x, y, n, Nibble.ofNat,
    UInt16.toNat_ofNat']
  omega

theorem eq_of_digits
    (hFamily : v.family.val = w.family.val)
    (hX : v.x = w.x)
    (hY : v.y = w.y)
    (hN : v.n = w.n) :
    v = w := by
  rw [← v.ofDigits_fields, ← w.ofDigits_fields, hFamily, hX,
    hY, hN]

theorem eq_of_constant
    (hFamily : v.family.val = w.family.val)
    (hX : v.x = w.x)
    (hConstant : v.constant = w.constant) :
    v = w := by
  have hLow : v.toNat % 256 = w.toNat % 256 := by
    simpa [constant] using congrArg UInt8.toNat hConstant
  apply eq_of_digits hFamily hX
  · simp only [y, Nibble.ofNat, Fin.mk.injEq]
    omega
  · simp only [n, Nibble.ofNat, Fin.mk.injEq]
    omega

theorem eq_of_target
    (hFamily : v.family.val = w.family.val)
    (hTarget : v.target = w.target) :
    v = w := by
  have hLow : v.toNat % 4096 = w.toNat % 4096 :=
    congrArg Fin.val hTarget
  apply eq_of_digits hFamily
  · simp only [x, Nibble.ofNat, Fin.mk.injEq]
    omega
  · simp only [y, Nibble.ofNat, Fin.mk.injEq]
    omega
  · simp only [n, Nibble.ofNat, Fin.mk.injEq]
    omega

/- The words of 5XY_ and 9XY_ with the same X and Y are alike. -/
theorem alike_of_registers
    (hFamily : v.family.val = w.family.val)
    (hSkip : v.family.val = 0x5 ∨ v.family.val = 0x9)
    (hX : v.x = w.x)
    (hY : v.y = w.y) :
    v.Alike w := by
  rw [← v.ofDigits_fields, ← w.ofDigits_fields, ← hFamily,
    hX, hY]
  rcases hSkip with hFive | hNine
  · rw [hFive]
    exact .equalsRegister _ _ _ _
  · rw [hNine]
    exact .differsRegister _ _ _ _

/- The words of a shift with the same X are alike. -/
theorem alike_of_shift
    {operation : Operation}
    (hShift :
      operation = .shiftRight ∨ operation = .shiftLeft)
    {x y z : Register}
    (hv : (Instruction.combine operation x y).HasForm v)
    (hw : (Instruction.combine operation x z).HasForm w) :
    v.Alike w := by
  rcases hv with ⟨hFamily, hCode, rfl, rfl⟩
  rcases hw with ⟨hOther, hOtherCode, hX, rfl⟩
  rw [← v.ofDigits_fields, ← w.ofDigits_fields, hFamily,
    hOther, hCode, hOtherCode, ← hX]
  rcases hShift with rfl | rfl
  · exact .shiftRight _ _ _
  · exact .shiftLeft _ _ _

/- Words that have the form of one condition are alike. -/
theorem alike_of_condition
    {condition : Condition}
    (hv : condition.HasForm v)
    (hw : condition.HasForm w) :
    v.Alike w := by
  cases condition with
  | equalsByte x byte | differsByte x byte =>
      rcases hv with ⟨hFamily, rfl, rfl⟩
      rcases hw with ⟨hOther, hX, hByte⟩
      rw [eq_of_constant (hFamily.trans hOther.symm) hX hByte]
      exact .same w
  | equalsRegister x y =>
      rcases hv with ⟨hFamily, rfl, rfl⟩
      rcases hw with ⟨hOther, hX, hY⟩
      exact
        alike_of_registers (hFamily.trans hOther.symm)
          (Or.inl hFamily) hX hY
  | differsRegister x y =>
      rcases hv with ⟨hFamily, rfl, rfl⟩
      rcases hw with ⟨hOther, hX, hY⟩
      exact
        alike_of_registers (hFamily.trans hOther.symm)
          (Or.inr hFamily) hX hY
  | keyHeld x | keyFree x =>
      rcases hv with ⟨⟨hFamily, hCode⟩, rfl⟩
      rcases hw with ⟨⟨hOther, hOtherCode⟩, hX⟩
      have hByte :=
        UInt8.toNat_inj.mp (hCode.trans hOtherCode.symm)
      rw [eq_of_constant (hFamily.trans hOther.symm) hX hByte]
      exact .same w

/- Words that have the form of one instruction are alike. -/
theorem alike_of_hasForm
    {instruction : Instruction}
    (hv : instruction.HasForm v)
    (hw : instruction.HasForm w) :
    v.Alike w := by
  cases instruction with
  | clearScreen | ret | unknown word =>
      obtain rfl := hv
      obtain rfl := hw
      exact .same _
  | skipIf condition =>
      exact alike_of_condition hv hw
  | jump target | call target | setIndex target
  | jumpOffset target =>
      rcases hv with ⟨hFamily, rfl⟩
      rcases hw with ⟨hOther, hTarget⟩
      rw [eq_of_target (hFamily.trans hOther.symm) hTarget]
      exact .same w
  | setByte x byte | addByte x byte | random x mask =>
      rcases hv with ⟨hFamily, rfl, rfl⟩
      rcases hw with ⟨hOther, hX, hByte⟩
      rw [eq_of_constant (hFamily.trans hOther.symm) hX hByte]
      exact .same w
  | combine operation x y =>
      rcases hv with ⟨hFamily, hCode, rfl, rfl⟩
      rcases hw with ⟨hOther, hOtherCode, hX, hY⟩
      have hN := Fin.ext (hCode.trans hOtherCode.symm)
      rw [eq_of_digits (hFamily.trans hOther.symm) hX hY hN]
      exact .same w
  | draw x y rows =>
      rcases hv with ⟨hFamily, rfl, rfl, rfl⟩
      rcases hw with ⟨hOther, hX, hY, hN⟩
      rw [eq_of_digits (hFamily.trans hOther.symm) hX hY hN]
      exact .same w
  | _ =>
      rcases hv with ⟨⟨hFamily, hCode⟩, rfl⟩
      rcases hw with ⟨⟨hOther, hOtherCode⟩, hX⟩
      have hByte :=
        UInt8.toNat_inj.mp (hCode.trans hOtherCode.symm)
      rw [eq_of_constant (hFamily.trans hOther.symm) hX hByte]
      exact .same w

end Word

namespace Instruction

variable {v w : Word}

theorem decode_equalsRegister
    (x y : Register)
    (a : Nibble) :
    decode (.ofDigits 0x5 x y a.val) =
      .skipIf (.equalsRegister x y) := by
  have hLeading : 0x5 < 16 := by decide
  rcases Word.fields_ofDigits hLeading x y a.isLt with
    ⟨hFamily, hX, hY, _⟩
  exact
    decode_of_hasForm ⟨hFamily, hX.symm, hY.symm⟩ nofun

theorem decode_differsRegister
    (x y : Register)
    (a : Nibble) :
    decode (.ofDigits 0x9 x y a.val) =
      .skipIf (.differsRegister x y) := by
  have hLeading : 0x9 < 16 := by decide
  rcases Word.fields_ofDigits hLeading x y a.isLt with
    ⟨hFamily, hX, hY, _⟩
  exact
    decode_of_hasForm ⟨hFamily, hX.symm, hY.symm⟩ nofun

/- Words decode to instructions that are alike if they are. -/
theorem decode_alike_iff :
    (decode v).Alike (decode w) ↔ v.Alike w := by
  constructor
  · intro hAlike
    have hv := hasForm_decode v
    have hw := hasForm_decode w
    generalize decode v = i at hAlike hv
    generalize decode w = j at hAlike hw
    cases hAlike with
    | same => exact Word.alike_of_hasForm hv hw
    | shift hShift x y z =>
        exact Word.alike_of_shift hShift hv hw
  · intro hAlike
    cases hAlike with
    | same => exact .same _
    | equalsRegister x y a b =>
        rw [decode_equalsRegister, decode_equalsRegister]
        exact .same _
    | differsRegister x y a b =>
        rw [decode_differsRegister, decode_differsRegister]
        exact .same _
    | shiftRight x y z =>
        have hFirst := decode_combine .shiftRight x y
        have hSecond := decode_combine .shiftRight x z
        rw [Operation.code] at hFirst hSecond
        rw [hFirst, hSecond]
        exact .shift (Or.inl rfl) x y z
    | shiftLeft x y z =>
        have hFirst := decode_combine .shiftLeft x y
        have hSecond := decode_combine .shiftLeft x z
        rw [Operation.code] at hFirst hSecond
        rw [hFirst, hSecond]
        exact .shift (Or.inr rfl) x y z

/-
  The listings of two words are the same exactly if the words
  are alike, and then the words do the same on every machine:
  they go on at the same place and leave the same machine.
-/
theorem listing_tells_instruction (v w : Word) :
    ((decode v).listing = (decode w).listing ↔ v.Alike w) ∧
      ((decode v).listing = (decode w).listing →
        ∀ m : Machine,
          m.execute (decode v) = m.execute (decode w)) := by
  constructor
  · exact listing_eq_iff_alike.trans decode_alike_iff
  · intro hListing m
    exact execute_of_alike (listing_eq_iff_alike.mp hListing) m

/- A shift is listed and done alike whatever it ignores. -/
theorem shifts_listed_alike :
    decode 0x8126 ≠ decode 0x8136 ∧
      (decode 0x8126).listing = (decode 0x8136).listing ∧
      ∀ m : Machine,
        m.execute (decode 0x8126) =
          m.execute (decode 0x8136) := by
  have hAlike : Word.Alike 0x8126 0x8136 :=
    .shiftRight (.ofNat 1) (.ofNat 2) (.ofNat 3)
  have hDiffer : decode 0x8126 ≠ decode 0x8136 := by
    decide
  rcases listing_tells_instruction 0x8126 0x8136 with
    ⟨hListed, hDone⟩
  have hListing := hListed.mpr hAlike
  exact ⟨hDiffer, hListing, hDone hListing⟩

end Instruction

end Chip8
