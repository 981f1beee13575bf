import Chip8.Instruction

/-
  This file reads the decoder backwards: it gives the form of
  the words that decode to each instruction.

  Key definitions include:
    * `Word.IsKey`, `Word.IsDevice`
    * `Operation.code`
    * `Instruction.HasForm`
    * `Word.ofDigits`

  The main statements are:
    * `Instruction.hasForm_decode`
    * `Instruction.decode_of_hasForm`
-/

------------------------------------------------------------
-- Forms of Words
------------------------------------------------------------

namespace Chip8

/- A word of family E with this low byte. -/
def Word.IsKey
    (w : Word)
    (code : Nat) : Prop :=
  w.family.val = 0xE ∧ w.constant.toNat = code

/- A word of family F with this low byte. -/
def Word.IsDevice
    (w : Word)
    (code : Nat) : Prop :=
  w.family.val = 0xF ∧ w.constant.toNat = code

instance
    (w : Word)
    (code : Nat) : Decidable (w.IsKey code) :=
  inferInstanceAs (Decidable (_ ∧ _))

instance
    (w : Word)
    (code : Nat) : Decidable (w.IsDevice code) :=
  inferInstanceAs (Decidable (_ ∧ _))

/- The last nibble of the words of an operation. -/
def Operation.code : Operation → Nat
| .copy => 0x0
| .bitOr => 0x1
| .bitAnd => 0x2
| .bitXor => 0x3
| .add => 0x4
| .sub => 0x5
| .shiftRight => 0x6
| .subFrom => 0x7
| .shiftLeft => 0xE

/- The form of the words of a conditional skip. -/
def Condition.HasForm
    (w : Word) : Condition → Prop
| .equalsByte x byte =>
    w.family.val = 0x3 ∧ x = w.x ∧ byte = w.constant
| .differsByte x byte =>
    w.family.val = 0x4 ∧ x = w.x ∧ byte = w.constant
| .equalsRegister x y =>
    w.family.val = 0x5 ∧ x = w.x ∧ y = w.y
| .differsRegister x y =>
    w.family.val = 0x9 ∧ x = w.x ∧ y = w.y
| .keyHeld x => w.IsKey 0x9E ∧ x = w.x
| .keyFree x => w.IsKey 0xA1 ∧ x = w.x

namespace Instruction

/- The form of the words of an instruction. -/
def HasForm
    (w : Word) : Instruction → Prop
| .clearScreen => w = 0x00E0
| .ret => w = 0x00EE
| .jump target => w.family.val = 0x1 ∧ target = w.target
| .call target => w.family.val = 0x2 ∧ target = w.target
| .skipIf condition => condition.HasForm w
| .setByte x byte =>
    w.family.val = 0x6 ∧ x = w.x ∧ byte = w.constant
| .addByte x byte =>
    w.family.val = 0x7 ∧ x = w.x ∧ byte = w.constant
| .combine operation x y =>
    w.family.val = 0x8 ∧ w.n.val = operation.code ∧
      x = w.x ∧ y = w.y
| .setIndex target =>
    w.family.val = 0xA ∧ target = w.target
| .jumpOffset target =>
    w.family.val = 0xB ∧ target = w.target
| .random x mask =>
    w.family.val = 0xC ∧ x = w.x ∧ mask = w.constant
| .draw x y rows =>
    w.family.val = 0xD ∧ x = w.x ∧ y = w.y ∧ rows = w.n
| .getDelay x => w.IsDevice 0x07 ∧ x = w.x
| .awaitKey x => w.IsDevice 0x0A ∧ x = w.x
| .setDelay x => w.IsDevice 0x15 ∧ x = w.x
| .setSound x => w.IsDevice 0x18 ∧ x = w.x
| .addIndex x => w.IsDevice 0x1E ∧ x = w.x
| .pointGlyph x => w.IsDevice 0x29 ∧ x = w.x
| .storeDecimal x => w.IsDevice 0x33 ∧ x = w.x
| .store x => w.IsDevice 0x55 ∧ x = w.x
| .load x => w.IsDevice 0x65 ∧ x = w.x
| .unknown word => word = w

end Instruction

------------------------------------------------------------
-- Words by Digits
------------------------------------------------------------

namespace Word

/- The word with these four digits. -/
def ofDigits
    (leading : Nat)
    (x : Register)
    (y : Register)
    (last : Nat) : Word :=
  UInt16.ofNat
    (leading * 4096 + x.val * 256 + y.val * 16 + last)

variable {leading last : Nat}

theorem toNat_ofDigits
    (hLeading : leading < 16)
    (x y : Register)
    (hLast : last < 16) :
    (ofDigits leading x y last).toNat =
      leading * 4096 + x.val * 256 + y.val * 16 + last := by
  simp only [ofDigits, UInt16.toNat_ofNat']
  omega

theorem family_eq_ofNat
    {w : Word}
    (hFamily : w.family.val = leading) :
    w.family = .ofNat leading := by
  have hLt := w.family.isLt
  rw [hFamily] at hLt
  apply Fin.ext
  rw [hFamily]
  exact (Nat.mod_eq_of_lt hLt).symm

/- The digits of a word are its fields. -/
theorem fields_ofDigits
    (hLeading : leading < 16)
    (x y : Register)
    (hLast : last < 16) :
    let w := ofDigits leading x y last
    w.family.val = leading ∧
      w.x = x ∧ w.y = y ∧ w.n.val = last := by
  have hX := x.isLt
  have hY := y.isLt
  simp only [family, Word.x, Word.y, n, Nibble.ofNat,
    Fin.ext_iff, toNat_ofDigits hLeading x y hLast]
  omega

end Word

------------------------------------------------------------
-- Decoding by Family
------------------------------------------------------------

theorem Operation.code_of_ofNibble?
    {n : Nibble}
    {operation : Operation}
    (h : Operation.ofNibble? n = some operation) :
    n.val = operation.code := by
  unfold ofNibble? at h
  split at h
  case h_10 => simp at h
  all_goals
    obtain rfl := Option.some.inj h
    rfl

theorem Operation.code_lt (operation : Operation) :
    operation.code < 16 := by
  cases operation <;> decide

theorem Operation.ofNibble?_of_code
    {n : Nibble}
    {operation : Operation}
    (h : n.val = operation.code) :
    Operation.ofNibble? n = some operation := by
  obtain ⟨value, hLt⟩ := n
  obtain rfl : value = operation.code := h
  cases operation <;> rfl

namespace Instruction

theorem hasForm_decodeSystem (w : Word) :
    (decodeSystem w).HasForm w := by
  unfold decodeSystem
  split
  · assumption
  · split
    · assumption
    · rfl

theorem hasForm_decodeCombine
    {w : Word}
    (hFamily : w.family.val = 0x8) :
    (decodeCombine w).HasForm w := by
  unfold decodeCombine
  split
  · rename_i operation hOperation
    exact
      ⟨hFamily, Operation.code_of_ofNibble? hOperation,
        rfl, rfl⟩
  · rfl

theorem hasForm_decodeKey
    {w : Word}
    (hFamily : w.family.val = 0xE) :
    (decodeKey w).HasForm w := by
  unfold decodeKey
  split
  case h_3 => rfl
  all_goals
    rename_i hCode
    exact ⟨⟨hFamily, hCode⟩, rfl⟩

theorem hasForm_decodeDevice
    {w : Word}
    (hFamily : w.family.val = 0xF) :
    (decodeDevice w).HasForm w := by
  unfold decodeDevice
  split
  case h_10 => rfl
  all_goals
    rename_i hCode
    exact ⟨⟨hFamily, hCode⟩, rfl⟩

/- Every word has the form of the instruction it decodes to. -/
theorem hasForm_decode (w : Word) :
    (decode w).HasForm w := by
  unfold decode
  split
  case h_1 => exact hasForm_decodeSystem w
  case h_9 hFamily =>
    exact hasForm_decodeCombine (congrArg Fin.val hFamily)
  case h_15 hFamily =>
    exact hasForm_decodeKey (congrArg Fin.val hFamily)
  case h_16 =>
    -- The fifteen families before leave the last nibble only.
    apply hasForm_decodeDevice
    generalize w.family = family at *
    revert family
    decide
  all_goals
    rename_i hFamily
    exact ⟨congrArg Fin.val hFamily, by simp⟩

/-
  A word with the form of an instruction decodes to it, if the
  instruction has a meaning.
-/
theorem decode_of_hasForm
    {w : Word}
    {instruction : Instruction}
    (hForm : instruction.HasForm w)
    (hKnown : ∀ word, instruction ≠ .unknown word) :
    decode w = instruction := by
  cases instruction with
  | unknown word =>
      exact absurd rfl (hKnown word)
  | clearScreen | ret =>
      obtain rfl := hForm
      rfl
  | skipIf condition =>
      cases condition with
      | keyHeld x | keyFree x =>
          rcases hForm with ⟨⟨hFamily, hCode⟩, rfl⟩
          rw [decode, Word.family_eq_ofNat hFamily]
          simp only [decodeKey, hCode]
          rfl
      | _ =>
          rcases hForm with ⟨hFamily, rfl, rfl⟩
          rw [decode, Word.family_eq_ofNat hFamily]
          rfl
  | combine operation x y =>
      rcases hForm with ⟨hFamily, hCode, rfl, rfl⟩
      have hOperation := Operation.ofNibble?_of_code hCode
      rw [decode, Word.family_eq_ofNat hFamily]
      simp only [decodeCombine, hOperation]
      rfl
  | jump target | call target | setIndex target
  | jumpOffset target =>
      rcases hForm with ⟨hFamily, rfl⟩
      rw [decode, Word.family_eq_ofNat hFamily]
      rfl
  | setByte x byte | addByte x byte | random x mask =>
      rcases hForm with ⟨hFamily, rfl, rfl⟩
      rw [decode, Word.family_eq_ofNat hFamily]
      rfl
  | draw x y rows =>
      rcases hForm with ⟨hFamily, rfl, rfl, rfl⟩
      rw [decode, Word.family_eq_ofNat hFamily]
      rfl
  | _ =>
      rcases hForm with ⟨⟨hFamily, hCode⟩, rfl⟩
      rw [decode, Word.family_eq_ofNat hFamily]
      simp only [decodeDevice, hCode]
      rfl

/- Every word of family 2 is a call. -/
theorem decode_call
    {w : Word}
    (hFamily : w.family.val = 0x2) :
    decode w = .call w.target :=
  decode_of_hasForm ⟨hFamily, rfl⟩ nofun

/- A word DXYN draws N rows at VX and VY. -/
theorem decode_draw
    (x y : Register)
    (rows : Nibble) :
    decode (.ofDigits 0xD x y rows.val) =
      .draw x y rows := by
  have hLeading : 0xD < 16 := by decide
  rcases Word.fields_ofDigits hLeading x y rows.isLt with
    ⟨hFamily, hX, hY, hRows⟩
  have hForm :
      (draw x y rows).HasForm (.ofDigits 0xD x y rows.val) :=
    ⟨hFamily, hX.symm, hY.symm, Fin.ext hRows.symm⟩
  exact decode_of_hasForm hForm nofun

/- A word of family 8 combines as its last digit tells. -/
theorem decode_combine
    (operation : Operation)
    (x y : Register) :
    decode (.ofDigits 0x8 x y operation.code) =
      .combine operation x y := by
  have hLeading : 0x8 < 16 := by decide
  rcases Word.fields_ofDigits hLeading x y
      operation.code_lt with
    ⟨hFamily, hX, hY, hCode⟩
  have hForm :
      (combine operation x y).HasForm
        (.ofDigits 0x8 x y operation.code) :=
    ⟨hFamily, hCode, hX.symm, hY.symm⟩
  exact decode_of_hasForm hForm nofun

theorem decode_storeDecimal
    {w : Word}
    (h : w.IsDevice 0x33) :
    decode w = .storeDecimal w.x :=
  decode_of_hasForm ⟨h, rfl⟩ nofun

theorem decode_store
    {w : Word}
    (h : w.IsDevice 0x55) :
    decode w = .store w.x :=
  decode_of_hasForm ⟨h, rfl⟩ nofun

theorem decode_load
    {w : Word}
    (h : w.IsDevice 0x65) :
    decode w = .load w.x :=
  decode_of_hasForm ⟨h, rfl⟩ nofun

end Instruction

end Chip8
