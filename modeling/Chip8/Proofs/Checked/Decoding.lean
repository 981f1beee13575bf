import Chip8.Instruction
import Chip8.Proofs.Checked.Access

/-
  This file defines decoding with checked accesses.  The fields
  of a word are taken out by shifts whose places are computed
  in eight bits, which traps for some runs of nibbles; for the
  runs that decoding asks for it does not.

  Key definitions include:
    * `Checked.nibbles`
    * `Checked.nibble`, `Checked.byte`, `Checked.target`
    * `Checked.decode`

  The main statements are:
    * `Checked.nibbles_eq_select`
    * `Checked.decode_eq`
-/

------------------------------------------------------------
-- Runs of Nibbles
------------------------------------------------------------

namespace Chip8

theorem Word.weight_eq_shiftLeft (count : Nat) :
    weight count = 1 <<< (count * 4) := by
  induction count with
  | zero => rfl
  | succ count ih =>
      rw [weight, ih, Nat.one_shiftLeft, Nat.one_shiftLeft,
        Nat.add_mul, Nat.pow_add]
      omega

namespace Checked

/-
  The run of `count` nibbles that begins with the one at
  `start`, counted from one at the left.
-/
def nibbles
    (w : Word)
    (start : Nat)
    (count : Nat) : Except Trap UInt16 := do
  let rest ← sub 4 count
  let skipped ← sub start 1
  let behind ← sub rest skipped
  let places ← mul byteRange behind 4
  let width ← mul byteRange count 4
  let top ← shiftLeft 32 doubleRange 1 width
  let mask ← sub top 1
  let shifted ← shiftRight 16 w.toNat places
  .ok (UInt16.ofNat (shifted &&& mask % wordRange))

/- The one in front of at most four nibbles fits 32 bits. -/
theorem shiftLeft_one
    {count : Nat}
    (hCount : count ≤ 4) :
    shiftLeft 32 doubleRange 1 (count * 4) =
      .ok (Word.weight count) := by
  have hPlaces : count * 4 < 32 := by omega
  have hFits : 1 <<< (count * 4) < doubleRange := by
    rw [Nat.one_shiftLeft]
    exact Nat.pow_lt_pow_right (by decide) hPlaces
  unfold shiftLeft
  rw [if_pos hPlaces, Nat.mod_eq_of_lt hFits,
    Word.weight_eq_shiftLeft]

/- Masking with so many nibbles leaves what they hold. -/
theorem and_mask
    (a : Nat)
    {count : Nat}
    (hCount : count ≤ 4) :
    a &&& (Word.weight count - 1) % wordRange =
      a % Word.weight count := by
  have hFits : Word.weight count - 1 < wordRange := by
    have hLe : 1 <<< (count * 4) ≤ wordRange := by
      rw [Nat.one_shiftLeft]
      exact
        Nat.pow_le_pow_right (by decide)
          (Nat.mul_le_mul_right 4 hCount)
    rw [Word.weight_eq_shiftLeft]
    simp only [wordRange] at hLe ⊢
    omega
  rw [Nat.mod_eq_of_lt hFits, Word.weight_eq_shiftLeft,
    Nat.one_shiftLeft, Nat.and_two_pow_sub_one_eq_mod]

theorem shiftRight_weight
    (a count : Nat) :
    a >>> (count * 4) = a / Word.weight count := by
  rw [Word.weight_eq_shiftLeft, Nat.one_shiftLeft,
    Nat.shiftRight_eq_div_pow]

/-
  A run of nibbles traps exactly where it cannot be selected:
  where it leaves the word, and where it is empty and stands
  before every bit.
-/
theorem nibbles_eq_select
    (w : Word)
    (start count : Nat) :
    nibbles w start count =
      (w.select start count).mapError fun _ => .overflow := by
  unfold nibbles Word.select
  by_cases hOutside : start = 0 ∨ 4 < count + (start - 1)
  · rw [if_pos hOutside]
    by_cases hCount : count ≤ 4
    · by_cases hStart : 1 ≤ start
      · have hBehind : 4 - count < start - 1 := by omega
        simp only [sub_of_le hCount, sub_of_le hStart,
          sub_of_lt hBehind, ok_bind, error_bind]
        rfl
      · have hFirst : start < 1 := by omega
        simp only [sub_of_le hCount, sub_of_lt hFirst,
          ok_bind, error_bind]
        rfl
    · have hMany : 4 < count := by omega
      simp only [sub_of_lt hMany, error_bind]
      rfl
  · have hCount : count ≤ 4 := by omega
    have hStart : 1 ≤ start := by omega
    have hBehind : start - 1 ≤ 4 - count := by omega
    have hPlaces :
        (4 - count - (start - 1)) * 4 < byteRange := by
      simp only [byteRange]
      omega
    have hWidth : count * 4 < byteRange := by
      simp only [byteRange]
      omega
    have hTop : 1 ≤ Word.weight count := by
      rw [Word.weight_eq_shiftLeft, Nat.one_shiftLeft]
      exact Nat.one_le_two_pow
    simp only [hOutside, ↓reduceIte, sub_of_le hCount,
      sub_of_le hStart, sub_of_le hBehind, mul_of_lt hPlaces,
      mul_of_lt hWidth, shiftLeft_one hCount,
      sub_of_le hTop, ok_bind]
    by_cases hAll : 4 - count - (start - 1) = 4
    · rw [if_pos hAll, hAll]
      rfl
    · have hWithin : (4 - count - (start - 1)) * 4 < 16 := by
        omega
      rw [if_neg hAll, shiftRight_of_lt _ hWithin, ok_bind,
        and_mask _ hCount, shiftRight_weight]
      rfl

/- An empty run in front of the word asks for a shift by
  sixteen places. -/
example : nibbles 0x4CEE 1 0 = .error .overflow := by
  rfl

theorem nibbles_of_select
    {w : Word}
    {start count : Nat}
    {a : UInt16}
    (hSelect : w.select start count = .ok a) :
    nibbles w start count = .ok a := by
  rw [nibbles_eq_select, hSelect]
  rfl

------------------------------------------------------------
-- Fields
------------------------------------------------------------

/- The first nibble of a word, in eight bits. -/
def family (w : Word) : Except Trap UInt8 := do
  let d ← nibbles w 1 1
  .ok d.toUInt8

/- One nibble of a word, which has to fit a nibble. -/
def nibble
    (w : Word)
    (start : Nat) : Except Trap Nibble := do
  let d ← nibbles w start 1
  if h : d.toUInt8.toNat < 16 then
    .ok ⟨d.toUInt8.toNat, h⟩
  else
    .error (.misfit d.toNat)

/- The two last nibbles of a word. -/
def byte (w : Word) : Except Trap UInt8 := do
  let d ← nibbles w 3 2
  .ok d.toUInt8

/- The three last nibbles of a word, which have to fit a
  target. -/
def target (w : Word) : Except Trap Target := do
  let a ← nibbles w 2 3
  if h : a.toNat < 4096 then
    .ok ⟨a.toNat, h⟩
  else
    .error (.misfit a.toNat)

theorem nibble_of_select
    {w : Word}
    {start n : Nat}
    (hSelect :
      w.select start 1 = .ok (UInt16.ofNat (n % 16))) :
    nibble w start = .ok (Nibble.ofNat n) := by
  have hVal : (UInt16.ofNat (n % 16)).toUInt8.toNat = n % 16 := by
    simp only [UInt16.toNat_toUInt8, UInt16.toNat_ofNat']
    omega
  have hLt : n % 16 < 16 := Nat.mod_lt n (by decide)
  simp only [nibble, nibbles_of_select hSelect, ok_bind, hVal,
    hLt, ↓reduceDIte]
  rfl

@[simp] theorem family_eq (w : Word) :
    family w = .ok w.family.toByte := by
  have hSelect :
      w.select 1 1 =
        .ok (UInt16.ofNat (w.toNat / 4096 % 16)) :=
    rfl
  rw [family, nibbles_of_select hSelect, ok_bind]
  apply congrArg Except.ok
  apply UInt8.toNat_inj.mp
  simp only [Word.family, Nibble.toByte, Nibble.ofNat,
    UInt16.toNat_toUInt8, UInt16.toNat_ofNat',
    UInt8.toNat_ofNat']
  omega

@[simp] theorem x_eq (w : Word) :
    nibble w 2 = .ok w.x :=
  nibble_of_select rfl

@[simp] theorem y_eq (w : Word) :
    nibble w 3 = .ok w.y :=
  nibble_of_select rfl

@[simp] theorem n_eq (w : Word) :
    nibble w 4 = .ok w.n := by
  have hLast : nibble w 4 = .ok (Nibble.ofNat (w.toNat / 1)) :=
    nibble_of_select rfl
  rw [hLast, Nat.div_one]
  rfl

@[simp] theorem byte_eq (w : Word) :
    byte w = .ok w.constant := by
  have hSelect :
      w.select 3 2 =
        .ok (UInt16.ofNat (w.toNat / 1 % 256)) :=
    rfl
  rw [byte, nibbles_of_select hSelect, ok_bind]
  apply congrArg Except.ok
  apply UInt8.toNat_inj.mp
  simp only [Word.constant, UInt16.toNat_toUInt8,
    UInt16.toNat_ofNat', UInt8.toNat_ofNat']
  omega

@[simp] theorem target_eq (w : Word) :
    target w = .ok w.target := by
  have hSelect :
      w.select 2 3 =
        .ok (UInt16.ofNat (w.toNat / 1 % 4096)) :=
    rfl
  have hVal :
      (UInt16.ofNat (w.toNat / 1 % 4096)).toNat =
        w.toNat % 4096 := by
    simp only [UInt16.toNat_ofNat']
    omega
  have hLt : w.toNat % 4096 < 4096 :=
    Nat.mod_lt _ (by decide)
  simp only [target, nibbles_of_select hSelect, ok_bind,
    hVal, hLt, ↓reduceDIte]
  rfl

------------------------------------------------------------
-- Decoding
------------------------------------------------------------

/-
  The instruction of a word.  No value of a first nibble leads
  to the last arm, but a value of eight bits could.
-/
def decode (w : Word) : Except Trap Instruction := do
  let x ← nibble w 2
  let y ← nibble w 3
  let family ← family w
  match family.toNat with
  | 0x0 => .ok (.decodeSystem w)
  | 0x1 => do
      let a ← target w
      .ok (.jump a)
  | 0x2 => do
      let a ← target w
      .ok (.call a)
  | 0x3 => do
      let nn ← byte w
      .ok (.skipIf (.equalsByte x nn))
  | 0x4 => do
      let nn ← byte w
      .ok (.skipIf (.differsByte x nn))
  | 0x5 => .ok (.skipIf (.equalsRegister x y))
  | 0x6 => do
      let nn ← byte w
      .ok (.setByte x nn)
  | 0x7 => do
      let nn ← byte w
      .ok (.addByte x nn)
  | 0x8 => do
      let n ← nibble w 4
      .ok
        (match Operation.ofNibble? n with
        | some operation => .combine operation x y
        | none => .unknown w)
  | 0x9 => .ok (.skipIf (.differsRegister x y))
  | 0xA => do
      let a ← target w
      .ok (.setIndex a)
  | 0xB => do
      let a ← target w
      .ok (.jumpOffset a)
  | 0xC => do
      let nn ← byte w
      .ok (.random x nn)
  | 0xD => do
      let n ← nibble w 4
      .ok (.draw x y n)
  | 0xE => do
      let nn ← byte w
      .ok
        (match nn.toNat with
        | 0x9E => .skipIf (.keyHeld x)
        | 0xA1 => .skipIf (.keyFree x)
        | _ => .unknown w)
  | 0xF => do
      let nn ← byte w
      .ok
        (match nn.toNat with
        | 0x07 => .getDelay x
        | 0x0A => .awaitKey x
        | 0x15 => .setDelay x
        | 0x18 => .setSound x
        | 0x1E => .addIndex x
        | 0x29 => .pointGlyph x
        | 0x33 => .storeDecimal x
        | 0x55 => .store x
        | 0x65 => .load x
        | _ => .unknown w)
  | _ => .error .unreachable

@[simp] theorem decode_eq (w : Word) :
    decode w = .ok (Instruction.decode w) := by
  unfold decode Instruction.decode
  simp only [x_eq, y_eq, family_eq, n_eq, byte_eq, target_eq,
    ok_bind]
  generalize w.family = family
  match family with
  | ⟨0, _⟩ | ⟨1, _⟩ | ⟨2, _⟩ | ⟨3, _⟩ | ⟨4, _⟩ | ⟨5, _⟩
  | ⟨6, _⟩ | ⟨7, _⟩ | ⟨8, _⟩ | ⟨9, _⟩ | ⟨10, _⟩ | ⟨11, _⟩
  | ⟨12, _⟩ | ⟨13, _⟩ | ⟨14, _⟩ | ⟨15, _⟩ => rfl
  | ⟨family + 16, hLt⟩ => omega

end Checked

end Chip8
