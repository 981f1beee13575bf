import Chip8.Instruction.Assembly

/-
  This file shows that the text of an assembly line tells the
  line: numerals and operands can be read back, and no
  operand contains the comma that stands between two of them.

  Key definitions include:
    * `Numeral.digitValue`, `Numeral.value`
    * `Operand.ofText`
    * `Mnemonic.ofText?`

  The main statements are:
    * `Numeral.value_padded`
    * `Operand.ofText_text`
    * `Assembly.text_injective`
-/

------------------------------------------------------------
-- Numerals
------------------------------------------------------------

namespace Chip8

namespace Numeral

/- The value of a lower-case hexadecimal digit. -/
def digitValue (digit : Char) : Nat :=
  if digit.toNat < 'a'.toNat then
    digit.toNat - '0'.toNat
  else
    digit.toNat - 'a'.toNat + 10

/- The value of hexadecimal digits. -/
def value (digits : List Char) : Nat :=
  digits.foldl
    (fun sum digit => 16 * sum + digitValue digit) 0

theorem digitValue_digitChar
    {n : Nat}
    (h : n < 16) :
    digitValue (Nat.digitChar n) = n := by
  revert n
  decide

theorem value_append
    (digits : List Char)
    {n : Nat}
    (h : n < 16) :
    value (digits ++ [Nat.digitChar n]) =
      16 * value digits + n := by
  unfold value
  rw [List.foldl_append]
  simp [digitValue_digitChar h]

theorem value_hexDigits (n : Nat) :
    value (hexDigits n) = n := by
  fun_induction hexDigits n with
  | case1 n h =>
      have hDigit := value_append [] h
      rw [List.nil_append] at hDigit
      rw [hDigit]
      exact Nat.zero_add n
  | case2 n h ih =>
      rw [value_append _ (by omega), ih]
      omega

/- Zeros on the left do not count. -/
theorem value_padded (width n : Nat) :
    value (padded width n) = n := by
  unfold padded
  generalize width - (hexDigits n).length = count
  induction count with
  | zero => exact value_hexDigits n
  | succ count ih => exact ih

theorem hexDigits_eq_toDigits (n : Nat) :
    hexDigits n = Nat.toDigits 16 n := by
  fun_induction hexDigits n with
  | case1 n h => exact (Nat.toDigits_of_lt_base h).symm
  | case2 n h ih =>
      rw [Nat.toDigits_of_base_le (by decide) (by omega), ih]

/- A number that fits into a width has just that width. -/
theorem length_padded
    {width n : Nat}
    (hPos : 0 < width)
    (hFits : n < Nat.pow 16 width) :
    (padded width n).length = width := by
  have hLe : (hexDigits n).length ≤ width := by
    rw [hexDigits_eq_toDigits,
      Nat.length_toDigits_le_iff (by decide) hPos]
    exact hFits
  unfold padded
  rw [List.length_append, List.length_replicate]
  omega

theorem digit_of_mem_hexDigits
    {n : Nat}
    {digit : Char}
    (hMem : digit ∈ hexDigits n) :
    ∃ d, d < 16 ∧ digit = Nat.digitChar d := by
  fun_induction hexDigits n with
  | case1 n h =>
      exact ⟨n, h, List.mem_singleton.mp hMem⟩
  | case2 n h ih =>
      rcases List.mem_append.mp hMem with hUpper | hLast
      · exact ih hUpper
      · exact
          ⟨n % 16, by omega, List.mem_singleton.mp hLast⟩

theorem comma_not_mem_marked (width n : Nat) :
    ',' ∉ marked width n := by
  have hDigits : ∀ d, d < 16 → ',' ≠ Nat.digitChar d := by
    decide
  intro hMem
  unfold marked padded at hMem
  rw [List.mem_cons, List.mem_cons, List.mem_append,
    List.mem_replicate] at hMem
  rcases hMem with hZero | hMark | ⟨_, hZero⟩ | hMem
  · exact absurd hZero (by decide)
  · exact absurd hMark (by decide)
  · exact absurd hZero (by decide)
  · rcases digit_of_mem_hexDigits hMem with ⟨d, hLt, hDigit⟩
    exact hDigits d hLt hDigit

end Numeral

------------------------------------------------------------
-- Operands
------------------------------------------------------------

theorem Word.target_toAddress (t : Target) :
    Word.target t.toAddress = t := by
  have hLt := t.isLt
  apply Fin.ext
  simp only [Word.target, Target.toAddress,
    UInt16.toNat_ofNat']
  omega

namespace Operand

/- The operand of a text: a number is told by its width. -/
def ofText : List Char → Operand
| ['I'] => .index
| ['K'] => .key
| ['F'] => .glyph
| ['B'] => .decimal
| ['D', 'T'] => .delayTimer
| ['S', 'T'] => .soundTimer
| ['[', 'I', ']'] => .indexed
| ['V', digit] =>
    .register
      (.ofNat (Numeral.digitValue digit.toLower))
| ['0', 'x', a, b] =>
    .byte (UInt8.ofNat (Numeral.value [a, b]))
| ['0', 'x', a, b, c] =>
    .target
      (Word.target
        (UInt16.ofNat (Numeral.value [a, b, c])))
| ['0', 'x', a, b, c, d] =>
    .word (UInt16.ofNat (Numeral.value [a, b, c, d]))
| digits =>
    .rows (.ofNat (Nat.ofDigitChars 10 digits 0))

theorem ofText_text (operand : Operand) :
    ofText operand.text = operand := by
  cases operand with
  | register r =>
      revert r
      decide
  | rows n =>
      revert n
      decide
  | byte b =>
      have hValue := Numeral.value_padded 2 b.toNat
      have hLength :
          (Numeral.padded 2 b.toNat).length = 2 :=
        Numeral.length_padded (by decide) b.toNat_lt
      rw [text, Numeral.byte, Numeral.marked]
      generalize Numeral.padded 2 b.toNat = digits at *
      match digits with
      | [_, _] =>
          rw [ofText, hValue, UInt8.ofNat_toNat]
  | target t =>
      have hAddress : t.toAddress.toNat = t.val := by
        simp only [Target.toAddress, UInt16.toNat_ofNat']
        omega
      have hValue := Numeral.value_padded 3 t.val
      have hLength : (Numeral.padded 3 t.val).length = 3 :=
        Numeral.length_padded (by decide) t.isLt
      rw [text, Numeral.address, Numeral.marked, hAddress]
      generalize Numeral.padded 3 t.val = digits at *
      match digits with
      | [_, _, _] =>
          rw [ofText, hValue]
          exact congrArg target (Word.target_toAddress t)
  | word w =>
      have hValue := Numeral.value_padded 4 w.toNat
      have hLength :
          (Numeral.padded 4 w.toNat).length = 4 :=
        Numeral.length_padded (by decide) w.toNat_lt
      rw [text, Numeral.word, Numeral.marked]
      generalize Numeral.padded 4 w.toNat = digits at *
      match digits with
      | [_, _, _, _] =>
          rw [ofText, hValue, UInt16.ofNat_toNat]
  | _ => rfl

theorem comma_not_mem_text (operand : Operand) :
    ',' ∉ operand.text := by
  cases operand with
  | register r =>
      revert r
      decide
  | rows n =>
      revert n
      decide
  | byte b => exact Numeral.comma_not_mem_marked _ _
  | target t => exact Numeral.comma_not_mem_marked _ _
  | word w => exact Numeral.comma_not_mem_marked _ _
  | _ => decide

/- Operands with the same texts are the same. -/
theorem map_text_injective
    {operands others : List Operand}
    (h : operands.map text = others.map text) :
    operands = others := by
  have hRead := congrArg (List.map ofText) h
  simpa [Function.comp_def, ofText_text] using hRead

end Operand

------------------------------------------------------------
-- Lines
------------------------------------------------------------

namespace Mnemonic

/- All mnemonics. -/
def all : List Mnemonic :=
  [.cls, .ret, .jp, .call, .se, .sne, .ld, .add, .or, .and,
    .xor, .sub, .subn, .shr, .shl, .rnd, .drw, .skp, .sknp,
    .undefined]

/- The mnemonic of a text. -/
def ofText? (letters : List Char) : Option Mnemonic :=
  all.find? fun mnemonic => mnemonic.text = letters

theorem ofText?_text (mnemonic : Mnemonic) :
    ofText? mnemonic.text = some mnemonic := by
  cases mnemonic <;> rfl

theorem blank_not_mem_text (mnemonic : Mnemonic) :
    ' ' ∉ mnemonic.text := by
  cases mnemonic <;> decide

end Mnemonic

/-
  Where the second character of a separator is put in front of
  what follows it, the first one separates.
-/
theorem intercalate_pair
    (a b : Char)
    (word : List Char)
    (words : List (List Char)) :
    List.intercalate [a, b] (word :: words) =
      List.intercalate [a] (word :: words.map (b :: ·)) := by
  induction words generalizing word with
  | nil => rfl
  | cons next words ih =>
      rw [List.intercalate_cons_cons, ih, List.map_cons,
        List.intercalate_cons_cons,
        List.intercalate_cons_cons_left, List.append_assoc,
        List.append_assoc]
      rfl

theorem splitOn_intercalate_pair
    {word : List Char}
    {words : List (List Char)}
    (hWords : ∀ w ∈ word :: words, ',' ∉ w) :
    (List.intercalate [',', ' '] (word :: words)).splitOn ',' =
      word :: words.map (' ' :: ·) := by
  rw [intercalate_pair]
  apply List.splitOn_intercalate
  · intro w hMem
    rcases List.mem_cons.mp hMem with rfl | hMem
    · exact hWords w List.mem_cons_self
    · rcases List.mem_map.mp hMem with ⟨later, hLater, rfl⟩
      have hComma := hWords later (List.mem_cons_of_mem _ hLater)
      simpa using hComma
  · exact List.cons_ne_nil _ _

/- Operands can be told apart between the commas. -/
theorem Operand.intercalate_text_injective
    {operand other : Operand}
    {operands others : List Operand}
    (h :
      List.intercalate [',', ' ']
          ((operand :: operands).map text) =
        List.intercalate [',', ' ']
          ((other :: others).map text)) :
    operand :: operands = other :: others := by
  have hFree (list : List Operand) :
      ∀ w ∈ list.map text, ',' ∉ w := by
    intro w hMem
    rcases List.mem_map.mp hMem with ⟨o, _, rfl⟩
    exact o.comma_not_mem_text
  have hSplit := congrArg (List.splitOn ',') h
  rw [List.map_cons, List.map_cons,
    splitOn_intercalate_pair (hFree (operand :: operands)),
    splitOn_intercalate_pair (hFree (other :: others))]
    at hSplit
  rcases List.cons.inj hSplit with ⟨hFirst, hRest⟩
  have hTails := congrArg (List.map List.tail) hRest
  apply map_text_injective
  rw [List.map_cons, List.map_cons, hFirst]
  simpa [Function.comp_def] using hTails

namespace Assembly

theorem text_of_operands
    (mnemonic : Mnemonic)
    (operand : Operand)
    (operands : List Operand) :
    (Assembly.mk mnemonic (operand :: operands)).text =
      mnemonic.text ++ ' ' ::
        List.intercalate [',', ' ']
          ((operand :: operands).map Operand.text) :=
  rfl

/- The first blank of a text stands behind the mnemonic. -/
theorem splitOn_text (line : Assembly) :
    ∃ words,
      line.text.splitOn ' ' = line.mnemonic.text :: words ∧
        (words = [] ↔ line.operands = []) := by
  rcases line with ⟨mnemonic, operands⟩
  cases operands with
  | nil =>
      refine ⟨[], ?_, iff_of_true rfl rfl⟩
      exact
        List.splitOn_eq_singleton mnemonic.blank_not_mem_text
  | cons operand operands =>
      rw [text_of_operands,
        List.splitOn_append_cons_self_of_not_mem
          mnemonic.blank_not_mem_text]
      refine ⟨_, rfl, ?_⟩
      exact
        iff_of_false (List.splitOn_ne_nil _ _)
          (List.cons_ne_nil _ _)

/- The text of a line tells the line. -/
theorem text_injective
    {line other : Assembly}
    (h : line.text = other.text) :
    line = other := by
  rcases line.splitOn_text with ⟨words, hWords, hNone⟩
  rcases other.splitOn_text with ⟨others, hOthers, hOtherNone⟩
  rw [h, hOthers] at hWords
  rcases List.cons.inj hWords with ⟨hText, rfl⟩
  have hMnemonic := congrArg Mnemonic.ofText? hText
  rw [Mnemonic.ofText?_text, Mnemonic.ofText?_text]
    at hMnemonic
  rcases line with ⟨mnemonic, operands⟩
  rcases other with ⟨mnemonic, others⟩
  obtain rfl := Option.some.inj hMnemonic
  cases operands with
  | nil =>
      obtain rfl : others = [] :=
        hOtherNone.mp (hNone.mpr rfl)
      rfl
  | cons operand operands =>
      cases others with
      | nil =>
          cases hNone.mp (hOtherNone.mpr rfl)
      | cons first others =>
          rw [text_of_operands, text_of_operands,
            List.append_cancel_left_eq] at h
          have hJoined := (List.cons.inj h).2
          rw [Operand.intercalate_text_injective hJoined]

end Assembly

end Chip8
