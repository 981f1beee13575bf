import Chip8.Keypad
import Mathlib.Data.List.Induction

/-
  This file shows that the keypad is what its key events have
  told last.  A key is held if the last event for it since the
  last reset was that it went down; events for keys that the
  pad does not have give a notice each and nothing else.

  Key definitions include:
    * `KeypadCall`, `KeypadCall.lastDown`
    * `Keypad.after`, `Keypad.run`

  The main statements are:
    * `Keypad.isHeld_run`
    * `Keypad.firstHeld_eq_some_iff`
    * `Keypad.set_comm`
    * `Keypad.held_by_last_event`
-/

------------------------------------------------------------
-- Calls of a Keypad
------------------------------------------------------------

namespace Chip8

/- What happens to a keypad. -/
inductive KeypadCall where
  /- An event: the key of an index went down or up. -/
  | set (index : Nat) (down : Bool)
  /- All keys are released. -/
  | reset

namespace KeypadCall

/- A call that leaves the other keys as they are. -/
def isEvent : KeypadCall → Bool
| .set .. => true
| .reset => false

/- What a call tells about a key, if it is an event for it. -/
def tells (key : Nat) : KeypadCall → Option Bool
| .set index down => if index = key then some down else none
| .reset => none

/- The index of an event for a key that no pad has. -/
def stray? : KeypadCall → Option Nat
| .set index _ => if 16 ≤ index then some index else none
| .reset => none

/-
  Whether the last event for a key since the last reset told
  that the key went down.
-/
def lastDown
    (key : Nat)
    (calls : List KeypadCall) : Bool :=
  let sinceReset := calls.reverse.takeWhile isEvent
  (sinceReset.findSome? (tells key)).getD false

/- The newest event decides about its own key only. -/
theorem lastDown_set
    (key : Nat)
    (calls : List KeypadCall)
    (index : Nat)
    (down : Bool) :
    lastDown key (calls ++ [.set index down]) =
      if index = key then down else lastDown key calls := by
  by_cases hKey : index = key
  · simp [lastDown, List.takeWhile_cons, isEvent, tells,
      hKey]
  · simp [lastDown, List.takeWhile_cons, isEvent, tells,
      hKey]

theorem lastDown_reset
    (key : Nat)
    (calls : List KeypadCall) :
    lastDown key (calls ++ [.reset]) = false := by
  simp [lastDown, isEvent]

end KeypadCall

namespace Keypad

open KeypadCall

/- The pad after a call, and the notices of the call. -/
def after
    (pad : Keypad) : KeypadCall → Keypad × List Notice
| .set index down => pad.set index down
| .reset => (pad.reset, [])

/- The pad after a list of calls, and their notices in order. -/
def run
    (pad : Keypad) : List KeypadCall → Keypad × List Notice
| [] => (pad, [])
| call :: calls =>
    let first := pad.after call
    let rest := first.1.run calls
    (rest.1, first.2 ++ rest.2)

variable {pad : Keypad}

theorem run_append
    (pad : Keypad)
    (earlier later : List KeypadCall) :
    (pad.run (earlier ++ later)).1 =
      ((pad.run earlier).1.run later).1 := by
  induction earlier generalizing pad with
  | nil => rfl
  | cons call earlier ih => exact ih (pad.after call).1

------------------------------------------------------------
-- Single Events
------------------------------------------------------------

/- An event for a key that no pad has is only noticed. -/
theorem set_of_stray
    {index : Nat}
    (hStray : 16 ≤ index)
    (down : Bool) :
    pad.set index down = (pad, [.noSuchKey index]) := by
  rw [set, dif_neg (Nat.not_lt.mpr hStray)]

theorem notices_set
    {index : Nat}
    (hIndex : index < 16)
    (down : Bool) :
    (pad.set index down).2 = [] := by
  rw [set, dif_pos hIndex]

/- Pads with the same held keys are the same. -/
theorem eq_of_isHeld
    {other : Keypad}
    (h : ∀ key, pad.isHeld key = other.isHeld key) :
    pad = other := by
  have hKeys : pad.keys = other.keys := by
    apply Cells.ext_read
    intro key
    rw [← isHeld_toByte, ← isHeld_toByte, h]
  cases pad
  cases other
  exact congrArg Keypad.mk hKeys

/- Events for different indices may be swapped. -/
theorem set_comm
    {index other : Nat}
    (hDiffer : index ≠ other)
    (down otherDown : Bool) :
    ((pad.set index down).1.set other otherDown).1 =
      ((pad.set other otherDown).1.set index down).1 := by
  apply eq_of_isHeld
  intro key
  simp only [isHeld_set]
  by_cases hIndex : index = key.toNat % 16
  · have hOther : other ≠ key.toNat % 16 := by omega
    rw [if_neg hOther, if_pos hIndex, if_pos hIndex]
  · rw [if_neg hIndex, if_neg hIndex]

------------------------------------------------------------
-- The Lowest Held Key
------------------------------------------------------------

theorem firstHeld_eq_none_iff :
    pad.firstHeld = none ↔
      ∀ key, pad.isHeld key = false := by
  constructor
  · exact isHeld_of_firstHeld
  · intro hFree
    apply List.find?_eq_none.mpr
    intro key _
    rw [← isHeld_toByte, hFree]
    exact Bool.false_ne_true

theorem firstHeld_eq_some_iff {key : Nibble} :
    pad.firstHeld = some key ↔
      pad.isHeld key.toByte = true ∧
        ∀ lower : Nibble, lower < key →
          pad.isHeld lower.toByte = false := by
  simp only [firstHeld, List.find?_eq_some_iff_getElem,
    isHeld_toByte, List.getElem_finRange]
  constructor
  · rintro ⟨hHeld, i, hi, rfl, hLower⟩
    refine ⟨hHeld, ?_⟩
    intro lower hLess
    have hFree := hLower lower.val hLess
    exact (Bool.not_eq_true' _).mp hFree
  · rintro ⟨hHeld, hLower⟩
    have hKey : key.val < (List.finRange 16).length := by
      rw [List.length_finRange]
      exact key.isLt
    refine ⟨hHeld, key.val, hKey, rfl, ?_⟩
    intro lower hLess
    exact (Bool.not_eq_true' _).mpr (hLower _ hLess)

------------------------------------------------------------
-- Runs
------------------------------------------------------------

theorem isHeld_run
    (calls : List KeypadCall)
    (key : UInt8) :
    (released.run calls).1.isHeld key =
      lastDown (key.toNat % 16) calls := by
  -- The newest call decides, so it is taken off first.
  induction calls using List.reverseRecOn with
  | nil => exact isHeld_released key
  | append_singleton calls call ih =>
      rw [run_append]
      cases call with
      | set index down =>
          rw [lastDown_set, ← ih]
          exact isHeld_set _ index down key
      | reset =>
          rw [lastDown_reset]
          exact isHeld_released key

/- A run gives one notice for each stray event, in order. -/
theorem notices_run
    (pad : Keypad)
    (calls : List KeypadCall) :
    (pad.run calls).2 =
      (calls.filterMap stray?).map .noSuchKey := by
  induction calls generalizing pad with
  | nil => rfl
  | cons call calls ih =>
      cases call with
      | set index down =>
          by_cases hStray : 16 ≤ index
          · simp [run, after, set_of_stray hStray, ih, stray?,
              hStray]
          · have hIndex := Nat.lt_of_not_le hStray
            simp [run, after, notices_set hIndex, ih, stray?,
              hStray]
      | reset => exact ih pad.reset

/-
  However a pad came about from the released one, a key is
  held if the last event for it since the last reset was that
  it went down, and the lowest such key is the first one.  An
  event for a key that the pad does not have changes nothing
  and gives one warning, any other event gives none.  Events
  that follow each other for different indices may be swapped.
-/
theorem held_by_last_event (calls : List KeypadCall) :
    let pad := (released.run calls).1
    ((∀ key : UInt8,
          pad.isHeld key = lastDown (key.toNat % 16) calls) ∧
        (∀ key : Nibble,
          pad.firstHeld = some key ↔
            lastDown key.val calls = true ∧
              ∀ lower : Nibble, lower < key →
                lastDown lower.val calls = false) ∧
        (pad.firstHeld = none ↔
          ∀ key : UInt8, pad.isHeld key = false)) ∧
      ((released.run calls).2 =
          (calls.filterMap stray?).map .noSuchKey ∧
        ∀ index down,
          (Notice.noSuchKey index).level = .warn ∧
            (16 ≤ index →
              pad.set index down =
                (pad, [.noSuchKey index])) ∧
            (index < 16 → (pad.set index down).2 = [])) ∧
      ∀ index other down otherDown later,
        index ≠ other →
          (released.run
              (calls ++ .set index down ::
                .set other otherDown :: later)).1 =
            (released.run
              (calls ++ .set other otherDown ::
                .set index down :: later)).1 := by
  intro pad
  have hHeld := isHeld_run calls
  have hNibble (key : Nibble) :
      pad.isHeld key.toByte = lastDown key.val calls := by
    have hLow : key.toByte.toNat % 16 = key.val :=
      congrArg Fin.val (Nibble.ofByte_toByte key)
    rw [hHeld, hLow]
  refine
    ⟨⟨hHeld, ?_, firstHeld_eq_none_iff⟩,
      ⟨notices_run released calls, ?_⟩, ?_⟩
  · intro key
    simp only [firstHeld_eq_some_iff, hNibble]
  · intro index down
    refine ⟨rfl, ?_, ?_⟩
    · intro hStray
      exact set_of_stray hStray down
    · intro hIndex
      exact notices_set hIndex down
  · intro index other down otherDown later hDiffer
    have hSwap :
        ((pad.set index down).1.set other otherDown).1 =
          ((pad.set other otherDown).1.set index down).1 :=
      set_comm hDiffer down otherDown
    rw [run_append, run_append]
    exact congrArg (fun swapped => (swapped.run later).1) hSwap

/-
  Events for several keys, one of them before a reset, and an
  event for a seventeenth key.
-/
def typed : List KeypadCall :=
  [.set 3 true, .reset, .set 12 true, .set 16 true,
    .set 5 true, .set 7 true, .set 7 false]

/-
  The event for the seventeenth key is not taken for one of
  the first key.  Of the two held keys the lower one is found.
-/
theorem typed_held_by_last_event :
    let pad := (released.run typed).1
    let fifth := Nibble.ofNat 5
    (pad.isHeld 0 = false ∧ pad.isHeld 0x1C = true ∧
        pad.isHeld 3 = false) ∧
      ((lastDown 5 typed = true ∧
          ∀ lower : Nibble, lower < fifth →
            lastDown lower.val typed = false) ∧
        pad.firstHeld = some fifth) ∧
      ((released.run typed).2 = [.noSuchKey 16] ∧
        pad.set 16 true = (pad, [.noSuchKey 16]) ∧
        (pad.set 0 true).2 = []) ∧
      (released.run (typed ++ [.set 16 true, .set 0 true])).1 =
        (released.run
          (typed ++ [.set 0 true, .set 16 true])).1 := by
  intro pad fifth
  have hLowest :
      lastDown 5 typed = true ∧
        ∀ lower : Nibble, lower < fifth →
          lastDown lower.val typed = false := by
    decide
  have hDiffer : 16 ≠ 0 := by decide
  rcases held_by_last_event typed with
    ⟨⟨hHeld, hFirst, _⟩, ⟨hNotices, hEvent⟩, hSwap⟩
  exact
    ⟨⟨hHeld 0, hHeld 0x1C, hHeld 3⟩,
      ⟨hLowest, (hFirst fifth).mpr hLowest⟩,
      ⟨hNotices, (hEvent 16 true).2.1 (Nat.le_refl 16),
        (hEvent 0 true).2.2 (by decide)⟩,
      hSwap 16 0 true true [] hDiffer⟩

end Keypad

end Chip8
