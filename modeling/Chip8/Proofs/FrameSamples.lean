import Chip8.Sound.Frames

/-
  This file shows which sample each frame of a filled buffer
  carries: the frames carry the samples of the source in their
  order, one each, and the source is left where the last frame
  has brought it.

  Key definitions include:
    * `Frames.advance`, `Frames.sampleAt`
    * `Frames.split`, `Frames.count`
    * `Frames.Carry`

  The main statements are:
    * `Frames.length_split`
    * `Frames.carry_fill`
-/

------------------------------------------------------------
-- Samples of a Source
------------------------------------------------------------

namespace Chip8

namespace Frames

variable {σ α β : Type}

/- The source after several samples have been drawn. -/
def advance
    (draw : σ → α × σ)
    (source : σ) : Nat → σ
| 0 => source
| count + 1 => advance draw (draw source).2 count

/- The sample of a number, from zero, that a source gives. -/
def sampleAt
    (draw : σ → α × σ)
    (source : σ)
    (k : Nat) : α :=
  (draw (advance draw source k)).1

theorem advance_add
    (draw : σ → α × σ)
    (source : σ)
    (first second : Nat) :
    advance draw source (first + second) =
      advance draw (advance draw source first) second := by
  induction first generalizing source with
  | zero => rw [Nat.zero_add, advance]
  | succ first ih =>
      rw [Nat.succ_add, advance, ih, advance]

------------------------------------------------------------
-- Frames of a Buffer
------------------------------------------------------------

/-
  The frames of a buffer: runs of one value for each channel,
  the last one maybe shorter.
-/
def split (channels : Channels) : List β → List (List β)
| [] => []
| b :: buffer =>
    (b :: buffer).take channels.val ::
      split channels ((b :: buffer).drop channels.val)
termination_by buffer => buffer.length
decreasing_by
  have := channels.property
  simp only [List.length_drop, List.length_cons]
  omega

/- The frames that a buffer of some length has. -/
def count
    (channels : Channels)
    (length : Nat) : Nat :=
  (length + (channels.val - 1)) / channels.val

theorem split_of_ne_nil
    {channels : Channels}
    {buffer : List β}
    (hSome : buffer ≠ []) :
    split channels buffer =
      buffer.take channels.val ::
        split channels (buffer.drop channels.val) := by
  cases buffer with
  | nil => exact absurd rfl hSome
  | cons b buffer => rw [split]

/- Each frame takes so many values, and the last one the rest. -/
theorem count_of_pos
    {channels : Channels}
    {length : Nat}
    (hPos : 0 < length) :
    count channels length =
      count channels (length - channels.val) + 1 := by
  have hChannels := channels.property
  unfold count
  by_cases hFull : channels.val ≤ length
  · have hStep :
        length + (channels.val - 1) =
          length - channels.val + (channels.val - 1) +
            channels.val := by
      omega
    rw [hStep, Nat.add_div_right _ hChannels]
  · have hShort : length - channels.val = 0 := by omega
    have hNone : 0 + (channels.val - 1) < channels.val := by
      omega
    rw [hShort, Nat.div_eq_of_lt hNone]
    exact Nat.div_eq_of_lt_le (by omega) (by omega)

theorem length_split
    (channels : Channels)
    (buffer : List β) :
    (split channels buffer).length =
      count channels buffer.length := by
  induction hLength : buffer.length using Nat.strongRecOn
    generalizing buffer with
  | ind length ih =>
      have hChannels := channels.property
      by_cases hPos : 0 < length
      · have hSome : buffer ≠ [] := by
          rw [← List.length_pos_iff, hLength]
          exact hPos
        have hDrop :
            (buffer.drop channels.val).length =
              length - channels.val := by
          rw [List.length_drop, hLength]
        rw [split_of_ne_nil hSome, List.length_cons,
          ih _ (by omega) _ hDrop, count_of_pos hPos]
      · have hZero : length = 0 := by omega
        have hNil : buffer = [] := by
          rw [← List.length_eq_zero_iff, hLength, hZero]
        have hNone : 0 + (channels.val - 1) < channels.val := by
          omega
        rw [hNil, hZero, split, count,
          Nat.div_eq_of_lt hNone]
        rfl

------------------------------------------------------------
-- Samples that Frames Carry
------------------------------------------------------------

/-
  Whether frames carry the converted samples of a source in
  their order, one each, and leave it as another source.
-/
structure Carry
    (draw : σ → α × σ)
    (convert : α → β)
    (source : σ)
    (frames : List (List β))
    (left : σ) : Prop where
  samples :
    ∀ k frame, frames[k]? = some frame →
      ∀ b ∈ frame, b = convert (sampleAt draw source k)
  left : left = advance draw source frames.length

namespace Carry

variable {draw : σ → α × σ} {convert : α → β}

theorem none (source : σ) :
    Carry draw convert source [] source where
  samples := by simp
  left := rfl

theorem single
    {source : σ}
    {frame : List β}
    (hFrame : ∀ b ∈ frame, b = convert (draw source).1) :
    Carry draw convert source [frame] (draw source).2 where
  samples := by
    intro k other hOther
    cases k with
    | zero =>
        cases hOther
        exact hFrame
    | succ k => cases hOther
  left := rfl

/- Frames go on with the sample that comes after earlier ones. -/
theorem append
    {source middle left : σ}
    {first second : List (List β)}
    (hFirst : Carry draw convert source first middle)
    (hSecond : Carry draw convert middle second left) :
    Carry draw convert source (first ++ second) left where
  samples := by
    intro k frame hFrame b hb
    by_cases hk : k < first.length
    · rw [List.getElem?_append_left hk] at hFrame
      exact hFirst.samples k frame hFrame b hb
    · have hLater : first.length ≤ k := by omega
      have hSum : first.length + (k - first.length) = k := by
        omega
      rw [List.getElem?_append_right hLater] at hFrame
      rw [hSecond.samples _ frame hFrame b hb, hFirst.left,
        sampleAt, ← advance_add, hSum, sampleAt]
  left := by
    rw [hSecond.left, hFirst.left, List.length_append,
      advance_add]

end Carry

------------------------------------------------------------
-- Filled Buffers
------------------------------------------------------------

section Fill

variable (draw : σ → α × σ) (convert : α → β)
variable (channels : Channels)

variable {length width : Nat}

/- The first frame is filled, then the rest of the buffer. -/
theorem fill_of_pos
    (source : σ)
    (hPos : 0 < length)
    (hWidth : min channels.val length = width) :
    fill draw convert channels source length =
      (List.replicate width (convert (draw source).1) ++
          (fill draw convert channels (draw source).2
            (length - width)).1,
        (fill draw convert channels (draw source).2
          (length - width)).2) := by
  rw [fill, if_neg (Nat.ne_of_gt hPos), hWidth]

theorem split_fill
    (source : σ)
    (hPos : 0 < length)
    (hWidth : min channels.val length = width) :
    split channels
        (fill draw convert channels source length).1 =
      List.replicate width (convert (draw source).1) ::
        split channels
          (fill draw convert channels (draw source).2
            (length - width)).1 := by
  have hRest :=
    length_fill draw convert channels (draw source).2
      (length - width)
  have hSome :
      (fill draw convert channels source length).1 ≠ [] := by
    rw [← List.length_pos_iff]
    simpa using hPos
  rw [split_of_ne_nil hSome,
    fill_of_pos draw convert channels source hPos hWidth]
  by_cases hFull : channels.val ≤ length
  · have hFrame :
        (List.replicate width
          (convert (draw source).1)).length =
            channels.val := by
      rw [List.length_replicate]
      omega
    rw [List.take_left' hFrame, List.drop_left' hFrame]
  · have hFrame :
        (List.replicate width
          (convert (draw source).1)).length ≤
            channels.val := by
      rw [List.length_replicate]
      omega
    have hEmpty :
        (fill draw convert channels (draw source).2
          (length - width)).1 = [] := by
      apply List.eq_nil_of_length_eq_zero
      omega
    rw [hEmpty, List.append_nil,
      List.take_of_length_le hFrame,
      List.drop_of_length_le hFrame]

/- The frames of a filled buffer carry the samples in order. -/
theorem carry_fill
    (source : σ)
    (length : Nat) :
    Carry draw convert source
      (split channels
        (fill draw convert channels source length).1)
      (fill draw convert channels source length).2 := by
  induction length using Nat.strongRecOn
    generalizing source with
  | ind length ih =>
      have hChannels := channels.property
      by_cases hPos : 0 < length
      · have hRest :=
          ih (length - min channels.val length) (by omega)
            (draw source).2
        have hFrame :
            ∀ b ∈ List.replicate (min channels.val length)
                (convert (draw source).1),
              b = convert (draw source).1 := by
          intro b hb
          exact (List.mem_replicate.mp hb).2
        rw [split_fill draw convert channels source hPos rfl,
          fill_of_pos draw convert channels source hPos rfl,
          ← List.singleton_append]
        exact (Carry.single hFrame).append hRest
      · have hZero : length = 0 := by omega
        rw [hZero, fill, if_pos rfl, split]
        exact .none source

end Fill

end Frames

end Chip8
