import Chip8.Proofs.FrameSamples
import Mathlib.Algebra.Order.Floor.Div

/-
  This file shows that a filled buffer holds one sample of its
  source for each frame, and that it does not matter how a
  buffer is cut between two frames: its parts, filled one
  after the other, hold what the whole would hold, and leave
  the source where the whole would leave it.

  Key definitions include:
    * `Frames.counting`

  The main statements are:
    * `Frames.left_fill`
    * `Frames.getElem?_fill`
    * `Frames.fill_append`
    * `Frames.fill_draws_once_a_frame`
-/

------------------------------------------------------------
-- Counting Draws
------------------------------------------------------------

namespace Chip8

namespace Frames

variable {σ α β : Type}

/- A source that counts how often it is drawn from. -/
def counting
    (draw : σ → α × σ)
    (source : σ × Nat) : α × (σ × Nat) :=
  let drawn := draw source.1
  (drawn.1, (drawn.2, source.2 + 1))

theorem advance_counting
    (draw : σ → α × σ)
    (source : σ)
    (before count : Nat) :
    advance (counting draw) (source, before) count =
      (advance draw source count, before + count) := by
  induction count generalizing source before with
  | zero => rfl
  | succ count ih =>
      rw [advance, counting, ih, advance]
      congr 1
      omega

theorem sampleAt_counting
    (draw : σ → α × σ)
    (source : σ)
    (before k : Nat) :
    sampleAt (counting draw) (source, before) k =
      sampleAt draw source k := by
  rw [sampleAt, advance_counting, counting, sampleAt]

------------------------------------------------------------
-- Counting Frames
------------------------------------------------------------

theorem count_eq_ceilDiv
    (channels : Channels)
    (length : Nat) :
    count channels length = length ⌈/⌉ channels.val := by
  rw [count, Nat.ceilDiv_eq_add_pred_div,
    Nat.add_sub_assoc channels.property]

/- The frames of two parts are counted apart. -/
theorem count_add_of_dvd
    {channels : Channels}
    {first : Nat}
    (hFull : channels.val ∣ first)
    (rest : Nat) :
    count channels (first + rest) =
      count channels first + count channels rest := by
  have hChannels := channels.property
  have hNone : (channels.val - 1) / channels.val = 0 :=
    Nat.div_eq_of_lt (by omega)
  rcases hFull with ⟨frames, rfl⟩
  unfold count
  rw [Nat.add_assoc, Nat.mul_add_div hChannels,
    Nat.mul_add_div hChannels, hNone, Nat.add_zero]

------------------------------------------------------------
-- Values of a Buffer
------------------------------------------------------------

section Fill

variable (draw : σ → α × σ) (convert : α → β)
variable (channels : Channels)

/- A buffer draws one sample for each of its frames. -/
theorem left_fill
    (source : σ)
    (length : Nat) :
    (fill draw convert channels source length).2 =
      advance draw source (count channels length) := by
  rw [(carry_fill draw convert channels source length).left,
    length_split, length_fill]

/- Each value is the converted sample of its frame. -/
theorem getElem?_fill
    (source : σ)
    {length i : Nat}
    (hi : i < length) :
    (fill draw convert channels source length).1[i]? =
      some
        (convert
          (sampleAt draw source (i / channels.val))) := by
  induction length using Nat.strongRecOn
    generalizing source i with
  | ind length ih =>
      have hChannels := channels.property
      have hPos : 0 < length := by omega
      rw [fill_of_pos draw convert channels source hPos rfl]
      by_cases hFirst : i < min channels.val length
      · have hFrame : i / channels.val = 0 :=
          Nat.div_eq_of_lt (by omega)
        rw [List.getElem?_append_left
            (by rw [List.length_replicate]; exact hFirst),
          List.getElem?_replicate, if_pos hFirst, hFrame]
        rfl
      · -- The first frame is full, or `i` would be in it.
        have hFull :
            min channels.val length = channels.val := by
          omega
        have hFrame :
            i / channels.val =
              (i - channels.val) / channels.val + 1 :=
          Nat.div_eq_sub_div hChannels (by omega)
        rw [hFull,
          List.getElem?_append_right
            (by rw [List.length_replicate]; omega),
          List.length_replicate,
          ih _ (by omega) _ (by omega), hFrame]
        rfl

/- A full frame is filled, and then what is left. -/
theorem fill_full_frame
    (source : σ)
    (rest : Nat) :
    fill draw convert channels source
        (channels.val + rest) =
      (List.replicate channels.val
            (convert (draw source).1) ++
          (fill draw convert channels (draw source).2
            rest).1,
        (fill draw convert channels (draw source).2
          rest).2) := by
  have hChannels := channels.property
  have hPos : 0 < channels.val + rest := by omega
  have hWidth :
      min channels.val (channels.val + rest) =
        channels.val := by
    omega
  rw [fill_of_pos draw convert channels source hPos hWidth,
    Nat.add_sub_cancel_left]

/-
  A buffer may be cut after any count of full frames.  The
  later part goes on with the source that the earlier part
  leaves.
-/
theorem fill_append
    (source : σ)
    (frames rest : Nat) :
    let first :=
      fill draw convert channels source
        (channels.val * frames)
    let second := fill draw convert channels first.2 rest
    fill draw convert channels source
        (channels.val * frames + rest) =
      (first.1 ++ second.1, second.2) := by
  induction frames generalizing source with
  | zero =>
      have hNone :
          fill draw convert channels source 0 =
            ([], source) := by
        rw [fill, if_pos rfl]
      rw [Nat.mul_zero, Nat.zero_add, hNone]
      rfl
  | succ frames ih =>
      have hFirst :
          channels.val * (frames + 1) =
            channels.val + channels.val * frames :=
        (Nat.mul_succ _ _).trans (Nat.add_comm _ _)
      rw [hFirst, Nat.add_assoc, fill_full_frame,
        fill_full_frame, ih]
      simp only [List.append_assoc]

/- Counting the draws changes nothing in the buffer. -/
theorem fill_counting
    (source : σ)
    (before length : Nat) :
    let filled := fill draw convert channels source length
    fill (counting draw) convert channels (source, before)
        length =
      (filled.1,
        (filled.2, before + count channels length)) := by
  intro filled
  apply Prod.ext
  · apply List.ext_getElem?'
    intro i hi
    rw [length_fill, length_fill, Nat.max_self] at hi
    rw [getElem?_fill _ _ _ _ hi, getElem?_fill _ _ _ _ hi,
      sampleAt_counting]
  · rw [left_fill, advance_counting, ← left_fill]

end Fill

/-
  Filling a buffer of some length draws one sample for each
  frame, also for a last frame that is too short for all
  channels.  The value at `i` is the converted sample of the
  frame in which it lies.  If a buffer is cut between two
  frames, its parts hold together what the whole holds, draw
  as many samples, and leave the source alike.
-/
theorem fill_draws_once_a_frame
    (draw : σ → α × σ)
    (convert : α → β)
    (channels : Channels)
    (source : σ)
    (length : Nat) :
    let filled := fill draw convert channels source length
    (filled.1.length = length ∧
      ∀ i < length,
        filled.1[i]? =
          some
            (convert
              (sampleAt draw source (i / channels.val)))) ∧
      fill (counting draw) convert channels (source, 0)
          length =
        (filled.1, (filled.2, length ⌈/⌉ channels.val)) ∧
      ∀ first rest,
        channels.val ∣ first →
        first + rest = length →
        let earlier :=
          fill draw convert channels source first
        let later :=
          fill draw convert channels earlier.2 rest
        let counted :=
          fill (counting draw) convert channels (source, 0)
            first
        filled = (earlier.1 ++ later.1, later.2) ∧
          (fill (counting draw) convert channels counted.2
              rest).2.2 =
            length ⌈/⌉ channels.val := by
  simp only [← count_eq_ceilDiv]
  refine ⟨⟨?_, ?_⟩, ?_, ?_⟩
  · exact length_fill draw convert channels source length
  · intro i hi
    exact getElem?_fill draw convert channels source hi
  · rw [fill_counting, Nat.zero_add]
  · rintro first rest hFull rfl
    constructor
    · rcases hFull with ⟨frames, rfl⟩
      exact
        fill_append draw convert channels source frames rest
    · rw [fill_counting, fill_counting, Nat.zero_add,
        count_add_of_dvd hFull]

/- A source of the numbers from zero. -/
def numbers (k : Nat) : Nat × Nat :=
  (k, k + 1)

/-
  Seven values for two channels draw four numbers, the last
  one for half a frame, and may be cut after the second frame.
-/
theorem numbers_cut_between_frames :
    let stereo : Channels := ⟨2, by decide⟩
    let whole := fill numbers id stereo 0 7
    let earlier := fill numbers id stereo 0 4
    let later := fill numbers id stereo earlier.2 3
    let counted := fill (counting numbers) id stereo (0, 0) 4
    (6 < 7 ∧ stereo.val ∣ 4 ∧ 4 + 3 = 7) ∧
      whole.1[6]? = some 3 ∧
      whole = (earlier.1 ++ later.1, later.2) ∧
      (fill (counting numbers) id stereo counted.2 3).2.2 =
        4 := by
  intro stereo whole earlier later counted
  have hLast : 6 < 7 := by decide
  have hFull : stereo.val ∣ 4 := by decide
  have hSum : 4 + 3 = 7 := rfl
  have hSample : sampleAt numbers 0 (6 / stereo.val) = 3 := by
    decide
  have hCount : 7 ⌈/⌉ stereo.val = 4 := by decide
  rcases fill_draws_once_a_frame numbers id stereo 0 7 with
    ⟨⟨_, hValues⟩, _, hCut⟩
  have hValue := hValues 6 hLast
  rw [hSample] at hValue
  rcases hCut 4 3 hFull hSum with ⟨hParts, hDraws⟩
  rw [hCount] at hDraws
  exact ⟨⟨hLast, hFull, hSum⟩, hValue, hParts, hDraws⟩

end Frames

end Chip8
