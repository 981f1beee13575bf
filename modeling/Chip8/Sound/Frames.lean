/-
  This file defines how a buffer is filled frame by frame: the
  channels of a frame all carry the same converted sample.

  Key definitions include:
    * `Channels`
    * `Frames.fill`
-/

------------------------------------------------------------
-- Frames
------------------------------------------------------------

namespace Chip8

/- A count of channels: at least one. -/
abbrev Channels :=
  { count : Nat // 0 < count }

namespace Frames

variable {σ α β : Type}

/-
  Fill a buffer of some length.  Each frame draws one sample
  from a source, also a last frame that is too short for all
  channels.
-/
def fill
    (draw : σ → α × σ)
    (convert : α → β)
    (channels : Channels)
    (source : σ)
    (length : Nat) : List β × σ :=
  if length = 0 then
    ([], source)
  else
    let drawn := draw source
    let width := min channels.val length
    let rest :=
      fill draw convert channels drawn.2 (length - width)
    (List.replicate width (convert drawn.1) ++ rest.1, rest.2)
termination_by length
decreasing_by
  have := channels.property
  omega

@[simp] theorem length_fill
    (draw : σ → α × σ)
    (convert : α → β)
    (channels : Channels)
    (source : σ)
    (length : Nat) :
    (fill draw convert channels source length).1.length =
      length := by
  induction length using Nat.strongRecOn generalizing source with
  | ind length ih =>
      rw [fill]
      split
      · simp_all
      · have := channels.property
        simp only [List.length_append, List.length_replicate]
        rw [ih _ (by omega)]
        omega

end Frames

end Chip8
