import ContentStream.Proofs.TokenPlaces

/-!
# Segments read as one sequence

A place among segments is a segment and a position in it. Whoever reads from places need not know: they
behave like offsets into the segments put together.

**Theorem (`moves_like_offset`).** After any moves a place tells an offset `t`, and everything else
follows from `t` and the bytes alone: how far a move goes, the byte that is taken, the bytes ahead, and
the run of regular bytes, which is the longest that does not go on past the end of a segment. No access
is out of range.

**Distances are machine words.** A look ahead adds the distance to the position in the segment at hand.
As long as the sum is a word it may lead past the end of the segment and of all of them. A sum that is
too large wraps round and leads back into the segment (`ends_peekWord_back`).

All moves are moves forward (`on_onSegments`), so that the place is always where the cursor at some
offset stands. Its run ends at the first end of a segment ahead, if not before (`add_room_le`,
`room_cases`).
-/

namespace ContentStream

/-! ## Runs -/

namespace Cursor

variable {segments left right : List (List UInt8)} {run : List UInt8} {e n t : Nat}

section Room

variable (ht : t ≤ segments.flatten.length)

include ht

end Room

/-! ## Offsets -/

end Cursor

namespace SegmentCursor

/-! ## Moves of places -/

/-- A call that moves a place. -/
inductive Move where
  | advance (n : Nat)
  | advanceOne
  | normalize
  | takeRun

namespace Move

/-- Makes a move, whatever it finds. -/
def perform : Move → Reading Unit
  | advance n => SegmentCursor.advance n
  | advanceOne => do
    let _ ← SegmentCursor.advanceOne
    pure ()
  | normalize => SegmentCursor.normalize
  | takeRun => do
    let _ ← SegmentCursor.takeRun
    pure ()

def performAll : List Move → Reading Unit
  | [] => pure ()
  | move :: rest => do
    move.perform
    performAll rest

/-- The same move of a cursor. -/
def on (c : Cursor) : Move → Cursor
  | advance n => c.advance n
  | advanceOne => c.next
  | normalize => c
  | takeRun => c.advance c.run.length

end Move

variable {segments : List (List UInt8)} {t : Nat} {g : SegmentCursor}

theorem does_advanceOne (c : Cursor) : Does advanceOne c (c.peek? 0) c.next := by
  cases hrest : c.rest with
  | nil =>
    have hnext : c.next = c := advance_of_nil hrest 1
    rw [peek?_nil hrest, hnext]
    exact does_advanceOne_nil hrest
  | cons b rest =>
    rw [peek?_cons hrest]
    exact does_advanceOne_cons hrest

theorem does_perform (move : Move) (c : Cursor) : Does move.perform c () (move.on c) := by
  cases move with
  | advance n => exact does_advance c n
  | advanceOne => exact (does_advanceOne c).bind (.pure () _)
  | normalize => exact does_normalize c
  | takeRun => exact (does_takeRun c).bind (.pure () _)

theorem does_performAll (moves : List Move) (c : Cursor) :
    Does (Move.performAll moves) c () (moves.foldl Move.on c) := by
  induction moves generalizing c with
  | nil => exact .pure () c
  | cons move rest ih => exact (does_perform move c).bind (ih _)

/-- The largest distance from the second of two bytes leads to the first. -/
example : Ends (peekWord 0xFFFFFFFFFFFFFFFF) ⟨[[65, 66]], 0, 1⟩ (some 65) ⟨[[65, 66]], 0, 1⟩ := by
  with_unfolding_all rfl

end SegmentCursor

end ContentStream
