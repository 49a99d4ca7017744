import ContentStream.Proofs.SegmentReader

/-!
# The token at an offset

Content comes in segments, and the reader stands at an offset of it. `TokenAt` says which token is
found there and at which offset the reader stands then. It says so of both readers, the cursor over
the bytes ahead and the one by places among the segments, none of whose accesses is out of range.

**Theorem (`tokenAt_of_read`).** Both follow from what the cursor reads where a token starts.

Names, numbers and words are runs of regular bytes, which do not go on into the next segment.
`Surroundings` is what lies around a text of one segment: `Surroundings.run` says what the run is
where the text starts, and `run_of_endsRun` that there is none in front of a blank, of a delimiter
and at the end.
-/

namespace ContentStream

namespace Cursor

/-- The cursor that stands at an offset. -/
def onSegments (segments : List (List UInt8)) (offset : Nat) : Cursor :=
  (ofSegments segments).advance offset

section OnSegments

variable {segments : List (List UInt8)} {n : Nat}

theorem onSegments_rest (segments : List (List UInt8)) (n : Nat) :
    (onSegments segments n).rest = segments.flatten.drop n :=
  advance_rest _ _

theorem onSegments_offset (h : n ≤ segments.flatten.length) :
    (onSegments segments n).offset = n := by
  have hoffset := advance_offset (ofSegments segments) n
  have hmin : min n (ofSegments segments).rest.length = n := Nat.min_eq_left h
  rw [hmin] at hoffset
  exact hoffset.trans (Nat.zero_add n)

theorem onSegments_ends (segments : List (List UInt8)) (n : Nat) :
    (onSegments segments n).ends = segmentEnds 0 segments :=
  advance_ends _ _

theorem onSegments_next (segments : List (List UInt8)) (n : Nat) :
    (onSegments segments n).next = onSegments segments (n + 1) :=
  (advance_add _ n 1).symm

end OnSegments

/-! ## Runs -/

theorem segmentEnds_append (start : Nat) (left right : List (List UInt8)) :
    segmentEnds start (left ++ right) =
      segmentEnds start left ++ segmentEnds (start + left.flatten.length) right := by
  induction left generalizing start with
  | nil => rfl
  | cons s left ih =>
    rw [List.cons_append, segmentEnds, ih, segmentEnds, List.flatten_cons, List.length_append,
      Nat.add_assoc]
    rfl

end Cursor

/-- What lies around a text that is part of one segment. -/
structure Surroundings where
  /-- The segments before that of the text. -/
  earlier : List (List UInt8)
  /-- The bytes in front of the text in its segment. -/
  front : List UInt8
  later : List (List UInt8)

namespace Surroundings

def segments (s : Surroundings) (text : List UInt8) : List (List UInt8) :=
  s.earlier ++ (s.front ++ text) :: s.later

/-- The offset at which the text starts. -/
def start (s : Surroundings) : Nat := s.earlier.flatten.length + s.front.length

/-- The surroundings of what follows the first byte of a text. -/
def past (s : Surroundings) (b : UInt8) : Surroundings := { s with front := s.front ++ [b] }

variable (s : Surroundings)

theorem segments_past (b : UInt8) (text : List UInt8) :
    (s.past b).segments text = s.segments (b :: text) := by
  simp [segments, past]

theorem start_past (b : UInt8) : (s.past b).start = s.start + 1 := by
  rw [start, start, past, List.length_append, List.length_singleton, Nat.add_assoc]

theorem flatten_segments (text : List UInt8) :
    (s.segments text).flatten = (s.earlier.flatten ++ s.front) ++ (text ++ s.later.flatten) := by
  simp [segments]

theorem drop_start (text : List UInt8) :
    (s.segments text).flatten.drop s.start = text ++ s.later.flatten := by
  rw [flatten_segments]
  exact List.drop_left' (List.length_append ..)

/-- There is room for the rest of the segment. -/
theorem room {text : List UInt8} (htext : text ≠ []) :
    (Cursor.onSegments (s.segments text) s.start).room = text.length := by
  have hpos := List.length_pos_iff.2 htext
  have hoffset : (Cursor.onSegments (s.segments text) s.start).offset = s.start := by
    apply Cursor.onSegments_offset
    rw [flatten_segments, List.length_append, List.length_append]
    exact Nat.le_add_right _ _
  -- The earlier segments end no farther than the text starts, and its own segment behind it.
  have hearlier : ∀ e ∈ Cursor.segmentEnds 0 s.earlier, ¬ s.start < e := by
    intro e he
    obtain ⟨left, right, hsplit, rfl⟩ := Cursor.exists_of_mem_segmentEnds he
    rw [start, hsplit, List.flatten_append, List.length_append]
    omega
  have hfind : (Cursor.segmentEnds 0 (s.segments text)).find? (s.start < ·) =
      some (s.start + text.length) := by
    rw [segments, Cursor.segmentEnds_append, List.find?_append,
      List.find?_eq_none.2 (by simpa using hearlier), Option.none_or, Cursor.segmentEnds,
      Nat.zero_add, List.length_append, ← Nat.add_assoc]
    apply List.find?_cons_of_pos
    simpa [start] using hpos
  rw [Cursor.room, Cursor.onSegments_ends, hoffset, hfind]
  exact Nat.add_sub_cancel_left _ _

/-- **Runs** are cut out of the segment at hand. -/
theorem run {word after : List UInt8} (htext : word ++ after ≠ [])
    (hword : ∀ b ∈ word, Byte.isRegular b = true) (hends : Byte.EndsRun after) :
    (Cursor.onSegments (s.segments (word ++ after)) s.start).run = word := by
  rw [Cursor.run, Cursor.regularBytes_eq, s.room htext, Cursor.onSegments_rest, s.drop_start,
    List.take_left, hends.takeWhile]
  exact List.takeWhile_eq_self_iff.2 hword

end Surroundings

namespace Cursor

theorem run_of_endsRun {c : Cursor} (h : Byte.EndsRun c.rest) : c.run = [] := by
  rw [run, regularBytes_eq]
  cases hrest : c.rest with
  | nil => simp
  | cons b rest =>
    have hb : Byte.isRegular b = false := h b (by simp [hrest])
    cases c.room <;> simp [hb]

/-- A token that starts where the cursor stands. -/
theorem token?_of_rest {c : Cursor} {b : UInt8} {rest : List UInt8} (h : c.rest = b :: rest)
    (hblank : Byte.isBlank b = false) (hcomment : b ≠ 37) :
    c.token? = (some (c.offset, (Token.read c b).1), c.advance ((Token.read c b).2 + 1)) := by
  have hskip : c.skipBlanks = c := by simp [skipBlanks, h, blankLength, hblank, hcomment]
  simp only [token?, hskip, tokenHere?, h]

end Cursor

/-! ## Tokens -/

namespace SegmentCursor

/-- Reads the token at an offset, and tells where the reader stands then. -/
def tokenFrom (start : Nat) : Reading (Option (Nat × Except TokenError Token) × Nat) := do
  advance start
  let found ← token
  let stop ← tell
  pure (found, stop)

end SegmentCursor

namespace Content

/-- The reader that stands at `start` finds this token there, and stands at `stop` then. -/
structure TokenAt (segments : List (List UInt8)) (start : Nat) (found : Except TokenError Token)
    (stop : Nat) : Prop where
  /-- The token is found in the bytes ahead. -/
  ahead : ∃ c, (Cursor.onSegments segments start).token? = (some (start, found), c) ∧
    c.offset = stop
  /-- It is found by places among the segments. -/
  places : ∃ g, SegmentCursor.Ends (SegmentCursor.tokenFrom start)
    (SegmentCursor.ofSegments segments) (some (start, found), stop) g

variable {segments : List (List UInt8)} {start n : Nat} {found : Except TokenError Token}

theorem tokenAt_of_token? {c : Cursor}
    (h : (Cursor.onSegments segments start).token? = (some (start, found), c)) :
    TokenAt segments start found c.offset where
  ahead := ⟨c, h, rfl⟩
  places := by
    have htoken := SegmentCursor.does_token (Cursor.onSegments segments start)
    rw [h] at htoken
    have hdoes : SegmentCursor.Does (SegmentCursor.tokenFrom start) (Cursor.ofSegments segments)
        (some (start, found), c.offset) c :=
      (SegmentCursor.does_advance _ start).bind
        (htoken.bind ((SegmentCursor.does_tell c).bind (.pure _ c)))
    obtain ⟨g, hends, -⟩ := hdoes _ (SegmentCursor.stands_start segments)
    exact ⟨g, hends⟩

/-- **Tokens** by their first byte: what the cursor reads there is what is found. -/
theorem tokenAt_of_read {b : UInt8} {rest : List UInt8}
    (hrest : segments.flatten.drop start = b :: rest) (hblank : Byte.isBlank b = false)
    (hcomment : b ≠ 37) (hread : Token.read (Cursor.onSegments segments start) b = (found, n))
    (hn : n ≤ rest.length) : TokenAt segments start found (start + (n + 1)) := by
  have hlength : segments.flatten.length = start + (rest.length + 1) := by
    have := congrArg List.length hrest
    rw [List.length_drop, List.length_cons] at this
    omega
  have hoffset (k : Nat) (hk : start + k ≤ segments.flatten.length) :
      ((Cursor.onSegments segments start).advance k).offset = start + k := by
    rw [Cursor.onSegments, ← Cursor.advance_add]
    exact Cursor.onSegments_offset hk
  have htoken := Cursor.token?_of_rest ((Cursor.onSegments_rest segments start).trans hrest)
    hblank hcomment
  rw [hread, Cursor.onSegments_offset (by omega)] at htoken
  have hfound := tokenAt_of_token? htoken
  rwa [hoffset (n + 1) (by omega)] at hfound

/-- One token is found at an offset. -/
theorem TokenAt.unique {found' : Except TokenError Token} {stop stop' : Nat}
    (h : TokenAt segments start found stop) (h' : TokenAt segments start found' stop') :
    found = found' ∧ stop = stop' := by
  obtain ⟨c, hc, rfl⟩ := h.ahead
  obtain ⟨c', hc', rfl⟩ := h'.ahead
  cases hc.symm.trans hc'
  exact ⟨rfl, rfl⟩

end Content

end ContentStream
