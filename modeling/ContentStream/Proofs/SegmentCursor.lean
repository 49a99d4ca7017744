import ContentStream.Proofs.Segments

/-!
# Places among segments

The cursor of the reader holds the bytes ahead and knows nothing of where they lie. They lie in
segments, and a place among them is the index of a segment and a position in it; at the end it is one
index behind the last. Here the bytes are read by such places: every look at a segment or at a byte is
an access by index, which fails out of range.

A loop over segments ends behind the last of them. A loop over bytes is given a round for each byte and
one more (`loop`), and there is no answer if it outlasts them. That a loop has an answer thus says that
it ends.

**Theorem (`does_advance`).** From the place where a cursor stands, a move comes to its end at the
place where the moved cursor stands. The other accesses are in range as well and tell what the cursor
tells.

**Theorem (`take_overruns`).** The exception is to take no bytes at the end. Bytes that lie in one
segment are cut out of the segment at hand, and there is none.
-/

namespace ContentStream

/-- A place among segments. -/
structure SegmentCursor where
  segments : List (List UInt8)
  /-- The segment at hand. -/
  index : Nat
  /-- How many of its bytes lie behind. -/
  pos : Nat

/-- An access by an index behind the last. -/
structure OutOfRange where
  index : Nat
  length : Nat
deriving DecidableEq

/-- Reading moves the place. It stops at an access out of range, and a loop that goes on for too long
has no answer. -/
abbrev Reading := StateT SegmentCursor (ExceptT OutOfRange Option)

namespace SegmentCursor

/-! ## Accesses -/

section Accesses

variable {α : Type}

def access (items : List α) (i : Nat) : Reading α :=
  match items[i]? with
  | some item => pure item
  | none => throw { index := i, length := items.length }

/-- The bytes from one position to another. -/
def slice (bytes : List UInt8) (first last : Nat) : Reading (List UInt8) :=
  if first ≤ last ∧ last ≤ bytes.length then pure ((bytes.take last).drop first)
  else throw { index := last, length := bytes.length }

end Accesses

/-- The segments that hold bytes. -/
def kept (segments : List (List UInt8)) : List (List UInt8) := segments.filter (!·.isEmpty)

def ofSegments (segments : List (List UInt8)) : SegmentCursor :=
  { segments := kept segments, index := 0, pos := 0 }

def total (g : SegmentCursor) : Nat := g.segments.flatten.length

/-- The offsets at which segments start. -/
def startsFrom (start : Nat) : List (List UInt8) → List Nat
  | [] => []
  | s :: rest => start :: startsFrom (start + s.length) rest

def tell : Reading Nat := do
  let g ← get
  if g.segments.length ≤ g.index then pure g.total
  else
    let start ← access (startsFrom 0 g.segments) g.index
    pure (start + g.pos)

def atEnd : Reading Bool := do
  let g ← get
  let offset ← tell
  pure (decide (g.total ≤ offset))

def normalizeFrom (g : SegmentCursor) : Reading Unit :=
  if g.index < g.segments.length then do
    let s ← access g.segments g.index
    if s.length ≤ g.pos then normalizeFrom { g with index := g.index + 1, pos := 0 } else set g
  else set g
termination_by g.segments.length - g.index

/-- Moves from the end of a segment to the start of the next. -/
def normalize : Reading Unit := do
  let g ← get
  normalizeFrom g

/-- The bytes ahead in the segment at hand. -/
def here : Reading (List UInt8) := do
  let g ← get
  if g.segments.length ≤ g.index then pure []
  else
    let s ← access g.segments g.index
    slice s g.pos s.length

def peek : Reading (Option UInt8) := do
  let bytes ← here
  pure bytes.head?

/-- The byte at a position counted from the start of a segment, in that segment or behind it. -/
def peekFrom (segments : List (List UInt8)) (index pos : Nat) : Reading (Option UInt8) :=
  if index < segments.length then do
    let s ← access segments index
    if pos < s.length then
      let b ← access s pos
      pure (some b)
    else peekFrom segments (index + 1) (pos - s.length)
  else pure none
termination_by segments.length - index

/-- The byte `k` places ahead, for distances that are far from the limit of a machine word, such as
places in a text that is looked for. -/
def peekAt (k : Nat) : Reading (Option UInt8) := do
  let g ← get
  peekFrom g.segments g.index (g.pos + k)

/-- The byte at any distance that a machine word holds. The sum of the position and the distance is a
word too, and wraps round. -/
def peekWord (k : UInt64) : Reading (Option UInt8) := do
  let g ← get
  peekFrom g.segments g.index (UInt64.ofNat g.pos + k).toNat

def advanceFrom (g : SegmentCursor) (n : Nat) : Reading Unit :=
  if 0 < n ∧ g.index < g.segments.length then do
    let s ← access g.segments g.index
    if n < s.length - g.pos then set { g with pos := g.pos + n }
    else advanceFrom { g with index := g.index + 1, pos := 0 } (n - (s.length - g.pos))
  else set g
termination_by g.segments.length - g.index

def advance (n : Nat) : Reading Unit := do
  let g ← get
  advanceFrom g n

def advanceOne : Reading (Option UInt8) := do
  normalize
  let found ← peek
  match found with
  | none => pure none
  | some b =>
    advance 1
    pure (some b)

/-- Whether these bytes lie `k` places ahead. -/
def startsWithAt (k : Nat) : List UInt8 → Reading Bool
  | [] => pure true
  | b :: rest => do
    let found ← peekAt k
    if found = some b then startsWithAt (k + 1) rest else pure false

def startsWith (bytes : List UInt8) : Reading Bool := startsWithAt 0 bytes

/-- Cuts the next `n` bytes out of the segment at hand. -/
def cut (n : Nat) : Reading (List UInt8) := do
  let g ← get
  let s ← access g.segments g.index
  let bytes ← slice s g.pos (g.pos + n)
  advance n
  pure bytes

/-- Takes the regular bytes ahead in the segment at hand. -/
def takeRun : Reading (List UInt8) := do
  normalize
  let g ← get
  if g.segments.length ≤ g.index then pure []
  else
    let bytes ← here
    cut (bytes.takeWhile Byte.isRegular).length

/-- Takes `n` bytes one by one. -/
def takeEach : (n : Nat) → Reading (Option (List UInt8))
  | 0 => pure (some [])
  | n + 1 => do
    let found ← advanceOne
    match found with
    | none => pure none
    | some b =>
      let later ← takeEach n
      pure (later.map (b :: ·))

/-- Fetches `n` bytes that are ahead, in one cut if they lie in the segment at hand. -/
def fetch (n : Nat) : Reading (Option (List UInt8)) := do
  normalize
  let bytes ← here
  if n ≤ bytes.length then
    let data ← cut n
    pure (some data)
  else takeEach n

def take (n : Nat) : Reading (Option (List UInt8)) := do
  let g ← get
  let offset ← tell
  if g.total < offset + n then pure none else fetch n

/-! ## Loops over bytes -/

section Loops

variable {α : Type}

/-- The answer of a loop that goes on for too long. -/
def unending : Reading α := fun _ => none

/-- A loop has a round for each byte and one more. -/
def loop (body : (rounds : Nat) → Reading α) : Reading α := do
  let g ← get
  body (g.total + 1)

end Loops

/-! ## What reading does -/

section Does

variable {α β : Type} {m : Reading α} {f : α → Reading β} {a : α} {b : β} {e : OutOfRange}
  {g g' g'' : SegmentCursor} {c c' c'' : Cursor} {n : Nat}

/-- Reading comes to an end, with this answer and at this place. -/
def Ends (m : Reading α) (g : SegmentCursor) (a : α) (g' : SegmentCursor) : Prop :=
  (m.run g).run = some (.ok (a, g'))

/-- Reading comes to an access out of range. -/
def Fails (m : Reading α) (g : SegmentCursor) (e : OutOfRange) : Prop :=
  (m.run g).run = some (.error e)

theorem Ends.pure (a : α) (g : SegmentCursor) : Ends (pure a) g a g := rfl

theorem Ends.set (g g' : SegmentCursor) : Ends (set g') g () g' := rfl

theorem Ends.bind (h : Ends m g a g') (hf : Ends (f a) g' b g'') : Ends (m >>= f) g b g'' := by
  unfold Ends at *
  rw [StateT.run_bind, ExceptT.run_bind, h]
  exact hf

theorem Ends.get {f : SegmentCursor → Reading β} (h : Ends (f g) g b g') :
    Ends (get >>= f) g b g' := h

theorem Ends.fails (h : Ends m g a g') (hf : Fails (f a) g' e) : Fails (m >>= f) g e := by
  unfold Ends Fails at *
  rw [StateT.run_bind, ExceptT.run_bind, h]
  exact hf

theorem Ends.not_fails (h : Ends m g a g') : ¬ Fails m g e := by
  intro hf
  cases h.symm.trans hf

theorem Fails.bind (h : Fails m g e) : Fails (m >>= f) g e := by
  unfold Fails at *
  rw [StateT.run_bind, ExceptT.run_bind, h]
  rfl

theorem Fails.get {f : SegmentCursor → Reading β} (h : Fails (f g) g e) : Fails (get >>= f) g e := h

theorem ends_access {items : List α} {i : Nat} (h : items[i]? = some a) (g : SegmentCursor) :
    Ends (access items i) g a g := by
  unfold access
  rw [h]
  exact .pure a g

theorem fails_access {items : List α} {i : Nat} (h : items[i]? = none) (g : SegmentCursor) :
    Fails (access items i) g { index := i, length := items.length } := by
  unfold access
  rw [h]
  rfl

theorem ends_slice {bytes : List UInt8} {first last : Nat} (h : first ≤ last)
    (h' : last ≤ bytes.length) (g : SegmentCursor) :
    Ends (slice bytes first last) g ((bytes.take last).drop first) g := by
  unfold slice
  rw [if_pos ⟨h, h'⟩]
  exact .pure _ g

/-- The place is the one where the cursor is. -/
structure Stands (g : SegmentCursor) (c : Cursor) : Prop where
  segments : ∃ all, g.segments = kept all ∧ c.ends = Cursor.segmentEnds 0 all
  offset : c.offset = (g.segments.take g.index).flatten.length + g.pos
  rest : c.rest = (g.segments.drop g.index).flatten.drop g.pos
  place : (∃ s, g.segments[g.index]? = some s ∧ g.pos < s.length) ∨
    g.index = g.segments.length ∧ g.pos = 0

/-- Where the cursor stands at first, reading ends with the answer, where it stands at last. -/
def Does (m : Reading α) (c : Cursor) (a : α) (c' : Cursor) : Prop :=
  ∀ g, Stands g c → ∃ g', Ends m g a g' ∧ Stands g' c'

theorem Does.pure (a : α) (c : Cursor) : Does (pure a) c a c :=
  fun g h => ⟨g, .pure a g, h⟩

theorem Does.bind (h : Does m c a c') (hf : Does (f a) c' b c'') : Does (m >>= f) c b c'' := by
  intro g hg
  obtain ⟨g', hends, hg'⟩ := h g hg
  obtain ⟨g'', hends', hg''⟩ := hf g' hg'
  exact ⟨g'', hends.bind hends', hg''⟩

/-- Where the cursor stands, reading ends with the answer and does not move. -/
def Sees (m : Reading α) (c : Cursor) (a : α) : Prop := ∀ g, Stands g c → Ends m g a g

theorem Sees.pure (a : α) (c : Cursor) : Sees (pure a) c a := fun g _ => .pure a g

theorem Sees.bind (h : Sees m c a) (hf : Sees (f a) c b) : Sees (m >>= f) c b :=
  fun g hg => (h g hg).bind (hf g hg)

theorem Sees.does (h : Sees m c a) : Does m c a c := fun g hg => ⟨g, h g hg, hg⟩

/-- What is known of the place where the cursor stands may be used. -/
theorem Does.of_place (h : ∀ g, Stands g c → Does m c a c') : Does m c a c' :=
  fun g hg => h g hg g hg

/-- Where the cursor stands, reading comes to an access out of range. -/
def Overruns (m : Reading α) (c : Cursor) : Prop :=
  ∀ g, Stands g c → ∃ e, Fails m g e

theorem Overruns.bind (h : Overruns m c) : Overruns (m >>= f) c := by
  intro g hg
  obtain ⟨e, hfails⟩ := h g hg
  exact ⟨e, hfails.bind⟩

theorem Does.overruns (h : Does m c a c') (hf : Overruns (f a) c') : Overruns (m >>= f) c := by
  intro g hg
  obtain ⟨g', hends, hg'⟩ := h g hg
  obtain ⟨e, hfails⟩ := hf g' hg'
  exact ⟨e, hends.fails hfails⟩

/-! ## Places of cursors -/

theorem ne_nil_of_mem_kept {segments : List (List UInt8)} {s : List UInt8}
    (h : s ∈ kept segments) : s ≠ [] := by
  have hkept := (List.mem_filter.1 h).2
  rintro rfl
  cases hkept

theorem flatten_kept (segments : List (List UInt8)) :
    (kept segments).flatten = segments.flatten := by
  induction segments with
  | nil => rfl
  | cons s rest ih =>
    unfold kept at *
    cases s with
    | nil => simpa using ih
    | cons b bytes => simp [ih]

theorem place_start {segments : List (List UInt8)} {i : Nat} (h : ∀ s ∈ segments, s ≠ [])
    (hi : i ≤ segments.length) :
    (∃ s, segments[i]? = some s ∧ 0 < s.length) ∨ i = segments.length ∧ 0 = 0 := by
  rcases Nat.lt_or_eq_of_le hi with hlt | heq
  · have hs : segments[i]? = some segments[i] := List.getElem?_eq_getElem hlt
    exact .inl ⟨_, hs, List.length_pos_iff.2 (h _ (List.getElem_mem hlt))⟩
  · exact .inr ⟨heq, rfl⟩

theorem stands_start (segments : List (List UInt8)) :
    Stands (ofSegments segments) (Cursor.ofSegments segments) where
  segments := ⟨segments, rfl, rfl⟩
  offset := by simp [ofSegments, Cursor.ofSegments]
  rest := by simp [ofSegments, Cursor.ofSegments, flatten_kept]
  place := place_start (fun _ => ne_nil_of_mem_kept) (Nat.zero_le _)

namespace Stands

theorem ne_nil (h : Stands g c) : ∀ s ∈ g.segments, s ≠ [] := by
  obtain ⟨all, hall, _⟩ := h.segments
  rw [hall]
  exact fun _ => ne_nil_of_mem_kept

section Inside

variable {s : List UInt8}

theorem lt_length (hs : g.segments[g.index]? = some s) : g.index < g.segments.length :=
  (List.getElem?_eq_some_iff.1 hs).1

theorem drop_index (hs : g.segments[g.index]? = some s) :
    g.segments.drop g.index = s :: g.segments.drop (g.index + 1) := by
  rw [List.drop_eq_getElem?_toList_append, hs]
  rfl

theorem rest_inside (h : Stands g c) (hs : g.segments[g.index]? = some s) (hp : g.pos < s.length) :
    c.rest = s.drop g.pos ++ (g.segments.drop (g.index + 1)).flatten := by
  rw [h.rest, drop_index hs, List.flatten_cons]
  exact List.drop_append_of_le_length (Nat.le_of_lt hp)

theorem rest_ne_nil (h : Stands g c) (hs : g.segments[g.index]? = some s)
    (hp : g.pos < s.length) : c.rest ≠ [] := by
  rw [h.rest_inside hs hp]
  refine List.append_ne_nil_of_left_ne_nil ?_ _
  rw [ne_eq, List.drop_eq_nil_iff]
  omega

/-- A move inside the segment at hand. -/
theorem inside (h : Stands g c) (hs : g.segments[g.index]? = some s) (hn : n < s.length - g.pos) :
    Stands { g with pos := g.pos + n } (c.advance n) where
  segments := by simpa only [Cursor.advance_ends] using h.segments
  offset := by
    have hlen : n ≤ c.rest.length := by
      rw [h.rest_inside hs (by omega), List.length_append, List.length_drop]
      omega
    rw [Cursor.advance_offset, h.offset, Nat.min_eq_left hlen, Nat.add_assoc]
  rest := by rw [Cursor.advance_rest, h.rest, List.drop_drop]
  place := .inl ⟨s, hs, Nat.add_lt_of_lt_sub' hn⟩

/-- A move to the end of the segment at hand. -/
theorem nextSegment (h : Stands g c) (hs : g.segments[g.index]? = some s) (hp : g.pos < s.length) :
    Stands { g with index := g.index + 1, pos := 0 } (c.advance (s.length - g.pos)) where
  segments := by simpa only [Cursor.advance_ends] using h.segments
  offset := by
    have hlen : s.length - g.pos ≤ c.rest.length := by
      rw [h.rest_inside hs hp, List.length_append, List.length_drop]
      omega
    rw [Cursor.advance_offset, h.offset, Nat.min_eq_left hlen, List.take_add_one, hs]
    simp only [Option.toList_some, List.flatten_append, List.flatten_cons, List.flatten_nil,
      List.append_nil, List.length_append]
    omega
  rest := by
    rw [Cursor.advance_rest, h.rest_inside hs hp, List.drop_left' (List.length_drop ..)]
    rfl
  place := place_start h.ne_nil (lt_length hs)

end Inside

/-- Behind the last segment nothing is ahead. -/
theorem rest_end (h : Stands g c) (hi : g.index = g.segments.length) : c.rest = [] := by
  rw [h.rest, hi, List.drop_length, List.flatten_nil, List.drop_nil]

theorem total (h : Stands g c) : c.offset + c.rest.length = g.total := by
  have hsplit : g.total = (g.segments.take g.index).flatten.length +
      (g.segments.drop g.index).flatten.length := by
    rw [SegmentCursor.total, ← List.length_append, ← List.flatten_append, List.take_append_drop]
  rw [hsplit, h.offset]
  rcases h.place with ⟨s, hs, hp⟩ | ⟨hi, hp⟩
  · rw [h.rest_inside hs hp, drop_index hs]
    simp only [List.flatten_cons, List.length_append, List.length_drop]
    omega
  · rw [h.rest_end hi, hi, hp, List.drop_length]
    rfl

end Stands

theorem find?_segmentEnds {all : List (List UInt8)} {s : List UInt8} {i pos : Nat} (start : Nat)
    (hs : (kept all)[i]? = some s) (hp : pos < s.length) :
    (Cursor.segmentEnds start all).find?
        (start + ((kept all).take i).flatten.length + pos < ·) =
      some (start + ((kept all).take i).flatten.length + s.length) := by
  induction all generalizing start i with
  | nil => cases hs
  | cons a rest ih =>
    rw [Cursor.segmentEnds]
    by_cases ha : a = []
    · -- An empty segment ends where it starts, no farther than the place.
      have hkept : kept (a :: rest) = kept rest := by simp [kept, ha]
      rw [hkept] at hs ⊢
      rw [List.find?_cons_of_neg (by simp [ha]; omega)]
      simpa [ha] using ih start hs
    · have hkept : kept (a :: rest) = a :: kept rest := by simp [kept, ha]
      rw [hkept] at hs ⊢
      cases i with
      | zero =>
        cases hs
        rw [List.find?_cons_of_pos (by simpa using hp)]
        rfl
      | succ i =>
        have hlater := ih (start + a.length) hs
        have hsum : start + ((a :: kept rest).take (i + 1)).flatten.length =
            start + a.length + ((kept rest).take i).flatten.length := by
          simp [Nat.add_assoc]
        rw [hsum, List.find?_cons_of_neg (by simp; omega), hlater]

/-- The room of the cursor is what is left of the segment at hand. -/
theorem Stands.room {s : List UInt8} (h : Stands g c) (hs : g.segments[g.index]? = some s)
    (hp : g.pos < s.length) : c.room = s.length - g.pos := by
  obtain ⟨all, hall, hends⟩ := h.segments
  rw [hall] at hs
  have hfind := find?_segmentEnds 0 hs hp
  rw [Nat.zero_add, ← hall, ← h.offset] at hfind
  have hlength := h.offset
  rw [Cursor.room, hends, hfind]
  show (g.segments.take g.index).flatten.length + s.length - c.offset = _
  omega

/-! ## Accesses in range -/

theorem getElem?_startsFrom {segments : List (List UInt8)} {i : Nat} (start : Nat)
    (hi : i < segments.length) :
    (startsFrom start segments)[i]? = some (start + (segments.take i).flatten.length) := by
  induction segments generalizing start i with
  | nil => cases hi
  | cons s rest ih =>
    cases i with
    | zero => rfl
    | succ i => simp [startsFrom, ih (start + s.length) (Nat.lt_of_succ_lt_succ hi), Nat.add_assoc]

theorem sees_tell (c : Cursor) : Sees tell c c.offset := by
  intro g h
  refine .get ?_
  rcases h.place with ⟨s, hs, hp⟩ | ⟨hi, hp⟩
  · have hlt := Stands.lt_length hs
    rw [if_neg (Nat.not_le.2 hlt), h.offset]
    refine (ends_access (getElem?_startsFrom 0 hlt) g).bind ?_
    rw [Nat.zero_add]
    exact .pure _ g
  · have hend : g.total = c.offset := by
      rw [← h.total, h.rest_end hi]
      rfl
    rw [if_pos (Nat.le_of_eq hi.symm), hend]
    exact .pure _ g

theorem does_tell (c : Cursor) : Does tell c c.offset c := (sees_tell c).does

theorem sees_atEnd (c : Cursor) : Sees atEnd c c.atEnd := by
  intro g h
  refine .get ((sees_tell c g h).bind ?_)
  have hempty : decide (g.total ≤ c.offset) = c.atEnd := by
    rw [← h.total, Cursor.atEnd]
    cases c.rest <;> simp
  rw [hempty]
  exact .pure _ g

theorem does_atEnd (c : Cursor) : Does atEnd c c.atEnd c := (sees_atEnd c).does

theorem does_normalize (c : Cursor) : Does normalize c () c := by
  intro g h
  refine ⟨g, .get ?_, h⟩
  rw [normalizeFrom]
  rcases h.place with ⟨s, hs, hp⟩ | ⟨hi, hp⟩
  · rw [if_pos (Stands.lt_length hs)]
    refine (ends_access hs g).bind ?_
    rw [if_neg (Nat.not_le.2 hp)]
    exact .set g g
  · rw [if_neg (Nat.not_lt.2 (Nat.le_of_eq hi.symm))]
    exact .set g g

theorem does_here (c : Cursor) : Does here c (c.rest.take c.room) c := by
  intro g h
  refine ⟨g, .get ?_, h⟩
  rcases h.place with ⟨s, hs, hp⟩ | ⟨hi, hp⟩
  · rw [if_neg (Nat.not_le.2 (Stands.lt_length hs))]
    refine (ends_access hs g).bind ?_
    have hbytes : c.rest.take c.room = (s.take s.length).drop g.pos := by
      rw [h.room hs hp, h.rest_inside hs hp, List.take_left' (List.length_drop ..),
        List.take_length]
    rw [hbytes]
    exact ends_slice (Nat.le_of_lt hp) (Nat.le_refl _) g
  · rw [if_pos (Nat.le_of_eq hi.symm), h.rest_end hi, List.take_nil]
    exact .pure [] g

theorem Stands.room_pos (h : Stands g c) (hne : c.rest ≠ []) : 0 < c.room := by
  rcases h.place with ⟨s, hs, hp⟩ | ⟨hi, hp⟩
  · rw [h.room hs hp]
    exact Nat.sub_pos_of_lt hp
  · exact absurd (h.rest_end hi) hne

theorem Stands.rest_eq_nil (h : Stands g c) (hnil : c.rest.take c.room = []) : c.rest = [] := by
  by_contra hne
  have hroom := h.room_pos hne
  rcases List.take_eq_nil_iff.1 hnil with hzero | hnil
  · omega
  · exact hne hnil

theorem does_peek (c : Cursor) : Does peek c (c.peek? 0) c := by
  intro g h
  have hhead : (c.rest.take c.room).head? = c.peek? 0 := by
    by_cases hne : c.rest = []
    · simp [Cursor.peek?, hne]
    · rw [List.head?_take, if_neg (Nat.ne_of_gt (h.room_pos hne)), Cursor.peek?,
        List.head?_eq_getElem?]
  exact (Does.bind (does_here c) (hhead ▸ .pure _ c)) g h

/-- Looking ahead is in range from any place. -/
theorem ends_peekFrom (g : SegmentCursor) (segments : List (List UInt8)) (index pos : Nat) :
    Ends (peekFrom segments index pos) g ((segments.drop index).flatten[pos]?) g := by
  rw [peekFrom]
  by_cases hlt : index < segments.length
  · have hs : segments[index]? = some segments[index] := List.getElem?_eq_getElem hlt
    rw [if_pos hlt, List.drop_eq_getElem_cons hlt, List.flatten_cons]
    refine (ends_access hs g).bind ?_
    by_cases hpos : pos < segments[index].length
    · rw [if_pos hpos, List.getElem?_append_left hpos, List.getElem?_eq_getElem hpos]
      exact (ends_access (List.getElem?_eq_getElem hpos) g).bind (.pure _ g)
    · rw [if_neg hpos, List.getElem?_append_right (Nat.not_lt.1 hpos)]
      exact ends_peekFrom g segments (index + 1) (pos - segments[index].length)
  · rw [if_neg hlt, List.drop_of_length_le (Nat.not_lt.1 hlt)]
    exact .pure none g
termination_by segments.length - index

theorem sees_peekAt (c : Cursor) (k : Nat) : Sees (peekAt k) c (c.peek? k) := by
  intro g h
  refine .get ?_
  have hbyte : c.peek? k = (g.segments.drop g.index).flatten[g.pos + k]? := by
    rw [Cursor.peek?, h.rest, List.getElem?_drop]
  rw [hbyte]
  exact ends_peekFrom g _ _ _

theorem does_peekAt (c : Cursor) (k : Nat) : Does (peekAt k) c (c.peek? k) c :=
  (sees_peekAt c k).does

theorem ends_peekWord (g : SegmentCursor) (k : UInt64) :
    Ends (peekWord k) g
      (g.segments.drop g.index).flatten[(g.pos + k.toNat) % UInt64.size]? g := by
  refine .get ?_
  have hsum : (UInt64.ofNat g.pos + k).toNat = (g.pos + k.toNat) % UInt64.size := by
    rw [UInt64.toNat_add, UInt64.toNat_ofNat', Nat.mod_add_mod]
  rw [hsum]
  exact ends_peekFrom g _ _ _

/-- Distances are as they should be as long as the sum fits a word. -/
theorem Stands.ends_peekWord (h : Stands g c) {k : UInt64}
    (hfits : g.pos + k.toNat < UInt64.size) : Ends (peekWord k) g (c.peek? k.toNat) g := by
  have hends := SegmentCursor.ends_peekWord g k
  rwa [Nat.mod_eq_of_lt hfits, ← List.getElem?_drop, ← h.rest] at hends

/-- With a sum that is too large for a word it is a look back in the segment at hand. -/
theorem ends_peekWord_back {s : List UInt8} {k : UInt64} (hs : g.segments[g.index]? = some s)
    (hp : g.pos < s.length) (hword : s.length ≤ UInt64.size)
    (hwraps : UInt64.size ≤ g.pos + k.toNat) :
    Ends (peekWord k) g s[g.pos + k.toNat - UInt64.size]? g := by
  have hk : k.toNat < UInt64.size := k.toNat_lt
  have hsum : (g.pos + k.toNat) % UInt64.size = g.pos + k.toNat - UInt64.size := by
    rw [Nat.mod_eq_sub_mod hwraps, Nat.mod_eq_of_lt (by omega)]
  have hends := ends_peekWord g k
  rwa [hsum, Stands.drop_index hs, List.flatten_cons,
    List.getElem?_append_left (by omega)] at hends

theorem sees_startsWithAt (c : Cursor) (k : Nat) (bytes : List UInt8) :
    Sees (startsWithAt k bytes) c (bytes.isPrefixOf (c.rest.drop k)) := by
  induction bytes generalizing k with
  | nil => exact .pure true c
  | cons b rest ih =>
    have hpeek : c.peek? k = (c.rest.drop k).head? := List.head?_drop.symm
    have hlater := ih (k + 1)
    rw [← List.tail_drop] at hlater
    refine (sees_peekAt c k).bind ?_
    rw [hpeek]
    cases hdrop : c.rest.drop k with
    | nil => exact .pure false c
    | cons b' later =>
      rw [hdrop] at hlater
      by_cases hb : b' = b
      · subst hb
        rw [List.head?_cons, if_pos rfl, List.isPrefixOf_cons_cons_self]
        exact hlater
      · have hfalse : (b :: rest).isPrefixOf (b' :: later) = false := by
          simp [List.isPrefixOf, Ne.symm hb]
        rw [List.head?_cons, if_neg (by simpa using hb), hfalse]
        exact .pure false c

theorem sees_startsWith (c : Cursor) (bytes : List UInt8) :
    Sees (startsWith bytes) c (c.startsWith bytes) :=
  sees_startsWithAt c 0 bytes

theorem does_startsWith (c : Cursor) (bytes : List UInt8) :
    Does (startsWith bytes) c (c.startsWith bytes) c :=
  (sees_startsWith c bytes).does

theorem advance_advance (c : Cursor) (m n : Nat) : (c.advance m).advance n = c.advance (n + m) := by
  rw [← Cursor.advance_add, Nat.add_comm]

theorem advance_of_nil (h : c.rest = []) (n : Nat) : c.advance n = c := by
  induction n with
  | zero => rfl
  | succ n ih =>
    have hnext : c.next = c := by simp [Cursor.next, h]
    rw [Cursor.advance, hnext, ih]

theorem ends_advanceFrom (n : Nat) (g : SegmentCursor) (c : Cursor) (h : Stands g c)
    (before : SegmentCursor) :
    ∃ g', Ends (advanceFrom g n) before () g' ∧ Stands g' (c.advance n) := by
  rw [advanceFrom]
  rcases h.place with ⟨s, hs, hp⟩ | ⟨hi, hp⟩
  · have hlt := Stands.lt_length hs
    by_cases h0 : n = 0
    · subst h0
      rw [if_neg (by simp)]
      exact ⟨g, .set before g, h⟩
    rw [if_pos ⟨Nat.pos_of_ne_zero h0, hlt⟩]
    by_cases hn : n < s.length - g.pos
    · refine ⟨_, (ends_access hs before).bind ?_, h.inside hs hn⟩
      rw [if_pos hn]
      exact .set before _
    · -- The segment is used up, and the loop goes on from the next.
      obtain ⟨g', hends, hg'⟩ := ends_advanceFrom (n - (s.length - g.pos))
        { g with index := g.index + 1, pos := 0 } (c.advance (s.length - g.pos))
        (h.nextSegment hs hp) before
      rw [← Cursor.advance_add, Nat.add_sub_cancel' (Nat.not_lt.1 hn)] at hg'
      refine ⟨g', (ends_access hs before).bind ?_, hg'⟩
      rw [if_neg hn]
      exact hends
  · rw [advance_of_nil (h.rest_end hi), if_neg (by omega)]
    exact ⟨g, .set before g, h⟩
termination_by g.segments.length - g.index

theorem does_advance (c : Cursor) (n : Nat) : Does (advance n) c () (c.advance n) := by
  intro g h
  obtain ⟨g', hends, hg'⟩ := ends_advanceFrom n g c h g
  exact ⟨g', .get hends, hg'⟩

/-- A loop that ends within more rounds than bytes are ahead has its answer. -/
theorem does_loop {body : Nat → Reading α}
    (h : ∀ rounds, c.rest.length < rounds → Does (body rounds) c a c') :
    Does (loop body) c a c' := by
  intro g hg
  have htotal := hg.total
  obtain ⟨g', hends, hg'⟩ := h (g.total + 1) (by omega) g hg
  exact ⟨g', .get hends, hg'⟩

section FirstByte

variable {byte : UInt8} {later : List UInt8}

theorem peek?_nil (h : c.rest = []) (k : Nat) : c.peek? k = none := by simp [Cursor.peek?, h]

theorem peek?_cons (h : c.rest = byte :: later) : c.peek? 0 = some byte := by
  simp [Cursor.peek?, h]

theorem does_advanceOne_nil (h : c.rest = []) : Does advanceOne c none c :=
  (does_normalize c).bind ((peek?_nil h 0 ▸ does_peek c).bind (.pure none c))

theorem does_advanceOne_cons (h : c.rest = byte :: later) :
    Does advanceOne c (some byte) (c.advance 1) :=
  (does_normalize c).bind
    ((peek?_cons h ▸ does_peek c).bind ((does_advance c 1).bind (.pure (some byte) _)))

end FirstByte

theorem run_eq (c : Cursor) : c.run = (c.rest.take c.room).takeWhile Byte.isRegular :=
  Cursor.regularBytes_eq _ _

theorem does_cut (hne : c.rest ≠ []) (hn : n ≤ c.room) :
    Does (cut n) c (c.rest.take n) (c.advance n) := by
  intro g h
  obtain ⟨g', hmove, hg'⟩ := does_advance c n g h
  refine ⟨g', .get ?_, hg'⟩
  rcases h.place with ⟨s, hs, hp⟩ | ⟨hi, hp⟩
  · have hroom := h.room hs hp
    have hbytes : c.rest.take n = (s.take (g.pos + n)).drop g.pos := by
      rw [h.rest_inside hs hp, List.take_append_of_le_length (by rw [List.length_drop]; omega),
        List.drop_take, Nat.add_sub_cancel_left]
    rw [hbytes]
    refine (ends_access hs g).bind (Ends.bind (ends_slice ?_ ?_ g) (hmove.bind (.pure _ g')))
    · omega
    · omega
  · exact absurd (h.rest_end hi) hne

/-- At the end there is no segment to cut from. -/
theorem cut_overruns (hend : c.rest = []) (n : Nat) : Overruns (cut n) c := by
  intro g h
  have hnone : g.segments[g.index]? = none := by
    rcases h.place with ⟨s, hs, hp⟩ | ⟨hi, hp⟩
    · exact absurd hend (h.rest_ne_nil hs hp)
    · simp [hi]
  exact ⟨_, .get (fails_access hnone g).bind⟩

theorem does_takeRun (c : Cursor) : Does takeRun c c.run (c.advance c.run.length) := by
  refine (does_normalize c).bind ?_
  intro g h
  rcases h.place with ⟨s, hs, hp⟩ | ⟨hi, hp⟩
  · have hrun : c.run <+: c.rest.take c.room := by
      rw [run_eq]
      exact List.takeWhile_prefix _
    have hcut := does_cut (h.rest_ne_nil hs hp)
      (Nat.le_trans hrun.length_le (List.length_take_le _ _))
    rw [← List.prefix_iff_eq_take.1 (hrun.trans (List.take_prefix _ _))] at hcut
    obtain ⟨g', hhere, hg'⟩ := does_here c g h
    obtain ⟨g'', hends, hg''⟩ := hcut g' hg'
    refine ⟨g'', .get ?_, hg''⟩
    rw [if_neg (Nat.not_le.2 (Stands.lt_length hs))]
    refine hhere.bind ?_
    rw [← run_eq]
    exact hends
  · have hrun : c.run = [] := by
      rw [run_eq, h.rest_end hi]
      simp
    refine ⟨g, .get ?_, by rwa [hrun]⟩
    rw [if_pos (Nat.le_of_eq hi.symm), hrun]
    exact .pure [] g

theorem does_takeEach (c : Cursor) {n : Nat} (h : n ≤ c.rest.length) :
    Does (takeEach n) c (some (c.rest.take n)) (c.advance n) := by
  induction n generalizing c with
  | zero => exact .pure _ c
  | succ n ih =>
    cases hrest : c.rest with
    | nil => simp [hrest] at h
    | cons b rest =>
      have hnext : (c.advance 1).rest = rest := by simp [hrest]
      refine (does_advanceOne_cons hrest).bind ?_
      have hlater := ih (c.advance 1) (by rw [hnext]; simpa [hrest] using h)
      rw [hnext, advance_advance] at hlater
      exact hlater.bind (.pure _ _)

theorem does_take_of_lt (h : c.rest.length < n) : Does (take n) c none c := by
  intro g hg
  obtain ⟨g', htell, hg'⟩ := does_tell c g hg
  refine ⟨g', .get (htell.bind ?_), hg'⟩
  have htotal := hg.total
  rw [if_pos (by omega)]
  exact .pure none g'

theorem does_take (hne : c.rest ≠ []) (hn : n ≤ c.rest.length) :
    Does (take n) c (some (c.rest.take n)) (c.advance n) := by
  have hfetch : Does (fetch n) c (some (c.rest.take n)) (c.advance n) := by
    refine (does_normalize c).bind ((does_here c).bind ?_)
    split
    · rename_i hfits
      have hroom := Nat.le_trans hfits (List.length_take_le _ _)
      exact (does_cut hne hroom).bind (.pure _ _)
    · exact does_takeEach c hn
  intro g hg
  obtain ⟨g', htell, hg'⟩ := does_tell c g hg
  obtain ⟨g'', hends, hg''⟩ := hfetch g' hg'
  refine ⟨g'', .get (htell.bind ?_), hg''⟩
  have htotal := hg.total
  rw [if_neg (by omega)]
  exact hends

/-- Not even no bytes can be taken at the end. -/
theorem take_overruns (hend : c.rest = []) : Overruns (take 0) c := by
  have hfetch : Overruns (fetch 0) c := by
    refine (does_normalize c).overruns ((does_here c).overruns ?_)
    rw [if_pos (Nat.zero_le _)]
    exact (cut_overruns hend 0).bind
  intro g hg
  obtain ⟨g', htell, hg'⟩ := does_tell c g hg
  obtain ⟨e, hfails⟩ := hfetch g' hg'
  refine ⟨e, .get (htell.fails ?_)⟩
  have htotal := hg.total
  rw [if_neg (by rw [hend] at htotal; simp at htotal; omega)]
  exact hfails

end Does

end SegmentCursor

end ContentStream
