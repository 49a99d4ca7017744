import ContentStream.Proofs.SegmentReader

/-!
# Reads in range

Tokens and the data of inline images may be asked for in any order. By places among the segments, the
data are read in the three ways of the reader: as many bytes as are asked for, up to a marker, or up to
an `EI` between blanks.

**Theorem (`reads_in_range_exact`).** Whatever calls are made, reading by places comes to its end with
the answers of the reader, and every access to a segment is in range, unless one of the calls asks for
no bytes where nothing is left. Data of a known length are exactly the bytes behind the blank in front
of them; if there are fewer, the content is truncated.
-/

namespace ContentStream

namespace SegmentCursor

/-! ## Inline data -/

/-- Moves over the `EI` ahead, or back to where it was. -/
def skipEnd : Reading Unit := do
  let saved ← get
  skipBlanks
  let marked ← startsWith Cursor.endMark
  let after ← peekAt 2
  if marked && after.all (fun b => !Byte.isRegular b) then advance 2 else set saved

def untilMarkerWithin (marker : List UInt8) : (rounds : Nat) → Reading (Option (List UInt8))
  | 0 => unending
  | n + 1 => do
    let marked ← startsWith marker
    if marked then
      advance marker.length
      pure (some marker)
    else
      let found ← advanceOne
      match found with
      | none => pure none
      | some b =>
        let later ← untilMarkerWithin marker n
        pure (later.map (b :: ·))

def untilMarker (marker : List UInt8) : Reading (Option (List UInt8)) :=
  loop (untilMarkerWithin marker)

def untilEndWithin : (rounds : Nat) → (afterBlank : Bool) → Reading (Option (List UInt8))
  | 0, _ => unending
  | n + 1, afterBlank => do
    let marked ← startsWith Cursor.endMark
    let after ← peekAt 2
    if afterBlank && marked && after.all Byte.isBlank then
      advance 2
      pure (some [])
    else
      let found ← advanceOne
      match found with
      | none => pure none
      | some b =>
        let later ← untilEndWithin n (Byte.isBlank b)
        pure (later.map (b :: ·))

def untilEnd (afterBlank : Bool) : Reading (Option (List UInt8)) :=
  loop fun rounds => untilEndWithin rounds afterBlank

/-- Data that do not include the `EI` behind them. -/
def beforeEnd : Option (List UInt8) → Reading (Option (List UInt8))
  | none => pure none
  | some data => do
    skipEnd
    pure (some data)

/-- The data from behind the blank in front of them. -/
def data (afterBlank : Bool) : Option Nat → Option (List UInt8) → Reading (Option (List UInt8))
  | some n, _ => do
    let data ← take n
    beforeEnd data
  | none, some marker => do
    let data ← untilMarker marker
    beforeEnd data
  | none, none => do
    let data ← untilEnd afterBlank
    pure (data.map List.dropLast)

def inlineData (length : Option Nat) (marker : Option (List UInt8)) :
    Reading (Option (List UInt8)) := do
  normalize
  let found ← peek
  advance (if found.any Byte.isBlank then 1 else 0)
  data (found.any Byte.isBlank) length marker

theorem does_skipEnd (c : Cursor) : Does skipEnd c () c.skipEnd := by
  intro g hg
  obtain ⟨g₁, hskip, hg₁⟩ := does_skipBlanks c g hg
  obtain ⟨g₂, hmark, hg₂⟩ := does_startsWith c.skipBlanks Cursor.endMark g₁ hg₁
  obtain ⟨g₃, hpeek, hg₃⟩ := does_peekAt c.skipBlanks 2 g₂ hg₂
  rw [Cursor.skipEnd]
  split
  · rename_i hend
    obtain ⟨g₄, hmove, hg₄⟩ := does_advance c.skipBlanks 2 g₃ hg₃
    refine ⟨g₄, .get (hskip.bind (hmark.bind (hpeek.bind ?_))), hg₄⟩
    rw [if_pos hend]
    exact hmove
  · rename_i hend
    refine ⟨g, .get (hskip.bind (hmark.bind (hpeek.bind ?_))), hg⟩
    rw [if_neg hend]
    exact .set g₃ g

theorem beforeMarker?_of_startsWith {marker : List UInt8} {c : Cursor}
    (h : c.startsWith marker = true) : Cursor.beforeMarker? marker c.rest = some 0 := by
  unfold Cursor.startsWith at h
  cases hrest : c.rest with
  | nil =>
    rw [hrest] at h
    cases marker with
    | nil => rfl
    | cons b marker => cases h
  | cons b rest => rw [Cursor.beforeMarker?, ← hrest, if_pos h]

theorem finds_untilMarkerWithin (marker : List UInt8) {c : Cursor} {rounds : Nat}
    (h : c.rest.length < rounds) :
    Finds (untilMarkerWithin marker rounds) c ((Cursor.beforeMarker? marker c.rest).map
      fun n => (c.rest.take (n + marker.length), n + marker.length)) := by
  induction rounds generalizing c with
  | zero => cases h
  | succ n ih =>
  refine Does.bind (does_startsWith c marker) ?_
  by_cases hmarked : c.startsWith marker = true
  · have htake : c.rest.take marker.length = marker :=
      (List.prefix_iff_eq_take.1 (List.isPrefixOf_iff_prefix.1 hmarked)).symm
    simp only [hmarked, if_true, beforeMarker?_of_startsWith hmarked, Option.map_some,
      Option.elim_some, Nat.zero_add, htake]
    exact (does_advance c _).bind (.pure _ _)
  simp only [hmarked]
  rw [Cursor.startsWith] at hmarked
  cases hrest : c.rest with
  | nil =>
    have hbefore : Cursor.beforeMarker? marker [] = none := by
      rw [hrest] at hmarked
      cases marker with
      | nil => exact absurd rfl hmarked
      | cons b marker => rfl
    rw [hbefore]
    exact (does_advanceOne_nil hrest).bind (.pure none c)
  | cons b rest =>
    have hlater := (ih (length_advance_one hrest h)).more (by simp [hrest]) (b :: ·)
    have hbefore : (Cursor.beforeMarker? marker (b :: rest)).map
        (fun n => ((b :: rest).take (n + marker.length), n + marker.length)) =
        ((Cursor.beforeMarker? marker rest).map
          fun n => (rest.take (n + marker.length), n + marker.length)).map
            fun found => (b :: found.1, found.2 + 1) := by
      rw [hrest] at hmarked
      rw [Cursor.beforeMarker?, if_neg hmarked]
      cases Cursor.beforeMarker? marker rest with
      | none => rfl
      | some n => simp [Nat.add_right_comm n 1]
    rw [rest_advance_one hrest, ← hbefore, hrest] at hlater
    exact (does_advanceOne_cons hrest).bind hlater

theorem finds_untilEndWithin {c : Cursor} {rounds : Nat} (h : c.rest.length < rounds)
    (afterBlank : Bool) :
    Finds (untilEndWithin rounds afterBlank) c ((Cursor.beforeEnd? afterBlank c.rest).map
      fun n => (c.rest.take n, n + 2)) := by
  induction rounds generalizing c afterBlank with
  | zero => cases h
  | succ n ih =>
  refine Does.bind (does_startsWith c _) ((does_peekAt c 2).bind ?_)
  cases hrest : c.rest with
  | nil =>
    have hmarked : c.startsWith Cursor.endMark = false := by
      rw [Cursor.startsWith, hrest]
      rfl
    simp only [hmarked, Bool.and_false, Bool.false_and]
    exact (does_advanceOne_nil hrest).bind (.pure none c)
  | cons b rest =>
    rw [Cursor.startsWith, Cursor.peek?, hrest, Cursor.beforeEnd?]
    split
    · exact (does_advance c 2).bind (.pure _ _)
    · have hlater := (ih (length_advance_one hrest h) (Byte.isBlank b)).more (by simp [hrest])
        (b :: ·)
      have hbefore : ((Cursor.beforeEnd? (Byte.isBlank b) rest).map (· + 1)).map
          (fun n => ((b :: rest).take n, n + 2)) =
          ((Cursor.beforeEnd? (Byte.isBlank b) rest).map fun n => (rest.take n, n + 2)).map
            fun found => (b :: found.1, found.2 + 1) := by
        cases Cursor.beforeEnd? (Byte.isBlank b) rest <;> rfl
      rw [rest_advance_one hrest, ← hbefore, hrest] at hlater
      exact (does_advanceOne_cons hrest).bind hlater

/-- The cursor behind the blank that does not belong to the data. -/
def dataStart (c : Cursor) : Cursor :=
  if (c.peek? 0).any Byte.isBlank then c.next else c

/-- The bytes behind that blank. -/
def dataAhead (bytes : List UInt8) : List UInt8 :=
  if bytes.head?.any Byte.isBlank then bytes.tail else bytes

theorem dataStart_rest (c : Cursor) : (dataStart c).rest = dataAhead c.rest := by
  have hhead : c.peek? 0 = c.rest.head? := List.head?_eq_getElem?.symm
  rw [dataStart, dataAhead, hhead]
  split
  · rw [Cursor.next_rest, List.drop_one]
  · rfl

theorem does_dataStart (c : Cursor) :
    Does (advance (if (c.peek? 0).any Byte.isBlank then 1 else 0)) c () (dataStart c) := by
  have hstart : dataStart c = c.advance (if (c.peek? 0).any Byte.isBlank then 1 else 0) := by
    rw [dataStart]
    split <;> rfl
  rw [hstart]
  exact does_advance c _

theorem does_beforeEnd (data : List UInt8) (c : Cursor) :
    Does (beforeEnd (some data)) c (some data) c.skipEnd :=
  (does_skipEnd c).bind (.pure _ _)

theorem inlineData_take (c : Cursor) (n : Nat) (marker : Option (List UInt8)) :
    (c.inlineData (some n) marker).1 =
      if (dataAhead c.rest).length < n then .error .truncated
      else if dataAhead c.rest = [] then .error .missingSegment
      else .ok ((dataAhead c.rest).take n) := by
  have htake : (c.inlineData (some n) marker).1 = (dataStart c).take n := by
    have hstart : (if (c.peek? 0).any Byte.isBlank = true then c.next else c) = dataStart c := rfl
    simp only [Cursor.inlineData, hstart]
    cases (dataStart c).take n <;> rfl
  rw [htake, Cursor.take, Cursor.atEnd, dataStart_rest]
  simp only [List.isEmpty_iff]

/-- Reading inline data ends as the reader says, and comes to an access out of range where the reader
misses a segment. -/
def Meets (m : Reading (Option (List UInt8))) (c : Cursor) :
    Except DataFault (List UInt8) × Cursor → Prop
  | (.ok data, c') => Does m c (some data) c'
  | (.error .truncated, c') => Does m c none c'
  | (.error .missingSegment, _) => Overruns m c

theorem Does.meets {α : Type} {m : Reading α} {f : α → Reading (Option (List UInt8))} {a : α}
    {c c' : Cursor} {x : Except DataFault (List UInt8) × Cursor} (h : Does m c a c')
    (hf : Meets (f a) c' x) : Meets (m >>= f) c x := by
  obtain ⟨(_ | _) | data, c''⟩ := x
  · exact h.bind hf
  · exact h.overruns hf
  · exact h.bind hf

theorem counted_meets (c : Cursor) (n : Nat) :
    Meets (take n >>= beforeEnd) c
      (match c.take n with
        | .ok data => (.ok data, (c.advance n).skipEnd)
        | .error fault => (.error fault, c)) := by
  unfold Cursor.take
  by_cases hlt : c.rest.length < n
  · rw [if_pos hlt]
    exact (does_take_of_lt hlt).bind (.pure none c)
  rw [if_neg hlt, Cursor.atEnd]
  cases hrest : c.rest with
  | nil =>
    have hzero : n = 0 := by simpa [hrest] using hlt
    subst hzero
    exact (take_overruns hrest).bind
  | cons b rest =>
    have hdata := does_take (by simp [hrest]) (Nat.not_lt.1 hlt)
    rw [hrest] at hdata
    exact hdata.bind (does_beforeEnd _ _)

theorem marked_meets (c : Cursor) (marker : List UInt8) :
    Meets (untilMarker marker >>= beforeEnd) c
      (match Cursor.beforeMarker? marker c.rest with
        | some n => (.ok (c.rest.take (n + marker.length)), (c.advance (n + marker.length)).skipEnd)
        | none => (.error .truncated, c.toEnd)) := by
  have hfinds : Finds (untilMarker marker) c _ :=
    does_loop fun _ h => finds_untilMarkerWithin marker h
  unfold Finds at hfinds
  cases hbefore : Cursor.beforeMarker? marker c.rest with
  | none =>
    rw [hbefore] at hfinds
    exact hfinds.bind (.pure none _)
  | some n =>
    rw [hbefore] at hfinds
    exact hfinds.bind (does_beforeEnd _ _)

theorem bare_meets (c : Cursor) (afterBlank : Bool) :
    Meets (untilEnd afterBlank >>= fun data => pure (data.map List.dropLast)) c
      (match Cursor.beforeEnd? afterBlank c.rest with
        | some n => (.ok (c.rest.take n).dropLast, c.advance (n + 2))
        | none => (.error .truncated, c.toEnd)) := by
  have hfinds : Finds (untilEnd afterBlank) c _ :=
    does_loop fun _ h => finds_untilEndWithin h afterBlank
  unfold Finds at hfinds
  cases hbefore : Cursor.beforeEnd? afterBlank c.rest with
  | none =>
    rw [hbefore] at hfinds
    exact hfinds.bind (.pure none _)
  | some n =>
    rw [hbefore] at hfinds
    exact hfinds.bind (.pure _ _)

/-- **Inline data by places.** Of the three ways to find their end, the known length alone can lead
out of range. -/
theorem inlineData_meets (c : Cursor) (length : Option Nat) (marker : Option (List UInt8)) :
    Meets (inlineData length marker) c (c.inlineData length marker) := by
  refine (does_normalize c).meets ((does_peek c).meets ((does_dataStart c).meets ?_))
  cases length with
  | some n => exact counted_meets (dataStart c) n
  | none =>
    cases marker with
    | some marker => exact marked_meets (dataStart c) marker
    | none => exact bare_meets (dataStart c) _

/-! ## Calls -/

/-- A call to the reader. -/
inductive Call where
  | token
  | data (length : Option Nat) (marker : Option (List UInt8))

/-- What the reader answers. There are no data if the content ends before they do. -/
inductive Answer where
  | token (found : Option (Nat × Except TokenError Token))
  | data (found : Option (List UInt8))

namespace Call

def perform : Call → Reading Answer
  | token => do
    let found ← SegmentCursor.token
    pure (.token found)
  | data length marker => do
    let found ← inlineData length marker
    pure (.data found)

def performAll : List Call → Reading (List Answer)
  | [] => pure []
  | call :: rest => do
    let answer ← call.perform
    let later ← performAll rest
    pure (answer :: later)

def answer (c : Cursor) : Call → Answer
  | token => .token c.token?.1
  | data length marker => .data (c.inlineData length marker).1.toOption

def after (c : Cursor) : Call → Cursor
  | token => c.token?.2
  | data length marker => (c.inlineData length marker).2

def afterAll (c : Cursor) (calls : List Call) : Cursor := calls.foldl after c

def answers (c : Cursor) : List Call → List Answer
  | [] => []
  | call :: rest => call.answer c :: answers (call.after c) rest

/-- The call asks for no bytes where nothing is left. -/
def AsksAtEnd (c : Cursor) : Call → Prop
  | data (some 0) _ => dataAhead c.rest = []
  | _ => False

/-- No call asks for no bytes where nothing is left. -/
def KeepInRange (c : Cursor) (calls : List Call) : Prop :=
  ∀ before call later, calls = before ++ call :: later → ¬ call.AsksAtEnd (afterAll c before)

section Calls

variable {c : Cursor} {call : Call} {calls : List Call}

theorem missingSegment_iff (c : Cursor) (length : Option Nat) (marker : Option (List UInt8)) :
    (c.inlineData length marker).1 = .error .missingSegment ↔
      (data length marker).AsksAtEnd c := by
  cases length with
  | some n =>
    rw [inlineData_take]
    cases n with
    | zero => simp [AsksAtEnd]
    | succ n =>
      refine iff_of_false ?_ id
      cases dataAhead c.rest with
      | nil => simp
      | cons b rest =>
        rw [if_neg (List.cons_ne_nil b rest)]
        split <;> simp
  | none =>
    refine iff_of_false ?_ id
    unfold Cursor.inlineData
    cases marker <;> simp only <;> split <;> simp

theorem does_perform (h : ¬ call.AsksAtEnd c) :
    Does call.perform c (call.answer c) (call.after c) := by
  cases call with
  | token => exact (does_token c).bind (.pure _ _)
  | data length marker =>
    have hmeets := inlineData_meets c length marker
    rw [← missingSegment_iff] at h
    rw [answer, after]
    generalize c.inlineData length marker = x at *
    obtain ⟨(_ | _) | data, c'⟩ := x
    · exact Does.bind hmeets (.pure _ _)
    · exact absurd rfl h
    · exact Does.bind hmeets (.pure _ _)

theorem perform_overruns (h : call.AsksAtEnd c) : Overruns call.perform c := by
  cases call with
  | token => cases h
  | data length marker =>
    have hmeets := inlineData_meets c length marker
    rw [← missingSegment_iff] at h
    generalize c.inlineData length marker = x at *
    obtain ⟨found, c'⟩ := x
    subst h
    exact Overruns.bind hmeets

theorem keepInRange_cons :
    KeepInRange c (call :: calls) ↔ ¬ call.AsksAtEnd c ∧ KeepInRange (call.after c) calls := by
  constructor
  · intro h
    refine ⟨h [] call calls rfl, ?_⟩
    rintro before call' later rfl
    exact h (call :: before) call' later rfl
  · rintro ⟨hcall, hcalls⟩ before call' later hsplit
    cases before with
    | nil =>
      cases hsplit
      exact hcall
    | cons first before =>
      cases hsplit
      exact hcalls before call' later rfl

theorem does_performAll (h : KeepInRange c calls) :
    Does (performAll calls) c (answers c calls) (afterAll c calls) := by
  induction calls generalizing c with
  | nil => exact .pure [] c
  | cons call calls ih =>
    obtain ⟨hcall, hcalls⟩ := keepInRange_cons.1 h
    exact (does_perform hcall).bind ((ih hcalls).bind (.pure _ _))

theorem performAll_overruns (h : ¬ KeepInRange c calls) : Overruns (performAll calls) c := by
  induction calls generalizing c with
  | nil =>
    refine absurd ?_ h
    intro before call later hsplit
    simp at hsplit
  | cons call calls ih =>
    by_cases hcall : call.AsksAtEnd c
    · exact (perform_overruns hcall).bind
    · have hcalls : ¬ KeepInRange (call.after c) calls :=
        fun hcalls => h (keepInRange_cons.2 ⟨hcall, hcalls⟩)
      exact (does_perform hcall).overruns (ih hcalls).bind

theorem afterAll_eq_advance (c : Cursor) (calls : List Call) :
    ∃ n, afterAll c calls = c.advance n := by
  induction calls generalizing c with
  | nil => exact ⟨0, rfl⟩
  | cons call calls ih =>
    have hcall : ∃ n, call.after c = c.advance n := by
      cases call with
      | token => exact Cursor.token?_eq_advance c
      | data length marker => exact Cursor.inlineData_eq_advance c length marker
    obtain ⟨n, hn⟩ := hcall
    obtain ⟨m, hm⟩ := ih (call.after c)
    exact ⟨n + m, by rw [Cursor.advance_add, ← hn]; exact hm⟩

theorem rest_afterAll (segments : List (List UInt8)) (calls : List Call) :
    (afterAll (Cursor.ofSegments segments) calls).rest =
      segments.flatten.drop (afterAll (Cursor.ofSegments segments) calls).offset := by
  obtain ⟨n, hn⟩ := afterAll_eq_advance (Cursor.ofSegments segments) calls
  rw [hn, Cursor.advance_rest, Cursor.advance_offset]
  show segments.flatten.drop n = segments.flatten.drop (0 + min n segments.flatten.length)
  rw [Nat.zero_add]
  rcases Nat.le_total n segments.flatten.length with hle | hge
  · rw [Nat.min_eq_left hle]
  · rw [Nat.min_eq_right hge, List.drop_length, List.drop_of_length_le hge]

/-- **Reads are in range and exact.** Whatever calls are made, one after the other, reading by places
comes to its end with the answers of the reader, except when a call asks for no bytes where nothing is
left, and only then. Data of a known length are exactly the bytes ahead. -/
theorem reads_in_range_exact (segments : List (List UInt8)) (calls : List Call) :
    let start := Cursor.ofSegments segments
    let c := afterAll start calls
    let ahead := dataAhead (segments.flatten.drop c.offset)
    (KeepInRange start calls ↔ ∃ g,
      Ends (performAll calls) (ofSegments segments) (answers start calls) g ∧ Stands g c) ∧
    (¬ KeepInRange start calls ↔ ∃ e, Fails (performAll calls) (ofSegments segments) e) ∧
    ∀ (n : Nat) (marker : Option (List UInt8)),
      (n ≤ ahead.length → ahead ≠ [] → (c.inlineData (some n) marker).1 = .ok (ahead.take n)) ∧
      (ahead.length < n → (c.inlineData (some n) marker).1 = .error .truncated) ∧
      (n = 0 → ahead = [] → (c.inlineData (some n) marker).1 = .error .missingSegment) := by
  intro start c ahead
  have hends (h : KeepInRange start calls) := does_performAll h _ (stands_start segments)
  have hfails (h : ¬ KeepInRange start calls) := performAll_overruns h _ (stands_start segments)
  refine ⟨⟨hends, ?_⟩, ⟨hfails, ?_⟩, ?_⟩
  · rintro ⟨g, hg, -⟩
    by_contra h
    obtain ⟨e, he⟩ := hfails h
    exact hg.not_fails he
  · rintro ⟨e, he⟩ h
    obtain ⟨g, hg, -⟩ := hends h
    exact hg.not_fails he
  · intro n marker
    rw [inlineData_take, rest_afterAll]
    refine ⟨?_, ?_, ?_⟩
    · intro hn hne
      rw [if_neg (Nat.not_lt.2 hn), if_neg hne]
    · intro hlt
      rw [if_pos hlt]
    · rintro rfl hnil
      rw [if_neg (Nat.not_lt_zero _), if_pos hnil]

/-- From no content not even no bytes can be read. -/
theorem empty_read_of_no_content :
    ((Cursor.ofSegments []).inlineData (some 0) none).1 = .error .missingSegment ∧
      ∃ e, Fails (performAll [data (some 0) none]) (ofSegments []) e := by
  have hasks : (data (some 0) none).AsksAtEnd (Cursor.ofSegments []) := rfl
  exact ⟨rfl, (perform_overruns hasks).bind _ (stands_start [])⟩

end Calls

end Call

end SegmentCursor

end ContentStream
