import ContentStream.Proofs.Locality
import ContentStream.Proofs.SegmentCursor

/-!
# Reading tokens by places

The tokens of content, read from places among segments instead of the bytes ahead: blanks are skipped
one segment after the other, strings are read byte by byte, and a run of regular bytes is cut out of
the segment at hand.

**Theorem (`does_token`).** Where a cursor stands, reading a token by places comes to its end with no
access out of range. It finds the token that the cursor finds, and the place behind it is the one where
the cursor stands then.

Each round of a loop reads one byte at least, so that a loop with more rounds than bytes ahead comes to
its end: its theorem is proved by induction on the rounds.
-/

namespace ContentStream

namespace SegmentCursor

open Token (octalValue packDigits unescapeName ofNumber ofWord startsNumber)

/-! ## Blanks -/

def skipCommentWithin : (rounds : Nat) → Reading Unit
  | 0 => unending
  | n + 1 => do
    let found ← peekAt 0
    match found with
    | none => pure ()
    | some b =>
      if Byte.isNewline b then pure ()
      else
        advance 1
        skipCommentWithin n

/-- Moves to the end of the line. -/
def skipComment : Reading Unit := loop skipCommentWithin

def skipBlanksWithin : (rounds : Nat) → Reading Unit
  | 0 => unending
  | n + 1 => do
    normalize
    let bytes ← here
    if bytes = [] then pure ()
    else
      match bytes.dropWhile Byte.isBlank with
      | [] =>
        advance bytes.length
        skipBlanksWithin n
      | b :: _ =>
        if b = 37 then
          advance ((bytes.takeWhile Byte.isBlank).length + 1)
          skipComment
          skipBlanksWithin n
        else advance (bytes.takeWhile Byte.isBlank).length

/-- Moves to the start of the next token, one segment after the other. -/
def skipBlanks : Reading Unit := loop skipBlanksWithin

/-! ## Tokens -/

def octalDigits : (limit : Nat) → Reading (List UInt8)
  | 0 => pure []
  | n + 1 => do
    let found ← peekAt 0
    match found with
    | none => pure []
    | some b =>
      if Byte.isOctal b then
        advance 1
        let later ← octalDigits n
        pure (b :: later)
      else pure []

def skipLineFeed : Reading Unit := do
  let found ← peekAt 0
  if found = some 10 then advance 1 else pure ()

def escape : Reading (Option (List UInt8)) := do
  let found ← advanceOne
  match found with
  | none => pure none
  | some b =>
    if b = 13 then
      skipLineFeed
      pure (some [])
    else if Byte.isOctal b then
      let digits ← octalDigits 2
      pure (some [(octalValue (b :: digits)).toUInt8])
    else pure ((Token.escape [b]).map Prod.fst)

def literalWithin : (rounds depth : Nat) → Reading (Option (List UInt8))
  | 0, _ => unending
  | n + 1, depth => do
    let found ← advanceOne
    match found with
    | none => pure none
    | some b =>
      if b = 40 then
        let later ← literalWithin n (depth + 1)
        pure (later.map ([b] ++ ·))
      else if b = 41 then
        match depth with
        | 0 => pure (some [])
        | d + 1 =>
          let later ← literalWithin n d
          pure (later.map ([b] ++ ·))
      else if b = 92 then
        let escaped ← escape
        match escaped with
        | none => pure none
        | some bytes =>
          let later ← literalWithin n depth
          pure (later.map (bytes ++ ·))
      else
        let later ← literalWithin n depth
        pure (later.map ([b] ++ ·))

def literal : Reading (Option (List UInt8)) := loop fun rounds => literalWithin rounds 0

def skipPastWithin (stop : UInt8) : (rounds : Nat) → Reading Unit
  | 0 => unending
  | n + 1 => do
    let found ← advanceOne
    match found with
    | none => pure ()
    | some b => if b = stop then pure () else skipPastWithin stop n

def skipPast (stop : UInt8) : Reading Unit := loop (skipPastWithin stop)

def hexDigitsWithin : (rounds : Nat) → Reading (Except TokenError (List Nat))
  | 0 => unending
  | n + 1 => do
    let found ← advanceOne
    match found with
    | none => pure (.error .truncated)
    | some b =>
      if b = 62 then pure (.ok [])
      else if Byte.isBlank b then hexDigitsWithin n
      else
        match Byte.hexValue? b with
        | some digit =>
          let later ← hexDigitsWithin n
          pure (later.map (digit :: ·))
        | none =>
          skipPast 62
          pure (.error (.malformed (.hexDigit b)))

def hexDigits : Reading (Except TokenError (List Nat)) := loop hexDigitsWithin

def name : Reading (Except TokenError Token) := do
  advance 1
  let run ← takeRun
  pure (.ok (.name (Utf8.decode (unescapeName run))))

def string : Reading (Except TokenError Token) := do
  advance 1
  let bytes ← literal
  pure (bytes.elim (.error .truncated) fun bytes => .ok (.string ⟨bytes, .literal⟩))

/-- Moves over a bracket of `n` bytes. -/
def mark (n : Nat) (found : Except TokenError Token) : Reading (Except TokenError Token) := do
  advance n
  pure found

def openAngle : Reading (Except TokenError Token) := do
  let found ← peekAt 1
  if found = some 60 then mark 2 (.ok (.mark .dictOpen))
  else
    advance 1
    let digits ← hexDigits
    pure (digits.map fun digits => .string ⟨packDigits digits, .hex⟩)

def closeAngle : Reading (Except TokenError Token) := do
  let found ← peekAt 1
  if found = some 62 then mark 2 (.ok (.mark .dictClose))
  else mark 1 (.error (.malformed .unexpectedClose))

def word (b : UInt8) : Reading (Except TokenError Token) := do
  let run ← takeRun
  pure (if startsNumber b then ofNumber run else .ok (ofWord run))

/-- Reads the token at the place, whose first byte is `b`. -/
def read (b : UInt8) : Reading (Except TokenError Token) :=
  if b = 47 then name
  else if b = 40 then string
  else if b = 60 then openAngle
  else if b = 62 then closeAngle
  else if b = 41 then mark 1 (.error (.malformed (.unbalanced ")")))
  else if b = 91 then mark 1 (.ok (.mark .arrayOpen))
  else if b = 93 then mark 1 (.ok (.mark .arrayClose))
  else if b = 123 then mark 1 (.ok (.mark .procOpen))
  else if b = 125 then mark 1 (.ok (.mark .procClose))
  else word b

def token : Reading (Option (Nat × Except TokenError Token)) := do
  skipBlanks
  let done ← atEnd
  if done then pure none
  else
    let offset ← tell
    let found ← peek
    match found with
    | none => pure none
    | some b =>
      let token ← read b
      pure (some (offset, token))

/-! ## Blanks in range -/

section Blanks

variable {c : Cursor} {n : Nat}

theorem rest_advance_one {b : UInt8} {rest : List UInt8} (h : c.rest = b :: rest) :
    (c.advance 1).rest = rest := by simp [h]

/-- Behind one byte, one round fewer is enough. -/
theorem length_advance_one {b : UInt8} {rest : List UInt8} (hrest : c.rest = b :: rest)
    (h : c.rest.length < n + 1) : (c.advance 1).rest.length < n := by
  rw [hrest, List.length_cons] at h
  rw [rest_advance_one hrest]
  exact Nat.lt_of_succ_lt_succ h

/-- How many bytes are left of the line. -/
def lineLength (bytes : List UInt8) : Nat := (bytes.takeWhile (!Byte.isNewline ·)).length

/-- Behind a comment the blanks go on with the end of its line. -/
theorem blankLength_line (bytes : List UInt8) :
    Cursor.blankLength true bytes =
      lineLength bytes + Cursor.blankLength false (bytes.drop (lineLength bytes)) := by
  induction bytes with
  | nil => rfl
  | cons b rest ih =>
    by_cases hb : Byte.isNewline b = true
    · have hblank : Byte.isBlank b = true ∧ b ≠ 37 := by
        rw [Byte.isNewline, Bool.or_eq_true, beq_iff_eq, beq_iff_eq] at hb
        rcases hb with rfl | rfl
        · exact ⟨rfl, by decide⟩
        · exact ⟨rfl, by decide⟩
      simp [Cursor.blankLength, lineLength, hb, hblank]
    · have hline : lineLength (b :: rest) = lineLength rest + 1 := by simp [lineLength, hb]
      rw [hline, List.drop_succ_cons, Cursor.blankLength, if_pos rfl]
      simp only [hb, Bool.not_false, ih]
      omega

theorem does_skipCommentWithin {rounds : Nat} (h : c.rest.length < rounds) :
    Does (skipCommentWithin rounds) c () (c.advance (lineLength c.rest)) := by
  induction rounds generalizing c with
  | zero => cases h
  | succ n ih =>
    cases hrest : c.rest with
    | nil => exact (peek?_nil hrest 0 ▸ does_peekAt c 0).bind (.pure () c)
    | cons b rest =>
      refine (peek?_cons hrest ▸ does_peekAt c 0).bind ?_
      have hnext := rest_advance_one hrest
      by_cases hb : Byte.isNewline b = true
      · simp only [hb, if_true, lineLength, List.takeWhile_cons, Bool.not_true]
        exact .pure () c
      · have hlater := ih (length_advance_one hrest h)
        have hline : lineLength (b :: rest) = lineLength rest + 1 := by simp [lineLength, hb]
        rw [hnext, advance_advance, ← hline] at hlater
        simp only [hb]
        exact (does_advance c 1).bind hlater

theorem does_skipComment (c : Cursor) : Does skipComment c () (c.advance (lineLength c.rest)) :=
  does_loop fun _ h => does_skipCommentWithin h

theorem blankLength_blanks {blanks : List UInt8} (h : ∀ b ∈ blanks, Byte.isBlank b = true)
    (rest : List UInt8) :
    Cursor.blankLength false (blanks ++ rest) =
      blanks.length + Cursor.blankLength false rest := by
  induction blanks with
  | nil => simp
  | cons b blanks ih =>
    have hb : Byte.isBlank b = true := h b List.mem_cons_self
    have hne : b ≠ 37 := by
      rintro rfl
      cases hb
    simp [Cursor.blankLength, hb, hne, ih fun b hb => h b (List.mem_cons_of_mem _ hb)]
    omega

theorem blankLength_comment {blanks : List UInt8} (h : ∀ b ∈ blanks, Byte.isBlank b = true)
    (rest : List UInt8) :
    Cursor.blankLength false (blanks ++ 37 :: rest) =
      blanks.length + 1 + Cursor.blankLength true rest := by
  rw [blankLength_blanks h, Cursor.blankLength]
  simp
  omega

theorem blankLength_token {blanks : List UInt8} {b : UInt8}
    (h : ∀ b ∈ blanks, Byte.isBlank b = true) (hblank : Byte.isBlank b = false) (hb : b ≠ 37)
    (rest : List UInt8) : Cursor.blankLength false (blanks ++ b :: rest) = blanks.length := by
  rw [blankLength_blanks h, Cursor.blankLength]
  simp [hblank, hb]

/-- Blanks may be skipped in two goes. -/
theorem skipBlanks_advance
    (h : Cursor.blankLength false c.rest = n + Cursor.blankLength false (c.rest.drop n)) :
    (c.advance n).skipBlanks = c.skipBlanks := by
  rw [Cursor.skipBlanks, Cursor.skipBlanks, h, Cursor.advance_add, Cursor.advance_rest]

theorem does_skipBlanksWithin {rounds : Nat} (h : c.rest.length < rounds) :
    Does (skipBlanksWithin rounds) c () c.skipBlanks := by
  induction rounds generalizing c with
  | zero => cases h
  | succ n ih =>
  refine .of_place fun g hg => (does_normalize c).bind ((does_here c).bind ?_)
  have hempty := hg.rest_eq_nil
  have hrest : c.rest.take c.room ++ c.rest.drop c.room = c.rest := List.take_append_drop ..
  generalize c.rest.take c.room = bytes at *
  generalize c.rest.drop c.room = tail at *
  by_cases hnil : bytes = []
  · have hskip : c.skipBlanks = c := advance_of_nil (hempty hnil) _
    rw [if_pos hnil, hskip]
    exact .pure () c
  -- Each round leaves fewer bytes ahead.
  have hfewer (k : Nat) (hk : 0 < k) : (c.advance k).rest.length < n := by
    have hpos := List.length_pos_iff.2 hnil
    have hlength := congrArg List.length hrest
    rw [List.length_append] at hlength
    rw [Cursor.advance_rest, List.length_drop]
    omega
  have hblanks : ∀ b ∈ bytes.takeWhile Byte.isBlank, Byte.isBlank b = true :=
    fun b hb => List.mem_takeWhile_imp hb
  have hsplit := List.takeWhile_append_dropWhile (p := Byte.isBlank) (l := bytes)
  rw [if_neg hnil]
  cases hdrop : bytes.dropWhile Byte.isBlank with
  | nil =>
    -- The segment is blank up to its end.
    rw [hdrop, List.append_nil] at hsplit
    rw [hsplit] at hblanks
    have hskip : (c.advance bytes.length).skipBlanks = c.skipBlanks := by
      refine skipBlanks_advance ?_
      rw [← hrest, blankLength_blanks hblanks, List.drop_left]
    rw [← hskip]
    exact (does_advance c _).bind (ih (hfewer _ (List.length_pos_iff.2 hnil)))
  | cons b later =>
    generalize bytes.takeWhile Byte.isBlank = blanks at *
    have hahead : c.rest = blanks ++ b :: (later ++ tail) := by
      rw [← hrest, ← hsplit, hdrop, List.append_assoc, List.cons_append]
    by_cases hb : b = 37
    · subst hb
      have hbehind : c.rest.drop (blanks.length + 1) = later ++ tail := by
        rw [hahead]
        simp
      have hcomment := does_skipComment (c.advance (blanks.length + 1))
      rw [Cursor.advance_rest, hbehind, ← Cursor.advance_add] at hcomment
      have hskip : (c.advance (blanks.length + 1 + lineLength (later ++ tail))).skipBlanks =
          c.skipBlanks := by
        refine skipBlanks_advance ?_
        rw [← List.drop_drop, hbehind, hahead, blankLength_comment hblanks, blankLength_line,
          ← Nat.add_assoc]
      rw [← hskip]
      exact (does_advance c _).bind (hcomment.bind (ih (hfewer _ (by omega))))
    · have hblank : Byte.isBlank b = false := by
        have hhead := List.head?_dropWhile_not Byte.isBlank bytes
        rw [hdrop] at hhead
        simpa using hhead
      have hskip : c.skipBlanks = c.advance blanks.length := by
        rw [Cursor.skipBlanks, hahead, blankLength_token hblanks hblank hb]
      rw [hskip]
      simp only [if_neg hb]
      exact does_advance c _

theorem does_skipBlanks (c : Cursor) : Does skipBlanks c () c.skipBlanks :=
  does_loop fun _ h => does_skipBlanksWithin h

end Blanks

/-! ## Strings in range -/

/-- What is looked for is found behind so many bytes, or else nothing is left ahead. -/
def Finds {α : Type} (m : Reading (Option α)) (c : Cursor) (x : Option (α × Nat)) : Prop :=
  Does m c (x.map Prod.fst) (c.advance (x.elim c.rest.length Prod.snd))

theorem Finds.more {α β : Type} {m : Reading (Option α)} {c : Cursor} {n : Nat}
    {x : Option (α × Nat)} (h : Finds m (c.advance n) x) (hn : n ≤ c.rest.length) (f : α → β) :
    Does (m >>= fun later => pure (later.map f)) (c.advance n)
      ((x.map fun found => (f found.1, found.2 + n)).map Prod.fst)
      (c.advance ((x.map fun found => (f found.1, found.2 + n)).elim c.rest.length Prod.snd)) := by
  rw [Finds, ← Cursor.advance_add] at h
  cases x with
  | none =>
    have hend : n + (c.advance n).rest.length = c.rest.length := by
      rw [Cursor.advance_rest, List.length_drop]
      omega
    simp only [Option.elim_none, hend] at h
    exact h.bind (.pure none _)
  | some found =>
    simp only [Option.elim_some, Option.map_some, Nat.add_comm n] at h
    exact h.bind (.pure _ _)

section Strings

variable {c : Cursor} {b : UInt8} {rest : List UInt8} {n : Nat}

theorem does_octalDigits (c : Cursor) (n : Nat) :
    Does (octalDigits n) c ((c.rest.take n).takeWhile Byte.isOctal)
      (c.advance ((c.rest.take n).takeWhile Byte.isOctal).length) := by
  induction n generalizing c with
  | zero => exact .pure [] c
  | succ n ih =>
    cases hrest : c.rest with
    | nil => exact (peek?_nil hrest 0 ▸ does_peekAt c 0).bind (.pure [] c)
    | cons b rest =>
      refine (peek?_cons hrest ▸ does_peekAt c 0).bind ?_
      by_cases hb : Byte.isOctal b = true
      · have hlater := ih (c.advance 1)
        rw [rest_advance_one hrest, advance_advance] at hlater
        simp only [hb, if_true, List.take_succ_cons, List.takeWhile_cons_of_pos, List.length_cons]
        exact (does_advance c 1).bind (hlater.bind (.pure _ _))
      · simp only [hb, List.take_succ_cons, List.takeWhile_cons_of_neg, Bool.false_eq_true,
          not_false_eq_true, List.length_nil, if_false]
        exact .pure [] c

theorem does_skipLineFeed (c : Cursor) :
    Does skipLineFeed c () (c.advance (if c.peek? 0 = some 10 then 1 else 0)) := by
  refine (does_peekAt c 0).bind ?_
  by_cases hfeed : c.peek? 0 = some 10
  · simp only [if_pos hfeed]
    exact does_advance c 1
  · simp only [if_neg hfeed]
    exact .pure () c

/-- Any other byte is an escape by itself. -/
theorem escape_single (hreturn : b ≠ 13) (hoctal : Byte.isOctal b = false) (rest : List UInt8) :
    ∃ bytes, Token.escape [b] = some (bytes, 1) ∧
      Token.escape (b :: rest) = some (bytes, 1) := by
  by_cases hnamed : b ∈ [110, 114, 116, 98, 102, 10]
  · simp only [List.mem_cons, List.not_mem_nil, or_false] at hnamed
    rcases hnamed with rfl | rfl | rfl | rfl | rfl | rfl <;> exact ⟨_, rfl, rfl⟩
  · have hplain (later : List UInt8) : Token.escape (b :: later) = some ([b], 1) := by
      simp only [List.mem_cons, List.not_mem_nil, or_false, not_or] at hnamed
      simp [Token.escape, hnamed, hreturn, hoctal]
    exact ⟨[b], hplain [], hplain rest⟩

theorem escape_return (rest : List UInt8) :
    Token.escape (13 :: rest) = some ([], 1 + if rest.head? = some 10 then 1 else 0) := by
  cases rest with
  | nil => rfl
  | cons b rest =>
    by_cases hb : b = 10
    · subst hb
      rfl
    · simp [Token.escape, hb]

theorem does_escape (c : Cursor) :
    Does escape c ((Token.escape c.rest).map Prod.fst)
      (c.advance ((Token.escape c.rest).elim 0 Prod.snd)) := by
  cases hrest : c.rest with
  | nil => exact (does_advanceOne_nil hrest).bind (.pure none c)
  | cons b rest =>
    refine (does_advanceOne_cons hrest).bind ?_
    have hnext := rest_advance_one hrest
    by_cases hreturn : b = 13
    · subst hreturn
      have hfeed := does_skipLineFeed (c.advance 1)
      rw [Cursor.peek?, hnext, ← List.head?_eq_getElem?, ← Cursor.advance_add] at hfeed
      rw [escape_return]
      exact hfeed.bind (.pure _ _)
    · by_cases hoctal : Byte.isOctal b = true
      · have hdigits := does_octalDigits (c.advance 1) 2
        rw [hnext, advance_advance] at hdigits
        simp only [if_neg hreturn, hoctal, if_true, Token.escape_octal hoctal]
        exact hdigits.bind (.pure _ _)
      · obtain ⟨bytes, hsingle, hescape⟩ := escape_single hreturn (Bool.not_eq_true _ ▸ hoctal) rest
        simp only [if_neg hreturn, hoctal, hsingle, hescape]
        exact .pure _ _

theorem escape_used {bytes : List UInt8} (h : Token.escape rest = some (bytes, n)) :
    n ≤ rest.length := by
  cases rest with
  | nil => cases h
  | cons b rest =>
    by_cases hreturn : b = 13
    · subst hreturn
      rw [escape_return] at h
      cases h
      cases rest with
      | nil => simp
      | cons b rest => split <;> simp
    by_cases hoctal : Byte.isOctal b = true
    · rw [Token.escape_octal hoctal] at h
      cases h
      have hprefix := (List.takeWhile_prefix (l := rest.take 2) Byte.isOctal).length_le
      simp only [List.length_take, List.length_cons] at hprefix ⊢
      omega
    · obtain ⟨bytes', -, hescape⟩ := escape_single hreturn (Bool.not_eq_true _ ▸ hoctal) rest
      cases hescape.symm.trans h
      simp

theorem eq_nil_of_escape (h : Token.escape rest = none) : rest = [] := by
  unfold Token.escape at h
  split at h
  · rfl
  case h_10 => split at h <;> cases h
  all_goals cases h

theorem readMore_eq_map (bytes : List UInt8) (x : Option (List UInt8 × Nat)) :
    Token.readMore bytes x = x.map fun found => (bytes ++ found.1, found.2 + 1) := by
  cases x <;> rfl

theorem readLiteral_skip {depth : Nat} (h : n ≤ rest.length) :
    Token.readLiteral n depth rest =
      (Token.readLiteral 0 depth (rest.drop n)).map fun found => (found.1, found.2 + n) := by
  induction n generalizing rest with
  | zero => simp
  | succ n ih =>
    cases rest with
    | nil => cases h
    | cons b rest =>
      rw [Token.readLiteral, ih (Nat.le_of_succ_le_succ h), readMore_eq_map, List.drop_succ_cons,
        Option.map_map]
      rfl

theorem finds_literalWithin {rounds : Nat} (h : c.rest.length < rounds) (depth : Nat) :
    Finds (literalWithin rounds depth) c (Token.readLiteral 0 depth c.rest) := by
  induction rounds generalizing c depth with
  | zero => cases h
  | succ n ih =>
  unfold Finds
  cases hrest : c.rest with
  | nil => exact (does_advanceOne_nil hrest).bind (.pure none c)
  | cons b rest =>
    refine (does_advanceOne_cons hrest).bind ?_
    have hnext := rest_advance_one hrest
    have hfewer (k : Nat) : (c.advance (1 + k)).rest.length < n := by
      rw [hrest, List.length_cons] at h
      rw [Cursor.advance_add, Cursor.advance_rest, hnext, List.length_drop]
      omega
    have hlater (d : Nat) := (ih (hfewer 0) d).more (by simp [hrest]) ([b] ++ ·)
    simp only [Nat.add_zero, hnext, ← readMore_eq_map, hrest] at hlater
    by_cases hopen : b = 40
    · simp only [if_pos hopen, Token.readLiteral_open hopen]
      exact hlater (depth + 1)
    by_cases hclose : b = 41
    · subst hclose
      cases depth with
      | zero => exact .pure (some []) _
      | succ d => exact hlater d
    by_cases hescape : b = 92
    · simp only [if_neg hopen, if_neg hclose, if_pos hescape]
      have hescaped := does_escape (c.advance 1)
      rw [hnext, ← Cursor.advance_add] at hescaped
      cases hfound : Token.escape rest with
      | none =>
        rw [hfound] at hescaped
        obtain rfl := eq_nil_of_escape hfound
        subst hescape
        have hnone : Token.readLiteral 0 depth [92] = none := by cases depth <;> rfl
        rw [hnone]
        exact hescaped.bind (.pure none _)
      | some found =>
        rw [hfound] at hescaped
        obtain ⟨bytes, used⟩ := found
        have hused := escape_used hfound
        have hbehind : (c.advance (1 + used)).rest = rest.drop used := by
          rw [Cursor.advance_add, Cursor.advance_rest, hnext]
        have hmore := (ih (hfewer used) depth).more
          (by rw [hrest, List.length_cons]; omega) (bytes ++ ·)
        have hread : Token.readLiteral 0 depth (b :: rest) =
            (Token.readLiteral 0 depth (rest.drop used)).map
              fun found => (bytes ++ found.1, found.2 + (1 + used)) := by
          rw [Token.readLiteral_escape hescape hfound, readLiteral_skip hused, readMore_eq_map,
            Option.map_map]
          simp only [Function.comp_def, Nat.add_assoc, Nat.add_comm used 1]
        rw [hbehind, ← hread, hrest] at hmore
        exact hescaped.bind hmore
    · simp only [if_neg hopen, if_neg hclose, if_neg hescape,
        Token.readLiteral_plain hopen hclose hescape]
      exact hlater depth

theorem finds_literal (c : Cursor) : Finds literal c (Token.readLiteral 0 0 c.rest) :=
  does_loop fun _ h => finds_literalWithin h 0

/-- The digits of a hexadecimal string, byte by byte. -/
def digitsOf : List UInt8 → Except TokenError (List Nat)
  | [] => .error .truncated
  | b :: rest =>
    if b = 62 then .ok []
    else if Byte.isBlank b then digitsOf rest
    else
      match Byte.hexValue? b with
      | some digit => (digitsOf rest).map (digit :: ·)
      | none => .error (.malformed (.hexDigit b))

theorem hexValue?_of_isBlank (h : Byte.isBlank b = true) : Byte.hexValue? b = none := by
  simp only [Byte.isBlank, Bool.or_eq_true, beq_iff_eq] at h
  rcases h with ((((rfl | rfl) | rfl) | rfl) | rfl) | rfl <;> rfl

theorem digitsOf_eq (bytes : List UInt8) :
    digitsOf bytes =
      match (bytes.takeWhile (· != 62)).find?
        (fun b => !Byte.isBlank b && (Byte.hexValue? b).isNone) with
      | some b => .error (.malformed (.hexDigit b))
      | none =>
        if (bytes.takeWhile (· != 62)).length < bytes.length then
          .ok ((bytes.takeWhile (· != 62)).filterMap Byte.hexValue?)
        else .error .truncated := by
  induction bytes with
  | nil => rfl
  | cons b rest ih =>
    rw [digitsOf]
    by_cases hb : b = 62
    · simp [hb]
    rw [if_neg hb, List.takeWhile_cons_of_pos (by simpa using hb)]
    by_cases hblank : Byte.isBlank b = true
    · simp [hblank, hexValue?_of_isBlank hblank, ih]
    · cases hvalue : Byte.hexValue? b with
      | none => simp [hblank, hvalue]
      | some digit =>
        rw [if_neg hblank, List.find?_cons_of_neg (by simp [hvalue]),
          List.filterMap_cons_some hvalue, ih]
        cases (rest.takeWhile (· != 62)).find?
            (fun b => !Byte.isBlank b && (Byte.hexValue? b).isNone) with
        | some b => rfl
        | none =>
          simp only [List.length_cons, Nat.add_lt_add_iff_right]
          split <;> rfl

theorem readHex_eq (bytes : List UInt8) :
    (Token.readHex bytes).1 = (digitsOf bytes).map packDigits := by
  rw [digitsOf_eq, Token.readHex]
  cases (bytes.takeWhile (· != 62)).find?
      (fun b => !Byte.isBlank b && (Byte.hexValue? b).isNone) with
  | some b => rfl
  | none =>
    simp only
    split <;> rfl

theorem readHex_used (hb : b ≠ 62) (rest : List UInt8) :
    (Token.readHex (b :: rest)).2 = (Token.readHex rest).2 + 1 := by
  have hused (bytes : List UInt8) : (Token.readHex bytes).2 =
      if (bytes.takeWhile (· != 62)).length < bytes.length then
        (bytes.takeWhile (· != 62)).length + 1
      else (bytes.takeWhile (· != 62)).length := by
    rw [Token.readHex]
    split
    · simp
    · split <;> simp_all
  rw [hused, hused, List.takeWhile_cons_of_pos (by simpa using hb)]
  simp only [List.length_cons, Nat.add_lt_add_iff_right]
  split <;> rfl

theorem does_skipPastWithin {rounds : Nat} (h : c.rest.length < rounds) :
    Does (skipPastWithin 62 rounds) c () (c.advance (Token.readHex c.rest).2) := by
  induction rounds generalizing c with
  | zero => cases h
  | succ n ih =>
    cases hrest : c.rest with
    | nil => exact (does_advanceOne_nil hrest).bind (.pure () c)
    | cons b rest =>
      refine (does_advanceOne_cons hrest).bind ?_
      by_cases hb : b = 62
      · subst hb
        exact .pure () _
      · have hlater := ih (length_advance_one hrest h)
        rw [rest_advance_one hrest, advance_advance] at hlater
        simp only [if_neg hb, readHex_used hb]
        exact hlater

theorem does_skipPast (c : Cursor) :
    Does (skipPast 62) c () (c.advance (Token.readHex c.rest).2) :=
  does_loop fun _ h => does_skipPastWithin h

theorem does_hexDigitsWithin {rounds : Nat} (h : c.rest.length < rounds) :
    Does (hexDigitsWithin rounds) c (digitsOf c.rest) (c.advance (Token.readHex c.rest).2) := by
  induction rounds generalizing c with
  | zero => cases h
  | succ n ih =>
    cases hrest : c.rest with
    | nil => exact (does_advanceOne_nil hrest).bind (.pure _ c)
    | cons b rest =>
      refine (does_advanceOne_cons hrest).bind ?_
      by_cases hb : b = 62
      · subst hb
        exact .pure (Except.ok []) _
      have hnext := rest_advance_one hrest
      have hlater := ih (length_advance_one hrest h)
      rw [hnext, advance_advance] at hlater
      rw [digitsOf, readHex_used hb]
      simp only [if_neg hb]
      by_cases hblank : Byte.isBlank b = true
      · simp only [hblank, if_true]
        exact hlater
      · simp only [hblank]
        cases hvalue : Byte.hexValue? b with
        | none =>
          have hpast := does_skipPast (c.advance 1)
          rw [hnext, advance_advance] at hpast
          exact hpast.bind (.pure _ _)
        | some digit => exact hlater.bind (.pure _ _)

theorem does_hexDigits (c : Cursor) :
    Does hexDigits c (digitsOf c.rest) (c.advance (Token.readHex c.rest).2) :=
  does_loop fun _ h => does_hexDigitsWithin h

end Strings

/-! ## Tokens in range -/

section Tokens

variable {c : Cursor} {b : UInt8} {rest : List UInt8}

/-- Reading the token that starts with this byte. -/
def DoesRead (m : Reading (Except TokenError Token)) (c : Cursor) (b : UInt8) : Prop :=
  Does m c (Token.read c b).1 (c.advance ((Token.read c b).2 + 1))

theorem does_name (c : Cursor) : DoesRead name c 47 := by
  have hrun := does_takeRun (c.advance 1)
  rw [advance_advance] at hrun
  exact (does_advance c 1).bind (hrun.bind (.pure _ _))

theorem does_string (c : Cursor) : DoesRead string c 40 := by
  have hfinds := finds_literal (c.advance 1)
  rw [Finds, advance_advance] at hfinds
  have hnext : (c.advance 1).rest = c.next.rest := rfl
  refine (does_advance c 1).bind (hfinds.bind ?_)
  rw [hnext]
  cases hfound : Token.readLiteral 0 0 c.next.rest with
  | none =>
    have hread : Token.read c 40 = (.error .truncated, c.next.rest.length) := by
      simp [Token.read, hfound]
    rw [hread]
    exact .pure _ _
  | some found =>
    have hread : Token.read c 40 = (.ok (.string ⟨found.1, .literal⟩), found.2) := by
      simp [Token.read, hfound]
    rw [hread]
    exact .pure _ _

theorem does_mark (c : Cursor) (n : Nat) (found : Except TokenError Token) :
    Does (mark n found) c found (c.advance n) :=
  (does_advance c n).bind (.pure _ _)

theorem does_openAngle (c : Cursor) : DoesRead openAngle c 60 := by
  refine (does_peekAt c 1).bind ?_
  by_cases hopen : c.peek? 1 = some 60
  · have hread : Token.read c 60 = (.ok (.mark .dictOpen), 1) := by simp [Token.read, hopen]
    rw [if_pos hopen, hread]
    exact does_mark c 2 _
  · have hread : Token.read c 60 =
        ((Token.readHex (c.advance 1).rest).1.map fun bytes => .string ⟨bytes, .hex⟩,
          (Token.readHex (c.advance 1).rest).2) := by
      simp [Token.read, hopen, Cursor.next_rest]
    have hdigits := does_hexDigits (c.advance 1)
    rw [advance_advance] at hdigits
    rw [if_neg hopen, hread, readHex_eq]
    refine (does_advance c 1).bind (hdigits.bind ?_)
    cases digitsOf (c.advance 1).rest with
    | error e => exact .pure _ _
    | ok digits => exact .pure _ _

theorem does_closeAngle (c : Cursor) : DoesRead closeAngle c 62 := by
  refine (does_peekAt c 1).bind ?_
  by_cases hclose : c.peek? 1 = some 62
  · have hread : Token.read c 62 = (.ok (.mark .dictClose), 1) := by simp [Token.read, hclose]
    rw [if_pos hclose, hread]
    exact does_mark c 2 _
  · have hread : Token.read c 62 = (.error (.malformed .unexpectedClose), 0) := by
      simp [Token.read, hclose]
    rw [if_neg hclose, hread]
    exact does_mark c 1 _

theorem run_ne_nil (h : c.rest = b :: rest) (hroom : 0 < c.room) (hb : Byte.isRegular b = true) :
    c.run ≠ [] := by
  obtain ⟨n, hn⟩ := Nat.exists_eq_succ_of_ne_zero (Nat.ne_of_gt hroom)
  rw [run_eq, h, hn, List.take_succ_cons, List.takeWhile_cons_of_pos hb]
  exact List.cons_ne_nil _ _

/-- A regular byte starts a number or a word, which is the run. -/
theorem read_regular (hb : Byte.isRegular b = true) (c : Cursor) :
    Token.read c b =
      (if startsNumber b then ofNumber c.run else .ok (ofWord c.run), c.run.length - 1) := by
  have hdelimiter : Byte.isDelimiter b = false := by
    rw [Byte.isRegular, Bool.and_eq_true] at hb
    simpa using hb.2
  simp only [Byte.isDelimiter, Bool.or_eq_false_iff] at hdelimiter
  simp [Token.read, hdelimiter]

theorem does_word (h : c.rest = b :: rest) (hb : Byte.isRegular b = true) :
    DoesRead (word b) c b := by
  refine .of_place fun g hg => ?_
  have hrun := List.length_pos_iff.2 (run_ne_nil h (hg.room_pos (by simp [h])) hb)
  rw [read_regular hb, Nat.sub_add_cancel hrun]
  exact (does_takeRun c).bind (.pure _ _)

theorem does_read (h : c.rest = b :: rest) (hblank : Byte.isBlank b = false) (hb : b ≠ 37) :
    DoesRead (read b) c b := by
  by_cases hopening : b ∈ Token.opening
  · simp only [Token.opening, List.mem_cons, List.not_mem_nil, or_false] at hopening
    rcases hopening with rfl | rfl | rfl | rfl | rfl | rfl | rfl | rfl | rfl
    · exact does_name c
    · exact does_string c
    · exact does_openAngle c
    · exact does_closeAngle c
    all_goals exact does_mark c 1 _
  · simp only [Token.opening, List.mem_cons, List.not_mem_nil, or_false, not_or] at hopening
    have hword : read b = word b := by simp [read, hopening]
    rw [hword]
    exact does_word h (by simp [Byte.isRegular, Byte.isDelimiter, hblank, hb, hopening])

/-- Behind the blanks neither a blank nor a comment is ahead. -/
theorem of_drop_blankLength {inComment : Bool} {bytes : List UInt8}
    (h : bytes.drop (Cursor.blankLength inComment bytes) = b :: rest) :
    Byte.isBlank b = false ∧ b ≠ 37 := by
  fun_induction Cursor.blankLength inComment bytes with
  | case1 => cases h
  | case2 b' later ih => exact ih h
  | case3 _ b' later hcomment hb' ih => exact ih h
  | case4 _ b' later hcomment hb' hblank ih => exact ih h
  | case5 _ b' later hcomment hb' hblank =>
    cases h
    simp_all

theorem does_token (c : Cursor) : Does token c c.token?.1 c.token?.2 := by
  refine (does_skipBlanks c).bind ((does_atEnd _).bind ?_)
  rw [Cursor.token?, Cursor.tokenHere?, Cursor.atEnd]
  cases hrest : c.skipBlanks.rest with
  | nil => exact .pure none _
  | cons b rest =>
    have hskip : c.rest.drop (Cursor.blankLength false c.rest) = b :: rest := by
      rw [← hrest, Cursor.skipBlanks, Cursor.advance_rest]
    obtain ⟨hblank, hb⟩ := of_drop_blankLength hskip
    refine (does_tell _).bind ((peek?_cons hrest ▸ does_peek _).bind ?_)
    exact Does.bind (does_read hrest hblank hb) (.pure _ _)

end Tokens

end SegmentCursor

end ContentStream
