import ContentStream.Proofs.Segments

/-!
# A token is read from its own bytes

What the reader finds at a place does not depend on what lies further on.

**Theorem (`token?_append`).** A token that is found in front of the end of the content is found in
front of any bytes at all. Only a run of regular bytes has no end of its own: a name, a number or a
word must be followed by a byte that is not regular (`EndsRun`).

So the items of two pieces of content can be put together token by token: `items_spelled` reads a
token that is spelled by some bytes (`Spelled`) and leaves the bytes behind it.
-/

namespace ContentStream

/-- There is no byte in front, or one that ends a run. -/
def Byte.EndsRun (bytes : List UInt8) : Prop := ∀ b ∈ bytes.head?, Byte.isRegular b = false

instance (bytes : List UInt8) : Decidable (Byte.EndsRun bytes) :=
  Option.decidableForallMem bytes.head?

theorem Byte.endsRun_cons {b : UInt8} (h : isRegular b = false) (bytes : List UInt8) :
    EndsRun (b :: bytes) := by
  intro c hc
  cases hc
  exact h

theorem Byte.EndsRun.takeWhile {v : List UInt8} (h : EndsRun v) (u : List UInt8) :
    (u ++ v).takeWhile isRegular = u.takeWhile isRegular := by
  induction u with
  | nil =>
    cases v with
    | nil => rfl
    | cons b v => simp [h b rfl]
  | cons b u ih => simp only [List.cons_append, List.takeWhile_cons, ih]

namespace Cursor

/-- A cursor with these bytes ahead, in one piece. -/
def ahead (offset : Nat) (bytes : List UInt8) : Cursor := ⟨offset, bytes, []⟩

theorem ahead_run (o : Nat) (bytes : List UInt8) :
    (ahead o bytes).run = bytes.takeWhile Byte.isRegular := flat_run (ahead o bytes)

theorem ahead_advance {n : Nat} {bytes : List UInt8} (o : Nat) (h : n ≤ bytes.length) :
    (ahead o bytes).advance n = ahead (o + n) (bytes.drop n) := by
  induction n generalizing o bytes with
  | zero => rfl
  | succ n ih =>
    cases bytes with
    | nil => cases h
    | cons b bytes =>
      rw [advance, show (ahead o (b :: bytes)).next = ahead (o + 1) bytes from rfl,
        ih (o + 1) (Nat.le_of_succ_le_succ h), Nat.add_right_comm, List.drop_succ_cons]
      rfl

end Cursor

namespace Token

/-- Whether a token ends with a bracket of its own. -/
def isClosed : Token → Bool
  | string _ | mark _ => true
  | _ => false

/-! ## Strings -/

theorem readMore_eq_some {bytes later : List UInt8} {used : Nat} {x : Option (List UInt8 × Nat)}
    (h : readMore bytes x = some (later, used)) :
    ∃ rest n, x = some (rest, n) ∧ later = bytes ++ rest ∧ used = n + 1 := by
  cases x with
  | none => cases h
  | some x =>
    cases h
    exact ⟨_, _, rfl, rfl, rfl⟩

theorem escape_octal {b : UInt8} (hb : Byte.isOctal b = true) (rest : List UInt8) :
    escape (b :: rest) = some ([(octalValue (b :: (rest.take 2).takeWhile Byte.isOctal)).toUInt8],
      ((rest.take 2).takeWhile Byte.isOctal).length + 1) := by
  unfold escape
  split
  case h_10 heq =>
    cases heq
    rw [if_pos hb]
    rfl
  all_goals simp_all [Byte.isOctal]

/-- Behind its first byte, an escape looks at one more byte or at octal digits. -/
theorem escape_congr {b : UInt8} {u v : List UInt8} (hhead : u.head? = v.head?)
    (hoctal : Byte.isOctal b = true →
      (u.take 2).takeWhile Byte.isOctal = (v.take 2).takeWhile Byte.isOctal) :
    escape (b :: u) = escape (b :: v) := by
  by_cases hb : b = 13
  · subst hb
    cases u with
    | nil => rw [List.head?_eq_none_iff.1 hhead.symm]
    | cons c u =>
      obtain ⟨v, rfl⟩ := List.head?_eq_some_iff.1 hhead.symm
      by_cases hc : c = 10
      · subst hc
        rfl
      · simp [escape, hc]
  · unfold escape
    split <;> simp_all

theorem escape_pos {u bytes : List UInt8} {used : Nat} (h : escape u = some (bytes, used)) :
    0 < used := by
  unfold escape at h
  split at h
  case h_10 =>
    split at h <;> cases h <;> exact Nat.succ_pos _
  all_goals cases h
  all_goals decide

/-- An escape that is followed by something is the same in front of more. -/
theorem escape_append {u bytes : List UInt8} {used : Nat} (h : escape u = some (bytes, used))
    (hused : used < u.length) (v : List UInt8) : escape (u ++ v) = some (bytes, used) := by
  match u with
  | [] => cases h
  | [b] =>
    have := escape_pos h
    rw [List.length_singleton] at hused
    omega
  | [b, c] =>
    rw [← h]
    refine escape_congr rfl fun hb => ?_
    rw [escape_octal hb] at h
    cases h
    have hc : Byte.isOctal c = false := by
      by_contra hc
      simp_all
    simp [hc]
  | b :: c :: d :: rest =>
    rw [← h]
    exact escape_congr rfl fun _ => rfl

section Literal

variable {depth : Nat} {b : UInt8} {rest : List UInt8}

theorem readLiteral_open (h : b = 40) :
    readLiteral 0 depth (b :: rest) = readMore [b] (readLiteral 0 (depth + 1) rest) := by
  cases depth <;> simp [readLiteral, h]

theorem readLiteral_escape (h : b = 92) {bytes : List UInt8} {used : Nat}
    (hescape : escape rest = some (bytes, used)) :
    readLiteral 0 depth (b :: rest) = readMore bytes (readLiteral used depth rest) := by
  cases depth <;> simp [readLiteral, h, hescape]

theorem readLiteral_plain (hopen : b ≠ 40) (hclose : b ≠ 41) (hescape : b ≠ 92) :
    readLiteral 0 depth (b :: rest) = readMore [b] (readLiteral 0 depth rest) := by
  cases depth <;> simp [readLiteral, hopen, hclose, hescape]

end Literal

/-- A literal string ends with its parenthesis, whatever follows. -/
theorem readLiteral_append {skip depth used : Nat} {u bytes : List UInt8}
    (h : readLiteral skip depth u = some (bytes, used)) (v : List UInt8) :
    readLiteral skip depth (u ++ v) = some (bytes, used) ∧ skip < used ∧ used ≤ u.length := by
  fun_induction readLiteral skip depth u generalizing bytes used with
  | case1 => cases h
  | case2 depth n b rest ih =>
    obtain ⟨later, m, hrest, rfl, rfl⟩ := readMore_eq_some h
    obtain ⟨hmore, hskip, hle⟩ := ih hrest
    exact ⟨by rw [List.cons_append, readLiteral, hmore]; rfl, by omega, Nat.succ_le_succ hle⟩
  | case3 depth b rest hb ih =>
    obtain ⟨later, m, hrest, rfl, rfl⟩ := readMore_eq_some h
    obtain ⟨hmore, -, hle⟩ := ih hrest
    refine ⟨?_, by omega, Nat.succ_le_succ hle⟩
    rw [List.cons_append, readLiteral_open (eq_of_beq hb), hmore]
    rfl
  | case4 b rest hopen hb =>
    cases h
    refine ⟨?_, by omega, by simp⟩
    rw [List.cons_append, readLiteral, if_neg hopen, if_pos hb]
  | case5 b rest hopen hb d ih =>
    obtain ⟨later, m, hrest, rfl, rfl⟩ := readMore_eq_some h
    obtain ⟨hmore, -, hle⟩ := ih hrest
    refine ⟨?_, by omega, Nat.succ_le_succ hle⟩
    rw [List.cons_append, readLiteral, if_neg hopen, if_pos hb]
    simp only [hmore]
    rfl
  | case6 depth b rest hopen hclose hb escaped n hescape ih =>
    obtain ⟨later, m, hrest, rfl, rfl⟩ := readMore_eq_some h
    obtain ⟨hmore, hskip, hle⟩ := ih hrest
    have hsame := escape_append hescape (Nat.lt_of_lt_of_le hskip hle) v
    refine ⟨?_, by omega, Nat.succ_le_succ hle⟩
    rw [List.cons_append, readLiteral_escape (eq_of_beq hb) hsame, hmore]
    rfl
  | case7 => cases h
  | case8 depth b rest hopen hclose hb ih =>
    obtain ⟨later, m, hrest, rfl, rfl⟩ := readMore_eq_some h
    obtain ⟨hmore, -, hle⟩ := ih hrest
    refine ⟨?_, by omega, Nat.succ_le_succ hle⟩
    rw [beq_iff_eq] at hopen hclose hb
    rw [List.cons_append, readLiteral_plain hopen hclose hb, hmore]
    rfl

/-- A hexadecimal string ends with its bracket, whatever follows. -/
theorem readHex_append {u bytes : List UInt8} {used : Nat} (h : readHex u = (.ok bytes, used))
    (v : List UInt8) : readHex (u ++ v) = (.ok bytes, used) ∧ used ≤ u.length := by
  unfold readHex at h
  extract_lets body closed n at h
  split at h
  · cases h
  · rename_i hfind
    split at h
    · rename_i hclosed
      have hbody : (u ++ v).takeWhile (· != 62) = body := by
        rw [List.takeWhile_append, if_neg (Nat.ne_of_lt hclosed)]
      have hlonger : body.length < (u ++ v).length := by
        rw [List.length_append]
        exact Nat.lt_of_lt_of_le hclosed (Nat.le_add_right _ _)
      simp only [n, if_pos hclosed] at h
      refine ⟨by simp only [readHex, hbody, hfind, if_pos hlonger, h], ?_⟩
      cases h
      exact hclosed
    · cases h

/-! ## A token by its first byte -/

section FirstByte

open Cursor (ahead)

variable {o n : Nat} {b : UInt8} {u v : List UInt8} {t : Token}

theorem read_name : read (ahead o (47 :: u)) 47 =
    (.ok (.name (Utf8.decode (unescapeName (u.takeWhile Byte.isRegular)))),
      (u.takeWhile Byte.isRegular).length) := by
  rw [← Cursor.ahead_run (o + 1)]
  rfl

theorem read_literal : read (ahead o (40 :: u)) 40 =
    match readLiteral 0 0 u with
    | some (bytes, used) => (.ok (.string ⟨bytes, .literal⟩), used)
    | none => (.error .truncated, u.length) := rfl

theorem read_dictOpen : read (ahead o (60 :: 60 :: u)) 60 = (.ok (.mark .dictOpen), 1) := rfl

theorem read_hex (h : u.head? ≠ some 60) : read (ahead o (60 :: u)) 60 =
    ((readHex u).1.map fun bytes => .string ⟨bytes, .hex⟩, (readHex u).2) := by
  have hpeek : (ahead o (60 :: u)).peek? 1 = u.head? := List.head?_eq_getElem?.symm
  simp only [read, hpeek, beq_eq_false_iff_ne.2 h]
  rfl

theorem read_dictClose : read (ahead o (62 :: 62 :: u)) 62 = (.ok (.mark .dictClose), 1) := rfl

theorem read_unexpectedClose (h : u.head? ≠ some 62) : read (ahead o (62 :: u)) 62 =
    (.error (.malformed .unexpectedClose), 0) := by
  have hpeek : (ahead o (62 :: u)).peek? 1 = u.head? := List.head?_eq_getElem?.symm
  simp only [read, hpeek, beq_eq_false_iff_ne.2 h]
  rfl

/-- The bytes that start something else than a run. -/
def opening : List UInt8 := [47, 40, 60, 62, 41, 91, 93, 123, 125]

theorem read_run (h : b ∉ opening) : read (ahead o (b :: u)) b =
    (if startsNumber b then ofNumber ((b :: u).takeWhile Byte.isRegular)
      else .ok (ofWord ((b :: u).takeWhile Byte.isRegular)),
        ((b :: u).takeWhile Byte.isRegular).length - 1) := by
  simp only [opening, List.mem_cons, List.not_mem_nil, or_false, not_or, ← beq_eq_false_iff_ne] at h
  simp only [read, h, Cursor.ahead_run]
  rfl

/-! ## Any token -/

theorem isClosed_ofNumber {run : List UInt8} (h : ofNumber run = .ok t) : t.isClosed = false := by
  unfold ofNumber at h
  split at h
  · cases h
    rfl
  · cases h

theorem isClosed_ofWord (run : List UInt8) : (ofWord run).isClosed = false := by
  unfold ofWord
  split <;> rfl

theorem read_run_append (hb : b ∉ opening) (h : read (ahead o (b :: u)) b = (.ok t, n))
    (hv : t.isClosed = false → Byte.EndsRun v) :
    read (ahead o (b :: (u ++ v))) b = (.ok t, n) ∧ n ≤ u.length := by
  rw [read_run hb, Prod.mk.injEq] at h
  obtain ⟨h, rfl⟩ := h
  have hopen : t.isClosed = false := by
    split at h
    · exact isClosed_ofNumber h
    · cases h
      exact isClosed_ofWord _
  have hlength := (List.takeWhile_prefix (p := Byte.isRegular) (l := b :: u)).length_le
  rw [List.length_cons] at hlength
  rw [read_run hb, ← List.cons_append, (hv hopen).takeWhile, h]
  exact ⟨rfl, by omega⟩

theorem read_literal_append (h : read (ahead o (40 :: u)) 40 = (.ok t, n)) :
    read (ahead o (40 :: (u ++ v))) 40 = (.ok t, n) ∧ n ≤ u.length := by
  rw [read_literal] at h
  cases hread : readLiteral 0 0 u with
  | none =>
    rw [hread] at h
    cases h
  | some found =>
    rw [hread] at h
    cases h
    obtain ⟨hsame, -, hle⟩ := readLiteral_append hread v
    rw [read_literal, hsame]
    exact ⟨rfl, hle⟩

theorem read_dictClose_append (h : read (ahead o (62 :: u)) 62 = (.ok t, n)) :
    read (ahead o (62 :: (u ++ v))) 62 = (.ok t, n) ∧ n ≤ u.length := by
  by_cases hu : u.head? = some 62
  · obtain ⟨u, rfl⟩ := List.head?_eq_some_iff.1 hu
    rw [read_dictClose] at h
    cases h
    exact ⟨rfl, Nat.le_add_left _ _⟩
  · rw [read_unexpectedClose hu] at h
    cases h

theorem read_angle_append (h : read (ahead o (60 :: u)) 60 = (.ok t, n)) :
    read (ahead o (60 :: (u ++ v))) 60 = (.ok t, n) ∧ n ≤ u.length := by
  cases u with
  | nil => cases h
  | cons c u =>
    by_cases hc : c = 60
    · subst hc
      rw [read_dictOpen] at h
      cases h
      exact ⟨rfl, Nat.le_add_left _ _⟩
    · have hhead (w : List UInt8) : (c :: w).head? ≠ some 60 := by simpa using hc
      rw [read_hex (hhead u)] at h
      rw [List.cons_append, read_hex (hhead (u ++ v)), ← List.cons_append]
      generalize hread : readHex (c :: u) = found at h
      obtain ⟨bytes | bytes, used⟩ := found
      · cases h
      · cases h
        obtain ⟨hsame, hle⟩ := readHex_append hread v
        rw [hsame]
        exact ⟨rfl, hle⟩

/-- Reading a token where it starts. A token with a bracket of its own may be followed
by anything. -/
theorem read_append (h : read (ahead o (b :: u)) b = (.ok t, n))
    (hv : t.isClosed = false → Byte.EndsRun v) :
    read (ahead o (b :: (u ++ v))) b = (.ok t, n) ∧ n ≤ u.length := by
  by_cases hb : b ∈ opening
  · simp only [opening, List.mem_cons, List.not_mem_nil, or_false] at hb
    rcases hb with rfl | rfl | rfl | rfl | rfl | rfl | rfl | rfl | rfl
    · rw [read_name] at h
      cases h
      rw [read_name, (hv rfl).takeWhile]
      exact ⟨rfl, (List.takeWhile_prefix _).length_le⟩
    · exact read_literal_append h
    · exact read_angle_append h
    · exact read_dictClose_append h
    · cases h
    -- The brackets of arrays and procedures.
    all_goals
      cases h
      exact ⟨rfl, Nat.zero_le _⟩
  · exact read_run_append hb h hv

end FirstByte

end Token

namespace Cursor

theorem blankLength_append {inComment : Bool} {u : List UInt8}
    (h : blankLength inComment u < u.length) (v : List UInt8) :
    blankLength inComment (u ++ v) = blankLength inComment u := by
  fun_induction blankLength inComment u with
  | case1 => cases h
  | case2 b rest ih => rw [List.cons_append, blankLength, if_pos rfl, ih (Nat.lt_of_succ_lt_succ h)]
  | case3 _ b rest hcomment hb ih =>
    rw [List.cons_append, blankLength, if_neg hcomment, if_pos hb, ih (Nat.lt_of_succ_lt_succ h)]
  | case4 _ b rest hcomment hb hblank ih =>
    rw [List.cons_append, blankLength, if_neg hcomment, if_neg hb, if_pos hblank,
      ih (Nat.lt_of_succ_lt_succ h)]
  | case5 _ b rest hcomment hb hblank =>
    rw [List.cons_append, blankLength, if_neg hcomment, if_neg hb, if_neg hblank]

theorem blankLength_le (inComment : Bool) (u : List UInt8) :
    blankLength inComment u ≤ u.length := by
  fun_induction blankLength inComment u <;> simp_all

theorem ahead_skipBlanks (o : Nat) (u : List UInt8) :
    (ahead o u).skipBlanks = ahead (o + blankLength false u) (u.drop (blankLength false u)) :=
  ahead_advance o (blankLength_le _ _)

/-- A token behind blanks. -/
theorem token?_ahead {o : Nat} {u rest : List UInt8} {b : UInt8}
    (h : u.drop (blankLength false u) = b :: rest) :
    (ahead o u).token? =
      (some (o + blankLength false u, (Token.read (ahead 0 (b :: rest)) b).1),
        (ahead (o + blankLength false u) (b :: rest)).advance
          ((Token.read (ahead 0 (b :: rest)) b).2 + 1)) := by
  rw [token?, ahead_skipBlanks, h]
  rfl

/-- **Tokens** that are followed by the end are followed by anything, or by anything that ends a
run. -/
theorem token?_append {o pos : Nat} {u v : List UInt8} {t : Token} {c : Cursor}
    (h : (ahead o u).token? = (some (pos, .ok t), c)) (hv : t.isClosed = false → Byte.EndsRun v) :
    ∃ n, n ≤ u.length ∧ c = ahead (o + n) (u.drop n) ∧
      (ahead o (u ++ v)).token? = (some (pos, .ok t), ahead (o + n) (u.drop n ++ v)) := by
  have hle := blankLength_le false u
  cases hdrop : u.drop (blankLength false u) with
  | nil =>
    rw [token?, ahead_skipBlanks, hdrop] at h
    cases h
  | cons b rest =>
    have hlength : blankLength false u + (rest.length + 1) = u.length := by
      have := congrArg List.length hdrop
      rw [List.length_drop, List.length_cons] at this
      omega
    have hsame := blankLength_append (show blankLength false u < u.length by omega) v
    have hdrop' : (u ++ v).drop (blankLength false (u ++ v)) = b :: (rest ++ v) := by
      rw [hsame, List.drop_append_of_le_length hle, hdrop]
      rfl
    rw [token?_ahead hdrop] at h
    rw [token?_ahead hdrop', hsame]
    generalize hread : Token.read (ahead 0 (b :: rest)) b = found at h
    obtain ⟨token, n⟩ := found
    cases h
    obtain ⟨hread', hn⟩ := Token.read_append hread hv
    refine ⟨blankLength false u + (n + 1), by omega, ?_, ?_⟩
    · rw [ahead_advance _ (Nat.succ_le_succ hn), ← hdrop, List.drop_drop, Nat.add_assoc]
    · rw [hread', ← List.cons_append,
        ahead_advance _ (by rw [List.length_append, List.length_cons]; omega),
        List.drop_append_of_le_length (Nat.succ_le_succ hn), ← hdrop, List.drop_drop, Nat.add_assoc]

/-- The bytes are one token and nothing else. -/
def Spelled (bytes : List UInt8) (t : Token) : Prop :=
  ∀ o, (ahead o bytes).token? = (some (o, .ok t), ahead (o + bytes.length) [])

theorem Spelled.append {bytes v : List UInt8} {t : Token} (h : Spelled bytes t)
    (hv : t.isClosed = false → Byte.EndsRun v) (o : Nat) :
    (ahead o (bytes ++ v)).token? = (some (o, .ok t), ahead (o + bytes.length) v) := by
  obtain ⟨n, hn, hend, htoken⟩ := token?_append (h o) hv
  have : n = bytes.length := by
    have := congrArg Cursor.offset hend
    simpa [ahead] using this.symm
  subst this
  rw [htoken, List.drop_length, List.nil_append]

/-- Reading on behind a token. -/
theorem items_spelled {bytes v : List UInt8} {t : Token} {b : Builder} (h : Spelled bytes t)
    (hv : t.isClosed = false → Byte.EndsRun v) (hb : b.imageData? t = none) (o : Nat) :
    (ahead o (bytes ++ v)).items b =
      (b.token o t).2 ++ (ahead (o + bytes.length) v).items (b.token o t).1 :=
  items_token (h.append hv o) hb

theorem items_congr {c d : Cursor} (h : c.token? = d.token?) (b : Builder) :
    c.items b = d.items b := by
  rcases hd : d.token? with ⟨found, rest⟩
  rw [hd] at h
  match found with
  | none => rw [items_end h, items_end hd]
  | some (pos, .error .truncated) => rw [items_truncated h, items_truncated hd]
  | some (pos, .error (.malformed fault)) => rw [items_malformed h, items_malformed hd]
  | some (pos, .ok token) =>
    cases hb : b.imageData? token with
    | none => rw [items_token h hb, items_token hd hb]
    | some image =>
      rcases hdata : rest.imageData image with ⟨fault | data, behind⟩
      · rw [items_image_cut h hb hdata, items_image_cut hd hb hdata]
      · rw [items_image h hb hdata, items_image hd hb hdata]

/-- A blank in front changes nothing. -/
theorem items_blank {blank : UInt8} (h : Byte.isBlank blank = true) (o : Nat) (u : List UInt8)
    (b : Builder) : (ahead o (blank :: u)).items b = (ahead (o + 1) u).items b := by
  have hblank : blankLength false (blank :: u) = blankLength false u + 1 := by
    have hcomment : blank ≠ 37 := by
      rintro rfl
      cases h
    simp [blankLength, hcomment, h]
  refine items_congr ?_ b
  rw [token?, token?, ahead_skipBlanks, ahead_skipBlanks, hblank, List.drop_succ_cons,
    Nat.add_assoc, Nat.add_comm 1]

end Cursor

/-- Content in one piece is read from its start. -/
theorem Content.itemsOf_eq (bytes : List UInt8) :
    Content.itemsOf bytes = (Cursor.ahead 0 bytes).items {} := by
  have hflat : (Cursor.ofSegments [bytes]).flat = Cursor.ahead 0 bytes := by
    simp [Cursor.ofSegments, Cursor.flat, Cursor.ahead]
  rw [Content.itemsOf, Content.items,
    Cursor.items_flat (Content.seamless_ofSegments (Content.unbroken_singleton bytes)), hflat]

end ContentStream
