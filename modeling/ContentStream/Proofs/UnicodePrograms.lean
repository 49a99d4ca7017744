import ContentStream.Proofs.CodeMaps
import ContentStream.Proofs.TokenSequences

/-!
# Programs for the texts of codes are read section by section

**Theorem (`read_append_line`).** Let a program be read without malformed tokens up to an operator.
What is read behind it counts for more than what it says, and is read as it would be by itself. That
holds whatever else stands in the program, unless it opens a list and does not close it. A list that is
left open takes in everything up to the next closing bracket: until then nothing is read.

The reader keeps the texts read so far, the operands since the last operator and the elements of an
open list. What it does to the texts is to write into them, and the texts have no influence on the
rest (`foldl_step_separates`). An operator drops the operands, but not the open list.
-/

namespace ContentStream.ToUnicode

open CodeMap (Writes writes_id writes_insert writes_insertRange)

/-! ## Sections write into the map -/

theorem insertSpan_writes (lo hi : Nat) (dst : List UInt8) :
    ∃ given, Writes (insertSpan · lo hi dst) given := by
  unfold insertSpan
  split
  · exact ⟨_, writes_insertRange _ _ _⟩
  · exact ⟨_, writes_id⟩

theorem readPairs_writes (operands : List Token) : ∃ given, Writes (readPairs · operands) given := by
  induction (∅ : CodeMap String), operands using readPairs.induct with
  | case1 _ src dst rest ih =>
    obtain ⟨given, h⟩ := ih
    exact ⟨_, (writes_insert (codeOf src.bytes) (Utf16.decode dst.bytes)).comp h⟩
  | case2 _ a b rest hpair ih => simpa only [readPairs.eq_2 _ a b rest hpair] using ih
  | case3 operands _ hpair hlong =>
    simp only [readPairs.eq_3 _ operands hpair hlong]
    exact ⟨_, writes_id⟩

/-- A token of a list of texts may set a code, and what is next does not depend on the map. -/
theorem listStep_separates (next : Option Nat) (hi : Nat) (t : Token) :
    (∃ given, Writes (fun map => (listStep map next hi t).1) given) ∧
      ∀ map map', (listStep map next hi t).2 = (listStep map' next hi t).2 := by
  unfold listStep
  split
  · split
    · exact ⟨⟨_, writes_insert _ _⟩, fun _ _ => rfl⟩
    · exact ⟨⟨_, writes_id⟩, fun _ _ => rfl⟩
  · exact ⟨⟨_, writes_id⟩, fun _ _ => rfl⟩

theorem readRanges_writes (state : RangeState) (operands : List Token) :
    ∃ given, Writes (readRanges · state operands) given := by
  induction (∅ : CodeMap String), state, operands using readRanges.induct with
  | case1 start next hi t rest ih =>
    obtain ⟨given, h⟩ := ih
    obtain ⟨⟨given', h'⟩, hstate⟩ := listStep_separates next hi t
    simp only [readRanges, hstate _ start]
    exact ⟨_, h'.comp h⟩
  | case2 _ a b c rest lo hi dst hentry ih =>
    obtain ⟨given, h⟩ := ih
    obtain ⟨given', h'⟩ := insertSpan_writes lo hi dst
    simp only [readRanges, hentry]
    exact ⟨_, h'.comp h⟩
  | case3 _ a b c rest lo hi hentry ih => simpa only [readRanges, hentry] using ih
  | case4 _ a b c rest hentry ih => simpa only [readRanges, hentry] using ih
  | case5 operands _ state hlist hbetween =>
    simp only [readRanges.eq_3 _ state operands hlist hbetween]
    exact ⟨_, writes_id⟩

theorem readSection_writes (operands : List Token) (name : String) :
    ∃ given, Writes (readSection · operands name) given := by
  unfold readSection
  split
  · exact readPairs_writes operands
  · exact readRanges_writes .between operands
  · exact ⟨_, writes_id⟩

/-! ## Steps -/

/-- What has been read depends on the map at the start only in that it was written into. -/
def Separates (run : CodeMap String → State) : Prop :=
  ∃ op given operands list, Writes op given ∧ ∀ map, run map = ⟨op map, operands, list⟩

theorem Separates.step {run : CodeMap String → State} (h : Separates run) (t : Token) :
    Separates fun map => step (run map) t := by
  obtain ⟨op, given, operands, list, hop, hrun⟩ := h
  simp only [hrun]
  cases t with
  | operator name =>
    obtain ⟨given', hsection⟩ := readSection_writes operands.reverse name
    exact ⟨_, _, [], list, hop.comp hsection, fun _ => rfl⟩
  | mark m =>
    cases m with
    | arrayOpen => exact ⟨op, given, operands, some [], hop, fun _ => rfl⟩
    | arrayClose =>
      cases list with
      | none => exact ⟨op, given, operands, none, hop, fun _ => rfl⟩
      | some items =>
        exact ⟨op, given, listMark :: (items ++ listMark :: operands), none, hop, fun _ => rfl⟩
    | _ =>
      cases list with
      | none => exact ⟨op, given, .mark _ :: operands, none, hop, fun _ => rfl⟩
      | some items => exact ⟨op, given, operands, some (.mark _ :: items), hop, fun _ => rfl⟩
  | _ =>
    cases list with
    | none => exact ⟨op, given, _ :: operands, none, hop, fun _ => rfl⟩
    | some items => exact ⟨op, given, operands, some (_ :: items), hop, fun _ => rfl⟩

theorem foldl_step_separates (ts : List Token) {run : CodeMap String → State} (h : Separates run) :
    Separates fun map => ts.foldl step (run map) := by
  induction ts generalizing run with
  | nil => exact h
  | cons t ts ih => exact ih (h.step t)

/-- Tokens that are read with nothing pending are read as by themselves, and count for more than what
has been read before. -/
theorem foldl_step_nothing_pending (ts : List Token) (map : CodeMap String) (code : Nat) :
    (ts.foldl step ⟨map, [], none⟩).map[code]? =
      (ts.foldl step {}).map[code]?.or map[code]? := by
  have hstart : Separates fun map => ⟨map, [], none⟩ := ⟨_, _, [], none, writes_id, fun _ => rfl⟩
  obtain ⟨op, given, operands, list, hop, hrun⟩ := foldl_step_separates ts hstart
  rw [show ts.foldl step ⟨map, [], none⟩ = _ from hrun map, show ts.foldl step {} = _ from hrun ∅,
    hop, hop.empty]

/-! ## Open lists -/

/-- Every list that is opened is closed further on. -/
def ListsClosed (ts : List Token) : Prop :=
  ∀ front rest, ts = front ++ .mark .arrayOpen :: rest → .mark .arrayClose ∈ rest

theorem listsClosed_nil : ListsClosed [] := fun _ _ heq => by simp at heq

theorem listsClosed_cons {t : Token} {ts : List Token} :
    ListsClosed (t :: ts) ↔ (t = .mark .arrayOpen → .mark .arrayClose ∈ ts) ∧ ListsClosed ts := by
  constructor
  · intro h
    refine ⟨?_, fun front rest heq => h (t :: front) rest (by rw [heq, List.cons_append])⟩
    rintro rfl
    exact h [] ts rfl
  · rintro ⟨hfirst, hlater⟩ front rest heq
    cases front with
    | nil =>
      obtain ⟨rfl, rfl⟩ := List.cons.inj heq
      exact hfirst rfl
    | cons _ front => exact hlater front rest (List.cons.inj heq).2

/-- A bracket opens or closes a list, and nothing else does. -/
theorem step_list (s : State) (t : Token) :
    (step s t).list = none ↔ (s.list = none ∨ t = .mark .arrayClose) ∧ t ≠ .mark .arrayOpen := by
  obtain ⟨map, operands, list⟩ := s
  cases t with
  | mark m => cases m <;> cases list <;> simp [step]
  | operator name => simp [step]
  | _ => cases list <;> simp [step]

theorem foldl_step_list (ts : List Token) (s : State) :
    (ts.foldl step s).list = none ↔
      (s.list = none ∨ .mark .arrayClose ∈ ts) ∧ ListsClosed ts := by
  induction ts generalizing s with
  | nil => simp [listsClosed_nil]
  | cons t ts ih =>
    rw [List.foldl_cons, ih, step_list, listsClosed_cons, List.mem_cons]
    by_cases hopen : t = .mark .arrayOpen
    · simp only [hopen, reduceCtorEq, Token.mark.injEq, ne_eq, not_true, and_false, false_or,
        true_implies]
      exact ⟨fun ⟨hclose, hrest⟩ => ⟨.inr hclose, hclose, hrest⟩, fun ⟨_, h⟩ => h⟩
    · simp only [hopen, ne_eq, not_false_eq_true, and_true, false_implies, true_and, or_assoc,
        @eq_comm _ t]

/-- In an open list nothing is read before the list is closed. -/
theorem foldl_step_open {ts : List Token} (h : .mark .arrayClose ∉ ts) (map : CodeMap String)
    (items : List Token) : (ts.foldl step ⟨map, [], some items⟩).map = map := by
  induction ts generalizing items with
  | nil => rfl
  | cons t ts ih =>
    obtain ⟨ht, hts⟩ := not_or.1 fun hmem => h (List.mem_cons.2 hmem)
    rw [List.foldl_cons]
    cases t with
    | mark m =>
      cases m with
      | arrayOpen => exact ih hts []
      | arrayClose => exact absurd rfl ht
      | _ => exact ih hts _
    | operator name =>
      have hnothing : readSection map [] name = map := by
        unfold readSection
        split <;> rfl
      rw [show step ⟨map, [], some items⟩ (.operator name) =
        ⟨readSection map [] name, [], some items⟩ from rfl, hnothing]
      exact ih hts items
    | _ => exact ih hts _

/-! ## Programs -/

/-- **What an earlier program leaves behind.** Let it be read without malformed tokens, with an
operator at its end. If it closes its lists, the program behind it gives every code the text that it
gives by itself, and codes that it does not give any keep theirs. If it leaves a list open, nothing is
read of the program behind it as long as no list is closed there. -/
theorem read_append_line (first second : List UInt8) (ts : List Token) (name : String)
    (h : (Cursor.ofBytes first).HasTokens (ts ++ [.operator name])) :
    (ListsClosed ts → ∀ code : Nat,
      (read (first ++ 10 :: second))[code]? = (read second)[code]?.or (read first)[code]?) ∧
    (¬ ListsClosed ts → .mark .arrayClose ∉ tokens (Cursor.ofBytes second) →
      read (first ++ 10 :: second) = read first) := by
  have hread : read first = (step (ts.foldl step {}) (.operator name)).map := by
    rw [read, tokens_eq_of_hasTokens h, List.foldl_append, List.foldl_cons, List.foldl_nil]
  have hboth : read (first ++ 10 :: second) =
      ((tokens (Cursor.ofBytes second)).foldl step ⟨read first, [], (ts.foldl step {}).list⟩).map := by
    rw [read, tokens_append_line h, List.foldl_append, List.foldl_append, List.foldl_cons,
      List.foldl_nil, hread]
    rfl
  have hlist := foldl_step_list ts {}
  constructor
  · intro hclosed code
    rw [hboth, hlist.2 ⟨.inl rfl, hclosed⟩]
    exact foldl_step_nothing_pending _ _ code
  · intro hopen hsecond
    cases hitems : (ts.foldl step {}).list with
    | none => exact absurd (hlist.1 hitems).2 hopen
    | some items =>
      rw [hboth, hitems]
      exact foldl_step_open hsecond _ items

/-- A program with a stray bracket, a list where a text should be and a code without one. -/
def strayOperands : List UInt8 := Utf8.encode "<01> <0041> ] [/N] <02> endbfchar"

/-- The operands of that program. -/
def strayTokens : List Token :=
  [.string ⟨[1], .hex⟩, .string ⟨[0, 65], .hex⟩, .mark .arrayClose, .mark .arrayOpen, .name "N",
    .mark .arrayClose, .string ⟨[2], .hex⟩]

/-- Behind it any other program is read as by itself. -/
theorem read_append_line_stray :
    (Cursor.ofBytes strayOperands).HasTokens (strayTokens ++ [.operator "endbfchar"]) ∧
      ListsClosed strayTokens ∧ ∀ (second : List UInt8) (code : Nat),
        (read (strayOperands ++ 10 :: second))[code]? =
          (read second)[code]?.or (read strayOperands)[code]? := by
  have htokens : (Cursor.ofBytes strayOperands).HasTokens (strayTokens ++ [.operator "endbfchar"]) :=
    .cons rfl (.cons rfl (.cons rfl (.cons rfl (.cons rfl (.cons rfl (.cons rfl (.cons rfl
      (.nil rfl))))))))
  have hclosed : ListsClosed strayTokens := by simp [strayTokens, listsClosed_cons, listsClosed_nil]
  exact ⟨htokens, hclosed,
    fun second => (read_append_line strayOperands second strayTokens _ htokens).1 hclosed⟩

/-- A range with a list that is not closed. -/
def unclosedRange : List UInt8 := Utf8.encode "<10> <12> [<0061> endbfrange"

/-- A section that gives a text to one code. -/
def onePair : List UInt8 := Utf8.encode "<01> <0041> endbfchar"

/-- Behind the range that section gives nothing. -/
theorem unclosedRange_hides_pair :
    (Cursor.ofBytes unclosedRange).HasTokens
        [.string ⟨[16], .hex⟩, .string ⟨[18], .hex⟩, .mark .arrayOpen, .string ⟨[0, 97], .hex⟩,
          .operator "endbfrange"] ∧
      (read onePair)[1]? = some "A" ∧ (read (unclosedRange ++ 10 :: onePair))[1]? = none := by
  refine ⟨.cons rfl (.cons rfl (.cons rfl (.cons rfl (.cons rfl (.nil rfl))))), ?_⟩
  decide +kernel

end ContentStream.ToUnicode
