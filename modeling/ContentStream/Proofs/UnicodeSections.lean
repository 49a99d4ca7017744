import ContentStream.Proofs.Printing
import ContentStream.Proofs.UnicodePrograms

/-!
# Programs for the texts of codes are read by their meaning

A program that is well formed is a list of sections. `TextPair` and `TextRange` are their entries, with
the tokens that spell them and with what they mean: which codes they cover, and the text that each of
these codes gets.

**Theorem (`read_sections`).** A text that lays out the tokens of sections gives each code the text of
the last entry that covers it, and no text if there is none. Every list of sections has such a text
(`laidOut_sections`), and texts that are written as UTF-16 are found again (`Utf16.decode_encode`).

A list of texts goes through three forms on its way. Its brackets are replaced by marks among the
operands of the section (`foldl_step_range`), the marks delimit it when the section is read
(`readRanges_listed`), and its elements go to codes one after the other, as far as the range and the
list reach (`readRanges_texts`).
-/

namespace ContentStream

/-! ## Texts in 16-bit units -/

namespace Utf16

/-- The two bytes of a unit. -/
def unitBytes (u : Nat) : List UInt8 := [UInt8.ofNat (u / 256), UInt8.ofNat u]

/-- The units of a character: one, or a surrogate and its partner. -/
def charUnits (c : Char) : List Nat :=
  if c.toNat < 0x10000 then [c.toNat]
  else [0xD800 + (c.toNat - 0x10000) / 0x400, 0xDC00 + (c.toNat - 0x10000) % 0x400]

/-- The text as UTF-16, the high byte of each unit first. -/
def encode (s : String) : List UInt8 := (s.toList.flatMap charUnits).flatMap unitBytes

theorem units_unitBytes {us : List Nat} (h : ∀ u ∈ us, u < 0x10000) :
    units (us.flatMap unitBytes) = us := by
  induction us with
  | nil => rfl
  | cons u us ih =>
    obtain ⟨hu, hus⟩ := List.forall_mem_cons.1 h
    have hunit : (UInt8.ofNat (u / 256)).toNat * 256 + (UInt8.ofNat u).toNat = u := by
      rw [UInt8.toNat_ofNat', UInt8.toNat_ofNat']
      omega
    exact congr (congrArg List.cons hunit) (ih hus)

theorem toNat_valid (c : Char) :
    c.toNat < 0xD800 ∨ 0xDFFF < c.toNat ∧ c.toNat < 0x110000 := c.valid

theorem charUnits_lt (c : Char) : ∀ u ∈ charUnits c, u < 0x10000 := by
  have hvalid := toNat_valid c
  unfold charUnits
  split <;> simp <;> omega

theorem decodeUnits_single {u : Nat} (h : isHigh u = false) (us : List Nat) :
    decodeUnits (u :: us) = single u :: decodeUnits us := by
  cases us with
  | nil => rfl
  | cons v us => rw [decodeUnits, h, Bool.false_and, if_neg Bool.false_ne_true]

theorem decodeUnits_charUnits (c : Char) (us : List Nat) :
    decodeUnits (charUnits c ++ us) = c :: decodeUnits us := by
  have hvalid := toNat_valid c
  unfold charUnits
  split
  · have hhigh : isHigh c.toNat = false := by simp [isHigh]; omega
    have hlow : isLow c.toNat = false := by simp [isLow]; omega
    have hsingle : single c.toNat = c := by rw [single, hhigh, hlow]; exact Char.ofNat_toNat c
    exact (decodeUnits_single hhigh us).trans (by rw [hsingle])
  · have hhigh : isHigh (0xD800 + (c.toNat - 0x10000) / 0x400) = true := by simp [isHigh]; omega
    have hlow : isLow (0xDC00 + (c.toNat - 0x10000) % 0x400) = true := by simp [isLow]; omega
    have hsum : 0x10000 + (0xD800 + (c.toNat - 0x10000) / 0x400 - 0xD800) * 0x400 +
        (0xDC00 + (c.toNat - 0x10000) % 0x400 - 0xDC00) = c.toNat := by omega
    rw [List.cons_append, List.cons_append, List.nil_append, decodeUnits, hhigh, hlow,
      Bool.and_self, if_pos rfl, hsum, Char.ofNat_toNat]

theorem decode_encode (s : String) : decode (encode s) = s := by
  have hdecode : ∀ cs : List Char, decodeUnits (cs.flatMap charUnits) = cs := by
    intro cs
    induction cs with
    | nil => rfl
    | cons c cs ih => rw [List.flatMap_cons, decodeUnits_charUnits, ih]
  have hlt : ∀ u ∈ s.toList.flatMap charUnits, u < 0x10000 := by
    intro u hu
    obtain ⟨c, -, hu⟩ := List.mem_flatMap.1 hu
    exact charUnits_lt c u hu
  rw [decode, encode, units_unitBytes hlt, hdecode, String.ofList_toList]

end Utf16

/-! ## Entries and sections -/

/-- The code that a source stands for: its first four bytes, the highest first. -/
def sourceCode : List UInt8 → Nat
  | a :: b :: c :: d :: _ => a.toNat * 0x1000000 + b.toNat * 0x10000 + c.toNat * 0x100 + d.toNat
  | [a, b, c] => a.toNat * 0x10000 + b.toNat * 0x100 + c.toNat
  | [a, b] => a.toNat * 0x100 + b.toNat
  | [a] => a.toNat
  | [] => 0

/-- The bytes with the last one increased by `k`. What does not fit a byte starts again at zero. -/
def raisedBy (k : Nat) (bytes : List UInt8) : List UInt8 :=
  bytes.dropLast ++ (bytes.getLast?.map fun b => UInt8.ofNat (b.toNat + k)).toList

/-- A code and its text. -/
structure TextPair where
  source : List UInt8
  text : ByteString

/-- A range of codes, with the text of the first one or with a list of texts. -/
inductive TextRange where
  | counted (lo hi : List UInt8) (first : ByteString)
  | listed (lo hi : List UInt8) (texts : List ByteString)

/-- A section with the number in front of it, which says how many entries there are. -/
inductive TextSection where
  | pairs (count : Decimal) (entries : List TextPair)
  | ranges (count : Decimal) (entries : List TextRange)

/-- The number in front of a section. -/
def TextSection.count : TextSection → Decimal
  | pairs count _ => count
  | ranges count _ => count

/-! ## What the entries mean -/

/-- A range covers its codes if it is in order and reaches no further than 65535 codes beyond the
first. -/
def RangeCovers (lo hi : List UInt8) (code : Nat) : Prop :=
  sourceCode lo ≤ code ∧ code ≤ sourceCode hi ∧ sourceCode hi - sourceCode lo ≤ 0xFFFF

instance (lo hi : List UInt8) (code : Nat) : Decidable (RangeCovers lo hi code) :=
  instDecidableAnd

/-- The text that a pair gives to a code. -/
def TextPair.text? (pair : TextPair) (code : Nat) : Option String :=
  if code = sourceCode pair.source then some (Utf16.decode pair.text.bytes) else none

/-- The text that a range gives to a code. -/
def TextRange.text? : TextRange → Nat → Option String
  | counted lo hi first, code =>
    if RangeCovers lo hi code then
      some (Utf16.decode (raisedBy (code - sourceCode lo) first.bytes))
    else none
  | listed lo hi texts, code =>
    if RangeCovers lo hi code then
      texts[code - sourceCode lo]?.map fun text => Utf16.decode text.bytes
    else none

/-- The text of the last entry that gives one. -/
def TextSection.text? : TextSection → Nat → Option String
  | pairs _ entries, code => entries.reverse.findSome? fun pair => pair.text? code
  | ranges _ entries, code => entries.reverse.findSome? fun range => range.text? code

/-! ## How they are spelled -/

/-- Sources are hexadecimal strings. -/
def sourceString (bytes : List UInt8) : ByteString := ⟨bytes, .hex⟩

def TextPair.tokens (pair : TextPair) : List Token :=
  [.string (sourceString pair.source), .string pair.text]

def TextRange.tokens : TextRange → List Token
  | counted lo hi first => [.string (sourceString lo), .string (sourceString hi), .string first]
  | listed lo hi texts =>
    .string (sourceString lo) :: .string (sourceString hi) :: .mark .arrayOpen ::
      (texts.map Token.string ++ [.mark .arrayClose])

/-- The tokens of a section between those of its number and its operators. -/
def framedTokens (count : Decimal) (opening closing : String) (inner : List Token) : List Token :=
  .number count :: .operator opening :: (inner ++ [.operator closing])

def TextSection.tokens : TextSection → List Token
  | pairs count entries =>
    framedTokens count "beginbfchar" "endbfchar" (entries.flatMap TextPair.tokens)
  | ranges count entries =>
    framedTokens count "beginbfrange" "endbfrange" (entries.flatMap TextRange.tokens)

/-! ## A text for them -/

def TextPair.written (pair : TextPair) : List UInt8 :=
  (sourceString pair.source).written ++ pair.text.written

def TextRange.written : TextRange → List UInt8
  | counted lo hi first => (sourceString lo).written ++ ((sourceString hi).written ++ first.written)
  | listed lo hi texts =>
    (sourceString lo).written ++ ((sourceString hi).written ++
      (Utf8.encode "[" ++ (texts.flatMap ByteString.written ++ Utf8.encode "]")))

/-- The text of a section, with its number and its operators on lines of their own. -/
def framedText (count : Decimal) (opening closing : String) (inner : List UInt8) : List UInt8 :=
  Utf8.encode count.render ++ 10 :: (Utf8.encode opening ++ 10 ::
    (inner ++ (Utf8.encode closing ++ [10])))

def TextSection.written : TextSection → List UInt8
  | pairs count entries =>
    framedText count "beginbfchar" "endbfchar" (entries.flatMap TextPair.written)
  | ranges count entries =>
    framedText count "beginbfrange" "endbfrange" (entries.flatMap TextRange.written)

namespace Cursor

variable {rest : List UInt8} {ts : List Token}

theorem LaidOut.newline (h : LaidOut rest ts) : LaidOut (10 :: rest) ts := by
  cases h with
  | nil hgap => exact .nil (.blank rfl hgap)
  | cons hgap hspelled hends hrest => exact .cons (.blank rfl hgap) hspelled hends hrest

/-- A token on a line of its own. -/
theorem LaidOut.line {spelling : List UInt8} {t : Token} (ht : Spelled spelling t)
    (h : LaidOut rest ts) : LaidOut (spelling ++ 10 :: rest) (t :: ts) :=
  .cons .nil ht (fun _ => Byte.endsRun_cons rfl rest) h.newline

/-- A token that cannot be confused with what follows it. -/
theorem LaidOut.closed {spelling : List UInt8} {t : Token} (ht : Spelled spelling t)
    (hclosed : t.isClosed = true) (h : LaidOut rest ts) : LaidOut (spelling ++ rest) (t :: ts) :=
  .cons .nil ht (fun hopen => absurd (hclosed.symm.trans hopen) (by decide)) h

theorem LaidOut.string (s : ByteString) (h : LaidOut rest ts) :
    LaidOut (s.written ++ rest) (.string s :: ts) := h.closed (spelled_string s) rfl

/-- If each entry can be put in front of what is laid out, so can a list of entries. -/
theorem LaidOut.entries {ε : Type} {written : ε → List UInt8} (tokens : ε → List Token)
    {entries : List ε} (hentry : ∀ entry ∈ entries, ∀ rest ts, LaidOut rest ts →
      LaidOut (written entry ++ rest) (tokens entry ++ ts)) (h : LaidOut rest ts) :
    LaidOut (entries.flatMap written ++ rest) (entries.flatMap tokens ++ ts) := by
  induction entries with
  | nil => exact h
  | cons entry entries ih =>
    obtain ⟨hfirst, hothers⟩ := List.forall_mem_cons.1 hentry
    rw [List.flatMap_cons, List.flatMap_cons, List.append_assoc, List.append_assoc]
    exact hfirst _ _ (ih hothers)

theorem LaidOut.pair (pair : TextPair) (h : LaidOut rest ts) :
    LaidOut (pair.written ++ rest) (pair.tokens ++ ts) := by
  rw [TextPair.written, List.append_assoc]
  exact (h.string _).string _

theorem LaidOut.range (range : TextRange) (h : LaidOut rest ts) :
    LaidOut (range.written ++ rest) (range.tokens ++ ts) := by
  cases range with
  | counted lo hi first =>
    simp only [TextRange.written, List.append_assoc]
    exact ((h.string first).string _).string _
  | listed lo hi texts =>
    have htexts := (h.closed (spelled_mark .arrayClose) rfl).entries (fun text => [.string text])
      fun text (_ : text ∈ texts) _ _ h => h.string text
    rw [← List.map_eq_flatMap] at htexts
    simp only [TextRange.written, TextRange.tokens, List.append_assoc, List.cons_append,
      List.nil_append]
    exact ((htexts.closed (spelled_mark .arrayOpen) rfl).string _).string _

theorem LaidOut.framed {count : Decimal} {opening closing : String} {inner : List UInt8}
    {innerTokens : List Token} (hcount : count.minusZero = false)
    (hopening : Spelled (Utf8.encode opening) (.operator opening))
    (hclosing : Spelled (Utf8.encode closing) (.operator closing))
    (hinner : ∀ rest ts, LaidOut rest ts → LaidOut (inner ++ rest) (innerTokens ++ ts))
    (h : LaidOut rest ts) :
    LaidOut (framedText count opening closing inner ++ rest)
      (framedTokens count opening closing innerTokens ++ ts) := by
  have hbody := hinner _ _ (h.line hclosing)
  simp only [framedText, framedTokens, List.append_assoc, List.cons_append, List.nil_append]
  exact (hbody.line hopening).line (spelled_number hcount)

theorem LaidOut.textSection {part : TextSection} (hcount : part.count.minusZero = false)
    (h : LaidOut rest ts) : LaidOut (part.written ++ rest) (part.tokens ++ ts) := by
  cases part with
  | pairs count entries =>
    refine h.framed hcount (spelled_run rfl rfl) (spelled_run rfl rfl) fun rest ts hrest => ?_
    exact hrest.entries TextPair.tokens fun entry _ _ _ h => h.pair entry
  | ranges count entries =>
    refine h.framed hcount (spelled_run rfl rfl) (spelled_run rfl rfl) fun rest ts hrest => ?_
    exact hrest.entries TextRange.tokens fun entry _ _ _ h => h.range entry

theorem laidOut_sections {sections : List TextSection}
    (h : ∀ part ∈ sections, part.count.minusZero = false) :
    LaidOut (sections.flatMap TextSection.written) (sections.flatMap TextSection.tokens) := by
  have hsections := (LaidOut.nil .nil).entries TextSection.tokens
    fun part hpart _ _ => LaidOut.textSection (h part hpart)
  rwa [List.append_nil, List.append_nil] at hsections

end Cursor

namespace ToUnicode

open CodeMap (Writes writes_id writes_insert writes_insertRange listed listed_nil listed_beyond
  listed_cons)

/-! ## Codes and texts -/

theorem codeOf_eq (bytes : List UInt8) : codeOf bytes = sourceCode bytes := by
  rcases bytes with - | ⟨a, - | ⟨b, - | ⟨c, - | ⟨d, rest⟩⟩⟩⟩
  · rfl
  · simp [codeOf, sourceCode]
  · simp [codeOf, sourceCode]
  · have hcode : codeOf [a, b, c] = (a.toNat * 256 + b.toNat) * 256 + c.toNat := by
      simp [codeOf]
    rw [hcode, sourceCode]
    omega
  · have hcode : codeOf (a :: b :: c :: d :: rest) =
        ((a.toNat * 256 + b.toNat) * 256 + c.toNat) * 256 + d.toNat := by
      simp [codeOf]
    rw [hcode, sourceCode]
    omega

theorem countUp_eq (bytes : List UInt8) (k : Nat) : countUp bytes k = raisedBy k bytes := by
  unfold countUp raisedBy
  cases hlast : bytes.getLast? with
  | none =>
    obtain rfl := List.getLast?_eq_none_iff.1 hlast
    rfl
  | some b =>
    have hsum : b + k.toUInt8 = UInt8.ofNat (b.toNat + k) := by
      rw [UInt8.ofNat_add, UInt8.ofNat_toNat]
    simp only [Option.map_some, Option.toList_some, ← hsum]

/-! ## Pairs -/

theorem readPairs_writes_pairs (pairs : List TextPair) :
    Writes (readPairs · (pairs.flatMap TextPair.tokens)) fun code =>
      pairs.reverse.findSome? fun pair => pair.text? code := by
  induction pairs with
  | nil => exact writes_id
  | cons pair pairs ih =>
    have hpair : Writes (·.insert (codeOf pair.source) (Utf16.decode pair.text.bytes)) pair.text? := by
      rw [codeOf_eq]
      exact writes_insert _ _
    exact hpair.before TextPair.text? ih

/-! ## Ranges -/

/-- What a range hands over to the operator at the end of its section. -/
def rangeOperands : TextRange → List Token
  | .counted lo hi first => [.string (sourceString lo), .string (sourceString hi), .string first]
  | .listed lo hi texts =>
    .string (sourceString lo) :: .string (sourceString hi) :: listMark ::
      (texts.map Token.string ++ [listMark])

section Coverage

variable {lo hi : List UInt8}

theorem rangeCovers_of_usable (h : isUsable (sourceCode lo) (sourceCode hi) = true) (code : Nat) :
    RangeCovers lo hi code ↔ sourceCode lo ≤ code ∧ code ≤ sourceCode hi := by
  have hspan : sourceCode lo ≤ sourceCode hi ∧ sourceCode hi - sourceCode lo ≤ 0xFFFF := by
    simpa [isUsable, maxSpan] using h
  simp only [RangeCovers, hspan.2, and_true]

theorem not_rangeCovers (h : ¬ isUsable (sourceCode lo) (sourceCode hi) = true) (code : Nat) :
    ¬ RangeCovers lo hi code := by
  rintro ⟨hlo, hhi, hspan⟩
  exact h (by simp [isUsable, maxSpan, Nat.le_trans hlo hhi, hspan])

theorem insertSpan_writes_counted (lo hi : List UInt8) (first : ByteString) :
    Writes (insertSpan · (codeOf lo) (codeOf hi) first.bytes)
      (TextRange.counted lo hi first).text? := by
  rw [codeOf_eq, codeOf_eq]
  unfold insertSpan
  split
  · rename_i husable
    refine (writes_insertRange _ _ _).congr fun code => ?_
    have hrange : sourceCode lo ≤ code ∧ code < sourceCode lo + (sourceCode hi + 1 - sourceCode lo) ↔
        sourceCode lo ≤ code ∧ code ≤ sourceCode hi := by omega
    simp only [TextRange.text?, rangeCovers_of_usable husable, hrange, countUp_eq]
  · rename_i husable
    refine writes_id.congr fun code => ?_
    simp only [TextRange.text?, if_neg (not_rangeCovers husable code)]

end Coverage

/-- The text that an element of a list is. -/
def elementText (text : ByteString) : Option String := some (Utf16.decode text.bytes)

/-- Once the range is used up, or if there is none, the elements of a list have no codes to go to. -/
theorem readRanges_surplus {next : Option Nat} {hi : Nat} (h : ∀ n, next = some n → hi < n)
    (texts : List ByteString) (map : CodeMap String) (rest : List Token) :
    readRanges map (.inList next hi) (texts.map Token.string ++ listMark :: rest) =
      readRanges map .between rest := by
  induction texts with
  | nil => cases next <;> rfl
  | cons text texts ih =>
    have hstep : listStep map next hi (.string text) = (map, .inList next hi) := by
      cases next with
      | none => rfl
      | some n => exact if_neg (Nat.not_le.2 (h n rfl))
    rw [List.map_cons, List.cons_append, readRanges, hstep]
    exact ih

/-- Elements of a list go to codes one after the other, up to the end of the range. -/
theorem readRanges_texts (hi next : Nat) (texts : List ByteString) :
    ∃ op, Writes op (listed elementText next hi texts) ∧ ∀ map rest,
      readRanges map (.inList (some next) hi) (texts.map Token.string ++ listMark :: rest) =
        readRanges (op map) .between rest := by
  induction texts generalizing next with
  | nil => exact ⟨_, writes_id.congr fun code => (listed_nil code).symm, fun map rest => rfl⟩
  | cons text texts ih =>
    by_cases hnext : next ≤ hi
    · obtain ⟨op, hop, hread⟩ := ih (next + 1)
      refine ⟨_, ((writes_insert next (Utf16.decode text.bytes)).comp hop).congr fun code => ?_,
        fun map rest => ?_⟩
      · exact (listed_cons hnext text texts code).symm
      · simp only [List.map_cons, List.cons_append, readRanges, listStep, if_pos hnext]
        exact hread _ rest
    · have hbeyond : hi < next := Nat.not_le.1 hnext
      refine ⟨_, writes_id.congr fun code => (listed_beyond hbeyond _ code).symm,
        fun map rest => ?_⟩
      exact readRanges_surplus (fun n hn => Option.some.inj hn ▸ hbeyond) (text :: texts) map rest

/-- Two marks delimit a list. -/
theorem readRanges_listed (lo hi : List UInt8) (texts : List ByteString) (map : CodeMap String)
    (rest : List Token) :
    readRanges map .between (rangeOperands (.listed lo hi texts) ++ rest) =
      readRanges map
        (.inList (if isUsable (sourceCode lo) (sourceCode hi) then some (sourceCode lo) else none)
          (sourceCode hi))
        (texts.map Token.string ++ listMark :: rest) := by
  rw [← codeOf_eq lo, ← codeOf_eq hi, rangeOperands]
  simp only [List.cons_append, List.append_assoc, List.nil_append]
  rfl

/-- An entry is read in one go, and what follows it is read as if it stood alone. -/
theorem readRanges_entry (range : TextRange) :
    ∃ op, Writes op range.text? ∧ ∀ map rest,
      readRanges map .between (rangeOperands range ++ rest) = readRanges (op map) .between rest := by
  cases range with
  | counted lo hi first =>
    exact ⟨_, insertSpan_writes_counted lo hi first, fun map rest => rfl⟩
  | listed lo hi texts =>
    by_cases husable : isUsable (sourceCode lo) (sourceCode hi)
    · obtain ⟨op, hop, htexts⟩ := readRanges_texts (sourceCode hi) (sourceCode lo) texts
      refine ⟨op, hop.congr fun code => ?_, fun map rest => ?_⟩
      · simp only [listed, TextRange.text?, rangeCovers_of_usable husable, Option.map_eq_bind]
        rfl
      · rw [readRanges_listed, if_pos husable]
        exact htexts map rest
    · refine ⟨_, writes_id.congr fun code => ?_, fun map rest => ?_⟩
      · simp only [TextRange.text?, if_neg (not_rangeCovers husable code)]
      · rw [readRanges_listed, if_neg husable]
        exact readRanges_surplus (fun n hn => by cases hn) texts map rest

theorem readRanges_writes_ranges (ranges : List TextRange) :
    Writes (readRanges · .between (ranges.flatMap rangeOperands)) fun code =>
      ranges.reverse.findSome? fun range => range.text? code := by
  induction ranges with
  | nil => exact writes_id
  | cons range ranges ih =>
    obtain ⟨op, hop, hread⟩ := readRanges_entry range
    have hcons : (readRanges · .between ((range :: ranges).flatMap rangeOperands)) =
        fun map => readRanges (op map) .between (ranges.flatMap rangeOperands) := by
      funext map
      rw [List.flatMap_cons, hread]
    rw [hcons]
    exact hop.before TextRange.text? ih

/-! ## Sections and programs -/

/-- The elements of a list wait for its end. -/
theorem foldl_step_texts (texts : List ByteString) (map : CodeMap String)
    (operands items : List Token) :
    (texts.map Token.string).foldl step ⟨map, operands, some items⟩ =
      ⟨map, operands, some ((texts.map Token.string).reverse ++ items)⟩ := by
  induction texts generalizing items with
  | nil => rfl
  | cons text texts ih =>
    rw [List.map_cons, List.reverse_cons, List.append_assoc]
    exact ih (.string text :: items)

/-- The end of a list hands its elements over between two marks. -/
theorem foldl_step_range (range : TextRange) (map : CodeMap String) (operands : List Token) :
    range.tokens.foldl step ⟨map, operands, none⟩ =
      ⟨map, (rangeOperands range).reverse ++ operands, none⟩ := by
  cases range with
  | counted lo hi first => rfl
  | listed lo hi texts =>
    simp only [TextRange.tokens, List.foldl_cons, List.foldl_append, foldl_step_texts,
      List.foldl_nil, step, rangeOperands, List.reverse_cons, List.reverse_append, List.reverse_nil,
      List.append_assoc, List.nil_append, List.cons_append, List.append_nil]

/-- If each entry hands its operands over, a list of entries hands over all of them. -/
theorem foldl_step_entries {ε : Type} (tokens handed : ε → List Token)
    (h : ∀ entry map operands, (tokens entry).foldl step ⟨map, operands, none⟩ =
      ⟨map, (handed entry).reverse ++ operands, none⟩)
    (entries : List ε) (map : CodeMap String) (operands : List Token) :
    (entries.flatMap tokens).foldl step ⟨map, operands, none⟩ =
      ⟨map, (entries.flatMap handed).reverse ++ operands, none⟩ := by
  induction entries generalizing operands with
  | nil => rfl
  | cons entry entries ih =>
    rw [List.flatMap_cons, List.foldl_append, h, ih, List.flatMap_cons, List.reverse_append,
      List.append_assoc]

/-- The operators around a section leave nothing pending behind. -/
theorem foldl_step_framed {opening closing : String} {inner operands : List Token}
    {map : CodeMap String} (hopening : ∀ operands, readSection map operands opening = map)
    (hinner : inner.foldl step ⟨map, [], none⟩ = ⟨map, operands.reverse ++ [], none⟩)
    (count : Decimal) :
    (framedTokens count opening closing inner).foldl step ⟨map, [], none⟩ =
      ⟨readSection map operands closing, [], none⟩ := by
  have hbegin : step (step ⟨map, [], none⟩ (.number count)) (.operator opening) =
      ⟨map, [], none⟩ := by
    simp only [step, hopening]
  rw [framedTokens, List.foldl_cons, List.foldl_cons, hbegin, List.foldl_append, hinner]
  simp only [List.foldl_cons, List.foldl_nil, step, List.append_nil, List.reverse_reverse]

theorem foldl_step_section (part : TextSection) :
    ∃ op, Writes op part.text? ∧ ∀ map,
      part.tokens.foldl step ⟨map, [], none⟩ = ⟨op map, [], none⟩ := by
  cases part with
  | pairs count entries =>
    refine ⟨_, readPairs_writes_pairs entries, fun map => foldl_step_framed (fun _ => rfl) ?_ count⟩
    exact foldl_step_entries TextPair.tokens TextPair.tokens (fun _ _ _ => rfl) entries map []
  | ranges count entries =>
    refine ⟨_, readRanges_writes_ranges entries, fun map => foldl_step_framed (fun _ => rfl) ?_ count⟩
    exact foldl_step_entries _ _ foldl_step_range entries map []

theorem foldl_step_sections (sections : List TextSection) :
    ∃ op, Writes op (fun code => sections.reverse.findSome? fun part => part.text? code) ∧ ∀ map,
      (sections.flatMap TextSection.tokens).foldl step ⟨map, [], none⟩ = ⟨op map, [], none⟩ := by
  induction sections with
  | nil => exact ⟨_, writes_id, fun _ => rfl⟩
  | cons part sections ih =>
    obtain ⟨op, hop, hstep⟩ := foldl_step_section part
    obtain ⟨op', hop', hsteps⟩ := ih
    refine ⟨_, hop.before TextSection.text? hop', fun map => ?_⟩
    rw [List.flatMap_cons, List.foldl_append, hstep, hsteps]

/-- **Programs are read by their meaning.** A code gets the text of the last entry that gives it one,
however the sections are laid out. Sections can be laid out, and the texts in them are UTF-16. -/
theorem read_sections (sections : List TextSection) :
    (∀ text, Cursor.LaidOut text (sections.flatMap TextSection.tokens) → ∀ code,
      (read text)[code]? = sections.reverse.findSome? fun part => part.text? code) ∧
    ((∀ part ∈ sections, part.count.minusZero = false) →
      Cursor.LaidOut (sections.flatMap TextSection.written)
        (sections.flatMap TextSection.tokens)) ∧
    ∀ s : String, Utf16.decode (Utf16.encode s) = s := by
  refine ⟨fun text htext code => ?_, Cursor.laidOut_sections, Utf16.decode_encode⟩
  obtain ⟨op, hop, hsteps⟩ := foldl_step_sections sections
  have hread : read text = op ∅ := by
    rw [read, tokens_laidOut htext]
    exact congrArg State.map (hsteps ∅)
  rw [hread, hop.empty]

/-- A pair, then a counted range over it, a list that is too short for its range, and a range that is
out of order. -/
def overlappingSections : List TextSection :=
  [.pairs 0 [⟨[1], ⟨[0, 65], .hex⟩⟩],
    .ranges 0 [.counted [1] [3] ⟨[0, 97], .hex⟩, .listed [2] [9] [⟨[0xD8, 0x3D, 0xDE, 0], .hex⟩],
      .counted [8] [7] ⟨[0, 98], .literal⟩]]

theorem read_sections_overlapping :
    Cursor.LaidOut (overlappingSections.flatMap TextSection.written)
      (overlappingSections.flatMap TextSection.tokens) ∧
    (read (overlappingSections.flatMap TextSection.written))[1]? = some "a" ∧
    (read (overlappingSections.flatMap TextSection.written))[2]? = some "😀" ∧
    (read (overlappingSections.flatMap TextSection.written))[3]? = some "c" ∧
    (read (overlappingSections.flatMap TextSection.written))[8]? = none := by
  obtain ⟨hread, hlaid, -⟩ := read_sections overlappingSections
  have htext := hlaid (by decide)
  refine ⟨htext, ?_, ?_, ?_, ?_⟩
  · exact (hread _ htext 1).trans (by decide +kernel)
  · exact (hread _ htext 2).trans (by decide +kernel)
  · exact (hread _ htext 3).trans (by decide +kernel)
  · exact (hread _ htext 8).trans (by decide +kernel)

end ToUnicode

end ContentStream
