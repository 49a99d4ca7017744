import ContentStream.Object.Written
import ContentStream.Proofs.DecimalText
import ContentStream.Proofs.Locality

/-!
# Reading inverts writing

**Theorem (`itemsOf_written`).** A printable object is read back from what is written for it:
content that consists of its text has one item, an operand that equals the object. Numbers come back
with the fewest places that their value needs, and everything else as it was, entries in their
order.

Printable are null, booleans, numbers, strings, names without delimiters, blanks or escapes, and
arrays and dictionaries of printable objects. A literal string is written as text, so its bytes must
be text.

**The argument.** `ReadsAs` says that some bytes are read as one value wherever they stand, in front
of anything that ends a run. It holds of tokens (`Spelled.readsAs`), and it passes from the parts to
an array and to a dictionary, whose brackets open and close a container of the builder around them
(`readsAs_array`, `readsAs_dict`).
-/

namespace ContentStream

/-! ## Strings -/

/-- Whether a byte has a place in a hexadecimal string. -/
def Byte.isHexText (b : UInt8) : Bool := isBlank b || (hexValue? b).isSome

namespace Token

open ByteString

theorem escape_special {b : UInt8} (h : b = 40 ∨ b = 41 ∨ b = 92) (rest : List UInt8) :
    escape (b :: rest) = some ([b], 1) := by
  rcases h with rfl | rfl | rfl <;> rfl

theorem readLiteral_written (bytes : List UInt8) :
    readLiteral 0 0 (bytes.flatMap writeLiteral ++ [41]) =
      some (bytes, (bytes.flatMap writeLiteral).length + 1) := by
  induction bytes with
  | nil => rfl
  | cons b bytes ih =>
    by_cases hb : b = 40 ∨ b = 41 ∨ b = 92
    · have hwrite : writeLiteral b = [92, b] := by simp [writeLiteral, or_assoc, hb]
      rw [List.flatMap_cons, hwrite, List.append_assoc, List.cons_append, List.cons_append,
        readLiteral_escape rfl (escape_special hb _), readLiteral, List.nil_append, ih]
      simp [readMore]
    · have hwrite : writeLiteral b = [b] := by simp [writeLiteral, or_assoc, hb]
      obtain ⟨hopen, hclose, hescape⟩ : b ≠ 40 ∧ b ≠ 41 ∧ b ≠ 92 := by simpa using hb
      rw [List.flatMap_cons, hwrite, List.append_assoc, List.cons_append,
        readLiteral_plain hopen hclose hescape, List.nil_append, ih]
      simp [readMore]

theorem hexValue?_hexDigit : ∀ n < 16, Byte.hexValue? (hexDigit n) = some n := by decide

theorem filterMap_writeHex (bytes : List UInt8) :
    packDigits ((bytes.flatMap writeHex).filterMap Byte.hexValue?) = bytes := by
  induction bytes with
  | nil => rfl
  | cons b bytes ih =>
    have hb := b.toNat_lt
    have hhigh := hexValue?_hexDigit (b.toNat / 16) (by omega)
    have hlow := hexValue?_hexDigit (b.toNat % 16) (by omega)
    have hbyte : b.toNat / 16 * 16 + b.toNat % 16 = b.toNat := by omega
    rw [List.flatMap_cons, writeHex, List.cons_append, List.cons_append, List.nil_append,
      List.filterMap_cons_some hhigh, List.filterMap_cons_some hlow, packDigits, ih, hbyte]
    exact congrArg (· :: bytes) UInt8.ofNat_toNat

theorem hexValue?_of_mem_writeHex {bytes : List UInt8} {c : UInt8}
    (h : c ∈ bytes.flatMap writeHex) :
    (Byte.hexValue? c).isSome = true := by
  obtain ⟨b, -, hc⟩ := List.mem_flatMap.1 h
  have hb := b.toNat_lt
  rw [writeHex, List.mem_cons, List.mem_singleton] at hc
  rcases hc with rfl | rfl
  · rw [hexValue?_hexDigit _ (by omega)]
    rfl
  · rw [hexValue?_hexDigit _ (by omega)]
    rfl

section Body

variable {body : List UInt8}

theorem find?_of_hexText (h : ∀ c ∈ body, Byte.isHexText c = true) :
    body.find? (fun b => !Byte.isBlank b && (Byte.hexValue? b).isNone) = none := by
  rw [List.find?_eq_none]
  intro c hc
  have hplace := h c hc
  cases hblank : Byte.isBlank c <;> cases hvalue : Byte.hexValue? c <;>
    simp_all [Byte.isHexText]

theorem takeWhile_closed (h : 62 ∉ body) (after : List UInt8) :
    (body ++ 62 :: after).takeWhile (· != 62) = body := by
  have hbody : ∀ c ∈ body, (c != 62) = true := by
    intro c hc
    simpa using ne_of_mem_of_not_mem hc h
  rw [List.takeWhile_append_of_pos hbody]
  simp

/-- Digits and blanks up to the bracket are a string. -/
theorem readHex_closed (h : 62 ∉ body) (hbody : ∀ c ∈ body, Byte.isHexText c = true)
    (after : List UInt8) : readHex (body ++ 62 :: after) =
      (.ok (packDigits (body.filterMap Byte.hexValue?)), body.length + 1) := by
  simp [readHex, takeWhile_closed h, find?_of_hexText hbody]

end Body

theorem readHex_written (bytes : List UInt8) :
    readHex (bytes.flatMap writeHex ++ [62]) =
      (.ok bytes, (bytes.flatMap writeHex).length + 1) := by
  have hopen : 62 ∉ bytes.flatMap writeHex := by
    intro hmem
    cases hexValue?_of_mem_writeHex hmem
  have htext : ∀ c ∈ bytes.flatMap writeHex, Byte.isHexText c = true := by
    intro c hc
    rw [Byte.isHexText, hexValue?_of_mem_writeHex hc, Bool.or_true]
  rw [readHex_closed hopen htext, filterMap_writeHex]

theorem head?_writeHex_ne (bytes : List UInt8) :
    (bytes.flatMap writeHex ++ [62]).head? ≠ some 60 := by
  cases hinside : bytes.flatMap writeHex with
  | nil => simp
  | cons b inside =>
    have hdigit := hexValue?_of_mem_writeHex (hinside ▸ List.mem_cons_self)
    rintro ⟨⟩
    cases hdigit

/-- A written string is one token, from its opening bracket on. -/
theorem read_written (s : ByteString) :
    ∃ b inside, s.written = b :: inside ∧ (b = 40 ∨ b = 60) ∧
      ∀ o, read (Cursor.ahead o (b :: inside)) b = (.ok (.string s), inside.length) := by
  obtain ⟨bytes, form⟩ := s
  cases form with
  | literal =>
    refine ⟨40, bytes.flatMap writeLiteral ++ [41], rfl, .inl rfl, fun o => ?_⟩
    rw [read_literal, readLiteral_written, List.length_append]
    rfl
  | hex =>
    refine ⟨60, bytes.flatMap writeHex ++ [62], rfl, .inr rfl, fun o => ?_⟩
    rw [read_hex (head?_writeHex_ne bytes), readHex_written, List.length_append]
    rfl

/-! ## Names -/

/-- Whether bytes start with a number sign and two hexadecimal digits. -/
def startsEscape : List UInt8 → Bool
  | b :: hi :: lo :: _ => b == 35 && (Byte.hexValue? hi).isSome && (Byte.hexValue? lo).isSome
  | _ => false

theorem unescapeName_plain {bytes : List UInt8}
    (h : ∀ n < bytes.length, startsEscape (bytes.drop n) = false) : unescapeName bytes = bytes := by
  fun_induction unescapeName bytes with
  | case1 => rfl
  | case2 => rfl
  | case3 => rfl
  | case4 b c d rest hb hi lo hlo hhi ih =>
    have := h 0 (by simp)
    simp_all [startsEscape]
  | case5 b c d rest hb hno ih =>
    rw [ih fun n hn => h (n + 1) (Nat.succ_lt_succ hn)]
  | case6 b c d rest hb ih =>
    rw [ih fun n hn => h (n + 1) (Nat.succ_lt_succ hn)]

end Token

/-- A name that can be written as it is: its bytes are regular, and no escape starts among them. -/
def PlainName (name : String) : Prop :=
  (∀ b ∈ Utf8.encode name, Byte.isRegular b = true) ∧
    ∀ n < (Utf8.encode name).length, Token.startsEscape ((Utf8.encode name).drop n) = false

instance (name : String) : Decidable (PlainName name) :=
  @instDecidableAnd _ _ (List.decidableBAll _ _) (Nat.decidableBallLT _ _)

/-! ## Spelled tokens -/

namespace Cursor

theorem spelled_of_read {b : UInt8} {rest : List UInt8} {t : Token}
    (hb : blankLength false (b :: rest) = 0)
    (h : Token.read (ahead 0 (b :: rest)) b = (.ok t, rest.length)) : Spelled (b :: rest) t := by
  intro o
  have hdrop : (b :: rest).drop (blankLength false (b :: rest)) = b :: rest := by rw [hb]; rfl
  have hend : (ahead o (b :: rest)).advance (rest.length + 1) = ahead (o + (rest.length + 1)) [] :=
    (ahead_advance o (Nat.le_refl _)).trans (by rw [List.drop_length]; rfl)
  rw [token?_ahead hdrop, h, hb, Nat.add_zero]
  exact congrArg (Prod.mk _) hend

theorem spelled_mark (m : Mark) : Spelled (Utf8.encode m.text) (.mark m) := by
  cases m <;> exact spelled_of_read rfl rfl

theorem spelled_name {name : String} (h : PlainName name) :
    Spelled (47 :: Utf8.encode name) (.name name) := by
  have hrun : (Utf8.encode name).takeWhile Byte.isRegular = Utf8.encode name :=
    List.takeWhile_eq_self_iff.2 h.1
  refine spelled_of_read rfl ?_
  rw [Token.read_name, hrun, Token.unescapeName_plain h.2, Utf8.decode_encode]

theorem spelled_string (s : ByteString) : Spelled s.written (.string s) := by
  obtain ⟨b, inside, hwritten, hb, hread⟩ := Token.read_written s
  rw [hwritten]
  refine spelled_of_read ?_ (hread 0)
  rcases hb with rfl | rfl <;> rfl

/-- A run of regular bytes is a number or a word. -/
theorem spelled_run {b : UInt8} {rest : List UInt8} {t : Token}
    (hregular : (b :: rest).all Byte.isRegular = true)
    (ht : (if Token.startsNumber b then Token.ofNumber (b :: rest)
      else .ok (Token.ofWord (b :: rest))) = .ok t) : Spelled (b :: rest) t := by
  have hopening : ∀ c, Byte.isRegular c = true →
      c ∉ Token.opening ∧ c ≠ 37 ∧ Byte.isBlank c = false :=
    Utf8.forall_byte (by decide +kernel)
  have hall := List.all_eq_true.1 hregular
  obtain ⟨hb, hcomment, hblank⟩ := hopening b (hall b List.mem_cons_self)
  refine spelled_of_read (by simp [blankLength, hcomment, hblank]) ?_
  rw [Token.read_run hb, List.takeWhile_eq_self_iff.2 hall, ht]
  rfl

theorem spelled_number {d : Decimal} (h : d.minusZero = false) :
    Spelled (Utf8.encode d.render) (.number d) := by
  obtain ⟨b, rest, hbytes, hb⟩ := d.encode_render_startsNumber
  have hregular := d.encode_render_isRegular
  have hread := Decimal.read?_render h
  rw [hbytes] at hregular hread ⊢
  refine spelled_run (List.all_eq_true.2 hregular) ?_
  rw [if_pos hb, Token.ofNumber, hread]

theorem spelled_null : Spelled (Utf8.encode "null") .null :=
  spelled_run rfl rfl

theorem spelled_bool (v : Bool) :
    Spelled (Utf8.encode (if v then "true" else "false")) (.bool v) := by
  cases v <;> exact spelled_run rfl rfl

/-! ## Values -/

/-- The bytes are read as one value, wherever they stand in front of something that ends a run. -/
def ReadsAs (bytes : List UInt8) (value : Object) : Prop :=
  ∀ (o : Nat) (b : Builder) (tail : List UInt8), Byte.EndsRun tail →
    (ahead o (bytes ++ tail)).items b =
      (b.place o value).2 ++ (ahead (o + bytes.length) tail).items (b.place o value).1

theorem Spelled.readsAs {bytes : List UInt8} {t : Token} {value : Object} (h : Spelled bytes t)
    (hplace : ∀ (b : Builder) (pos : Nat), b.token pos t = b.place pos value)
    (hdata : ∀ b : Builder, b.imageData? t = none) : ReadsAs bytes value := by
  intro o b tail htail
  rw [items_spelled h (fun _ => htail) (hdata b), hplace]

end Cursor

/-! ## Containers -/

/-- A builder with one more container open. -/
def Builder.within (b : Builder) (c : OpenContainer) : Builder :=
  { b with containers := c :: b.containers }

namespace Cursor

/-- The bytes are read as values that go into the innermost container. -/
def Fills (bytes : List UInt8) (values : List Object) : Prop :=
  ∀ (o : Nat) (b : Builder) (c : OpenContainer) (tail : List UInt8), Byte.EndsRun tail →
    (ahead o (bytes ++ tail)).items (b.within c) =
      (ahead (o + bytes.length) tail).items
        (b.within { c with items := values.reverse ++ c.items })

theorem ReadsAs.fills {bytes : List UInt8} {value : Object} (h : ReadsAs bytes value) :
    Fills bytes [value] := fun o b c tail htail => h o (b.within c) tail htail

theorem fills_nil : Fills [] [] := fun _ _ _ _ _ => rfl

theorem fills_blank : Fills [32] [] := fun o b c tail _ => items_blank rfl o tail (b.within c)

/-- What ends a run between two parts belongs to the second. -/
theorem Fills.append {u v : List UInt8} {xs ys : List Object} (hu : Fills u xs) (hv : Fills v ys)
    (hends : ∀ tail, Byte.EndsRun tail → Byte.EndsRun (v ++ tail)) : Fills (u ++ v) (xs ++ ys) := by
  intro o b c tail htail
  rw [List.append_assoc, hu _ _ _ _ (hends tail htail), hv _ _ _ _ htail, List.length_append,
    Nat.add_assoc, List.reverse_append, List.append_assoc]

/-- Parts of a container, each with a blank in front. -/
def led (parts : List (List UInt8 × Object)) : List UInt8 := parts.flatMap fun p => 32 :: p.1

theorem endsRun_led (parts : List (List UInt8 × Object)) (tail : List UInt8)
    (h : Byte.EndsRun tail) : Byte.EndsRun (led parts ++ tail) := by
  cases parts with
  | nil => exact h
  | cons p parts => exact Byte.endsRun_cons rfl _

theorem ReadsAs.fills_blank {bytes : List UInt8} {value : Object} (h : ReadsAs bytes value) :
    Fills (32 :: bytes) [value] := by
  intro o b c tail htail
  rw [List.cons_append, items_blank rfl, h.fills _ _ _ _ htail, List.length_cons, Nat.add_assoc,
    Nat.add_comm 1]

theorem fills_led {parts : List (List UInt8 × Object)} (h : ∀ p ∈ parts, ReadsAs p.1 p.2) :
    Fills (led parts) (parts.map Prod.snd) := by
  induction parts with
  | nil => exact fills_nil
  | cons p parts ih =>
    obtain ⟨hp, hparts⟩ := List.forall_mem_cons.1 h
    exact hp.fills_blank.append (ih hparts) (endsRun_led parts)

theorem intercalate_blank (p : List UInt8 × Object) (parts : List (List UInt8 × Object)) :
    [32].intercalate ((p :: parts).map Prod.fst) = p.1 ++ led parts := by
  induction parts generalizing p with
  | nil => simp [led, List.intercalate]
  | cons q parts ih =>
    rw [List.map_cons, List.map_cons, List.intercalate_cons_cons, ← List.map_cons, ih]
    simp [led]

theorem fills_spaced {parts : List (List UInt8 × Object)} (h : ∀ p ∈ parts, ReadsAs p.1 p.2) :
    Fills ([32].intercalate (parts.map Prod.fst)) (parts.map Prod.snd) := by
  cases parts with
  | nil => exact fills_nil
  | cons p parts =>
    obtain ⟨hp, hparts⟩ := List.forall_mem_cons.1 h
    rw [intercalate_blank]
    exact hp.fills.append (fills_led hparts) (endsRun_led parts)

/-- A container is read from its brackets and what fills it. -/
theorem Fills.readsAs {inside : List UInt8} {values : List Object} {value : Object}
    (h : Fills inside values) (opening closing : Mark) (kind : Container)
    (hopen : ∀ (b : Builder) (pos : Nat),
      b.mark pos opening = (b.within { kind := kind, start := pos }, []))
    (hclose : ∀ (b : Builder) (c : OpenContainer) (pos : Nat), c.kind = kind →
      (b.within c).mark pos closing = b.finishContainer c)
    (hvalue : ∀ (b : Builder) (pos : Nat),
      b.finishContainer { kind := kind, start := pos, items := values.reverse } = b.place pos value)
    (hends : ∀ tail, Byte.EndsRun (Utf8.encode closing.text ++ tail)) :
    ReadsAs (Utf8.encode opening.text ++ (inside ++ Utf8.encode closing.text)) value := by
  intro o b tail htail
  have hspelled (m : Mark) (b : Builder) (o : Nat) (tail : List UInt8) :
      (ahead o (Utf8.encode m.text ++ tail)).items b =
        (b.mark o m).2 ++ (ahead (o + (Utf8.encode m.text).length) tail).items (b.mark o m).1 :=
    items_spelled (spelled_mark m) (fun h => by cases h) rfl o
  rw [List.append_assoc, List.append_assoc, hspelled, hopen, List.nil_append,
    h _ _ _ _ (hends tail), hspelled, hclose _ _ _ rfl, List.append_nil, hvalue]
  simp only [List.length_append, Nat.add_assoc]

theorem readsAs_array {inside : List UInt8} {values : List Object} (h : Fills inside values) :
    ReadsAs (91 :: (inside ++ [93])) (.array values) := by
  refine h.readsAs .arrayOpen .arrayClose .array (fun _ _ => rfl) (fun b c pos hc => ?_)
    (fun b pos => ?_) (fun tail => Byte.endsRun_cons rfl tail)
  · exact if_pos hc
  · simp [Builder.finishContainer]

/-- The entries that keys and values make. -/
def entryValues (entries : List (String × Object)) : List Object :=
  entries.flatMap fun e => [.name e.1, e.2]

theorem pairEntries_entryValues (entries : List (String × Object)) :
    pairEntries (entryValues entries) = (entries, false) := by
  induction entries with
  | nil => rfl
  | cons e entries ih =>
    show pairEntries (.name e.1 :: e.2 :: entryValues entries) = _
    rw [pairEntries, ih]

theorem readsAs_dict {inside : List UInt8} {entries : List (String × Object)}
    (h : Fills inside (entryValues entries)) :
    ReadsAs (60 :: 60 :: (inside ++ [62, 62])) (.dict (Dict.ofEntries entries)) := by
  refine h.readsAs .dictOpen .dictClose .dict (fun _ _ => rfl) (fun b c pos hc => ?_)
    (fun b pos => ?_) (fun tail => Byte.endsRun_cons rfl (62 :: tail))
  · exact if_pos hc
  · simp [Builder.finishContainer, pairEntries_entryValues]

end Cursor

/-! ## Objects -/

namespace Dict

theorem insert_of_not_mem {d : Dict} {key : String} (h : key ∉ d.map Prod.fst) (value : Object) :
    insert d key value = d ++ [(key, value)] := by
  induction d with
  | nil => rfl
  | cons e d ih =>
    rw [List.map_cons, List.mem_cons, not_or] at h
    obtain ⟨k, v⟩ := e
    rw [insert, if_neg (by simpa using Ne.symm h.1), ih h.2, List.cons_append]

theorem foldl_insert_of_nodup {d entries : Dict} (h : ((d ++ entries).map Prod.fst).Nodup) :
    entries.foldl (fun d (key, value) => insert d key value) d = d ++ entries := by
  induction entries generalizing d with
  | nil => simp
  | cons e entries ih =>
    obtain ⟨key, value⟩ := e
    have hkey : key ∉ d.map Prod.fst := by
      rw [List.map_append, List.map_cons] at h
      exact fun hmem => (List.nodup_append.1 h).2.2 key hmem key List.mem_cons_self rfl
    show entries.foldl _ (insert d key value) = _
    rw [insert_of_not_mem hkey, ih (by simpa using h), List.append_assoc, List.singleton_append]

/-- Entries with different keys are a dictionary as they are. -/
theorem ofEntries_of_nodup {entries : Dict} (h : (entries.map Prod.fst).Nodup) :
    ofEntries entries = entries := by
  rw [ofEntries, foldl_insert_of_nodup (by simpa using h), List.nil_append]

end Dict

namespace Object

mutual

/-- The object with every number in its fewest places. -/
def normalized : Object → Object
  | number n => number n.normalize
  | array items => array (normalizedItems items)
  | dict entries => dict (normalizedEntries entries)
  | o => o

def normalizedItems : List Object → List Object
  | [] => []
  | o :: rest => normalized o :: normalizedItems rest

def normalizedEntries : List (String × Object) → List (String × Object)
  | [] => []
  | (k, v) :: rest => (k, normalized v) :: normalizedEntries rest

end

/-- An object that is written the way content spells it. -/
inductive Printable : Object → Prop where
  | null : Printable .null
  | bool (v : Bool) : Printable (.bool v)
  | number (n : Decimal) : Printable (.number n)
  | hex (bytes : List UInt8) : Printable (.string ⟨bytes, .hex⟩)
  | literal {bytes : List UInt8} : Utf8.IsText bytes → Printable (.string ⟨bytes, .literal⟩)
  | name {n : String} : PlainName n → Printable (.name n)
  | array {items : List Object} : (∀ o ∈ items, Printable o) → Printable (.array items)
  | dict {entries : List (String × Object)} : (entries.map Prod.fst).Nodup →
    (∀ e ∈ entries, PlainName e.1) → (∀ e ∈ entries, Printable e.2) → Printable (.dict entries)

theorem normalizedItems_eq (items : List Object) :
    normalizedItems items = items.map normalized := by
  induction items with
  | nil => rfl
  | cons o items ih => rw [normalizedItems, ih, List.map_cons]

theorem normalizedEntries_eq (entries : List (String × Object)) :
    normalizedEntries entries = entries.map fun e => (e.1, e.2.normalized) := by
  induction entries with
  | nil => rfl
  | cons e entries ih => rw [normalizedEntries, ih, List.map_cons]

/-! ## Their bytes -/

/-- The parts of an array. -/
def itemParts (items : List Object) : List (List UInt8 × Object) :=
  items.map fun o => (Utf8.encode o.written, o.normalized)

/-- The parts of a dictionary: its keys and values. -/
def entryParts (entries : List (String × Object)) : List (List UInt8 × Object) :=
  entries.flatMap fun e =>
    [(47 :: Utf8.encode e.1, .name e.1), (Utf8.encode e.2.written, e.2.normalized)]

theorem encode_writtenEntries (entries : List (String × Object)) :
    Utf8.encode (writtenEntries entries) = Cursor.led (entryParts entries) := by
  induction entries with
  | nil => rfl
  | cons e entries ih =>
    have hslash : Utf8.encode " /" = [32, 47] := rfl
    have hblank : Utf8.encode " " = [32] := rfl
    simp [writtenEntries, ih, hslash, hblank, entryParts, Cursor.led]

theorem encode_dict (entries : List (String × Object)) :
    Utf8.encode (written (.dict entries)) =
      60 :: 60 :: (Cursor.led (entryParts entries) ++ [32] ++ [62, 62]) := by
  have hopen : Utf8.encode "<<" = [60, 60] := rfl
  have hclose : Utf8.encode " >>" = [32, 62, 62] := rfl
  simp [written, hopen, hclose, encode_writtenEntries]

theorem encode_intercalate (texts : List String) :
    Utf8.encode (" ".intercalate texts) = [32].intercalate (texts.map Utf8.encode) := by
  induction texts with
  | nil => rfl
  | cons s texts ih =>
    cases texts with
    | nil => simp [List.intercalate]
    | cons t texts =>
      have hblank : Utf8.encode " " = [32] := rfl
      rw [String.intercalate_cons_cons, Utf8.encode_append, Utf8.encode_append, ih, hblank]
      simp only [List.map_cons, List.intercalate_cons_cons]

theorem writtenItems_eq (items : List Object) : writtenItems items = items.map written := by
  induction items with
  | nil => rfl
  | cons o items ih => rw [writtenItems, ih, List.map_cons]

theorem encode_array (items : List Object) :
    Utf8.encode (written (.array items)) =
      91 :: ([32].intercalate ((itemParts items).map Prod.fst) ++ [93]) := by
  have hopen : Utf8.encode "[" = [91] := rfl
  have hclose : Utf8.encode "]" = [93] := rfl
  simp [written, hopen, hclose, encode_intercalate, writtenItems_eq, itemParts, Function.comp_def]

theorem map_snd_entryParts (entries : List (String × Object)) :
    (entryParts entries).map Prod.snd = Cursor.entryValues (normalizedEntries entries) := by
  simp [entryParts, Cursor.entryValues, normalizedEntries_eq, List.map_flatMap, List.flatMap_map]

/-- A backslash in front of a byte of ASCII leaves text text. -/
theorem isText_writeLiteral (c : Char) :
    Utf8.IsText ((String.utf8EncodeChar c).flatMap ByteString.writeLiteral) := by
  by_cases hc : c.toNat < 128
  · have hb : (UInt8.ofNat c.toNat).toNat < 128 :=
      Nat.lt_of_le_of_lt (Nat.mod_le _ _) hc
    rw [Utf8.encodeChar_ascii hc, List.flatMap_singleton, ByteString.writeLiteral]
    split
    · exact (Utf8.isText_ascii (b := 92) (by decide)).append (Utf8.isText_ascii hb)
    · exact Utf8.isText_ascii hb
  · have hplain : ∀ b ∈ String.utf8EncodeChar c, ByteString.writeLiteral b = [b] := by
      intro b hb
      have := Utf8.le_of_mem_encodeChar (Nat.le_of_not_lt hc) hb
      refine if_neg ?_
      simp only [Bool.or_eq_true, beq_iff_eq, not_or]
      refine ⟨⟨?_, ?_⟩, ?_⟩ <;> rintro rfl <;> exact absurd this (by decide)
    rw [List.flatMap_def, List.map_congr_left hplain, ← List.flatMap_def, List.flatMap_singleton']
    exact Utf8.isText_char c

/-- A written string is text. -/
theorem encode_literal {bytes : List UInt8} (h : Utf8.IsText bytes) :
    Utf8.encode (written (.string ⟨bytes, .literal⟩)) = ByteString.written ⟨bytes, .literal⟩ := by
  obtain ⟨text, rfl⟩ := h
  have hinside : Utf8.IsText ((Utf8.encode text).flatMap ByteString.writeLiteral) := by
    rw [Utf8.encode, List.flatMap_assoc]
    exact Utf8.isText_flatMap fun c _ => isText_writeLiteral c
  exact Utf8.IsText.encode_decode (((Utf8.isText_ascii (b := 40) (by decide)).append hinside).append
    (Utf8.isText_ascii (b := 41) (by decide)))

theorem hexDigit_ascii : ∀ n < 16, (ByteString.hexDigit n).toNat < 128 := by decide

theorem encode_hex (bytes : List UInt8) :
    Utf8.encode (written (.string ⟨bytes, .hex⟩)) = ByteString.written ⟨bytes, .hex⟩ := by
  have hinside : Utf8.IsText (bytes.flatMap ByteString.writeHex) := by
    refine Utf8.isText_flatMap fun b _ => ?_
    have hb := b.toNat_lt
    exact (Utf8.isText_ascii (hexDigit_ascii _ (by omega))).append
      (Utf8.isText_ascii (hexDigit_ascii _ (by omega)))
  exact Utf8.IsText.encode_decode (((Utf8.isText_ascii (b := 60) (by decide)).append hinside).append
    (Utf8.isText_ascii (b := 62) (by decide)))

theorem readsAs_entryParts {entries : List (String × Object)}
    (hnames : ∀ e ∈ entries, PlainName e.1)
    (hvalues : ∀ e ∈ entries, Cursor.ReadsAs (Utf8.encode e.2.written) e.2.normalized) :
    ∀ p ∈ entryParts entries, Cursor.ReadsAs p.1 p.2 := by
  intro p hp
  obtain ⟨e, he, hp⟩ := List.mem_flatMap.1 hp
  rw [List.mem_cons, List.mem_singleton] at hp
  rcases hp with rfl | rfl
  · exact (Cursor.spelled_name (hnames e he)).readsAs (fun _ _ => rfl) fun _ => rfl
  · exact hvalues e he

/-- **Printable objects** are read back wherever they are written. -/
theorem Printable.readsAs {o : Object} (h : Printable o) :
    Cursor.ReadsAs (Utf8.encode o.written) o.normalized := by
  induction h with
  | null => exact Cursor.spelled_null.readsAs (fun _ _ => rfl) fun _ => rfl
  | bool v => exact (Cursor.spelled_bool v).readsAs (fun _ _ => rfl) fun _ => rfl
  | number n => exact (Cursor.spelled_number rfl).readsAs (fun _ _ => rfl) fun _ => rfl
  | hex bytes =>
    rw [encode_hex]
    exact (Cursor.spelled_string _).readsAs (fun _ _ => rfl) fun _ => rfl
  | literal h =>
    rw [encode_literal h]
    exact (Cursor.spelled_string _).readsAs (fun _ _ => rfl) fun _ => rfl
  | name h =>
    rw [written, Utf8.encode_append]
    exact (Cursor.spelled_name h).readsAs (fun _ _ => rfl) fun _ => rfl
  | @array items h ih =>
    have hparts : ∀ p ∈ itemParts items, Cursor.ReadsAs p.1 p.2 := by
      intro p hp
      obtain ⟨o, ho, rfl⟩ := List.mem_map.1 hp
      exact ih o ho
    have hvalues : (itemParts items).map Prod.snd = normalizedItems items := by
      rw [normalizedItems_eq, itemParts, List.map_map]
      rfl
    rw [encode_array, normalized, ← hvalues]
    exact Cursor.readsAs_array (Cursor.fills_spaced hparts)
  | @dict entries hkeys hnames h ih =>
    have hparts := readsAs_entryParts hnames ih
    have hkeys' : ((normalizedEntries entries).map Prod.fst).Nodup := by
      rw [normalizedEntries_eq, List.map_map]
      exact hkeys
    have hfills := (Cursor.fills_led hparts).append Cursor.fills_blank fun tail _ =>
      Byte.endsRun_cons rfl tail
    rw [List.append_nil, map_snd_entryParts] at hfills
    rw [encode_dict, normalized, ← Dict.ofEntries_of_nodup hkeys']
    exact Cursor.readsAs_dict hfills

/-! ## Equality -/

theorem lookup_of_mem_nodup {entries : List (String × Object)}
    (hkeys : (entries.map Prod.fst).Nodup) {e : String × Object} (he : e ∈ entries) :
    entries.lookup e.1 = some e.2 := by
  induction entries with
  | nil => cases he
  | cons e' entries ih =>
    rw [List.map_cons, List.nodup_cons] at hkeys
    rcases List.mem_cons.1 he with rfl | he
    · rw [List.lookup_cons, beq_self_eq_true]
    · have hne : e.1 ≠ e'.1 := fun heq => hkeys.1 (heq ▸ List.mem_map_of_mem he)
      rw [List.lookup_cons, beq_eq_false_iff_ne.2 hne]
      exact ih hkeys.2 he

theorem beqItems_map {f : Object → Object} {items : List Object}
    (h : ∀ o ∈ items, beq (f o) o = true) : beqItems (items.map f) items = true := by
  induction items with
  | nil => rfl
  | cons o items ih =>
    obtain ⟨ho, hitems⟩ := List.forall_mem_cons.1 h
    rw [List.map_cons, beqItems, ho, ih hitems]
    rfl

theorem beqEntries_of_lookup {entries d : List (String × Object)}
    (h : ∀ e ∈ entries, ∃ w, d.lookup e.1 = some w ∧ beq e.2 w = true) :
    beqEntries entries d = true := by
  induction entries with
  | nil => rfl
  | cons e entries ih =>
    obtain ⟨⟨w, hlookup, hw⟩, hentries⟩ := List.forall_mem_cons.1 h
    obtain ⟨k, v⟩ := e
    rw [beqEntries, ih hentries, hlookup]
    exact (Bool.and_true _).trans hw

/-- Normalizing does not change the value. -/
theorem Printable.normalized_beq {o : Object} (h : Printable o) : beq o.normalized o = true := by
  induction h with
  | null => rfl
  | bool v => exact beq_self_eq_true v
  | number n => exact n.normalize_beq
  | hex bytes => exact beq_self_eq_true (ByteString.mk bytes .hex)
  | @literal bytes _ => exact beq_self_eq_true (ByteString.mk bytes .literal)
  | @name n _ => exact beq_self_eq_true n
  | array h ih =>
    rw [normalized, normalizedItems_eq]
    exact beqItems_map ih
  | @dict entries hkeys hnames h ih =>
    rw [normalized, normalizedEntries_eq, beq, List.length_map, beq_self_eq_true, Bool.true_and]
    refine beqEntries_of_lookup fun e he => ?_
    obtain ⟨e, he', rfl⟩ := List.mem_map.1 he
    exact ⟨e.2, lookup_of_mem_nodup hkeys he', ih e he'⟩

end Object

/-- **Reading inverts writing.** The text of a printable object is content with one item, an operand
equal to the object. -/
theorem Content.itemsOf_written {o : Object} (h : o.Printable) :
    itemsOf (Utf8.encode o.written) = [(0, .ok (.operand o.normalized))] ∧
      (o.normalized == o) = true := by
  refine ⟨?_, h.normalized_beq⟩
  have hread := h.readsAs 0 {} [] (by decide)
  rw [List.append_nil] at hread
  rw [itemsOf_eq, hread, Cursor.items_end rfl]
  rfl

/-- An object with an empty name, an empty string in front of a bracket, a negative number with a
zero to drop, and parentheses and a backslash in a string. -/
def nestedObject : Object :=
  .dict [
    ("K", .array [
      .number { coeff := -150, scale := 2, coeff_lt := by decide, scale_le := by decide },
      .dict [("S", .string ⟨[], .hex⟩)],
      .string ⟨Utf8.encode "(é\\", .literal⟩]),
    ("", .name "A#1"),
    ("N", .array [])]

theorem nestedObject_printable : nestedObject.Printable := by
  refine .dict (by decide) (by decide) ?_
  simp only [List.forall_mem_cons, List.not_mem_nil, false_implies, implies_true, and_true]
  refine ⟨.array ?_, .name (by decide), .array (by simp)⟩
  simp only [List.forall_mem_cons, List.not_mem_nil, false_implies, implies_true, and_true]
  refine ⟨.number _, .dict (by decide) (by decide) ?_, .literal ⟨_, rfl⟩⟩
  simpa using .hex []

theorem Content.itemsOf_written_nestedObject :
    nestedObject.written = "<< /K [-1.5 << /S <> >> (\\(é\\\\)] / /A#1 /N [] >>" ∧
      nestedObject.Printable ∧
      itemsOf (Utf8.encode nestedObject.written) = [(0, .ok (.operand nestedObject.normalized))] ∧
      (nestedObject.normalized == nestedObject) = true :=
  ⟨rfl, nestedObject_printable, itemsOf_written nestedObject_printable⟩

end ContentStream
