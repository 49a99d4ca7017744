import ContentStream.Proofs.Printing
import ContentStream.Proofs.TokenPlaces

/-!
# String tokens

A string ends with a bracket of its own, so it is read from the bytes ahead alone and may be cut by
the ends of segments anywhere: inside an escape, between two digits, in front of its bracket.

**Theorem (`tokenAt_written`).** A string of either form that is written out is read back, bytes and
form, whatever follows it and however the content is cut.

**Theorem (`tokenAt_hexString`).** What follows `<` decides what a hexadecimal string is. Up to the
first `>`, blanks and digits make a string and any other byte makes a malformed token. With no `>`
the content is truncated, but only if there is no such byte: it is met before the end is.
-/

namespace ContentStream

/-- A string is read from the bytes ahead alone. -/
theorem Token.read_string {b : UInt8} (hb : b = 40 ∨ b = 60) (c : Cursor) :
    read c b = read (Cursor.ahead c.offset c.rest) b := by
  have hnext : (Cursor.ahead c.offset c.rest).next.rest = c.next.rest := by
    rw [Cursor.next_rest, Cursor.next_rest]
    rfl
  have hpeek : (Cursor.ahead c.offset c.rest).peek? 1 = c.peek? 1 := rfl
  rcases hb with rfl | rfl
  · simp [read, hnext]
  · simp [read, hnext, hpeek]

namespace Content

variable {segments : List (List UInt8)}

/-- A token that starts with the bracket of a string, from the bytes behind the bracket. -/
theorem tokenAt_string {before rest : List UInt8} {b : UInt8} {found : Except TokenError Token}
    {n : Nat} (h : segments.flatten = before ++ b :: rest) (hb : b = 40 ∨ b = 60)
    (hread : ∀ o, Token.read (Cursor.ahead o (b :: rest)) b = (found, n)) (hn : n ≤ rest.length) :
    TokenAt segments before.length found (before.length + (n + 1)) := by
  have hrest : segments.flatten.drop before.length = b :: rest := by rw [h, List.drop_left]
  have hfound : Token.read (Cursor.onSegments segments before.length) b = (found, n) := by
    rw [Token.read_string hb, Cursor.onSegments_rest, hrest]
    exact hread _
  rcases hb with rfl | rfl
  · exact tokenAt_of_read hrest rfl (by decide) hfound hn
  · exact tokenAt_of_read hrest rfl (by decide) hfound hn

/-! ## Written strings -/

/-- **Written strings** are read back from content that is cut in any way: the bytes and the form of
the string, with the reader right behind it. -/
theorem tokenAt_written (s : ByteString) (before after : List UInt8)
    (h : segments.flatten = before ++ (s.written ++ after)) :
    TokenAt segments before.length (.ok (.string s)) (before.length + s.written.length) := by
  obtain ⟨b, inside, hwritten, hb, hread⟩ := Token.read_written s
  have hclosed : (Token.string s).isClosed = false → Byte.EndsRun after := by
    intro hopen
    cases hopen
  rw [hwritten, List.cons_append] at h
  rw [hwritten]
  exact tokenAt_string h hb (fun o => (Token.read_append (hread o) hclosed).1) (by simp)

/-- Strings of both forms, cut behind a backslash, inside a pair of digits and in front of the
closing brackets, and followed by what could go on with them. -/
theorem tokenAt_written_cut :
    ([[40, 92], [41, 13, 92], [], [92, 49], [41, 41]] : List (List UInt8)).flatten =
        [] ++ (ByteString.written ⟨[41, 13, 92, 49], .literal⟩ ++ [41]) ∧
      TokenAt [[40, 92], [41, 13, 92], [], [92, 49], [41, 41]] 0
        (.ok (.string ⟨[41, 13, 92, 49], .literal⟩)) 8 ∧
      TokenAt [[60, 51], [67], [48, 65, 62, 62]] 0 (.ok (.string ⟨[60, 10], .hex⟩)) 6 :=
  ⟨rfl, tokenAt_written ⟨[41, 13, 92, 49], .literal⟩ [] [41] rfl,
    tokenAt_written ⟨[60, 10], .hex⟩ [] [62] rfl⟩

end Content

/-! ## Hexadecimal strings -/

namespace Byte

theorem hexValue?_all : ∀ b, (hexValue? b).all (· < 16) = true :=
  Utf8.forall_byte (by decide +kernel)

theorem hexValue?_lt {b : UInt8} {n : Nat} (h : hexValue? b = some n) : n < 16 := by
  simpa [h] using hexValue?_all b

end Byte

namespace Token

/-- The digits in pairs are these bytes: the digits of a byte are the one at twice its index and the
one behind it, and a last single digit is followed by a zero. -/
def Paired (digits : List Nat) (bytes : List UInt8) : Prop :=
  ∀ i, bytes[i]?.map UInt8.toNat =
    digits[2 * i]?.map fun high => 16 * high + digits[2 * i + 1]?.getD 0

theorem toNat_pair {high low : Nat} (hhigh : high < 16) (hlow : low < 16) :
    (high * 16 + low).toUInt8.toNat = 16 * high + low := by
  rw [Nat.toUInt8, UInt8.toNat_ofNat']
  omega

theorem paired_packDigits {digits : List Nat} (h : ∀ d ∈ digits, d < 16) :
    Paired digits (packDigits digits) := by
  fun_induction packDigits digits with
  | case1 high low rest ih =>
    obtain ⟨hhigh, hlow, hrest⟩ : high < 16 ∧ low < 16 ∧ ∀ d ∈ rest, d < 16 := by simpa using h
    intro i
    cases i with
    | zero => simpa using toNat_pair hhigh hlow
    | succ i =>
      have hlater := ih hrest i
      simpa [Nat.mul_succ] using hlater
  | case2 high =>
    have hhigh : high < 16 := by simpa using h
    intro i
    cases i with
    | zero => simpa using toNat_pair hhigh (Nat.zero_lt_succ 15)
    | succ i => simp [Nat.mul_succ]
  | case3 =>
    intro i
    simp

theorem hexDigits_lt (body : List UInt8) : ∀ d ∈ body.filterMap Byte.hexValue?, d < 16 := by
  intro d hd
  obtain ⟨b, -, hb⟩ := List.mem_filterMap.1 hd
  exact Byte.hexValue?_lt hb

/-- The first byte that has no place in a hexadecimal string. -/
def SpoiledBy (body : List UInt8) (b : UInt8) : Prop :=
  ∃ good rest, body = good ++ b :: rest ∧ (∀ c ∈ good, Byte.isHexText c = true) ∧
    Byte.isHexText b = false

section Body

variable {body : List UInt8} {b : UInt8}

theorem exists_spoiledBy (h : ¬ ∀ c ∈ body, Byte.isHexText c = true) :
    ∃ b, SpoiledBy body b := by
  induction body with
  | nil => simp at h
  | cons c body ih =>
    by_cases hc : Byte.isHexText c = true
    · obtain ⟨b, good, rest, rfl, hgood, hb⟩ := ih (by simpa [hc] using h)
      exact ⟨b, c :: good, rest, rfl, List.forall_mem_cons.2 ⟨hc, hgood⟩, hb⟩
    · exact ⟨c, [], body, rfl, by simp, by simpa using hc⟩

theorem SpoiledBy.find? (h : SpoiledBy body b) :
    body.find? (fun b => !Byte.isBlank b && (Byte.hexValue? b).isNone) = some b := by
  obtain ⟨good, rest, rfl, hgood, hb⟩ := h
  rw [List.find?_append, find?_of_hexText hgood, Option.none_or]
  apply List.find?_cons_of_pos
  cases hblank : Byte.isBlank b <;> cases hvalue : Byte.hexValue? b <;>
    simp_all [Byte.isHexText]

/-- Any other byte in front of the bracket spoils the string up to the bracket. -/
theorem readHex_spoiled (h : 62 ∉ body) (hbody : SpoiledBy body b) (after : List UInt8) :
    readHex (body ++ 62 :: after) = (.error (.malformed (.hexDigit b)), body.length + 1) := by
  simp [readHex, takeWhile_closed h, hbody.find?]

theorem takeWhile_open (h : 62 ∉ body) : body.takeWhile (· != 62) = body := by
  rw [List.takeWhile_eq_self_iff]
  intro c hc
  simpa using ne_of_mem_of_not_mem hc h

theorem readHex_truncated (h : 62 ∉ body) (hbody : ∀ c ∈ body, Byte.isHexText c = true) :
    readHex body = (.error .truncated, body.length) := by
  simp [readHex, takeWhile_open h, find?_of_hexText hbody]

/-- With no bracket ahead, a byte that spoils the string is all that is reported. -/
theorem readHex_spoiled_open (h : 62 ∉ body) (hbody : SpoiledBy body b) :
    readHex body = (.error (.malformed (.hexDigit b)), body.length) := by
  simp [readHex, takeWhile_open h, hbody.find?]

end Body

end Token

namespace Content

variable {segments : List (List UInt8)}

theorem tokenAt_readHex {before t : List UInt8} (h : segments.flatten = before ++ 60 :: t)
    (ht : t.head? ≠ some 60) {bytes : Except TokenError (List UInt8)} {used : Nat}
    (hread : Token.readHex t = (bytes, used)) (hused : used ≤ t.length) :
    TokenAt segments before.length (bytes.map fun bytes => .string ⟨bytes, .hex⟩)
      (before.length + (used + 1)) := by
  refine tokenAt_string h (.inr rfl) (fun o => ?_) hused
  rw [Token.read_hex ht, hread]

/-- **Hexadecimal strings** by what follows their opening bracket. -/
theorem tokenAt_hexString (before t : List UInt8) (h : segments.flatten = before ++ 60 :: t)
    (ht : t.head? ≠ some 60) :
    (∀ body after, t = body ++ 62 :: after → 62 ∉ body →
      ((∀ b ∈ body, Byte.isHexText b = true) →
        ∃ bytes, Token.Paired (body.filterMap Byte.hexValue?) bytes ∧
          TokenAt segments before.length (.ok (.string ⟨bytes, .hex⟩))
            (before.length + (body.length + 2))) ∧
      ((¬ ∀ b ∈ body, Byte.isHexText b = true) →
        ∃ b, Token.SpoiledBy body b ∧
          TokenAt segments before.length (.error (.malformed (.hexDigit b)))
            (before.length + (body.length + 2)))) ∧
    (62 ∉ t →
      ((∀ b ∈ t, Byte.isHexText b = true) →
        TokenAt segments before.length (.error .truncated) (before.length + (t.length + 1))) ∧
      ((¬ ∀ b ∈ t, Byte.isHexText b = true) →
        ∃ b, Token.SpoiledBy t b ∧
          TokenAt segments before.length (.error (.malformed (.hexDigit b)))
            (before.length + (t.length + 1)))) := by
  constructor
  · rintro body after rfl hbody
    have hused : body.length + 1 ≤ (body ++ 62 :: after).length := by simp
    constructor
    · intro htext
      exact ⟨_, Token.paired_packDigits (Token.hexDigits_lt body),
        tokenAt_readHex h ht (Token.readHex_closed hbody htext after) hused⟩
    · intro htext
      obtain ⟨b, hspoiled⟩ := Token.exists_spoiledBy htext
      exact ⟨b, hspoiled, tokenAt_readHex h ht (Token.readHex_spoiled hbody hspoiled after) hused⟩
  · intro hopen
    constructor
    · intro htext
      exact tokenAt_readHex h ht (Token.readHex_truncated hopen htext) (Nat.le_refl _)
    · intro htext
      obtain ⟨b, hspoiled⟩ := Token.exists_spoiledBy htext
      exact ⟨b, hspoiled,
        tokenAt_readHex h ht (Token.readHex_spoiled_open hopen hspoiled) (Nat.le_refl _)⟩

/-- An odd number of digits with a blank between the halves of a byte, in two segments. -/
theorem tokenAt_hexString_odd :
    ([[60, 52], [32, 49, 53, 62, 62]] : List (List UInt8)).flatten =
        [] ++ 60 :: [52, 32, 49, 53, 62, 62] ∧
      ([52, 32, 49, 53, 62, 62] : List UInt8).head? ≠ some 60 ∧
      ∃ bytes, Token.Paired [4, 1, 5] bytes ∧
        TokenAt [[60, 52], [32, 49, 53, 62, 62]] 0 (.ok (.string ⟨bytes, .hex⟩)) 6 :=
  ⟨rfl, by simp,
    ((tokenAt_hexString [] [52, 32, 49, 53, 62, 62] rfl (by simp)).1 [52, 32, 49, 53] [62] rfl
      (by simp)).1 (by simp [Byte.isHexText, Byte.isBlank, Byte.hexValue?])⟩

/-- A byte that is no digit hides the end of the content: with no closing bracket ahead, the token
is malformed, and nothing is truncated. -/
theorem unclosed_hexString_not_truncated :
    62 ∉ ([122] : List UInt8) ∧
      TokenAt [[60, 122]] 0 (.error (.malformed (.hexDigit 122))) 2 ∧
      ¬ ∃ stop, TokenAt [[60, 122]] 0 (.error .truncated) stop := by
  have hbytes : ([[60, 122]] : List (List UInt8)).flatten = [] ++ 60 :: [122] := rfl
  have hspoiled : Token.SpoiledBy [122] 122 := ⟨[], [], rfl, by simp, rfl⟩
  have hfound : TokenAt [[60, 122]] 0 (.error (.malformed (.hexDigit 122))) 2 :=
    tokenAt_readHex hbytes (by simp) (Token.readHex_spoiled_open (by simp) hspoiled)
      (Nat.le_refl _)
  refine ⟨by simp, hfound, ?_⟩
  rintro ⟨stop, htruncated⟩
  cases (hfound.unique htruncated).1

end Content

end ContentStream
