import ContentStream.Text.Utf8
import Mathlib.Data.List.TakeWhile

/-!
# Text survives its bytes

**Theorem (`decode_encode`).** The bytes that spell a text are read as that text. The reader
replaces what is no UTF-8, so this says that it takes none of the spelled characters for such bytes.

The four lengths of a character are four cases of `first_encodeChar`. What a leading byte allows the
next one to be (`following`) is checked for all leading bytes, and the rest is arithmetic with the
number of the character.
-/

namespace ContentStream.Utf8

/-- What holds of the 256 bytes by their numbers holds of every byte. -/
theorem forall_byte {P : UInt8 → Prop} (h : ∀ n < 256, P (UInt8.ofNat n)) (b : UInt8) : P b := by
  have hb := h b.toNat b.toNat_lt
  rwa [UInt8.ofNat_toNat] at hb

/-! ## The bytes of a character -/

theorem following_two : ∀ n < 32, 2 ≤ n →
    following (UInt8.ofNat (n + 192)) = some (1, 0x80, 0xBF) := by decide

theorem following_three : ∀ n < 16,
    following (UInt8.ofNat (n + 224)) =
      some (2, if n = 0 then 0xA0 else 0x80, if n = 13 then 0x9F else 0xBF) := by decide

theorem following_four : ∀ n < 5,
    following (UInt8.ofNat (n + 240)) =
      some (3, if n = 0 then 0x90 else 0x80, if n = 4 then 0x8F else 0xBF) := by decide

theorem isContinuation_ofNat : ∀ n < 64, isContinuation (UInt8.ofNat (n + 128)) = true := by decide

theorem payload_ofNat : ∀ n < 64, payload (UInt8.ofNat (n + 128)) = n := by decide

/-- Continuation bytes that are all there are all taken. -/
theorem continuations_append {n : Nat} {lo hi b : UInt8} {bs : List UInt8} (hn : bs.length + 1 = n)
    (hlo : lo ≤ b) (hhi : b ≤ hi) (hbs : ∀ c ∈ bs, isContinuation c = true) (rest : List UInt8) :
    continuations n lo hi (b :: bs ++ rest) = b :: bs := by
  have htake : (b :: bs ++ rest).take n = b :: bs := List.take_left' hn
  rw [continuations, htake]
  simp [hlo, hhi, List.takeWhile_eq_self_iff.2 hbs]

theorem toNat_ofNat_add {n k : Nat} (h : n + k < 256) : (UInt8.ofNat (n + k)).toNat = n + k := by
  rw [UInt8.toNat_ofNat', Nat.mod_eq_of_lt h]

/-- A character whose continuation bytes are all there is read from them. The first one is given by
the six bits that it carries. -/
theorem first_of_following {lead lo hi : UInt8} {n bits : Nat} {bs : List UInt8}
    (hlead : 128 ≤ lead.toNat) (hfollow : following lead = some (n, lo, hi))
    (hn : bs.length + 1 = n) (hbits : bits < 64)
    (hlo : lo.toNat ≤ bits + 128) (hhi : bits + 128 ≤ hi.toNat)
    (hbs : ∀ c ∈ bs, isContinuation c = true) (rest : List UInt8) :
    first lead (UInt8.ofNat (bits + 128) :: bs ++ rest) =
      (assemble lead (UInt8.ofNat (bits + 128) :: bs), bs.length + 1) := by
  have hnat := toNat_ofNat_add (n := bits) (k := 128) (by omega)
  have hbig : ¬ lead < 0x80 := by
    rw [UInt8.lt_iff_toNat_lt]
    exact Nat.not_lt.2 hlead
  have hmin : lo ≤ UInt8.ofNat (bits + 128) := by rwa [UInt8.le_iff_toNat_le, hnat]
  have hmax : UInt8.ofNat (bits + 128) ≤ hi := by rwa [UInt8.le_iff_toNat_le, hnat]
  rw [first, if_neg hbig, hfollow]
  simp only [continuations_append hn hmin hmax hbs rest, List.length_cons, hn, if_true]

/-- **One character.** It is read from its own bytes, whatever follows them. -/
theorem first_encodeChar (c : Char) (rest : List UInt8) :
    ∃ lead tail, String.utf8EncodeChar c = lead :: tail ∧
      first lead (tail ++ rest) = (c, tail.length) := by
  have hvalid : c.val.toNat < 0xD800 ∨ 0xDFFF < c.val.toNat ∧ c.val.toNat < 0x110000 := c.valid
  have hchar : Char.ofNat c.val.toNat = c := Char.ofNat_toNat c
  unfold String.utf8EncodeChar
  dsimp only
  generalize c.val.toNat = v at hvalid hchar
  have hlast : v % 64 < 64 := by omega
  have hmiddle : v / 64 % 64 < 64 := by omega
  have hfront : v / 4096 % 64 < 64 := by omega
  refine if h₁ : v ≤ 127 then ?_ else if h₂ : v ≤ 2047 then ?_
    else if h₃ : v ≤ 65535 then ?_ else ?_
  · have hnat : (UInt8.ofNat v).toNat = v := toNat_ofNat_add (k := 0) (by omega)
    have hsmall : UInt8.ofNat v < 0x80 := by
      rw [UInt8.lt_iff_toNat_lt, hnat]
      show v < 128
      omega
    rw [if_pos h₁]
    refine ⟨_, [], rfl, ?_⟩
    rw [first, if_pos hsmall, hnat, hchar]
    rfl
  · have hlead := toNat_ofNat_add (n := v / 64 % 32) (k := 192) (by omega)
    have hfollow := following_two (v / 64 % 32) (by omega) (by omega)
    rw [if_neg h₁, if_pos h₂]
    refine ⟨_, _, rfl, ?_⟩
    rw [first_of_following (by omega) hfollow rfl hlast (Nat.le_add_left _ _)
      (show v % 64 + 128 ≤ 191 by omega) (by simp)]
    simp only [assemble, hlead, payload_ofNat _ hlast]
    rw [show (v / 64 % 32 + 192) % 32 * 64 + v % 64 = v by omega, hchar]
    rfl
  · have hlead := toNat_ofNat_add (n := v / 4096 % 16) (k := 224) (by omega)
    have hfollow := following_three (v / 4096 % 16) (by omega)
    rw [if_neg h₁, if_neg h₂, if_pos h₃]
    refine ⟨_, _, rfl, ?_⟩
    rw [first_of_following (by omega) hfollow rfl hmiddle ?_ ?_
      (List.forall_mem_singleton.2 (isContinuation_ofNat _ hlast))]
    · simp only [assemble, hlead, payload_ofNat _ hlast, payload_ofNat _ hmiddle]
      rw [show (v / 4096 % 16 + 224) % 16 * 4096 + v / 64 % 64 * 64 + v % 64 = v by omega, hchar]
      rfl
    · -- No overlong forms.
      split
      · show 160 ≤ v / 64 % 64 + 128
        omega
      · exact Nat.le_add_left _ _
    · -- No surrogates.
      split
      · show v / 64 % 64 + 128 ≤ 159
        omega
      · show v / 64 % 64 + 128 ≤ 191
        omega
  · have hlead := toNat_ofNat_add (n := v / 262144 % 8) (k := 240) (by omega)
    have hfollow := following_four (v / 262144 % 8) (by omega)
    rw [if_neg h₁, if_neg h₂, if_neg h₃]
    refine ⟨_, _, rfl, ?_⟩
    rw [first_of_following (by omega) hfollow rfl hfront ?_ ?_
      (List.forall_mem_cons.2 ⟨isContinuation_ofNat _ hmiddle,
        List.forall_mem_singleton.2 (isContinuation_ofNat _ hlast)⟩)]
    · simp only [assemble, hlead, payload_ofNat _ hlast, payload_ofNat _ hmiddle,
        payload_ofNat _ hfront]
      rw [show (v / 262144 % 8 + 240) % 8 * 262144 + v / 4096 % 64 * 4096 + v / 64 % 64 * 64 +
        v % 64 = v by omega, hchar]
      rfl
    · split
      · show 144 ≤ v / 4096 % 64 + 128
        omega
      · exact Nat.le_add_left _ _
    · -- Nothing above the last character.
      split
      · show v / 4096 % 64 + 128 ≤ 143
        omega
      · show v / 4096 % 64 + 128 ≤ 191
        omega

/-! ## Texts -/

theorem decodeAfter_append (tail rest : List UInt8) :
    decodeAfter tail.length (tail ++ rest) = decodeAfter 0 rest := by
  induction tail with
  | nil => rfl
  | cons b tail ih => exact ih

theorem decodeAfter_encode (chars : List Char) :
    decodeAfter 0 (chars.flatMap String.utf8EncodeChar) = chars := by
  induction chars with
  | nil => rfl
  | cons c chars ih =>
    obtain ⟨lead, tail, hbytes, hfirst⟩ :=
      first_encodeChar c (chars.flatMap String.utf8EncodeChar)
    rw [List.flatMap_cons, hbytes, List.cons_append, decodeAfter, hfirst]
    simp only [decodeAfter_append, ih]

/-- **Texts.** The bytes of a text are read as the text. -/
theorem decode_encode (text : String) : decode (encode text) = text := by
  rw [decode, encode, decodeAfter_encode, String.ofList_toList]

@[simp] theorem encode_append (s t : String) : encode (s ++ t) = encode s ++ encode t := by
  simp [encode]

/-- A character of ASCII is one byte, its number. -/
theorem encodeChar_ascii {c : Char} (h : c.toNat < 128) :
    String.utf8EncodeChar c = [UInt8.ofNat c.toNat] := by
  unfold String.utf8EncodeChar
  exact if_pos (Nat.le_of_lt_succ h)

/-- Every byte of any other character lies above ASCII. -/
theorem le_of_mem_encodeChar {c : Char} (h : 128 ≤ c.toNat) {b : UInt8}
    (hb : b ∈ String.utf8EncodeChar c) : 128 ≤ b.toNat := by
  have hbyte (n k : Nat) (hn : n + k < 256) (hk : 128 ≤ k) : 128 ≤ (UInt8.ofNat (n + k)).toNat := by
    rw [toNat_ofNat_add hn]
    omega
  unfold String.utf8EncodeChar at hb
  dsimp only at hb
  change 128 ≤ c.val.toNat at h
  have hvalid : c.val.toNat < 0xD800 ∨ 0xDFFF < c.val.toNat ∧ c.val.toNat < 0x110000 := c.valid
  generalize c.val.toNat = v at h hb hvalid
  rw [if_neg (by omega)] at hb
  repeat' split at hb
  all_goals
    simp only [List.mem_cons, List.not_mem_nil, or_false] at hb
    rcases hb with rfl | rfl | rfl | rfl <;> exact hbyte _ _ (by omega) (by omega)

/-! ## Bytes that are text -/

/-- The bytes spell some text. -/
def IsText (bytes : List UInt8) : Prop := ∃ text, encode text = bytes

theorem IsText.encode_decode {bytes : List UInt8} (h : IsText bytes) :
    encode (decode bytes) = bytes := by
  obtain ⟨text, rfl⟩ := h
  rw [decode_encode]

theorem IsText.append {u v : List UInt8} (hu : IsText u) (hv : IsText v) : IsText (u ++ v) := by
  obtain ⟨s, rfl⟩ := hu
  obtain ⟨t, rfl⟩ := hv
  exact ⟨s ++ t, encode_append s t⟩

theorem isText_flatMap {α : Type} {f : α → List UInt8} {xs : List α}
    (h : ∀ x ∈ xs, IsText (f x)) : IsText (xs.flatMap f) := by
  induction xs with
  | nil => exact ⟨"", rfl⟩
  | cons x xs ih =>
    obtain ⟨hx, hxs⟩ := List.forall_mem_cons.1 h
    exact hx.append (ih hxs)

theorem isText_char (c : Char) : IsText (String.utf8EncodeChar c) :=
  ⟨String.ofList [c], by simp [encode]⟩

theorem encode_ascii : ∀ b : UInt8, b.toNat < 128 →
    encode (String.ofList [Char.ofNat b.toNat]) = [b] :=
  forall_byte (by decide +kernel)

theorem isText_ascii {b : UInt8} (h : b.toNat < 128) : IsText [b] := ⟨_, encode_ascii b h⟩

end ContentStream.Utf8
