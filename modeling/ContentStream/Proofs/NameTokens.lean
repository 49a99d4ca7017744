import ContentStream.Proofs.StringTokens

/-!
# Name tokens

A byte of a name stands for itself or is written as a number sign and two hexadecimal digits. A name
can so be written in many ways (`NameSpelling`), also with some bytes of a character escaped and
others not, and every one of them is read as that name.

**Theorem (`tokenAt_name`).** Behind a solidus, the name is the text whose bytes are spelled, and
the reader stands right behind the spelling. What an escape stands for is not looked at again: it
may be a number sign, a blank or a delimiter.
-/

namespace ContentStream

/-- The bytes are spelled in this way: each as it is, if it is regular and no number sign, or as a
number sign and two hexadecimal digits of either case. -/
inductive NameSpelling : (spelling bytes : List UInt8) → Prop where
  | nil : NameSpelling [] []
  | plain {b : UInt8} {spelling bytes : List UInt8} : Byte.isRegular b = true → b ≠ 35 →
    NameSpelling spelling bytes → NameSpelling (b :: spelling) (b :: bytes)
  | escaped {b high low : UInt8} {m n : Nat} {spelling bytes : List UInt8} :
    Byte.hexValue? high = some m → Byte.hexValue? low = some n → b.toNat = 16 * m + n →
    NameSpelling spelling bytes → NameSpelling (35 :: high :: low :: spelling) (b :: bytes)

namespace Token

theorem read_solidus (c : Cursor) : read c 47 =
    (.ok (.name (Utf8.decode (unescapeName c.next.run))), c.next.run.length) := rfl

/-- A byte that is no number sign stands for itself, however few bytes follow it. -/
theorem unescapeName_cons {b : UInt8} (hb : b ≠ 35) (rest : List UInt8) :
    unescapeName (b :: rest) = b :: unescapeName rest := by
  rcases rest with - | ⟨c, - | ⟨d, rest⟩⟩
  · rfl
  · rfl
  · simp [unescapeName, hb]

theorem unescapeName_escape {b high low : UInt8} {m n : Nat} (hhigh : Byte.hexValue? high = some m)
    (hlow : Byte.hexValue? low = some n) (hb : b.toNat = 16 * m + n) (rest : List UInt8) :
    unescapeName (35 :: high :: low :: rest) = b :: unescapeName rest := by
  have hbyte : (m * 16 + n).toUInt8 = b := by
    apply UInt8.toNat_inj.1
    rw [toNat_pair (Byte.hexValue?_lt hhigh) (Byte.hexValue?_lt hlow), hb]
  simp [unescapeName, hhigh, hlow, hbyte]

end Token

theorem Byte.isRegular_of_hexValue? : ∀ b, (hexValue? b).isSome = true → isRegular b = true :=
  Utf8.forall_byte (by decide +kernel)

namespace NameSpelling

variable {spelling bytes : List UInt8}

/-- A spelling is one run. -/
theorem isRegular (h : NameSpelling spelling bytes) :
    ∀ b ∈ spelling, Byte.isRegular b = true := by
  induction h with
  | nil => simp
  | plain hregular _ _ ih => exact List.forall_mem_cons.2 ⟨hregular, ih⟩
  | escaped hhigh hlow _ _ ih =>
    have hdigit {c : UInt8} {k : Nat} (hc : Byte.hexValue? c = some k) :
        Byte.isRegular c = true :=
      Byte.isRegular_of_hexValue? c (by simp [hc])
    simp only [List.forall_mem_cons]
    exact ⟨rfl, hdigit hhigh, hdigit hlow, ih⟩

/-- **Spellings** are decoded to what they spell. -/
theorem unescapeName_eq (h : NameSpelling spelling bytes) :
    Token.unescapeName spelling = bytes := by
  induction h with
  | nil => rfl
  | plain _ hb _ ih => rw [Token.unescapeName_cons hb, ih]
  | escaped hhigh hlow hb _ ih => rw [Token.unescapeName_escape hhigh hlow hb, ih]

/-- The run behind the solidus is the spelling. -/
theorem run_eq (h : NameSpelling spelling bytes) (s : Surroundings) {after : List UInt8}
    (hends : Byte.EndsRun (after ++ s.later.flatten)) :
    (Cursor.onSegments (s.segments (spelling ++ after)) s.start).run = spelling := by
  by_cases htext : spelling ++ after = []
  · -- The solidus ends its segment, and the run is looked for in the next one.
    obtain ⟨rfl, rfl⟩ := List.append_eq_nil_iff.1 htext
    apply Cursor.run_of_endsRun
    rwa [Cursor.onSegments_rest, s.drop_start]
  · have hafter : Byte.EndsRun after := by
      intro b hb
      apply hends b
      rw [List.head?_append, hb]
      rfl
    exact s.run htext h.isRegular hafter

end NameSpelling

namespace Content

/-- **Names** are read from every spelling of their bytes that lies in one segment and is followed
by the end of the content, a blank or a delimiter. -/
theorem tokenAt_name (name : String) (spelling after : List UInt8) (s : Surroundings)
    (h : NameSpelling spelling (Utf8.encode name))
    (hends : Byte.EndsRun (after ++ s.later.flatten)) :
    TokenAt (s.segments (47 :: (spelling ++ after))) s.start (.ok (.name name))
      (s.start + (spelling.length + 1)) := by
  have hrun := h.run_eq (s.past 47) hends
  rw [s.segments_past, s.start_past, ← Cursor.onSegments_next] at hrun
  refine tokenAt_of_read (s.drop_start _) rfl (by decide) ?_ (by simp)
  rw [Token.read_solidus, hrun, h.unescapeName_eq, Utf8.decode_encode]

/-- A name with a blank, a number sign, a delimiter and a character of two bytes, of which only the
second is escaped; the digits are of both cases, and a bracket follows in the next segment. -/
theorem tokenAt_name_escapes :
    NameSpelling (Utf8.encode "A#20#23#2F" ++ [195] ++ Utf8.encode "#a9")
        (Utf8.encode "A #/é") ∧
      Byte.EndsRun ([] ++ [[91]].flatten) ∧
      TokenAt [[113, 32], 47 :: (Utf8.encode "A#20#23#2F" ++ [195] ++ Utf8.encode "#a9"), [91]] 2
        (.ok (.name "A #/é")) 17 := by
  have hspelling : NameSpelling (Utf8.encode "A#20#23#2F" ++ [195] ++ Utf8.encode "#a9")
      (Utf8.encode "A #/é") :=
    .plain rfl (by decide) (.escaped rfl rfl rfl (.escaped rfl rfl rfl (.escaped rfl rfl rfl
      (.plain rfl (by decide) (.escaped rfl rfl rfl .nil)))))
  exact ⟨hspelling, by decide,
    tokenAt_name "A #/é" _ [] ⟨[[113, 32]], [], [[91]]⟩ hspelling (by decide)⟩

end Content

end ContentStream
