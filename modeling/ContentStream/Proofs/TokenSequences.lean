import ContentStream.Font.ToUnicode
import ContentStream.Proofs.Composition

/-!
# Sequences of tokens

* `Cursor.HasTokens`: the tokens from a cursor on, if none of them is malformed.
* `LaidOut`: a text that spells tokens one after the other, with blanks and comments between them.

**Theorem (`tokens_append_line`).** Behind a text without malformed tokens and a line feed, the tokens
are those that the rest has by itself.

**Theorem (`tokens_laidOut`).** A text that is laid out has the tokens that it spells.
-/

namespace ContentStream

namespace Cursor

/-- The tokens ahead are these, and none of them is malformed. -/
inductive HasTokens : Cursor → List Token → Prop
  | nil {c c' : Cursor} : c.token? = (none, c') → HasTokens c []
  | cons {c c' : Cursor} {pos : Nat} {t : Token} {ts : List Token} :
      c.token? = (some (pos, .ok t), c') → HasTokens c' ts → HasTokens c (t :: ts)

theorem HasTokens.flat {c : Cursor} {ts : List Token} (h : c.HasTokens ts) (hc : c.Seamless) :
    c.flat.HasTokens ts := by
  induction h with
  | nil ht => exact .nil (hc.of_token? ht).2
  | cons ht _ ih =>
    obtain ⟨hc', hflat⟩ := hc.of_token? ht
    exact .cons hflat (ih hc')

theorem seamless_ofBytes (bytes : List UInt8) : (ofBytes bytes).Seamless :=
  Content.seamless_ofSegments (Content.unbroken_singleton bytes)

theorem flat_ofBytes (bytes : List UInt8) : (ofBytes bytes).flat = ahead 0 bytes := by
  simp [ofBytes, ofSegments, flat, ahead]

/-- Behind bytes that are skipped, the next token is that of the rest. -/
theorem token?_skip {gap v : List UInt8}
    (h : blankLength false (gap ++ v) = gap.length + blankLength false v) (o : Nat) :
    (ahead o (gap ++ v)).token? = (ahead (o + gap.length) v).token? := by
  have hdrop : (gap ++ v).drop (gap.length + blankLength false v) = v.drop (blankLength false v) := by
    rw [← List.drop_drop, List.drop_left]
  rw [token?, token?, ahead_skipBlanks, ahead_skipBlanks, h, hdrop, Nat.add_assoc]

/-! ## Layout -/

/-- Blanks and comments, each comment with the line break that ends it. -/
inductive Gap : List UInt8 → Prop
  | nil : Gap []
  | blank {b : UInt8} {gap : List UInt8} : Byte.isBlank b = true → Gap gap → Gap (b :: gap)
  | comment {text : List UInt8} {b : UInt8} {gap : List UInt8} :
      (∀ c ∈ text, Byte.isNewline c = false) → Byte.isNewline b = true → Gap gap →
      Gap (37 :: (text ++ b :: gap))

/-- The text spells the tokens one after the other, with gaps between them. What is no string and no
bracket ends in front of a blank or a delimiter. -/
inductive LaidOut : List UInt8 → List Token → Prop
  | nil {gap : List UInt8} : Gap gap → LaidOut gap []
  | cons {gap spelling rest : List UInt8} {t : Token} {ts : List Token} :
      Gap gap → Spelled spelling t → (t.isClosed = false → Byte.EndsRun rest) → LaidOut rest ts →
      LaidOut (gap ++ (spelling ++ rest)) (t :: ts)

theorem blankLength_comment {text : List UInt8} {b : UInt8}
    (htext : ∀ c ∈ text, Byte.isNewline c = false) (hb : Byte.isNewline b = true)
    (v : List UInt8) :
    blankLength true (text ++ b :: v) = text.length + 1 + blankLength false v := by
  induction text with
  | nil => simp [blankLength, hb, Nat.add_comm]
  | cons c text ih =>
    obtain ⟨hc, htext⟩ := List.forall_mem_cons.1 htext
    simp only [List.cons_append, blankLength, hc, Bool.not_false, if_true, ih htext,
      List.length_cons]
    omega

theorem Gap.blankLength {gap : List UInt8} (h : Gap gap) (v : List UInt8) :
    blankLength false (gap ++ v) = gap.length + Cursor.blankLength false v := by
  induction h with
  | nil => simp
  | @blank b gap hb _ ih =>
    have hcomment : b ≠ 37 := by
      rintro rfl
      cases hb
    simp only [List.cons_append, Cursor.blankLength, beq_eq_false_iff_ne.2 hcomment, hb, ih,
      Bool.false_eq_true, if_false, if_true, List.length_cons]
    omega
  | @comment text b gap htext hb _ ih =>
    have hends := blankLength_comment htext hb (gap ++ v)
    simp only [List.cons_append, List.append_assoc, Cursor.blankLength, beq_self_eq_true, hends, ih,
      Bool.false_eq_true, if_false, if_true, List.length_cons, List.length_append]
    omega

theorem LaidOut.hasTokens {text : List UInt8} {ts : List Token} (h : LaidOut text ts) (o : Nat) :
    (ahead o text).HasTokens ts := by
  induction h generalizing o with
  | @nil gap hgap =>
    have hskip := token?_skip (hgap.blankLength []) o
    rw [List.append_nil] at hskip
    exact .nil hskip
  | cons hgap hspelled hrest _ ih =>
    exact .cons ((token?_skip (hgap.blankLength _) o).trans (hspelled.append hrest _)) (ih _)

end Cursor

namespace ToUnicode

open Cursor

variable {c c' d : Cursor} {pos : Nat}

/-! ## One token at a time -/

theorem tokens_end (h : c.token? = (none, c')) : tokens c = [] := by
  rw [tokens]
  split <;> simp_all

theorem tokens_cons {t : Token} (h : c.token? = (some (pos, .ok t), c')) :
    tokens c = t :: tokens c' := by
  rw [tokens]
  split <;> simp_all

theorem tokens_malformed {e : TokenError} (h : c.token? = (some (pos, .error e), c')) :
    tokens c = tokens c' := by
  rw [tokens]
  split <;> simp_all

theorem tokens_eq_of_hasTokens {ts : List Token} (h : c.HasTokens ts) : tokens c = ts := by
  induction h with
  | nil ht => exact tokens_end ht
  | cons ht _ ih => rw [tokens_cons ht, ih]

/-- Tokens are read alike where the next token is the same and is followed by the same. -/
theorem tokens_congr (h : c.token? = d.token?) : tokens c = tokens d := by
  rcases hd : d.token? with ⟨found, rest⟩
  rw [hd] at h
  rcases found with - | ⟨pos, e | t⟩
  · rw [tokens_end h, tokens_end hd]
  · rw [tokens_malformed h, tokens_malformed hd]
  · rw [tokens_cons h, tokens_cons hd]

theorem tokens_flat (h : c.Seamless) : tokens c = tokens c.flat := by
  induction c using tokens.induct with
  | case1 c c' ht => rw [tokens_end ht, tokens_end (h.of_token? ht).2]
  | case2 c pos t c' ht ih =>
    obtain ⟨hc', hflat⟩ := h.of_token? ht
    rw [tokens_cons ht, tokens_cons hflat, ih hc']
  | case3 c pos e c' ht ih =>
    obtain ⟨hc', hflat⟩ := h.of_token? ht
    rw [tokens_malformed ht, tokens_malformed hflat, ih hc']

theorem tokens_ofBytes (bytes : List UInt8) : tokens (ofBytes bytes) = tokens (ahead 0 bytes) := by
  rw [tokens_flat (seamless_ofBytes bytes), flat_ofBytes]

/-- The offset does not show in the tokens. -/
theorem tokens_shift (h : c.ends = []) (k : Nat) : tokens (c.shift k) = tokens c := by
  induction c using tokens.induct with
  | case1 c c' ht =>
    have hshift := shift_token? h k
    rw [ht] at hshift
    rw [tokens_end ht, tokens_end hshift]
  | case2 c pos t c' ht ih =>
    have hshift := shift_token? h k
    rw [ht] at hshift
    rw [tokens_cons ht, tokens_cons hshift, ih (ends_of_token? h ht)]
  | case3 c pos e c' ht ih =>
    have hshift := shift_token? h k
    rw [ht] at hshift
    rw [tokens_malformed ht, tokens_malformed hshift, ih (ends_of_token? h ht)]

theorem tokens_ahead (o : Nat) (bytes : List UInt8) :
    tokens (ahead o bytes) = tokens (ofBytes bytes) := by
  have hshift := tokens_shift (c := ahead 0 bytes) rfl o
  rw [tokens_ofBytes, ← hshift]
  simp [ahead, shift]

/-! ## Texts behind each other -/

theorem tokens_ahead_append_line {o : Nat} {u : List UInt8} {ts : List Token}
    (h : (ahead o u).HasTokens ts) (v : List UInt8) :
    tokens (ahead o (u ++ 10 :: v)) = ts ++ tokens (ofBytes v) := by
  generalize hc : ahead o u = c at h
  induction h generalizing o u with
  | nil ht =>
    subst hc
    have hskip : blankLength false (u ++ [10] ++ v) = (u ++ [10]).length + blankLength false v := by
      rw [List.append_assoc, List.length_append]
      exact blankLength_append_line (blankLength_of_token?_none ht) v
    have htoken := token?_skip hskip o
    rw [List.append_assoc] at htoken
    exact (tokens_congr htoken).trans (tokens_ahead _ v)
  | cons ht _ ih =>
    subst hc
    obtain ⟨n, -, hrest, htoken⟩ := token?_append ht fun _ => Byte.endsRun_cons (b := 10) rfl v
    rw [tokens_cons htoken, ih hrest.symm, List.cons_append]

/-- **Behind a line feed** the tokens are those of the rest, if none was malformed in front of it. -/
theorem tokens_append_line {u : List UInt8} {ts : List Token} (h : (ofBytes u).HasTokens ts)
    (v : List UInt8) : tokens (ofBytes (u ++ 10 :: v)) = ts ++ tokens (ofBytes v) := by
  rw [tokens_ofBytes]
  exact tokens_ahead_append_line (flat_ofBytes u ▸ h.flat (seamless_ofBytes u)) v

/-- **Texts that are laid out** have the tokens that they spell. -/
theorem tokens_laidOut {text : List UInt8} {ts : List Token} (h : LaidOut text ts) :
    tokens (ofBytes text) = ts := by
  rw [tokens_ofBytes]
  exact tokens_eq_of_hasTokens (h.hasTokens 0)

end ToUnicode

end ContentStream
