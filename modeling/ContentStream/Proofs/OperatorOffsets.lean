import ContentStream.Proofs.ItemOrder

/-!
# Operators have the offset of their word

An item is made when its last token has been read, and it is given the offset of its first one. For an
operator that is its only token, and for an inline image it is `BI`, which opened it.

**Theorem (`atWord_of_mem_items`).** At the offset of an operator, content has the token of its word. At
the offset of an inline image it has the token `BI`.

The builder keeps the offset of `BI` while an image is open. So the induction over the items carries
along that an open image began with such a token.
-/

namespace ContentStream

/-- Content has a token at an offset: a cursor that stands there reads it. -/
def Content.HasToken (segments : List (List UInt8)) (pos : Nat) (token : Token) : Prop :=
  ((Cursor.ofSegments segments).advance pos).tokenHere?.1 = some (pos, .ok token)

/-- The word that an item starts with, if it is an operator or an image. -/
def Item.word? : Item → Option String
  | .operand _ => none
  | .operator name => some name
  | .image _ => some "BI"

/-- An item stands where content has the word it starts with. -/
def ItemAt.AtWord (segments : List (List UInt8)) (item : ItemAt) : Prop :=
  ∀ value word, item.2 = .ok value → value.word? = some word →
    Content.HasToken segments item.1 (.operator word)

/-- An open image began with a `BI`. -/
def Builder.AtWord (segments : List (List UInt8)) (b : Builder) : Prop :=
  ∀ image ∈ b.image, Content.HasToken segments image.start (.operator "BI")

variable {segments : List (List UInt8)}

namespace ItemAt

variable {pos : Nat}

theorem atWord_error (e : Error) : ItemAt.AtWord segments (pos, .error e) := by
  intro value word hvalue
  cases hvalue

theorem atWord_operand (o : Object) : ItemAt.AtWord segments (pos, .ok (.operand o)) := by
  intro value word hvalue hword
  cases hvalue
  cases hword

theorem atWord_of_word {value : Item} {word : String} (hword : value.word? = some word)
    (h : Content.HasToken segments pos (.operator word)) :
    ItemAt.AtWord segments (pos, .ok value) := by
  intro value' word' hvalue hword'
  cases hvalue
  obtain rfl : word = word' := Option.some.inj (hword.symm.trans hword')
  exact h

end ItemAt

/-! ## One token -/

namespace Builder

variable {b : Builder} {pos : Nat}

/-- The builder and the items that come of a token stand where their words are. -/
def StepAtWord (segments : List (List UInt8)) (step : Builder × List ItemAt) : Prop :=
  step.1.AtWord segments ∧ ∀ item ∈ step.2, item.AtWord segments

theorem place_atWord (hb : b.AtWord segments) (pos : Nat) (value : Object) :
    StepAtWord segments (b.place pos value) := by
  unfold place
  split
  · exact ⟨hb, by simp⟩
  · split
    · rename_i image himage
      refine ⟨fun later hlater => ?_, by simp⟩
      obtain rfl := Option.some.inj hlater
      exact hb image himage
    · exact ⟨hb, List.forall_mem_singleton.2 (ItemAt.atWord_operand value)⟩

theorem complain_atWord (hb : b.AtWord segments) (pos : Nat) (fault : TokenFault) :
    StepAtWord segments (b.complain pos fault) :=
  ⟨hb, List.forall_mem_singleton.2 (ItemAt.atWord_error _)⟩

theorem finishContainer_atWord (hb : b.AtWord segments) (c : OpenContainer) :
    StepAtWord segments (b.finishContainer c) := by
  unfold finishContainer
  split
  · dsimp only
    have hplace := place_atWord hb c.start
      (.dict (Dict.ofEntries (pairEntries c.items.reverse).1))
    split
    · exact ⟨hplace.1, List.forall_mem_cons.2 ⟨ItemAt.atWord_error _, hplace.2⟩⟩
    · exact hplace
  · exact place_atWord hb c.start _

theorem close_atWord (hb : b.AtWord segments) (pos : Nat) (kind : Container) (mark : Mark) :
    StepAtWord segments (b.close pos kind mark) := by
  unfold close
  split
  · rename_i c outer _
    split
    · exact finishContainer_atWord (b := { b with containers := outer }) hb c
    · exact complain_atWord hb pos _
  · exact complain_atWord hb pos _

theorem mark_atWord (hb : b.AtWord segments) (pos : Nat) (m : Mark) :
    StepAtWord segments (b.mark pos m) := by
  cases m with
  | arrayOpen | dictOpen | procOpen => exact ⟨hb, by simp [mark, openContainer]⟩
  | arrayClose | dictClose | procClose => exact close_atWord hb pos _ _

theorem operator_atWord {name : String} (hb : b.AtWord segments)
    (h : Content.HasToken segments pos (.operator name)) :
    StepAtWord segments (b.operator pos name) := by
  unfold operator
  split
  · split
    · exact place_atWord hb pos _
    · exact complain_atWord hb pos _
  · split
    · exact complain_atWord hb pos _
    · split
      · rename_i hname
        subst hname
        refine ⟨fun image himage => ?_, by simp⟩
        obtain rfl := Option.some.inj himage
        exact h
      · exact ⟨hb, List.forall_mem_singleton.2 (ItemAt.atWord_of_word rfl h)⟩

theorem token_atWord {t : Token} (hb : b.AtWord segments) (h : Content.HasToken segments pos t) :
    StepAtWord segments (b.token pos t) := by
  cases t with
  | mark m => exact mark_atWord hb pos m
  | operator name => exact operator_atWord hb h
  | _ => exact place_atWord hb pos _

theorem image_of_imageData? {t : Token} {image : OpenImage} (h : b.imageData? t = some image) :
    b.image = some image := by
  unfold imageData? at h
  split at h
  · split at h
    · exact h
    · cases h
  · cases h

theorem finish_atWord (b : Builder) : ∀ item ∈ b.finish, item.AtWord segments := by
  unfold finish
  split
  · exact List.forall_mem_singleton.2 (ItemAt.atWord_error _)
  · exact List.forall_mem_singleton.2 (ItemAt.atWord_error _)
  · simp

end Builder

/-! ## All items -/

namespace Cursor

variable {c c' : Cursor} {pos k : Nat}

/-- A token that is found from some place in the content stands at its offset, and the cursor behind it
is at a place in the content again. -/
theorem token?_place {r : Except TokenError Token} (hc : c = (ofSegments segments).advance k)
    (h : c.token? = (some (pos, r), c')) :
    (∀ token, r = .ok token → Content.HasToken segments pos token) ∧
      ∃ m, c' = (ofSegments segments).advance m := by
  obtain ⟨n, hn⟩ : ∃ n, c.skipBlanks = (ofSegments segments).advance n :=
    ⟨_, by rw [skipBlanks, hc, ← advance_add]⟩
  unfold token? at h
  rw [hn] at h
  have hhere := h
  unfold tokenHere? at h
  split at h
  · simp at h
  · rename_i b rest hrest
    simp only [Prod.mk.injEq, Option.some.injEq] at h
    obtain ⟨⟨hpos, -⟩, hc'⟩ := h
    -- Something lies ahead, so the cursor has really moved as far as its offset says.
    have hn_lt : n < (ofSegments segments).rest.length := by
      rw [advance_rest] at hrest
      have hlength := congrArg List.length hrest
      rw [List.length_drop, List.length_cons] at hlength
      omega
    obtain rfl : n = pos := by
      rw [← hpos, advance_offset, Nat.min_eq_left (Nat.le_of_lt hn_lt)]
      exact (Nat.zero_add n).symm
    refine ⟨fun token htoken => ?_, _, by rw [← hc', ← advance_add]⟩
    rw [Content.HasToken, hhere, htoken]

theorem items_atWord {b : Builder} (hc : c = (ofSegments segments).advance k)
    (hb : b.AtWord segments) : ∀ item ∈ c.items b, item.AtWord segments := by
  induction c, b using items.induct generalizing k with
  | case1 c b c' ht =>
    rw [items_end ht]
    exact b.finish_atWord
  | case2 c b pos c' ht =>
    rw [items_truncated ht]
    exact List.forall_mem_singleton.2 (ItemAt.atWord_error _)
  | case3 c b pos fault c' ht ih =>
    obtain ⟨-, m, hm⟩ := token?_place hc ht
    rw [items_malformed ht]
    exact List.forall_mem_cons.2 ⟨ItemAt.atWord_error _, ih hm hb⟩
  | case4 c b pos token c' ht hdata ih =>
    obtain ⟨htoken, m, hm⟩ := token?_place hc ht
    obtain ⟨hbuilder, hitems⟩ := Builder.token_atWord hb (htoken token rfl)
    rw [items_token ht hdata]
    exact List.forall_mem_append.2 ⟨hitems, ih hm hbuilder⟩
  | case5 c b pos token c' ht image hdata fault c'' hd =>
    rw [items_image_cut ht hdata hd]
    exact List.forall_mem_singleton.2 (ItemAt.atWord_error _)
  | case6 c b pos token c' ht image hdata data c'' hd ih =>
    obtain ⟨-, m, hm⟩ := token?_place hc ht
    obtain ⟨n, hn⟩ := inlineData_eq_advance c' (InlineDict.dataLength? image.attrs)
      (InlineDict.dataMarker? image.attrs)
    rw [← imageData, hd] at hn
    have hc'' : c'' = (ofSegments segments).advance (m + n) := by
      rw [advance_add, ← hm]
      exact hn
    have hopen : image ∈ b.image := Builder.image_of_imageData? hdata
    rw [items_image ht hdata hd]
    refine List.forall_mem_cons.2 ⟨ItemAt.atWord_of_word rfl (hb image hopen), ih hc'' ?_⟩
    intro later hlater
    cases hlater

end Cursor

namespace Content

theorem atWord_of_mem_items {item : ItemAt} (h : item ∈ items segments) : item.AtWord segments := by
  refine Cursor.items_atWord (k := 0) rfl (fun image himage => ?_) item h
  cases himage

/-- No item lies behind the end of the content. -/
theorem pos_le_of_mem_items {item : ItemAt} (h : item ∈ items segments) :
    item.1 ≤ segments.flatten.length :=
  ((items_inOrder_total segments).proper item h).pos_le

end Content

end ContentStream
