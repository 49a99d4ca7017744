import ContentStream.Proofs.Locality

/-!
# Items do not depend on their offset

**Theorem (`items_shift`).** Content that stands further on has the same items, each as much further
on. The offset inside the error of a malformed token goes along.

Both the cursor and the builder know offsets: the builder keeps where a container or an image began,
for the items that it makes of them. Each of its steps is the same step further on (`shift_token`).
-/

namespace ContentStream

/-- An item of the same content further on. -/
def ItemAt.shift (k : Nat) : ItemAt → ItemAt
  | (pos, .error (.malformedToken start fault)) =>
    (pos + k, .error (.malformedToken (start + k) fault))
  | (pos, item) => (pos + k, item)

def OpenContainer.shift (k : Nat) (c : OpenContainer) : OpenContainer :=
  { c with start := c.start + k }

def OpenImage.shift (k : Nat) (image : OpenImage) : OpenImage :=
  { image with start := image.start + k }

namespace Builder

/-- What is open in the same content further on. -/
def shift (k : Nat) (b : Builder) : Builder :=
  { containers := b.containers.map (·.shift k), image := b.image.map (·.shift k) }

/-- What a step does further on. -/
def shiftStep (k : Nat) (step : Builder × List ItemAt) : Builder × List ItemAt :=
  (step.1.shift k, step.2.map (ItemAt.shift k))

variable (k : Nat)

theorem shift_place (b : Builder) (pos : Nat) (value : Object) :
    (b.shift k).place (pos + k) value = shiftStep k (b.place pos value) := by
  obtain ⟨containers, image⟩ := b
  cases containers with
  | nil => cases image <;> rfl
  | cons c outer => rfl

theorem shift_complain (b : Builder) (pos : Nat) (fault : TokenFault) :
    (b.shift k).complain (pos + k) fault = shiftStep k (b.complain pos fault) := rfl

theorem shift_finishContainer (b : Builder) (c : OpenContainer) :
    (b.shift k).finishContainer (c.shift k) = shiftStep k (b.finishContainer c) := by
  obtain ⟨kind, start, items⟩ := c
  cases kind with
  | array => exact shift_place k b start _
  | proc => exact shift_place k b start _
  | dict =>
    simp only [finishContainer, OpenContainer.shift, shift_place]
    split <;> rfl

theorem shift_close (b : Builder) (pos : Nat) (kind : Container) (mark : Mark) :
    (b.shift k).close (pos + k) kind mark = shiftStep k (b.close pos kind mark) := by
  obtain ⟨containers, image⟩ := b
  cases containers with
  | nil => rfl
  | cons c outer =>
    refine .trans (ite_congr rfl (fun _ => ?_) fun _ => ?_) (apply_ite (shiftStep k) ..).symm
    · exact shift_finishContainer k ⟨outer, image⟩ c
    · exact shift_complain k ⟨c :: outer, image⟩ pos _

theorem shift_mark (b : Builder) (pos : Nat) (m : Mark) :
    (b.shift k).mark (pos + k) m = shiftStep k (b.mark pos m) := by
  cases m with
  | arrayOpen => rfl
  | dictOpen => rfl
  | procOpen => rfl
  | arrayClose => exact shift_close k b pos _ _
  | dictClose => exact shift_close k b pos _ _
  | procClose => exact shift_close k b pos _ _

theorem shift_operator (b : Builder) (pos : Nat) (name : String) :
    (b.shift k).operator (pos + k) name = shiftStep k (b.operator pos name) := by
  obtain ⟨containers, image⟩ := b
  cases containers with
  | nil =>
    cases image with
    | none =>
      by_cases hname : name = "BI"
      · subst hname
        rfl
      · simp [operator, shift, shiftStep, hname, ItemAt.shift]
    | some image => rfl
  | cons c outer =>
    refine .trans (ite_congr rfl (fun _ => ?_) fun _ => ?_) (apply_ite (shiftStep k) ..).symm
    · exact shift_place k ⟨c :: outer, image⟩ pos _
    · exact shift_complain k ⟨c :: outer, image⟩ pos _

theorem shift_token (b : Builder) (pos : Nat) (t : Token) :
    (b.shift k).token (pos + k) t = shiftStep k (b.token pos t) := by
  cases t with
  | number | bool | null | string | name => exact shift_place k b pos _
  | operator name => exact shift_operator k b pos name
  | mark m => exact shift_mark k b pos m

theorem shift_imageData? (b : Builder) (t : Token) :
    (b.shift k).imageData? t = (b.imageData? t).map (·.shift k) := by
  unfold imageData?
  split
  · simp only [shift, List.isEmpty_map, apply_ite (Option.map _), Option.map_none]
  · rfl

theorem shift_finish (b : Builder) : (b.shift k).finish = b.finish.map (ItemAt.shift k) := by
  unfold finish
  simp only [shift, List.getLast?_map]
  cases b.containers.getLast? <;> cases b.image <;> rfl

end Builder

namespace Cursor

/-- The cursor further on in the content. -/
def shift (k : Nat) (c : Cursor) : Cursor := { c with offset := c.offset + k }

theorem shift_relabels (k : Nat) : Relabels (shift k) where
  rest _ := rfl
  next c := by
    obtain ⟨offset, rest, ends⟩ := c
    cases rest with
    | nil => rfl
    | cons b rest => simp [shift, next, Nat.add_right_comm]

theorem shift_token? {c : Cursor} (h : c.ends = []) (k : Nat) :
    (c.shift k).token? = (c.token?.1.map fun t => (t.1 + k, t.2), c.token?.2.shift k) := by
  have hends : c.skipBlanks.ends = [] := (advance_ends _ _).trans h
  rw [token?, (shift_relabels k).skipBlanks, token?]
  generalize c.skipBlanks = start at hends
  obtain ⟨offset, rest, ends⟩ := start
  cases hends
  cases rest with
  | nil => rfl
  | cons b rest =>
    have hread : Token.read (shift k ⟨offset, b :: rest, []⟩) b =
        Token.read ⟨offset, b :: rest, []⟩ b := rfl
    have hrest : (shift k ⟨offset, b :: rest, []⟩).rest = b :: rest := rfl
    simp only [tokenHere?, hrest, hread, (shift_relabels k).advance]
    rfl

theorem shift_imageData (c : Cursor) (image : OpenImage) (k : Nat) :
    (c.shift k).imageData (image.shift k) =
      ((c.imageData image).1, (c.imageData image).2.shift k) :=
  (shift_relabels k).inlineData c _ _

theorem ends_of_token? {c c' : Cursor} {t : Option (Nat × Except TokenError Token)}
    (h : c.ends = []) (ht : c.token? = (t, c')) : c'.ends = [] := by
  obtain ⟨n, hn⟩ := token?_eq_advance c
  rw [ht] at hn
  rw [show c' = c.advance n from hn, advance_ends, h]

theorem ends_of_imageData {c c' : Cursor} {image : OpenImage}
    {data : Except DataFault (List UInt8)} (h : c.ends = [])
    (hd : c.imageData image = (data, c')) : c'.ends = [] := by
  obtain ⟨n, hn⟩ := inlineData_eq_advance c (InlineDict.dataLength? image.attrs)
    (InlineDict.dataMarker? image.attrs)
  rw [← imageData, hd] at hn
  rw [show c' = c.advance n from hn, advance_ends, h]

/-- **Offsets.** Content that stands further on has the same items further on. -/
theorem items_shift {c : Cursor} (h : c.ends = []) (b : Builder) (k : Nat) :
    (c.shift k).items (b.shift k) = (c.items b).map (ItemAt.shift k) := by
  have htoken {c c' : Cursor} {t : Option (Nat × Except TokenError Token)} (h : c.ends = [])
      (ht : c.token? = (t, c')) :
      (c.shift k).token? = (t.map fun t => (t.1 + k, t.2), c'.shift k) := by
    rw [shift_token? h, ht]
  have himage {b : Builder} {token : Token} {image : Option OpenImage}
      (hb : b.imageData? token = image) :
      (b.shift k).imageData? token = image.map (·.shift k) := by
    rw [Builder.shift_imageData?, hb]
  have hdata {c c' : Cursor} {image : OpenImage} {data : Except DataFault (List UInt8)}
      (hd : c.imageData image = (data, c')) :
      (c.shift k).imageData (image.shift k) = (data, c'.shift k) := by
    rw [shift_imageData, hd]
  induction c, b using items.induct with
  | case1 c b c' ht =>
    rw [items_end ht, items_end (htoken h ht), Builder.shift_finish]
  | case2 c b pos c' ht =>
    rw [items_truncated ht, items_truncated (htoken h ht)]
    rfl
  | case3 c b pos fault c' ht ih =>
    rw [items_malformed ht, items_malformed (htoken h ht), ih (ends_of_token? h ht)]
    rfl
  | case4 c b pos token c' ht hb ih =>
    rw [items_token ht hb, items_token (htoken h ht) (himage hb), Builder.shift_token,
      List.map_append, ← ih (ends_of_token? h ht)]
    rfl
  | case5 c b pos token c' ht image hb fault c'' hd =>
    rw [items_image_cut ht hb hd, items_image_cut (htoken h ht) (himage hb) (hdata hd)]
    cases fault <;> rfl
  | case6 c b pos token c' ht image hb data c'' hd ih =>
    rw [items_image ht hb hd, items_image (htoken h ht) (himage hb) (hdata hd), List.map_cons,
      ← ih (ends_of_imageData (ends_of_token? h ht) hd)]
    rfl

end Cursor

/-- What follows `k` bytes is read as content of its own, further on. -/
theorem Content.items_ahead (k : Nat) (bytes : List UInt8) :
    (Cursor.ahead k bytes).items {} = (Content.itemsOf bytes).map (ItemAt.shift k) := by
  rw [Content.itemsOf_eq, ← Cursor.items_shift rfl, show (Cursor.ahead 0 bytes).shift k =
    Cursor.ahead k bytes from congrArg (Cursor.mk · bytes []) (Nat.zero_add k)]
  rfl

end ContentStream
