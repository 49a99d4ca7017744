import ContentStream.Proofs.InlineData
import ContentStream.Proofs.Offsets
import ContentStream.Proofs.Printing

/-!
# The data of inline images are opaque

**Theorem (`itemsOf_inlineImage`).** An inline image is read as one item that holds the bytes
between its `ID` and its `EI`, and what follows it is read as content of its own. This holds of all
bytes if the dictionary gives their number. Otherwise they must not hold what the reader looks for:
the marker of their filter, or an `EI` with a blank or an end on both sides.

The text of the dictionary may be any text that is read as keys and values in front of an `ID`
(`Spells`). While an image is open, the builder puts into the image what it would otherwise give out
as operands (`Effect`), so the text is read into the image (`items_inImage`). Whatever stands behind
the `ID` does not matter for that.
-/

namespace ContentStream

/-! ## The operands of the dictionary -/

/-- Items that are operands with these values, and then `ID` at offset `q`. -/
inductive Listed (q : Nat) : List Object → List ItemAt → Prop where
  | done : Listed q [] [(q, .ok (.operator "ID"))]
  | operand {pos : Nat} {value : Object} {values : List Object} {items : List ItemAt} :
    Listed q values items → Listed q (value :: values) ((pos, .ok (.operand value)) :: items)

theorem Listed.shift {q : Nat} {values : List Object} {items : List ItemAt}
    (h : Listed q values items) (k : Nat) : Listed (q + k) values (items.map (ItemAt.shift k)) := by
  induction h with
  | done => exact .done
  | operand _ ih => exact .operand ih

theorem Listed.mem {q : Nat} {values : List Object} {items : List ItemAt}
    (h : Listed q values items) : (q, .ok (.operator "ID")) ∈ items := by
  induction h with
  | done => exact List.mem_cons_self
  | operand _ ih => exact List.mem_cons_of_mem _ ih

theorem not_listed_error {q pos : Nat} {values : List Object} {e : Error}
    {items : List ItemAt} : ¬ Listed q values ((pos, .error e) :: items) := by
  intro h
  cases h

theorem not_listed_image {q pos : Nat} {values : List Object} {image : Stream}
    {items : List ItemAt} : ¬ Listed q values ((pos, .ok (.image image)) :: items) := by
  intro h
  cases h

namespace Builder

/-- The builder with an image open as well. -/
def inImage (b : Builder) (image : OpenImage) : Builder := { b with image := some image }

/-- The first item of a step is an error. -/
def Complains (step : Builder × List ItemAt) : Prop :=
  ∃ start e rest, step.2 = (start, .error e) :: rest

/-- What a step at `pos` can do, and what it does while an image is open. Values that would be items
go into the image then, and nothing else is allowed. -/
inductive Effect (pos : Nat) (step : Builder → Builder × List ItemAt) (b : Builder) : Prop where
  | quiet (hout : (step b).2 = []) (hnone : (step b).1.image = none)
    (himage : ∀ image, step (b.inImage image) = ((step b).1.inImage image, []))
  | value {start : Nat} {v : Object} (hout : (step b).2 = [(start, .ok (.operand v))])
    (hnone : (step b).1.image = none)
    (himage : ∀ image, step (b.inImage image) =
      ((step b).1.inImage { image with items := v :: image.items }, []))
  | operator {name : String} (hout : (step b).2 = [(pos, .ok (.operator name))])
    (himage : ∀ image, Complains (step (b.inImage image)))
  | image (hout : (step b).2 = []) (hsome : (step b).1.image.isSome = true)
    (himage : ∀ image, Complains (step (b.inImage image)))
  | error (hout : Complains (step b)) (himage : ∀ image, Complains (step (b.inImage image)))

variable {b : Builder}

theorem place_effect (h : b.image = none) (pos start : Nat) (value : Object) :
    Effect pos (fun b => b.place start value) b := by
  obtain ⟨containers, image⟩ := b
  cases h
  cases containers with
  | nil => exact .value rfl rfl fun _ => rfl
  | cons c outer => exact .quiet rfl rfl fun _ => rfl

theorem complain_effect (b : Builder) (pos start : Nat) (fault : TokenFault) :
    Effect pos (fun b => b.complain start fault) b :=
  .error ⟨_, _, _, rfl⟩ fun _ => ⟨_, _, _, rfl⟩

theorem Effect.congr {b' : Builder} {pos : Nat} {step step' : Builder → Builder × List ItemAt}
    (h : Effect pos step' b') (hstep : step b = step' b')
    (hin : ∀ image, step (b.inImage image) = step' (b'.inImage image)) : Effect pos step b := by
  cases h with
  | quiet hout hnone himage =>
    exact .quiet (hstep ▸ hout) (hstep ▸ hnone) fun image => by rw [hin, himage, hstep]
  | value hout hnone himage =>
    exact .value (hstep ▸ hout) (hstep ▸ hnone) fun image => by rw [hin, himage, hstep]
  | operator hout himage => exact .operator (hstep ▸ hout) fun image => hin image ▸ himage image
  | image hout hsome himage =>
    exact .image (hstep ▸ hout) (hstep ▸ hsome) fun image => hin image ▸ himage image
  | error hout himage => exact .error (hstep ▸ hout) fun image => hin image ▸ himage image

theorem finishContainer_effect (h : b.image = none) (pos : Nat) (c : OpenContainer) :
    Effect pos (fun b => b.finishContainer c) b := by
  obtain ⟨kind, start, items⟩ := c
  cases kind with
  | array => exact place_effect h pos start _
  | proc => exact place_effect h pos start _
  | dict =>
    have hstep (b : Builder) : b.finishContainer ⟨.dict, start, items⟩ =
        if (pairEntries items.reverse).2 then
          ((b.place start (.dict (Dict.ofEntries (pairEntries items.reverse).1))).1,
            (start, .error (.malformedToken start .keyNotName)) ::
              (b.place start (.dict (Dict.ofEntries (pairEntries items.reverse).1))).2)
        else b.place start (.dict (Dict.ofEntries (pairEntries items.reverse).1)) := rfl
    simp only [hstep]
    split
    · exact .error ⟨_, _, _, rfl⟩ fun _ => ⟨_, _, _, rfl⟩
    · exact place_effect h pos start _

theorem close_effect (h : b.image = none) (pos : Nat) (kind : Container) (mark : Mark) :
    Effect pos (fun b => b.close pos kind mark) b := by
  obtain ⟨containers, image⟩ := b
  cases containers with
  | nil =>
    exact (complain_effect ⟨[], image⟩ pos pos (.unbalanced mark.text)).congr rfl fun _ => rfl
  | cons c outer =>
    by_cases hkind : c.kind = kind
    · exact (finishContainer_effect (b := ⟨outer, image⟩) h pos c).congr (if_pos hkind)
        fun _ => if_pos hkind
    · exact (complain_effect ⟨c :: outer, image⟩ pos pos (.unbalanced mark.text)).congr
        (if_neg hkind) fun _ => if_neg hkind

theorem operator_effect (h : b.image = none) (pos : Nat) (name : String) :
    Effect pos (fun b => b.operator pos name) b := by
  obtain ⟨containers, image⟩ := b
  cases h
  cases containers with
  | nil =>
    by_cases hname : name = "BI"
    · subst hname
      exact .image rfl rfl fun _ => ⟨_, _, _, rfl⟩
    · exact .operator (congrArg Prod.snd (if_neg hname)) fun _ => ⟨_, _, _, rfl⟩
  | cons c outer =>
    by_cases hkind : c.kind = .proc
    · exact (place_effect (b := ⟨c :: outer, none⟩) rfl pos pos (.name name)).congr (if_pos hkind)
        fun _ => if_pos hkind
    · exact (complain_effect ⟨c :: outer, none⟩ pos pos (.operatorInContainer name)).congr
        (if_neg hkind) fun _ => if_neg hkind

theorem mark_effect (h : b.image = none) (pos : Nat) (m : Mark) :
    Effect pos (fun b => b.mark pos m) b := by
  cases m with
  | arrayOpen | dictOpen | procOpen => exact .quiet rfl h fun _ => rfl
  | arrayClose | dictClose | procClose => exact close_effect h pos _ _

theorem token_effect (h : b.image = none) (pos : Nat) (t : Token) :
    Effect pos (fun b => b.token pos t) b := by
  cases t with
  | number | bool | null | string | name => exact place_effect h pos pos _
  | operator name => exact operator_effect h pos name
  | mark m => exact mark_effect h pos m

/-- While an image is open, a step makes no items but errors, and the image stays open. -/
theorem token_of_image (h : b.image.isSome = true) (pos : Nat) (t : Token) :
    ((b.token pos t).2 = [] ∧ (b.token pos t).1.image.isSome = true) ∨
      Complains (b.token pos t) := by
  obtain ⟨containers, _ | image⟩ := b
  · cases h
  · cases token_effect (b := ⟨containers, none⟩) rfl pos t with
    | quiet _ _ himage =>
      have := himage image
      simp_all [inImage]
    | value _ _ himage =>
      have := himage image
      simp_all [inImage]
    | operator _ himage => exact .inr (himage image)
    | image _ _ himage => exact .inr (himage image)
    | error _ himage => exact .inr (himage image)

theorem finish_of_image (h : b.image.isSome = true) :
    ∃ start, b.finish = [(start, .error .truncated)] := by
  obtain ⟨image, himage⟩ := Option.isSome_iff_exists.1 h
  unfold finish
  rw [himage]
  cases b.containers.getLast? <;> exact ⟨_, rfl⟩

/-! ### Where operators stand -/

section Operators

variable {start pos : Nat} {name : String}

theorem operator_not_mem_place (value : Object) :
    (start, .ok (.operator name)) ∉ (b.place pos value).2 := by
  unfold place
  split
  · exact List.not_mem_nil
  · split
    · exact List.not_mem_nil
    · simp

theorem operator_not_mem_complain (fault : TokenFault) :
    (start, .ok (.operator name)) ∉ (b.complain pos fault).2 := by
  simp [complain]

theorem operator_not_mem_finishContainer (c : OpenContainer) :
    (start, .ok (.operator name)) ∉ (b.finishContainer c).2 := by
  obtain ⟨kind, opened, items⟩ := c
  cases kind with
  | array => exact operator_not_mem_place _
  | proc => exact operator_not_mem_place _
  | dict =>
    simp only [finishContainer]
    split
    · simp [operator_not_mem_place]
    · exact operator_not_mem_place _

theorem operator_not_mem_close (kind : Container) (mark : Mark) :
    (start, .ok (.operator name)) ∉ (b.close pos kind mark).2 := by
  unfold close
  split
  · split
    · exact operator_not_mem_finishContainer _
    · exact operator_not_mem_complain _
  · exact operator_not_mem_complain _

theorem of_operator_mem_token {t : Token} (h : (start, .ok (.operator name)) ∈ (b.token pos t).2) :
    start = pos ∧ b.containers = [] := by
  cases t with
  | number | bool | null | string | name => exact absurd h (operator_not_mem_place _)
  | mark m =>
    cases m with
    | arrayOpen | dictOpen | procOpen => cases h
    | arrayClose | dictClose | procClose => exact absurd h (operator_not_mem_close _ _)
  | operator word =>
    simp only [token, operator] at h
    split at h
    · split at h
      · exact absurd h (operator_not_mem_place _)
      · exact absurd h (operator_not_mem_complain _)
    · split at h
      · exact absurd h (operator_not_mem_complain _)
      · split at h
        · cases h
        · simp_all

end Operators

/-- A token that is no `ID` on its own does not end the dictionary of an open image. -/
theorem imageData?_inImage {pos : Nat} {t : Token} (hb : b.image = none)
    (h : (pos, .ok (.operator "ID")) ∉ (b.token pos t).2) (image : OpenImage) :
    (b.inImage image).imageData? t = none := by
  obtain ⟨containers, _ | _⟩ := b
  · unfold imageData?
    split
    · cases containers with
      | nil => exact absurd List.mem_cons_self h
      | cons c outer => rfl
    · rfl
  · cases hb

end Builder

namespace Cursor

/-- No `ID` ends the operands of a dictionary once an image has begun among them. -/
theorem not_listed_of_image {q : Nat} {values : List Object} {c : Cursor} {b : Builder}
    (h : b.image.isSome = true) : ¬ Listed q values (c.items b) := by
  induction c, b using items.induct with
  | case1 c b c' ht =>
    obtain ⟨start, hfinish⟩ := Builder.finish_of_image h
    rw [items_end ht, hfinish]
    exact not_listed_error
  | case2 c b pos c' ht =>
    rw [items_truncated ht]
    exact not_listed_error
  | case3 c b pos fault c' ht ih =>
    rw [items_malformed ht]
    exact not_listed_error
  | case4 c b pos token c' ht hb ih =>
    rw [items_token ht hb]
    obtain ⟨hout, hsome⟩ | ⟨start, e, rest, hout⟩ := Builder.token_of_image h pos token
    · rw [hout]
      exact ih hsome
    · rw [hout]
      exact not_listed_error
  | case5 c b pos token c' ht image hb fault c'' hd =>
    rw [items_image_cut ht hb hd]
    exact not_listed_error
  | case6 c b pos token c' ht image hb data c'' hd ih =>
    rw [items_image ht hb hd]
    exact not_listed_image

theorem offset_le_advance (c : Cursor) (n : Nat) : c.offset ≤ (c.advance n).offset := by
  rw [advance_offset]
  exact Nat.le_add_right _ _

theorem offset_le_token? {c c' : Cursor} {t : Option (Nat × Except TokenError Token)}
    (h : c.token? = (t, c')) : c.offset ≤ c'.offset := by
  obtain ⟨n, hn⟩ := token?_eq_advance c
  rw [h] at hn
  exact (show c' = c.advance n from hn) ▸ offset_le_advance c n

theorem token?_pos {c c' : Cursor} {pos : Nat} {t : Except TokenError Token}
    (h : c.token? = (some (pos, t), c')) : pos = c.skipBlanks.offset := by
  unfold token? tokenHere? at h
  split at h
  · cases h
  · cases h
    rfl

/-- An operator stands where the cursor is or further on. -/
theorem le_of_operator_mem {c : Cursor} {b : Builder} {start : Nat} {name : String}
    (h : (start, .ok (.operator name)) ∈ c.items b) : c.offset ≤ start := by
  induction c, b using items.induct with
  | case1 c b c' ht =>
    rw [items_end ht] at h
    unfold Builder.finish at h
    split at h <;> simp at h
  | case2 c b pos c' ht =>
    rw [items_truncated ht] at h
    simp at h
  | case3 c b pos fault c' ht ih =>
    rw [items_malformed ht] at h
    exact Nat.le_trans (offset_le_token? ht) (ih (by simpa using h))
  | case4 c b pos token c' ht hb ih =>
    rw [items_token ht hb, List.mem_append] at h
    rcases h with h | h
    · rw [(Builder.of_operator_mem_token h).1, token?_pos ht]
      exact offset_le_advance c _
    · exact Nat.le_trans (offset_le_token? ht) (ih h)
  | case5 c b pos token c' ht image hb fault c'' hd =>
    rw [items_image_cut ht hb hd] at h
    simp at h
  | case6 c b pos token c' ht image hb data c'' hd ih =>
    rw [items_image ht hb hd] at h
    obtain ⟨n, hn⟩ := inlineData_eq_advance c' (InlineDict.dataLength? image.attrs)
      (InlineDict.dataMarker? image.attrs)
    rw [← imageData, hd] at hn
    have hle : c'.offset ≤ c''.offset :=
      (show c'' = c'.advance n from hn) ▸ offset_le_advance c' n
    exact Nat.le_trans (offset_le_token? ht) (Nat.le_trans hle (ih (by simpa using h)))

theorem spelled_operator_id : Spelled [73, 68] (.operator "ID") :=
  spelled_run rfl rfl

theorem spelled_operator_bi : Spelled [66, 73] (.operator "BI") :=
  spelled_run rfl rfl

/-- **The dictionary of an image.** Text that is read as operands in front of an `ID` is read into
the dictionary of an open image, whatever follows the `ID`. -/
theorem items_inImage {q : Nat} {values : List Object} {c : Cursor} {b : Builder}
    (h : Listed q values (c.items b)) (hb : b.image = none) {o : Nat} {w v : List UInt8}
    (hc : c = ahead o (w ++ [73, 68])) (hq : q = o + w.length) (hv : Byte.EndsRun v)
    (image : OpenImage) :
    (ahead o (w ++ [73, 68] ++ v)).items (b.inImage image) =
      (ahead q ([73, 68] ++ v)).items
        (Builder.inImage {} { image with items := values.reverse ++ image.items }) := by
  induction c, b using items.induct generalizing values o w image with
  | case1 c b c' ht =>
    rw [items_end ht] at h
    unfold Builder.finish at h
    split at h <;> cases h
  | case2 c b pos c' ht =>
    rw [items_truncated ht] at h
    exact absurd h not_listed_error
  | case3 c b pos fault c' ht ih =>
    rw [items_malformed ht] at h
    exact absurd h not_listed_error
  | case4 c b pos token c' ht hdata ih =>
    subst hc
    obtain ⟨n, hn, rfl, htoken⟩ := token?_append ht fun _ => hv
    rw [items_token ht hdata] at h
    have hgo {values' : List Object} {image' : OpenImage}
        (hlisted : Listed q values'
          ((ahead (o + n) ((w ++ [73, 68]).drop n)).items (b.token pos token).1))
        (hnone : (b.token pos token).1.image = none)
        (hout : (pos, .ok (.operator "ID")) ∉ (b.token pos token).2)
        (hstep : (b.inImage image).token pos token = ((b.token pos token).1.inImage image', [])) :
        (ahead o (w ++ [73, 68] ++ v)).items (b.inImage image) =
          (ahead q ([73, 68] ++ v)).items
            (Builder.inImage {} { image' with items := values'.reverse ++ image'.items }) := by
      -- The token lies in front of the `ID`, which is still to come.
      have hle : n ≤ w.length := by
        have := le_of_operator_mem hlisted.mem
        rw [hq] at this
        exact Nat.le_of_add_le_add_left this
      have hdrop : (w ++ [73, 68]).drop n = w.drop n ++ [73, 68] :=
        List.drop_append_of_le_length hle
      rw [items_token htoken (Builder.imageData?_inImage hb hout image), hstep, hdrop]
      exact ih hlisted hnone (congrArg _ hdrop) (by rw [List.length_drop]; omega) image'
    cases Builder.token_effect hb pos token with
    | quiet hout hnone himage =>
      rw [hout] at h
      exact hgo h hnone (by simp [hout]) (himage image)
    | value hout hnone himage =>
      rw [hout] at h
      cases h with
      | operand h =>
        exact (hgo h hnone (by simp [hout]) (himage image)).trans (by simp)
    | operator hout _ =>
      obtain ⟨-, hempty⟩ := Builder.of_operator_mem_token (hout ▸ List.mem_cons_self)
      obtain ⟨containers, _⟩ := b
      cases hb
      cases hempty
      rw [hout] at h
      generalize (ahead (o + n) ((w ++ [73, 68]).drop n)).items _ = later at h
      cases h
      have hpos := token?_pos ht
      rw [ahead_skipBlanks, hq] at hpos
      have hblanks : blankLength false (w ++ [73, 68]) = w.length := (Nat.add_left_cancel hpos).symm
      have hblanks' : blankLength false (w ++ [73, 68] ++ v) = w.length := by
        rw [blankLength_append (by simp [hblanks]), hblanks]
      have hstart : (ahead o (w ++ [73, 68] ++ v)).skipBlanks =
          ahead (o + w.length) ([73, 68] ++ v) := by
        rw [ahead_skipBlanks, hblanks', List.append_assoc, List.drop_left]
      exact items_congr (by rw [token?, hstart, hq]; rfl) _
    | image hout hsome _ =>
      rw [hout] at h
      exact absurd h (not_listed_of_image hsome)
    | error hout _ =>
      obtain ⟨start, e, rest, hout⟩ := hout
      rw [hout] at h
      exact absurd h not_listed_error
  | case5 c b pos token c' ht image' hdata fault c'' hd =>
    rw [items_image_cut ht hdata hd] at h
    exact absurd h not_listed_error
  | case6 c b pos token c' ht image' hdata data c'' hd ih =>
    rw [items_image ht hdata hd] at h
    exact absurd h not_listed_image

end Cursor

/-! ## Images -/

namespace Content

open Cursor InlineDict

/-- The text of a dictionary: in front of `ID` it is read as keys and values and as nothing else. -/
def Spells (text : List UInt8) (entries : List (String × Object)) : Prop :=
  Listed (text.length + 1) (entryValues entries) (itemsOf (text ++ Utf8.encode " ID"))

/-- An inline image as it is written. -/
def inlineImage (text data : List UInt8) (blank : UInt8) : List UInt8 :=
  Utf8.encode "BI " ++ text ++ Utf8.encode " ID " ++ data ++ blank :: Utf8.encode "EI"

/-- Content that starts with an image at offset 0. What follows the image is read as content of its
own, further on. -/
def StartsWithImage (front : List UInt8) (image : Stream) (rest : List UInt8) : Prop :=
  itemsOf (front ++ rest) =
    (0, .ok (.image image)) :: (itemsOf rest).map (ItemAt.shift front.length)

/-- Keys and values are read as such in front of an `ID`. -/
theorem listed_led {parts : List (List UInt8 × Object)} (h : ∀ p ∈ parts, ReadsAs p.1 p.2)
    (o : Nat) :
    Listed (o + (led parts).length + 1) (parts.map Prod.snd)
      ((ahead o (led parts ++ Utf8.encode " ID")).items {}) := by
  have hmark : Utf8.encode " ID" = [32, 73, 68] := rfl
  rw [hmark]
  induction parts generalizing o with
  | nil =>
    have hend : (ahead (o + 1 + 2) []).items {} = [] := items_end rfl
    have hitems := items_token (b := {}) (spelled_operator_id (o + 1)) rfl
    rw [led, List.flatMap_nil, List.nil_append, items_blank rfl, hitems]
    exact hend ▸ .done
  | cons p parts ih =>
    obtain ⟨hp, hparts⟩ := List.forall_mem_cons.1 h
    have hbytes : led (p :: parts) ++ [32, 73, 68] =
        32 :: (p.1 ++ (led parts ++ [32, 73, 68])) := by
      simp [led]
    have hlength : o + (led (p :: parts)).length + 1 =
        o + 1 + p.1.length + (led parts).length + 1 := by
      simp only [led, List.flatMap_cons, List.length_append, List.length_cons]
      omega
    rw [hbytes, items_blank rfl, hp _ _ _ (endsRun_led parts _ (Byte.endsRun_cons rfl _)), hlength]
    exact .operand (ih hparts _)

/-- **Printed dictionaries.** The entries of a printable dictionary, as they are written, are such a
text. -/
theorem spells_written {entries : List (String × Object)} (hnames : ∀ e ∈ entries, PlainName e.1)
    (hvalues : ∀ e ∈ entries, e.2.Printable) :
    Spells (Utf8.encode (Object.writtenEntries entries)) (Object.normalizedEntries entries) := by
  have hlisted := listed_led
    (Object.readsAs_entryParts hnames fun e he => (hvalues e he).readsAs) 0
  rw [Spells, itemsOf_eq, Object.encode_writtenEntries, ← Object.map_snd_entryParts]
  rwa [Nat.zero_add] at hlisted

theorem spells_of_normalized {entries : List (String × Object)} {text : String}
    (htext : Object.writtenEntries entries = text)
    (hsame : Object.normalizedEntries entries = entries)
    (hnames : ∀ e ∈ entries, PlainName e.1) (hvalues : ∀ e ∈ entries, e.2.Printable) :
    Spells (Utf8.encode text) entries := by
  have hspells := spells_written hnames hvalues
  rwa [htext, hsame] at hspells

theorem encode_opening : Utf8.encode "BI " = [66, 73, 32] := rfl

theorem encode_dataMark : Utf8.encode " ID " = [32, 73, 68, 32] := rfl

theorem encode_end : Utf8.encode "EI" = [69, 73] := rfl

theorem attrs_entryValues (entries : List (String × Object)) (start : Nat) :
    OpenImage.attrs { start := start, items := (entryValues entries).reverse } =
      expand (Dict.ofEntries entries) := by
  rw [OpenImage.attrs, List.reverse_reverse, pairEntries_entryValues]

theorem items_beginImage (bytes : List UInt8) :
    (ahead 0 ([66, 73] ++ 32 :: bytes)).items {} =
      (ahead 3 bytes).items (Builder.inImage {} { start := 0 }) :=
  (items_spelled spelled_operator_bi (fun _ => Byte.endsRun_cons rfl bytes) rfl 0).trans
    (items_blank rfl 2 bytes _)

/-- An image is read as soon as its data are found. -/
theorem startsWithImage {text data rest : List UInt8} {blank : UInt8}
    {entries : List (String × Object)} (htext : Spells text entries)
    (hdata : ∀ o, (ahead o (32 :: (data ++ blank :: 69 :: 73 :: rest))).inlineData
      (dataLength? (expand (Dict.ofEntries entries)))
      (dataMarker? (expand (Dict.ofEntries entries))) =
        (.ok data, ahead (o + (data.length + 4)) rest)) :
    StartsWithImage (inlineImage text data blank) ⟨expand (Dict.ofEntries entries), data, 0⟩
      rest := by
  have hbytes : inlineImage text data blank ++ rest =
      [66, 73] ++ 32 ::
        (text ++ [32] ++ [73, 68] ++ 32 :: (data ++ blank :: 69 :: 73 :: rest)) := by
    simp [inlineImage, encode_opening, encode_dataMark, encode_end]
  have hlength :
      text.length + 1 + 3 + 2 + (data.length + 4) = (inlineImage text data blank).length := by
    simp only [inlineImage, encode_opening, encode_dataMark, encode_end, List.length_append,
      List.length_cons, List.length_nil]
    omega
  have hlisted : Listed (text.length + 1 + 3) (entryValues entries)
      ((ahead 3 (text ++ [32] ++ [73, 68])).items {}) := by
    rw [items_ahead, List.append_assoc]
    exact htext.shift 3
  have hends := Byte.endsRun_cons (b := 32) rfl (data ++ blank :: 69 :: 73 :: rest)
  -- `BI`, the dictionary, `ID` and the data, each from where the one before it ends.
  have hdict := items_inImage hlisted rfl rfl (by simp; omega) hends { start := 0 }
  have hmark := spelled_operator_id.append (fun _ => hends) (text.length + 1 + 3)
  have himage :
      (ahead (text.length + 1 + 3 + 2) (32 :: (data ++ blank :: 69 :: 73 :: rest))).imageData
        { start := 0, items := (entryValues entries).reverse } =
        (.ok data, ahead (text.length + 1 + 3 + 2 + (data.length + 4)) rest) := by
    rw [imageData, attrs_entryValues]
    exact hdata _
  rw [List.append_nil] at hdict
  rw [StartsWithImage, hbytes, itemsOf_eq, items_beginImage, hdict, items_image hmark rfl himage,
    attrs_entryValues, hlength, items_ahead]

/-- **Inline data are opaque.** Whatever bytes an image holds, it is read as one item that holds
these bytes, and the content behind it is read as it would be alone. The bytes are as many as the
dictionary says, or they hold no `EI` on its own, or no marker of their filter. -/
theorem itemsOf_inlineImage {text rest : List UInt8} {entries : List (String × Object)}
    (htext : Spells text entries) (hrest : BlankAhead rest) :
    (∀ (key : String) (n : Decimal) (p : List UInt8),
      lengthEntries entries = [(key, .number n)] → n.toNatBelow? wordBound = some p.length →
      StartsWithImage (inlineImage text p 32) ⟨expand (Dict.ofEntries entries), p, 0⟩ rest) ∧
    (∀ (blank : UInt8) (p : List UInt8), Byte.isBlank blank = true → lengthEntries entries = [] →
      (∀ f ∈ firstFilter? (expand (Dict.ofEntries entries)),
        f ≠ "ASCIIHexDecode" ∧ f ≠ "ASCII85Decode") →
      (∀ i < p.length, ¬ EndAt p i) →
      StartsWithImage (inlineImage text p blank) ⟨expand (Dict.ofEntries entries), p, 0⟩ rest) ∧
    (∀ (filter : String) (marker p : List UInt8), (filter, marker) ∈ markers →
      lengthEntries entries = [] →
      firstFilter? (expand (Dict.ofEntries entries)) = some filter → ¬ marker <:+: p →
      StartsWithImage (inlineImage text (p ++ marker) 32)
        ⟨expand (Dict.ofEntries entries), p ++ marker, 0⟩ rest) := by
  refine ⟨?_, ?_, ?_⟩
  · intro key n p hlength hn
    refine startsWithImage htext fun o => ?_
    rw [dataLength?_of_singleton hlength, hn]
    exact inlineData_counted hrest o _
  · intro blank p hblank hlength hfilter hp
    refine startsWithImage htext fun o => ?_
    rw [dataLength?_of_nil hlength, dataMarker?_of_other hfilter]
    exact inlineData_bare hblank hp hrest o
  · intro filter marker p hmem hlength hfilter hp
    obtain ⟨hmarker, hcase⟩ := dataMarker?_of_mem hmem hfilter
    refine startsWithImage htext fun o => ?_
    rw [dataLength?_of_nil hlength, hmarker]
    exact inlineData_marked hcase hp hrest o

/-- Data with letters `EI` between blanks, data with such letters beside others, and data with a
tilde in front of the marker. -/
theorem itemsOf_inlineImage_three :
    StartsWithImage (inlineImage (Utf8.encode " /L 6") (Utf8.encode " EI Q ") 32)
        ⟨[("Length", .number (Decimal.ofFin 6))], Utf8.encode " EI Q ", 0⟩ (Utf8.encode " q") ∧
      StartsWithImage (inlineImage (Utf8.encode " /W 1") (Utf8.encode "xEI EIx") 10)
        ⟨[("Width", .number (Decimal.ofFin 1))], Utf8.encode "xEI EIx", 0⟩ [] ∧
      StartsWithImage
        (inlineImage (Utf8.encode " /F [/A85]") (Utf8.encode " EI ~" ++ Utf8.encode "~>") 32)
        ⟨[("Filter", .array [.name "ASCII85Decode"])], Utf8.encode " EI ~" ++ Utf8.encode "~>", 0⟩
        (Utf8.encode "\nQ") := by
  have hlength : Spells (Utf8.encode " /L 6") [("L", .number (Decimal.ofFin 6))] :=
    spells_of_normalized rfl rfl (by decide) (List.forall_mem_singleton.2 (.number _))
  have hwidth : Spells (Utf8.encode " /W 1") [("W", .number (Decimal.ofFin 1))] :=
    spells_of_normalized rfl rfl (by decide) (List.forall_mem_singleton.2 (.number _))
  have hfilter : Spells (Utf8.encode " /F [/A85]") [("F", .array [.name "A85"])] :=
    spells_of_normalized rfl rfl (by decide)
      (List.forall_mem_singleton.2 (.array (List.forall_mem_singleton.2 (.name (by decide)))))
  refine ⟨?_, ?_, ?_⟩
  · exact (itemsOf_inlineImage hlength (by decide)).1 "L" _ _ rfl rfl
  · exact (itemsOf_inlineImage hwidth (by decide)).2.1 10 _ rfl rfl (by decide) (by decide)
  · exact (itemsOf_inlineImage hfilter (by decide)).2.2 "ASCII85Decode" _ _ (by decide) rfl rfl
      (by decide)

end Content

end ContentStream
