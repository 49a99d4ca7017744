import ContentStream.Proofs.ReadsInRange

/-!
# Reading items by places

The items of content, read from places among segments: the tokens and the data of inline images are
asked for as the items need them.

**Theorem (`items_by_places`).** Reading the items by places comes to its end with the items of the
content, unless a breakdown stands at their end. Then it comes to an access out of range.

**Theorem (`any_breaksDown_iff`).** That happens if the reader comes to the data of an image whose
length is zero, with nothing ahead of it, and only then.
-/

namespace ContentStream

/-! ## Breakdowns -/

namespace Builder

variable {b : Builder} {pos : Nat}

theorem place_unbroken (b : Builder) (pos : Nat) (value : Object) :
    (b.place pos value).2.any ItemAt.breaksDown = false := by
  unfold place
  split
  · rfl
  · split <;> rfl

theorem finishContainer_unbroken (b : Builder) (c : OpenContainer) :
    (b.finishContainer c).2.any ItemAt.breaksDown = false := by
  unfold finishContainer
  split
  · have hplace := place_unbroken b c.start (.dict (Dict.ofEntries (pairEntries c.items.reverse).1))
    dsimp only
    split
    · rw [List.any_cons, hplace]
      rfl
    · exact hplace
  · exact place_unbroken ..

theorem close_unbroken (b : Builder) (pos : Nat) (kind : Container) (m : Mark) :
    (b.close pos kind m).2.any ItemAt.breaksDown = false := by
  unfold close
  split
  · split
    · exact finishContainer_unbroken ..
    · rfl
  · rfl

theorem operator_unbroken (b : Builder) (pos : Nat) (name : String) :
    (b.operator pos name).2.any ItemAt.breaksDown = false := by
  unfold operator
  split
  · split
    · exact place_unbroken ..
    · rfl
  · split
    · rfl
    · split <;> rfl

theorem token_unbroken (b : Builder) (pos : Nat) (t : Token) :
    (b.token pos t).2.any ItemAt.breaksDown = false := by
  cases t with
  | number | bool | null | string | name => exact place_unbroken ..
  | operator name => exact operator_unbroken b pos name
  | mark m =>
    cases m with
    | arrayOpen | dictOpen | procOpen => rfl
    | arrayClose | dictClose | procClose => exact close_unbroken ..

theorem finish_unbroken (b : Builder) : b.finish.any ItemAt.breaksDown = false := by
  unfold finish
  split <;> rfl

end Builder

namespace Cursor

variable {c : Cursor} {b : Builder} {image : OpenImage}

/-- Reading items from `c` with `b` open comes to the data of an image, at the last cursor. -/
inductive ComesToData : Cursor → Builder → OpenImage → Cursor → Prop
  | here {c c' : Cursor} {b : Builder} {pos : Nat} {token : Token} {image : OpenImage} :
      c.token? = (some (pos, .ok token), c') → b.imageData? token = some image →
      ComesToData c b image c'
  | malformed {c c' last : Cursor} {b : Builder} {pos : Nat} {fault : TokenFault} {image : OpenImage} :
      c.token? = (some (pos, .error (.malformed fault)), c') → ComesToData c' b image last →
      ComesToData c b image last
  | token {c c' last : Cursor} {b : Builder} {pos : Nat} {token : Token} {image : OpenImage} :
      c.token? = (some (pos, .ok token), c') → b.imageData? token = none →
      ComesToData c' (b.token pos token).1 image last → ComesToData c b image last
  | image {c c' c'' last : Cursor} {b : Builder} {pos : Nat} {token : Token} {first image : OpenImage}
      {data : List UInt8} :
      c.token? = (some (pos, .ok token), c') → b.imageData? token = some first →
      c'.imageData first = (.ok data, c'') → ComesToData c'' {} image last →
      ComesToData c b image last

/-- The data of an image are wanted where nothing is left, and there should be none. -/
def LacksData (c : Cursor) (image : OpenImage) : Prop :=
  InlineDict.dataLength? image.attrs = some 0 ∧ SegmentCursor.dataAhead c.rest = []

theorem lacksData_iff : c.LacksData image ↔ (c.imageData image).1 = .error .missingSegment := by
  rw [imageData, SegmentCursor.Call.missingSegment_iff, LacksData]
  cases InlineDict.dataLength? image.attrs with
  | none => exact iff_of_false (by simp) id
  | some n =>
    cases n with
    | zero => simp [SegmentCursor.Call.AsksAtEnd]
    | succ n => exact iff_of_false (by simp) id

/-- What is read before the data of an image, and then the image itself, breaks down in no way. -/
theorem comesToData_of_broken (h : (c.items b).any ItemAt.breaksDown = true) :
    ∃ image last, c.ComesToData b image last ∧ last.LacksData image := by
  induction c, b using items.induct with
  | case1 c b c' ht =>
    rw [items_end ht, Builder.finish_unbroken] at h
    cases h
  | case2 c b pos c' ht =>
    rw [items_truncated ht] at h
    cases h
  | case3 c b pos fault c' ht ih =>
    rw [items_malformed ht, List.any_cons] at h
    obtain ⟨image, last, hcomes, hlacks⟩ := ih h
    exact ⟨image, last, .malformed ht hcomes, hlacks⟩
  | case4 c b pos token c' ht hdata ih =>
    rw [items_token ht hdata, List.any_append, Builder.token_unbroken, Bool.false_or] at h
    obtain ⟨image, last, hcomes, hlacks⟩ := ih h
    exact ⟨image, last, .token ht hdata hcomes, hlacks⟩
  | case5 c b pos token c' ht image hdata fault c'' hd =>
    rw [items_image_cut ht hdata hd] at h
    refine ⟨image, c', .here ht hdata, lacksData_iff.2 ?_⟩
    cases fault with
    | truncated => cases h
    | missingSegment => rw [hd]
  | case6 c b pos token c' ht image hdata data c'' hd ih =>
    rw [items_image ht hdata hd, List.any_cons] at h
    obtain ⟨later, last, hcomes, hlacks⟩ := ih h
    exact ⟨later, last, .image ht hdata hd hcomes, hlacks⟩

theorem ComesToData.broken {last : Cursor} (h : c.ComesToData b image last)
    (hlacks : last.LacksData image) : (c.items b).any ItemAt.breaksDown = true := by
  induction h with
  | @here c c' b pos token image ht hdata =>
    have hmissing := lacksData_iff.1 hlacks
    generalize hd : c'.imageData image = x at hmissing
    obtain ⟨found, c''⟩ := x
    cases hmissing
    rw [items_image_cut ht hdata hd]
    rfl
  | malformed ht _ ih =>
    rw [items_malformed ht, List.any_cons, ih hlacks, Bool.or_true]
  | token ht hdata _ ih =>
    rw [items_token ht hdata, List.any_append, ih hlacks, Bool.or_true]
  | image ht hdata hd _ ih =>
    rw [items_image ht hdata hd, List.any_cons, ih hlacks, Bool.or_true]

/-- **Breakdowns** are images of length zero at the end. -/
theorem any_breaksDown_iff :
    (c.items b).any ItemAt.breaksDown = true ↔
      ∃ image last, c.ComesToData b image last ∧ last.LacksData image :=
  ⟨comesToData_of_broken, fun ⟨_, _, hcomes, hlacks⟩ => hcomes.broken hlacks⟩

end Cursor

/-! ## Items by places -/

namespace SegmentCursor

def itemsWithin : (rounds : Nat) → Builder → Reading (List ItemAt)
  | 0, _ => unending
  | n + 1, b => do
    let found ← token
    match found with
    | none => pure b.finish
    | some (_, .error .truncated) =>
      let offset ← tell
      pure [(offset, .error .truncated)]
    | some (pos, .error (.malformed fault)) =>
      let later ← itemsWithin n b
      pure ([(pos, .error (.malformedToken pos fault))] ++ later)
    | some (pos, .ok token) =>
      match b.imageData? token with
      | none =>
        let later ← itemsWithin n (b.token pos token).1
        pure ((b.token pos token).2 ++ later)
      | some image =>
        let found ← inlineData (InlineDict.dataLength? image.attrs) (InlineDict.dataMarker? image.attrs)
        match found with
        | none => pure [(image.start, .error .truncated)]
        | some data =>
          let later ← itemsWithin n {}
          pure ([(image.start, .ok (.image ⟨image.attrs, data, 0⟩))] ++ later)

/-- Reads all items from the place on. -/
def items : Reading (List ItemAt) := loop fun rounds => itemsWithin rounds {}

section Yields

variable {α : Type} {m : Reading (List ItemAt)} {c c' : Cursor} {found : List ItemAt}

/-- Reading ends with these items, or comes to an access out of range if one of them is a breakdown. -/
def Yields (m : Reading (List ItemAt)) (c : Cursor) (found : List ItemAt) : Prop :=
  (found.any ItemAt.breaksDown = false → ∃ c', Does m c found c') ∧
    (found.any ItemAt.breaksDown = true → Overruns m c)

theorem Does.yields_of_unbroken (h : Does m c found c') (hfound : found.any ItemAt.breaksDown = false) :
    Yields m c found :=
  ⟨fun _ => ⟨c', h⟩, fun hbroken => by rw [hfound] at hbroken; cases hbroken⟩

theorem Does.yields {m : Reading α} {f : α → Reading (List ItemAt)} {a : α} (h : Does m c a c')
    (hf : Yields (f a) c' found) : Yields (m >>= f) c found := by
  refine ⟨fun hfound => ?_, fun hbroken => h.overruns (hf.2 hbroken)⟩
  obtain ⟨c'', hc''⟩ := hf.1 hfound
  exact ⟨c'', h.bind hc''⟩

/-- Items in front of those that are read. -/
theorem Yields.after {first : List ItemAt} (h : Yields m c found)
    (hfirst : first.any ItemAt.breaksDown = false) :
    Yields (m >>= fun later => pure (first ++ later)) c (first ++ found) := by
  unfold Yields
  rw [List.any_append, hfirst, Bool.false_or]
  refine ⟨fun hfound => ?_, fun hbroken => (h.2 hbroken).bind⟩
  obtain ⟨c', hc'⟩ := h.1 hfound
  exact ⟨c', hc'.bind (.pure _ _)⟩

end Yields

/-- **All items ahead.** The induction is on the rounds, of which there are more than bytes ahead. -/
theorem itemsWithin_yields {rounds : Nat} {c : Cursor} (b : Builder) (h : c.rest.length < rounds) :
    Yields (itemsWithin rounds b) c (c.items b) := by
  induction rounds generalizing c b with
  | zero => exact absurd h (Nat.not_lt_zero _)
  | succ n ih =>
    have htoken := does_token c
    rcases hc : c.token? with ⟨found, c'⟩
    rw [hc] at htoken
    refine htoken.yields ?_
    cases found with
    | none =>
      rw [Cursor.items_end hc]
      exact (Does.pure _ _).yields_of_unbroken b.finish_unbroken
    | some found =>
      obtain ⟨pos, t⟩ := found
      have hprogress := Cursor.token?_progress hc
      have hless : c'.rest.length < n := by omega
      cases t with
      | error e =>
        cases e with
        | truncated =>
          rw [Cursor.items_truncated hc]
          exact (does_tell c').yields ((Does.pure _ _).yields_of_unbroken rfl)
        | malformed fault =>
          rw [Cursor.items_malformed hc]
          exact (ih b hless).after rfl
      | ok token =>
        dsimp only
        cases hdata : b.imageData? token with
        | none =>
          rw [Cursor.items_token hc hdata]
          exact (ih _ hless).after (b.token_unbroken pos token)
        | some image =>
          have hmeets := inlineData_meets c' (InlineDict.dataLength? image.attrs)
            (InlineDict.dataMarker? image.attrs)
          rw [← Cursor.imageData] at hmeets
          generalize hd : c'.imageData image = x at hmeets
          obtain ⟨(_ | _) | data, c''⟩ := x
          · rw [Cursor.items_image_cut hc hdata hd]
            exact Does.yields hmeets ((Does.pure _ _).yields_of_unbroken rfl)
          · rw [Cursor.items_image_cut hc hdata hd]
            refine ⟨fun hnone => ?_, fun _ => Overruns.bind hmeets⟩
            cases hnone
          · have hle := Cursor.imageData_length hd
            rw [Cursor.items_image hc hdata hd]
            exact Does.yields hmeets ((ih {} (by omega)).after rfl)

/-- **Items by places.** Reading the items ends with those of the content, and no access is out of
range, unless the reader breaks down. -/
theorem items_by_places (segments : List (List UInt8)) :
    ((Content.items segments).any ItemAt.breaksDown = false →
      ∃ g, Ends items (ofSegments segments) (Content.items segments) g) ∧
    ((Content.items segments).any ItemAt.breaksDown = true →
      ∃ e, Fails items (ofSegments segments) e) := by
  have hstart := stands_start segments
  have hrounds : (Cursor.ofSegments segments).rest.length < (ofSegments segments).total + 1 := by
    have htotal := hstart.total
    omega
  have hyields := itemsWithin_yields {} hrounds
  refine ⟨fun hfound => ?_, fun hbroken => ?_⟩
  · obtain ⟨c', hdoes⟩ := hyields.1 hfound
    obtain ⟨g, hends, -⟩ := hdoes _ hstart
    exact ⟨g, .get hends⟩
  · obtain ⟨e, hfails⟩ := hyields.2 hbroken _ hstart
    exact ⟨e, .get hfails⟩

end SegmentCursor

end ContentStream
