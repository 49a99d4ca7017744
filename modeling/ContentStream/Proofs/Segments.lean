import ContentStream.Content.Item
import Mathlib.Data.List.TakeWhile

/-!
# Segments do not matter between tokens

Content may come in several segments. The only place where their ends show is a run of regular
bytes, which does not go on into the next segment.

**Theorem (`items_of_unbroken`).** If no segment ends between two regular bytes, the items are those
of the bytes in one piece: the same operands, operators, images and errors at the same offsets.
Strings, comments, brackets of two characters and the data of images may all be cut.

A cursor is `Seamless` if, wherever it is moved, the run ahead is all the regular bytes ahead. Such
a cursor reads what a cursor without segments reads (`items_flat`), token by token and image by
image.
-/

namespace ContentStream

namespace Cursor

/-! ## Moving on -/

theorem advance_add (c : Cursor) (m n : Nat) : c.advance (m + n) = (c.advance m).advance n := by
  induction m generalizing c with
  | zero => rw [Nat.zero_add, advance_zero]
  | succ m ih => rw [Nat.succ_add, advance, advance, ih]

theorem next_ends (c : Cursor) : c.next.ends = c.ends := by
  unfold next
  split <;> rfl

theorem advance_ends (c : Cursor) (n : Nat) : (c.advance n).ends = c.ends := by
  induction n generalizing c with
  | zero => rfl
  | succ n ih => rw [advance, ih, next_ends]

/-- All moves of the reader are moves forward. -/
theorem token?_eq_advance (c : Cursor) : ∃ n, c.token?.2 = c.advance n := by
  unfold token? tokenHere?
  split
  · exact ⟨_, rfl⟩
  · exact ⟨_, (advance_add c _ _).symm⟩

theorem skipEnd_eq_advance (c : Cursor) : ∃ n, c.skipEnd = c.advance n := by
  unfold skipEnd
  dsimp only
  split
  · exact ⟨_, (advance_add c _ _).symm⟩
  · exact ⟨0, rfl⟩

theorem inlineData_eq_advance (c : Cursor) (length : Option Nat) (marker : Option (List UInt8)) :
    ∃ n, (c.inlineData length marker).2 = c.advance n := by
  unfold inlineData
  extract_lets blank c'
  have hmove (n : Nat) : ∃ m, c'.advance n = c.advance m := by
    by_cases hblank : blank = true
    · exact ⟨1 + n, by simp only [c', if_pos hblank, advance_add]; rfl⟩
    · exact ⟨n, by simp only [c', if_neg hblank]⟩
  have hskip (n : Nat) : ∃ m, (c'.advance n).skipEnd = c.advance m := by
    obtain ⟨k, hk⟩ := skipEnd_eq_advance (c'.advance n)
    rw [hk, ← advance_add]
    exact hmove _
  split
  · split
    · exact hskip _
    · exact hmove 0
  · split
    · exact hskip _
    · exact hmove _
  · split
    · exact hmove _
    · exact hmove _

/-! ## Items by their first token -/

section Items

variable {c c' : Cursor} {b : Builder} {pos : Nat} {token : Token}

theorem imageData_length {image : OpenImage} {data : Except DataFault (List UInt8)}
    (h : c.imageData image = (data, c')) : c'.rest.length ≤ c.rest.length := by
  have hle := inlineData_length c (InlineDict.dataLength? image.attrs)
    (InlineDict.dataMarker? image.attrs)
  rw [← imageData, h] at hle
  exact hle

theorem items_end (h : c.token? = (none, c')) : c.items b = b.finish := by
  rw [items]
  split <;> simp_all

theorem items_truncated (h : c.token? = (some (pos, .error .truncated), c')) :
    c.items b = [(c'.offset, .error .truncated)] := by
  rw [items]
  split <;> simp_all

theorem items_malformed {fault : TokenFault}
    (h : c.token? = (some (pos, .error (.malformed fault)), c')) :
    c.items b = (pos, .error (.malformedToken pos fault)) :: c'.items b := by
  rw [items]
  split <;> simp_all

theorem items_token (h : c.token? = (some (pos, .ok token), c')) (hb : b.imageData? token = none) :
    c.items b = (b.token pos token).2 ++ c'.items (b.token pos token).1 := by
  rw [items]
  split <;> simp_all

theorem items_image {image : OpenImage} {data : List UInt8} {c'' : Cursor}
    (h : c.token? = (some (pos, .ok token), c')) (hb : b.imageData? token = some image)
    (hd : c'.imageData image = (.ok data, c'')) :
    c.items b = (image.start, .ok (.image ⟨image.attrs, data, 0⟩)) :: c''.items {} := by
  rw [items]
  split
  case h_4 heq =>
    cases h.symm.trans heq
    simp only [hb]
    split <;> simp_all
  all_goals simp_all

theorem items_image_cut {image : OpenImage} {fault : DataFault} {c'' : Cursor}
    (h : c.token? = (some (pos, .ok token), c')) (hb : b.imageData? token = some image)
    (hd : c'.imageData image = (.error fault, c'')) :
    c.items b = [(image.start, .error fault.error)] := by
  rw [items]
  split
  case h_4 heq =>
    cases h.symm.trans heq
    simp only [hb]
    split <;> simp_all
  all_goals simp_all

end Items

/-! ## Changing what a cursor knows -/

/-- A change of a cursor that keeps the bytes ahead and goes along with every move. -/
structure Relabels (f : Cursor → Cursor) : Prop where
  rest : ∀ c, (f c).rest = c.rest
  next : ∀ c, (f c).next = f c.next

namespace Relabels

variable {f : Cursor → Cursor}

theorem advance (h : Relabels f) (c : Cursor) (n : Nat) : (f c).advance n = f (c.advance n) := by
  induction n generalizing c with
  | zero => rfl
  | succ n ih => rw [Cursor.advance, Cursor.advance, h.next, ih]

theorem peek? (h : Relabels f) (c : Cursor) (n : Nat) : (f c).peek? n = c.peek? n := by
  rw [Cursor.peek?, Cursor.peek?, h.rest]

theorem skipBlanks (h : Relabels f) (c : Cursor) : (f c).skipBlanks = f c.skipBlanks := by
  rw [Cursor.skipBlanks, h.rest, h.advance]
  rfl

theorem skipEnd (h : Relabels f) (c : Cursor) : (f c).skipEnd = f c.skipEnd := by
  unfold Cursor.skipEnd startsWith
  simp only [h.skipBlanks, h.advance, h.peek?, h.rest]
  exact (apply_ite f _ _ _).symm

theorem take (h : Relabels f) (c : Cursor) (n : Nat) : (f c).take n = c.take n := by
  unfold Cursor.take atEnd
  rw [h.rest]

/-- Inline data are found in the bytes alone. -/
theorem inlineData (h : Relabels f) (c : Cursor) (length : Option Nat)
    (marker : Option (List UInt8)) :
    (f c).inlineData length marker =
      ((c.inlineData length marker).1, f (c.inlineData length marker).2) := by
  have hstart : (if (c.peek? 0).any Byte.isBlank = true then (f c).next else f c) =
      f (if (c.peek? 0).any Byte.isBlank = true then c.next else c) := by
    rw [apply_ite f, h.next]
  unfold Cursor.inlineData
  simp only [h.peek?, hstart]
  generalize (if (c.peek? 0).any Byte.isBlank = true then c.next else c) = start
  simp only [toEnd, h.advance, h.skipEnd, h.take, h.rest]
  split
  · split <;> rfl
  · split <;> rfl
  · split <;> rfl

end Relabels

/-! ## Cursors without segments -/

/-- The cursor at the same place that knows of no segments. -/
def flat (c : Cursor) : Cursor := { c with ends := [] }

theorem flat_relabels : Relabels flat where
  rest _ := rfl
  next c := by
    obtain ⟨offset, rest, ends⟩ := c
    cases rest <;> rfl

theorem flat_run (c : Cursor) : c.flat.run = c.rest.takeWhile Byte.isRegular := by
  simp [run, flat, room, regularBytes_eq]

/-! ## Seamless cursors -/

/-- Wherever the cursor is moved, the run ahead is all the regular bytes ahead. -/
def Seamless (c : Cursor) : Prop :=
  ∀ n, (c.advance n).run = (c.advance n).rest.takeWhile Byte.isRegular

variable {c : Cursor}

theorem Seamless.advance (h : c.Seamless) (n : Nat) : (c.advance n).Seamless := by
  intro m
  rw [← advance_add]
  exact h (n + m)

theorem Seamless.run (h : c.Seamless) : c.run = c.flat.run := by
  rw [flat_run]
  exact h 0

theorem Seamless.read (h : c.Seamless) (b : UInt8) : Token.read c b = Token.read c.flat b := by
  have hnext : c.next.run = c.flat.next.run := by
    rw [flat_relabels.next]
    exact (h.advance 1).run
  simp only [Token.read, h.run, hnext, flat_relabels.next, flat_relabels.rest, flat_relabels.peek?]

theorem Seamless.token? (h : c.Seamless) : c.flat.token? = (c.token?.1, c.token?.2.flat) := by
  unfold Cursor.token?
  rw [flat_relabels.skipBlanks]
  have hskip : c.skipBlanks.Seamless := h.advance _
  generalize c.skipBlanks = start at hskip
  unfold tokenHere?
  simp only [flat_relabels.rest]
  split
  · rfl
  · simp only [hskip.read, flat_relabels.advance]
    rfl

theorem Seamless.of_token? {c' : Cursor} {t : Option (Nat × Except TokenError Token)}
    (h : c.Seamless) (ht : c.token? = (t, c')) : c'.Seamless ∧ c.flat.token? = (t, c'.flat) := by
  obtain ⟨n, hn⟩ := token?_eq_advance c
  have hflat := h.token?
  rw [ht] at hn hflat
  exact ⟨(show c' = c.advance n from hn) ▸ h.advance n, hflat⟩

theorem Seamless.of_imageData {c' : Cursor} {image : OpenImage}
    {data : Except DataFault (List UInt8)} (h : c.Seamless) (hd : c.imageData image = (data, c')) :
    c'.Seamless ∧ c.flat.imageData image = (data, c'.flat) := by
  unfold imageData at *
  obtain ⟨n, hn⟩ := inlineData_eq_advance c (InlineDict.dataLength? image.attrs)
    (InlineDict.dataMarker? image.attrs)
  rw [flat_relabels.inlineData, hd]
  rw [hd] at hn
  exact ⟨(show c' = c.advance n from hn) ▸ h.advance n, rfl⟩

/-- **Seamless cursors** read what they would read without segments. -/
theorem items_flat (h : c.Seamless) (b : Builder) : c.items b = c.flat.items b := by
  induction c, b using items.induct with
  | case1 c b c' ht =>
    rw [items_end ht, items_end (h.of_token? ht).2]
  | case2 c b pos c' ht =>
    rw [items_truncated ht, items_truncated (h.of_token? ht).2]
    rfl
  | case3 c b pos fault c' ht ih =>
    obtain ⟨hc', hflat⟩ := h.of_token? ht
    rw [items_malformed ht, items_malformed hflat, ih hc']
  | case4 c b pos token c' ht hb ih =>
    obtain ⟨hc', hflat⟩ := h.of_token? ht
    rw [items_token ht hb, items_token hflat hb, ih hc']
  | case5 c b pos token c' ht image hb fault c'' hd =>
    obtain ⟨hc', hflat⟩ := h.of_token? ht
    rw [items_image_cut ht hb hd, items_image_cut hflat hb (hc'.of_imageData hd).2]
  | case6 c b pos token c' ht image hb data c'' hd ih =>
    obtain ⟨hc', hflat⟩ := h.of_token? ht
    obtain ⟨hc'', hdata⟩ := hc'.of_imageData hd
    rw [items_image ht hb hd, items_image hflat hb hdata, ih hc'']

/-! ## Segments -/

/-- A segment ends behind some of the segments. -/
theorem exists_of_mem_segmentEnds {start e : Nat} {segments : List (List UInt8)}
    (h : e ∈ segmentEnds start segments) :
    ∃ left right, segments = left ++ right ∧ e = start + left.flatten.length := by
  induction segments generalizing start with
  | nil => cases h
  | cons s rest ih =>
    rw [segmentEnds] at h
    rcases List.mem_cons.1 h with rfl | h
    · exact ⟨[s], rest, rfl, by simp⟩
    · obtain ⟨left, right, rfl, rfl⟩ := ih h
      refine ⟨s :: left, right, rfl, ?_⟩
      simp only [List.flatten_cons, List.length_append]
      omega

/-- A run does not go on over a seam, of whose two bytes one is not regular. -/
theorem takeWhile_append_of_seam {p : UInt8 → Bool} {left right : List UInt8} (hne : left ≠ [])
    (h : (left.getLast?.any p && right.head?.any p) = false) :
    (left ++ right).takeWhile p = left.takeWhile p := by
  rw [List.takeWhile_append]
  split
  · rename_i hall
    have hwhole : left.takeWhile p = left := (List.takeWhile_prefix p).eq_of_length hall
    have hlast : left.getLast?.any p = true := by
      rw [List.getLast?_eq_some_getLast hne, Option.any_some]
      exact List.takeWhile_eq_self_iff.1 hwhole _ (List.getLast_mem hne)
    rw [hlast, Bool.true_and] at h
    rw [hwhole]
    cases right with
    | nil => simp
    | cons r right => simp_all
  · rfl

end Cursor

namespace Content

/-- Where segments are parted in two, the bytes on the two sides are not both regular. -/
def Unbroken (segments : List (List UInt8)) : Prop :=
  ∀ n < segments.length,
    ((segments.take n).flatten.getLast?.any Byte.isRegular &&
      (segments.drop n).flatten.head?.any Byte.isRegular) = false

instance (segments : List (List UInt8)) : Decidable (Unbroken segments) :=
  inferInstanceAs (Decidable (∀ n < segments.length, _ = false))

theorem Unbroken.seam {left right : List (List UInt8)} (h : Unbroken (left ++ right)) :
    (left.flatten.getLast?.any Byte.isRegular && right.flatten.head?.any Byte.isRegular) =
      false := by
  cases right with
  | nil => simp
  | cons s right =>
    have hseam := h left.length (by simp)
    rwa [List.take_left, List.drop_left] at hseam

theorem seamless_ofSegments {segments : List (List UInt8)} (h : Unbroken segments) :
    (Cursor.ofSegments segments).Seamless := by
  intro n
  have hrest : ((Cursor.ofSegments segments).advance n).rest = segments.flatten.drop n :=
    Cursor.advance_rest _ _
  have hoffset : ((Cursor.ofSegments segments).advance n).offset = min n segments.flatten.length :=
    (Cursor.advance_offset _ _).trans (Nat.zero_add _)
  rw [Cursor.run, Cursor.regularBytes_eq, Cursor.room, Cursor.advance_ends, hrest, hoffset]
  split
  · rename_i e hfind
    have hlt : min n segments.flatten.length < e := by simpa using List.find?_some hfind
    obtain ⟨left, right, rfl, rfl⟩ :=
      Cursor.exists_of_mem_segmentEnds (List.mem_of_find?_eq_some hfind)
    by_cases hn : n < (left ++ right).flatten.length
    · -- The segment at hand goes on for `room` bytes, and behind them lies a seam.
      rw [Nat.zero_add] at hlt ⊢
      rw [List.flatten_append, Nat.min_eq_left (by rw [← List.flatten_append]; omega),
        List.drop_append_of_le_length (by omega), List.take_left' (List.length_drop ..)]
      refine (Cursor.takeWhile_append_of_seam (fun hnil => ?_) ?_).symm
      · have := congrArg List.length hnil
        rw [List.length_drop, List.length_nil] at this
        omega
      · rw [List.getLast?_drop, if_neg (by omega)]
        exact h.seam
    · rw [List.drop_eq_nil_of_le (Nat.le_of_not_lt hn)]
      simp
  · rw [List.take_length]

/-- Content in one piece has no seams. -/
theorem unbroken_singleton (bytes : List UInt8) : Unbroken [bytes] := by
  intro n hn
  cases Nat.lt_one_iff.1 hn
  rfl

/-- **Segments.** Content in segments that nowhere end between two regular bytes has the items of
its bytes in one piece. -/
theorem items_of_unbroken (segments : List (List UInt8)) (h : Unbroken segments) :
    items segments = itemsOf segments.flatten := by
  have hsame : (Cursor.ofSegments segments).flat = (Cursor.ofSegments [segments.flatten]).flat := by
    simp [Cursor.ofSegments, Cursor.flat]
  unfold itemsOf items
  rw [Cursor.items_flat (seamless_ofSegments h), hsame,
    ← Cursor.items_flat (seamless_ofSegments (unbroken_singleton _))]

/-- Segments that end inside strings, a comment, an opening and a closing bracket, behind the
solidus of a name and inside an image. -/
def cutInside : List (List UInt8) :=
  ["(a ", "b) <4 ", "", "1> % a ", "note\n<", "< /", "K [1 2] >", "> BI /W 1 ID x ", "y\n", "EI",
    " q"].map Utf8.encode

theorem items_of_unbroken_cutInside :
    Unbroken cutInside ∧ items cutInside = itemsOf cutInside.flatten :=
  ⟨by decide, items_of_unbroken cutInside (by decide)⟩

end Content

end ContentStream
