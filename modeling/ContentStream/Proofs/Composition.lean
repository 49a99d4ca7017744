import ContentStream.Proofs.Offsets

/-!
# Content is read piece by piece

**Theorem (`itemsOf_append_line`).** Two pieces of content with a line feed between them have the
items of the first piece and then those of the second, further on. The first piece must be read
without errors and without inline images. The second may be anything.

So nothing that the reader knows survives such a place. The reader knows two things, and both are
settled where the first piece ends:

* *the run or the comment at hand*, which the line feed ends, and
* *what is open*, which is nothing, or the first piece would have ended with an error.
-/

namespace ContentStream

/-- An operand or an operator: neither an error nor an image. -/
def ItemAt.isClean : ItemAt → Bool
  | (_, .ok (.operand _)) | (_, .ok (.operator _)) => true
  | _ => false

/-- What is still open at the end is complained of. -/
theorem Builder.eq_empty_of_finish {b : Builder} (h : ∀ item ∈ b.finish, item.isClean = true) :
    b = {} := by
  obtain ⟨containers, image⟩ := b
  cases hlast : containers.getLast? with
  | some c =>
    have hopen := h (c.start, .error .truncated) (by simp [finish, hlast])
    cases hopen
  | none =>
    obtain rfl := List.getLast?_eq_none_iff.1 hlast
    cases image with
    | none => rfl
    | some image =>
      have hopen := h (image.start, .error .truncated) List.mem_cons_self
      cases hopen

namespace Cursor

/-- A line feed behind blanks is one of them, and a comment in front of it ends there. -/
theorem blankLength_append_line {inComment : Bool} {u : List UInt8}
    (h : blankLength inComment u = u.length) (v : List UInt8) :
    blankLength inComment (u ++ 10 :: v) = u.length + 1 + blankLength false v := by
  fun_induction blankLength inComment u with
  | case1 inComment =>
    have hline : Byte.isNewline 10 = true ∧ Byte.isBlank 10 = true := ⟨rfl, rfl⟩
    cases inComment with
    | true => simp [blankLength, hline, Nat.add_comm]
    | false => simp [blankLength, hline, Nat.add_comm]
  | case2 b rest ih =>
    rw [List.length_cons, Nat.add_right_cancel_iff] at h
    rw [List.cons_append, blankLength, if_pos rfl, ih h, List.length_cons]
    omega
  | case3 _ b rest hcomment hb ih =>
    rw [List.length_cons, Nat.add_right_cancel_iff] at h
    rw [List.cons_append, blankLength, if_neg hcomment, if_pos hb, ih h, List.length_cons]
    omega
  | case4 _ b rest hcomment hb hblank ih =>
    rw [List.length_cons, Nat.add_right_cancel_iff] at h
    rw [List.cons_append, blankLength, if_neg hcomment, if_neg hb, if_pos hblank, ih h,
      List.length_cons]
    omega
  | case5 => simp at h

/-- Where no token is left, everything left is blank. -/
theorem blankLength_of_token?_none {o : Nat} {u : List UInt8} {c : Cursor}
    (h : (ahead o u).token? = (none, c)) : blankLength false u = u.length := by
  have hle := blankLength_le false u
  cases hdrop : u.drop (blankLength false u) with
  | nil =>
    have hlength := List.drop_eq_nil_iff.1 hdrop
    omega
  | cons b rest =>
    rw [token?_ahead hdrop] at h
    cases h

/-- Behind blanks and a line feed the reader is where it would be at the start of the rest. -/
theorem items_skip_line {o : Nat} {u : List UInt8} (h : blankLength false u = u.length)
    (v : List UInt8) (b : Builder) :
    (ahead o (u ++ 10 :: v)).items b = (ahead (o + u.length + 1) v).items b := by
  have hdrop : (u ++ 10 :: v).drop (u.length + 1 + blankLength false v) =
      v.drop (blankLength false v) := by
    rw [← List.drop_drop, ← List.drop_drop, List.drop_left]
    rfl
  have hoffset : o + (u.length + 1 + blankLength false v) =
      o + u.length + 1 + blankLength false v := by omega
  refine items_congr ?_ b
  rw [token?, token?, ahead_skipBlanks, ahead_skipBlanks, blankLength_append_line h, hdrop, hoffset]

/-- **Pieces.** The induction is on the tokens of the first piece. Each of them is read as it would be
in front of the end, because a line feed ends a run as the end does. -/
theorem items_append_line {c : Cursor} {b : Builder}
    (h : ∀ item ∈ c.items b, item.isClean = true) {o : Nat} {u : List UInt8} (hc : c = ahead o u)
    (v : List UInt8) :
    (ahead o (u ++ 10 :: v)).items b = c.items b ++ (ahead (o + u.length + 1) v).items {} := by
  have hline : Byte.EndsRun (10 :: v) := Byte.endsRun_cons rfl v
  induction c, b using items.induct generalizing o u with
  | case1 c b c' ht =>
    subst hc
    rw [items_end ht] at h ⊢
    obtain rfl := Builder.eq_empty_of_finish h
    exact items_skip_line (blankLength_of_token?_none ht) v {}
  | case2 c b pos c' ht =>
    rw [items_truncated ht] at h
    cases h _ List.mem_cons_self
  | case3 c b pos fault c' ht ih =>
    rw [items_malformed ht] at h
    cases h _ List.mem_cons_self
  | case4 c b pos token c' ht hb ih =>
    subst hc
    obtain ⟨n, hn, rfl, htoken⟩ := token?_append ht fun _ => hline
    rw [items_token ht hb] at h ⊢
    have hrest := ih (fun item hmem => h item (List.mem_append_right _ hmem)) rfl
    have hoffset : o + n + (u.drop n).length + 1 = o + u.length + 1 := by
      rw [List.length_drop]
      omega
    rw [items_token htoken hb, hrest, hoffset, List.append_assoc]
  | case5 c b pos token c' ht image hb fault c'' hd =>
    rw [items_image_cut ht hb hd] at h
    cases h _ List.mem_cons_self
  | case6 c b pos token c' ht image hb data c'' hd ih =>
    rw [items_image ht hb hd] at h
    cases h _ List.mem_cons_self

end Cursor

namespace Content

/-- **Composition.** Behind content that has been read without errors and without images, and a line
feed, everything is read as it would be alone. -/
theorem itemsOf_append_line (first second : List UInt8)
    (h : ∀ item ∈ itemsOf first, item.isClean = true) :
    itemsOf (first ++ 10 :: second) =
      itemsOf first ++ (itemsOf second).map (ItemAt.shift (first.length + 1)) := by
  rw [itemsOf_eq first] at h
  rw [itemsOf_eq first, itemsOf_eq (first ++ _), Cursor.items_append_line h rfl, Nat.zero_add,
    items_ahead (first.length + 1)]

/-- A first piece with a container, an empty name and a comment at its end, and a second one that is
malformed and breaks off inside a string. -/
theorem itemsOf_append_line_broken :
    (∀ item ∈ itemsOf (Utf8.encode "[1 (a)] / TJ 2 % note"), item.isClean = true) ∧
      itemsOf (Utf8.encode "[1 (a)] / TJ 2 % note" ++ 10 :: Utf8.encode "w > q [ (b") =
        itemsOf (Utf8.encode "[1 (a)] / TJ 2 % note") ++
          (itemsOf (Utf8.encode "w > q [ (b")).map (ItemAt.shift 22) := by
  have hclean : ∀ item ∈ itemsOf (Utf8.encode "[1 (a)] / TJ 2 % note"), item.isClean = true :=
    List.all_eq_true.1 (by decide +kernel)
  exact ⟨hclean, itemsOf_append_line _ _ hclean⟩

end Content

end ContentStream
