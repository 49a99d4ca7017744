import ContentStream.Font.CodeMap

/-!
# What is written into maps from codes

Tables in font files are read entry by entry, and each entry sets some codes and leaves the others as
they were. `Writes` says which codes an operation sets, and to what. It does not depend on the map that
is written into, so tables can be read apart and laid over each other.

Single codes (`writes_insert`) and ranges (`writes_insertRange`) are written so, and what is written
later is found first (`Writes.comp`, `Writes.before`). Lists go to codes one after the other, and
`listed` says which element a code gets.
-/

namespace ContentStream.CodeMap

variable {α ε : Type}

/-- The operation sets the codes for which there is something `given`, and no others. -/
def Writes (op : CodeMap α → CodeMap α) (given : Nat → Option α) : Prop :=
  ∀ map code, (op map)[code]? = (given code).or map[code]?

variable {op op' : CodeMap α → CodeMap α} {given given' : Nat → Option α}

theorem writes_id : Writes (α := α) (fun map => map) fun _ => none := fun _ _ => rfl

theorem Writes.comp (h : Writes op given) (h' : Writes op' given') :
    Writes (fun map => op' (op map)) fun code => (given' code).or (given code) := by
  intro map code
  rw [h', h, Option.or_assoc]

theorem Writes.congr (h : Writes op given) (hgiven : ∀ code, given code = given' code) :
    Writes op given' := fun map code => hgiven code ▸ h map code

/-- What is written into the empty map is all that it has. -/
theorem Writes.empty (h : Writes op given) (code : Nat) : (op ∅)[code]? = given code := by
  rw [h, Std.TreeMap.getElem?_emptyc, Option.or_none]

theorem writes_insert (key : Nat) (value : α) :
    Writes (fun map => map.insert key value) fun code => if code = key then some value else none := by
  intro map code
  rw [Std.TreeMap.getElem?_insert]
  by_cases h : code = key
  · simp [h]
  · simp [h, Ne.symm h]

/-- **Entries one after the other.** The last one that gives something for a code decides. -/
theorem Writes.before (give : ε → Nat → Option α) {entry : ε} {entries : List ε}
    (h : Writes op (give entry))
    (h' : Writes op' fun code => entries.reverse.findSome? (give · code)) :
    Writes (fun map => op' (op map)) fun code =>
      (entry :: entries).reverse.findSome? (give · code) := by
  refine (h.comp h').congr fun code => ?_
  rw [List.reverse_cons, List.findSome?_append, List.findSome?_singleton]

theorem writes_insertRange (first count : Nat) (value : Nat → α) :
    Writes (fun map => map.insertRange first count value) fun code =>
      if first ≤ code ∧ code < first + count then some (value (code - first)) else none := by
  induction count with
  | zero =>
    refine writes_id.congr fun code => ?_
    rw [if_neg (by omega)]
  | succ count ih =>
    have hlast : ∀ map : CodeMap α, map.insertRange first (count + 1) value =
        (map.insertRange first count value).insert (first + count) (value count) := fun map => by
      simp [insertRange, List.range_succ]
    simp only [hlast]
    refine (ih.comp (writes_insert _ _)).congr fun code => ?_
    by_cases hcode : code = first + count
    · simp [hcode]
    · have hrange : first ≤ code ∧ code < first + (count + 1) ↔
          first ≤ code ∧ code < first + count := by omega
      simp [hcode, hrange]

/-! ## Elements of a list for codes in a row -/

/-- What the elements of a list give to codes: the first one to `first`, the others to the codes after
it, and none beyond `last`. -/
def listed (f : ε → Option α) (first last : Nat) (xs : List ε) (code : Nat) : Option α :=
  if first ≤ code ∧ code ≤ last then xs[code - first]?.bind f else none

variable {f : ε → Option α} {first last : Nat}

theorem listed_nil (code : Nat) : listed f first last [] code = none := by
  simp [listed]

theorem listed_beyond (h : last < first) (xs : List ε) (code : Nat) :
    listed f first last xs code = none := if_neg (by omega)

theorem listed_cons (h : first ≤ last) (x : ε) (xs : List ε) (code : Nat) :
    listed f first last (x :: xs) code =
      (listed f (first + 1) last xs code).or (if code = first then f x else none) := by
  unfold listed
  rcases Nat.lt_trichotomy code first with hlt | rfl | hgt
  · rw [if_neg (by omega), if_neg (by omega), if_neg (by omega)]
    rfl
  · rw [if_pos ⟨Nat.le_refl code, h⟩, if_neg (by omega), if_pos rfl, Nat.sub_self]
    rfl
  · have hindex : code - first = (code - (first + 1)) + 1 := by omega
    have hin : (first ≤ code ∧ code ≤ last) ↔ (first + 1 ≤ code ∧ code ≤ last) := by omega
    simp only [hin, hindex, List.getElem?_cons_succ, if_neg (Nat.ne_of_gt hgt), Option.or_none]

end ContentStream.CodeMap
