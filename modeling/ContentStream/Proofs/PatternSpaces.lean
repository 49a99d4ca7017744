import ContentStream.Resource.ColorSpaces
import Mathlib.Data.List.Perm.Subperm
import Mathlib.Logic.Relation

/-!
# Pattern spaces over other spaces

The description of a pattern space can name the description of the space it lies over, and that one
can name another. Reading follows them one by one, and it is a question whether it ever ends.

* `LiesOver`: the step from a description to the one it lies over.
* `Reads`: reading as the recursion it is, with no limit. A derivation is a finite course of it.

**Theorem (`reads_iff`).** Where no description lies over itself, however far down, the recursion ends
on every description, and what it gives is what `read` gives.

The limit of `read` is never reached: all that a description lies over stands in the description
itself or in the table (`bases`), and with each step another place there is used up.
-/

namespace ContentStream

/-- The descriptions that stand inside a description, each in the place of a base space. -/
def Object.patternBases : Object → List Object
  | .array (_ :: base :: _) => base :: base.patternBases
  | _ => []

theorem Object.length_patternBases (o : Object) : o.patternBases.length = o.patternDepth := by
  fun_induction Object.patternBases o with
  | case1 _ base _ ih => simp [patternDepth, ih]
  | case2 o h =>
    unfold patternDepth
    split
    · rename_i base _
      exact (h _ base _ rfl).elim
    · rfl

theorem Object.patternBases_subset {o base : Object} (h : base ∈ o.patternBases) :
    base.patternBases ⊆ o.patternBases := by
  fun_induction Object.patternBases o with
  | case1 _ first _ ih =>
    rcases List.mem_cons.1 h with rfl | h
    · exact List.subset_cons_self _ _
    · exact List.subset_cons_of_subset _ (ih h)
  | case2 => cases h

namespace ColorSpace

variable {table : ObjectTable} {o base : Object}

/-- A description of a pattern space, and the description of the space it lies over. -/
def LiesOver (table : ObjectTable) (o base : Object) : Prop :=
  ∃ rest, table.resolve o = .array (.name "Pattern" :: base :: rest)

/-- Reads one description, with a way to read the one it lies over. -/
def readOver (table : ObjectTable) (readBase : Object → Except Error ColorSpace) (o : Object) :
    Except Error ColorSpace :=
  match table.resolve o with
  | .name family => ofFamily table readBase family []
  | .array [] => .error (.invalidValue .emptyColorSpace)
  | .array (first :: params) => do
    let family ← first.asName
    ofFamily table readBase family params
  | o => o.mismatch .nameOrArray

theorem readWithin_succ (table : ObjectTable) (n : Nat) (o : Object) :
    readWithin table (n + 1) o = readOver table (readWithin table n) o := rfl

/-- Reading without a limit: a description is read once the one it lies over is. -/
inductive Reads (table : ObjectTable) : Object → Except Error ColorSpace → Prop
  | step {o : Object} (readBase : Object → Except Error ColorSpace) :
      (∀ base, LiesOver table o base → Reads table base (readBase base)) →
      Reads table o (readOver table readBase o)

/-! ## What a description lies over -/

theorem ofFamily_congr {read₁ read₂ : Object → Except Error ColorSpace} {family : String}
    {params : List Object}
    (h : family = "Pattern" → ∀ base rest, params = base :: rest → read₁ base = read₂ base) :
    ofFamily table read₁ family params = ofFamily table read₂ family params := by
  by_cases hfamily : family = "Pattern"
  · subst hfamily
    cases params with
    | nil => rfl
    | cons base rest => simp only [ofFamily, h rfl base rest rfl]
  · unfold ofFamily
    split
    case h_3 => exact absurd rfl hfamily
    all_goals rfl

/-- Only the reading of the description below counts. -/
theorem readOver_congr {read₁ read₂ : Object → Except Error ColorSpace}
    (h : ∀ base, LiesOver table o base → read₁ base = read₂ base) :
    readOver table read₁ o = readOver table read₂ o := by
  unfold readOver
  split
  · exact ofFamily_congr fun _ base rest hparams => by cases hparams
  · rfl
  · rename_i first params hresolve
    cases first with
    | name family =>
      apply ofFamily_congr
      rintro rfl base rest rfl
      exact h base ⟨rest, hresolve⟩
    | _ => rfl
  · rfl

theorem Reads.unique {r₁ r₂ : Except Error ColorSpace} (h₁ : Reads table o r₁)
    (h₂ : Reads table o r₂) : r₁ = r₂ := by
  induction h₁ generalizing r₂ with
  | step read₁ _ ih =>
    cases h₂ with
    | step read₂ hread₂ => exact readOver_congr fun base hbase => ih base hbase (hread₂ base hbase)

/-- All that can lie below a description: what stands inside it, and inside the entries of the
table. -/
def bases (table : ObjectTable) (o : Object) : List Object :=
  o.patternBases ++ table.flatMap fun entry => entry.2.patternBases

theorem length_bases (table : ObjectTable) (o : Object) :
    (bases table o).length + 1 = depthBound table o := by
  unfold bases depthBound
  induction table with
  | nil => simp [Object.length_patternBases]
  | cons entry rest ih =>
    simp only [List.flatMap_cons, List.length_append, Object.length_patternBases,
      List.foldr_cons] at ih ⊢
    omega

theorem follow_cases (table : ObjectTable) (limit : Nat) (o : Object) :
    table.follow limit o = o ∨ table.follow limit o = .null ∨
      ∃ entry ∈ table, table.follow limit o = entry.2 := by
  induction limit generalizing o with
  | zero => exact .inr (.inl rfl)
  | succ n ih =>
    cases o with
    | ref r =>
      simp only [ObjectTable.follow]
      cases hfind : table.find? r with
      | none =>
        rcases ih .null with h | h | h
        · exact .inr (.inl h)
        · exact .inr (.inl h)
        · exact .inr (.inr h)
      | some target =>
        obtain ⟨front, back, rfl, -⟩ := List.lookup_eq_some_iff.1 hfind
        rcases ih target with h | h | h
        · exact .inr (.inr ⟨(r, target), by simp, h⟩)
        · exact .inr (.inl h)
        · exact .inr (.inr h)
    | _ => exact .inl rfl

theorem mem_bases_of_liesOver (h : LiesOver table o base) : base ∈ bases table o := by
  obtain ⟨rest, hresolve⟩ := h
  have hbase : base ∈ (table.resolve o).patternBases := by
    rw [hresolve]
    simp [Object.patternBases]
  rcases follow_cases table ObjectTable.chainLimit o with hsame | hnull | ⟨entry, hentry, hsame⟩
  · rw [ObjectTable.resolve, hsame] at hbase
    exact List.mem_append_left _ hbase
  · rw [ObjectTable.resolve, hnull] at hresolve
    cases hresolve
  · rw [ObjectTable.resolve, hsame] at hbase
    exact List.mem_append_right _ (List.mem_flatMap.2 ⟨entry, hentry, hbase⟩)

theorem bases_subset (h : base ∈ bases table o) : bases table base ⊆ bases table o := by
  have hinside : base.patternBases ⊆ bases table o := by
    rcases List.mem_append.1 h with h | h
    · exact List.Subset.trans (Object.patternBases_subset h) (List.subset_append_left _ _)
    · obtain ⟨entry, hentry, h⟩ := List.mem_flatMap.1 h
      intro below hbelow
      apply List.mem_append_right
      exact List.mem_flatMap.2 ⟨entry, hentry, Object.patternBases_subset h hbelow⟩
  exact List.append_subset.2 ⟨hinside, List.subset_append_right _ _⟩

/-! ## Reading ends -/

/-- The descriptions passed so far, `passed`, all lead to the one at hand. None of them can come
again, so there is room for as many more as are left. -/
theorem reads_readWithin (hacyclic : ∀ o, ¬ Relation.TransGen (LiesOver table) o o)
    {limit : Nat} {passed room : List Object} (hnodup : passed.Nodup) (hpassed : passed ⊆ room)
    (hlead : ∀ o' ∈ passed, Relation.ReflTransGen (LiesOver table) o' o)
    (hroom : bases table o ⊆ room) (hlimit : room.length < passed.length + limit) :
    Reads table o (readWithin table limit o) := by
  induction limit generalizing o passed with
  | zero =>
    have hle := (List.subperm_of_subset hnodup hpassed).length_le
    omega
  | succ n ih =>
    rw [readWithin_succ]
    refine .step _ fun base hbase => ?_
    have hmem := mem_bases_of_liesOver hbase
    have hnew : base ∉ passed := fun hold => hacyclic base (.tail' (hlead base hold) hbase)
    refine ih (List.nodup_cons.2 ⟨hnew, hnodup⟩) (List.cons_subset.2 ⟨hroom hmem, hpassed⟩) ?_
      (List.Subset.trans (bases_subset hmem) hroom) ?_
    · intro o' ho'
      rcases List.mem_cons.1 ho' with rfl | ho'
      · exact .refl
      · exact (hlead o' ho').tail hbase
    · simp only [List.length_cons]
      omega

/-- **Reading ends.** Where no description lies over itself, the recursion ends on every description,
with what `read` gives. -/
theorem reads_iff (hacyclic : ∀ o, ¬ Relation.TransGen (LiesOver table) o o) (o : Object)
    (r : Except Error ColorSpace) : Reads table o r ↔ r = read table o := by
  have hread : Reads table o (read table o) := by
    refine reads_readWithin hacyclic List.nodup_nil (List.nil_subset _) (by simp)
      (List.Subset.refl (bases table o)) ?_
    rw [← length_bases]
    simp
  constructor
  · intro h
    exact h.unique hread
  · rintro rfl
    exact hread

/-- If the table holds no arrays, then only what stands inside a description can lie below it. -/
theorem not_liesOver_itself (h : ∀ entry ∈ table, ∀ items, entry.2 ≠ .array items) (o : Object) :
    ¬ Relation.TransGen (LiesOver table) o o := by
  have hdeeper : ∀ {o base : Object}, LiesOver table o base →
      base.patternDepth < o.patternDepth := by
    rintro o base ⟨rest, hresolve⟩
    rcases follow_cases table ObjectTable.chainLimit o with hsame | hnull | ⟨entry, hentry, hsame⟩
    · rw [ObjectTable.resolve, hsame] at hresolve
      simp [hresolve, Object.patternDepth]
    · rw [ObjectTable.resolve, hnull] at hresolve
      cases hresolve
    · rw [ObjectTable.resolve, hsame] at hresolve
      exact absurd hresolve (h entry hentry _)
  have hbelow : ∀ {base : Object}, Relation.TransGen (LiesOver table) o base →
      base.patternDepth < o.patternDepth := by
    intro base hpath
    induction hpath with
    | single hstep => exact hdeeper hstep
    | tail _ hstep ih => exact Nat.lt_trans (hdeeper hstep) ih
  intro hcycle
  exact Nat.lt_irrefl _ (hbelow hcycle)

end ColorSpace

end ContentStream
