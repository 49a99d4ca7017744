import ContentStream.Resource.Chain
import Mathlib.Data.List.Perm.Subperm

/-!
# Chains of references and layers of scopes

A resource is looked for in one scope after the other, and in each of them references are followed
twice: to the dictionary of the category, and from its entry to the resource.

* `Leads`: from one object, so many references lead to another.
* `Holds`: a scope has a resource under a name.

**Theorem (`resources_layered`).** An object stands for the one at the end of its chain of references,
if it is fewer than 16 references away, and else for null: if it is farther, if the last reference
leads nowhere or if the chain goes round in a circle. Other chains there are none. A name stands for
the resource in the innermost scope that holds one. A scope that is added hides what it holds itself
and nothing else, and taking it away brings everything back.

A circle can be followed as long as one likes, so that it is farther than any limit (`Leads.circle`).
That there are no other chains is seen by counting: a chain that does not end uses up the entries of the
table (`chain_cases`).
-/

namespace ContentStream

/-- An object that is no reference. -/
def Object.IsDirect (o : Object) : Prop := ∀ r, o ≠ .ref r

namespace ObjectTable

variable {table : ObjectTable} {o o' x : Object} {r : ObjectRef} {j k n : Nat}

/-! ## Chains of references -/

/-- From one object, `k` references lead to another. -/
inductive Leads (table : ObjectTable) : (k : Nat) → Object → Object → Prop
  | here (o : Object) : Leads table 0 o o
  | next {k : Nat} {r : ObjectRef} {o o' : Object} :
      table.find? r = some o → Leads table k o o' → Leads table (k + 1) (.ref r) o'

/-- The chain of references ends at an object that is none. -/
def Ends (table : ObjectTable) (o : Object) : Prop := ∃ k x, table.Leads k o x ∧ x.IsDirect

/-- The chain of references comes to one that is not in the table. -/
def Dangles (table : ObjectTable) (o : Object) : Prop :=
  ∃ k r, table.Leads k o (.ref r) ∧ table.find? r = none

/-- The chain of references comes back to where it has been. -/
def Circles (table : ObjectTable) (o : Object) : Prop :=
  ∃ k x, table.Leads k o x ∧ ∃ j, table.Leads (j + 1) x x

theorem Leads.trans (h : table.Leads j o o') (h' : table.Leads k o' x) :
    table.Leads (j + k) o x := by
  induction h with
  | here o =>
    rw [Nat.zero_add]
    exact h'
  | next hr _ ih =>
    rw [Nat.add_right_comm]
    exact .next hr (ih h')

/-- A chain can be broken off anywhere. -/
theorem Leads.cut (h : table.Leads k o x) (hj : j ≤ k) : ∃ o', table.Leads j o o' := by
  induction h generalizing j with
  | here o =>
    obtain rfl := Nat.le_zero.1 hj
    exact ⟨o, .here o⟩
  | next hr _ ih =>
    cases j with
    | zero => exact ⟨_, .here _⟩
    | succ j =>
      obtain ⟨o', ho'⟩ := ih (Nat.le_of_succ_le_succ hj)
      exact ⟨o', .next hr ho'⟩

/-- A circle can be followed as long as one likes. -/
theorem Leads.circle (h : table.Leads (j + 1) o o) (n : Nat) : ∃ k, n ≤ k ∧ table.Leads k o o := by
  induction n with
  | zero => exact ⟨0, Nat.le_refl 0, .here o⟩
  | succ n ih =>
    obtain ⟨k, hk, hround⟩ := ih
    exact ⟨k + (j + 1), by omega, hround.trans h⟩

theorem isDirect_null : Object.null.IsDirect := fun _ h => by cases h

/-! ## Following chains -/

theorem follow_isDirect (table : ObjectTable) (n : Nat) (o : Object) :
    (table.follow n o).IsDirect := by
  induction n generalizing o with
  | zero => exact isDirect_null
  | succ n ih =>
    cases o with
    | ref r => exact ih _
    | _ => exact fun _ h => by cases h

theorem follow_of_isDirect (h : o.IsDirect) (n : Nat) : table.follow (n + 1) o = o := by
  cases o with
  | ref r => exact absurd rfl (h r)
  | _ => rfl

theorem follow_of_leads (h : table.Leads k o x) (n : Nat) :
    table.follow (n + k) o = table.follow n x := by
  induction h with
  | here o => rfl
  | @next k r o o' hr _ ih =>
    show table.follow (n + k) ((table.find? r).getD .null) = table.follow n o'
    rw [hr]
    exact ih

theorem resolve_of_far (h : table.Leads k o x) (hk : chainLimit ≤ k) : table.resolve o = .null := by
  obtain ⟨o', ho'⟩ := h.cut hk
  have hfollow := follow_of_leads ho' 0
  rw [Nat.zero_add] at hfollow
  exact hfollow

theorem resolve_of_near (h : table.Leads k o x) (hk : k < chainLimit) :
    ∃ n, table.resolve o = table.follow (n + 1) x := by
  obtain ⟨n, hn⟩ := Nat.exists_eq_add_of_lt hk
  refine ⟨n, ?_⟩
  rw [← follow_of_leads h (n + 1), resolve, hn]
  congr 1
  omega

theorem resolve_of_ends (h : table.Leads k o x) (hx : x.IsDirect) :
    table.resolve o = if k < chainLimit then x else .null := by
  split
  · rename_i hk
    obtain ⟨n, hn⟩ := resolve_of_near h hk
    rw [hn, follow_of_isDirect hx]
  · rename_i hk
    exact resolve_of_far h (Nat.not_lt.1 hk)

theorem resolve_of_dangles (h : table.Dangles o) : table.resolve o = .null := by
  obtain ⟨k, r, hlead, hr⟩ := h
  by_cases hk : k < chainLimit
  · obtain ⟨n, hn⟩ := resolve_of_near hlead hk
    rw [hn, follow, hr]
    cases n with
    | zero => rfl
    | succ n => exact follow_of_isDirect isDirect_null n
  · exact resolve_of_far hlead (Nat.not_lt.1 hk)

theorem resolve_of_circles (h : table.Circles o) : table.resolve o = .null := by
  obtain ⟨i, x, hlead, j, hround⟩ := h
  obtain ⟨k, hk, hcircle⟩ := hround.circle chainLimit
  exact resolve_of_far (hlead.trans hcircle) (by omega)

/-! ## There are no other chains -/

section Next

variable (hr : table.find? r = some o)

include hr

theorem Ends.next (h : table.Ends o) : table.Ends (.ref r) := by
  obtain ⟨k, x, hlead, hx⟩ := h
  exact ⟨k + 1, x, .next hr hlead, hx⟩

theorem Dangles.next (h : table.Dangles o) : table.Dangles (.ref r) := by
  obtain ⟨k, r', hlead, hr'⟩ := h
  exact ⟨k + 1, r', .next hr hlead, hr'⟩

theorem Circles.next (h : table.Circles o) : table.Circles (.ref r) := by
  obtain ⟨k, x, hlead, hround⟩ := h
  exact ⟨k + 1, x, .next hr hlead, hround⟩

theorem mem_keys : r ∈ table.map Prod.fst := by
  obtain ⟨before, after, rfl, -⟩ := List.lookup_eq_some_iff.1 hr
  simp

end Next

/-- The references `passed` so far all lead to the object at hand. As long as none of them comes again,
there is an entry in the table for each. -/
theorem chain_cases_from {passed : List ObjectRef} (hnodup : passed.Nodup)
    (hkeys : passed ⊆ table.map Prod.fst)
    (hlead : ∀ r ∈ passed, ∃ j, table.Leads (j + 1) (.ref r) o)
    (hleft : table.length < passed.length + n) :
    table.Ends o ∨ table.Dangles o ∨ table.Circles o := by
  induction n generalizing o passed with
  | zero =>
    have hle := (List.subperm_of_subset hnodup hkeys).length_le
    rw [List.length_map] at hle
    omega
  | succ n ih =>
    cases o with
    | ref r =>
      cases hr : table.find? r with
      | none => exact .inr (.inl ⟨0, r, .here _, hr⟩)
      | some o' =>
        by_cases hold : r ∈ passed
        · obtain ⟨j, hround⟩ := hlead r hold
          exact .inr (.inr ⟨0, _, .here _, j, hround⟩)
        have hstep : table.Leads 1 (.ref r) o' := .next hr (.here o')
        have hlead' : ∀ r' ∈ r :: passed, ∃ j, table.Leads (j + 1) (.ref r') o' := by
          intro r' hr'
          rcases List.mem_cons.1 hr' with rfl | hr'
          · exact ⟨0, hstep⟩
          · obtain ⟨j, hj⟩ := hlead r' hr'
            exact ⟨j + 1, hj.trans hstep⟩
        have hlater := ih (List.nodup_cons.2 ⟨hold, hnodup⟩)
          (List.cons_subset.2 ⟨mem_keys hr, hkeys⟩) hlead' (by rw [List.length_cons]; omega)
        exact hlater.imp (Ends.next hr) (Or.imp (Dangles.next hr) (Circles.next hr))
    | _ => exact .inl ⟨0, _, .here _, fun _ h => by cases h⟩

/-- Every chain of references ends, leads nowhere or goes round in a circle. -/
theorem chain_cases (table : ObjectTable) (o : Object) :
    table.Ends o ∨ table.Dangles o ∨ table.Circles o :=
  chain_cases_from (n := table.length + 1) List.nodup_nil (List.nil_subset _) (by simp) (by simp)

end ObjectTable

namespace Object

variable {o : Object}

theorem asDict_eq_ok {entries : Dict} :
    o.asDict = .ok entries ↔
      o = .dict entries ∨ ∃ data serial, o = .stream entries data serial := by
  cases o <;> simp [asDict, mismatch]

theorem isNull_iff : o.isNull = true ↔ o = .null := by
  cases o <;> simp [isNull]

theorem asRef_eq_some {r : ObjectRef} : o.asRef.toOption = some r ↔ o = .ref r := by
  cases o <;> simp [asRef, mismatch, Except.toOption]

end Object

namespace ResourceChain

variable {table : ObjectTable} {chain : ResourceChain} {category name : String} {scope : Dict}
  {found : Resource}

/-! ## Scopes -/

/-- A scope has a resource under a name: what it has under the category is a dictionary, or a stream,
with an entry for the name that does not stand for null. If the entry is a reference, the resource
keeps it. -/
def Holds (table : ObjectTable) (category name : String) (scope : Dict) (found : Resource) : Prop :=
  ∃ o entries entry, Dict.find? scope category = some o ∧
    (table.resolve o = .dict entries ∨ ∃ data serial, table.resolve o = .stream entries data serial) ∧
    Dict.find? entries name = some entry ∧
    found.object = table.resolve entry ∧ found.object ≠ .null ∧
    ∀ r, found.ref = some r ↔ entry = .ref r

theorem lookupIn?_eq_some :
    lookupIn? table category name scope = some found ↔ Holds table category name scope found := by
  unfold lookupIn? ObjectTable.entry?
  constructor
  · intro h
    split at h
    · rename_i entries hentries
      obtain ⟨x, hx, hdict⟩ := Option.map_eq_some_iff.1 hentries
      obtain ⟨o, ho, rfl⟩ := Option.map_eq_some_iff.1 hx
      split at h
      · rename_i entry hentry
        dsimp only at h
        split at h
        · cases h
        · rename_i hnull
          cases h
          exact ⟨o, entries, entry, ho, Object.asDict_eq_ok.1 hdict, hentry, rfl,
            fun hobject => hnull (Object.isNull_iff.2 hobject), fun r => Object.asRef_eq_some⟩
      · cases h
    · cases h
  · rintro ⟨o, entries, entry, ho, hdict, hentry, hobject, hnull, href⟩
    have hnot : ¬ (table.resolve entry).isNull = true := by
      rw [Object.isNull_iff, ← hobject]
      exact hnull
    have hkept : entry.asRef.toOption = found.ref := by
      apply Option.ext
      intro r
      rw [Object.asRef_eq_some, href]
    simp only [ho, Option.map_some, Object.asDict_eq_ok.2 hdict, hentry]
    rw [if_neg hnot, hkept, ← hobject]

theorem lookupIn?_eq_none :
    lookupIn? table category name scope = none ↔
      ∀ found, ¬ Holds table category name scope found := by
  simp only [Option.eq_none_iff_forall_ne_some, ne_eq, lookupIn?_eq_some]

theorem lookup?_eq_some :
    chain.lookup? table category name = some found ↔
      ∃ inner scope outer, chain.scopes = inner ++ scope :: outer ∧
        Holds table category name scope found ∧
        ∀ scope' ∈ inner, ∀ other, ¬ Holds table category name scope' other := by
  simp only [lookup?, List.findSome?_eq_some_iff, lookupIn?_eq_some, lookupIn?_eq_none]

theorem lookup?_eq_none :
    chain.lookup? table category name = none ↔
      ∀ scope ∈ chain.scopes, ∀ found, ¬ Holds table category name scope found := by
  simp only [lookup?, List.findSome?_eq_none_iff, lookupIn?_eq_none]

theorem Holds.object (h : Holds table category name scope found) :
    found.object ≠ .null ∧ found.object.IsDirect := by
  obtain ⟨-, -, entry, -, -, -, hobject, hnull, -⟩ := h
  refine ⟨hnull, ?_⟩
  rw [hobject]
  exact table.follow_isDirect _ entry

/-- A scope that is added is looked into before the others. -/
theorem lookup?_push (chain : ResourceChain) (scope : Dict) :
    (chain.push scope).lookup? table category name =
      (lookupIn? table category name scope).or (chain.lookup? table category name) := by
  rw [lookup?, push, List.findSome?_cons]
  cases lookupIn? table category name scope <;> rfl

theorem pop_push (chain : ResourceChain) (scope : Dict) : (chain.push scope).pop = chain := rfl

/-- **References and scopes.** An object stands for the direct one that fewer than 16 references lead
to, and else for null. A name stands for what the innermost scope that has it holds under it. A scope
hides the names that it holds itself, until it is taken away. -/
theorem resources_layered (table : ObjectTable) :
    (∀ o,
      (table.resolve o).IsDirect ∧
      (∀ k x, table.Leads k o x → x.IsDirect → table.resolve o = if k < 16 then x else .null) ∧
      (table.Dangles o → table.resolve o = .null) ∧
      (table.Circles o → table.resolve o = .null) ∧
      (table.Ends o ∨ table.Dangles o ∨ table.Circles o)) ∧
    ∀ (chain : ResourceChain) (category name : String),
      (∀ found, chain.lookup? table category name = some found ↔
        ∃ inner scope outer, chain.scopes = inner ++ scope :: outer ∧
          Holds table category name scope found ∧
          ∀ scope' ∈ inner, ∀ other, ¬ Holds table category name scope' other) ∧
      (∀ found, chain.lookup? table category name = some found →
        found.object ≠ .null ∧ found.object.IsDirect) ∧
      (chain.lookup? table category name = none ↔
        ∀ scope ∈ chain.scopes, ∀ found, ¬ Holds table category name scope found) ∧
      ∀ scope,
        (∀ found, Holds table category name scope found →
          (chain.push scope).lookup? table category name = some found) ∧
        ((∀ found, ¬ Holds table category name scope found) →
          (chain.push scope).lookup? table category name = chain.lookup? table category name) ∧
        (chain.push scope).pop = chain := by
  refine ⟨fun o => ?_, fun chain category name => ?_⟩
  · exact ⟨table.follow_isDirect _ o, fun k x => ObjectTable.resolve_of_ends,
      ObjectTable.resolve_of_dangles, ObjectTable.resolve_of_circles, table.chain_cases o⟩
  refine ⟨fun found => lookup?_eq_some, fun found hfound => ?_, lookup?_eq_none,
    fun scope => ⟨fun found hholds => ?_, fun hnone => ?_, chain.pop_push scope⟩⟩
  · obtain ⟨_, _, _, _, hholds, _⟩ := lookup?_eq_some.1 hfound
    exact hholds.object
  · rw [lookup?_push, lookupIn?_eq_some.2 hholds]
    rfl
  · rw [lookup?_push, lookupIn?_eq_none.2 hnone]
    rfl

end ResourceChain

end ContentStream
