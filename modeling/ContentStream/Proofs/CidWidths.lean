import ContentStream.Font.CidWidths
import ContentStream.Proofs.CodeMaps
import ContentStream.Proofs.Rectangles

/-!
# Width arrays are read by their meaning

A `WidthEntry` is an entry of the width array of a composite font, with the objects that may stand for
it (`Written`) and the widths that it gives (`width?`). Objects may stand behind references, so the
relation goes through the table.

A code is a natural number without a minus sign (`Decimal.Denotes`), so that a zero with one is none.
An entry that has another number where a code is due gives no widths (`WidthEntry.void`).

**Theorem (`read_entries`).** No width is given to a code above 65535. An array that is made of entries
gives each code the width of the last entry that has one for it, and none if there is no such entry.

The reader keeps numbers until it knows which kind of entry they belong to. Nothing waits between two
entries, so each entry is one operation on the widths (`foldl_step_entry`).
-/

namespace ContentStream

/-! ## Codes -/

namespace Decimal

theorem toRat_eq_natCast_iff {d : Decimal} {n : Nat} :
    d.toRat = n ↔ d.coeff = n * tenPow d.scale := by
  have hpos : (tenPow d.scale : ℚ) ≠ 0 := Nat.cast_ne_zero.2 (Nat.ne_of_gt (tenPow_pos _))
  rw [toRat_eq_div, div_eq_iff hpos]
  exact_mod_cast Iff.rfl

/-- The number is a natural number and has no minus sign, which a zero may have. -/
structure Denotes (d : Decimal) (n : Nat) : Prop where
  value : d.toRat = n
  unsigned : d.minusZero = false

theorem Denotes.unique {d : Decimal} {m n : Nat} (hm : d.Denotes m) (hn : d.Denotes n) : m = n :=
  Nat.cast_injective (R := ℚ) (hm.value.symm.trans hn.value)

/-- A number is a code if it denotes a natural number of at most four bytes. -/
theorem toCode_eq_ok_iff {d : Decimal} {n : Nat} :
    d.toCode = .ok n ↔ d.Denotes n ∧ n ≤ maxCode := by
  have hpos : (0 : Int) < tenPow d.scale := Int.natCast_pos.2 (tenPow_pos _)
  constructor
  · intro h
    unfold toCode at h
    split at h
    · rename_i code hintegral hcode
      cases h
      have hcoeff : d.truncate * tenPow d.scale = d.coeff :=
        Int.tdiv_mul_cancel_of_tmod_eq_zero (by simpa [isIntegral] using hintegral)
      simp only [toNatBelow?, Option.ite_none_right_eq_some, Option.some.injEq] at hcode
      obtain ⟨⟨hminus, hbelow⟩, rfl⟩ := hcode
      obtain ⟨hnonneg, hunsigned⟩ := hasMinus_eq_false_iff.1 hminus
      have htruncate : 0 ≤ d.truncate := Int.tdiv_nonneg hnonneg (Int.le_of_lt hpos)
      have hvalue : d.toRat = d.truncate.toNat :=
        toRat_eq_natCast_iff.2 (by rw [Int.toNat_of_nonneg htruncate, hcoeff])
      exact ⟨⟨hvalue, hunsigned⟩, by omega⟩
    · cases h
  · rintro ⟨⟨hvalue, hunsigned⟩, hn⟩
    have hcoeff := toRat_eq_natCast_iff.1 hvalue
    have htruncate : d.truncate = n := by
      rw [truncate, hcoeff, Int.mul_tdiv_cancel _ (Int.ne_of_gt hpos)]
    have hintegral : d.isIntegral = true := by
      rw [isIntegral, hcoeff, Int.mul_tmod_left]
      rfl
    have hbelow : d.toNatBelow? (maxCode + 1) = some n := by
      have hnonneg : 0 ≤ d.coeff := hcoeff ▸ Int.mul_nonneg (Int.natCast_nonneg n) (Int.le_of_lt hpos)
      have hminus := hasMinus_eq_false_iff.2 ⟨hnonneg, hunsigned⟩
      rw [toNatBelow?, htruncate, if_pos ⟨hminus, by omega⟩, Int.toNat_natCast]
    rw [toCode, hintegral, hbelow]

theorem toCode_eq_error {d : Decimal} (h : ∀ n, d.Denotes n → maxCode < n) :
    ∃ e, d.toCode = .error e := by
  cases hcode : d.toCode with
  | error e => exact ⟨e, rfl⟩
  | ok n =>
    obtain ⟨hn, hle⟩ := toCode_eq_ok_iff.1 hcode
    exact absurd (h n hn) (Nat.not_lt.2 hle)

theorem Denotes.toCode_cases {d : Decimal} {n : Nat} (h : d.Denotes n) :
    d.toCode = .ok n ∨ maxCode < n ∧ ∃ e, d.toCode = .error e := by
  by_cases hn : n ≤ maxCode
  · exact .inl (toCode_eq_ok_iff.2 ⟨h, hn⟩)
  · have hlarge : maxCode < n := Nat.not_le.1 hn
    exact .inr ⟨hlarge, toCode_eq_error fun m hm => hm.unique h ▸ hlarge⟩

/-- The number is no natural number, or has a minus sign. -/
def IsNoCode (d : Decimal) : Prop := ∀ n, ¬ d.Denotes n

theorem IsNoCode.toCode {d : Decimal} (h : d.IsNoCode) : ∃ e, d.toCode = .error e :=
  toCode_eq_error fun n hn => absurd hn (h n)

end Decimal

/-! ## Entries -/

/-- An entry of a width array. -/
inductive WidthEntry where
  | list (first : Nat) (items : List Object)
  | span (first last : Nat) (width : Decimal)
  /-- An entry with a number that is no code where a code is due. -/
  | void

/-- The number that an object is. -/
def Object.number? : Object → Option Decimal
  | number n => some n
  | _ => none

namespace WidthEntry

/-- The objects spell the entry, in place or behind references. -/
inductive Written (table : ObjectTable) : WidthEntry → List Object → Prop
  | list {o a : Object} {c : Decimal} {first : Nat} {items : List Object} :
      table.resolve o = .number c → c.Denotes first → table.resolve a = .array items →
      Written table (list first items) [o, a]
  | span {o o' w : Object} {c c' width : Decimal} {first last : Nat} :
      table.resolve o = .number c → c.Denotes first →
      table.resolve o' = .number c' → c'.Denotes last → table.resolve w = .number width →
      Written table (span first last width) [o, o', w]
  | voidList {o a : Object} {c : Decimal} {items : List Object} :
      table.resolve o = .number c → c.IsNoCode → table.resolve a = .array items →
      Written table void [o, a]
  | voidSpan {o o' w : Object} {c c' width : Decimal} :
      table.resolve o = .number c → table.resolve o' = .number c' → c.IsNoCode ∨ c'.IsNoCode →
      table.resolve w = .number width → Written table void [o, o', w]

/-- The width that an entry gives to a code. -/
def width? (table : ObjectTable) : WidthEntry → Nat → Option Decimal
  | list first items, code =>
    if first ≤ code ∧ code ≤ 0xFFFF then
      items[code - first]?.bind fun item => (table.resolve item).number?
    else none
  | span first last width, code =>
    if first ≤ code ∧ code ≤ last ∧ last ≤ 0xFFFF then some width else none
  | void, _ => none

theorem width?_above (table : ObjectTable) (entry : WidthEntry) {code : Nat} (h : 0xFFFF < code) :
    entry.width? table code = none := by
  cases entry with
  | list first items => exact if_neg (by omega)
  | span first last width => exact if_neg (by omega)
  | void => rfl

end WidthEntry

namespace CidWidths

open CodeMap (Writes writes_id writes_insert writes_insertRange listed listed_nil listed_beyond
  listed_cons)

variable {table : ObjectTable}

/-! ## Widths that are given -/

theorem insertList_writes (table : ObjectTable) (first : Nat) (items : List Object) :
    Writes (insertList table · first items) ((WidthEntry.list first items).width? table) := by
  show Writes _ (listed (fun item => (table.resolve item).number?) first lastCid items)
  induction items generalizing first with
  | nil => exact writes_id.congr fun code => (listed_nil code).symm
  | cons item items ih =>
    by_cases hfirst : first ≤ lastCid
    · refine Writes.congr ?_ fun code => (listed_cons hfirst item items code).symm
      simp only [insertList, if_pos hfirst]
      cases hitem : table.resolve item with
      | number w => exact (writes_insert first w).comp (ih (first + 1))
      | _ => exact (ih (first + 1)).congr fun code => by simp [Object.number?]
    · simp only [insertList, if_neg hfirst]
      exact writes_id.congr fun code => (listed_beyond (Nat.not_le.1 hfirst) _ code).symm

theorem insertSpan_writes {c c' : Decimal} {first last : Nat} (hc : c.Denotes first)
    (hc' : c'.Denotes last) (width : Decimal) (table : ObjectTable) :
    Writes (insertSpan · c c' width) ((WidthEntry.span first last width).width? table) := by
  unfold insertSpan
  rcases hc.toCode_cases with hcode | ⟨hlarge, e, hcode⟩
  · rcases hc'.toCode_cases with hcode' | ⟨hlarge, e, hcode'⟩
    · simp only [hcode, hcode']
      split
      · refine (writes_insertRange _ _ _).congr fun code => ?_
        have hcovers : (first ≤ code ∧ code < first + (last + 1 - first)) ↔
            (first ≤ code ∧ code ≤ last ∧ last ≤ 0xFFFF) := by
          unfold lastCid at *
          omega
        simp only [WidthEntry.width?, hcovers]
      · refine writes_id.congr fun code => (if_neg ?_).symm
        unfold lastCid at *
        omega
    · simp only [hcode, hcode']
      exact writes_id.congr fun code => (if_neg (by unfold maxCode at hlarge; omega)).symm
  · simp only [hcode]
    exact writes_id.congr fun code => (if_neg (by unfold maxCode at hlarge; omega)).symm

theorem insertSpan_void {c c' : Decimal} (h : c.IsNoCode ∨ c'.IsNoCode) (widths : CodeMap Decimal)
    (width : Decimal) : insertSpan widths c c' width = widths := by
  unfold insertSpan
  rcases h with hc | hc'
  · obtain ⟨e, he⟩ := hc.toCode
    rw [he]
  · obtain ⟨e, he⟩ := hc'.toCode
    rw [he]
    cases c.toCode <;> rfl

/-! ## Arrays -/

/-- The objects of an entry are read in one go, and nothing waits behind them. -/
theorem foldl_step_entry {entry : WidthEntry} {objects : List Object}
    (h : entry.Written table objects) :
    ∃ op, Writes op (entry.width? table) ∧ ∀ widths,
      objects.foldl (step table) ⟨widths, []⟩ = ⟨op widths, []⟩ := by
  cases h with
  | list ho hc ha =>
    rename_i o a c first items
    rcases hc.toCode_cases with hcode | ⟨hlarge, e, hcode⟩
    · refine ⟨_, insertList_writes table first items, fun widths => ?_⟩
      simp [step, ho, ha, hcode]
    · refine ⟨_, writes_id.congr fun code => (if_neg (by unfold maxCode at hlarge; omega)).symm,
        fun widths => ?_⟩
      simp [step, ho, ha, hcode]
  | span ho hc ho' hc' hw =>
    rename_i o o' w c c' width first last
    refine ⟨_, insertSpan_writes hc hc' width table, fun widths => ?_⟩
    simp [step, ho, ho', hw]
  | voidList ho hc ha =>
    obtain ⟨e, hcode⟩ := hc.toCode
    refine ⟨_, writes_id.congr fun code => rfl, fun widths => ?_⟩
    simp [step, ho, ha, hcode]
  | voidSpan ho ho' hcodes hw =>
    refine ⟨_, writes_id.congr fun code => rfl, fun widths => ?_⟩
    simp [step, ho, ho', hw, insertSpan_void hcodes]

theorem foldl_step_entries {entries : List WidthEntry} {parts : List (List Object)}
    (h : List.Forall₂ (WidthEntry.Written table) entries parts) :
    ∃ op, Writes op (fun code => entries.reverse.findSome? (WidthEntry.width? table · code)) ∧
      ∀ widths, parts.flatten.foldl (step table) ⟨widths, []⟩ = ⟨op widths, []⟩ := by
  induction h with
  | nil => exact ⟨_, writes_id, fun _ => rfl⟩
  | cons hentry _ ih =>
    obtain ⟨op, hop, hstep⟩ := foldl_step_entry hentry
    obtain ⟨op', hop', hsteps⟩ := ih
    refine ⟨_, hop.before (WidthEntry.width? table) hop', fun widths => ?_⟩
    rw [List.flatten_cons, List.foldl_append, hstep, hsteps]

/-! ## Codes that have widths -/

/-- No code above the last one has a width. -/
def Bounded (widths : CodeMap Decimal) : Prop := ∀ code, 0xFFFF < code → widths[code]? = none

theorem bounded_of_writes {op : CodeMap Decimal → CodeMap Decimal} {entry : WidthEntry}
    {widths : CodeMap Decimal} (hop : Writes op (entry.width? table)) (h : Bounded widths) :
    Bounded (op widths) := by
  intro code hcode
  rw [hop, entry.width?_above table hcode, h code hcode]
  rfl

theorem insertSpan_bounded {widths : CodeMap Decimal} (h : Bounded widths)
    (first last width : Decimal) : Bounded (insertSpan widths first last width) := by
  cases hlo : first.toCode with
  | error e => simpa only [insertSpan, hlo] using h
  | ok lo =>
    cases hhi : last.toCode with
    | error e => simpa only [insertSpan, hlo, hhi] using h
    | ok hi =>
      exact bounded_of_writes (insertSpan_writes (Decimal.toCode_eq_ok_iff.1 hlo).1
        (Decimal.toCode_eq_ok_iff.1 hhi).1 width []) h

theorem step_bounded {s : State} (h : Bounded s.widths) (item : Object) :
    Bounded (step table s item).widths := by
  unfold step
  split
  · split
    · exact bounded_of_writes (insertList_writes table _ _) h
    · exact h
  · split
    · exact insertSpan_bounded h _ _ _
    · exact h
  · exact h

theorem foldl_step_bounded (items : List Object) {s : State} (h : Bounded s.widths) :
    Bounded (items.foldl (step table) s).widths := by
  induction items generalizing s with
  | nil => exact h
  | cons item items ih => exact ih (step_bounded h item)

theorem read_bounded (table : ObjectTable) (items : List Object) : Bounded (read table items) := by
  have hstart : Bounded (State.widths {}) := fun _ _ => Std.TreeMap.getElem?_emptyc
  exact foldl_step_bounded items hstart

/-- **Width arrays are read by their meaning.** Codes above 65535 have no width, whatever the array
holds, and an array of entries gives a code the width of the last entry that has one for it. -/
theorem read_entries (table : ObjectTable) :
    (∀ items code, code ∈ read table items → code ≤ 0xFFFF) ∧
    ∀ entries parts, List.Forall₂ (WidthEntry.Written table) entries parts → ∀ code,
      (read table parts.flatten)[code]? =
        entries.reverse.findSome? (WidthEntry.width? table · code) := by
  constructor
  · intro items code hmem
    by_contra hcode
    have hnone := read_bounded table items code (Nat.not_le.1 hcode)
    rw [Std.TreeMap.mem_iff_isSome_getElem?, hnone] at hmem
    cases hmem
  · intro entries parts hparts code
    obtain ⟨op, hop, hsteps⟩ := foldl_step_entries hparts
    rw [read, hsteps ∅, hop.empty]

/-- A list of widths behind a reference, with an element that is no number and one behind another
reference. -/
def sampleTable : ObjectTable :=
  [(⟨5, 0⟩, .array [.number 100, .null, .ref ⟨6, 0⟩]), (⟨6, 0⟩, .number 1000)]

/-- An entry for a zero with a minus sign, a list, and a span that goes over its first width. -/
def sampleParts : List (List Object) :=
  [[.number (-0), .ref ⟨5, 0⟩], [.number 10, .ref ⟨5, 0⟩], [.number 1, .number 10, .number 0]]

theorem read_entries_overlapping :
    List.Forall₂ (WidthEntry.Written sampleTable)
      [.void, .list 10 [.number 100, .null, .ref ⟨6, 0⟩], .span 1 10 0] sampleParts ∧
    (read sampleTable sampleParts.flatten)[0]? = none ∧
    (read sampleTable sampleParts.flatten)[10]? = some 0 ∧
    (read sampleTable sampleParts.flatten)[11]? = none ∧
    (read sampleTable sampleParts.flatten)[12]? = some 1000 := by
  have hzero : (-0 : Decimal).IsNoCode := fun n hn => Bool.noConfusion hn.unsigned
  have hone : (1 : Decimal).Denotes 1 := ⟨Decimal.toRat_eq_natCast_iff.2 (by decide), rfl⟩
  have hten : (10 : Decimal).Denotes 10 := ⟨Decimal.toRat_eq_natCast_iff.2 (by decide), rfl⟩
  have hparts : List.Forall₂ (WidthEntry.Written sampleTable)
      [.void, .list 10 [.number 100, .null, .ref ⟨6, 0⟩], .span 1 10 0] sampleParts :=
    .cons (.voidList rfl hzero rfl)
      (.cons (.list rfl hten rfl) (.cons (.span rfl hone rfl hten rfl) .nil))
  have hread := (read_entries sampleTable).2 _ _ hparts
  exact ⟨hparts, (hread 0).trans rfl, (hread 10).trans rfl, (hread 11).trans rfl,
    (hread 12).trans rfl⟩

end CidWidths

end ContentStream
