import ContentStream.Font.CodeMap
import ContentStream.Resource.Table

/-!
# Widths of composite fonts

The width array of a composite font mixes two kinds of entries. `c [w₀ w₁ …]` gives widths to the
codes from `c` on, and `c₁ c₂ w` gives one width to all codes from `c₁` to `c₂`. What fits neither form
is passed over.
-/

namespace ContentStream.CidWidths

/-- The largest code that an entry may describe. -/
def lastCid : Nat := 0xFFFF

/-- The widths read so far, and the numbers that wait for the rest of their entry, last first. -/
structure State where
  widths : CodeMap Decimal := ∅
  waiting : List Decimal := []

/-- Gives the widths of a list to the codes from `first` on. Elements that are no numbers leave their
code out. -/
def insertList (table : ObjectTable) (widths : CodeMap Decimal) (first : Nat) :
    List Object → CodeMap Decimal
  | [] => widths
  | o :: rest =>
    if first ≤ lastCid then
      match table.resolve o with
      | .number w => insertList table (widths.insert first w) (first + 1) rest
      | _ => insertList table widths (first + 1) rest
    else widths

/-- Gives one width to a range of codes. A range that is empty or goes too far gives none. -/
def insertSpan (widths : CodeMap Decimal) (first last width : Decimal) : CodeMap Decimal :=
  match first.toCode, last.toCode with
  | .ok lo, .ok hi =>
    if lo ≤ hi ∧ hi ≤ lastCid then widths.insertRange lo (hi + 1 - lo) fun _ => width else widths
  | _, _ => widths

/-- Takes one element of the array. -/
def step (table : ObjectTable) (s : State) (item : Object) : State :=
  match table.resolve item with
  | .array ws =>
    match s.waiting.head?.map Decimal.toCode with
    | some (.ok first) => { widths := insertList table s.widths first ws }
    | _ => { s with waiting := [] }
  | .number n =>
    match s.waiting with
    | [last, first] => { widths := insertSpan s.widths first last n }
    | waiting => { s with waiting := n :: waiting }
  | _ => { s with waiting := [] }

/-- The widths that an array gives. -/
def read (table : ObjectTable) (items : List Object) : CodeMap Decimal :=
  (items.foldl (step table) {}).widths

end ContentStream.CidWidths
