import ContentStream.Graphics.Color
import ContentStream.Object.Operands
import ContentStream.Resource.Chain

/-!
# Colour spaces from resources

A colour space is described by a name or by an array that starts with the name of its family. A
pattern space may be described over another space, which is described in turn.
-/

namespace ContentStream

/-- How many descriptions of pattern spaces lie inside each other. -/
def Object.patternDepth : Object → Nat
  | .array (_ :: base :: _) => base.patternDepth + 1
  | _ => 0

namespace ColorSpace

/-- The parameter at a place behind the family. -/
def parameter (table : ObjectTable) (family : String) (params : List Object) (index : Nat) :
    Except Error Object :=
  match params[index]? with
  | some o => .ok (table.resolve o)
  | none => .error (.invalidValue (.missingParameter family index))

/-- A space with as many components as the profile in its stream says. -/
def ofProfile (table : ObjectTable) (profile : Stream) : Except Error ColorSpace := do
  let n ← match table.entry? profile.attrs "N" with
    | some o => o.asInt
    | none => .ok 3
  if n = 1 ∨ n = 3 ∨ n = 4 then return { family := .iccBased, ncomponents := n.toNat }
  else .error (.invalidValue (.profileComponents n))

/-- The space of a family with its parameters. `readBase` reads the space that patterns lie over. -/
def ofFamily (table : ObjectTable) (readBase : Object → Except Error ColorSpace) (family : String)
    (params : List Object) : Except Error ColorSpace :=
  match family with
  | "ICCBased" => do
    let profile ← parameter table family params 0
    ofProfile table (← profile.asStream)
  | "DeviceN" => do
    let names ← parameter table family params 0
    return { family := .deviceN, ncomponents := (← names.asArray).length }
  | "Pattern" =>
    match params with
    | [] => .ok (patternOver none)
    | base :: _ => (readBase base).map fun space => patternOver (some space)
  | "Indexed" | "I" => .ok { family := .indexed, ncomponents := 1 }
  | "G" => .ok deviceGray
  | "RGB" => .ok deviceRgb
  | "CMYK" => .ok deviceCmyk
  | family =>
    match predefined? family with
    | some space => .ok space
    | none => .error (.invalidValue (.unknownColorSpace family))

/-- Reads a description with fewer than `limit` descriptions inside each other. -/
def readWithin (table : ObjectTable) : (limit : Nat) → Object → Except Error ColorSpace
  | 0, _ => .error (.invalidValue (.unknownColorSpace "Pattern"))
  | n + 1, o =>
    match table.resolve o with
    | .name family => ofFamily table (readWithin table n) family []
    | .array [] => .error (.invalidValue .emptyColorSpace)
    | .array (first :: params) => do
      let family ← first.asName
      ofFamily table (readWithin table n) family params
    | o => o.mismatch .nameOrArray

/-- No description that does not contain itself goes deeper than this. -/
def depthBound (table : ObjectTable) (o : Object) : Nat :=
  table.foldr (fun entry n => entry.2.patternDepth + n) (o.patternDepth + 1)

/-- Reads the description of a colour space. One that contains itself describes none. -/
def read (table : ObjectTable) (o : Object) : Except Error ColorSpace :=
  readWithin table (depthBound table o) o

/-- The space that a name stands for: a predefined one, or one from the resources. -/
def ofName (table : ObjectTable) (resources : ResourceChain) (name : String) :
    Except Error ColorSpace :=
  match predefined? name with
  | some space => .ok space
  | none => do
    let found ← resources.lookup table "ColorSpace" name
    return { ← read table found.object with resource := some name }

/-- The colour that operands denote in a space. In a pattern space the name of the pattern comes
last, behind the components in the base space. -/
def colorOfOperands (space : ColorSpace) (args : Operands) : Except Error Color :=
  if space.isPattern then do
    let n := (space.base.map ncomponents).getD 0
    if args.args.length ≠ n + 1 then
      .error (.arity args.operator (.exact (n + 1)) args.args.length)
    else
      let name ← args.name n
      let values ← (List.range n).mapM args.number
      return if values.isEmpty then .patternColored name else .patternUncolored values name
  else if args.args.length ≠ space.ncomponents then
    .error (.arity args.operator (.exact space.ncomponents) args.args.length)
  else return space.colorOf (← args.numbers)

end ColorSpace

end ContentStream
