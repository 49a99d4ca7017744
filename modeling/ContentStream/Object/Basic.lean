import ContentStream.Decimal.Basic
import ContentStream.Error

/-!
# Objects

The values that stand as operands in content and in resource dictionaries.

**Dictionaries** are lists of entries in the order in which their keys first came. A later entry for
a key replaces the value and keeps the place. The order shows in dumps, and equality ignores it.

**Streams** have an identity besides their contents: `serial` numbers the streams of a document, so
that a stream reached on two ways is known to be one.
-/

namespace ContentStream

/-- How a string is written. -/
inductive StringForm where
  | literal
  | hex
deriving DecidableEq

structure ByteString where
  bytes : List UInt8
  form : StringForm
deriving DecidableEq

/-- The number and generation of an indirect object. -/
structure ObjectRef where
  id : Nat
  generation : Nat
deriving DecidableEq

inductive Object where
  | null
  | bool (value : Bool)
  | number (value : Decimal)
  | string (value : ByteString)
  | name (text : String)
  | array (items : List Object)
  | dict (entries : List (String × Object))
  | stream (attrs : List (String × Object)) (data : List UInt8) (serial : Nat)
  | ref (target : ObjectRef)

abbrev Dict := List (String × Object)

structure Stream where
  attrs : Dict
  data : List UInt8
  serial : Nat := 0

/-! ## Dictionaries -/

namespace Dict

/-- The value of a key. -/
def find? (d : Dict) (key : String) : Option Object := List.lookup key d

def contains (d : Dict) (key : String) : Bool := (find? d key).isSome

/-- Sets the value of a key, in its place if it has one and at the end otherwise. -/
def insert (d : Dict) (key : String) (value : Object) : Dict :=
  match d with
  | [] => [(key, value)]
  | (k, v) :: rest => if k == key then (k, value) :: rest else (k, v) :: insert rest key value

/-- The dictionary that entries given one after the other make. -/
def ofEntries (entries : List (String × Object)) : Dict :=
  entries.foldl (fun d (key, value) => insert d key value) []

end Dict

/-! ## Views -/

namespace Object

def shape : Object → Shape
  | null => .null
  | bool _ => .bool
  | number _ => .number
  | string _ => .string
  | name _ => .name
  | array _ => .array
  | dict _ => .dict
  | stream .. => .stream
  | ref _ => .ref

def isNull : Object → Bool
  | null => true
  | _ => false

/-- The error for an object that is not what was expected. -/
def mismatch {α : Type} (o : Object) (expected : Shape) : Except Error α :=
  .error (.shape expected o.shape)

def asBool : Object → Except Error Bool
  | bool b => .ok b
  | o => o.mismatch .bool

def asNumber : Object → Except Error Decimal
  | number n => .ok n
  | o => o.mismatch .number

/-- The integer of at most 64 bits that a number is. -/
def asInt (o : Object) : Except Error Int := do
  let n ← o.asNumber
  if !n.isIntegral then .error (.shape .integer .real)
  else if -wordBound ≤ 2 * n.truncate ∧ 2 * n.truncate < wordBound then .ok n.truncate
  else .error .overflow

def asName : Object → Except Error String
  | name s => .ok s
  | o => o.mismatch .name

def asString : Object → Except Error ByteString
  | string s => .ok s
  | o => o.mismatch .string

def asArray : Object → Except Error (List Object)
  | array items => .ok items
  | o => o.mismatch .array

/-- A dictionary, or the one that a stream starts with. -/
def asDict : Object → Except Error Dict
  | dict d => .ok d
  | stream attrs .. => .ok attrs
  | o => o.mismatch .dict

def asStream : Object → Except Error Stream
  | stream attrs data serial => .ok ⟨attrs, data, serial⟩
  | o => o.mismatch .stream

def asRef : Object → Except Error ObjectRef
  | ref r => .ok r
  | o => o.mismatch .ref

def asNumbers (o : Object) : Except Error (List Decimal) := do
  let items ← o.asArray
  items.mapM asNumber

end Object

def Stream.toObject (s : Stream) : Object := .stream s.attrs s.data s.serial

/-! ## Equality -/

namespace Object

mutual

/-- Equality of values: numbers as numbers, dictionaries without regard to order, streams by their
contents. -/
def beq : Object → Object → Bool
  | null, null => true
  | bool a, bool b => a == b
  | number a, number b => a == b
  | string a, string b => a == b
  | name a, name b => a == b
  | array a, array b => beqItems a b
  | dict a, dict b => a.length == b.length && beqEntries a b
  | stream a x _, stream b y _ => a.length == b.length && beqEntries a b && x == y
  | ref a, ref b => a == b
  | _, _ => false

def beqItems : List Object → List Object → Bool
  | [], [] => true
  | a :: as, b :: bs => beq a b && beqItems as bs
  | _, _ => false

/-- Every entry of the first dictionary has an equal one in the second. -/
def beqEntries : List (String × Object) → List (String × Object) → Bool
  | [], _ => true
  | (k, v) :: rest, d =>
    (match List.lookup k d with
      | some w => beq v w
      | none => false) && beqEntries rest d

end

instance : BEq Object := ⟨beq⟩

end Object

end ContentStream
