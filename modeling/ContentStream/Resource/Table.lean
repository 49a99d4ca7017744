import ContentStream.Object.Basic

/-!
# Indirect objects

A reference stands for the object that the document holds under its number. References may lead to
references; a chain that is too long, ends nowhere or goes round in a circle leads to null.
-/

namespace ContentStream

/-- The indirect objects of a document. Of two entries for one reference the first counts. -/
abbrev ObjectTable := List (ObjectRef × Object)

namespace ObjectTable

def find? (table : ObjectTable) (r : ObjectRef) : Option Object := List.lookup r table

/-- The most references that are followed in a row. -/
def chainLimit : Nat := 16

/-- Follows references, up to `limit - 1` of them. -/
def follow (table : ObjectTable) : (limit : Nat) → Object → Object
  | 0, _ => .null
  | n + 1, .ref r => follow table n ((table.find? r).getD .null)
  | _ + 1, o => o

/-- The direct object that an object stands for. -/
def resolve (table : ObjectTable) (o : Object) : Object := follow table chainLimit o

/-- The direct object under a key, if the key is there. -/
def entry? (table : ObjectTable) (d : Dict) (key : String) : Option Object :=
  (Dict.find? d key).map table.resolve

end ObjectTable

end ContentStream
