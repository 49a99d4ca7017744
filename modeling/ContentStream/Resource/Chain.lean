import ContentStream.Resource.Table

/-!
# Resources

Content calls its fonts, forms, colour spaces and so on by names, which a resource dictionary
explains. A stream that runs inside another one brings its own dictionary. Names are looked up there
first and then further out.
-/

namespace ContentStream

/-- The resource dictionaries in force, innermost first. -/
structure ResourceChain where
  scopes : List Dict := []

/-- What a name stands for. A resource that was written as a reference keeps it, so that two uses can
be known to be the same. -/
structure Resource where
  ref : Option ObjectRef
  object : Object

namespace ResourceChain

def push (chain : ResourceChain) (scope : Dict) : ResourceChain := ⟨scope :: chain.scopes⟩

def pop (chain : ResourceChain) : ResourceChain := ⟨chain.scopes.tail⟩

/-- The resource that one dictionary has under a name. Null counts as absent. -/
def lookupIn? (table : ObjectTable) (category name : String) (scope : Dict) : Option Resource :=
  match (table.entry? scope category).map Object.asDict with
  | some (.ok entries) =>
    match Dict.find? entries name with
    | some entry =>
      let object := table.resolve entry
      if object.isNull then none else some ⟨entry.asRef.toOption, object⟩
    | none => none
  | _ => none

/-- The resource that the innermost dictionary with such a name has under it. -/
def lookup? (chain : ResourceChain) (table : ObjectTable) (category name : String) :
    Option Resource :=
  chain.scopes.findSome? (lookupIn? table category name)

/-- The resource under a name, or the error that there is none. -/
def lookup (chain : ResourceChain) (table : ObjectTable) (category name : String) :
    Except Error Resource :=
  match chain.lookup? table category name with
  | some r => .ok r
  | none => .error (.missingResource category name)

end ResourceChain

end ContentStream
