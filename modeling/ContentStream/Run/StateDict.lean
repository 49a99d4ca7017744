import ContentStream.Run.Fonts
import ContentStream.Run.StateChange

/-!
# Graphics states from dictionaries

A dictionary in the resources can set many parameters of the graphics state at once. Its entries are
applied to a copy, which becomes the graphics state only if all of them are right. Unknown entries
are passed over.
-/

namespace ContentStream

/-- Says which entry a value of the wrong shape was. -/
def Error.forStateEntry (key : String) : Error → Error
  | .shape expected got => .invalidValue (.stateEntry key expected got)
  | e => e

namespace StateDict

/-- A value seen as a view says, for the entry under `key`. -/
def view {α : Type} (key : String) (result : Except Error α) : Except Error α :=
  result.mapError (Error.forStateEntry key)

/-- A dash pattern, given as an array of its lengths and its phase. -/
def dash (table : ObjectTable) (key : String) (value : Object) : Except Error DashPattern := do
  match ← view key value.asArray with
  | [lengths, phase] =>
    let lengths ← view key (table.resolve lengths).asArray
    let phase ← view key (table.resolve phase).asNumber
    GraphicsState.dashPattern "gs" lengths phase
  | _ => .error (.invalidValue .stateDash)

/-- A blend mode, or the first one of several. -/
def blendMode (key : String) : Object → Except Error String
  | .array [] => .error (.invalidValue .stateBlendMode)
  | .array (first :: _) => view key first.asName
  | o => view key o.asName

def softMask : Object → Except Error (Option Object)
  | .name "None" => .ok none
  | .dict d => .ok (some (.dict d))
  | .stream attrs data serial => .ok (some (.stream attrs data serial))
  | o => .error (.invalidValue (.stateMask o.shape))

/-- Applies an entry that is not about the font. -/
def applyEntry (table : ObjectTable) (key : String) (value : Object) (g : GraphicsState) :
    Except Error GraphicsState :=
  match key with
  | "LW" => do return { g with lineWidth := ← view key value.asNumber }
  | "LC" => do
    return { g with lineCap := ← GraphicsState.styleCode "gs" (← view key value.asInt) 2 }
  | "LJ" => do
    return { g with lineJoin := ← GraphicsState.styleCode "gs" (← view key value.asInt) 2 }
  | "ML" => do return { g with miterLimit := ← view key value.asNumber }
  | "D" => do return { g with dash := ← dash table key value }
  | "RI" => do return { g with renderingIntent := ← view key value.asName }
  | "FL" => do return { g with flatness := ← view key value.asNumber }
  | "SA" => do return { g with strokeAdjust := ← view key value.asBool }
  | "BM" => do return { g with blendMode := ← blendMode key value }
  | "SMask" => do return { g with softMask := ← softMask value }
  | "CA" => do return { g with strokeAlpha := ← view key value.asNumber }
  | "ca" => do return { g with fillAlpha := ← view key value.asNumber }
  | "OP" => do return { g with overprintStroke := ← view key value.asBool }
  | "op" => do return { g with overprintFill := ← view key value.asBool }
  | "OPM" => do
    return { g with overprintMode := ← GraphicsState.styleCode "gs" (← view key value.asInt) 1 }
  | "TK" => do return { g with text := { g.text with knockout := ← view key value.asBool } }
  | _ => .ok g

/-- The name of a font that no resource names: its reference, or the place where it was found. -/
def fontLabel (depth : Nat) : Option ObjectRef → String
  | some r => toString r.id ++ " " ++ toString r.generation ++ " R"
  | none => "Font@" ++ toString depth

/-- Applies the entry about the font, an array of the font and its size. The processor remembers the
font even if its size is wrong. -/
def applyFont (s : Setting) (p : Processor) (value : Object) (g : GraphicsState) :
    Except Error GraphicsState × Processor :=
  match view "Font" value.asArray with
  | .error e => (.error e, p)
  | .ok [spec, size] =>
    let ref := spec.asRef.toOption
    match p.loadFont s (fontLabel p.depth ref) ref spec with
    | .error e => (.error e, p)
    | .ok (font, p') =>
      let size := view "Font" (s.table.resolve size).asNumber
      (size.map fun size => { g with text := { g.text with font := some font, fontSize := size } }, p')
  | .ok _ => (.error (.invalidValue .stateFont), p)

/-- Applies entries one after the other, until one fails. -/
def applyEntries (s : Setting) (p : Processor) (g : GraphicsState) :
    List (String × Object) → Except Error GraphicsState × Processor
  | [] => (.ok g, p)
  | (key, raw) :: rest =>
    let value := s.table.resolve raw
    let (result, p) :=
      if key = "Font" then applyFont s p value g else (applyEntry s.table key value g, p)
    match result with
    | .ok g => applyEntries s p g rest
    | .error e => (.error e, p)

/-- One overprint flag alone governs both. -/
def spreadOverprint (d : Dict) (g : GraphicsState) : GraphicsState :=
  if Dict.contains d "OP" && !Dict.contains d "op" then
    { g with overprintFill := g.overprintStroke }
  else g

end StateDict

/-- Sets the graphics state by a dictionary from the resources. -/
def Processor.applyStateDict (s : Setting) (p : Processor) (name : String) : Reply :=
  match p.lookup s "ExtGState" name >>= fun found => found.object.asDict with
  | .error e => .failed p e
  | .ok d =>
    match StateDict.applyEntries s p p.gstate d with
    | (.ok g, p') => .done { p' with gstate := StateDict.spreadOverprint d g }
    | (.error e, p') => .failed p' e

end ContentStream
