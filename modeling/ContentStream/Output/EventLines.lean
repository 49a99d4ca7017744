import ContentStream.Object.Written
import ContentStream.Output.JsonText
import ContentStream.Run.Pages

/-!
# Pages as lines

A page as lines of JSON: one for each event, then one for each diagnostic, then a summary.
-/

namespace ContentStream.EventLines

def rect (r : Rect) : String := JsonText.array ([r.x0, r.y0, r.x1, r.y1].map JsonText.decimal)

def matrix (m : Matrix) : String := JsonText.array (m.toList.map fun d => JsonText.float d.toFloat)

/-- A segment as a list of its letter and its coordinates. -/
def segment (s : Segment) : String :=
  let letter := match s with
    | .moveTo _ => "m"
    | .lineTo _ => "l"
    | .curveTo .. => "c"
    | .close => "h"
  let coordinates := s.points.flatMap fun p => [JsonText.decimal p.x, JsonText.decimal p.y]
  JsonText.array (JsonText.string letter :: coordinates)

def dict (d : Dict) : String := JsonText.string (Object.dict d).written

/-- What an event is about, by the names of the members. -/
def payload : EventPayload → List (String × String)
  | .glyph info =>
    [("advance", JsonText.decimal info.advance),
      ("code", JsonText.nat info.code),
      ("font", JsonText.string info.font),
      ("fontsize", JsonText.decimal info.fontSize),
      ("trm", matrix info.renderingMatrix),
      ("unicode", JsonText.optional JsonText.string info.text)]
  | .path info =>
    [("bbox", JsonText.optional rect info.bbox),
      ("fill", JsonText.optional (fun rule => JsonText.string rule.label) info.fill),
      ("segments", JsonText.array (info.path.map segment)),
      ("stroke", JsonText.bool info.stroke)]
  | .image info =>
    [("attrs", dict info.stream.attrs),
      ("inline", JsonText.bool info.inline),
      ("length", JsonText.nat info.stream.data.length),
      ("name", JsonText.string info.name)]
  | .shading name _ => [("name", JsonText.string name)]
  | .clip rule bounds empty =>
    [("bounds", JsonText.optional rect bounds),
      ("empty", JsonText.bool empty),
      ("rule", JsonText.string rule.label)]
  | .sectionBegin label | .sectionEnd label | .sectionPoint label =>
    [("props", JsonText.optional dict label.props),
      ("tag", JsonText.string label.tag)]
  | .formBegin info | .formEnd info =>
    [("bbox", JsonText.optional rect info.bbox),
      ("matrix", matrix info.matrix),
      ("name", JsonText.string info.name)]

def event (page : Nat) (e : Event) : String :=
  JsonText.object
    (("page", JsonText.nat page) :: ("event", JsonText.string e.payload.kind) ::
      ("depth", JsonText.nat e.depth) :: ("ctm", matrix e.state.ctm) :: payload e.payload)

def diagnostic (page : Nat) (d : Diagnostic) : String :=
  JsonText.object
    [("page", JsonText.nat page),
      ("diagnostic", JsonText.string d.error.kind.label),
      ("pos", JsonText.nat d.pos),
      ("depth", JsonText.nat d.depth),
      ("operator", JsonText.optional JsonText.string d.operator),
      ("message", JsonText.string d.error.message)]

def abortReason : AbortReason → String
  | .breakdown => "Breakdown"
  | .truncated pos => "Truncated \x7b pos: " ++ toString pos ++ " \x7d"
  | .cancelled => "Cancelled"
  | .operatorLimit limit => "OperatorLimit \x7b limit: " ++ toString limit ++ " \x7d"

def status : RunStatus → String
  | .finished => "finished"
  | .aborted reason => "aborted: " ++ abortReason reason
  | .broken => "broken"

def summary (page : Nat) (outcome : Outcome) : String :=
  JsonText.object
    [("page", JsonText.nat page),
      ("status", JsonText.string (status outcome.status)),
      ("operators", JsonText.nat outcome.executed),
      ("diagnostics", JsonText.nat outcome.diagnostics.length)]

/-- All lines of a page. -/
def page (number : Nat) (r : Recording) : List String :=
  r.events.map (event number) ++ r.outcome.diagnostics.map (diagnostic number) ++
    [summary number r.outcome]

end ContentStream.EventLines
