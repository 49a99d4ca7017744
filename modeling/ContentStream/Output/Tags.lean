import ContentStream.Object.Written
import ContentStream.Run.Pages
import ContentStream.Text.Markup

/-!
# Tagged text

The text of pages as markup: sections of marked content become elements, glyphs become text, and each
page is an element around its own. Sections that a page leaves open are closed with it. A page whose run
broke down stays as it is, without an end, and its number is given again.
-/

namespace ContentStream

structure TagWriter where
  output : String := ""
  /-- The number of the page to come, or of the one at hand. Behind the last number comes zero. -/
  page : UInt32 := 0
  /-- The tags of the open elements, latest first. -/
  openTags : List String := []

namespace TagWriter

/-- An attribute, whose value is an object as it would be written in content. -/
def attributeText (entry : String × Object) : String :=
  " " ++ Markup.escape entry.1 ++ "=\"" ++ Markup.escape entry.2.written ++ "\""

/-- Entries in the order of their keys. -/
def sortedEntries (d : Dict) : List (String × Object) := d.mergeSort fun a b => a.1 ≤ b.1

def openingTag (label : MarkedContent) : String :=
  let attributes := (sortedEntries (label.props.getD [])).map attributeText
  "<" ++ Markup.escape label.tag ++ String.join attributes ++ ">"

def closingTag (tag : String) : String := "</" ++ Markup.escape tag ++ ">"

def write (w : TagWriter) (text : String) : TagWriter := { w with output := w.output ++ text }

def event (w : TagWriter) (payload : EventPayload) : TagWriter :=
  match payload with
  | .sectionBegin label => { w.write (openingTag label) with openTags := label.tag :: w.openTags }
  | .sectionEnd _ =>
    match w.openTags with
    | tag :: rest => { w.write (closingTag tag) with openTags := rest }
    | [] => w
  | .sectionPoint label => w.write (openingTag label)
  | .glyph info =>
    match info.text with
    | some text => w.write (Markup.escape text)
    | none => w
  | _ => w

def beginPage (w : TagWriter) : TagWriter := w.write ("<page id=\"" ++ toString w.page ++ "\">")

def endPage (w : TagWriter) : TagWriter :=
  let closed := w.write (String.join (w.openTags.map closingTag))
  { closed.write "</page>\n" with openTags := [], page := w.page + 1 }

def writeEvents (w : TagWriter) (events : List Event) : TagWriter :=
  events.foldl (fun w e => w.event e.payload) w

/-- Writes a page from its events, up to its end if the run came to one. -/
def writePage (w : TagWriter) (page : Recording) : TagWriter :=
  let told := w.beginPage.writeEvents page.events
  if page.outcome.status = .broken then told else told.endPage

/-- Writes pages one after the other. -/
def writePages (w : TagWriter) (pages : List Recording) : TagWriter := pages.foldl writePage w

end TagWriter

end ContentStream
