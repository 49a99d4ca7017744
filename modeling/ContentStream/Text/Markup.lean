/-!
# Text inside markup

The characters that mean something in markup are written as character references, so that no text
can open or close a tag or an attribute. Which references these are is a convention
(`Markup.Conventions`).
-/

namespace ContentStream.Markup

/-- A character as it stands inside a quoted attribute or between tags. -/
def escapeChar : Char → String
  | '&' => "&amp;"
  | '<' => "&lt;"
  | '>' => "&gt;"
  | '"' => "&quot;"
  | '\'' => "&#x27;"
  | c => c.toString

def escape (text : String) : String := String.join (text.toList.map escapeChar)

end ContentStream.Markup
