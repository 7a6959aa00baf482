import Docroot.Bytes

/-!
Character references of HTML, for text between tags and for attribute values in double quotes.
-/
namespace Docroot.Markup

/-- An octet of running text: `&`, `<` and `>` become references. -/
def textOctet (b : UInt8) : Bytes :=
  if b = 38 then utf8 "&amp;"
  else if b = 60 then utf8 "&lt;"
  else if b = 62 then utf8 "&gt;"
  else [b]

/-- An octet of an attribute value: the quote becomes a reference too. -/
def attributeOctet (b : UInt8) : Bytes := if b = 34 then utf8 "&quot;" else textOctet b

def escapeText (bs : Bytes) : Bytes := bs.flatMap textOctet

def escapeAttribute (bs : Bytes) : Bytes := bs.flatMap attributeOctet

end Docroot.Markup
