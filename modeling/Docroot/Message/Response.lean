import Docroot.Text.Decimal
import Docroot.Message.Headers

/-!
Responses and the octets of their heads. A response carries its own headers; the date, the name of the
server and the close of the connection are added when the head is written.
-/
namespace Docroot

inductive Status where
  | ok
  | badRequest
  | forbidden
  | notFound
  | methodNotAllowed
  | internalServerError
  deriving DecidableEq, Repr

namespace Status

def code : Status → Nat
  | ok => 200
  | badRequest => 400
  | forbidden => 403
  | notFound => 404
  | methodNotAllowed => 405
  | internalServerError => 500

def reason : Status → String
  | ok => "OK"
  | badRequest => "Bad Request"
  | forbidden => "Forbidden"
  | notFound => "Not Found"
  | methodNotAllowed => "Method Not Allowed"
  | internalServerError => "Internal Server Error"

def ofCode? : Nat → Option Status
  | 200 => some ok
  | 400 => some badRequest
  | 403 => some forbidden
  | 404 => some notFound
  | 405 => some methodNotAllowed
  | 500 => some internalServerError
  | _ => none

/-- Number and reason, as in a status line. -/
def text (status : Status) : Bytes := Decimal.text status.code ++ utf8 " " ++ utf8 status.reason

end Status

def contentLength : Bytes := utf8 "Content-Length"

def contentType : Bytes := utf8 "Content-Type"

/-- A response head with a body held in memory. For a file the body is empty, and its length is
announced by the header alone. -/
structure Response where
  status : Status
  headers : Headers
  body : Bytes
  deriving DecidableEq, Repr

namespace Response

/-- A response with the given headers, set one after the other. The length of the body is announced
unless one of them did so. -/
def build (status : Status) (fields : List (Bytes × Bytes)) (body : Bytes) : Response :=
  let headers := Headers.ofList fields
  let headers := match headers.get? contentLength with
    | some _ => headers
    | none => headers.set contentLength (Decimal.text body.length)
  ⟨status, headers, body⟩

def html (page : Bytes) : Response := build .ok [(contentType, utf8 "text/html")] page

/-- The head before a file of `len` octets. -/
def fileHead (type : Bytes) (len : Nat) : Response :=
  build .ok [(contentType, type), (contentLength, Decimal.text len)] []

/-- A refusal; its page is the text of the status. -/
def error (status : Status) : Response :=
  build status [(contentType, utf8 "text/html")] status.text

/-- The announced length of the body; where the header holds no number, the length of the body. -/
def announcedLength (response : Response) : Nat :=
  match response.headers.get? contentLength with
  | none => response.body.length
  | some value =>
    match Decimal.read Decimal.maxWord value with
    | .ok n => n
    | .error _ => response.body.length

def line (name value : Bytes) : Bytes := name ++ utf8 ": " ++ value ++ Bytes.crlf

/-- Names that the response's own headers may not take: they are written in another place. -/
def isReserved (name : Bytes) : Bool :=
  name == contentLength || Bytes.sameIgnoringCase name (utf8 "Connection")

/-- Status line and headers up to the blank line. The announced length comes before the response's own
other headers. -/
def head (date server : Bytes) (response : Response) : Bytes :=
  utf8 "HTTP/1.1 " ++ response.status.text ++ Bytes.crlf
    ++ line (utf8 "Date") date
    ++ line (utf8 "Server") server
    ++ line (utf8 "Connection") (utf8 "close")
    ++ ((response.headers.get? contentLength).map (line contentLength)).getD []
    ++ (response.headers.filter fun field => !isReserved field.1).flatMap
        (fun field => line field.1 field.2)
    ++ Bytes.crlf

end Response

end Docroot
