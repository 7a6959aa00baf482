import Docroot.Bytes

/-!
Content types, judged by the extension of a path's last component alone.
-/
namespace Docroot.MediaType

/-- The type of what no extension names. -/
def octetStream : Bytes := utf8 "application/octet-stream"

def known : List (Bytes × Bytes) :=
  [(utf8 "html", utf8 "text/html"), (utf8 "htm", utf8 "text/html"), (utf8 "css", utf8 "text/css"),
   (utf8 "js", utf8 "application/javascript"), (utf8 "jpg", utf8 "image/jpeg"),
   (utf8 "jpeg", utf8 "image/jpeg"), (utf8 "png", utf8 "image/png"), (utf8 "gif", utf8 "image/gif"),
   (utf8 "txt", utf8 "text/plain"), (utf8 "c", utf8 "text/plain"), (utf8 "h", utf8 "text/plain"),
   (utf8 "conf", utf8 "text/plain"), (utf8 "json", utf8 "application/json"),
   (utf8 "pdf", utf8 "application/pdf")]

/-- The type for an extension without its dot, in any letter case. -/
def ofExtension (extension : Bytes) : Bytes :=
  (known.lookup extension.lower).getD octetStream

/-- The last component that names something: empty pieces between slashes and `.` are passed over. -/
def lastComponent (path : Bytes) : Bytes :=
  (((splitWhere (· == 47) path).filter fun c => c ≠ [] ∧ c ≠ [46]).getLast?).getD []

/-- What follows the last dot of a file name; a name that only starts with a dot has no extension, nor
has `..`. -/
def extension? (path : Bytes) : Option Bytes :=
  let name := lastComponent path
  if name = [46, 46] then none
  else
    let reversed := name.reverse
    let tail := reversed.takeWhile (· != 46)
    if tail.length + 1 < name.length then some tail.reverse else none

def ofPath (path : Bytes) : Bytes := ((extension? path).map ofExtension).getD octetStream

end Docroot.MediaType
