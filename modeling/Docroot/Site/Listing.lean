import Docroot.FileSystem.Walk
import Docroot.Site.BoundedText
import Docroot.Site.Size
import Docroot.Text.Markup
import Docroot.Text.Percent

/-!
Listings of directories as pages. Every entry has one row, after a row that leads one level up. Links are
built on the path that was asked for, so nothing shows where the directory lies. A page is made whole
within its limit or not at all.
-/
namespace Docroot

/-- One row of a listing. -/
structure Entry where
  name : Bytes
  isDirectory : Bool
  length : Nat
  modified : Option Timestamp
  deriving DecidableEq, Repr

/-- Why there is no listing. -/
inductive ListingError where
  /-- The directory cannot be read. -/
  | unreadable (error : IoError)
  /-- The page would be longer than its limit. -/
  | tooLong
  deriving DecidableEq, Repr

def ListingError.message : ListingError → String
  | .unreadable e => "cannot read directory: " ++ e.message
  | .tooLong => "directory listing exceeds buffer limit"

namespace Listing

/-- The row for a name: what it leads to, else the entry itself, else next to nothing. -/
def entry (name : Bytes) (target itself : Except IoError Metadata) : Entry :=
  let shown := Utf8.repair name
  let found := match target, itself with
    | .ok metadata, _ => some metadata
    | .error _, .ok metadata => some metadata
    | .error _, .error _ => none
  match found with
  | some metadata => ⟨shown, metadata.kind = .directory, metadata.length, some metadata.modified⟩
  | none => ⟨shown, false, 0, none⟩

/-- The rows of the directory that a path leads to, in the order of their names. Each entry is looked at by
the path with its name behind it: both count in the length of that path, and so do the links of both. -/
def entries (fs : FileSystem) (path : Bytes) : Except IoError (List Entry) :=
  match fs.reach path with
  | .error e => .error e
  | .ok directory =>
    match fs.entryNames directory with
    | .error e => .error e
    | .ok names =>
      .ok ((names.map fun name =>
          entry name (fs.targetAt (Path.join path name)) (fs.itselfAt path directory name)).mergeSort
        fun a b => Bytes.ordered a.name b.name)

/-- A path with a slash at its front and at its end. -/
def linkBase (path : Bytes) : Bytes :=
  let base := if path.head? = some 47 then path else 47 :: path
  if base.getLast? = some 47 then base else base ++ [47]

/-- What is left of a path when its last segment is taken off: `/a/` for `/a/b/`, and `/` for `/`. -/
def parentOf (base : Bytes) : Bytes :=
  match (base.reverse.dropWhile (· == 47)).dropWhile (· != 47) with
  | [] => [47]
  | kept => kept.reverse

def pageHead : Bytes :=
  utf8 ("<!DOCTYPE html>\n<html>\n<head>\n    <meta charset=\"utf-8\">\n"
    ++ "    <title>Directory Listing</title>\n    <style>\n"
    ++ "        body \x7b font-family: Arial, sans-serif; margin: 40px; \x7d\n"
    ++ "        h1 \x7b color: #333; \x7d\n"
    ++ "        table \x7b border-collapse: collapse; width: 100%; \x7d\n"
    ++ "        th, td \x7b padding: 8px; text-align: left; border-bottom: 1px solid #ddd; \x7d\n"
    ++ "        tr:hover \x7b background-color: #f5f5f5; \x7d\n"
    ++ "        a \x7b text-decoration: none; color: #0066cc; \x7d\n"
    ++ "        a:hover \x7b text-decoration: underline; \x7d\n"
    ++ "        .size \x7b text-align: right; \x7d\n"
    ++ "        .dir \x7b font-weight: bold; \x7d\n"
    ++ "    </style>\n</head>\n<body>\n")

/-- The heading and the start of the table. -/
def heading (base : Bytes) : Bytes :=
  utf8 "    <h1>Directory Listing: " ++ Markup.escapeText (Utf8.repair (Percent.decode base))
    ++ utf8 "</h1>\n    <table>\n"

def columns : Bytes :=
  utf8 ("        <tr>\n            <th>Name</th>\n            <th>Size</th>\n"
    ++ "            <th>Modified</th>\n        </tr>\n")

/-- A row of the table. The texts stand as they are, the link is escaped here. -/
def rowText (mark link shown size modified : Bytes) : Bytes :=
  utf8 "        <tr>\n            <td class=\"" ++ mark ++ utf8 "\"><a href=\""
    ++ Markup.escapeAttribute link ++ utf8 "\">" ++ shown
    ++ utf8 "</a></td>\n            <td class=\"size\">" ++ size
    ++ utf8 "</td>\n            <td>" ++ modified ++ utf8 "</td>\n        </tr>\n"

/-- The row that leads one level up. -/
def parentRow (base : Bytes) : Bytes :=
  rowText (utf8 "dir") (parentOf base) (utf8 "..") (utf8 "-") (utf8 "-")

def slash (e : Entry) : Bytes := if e.isDirectory then [47] else []

def link (base : Bytes) (e : Entry) : Bytes := base ++ Percent.encodeSegment e.name ++ slash e

def sizeText (e : Entry) : Bytes := if e.isDirectory then utf8 "-" else Size.text e.length

def timeText (e : Entry) : Bytes := (e.modified.map Timestamp.listed).getD (utf8 "-")

def row (base : Bytes) (e : Entry) : Bytes :=
  rowText (if e.isDirectory then utf8 "dir" else []) (link base e)
    (Markup.escapeText e.name ++ slash e) (sizeText e) (timeText e)

def pageFoot : Bytes := utf8 "    </table>\n</body>\n</html>\n"

/-- The parts of a page in their order. -/
def parts (entries : List Entry) (path : Bytes) : List Bytes :=
  let base := linkBase path
  pageHead :: heading base :: columns :: parentRow base :: (entries.map (row base) ++ [pageFoot])

/-- The page for some rows, as it would be without a limit. -/
def page (entries : List Entry) (path : Bytes) : Bytes := (parts entries path).flatten

/-- The text of all parts, within a limit. -/
def compose (parts : List Bytes) (limit : Nat) : Except ListingError Bytes :=
  match ({ limit } : BoundedText).writeAll parts with
  | (true, whole) => .ok whole.text
  | (false, _) => .error .tooLong

/-- The page for some rows, within a limit. -/
def render (entries : List Entry) (path : Bytes) (limit : Nat) : Except ListingError Bytes :=
  compose (parts entries path) limit

/-- The page of the directory that a path leads to, for the path that was asked for. -/
def ofPath (fs : FileSystem) (path requestPath : Bytes) (limit : Nat) : Except ListingError Bytes :=
  match entries fs path with
  | .ok rows => render rows requestPath limit
  | .error e => .error (.unreadable e)

end Listing

end Docroot
