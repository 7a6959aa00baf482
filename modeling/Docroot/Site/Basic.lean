import Docroot.Site.Listing
import Docroot.Site.Target

/-!
A site: the directory that is served, and what every answer needs besides.
-/
namespace Docroot

def serverName : Bytes := utf8 "dirserve/0.1.0"

structure Site where
  root : Location
  /-- The longest listing that is sent, in octets. -/
  listingLimit : Nat
  server : Bytes := serverName
  deriving DecidableEq, Repr

structure SiteError where
  root : Bytes
  cause : IoError
  deriving DecidableEq, Repr

def SiteError.message (e : SiteError) : String :=
  "invalid root directory " ++ String.ofList (Utf8.decodeLossy e.root)

namespace Site

/-- The site of a directory, whose place is found once and for all. -/
def ofRoot (fs : FileSystem) (root : Bytes) (listingLimit : Nat) : Except SiteError Site :=
  match canonicalRoot fs root with
  | .ok location => .ok { root := location, listingLimit }
  | .error e => .error ⟨root, e⟩

def withListingLimit (site : Site) (limit : Nat) : Site := { site with listingLimit := limit }

def resolve (site : Site) (fs : FileSystem) (path : Bytes) : Except TargetError Target :=
  Target.resolve fs site.root path

def list (site : Site) (fs : FileSystem) (directory : Location) (path : Bytes) :
    Except ListingError Bytes :=
  Listing.ofPath fs directory.path path site.listingLimit

end Site

end Docroot
