import Docroot.Event
import Docroot.Message.Delivery
import Docroot.Message.MediaType
import Docroot.Site.Basic

/-!
The answer of a site to a request. Only `GET` is served; a directory is answered by its listing, a file by
its content. Events name the path that the client sent, never the place it leads to.
-/
namespace Docroot

/-- What surrounds the server at one moment: the files, a clock in milliseconds that never goes back, the
date, and the order in which a table of headers that is made now gives its fields back. -/
structure World where
  files : FileSystem
  clock : Nat
  date : Timestamp
  headerOrder : Headers.Order := .arrival

namespace Site

def deliver (site : Site) (world : World) (response : Response) : Delivery :=
  .ofResponse world.date.inHead site.server response

/-- The response to a request for a directory, and what is reported about it. -/
def answerDirectory (site : Site) (world : World) (request : Request) (directory : Location) :
    Response × List Event :=
  match site.list world.files directory request.path with
  | .ok page => (.html page, [])
  | .error .tooLong =>
    (.error .internalServerError, [.listingTooLong request.target site.listingLimit])
  | .error (.unreadable e) =>
    if e.kind = .permissionDenied then (.error .forbidden, [])
    else (.error .internalServerError, [.listingFailed request.target e])

/-- The answer to a request, ready to be sent, and what is reported about it. -/
def answer (site : Site) (world : World) (request : Request) (peer : SocketAddress) :
    Delivery × List Event :=
  match request.method with
  | .other _ => (site.deliver world (.error .methodNotAllowed), [])
  | .get =>
    match site.resolve world.files request.path with
    | .error .forbidden =>
      (site.deliver world (.error .forbidden), [.pathForbidden peer request.target])
    | .error .notFound => (site.deliver world (.error .notFound), [])
    | .ok (.directory directory) =>
      let (response, events) := site.answerDirectory world request directory
      (site.deliver world response, events)
    | .ok (.file location handle length) =>
      let head := Response.fileHead (MediaType.ofPath location.path) length
      (.ofFile world.date.inHead site.server head handle length, [])

end Site

end Docroot
