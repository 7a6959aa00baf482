import Docroot.Proofs.Site.Answer
import Docroot.Proofs.Site.Links

/-!
Listings and their limit. Writes are refused by what has been written before them alone, so it makes no difference
into how many a page is cut: all of it is written, or none of it is given.
-/
namespace Docroot

namespace Site

variable {site : Site} {world : World} {request : Request} {directory : Location}

/-- A request for a directory is answered by what its listing comes to. -/
theorem answer_of_directory (isGet : request.method = .get)
    (resolved : site.resolve world.files request.path = .ok (.directory directory)) (peer : SocketAddress) :
    (site.answer world request peer).1 = site.deliver world (site.answerDirectory world request directory).1 := by
  rw [answer, isGet]
  dsimp only
  rw [resolved]

/-- A page is sent as it is, behind its head. -/
theorem deliver_html (site : Site) (world : World) (page : Bytes) (fs : FileSystem) :
    (site.deliver world (.html page)).status.code = 200 ∧
      (site.deliver world (.html page)).octets fs =
        (Response.html page).head world.date.inHead site.server ++ page :=
  ⟨rfl, List.append_nil _⟩

theorem deliver_error (site : Site) (world : World) (status : Status) (fs : FileSystem) :
    (site.deliver world (.error status)).status = status ∧
      (site.deliver world (.error status)).octets fs =
        (Response.error status).head world.date.inHead site.server ++ status.text :=
  ⟨rfl, List.append_nil _⟩

end Site

namespace Listing

variable {entries : List Entry} {path whole : Bytes} {limit wider : Nat}

/-- A page that was rendered is rendered with more room too. -/
theorem render_mono (rendered : render entries path limit = .ok whole) (more : limit ≤ wider) :
    render entries path wider = .ok whole := by
  obtain ⟨same, fits⟩ := render_ok rendered
  rw [same] at fits ⊢
  exact render_of_fits (fits.trans more)

/-- How the pieces are cut that a page is written in makes no difference. -/
theorem compose_of_flatten {pieces : List Bytes} (same : pieces.flatten = page entries path) (limit : Nat) :
    compose pieces limit = render entries path limit := by
  rw [compose_eq, same, render_eq]

section Answered

variable {site : Site} {world : World} {request : Request} {directory : Location}

theorem list_eq_render (listed : Listing.entries world.files directory.path = .ok entries) :
    site.list world.files directory path = render entries path site.listingLimit := by
  rw [Site.list, ofPath_of_entries listed]

variable (isGet : request.method = .get)
  (resolved : site.resolve world.files request.path = .ok (.directory directory))
  (listed : Listing.entries world.files directory.path = .ok entries)

include isGet resolved listed

theorem answered_whole (fits : (page entries request.path).length ≤ site.listingLimit) (peer : SocketAddress) :
    (site.answer world request peer).1 = site.deliver world (.html (page entries request.path)) := by
  rw [Site.answer_of_directory isGet resolved, Site.answerDirectory, list_eq_render listed, render_of_fits fits]

theorem answered_refused (tooLong : ¬ (page entries request.path).length ≤ site.listingLimit)
    (peer : SocketAddress) :
    (site.answer world request peer).1 = site.deliver world (.error .internalServerError) := by
  rw [Site.answer_of_directory isGet resolved, Site.answerDirectory, list_eq_render listed,
    render_of_not_fits tooLong]

end Answered

/-- A listing is the whole page where that keeps to the limit and is refused where it does not, in whatever pieces
it is written; with more room it is the same page. So a request for a directory whose entries can be read is
answered by `200` and that page, or by `500` and nothing of it. -/
theorem whole_or_refused (entries : List Entry) (path : Bytes) (limit : Nat) :
    ((page entries path).length ≤ limit → render entries path limit = .ok (page entries path)) ∧
    (limit < (page entries path).length → render entries path limit = .error .tooLong) ∧
    (∀ pieces : List Bytes, pieces.flatten = page entries path →
      compose pieces limit = render entries path limit) ∧
    (∀ wider whole, limit ≤ wider → render entries path limit = .ok whole →
      render entries path wider = .ok whole) ∧
    ∀ (site : Site) (world : World) (request : Request) (peer : SocketAddress) (directory : Location),
      site.listingLimit = limit → request.method = .get → request.path = path →
      site.resolve world.files path = .ok (.directory directory) →
      Listing.entries world.files directory.path = .ok entries →
      let answer := (site.answer world request peer).1
      ((page entries path).length ≤ limit → answer.status.code = 200 ∧ answer.octets world.files =
        (Response.html (page entries path)).head world.date.inHead site.server ++ page entries path) ∧
      (limit < (page entries path).length → answer.status.code = 500 ∧ answer.octets world.files =
        (Response.error .internalServerError).head world.date.inHead site.server ++
          Status.internalServerError.text) := by
  refine ⟨render_of_fits, fun tooLong => render_of_not_fits (Nat.not_le.mpr tooLong), ?_, ?_, ?_⟩
  · intro pieces same
    exact compose_of_flatten same limit
  · intro wider whole more rendered
    exact render_mono rendered more
  · rintro site world request peer directory rfl isGet rfl resolved listed answer
    constructor
    · intro fits
      have sent := site.deliver_html world (page entries request.path) world.files
      rwa [← answered_whole isGet resolved listed fits peer] at sent
    · intro tooLong
      obtain ⟨status, octets⟩ := site.deliver_error world .internalServerError world.files
      rw [← answered_refused isGet resolved listed (Nat.not_le.mpr tooLong) peer] at status octets
      exact ⟨congrArg Status.code status, octets⟩

/-- A tree with one file. -/
def treeOfOne : FileSystem where
  root := .directory {} [(utf8 "f", .file 0)]
  files := [{ content := utf8 "hi" }]

theorem treeOfOne_proper : treeOfOne.root.Proper :=
  .directory (List.nodup_singleton _) (by decide) (List.forall_mem_singleton.mpr (.file 0))

theorem treeOfOne_settled : treeOfOne.Settled [] := FileSystem.settled_top rfl rfl

theorem treeOfOne_resolve : Target.resolve treeOfOne [] [47] = .ok (.directory []) :=
  Target.resolve_slash treeOfOne_proper rfl treeOfOne_settled rfl (by decide)

theorem treeOfOne_reach : treeOfOne.reach (Location.path []) = .ok [] :=
  FileSystem.reach_settled treeOfOne_proper rfl treeOfOne_settled rfl (by decide)

def siteOfOne (limit : Nat) : Site := { root := [], listingLimit := limit }

def momentOfOne : World := { files := treeOfOne, clock := 0, date := { seconds := 0 } }

def requestOfOne : Request := ⟨.get, [47], utf8 "HTTP/1.1", []⟩

theorem whole_or_refused_by_one_octet :
    ∃ rows peer, let page := page rows [47]
      let answered limit := ((siteOfOne limit).answer momentOfOne requestOfOne peer).1
      Listing.entries treeOfOne (Location.path []) = .ok rows ∧ rows.length = 1 ∧
        (answered page.length).status.code = 200 ∧ (answered page.length).octets treeOfOne =
          (Response.html page).head momentOfOne.date.inHead serverName ++ page ∧
        (answered (page.length - 1)).status.code = 500 := by
  let rows := (inShownOrder [utf8 "f"]).map (entryAt treeOfOne [])
  have listed : Listing.entries treeOfOne (Location.path []) = .ok rows := by
    rw [entries_of_reach treeOfOne_reach]
    rfl
  have one : rows.length = 1 := by rw [List.length_map, inShownOrder, List.length_mergeSort]; rfl
  have isSome : 0 < (page rows [47]).length := by
    have foot : 0 < pageFoot.length := by decide
    rw [page_eq, List.length_append, List.length_append]
    omega
  let peer : SocketAddress := ⟨.v4 127 0 0 1, 80⟩
  have answers := fun limit => (whole_or_refused rows [47] limit).2.2.2.2 (siteOfOne limit) momentOfOne
    requestOfOne peer [] rfl rfl rfl treeOfOne_resolve listed
  obtain ⟨status, octets⟩ := (answers (page rows [47]).length).1 (Nat.le_refl _)
  have refused := (answers ((page rows [47]).length - 1)).2 (Nat.sub_lt isSome Nat.one_pos)
  exact ⟨rows, peer, listed, one, status, octets, refused.1⟩

end Listing

end Docroot
