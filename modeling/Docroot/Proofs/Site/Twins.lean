import Docroot.Proofs.FileSystem.Likeness
import Docroot.Proofs.Message.Framing
import Docroot.Proofs.Message.Likeness
import Docroot.Proofs.Site.Listing
import Docroot.Site.Answer

/-!
Two sites with the same to say. Where they find the same for a request, each in its own tree, they answer it by
one response, told apart by the date and by whatever their pages may differ in, and report the same.
-/
namespace Docroot

/-- One response begun in two worlds, with a body that is alike or with its file in each. -/
inductive Delivery.Twins (bodies : Bytes → Bytes → Prop) (server : Bytes) (world world' : World) :
    Delivery → Delivery → Prop
  | memory (response : Response) {body : Bytes} : bodies response.body body → response.body.length = body.length →
      Twins bodies server world world' (.ofResponse world.date.inHead server response)
        (.ofResponse world'.date.inHead server { response with body })
  | file (response : Response) {handle handle' : Handle} (length : Nat) :
      Handle.Alike world.files world'.files handle handle' → Twins bodies server world world'
        (.ofFile world.date.inHead server response handle length)
        (.ofFile world'.date.inHead server response handle' length)

theorem Response.head_with_body (response : Response) (body date server : Bytes) :
    head date server { response with body } = response.head date server :=
  head_eq_of_headers rfl rfl date server

/-- Pages of one length are announced alike. -/
theorem Response.html_of_length {page page' : Bytes} (length : page.length = page'.length) :
    Response.html page' = { Response.html page with body := page' } := by
  have headers : (html page').headers = (html page).headers := by
    rw [html, build_headers, html, build_headers, length]
  change Response.mk .ok (html page').headers page' = _
  rw [headers]
  rfl

/-- Two pages of one length come after the same head. -/
theorem Response.page_of_output {page page' date server : Bytes} (length : page.length = page'.length)
    (same : (Response.html page).head date server ++ page = (Response.html page').head date server ++ page') :
    page = page' := by
  have heads : (Response.html page').head date server = (Response.html page).head date server := by
    rw [html_of_length length, head_with_body]
  rw [heads] at same
  exact List.append_cancel_left same

theorem Delivery.octets_ofResponse (fs : FileSystem) (date server : Bytes) (response : Response) :
    (ofResponse date server response).octets fs = response.head date server ++ response.body :=
  List.append_nil _

namespace Delivery.Twins

variable {bodies : Bytes → Bytes → Prop} {server : Bytes} {world world' : World} {d d' : Delivery}

/-- Dates of one length make responses that are sent alike. -/
theorem alike (twins : Twins bodies server world world' d d')
    (dates : world.date.inHead.length = world'.date.inHead.length) : Alike world.files world'.files d d' := by
  have heads : ∀ response : Response, (response.head world.date.inHead server).length =
      (response.head world'.date.inHead server).length := by
    intro response
    obtain ⟨before, behind, around⟩ := response.head_around_date server
    simp only [around, List.length_append, dates]
  cases twins with
  | @memory response body _ length =>
      constructor <;> dsimp only [ofResponse]
      · rw [List.length_append, List.length_append, length, response.head_with_body body, heads]
      · exact .none
      · exact length
  | file response length handles =>
      constructor <;> dsimp only [ofFile]
      · exact heads response
      · exact .some ⟨handles, rfl⟩

theorem octets [Std.Refl bodies] (twins : Twins bodies server world world' d d') :
    ∃ (response : Response) (body body' : Bytes), bodies body body' ∧
      d.octets world.files = response.head world.date.inHead server ++ body ∧
        d'.octets world'.files = response.head world'.date.inHead server ++ body' := by
  cases twins with
  | @memory response body same _ =>
      refine ⟨response, response.body, body, same, ?_, ?_⟩
      · exact octets_ofResponse _ _ _ _
      · rw [octets_ofResponse, response.head_with_body body]
  | @file response handle handle' length handles =>
      refine ⟨response, (handle.ahead world.files).take length, _, Std.Refl.refl _, rfl, ?_⟩
      have ahead : handle.ahead world.files = handle'.ahead world'.files := by
        rw [Handle.ahead, handles.data, handles.offset, Handle.ahead]
      rw [ahead]
      rfl

end Delivery.Twins

/-- What is found in two trees: the same error, directories whose listings are alike, or files of one type with the
same to be read from them. -/
inductive Target.Alike (bodies : Bytes → Bytes → Prop) (fs fs' : FileSystem) :
    Except TargetError Target → Except TargetError Target → Prop
  | error (e : TargetError) : Alike bodies fs fs' (.error e) (.error e)
  | directory {place place' : Location}
      (listed : ∀ path limit, Listing.Alike bodies (Listing.ofPath fs place.path path limit)
        (Listing.ofPath fs' place'.path path limit)) :
      Alike bodies fs fs' (.ok (.directory place)) (.ok (.directory place'))
  | file {place place' : Location} {handle handle' : Handle} (length : Nat)
      (type : MediaType.ofPath place.path = MediaType.ofPath place'.path)
      (handles : Handle.Alike fs fs' handle handle') :
      Alike bodies fs fs' (.ok (.file place handle length)) (.ok (.file place' handle' length))

namespace Site

/-- Sites that are of one server and one limit. -/
structure Akin (site site' : Site) : Prop where
  server : site.server = site'.server
  listingLimit : site.listingLimit = site'.listingLimit

variable {bodies : Bytes → Bytes → Prop} [Std.Refl bodies] {site site' : Site} {world world' : World}
  {request : Request}

theorem Akin.deliver (akin : site.Akin site') (response : Response) :
    Delivery.Twins bodies site.server world world' (site.deliver world response) (site'.deliver world' response) := by
  rw [Site.deliver, Site.deliver, ← akin.server]
  exact .memory response (Std.Refl.refl _) rfl

theorem Akin.answerDirectory (akin : site.Akin site') {place place' : Location}
    (listed : ∀ path limit, Listing.Alike bodies (Listing.ofPath world.files place.path path limit)
      (Listing.ofPath world'.files place'.path path limit)) :
    Delivery.Twins bodies site.server world world'
        (site.deliver world (site.answerDirectory world request place).1)
        (site'.deliver world' (site'.answerDirectory world' request place').1) ∧
      (site.answerDirectory world request place).2 = (site'.answerDirectory world' request place').2 := by
  have listed := listed request.path site.listingLimit
  unfold Site.answerDirectory Site.list
  rw [← akin.listingLimit]
  generalize Listing.ofPath world.files place.path _ _ = listing,
    Listing.ofPath world'.files place'.path _ _ = listing' at listed
  cases listed with
  | error e =>
      refine ⟨?_, rfl⟩
      exact akin.deliver _
  | page same length =>
      refine ⟨?_, rfl⟩
      dsimp only
      rw [Response.html_of_length length, Site.deliver, Site.deliver, ← akin.server]
      exact .memory _ same length

/-- Where the sites find the same, they give the same response and report the same. -/
theorem Akin.answer (akin : site.Akin site')
    (found : Target.Alike bodies world.files world'.files (site.resolve world.files request.path)
      (site'.resolve world'.files request.path)) (peer : SocketAddress) :
    Delivery.Twins bodies site.server world world' (site.answer world request peer).1
        (site'.answer world' request peer).1 ∧
      (site.answer world request peer).2 = (site'.answer world' request peer).2 := by
  unfold Site.answer
  cases request.method with
  | other token => exact ⟨akin.deliver _, rfl⟩
  | get =>
      dsimp only
      generalize site.resolve world.files request.path = target,
        site'.resolve world'.files request.path = target' at found
      cases found with
      | error e => cases e <;> exact ⟨akin.deliver _, rfl⟩
      | directory listed => exact akin.answerDirectory listed
      | file length type handles =>
          dsimp only
          rw [type, ← akin.server]
          exact ⟨.file _ length handles, rfl⟩

end Site

end Docroot
