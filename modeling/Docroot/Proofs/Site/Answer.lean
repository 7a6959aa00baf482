import Docroot.Proofs.Message.Delivery
import Docroot.Proofs.Message.Framing
import Docroot.Proofs.Site.Containment
import Docroot.Site.Answer

/-!
What an answer is: the page of the directory that was asked for, the file that was asked for, or a refusal
whose page is the text of its status. Which of them it is follows from what was read of the client's head.
Each announces the length of its body.
-/
namespace Docroot.Site

/-- The refusals of a site in a world, each with what makes it refuse. -/
inductive Refuses (site : Site) (world : World) : Except HeadError Request → Status → Prop
  | unread (e : HeadError) : Refuses site world (.error e) .badRequest
  | method {request : Request} {token : Bytes} : request.method = .other token →
      Refuses site world (.ok request) .methodNotAllowed
  | forbidden {request : Request} : request.method = .get →
      site.resolve world.files request.path = .error .forbidden → Refuses site world (.ok request) .forbidden
  | notFound {request : Request} : request.method = .get →
      site.resolve world.files request.path = .error .notFound → Refuses site world (.ok request) .notFound
  | tooLong {request : Request} {directory : Location} : request.method = .get →
      site.resolve world.files request.path = .ok (.directory directory) →
      site.list world.files directory request.path = .error .tooLong →
      Refuses site world (.ok request) .internalServerError
  | denied {request : Request} {directory : Location} {e : IoError} : request.method = .get →
      site.resolve world.files request.path = .ok (.directory directory) →
      site.list world.files directory request.path = .error (.unreadable e) → e.kind = .permissionDenied →
      Refuses site world (.ok request) .forbidden
  | unreadable {request : Request} {directory : Location} {e : IoError} : request.method = .get →
      site.resolve world.files request.path = .ok (.directory directory) →
      site.list world.files directory request.path = .error (.unreadable e) → e.kind ≠ .permissionDenied →
      Refuses site world (.ok request) .internalServerError

/-- The response that a site gives in a world to what was read of a head. -/
inductive Reply (site : Site) (world : World) : Except HeadError Request → Delivery → Prop
  | page {request : Request} {page : Bytes} {directory : Location} : request.method = .get →
      site.resolve world.files request.path = .ok (.directory directory) →
      site.list world.files directory request.path = .ok page →
      Reply site world (.ok request) (site.deliver world (.html page))
  | file {request : Request} {location : Location} {handle : Handle} {length : Nat} : request.method = .get →
      site.resolve world.files request.path = .ok (.file location handle length) →
      Reply site world (.ok request) (.ofFile world.date.inHead site.server
        (Response.fileHead (MediaType.ofPath location.path) length) handle length)
  | refusal {sent : Except HeadError Request} {status : Status} : site.Refuses world sent status →
      Reply site world sent (site.deliver world (.error status))

theorem answerDirectory_reply {site : Site} {world : World} {request : Request} {directory : Location}
    (isGet : request.method = .get)
    (resolved : site.resolve world.files request.path = .ok (.directory directory)) :
    site.Reply world (.ok request) (site.deliver world (site.answerDirectory world request directory).1) := by
  unfold answerDirectory
  split
  · next page listed =>
    dsimp only
    exact .page isGet resolved listed
  · next listed =>
    dsimp only
    exact .refusal (.tooLong isGet resolved listed)
  · next e listed =>
    split
    · next denied =>
      dsimp only
      exact .refusal (.denied isGet resolved listed denied)
    · next other =>
      dsimp only
      exact .refusal (.unreadable isGet resolved listed other)

theorem answer_reply (site : Site) (world : World) (request : Request) (peer : SocketAddress) :
    site.Reply world (.ok request) (site.answer world request peer).1 := by
  unfold answer
  split
  · next token isOther =>
    dsimp only
    exact .refusal (.method isOther)
  · next isGet =>
    split
    · next resolved =>
      dsimp only
      exact .refusal (.forbidden isGet resolved)
    · next resolved =>
      dsimp only
      exact .refusal (.notFound isGet resolved)
    · next directory resolved =>
      exact answerDirectory_reply isGet resolved
    · next location handle length resolved =>
      dsimp only
      exact .file isGet resolved

section Reply

variable {site : Site} {world : World} {sent : Except HeadError Request} {d : Delivery}

theorem Reply.pending_ne_nil (reply : site.Reply world sent d) : d.pending ≠ [] := by
  cases reply with
  | page | refusal => exact List.append_ne_nil_of_left_ne_nil (Response.head_ne_nil _ _ _) _
  | file => exact Response.head_ne_nil _ _ _

theorem Reply.readable (reply : site.Reply world sent d) :
    ∀ handle remaining, d.file = some (handle, remaining) →
      handle.turns = [] ∧ remaining ≤ (handle.ahead world.files).length := by
  cases reply with
  | page | refusal => exact nofun
  | file _ resolved =>
      rintro _ _ ⟨⟩
      obtain ⟨noTurns, length⟩ := Target.resolve_file resolved
      exact ⟨noTurns, Nat.le_of_eq length⟩

/-- The status and the body that a site gives in a world to what was read of a head: the page for the path
that was asked for, the content of the file that was opened for it, or the text of the status that is
forced. -/
inductive Content (site : Site) (world : World) : Except HeadError Request → Status → Bytes → Prop
  | page {request : Request} {page : Bytes} {directory : Location} : request.method = .get →
      site.resolve world.files request.path = .ok (.directory directory) →
      site.list world.files directory request.path = .ok page → Content site world (.ok request) .ok page
  | file {request : Request} {location : Location} {handle : Handle} {length : Nat} : request.method = .get →
      site.resolve world.files request.path = .ok (.file location handle length) →
      Content site world (.ok request) .ok (world.files.data handle.number).content
  | refusal {sent : Except HeadError Request} {status : Status} : site.Refuses world sent status →
      Content site world sent status status.text

/-- A response is sent whole when all that was announced of its file has been read. -/
theorem Reply.sequence {loaded : Bytes} (reply : site.Reply world sent d)
    (whole : loaded.length = d.unreadFile) (front : loaded <+: d.ahead world.files) :
    ∃ (response : Response) (type body : Bytes),
      d.sequence loaded = response.head world.date.inHead site.server ++ body ∧
      response.headers = Response.announcing type body.length ∧ type.Plain ∧
      site.Content world sent response.status body ∧
      ∀ handle length, d.file = some (handle, length) → body = (world.files.data handle.number).content := by
  cases reply with
  | @page request page directory isGet resolved listed =>
      refine ⟨.html page, utf8 "text/html", page, ?_, Response.build_headers _ _ _, by decide +kernel,
        .page isGet resolved listed, nofun⟩
      exact Delivery.sequence_ofResponse _ _ _ _
  | @file request location handle length isGet resolved =>
      obtain ⟨-, -, number, -, isLength, isNumber, isFront, -⟩ := Target.resolve_ok resolved
      change loaded.length = length at whole
      change loaded <+: (world.files.data handle.number).content.drop handle.offset at front
      rw [isFront, List.drop_zero] at front
      have content : loaded = (world.files.data handle.number).content :=
        front.eq_of_length (by rw [whole, isLength, isNumber])
      refine ⟨Response.fileHead (MediaType.ofPath location.path) length, MediaType.ofPath location.path,
        loaded, ?_, ?_, MediaType.plain_ofPath _, content ▸ .file isGet resolved, ?_⟩
      · rw [Delivery.sequence_ofFile, List.take_of_length_le (Nat.le_of_eq whole)]
      · rw [whole]
        exact Response.fileHead_headers _ _
      · rintro _ _ ⟨⟩
        exact content
  | @refusal _ status refuses =>
      refine ⟨.error status, utf8 "text/html", status.text, ?_, Response.build_headers _ _ _, by decide +kernel,
        .refusal refuses, nofun⟩
      exact Delivery.sequence_ofResponse _ _ _ _

end Reply

theorem octets_deliver (site : Site) (fs : FileSystem) (response : Response) :
    ∃ before behind, ∀ world : World,
      (site.deliver world response).octets fs = before ++ world.date.inHead ++ behind := by
  obtain ⟨before, behind, around⟩ := response.head_around_date site.server
  refine ⟨before, behind ++ response.body, ?_⟩
  intro world
  change response.head world.date.inHead site.server ++ response.body ++ [] = _
  rw [around, List.append_nil, List.append_assoc _ behind]

theorem octets_ofFile (server : Bytes) (fs : FileSystem) (response : Response) (handle : Handle) (length : Nat) :
    ∃ before behind, ∀ world : World,
      (Delivery.ofFile world.date.inHead server response handle length).octets fs =
        before ++ world.date.inHead ++ behind := by
  obtain ⟨before, behind, around⟩ := response.head_around_date server
  refine ⟨before, behind ++ (handle.ahead fs).take length, ?_⟩
  intro world
  change response.head world.date.inHead server ++ (handle.ahead fs).take length = _
  rw [around, List.append_assoc _ behind]

theorem answerDirectory_by_path (site : Site) (fs : FileSystem) (path : Bytes) (directory : Location) :
    ∃ response, ∀ (world : World) (request : Request), world.files = fs → request.path = path →
      (site.answerDirectory world request directory).1 = response := by
  cases listed : site.list fs directory path with
  | ok page =>
      refine ⟨.html page, ?_⟩
      rintro world request rfl rfl
      rw [answerDirectory, listed]
  | error e =>
      cases e with
      | tooLong =>
          refine ⟨.error .internalServerError, ?_⟩
          rintro world request rfl rfl
          rw [answerDirectory, listed]
      | unreadable e =>
          refine ⟨if e.kind = .permissionDenied then .error .forbidden else .error .internalServerError, ?_⟩
          rintro world request rfl rfl
          rw [answerDirectory, listed]
          dsimp only
          split <;> rfl

/-- What is answered is determined by the method and the path of a request, and by the date. -/
theorem answer_by_method_and_path (site : Site) (fs : FileSystem) (method : Method) (path : Bytes) :
    ∃ before behind, ∀ (world : World) (request : Request) (peer : SocketAddress), world.files = fs →
      request.method = method → request.path = path →
        (site.answer world request peer).1.octets fs = before ++ world.date.inHead ++ behind := by
  cases method with
  | other token =>
      obtain ⟨before, behind, around⟩ := site.octets_deliver fs (.error .methodNotAllowed)
      refine ⟨before, behind, ?_⟩
      rintro world request peer rfl isOther -
      rw [answer, isOther]
      exact around world
  | get =>
      cases resolved : site.resolve fs path with
      | error e =>
          obtain ⟨before, behind, around⟩ := site.octets_deliver fs
            (.error (match e with | .forbidden => .forbidden | .notFound => .notFound))
          refine ⟨before, behind, ?_⟩
          rintro world request peer rfl isGet rfl
          rw [answer, isGet]
          dsimp only
          rw [resolved]
          cases e <;> exact around world
      | ok target =>
          cases target with
          | file location handle length =>
              obtain ⟨before, behind, around⟩ := octets_ofFile site.server fs
                (Response.fileHead (MediaType.ofPath location.path) length) handle length
              refine ⟨before, behind, ?_⟩
              rintro world request peer rfl isGet rfl
              rw [answer, isGet]
              dsimp only
              rw [resolved]
              exact around world
          | directory directory =>
              obtain ⟨response, listed⟩ := site.answerDirectory_by_path fs path directory
              obtain ⟨before, behind, around⟩ := site.octets_deliver fs response
              refine ⟨before, behind, ?_⟩
              rintro world request peer rfl isGet rfl
              rw [answer, isGet]
              dsimp only
              rw [resolved]
              dsimp only
              rw [listed world request rfl rfl]
              exact around world

end Docroot.Site
