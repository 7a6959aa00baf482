import Docroot.Proofs.Connection.Disclosure
import Docroot.Proofs.Connection.Lockstep
import Docroot.Proofs.Site.Relocation
import Docroot.Proofs.Time.Calendar

/-!
What a client can learn of where the root lies. Two copies of a directory that are served from different places answer
alike, octet by octet, and what is reported names neither place. What chance decides, the order in which a directory is
read and the one in which headers are searched, is seen only among names that are shown alike and among the names that
a request has for the client.
-/
namespace Docroot

/-- Names that the text has for the client, where it is read as a request. -/
def AgentsOf (text agent agent' : Bytes) : Prop :=
  ∃ request n, Head.read text = .ok (request, n) ∧ agent ∈ request.agents ∧ agent' ∈ request.agents

theorem Occasion.Agents.agentsOf {text agent agent' : Bytes} {o o' : Occasion} (agents : o.Agents text o' agent agent') :
    AgentsOf text agent agent' := by
  cases agents with
  | @intro request n read => exact ⟨request, n, read, request.userAgent_mem _, request.userAgent_mem _⟩

theorem Occasion.Agents.eq_of_order {text agent agent' : Bytes} {o o' : Occasion}
    (agents : o.Agents text o' agent agent') (order : o.world.headerOrder = o'.world.headerOrder) : agent = agent' := by
  cases agents with
  | intro => rw [order]

namespace Connection

/-- Copies of one directory without links are served from two places, to clients who send the same and take equally
much. As long as the request does not climb above the root and no spelling in the copies is too long, the clients are
given the same but for the date, and the same is reported. Two things are left to chance: rows for names that are shown
alike stand as their directory holds them, and a client that gives itself several names is reported under one of them,
whichever the search of the headers meets first. -/
theorem location_not_revealed {fs fs' : FileSystem} {spelling spelling' : Bytes} {listingLimit : Nat}
    {site site' : Site} (served : Site.ofRoot fs spelling listingLimit = .ok site)
    (served' : Site.ofRoot fs' spelling' listingLimit = .ok site') (proper : fs.root.Proper)
    (proper' : fs'.root.Proper) (copies : fs.Copies fs' site.root site'.root) (near : fs.Near site.root)
    (near' : fs'.Near site'.root) {arrivals : List Arrival}
    (below : ∀ request n, Head.read (Arrival.readable arrivals) = .ok (request, n) →
      Path.staysBelow 0 (Target.segments request.path) = true)
    (acceptances : List Acceptance) (peer : SocketAddress) (limits : Limits) (now now' : Nat)
    {moments : List (Occasion × Occasion)} (parallel : ∀ m ∈ moments, m.1.Parallel fs fs' m.2) :
    let c := start (.fresh arrivals acceptances) peer limits now
    let c' := start (.fresh arrivals acceptances) peer limits now'
    let output := (c.history site (moments.map Prod.fst)).connection.stream.output
    let output' := (c'.history site' (moments.map Prod.snd)).connection.stream.output
    let reports := c.reports site (moments.map Prod.fst)
    let reports' := c'.reports site' (moments.map Prod.snd)
    SameBut Listing.SameRows serverName moments output output' ∧
      (fs.HeldInOneOrder fs' site.root site'.root → SameButDate serverName moments output output') ∧
      List.Forall₂ (Event.SameBut (AgentsOf (Arrival.readable arrivals))) reports reports' ∧
      ((∀ agent agent', AgentsOf (Arrival.readable arrivals) agent agent' → agent = agent') ∨
          (∀ m ∈ moments, m.1.world.headerOrder = m.2.world.headerOrder) → reports = reports') := by
  obtain ⟨grounded, server, limit⟩ := Site.grounded_of_ofRoot served proper near
  obtain ⟨grounded', server', limit'⟩ := Site.grounded_of_ofRoot served' proper' near'
  have counterparts : ∀ {bodies}, fs.ListedBeneath bodies fs' site.root site'.root →
      site.Counterparts bodies site' fs fs' (Arrival.readable arrivals) := by
    intro bodies listed
    refine ⟨⟨server.trans server'.symm, limit.trans limit'.symm⟩, ?_⟩
    intro request n read
    exact Target.resolve_relocated copies grounded grounded' listed (below request n read)
  obtain ⟨outputs, reports⟩ := histories_in_step (counterparts (copies.listed_sameRows grounded grounded'))
    acceptances peer limits now now' parallel
  rw [server] at outputs
  refine ⟨outputs, ?_, ?_, ?_⟩
  · intro order
    have exactly := histories_in_step (counterparts (copies.listed_eq grounded grounded' order))
      acceptances peer limits now now' parallel
    rw [server] at exactly
    exact exactly.1
  · refine reports.imp fun event event' same => same.mono ?_
    rintro agent agent' ⟨m, -, agents⟩
    exact agents.agentsOf
  · intro settled
    refine Event.SameBut.eq_of_forall₂ reports ?_
    rintro agent agent' ⟨m, member, agents⟩
    rcases settled with one | orders
    · exact one agent agent' agents.agentsOf
    · exact agents.eq_of_order (orders m member)

/-- A directory and a file, to be served. -/
def shared (number : Nat) : List (Bytes × Node) := [(utf8 "d", .emptyDirectory {}), (utf8 "f", .file number)]

def sharedHere : FileSystem where
  root := .directory {} [(utf8 "a", .directory {} (shared 0))]
  files := [{ content := utf8 "hi" }]

/-- The same further down elsewhere, with another number for the file, the entries the other way round and another
size of the directory itself. -/
def sharedThere : FileSystem where
  root := .directory {} [(utf8 "b", .directory {} [(utf8 "c", .directory { size := 4096 } (shared 1).reverse)])]
  files := [{}, { content := utf8 "hi" }]

def siteHere : Site := { root := [utf8 "a"], listingLimit := 4096 }

def siteThere : Site := { root := [utf8 "b", utf8 "c"], listingLimit := 4096 }

theorem sharedHere_proper : sharedHere.root.Proper := by
  refine .directory (by decide) (by decide) (List.forall_mem_singleton.mpr ?_)
  exact .of_pair (by decide) (by decide) (by decide) (.directory (by decide) nofun nofun) (.file 0)

theorem sharedThere_proper : sharedThere.root.Proper := by
  refine .directory (by decide) (by decide) (List.forall_mem_singleton.mpr ?_)
  refine .directory (by decide) (by decide) (List.forall_mem_singleton.mpr ?_)
  exact .of_pair (by decide) (by decide) (by decide) (.file 1) (.directory (by decide) nofun nofun)

theorem ofRoot_here : Site.ofRoot sharedHere (utf8 "/a") 4096 = .ok siteHere := by cbv

theorem ofRoot_there : Site.ofRoot sharedThere (utf8 "/b/c") 4096 = .ok siteThere := by cbv

/-- A request for the root by a detour, by a client that gives no name. -/
def dotted : Bytes := utf8 "GET /d/.. HTTP/1.1\r\n\r\n"

theorem shared_flat (number : Nat) : FileSystem.Flat (shared number) ∧ FileSystem.Flat (shared number).reverse :=
  ⟨FileSystem.flat_pair (fun _ => rfl) fun _ => rfl, FileSystem.flat_pair (fun _ => rfl) fun _ => rfl⟩

theorem found_here : sharedHere.at? siteHere.root = some (.directory {} (shared 0)) := rfl

theorem found_there : sharedThere.at? siteThere.root = some (.directory { size := 4096 } (shared 1).reverse) := rfl

theorem shared_copies : sharedHere.Copies sharedThere siteHere.root siteThere.root :=
  .of_pair rfl (by decide) found_here found_there (shared_flat 0).1 (shared_flat 1).2 (.directory (.refl _)) (.file rfl)

theorem shared_near : sharedHere.Near siteHere.root ∧ sharedThere.Near siteThere.root :=
  ⟨.of_flat (shared_flat 0).1 found_here (by decide), .of_flat (shared_flat 1).2 found_there (by decide)⟩

theorem shared_order : sharedHere.HeldInOneOrder sharedThere siteHere.root siteThere.root := by
  refine .of_flat (shared_flat 0).1 (shared_flat 1).2 found_here found_there ?_
  exact Listing.inShownOrder_eq_of_perm (.swap _ _ _) (by decide +kernel)

/-- Fields come back in the opposite of the order in which they arrived. -/
def latestFirst : Headers.Order := ⟨List.reverse, List.reverse_perm⟩

/-- The client asks for the listing of the root on two days. -/
def askedHere : Occasion where
  world := { files := sharedHere, clock := 0, date := { seconds := 0 } }
  readiness := { readable := true }

def askedThere : Occasion where
  world := { files := sharedThere, clock := 7, date := { seconds := 86400 }, headerOrder := latestFirst }
  readiness := { readable := true }

theorem asked_parallel : askedHere.Parallel sharedHere sharedThere askedThere := by
  refine ⟨rfl, rfl, rfl, ?_⟩
  have here : askedHere.world.date.inHead.length = 29 := Timestamp.length_inHead (by decide) (by decide)
  have there : askedThere.world.date.inHead.length = 29 := Timestamp.length_inHead (by decide) (by decide)
  exact here.trans there.symm

def dottedRequest : Request := ⟨.get, utf8 "/d/..", utf8 "HTTP/1.1", []⟩

theorem dotted_read : Head.read (Arrival.readable [.octets dotted]) = .ok (dottedRequest, 22) := by cbv

theorem dotted_below : ∀ request n, Head.read (Arrival.readable [.octets dotted]) = .ok (request, n) →
    Path.staysBelow 0 (Target.segments request.path) = true := by
  intro request n read
  cases dotted_read.symm.trans read
  cbv

theorem dotted_one_agent : ∀ agent agent', AgentsOf (Arrival.readable [.octets dotted]) agent agent' →
    agent = agent' := by
  rintro agent agent' ⟨request, n, read, member, member'⟩
  cases dotted_read.symm.trans read
  have none : dottedRequest.agents = [utf8 "-"] := by decide
  rw [none, List.mem_singleton] at member member'
  exact member.trans member'.symm

theorem dotted_found : siteHere.resolve askedHere.world.files dottedRequest.path = .ok (.directory [utf8 "a"]) := by
  have path : dottedRequest.path = utf8 "/d/.." := by decide
  have decoded : Target.decode? (utf8 "/d/..") = some (utf8 "/d/..") :=
    Target.decode?_eq_some_iff.mpr ⟨by cbv, Utf8.isValid_iff.mp (by cbv), by decide⟩
  rw [path, Site.resolve, Target.resolve, decoded]
  cbv

def dottedPeer : SocketAddress := ⟨.v4 127 0 0 1, 80⟩

def dottedStart (now : Nat) : Connection := start (.fresh [.octets dotted] []) dottedPeer ⟨1, 0, 1⟩ now

theorem dotted_answered : ((dottedStart 0).history siteHere [askedHere]).connection.stream.output ≠ [] := by
  have found : Head.terminatorOffset? dotted = some 18 := by cbv
  have parsed : Head.parse (dotted.take 18) = .ok dottedRequest := by cbv
  have noFile : (dispatch siteHere askedHere.world dottedPeer (dotted.take 18)).1.file = none := by
    have isGet : dottedRequest.method = .get := rfl
    rw [dispatch_of_request _ _ _ parsed, Site.answer, isGet]
    dsimp only
    rw [dotted_found]
    rfl
  have output := output_of_whole siteHere askedHere.world dottedPeer ⟨1, 0, 1⟩ 0 (by decide) found noFile
  have reply := dispatch_reply siteHere askedHere.world dottedPeer (dotted.take 18)
  intro empty
  exact reply.pending_ne_nil (output.symm.trans empty)

theorem location_not_revealed_by_listing :
    ((dottedStart 0).history siteHere [askedHere]).connection.stream.output ≠ [] ∧
      SameButDate serverName [(askedHere, askedThere)]
        ((dottedStart 0).history siteHere [askedHere]).connection.stream.output
        ((dottedStart 5).history siteThere [askedThere]).connection.stream.output ∧
      (dottedStart 0).reports siteHere [askedHere] = (dottedStart 5).reports siteThere [askedThere] := by
  have parallel : ∀ m ∈ [(askedHere, askedThere)], m.1.Parallel sharedHere sharedThere m.2 :=
    List.forall_mem_singleton.mpr asked_parallel
  have told := location_not_revealed ofRoot_here ofRoot_there sharedHere_proper sharedThere_proper shared_copies
    shared_near.1 shared_near.2 dotted_below [] dottedPeer ⟨1, 0, 1⟩ 0 5 parallel
  exact ⟨dotted_answered, told.2.1 shared_order, told.2.2.2 (.inl dotted_one_agent)⟩

/-- Files whose names are no text and are shown alike. -/
def tied : List (Bytes × Node) := [([255], .file 0), ([254], .file 1)]

/-- The directory with them, under a name and in some order. -/
def tiedAt (name : Bytes) (entries : List (Bytes × Node)) : FileSystem where
  root := .directory {} [(name, .directory {} entries)]
  files := [hello, {}]

def siteAt (name : Bytes) (listingLimit : Nat) : Site := { root := [name], listingLimit }

theorem tied_proper : (tiedAt (utf8 "a") tied).root.Proper ∧ (tiedAt (utf8 "b") tied.reverse).root.Proper := by
  constructor <;> refine .directory (by decide) (by decide) (List.forall_mem_singleton.mpr ?_)
  · exact .of_pair (by decide) (by decide) (by decide) (.file 0) (.file 1)
  · exact .of_pair (by decide) (by decide) (by decide) (.file 1) (.file 0)

theorem tied_flat : FileSystem.Flat tied ∧ FileSystem.Flat tied.reverse :=
  ⟨FileSystem.flat_pair (fun _ => rfl) fun _ => rfl, FileSystem.flat_pair (fun _ => rfl) fun _ => rfl⟩

theorem tied_copies : (tiedAt (utf8 "a") tied).Copies (tiedAt (utf8 "b") tied.reverse) [utf8 "a"] [utf8 "b"] :=
  .of_pair rfl (by decide) rfl rfl tied_flat.1 tied_flat.2 (.file rfl) (.file rfl)

theorem tied_near : (tiedAt (utf8 "a") tied).Near [utf8 "a"] ∧ (tiedAt (utf8 "b") tied.reverse).Near [utf8 "b"] :=
  ⟨.of_flat tied_flat.1 rfl (by decide), .of_flat tied_flat.2 rfl (by decide)⟩

theorem ofRoot_tied (limit : Nat) :
    Site.ofRoot (tiedAt (utf8 "a") tied) (utf8 "/a") limit = .ok (siteAt (utf8 "a") limit) ∧
      Site.ofRoot (tiedAt (utf8 "b") tied.reverse) (utf8 "/b") limit = .ok (siteAt (utf8 "b") limit) := by
  constructor <;> cbv

/-- The row for a file of a length whose name is no text. -/
def tiedRow (length : Nat) : Entry := ⟨[239, 191, 189], false, length, some ⟨0, 0⟩⟩

theorem tied_entries :
    Listing.entries (tiedAt (utf8 "a") tied) (utf8 "/a") = .ok [tiedRow 5, tiedRow 0] ∧
      Listing.entries (tiedAt (utf8 "b") tied.reverse) (utf8 "/b") = .ok [tiedRow 0, tiedRow 5] := by
  constructor <;> cbv

theorem tied_resolve (limit : Nat) :
    (siteAt (utf8 "a") limit).resolve (tiedAt (utf8 "a") tied) (utf8 "/") = .ok (.directory [utf8 "a"]) ∧
      (siteAt (utf8 "b") limit).resolve (tiedAt (utf8 "b") tied.reverse) (utf8 "/") =
        .ok (.directory [utf8 "b"]) := by
  rw [Site.resolve, Site.resolve, Target.resolve, Target.resolve, decode_slash]
  constructor <;> cbv

/-- The page for the files, one way round and the other. -/
def tiedPage (length length' : Nat) : Bytes := Listing.page [tiedRow length, tiedRow length'] (utf8 "/")

theorem tiedPage_length : (tiedPage 5 0).length = (tiedPage 0 5).length := by
  refine Listing.length_page_of_perm ?_ (utf8 "/")
  exact .swap (Listing.shown (tiedRow 0)) (Listing.shown (tiedRow 5)) []

theorem tied_list {limit : Nat} (fits : (tiedPage 5 0).length ≤ limit) :
    (siteAt (utf8 "a") limit).list (tiedAt (utf8 "a") tied) [utf8 "a"] (utf8 "/") = .ok (tiedPage 5 0) ∧
      (siteAt (utf8 "b") limit).list (tiedAt (utf8 "b") tied.reverse) [utf8 "b"] (utf8 "/") =
        .ok (tiedPage 0 5) := by
  have spelled : Location.path [utf8 "a"] = utf8 "/a" := by decide
  have spelled' : Location.path [utf8 "b"] = utf8 "/b" := by decide
  rw [Site.list, Site.list, spelled, spelled', Listing.ofPath_of_entries tied_entries.1,
    Listing.ofPath_of_entries tied_entries.2]
  exact ⟨Listing.render_of_fits fits, Listing.render_of_fits (tiedPage_length ▸ fits)⟩

theorem tiedPages_differ : tiedPage 5 0 ≠ tiedPage 0 5 := by
  intro same
  rw [tiedPage, tiedPage, Listing.page_eq, Listing.page_eq] at same
  have rows := List.append_cancel_right (List.append_cancel_left same)
  simp only [List.flatMap_cons] at rows
  have lengths : (Listing.row (Listing.linkBase (utf8 "/")) (tiedRow 5)).length =
      (Listing.row (Listing.linkBase (utf8 "/")) (tiedRow 0)).length :=
    Listing.length_row _ _ _ (by cbv)
  have size : Listing.sizeText (tiedRow 5) = Listing.sizeText (tiedRow 0) :=
    Listing.rowText_size (List.append_inj_left rows lengths)
  revert size
  decide

/-- A request for the root, by a client that gives itself two names. -/
def twoNamed : Bytes := utf8 "GET / HTTP/1.1\r\nUser-Agent: a\r\nuser-agent: b\r\n\r\n"

def twoNamedRequest : Request :=
  ⟨.get, utf8 "/", utf8 "HTTP/1.1", [(utf8 "User-Agent", utf8 "a"), (utf8 "user-agent", utf8 "b")]⟩

theorem twoNamed_parse : Head.parse (twoNamed.take 44) = .ok twoNamedRequest := by cbv

/-- One moment with a directory in it and an order for headers. -/
def askedWith (files : FileSystem) (headerOrder : Headers.Order) : Occasion where
  world := { files, clock := 0, date := { seconds := 0 }, headerOrder }
  readiness := { readable := true }

def twoNamedStart : Connection := start (.fresh [.octets twoNamed] []) dottedPeer ⟨1, 1024, 1⟩ 0

theorem twoNamed_output {site : Site} {fs : FileSystem} (order : Headers.Order) {directory : Location} {page : Bytes}
    (resolved : site.resolve fs (utf8 "/") = .ok (.directory directory))
    (listed : site.list fs directory (utf8 "/") = .ok page) :
    (twoNamedStart.history site [askedWith fs order]).connection.stream.output =
      (Response.html page).head (askedWith fs order).world.date.inHead site.server ++ page := by
  have found : Head.terminatorOffset? twoNamed = some 44 := by cbv
  have path : twoNamedRequest.path = utf8 "/" := by decide
  exact output_of_listing site _ dottedPeer ⟨1, 1024, 1⟩ 0 (by decide) found twoNamed_parse rfl (path ▸ resolved)
    (path ▸ listed)

theorem twoNamed_reports (site : Site) (fs : FileSystem) (order : Headers.Order) :
    (twoNamedStart.reports site [askedWith fs order]).head? =
      some (.requestReceived dottedPeer (utf8 "GET") (utf8 "/") (twoNamedRequest.userAgent order)) := by
  have found : Head.terminatorOffset? twoNamed = some 44 := by cbv
  exact reports_of_whole site (askedWith fs order).world dottedPeer ⟨1, 1024, 1⟩ 0 (by decide) found twoNamed_parse

/-- The order in which files are held whose names are shown alike is seen in the listing, and the order in which headers
are searched in what is reported of a client that gives itself two names. -/
theorem location_told_by_order : ∃ limit,
    let fs := tiedAt (utf8 "a") tied
    let fs' := tiedAt (utf8 "b") tied.reverse
    let site := siteAt (utf8 "a") limit
    let site' := siteAt (utf8 "b") limit
    Site.ofRoot fs (utf8 "/a") limit = .ok site ∧ Site.ofRoot fs' (utf8 "/b") limit = .ok site' ∧
      fs.root.Proper ∧ fs'.root.Proper ∧ fs.Copies fs' site.root site'.root ∧ fs.Near site.root ∧
      fs'.Near site'.root ∧ (∀ request n, Head.read (Arrival.readable [.octets twoNamed]) = .ok (request, n) →
        Path.staysBelow 0 (Target.segments request.path) = true) ∧
      ∃ o o' : Occasion, o.Parallel fs fs' o' ∧ o.world.date = o'.world.date ∧
        (twoNamedStart.history site [o]).connection.stream.output ≠
          (twoNamedStart.history site' [o']).connection.stream.output ∧
        twoNamedStart.reports site [o] ≠ twoNamedStart.reports site' [o'] := by
  obtain ⟨limit, fits⟩ : ∃ limit, (tiedPage 5 0).length ≤ limit := ⟨_, Nat.le_refl _⟩
  refine ⟨limit, (ofRoot_tied limit).1, (ofRoot_tied limit).2, tied_proper.1, tied_proper.2, tied_copies, tied_near.1,
    tied_near.2, ?_,
    askedWith (tiedAt (utf8 "a") tied) .arrival, askedWith (tiedAt (utf8 "b") tied.reverse) latestFirst,
    ⟨rfl, rfl, rfl, rfl⟩, rfl, ?_, ?_⟩
  · intro request n read
    have isRead : Head.read (Arrival.readable [.octets twoNamed]) = .ok (twoNamedRequest, 48) := by cbv
    cases isRead.symm.trans read
    cbv
  · intro same
    obtain ⟨resolved, resolved'⟩ := tied_resolve limit
    obtain ⟨listed, listed'⟩ := tied_list fits
    rw [twoNamed_output _ resolved listed, twoNamed_output _ resolved' listed'] at same
    exact tiedPages_differ (Response.page_of_output tiedPage_length same)
  · intro same
    have heads := congrArg List.head? same
    rw [twoNamed_reports, twoNamed_reports] at heads
    have names : twoNamedRequest.userAgent .arrival = twoNamedRequest.userAgent latestFirst := by
      simpa using heads
    revert names
    decide

end Connection

end Docroot
