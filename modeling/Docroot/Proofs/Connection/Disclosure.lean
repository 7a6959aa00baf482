import Docroot.Proofs.Connection.Lockstep
import Docroot.Proofs.Site.Likeness

/-!
What a client can learn of files outside the root. Two connections that meet the same events in trees that
differ only there go through the same steps, each with its own tree.
-/
namespace Docroot

variable {fs fs' : FileSystem}

/-- The same event with another tree. -/
def Occasion.within (files : FileSystem) (o : Occasion) : Occasion := { o with world := o.world.within files }

theorem Occasion.within_parallel (fs fs' : FileSystem) (o : Occasion) :
    (o.within fs).Parallel fs fs' (o.within fs') := ⟨rfl, rfl, rfl, rfl⟩

/-- At one date there is nothing to tell what is given apart by. -/
theorem SameBut.eq_within {server output output' : Bytes} {occasions : List Occasion}
    (same : SameButDate server (occasions.map fun o => (o.within fs, o.within fs')) output output') :
    output = output' := by
  rcases same with ⟨rfl, rfl⟩ | ⟨m, member, response, body, _, n, rfl, rfl, rfl⟩
  · rfl
  · obtain ⟨o, -, rfl⟩ := List.mem_map.mp member
    rfl

namespace Connection

variable {site : Site}

theorem counterparts_of_alike (within : FileSystem.AlikeWithin site.root fs fs')
    (listed : FileSystem.ListedAlike site.root fs fs') (text : Bytes) :
    site.Counterparts Eq site fs fs' text where
  server := rfl
  listingLimit := rfl
  found request _ _ := Target.resolve_alike within listed request.path

/-- Whatever a client sends and however it takes the response: in two trees that differ only in regular files
outside the root, where these show the same in listings that lead to them, it is given the same octets. -/
theorem discloses_nothing_outside (within : FileSystem.AlikeWithin site.root fs fs')
    (listed : FileSystem.ListedAlike site.root fs fs') (arrivals : List Arrival)
    (acceptances : List Acceptance) (peer : SocketAddress) (limits : Limits) (now : Nat)
    (occasions : List Occasion) :
    let c := start (.fresh arrivals acceptances) peer limits now
    (c.history site (occasions.map (.within fs))).connection.stream.output =
      (c.history site (occasions.map (.within fs'))).connection.stream.output := by
  intro c
  let moments := occasions.map fun o => (o.within fs, o.within fs')
  have parallel : ∀ m ∈ moments, m.1.Parallel fs fs' m.2 := by
    simp only [moments, List.forall_mem_map]
    exact fun o _ => o.within_parallel fs fs'
  have counterparts := counterparts_of_alike within listed (Arrival.readable arrivals)
  have same := (histories_in_step counterparts acceptances peer limits now now parallel).1
  rw [List.map_map, List.map_map] at same
  exact same.eq_within

/-- A root with a link to a file outside of it, and one more file there. -/
def linkedOut (linked other : FileData) : FileSystem where
  root := .directory {}
    [(utf8 "w", .directory {} [(utf8 "l", .link ⟨0, 0⟩ (utf8 "/f"))]),
      (utf8 "f", .file 0), (utf8 "g", .file 1)]
  files := [linked, other]

theorem linkedOut_alike {linked other linked' other' : FileData} (readable : linked.readable = linked'.readable)
    (readable' : other.readable = other'.readable) :
    FileSystem.AlikeWithin [utf8 "w"] (linkedOut linked other) (linkedOut linked' other') := by
  refine .of_root rfl rfl ?_ ?_
  · intro number
    match number with
    | 0 => exact readable
    | 1 => exact readable'
    | _ + 2 => rfl
  · rintro _ number ⟨rest, rfl⟩ found
    rw [FileSystem.at?, Node.at?_append] at found
    cases rest with
    | nil => cases found
    | cons name rest =>
        by_cases isLink : utf8 "l" = name
        · cases rest <;> simp [linkedOut, Node.at?, Node.child?, isLink] at found
        · simp [linkedOut, Node.at?, Node.child?, isLink] at found

/-- The row for the link. -/
def linkedRow (linked : FileData) : Entry := ⟨utf8 "l", false, linked.content.length, some linked.modified⟩

theorem linkedOut_entries (linked other : FileData) :
    Listing.entries (linkedOut linked other) (utf8 "/w") = .ok [linkedRow linked] := by
  cbv

def linkingSite (limit : Nat) : Site := { root := [utf8 "w"], listingLimit := limit }

theorem linkedOut_ofRoot (linked other : FileData) (limit : Nat) :
    Site.ofRoot (linkedOut linked other) (utf8 "/w") limit = .ok (linkingSite limit) := by cbv

theorem linkedOut_list (linked other : FileData) {limit : Nat}
    (fits : (Listing.page [linkedRow linked] (utf8 "/")).length ≤ limit) :
    (linkingSite limit).list (linkedOut linked other) [utf8 "w"] (utf8 "/") =
      .ok (Listing.page [linkedRow linked] (utf8 "/")) := by
  have spelled : Location.path [utf8 "w"] = utf8 "/w" := by decide
  rw [Site.list, spelled, Listing.ofPath_of_entries (linkedOut_entries linked other)]
  exact Listing.render_of_fits fits

theorem decode_slash : Target.decode? (utf8 "/") = some (utf8 "/") :=
  Target.decode?_eq_some_iff.mpr ⟨by cbv, Utf8.isValid_iff.mp (by cbv), by decide⟩

def atStart (linked other : FileData) : World :=
  { files := linkedOut linked other, clock := 0, date := { seconds := 0 } }

/-- A client that asks for the listing of the root. -/
def listingRequest : Bytes := utf8 "GET / HTTP/1.1\r\n\r\n"

theorem linkedOut_resolve (linked other : FileData) :
    Target.resolve (linkedOut linked other) [utf8 "w"] (utf8 "/") = .ok (.directory [utf8 "w"]) := by
  unfold Target.resolve
  rw [decode_slash]
  cbv

/-- The client is given the listing. -/
theorem linkedOut_output {linked other : FileData} {limit : Nat} {page : Bytes}
    (listed : (linkingSite limit).list (linkedOut linked other) [utf8 "w"] (utf8 "/") = .ok page) :
    ((start (.fresh [.octets listingRequest] []) ⟨.v4 127 0 0 1, 80⟩ ⟨1, 0, 1⟩ 0).history (linkingSite limit)
        [⟨atStart linked other, { readable := true }⟩]).connection.stream.output =
      (Response.html page).head (atStart linked other).date.inHead (linkingSite limit).server ++ page := by
  have found : Head.terminatorOffset? listingRequest = some 14 := by cbv
  have parsed : Head.parse (listingRequest.take 14) = .ok ⟨.get, utf8 "/", utf8 "HTTP/1.1", []⟩ := by cbv
  have path : Request.path ⟨.get, utf8 "/", utf8 "HTTP/1.1", []⟩ = utf8 "/" := by decide
  exact output_of_listing _ _ _ _ _ (by decide) found parsed rfl (path ▸ linkedOut_resolve linked other) (path ▸ listed)

def hello : FileData := { content := utf8 "hello" }

/-- Shown as `5 B` or as `0 B`, a file makes pages of the same length. -/
theorem page_length :
    (Listing.page [linkedRow hello] (utf8 "/")).length = (Listing.page [linkedRow {}] (utf8 "/")).length := by
  have size : (Size.text hello.content.length).length = (Size.text 0).length := by cbv
  have row : (Listing.row (Listing.linkBase (utf8 "/")) (linkedRow hello)).length =
      (Listing.row (Listing.linkBase (utf8 "/")) (linkedRow {})).length := Listing.length_row _ _ _ size
  simp only [Listing.page_eq, List.length_append, List.flatMap_cons, List.flatMap_nil, row]

theorem pages_differ : Listing.page [linkedRow hello] (utf8 "/") ≠ Listing.page [linkedRow {}] (utf8 "/") := by
  intro same
  simp only [Listing.page_eq, List.flatMap_cons, List.flatMap_nil, List.append_nil,
    List.append_cancel_left_eq, List.append_cancel_right_eq] at same
  have size : Listing.sizeText (linkedRow hello) = Listing.sizeText (linkedRow {}) := Listing.rowText_size same
  revert size
  decide

/-- The listing of the root tells how long the file outside is. -/
theorem listing_tells_linked_length :
    ∃ limit, Site.ofRoot (linkedOut hello {}) (utf8 "/w") limit = .ok (linkingSite limit) ∧
      FileSystem.AlikeWithin (linkingSite limit).root (linkedOut hello {}) (linkedOut {} {}) ∧
      ∃ o : Occasion, let c := start (.fresh [.octets listingRequest] []) ⟨.v4 127 0 0 1, 80⟩ ⟨1, 0, 1⟩ 0
        (c.history (linkingSite limit) ([o].map (.within (linkedOut hello {})))).connection.stream.output ≠
          (c.history (linkingSite limit) ([o].map (.within (linkedOut {} {})))).connection.stream.output := by
  refine ⟨(Listing.page [linkedRow hello] (utf8 "/")).length, linkedOut_ofRoot _ _ _, linkedOut_alike rfl rfl,
    ⟨atStart {} {}, { readable := true }⟩, ?_⟩
  intro c same
  have shown := linkedOut_output (linkedOut_list hello {} (Nat.le_refl _))
  have hidden := linkedOut_output (linkedOut_list {} {} (Nat.le_of_eq page_length.symm))
  exact pages_differ (Response.page_of_output page_length ((shown.symm.trans same).trans hidden))

theorem linkedOut_listed {linked other linked' other' : FileData} (same : linked.ShownAlike linked') :
    FileSystem.ListedAlike [utf8 "w"] (linkedOut linked other) (linkedOut linked' other') := by
  rintro _ names name location number number' ⟨rest, rfl⟩ named member reached - found found'
  cases rest with
  | nil =>
      obtain rfl : [utf8 "l"] = names := Except.ok.inj named
      obtain rfl := List.mem_singleton.mp member
      have place : (linkedOut linked other).reach (Path.join (Location.path [utf8 "w"]) (utf8 "l")) =
          .ok [utf8 "f"] := by cbv
      obtain rfl : [utf8 "f"] = location := Except.ok.inj (place.symm.trans reached)
      cases found
      cases found'
      exact same
  | cons name rest =>
      exfalso
      unfold FileSystem.entryNames at named
      rw [List.singleton_append, FileSystem.at?] at named
      by_cases isLink : utf8 "l" = name
      · cases rest <;> simp [linkedOut, Node.at?, Node.child?, isLink] at named
      · simp [linkedOut, Node.at?, Node.child?, isLink] at named

def secret : FileData := { content := utf8 "secret", modified := ⟨1, 0⟩ }

/-- Neither the content of the linked file nor anything of the other one is told. -/
theorem discloses_nothing_of_secret :
    let fs := linkedOut { content := utf8 "a" } secret
    let fs' := linkedOut { content := utf8 "b" } {}
    FileSystem.AlikeWithin (linkingSite 4096).root fs fs' ∧ FileSystem.ListedAlike (linkingSite 4096).root fs fs' ∧
      ∀ o : Occasion, let c := start (.fresh [.octets listingRequest] []) ⟨.v4 127 0 0 1, 80⟩ ⟨1, 0, 1⟩ 0
        (c.history (linkingSite 4096) ([o].map (.within fs))).connection.stream.output =
          (c.history (linkingSite 4096) ([o].map (.within fs'))).connection.stream.output := by
  intro fs fs'
  have alike : FileSystem.AlikeWithin (linkingSite 4096).root fs fs' := linkedOut_alike rfl rfl
  have listed : FileSystem.ListedAlike (linkingSite 4096).root fs fs' :=
    linkedOut_listed ⟨by decide, rfl⟩
  exact ⟨alike, listed, fun o =>
    discloses_nothing_outside alike listed [.octets listingRequest] [] _ _ _ [o]⟩

end Connection

end Docroot
