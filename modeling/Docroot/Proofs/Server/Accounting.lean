import Docroot.Proofs.Server.Isolation

/-!
No stream is lost and none is let go twice. Every stream that has been accepted is at any moment in exactly one
place: in the table, or gone in one of three ways. Once it is gone it stays gone.
-/
namespace Docroot.Server

inductive Place where
  | live (token : Nat)
  | gone (fate : Fate)
  deriving DecidableEq, Repr

def livePlaces (clients : Table Client) : List (Nat × Place) :=
  List.map (fun e => (e.2, .live e.1)) (clients.mapValues Client.serial)

def gonePlaces (departed : List Departure) : List (Nat × Place) := departed.map fun d => (d.serial, .gone d.fate)

/-- Where the accepted streams are, each known by its number. -/
def places (s : Server) : List (Nat × Place) := gonePlaces s.departed ++ livePlaces s.clients

def Fate.isClosed : Fate → Bool
  | .closed _ => true
  | _ => false

/-- The numbers of the streams that are in some place are those of the accepted ones, each once. -/
def Accounted (s : Server) : Prop := (s.places.map Prod.fst).Perm (List.range s.accepted)

variable {s s' : Server} {token serial : Nat} {client : Client} {place : Place}

section Steps

theorem livePlaces_insert (clients : Table Client) (token : Nat) (client : Client) :
    livePlaces (clients.insert token client) = livePlaces clients ++ [(client.serial, .live token)] := by
  rw [livePlaces, Table.mapValues_insert, Table.insert, List.map_append]
  rfl

theorem livePlaces_remove {clients : Table Client} (distinct : clients.tokens.Nodup)
    (found : clients.get? token = some client) :
    (livePlaces clients).Perm ((client.serial, .live token) :: livePlaces (clients.remove token)) := by
  have serials : (clients.mapValues Client.serial).get? token = some client.serial := by
    rw [Table.get?_mapValues, found, Option.map_some]
  have apart := Table.perm_remove ((Table.tokens_mapValues Client.serial).symm ▸ distinct) serials
  rw [livePlaces, livePlaces, Table.mapValues_remove]
  exact apart.map _

theorem livePlaces_update {clients : Table Client} (distinct : clients.tokens.Nodup)
    (found : clients.get? token = some client) {next : Client} (same : next.serial = client.serial) :
    livePlaces (clients.update token next) = livePlaces clients := by
  have serials : (clients.mapValues Client.serial).get? token = some next.serial := by
    rw [Table.get?_mapValues, found, Option.map_some, same]
  rw [livePlaces, Table.mapValues_update,
    Table.update_of_get? ((Table.tokens_mapValues Client.serial).symm ▸ distinct) serials]
  rfl

/-- One more stream, in whatever place, is accounted for under the next number. -/
theorem Accounted.add (accounted : s.Accounted) (grows : s'.accepted = s.accepted + 1)
    (added : s'.places.Perm ((s.accepted, place) :: s.places)) : s'.Accounted := by
  unfold Accounted at accounted ⊢
  rw [grows, List.range_succ]
  have renumbered := (added.map Prod.fst).trans (List.perm_append_singleton _ _).symm
  exact renumbered.trans (accounted.append_right _)

theorem Accounted.takesUp {now : Nat} {stream : Stream} {peer : SocketAddress} (accounted : s.Accounted)
    (takes : TakesUp s now stream peer s') : s'.Accounted := by
  cases takes with
  | refused | unregistered => exact accounted.add rfl (List.Perm.refl _)
  | admitted =>
      have added : (s.letIn now stream peer).places.Perm ((s.accepted, .live s.fresh.1) :: s.places) := by
        rw [places, letIn, livePlaces_insert, ← List.append_assoc]
        exact List.perm_append_singleton _ _
      exact accounted.add rfl added

theorem Accounted.release (accounted : s.Accounted) (agrees : s.Agrees)
    (found : s.clients.get? token = some client) (stream : Stream) :
    (s.release token client.serial stream).Accounted := by
  have apart := (livePlaces_remove agrees.distinct found).map Prod.fst
  refine List.Perm.trans ?_ accounted
  rw [places, places, List.map_append, List.map_append]
  exact List.perm_middle.symm.trans (apart.symm.append_left _)

theorem Accounted.drives {o : Occasion} {refusal : Option ErrorKind} (accounted : s.Accounted) (agrees : s.Agrees)
    (drives : Drives s token o refusal s') : s'.Accounted := by
  cases drives with
  | stale => exact accounted
  | ended found => exact accounted.release agrees found _
  | goesOn found goes =>
      have same := livePlaces_update agrees.distinct found (Client.driven_eq_some goes).1
      unfold Accounted places
      rw [same]
      exact accounted

end Steps

theorem start_accounted (site : Site) (limits : Limits) : (start site limits).Accounted := List.Perm.nil

/-- A run loses no stream. -/
theorem Leads.accounted {heard : List (Nat × Occasion)} (leads : Leads s heard s') (hasTokens : s'.HasTokens)
    (agrees : s.Agrees) (accounted : s.Accounted) : s'.Accounted := by
  refine (leads.agrees_and ?_ ?_ ?_ hasTokens agrees accounted).2
  · intro s₁ s₂ now stream peer takes _ accounted
    exact accounted.takesUp takes
  · intro s₁ s₂ token o refusal drives agrees accounted
    exact accounted.drives agrees drives
  · intro s₁ token client found agrees accounted
    exact accounted.release agrees found _

section Places

theorem mem_places_gone {fate : Fate} :
    (serial, .gone fate) ∈ s.places ↔ ∃ stream, ⟨serial, fate, stream⟩ ∈ s.departed := by
  simp only [places, gonePlaces, livePlaces, List.mem_append, List.mem_map]
  constructor
  · rintro (⟨⟨_, _, stream⟩, member, same⟩ | ⟨_, _, same⟩)
    · cases same
      exact ⟨stream, member⟩
    · cases same
  · rintro ⟨stream, member⟩
    exact .inl ⟨_, member, rfl⟩

theorem mem_places_live :
    (serial, .live token) ∈ s.places ↔ ∃ client, (token, client) ∈ s.clients ∧ client.serial = serial := by
  simp only [places, gonePlaces, livePlaces, Table.mapValues, List.mem_append, List.mem_map]
  constructor
  · rintro (⟨_, _, same⟩ | ⟨_, ⟨⟨_, client⟩, member, rfl⟩, same⟩)
    · cases same
    · cases same
      exact ⟨client, member, rfl⟩
  · rintro ⟨client, member, rfl⟩
    exact .inr ⟨_, ⟨_, member, rfl⟩, rfl⟩

theorem Accounted.nodup (accounted : s.Accounted) : (s.places.map Prod.fst).Nodup :=
  accounted.nodup_iff.mpr List.nodup_range

theorem Accounted.unique (accounted : s.Accounted) {other : Place} (here : (serial, place) ∈ s.places)
    (there : (serial, other) ∈ s.places) : other = place := by
  have same := List.inj_on_of_nodup_map accounted.nodup there here rfl
  exact congrArg Prod.snd same

theorem Accounted.somewhere (accounted : s.Accounted) (isAccepted : serial < s.accepted) :
    ∃ place, (serial, place) ∈ s.places := by
  have member := accounted.mem_iff.mpr (List.mem_range.mpr isAccepted)
  obtain ⟨⟨_, place⟩, inside, rfl⟩ := List.mem_map.mp member
  exact ⟨place, inside⟩

theorem departures_by_fate (departed : List Departure) :
    departed.length = departed.countP (·.fate = .refused) + departed.countP (·.fate = .unregistered) +
      departed.countP (·.fate.isClosed) := by
  induction departed with
  | nil => rfl
  | cons departure rest ih =>
      obtain ⟨serial, fate, stream⟩ := departure
      cases fate with
      | refused | unregistered | closed =>
          simp [ih, Fate.isClosed]
          omega

theorem Accounted.balance (accounted : s.Accounted) :
    s.accepted = s.departed.countP (·.fate = .refused) + s.departed.countP (·.fate = .unregistered) +
      s.clients.length + s.departed.countP (·.fate.isClosed) := by
  have all := accounted.length_eq
  have fates := departures_by_fate s.departed
  simp only [places, gonePlaces, livePlaces, Table.mapValues, List.length_map, List.length_append,
    List.length_range] at all
  omega

end Places

/-- A stream that has gone stays gone, and one under a token stays under it until it is closed. -/
theorem Leads.places {heard : List (Nat × Occasion)} (leads : Leads s heard s') (agrees : s.Agrees) :
    (∀ serial fate, (serial, .gone fate) ∈ s.places → (serial, .gone fate) ∈ s'.places) ∧
      ∀ serial token, (serial, .live token) ∈ s.places →
        (serial, .live token) ∈ s'.places ∨ (serial, .gone (.closed token)) ∈ s'.places := by
  refine ⟨?_, ?_⟩
  · intro serial fate gone
    obtain ⟨stream, left⟩ := mem_places_gone.mp gone
    exact mem_places_gone.mpr ⟨stream, leads.continues.departed.subset left⟩
  · intro serial token live
    obtain ⟨client, member, rfl⟩ := mem_places_live.mp live
    have fares := leads.fares rfl (Table.get?_of_mem agrees.distinct member)
    cases fares with
    | live interest found => exact .inl (mem_places_live.mpr ⟨_, Table.mem_of_get? found, rfl⟩)
    | closed early isEarly left => exact .inr (mem_places_gone.mpr ⟨_, left⟩)

section Stopping

theorem closeAll_clients (s : Server) : s.closeAll.1.clients = [] := by
  rw [closeAll, closeEach_clients]
  refine List.filter_eq_nil_iff.mpr ?_
  intro entry member
  have inUse : entry.1 ∈ s.clients.tokens := List.mem_map_of_mem member
  simpa using inUse

/-- A round with a wake-up ends the loop with no clients left. -/
theorem runAll_stops (s : Server) {round : Round} (wakes : round.wakes = true)
    (rest : List (Except ErrorKind Round)) :
    (s.runAll (.ok round :: rest)).1 = .stopped ∧ (s.runAll (.ok round :: rest)).2.1.clients = [] := by
  rw [runAll_of_wakes s wakes]
  refine ⟨rfl, ?_⟩
  rw [run, wakes]
  exact closeAll_clients _

end Stopping

/-- At every moment of a run the table is within its limit, and every accepted stream is in exactly one place. A
stream that has gone is never anywhere else again, and one in the table leaves it only by being closed. A round
with a wake-up ends the run, with every stream let go. -/
theorem streams_accounted (site : Site) (limits : Limits) (stretch : Stretch)
    (hasTokens : ((start site limits).after stretch).HasTokens) :
    let s := (start site limits).after stretch
    s.clients.length ≤ limits.maxConnections ∧
      (s.places.map Prod.fst).Nodup ∧ (∀ serial < s.accepted, ∃! place, (serial, place) ∈ s.places) ∧
      s.accepted = s.departed.countP (·.fate = .refused) + s.departed.countP (·.fate = .unregistered) +
        s.clients.length + s.departed.countP (·.fate.isClosed) ∧
      (∀ later, (s.after later).HasTokens → ∀ serial,
        (∀ fate, (serial, .gone fate) ∈ s.places →
          ∀ place, (serial, place) ∈ (s.after later).places ↔ place = .gone fate) ∧
        ∀ token, (serial, .live token) ∈ s.places → ∀ place, (serial, place) ∈ (s.after later).places →
          place = .live token ∨ place = .gone (.closed token)) ∧
      ∀ round rest, round.wakes = true →
        let ended := (s.runAll (.ok round :: rest)).2.1
        (s.runAll (.ok round :: rest)).1 = .stopped ∧ ended.clients = [] ∧
          (ended.HasTokens → ended.registry = [] ∧
            ∀ serial < ended.accepted, ∃ fate, (serial, .gone fate) ∈ ended.places) := by
  intro s
  have agrees : s.Agrees := after_agrees hasTokens
  have accounted : s.Accounted :=
    (after_leads _ stretch).accounted hasTokens (start_agrees site limits) (start_accounted site limits)
  have sameLimits : s.limits = limits := (after_leads (start site limits) stretch).continues.limits
  refine ⟨?_, accounted.nodup, ?_, accounted.balance, ?_, ?_⟩
  · rw [← sameLimits]
    exact agrees.bound.trans (Nat.min_le_left _ _)
  · intro serial isAccepted
    obtain ⟨place, here⟩ := accounted.somewhere isAccepted
    exact ⟨place, here, fun other there => accounted.unique here there⟩
  · intro later few serial
    have onward := after_leads s later
    have accounted' := onward.accounted few agrees accounted
    obtain ⟨goneStays, liveStays⟩ := onward.places agrees
    refine ⟨?_, ?_⟩
    · intro fate gone place
      have stillGone := goneStays serial fate gone
      exact ⟨fun there => accounted'.unique stillGone there, fun same => same ▸ stillGone⟩
    · intro token live place there
      rcases liveStays serial token live with stillLive | closed
      · exact .inl (accounted'.unique stillLive there)
      · exact .inr (accounted'.unique closed there)
  · intro round rest wakes ended
    obtain ⟨stopped, empty⟩ := runAll_stops s wakes rest
    refine ⟨stopped, empty, ?_⟩
    intro few
    have onward : Leads s _ ended := runAll_leads s (.ok round :: rest)
    have agrees' := onward.agrees few agrees
    refine ⟨?_, ?_⟩
    · rw [agrees'.registry, empty]
      rfl
    · intro serial isAccepted
      obtain ⟨place, here⟩ := (onward.accounted few agrees accounted).somewhere isAccepted
      cases place with
      | gone fate => exact ⟨fate, here⟩
      | live token =>
          obtain ⟨client, member, -⟩ := mem_places_live.mp here
          rw [empty] at member
          cases member

/-- One client at a time: the second stream is refused, the first one fails, the third one cannot be registered,
and the fourth one is let in. -/
def fourStreams : Stretch where
  events :=
    [(emptyWorld, .incoming [.client {} ⟨.v4 127 0 0 1, 80⟩ none, .client {} ⟨.v4 127 0 0 1, 81⟩ none]),
      (emptyWorld, .ready 2 { failed := true } none),
      (emptyWorld, .incoming [.client {} ⟨.v4 127 0 0 1, 82⟩ (some .uncategorized)]),
      (emptyWorld, .incoming [.client {} ⟨.v4 127 0 0 1, 83⟩ none])]

theorem four_streams_accounted :
    ((start anySite ⟨1, 64, 1000⟩).after fourStreams).places =
        [(2, .gone .unregistered), (0, .gone (.closed 2)), (1, .gone .refused), (3, .live 4)] ∧
      ((start anySite ⟨1, 64, 1000⟩).after fourStreams).clients.length ≤ 1 ∧
      ∃! place, (3, place) ∈ ((start anySite ⟨1, 64, 1000⟩).after fourStreams).places := by
  have hasTokens : ((start anySite ⟨1, 64, 1000⟩).after fourStreams).HasTokens :=
    (Nat.min_le_left _ _).trans (by rw [(after_leads _ fourStreams).continues.limits]; decide)
  have accounted := streams_accounted anySite ⟨1, 64, 1000⟩ fourStreams hasTokens
  have all : ((start anySite ⟨1, 64, 1000⟩).after fourStreams).accepted = 4 := by cbv
  refine ⟨by cbv, accounted.1, accounted.2.2.1 3 ?_⟩
  rw [all]
  decide

end Docroot.Server
