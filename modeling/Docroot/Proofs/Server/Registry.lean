import Docroot.Proofs.Server.FreshToken
import Docroot.Proofs.Server.Run

/-!
The poll knows the clients as the table does. Between any two events it has a registration for each client and
for nobody else, and each is for what the connection waits for; a connection that has closed is not kept.
-/
namespace Docroot.Server

/-- There has been a token for every client: no more streams have come than there are tokens, or no more are let
in at once. Without a free token the search for one would not end. -/
def HasTokens (s : Server) : Prop := min s.limits.maxConnections s.accepted ≤ clientTokenCount

structure Agrees (s : Server) : Prop where
  registry : s.registry = s.clients.mapValues Client.interest
  distinct : s.clients.tokens.Nodup
  tokens : ∀ token ∈ s.clients.tokens, IsClientToken token
  next : IsClientToken s.nextToken
  waits : ∀ token client, s.clients.get? token = some client → client.connection.interest = some client.interest
  bound : s.clients.length ≤ min s.limits.maxConnections s.accepted

variable {s s' : Server} {token : Nat} {client : Client}

theorem start_agrees (site : Site) (limits : Limits) : (start site limits).Agrees where
  registry := rfl
  distinct := .nil
  tokens := nofun
  next := isClientToken_first
  waits := nofun
  bound := Nat.zero_le _

theorem HasTokens.before (hasTokens : s'.HasTokens) (continues : Continues s s') : s.HasTokens := by
  have fewer := continues.accepted
  unfold HasTokens at hasTokens ⊢
  rw [continues.limits] at hasTokens
  omega

/-- The token for the next client is not in use. -/
theorem Agrees.fresh_not_mem (agrees : s.Agrees) (room : s.clients.length < s.limits.maxConnections)
    (hasTokens : min s.limits.maxConnections (s.accepted + 1) ≤ clientTokenCount) :
    s.fresh.1 ∉ s.clients.tokens := by
  have bound := agrees.bound
  have size := Table.length_tokens s.clients
  have isFree : (freshToken s.clients.tokens s.clients.tokens.length s.nextToken).1 ∉ s.clients.tokens :=
    freshToken_not_mem agrees.next (by omega)
  rwa [size] at isFree

theorem Agrees.fresh_isClientToken (agrees : s.Agrees) : IsClientToken s.fresh.1 ∧ IsClientToken s.fresh.2 :=
  freshToken_isClientToken agrees.next _ _

theorem Agrees.letIn (agrees : s.Agrees) (room : s.clients.length < s.limits.maxConnections) (now : Nat)
    (stream : Stream) (peer : SocketAddress) (hasTokens : (s.letIn now stream peer).HasTokens) :
    (s.letIn now stream peer).Agrees := by
  have isFree := agrees.fresh_not_mem room hasTokens
  constructor
  case registry =>
    change s.registry.insert _ _ = Table.mapValues _ (s.clients.insert _ _)
    rw [Table.mapValues_insert, agrees.registry]
  case distinct =>
    change (s.clients.insert _ _).tokens.Nodup
    rw [Table.tokens_insert, ← List.concat_eq_append]
    exact agrees.distinct.concat isFree
  case tokens =>
    intro other member
    change other ∈ (s.clients.insert _ _).tokens at member
    rw [Table.tokens_insert] at member
    rcases List.mem_append.mp member with before | new
    · exact agrees.tokens other before
    · exact List.mem_singleton.mp new ▸ agrees.fresh_isClientToken.1
  case next => exact agrees.fresh_isClientToken.2
  case waits =>
    intro other client found
    change (s.clients.insert _ _).get? other = some client at found
    rcases List.mem_append.mp (Table.mem_of_get? found) with before | new
    · exact agrees.waits other client (Table.get?_of_mem agrees.distinct before)
    · cases List.mem_singleton.mp new
      rfl
  case bound =>
    change (s.clients.insert _ _).length ≤ min s.limits.maxConnections (s.accepted + 1)
    have bound := agrees.bound
    rw [Table.insert, List.length_append, List.length_singleton]
    omega

theorem Agrees.takesUp {now : Nat} {stream : Stream} {peer : SocketAddress} (agrees : s.Agrees)
    (takes : TakesUp s now stream peer s') (hasTokens : s'.HasTokens) : s'.Agrees := by
  have bound := agrees.bound
  have more : s.clients.length ≤ min s.limits.maxConnections (s.accepted + 1) := by omega
  cases takes with
  | refused full => exact ⟨agrees.registry, agrees.distinct, agrees.tokens, agrees.next, agrees.waits, more⟩
  | unregistered room =>
      exact ⟨agrees.registry, agrees.distinct, agrees.tokens, agrees.fresh_isClientToken.2, agrees.waits, more⟩
  | admitted room => exact agrees.letIn room now stream peer hasTokens

theorem Agrees.release (agrees : s.Agrees) (token serial : Nat) (stream : Stream) :
    (s.release token serial stream).Agrees := by
  have fewer : (s.clients.remove token).tokens.Sublist s.clients.tokens := List.filter_sublist.map _
  constructor
  case registry =>
    change s.registry.remove token = Table.mapValues _ (s.clients.remove token)
    rw [Table.mapValues_remove, agrees.registry]
  case distinct => exact agrees.distinct.sublist fewer
  case tokens => exact fun other member => agrees.tokens other (fewer.subset member)
  case next => exact agrees.next
  case waits =>
    intro other client found
    refine agrees.waits other client (Table.get?_of_mem agrees.distinct ?_)
    exact List.mem_of_mem_filter (Table.mem_of_get? found)
  case bound => exact (List.length_filter_le _ _).trans agrees.bound

/-- A client that goes on with what it has been registered for, or anew, agrees with the poll. -/
theorem Agrees.update {registry : Table Interest} (agrees : s.Agrees) (found : s.clients.get? token = some client)
    {next : Client} (waits : next.connection.interest = some next.interest)
    (registered : registry = s.registry.update token next.interest ∨
      registry = s.registry ∧ next.interest = client.interest) :
    Agrees { s with clients := s.clients.update token next, registry } := by
  have present := Table.mem_tokens_of_get? found
  have known : s.registry.get? token = some client.interest := by
    rw [agrees.registry, Table.get?_mapValues, found, Option.map_some]
  have distinct : s.registry.tokens.Nodup := by
    rw [agrees.registry, Table.tokens_mapValues]
    exact agrees.distinct
  have anew : registry = s.registry.update token next.interest := by
    rcases registered with anew | ⟨kept, same⟩
    · exact anew
    · rw [kept, same, Table.update_of_get? distinct known]
  constructor
  case registry =>
    change registry = Table.mapValues _ (s.clients.update token next)
    rw [Table.mapValues_update, ← agrees.registry, anew]
  case distinct => simpa using agrees.distinct
  case tokens => simpa using agrees.tokens
  case next => exact agrees.next
  case waits =>
    intro other client' found'
    by_cases same : other = token
    · rw [same] at found'
      cases (Table.get?_update_self present).symm.trans found'
      exact waits
    · exact agrees.waits other client' ((Table.get?_put_of_ne same (some next)).symm.trans found')
  case bound =>
    change (s.clients.update token next).length ≤ _
    rw [Table.update, List.length_map]
    exact agrees.bound

theorem Agrees.drives {o : Occasion} {refusal : Option ErrorKind} (agrees : s.Agrees)
    (drives : Drives s token o refusal s') : s'.Agrees := by
  cases drives with
  | stale => exact agrees
  | ended => exact agrees.release _ _ _
  | goesOn found goes registered => exact agrees.update found (Client.driven_eq_some goes).2.2 registered

/-- A run keeps the agreement, as long as it does not run out of tokens, and with it what each step keeps of a
server that agrees with the poll. -/
theorem Leads.agrees_and {P : Server → Prop}
    (takesUp : ∀ {s s' now stream peer}, TakesUp s now stream peer s' → s.Agrees → P s → P s')
    (drives : ∀ {s s' token o refusal}, Drives s token o refusal s' → s.Agrees → P s → P s')
    (releases : ∀ {s token client}, s.clients.get? token = some client → s.Agrees → P s →
      P (s.release token client.serial client.connection.stream))
    {heard : List (Nat × Occasion)} (leads : Leads s heard s') (hasTokens : s'.HasTokens) (agrees : s.Agrees)
    (holds : P s) : s'.Agrees ∧ P s' := by
  refine leads.invariant (P := fun s => s.HasTokens → s.Agrees ∧ P s) ?_ ?_ ?_ ?_ hasTokens
  · intro s₁ s₂ now stream peer takes kept hasTokens
    obtain ⟨agrees, holds⟩ := kept (hasTokens.before takes.continues)
    exact ⟨agrees.takesUp takes hasTokens, takesUp takes agrees holds⟩
  · intro s₁ s₂ token o refusal step kept hasTokens
    obtain ⟨agrees, holds⟩ := kept (hasTokens.before step.continues)
    exact ⟨agrees.drives step, drives step agrees holds⟩
  · intro s₁ token client found kept hasTokens
    obtain ⟨agrees, holds⟩ := kept hasTokens
    exact ⟨agrees.release _ _ _, releases found agrees holds⟩
  · exact fun _ => ⟨agrees, holds⟩

theorem Leads.agrees {heard : List (Nat × Occasion)} (leads : Leads s heard s') (hasTokens : s'.HasTokens)
    (agrees : s.Agrees) : s'.Agrees :=
  (leads.agrees_and (P := fun _ => True) (fun _ _ _ => trivial) (fun _ _ _ => trivial) (fun _ _ _ => trivial)
    hasTokens agrees trivial).1

theorem after_agrees {site : Site} {limits : Limits} {stretch : Stretch}
    (hasTokens : ((start site limits).after stretch).HasTokens) : ((start site limits).after stretch).Agrees :=
  (after_leads _ stretch).agrees hasTokens (start_agrees site limits)

/-- At every moment of a run the poll has exactly the tokens of the table, none of them the listener's or the
waker's, and each connection is open and registered for what it waits for. -/
theorem registry_agrees (site : Site) (limits : Limits) (stretch : Stretch)
    (hasTokens : ((start site limits).after stretch).HasTokens) :
    let s := (start site limits).after stretch
    s.registry.tokens = s.clients.tokens ∧ s.clients.tokens.Nodup ∧
      (∀ token ∈ s.clients.tokens, 2 ≤ token ∧ token ≠ listenerToken ∧ token ≠ wakerToken) ∧
      ∀ token client, (token, client) ∈ s.clients →
        client.connection.phase ≠ .closed ∧ s.registry.get? token = some client.interest ∧
          client.connection.interest = some client.interest := by
  intro s
  have agrees : s.Agrees := after_agrees hasTokens
  refine ⟨?_, agrees.distinct, ?_, ?_⟩
  · rw [agrees.registry, Table.tokens_mapValues]
  · intro token member
    have low : 2 ≤ token := (agrees.tokens token member).first_le
    refine ⟨low, ?_, ?_⟩
    · unfold listenerToken
      omega
    · unfold wakerToken
      omega
  · intro token client member
    have found := Table.get?_of_mem agrees.distinct member
    have waits := agrees.waits token client found
    refine ⟨?_, ?_, waits⟩
    · intro closed
      rw [Connection.interest, closed] at waits
      cases waits
    · rw [agrees.registry, Table.get?_mapValues, found, Option.map_some]

def anySite : Site := { root := [], listingLimit := 0 }

def emptyWorld : World := { files := { root := .directory {} [] }, clock := 0, date := ⟨0, 0⟩ }

/-- Two clients come together; one fails, and the same batch has another event for it. -/
def staleStretch : Stretch where
  events :=
    [(emptyWorld, .incoming [.client {} ⟨.v4 127 0 0 1, 80⟩ none, .client {} ⟨.v4 127 0 0 1, 81⟩ none]),
      (emptyWorld, .ready 2 { failed := true } none), (emptyWorld, .ready 2 { writable := true } none)]

theorem registry_agrees_after_stale_event :
    ((start anySite ⟨2, 64, 1000⟩).after staleStretch).clients.tokens = [3] ∧
      ((start anySite ⟨2, 64, 1000⟩).after staleStretch).registry.tokens = [3] := by
  have tokens : ((start anySite ⟨2, 64, 1000⟩).after staleStretch).clients.tokens = [3] := by cbv
  have hasTokens : ((start anySite ⟨2, 64, 1000⟩).after staleStretch).HasTokens :=
    (Nat.min_le_left _ _).trans (by rw [(after_leads _ staleStretch).continues.limits]; decide)
  exact ⟨tokens, (registry_agrees anySite ⟨2, 64, 1000⟩ staleStretch hasTokens).1.trans tokens⟩

end Docroot.Server
