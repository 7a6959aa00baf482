import Docroot.Proofs.Server.Registry

/-!
Idle clients. How long the loop waits and whom a sweep closes are both judged by the deadlines in the table. They
agree because no connection in the table has closed: a sweep passes over closed ones, the wait does not.
-/
namespace Docroot.Server

variable {s : Server} {now later wait : Nat}

/-- A sweep closes the clients it has picked as any other client is closed. -/
theorem expireEach_eq (s : Server) (tokens : List Nat) : (s.expireEach tokens).1 = (s.closeEach tokens).1 := by
  induction tokens generalizing s with
  | nil => rfl
  | cons token rest ih => exact ih (s.close token).1

theorem nextTimeout_eq_some_iff :
    s.nextTimeout now = some wait ↔
      ∃ entry ∈ s.clients,
        (∀ other ∈ s.clients, entry.2.connection.deadline ≤ other.2.connection.deadline) ∧
          wait = entry.2.connection.deadline - now := by
  unfold nextTimeout
  rw [Option.map_eq_some_iff]
  simp only [List.min?_eq_some_iff, List.forall_mem_map]
  constructor
  · rintro ⟨first, ⟨isThere, least⟩, rfl⟩
    obtain ⟨entry, member, rfl⟩ := List.mem_map.mp isThere
    exact ⟨entry, member, least, rfl⟩
  · rintro ⟨entry, member, least, rfl⟩
    exact ⟨_, ⟨List.mem_map_of_mem member, least⟩, rfl⟩

theorem nextTimeout_eq_none_iff : s.nextTimeout now = none ↔ s.clients = [] := by
  rw [nextTimeout, Option.map_eq_none_iff, List.min?_eq_none_iff, List.map_eq_nil_iff]

section Agrees

variable {token : Nat} {client : Client}

/-- In the table a client is idle for too long as soon as its deadline has come. -/
theorem Agrees.isExpired_eq (agrees : s.Agrees) (member : (token, client) ∈ s.clients) (now : Nat) :
    client.connection.isExpired now = decide (client.connection.deadline ≤ now) := by
  have waits := agrees.waits token client (Table.get?_of_mem agrees.distinct member)
  have isOpen : client.connection.isClosed = false := by
    refine decide_eq_false ?_
    intro closed
    rw [Connection.interest, closed] at waits
    cases waits
  rw [Connection.isExpired, isOpen, Bool.not_false, Bool.true_and]

theorem Agrees.mem_expired_iff (agrees : s.Agrees) (member : (token, client) ∈ s.clients) :
    token ∈ s.expired now ↔ client.connection.deadline ≤ now := by
  unfold expired Table.tokens
  rw [List.mem_map]
  constructor
  · rintro ⟨⟨_, other⟩, found, rfl⟩
    obtain ⟨isThere, expired⟩ := List.mem_filter.mp found
    -- A token stands in the table once, so what was found under it is this client.
    have same : some client = some other :=
      (Table.get?_of_mem agrees.distinct member).symm.trans (Table.get?_of_mem agrees.distinct isThere)
    cases same
    rw [agrees.isExpired_eq member] at expired
    exact of_decide_eq_true expired
  · intro past
    refine ⟨(token, client), List.mem_filter.mpr ⟨member, ?_⟩, rfl⟩
    rw [agrees.isExpired_eq member]
    exact decide_eq_true past

/-- A sweep leaves those in the table whose deadline is still to come. -/
theorem Agrees.expireIdle_clients (agrees : s.Agrees) (now : Nat) :
    (s.expireIdle now).1.clients =
      List.filter (fun entry => decide (now < entry.2.connection.deadline)) s.clients := by
  rw [expireIdle, expireEach_eq, closeEach_clients]
  apply List.filter_congr
  rintro ⟨token, client⟩ member
  rw [Bool.eq_iff_iff, Bool.not_eq_true', ← Bool.not_eq_true, List.contains_iff_mem, agrees.mem_expired_iff member,
    decide_eq_true_iff, Nat.not_le]

end Agrees

/-- At every moment of a run a sweep leaves exactly the clients whose deadline is still to come, as they are. The
wait is up to the first deadline, without end if there is no client, and a sweep after the whole wait closes at
least one client. -/
theorem sweep_meets_timeout (site : Site) (limits : Limits) (stretch : Stretch)
    (hasTokens : ((start site limits).after stretch).HasTokens) (now : Nat) :
    let s := (start site limits).after stretch
    (s.expireIdle now).1.clients =
        List.filter (fun entry => decide (now < entry.2.connection.deadline)) s.clients ∧
      (s.nextTimeout now = none ↔ s.clients = []) ∧
      (∀ wait, s.nextTimeout now = some wait ↔
        ∃ entry ∈ s.clients,
          (∀ other ∈ s.clients, entry.2.connection.deadline ≤ other.2.connection.deadline) ∧
            wait = entry.2.connection.deadline - now) ∧
      ∀ wait later, s.nextTimeout now = some wait → now + wait ≤ later →
        (s.expireIdle later).1.clients.length < s.clients.length := by
  intro s
  have agrees : s.Agrees := after_agrees hasTokens
  refine ⟨agrees.expireIdle_clients now, nextTimeout_eq_none_iff, fun wait => nextTimeout_eq_some_iff, ?_⟩
  intro wait later isWait waited
  obtain ⟨entry, member, -, rfl⟩ := nextTimeout_eq_some_iff.mp isWait
  rw [agrees.expireIdle_clients, List.length_filter_lt_length_iff_exists]
  refine ⟨entry, member, ?_⟩
  rw [decide_eq_true_iff]
  omega

/-- Two clients that come one after the other. -/
def twoComers : Stretch where
  events :=
    [(emptyWorld, .incoming [.client {} ⟨.v4 127 0 0 1, 80⟩ none]),
      ({ emptyWorld with clock := 400 }, .incoming [.client {} ⟨.v4 127 0 0 1, 81⟩ none])]

/-- The loop waits for the first of them, and closes it when the wait is over. -/
theorem sweep_meets_timeout_of_first_comer :
    let s := (start anySite ⟨2, 64, 1000⟩).after twoComers
    s.nextTimeout 300 = some 700 ∧ (s.expireIdle 1000).1.clients.tokens = [3] ∧
      (s.expireIdle 1000).1.clients.length < s.clients.length := by
  intro s
  have hasTokens : s.HasTokens :=
    (Nat.min_le_left _ _).trans (by rw [(after_leads _ twoComers).continues.limits]; decide)
  have isWait : s.nextTimeout 300 = some 700 := by cbv
  obtain ⟨-, -, -, closes⟩ := sweep_meets_timeout anySite ⟨2, 64, 1000⟩ twoComers hasTokens 300
  exact ⟨isWait, by cbv, closes 700 1000 isWait (Nat.le_refl _)⟩

end Docroot.Server
