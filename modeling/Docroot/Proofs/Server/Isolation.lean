import Docroot.Proofs.Server.Registry

/-!
Clients do not meet. Whatever else a server does, a connection in its table is what it would be if it were alone
and had been handed only the events for its token; an event changes nothing but the client that it is for.
-/
namespace Docroot

theorem Connection.history_connection (site : Site) (c : Connection) (occasions : List Occasion) :
    (c.history site occasions).connection = occasions.foldl (Connection.handle site) c := by
  have follows : ∀ h : History, (occasions.foldl (History.next site) h).connection =
      occasions.foldl (Connection.handle site) h.connection := by
    induction occasions with
    | nil => exact fun h => rfl
    | cons o rest ih => exact fun h => ih (h.next site o)
  exact follows _

namespace Server

variable {s s' : Server} {site : Site} {token serial : Nat} {connection : Connection} {o : Occasion}
  {heard : List Occasion}

/-- What has become of a client when it has been handed the events `heard`: it is in the table as it would be
alone, or it has been closed after some of them, and its stream was let go as it would be then. -/
inductive Fares (site : Site) (token serial : Nat) (connection : Connection) (heard : List Occasion)
    (s : Server) : Prop where
  | live (interest : Interest)
      (found : s.clients.get? token = some ⟨serial, (connection.history site heard).connection, interest⟩)
  | closed (early : List Occasion) (isEarly : early <+: heard)
      (left : ⟨serial, .closed token, (connection.history site early).connection.stream⟩ ∈ s.departed)

theorem Fares.handed (fares : Fares site token serial (connection.handle site o) heard s) :
    Fares site token serial connection (o :: heard) s := by
  have onward : ∀ later, ((connection.handle site o).history site later).connection =
      (connection.history site (o :: later)).connection := by
    intro later
    rw [Connection.history_connection, Connection.history_connection, List.foldl_cons]
  cases fares with
  | live interest found => exact .live interest (onward heard ▸ found)
  | closed early isEarly left =>
      exact .closed (o :: early) (List.cons_prefix_cons.mpr ⟨rfl, isEarly⟩) (onward early ▸ left)

theorem Fares.of_departed (continues : Continues s s')
    (left : ⟨serial, .closed token, connection.stream⟩ ∈ s.departed) :
    Fares site token serial connection heard s' :=
  .closed [] List.nil_prefix (continues.departed.subset left)

theorem occasionsOf_cons_self (token : Nat) (o : Occasion) (rest : List (Nat × Occasion)) :
    occasionsOf token ((token, o) :: rest) = o :: occasionsOf token rest := by
  simp [occasionsOf]

theorem occasionsOf_cons_of_ne {other : Nat} (differ : other ≠ token) (o : Occasion)
    (rest : List (Nat × Occasion)) : occasionsOf token ((other, o) :: rest) = occasionsOf token rest := by
  simp [occasionsOf, differ]

/-- A client fares in a run as it would alone. -/
theorem Leads.fares {heard : List (Nat × Occasion)} {client : Client} (leads : Leads s heard s')
    (isSite : s.site = site) (found : s.clients.get? token = some client) :
    Fares site token client.serial client.connection (occasionsOf token heard) s' := by
  induction leads generalizing client with
  | stay s => exact .live client.interest found
  | @takeUp s _ _ world stream peer refusal _ ih =>
      have takes := takeUp_takesUp world s stream peer refusal
      exact ih (takes.continues.site.trans isSite) (takes.get? found)
  | @drive s _ _ world other readiness refusal onward ih =>
      have drives := drive_drives world s other readiness refusal
      have sameSite := drives.continues.site.trans isSite
      by_cases same : other = token
      · subst same
        rw [occasionsOf_cons_self, ← isSite]
        refine Fares.handed ?_
        rcases drives.of_some found with left | ⟨interest, stays⟩
        · exact .of_departed onward.continues left
        · exact isSite ▸ ih sameSite stays
      · rw [occasionsOf_cons_of_ne same]
        exact ih sameSite ((drives.get?_of_ne (Ne.symm same)).trans found)
  | @close s _ _ other onward ih =>
      by_cases same : other = token
      · subst same
        rw [close_of_some found] at onward
        exact .of_departed onward.continues List.mem_cons_self
      · have continues : Continues s (s.close other).1 := (Leads.close other (.stay _)).continues
        have elsewhere : (s.close other).1.clients.get? token = s.clients.get? token := by
          rw [close_clients]
          exact Table.get?_put_of_ne (Ne.symm same) none
        exact ih (continues.site.trans isSite) (elsewhere.trans found)

end Server

end Docroot
