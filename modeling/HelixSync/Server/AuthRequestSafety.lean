import HelixSync.Server.AuthRequestSound

/-!
# What an auth request can become

An event commits one of four things (`HelixSync.AuthServer.Effect`): nothing about requests and
users, a new request, an answer to a pending request, or the consumption of an approved one. What a
request can become is read off these four, and credentials change with the last of them only.

A claim that was checked by one statement is committed by a later one. What it saw is kept with it,
and `HelixSync.AuthServer.seen_run` says that this is a state of the run, so that what
`HelixSync.AuthServer.requests_safe` says of it holds at the statement that consumed the request.
-/

namespace HelixSync

namespace AuthServer

section Slots

variable {cfg : AuthConfig} {s t : AuthServer} {slot : ℕ} {id : Uuid} {call : Call} {answer : Answer}

/-! ### What an event commits -/

/-- What a handler remembers of a database, it has from the one before the step, or it had it
already. -/
def Remembers (s t : AuthServer) : Prop :=
  ∀ slot call db, t.calls slot = some call → seen? call = some db →
    db = s.db ∨ ∃ call', s.calls slot = some call' ∧ seen? call' = some db

/-- **What an event commits**: nothing about requests and users, a new request, an answer to a
pending one, or the consumption of an approved one. -/
inductive Effect (cfg : AuthConfig) (s t : AuthServer) : Prop
  | none (hrequests : t.db.requests = s.db.requests) (husers : t.db.users = s.db.users)
      (hconsumptions : t.consumptions = s.consumptions)
      (hhandouts : ∀ c ∈ t.handouts, c ∈ s.handouts ∨ c.seen = s.db)
  | created (id : Uuid) (row : AuthRequestRow) (hfresh : s.db.requests id = none)
      (hrequests : t.db.requests = Function.update s.db.requests id (some row))
      (husers : t.db.users = s.db.users) (hconsumptions : t.consumptions = s.consumptions)
      (hhandouts : t.handouts = s.handouts)
  | answered (id : Uuid) (row row' : AuthRequestRow) (hrow : s.db.requests id = some row)
      (hpending : row.status = .pending)
      (hrequests : t.db.requests = Function.update s.db.requests id (some row'))
      (husers : t.db.users = s.db.users) (hconsumptions : t.consumptions = s.consumptions)
      (hhandouts : t.handouts = s.handouts)
  | consumed (c : Consumption) (row : AuthRequestRow) (hrow : s.db.requests c.requestId = some row)
      (hc : Collectable c.time row)
      (hrequests : t.db.requests = Function.update s.db.requests c.requestId
        (some { row with consumedAt := some c.time }))
      (happroved : c.kind = .reset → c.seen.requests c.requestId = some row ∧
        c.seen.TwoApprovers c.requestId row.userId)
      (hseen : c.seen = s.db ∨ ∃ slot call, s.calls slot = some call ∧ seen? call = some c.seen)
      (husers : t.db.users = s.db.users ∨ c.kind = .reset ∧ ∃ req : CompleteResetRequest,
        t.db.users = s.db.users.map fun user => if user.id = row.userId then
          { user with credentials := newCredentials cfg req, recoveryCodeConfirmedAt := .none }
          else user)
      (hconsumptions : t.consumptions = s.consumptions ++ [c]) (hhandouts : t.handouts = s.handouts)

theorem Remembers.finish (hcalls : t.calls = s.calls) : Remembers s (t.finish slot answer) := by
  intro slot' call db hcall hseen
  by_cases hslot : slot' = slot
  · rw [hslot, show (t.finish slot answer).calls slot = none from Function.update_self _ _ _] at hcall
    exact absurd hcall (by simp)
  · exact Or.inr ⟨call, hcalls ▸ (Function.update_of_ne hslot _ _).symm.trans hcall, hseen⟩

theorem Remembers.goto (hcalls : t.calls = s.calls)
    (hcall : ∀ db, seen? call = some db → db = s.db ∨
      ∃ call', s.calls slot = some call' ∧ seen? call' = some db) :
    Remembers s (t.goto slot call) := by
  intro slot' call' db hcall' hseen
  by_cases hslot : slot' = slot
  · subst hslot
    rw [show (t.goto slot' call).calls slot' = some call from Function.update_self _ _ _] at hcall'
    obtain rfl := Option.some.inj hcall'
    exact hcall db hseen
  · exact Or.inr ⟨call', hcalls ▸ (Function.update_of_ne hslot _ _).symm.trans hcall', hseen⟩

/-- A denied or consumed row never changes again. -/
theorem Effect.settled (h : Sound s) (he : Effect cfg s t) {row : AuthRequestRow}
    (hrow : s.db.requests id = some row)
    (hsettled : row.status = .denied ∨ row.consumedAt.isSome = true) :
    t.db.requests id = some row := by
  have hstatus : row.status ≠ .pending := by
    rcases hsettled with hdenied | hsome
    · rw [hdenied]
      simp
    · rw [(h.rows id row hrow).consumed hsome]
      simp
  have hother : ∀ id' row' row'', s.db.requests id' = some row' → row' ≠ row →
      t.db.requests = Function.update s.db.requests id' (some row'') →
        t.db.requests id = some row := by
    intro id' row' row'' hrow' hne hrequests
    rw [hrequests, Function.update_of_ne, hrow]
    rintro rfl
    exact hne (Option.some.inj (hrow'.symm.trans hrow))
  cases he with
  | none hrequests => rw [hrequests, hrow]
  | created id' row' hfresh hrequests =>
    rw [hrequests, Function.update_of_ne, hrow]
    rintro rfl
    rw [hfresh] at hrow
    exact absurd hrow (by simp)
  | answered id' row' row'' hrow' hpending hrequests =>
    exact hother id' row' row'' hrow' (fun heq => hstatus (heq ▸ hpending)) hrequests
  | consumed c row' hrow' hc hrequests =>
    refine hother c.requestId row' _ hrow' (fun heq => ?_) hrequests
    obtain rfl := heq
    rcases hsettled with hdenied | hsome
    · rw [hc.1] at hdenied
      exact absurd hdenied (by simp)
    · rw [hc.2.1] at hsome
      exact absurd hsome (by simp)

/-- A database that a handler has seen at the start of a run, or that was there during it. -/
def Origin (cfg : AuthConfig) (s : AuthServer) (events : List AuthEvent) (db : AuthDb) : Prop :=
  (∃ slot call, s.calls slot = some call ∧ seen? call = some db) ∨
    ∃ before after, events = before ++ after ∧ db = (s.run cfg before).db

theorem Origin.cons {e : AuthEvent} {events : List AuthEvent} {db : AuthDb}
    (hr : Remembers s (step cfg s e)) (h : Origin cfg (step cfg s e) events db) :
    Origin cfg s (e :: events) db := by
  rcases h with ⟨slot, call, hcall, hseen⟩ | ⟨before, after, rfl, hdb⟩
  · rcases hr slot call db hcall hseen with hdb | ⟨call', hcall', hseen'⟩
    · exact Or.inr ⟨[], e :: events, rfl, hdb⟩
    · exact Or.inl ⟨slot, call', hcall', hseen'⟩
  · exact Or.inr ⟨e :: before, after, rfl, hdb⟩

end Slots

end AuthServer

end HelixSync
