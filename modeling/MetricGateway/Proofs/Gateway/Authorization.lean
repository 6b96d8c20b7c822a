import MetricGateway.CommandLine.Reader
import MetricGateway.Proofs.Gateway.Accounts
import MetricGateway.Proofs.Gateway.Run

/-!
# Pushes without credentials

Where there are accounts, a push that does not carry the credentials of one of them is refused before anything else is
looked at (`api_of_not_authorizes`). A list of entries gives accounts as soon as one of them has a user and a password;
then nobody pushes without the credentials that some entry gives (`refuses_unknown_credentials`), whatever happened to
the gateway before. A list of which no entry gives an account leaves the gateway open (`accepts_with_malformed_entry`).
-/

namespace MetricGateway.Gateway

/-- The path leads to the api's pushes: it is `/metrics`, or that and a part behind a slash. -/
def IsPushPath (path : List Char) : Prop :=
  path = "/metrics".toList ∨ ∃ rest, rest ≠ [] ∧ path = "/metrics/".toList ++ rest

/-- The request is a push: a `POST` or a `PUT` to such a path. -/
def IsPush (r : Request) : Prop := (r.method = "POST" ∨ r.method = "PUT") ∧ IsPushPath r.path

/-- The credentials that a request carries. -/
def credentials? (r : Request) : Option Credentials := (r.header? "authorization").bind Credentials.ofHeader?

/-- There are no accounts, or the request carries the credentials of one. -/
def Admits (g : Gateway) (r : Request) : Prop :=
  g.options.accounts.size = 0 ∨ ∃ c, credentials? r = some c ∧ g.options.accounts.get? c.user = some c.password

theorem authorizes_iff (g : Gateway) (r : Request) : g.authorizes r = true ↔ g.Admits r := by
  rw [authorizes, Bool.or_eq_true, beq_iff_eq, Option.any_eq_true, Admits, credentials?]
  simp [Credentials.matchAccount]

theorem apiPath?_metrics : apiPath? "/metrics".toList = some [] := by decide

theorem apiPath?_append {rest : List Char} (hrest : rest ≠ []) : apiPath? ("/metrics/".toList ++ rest) = some rest := by
  obtain ⟨c, cs, rfl⟩ := List.exists_cons_of_ne_nil hrest
  have hafter : "/metrics".toList.isPrefixOf? ("/metrics/".toList ++ c :: cs) = some ('/' :: c :: cs) :=
    List.isPrefixOf?_eq_some_iff_append_eq.mpr rfl
  rw [apiPath?, hafter]
  rfl

theorem exists_apiPath? {path : List Char} (h : IsPushPath path) : ∃ labelPath, apiPath? path = some labelPath := by
  rcases h with rfl | ⟨rest, hrest, rfl⟩
  · exact ⟨[], apiPath?_metrics⟩
  · exact ⟨rest, apiPath?_append hrest⟩

theorem api_of_isPush {g : Gateway} {now : Instant} {r : Request} {labelPath : List Char}
    (hmethod : r.method = "POST" ∨ r.method = "PUT") (hpath : apiPath? r.path = some labelPath) :
    g.api now r =
      ((g.push now labelPath r).1, (g.push now labelPath r).1.withCors r (g.pushAnswer now labelPath r).2) := by
  unfold api routeApi
  dsimp only
  rw [hpath]
  dsimp only
  rw [if_pos hmethod, fst_pushAnswer]

theorem status_withCors (g : Gateway) (r : Request) (a : Answer) : (g.withCors r a).status = a.status := by
  unfold withCors
  dsimp only
  split <;> split <;> rfl

/-- A push that is not authorized is answered 401 and leaves the gateway as it is. -/
theorem api_of_not_authorizes {g : Gateway} {now : Instant} {r : Request} (hr : IsPush r)
    (h : g.authorizes r = false) : (g.api now r).1 = g ∧ (g.api now r).2.status = 401 := by
  obtain ⟨labelPath, hpath⟩ := exists_apiPath? hr.2
  have hpush : g.push now labelPath r = (g, some .unauthorized) := by
    rw [push, h]
    rfl
  rw [api_of_isPush hr.1 hpath, pushAnswer, hpush]
  exact ⟨rfl, status_withCors _ _ _⟩

/-- **No push without known credentials.** If one of the configured entries gives an account, then in every state that
the gateway reaches, a push whose credentials are given by none of the entries is answered 401 and changes nothing: not
the store, not the push jobs, not the counts of pushes. -/
theorem refuses_unknown_credentials (settings : CommandLine.Settings) {entry user password : String}
    (hentry : entry ∈ settings.authUsers) (hgives : Accounts.Gives entry user password) (events : List Event)
    (now : Instant) (r : Request) (hr : IsPush r)
    (hcred : ∀ c, credentials? r = some c → ∀ e ∈ settings.authUsers, ¬ Accounts.Gives e c.user c.password) :
    ((settings.gateway.run events).api now r).1 = settings.gateway.run events ∧
      ((settings.gateway.run events).api now r).2.status = 401 := by
  have haccounts : (settings.gateway.run events).options.accounts = Accounts.ofEntries settings.authUsers := by
    rw [run_options]
    rfl
  refine api_of_not_authorizes hr (Bool.eq_false_iff.mpr fun hauth => ?_)
  have hsize : (settings.gateway.run events).options.accounts.size ≠ 0 := by
    rw [haccounts]
    exact Accounts.size_ofEntries_ne_zero hentry hgives
  obtain ⟨c, hc, hget⟩ := ((authorizes_iff _ r).mp hauth).resolve_left hsize
  rw [haccounts] at hget
  obtain ⟨e, he, hgiven⟩ := Accounts.exists_entry_of_get? hget
  exact hcred c hc e he hgiven

/-- A push of nothing under the job `a`, with a wrong password. -/
def wrongPassword : Request where
  method := "PUT"
  uri := "/metrics/job/a"
  headers := [("authorization", "Basic dXNlcjp3cm9uZw==")]

/-- A malformed entry beside a well-formed one does not let a wrong password in, also after a right one. -/
theorem refuses_wrongPassword :
    "user=pass" ∈ ["user", "user=pass"] ∧ Accounts.Gives "user=pass" "user" "pass" ∧ IsPush wrongPassword ∧
      (∀ c, credentials? wrongPassword = some c → ∀ e ∈ ["user", "user=pass"], ¬ Accounts.Gives e c.user c.password) ∧
      (((CommandLine.Settings.gateway { authUsers := ["user", "user=pass"] }).run
        [.api 0 { wrongPassword with headers := [("authorization", "Basic dXNlcjpwYXNz")] }]).api 1
          wrongPassword).2.status = 401 := by
  have hgives : Accounts.Gives "user=pass" "user" "pass" := ⟨rfl, by decide, by decide⟩
  have hpush : IsPush wrongPassword := ⟨.inr rfl, .inr ⟨"job/a".toList, by decide, rfl⟩⟩
  have hcred : ∀ c, credentials? wrongPassword = some c →
      ∀ e ∈ ["user", "user=pass"], ¬ Accounts.Gives e c.user c.password := by
    intro c hc
    have hwrong : credentials? wrongPassword = some ⟨"user", "wrong"⟩ := by decide +kernel
    cases hwrong.symm.trans hc
    rintro e he ⟨hjoin, -⟩
    rcases List.mem_cons.mp he with rfl | he
    · exact absurd hjoin (by decide)
    · cases List.mem_singleton.mp he
      exact absurd hjoin (by decide)
  obtain ⟨-, hstatus⟩ := refuses_unknown_credentials { authUsers := ["user", "user=pass"] } (by decide) hgives
    [.api 0 { wrongPassword with headers := [("authorization", "Basic dXNlcjpwYXNz")] }] 1 wrongPassword hpush hcred
  exact ⟨by decide, hgives, hpush, hcred, hstatus⟩

/-- An entry that is not empty but gives no account leaves the gateway open: a push without credentials is accepted and
counted. -/
theorem accepts_with_malformed_entry :
    ∃ settings, CommandLine.read ["--auth-users", "user"] (fun _ => none) = .ok settings ∧
      (∃ entry ∈ settings.authUsers, entry ≠ "") ∧
      IsPush { method := "POST", uri := "/metrics" } ∧ credentials? { method := "POST", uri := "/metrics" } = none ∧
      (settings.gateway.api 0 { method := "POST", uri := "/metrics" }).2.status = 202 ∧
      settings.gateway.pushes.get? "" = none ∧
      (settings.gateway.api 0 { method := "POST", uri := "/metrics" }).1.pushes.get? "" = some 1 :=
  ⟨{ authUsers := ["user"] }, rfl, ⟨"user", by decide, by decide⟩, ⟨.inl rfl, .inl rfl⟩, rfl, rfl, rfl, rfl⟩

end MetricGateway.Gateway
