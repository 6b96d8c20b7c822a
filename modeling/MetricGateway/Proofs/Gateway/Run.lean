import MetricGateway.Proofs.Gateway.Push

/-!
# Runs of a gateway

A gateway answers requests to both of its routers and sweeps its store (`Gateway.Event`). A run keeps the options of the
gateway (`run_options`), and what it does to the store is made of changes of the store (`changes_run`), so the store of
a gateway that started without families is sound (`sound_run`).
-/

namespace MetricGateway.Gateway

/-- What happens to a gateway. -/
inductive Event
  /-- A request to the api. -/
  | api (now : Instant) (r : Request)
  /-- A request to the lifecycle router, which sets at most the gauges. -/
  | lifecycle (r : Request)
  | sweep (now : Instant)

/-- The gateway after an event. A sweep at a time that has no cutoff leaves it as it is. -/
def handle (g : Gateway) : Event → Gateway
  | .api now r => (g.api now r).1
  | .lifecycle r => (g.routeLifecycle r).1
  | .sweep now => (g.sweep now).getD g

/-- The gateway after events, one after the other. -/
def run (g : Gateway) (events : List Event) : Gateway := events.foldl handle g

/-! ## What a request can do -/

/-- A push keeps the options and changes the store step by step. -/
theorem push_frame (g : Gateway) (now : Instant) (labelPath : List Char) (r : Request) :
    (g.push now labelPath r).1.options = g.options ∧
      Relation.ReflTransGen (Store.Change fun _ => True) g.store (g.push now labelPath r).1.store := by
  have houtcome := g.push_outcome now labelPath r
  generalize g.push now labelPath r = p at houtcome ⊢
  cases houtcome with
  | unauthorized | oddPath | missingJob | unreadable => exact ⟨rfl, .refl⟩
  | rejected | accepted => exact ⟨rfl, Store.changes_ingestFamilies g.store now _ _ fun _ _ => trivial⟩

theorem fst_pushAnswer (g : Gateway) (now : Instant) (labelPath : List Char) (r : Request) :
    (g.pushAnswer now labelPath r).1 = (g.push now labelPath r).1 := by
  unfold pushAnswer
  split <;> simp_all

/-- A request to the api does nothing or is a push. -/
theorem fst_api (g : Gateway) (now : Instant) (r : Request) :
    (g.api now r).1 = g ∨ ∃ labelPath, (g.api now r).1 = (g.push now labelPath r).1 := by
  unfold api
  dsimp only
  split
  next labelPath _ =>
    unfold routeApi
    dsimp only
    split
    · exact .inr ⟨labelPath, fst_pushAnswer g now labelPath r⟩
    · split
      · exact .inl rfl
      · split
        · exact .inl rfl
        · split <;> exact .inl rfl
  next => exact .inl rfl

/-- A request to the lifecycle router sets at most the gauges. -/
theorem exists_gauges_routeLifecycle (g : Gateway) (r : Request) :
    ∃ gauges, (g.routeLifecycle r).1 = g.withGauges gauges := by
  have hpage : ∀ path shown page, g.lifecyclePage? path = some (shown, page) →
      ∃ gauges, shown = g.withGauges gauges := by
    intro path shown page h
    unfold lifecyclePage? at h
    split at h
    · cases h
      exact ⟨g.gauges, rfl⟩
    · split at h <;> cases h
      exact ⟨_, rfl⟩
  unfold routeLifecycle
  split
  next => exact ⟨g.gauges, rfl⟩
  next shown page hshown =>
    split
    · exact hpage _ _ _ hshown
    · split
      · exact hpage _ _ _ hshown
      · exact ⟨g.gauges, rfl⟩

theorem handle_frame (g : Gateway) (e : Event) :
    (g.handle e).options = g.options ∧
      Relation.ReflTransGen (Store.Change fun _ => True) g.store (g.handle e).store := by
  cases e with
  | api now r =>
    show (g.api now r).1.options = g.options ∧ Relation.ReflTransGen _ g.store (g.api now r).1.store
    rcases g.fst_api now r with h | ⟨labelPath, h⟩
    · rw [h]
      exact ⟨rfl, .refl⟩
    · rw [h]
      exact g.push_frame now labelPath r
  | lifecycle r =>
    obtain ⟨gauges, h⟩ := g.exists_gauges_routeLifecycle r
    show (g.routeLifecycle r).1.options = g.options ∧ Relation.ReflTransGen _ g.store (g.routeLifecycle r).1.store
    rw [h]
    exact ⟨rfl, .refl⟩
  | sweep now =>
    have hc := Store.changes_perform (P := fun _ => True) g.store (.sweep now) fun _ _ => trivial
    rw [Store.perform] at hc
    show ((g.sweep now).getD g).options = g.options ∧ Relation.ReflTransGen _ g.store ((g.sweep now).getD g).store
    unfold sweep
    cases hs : g.store.sweep now with
    | none => exact ⟨rfl, .refl⟩
    | some t =>
      rw [hs] at hc
      exact ⟨rfl, hc⟩

/-! ## Runs -/

theorem run_frame (g : Gateway) (events : List Event) :
    (g.run events).options = g.options ∧
      Relation.ReflTransGen (Store.Change fun _ => True) g.store (g.run events).store := by
  induction events generalizing g with
  | nil => exact ⟨rfl, .refl⟩
  | cons e events ih =>
    obtain ⟨ho, hs⟩ := ih (g.handle e)
    obtain ⟨ho', hs'⟩ := g.handle_frame e
    exact ⟨ho.trans ho', hs'.trans hs⟩

theorem run_options (g : Gateway) (events : List Event) : (g.run events).options = g.options := (g.run_frame events).1

theorem changes_run (g : Gateway) (events : List Event) :
    Relation.ReflTransGen (Store.Change fun _ => True) g.store (g.run events).store :=
  (g.run_frame events).2

theorem sound_run {g : Gateway} (h : g.store.Sound) (events : List Event) : (g.run events).store.Sound :=
  Store.sound_of_changes (g.changes_run events) h

end MetricGateway.Gateway
