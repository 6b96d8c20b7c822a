import MetricGateway.Gateway.Router
import MetricGateway.Proofs.Store.Commit

/-!
# What becomes of a push

A push is refused by the first check that it fails, with the gateway unchanged, or the store takes its families, and
then it is accepted exactly if none of them is refused. `PushOutcome` has one constructor for each of these ways, and
`push_outcome` says that there is no other.
-/

namespace MetricGateway.Gateway

/-- The payload of a push, read in the format that its content type names. -/
def payload (r : Request) : Except ParseFault (List Family) :=
  (ExpositionFormat.ofContentType (r.textHeader? "content-type")).read r.body

/-- The push passes the checks in front of its payload, and its path has these labels. -/
structure Passes (g : Gateway) (labelPath : List Char) (r : Request) (labels : List Label) : Prop where
  authorized : g.authorizes r = true
  labelled : pathLabels? ((decodedPath? labelPath).getD []) = some labels
  named : g.store.options.ttl.isSome → lastValue? g.store.options.jobLabel labels ≠ none

/-- The gateway after a push, and why the push was refused, if it was. -/
inductive PushOutcome (g : Gateway) (now : Instant) (labelPath : List Char) (r : Request) :
    Gateway × Option Refusal → Prop
  | unauthorized (hauth : g.authorizes r = false) : PushOutcome g now labelPath r (g, some .unauthorized)
  | oddPath (hauth : g.authorizes r = true) (hpath : pathLabels? ((decodedPath? labelPath).getD []) = none) :
    PushOutcome g now labelPath r (g, some .oddPath)
  | missingJob {labels : List Label} (hauth : g.authorizes r = true)
    (hpath : pathLabels? ((decodedPath? labelPath).getD []) = some labels) (httl : g.store.options.ttl.isSome)
    (hjob : lastValue? g.store.options.jobLabel labels = none) :
    PushOutcome g now labelPath r (g, some (.missingJob g.store.options.jobLabel))
  | unreadable {labels : List Label} {fault : ParseFault} (hpasses : g.Passes labelPath r labels)
    (hread : payload r = .error fault) : PushOutcome g now labelPath r (g, some (.failed (.parse fault)))
  | rejected {labels : List Label} {fs : List Family} (hpasses : g.Passes labelPath r labels)
    (hread : payload r = .ok fs) (hrefused : g.store.refusals now labels fs ≠ []) :
    PushOutcome g now labelPath r ({ g with store := (g.store.ingestFamilies now labels fs).1 },
      some (.failed (.rejected (g.store.refusals now labels fs))))
  | accepted {labels : List Label} {fs : List Family} (hpasses : g.Passes labelPath r labels)
    (hread : payload r = .ok fs) (haccepted : g.store.refusals now labels fs = []) :
    PushOutcome g now labelPath r
      ({ g with store := (g.store.ingestFamilies now labels fs).1 }.countPush
        ((lastValue? g.store.options.jobLabel labels).getD ""), none)

theorem pushLabelled_outcome {g : Gateway} {labelPath : List Char} {r : Request} {labels : List Label}
    (hauth : g.authorizes r = true) (hpath : pathLabels? ((decodedPath? labelPath).getD []) = some labels)
    (now : Instant) : PushOutcome g now labelPath r (g.pushLabelled now labels r) := by
  unfold pushLabelled
  dsimp only
  split
  next hnone => exact .missingJob hauth hpath hnone.1 hnone.2
  next hnamed =>
    have hpasses : g.Passes labelPath r labels := ⟨hauth, hpath, fun httl hjob => hnamed ⟨httl, hjob⟩⟩
    cases hread : payload r with
    | error fault =>
      rw [payload] at hread
      rw [Store.ingest, hread]
      exact .unreadable hpasses hread
    | ok fs =>
      have hingest : g.store.ingest now labels (.ofContentType (r.textHeader? "content-type")) r.body =
          ((g.store.ingestFamilies now labels fs).1, (g.store.ingestFamilies now labels fs).2) := by
        rw [payload] at hread
        rw [Store.ingest, hread]
      rw [hingest, Store.answer_ingestFamilies]
      by_cases hrefused : g.store.refusals now labels fs = []
      · rw [if_pos hrefused]
        exact .accepted hpasses hread hrefused
      · rw [if_neg hrefused]
        exact .rejected hpasses hread hrefused

theorem push_outcome (g : Gateway) (now : Instant) (labelPath : List Char) (r : Request) :
    PushOutcome g now labelPath r (g.push now labelPath r) := by
  unfold push
  split
  next hauth =>
    split
    next hpath => exact .oddPath hauth hpath
    next labels hpath => exact pushLabelled_outcome hauth hpath now
  next hauth => exact .unauthorized (Bool.not_eq_true _ ▸ hauth)

end MetricGateway.Gateway
