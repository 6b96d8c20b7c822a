import MetricGateway.Store.Basic

/-!
# Forgetting silent push jobs

A push job is *stale* at a cutoff if its last push lies before it. A sweep at time `now` of a store with a
time-to-live takes `now - ttl` as the cutoff; it removes every metric whose job label names a stale job, then the
families left without metrics, then the stale jobs. Metrics without the job label, or with a job that never pushed,
stay, and without a stale job nothing changes. A cutoff before the first day of the calendar is no time, and then
there is no sweep.
-/

namespace MetricGateway

/-- What a sweep removed. -/
structure SweepStats where
  metrics : Nat := 0
  families : Nat := 0
  jobs : Nat := 0
  deriving DecidableEq

/-- Whether nothing was removed. -/
def SweepStats.isEmpty (t : SweepStats) : Bool := t.metrics == 0 && t.families == 0 && t.jobs == 0

/-- Counts what becomes of one family: the metrics that it loses, and the family itself if no metric is left. -/
def SweepStats.count (t : SweepStats) (before after : StoredFamily) : SweepStats :=
  { t with
    metrics := t.metrics + (before.family.metrics.length - after.family.metrics.length)
    families := if after.family.metrics.isEmpty then t.families + 1 else t.families }

/-- The start of the year -9999, the first of the calendar. -/
def calendarStart : Instant := -377705116800000

namespace Store

/-- Whether the last push of a job lies before the cutoff. -/
def isStale (s : Store) (cutoff : Instant) (job : String) : Bool := (s.pushJobs.get? job).any (· < cutoff)

/-- Whether a metric belongs to a stale job. -/
def belongsToStale (s : Store) (cutoff : Instant) (m : Metric Binary64) : Bool :=
  (m.labels.get? s.options.jobLabel).any (s.isStale cutoff)

/-- A stored family without the metrics of stale jobs. -/
def withoutStale (s : Store) (cutoff : Instant) (stored : StoredFamily) : StoredFamily :=
  { stored with family := { stored.family with
      metrics := stored.family.metrics.filter fun m => !s.belongsToStale cutoff m } }

/-- The store without its stale jobs and all that belongs to them. -/
def dropStale (s : Store) (cutoff : Instant) : Store :=
  { s with
    families := (s.families.map fun _ => s.withoutStale cutoff).filter fun _ stored => !stored.family.metrics.isEmpty
    pushJobs := s.pushJobs.filter fun job _ => !s.isStale cutoff job }

/-- What the families lose with the stale jobs, counted one family after the other. -/
def familyStats (s : Store) (cutoff : Instant) : SweepStats :=
  s.families.entries.foldl (fun t e => t.count e.2 (s.withoutStale cutoff e.2)) {}

/-- What goes with the stale jobs, these included. -/
def staleStats (s : Store) (cutoff : Instant) : SweepStats :=
  { s.familyStats cutoff with jobs := s.pushJobs.size - (s.dropStale cutoff).pushJobs.size }

/-- Removes what is stale at the cutoff, if any job is. -/
def evict (s : Store) (cutoff : Instant) : Store × SweepStats :=
  if s.pushJobs.keys.any (s.isStale cutoff) then (s.dropStale cutoff, s.staleStats cutoff) else (s, {})

/-- Sweeps at the given time, unless the cutoff is no time. -/
def sweep (s : Store) (now : Instant) : Option (Store × SweepStats) :=
  match s.options.ttl with
  | none => some (s, {})
  | some ttl => if now - ttl < calendarStart then none else some (s.evict (now - ttl))

/-- Sweeps a number of times, a period apart, the first time a period after the given time. A sweep that is not possible
ends the series. -/
def sweepEvery (s : Store) (period : Span) (now : Instant) : Nat → Store × List SweepStats
  | 0 => (s, [])
  | ticks + 1 =>
    match s.sweep (now + period) with
    | none => (s, [])
    | some (s, stats) =>
      let (s, more) := s.sweepEvery period (now + period) ticks
      (s, stats :: more)

end Store
end MetricGateway
