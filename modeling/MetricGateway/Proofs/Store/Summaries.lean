import MetricGateway.Proofs.Store.Arrivals
import MetricGateway.Proofs.Store.Retention

/-!
# Summaries come and go

Two summaries are never combined: the second arrival of a series removes it. A series that is not there is as good as
new, so the third arrival is stored again. After any number of pushes, and without sweeps, the store holds the last
arrival of a summary series if their number is odd, and nothing if it is even (`foldl_joined_of_summaries`). So a series
is stored once only (`StoredOnce`) if it arrives at most twice, and a third push that contains it brings it back
(`summaries_alternate`).
-/

namespace MetricGateway

/-- Of summaries that arrive one after the other, every second one removes the one before it. -/
theorem Ledger.foldl_joined_of_summaries (policy : AggregationPolicy) {ms : List (Metric Binary64)}
    (h : ∀ m ∈ ms, m.value.type = .summary) :
    ms.foldl (joined policy) none = if ms.length % 2 = 1 then ms.getLast? else none := by
  induction ms using List.reverseRecOn with
  | nil => rfl
  | append_singleton ms m ih =>
    obtain ⟨hms, -⟩ := List.forall_mem_append.mp h
    rw [List.foldl_append, ih hms, List.length_append, List.length_singleton, List.getLast?_concat]
    by_cases hodd : ms.length % 2 = 1
    · have hne : ms ≠ [] := by
        rintro rfl
        cases hodd
      have hlast : (ms.getLast hne).combine policy m = none :=
        Metric.combine_eq_none_iff.mpr (.inr (hms _ (List.getLast_mem hne)))
      rw [if_pos hodd, if_neg (by omega), List.getLast?_eq_some_getLast hne]
      exact hlast
    · rw [if_neg hodd, if_pos (by omega)]
      rfl

/-- The families of an operation are of the types of their metrics, if those that are handed over as such are. -/
theorem Operation.typed_of_given {op : Operation}
    (h : ∀ f ∈ op.given, ∀ m ∈ f.metrics, m.value.type = f.type) :
    ∀ f ∈ op.families, ∀ m ∈ f.metrics, m.value.type = f.type := by
  cases op with
  | push => exact fun f hf => (Operation.exchangeable_of_given_eq_nil rfl hf).typed
  | pushFamilies => exact h
  | sweep =>
    intro f hf
    cases hf

/-- The families of an operation have different names, if those that are handed over as such do. -/
theorem Operation.nodup_of_given {op : Operation} (h : (op.given.map Family.name).Nodup) :
    (op.families.map Family.name).Nodup := by
  cases op with
  | push now injected format payload =>
    rw [Operation.families]
    split
    next fs hr => exact (ExpositionFormat.exchangeable_of_read hr).1
    next => exact .nil
  | pushFamilies => exact h
  | sweep => exact .nil

namespace Store

/-! ## One push brings a series once -/

/-- The series of an accepted family differ. -/
theorem labels_ne_of_mem_accepted (s : Store) (now : Instant) (injected : List Label) (fs : List Family) :
    ∀ f ∈ s.accepted now injected fs,
      (f.canonical injected s.options.ignored).metrics.Pairwise fun a b => a.labels ≠ b.labels := by
  refine accepted_induction (I := fun accepted _ => ∀ f ∈ accepted,
    (f.canonical injected s.options.ignored).metrics.Pairwise fun a b => a.labels ≠ b.labels)
    (fun f hf => by cases hf) ?_ fs
  intro before g t ht ih f hf
  rcases List.mem_append.mp hf with hf | hf
  · exact ih f hf
  · cases List.mem_singleton.mp hf
    obtain ⟨g, hg, -⟩ := ingestFamily_eq_ok ht
    obtain ⟨-, hseries, -⟩ := (prepare_eq_ok_iff _ _ _ _).mp hg
    rw [← options_ingestFamilies s now injected before]
    exact Family.labels_ne_of_checkSeries hseries

theorem length_le_one_of_pairwise {labels : LabelSet} {ms : List (Metric Binary64)}
    (h : ms.Pairwise fun a b => a.labels ≠ b.labels) (hms : ∀ m ∈ ms, m.labels = labels) : ms.length ≤ 1 := by
  match ms, h with
  | [], _ => exact Nat.zero_le 1
  | [_], _ => exact Nat.le_refl 1
  | a :: b :: _, h =>
    have hne := List.rel_of_pairwise_cons h List.mem_cons_self
    exact absurd ((hms a (by simp)).trans (hms b (by simp)).symm) hne

/-- A push of families with different names brings a series at most once. -/
theorem length_brings_le_one (s : Store) (name : String) (labels : LabelSet) {op : Operation}
    (hop : op.isSweep = false) (hnames : (op.families.map Family.name).Nodup) :
    (s.brings name labels op).length ≤ 1 := by
  rcases s.perform_of_isSweep_eq_false hop with ⟨-, hbrings⟩ | ⟨now, injected, -, hbrings⟩
  · rw [hbrings]
    exact Nat.zero_le 1
  · rw [hbrings, metricsFor]
    refine length_le_one_of_pairwise (List.Pairwise.filter _ ?_) fun m hm => (?_ : m.labels = labels)
    · have hpairwise : ((s.accepted now injected op.families).filter (·.name = name)).Pairwise
          fun f g => f.name ≠ g.name :=
        ((List.pairwise_map.mp hnames).sublist (accepted_sublist ..)).filter _
      refine List.pairwise_flatMap.mpr ⟨fun f hf => ?_, hpairwise.imp_of_mem fun {f g} hf hg hne => ?_⟩
      · exact labels_ne_of_mem_accepted s now injected _ f (List.mem_filter.mp hf).1
      · have hfname := of_decide_eq_true (List.mem_filter.mp hf).2
        have hgname := of_decide_eq_true (List.mem_filter.mp hg).2
        exact absurd (hfname.trans hgname.symm) hne
    · exact of_decide_eq_true (List.mem_filter.mp hm).2

/-- Where each push brings a series at most once, every number of arrivals is reached. -/
theorem exists_length_arrivals (s : Store) {name : String} {labels : LabelSet} {ops : List Operation}
    (hops : ∀ op ∈ ops, ∀ t : Store, (t.brings name labels op).length ≤ 1) {count : Nat}
    (h : count ≤ (s.arrivals name labels ops).length) :
    ∃ n, (s.arrivals name labels (ops.take n)).length = count := by
  induction ops generalizing s count with
  | nil => exact ⟨0, (Nat.le_zero.mp h).symm⟩
  | cons op ops ih =>
    obtain ⟨hop, hrest⟩ := List.forall_mem_cons.mp hops
    rcases Nat.eq_zero_or_pos count with rfl | hpos
    · exact ⟨0, rfl⟩
    · have hone := hop s
      rw [arrivals, List.length_append] at h
      -- the push accounts for one of the arrivals or for none
      obtain ⟨n, hn⟩ := ih (s.perform op) hrest
        (show count - (s.brings name labels op).length ≤ _ by omega)
      refine ⟨n + 1, ?_⟩
      rw [List.take_succ_cons, arrivals, List.length_append, hn]
      omega

/-! ## Summary series -/

/-- Of a series, the store never holds anything but its first arrival, and once the series is gone, it never comes
back. -/
def StoredOnce (o : StoreOptions) (ops : List Operation) (name : String) (labels : LabelSet) : Prop :=
  (∀ n m, ((new o).run (ops.take n)).series? name labels = some m →
      ((new o).arrivals name labels ops).head? = some m) ∧
    ∀ i j k, i ≤ j → j ≤ k → ((new o).run (ops.take i)).series? name labels ≠ none →
      ((new o).run (ops.take j)).series? name labels = none →
      ((new o).run (ops.take k)).series? name labels = none

section Summary

variable (o : StoreOptions) {ops : List Operation} (hops : ∀ op ∈ ops, op.isSweep = false)
  (htyped : ∀ op ∈ ops, ∀ f ∈ op.given, ∀ m ∈ f.metrics, m.value.type = f.type) {name : String} {f : Family}
  (hf : ((new o).run ops).family? name = some f) (hsummary : f.type = .summary) (labels : LabelSet)
include hops htyped hf hsummary

/-- After any number of the operations, the store holds the last arrival of a summary series if the number of its
arrivals is odd. -/
theorem series?_take (n : Nat) : ((new o).run (ops.take n)).series? name labels =
    if ((new o).arrivals name labels (ops.take n)).length % 2 = 1 then
      ((new o).arrivals name labels (ops.take n)).getLast? else none := by
  have hfamilies := fun op hop => Operation.typed_of_given (htyped op hop)
  have htypes : ∀ m ∈ (new o).arrivals name labels (ops.take n), m.value.type = .summary := by
    intro m hm
    have hall := (prefix_arrivals (new o) name labels (List.take_prefix n ops)).subset hm
    obtain ⟨head, hhead, htype⟩ := type_of_mem_arrivals (sound_new o) hops hfamilies m hall
    obtain ⟨stored, hstored, rfl⟩ := Option.map_eq_some_iff.mp hf
    rw [heading?, hstored] at hhead
    cases hhead
    exact htype.trans hsummary
  have htake : ∀ op ∈ ops.take n, op.isSweep = false := fun op hop => hops op (List.mem_of_mem_take hop)
  obtain ⟨policy, hpolicy⟩ := exists_policy ((new o).run (ops.take n)) name
  rw [series?_run (sound_new o) htake name labels hpolicy]
  exact Ledger.foldl_joined_of_summaries policy htypes

theorem series?_take_eq_none_iff (n : Nat) : ((new o).run (ops.take n)).series? name labels = none ↔
    ((new o).arrivals name labels (ops.take n)).length % 2 = 0 := by
  rw [series?_take o hops htyped hf hsummary]
  by_cases hodd : ((new o).arrivals name labels (ops.take n)).length % 2 = 1
  · rw [if_pos hodd, List.getLast?_eq_none_iff]
    constructor
    · intro hnil
      rw [hnil] at hodd
      cases hodd
    · intro heven
      omega
  · rw [if_neg hodd]
    exact iff_of_true rfl (by omega)

/-- A summary series that arrives at most twice is stored once. -/
theorem storedOnce_of_length_le (h : ((new o).arrivals name labels ops).length ≤ 2) :
    StoredOnce o ops name labels := by
  have hle : ∀ n, ((new o).arrivals name labels (ops.take n)).length ≤ 2 := fun n =>
    (prefix_arrivals (new o) name labels (List.take_prefix n ops)).length_le.trans h
  constructor
  · intro n m hm
    rw [series?_take o hops htyped hf hsummary] at hm
    obtain ⟨rest, hrest⟩ := prefix_arrivals (new o) name labels (List.take_prefix n ops)
    have hone := hle n
    rw [← hrest]
    generalize (new o).arrivals name labels (ops.take n) = ms at hm hone
    split at hm
    next hodd =>
      -- the one arrival is both the first and the last
      obtain ⟨a, rfl⟩ := List.length_eq_one_iff.mp (show ms.length = 1 by omega)
      exact hm
    next => cases hm
  · intro i j k hij hjk hi hj
    have hnone := series?_take_eq_none_iff o hops htyped hf hsummary labels
    rw [Ne, hnone] at hi
    rw [hnone] at hj ⊢
    have hlij := (prefix_arrivals (new o) name labels (List.take_prefix_take_left (l := ops) hij)).length_le
    have hljk := (prefix_arrivals (new o) name labels (List.take_prefix_take_left (l := ops) hjk)).length_le
    have htwo := hle k
    omega

/-- Where no push brings it twice, a summary series that is stored once arrives at most twice. -/
theorem length_le_of_storedOnce (hnames : ∀ op ∈ ops, (op.given.map Family.name).Nodup)
    (h : StoredOnce o ops name labels) : ((new o).arrivals name labels ops).length ≤ 2 := by
  apply Nat.le_of_not_lt
  intro hlen
  have hnone := series?_take_eq_none_iff o hops htyped hf hsummary labels
  have hreached : ∀ count ≤ 3, ∃ n, ((new o).arrivals name labels (ops.take n)).length = count := by
    intro count hcount
    refine exists_length_arrivals (new o) (fun op hop t => ?_) (hcount.trans hlen)
    exact t.length_brings_le_one name labels (hops op hop) (Operation.nodup_of_given (hnames op hop))
  have hmono : ∀ i j, ((new o).arrivals name labels (ops.take i)).length <
      ((new o).arrivals name labels (ops.take j)).length → i ≤ j := by
    intro i j hlt
    apply Nat.le_of_not_lt
    intro hji
    have hle := (prefix_arrivals (new o) name labels (List.take_prefix_take_left (l := ops) hji.le)).length_le
    omega
  obtain ⟨i, hi⟩ := hreached 1 (by omega)
  obtain ⟨j, hj⟩ := hreached 2 (by omega)
  obtain ⟨k, hk⟩ := hreached 3 (by omega)
  have hgone := h.2 i j k (hmono i j (by omega)) (hmono j k (by omega))
  rw [Ne, hnone, hnone, hnone, hi, hj, hk] at hgone
  exact absurd (hgone (by omega) rfl) (by omega)

/-- **Summaries come and go.** In a run without sweeps, in which the families that are handed over as such are of the
types of their metrics, the store holds of a summary series, after any number of operations, its last arrival if the
number of its arrivals is odd, and nothing if it is even. So a series that arrives at most twice is stored once. If no
operation is handed two families of one name, a series that arrives more often is not: its third arrival brings it
back. -/
theorem summaries_alternate :
    (∀ n,
        let ms := (new o).arrivals name labels (ops.take n)
        ((new o).run (ops.take n)).series? name labels = if ms.length % 2 = 1 then ms.getLast? else none) ∧
      (((new o).arrivals name labels ops).length ≤ 2 → StoredOnce o ops name labels) ∧
      ((∀ op ∈ ops, (op.given.map Family.name).Nodup) → StoredOnce o ops name labels →
        ((new o).arrivals name labels ops).length ≤ 2) :=
  ⟨series?_take o hops htyped hf hsummary labels, storedOnce_of_length_le o hops htyped hf hsummary labels,
    length_le_of_storedOnce o hops htyped hf hsummary labels⟩

end Summary

/-- A summary of the given number of samples, with a counter. -/
def secondsPush (samples : Count) : Operation :=
  .push 0 [] .text (Utf8.bytesOf
    ("requests 1\n# TYPE seconds summary\nseconds_count " ++ Nat.repr samples.toNat ++ "\n"))

/-- The series of the summary with the given number of samples. -/
def secondsSampled (samples : Count) : Metric Binary64 := { labels := .empty, value := .summary ⟨samples, .zero, []⟩ }

theorem summaries_alternate_secondsPush :
    let ops := [secondsPush 1, .pushFamilies 1 [] [requestsOf ⟨"path", "/"⟩], secondsPush 2]
    (∀ op ∈ ops, op.isSweep = false) ∧
      (∀ op ∈ ops, ∀ f ∈ op.given, ∀ m ∈ f.metrics, m.value.type = f.type) ∧
      ((new {}).run ops).family? "seconds" = some { name := "seconds", type := .summary } ∧
      (new {}).arrivals "seconds" .empty ops = [secondsSampled 1, secondsSampled 2] ∧
      ((new {}).run (ops.take 2)).series? "seconds" .empty = some (secondsSampled 1) ∧
      StoredOnce {} ops "seconds" .empty := by
  intro ops
  have hops : ∀ op ∈ ops, op.isSweep = false := by decide
  have htyped : ∀ op ∈ ops, ∀ f ∈ op.given, ∀ m ∈ f.metrics, m.value.type = f.type := by decide +kernel
  have hfamily : ((new {}).run ops).family? "seconds" = some { name := "seconds", type := .summary } := by
    decide +kernel
  have harrivals : (new {}).arrivals "seconds" .empty ops = [secondsSampled 1, secondsSampled 2] := by decide +kernel
  have hfirst : (new {}).arrivals "seconds" .empty (ops.take 2) = [secondsSampled 1] := by decide +kernel
  obtain ⟨hheld, honce, -⟩ := summaries_alternate {} hops htyped hfamily rfl .empty
  have hafter := hheld 2
  rw [hfirst] at hafter
  exact ⟨hops, htyped, hfamily, harrivals, hafter, honce (by rw [harrivals]; decide)⟩

/-- The third push stores the summary again that the second one has removed. -/
theorem not_storedOnce_of_three :
    let ops := [secondsPush 1, secondsPush 2, secondsPush 3]
    (∀ op ∈ ops, op.isPayload = true) ∧
      (((new {}).run ops).family? "seconds").map Family.type = some .summary ∧
      ((new {}).run (ops.take 1)).series? "seconds" .empty = some (secondsSampled 1) ∧
      ((new {}).run (ops.take 2)).series? "seconds" .empty = none ∧
      ((new {}).run ops).series? "seconds" .empty = some (secondsSampled 3) ∧
      ¬ StoredOnce {} ops "seconds" .empty := by
  intro ops
  have hfirst : ((new {}).run (ops.take 1)).series? "seconds" .empty = some (secondsSampled 1) := by decide +kernel
  have hsecond : ((new {}).run (ops.take 2)).series? "seconds" .empty = none := by decide +kernel
  have hthird : ((new {}).run (ops.take 3)).series? "seconds" .empty = some (secondsSampled 3) := by decide +kernel
  refine ⟨by decide, by decide +kernel, hfirst, hsecond, hthird, fun h => ?_⟩
  have hgone := h.2 1 2 3 (by omega) (by omega) (by rw [hfirst]; nofun) hsecond
  rw [hthird] at hgone
  cases hgone

end Store
end MetricGateway
