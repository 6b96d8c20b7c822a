import MetricGateway.CommandLine.Reader
import MetricGateway.Proofs.Outcome
import MetricGateway.Proofs.Text.Numeral

/-!
# Reading one option

A command line that gives one option, with its value as an argument of its own, has the settings in which this value is
assigned (`read_option`), provided that the value does not look like an option. Every number of seconds can be written
as such a value (`readSeconds?_toString`), so every one can be the time-to-live (`read_metricTtl`).
-/

namespace MetricGateway.CommandLine

/-! ## Progress -/

/-- An argument without a dash in front is a value. -/
theorem Progress.read_value {p : Progress} (hended : p.ended = false) {value : String}
    (hvalue : value.toList.head? ≠ some '-') : p.read value = p.readValue value := by
  rw [Progress.read, hended, if_neg Bool.false_ne_true]
  split
  next h => simp [h] at hvalue
  next h => simp [h] at hvalue
  next h => simp [h] at hvalue
  next => rfl

/-- An environment without variables sets nothing. -/
theorem foldlM_readVariable (p : Progress) (fs : List Flag) :
    fs.foldlM (Progress.readVariable fun _ => none) p = .ok p := by
  induction fs with
  | nil => rfl
  | cons f fs ih =>
    have hkeep : Progress.readVariable (fun _ => none) p f = .ok p := by
      unfold Progress.readVariable
      split <;> rfl
    exact Outcome.foldlM_cons_eq_ok_iff.mpr ⟨p, hkeep, ih⟩

/-- One option with a value that it can have. -/
theorem read_option (f : Flag) {value : String} (hvalue : value.toList.head? ≠ some '-') {settings : Settings}
    (h : ({} : Settings).assign? f value = some settings) :
    read ["--" ++ f.name, value] (fun _ => none) = .ok settings := by
  have hname : ({} : Progress).read ("--" ++ f.name) = .ok { pending := some (f, none) } := by
    cases f <;> rfl
  have hread : Progress.read { pending := some (f, none) } value = .ok { pending := some (f, some value) } :=
    Progress.read_value rfl hvalue
  have hassign : ({} : Progress).assign f value = .ok { settings, given := [f] } := by
    rw [Progress.assign, if_neg (by simp), h]
  have harguments : ["--" ++ f.name, value].foldlM Progress.read {} = .ok { pending := some (f, some value) } :=
    Outcome.foldlM_cons_eq_ok_iff.mpr ⟨_, hname, Outcome.foldlM_cons_eq_ok_iff.mpr ⟨_, hread, rfl⟩⟩
  exact Outcome.bind_eq_ok_iff.mpr ⟨_, harguments, Outcome.bind_eq_ok_iff.mpr ⟨_, hassign,
    Outcome.bind_eq_ok_iff.mpr ⟨_, foldlM_readVariable _ _, rfl⟩⟩⟩

/-! ## Seconds -/

theorem readSeconds?_toString (n : Seconds) : readSeconds? (toString n.toNat) = some n := by
  have hdigits : Text.Digits (Nat.toDigits 10 n.toNat) := Text.digits_toDigits n.toNat
  have hnatural : Text.natural? (Nat.toDigits 10 n.toNat) = some n.toNat := by
    rw [Text.natural?_eq_some Nat.toDigits_ne_nil hdigits, Text.digitsValue_toDigits]
  rw [readSeconds?, Nat.toString_eq_ofList_toDigits, String.toList_ofList]
  split
  next r hr => exact absurd (hdigits '+' (by rw [hr]; exact List.mem_cons_self)) (by decide)
  next =>
    have hfits : n.toNat < UInt64.size := n.toNat_lt
    rw [hnatural, Option.filter_some, if_pos (by simpa using hfits), Option.map_some, UInt64.ofNat_toNat]

/-- Every number of seconds can be the time-to-live. -/
theorem read_metricTtl (n : Seconds) :
    read ["--metric-ttl", toString n.toNat] (fun _ => none) = .ok { metricTtl := some n } := by
  refine read_option .metricTtl (fun hdash => ?_) (congrArg (Option.map _) (readSeconds?_toString n))
  exact absurd (Text.digits_toString _ _ (List.mem_of_head? hdash)) (by decide)

end MetricGateway.CommandLine
