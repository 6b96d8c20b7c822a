import MetricGateway.Proofs.Protobuf.WellFormed

/-!
# Messages of one name

The reader enters one message after the other into the families that it has. A message might as well have carried the
metrics of all messages of its name and type that follow it (`foldlM_addNext_absorb`): entries of other names do not
change what is added to an entry, and a message of the same name and another type fails in any case. Two consequences
are drawn from this. Messages of uniform types come out as one family for each name (`foldlM_addNext_of_uniform`), and
it does not matter over how many messages the metrics of a family are spread (`Respread.foldlM_eq`). Together they say
what is read from a stream of well-formed messages (`groups_by_name`).
-/

namespace MetricGateway.Protobuf

open FamilyMessage

/-- Adds the family of the next message. -/
def addNext (es : Families) (m : FamilyMessage) : Except ParseFault Families := addFamily es m.family

theorem read_flatMap_delimited {ms : List FamilyMessage} {bytes : List (List UInt8)} (hms : ∀ m ∈ ms, m.WellFormed)
    (hbytes : List.Forall₂ HasBytes ms bytes) :
    read (bytes.flatMap delimited) =
      (ms.foldlM addNext []).map fun es => (es.map Prod.snd).filter (!·.metrics.isEmpty) := by
  have hlen : ∀ b ∈ bytes, b.length < UInt64.size := by
    clear hms
    induction hbytes with
    | nil => simp
    | cons hb _ ih => exact List.forall_mem_cons.mpr ⟨hb.2, ih⟩
  have hfold : ∀ es, (bytes.map some).foldlM addMessage es = ms.foldlM addNext es := by
    clear hlen
    induction hbytes with
    | nil => exact fun _ => rfl
    | @cons m b ms bytes hb _ ih =>
      obtain ⟨hm, hms⟩ := List.forall_mem_cons.mp hms
      intro es
      have hstep : addMessage es (some b) = addNext es m := by
        rw [addMessage, hb.1]
        show familyOf m >>= addFamily es = _
        rw [familyOf_of_wellFormed hm]
        rfl
      rw [List.map_cons, List.foldlM_cons, List.foldlM_cons, hstep]
      exact congrArg _ (funext (ih hms))
  rw [read, messages_flatMap_delimited hlen, hfold]
  cases ms.foldlM addNext [] <;> rfl

/-! ## Messages of one name -/

/-- The message has the name and the type of the other. -/
def Same (m x : FamilyMessage) : Prop := x.name = m.name ∧ x.type = m.type

instance (m : FamilyMessage) : DecidablePred (Same m) := fun _ => inferInstanceAs (Decidable (_ ∧ _))

/-- The metrics of messages, one behind the other. -/
def metricsOf (ms : List FamilyMessage) : List MetricMessage := ms.flatMap (·.metrics)

section Absorb

variable {ys zs : Families}

theorem addFamily_append_cons {e f : Family} (hn : f.name ∉ ys.map Prod.fst) :
    addFamily (ys ++ (f.name, e) :: zs) f =
      if e.type ≠ f.type then .error (.conflictingTypes f.name e.type f.type)
      else .ok (ys ++ (f.name, { e with metrics := e.metrics ++ f.metrics }) :: zs) := by
  rw [addFamily, Appearance.lookup_append_cons hn]
  dsimp only
  rw [Appearance.alter_append_cons hn]

/-- Adding a family of another name leaves the entry in its place and does not depend on its metrics. -/
theorem addFamily_append_cons_of_ne {n : String} {f : Family} (hn : n ∉ ys.map Prod.fst) (hne : f.name ≠ n)
    (zs : Families) :
    (∃ fault, ∀ e, addFamily (ys ++ (n, e) :: zs) f = .error fault) ∨
      ∃ ys' zs', n ∉ ys'.map Prod.fst ∧ ∀ e, addFamily (ys ++ (n, e) :: zs) f = .ok (ys' ++ (n, e) :: zs') := by
  have hlookup : ∀ e, (ys ++ (n, e) :: zs).lookup f.name = (ys ++ (n, f) :: zs).lookup f.name :=
    fun e => Appearance.lookup_append_cons_of_ne (Ne.symm hne) e f
  cases hf : (ys ++ (n, f) :: zs).lookup f.name with
  | none =>
    refine .inr ⟨ys, zs ++ [(f.name, f)], hn, fun e => ?_⟩
    rw [addFamily, hlookup, hf, List.append_assoc]
    rfl
  | some existing =>
    by_cases htype : existing.type = f.type
    · obtain ⟨ys', zs', hn', halter⟩ : ∃ ys' zs', n ∉ ys'.map Prod.fst ∧ ∀ e, Appearance.alter f.name existing
          (fun e => { e with metrics := e.metrics ++ f.metrics }) (ys ++ (n, e) :: zs) = ys' ++ (n, e) :: zs' :=
        Appearance.exists_alter_append_cons hn hne existing _
      refine .inr ⟨ys', zs', hn', fun e => ?_⟩
      rw [addFamily, hlookup, hf]
      dsimp only
      rw [if_neg (not_not.mpr htype), halter]
    · refine .inl ⟨.conflictingTypes f.name existing.type f.type, fun e => ?_⟩
      rw [addFamily, hlookup, hf]
      exact if_pos htype

/-- An entry absorbs the metrics of its name and type out of the messages that follow. -/
theorem foldlM_addNext_entry {m : FamilyMessage} (hn : m.name ∉ ys.map Prod.fst) {e : Family} (htype : e.type = m.kind)
    {ms : List FamilyMessage} (hms : ∀ x ∈ ms, x.name = m.name → x.kind = m.kind → x.type = m.type) :
    ms.foldlM addNext (ys ++ (m.name, e) :: zs) =
      (ms.filter (¬ Same m ·)).foldlM addNext (ys ++ (m.name, { e with
        metrics := e.metrics ++ (metricsOf (ms.filter (Same m))).map (·.metric m.kind) }) :: zs) := by
  induction ms generalizing ys zs e with
  | nil => simp [metricsOf]
  | cons x ms ih =>
    obtain ⟨hcode, hms⟩ := List.forall_mem_cons.mp hms
    by_cases hsame : Same m x
    · have hname : x.name = m.name := hsame.1
      have hkind : x.kind = m.kind := by rw [kind, kind, hsame.2]
      have hx : addNext (ys ++ (m.name, e) :: zs) x =
          .ok (ys ++ (m.name, { e with metrics := e.metrics ++ x.metrics.map (·.metric m.kind) }) :: zs) := by
        rw [← hname] at hn ⊢
        rw [← hkind] at htype ⊢
        exact (addFamily_append_cons (f := x.family) hn).trans (if_neg (not_not.mpr htype))
      have hrest : (x :: ms).filter (¬ Same m ·) = ms.filter (¬ Same m ·) :=
        List.filter_cons_of_neg (by simpa using hsame)
      have hmetrics : metricsOf ((x :: ms).filter (Same m)) = x.metrics ++ metricsOf (ms.filter (Same m)) := by
        rw [List.filter_cons_of_pos (by simpa using hsame)]
        rfl
      rw [List.foldlM_cons, hx, hrest, hmetrics, List.map_append, ← List.append_assoc]
      exact ih hn htype hms
    · have hrest : (x :: ms).filter (¬ Same m ·) = x :: ms.filter (¬ Same m ·) :=
        List.filter_cons_of_pos (by simpa using hsame)
      have hmetrics : metricsOf ((x :: ms).filter (Same m)) = metricsOf (ms.filter (Same m)) := by
        rw [List.filter_cons_of_neg (by simpa using hsame)]
      rw [hrest, hmetrics, List.foldlM_cons, List.foldlM_cons]
      by_cases hname : x.name = m.name
      · have hx : ∀ xs, addNext (ys ++ (m.name, { e with metrics := xs }) :: zs) x =
            .error (.conflictingTypes x.name e.type x.kind) := by
          have hne : e.type ≠ x.kind := fun h => hsame ⟨hname, hcode hname (h.symm.trans htype)⟩
          rw [← hname] at hn ⊢
          exact fun xs => (addFamily_append_cons (f := x.family) hn).trans (if_pos hne)
        have hx' : addNext (ys ++ (m.name, e) :: zs) x = _ := hx e.metrics
        rw [hx', hx]
        rfl
      · rcases addFamily_append_cons_of_ne (f := x.family) hn hname zs with ⟨fault, hx⟩ | ⟨ys', zs', hn', hx⟩
        · rw [addNext, addNext, hx, hx]
          rfl
        · rw [addNext, addNext, hx, hx]
          exact ih hn' htype hms

/-- Whether the next message can be added does not depend on its metrics, and they go to the end of the entry of its
name. -/
theorem addNext_cases (es : Families) (m : FamilyMessage) :
    (∃ fault, ∀ xs, addNext es { m with metrics := xs } = .error fault) ∨
      ∃ ys zs, ∃ e : Family, m.name ∉ ys.map Prod.fst ∧ e.type = m.kind ∧ ∀ xs,
        addNext es { m with metrics := xs } =
          .ok (ys ++ (m.name, { e with metrics := e.metrics ++ xs.map (·.metric m.kind) }) :: zs) := by
  let f (xs : List MetricMessage) : Family := { m with metrics := xs }.family
  cases hlookup : es.lookup m.name with
  | none =>
    have hn : m.name ∉ es.map Prod.fst := Appearance.lookup_eq_none_iff.mp hlookup
    exact .inr ⟨es, [], f [], hn, rfl, fun xs => addFamily_of_not_mem (f := f xs) hn⟩
  | some e =>
    obtain ⟨ys, zs, rfl, hn⟩ := Appearance.exists_append_of_lookup hlookup
    have hadd : ∀ xs, addNext (ys ++ (m.name, e) :: zs) { m with metrics := xs } = _ := fun xs =>
      addFamily_append_cons (f := f xs) hn
    by_cases htype : e.type = m.kind
    · exact .inr ⟨ys, zs, e, hn, htype, fun xs => (hadd xs).trans (if_neg (not_not.mpr htype))⟩
    · exact .inl ⟨.conflictingTypes m.name e.type m.kind, fun xs => (hadd xs).trans (if_pos htype)⟩

/-- **A message absorbs the metrics of its name and type** out of the messages that follow it. -/
theorem foldlM_addNext_absorb {m : FamilyMessage} {ms : List FamilyMessage}
    (hms : ∀ x ∈ ms, x.name = m.name → x.kind = m.kind → x.type = m.type) (es : Families) :
    (m :: ms).foldlM addNext es =
      ({ m with metrics := m.metrics ++ metricsOf (ms.filter (Same m)) } ::
        ms.filter (¬ Same m ·)).foldlM addNext es := by
  rw [List.foldlM_cons, List.foldlM_cons]
  rcases addNext_cases es m with ⟨fault, hadd⟩ | ⟨ys, zs, e, hn, htype, hadd⟩
  · have hm : addNext es m = _ := hadd m.metrics
    rw [hm, hadd]
    rfl
  · have hm : addNext es m = _ := hadd m.metrics
    rw [hm, hadd, List.map_append, ← List.append_assoc]
    exact foldlM_addNext_entry (e := { e with metrics := e.metrics ++ m.metrics.map (·.metric m.kind) }) hn htype hms

end Absorb

/-! ## The families of a stream -/

/-- The first message of a name with the metrics of all messages of the name. -/
def joined? (ms : List FamilyMessage) (n : String) : Option FamilyMessage :=
  (ms.find? (·.name = n)).map fun m => { m with metrics := metricsOf (ms.filter (·.name = n)) }

/-- One message for each name, in the order in which the names appear. -/
def joined (ms : List FamilyMessage) : List FamilyMessage := (ms.map (·.name)).eraseDups.filterMap (joined? ms)

/-- Messages of one name have one type. -/
def Uniform (ms : List FamilyMessage) : Prop := ∀ m ∈ ms, ∀ x ∈ ms, x.name = m.name → x.type = m.type

section Uniform

variable {m : FamilyMessage} {ms : List FamilyMessage} (h : Uniform (m :: ms))
include h

theorem Uniform.type_eq_of_name_eq : ∀ x ∈ ms, x.name = m.name → x.type = m.type := fun x hx =>
  h m List.mem_cons_self x (List.mem_cons_of_mem _ hx)

theorem Uniform.same_iff : ∀ x ∈ ms, Same m x ↔ x.name = m.name := fun x hx =>
  ⟨fun hsame => hsame.1, fun hname => ⟨hname, h.type_eq_of_name_eq x hx hname⟩⟩

theorem Uniform.filter_same : ms.filter (Same m) = ms.filter (·.name = m.name) :=
  List.filter_congr fun x hx => decide_eq_decide.mpr (h.same_iff x hx)

theorem Uniform.filter_not_same : ms.filter (¬ Same m ·) = ms.filter (·.name ≠ m.name) :=
  List.filter_congr fun x hx => decide_eq_decide.mpr (not_congr (h.same_iff x hx))

theorem Uniform.filter (p : FamilyMessage → Bool) : Uniform (ms.filter p) := fun x hx y hy =>
  h x (List.mem_cons_of_mem _ (List.mem_filter.mp hx).1) y (List.mem_cons_of_mem _ (List.mem_filter.mp hy).1)

end Uniform

theorem joined_cons (m : FamilyMessage) (ms : List FamilyMessage) :
    joined (m :: ms) = { m with metrics := m.metrics ++ metricsOf (ms.filter (·.name = m.name)) } ::
      joined (ms.filter (·.name ≠ m.name)) := by
  have hfirst : joined? (m :: ms) m.name =
      some { m with metrics := m.metrics ++ metricsOf (ms.filter (·.name = m.name)) } := by
    simp [joined?, metricsOf]
  have hothers : ∀ n, n ≠ m.name → joined? (m :: ms) n = joined? (ms.filter (·.name ≠ m.name)) n := by
    intro n hn
    have hfind : (ms.filter (·.name ≠ m.name)).find? (·.name = n) = ms.find? (·.name = n) := by
      rw [List.find?_filter]
      congr 1
      funext x
      by_cases hx : x.name = n <;> simp [hx, hn]
    have hfilter : (ms.filter (·.name ≠ m.name)).filter (·.name = n) = ms.filter (·.name = n) := by
      rw [List.filter_filter]
      refine List.filter_congr fun x _ => ?_
      by_cases hx : x.name = n <;> simp [hx, hn]
    rw [joined?, joined?, hfind, hfilter, List.find?_cons_of_neg (by simpa using hn.symm),
      List.filter_cons_of_neg (by simpa using hn.symm)]
  have hnames : (ms.map (·.name)).filter (fun n => !n == m.name) = (ms.filter (·.name ≠ m.name)).map (·.name) := by
    rw [List.filter_map]
    congr 2
    funext x
    exact (decide_not).symm
  rw [joined, List.map_cons, List.eraseDups_cons, hnames, List.filterMap_cons_some hfirst, joined]
  refine congrArg _ (List.filterMap_congr fun n hn => hothers n ?_)
  obtain ⟨x, hx, rfl⟩ := List.mem_map.mp (List.mem_eraseDups.mp hn)
  simpa using (List.mem_filter.mp hx).2

/-- Messages of uniform types and new names add their families at the end, one for each name. -/
theorem foldlM_addNext_of_uniform {ms : List FamilyMessage} (hms : Uniform ms) {es : Families}
    (hnew : ∀ m ∈ ms, m.name ∉ es.map Prod.fst) :
    ms.foldlM addNext es = .ok (es ++ (joined ms).map fun m => (m.name, m.family)) := by
  -- the first message absorbs those of its name, and fewer messages are left
  match ms, hms, hnew with
  | [], _, _ =>
    simp [joined]
    rfl
  | m :: ms, hms, hnew =>
    obtain ⟨hm, hnew⟩ := List.forall_mem_cons.mp hnew
    let m' : FamilyMessage := { m with metrics := m.metrics ++ metricsOf (ms.filter (·.name = m.name)) }
    have hadd : addNext es m' = .ok (es ++ [(m.name, m'.family)]) := addFamily_of_not_mem (f := m'.family) hm
    have hnew' : ∀ x ∈ ms.filter (·.name ≠ m.name), x.name ∉ (es ++ [(m.name, m'.family)]).map Prod.fst := by
      intro x hx
      obtain ⟨hx, hname⟩ := List.mem_filter.mp hx
      simpa using ⟨by simpa using hnew x hx, by simpa using hname⟩
    rw [foldlM_addNext_absorb fun x hx hname _ => hms.type_eq_of_name_eq x hx hname, hms.filter_same,
      hms.filter_not_same, List.foldlM_cons, hadd, joined_cons]
    refine (foldlM_addNext_of_uniform (hms.filter _) hnew').trans ?_
    rw [List.append_assoc]
    rfl
termination_by ms.length
decreasing_by
  exact Nat.lt_succ_of_le (List.length_filter_le _ _)

/-- The type of the entry of a name. -/
def typeIn? (es : Families) (n : String) : Option MetricType := (es.lookup n).map Family.type

/-- A family that is added has the type of the entry of its name, and no entry changes its type. -/
theorem typeIn?_of_addFamily {es es' : Families} {f : Family} (h : addFamily es f = .ok es') :
    typeIn? es' f.name = some f.type ∧ ∀ {n t}, typeIn? es n = some t → typeIn? es' n = some t := by
  unfold typeIn?
  rcases addFamily_eq_ok_iff.mp h with ⟨hnew, rfl⟩ | ⟨existing, hf, htype, rfl⟩
  · rw [Appearance.lookup_append_singleton hnew]
    refine ⟨rfl, fun {n t} ht => ?_⟩
    have hne : f.name ≠ n := by
      rintro rfl
      rw [Appearance.lookup_eq_none_iff.mpr hnew] at ht
      cases ht
    rwa [Appearance.lookup_append_singleton_of_ne hne]
  · refine ⟨by simpa [Appearance.lookup_alter, hf] using htype, fun {n t} ht => ?_⟩
    rw [Appearance.lookup_alter]
    split
    next hn =>
      subst hn
      rw [hf] at ht ⊢
      exact ht
    next => exact ht

/-- If messages are read, those of one name are of one type. -/
theorem kind_eq_of_foldlM_addNext {ms : List FamilyMessage} {es es' : Families} (h : ms.foldlM addNext es = .ok es')
    {m x : FamilyMessage} (hm : m ∈ ms) (hx : x ∈ ms) (hname : x.name = m.name) : x.kind = m.kind := by
  have htypes : ∀ {es}, ms.foldlM addNext es = .ok es' →
      (∀ m ∈ ms, typeIn? es' m.name = some m.kind) ∧ ∀ {n t}, typeIn? es n = some t → typeIn? es' n = some t := by
    clear h hm hx
    induction ms with
    | nil =>
      intro es h
      cases h
      exact ⟨by simp, id⟩
    | cons m ms ih =>
      intro es h
      obtain ⟨es₁, h₁, h⟩ := Outcome.foldlM_cons_eq_ok_iff.mp h
      obtain ⟨hm, hold⟩ := typeIn?_of_addFamily h₁
      obtain ⟨hms, hold'⟩ := ih h
      exact ⟨List.forall_mem_cons.mpr ⟨hold' hm, hms⟩, fun ht => hold' (hold ht)⟩
  have hmx := (htypes h).1 x hx
  rw [hname, (htypes h).1 m hm] at hmx
  exact (Option.some.inj hmx).symm

/-! ## Splitting a family -/

/-- The metrics of a message and of the messages of its name and type that follow it, handed over in other messages of
this name and type; the messages between them stay as they are. -/
structure Respread (m : FamilyMessage) (after : List FamilyMessage) (xs : List MetricMessage)
    (after' : List FamilyMessage) : Prop where
  metrics : xs ++ metricsOf (after'.filter (Same m)) = m.metrics ++ metricsOf (after.filter (Same m))
  others : after'.filter (¬ Same m ·) = after.filter (¬ Same m ·)

/-- Each metric is accepted under the type wherever it is handed over. -/
theorem Respread.wellFormed {m : FamilyMessage} {after after' : List FamilyMessage} {xs : List MetricMessage}
    (h : Respread m after xs after') (hm : m.WellFormed) (hafter : ∀ x ∈ after, x.WellFormed) :
    FamilyMessage.WellFormed { m with metrics := xs } ∧ ∀ x ∈ after', x.WellFormed := by
  have hkind : ∀ {x}, Same m x → x.kind = m.kind := fun h => by rw [kind, kind, h.2]
  have hmetrics : ∀ x ∈ xs ++ metricsOf (after'.filter (Same m)),
      (x.part m.kind).Ordered ∧ (x.labels.map Label.name).Nodup := by
    rw [h.metrics]
    intro x hx
    rcases List.mem_append.mp hx with hx | hx
    · exact ⟨hm.ordered x hx, hm.labelled x hx⟩
    · obtain ⟨y, hy, hx⟩ := List.mem_flatMap.mp hx
      obtain ⟨hy, hsame⟩ := List.mem_filter.mp hy
      rw [← hkind (of_decide_eq_true hsame)]
      exact ⟨(hafter y hy).ordered x hx, (hafter y hy).labelled x hx⟩
  refine ⟨⟨hm.named, hm.typed, fun x hx => (hmetrics x (List.mem_append_left _ hx)).1,
    fun x hx => (hmetrics x (List.mem_append_left _ hx)).2⟩, fun y hy => ?_⟩
  by_cases hsame : Same m y
  · have hy : ∀ x ∈ y.metrics, x ∈ xs ++ metricsOf (after'.filter (Same m)) := fun x hx =>
      List.mem_append_right _ (List.mem_flatMap.mpr ⟨y, List.mem_filter.mpr ⟨hy, decide_eq_true hsame⟩, hx⟩)
    exact ⟨hsame.1 ▸ hm.named, hsame.2 ▸ hm.typed, fun x hx => hkind hsame ▸ (hmetrics x (hy x hx)).1,
      fun x hx => (hmetrics x (hy x hx)).2⟩
  · have hy : y ∈ after'.filter (¬ Same m ·) := List.mem_filter.mpr ⟨hy, by simpa using hsame⟩
    rw [h.others] at hy
    exact hafter y (List.mem_filter.mp hy).1

theorem Respread.foldlM_eq {m : FamilyMessage} {after after' : List FamilyMessage} {xs : List MetricMessage}
    (h : Respread m after xs after') (hm : m.WellFormed) (hafter : ∀ x ∈ after, x.WellFormed)
    (before : List FamilyMessage) (es : Families) :
    (before ++ { m with metrics := xs } :: after').foldlM addNext es = (before ++ m :: after).foldlM addNext es := by
  obtain ⟨hm', hafter'⟩ := h.wellFormed hm hafter
  rw [List.foldlM_append, List.foldlM_append]
  congr 1
  funext es'
  rw [foldlM_addNext_absorb fun x hx _ => (hafter x hx).type_eq hm, ← h.metrics, ← h.others]
  exact foldlM_addNext_absorb (fun x hx _ => (hafter' x hx).type_eq hm') es'

/-- **A protobuf stream is grouped by family name.** Reading well-formed messages fails exactly if two of one name have
different types, and otherwise gives the families that have metrics, each described by the first message of its name.
It does not matter in which messages of a name and type the metrics are handed over. -/
theorem groups_by_name {ms : List FamilyMessage} {bytes : List (List UInt8)} (hms : ∀ m ∈ ms, m.WellFormed)
    (hbytes : List.Forall₂ HasBytes ms bytes) :
    ((∃ fault, read (bytes.flatMap delimited) = .error fault) ↔
        ∃ m ∈ ms, ∃ x ∈ ms, x.name = m.name ∧ x.type ≠ m.type) ∧
      ((∀ m ∈ ms, ∀ x ∈ ms, x.name = m.name → x.type = m.type) →
        read (bytes.flatMap delimited) = .ok (((joined ms).filter (!·.metrics.isEmpty)).map family)) ∧
      ∀ before m after xs after' bytes', ms = before ++ m :: after → Respread m after xs after' →
        List.Forall₂ HasBytes (before ++ { m with metrics := xs } :: after') bytes' →
        read (bytes'.flatMap delimited) = read (bytes.flatMap delimited) := by
  have hok : (∀ m ∈ ms, ∀ x ∈ ms, x.name = m.name → x.type = m.type) →
      read (bytes.flatMap delimited) = .ok (((joined ms).filter (!·.metrics.isEmpty)).map family) := by
    intro huniform
    rw [read_flatMap_delimited hms hbytes, foldlM_addNext_of_uniform huniform (by simp)]
    show Except.ok ((List.map Prod.snd ([] ++ (joined ms).map fun m => (m.name, m.family))).filter _) = _
    rw [List.nil_append, List.map_map, List.filter_map]
    congr 3
    funext m
    simp [family]
  refine ⟨⟨?_, ?_⟩, hok, ?_⟩
  · rintro ⟨fault, hfault⟩
    by_contra hnone
    rw [hok fun m hm x hx hname => by_contra fun htype => hnone ⟨m, hm, x, hx, hname, htype⟩] at hfault
    cases hfault
  · rintro ⟨m, hm, x, hx, hname, htype⟩
    rw [read_flatMap_delimited hms hbytes]
    cases hfold : ms.foldlM addNext [] with
    | error fault => exact ⟨fault, rfl⟩
    | ok es => exact absurd ((hms x hx).type_eq (hms m hm) (kind_eq_of_foldlM_addNext hfold hm hx hname)) htype
  · rintro before m after xs after' bytes' rfl h hbytes'
    obtain ⟨hbefore, hm, hafter⟩ : (∀ x ∈ before, x.WellFormed) ∧ m.WellFormed ∧ ∀ x ∈ after, x.WellFormed := by
      simpa [or_imp, forall_and] using hms
    obtain ⟨hfirst, hafter'⟩ := h.wellFormed hm hafter
    have hms' : ∀ x ∈ before ++ { m with metrics := xs } :: after', x.WellFormed := by
      simpa [or_imp, forall_and] using ⟨hbefore, hfirst, hafter'⟩
    rw [read_flatMap_delimited hms' hbytes', read_flatMap_delimited hms hbytes, h.foldlM_eq hm hafter]

/-- A counter of hits on a path, which nobody hit yet. -/
def pathMetric (path : String) : MetricMessage := .blank [⟨"path", path⟩]

/-- A message of the hits. -/
def hitsMessage (help : Option String) (metrics : List MetricMessage) : FamilyMessage := ⟨"hits", help, 0, metrics⟩

/-- A message of a gauge without metrics. -/
def idleMessage : FamilyMessage := ⟨"idle", some "", 1, []⟩

/-- The hits come in two messages, the first of which gives the help, and the gauge is left out. Sending them in one
message makes no difference. -/
theorem groups_by_name_splitHits :
    let a := pathMetric "/a"
    let b := pathMetric "/b"
    let ms := [hitsMessage (some "Hits.") [a], idleMessage, hitsMessage none [b]]
    let ms' := [hitsMessage (some "Hits.") [a, b], idleMessage]
    let bytes (ms : List FamilyMessage) := ms.map fun m => encode m.fields
    ((∀ m ∈ ms, m.WellFormed) ∧ List.Forall₂ HasBytes ms (bytes ms)) ∧
      read ((bytes ms).flatMap delimited) = .ok [(hitsMessage (some "Hits.") [a, b]).family] ∧
      read ((bytes ms').flatMap delimited) = read ((bytes ms).flatMap delimited) := by
  intro a b ms ms' bytes
  have hhits : ∀ help (paths : List String), (hitsMessage help (paths.map pathMetric)).WellFormed := by
    intro help paths
    refine ⟨by simp [hitsMessage], ⟨.counter, rfl⟩, fun x _ => trivial, fun x hx => ?_⟩
    obtain ⟨path, -, rfl⟩ := List.mem_map.mp hx
    exact List.nodup_singleton _
  have hidle : idleMessage.WellFormed := by
    refine ⟨?_, ⟨.gauge, rfl⟩, ?_, ?_⟩ <;> simp [idleMessage]
  have hwf : ∀ m ∈ ms ++ ms', m.WellFormed := by
    simp only [ms, ms', List.cons_append, List.nil_append, List.forall_mem_cons]
    exact ⟨hhits _ ["/a"], hidle, hhits _ ["/b"], hhits _ ["/a", "/b"], hidle, by simp⟩
  have hlen : ∀ m ∈ ms ++ ms', (encode m.fields).length < UInt64.size := by decide +kernel
  have hbytes : ∀ ns, ns ⊆ ms ++ ms' → List.Forall₂ HasBytes ns (bytes ns) := by
    intro ns hns
    refine List.forall₂_map_right_iff.mpr (List.forall₂_same.mpr fun m hm => ?_)
    exact hasBytes_encode (hwf m (hns hm)) (hlen m (hns hm))
  have hms : ∀ m ∈ ms, m.WellFormed := fun m hm => hwf m (List.mem_append_left _ hm)
  have hmsBytes := hbytes ms (List.subset_append_left _ _)
  obtain ⟨-, hok, hsplit⟩ := groups_by_name hms hmsBytes
  refine ⟨⟨hms, hmsBytes⟩, ?_, ?_⟩
  · exact (hok (by simp [ms, hitsMessage, idleMessage])).trans rfl
  · exact hsplit [] (hitsMessage (some "Hits.") [a]) _ [a, b] [idleMessage] _ rfl ⟨rfl, rfl⟩
      (hbytes ms' (List.subset_append_right _ _))

end MetricGateway.Protobuf
