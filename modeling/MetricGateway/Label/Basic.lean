import MetricGateway.Sorted
import MetricGateway.Text.Lowercase
import MetricGateway.Text.Quoted

/-!
# Labels and label sets

A label name is made of ASCII letters, digits and underscores and does not start with a digit; a metric name may also
contain colons. A `LabelSet` is a finite map from names to values, kept in strictly increasing order of the names, so a
name occurs at most once and label sets with the same labels are equal. `LabelSet.ofList?` builds one from labels in any
order and refuses a repeated name, naming the smallest one. Label sets are ordered label by label, the name before the
value, and a set comes before the sets that extend it. As text they stand in braces.

The labels of a push are added to those of each metric, the last one of a name counting, and then the *ignored names*
are dropped (`LabelSet.canonical`). So the value of a name that is not ignored is that of the last injected label of
that name, or else the metric's own.
-/

namespace MetricGateway

/-! ## Names -/

/-- A character of a label name. -/
def isLabelChar (c : Char) : Bool := c.isAlphanum || c == '_'

/-- A character of a metric name. -/
def isMetricChar (c : Char) : Bool := c.isAlphanum || c == '_' || c == ':'

/-- Whether a text is a name over a class of characters: not empty, and not starting with a digit. -/
def isNameOver (p : Char → Bool) : List Char → Bool
  | [] => false
  | c :: r => p c && !c.isDigit && r.all p

/-- Whether a string can name a label. -/
def isLabelName (s : String) : Bool := isNameOver isLabelChar s.toList

/-- Whether a string can name a metric. -/
def isMetricName (s : String) : Bool := isNameOver isMetricChar s.toList

/-- The name under which a metric name stands among labels. -/
def nameLabel : String := "__name__"

/-- The label of a bucket's upper bound. -/
def boundLabel : String := "le"

/-- The label of a quantile. -/
def quantileLabel : String := "quantile"

/-! ## Label sets -/

/-- A name with its value. -/
structure Label where
  name : String
  value : String
  deriving DecidableEq

/-- Labels are ordered by name, then by value. -/
instance : Ord Label := ⟨compareLex (compareOn Label.name) (compareOn Label.value)⟩

/-- Labels with pairwise different names. -/
structure LabelSet where
  /-- The labels in order of their names. -/
  toList : List Label
  increasing : Sorted.Increasing Label.name toList
  deriving DecidableEq

/-- Label sets are ordered as lists of labels. -/
instance : Ord LabelSet := ⟨fun s t => compare s.toList t.toList⟩

/-- A label name that was given more than once. -/
structure RepeatedName where
  name : String
  deriving DecidableEq

/-- The wording of a repetition. -/
def RepeatedName.message (r : RepeatedName) : String := s!"duplicate label name {Text.quoted r.name}"

namespace LabelSet

/-- The set without labels. -/
def empty : LabelSet := ⟨[], .nil⟩

/-- The value of a name. -/
def get? (s : LabelSet) (name : String) : Option String :=
  (Sorted.lookup? Label.name name s.toList).map Label.value

/-- Adds a label, instead of the one of its name if there is one. -/
def insert (s : LabelSet) (l : Label) : LabelSet := ⟨Sorted.put Label.name l s.toList, s.increasing.put⟩

/-- The labels that satisfy a test. -/
def filter (s : LabelSet) (p : Label → Bool) : LabelSet := ⟨s.toList.filter p, s.increasing.filter p⟩

/-- Adding labels one after the other, the last one of each name counts. -/
def insertAll (s : LabelSet) (ls : List Label) : LabelSet := ls.foldl insert s

/-- The first name that occurs twice in succession. -/
def firstRepeat? : List Label → Option String
  | a :: b :: r => if a.name = b.name then some a.name else firstRepeat? (b :: r)
  | _ => none

/-- Of two different names in sorted order, the first is smaller. -/
theorem lt_of_isLE_compareOn {a b : Label} (h : (compareOn Label.name a b).isLE) (hne : a.name ≠ b.name) :
    a.name < b.name := by
  rcases Std.lt_trichotomy a.name b.name with hlt | heq | hgt
  · exact hlt
  · exact absurd heq hne
  · have hc : compareOn Label.name b a = .lt := compareOfLessAndEq_eq_lt.mpr hgt
    have hs : compareOn Label.name a b = (compareOn Label.name b a).swap := Std.OrientedCmp.eq_swap
    rw [hs, hc] at h
    cases h

/-- A sorted list without a repetition is strictly increasing. -/
theorem increasing_of_firstRepeat? {ls : List Label} (h : firstRepeat? ls = none)
    (hs : ls.Pairwise fun a b => (compareOn Label.name a b).isLE) : Sorted.Increasing Label.name ls := by
  induction ls with
  | nil => exact .nil
  | cons a r ih =>
    cases r with
    | nil => simp
    | cons b r =>
      rw [firstRepeat?] at h
      split at h
      · cases h
      next hne =>
        have hr := ih h hs.of_cons
        have hab : a.name < b.name :=
          lt_of_isLE_compareOn (List.rel_of_pairwise_cons hs List.mem_cons_self) hne
        refine .cons (fun c hc => ?_) hr
        rcases List.mem_cons.mp hc with rfl | hc
        · exact hab
        · exact String.lt_trans hab (List.rel_of_pairwise_cons hr hc)

/-- The set of the given labels, unless a name is repeated. -/
def ofList? (ls : List Label) : Except RepeatedName LabelSet :=
  let sorted := Sorted.sortBy (compareOn Label.name) ls
  match h : firstRepeat? sorted with
  | some name => .error ⟨name⟩
  | none => .ok ⟨sorted, increasing_of_firstRepeat? h (Sorted.pairwise_sortBy ls)⟩

/-- Sets with the same labels are equal. -/
theorem ext {s t : LabelSet} (h : s.toList = t.toList) : s = t := by
  cases s; cases t; cases h; rfl

/-- After adding a label, its name has its value and every other name what it had. -/
@[simp] theorem get?_insert (s : LabelSet) (l : Label) (name : String) :
    (s.insert l).get? name = if l.name = name then some l.value else s.get? name := by
  simp only [get?, insert, Sorted.lookup?_put s.increasing]
  split <;> rfl

end LabelSet

/-! ## Label sets as text -/

/-- A label as text. -/
def Label.text (l : Label) : String := l.name ++ "=" ++ Text.quoted l.value

/-- Labels in braces. -/
def showLabels (ls : List Label) : String := "\x7b" ++ ", ".intercalate (ls.map Label.text) ++ "\x7d"

namespace LabelSet

/-- A label set as text. -/
def text (s : LabelSet) : String := showLabels s.toList

/-- A label set as text, together with the name of its metric, which stands behind a label of the same name. -/
def textWithName (s : LabelSet) (family : String) : String :=
  showLabels (Sorted.sortBy (compareOn Label.name) (s.toList ++ [⟨nameLabel, family⟩]))

end LabelSet

/-! ## Canonical labels -/

/-- A set of ignored names, in lower case. -/
structure IgnoredNames where
  names : List (List Char)

namespace IgnoredNames

/-- The set that the given names stand for. -/
def ofList (names : List String) : IgnoredNames :=
  ⟨(names.map fun n => Text.lower (Text.trim n.toList)).filter (· ≠ [])⟩

/-- Whether nothing is ignored. -/
def isEmpty (i : IgnoredNames) : Bool := i.names.isEmpty

/-- Whether a name is ignored. -/
def contains (i : IgnoredNames) (name : String) : Bool := i.names.contains (Text.lower name.toList)

end IgnoredNames

/-- Adds the injected labels and drops the ignored names. -/
def LabelSet.canonical (s : LabelSet) (injected : List Label) (ignored : IgnoredNames) : LabelSet :=
  (s.insertAll injected).filter fun l => !ignored.contains l.name

end MetricGateway
