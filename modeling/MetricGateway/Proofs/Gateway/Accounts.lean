import MetricGateway.Gateway.Accounts
import MetricGateway.Proofs.Table
import MetricGateway.Proofs.Text.Pieces

/-!
# Which accounts a list of entries gives

An entry gives an account if it is a user and a password around its only equals sign (`Gives`, `entry?_eq_some_iff`).
The accounts of a list are among those that its entries give (`exists_entry_of_get?`), and there are some if any entry
gives one (`size_ofEntries_ne_zero`).
-/

namespace MetricGateway.Accounts

/-- The entry is the user and the password around an equals sign, and has no other one. -/
def Gives (entry user password : String) : Prop :=
  entry.toList = user.toList ++ '=' :: password.toList ∧ '=' ∉ user.toList ∧ '=' ∉ password.toList

theorem entry?_eq_some_iff (entry user password : String) :
    entry? entry = some (user, password) ↔ Gives entry user password := by
  have hpieces : entry? entry = some (user, password) ↔
      entry.toList.splitOn '=' = [user.toList, password.toList] := by
    unfold entry?
    split
    next u p hup =>
      rw [hup]
      constructor
      · intro h
        cases h
        rw [String.toList_ofList, String.toList_ofList]
      · intro h
        obtain ⟨hu, hp⟩ : u = user.toList ∧ p = password.toList := by simpa using h
        rw [hu, hp, String.ofList_toList, String.ofList_toList]
    next hno =>
      constructor
      · intro h
        cases h
      · intro h
        exact absurd h (hno _ _)
  have hjoint : ['='].intercalate [user.toList, password.toList] = user.toList ++ '=' :: password.toList := by
    simp
  rw [hpieces, Text.splitOn_eq_iff, Gives, hjoint]
  constructor
  · rintro ⟨-, hno, hjoin⟩
    exact ⟨hjoin.symm, hno _ (by simp), hno _ (by simp)⟩
  · rintro ⟨hjoin, hu, hp⟩
    refine ⟨by simp, ?_, hjoin.symm⟩
    intro t ht
    rcases List.mem_cons.mp ht with rfl | ht
    · exact hu
    · rw [List.mem_singleton.mp ht]
      exact hp

theorem exists_entry_of_get? {entries : List String} {user password : String}
    (h : (ofEntries entries).get? user = some password) : ∃ entry ∈ entries, Gives entry user password := by
  obtain ⟨entry, hmem, he⟩ := List.mem_filterMap.mp (Table.mem_of_get?_ofList h)
  exact ⟨entry, hmem, (entry?_eq_some_iff _ _ _).mp he⟩

theorem size_ofEntries_ne_zero {entries : List String} {entry user password : String} (hmem : entry ∈ entries)
    (h : Gives entry user password) : (ofEntries entries).size ≠ 0 :=
  Table.size_ofList_ne_zero (List.mem_filterMap.mpr ⟨entry, hmem, (entry?_eq_some_iff _ _ _).mpr h⟩)

end MetricGateway.Accounts
