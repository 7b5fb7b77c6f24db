import Mathlib.Data.List.Perm.Basic
import Mathlib.Data.String.Basic
import RowQuery.Json.Basic

/-!
# Members in order

Members that are put in their places one by one end up in ascending order of names. Where no name
comes twice none of them takes the place of another, so it is a sorting: the members that were there
before, in the one ascending order they have.
-/

set_option autoImplicit false

namespace RowQuery

variable {α β : Type}

/-! ## Named entries -/

/-- The names ascend, so none of them comes twice. -/
def Ascending (entries : List (String × α)) : Prop := entries.Pairwise fun a b => a.1 < b.1

instance (entries : List (String × α)) : Decidable (Ascending entries) :=
  inferInstanceAs (Decidable (List.Pairwise _ _))

/-- The entries, sorted by their names. -/
def sortedByName (entries : List (String × α)) : List (String × α) :=
  entries.mergeSort fun a b => a.1 ≤ b.1

theorem Ascending.nodup {entries : List (String × α)} (h : Ascending entries) :
    (entries.map Prod.fst).Nodup :=
  List.pairwise_map.mpr (h.imp fun hlt => ne_of_lt hlt)

theorem Ascending.map {entries : List (String × α)} (h : Ascending entries) (f : α → β) :
    Ascending (entries.map (Prod.map id f)) :=
  List.pairwise_map.mpr h

theorem map_fst_map (entries : List (String × α)) (f : α → β) :
    (entries.map (Prod.map id f)).map Prod.fst = entries.map Prod.fst := by
  rw [List.map_map]
  rfl

theorem nodup_map_fst_map {entries : List (String × α)} (h : (entries.map Prod.fst).Nodup)
    (f : α → β) : ((entries.map (Prod.map id f)).map Prod.fst).Nodup := by
  rwa [map_fst_map]

theorem sortedByName_perm (entries : List (String × α)) : (sortedByName entries).Perm entries :=
  List.mergeSort_perm entries _

theorem sortedByName_map (entries : List (String × α)) (f : α → β) :
    sortedByName (entries.map (Prod.map id f)) = (sortedByName entries).map (Prod.map id f) := by
  symm
  exact List.map_mergeSort fun _ _ _ _ => rfl

/-- Different names in order ascend. -/
theorem ascending_sortedByName {entries : List (String × α)} (h : (entries.map Prod.fst).Nodup) :
    Ascending (sortedByName entries) := by
  have hle : (sortedByName entries).Pairwise fun a b => a.1 ≤ b.1 := by
    refine (List.pairwise_mergeSort ?_ ?_ entries).imp fun h => of_decide_eq_true h
    · intro a b c hab hbc
      exact decide_eq_true (le_trans (of_decide_eq_true hab) (of_decide_eq_true hbc))
    · intro a b
      rw [← Bool.decide_or]
      exact decide_eq_true (le_total a.1 b.1)
  have hne : (sortedByName entries).Pairwise fun a b => a.1 ≠ b.1 :=
    List.pairwise_map.mp (((sortedByName_perm entries).map Prod.fst).nodup_iff.mpr h)
  exact (hle.and hne).imp fun h => lt_of_le_of_ne h.1 h.2

/-- Entries ascend in one way. -/
theorem Ascending.eq_of_perm {entries others : List (String × α)} (h : Ascending entries)
    (h' : Ascending others) (hperm : entries.Perm others) : entries = others :=
  hperm.eq_of_pairwise (fun _ _ _ _ hab hba => absurd hba (lt_asymm hab)) h h'

namespace Json

/-! ## Sorted members -/

theorem mem_insertMember {name n : String} {value j : Json} {members : List (String × Json)}
    (h : (n, j) ∈ insertMember name value members) :
    (n = name ∧ j = value) ∨ (n, j) ∈ members := by
  induction members with
  | nil => exact .inl (Prod.mk.inj (List.mem_singleton.mp h))
  | cons m rest ih =>
    obtain ⟨n', j'⟩ := m
    unfold insertMember at h
    split_ifs at h with hlt heq
    · exact (List.mem_cons.mp h).imp Prod.mk.inj id
    · subst heq
      exact (List.mem_cons.mp h).imp Prod.mk.inj (List.mem_cons_of_mem _)
    · rcases List.mem_cons.mp h with hhead | hrest
      · exact .inr (hhead ▸ List.mem_cons_self)
      · exact (ih hrest).imp id (List.mem_cons_of_mem _)

theorem ascending_insertMember (name : String) (value : Json) {members : List (String × Json)}
    (h : Ascending members) : Ascending (insertMember name value members) := by
  induction members with
  | nil => exact List.pairwise_singleton _ _
  | cons m rest ih =>
    obtain ⟨n, j⟩ := m
    obtain ⟨hfirst, hrest⟩ := List.pairwise_cons.mp h
    unfold insertMember
    split_ifs with hlt heq
    · refine List.pairwise_cons.mpr ⟨fun m hm => ?_, h⟩
      rcases List.mem_cons.mp hm with rfl | hm
      · exact hlt
      · exact lt_trans hlt (hfirst m hm)
    · exact List.pairwise_cons.mpr ⟨hfirst, hrest⟩
    · refine List.pairwise_cons.mpr ⟨fun m hm => ?_, ih hrest⟩
      rcases mem_insertMember hm with ⟨hname, -⟩ | hm
      · rw [hname]
        exact lt_of_le_of_ne (not_lt.mp hlt) heq
      · exact hfirst m hm

theorem perm_insertMember {name : String} (value : Json) {members : List (String × Json)}
    (h : name ∉ members.map Prod.fst) :
    (insertMember name value members).Perm ((name, value) :: members) := by
  induction members with
  | nil => exact .refl _
  | cons m rest ih =>
    obtain ⟨n, j⟩ := m
    obtain ⟨hne, hrest⟩ := not_or.mp (mt List.mem_cons.mpr h)
    unfold insertMember
    split_ifs with hlt heq
    · exact .refl _
    · exact absurd heq.symm hne
    · exact ((ih hrest).cons (n, j)).trans (.swap ..)

theorem ascending_sortMembers (members : List (String × Json)) :
    Ascending (sortMembers members) := by
  suffices h : ∀ sorted : List (String × Json), Ascending sorted →
      Ascending (members.foldl (fun sorted m => insertMember m.1 m.2 sorted) sorted)
    from h [] .nil
  induction members with
  | nil => exact fun _ h => h
  | cons m rest ih => exact fun sorted h => ih _ (ascending_insertMember m.1 m.2 h)

/-- Members of different names are all kept. -/
theorem perm_sortMembers {members : List (String × Json)} (h : (members.map Prod.fst).Nodup) :
    (sortMembers members).Perm members := by
  suffices hfold : ∀ sorted : List (String × Json), ((members ++ sorted).map Prod.fst).Nodup →
      (members.foldl (fun sorted m => insertMember m.1 m.2 sorted) sorted).Perm
        (members ++ sorted) by
    have hnil := hfold [] (by rwa [List.append_nil])
    rwa [List.append_nil] at hnil
  clear h
  induction members with
  | nil => exact fun sorted _ => .refl _
  | cons m rest ih =>
    intro sorted h
    obtain ⟨n, j⟩ := m
    have hnew : n ∉ (rest ++ sorted).map Prod.fst := (List.nodup_cons.mp h).1
    rw [List.map_append, List.mem_append, not_or] at hnew
    have hperm : (rest ++ insertMember n j sorted).Perm ((n, j) :: (rest ++ sorted)) :=
      ((perm_insertMember j hnew.2).append_left rest).trans List.perm_middle
    exact (ih _ ((hperm.map Prod.fst).nodup_iff.mpr h)).trans hperm

/-- Members of different names are sorted by them. -/
theorem sortMembers_eq {members : List (String × Json)} (h : (members.map Prod.fst).Nodup) :
    sortMembers members = sortedByName members :=
  (ascending_sortMembers members).eq_of_perm (ascending_sortedByName h)
    ((perm_sortMembers h).trans (sortedByName_perm members).symm)

theorem sortMembers_of_ascending {members : List (String × Json)} (h : Ascending members) :
    sortMembers members = members :=
  (ascending_sortMembers members).eq_of_perm h (perm_sortMembers h.nodup)

end Json
end RowQuery
