import Mathlib.Data.List.Nodup
import RowQuery.Value.Basic

/-!
# Values as they can be made

The type of values has objects with two fields of one name. Nobody can make one: an object starts
without fields, and a field that is given a second value keeps its place and its name. So the names
of an object are different, in a value and in every value inside it.
-/

set_option autoImplicit false

namespace RowQuery

namespace Fields

variable {α : Type} {name : String} {value : α} {entries : List (String × α)}

/-- A name that is given a value is a new one, at the end, or keeps its place. -/
theorem map_fst_insertInto (name : String) (value : α) (entries : List (String × α)) :
    (insertInto name value entries).map Prod.fst =
      if name ∈ entries.map Prod.fst then entries.map Prod.fst
      else entries.map Prod.fst ++ [name] := by
  induction entries with
  | nil => rfl
  | cons e rest ih =>
    obtain ⟨n, v⟩ := e
    unfold insertInto
    by_cases h : n = name
    · rw [if_pos h, if_pos (by simp [h])]
      rfl
    · rw [if_neg h, List.map_cons, ih]
      have hmem : name ∈ ((n, v) :: rest).map Prod.fst ↔ name ∈ rest.map Prod.fst := by
        rw [List.map_cons, List.mem_cons, or_iff_right fun heq => h heq.symm]
      by_cases hrest : name ∈ rest.map Prod.fst
      · rw [if_pos hrest, if_pos (hmem.mpr hrest)]
        rfl
      · rw [if_neg hrest, if_neg (mt hmem.mp hrest)]
        rfl

theorem nodup_insert {fields : Fields α} (h : fields.names.Nodup) (name : String) (value : α) :
    (fields.insert name value).names.Nodup := by
  show ((insertInto name value fields.entries).map Prod.fst).Nodup
  rw [map_fst_insertInto]
  split_ifs with hmem
  · exact h
  · exact List.nodup_append.mpr ⟨h, List.nodup_singleton _, by
      intro a ha b hb
      rw [List.mem_singleton.mp hb]
      exact fun heq => hmem (heq ▸ ha)⟩

/-- What an object holds after a name was given a value. -/
theorem mem_insertInto {e : String × α} (h : e ∈ insertInto name value entries) :
    e.2 = value ∨ e ∈ entries := by
  induction entries with
  | nil => exact .inl (congrArg Prod.snd (List.mem_singleton.mp h))
  | cons e' rest ih =>
    obtain ⟨n, v⟩ := e'
    unfold insertInto at h
    split_ifs at h with hname
    · rcases List.mem_cons.mp h with rfl | hrest
      · exact .inl rfl
      · exact .inr (List.mem_cons_of_mem _ hrest)
    · rcases List.mem_cons.mp h with rfl | hrest
      · exact .inr List.mem_cons_self
      · exact (ih hrest).imp id (List.mem_cons_of_mem _)

/-- A new name comes last. -/
theorem insertInto_of_not_mem (h : name ∉ entries.map Prod.fst) :
    insertInto name value entries = entries ++ [(name, value)] := by
  induction entries with
  | nil => rfl
  | cons e rest ih =>
    obtain ⟨n, v⟩ := e
    obtain ⟨hne, hrest⟩ := not_or.mp (mt List.mem_cons.mpr h)
    unfold insertInto
    rw [if_neg fun heq => hne heq.symm, ih hrest]
    rfl

/-- Entries of different names are the fields that they make. -/
theorem ofList_of_nodup (h : (entries.map Prod.fst).Nodup) : ofList entries = ⟨entries⟩ := by
  suffices hfold : ∀ fields : Fields α, ((fields.entries ++ entries).map Prod.fst).Nodup →
      entries.foldl (fun fields e => fields.insert e.1 e.2) fields = ⟨fields.entries ++ entries⟩
    from hfold empty h
  clear h
  induction entries with
  | nil =>
    intro fields _
    rw [List.append_nil]
    rfl
  | cons e rest ih =>
    intro fields h
    obtain ⟨n, v⟩ := e
    have hnew : n ∉ fields.entries.map Prod.fst := by
      rw [List.map_append] at h
      obtain ⟨-, -, hdisjoint⟩ := List.nodup_append.mp h
      exact fun hn => hdisjoint n hn n List.mem_cons_self rfl
    rw [List.foldl_cons]
    have hinsert : fields.insert n v = ⟨fields.entries ++ [(n, v)]⟩ :=
      congrArg mk (insertInto_of_not_mem hnew)
    rw [hinsert, ih _ (by simpa using h), List.append_assoc]
    rfl

end Fields

namespace Value

/-- Neither an array nor an object. -/
def IsAtom : Value → Prop
  | .array _ => False
  | .object _ => False
  | _ => True

/-- The values that can be made. An object is made from the empty one by giving names values. -/
inductive Built : Value → Prop where
  | atom {v} : v.IsAtom → Built v
  | array {items} : (∀ v ∈ items, Built v) → Built (.array items)
  | empty : Built (.object .empty)
  | insert {fields v} (name) : Built (.object fields) → Built v →
    Built (.object (fields.insert name v))

/-- No object in the value has two fields of one name. -/
inductive Distinct : Value → Prop where
  | atom {v} : v.IsAtom → Distinct v
  | array {items} : (∀ v ∈ items, Distinct v) → Distinct (.array items)
  | object {fields} : fields.names.Nodup → (∀ e ∈ fields.entries, Distinct e.2) →
    Distinct (.object fields)

theorem Built.distinct {v : Value} (h : v.Built) : v.Distinct := by
  induction h with
  | atom h => exact .atom h
  | array _ ih => exact .array ih
  | empty => exact .object List.nodup_nil nofun
  | insert name _ _ ihfields ihv =>
    cases ihfields with
    | atom h => exact h.elim
    | object hnodup hentries =>
      refine .object (Fields.nodup_insert hnodup name _) fun e he => ?_
      rcases Fields.mem_insertInto he with hvalue | hbefore
      · exact hvalue ▸ ihv
      · exact hentries e hbefore

/-- An object is made from entries in any order, whatever names they repeat. -/
theorem Built.ofList {entries : List (String × Value)} (h : ∀ e ∈ entries, Built e.2) :
    Built (.object (.ofList entries)) := by
  suffices hfold : ∀ fields : Object, Built (.object fields) → Built (.object
      (entries.foldl (fun fields e => fields.insert e.1 e.2) fields))
    from hfold .empty .empty
  induction entries with
  | nil => exact fun _ hfields => hfields
  | cons e rest ih =>
    obtain ⟨hfirst, hrest⟩ := List.forall_mem_cons.mp h
    exact fun fields hfields => ih hrest _ (.insert e.1 hfields hfirst)

end Value
end RowQuery
