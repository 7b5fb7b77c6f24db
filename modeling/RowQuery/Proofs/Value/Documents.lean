import RowQuery.Proofs.Json.Members
import RowQuery.Proofs.Value.Built
import RowQuery.Value.Document

/-!
# Documents of values and values of documents

A value and its document say the same. From the canonical document the value comes back with the
fields of its objects in the order of their names, and a document that was read comes back as it was.
The document that keeps the order of fields is the canonical one but for that order.

All of it rests on names being different wherever fields are put in order, since of two members of
one name the order would keep one.
-/

set_option autoImplicit false

namespace RowQuery

/-- A function that goes through a list item by item is a map. -/
theorem eq_map_of_cons {α β : Type} {f : α → β} {g : List α → List β} (hnil : g [] = [])
    (hcons : ∀ a rest, g (a :: rest) = f a :: g rest) (items : List α) : g items = items.map f := by
  induction items with
  | nil => rw [hnil, List.map_nil]
  | cons a rest ih => rw [hcons, ih, List.map_cons]

namespace Json

/-- Neither an array nor an object. -/
def IsAtom : Json → Prop
  | .array _ => False
  | .object _ => False
  | _ => True

/-- The names of every object in the document ascend. -/
inductive Ordered : Json → Prop where
  | atom {j} : j.IsAtom → Ordered j
  | array {items} : (∀ j ∈ items, Ordered j) → Ordered (.array items)
  | object {members} : Ascending members → (∀ m ∈ members, Ordered m.2) →
    Ordered (.object members)

/-- The whole numbers in the document have 64 bits. -/
inductive Fits : Json → Prop where
  | null : Fits .null
  | bool (b) : Fits (.bool b)
  | int (n : Int64) : Fits (.int n.toInt)
  | float (x) : Fits (.float x)
  | string (s) : Fits (.string s)
  | array {items} : (∀ j ∈ items, Fits j) → Fits (.array items)
  | object {members} : (∀ m ∈ members, Fits m.2) → Fits (.object members)

/-- The documents differ in the order of members at most: an object in one has the names of the
object in the other, each once, and what stands under a name or at an index differs in the order of
members at most. -/
inductive Rearranged : Json → Json → Prop where
  | atom {j} : j.IsAtom → Rearranged j j
  | array {js ks} : js.length = ks.length →
    (∀ (i : Nat) (j k : Json), js[i]? = some j → ks[i]? = some k → Rearranged j k) →
    Rearranged (.array js) (.array ks)
  | object {ms ns} : (ms.map Prod.fst).Nodup → (ns.map Prod.fst).Perm (ms.map Prod.fst) →
    (∀ name j k, (name, j) ∈ ms → (name, k) ∈ ns → Rearranged j k) →
    Rearranged (.object ms) (.object ns)

theorem sorted_of_isAtom {j : Json} (h : j.IsAtom) : j.sorted = j := by
  cases j with
  | array | object => exact h.elim
  | _ => rfl

theorem sortedItems_eq_map (js : List Json) : sortedItems js = js.map sorted :=
  eq_map_of_cons rfl (fun _ _ => rfl) _

theorem sortedMembers_eq_map (ms : List (String × Json)) :
    sortedMembers ms = ms.map (Prod.map id sorted) :=
  eq_map_of_cons rfl (fun _ _ => rfl) _

end Json

namespace Value

open Json (Ordered Fits Rearranged)

/-! ## Item by item -/

theorem toJsonItems_eq_map (vs : List Value) : toJsonItems vs = vs.map toJson :=
  eq_map_of_cons rfl (fun _ _ => rfl) _

theorem toJsonMembers_eq_map (es : List (String × Value)) :
    toJsonMembers es = es.map (Prod.map id toJson) :=
  eq_map_of_cons rfl (fun _ _ => rfl) _

theorem toOrderedItems_eq_map (vs : List Value) : toOrderedItems vs = vs.map toOrderedJson :=
  eq_map_of_cons rfl (fun _ _ => rfl) _

theorem toOrderedMembers_eq_map (es : List (String × Value)) :
    toOrderedMembers es = es.map (Prod.map id toOrderedJson) :=
  eq_map_of_cons rfl (fun _ _ => rfl) _

theorem ofJsonItems_eq_map (js : List Json) : ofJsonItems js = js.map ofJson :=
  eq_map_of_cons rfl (fun _ _ => rfl) _

theorem ofJsonMembers_eq_map (ms : List (String × Json)) :
    ofJsonMembers ms = ms.map (Prod.map id ofJson) :=
  eq_map_of_cons rfl (fun _ _ => rfl) _

mutual
/-- The value with the fields of every object in it sorted by their names. -/
def sorted : Value → Value
  | .array items => .array (sortedItems items)
  | .object ⟨entries⟩ => .object ⟨sortedByName (sortedEntries entries)⟩
  | other => other
termination_by structural v => v

/-- `sorted` of every item. -/
def sortedItems : List Value → List Value
  | [] => []
  | v :: rest => sorted v :: sortedItems rest
termination_by structural vs => vs

/-- `sorted` of every field's value. -/
def sortedEntries : List (String × Value) → List (String × Value)
  | [] => []
  | (n, v) :: rest => (n, sorted v) :: sortedEntries rest
termination_by structural es => es
end

theorem sortedItems_eq_map (vs : List Value) : sortedItems vs = vs.map sorted :=
  eq_map_of_cons rfl (fun _ _ => rfl) _

theorem sortedEntries_eq_map (es : List (String × Value)) :
    sortedEntries es = es.map (Prod.map id sorted) :=
  eq_map_of_cons rfl (fun _ _ => rfl) _

/-! ## There and back -/

/-- The values that a document has a text for: no capability in them, and only finite numbers. -/
inductive Plain : Value → Prop where
  | null : Plain .null
  | bool (b) : Plain (.bool b)
  | int (n) : Plain (.int n)
  | float (x) : Plain (.float (.finite x))
  | string (s) : Plain (.string s)
  | array {items} : (∀ v ∈ items, Plain v) → Plain (.array items)
  | object {fields} : (∀ e ∈ fields.entries, Plain e.2) → Plain (.object fields)

/-- Every integer of 64 bits comes back as an integer. -/
theorem ofInt_toInt (n : Int64) : ofInt n.toInt = .int n := by
  have hfits : (Int64.minValue.toInt ≤ n.toInt && n.toInt ≤ Int64.maxValue.toInt) = true :=
    Bool.and_eq_true_iff.mpr ⟨decide_eq_true n.minValue_le_toInt, decide_eq_true n.toInt_le⟩
  have hint : int? n.toInt = some (.int n) := by
    rw [int?, if_pos hfits, Int64.ofInt_toInt]
  rw [ofInt, hint]
  rfl

/-- A value that is written and read again has its fields sorted. -/
theorem ofJson_toJson {v : Value} (h : v.Plain) (hdistinct : v.Distinct) :
    ofJson v.toJson = v.sorted := by
  induction h with
  | null | bool | float | string => rfl
  | int n => exact ofInt_toInt n
  | @array items _ ih =>
    cases hdistinct with
    | atom h => exact h.elim
    | array hitems =>
      rw [toJson, ofJson, sorted, toJsonItems_eq_map, ofJsonItems_eq_map, sortedItems_eq_map,
        List.map_map]
      exact congrArg Value.array (List.map_congr_left fun v hv => ih v hv (hitems v hv))
  | @object fields _ ih =>
    obtain ⟨entries⟩ := fields
    cases hdistinct with
    | atom h => exact h.elim
    | object hnodup hentries =>
      have hmembers := nodup_map_fst_map hnodup toJson
      have hback : (sortedByName entries).map (Prod.map id ofJson ∘ Prod.map id toJson) =
          (sortedByName entries).map (Prod.map id sorted) := by
        refine List.map_congr_left fun e he => ?_
        have hmem : e ∈ entries := (sortedByName_perm entries).mem_iff.mp he
        exact congrArg (Prod.mk e.1) (ih e hmem (hentries e hmem))
      have hsorted := ((ascending_sortedByName hnodup).map sorted).nodup
      rw [toJson, toJsonMembers_eq_map, Json.sortMembers_eq hmembers, sortedByName_map, ofJson,
        ofJsonMembers_eq_map, List.map_map, hback, Fields.ofList_of_nodup hsorted, sorted,
        sortedEntries_eq_map, sortedByName_map]

/-- A document that is read and written again is the same. -/
theorem toJson_ofJson {j : Json} (h : j.Ordered) (hfits : j.Fits) : (ofJson j).toJson = j := by
  induction h with
  | @atom j h =>
    cases hfits with
    | null | bool | float | string => rfl
    | int n => rw [ofJson, ofInt_toInt, toJson]
    | array | object => exact h.elim
  | @array items _ ih =>
    cases hfits with
    | array hitems =>
      rw [ofJson, toJson, ofJsonItems_eq_map, toJsonItems_eq_map, List.map_map]
      refine congrArg Json.array ((List.map_congr_left fun j hj => ?_).trans (List.map_id items))
      exact ih j hj (hitems j hj)
  | @object members hascending _ ih =>
    cases hfits with
    | object hmembers =>
      have hback : members.map (Prod.map id toJson ∘ Prod.map id ofJson) = members := by
        refine (List.map_congr_left fun m hm => ?_).trans (List.map_id members)
        exact congrArg (Prod.mk m.1) (ih m hm (hmembers m hm))
      have hnodup := (hascending.map ofJson).nodup
      rw [ofJson, ofJsonMembers_eq_map, Fields.ofList_of_nodup hnodup, toJson,
        toJsonMembers_eq_map, List.map_map, hback, Json.sortMembers_of_ascending hascending]

/-- Of a value without capabilities whose numbers are finite, a document loses the order of fields
and nothing else; and of a document whose whole numbers have 64 bits, the value loses nothing. -/
theorem documents_roundTrip :
    (∀ v : Value, v.Built → v.Plain → ofJson v.toJson = v.sorted) ∧
      ∀ j : Json, j.Ordered → j.Fits → (ofJson j).toJson = j :=
  ⟨fun _ hbuilt hplain => ofJson_toJson hplain hbuilt.distinct, fun _ => toJson_ofJson⟩

/-- Fields out of order at two depths, and a float that is a whole number. -/
theorem documents_roundTrip_nested :
    let two : Finite64 := ⟨false, 0x4000000000000000⟩
    let value : Value := .object (.ofList
      [("b", .array [.float (.finite two), .null]),
        ("a", .object (.ofList [("d", .int 2), ("c", .string "x")]))])
    let document : Json := .object
      [("a", .object [("c", .string "x"), ("d", .int 2)]), ("b", .array [.float two, .null])]
    (value.Built ∧ value.Plain ∧ ofJson value.toJson = value.sorted) ∧
      document.Ordered ∧ document.Fits ∧ (ofJson document).toJson = document := by
  intro two value document
  have hbuilt : value.Built := .ofList (List.forall_mem_cons.mpr
    ⟨.array (List.forall_mem_cons.mpr ⟨.atom trivial, List.forall_mem_singleton.mpr (.atom trivial)⟩),
      List.forall_mem_singleton.mpr (.ofList (List.forall_mem_cons.mpr
        ⟨.atom trivial, List.forall_mem_singleton.mpr (.atom trivial)⟩))⟩)
  have hplain : value.Plain := .object (List.forall_mem_cons.mpr
    ⟨.array (List.forall_mem_cons.mpr ⟨.float two, List.forall_mem_singleton.mpr .null⟩),
      List.forall_mem_singleton.mpr (.object (List.forall_mem_cons.mpr
        ⟨.int 2, List.forall_mem_singleton.mpr (.string "x")⟩))⟩)
  have hordered : document.Ordered := .object (by decide) (List.forall_mem_cons.mpr
    ⟨.object (by decide) (List.forall_mem_cons.mpr
        ⟨.atom trivial, List.forall_mem_singleton.mpr (.atom trivial)⟩),
      List.forall_mem_singleton.mpr (.array (List.forall_mem_cons.mpr
        ⟨.atom trivial, List.forall_mem_singleton.mpr (.atom trivial)⟩))⟩)
  have hfits : document.Fits := .object (List.forall_mem_cons.mpr
    ⟨.object (List.forall_mem_cons.mpr ⟨.string "x", List.forall_mem_singleton.mpr (.int 2)⟩),
      List.forall_mem_singleton.mpr (.array (List.forall_mem_cons.mpr
        ⟨.float two, List.forall_mem_singleton.mpr .null⟩))⟩)
  exact ⟨⟨hbuilt, hplain, documents_roundTrip.1 value hbuilt hplain⟩, hordered, hfits,
    documents_roundTrip.2 document hordered hfits⟩

/-! ## Both documents -/

theorem toOrderedJson_of_isAtom {v : Value} (h : v.IsAtom) : v.toOrderedJson = v.toJson := by
  cases v with
  | array | object => exact h.elim
  | _ => rfl

theorem isAtom_toJson {v : Value} (h : v.IsAtom) : v.toJson.IsAtom := by
  cases v with
  | array | object => exact h.elim
  | float x => cases x <;> trivial
  | _ => trivial

/-- The canonical document is in order, all the way down. -/
theorem ordered_toJson {v : Value} (h : v.Distinct) : v.toJson.Ordered := by
  induction h with
  | atom h => exact .atom (isAtom_toJson h)
  | array _ ih =>
    rw [toJson, toJsonItems_eq_map]
    exact .array (List.forall_mem_map.mpr ih)
  | @object fields hnodup _ ih =>
    obtain ⟨entries⟩ := fields
    have hmembers := nodup_map_fst_map hnodup toJson
    rw [toJson, toJsonMembers_eq_map]
    refine .object (Json.ascending_sortMembers _) fun m hm => ?_
    obtain ⟨e, he, rfl⟩ := List.mem_map.mp ((Json.perm_sortMembers hmembers).mem_iff.mp hm)
    exact ih e he

/-- Sorting the members is all that the canonical document does besides. -/
theorem sorted_toOrderedJson {v : Value} (h : v.Distinct) : v.toOrderedJson.sorted = v.toJson := by
  induction h with
  | atom h => rw [toOrderedJson_of_isAtom h, Json.sorted_of_isAtom (isAtom_toJson h)]
  | array _ ih =>
    rw [toOrderedJson, Json.sorted, toJson, toOrderedItems_eq_map, Json.sortedItems_eq_map,
      toJsonItems_eq_map, List.map_map]
    exact congrArg Json.array (List.map_congr_left ih)
  | @object fields _ _ ih =>
    obtain ⟨entries⟩ := fields
    rw [toOrderedJson, Json.sorted, toJson, toOrderedMembers_eq_map, Json.sortedMembers_eq_map,
      toJsonMembers_eq_map, List.map_map]
    refine congrArg (fun members => Json.object (Json.sortMembers members))
      (List.map_congr_left fun e he => ?_)
    exact congrArg (Prod.mk e.1) (ih e he)

/-- Under one name, or at one index, both documents have the documents of one value. -/
theorem rearranged_toJson {v : Value} (h : v.Distinct) : v.toOrderedJson.Rearranged v.toJson := by
  induction h with
  | atom h =>
    rw [toOrderedJson_of_isAtom h]
    exact .atom (isAtom_toJson h)
  | @array items _ ih =>
    rw [toOrderedJson, toJson, toOrderedItems_eq_map, toJsonItems_eq_map]
    refine .array (by rw [List.length_map, List.length_map]) fun i j k hj hk => ?_
    rw [List.getElem?_map, Option.map_eq_some_iff] at hj hk
    obtain ⟨v, hv, rfl⟩ := hj
    obtain ⟨w, hw, rfl⟩ := hk
    obtain rfl : v = w := Option.some.inj (hv.symm.trans hw)
    exact ih v (List.mem_of_getElem? hv)
  | @object fields hnodup _ ih =>
    obtain ⟨entries⟩ := fields
    have hmembers := nodup_map_fst_map hnodup toJson
    rw [toOrderedJson, toJson, toOrderedMembers_eq_map, toJsonMembers_eq_map]
    refine .object (nodup_map_fst_map hnodup toOrderedJson) ?_ fun name j k hj hk => ?_
    · rw [map_fst_map, ← map_fst_map entries toJson]
      exact (Json.perm_sortMembers hmembers).map Prod.fst
    · rw [(Json.perm_sortMembers hmembers).mem_iff] at hk
      obtain ⟨⟨n, v⟩, hv, hj⟩ := List.mem_map.mp hj
      obtain ⟨⟨n', w⟩, hw, hk⟩ := List.mem_map.mp hk
      obtain ⟨rfl, rfl⟩ := Prod.mk.inj hj
      obtain ⟨rfl, rfl⟩ := Prod.mk.inj hk
      -- A name stands once among the fields, so both members come from one field.
      obtain rfl : v = w :=
        congrArg Prod.snd (List.inj_on_of_nodup_map hnodup hv hw rfl)
      exact ih (_, v) hv

/-- The document that results are written as and the canonical one say the same of every value that
can be made: they are one document but for the order of members, in which the canonical one is
sorted. -/
theorem toOrderedJson_agrees {v : Value} (h : v.Built) :
    v.toOrderedJson.Rearranged v.toJson ∧ v.toJson.Ordered ∧ v.toOrderedJson.sorted = v.toJson :=
  ⟨rearranged_toJson h.distinct, ordered_toJson h.distinct, sorted_toOrderedJson h.distinct⟩

/-- A name given twice, a capability, and numbers that JSON has no text for, at two depths. -/
theorem toOrderedJson_agrees_repeated :
    let inner : Value := .object (.ofList [("z", .float (.infinite true)), ("y", .int 1)])
    let value : Value := .object (.ofList
      [("b", .float .nan), ("a", .capability ⟨0, "Clock"⟩), ("b", inner)])
    value.Built ∧
      value.toOrderedJson = .object
        [("b", .object [("z", .null), ("y", .int 1)]), ("a", .string "<capability Clock>")] ∧
      value.toJson = .object
        [("a", .string "<capability Clock>"), ("b", .object [("y", .int 1), ("z", .null)])] ∧
      value.toOrderedJson.Rearranged value.toJson ∧ value.toJson.Ordered ∧
      value.toOrderedJson.sorted = value.toJson := by
  intro inner value
  have hinner : inner.Built := .ofList (List.forall_mem_cons.mpr
    ⟨.atom trivial, List.forall_mem_singleton.mpr (.atom trivial)⟩)
  have hbuilt : value.Built := .ofList (List.forall_mem_cons.mpr ⟨.atom trivial,
    List.forall_mem_cons.mpr ⟨.atom trivial, List.forall_mem_singleton.mpr hinner⟩⟩)
  exact ⟨hbuilt, by rfl, by rfl, toOrderedJson_agrees hbuilt⟩

end Value
end RowQuery
