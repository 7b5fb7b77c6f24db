import Mathlib.Data.List.Induction
import RowQuery.Proofs.Engine.FirstFailure
import RowQuery.Proofs.Value.Built

/-!
# Objects that a projection makes

Every field is evaluated, a field whose name is given again too, and then the names stand in the
order in which they were first given, each with the value that was given last. For the fields alone
this is `Fields.names_ofList` and `Fields.get?_ofList`; `Scope.project_fields` says it of
projections, and which field it is that makes one fail.
-/

set_option autoImplicit false

namespace RowQuery

open Run

/-! ## Fields from entries that repeat names -/

namespace Fields

variable {α : Type}

theorem lookup_cons_eq_ite (name : String) (e : String × α) (rest : List (String × α)) :
    (e :: rest).lookup name = if name = e.1 then some e.2 else rest.lookup name := by
  rw [List.lookup_cons]
  by_cases h : name = e.1
  · rw [if_pos h, h, beq_self_eq_true]
  · rw [if_neg h, beq_false_of_ne h]

theorem lookup_insertInto (name : String) (value : α) (entries : List (String × α))
    (other : String) : (insertInto name value entries).lookup other =
      if other = name then some value else entries.lookup other := by
  induction entries with
  | nil => exact lookup_cons_eq_ite other (name, value) []
  | cons e rest ih =>
    obtain ⟨n, v⟩ := e
    unfold insertInto
    by_cases hn : n = name
    · rw [if_pos hn, lookup_cons_eq_ite, lookup_cons_eq_ite, hn]
      split <;> rfl
    · rw [if_neg hn, lookup_cons_eq_ite, lookup_cons_eq_ite, ih]
      by_cases h : other = n
      · rw [if_pos h, if_neg fun heq => hn (h.symm.trans heq), if_pos h]
      · rw [if_neg h, if_neg h]

theorem ofList_concat (entries : List (String × α)) (name : String) (value : α) :
    ofList (entries ++ [(name, value)]) = (ofList entries).insert name value := by
  unfold ofList
  rw [List.foldl_append]
  rfl

/-- The names stand in the order in which they were first given. -/
theorem names_ofList (entries : List (String × α)) :
    (ofList entries).names = (entries.map Prod.fst).eraseDups := by
  -- on the last entry, which is the one that is inserted last
  induction entries using List.reverseRecOn with
  | nil => rfl
  | append_singleton entries e ih =>
    obtain ⟨name, value⟩ := e
    have hmem : name ∈ (ofList entries).names ↔ name ∈ entries.map Prod.fst := by
      rw [ih, List.mem_eraseDups]
    rw [ofList_concat, List.map_append, List.eraseDups_append, ← ih]
    show (insertInto name value (ofList entries).entries).map Prod.fst = _
    rw [map_fst_insertInto]
    show (if name ∈ (ofList entries).names then _ else _) = _
    by_cases h : name ∈ entries.map Prod.fst
    · have hnew : [name].removeAll (entries.map Prod.fst) = [] := by simp [List.removeAll, h]
      rw [if_pos (hmem.mpr h), List.map_singleton, hnew, List.eraseDups_nil, List.append_nil]
      rfl
    · have hnew : [name].removeAll (entries.map Prod.fst) = [name] := by simp [List.removeAll, h]
      rw [if_neg (mt hmem.mp h), List.map_singleton, hnew]
      rfl

/-- A name has the value that it was given last. -/
theorem get?_ofList (entries : List (String × α)) (name : String) :
    (ofList entries).get? name = entries.reverse.lookup name := by
  induction entries using List.reverseRecOn with
  | nil => rfl
  | append_singleton entries e ih =>
    obtain ⟨n, value⟩ := e
    rw [ofList_concat, List.reverse_concat, lookup_cons_eq_ite, ← ih]
    exact lookup_insertInto n value (ofList entries).entries name

end Fields

/-! ## The values of the fields -/

namespace Scope

/-- The fields have these values, one behind the other. -/
def Gives (s : Scope) : Projection → List (String × Value) → Prop :=
  List.Forall₂ fun field entry =>
    field.1 = entry.1 ∧ (s.evaluate field.2).answer = .ok entry.2

namespace Gives

variable {s : Scope} {p : Projection} {entries : List (String × Value)}

theorem map_fst (h : s.Gives p entries) : p.map Prod.fst = entries.map Prod.fst := by
  induction h with
  | nil => rfl
  | cons hfield _ ih => rw [List.map_cons, List.map_cons, hfield.1, ih]

theorem answers (h : s.Gives p entries) :
    ∀ field ∈ p, ∃ v, (s.evaluate field.2).answer = .ok v := by
  induction h with
  | nil => nofun
  | cons hfield _ ih => exact List.forall_mem_cons.mpr ⟨⟨_, hfield.2⟩, ih⟩

/-- Where a name is given for the last time, the field has the value that its name has in the
end. -/
theorem lookup_reverse {before after : Projection} {name : String} {e : Expr}
    (h : s.Gives (before ++ (name, e) :: after) entries) (hlast : name ∉ after.map Prod.fst) :
    ∃ v, (s.evaluate e).answer = .ok v ∧ entries.reverse.lookup name = some v := by
  induction before generalizing entries with
  | nil =>
    -- the entries behind it, which come first in the reverse, are of other names
    obtain ⟨⟨n, v⟩, rest, ⟨rfl, hv⟩, hrest, rfl⟩ := List.forall₂_cons_left_iff.mp h
    have hafter : rest.reverse.lookup name = none := by
      refine List.lookup_eq_none_iff.mpr fun entry hentry => bne_iff_ne.mpr ?_
      rintro rfl
      rw [map_fst hrest] at hlast
      exact hlast (List.mem_map_of_mem (List.mem_reverse.mp hentry))
    refine ⟨v, hv, ?_⟩
    rw [List.reverse_cons, List.lookup_append, hafter, List.lookup_cons_self]
    rfl
  | cons field before ih =>
    obtain ⟨entry, rest, -, hrest, rfl⟩ := List.forall₂_cons_left_iff.mp h
    obtain ⟨v, hv, hlookup⟩ := ih hrest
    refine ⟨v, hv, ?_⟩
    rw [List.reverse_cons, List.lookup_append, hlookup, Option.some_or]

end Gives

/-- Fields that all have a value have their values. -/
theorem exists_gives {s : Scope} {p : Projection}
    (h : ∀ field ∈ p, ∃ v, (s.evaluate field.2).answer = .ok v) : ∃ entries, s.Gives p entries := by
  induction p with
  | nil => exact ⟨[], .nil⟩
  | cons field rest ih =>
    obtain ⟨⟨v, hv⟩, hrest⟩ := List.forall_mem_cons.mp h
    obtain ⟨entries, hentries⟩ := ih hrest
    exact ⟨(field.1, v) :: entries, .cons ⟨rfl, hv⟩ hentries⟩

section

variable {s : Scope} (hhost : s.host.IsPure) (hpure : s.context.IsPure)

include hhost hpure

theorem answer_projectOnto_eq_ok {p : Projection} {made : Object} : ∀ {object : Object},
    (s.projectOnto object p).answer = .ok made ↔ ∃ entries, s.Gives p entries ∧
      made = entries.foldl (fun fields e => fields.insert e.1 e.2) object := by
  induction p with
  | nil =>
    intro object
    constructor
    · intro h
      cases h
      exact ⟨[], .nil, rfl⟩
    · rintro ⟨entries, ⟨⟩, rfl⟩
      rfl
  | cons field rest ih =>
    intro object
    have hfield := (isSteady_evaluate hhost hpure field.2).firm
    have hrest := fun object => (isSteady_projectOnto hhost hpure rest object).firm
    refine (hfield.answer_bind_eq_ok fun v => hrest _).trans ?_
    constructor
    · rintro ⟨v, hv, h⟩
      obtain ⟨entries, hentries, rfl⟩ := ih.mp h
      exact ⟨(field.1, v) :: entries, .cons ⟨rfl, hv⟩ hentries, rfl⟩
    · rintro ⟨all, hall, rfl⟩
      obtain ⟨⟨-, v⟩, entries, ⟨rfl, hv⟩, hentries, rfl⟩ := List.forall₂_cons_left_iff.mp hall
      exact ⟨v, hv, ih.mpr ⟨entries, hentries, rfl⟩⟩

/-- What a projection makes is made of the values of its fields. -/
theorem answer_project_eq_ok {p : Projection} {made : Object} :
    (s.project p).answer = .ok made ↔ ∃ entries, s.Gives p entries ∧ made = .ofList entries :=
  answer_projectOnto_eq_ok hhost hpure

/-- A projection makes an object if every one of its fields has a value, the ones whose names are
given again included. The names of the object are those of the fields, each at the place where it
was given first and with the value of the field that gives it last. If the projection fails, it is
with the fault of the first field that has no value. -/
theorem project_fields (p : Projection) {w : World} (hw : s.context.Agrees w) :
    ((∃ object, (outcome (s.project p) w).1 = .ok object) ↔
        ∀ field ∈ p, ∃ v, (s.evaluate field.2).answer = .ok v) ∧
      (∀ object, (outcome (s.project p) w).1 = .ok object →
        object.names = (p.map Prod.fst).eraseDups ∧
          ∀ before name e after, p = before ++ (name, e) :: after → name ∉ after.map Prod.fst →
            ∃ v, (s.evaluate e).answer = .ok v ∧ object.get? name = some v) ∧
      ∀ stop, (outcome (s.project p) w).1 = .error stop →
        ∃ f, stop = .fault f ∧ s.FirstFieldFails p f := by
  have hsteady : IsSteady s.context (s.project p) := isSteady_projectOnto hhost hpure p .empty
  obtain ⟨w', hout, -, -⟩ := hsteady.firm w hw
  rw [hout]
  refine ⟨⟨?_, ?_⟩, ?_, ?_⟩
  · rintro ⟨object, hobject⟩
    obtain ⟨entries, hentries, -⟩ := (answer_project_eq_ok hhost hpure).mp hobject
    exact hentries.answers
  · intro h
    obtain ⟨entries, hentries⟩ := exists_gives h
    exact ⟨.ofList entries, (answer_project_eq_ok hhost hpure).mpr ⟨entries, hentries, rfl⟩⟩
  · intro object hobject
    obtain ⟨entries, hentries, rfl⟩ := (answer_project_eq_ok hhost hpure).mp hobject
    refine ⟨by rw [Fields.names_ofList, hentries.map_fst], ?_⟩
    rintro before name e after rfl hlast
    rw [Fields.get?_ofList]
    exact hentries.lookup_reverse hlast
  · intro stop hstop
    obtain ⟨f, rfl⟩ := hsteady.exists_fault hstop
    exact ⟨f, rfl, firstFieldFails_of_projectOnto hhost hpure hstop⟩

end

/-- Two names that are given twice and thrice, and a field that fails although its name is given
again. -/
theorem project_fields_repeated :
    let s : Scope := {
      host := { capability := fun _ =>
        ⟨fun _ _ => true, fun _ _ values => .returned (values.headD .null)⟩ }
      context := { innermost := { values := ⟨[("api", .capability ⟨0, "api"⟩)]⟩ } }
      row := ⟨0, [("x", .string "pear")]⟩ }
    let echoed : Expr := .call (.variable "api") "echo" [.variable "x"]
    let p : Projection := [("b", echoed), ("a", .variable "x"), ("b", .literal .null),
      ("a", .literal (.int 1)), ("b", echoed)]
    let q : Projection := [("a", .variable "x"), ("a", .variable "y"), ("a", .variable "x")]
    (∃ object, (outcome (s.project p) {}).1 = .ok object ∧ object.names = ["b", "a"] ∧
        object.get? "b" = some (.string "pear") ∧ object.get? "a" = some (.int 1)) ∧
      ∃ stop f, (outcome (s.project q) {}).1 = .error stop ∧ stop = .fault f ∧
        s.FirstFieldFails q f := by
  intro s echoed p q
  have hhost : s.host.IsPure := ⟨fun _ _ => rfl, fun _ _ _ _ => rfl⟩
  have hpure : s.context.IsPure := fun _ h => by cases h
  have hw : s.context.Agrees {} := Context.agrees_of_loaded_nil rfl
  obtain ⟨hmade, hfields, -⟩ := project_fields hhost hpure p hw
  obtain ⟨object, hobject⟩ := hmade.mpr (by
    simp only [p, List.forall_mem_cons]
    exact ⟨⟨_, rfl⟩, ⟨_, rfl⟩, ⟨_, rfl⟩, ⟨_, rfl⟩, ⟨_, rfl⟩, nofun⟩)
  obtain ⟨hnames, hlast⟩ := hfields object hobject
  obtain ⟨b, hb, hgetb⟩ := hlast (p.take 4) "b" echoed [] rfl (by decide)
  obtain ⟨a, ha, hgeta⟩ := hlast (p.take 3) "a" (.literal (.int 1)) [("b", echoed)] rfl (by decide)
  cases hb
  cases ha
  refine ⟨⟨object, hobject, hnames.trans (by decide), hgetb, hgeta⟩, ?_⟩
  obtain ⟨f, hstop, hfails⟩ := (project_fields hhost hpure q hw).2.2 _ rfl
  exact ⟨_, f, rfl, hstop, hfails⟩

end Scope
end RowQuery
