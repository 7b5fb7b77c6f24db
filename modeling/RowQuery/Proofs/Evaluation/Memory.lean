import RowQuery.Proofs.Evaluation.Lookups

/-!
# What is remembered of loaders

A loader may answer what it likes, and something else the next time, as long as it answers. What a
name means is then decided when it is first looked up. `Context.known` reads it off what is
remembered, and `Context.LookedUp` says what a lookup does: its answer is what every later world knows
of the name, and a loader it calls was due (`Context.Due`). Wherever the lookup comes to a loader's
layer that has no value of the name, the loader has answered (`Context.Settled`).

The worlds after a lookup only ever remember more (`World.Extends`), so what is said of a lookup is
said for all of them at once; that is what carries it through a sequence of lookups.
-/

set_option autoImplicit false

namespace RowQuery

open Run

/-! ## Worlds -/

namespace World

/-- No loader was asked for a name twice, and every answer is remembered. -/
structure Remembers (w : World) : Prop where
  once : w.loads.Nodup
  answered : ∀ load, load ∈ w.loads ↔ (w.loaded.lookup load).isSome

/-- The later world remembers all that the earlier one did. -/
structure Extends (w w' : World) : Prop where
  loads : w.loads <+: w'.loads
  loaded : ∀ {load answer}, w.loaded.lookup load = some answer → w'.loaded.lookup load = some answer

theorem Extends.refl (w : World) : w.Extends w := ⟨List.prefix_refl _, id⟩

theorem Extends.trans {w₁ w₂ w₃ : World} (h : w₁.Extends w₂) (h' : w₂.Extends w₃) : w₁.Extends w₃ :=
  ⟨h.loads.trans h'.loads, fun hload => h'.loaded (h.loaded hload)⟩

theorem remembers_empty : World.Remembers {} :=
  ⟨List.nodup_nil, fun _ => ⟨nofun, nofun⟩⟩

/-- This is so of every load, and of the loads before it, that was made between the two worlds. -/
def MadeSince (w w' : World) (P : List Load → Load → Prop) : Prop :=
  ∀ earlier load later, w'.loads = earlier ++ load :: later → w.loads <+: earlier → P earlier load

/-- A load stands either in a prefix of the loads or behind it. -/
theorem prefix_cases {loads earlier later : List Load} {load : Load}
    (h : loads <+: earlier ++ load :: later) :
    (∃ rest, loads = earlier ++ load :: rest) ∨ loads <+: earlier := by
  rcases List.prefix_or_prefix_of_prefix h (List.prefix_append earlier (load :: later)) with h' | h'
  · exact .inr h'
  · obtain ⟨rest, rfl⟩ := h'
    rw [List.prefix_append_right_inj] at h
    cases rest with
    | nil => exact .inr ⟨[], by rw [List.append_nil, List.append_nil]⟩
    | cons other rest =>
      obtain ⟨rfl, -⟩ := List.cons_prefix_cons.mp h
      exact .inl ⟨rest, rfl⟩

namespace MadeSince

variable {w w₁ w₂ : World} {P Q : List Load → Load → Prop}

theorem of_loads_eq (h : w₁.loads = w.loads) : MadeSince w w₁ P := by
  intro earlier load later hloads hbefore
  rw [← h, hloads] at hbefore
  have hlength := hbefore.length_le
  rw [List.length_append, List.length_cons] at hlength
  omega

theorem single {load : Load} (h : w₁.loads = w.loads ++ [load]) (hload : P w.loads load) :
    MadeSince w w₁ P := by
  intro earlier other later hloads hbefore
  obtain ⟨rest, rfl⟩ := hbefore
  rw [h, List.append_assoc] at hloads
  have htail := List.append_cancel_left hloads
  cases rest with
  | nil =>
    rw [List.nil_append] at htail
    rw [List.append_nil, ← (List.cons.inj htail).1]
    exact hload
  | cons first rest =>
    have hnil := (List.cons.inj htail).2
    cases rest <;> cases hnil

theorem trans (h : MadeSince w w₁ P) (h' : MadeSince w₁ w₂ P) (hlater : w₁.loads <+: w₂.loads) :
    MadeSince w w₂ P := by
  intro earlier load later hloads hbefore
  rw [hloads] at hlater
  rcases prefix_cases hlater with ⟨rest, hrest⟩ | hbehind
  · exact h _ _ _ hrest hbefore
  · exact h' _ _ _ hloads hbehind

theorem imp (h : MadeSince w w₁ P) (hPQ : ∀ earlier load, P earlier load → Q earlier load) :
    MadeSince w w₁ Q :=
  fun _ _ _ hloads hbefore => hPQ _ _ (h _ _ _ hloads hbefore)

end MadeSince

end World

/-! ## What is known of a name -/

/-- It answers, whatever it answered before. -/
def Loader.AlwaysAnswers (loader : Loader) : Prop :=
  ∀ earlier name, loader.resolve earlier name ≠ .panicked

/-- What is remembered of the reply. -/
def LoadReply.answer : LoadReply → Option Value
  | .found v => some v
  | .unknown => none
  | .panicked => none

/-- What a layer knows of a name: its own value, or else the answer of its loader. -/
def Layer.known (w : World) (name : String) (layer : Layer) : Option Value :=
  match layer.values.get? name with
  | some v => some v
  | none => layer.loader.bind fun loader => (w.loaded.lookup ⟨loader.id, name⟩).join

/-- A lookup of the name goes on behind the layer: it has no value of the name, and its loader has
answered that it has none. -/
structure Layer.PassesOn (w : World) (name : String) (layer : Layer) : Prop where
  value : layer.values.get? name = none
  answer : ∀ loader, layer.loader = some loader → w.loaded.lookup ⟨loader.id, name⟩ = some none

/-- There is nothing to ask the layer for: it has a value of the name, or no loader, or its loader
has answered. -/
def Layer.Settled (w : World) (name : String) (layer : Layer) : Prop :=
  layer.values.get? name = none → ∀ loader, layer.loader = some loader →
    (w.loaded.lookup ⟨loader.id, name⟩).isSome

/-- A lookup goes on behind a settled layer just if nothing is known of the name there. -/
theorem Layer.Settled.passesOn_iff {w : World} {name : String} {layer : Layer}
    (h : layer.Settled w name) : layer.PassesOn w name ↔ layer.known w name = none := by
  unfold Layer.known
  constructor
  · intro hpasses
    rw [hpasses.value]
    cases hloader : layer.loader with
    | none => rfl
    | some loader =>
      rw [Option.bind_some, hpasses.answer loader hloader]
      rfl
  · intro hknown
    cases hvalue : layer.values.get? name with
    | some v =>
      rw [hvalue] at hknown
      cases hknown
    | none =>
      refine ⟨hvalue, fun loader hloader => ?_⟩
      obtain ⟨answer, hmem⟩ := Option.isSome_iff_exists.mp (h hvalue loader hloader)
      rw [hvalue, hloader, Option.bind_some, hmem] at hknown
      rw [hmem]
      exact congrArg some hknown

theorem Layer.Settled.extends {w w' : World} {name : String} {layer : Layer}
    (h : layer.Settled w name) (hw : w.Extends w') : layer.Settled w' name := by
  intro hvalue loader hloader
  obtain ⟨answer, hmem⟩ := Option.isSome_iff_exists.mp (h hvalue loader hloader)
  rw [hw.loaded hmem]
  rfl

namespace Context

/-- What is known of a name: the first layer that knows it decides. -/
def known (c : Context) (w : World) (name : String) : Option Value :=
  c.layers.findSome? (Layer.known w name)

/-- A call of a loader was due: a lookup of the name comes to a layer that has a loader of this
number and no value of the name, and what is remembered is what the loader answered then. -/
def Due (w : World) (layers : List Layer) (earlier : List Load) (load : Load) : Prop :=
  ∃ inner layer outer loader, layers = inner ++ layer :: outer ∧
    (∀ passed ∈ inner, passed.PassesOn w load.name) ∧ layer.values.get? load.name = none ∧
    layer.loader = some loader ∧ loader.id = load.loader ∧
    w.loaded.lookup load = some (loader.resolve earlier load.name).answer

theorem Due.cons {w : World} {layers : List Layer} {layer : Layer} {earlier : List Load}
    {load : Load} (h : Due w layers earlier load) (hlayer : layer.PassesOn w load.name) :
    Due w (layer :: layers) earlier load := by
  obtain ⟨inner, asked, outer, loader, rfl, hinner, hasked⟩ := h
  have hpassed := List.forall_mem_cons.mpr ⟨hlayer, hinner⟩
  exact ⟨layer :: inner, asked, outer, loader, rfl, hpassed, hasked⟩

theorem Due.append {w : World} {layers : List Layer} {earlier : List Load} {load : Load}
    (h : Due w layers earlier load) (outer : List Layer) :
    Due w (layers ++ outer) earlier load := by
  obtain ⟨inner, asked, rest, loader, rfl, hinner, hasked⟩ := h
  exact ⟨inner, asked, rest ++ outer, loader, List.append_assoc .., hinner, hasked⟩

/-- A lookup of the name comes to the layer: all layers inside it pass it on. -/
def Reaches (w : World) (name : String) (layers : List Layer) (layer : Layer) : Prop :=
  ∃ inner outer, layers = inner ++ layer :: outer ∧ ∀ passed ∈ inner, passed.PassesOn w name

theorem reaches_cons {w : World} {name : String} {layers : List Layer} {first layer : Layer} :
    Reaches w name (first :: layers) layer ↔
      first = layer ∨ first.PassesOn w name ∧ Reaches w name layers layer := by
  constructor
  · rintro ⟨inner, outer, hlayers, hinner⟩
    cases inner with
    | nil => exact .inl (List.cons.inj hlayers).1
    | cons passed inner =>
      obtain ⟨rfl, rfl⟩ := List.cons.inj hlayers
      obtain ⟨hpassed, hinner⟩ := List.forall_mem_cons.mp hinner
      exact .inr ⟨hpassed, inner, outer, rfl, hinner⟩
  · rintro (rfl | ⟨hpassed, inner, outer, rfl, hinner⟩)
    · exact ⟨[], layers, rfl, List.forall_mem_nil _⟩
    · exact ⟨first :: inner, outer, rfl, List.forall_mem_cons.mpr ⟨hpassed, hinner⟩⟩

/-- No layer that a lookup of the name comes to is left to be asked. Which layers it comes to is
decided by what the later world remembers. -/
def Settled (w later : World) (name : String) (layers : List Layer) : Prop :=
  ∀ layer, Reaches later name layers layer → layer.Settled w name

theorem settled_cons {w later : World} {name : String} {layers : List Layer} {layer : Layer}
    (hlayer : layer.Settled w name)
    (houter : layer.PassesOn later name → Settled w later name layers) :
    Settled w later name (layer :: layers) := by
  intro reached hreached
  rcases reaches_cons.mp hreached with rfl | ⟨hpassed, hreached⟩
  · exact hlayer
  · exact houter hpassed reached hreached

/-- From the one world to the other some names were looked up in these layers. -/
structure LookedUp (names : List String) (layers : List Layer) (w w' : World) : Prop where
  remembers : w'.Remembers
  grown : w.Extends w'
  due : ∀ later, w'.Extends later → World.MadeSince w w' fun earlier load =>
    load.name ∈ names ∧ Due later layers earlier load

variable {c : Context} {layers : List Layer} {w w' : World} {name : String} {names : List String}

namespace LookedUp

theorem refl (hw : w.Remembers) : LookedUp names layers w w :=
  ⟨hw, .refl w, fun _ _ => .of_loads_eq rfl⟩

theorem trans {w₁ w₂ : World} (h : LookedUp names layers w w₁) (h' : LookedUp names layers w₁ w₂) :
    LookedUp names layers w w₂ where
  remembers := h'.remembers
  grown := h.grown.trans h'.grown
  due := fun later hlater =>
    (h.due later (h'.grown.trans hlater)).trans (h'.due later hlater) h'.grown.loads

theorem mono {others : List String} (h : LookedUp names layers w w') (hnames : names ⊆ others) :
    LookedUp others layers w w' :=
  ⟨h.remembers, h.grown, fun later hlater =>
    (h.due later hlater).imp fun _ _ hload => ⟨hnames hload.1, hload.2⟩⟩

end LookedUp

/-! ## One lookup -/

/-- A loader that has not answered before is called and its answer remembered. -/
theorem exists_outcome_load {loader : Loader} (h : loader.AlwaysAnswers) (hw : w.Remembers)
    (name : String) :
    ∃ answer w', outcome (load loader name) w = (.ok answer, w') ∧ w'.Remembers ∧ w.Extends w' ∧
      w'.loaded.lookup ⟨loader.id, name⟩ = some answer ∧
      (w' = w ∨ (w'.loads = w.loads ++ [⟨loader.id, name⟩] ∧
        answer = (loader.resolve w.loads name).answer)) := by
  cases hmem : w.loaded.lookup ⟨loader.id, name⟩ with
  | some answer => exact ⟨answer, w, outcome_load_known hmem, hw, .refl w, hmem, .inl rfl⟩
  | none =>
    have hnew : (⟨loader.id, name⟩ : Load) ∉ w.loads := fun hload => by
      have hsome := (hw.answered _).mp hload
      rw [hmem] at hsome
      cases hsome
    refine ⟨(loader.resolve w.loads name).answer, { w with
      loads := w.loads ++ [⟨loader.id, name⟩]
      loaded := (⟨loader.id, name⟩, (loader.resolve w.loads name).answer) :: w.loaded },
      ?_, ⟨?_, ?_⟩, ⟨List.prefix_append _ _, ?_⟩, List.lookup_cons_self, .inr ⟨rfl, rfl⟩⟩
    · unfold load
      rw [outcome_bind_ok (outcome_get w)]
      dsimp only
      rw [hmem]
      cases hreply : loader.resolve w.loads name with
      | found v => rfl
      | unknown => rfl
      | panicked => exact absurd hreply (h w.loads name)
    · refine List.nodup_append.mpr ⟨hw.once, List.pairwise_singleton _ _, ?_⟩
      intro load hload other hother
      rw [List.mem_singleton.mp hother]
      exact fun heq => hnew (heq ▸ hload)
    · -- the one load that is new is the one answer that is new
      intro load
      dsimp only
      rw [List.mem_append, List.mem_singleton, List.lookup_cons, hw.answered]
      by_cases heq : load = ⟨loader.id, name⟩
      · rw [heq, beq_self_eq_true]
        exact ⟨fun _ => rfl, fun _ => .inr rfl⟩
      · rw [beq_false_of_ne heq]
        exact or_iff_left heq
    · intro load answer hload
      dsimp only
      rw [List.lookup_cons, beq_false_of_ne]
      · exact hload
      · rintro rfl
        rw [hmem] at hload
        cases hload

/-- A lookup in one layer. -/
theorem exists_outcome_layer {layer : Layer}
    (h : ∀ loader, layer.loader = some loader → loader.AlwaysAnswers) (hw : w.Remembers)
    (name : String) :
    ∃ answer w', outcome (getFrom name [layer]) w = (.ok answer, w') ∧
      LookedUp [name] [layer] w w' ∧ layer.Settled w' name ∧
      ∀ later, w'.Extends later → layer.known later name = answer := by
  cases hvalue : layer.values.get? name with
  | some v =>
    refine ⟨some v, w, ?_, .refl hw, ?_, fun later _ => ?_⟩
    · rw [getFrom, hvalue]
      rfl
    · intro hnone
      rw [hvalue] at hnone
      cases hnone
    · rw [Layer.known, hvalue]
  | none =>
    cases hloader : layer.loader with
    | none =>
      refine ⟨none, w, ?_, .refl hw, ?_, fun later _ => ?_⟩
      · rw [getFrom, hvalue, hloader]
        rfl
      · intro _ loader hsome
        rw [hloader] at hsome
        cases hsome
      · rw [Layer.known, hvalue, hloader]
        rfl
    | some loader =>
      obtain ⟨answer, w', hload, hw', hgrown, hmem, hmade⟩ :=
        exists_outcome_load (h loader hloader) hw name
      refine ⟨answer, w', ?_, ⟨hw', hgrown, fun later hlater => ?_⟩, ?_, fun later hlater => ?_⟩
      · rw [getFrom, hvalue, hloader]
        refine (outcome_bind_ok hload).trans ?_
        cases answer <;> rfl
      · -- the call, if there was one, was due
        rcases hmade with rfl | ⟨hloads, hanswer⟩
        · exact .of_loads_eq rfl
        · refine .single hloads ⟨List.mem_singleton_self _, [], layer, [], loader, rfl,
            List.forall_mem_nil _, hvalue, hloader, rfl, ?_⟩
          rw [← hanswer]
          exact hlater.loaded hmem
      · intro _ other hother
        rw [hloader] at hother
        cases hother
        rw [hmem]
        rfl
      · rw [Layer.known, hvalue, hloader, Option.bind_some, hlater.loaded hmem]
        rfl

/-- A lookup in these layers, from the innermost on. The induction is on the layers: a layer that
passes the lookup on does so in every later world. -/
theorem exists_outcome_getFrom (name : String) (layers : List Layer) :
    ∀ w : World, (∀ layer ∈ layers, ∀ loader, layer.loader = some loader → loader.AlwaysAnswers) →
      w.Remembers → ∃ answer w', outcome (getFrom name layers) w = (.ok answer, w') ∧
        LookedUp [name] layers w w' ∧ ∀ later, w'.Extends later →
          layers.findSome? (Layer.known later name) = answer ∧ Settled w' later name layers := by
  induction layers with
  | nil =>
    refine fun w _ hw => ⟨none, w, rfl, .refl hw, fun later _ => ⟨rfl, ?_⟩⟩
    rintro layer ⟨inner, outer, hlayers, -⟩
    cases inner <;> cases hlayers
  | cons layer outer ih =>
    intro w hloaders hw
    obtain ⟨hlayer, houter⟩ := List.forall_mem_cons.mp hloaders
    obtain ⟨answer, w₁, hout₁, hlooked₁, hsettled, hknown₁⟩ := exists_outcome_layer hlayer hw name
    have hstep := (congrArg (outcome · w) (getFrom_append [layer] outer)).trans
      (outcome_bind_ok hout₁)
    cases answer with
    | some v =>
      refine ⟨some v, w₁, hstep, ⟨hlooked₁.remembers, hlooked₁.grown, ?_⟩, ?_⟩
      · exact fun later hlater => (hlooked₁.due later hlater).imp fun earlier load h =>
          ⟨h.1, h.2.append outer⟩
      · intro later hlater
        rw [List.findSome?_cons, hknown₁ later hlater]
        refine ⟨rfl, settled_cons hsettled fun hpasses => ?_⟩
        rw [(hsettled.extends hlater).passesOn_iff, hknown₁ later hlater] at hpasses
        cases hpasses
    | none =>
      obtain ⟨answer, w', hout, hlooked, hknown⟩ := ih w₁ houter hlooked₁.remembers
      refine ⟨answer, w', hstep.trans hout,
        ⟨hlooked.remembers, hlooked₁.grown.trans hlooked.grown, ?_⟩, ?_⟩
      · intro later hlater
        have hlater₁ := hlooked.grown.trans hlater
        refine ((hlooked₁.due later hlater₁).imp fun earlier load h => ⟨h.1, h.2.append outer⟩).trans
          ?_ hlooked.grown.loads
        refine (hlooked.due later hlater).imp fun earlier load h => ⟨h.1, h.2.cons ?_⟩
        rw [List.mem_singleton.mp h.1]
        exact (hsettled.extends hlater₁).passesOn_iff.mpr (hknown₁ later hlater₁)
      · intro later hlater
        rw [List.findSome?_cons, hknown₁ later (hlooked.grown.trans hlater)]
        obtain ⟨hfound, hrest⟩ := hknown later hlater
        exact ⟨hfound, settled_cons (hsettled.extends hlooked.grown) fun _ => hrest⟩

/-- A lookup has an answer, which is what every later world knows of the name, and it leaves no layer
to be asked. -/
theorem exists_outcome_get? (hc : ∀ loader ∈ c.loaders, loader.AlwaysAnswers) (hw : w.Remembers)
    (name : String) :
    ∃ answer w', outcome (c.get? name) w = (.ok answer, w') ∧ LookedUp [name] c.layers w w' ∧
      ∀ later, w'.Extends later → c.known later name = answer ∧ Settled w' later name c.layers :=
  exists_outcome_getFrom name c.layers w
    (fun layer hlayer loader hloader =>
      hc loader (List.mem_filterMap.mpr ⟨layer, hlayer, hloader⟩)) hw

/-! ## Many lookups -/

theorem lookedUp_askAll (hc : ∀ loader ∈ c.loaders, loader.AlwaysAnswers) (asked : List String) :
    ∀ w : World, w.Remembers → LookedUp asked c.layers w (c.askAll asked w) := by
  induction asked with
  | nil => exact fun w hw => .refl hw
  | cons name rest ih =>
    intro w hw
    obtain ⟨answer, w₁, hout, hlooked, -⟩ := exists_outcome_get? hc hw name
    rw [askAll, hout]
    have hname : [name] ⊆ name :: rest := List.cons_subset_cons name (List.nil_subset _)
    exact (hlooked.mono hname).trans
      ((ih w₁ hlooked.remembers).mono (List.subset_cons_self name rest))

theorem Asked.lookedUp (hc : ∀ loader ∈ c.loaders, loader.AlwaysAnswers) (hw : w.Remembers)
    (h : c.Asked names w w') : LookedUp names c.layers w w' := by
  obtain ⟨asked, hasked, hrecall⟩ := h
  obtain ⟨⟨honce, hanswered⟩, ⟨hloads, hloaded⟩, hdue⟩ :=
    (lookedUp_askAll hc asked w hw).mono hasked
  -- what is remembered in `w'` is what is remembered after those lookups
  rw [hrecall]
  exact ⟨⟨honce, hanswered⟩, ⟨hloads, hloaded⟩, fun later hlater =>
    hdue later ⟨hlater.loads, hlater.loaded⟩⟩

/-- A binding changes what is known of one name. -/
theorem known_bind (c : Context) (w : World) (name : String) (v : Value) (other : String) :
    (c.bind name v).known w other = if other = name then some v else c.known w other := by
  have hvalue : (c.bind name v).innermost.values.get? other =
      if other = name then some v else none := by
    show List.lookup other [(name, v)] = _
    rw [List.lookup_cons]
    by_cases h : other = name
    · rw [h, beq_self_eq_true, if_pos rfl]
    · rw [beq_false_of_ne h, if_neg h]
      rfl
  unfold known
  show List.findSome? _ (_ :: c.layers) = _
  rw [List.findSome?_cons, Layer.known, hvalue]
  by_cases h : other = name
  · rw [if_pos h, if_pos h]
  · rw [if_neg h, if_neg h]
    rfl

end Context
end RowQuery
