import RowQuery.Proofs.Evaluation.Lockstep

/-!
# Lookups one after another

All that a query does with its context is to look names up, and what a lookup does depends on what
is remembered of loaders and on nothing else (`Recalls`). So the loads of a query are those of its
lookups in the order in which they came (`Context.askAll`), and a context is as good as its answers:
one that answers alike in whatever order it is asked (`Context.Answers`) is coupled with the context
that has these answers for values (`Context.coupling_explicit`).
-/

set_option autoImplicit false

namespace RowQuery

open Run

/-! ## What a lookup depends on -/

/-- The world with what the other one remembers of loaders. -/
def World.recall (w memory : World) : World :=
  { w with loads := memory.loads, loaded := memory.loaded }

/-- The run depends on what is remembered of loaders alone, and changes nothing else. -/
def Recalls {ε α : Type} (m : Run ε α) : Prop :=
  ∀ w memory : World, outcome m (w.recall memory) =
    ((outcome m memory).1, w.recall (outcome m memory).2)

namespace Recalls

variable {ε α β : Type} {m : Run ε α} {f : α → Run ε β}

theorem pure (a : α) : Recalls (pure a : Run ε α) := fun _ _ => rfl

theorem bind (hm : Recalls m) (hf : ∀ a, Recalls (f a)) : Recalls (m >>= f) := by
  intro w memory
  rcases hout : outcome m memory with ⟨e | a, after⟩
  · rw [outcome_bind_error hout]
    refine outcome_bind_error ?_
    rw [hm, hout]
  · rw [outcome_bind_ok hout, ← hf a]
    refine outcome_bind_ok ?_
    rw [hm, hout]

end Recalls

/-- The loads that the run makes are of this name. -/
def LoadsOnly {ε α : Type} (name : String) (m : Run ε α) : Prop :=
  ∀ w, ∃ made, (outcome m w).2.loads = w.loads ++ made ∧ ∀ load ∈ made, load.name = name

namespace LoadsOnly

variable {ε α β : Type} {name : String} {m : Run ε α} {f : α → Run ε β}

theorem pure (a : α) : LoadsOnly name (pure a : Run ε α) :=
  fun _ => ⟨[], (List.append_nil _).symm, nofun⟩

theorem bind (hm : LoadsOnly name m) (hf : ∀ a, LoadsOnly name (f a)) :
    LoadsOnly name (m >>= f) := by
  intro w
  obtain ⟨made, hloads, hmade⟩ := hm w
  rcases hout : outcome m w with ⟨e | a, w₁⟩
  · rw [hout] at hloads
    rw [outcome_bind_error hout]
    exact ⟨made, hloads, hmade⟩
  · rw [hout] at hloads
    rw [outcome_bind_ok hout]
    obtain ⟨more, hloads', hmore⟩ := hf a w₁
    refine ⟨made ++ more, ?_, List.forall_mem_append.mpr ⟨hmade, hmore⟩⟩
    rw [hloads', hloads, List.append_assoc]

end LoadsOnly

namespace Context

theorem recalls_load (loader : Loader) (name : String) : Recalls (load loader name) := by
  intro w memory
  unfold load
  rw [outcome_bind_ok (outcome_get _), outcome_bind_ok (outcome_get _)]
  dsimp only [World.recall]
  cases memory.loaded.lookup ⟨loader.id, name⟩ with
  | some answer => rfl
  | none => cases hreply : loader.resolve memory.loads name <;> rfl

theorem loadsOnly_load (loader : Loader) (name : String) :
    LoadsOnly name (load loader name) := by
  intro w
  unfold load
  rw [outcome_bind_ok (outcome_get _)]
  dsimp only
  cases w.loaded.lookup ⟨loader.id, name⟩ with
  | some answer => exact ⟨[], (List.append_nil _).symm, nofun⟩
  | none =>
    have hname : ∀ load ∈ [(⟨loader.id, name⟩ : Load)], load.name = name := by
      intro load hload
      rw [List.mem_singleton.mp hload]
    cases hreply : loader.resolve w.loads name <;> exact ⟨_, rfl, hname⟩

/-- A property of runs that loading has and that sequencing keeps, a lookup has too. -/
theorem getFrom_induction {name : String} {motive : Evaluation (Option Value) → Prop}
    (pure : ∀ answer, motive (pure answer)) (load : ∀ loader, motive (load loader name))
    (bind : ∀ {m f}, motive m → (∀ answer, motive (f answer)) → motive (m >>= f))
    (layers : List Layer) : motive (getFrom name layers) := by
  induction layers with
  | nil => exact pure none
  | cons layer outer ih =>
    unfold getFrom
    split
    · exact pure _
    · split
      · exact ih
      · refine bind (load _) fun answer => ?_
        split
        · exact pure _
        · exact ih

/-- The layers behind others are come to where those know nothing of the name. -/
theorem getFrom_append {name : String} (front back : List Layer) :
    getFrom name (front ++ back) = getFrom name front >>= fun
      | some v => pure (some v)
      | none => getFrom name back := by
  induction front with
  | nil => rfl
  | cons layer rest ih =>
    rw [List.cons_append, getFrom, getFrom]
    split
    · rfl
    · split
      · exact ih
      · rw [bind_assoc]
        refine bind_congr fun answer => ?_
        cases answer with
        | some v => rfl
        | none => exact ih

theorem recalls_get? (c : Context) (name : String) : Recalls (c.get? name) :=
  getFrom_induction .pure (recalls_load · name) .bind c.layers

theorem loadsOnly_get? (c : Context) (name : String) : LoadsOnly name (c.get? name) :=
  getFrom_induction .pure (loadsOnly_load · name) .bind c.layers

/-! ## Sequences of lookups -/

variable {c c' : Context} {names : List String} {w w' w₀ : World} {name : String}

/-- The world after these names have been looked up. -/
def askAll (c : Context) : List String → World → World
  | [], w => w
  | name :: rest, w => c.askAll rest (outcome (c.get? name) w).2

theorem askAll_append (front back : List String) : ∀ w : World,
    c.askAll (front ++ back) w = c.askAll back (c.askAll front w) := by
  induction front with
  | nil => exact fun _ => rfl
  | cons name rest ih => exact fun w => ih _

/-- What the later world remembers of loaders comes from lookups of some of these names. -/
def Asked (c : Context) (names : List String) (w w' : World) : Prop :=
  ∃ asked ⊆ names, w' = w'.recall (c.askAll asked w)

theorem Asked.refl (c : Context) (names : List String) (w : World) : c.Asked names w w :=
  ⟨[], List.nil_subset _, rfl⟩

/-- What a lookup comes to after others. -/
theorem Asked.exists_outcome (h : c.Asked names w w') (name : String) :
    ∃ asked ⊆ names, (outcome (c.get? name) w').1 = (outcome (c.get? name) (c.askAll asked w)).1 ∧
      (outcome (c.get? name) w').2 = w'.recall (c.askAll (asked ++ [name]) w) := by
  obtain ⟨asked, hasked, hrecall⟩ := h
  have hout := c.recalls_get? name w' (c.askAll asked w)
  rw [← hrecall] at hout
  refine ⟨asked, hasked, ?_⟩
  rw [hout, askAll_append]
  exact ⟨rfl, rfl⟩

theorem Asked.step (h : c.Asked names w w') (hname : name ∈ names) :
    c.Asked names w (outcome (c.get? name) w').2 := by
  obtain ⟨asked, hasked, -, hafter⟩ := h.exists_outcome name
  refine ⟨asked ++ [name], List.append_subset.mpr ⟨hasked, ?_⟩, ?_⟩
  · exact List.cons_subset.mpr ⟨hname, List.nil_subset _⟩
  · rw [hafter]
    rfl

theorem Asked.exists_loads (h : c.Asked names w w') :
    ∃ made, w'.loads = w.loads ++ made ∧ ∀ load ∈ made, load.name ∈ names := by
  obtain ⟨asked, hasked, hrecall⟩ := h
  have hloads : w'.loads = (c.askAll asked w).loads := by
    rw [hrecall]
    rfl
  rw [hloads]
  clear hrecall hloads
  induction asked generalizing w with
  | nil => exact ⟨[], (List.append_nil _).symm, nofun⟩
  | cons name rest ih =>
    obtain ⟨hname, hrest⟩ := List.cons_subset.mp hasked
    obtain ⟨made, hmade, hof⟩ := c.loadsOnly_get? name w
    obtain ⟨more, hmore, hofMore⟩ := ih hrest (w := (outcome (c.get? name) w).2)
    refine ⟨made ++ more, ?_, List.forall_mem_append.mpr ⟨?_, hofMore⟩⟩
    · rw [← List.append_assoc, ← hmade]
      exact hmore
    · intro load hload
      rw [hof load hload]
      exact hname

/-- However often and in whatever order these names are looked up, each has its answer. -/
def Answers (c : Context) (w : World) (names : List String) (answer : String → Option Value) :
    Prop :=
  ∀ asked ⊆ names, ∀ name ∈ names,
    (outcome (c.get? name) (c.askAll asked w)).1 = .ok (answer name)

/-- A pure context always gives the answer it gives first. -/
theorem answers_of_pure {answer : String → Option Value} (hpure : c.IsPure) (hw : c.Agrees w)
    (h : ∀ name ∈ names, (outcome (c.get? name) w).1 = .ok (answer name)) :
    c.Answers w names answer := by
  have hagrees : ∀ asked : List String, ∀ w, c.Agrees w → c.Agrees (c.askAll asked w) := by
    intro asked
    induction asked with
    | nil => exact fun _ hw => hw
    | cons name rest ih =>
      intro w hw
      obtain ⟨answer, hget⟩ := outcome_getFrom hpure name c.layers [] rfl
      obtain ⟨w', hout, hagree, -⟩ := hget w hw nofun
      refine ih _ ?_
      rw [get?, hout]
      exact hagree
  intro asked _ name hname
  obtain ⟨found, hget⟩ := outcome_getFrom hpure name c.layers [] rfl
  obtain ⟨w₁, hfirst, -⟩ := hget w hw nofun
  obtain ⟨w₂, hlater, -⟩ := hget _ (hagrees asked w hw) nofun
  rw [← h name hname, get?, hfirst, hlater]

/-! ## Couplings -/

/-- The worlds have done the same but for what loaders were asked. -/
structure SameDeeds (w w' : World) : Prop where
  invocations : w.invocations = w'.invocations
  submissions : w.submissions = w'.submissions
  poolStarted : w.poolStarted = w'.poolStarted

/-- A lookup does nothing but ask loaders. -/
theorem sameDeeds_get? (c : Context) (name : String) (w : World) :
    SameDeeds (outcome (c.get? name) w).2 w := by
  have hout := c.recalls_get? name w w
  rw [show w.recall w = w from rfl] at hout
  rw [hout]
  exact ⟨rfl, rfl, rfl⟩

theorem SameDeeds.trans {w₁ w₂ w₃ : World} (h : SameDeeds w₁ w₂) (h' : SameDeeds w₂ w₃) :
    SameDeeds w₁ w₃ where
  invocations := h.invocations.trans h'.invocations
  submissions := h.submissions.trans h'.submissions
  poolStarted := h.poolStarted.trans h'.poolStarted

/-- A context with itself: what the world remembers of loaders comes from lookups of these names. -/
theorem coupling_asked (c : Context) (names : List String) (w₀ : World) :
    Coupling c c names fun w w' => w = w' ∧ c.Asked names w₀ w where
  invocations := fun h => h.1 ▸ rfl
  submissions := fun h => h.1 ▸ rfl
  poolStarted := fun h => h.1 ▸ rfl
  update := by
    rintro w _ ⟨rfl, asked, hasked, hrecall⟩ invocations submissions poolStarted
    exact ⟨rfl, asked, hasked, congrArg (fun v : World =>
      { v with invocations, submissions, poolStarted }) hrecall⟩
  lookup := by
    rintro name hname w _ ⟨rfl, hasked⟩
    exact ⟨rfl, rfl, hasked.step hname⟩

/-- Contexts that read these names in the same way. -/
theorem coupling_eq (h : ∀ name ∈ names, c.get? name = c'.get? name) : Coupling c c' names Eq where
  invocations := fun h => h ▸ rfl
  submissions := fun h => h ▸ rfl
  poolStarted := fun h => h ▸ rfl
  update := by
    rintro w _ rfl _ _ _
    rfl
  lookup := by
    rintro name hname w _ rfl
    rw [h name hname]
    exact ⟨rfl, rfl⟩

/-- The context that has these answers for values. -/
def explicit (names : List String) (answer : String → Option Value) : Context where
  innermost := { values := ⟨names.filterMap fun name => (answer name).map (name, ·)⟩ }

variable {answer : String → Option Value}

theorem lookup_filterMap (names : List String) (name : String) :
    (names.filterMap fun name => (answer name).map (name, ·)).lookup name =
      if name ∈ names then answer name else none := by
  induction names with
  | nil => rfl
  | cons other rest ih =>
    by_cases heq : name = other
    · subst heq
      rw [if_pos List.mem_cons_self]
      cases hanswer : answer name with
      | some v => rw [List.filterMap_cons_some (by rw [hanswer]; rfl), List.lookup_cons_self]
      | none =>
        rw [List.filterMap_cons_none (by rw [hanswer]; rfl), ih, hanswer, ite_self]
    · have hmem : name ∈ other :: rest ↔ name ∈ rest := List.mem_cons.trans (or_iff_right heq)
      rw [if_congr hmem rfl rfl, ← ih]
      cases hanswer : answer other with
      | some v =>
        rw [List.filterMap_cons_some (b := (other, v)) (by rw [hanswer]; rfl), List.lookup_cons,
          beq_false_of_ne heq]
      | none => rw [List.filterMap_cons_none (by rw [hanswer]; rfl)]

theorem get?_explicit (hname : name ∈ names) :
    (explicit names answer).get? name = pure (answer name) := by
  have hvalue : (explicit names answer).innermost.values.get? name = answer name :=
    (lookup_filterMap names name).trans (if_pos hname)
  unfold get? layers getFrom
  rw [hvalue]
  cases answer name <;> rfl

/-- A context is as good as its answers. -/
theorem coupling_explicit (h : c.Answers w₀ names answer) :
    Coupling c (explicit names answer) names fun w w' =>
      SameDeeds w w' ∧ c.Asked names w₀ w where
  invocations := fun h => h.1.invocations
  submissions := fun h => h.1.submissions
  poolStarted := fun h => h.1.poolStarted
  update := by
    rintro w w' ⟨-, asked, hasked, hrecall⟩ invocations submissions poolStarted
    exact ⟨⟨rfl, rfl, rfl⟩, asked, hasked, congrArg (fun v : World =>
      { v with invocations, submissions, poolStarted }) hrecall⟩
  lookup := by
    rintro name hname w w' ⟨hdeeds, hasked⟩
    obtain ⟨asked, hsub, hout, -⟩ := hasked.exists_outcome name
    rw [get?_explicit hname, hout, h asked hsub name hname]
    exact ⟨rfl, (sameDeeds_get? c name w).trans hdeeds, hasked.step hname⟩

end Context
end RowQuery
