import RowQuery.Proofs.Engine.Lockstep
import RowQuery.Proofs.Evaluation.Memory

/-!
# Sessions: contexts in use over many requests

A session is a sequence of lookups and query executions, each in a context of its own; contexts
that were made from one another by binding names share what is remembered of their loaders. Every
request is to the memory a sequence of lookups in its context (`Request.served`), and so the accounts
of lookups carry over to sessions: `Request.serve_accounts`.
-/

set_option autoImplicit false

namespace RowQuery

open Run

/-- Something asked of a context. -/
inductive Request where
  | get (c : Context) (name : String)
  | contains (c : Context) (name : String)
  | execute (env : Environment) (c : Context) (q : Query)

namespace Request

def context : Request → Context
  | .get c _ => c
  | .contains c _ => c
  | .execute _ c _ => c

/-- The names it may look up. -/
def names : Request → List String
  | .get _ name => [name]
  | .contains _ name => [name]
  | .execute _ _ q => q.freeNames

/-- The world after it. -/
def after (w : World) : Request → World
  | .get c name => (outcome (c.get? name) w).2
  | .contains c name => (outcome (c.contains name) w).2
  | .execute env c q => (outcome (q.execute env c) w).2

/-- The world after the requests, one after another. -/
def serve (w : World) (requests : List Request) : World := requests.foldl after w

theorem serve_append (w : World) (front back : List Request) :
    serve w (front ++ back) = serve (serve w front) back := List.foldl_append

theorem outcome_contains (c : Context) (name : String) (w : World) :
    outcome (c.contains name) w =
      ((outcome (c.get? name) w).1.map Option.isSome, (outcome (c.get? name) w).2) := by
  unfold Context.contains
  rw [outcome_bind]
  rcases outcome (c.get? name) w with ⟨e | answer, w'⟩ <;> rfl

theorem after_contains (c : Context) (name : String) (w : World) :
    after w (.contains c name) = after w (.get c name) :=
  congrArg Prod.snd (outcome_contains c name w)

/-! ## One request -/

/-- What a request changes of the memory comes from lookups in its context. -/
theorem asked (r : Request) (w : World) : r.context.Asked r.names w (r.after w) := by
  cases r with
  | get c name => exact (Context.Asked.refl c _ w).step (List.mem_singleton_self name)
  | contains c name =>
    rw [after_contains]
    exact (Context.Asked.refl c _ w).step (List.mem_singleton_self name)
  | execute env c q =>
    have k := c.coupling_asked q.freeNames w
    exact (k.execute q (List.Subset.refl _) w w ⟨rfl, .refl c _ w⟩).2.2

/-- All loaders it may call always answer. -/
def AlwaysAnswered (r : Request) : Prop := ∀ loader ∈ r.context.loaders, loader.AlwaysAnswers

variable {r : Request} {requests : List Request} {w later : World}

theorem served (h : r.AlwaysAnswered) (hw : w.Remembers) :
    Context.LookedUp r.names r.context.layers w (r.after w) := (r.asked w).lookedUp h hw

/-! ## A session -/

/-- Requests leave a memory in order, which has grown. -/
theorem serve_remembers (h : ∀ r ∈ requests, r.AlwaysAnswered) (hw : w.Remembers) :
    (serve w requests).Remembers ∧ w.Extends (serve w requests) := by
  induction requests generalizing w with
  | nil => exact ⟨hw, .refl w⟩
  | cons r rest ih =>
    obtain ⟨hr, hrest⟩ := List.forall_mem_cons.mp h
    have hserved := served hr hw
    obtain ⟨hremembers, hgrown⟩ := ih hrest hserved.remembers
    exact ⟨hremembers, hserved.grown.trans hgrown⟩

/-- A load of a session was made in the course of one of its requests, for a name of the request,
and was due. -/
theorem exists_request_of_load (h : ∀ r ∈ requests, r.AlwaysAnswered) :
    ∀ w : World, w.Remembers → (serve w requests).Extends later →
      World.MadeSince w (serve w requests) fun earlier load => ∃ front r back,
        requests = front ++ r :: back ∧ (serve w front).loads <+: earlier ∧
        earlier ++ [load] <+: (serve w (front ++ [r])).loads ∧ load.name ∈ r.names ∧
        Context.Due later r.context.layers earlier load := by
  induction requests with
  | nil => exact fun w _ _ => .of_loads_eq rfl
  | cons r rest ih =>
    intro w hw hlater
    obtain ⟨hr, hrest⟩ := List.forall_mem_cons.mp h
    have hserved := served hr hw
    have hgrown := (serve_remembers hrest hserved.remembers).2
    have hfirst := hserved.due later (hgrown.trans hlater)
    intro earlier load after hloads hbefore
    have hprefix : (r.after w).loads <+: earlier ++ load :: after := hloads ▸ hgrown.loads
    -- it was made by the first request or by a later one
    rcases World.prefix_cases hprefix with ⟨tail, hcut⟩ | hbehind
    · obtain ⟨hname, hdue⟩ := hfirst earlier load tail hcut hbefore
      refine ⟨[], r, rest, rfl, hbefore, ?_, hname, hdue⟩
      show _ <+: (r.after w).loads
      rw [hcut]
      exact ⟨tail, List.append_assoc _ _ _⟩
    · obtain ⟨front, r', back, rfl, hfrom, hto, hname, hdue⟩ :=
        ih hrest (r.after w) hserved.remembers hlater earlier load after hloads hbehind
      exact ⟨r :: front, r', back, rfl, hfrom, hto, hname, hdue⟩

/-- What a lookup in the course of a session answers is what is known of the name at its end. -/
theorem outcome_get?_of_session (c : Context) (name : String) {front back : List Request}
    (hfront : ∀ r ∈ front, r.AlwaysAnswered) (hc : ∀ loader ∈ c.loaders, loader.AlwaysAnswers)
    (hback : ∀ r ∈ back, r.AlwaysAnswered) (hw : w.Remembers) :
    (outcome (c.get? name) (serve w front)).1 =
      .ok (c.known (serve w (front ++ .get c name :: back)) name) := by
  have hreached := (serve_remembers hfront hw).1
  obtain ⟨answer, w', hout, hlooked, hknown⟩ := Context.exists_outcome_get? hc hreached name
  have hgrown := (serve_remembers hback hlooked.remembers).2
  have hserve : serve w (front ++ .get c name :: back) = serve w' back := by
    rw [serve_append]
    show serve (outcome (c.get? name) (serve w front)).2 back = _
    rw [hout]
  rw [hserve, (hknown _ hgrown).1, hout]

/-- Behind a lookup in the course of a session no layer that it came to is left to be asked. -/
theorem settled_of_session {c : Context} {name : String} {front back : List Request}
    (hr : r = .get c name ∨ r = .contains c name)
    (h : ∀ r' ∈ front ++ r :: back, r'.AlwaysAnswered) (hw : w.Remembers) :
    Context.Settled (serve w (front ++ [r])) (serve w (front ++ r :: back)) name c.layers := by
  obtain ⟨hfront, hrest⟩ := List.forall_mem_append.mp h
  obtain ⟨hanswers, hback⟩ := List.forall_mem_cons.mp hrest
  have hcontext : r.context = c := by rcases hr with rfl | rfl <;> rfl
  have hc : ∀ loader ∈ c.loaders, loader.AlwaysAnswers := by
    rw [← hcontext]
    exact hanswers
  have hafter : r.after (serve w front) = (outcome (c.get? name) (serve w front)).2 := by
    rcases hr with rfl | rfl
    · rfl
    · exact after_contains c name _
  have hreached := (serve_remembers hfront hw).1
  obtain ⟨answer, w', hout, hlooked, hknown⟩ := Context.exists_outcome_get? hc hreached name
  rw [hout] at hafter
  rw [serve_append, serve_append]
  show Context.Settled (r.after _) (serve (r.after _) back) name c.layers
  rw [hafter]
  exact (hknown _ (serve_remembers hback hlooked.remembers).2).2

/-- What is remembered in a session is the reply of a loader of one of its requests. -/
theorem exists_reply {load : Load} (h : ∀ r ∈ requests, r.AlwaysAnswered)
    (hmem : ((serve {} requests).loaded.lookup load).isSome)
    (hlater : (serve {} requests).Extends later) :
    ∃ earlier asked, earlier ++ [load] <+: (serve {} requests).loads ∧ asked.id = load.loader ∧
      (∃ r ∈ requests, asked ∈ r.context.loaders) ∧
      later.loaded.lookup load = some (asked.resolve earlier load.name).answer := by
  have hload := ((serve_remembers h World.remembers_empty).1.answered load).mpr hmem
  obtain ⟨earlier, rest, hloads⟩ := List.append_of_mem hload
  obtain ⟨front, r, back, rfl, -, -, -, hdue⟩ :=
    exists_request_of_load h {} World.remembers_empty hlater earlier load rest hloads
      List.nil_prefix
  obtain ⟨inner, layer, outer, asked, hlayers, -, -, hloader, hid, hreply⟩ := hdue
  refine ⟨earlier, asked, ?_, hid, ⟨r, List.mem_append_right front List.mem_cons_self, ?_⟩, hreply⟩
  · rw [hloads]
    exact ⟨rest, List.append_assoc _ _ _⟩
  · refine List.mem_filterMap.mpr ⟨layer, ?_, hloader⟩
    rw [hlayers]
    exact List.mem_append_right inner List.mem_cons_self

/-- The accounts of a session whose loaders always answer. No loader is asked for a name twice. A
loader is called in the course of a request, for a name the request looks up, when the lookup has
come to the layer of the loader and the layer has no value of the name. Every lookup of a name in a
context has the answer that is known at the end, however early it is made. Where it comes to a layer
that has a loader and no value of the name, the loader has been asked by then, and its one reply is
what is remembered; should loaders of the session share the number, one of these was asked. A binding
changes what is known of one name, in the context with the binding. -/
theorem serve_accounts (requests : List Request) (h : ∀ r ∈ requests, r.AlwaysAnswered) :
    let w := serve {} requests
    w.loads.Nodup ∧
    (∀ earlier load later, w.loads = earlier ++ load :: later → ∃ front r back,
      requests = front ++ r :: back ∧ (serve {} front).loads <+: earlier ∧
        earlier ++ [load] <+: (serve {} (front ++ [r])).loads ∧ load.name ∈ r.names ∧
        Context.Due w r.context.layers earlier load) ∧
    (∀ front c name back, requests = front ++ .get c name :: back →
      (outcome (c.get? name) (serve {} front)).1 = .ok (c.known w name)) ∧
    (∀ front c name back, requests = front ++ .contains c name :: back →
      (outcome (c.contains name) (serve {} front)).1 = .ok (c.known w name).isSome) ∧
    (∀ front r back c name, requests = front ++ r :: back →
      (r = .get c name ∨ r = .contains c name) →
      ∀ layer loader, Context.Reaches w name c.layers layer → layer.values.get? name = none →
        layer.loader = some loader → ∃ earlier asked,
          earlier ++ [⟨loader.id, name⟩] <+: (serve {} (front ++ [r])).loads ∧
          asked.id = loader.id ∧ (∃ r' ∈ front ++ [r], asked ∈ r'.context.loaders) ∧
          w.loaded.lookup ⟨loader.id, name⟩ = some (asked.resolve earlier name).answer) ∧
    ∀ (c : Context) (name : String) (v : Value) (other : String),
      (c.bind name v).known w other = if other = name then some v else c.known w other := by
  intro w
  refine ⟨(serve_remembers h World.remembers_empty).1.once, ?_, ?_, ?_, ?_, fun c => c.known_bind w⟩
  · intro earlier load later hloads
    exact exists_request_of_load h {} World.remembers_empty (.refl w) earlier load later hloads
      (List.nil_prefix)
  · rintro front c name back rfl
    obtain ⟨hfront, hrest⟩ := List.forall_mem_append.mp h
    obtain ⟨hget, hback⟩ := List.forall_mem_cons.mp hrest
    exact outcome_get?_of_session c name hfront hget hback World.remembers_empty
  · rintro front c name back rfl
    obtain ⟨hfront, hrest⟩ := List.forall_mem_append.mp h
    obtain ⟨hcontains, hback⟩ := List.forall_mem_cons.mp hrest
    have hsame : w = serve {} (front ++ .get c name :: back) := by
      show serve {} (front ++ .contains c name :: back) = _
      rw [serve_append, serve_append]
      exact congrArg (serve · back) (after_contains c name _)
    rw [outcome_contains, hsame,
      outcome_get?_of_session c name hfront hcontains hback World.remembers_empty]
    rfl
  · rintro front r back c name rfl hr layer loader hreaches hvalue hloader
    have hmem := settled_of_session hr h World.remembers_empty layer hreaches hvalue loader hloader
    obtain ⟨hfront, hback⟩ := List.forall_mem_append.mp (List.append_cons front r back ▸ h)
    have hgrown : (serve {} (front ++ [r])).Extends w := by
      show World.Extends _ (serve {} (front ++ r :: back))
      rw [List.append_cons front r back, serve_append {} (front ++ [r]) back]
      exact (serve_remembers hback (serve_remembers hfront World.remembers_empty).1).2
    exact exists_reply hfront hmem hgrown

/-- A loader whose answers count its calls, beside a name it does not know and one that is null; the
context is extended between two lookups, and a query looks one of the names up for every row. -/
theorem serve_accounts_counting :
    let loader : Loader := ⟨0, fun earlier name =>
      if name = "ghost" then .unknown else if name = "nothing" then .found .null
      else .found (.int (.ofNat earlier.length))⟩
    let base : Context := { innermost := { values := ⟨[("ghost", .bool true)]⟩ } }
    let c : Context := base.push { values := ⟨[("items", .array [.null, .null])]⟩
                                   loader := some loader }
    let q : Query := {
      source := ⟨"items", "x"⟩, groups := [], restriction := none
      projection := [("fresh", .variable "fresh"), ("twice", .variable "fresh")] }
    let env : Environment := { host := { capability := fun _ =>
      ⟨fun _ _ => false, fun _ _ _ => .failed ""⟩ } }
    let front : List Request := [.contains c "nothing", .get (c.bind "fresh" .null) "fresh",
      .execute env (c.bind "other" .null) q]
    let back : List Request := [.get c "ghost", .get (c.bind "other" .null) "ghost"]
    let w := Request.serve {} (front ++ .get c "fresh" :: back)
    (∀ r ∈ front ++ .get c "fresh" :: back, r.AlwaysAnswered) ∧
      w.loads = [⟨0, "nothing"⟩, ⟨0, "fresh"⟩, ⟨0, "ghost"⟩] ∧ w.loads.Nodup ∧
      c.known w "fresh" = some (.int 1) ∧
      (outcome (c.get? "fresh") (Request.serve {} front)).1 = .ok (c.known w "fresh") ∧
      ∃ earlier, earlier ++ [⟨0, "fresh"⟩] <+: (serve {} (front ++ [.get c "fresh"])).loads ∧
        w.loaded.lookup ⟨0, "fresh"⟩ = some (loader.resolve earlier "fresh").answer := by
  intro loader base c q env front back w
  have hloader : loader.AlwaysAnswers := by
    intro earlier name
    show (if name = "ghost" then _ else _) ≠ LoadReply.panicked
    split_ifs <;> exact LoadReply.noConfusion
  have hloaders : ∀ r ∈ front ++ .get c "fresh" :: back, r.context.loaders = [loader] := by
    intro r hr
    simp only [front, back, List.cons_append, List.nil_append, List.mem_cons,
      List.not_mem_nil, or_false] at hr
    rcases hr with rfl | rfl | rfl | rfl | rfl | rfl <;> rfl
  have hanswers : ∀ r ∈ front ++ .get c "fresh" :: back, r.AlwaysAnswered := by
    intro r hr other hother
    rw [hloaders r hr] at hother
    cases List.mem_singleton.mp hother
    exact hloader
  obtain ⟨honce, -, hget, -, hreply, -⟩ :=
    serve_accounts (front ++ .get c "fresh" :: back) hanswers
  refine ⟨hanswers, rfl, honce, rfl, hget front c "fresh" back rfl, ?_⟩
  have hreached : Context.Reaches w "fresh" c.layers c.innermost :=
    ⟨[], c.outer, rfl, List.forall_mem_nil _⟩
  obtain ⟨earlier, asked, hbefore, -, ⟨r, hr, hasked⟩, hmem⟩ :=
    hreply front (.get c "fresh") back c "fresh" rfl (.inl rfl) c.innermost loader hreached rfl rfl
  have hall : r ∈ front ++ .get c "fresh" :: back := by
    rw [List.append_cons]
    exact List.mem_append_left back hr
  rw [hloaders r hall] at hasked
  cases List.mem_singleton.mp hasked
  exact ⟨earlier, hbefore, hmem⟩

end Request
end RowQuery
