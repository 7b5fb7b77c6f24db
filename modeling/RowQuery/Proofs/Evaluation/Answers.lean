import RowQuery.Proofs.Evaluation.Steady

/-!
# What a run comes to by itself

`Run.answer` and `Run.calls` are the outcome of a run and the calls it makes where nothing has been
done before. A run is `Firm` if it ends so wherever it is started, as long as what is remembered of
loaders is what they would answer; that is what it means for a context and a host to be pure. On
firm runs `answer` carries sequencing to sequencing (`Firm.answer_bind`), and so what a stage of a
query comes to can be worked out without the world it is run from.
-/

set_option autoImplicit false

namespace RowQuery

open Run

namespace Run

variable {ε α β : Type}

/-- What a run comes to where nothing has been done before. -/
def answer (m : Run ε α) : Except ε α := (outcome m {}).1

/-- The calls it makes there. -/
def calls (m : Run ε α) : List Invocation := (outcome m {}).2.invocations

/-- Runs that end alike from every world are the same. -/
theorem ext {m m' : Run ε α} (h : ∀ w, outcome m w = outcome m' w) : m = m' := funext h

theorem evaluated_bind (m : Evaluation α) (f : α → Evaluation β) :
    evaluated (m >>= f) = evaluated m >>= fun a => evaluated (f a) := by
  refine ext fun w => ?_
  rw [outcome_evaluated, outcome_bind, outcome_bind, outcome_evaluated]
  rcases outcome m w with ⟨e | a, w'⟩
  · rfl
  · exact (outcome_evaluated (f a) w').symm

theorem answer_evaluated (e : Evaluation α) :
    (evaluated e).answer = e.answer.mapError Stop.toHalt := rfl

/-- A change of the error leaves what succeeds as it is. -/
theorem mapError_eq_ok_iff {δ : Type} {f : δ → ε} {r : Except δ α} {a : α} :
    r.mapError f = .ok a ↔ r = .ok a := by
  cases r with
  | ok b =>
    constructor
    · intro h
      cases h
      rfl
    · intro h
      cases h
      rfl
  | error e => exact iff_of_false nofun nofun

theorem answer_evaluated_eq_ok_iff {e : Evaluation α} {a : α} :
    (evaluated e).answer = .ok a ↔ e.answer = .ok a := by
  rw [answer_evaluated]
  exact mapError_eq_ok_iff

end Run

namespace Steady

variable {ε α : Type} {c : Context} {m : Run ε α} {r : Except ε α} {made : List Invocation}

theorem answer_eq (h : Steady c m r made) : m.answer = r := by
  obtain ⟨w, hout, -, -⟩ := h {} (Context.agrees_of_loaded_nil rfl)
  unfold Run.answer
  rw [hout]

theorem calls_eq (h : Steady c m r made) : m.calls = made := by
  obtain ⟨w, hout, -, hcalls⟩ := h {} (Context.agrees_of_loaded_nil rfl)
  unfold Run.calls
  rw [hout]
  exact hcalls

end Steady

/-- From every world that agrees, the run ends as it does where nothing has been done before. -/
def Firm {ε α : Type} (c : Context) (m : Run ε α) : Prop := Steady c m m.answer m.calls

theorem Steady.firm {ε α : Type} {c : Context} {m : Run ε α} {r : Except ε α}
    {made : List Invocation} (h : Steady c m r made) : Firm c m := by
  unfold Firm
  rw [h.answer_eq, h.calls_eq]
  exact h

namespace IsSteady

variable {α : Type} {c : Context} {m : Evaluation α}

theorem firm (h : IsSteady c m) : Firm c m := by
  obtain ⟨r, made, h⟩ := h
  exact h.firm

/-- What ends a steady evaluation is a fault. -/
theorem exists_fault (h : IsSteady c m) {stop : Stop} (hstop : m.answer = .error stop) :
    ∃ f, stop = .fault f := by
  obtain ⟨r, made, h⟩ := h
  rw [h.answer_eq] at hstop
  cases r with
  | ok a => cases hstop
  | error f => exact ⟨f, (Except.error.inj hstop).symm⟩

end IsSteady

namespace Firm

variable {ε α β : Type} {c : Context} {m : Run ε α} {f : α → Run ε β} {a : α} {e : ε} {b : β}

theorem pure (a : α) : Firm c (pure a : Run ε α) := (Steady.pure a).firm

theorem evaluated {m : Evaluation α} (h : Firm c m) : Firm c (Run.evaluated m) := Steady.evaluated h

section Bind

variable (hm : Firm c m) (hf : ∀ a, Firm c (f a))

include hm

theorem steady_bind_ok (ha : m.answer = .ok a) (hfa : Firm c (f a)) :
    Steady c (m >>= f) (f a).answer (m.calls ++ (f a).calls) := by
  unfold Firm at hm
  rw [ha] at hm
  exact hm.bind_ok hfa

theorem steady_bind_error (he : m.answer = .error e) :
    Steady c (m >>= f) (.error e) m.calls := by
  unfold Firm at hm
  rw [he] at hm
  exact hm.bind_error

theorem calls_bind_error (he : m.answer = .error e) : (m >>= f).calls = m.calls :=
  (hm.steady_bind_error he).calls_eq

include hf

theorem bind : Firm c (m >>= f) := by
  cases h : m.answer with
  | ok a => exact (hm.steady_bind_ok h (hf a)).firm
  | error e => exact (hm.steady_bind_error h).firm

theorem answer_bind : (m >>= f).answer = m.answer >>= fun a => (f a).answer := by
  cases h : m.answer with
  | ok a => exact (hm.steady_bind_ok h (hf a)).answer_eq
  | error e => exact (hm.steady_bind_error h).answer_eq

theorem calls_bind_ok (ha : m.answer = .ok a) : (m >>= f).calls = m.calls ++ (f a).calls :=
  (hm.steady_bind_ok ha (hf a)).calls_eq

/-- A sequence succeeds if its first step does and the step that follows from it. -/
theorem answer_bind_eq_ok :
    (m >>= f).answer = .ok b ↔ ∃ a, m.answer = .ok a ∧ (f a).answer = .ok b := by
  rw [hm.answer_bind hf]
  cases m.answer with
  | ok a => simp [Bind.bind, Except.bind]
  | error e => simp [Bind.bind, Except.bind]

/-- A sequence fails in its first step or in the one that follows from it. -/
theorem answer_bind_eq_error :
    (m >>= f).answer = .error e ↔
      m.answer = .error e ∨ ∃ a, m.answer = .ok a ∧ (f a).answer = .error e := by
  rw [hm.answer_bind hf]
  cases m.answer with
  | ok a => simp [Bind.bind, Except.bind]
  | error e => simp [Bind.bind, Except.bind]

end Bind

end Firm
end RowQuery
