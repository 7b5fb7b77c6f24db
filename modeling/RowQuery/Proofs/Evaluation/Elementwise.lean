import Mathlib.Data.List.Forall2
import Mathlib.Data.List.ReduceOption
import RowQuery.Proofs.Evaluation.Answers

/-!
# Runs that deal with each element by itself

A stage of a query is run over all rows before the next one is, and still each row is dealt with by
itself: the stage is through with a list when it is through with the parts of the list, and what it
makes of the list is what it makes of the parts (`Elementwise`). This is kept by putting one stage
after another (`Elementwise.bind`), and it is what turns a statement about two halves of a list into
one about its elements.

Most stages also stop at the first element that fails (`FailsFast`). For these the error of a list
is the error of the first of its parts that fails.
-/

set_option autoImplicit false

namespace RowQuery

open Run

variable {ε α β γ : Type} {c : Context}

/-! ## Elementwise runs -/

/-- The run is through with a list if it is through with both parts of it, and no element becomes
more than one. -/
structure Elementwise (c : Context) (run : List α → Run ε (List β)) : Prop where
  firm : ∀ as, Firm c (run as)
  nil : (run []).answer = .ok []
  append : ∀ as bs out, (run (as ++ bs)).answer = .ok out ↔
    ∃ front back, (run as).answer = .ok front ∧ (run bs).answer = .ok back ∧ out = front ++ back
  single : ∀ a out, (run [a]).answer = .ok out → out.length ≤ 1

namespace Elementwise

variable {run : List α → Run ε (List β)} {next : List β → Run ε (List γ)}

/-- Elements do not become more on the way. -/
theorem length_le (h : Elementwise c run) {as : List α} {out : List β}
    (hout : (run as).answer = .ok out) : out.length ≤ as.length := by
  induction as generalizing out with
  | nil =>
    rw [h.nil] at hout
    cases hout
    exact Nat.le_refl 0
  | cons a rest ih =>
    obtain ⟨front, back, hfront, hback, rfl⟩ := (h.append [a] rest out).mp hout
    have hone := h.single a front hfront
    have hrest := ih hback
    simp only [List.length_append, List.length_cons]
    omega

/-- What a list becomes is what its elements become. -/
theorem answer_of_each (h : Elementwise c run) {f : α → List β} {as : List α}
    (heach : ∀ a ∈ as, (run [a]).answer = .ok (f a)) : (run as).answer = .ok (as.flatMap f) := by
  induction as with
  | nil => exact h.nil
  | cons a rest ih =>
    have hrest := ih fun b hb => heach b (List.mem_cons_of_mem a hb)
    exact (h.append [a] rest _).mpr ⟨_, _, heach a List.mem_cons_self, hrest, rfl⟩

/-- A run that is through with every element another is through with, to the same effect, is through
with every list. -/
theorem ok_of_single {run' : List α → Run ε (List β)} (h : Elementwise c run)
    (h' : Elementwise c run')
    (hsingle : ∀ a out, (run [a]).answer = .ok out → (run' [a]).answer = .ok out) {as : List α}
    {out : List β} (hout : (run as).answer = .ok out) : (run' as).answer = .ok out := by
  induction as generalizing out with
  | nil =>
    rw [h.nil] at hout
    cases hout
    exact h'.nil
  | cons a rest ih =>
    obtain ⟨front, back, hfront, hback, rfl⟩ := (h.append [a] rest out).mp hout
    exact (h'.append [a] rest _).mpr ⟨front, back, hsingle a front hfront, ih hback, rfl⟩

/-- One run after another. -/
theorem bind (h : Elementwise c run) (hnext : Elementwise c next) :
    Elementwise c fun as => run as >>= next := by
  have hok : ∀ as out, (run as >>= next).answer = .ok out ↔
      ∃ mid, (run as).answer = .ok mid ∧ (next mid).answer = .ok out :=
    fun as out => (h.firm as).answer_bind_eq_ok hnext.firm
  refine ⟨fun as => (h.firm as).bind hnext.firm, ?_, ?_, ?_⟩
  · exact (hok [] []).mpr ⟨[], h.nil, hnext.nil⟩
  · intro as bs out
    constructor
    · intro hout
      obtain ⟨mid, hmid, hout⟩ := (hok _ _).mp hout
      obtain ⟨front, back, hfront, hback, rfl⟩ := (h.append as bs mid).mp hmid
      obtain ⟨front', back', hfront', hback', rfl⟩ := (hnext.append front back out).mp hout
      exact ⟨front', back', (hok _ _).mpr ⟨front, hfront, hfront'⟩,
        (hok _ _).mpr ⟨back, hback, hback'⟩, rfl⟩
    · rintro ⟨front', back', hfront', hback', rfl⟩
      obtain ⟨front, hfront, hfront'⟩ := (hok _ _).mp hfront'
      obtain ⟨back, hback, hback'⟩ := (hok _ _).mp hback'
      refine (hok _ _).mpr ⟨front ++ back, ?_, ?_⟩
      · exact (h.append as bs _).mpr ⟨front, back, hfront, hback, rfl⟩
      · exact (hnext.append front back _).mpr ⟨front', back', hfront', hback', rfl⟩
  · intro a out hout
    obtain ⟨mid, hmid, hout⟩ := (hok _ _).mp hout
    exact Nat.le_trans (hnext.length_le hout) (h.single a mid hmid)

theorem comp_map (h : Elementwise c run) (f : γ → α) :
    Elementwise c fun cs : List γ => run (cs.map f) where
  firm cs := h.firm _
  nil := h.nil
  append as bs out := by
    rw [List.map_append]
    exact h.append _ _ out
  single a out := h.single (f a) out

theorem exists_eq_toList {l : List β} (h : l.length ≤ 1) : ∃ part : Option β, l = part.toList := by
  rcases l with - | ⟨b, - | ⟨b', rest⟩⟩
  · exact ⟨none, rfl⟩
  · exact ⟨some b, rfl⟩
  · simp at h

/-- Every element has its part in the result, which is nothing or one thing, or fails. -/
theorem exists_part (h : Elementwise c run) : ∃ part : α → Option (Option β), ∀ as out,
    (run as).answer = .ok out ↔ ∃ parts : List (Option β),
      List.Forall₂ (fun a p => part a = some p) as parts ∧ out = parts.reduceOption := by
  let part (a : α) : Option (Option β) := (run [a]).answer.toOption.map List.head?
  have hpart : ∀ a p, part a = some p ↔ (run [a]).answer = .ok p.toList := by
    intro a p
    cases hrun : (run [a]).answer with
    | error e => simp [part, hrun, Except.toOption]
    | ok out =>
      obtain ⟨p', rfl⟩ := exists_eq_toList (h.single a out hrun)
      cases p <;> cases p' <;> simp [part, hrun, Except.toOption]
  have hcons : ∀ (p : Option β) (parts : List (Option β)),
      (p :: parts).reduceOption = p.toList ++ parts.reduceOption := by
    intro p parts
    cases p <;> rfl
  refine ⟨part, fun as => ?_⟩
  induction as with
  | nil =>
    intro out
    rw [h.nil]
    simp [eq_comm, List.reduceOption]
  | cons a rest ih =>
    intro out
    rw [← List.singleton_append, h.append]
    constructor
    · rintro ⟨front, back, hfront, hback, rfl⟩
      obtain ⟨p, rfl⟩ := exists_eq_toList (h.single a front hfront)
      obtain ⟨parts, hparts, rfl⟩ := (ih back).mp hback
      exact ⟨p :: parts, .cons ((hpart a p).mpr hfront) hparts, (hcons p parts).symm⟩
    · rintro ⟨parts, hparts, rfl⟩
      cases hparts with
      | cons hhead htail =>
        exact ⟨_, _, (hpart a _).mp hhead, (ih _).mpr ⟨_, htail, rfl⟩, hcons _ _⟩

/-- A run that does nothing. -/
theorem pure (c : Context) : Elementwise c (fun as => pure as : List α → Run ε (List α)) where
  firm _ := .pure _
  nil := rfl
  append as bs out := by
    constructor
    · intro h
      cases h
      exact ⟨as, bs, rfl, rfl, rfl⟩
    · rintro ⟨front, back, hfront, hback, rfl⟩
      cases hfront
      cases hback
      rfl
  single a out h := by
    cases h
    exact Nat.le_refl 1

end Elementwise

/-! ## Runs that stop at the first failure -/

/-- The run deals with the elements in their order, and with none after one that fails. -/
structure FailsFast (run : List α → Run ε (List β)) : Prop where
  nil : run [] = pure []
  append : ∀ as bs, run (as ++ bs) = do
    let front ← run as
    let back ← run bs
    return front ++ back

namespace FailsFast

variable {run : List α → Run ε (List β)}

theorem answer_append (h : FailsFast run) (hfirm : ∀ as, Firm c (run as)) (as bs : List α) :
    (run (as ++ bs)).answer = do
      let front ← (run as).answer
      let back ← (run bs).answer
      return front ++ back := by
  rw [h.append, (hfirm as).answer_bind fun front => (hfirm bs).bind fun back => .pure _]
  refine bind_congr fun front => ?_
  rw [(hfirm bs).answer_bind fun back => .pure _]
  rfl

theorem elementwise (h : FailsFast run) (hfirm : ∀ as, Firm c (run as))
    (hsingle : ∀ a out, (run [a]).answer = .ok out → out.length ≤ 1) : Elementwise c run where
  firm := hfirm
  nil := by
    rw [h.nil]
    rfl
  append as bs out := by
    rw [h.answer_append hfirm]
    rcases (run as).answer with e | front
    · simp [Bind.bind, Except.bind]
    · rcases (run bs).answer with e | back
      · simp [Bind.bind, Except.bind]
      · simp [Bind.bind, Except.bind, Pure.pure, Except.pure, eq_comm]
  single := hsingle

/-- A list of lists fails with the error of the first part that fails. -/
theorem exists_first_error (h : FailsFast run) (hfirm : ∀ as, Firm c (run as)) {parts : γ → List α}
    {xs : List γ} {e : ε} (herror : (run (xs.flatMap parts)).answer = .error e) :
    ∃ before x after, xs = before ++ x :: after ∧ (run (parts x)).answer = .error e ∧
      ∀ y ∈ before, ∃ out, (run (parts y)).answer = .ok out := by
  induction xs with
  | nil =>
    rw [List.flatMap_nil, h.nil] at herror
    cases herror
  | cons x rest ih =>
    rw [List.flatMap_cons, h.answer_append hfirm] at herror
    cases hx : (run (parts x)).answer with
    | error e' =>
      rw [hx] at herror
      cases herror
      exact ⟨[], x, rest, rfl, hx, nofun⟩
    | ok front =>
      rw [hx] at herror
      have hrest : (run (rest.flatMap parts)).answer = .error e := by
        cases hback : (run (rest.flatMap parts)).answer with
        | error e' =>
          rw [hback] at herror
          cases herror
          rfl
        | ok back =>
          rw [hback] at herror
          cases herror
      obtain ⟨before, y, after, rfl, hy, hbefore⟩ := ih hrest
      refine ⟨x :: before, y, after, rfl, hy, ?_⟩
      intro z hz
      rcases List.mem_cons.mp hz with rfl | hz
      · exact ⟨front, hx⟩
      · exact hbefore z hz

/-- With the results left out and the elements themselves kept. -/
theorem keep (h : FailsFast run) : FailsFast fun as => do
    let _ ← run as
    return as where
  nil := by
    rw [h.nil]
    simp
  append as bs := by
    rw [h.append]
    simp

end FailsFast

/-! ## One step for each element -/

/-- Take a step for each element and keep what the steps give. -/
def sift (step : α → Evaluation (Option β)) : List α → Evaluation (List β)
  | [] => return []
  | a :: rest => do
    let got ← step a
    let kept ← sift step rest
    return got.toList ++ kept

variable {step : α → Evaluation (Option β)}

theorem sift_append (as bs : List α) : sift step (as ++ bs) = do
    let front ← sift step as
    let back ← sift step bs
    return front ++ back := by
  induction as with
  | nil => simp [sift]
  | cons a rest ih =>
    rw [List.cons_append, sift, sift, ih]
    simp only [bind_assoc, pure_bind, List.append_assoc]

theorem failsFast_sift : FailsFast fun as => evaluated (sift step as) where
  nil := rfl
  append as bs := by
    rw [sift_append, evaluated_bind]
    refine bind_congr fun front => ?_
    rw [evaluated_bind]
    rfl

theorem sift_single (a : α) : sift step [a] = (do return (← step a).toList) := by
  simp [sift]

/-- One element fails with the fault of its step. -/
theorem exists_fault_of_sift_single {a : α} (hstep : IsSteady c (step a)) {e : Halt}
    (h : (evaluated (sift step [a])).answer = .error e) :
    ∃ f, (step a).answer = .error (.fault f) ∧ e = .error (.fault f) := by
  rw [sift_single, evaluated_bind] at h
  rcases (hstep.firm.evaluated.answer_bind_eq_error fun _ => .pure _).mp h with h | ⟨got, -, h⟩
  · rw [answer_evaluated] at h
    cases hanswer : (step a).answer with
    | ok got =>
      rw [hanswer] at h
      cases h
    | error stop =>
      obtain ⟨f, rfl⟩ := hstep.exists_fault hanswer
      rw [hanswer] at h
      exact ⟨f, rfl, (Except.error.inj h).symm⟩
  · cases h

theorem isSteady_sift (hstep : ∀ a, IsSteady c (step a)) (as : List α) :
    IsSteady c (sift step as) := by
  induction as with
  | nil => exact .pure _
  | cons a rest ih => exact .bind (hstep a) fun _ => .bind ih fun _ => .pure _

theorem elementwise_sift (hstep : ∀ a, IsSteady c (step a)) :
    Elementwise c fun as => evaluated (sift step as) := by
  refine failsFast_sift.elementwise (fun as => (isSteady_sift hstep as).firm.evaluated) ?_
  intro a out hout
  rw [sift_single, evaluated_bind] at hout
  obtain ⟨got, -, hgot⟩ :=
    ((hstep a).firm.evaluated.answer_bind_eq_ok fun _ => .pure _).mp hout
  cases hgot
  cases got with
  | none => exact Nat.zero_le 1
  | some b => exact Nat.le_refl 1

/-- Keep the element if it passes. -/
def keepIf (test : α → Evaluation Bool) (a : α) : Evaluation (Option α) := do
  return if ← test a then some a else none

theorem isSteady_keepIf {test : α → Evaluation Bool} (htest : ∀ a, IsSteady c (test a)) (a : α) :
    IsSteady c (keepIf test a) := .bind (htest a) fun _ => .pure _

theorem answer_of_keepIf_error {test : α → Evaluation Bool} (htest : ∀ a, IsSteady c (test a))
    {a : α} {stop : Stop} (h : (keepIf test a).answer = .error stop) :
    (test a).answer = .error stop := by
  rcases ((htest a).firm.answer_bind_eq_error fun _ => .pure _).mp h with h | ⟨passed, -, h⟩
  · exact h
  · cases h

theorem sift_keepIf_cons (test : α → Evaluation Bool) (a : α) (rest : List α) :
    sift (keepIf test) (a :: rest) = do
      let passed ← test a
      let kept ← sift (keepIf test) rest
      return if passed then a :: kept else kept := by
  unfold keepIf
  rw [sift, bind_assoc]
  refine bind_congr fun passed => ?_
  cases passed <;> rfl

/-- Tests with the same answers keep the same elements. -/
theorem answer_sift_keepIf_congr {test test' : α → Evaluation Bool}
    (htest : ∀ a, IsSteady c (test a)) (htest' : ∀ a, IsSteady c (test' a)) {as : List α}
    (h : ∀ a ∈ as, (test a).answer = (test' a).answer) :
    (sift (keepIf test) as).answer = (sift (keepIf test') as).answer := by
  induction as with
  | nil => rfl
  | cons a rest ih =>
    obtain ⟨ha, hrest⟩ := List.forall_mem_cons.mp h
    have hfirm := (isSteady_sift (isSteady_keepIf htest) rest).firm
    have hfirm' := (isSteady_sift (isSteady_keepIf htest') rest).firm
    rw [sift_keepIf_cons, sift_keepIf_cons,
      (htest a).firm.answer_bind fun _ => hfirm.bind fun _ => .pure _,
      (htest' a).firm.answer_bind fun _ => hfirm'.bind fun _ => .pure _, ha]
    refine bind_congr fun passed => ?_
    rw [hfirm.answer_bind fun _ => .pure _, hfirm'.answer_bind fun _ => .pure _, ih hrest]

end RowQuery
