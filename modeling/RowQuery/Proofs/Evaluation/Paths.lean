import Mathlib.Data.List.Forall2
import RowQuery.Proofs.Evaluation.Answers

/-!
# Null-safe markers

A marker on a segment of a path makes the whole path null where its value would be read of null.
That is all a marker does: adding markers to a path (`Segment.Marks`) leaves every value that is not
null and every error as it was, up to the text of what was walked, which shows the markers
(`Fault.unwalked`). What two paths come to is compared in `NullSafe`, as functions of the segments,
so that it can also say how far each of them got before it failed (`FailsAt`).
-/

set_option autoImplicit false

namespace RowQuery

open Run

/-! ## Faults up to what was walked -/

/-- The cause without the text of what was walked. -/
def Unresolved.unwalked : Unresolved → Unresolved
  | .readOfNull property _ => .readOfNull property ""
  | .noProperty owner _ property => .noProperty owner "" property
  | cause => cause

def Fault.unwalked : Fault → Fault
  | .unresolved cause => .unresolved cause.unwalked
  | f => f

def Stop.unwalked : Stop → Stop
  | .fault f => .fault f.unwalked
  | .loaderPanic => .loaderPanic

/-! ## Paths with more markers -/

theorem Segment.textAll_nil : textAll [] = "" := rfl

theorem Segment.textAll_cons (segment : Segment) (segments : List Segment) :
    textAll (segment :: segments) = segment.text ++ textAll segments := by
  rw [textAll, List.map_cons, String.join_cons]
  rfl

/-- The segment reads the same property and keeps its marker if it has one. -/
structure Segment.Marks (bare marked : Segment) : Prop where
  name : bare.name = marked.name
  optional : bare.optional = true → marked.optional = true

theorem Value.eq_null_of_isNull {v : Value} (h : v.isNull = true) : v = .null := by
  cases v with
  | null => rfl
  | _ => cases h

variable {value value' rest rest' : List Segment → Except Stop Value} {walked step : String}
  {bare marked : List Segment} {segment segment' : Segment} {v u : Value} {e e' : Stop} {n : Nat}

/-- The first `n` segments fail with `e`, and fewer do not. -/
structure FailsAt (value : List Segment → Except Stop Value) (segments : List Segment) (n : Nat)
    (e : Stop) : Prop where
  within : n ≤ segments.length
  error : value (segments.take n) = .error e
  before : ∀ k < n, ∃ v, value (segments.take k) = .ok v

namespace FailsAt

theorem base (h : value [] = .error e) (segments : List Segment) : FailsAt value segments 0 e :=
  ⟨Nat.zero_le _, h, nofun⟩

theorem head (hnil : value [] = .ok v) (h : value [segment] = .error e) (back : List Segment) :
    FailsAt value (segment :: back) 1 e := by
  refine ⟨Nat.le_add_left 1 _, h, fun k hk => ?_⟩
  rw [Nat.lt_one_iff.mp hk]
  exact ⟨v, hnil⟩

theorem cons (hnil : value [] = .ok v)
    (hcons : ∀ segments, value (segment :: segments) = rest segments)
    (h : FailsAt rest bare n e) : FailsAt value (segment :: bare) (n + 1) e := by
  refine ⟨Nat.succ_le_succ h.within, (hcons _).trans h.error, fun k hk => ?_⟩
  cases k with
  | zero => exact ⟨v, hnil⟩
  | succ k =>
    obtain ⟨u, hu⟩ := h.before k (Nat.lt_of_succ_lt_succ hk)
    exact ⟨u, (hcons _).trans hu⟩

end FailsAt

/-- What markers change. Here `value` is what the path comes to with few of them and `value'` with
more, and `walked` is the text of what the path is read from. -/
structure NullSafe (walked : String) (value value' : List Segment → Except Stop Value)
    (bare marked : List Segment) : Prop where
  kept : ∀ v, value bare = .ok v → value' marked = .ok v
  gained : ∀ v, value' marked = .ok v → v ≠ .null → value bare = .ok v
  null : value' marked = .ok .null → value bare = .ok .null ∨
    ∃ front segment back, bare = front ++ segment :: back ∧ value bare =
      .error (.fault (.unresolved (.readOfNull segment.name (walked ++ Segment.textAll front))))
  fails : ∀ e', value' marked = .error e' → ∃ n e, value bare = .error e ∧
    e.unwalked = e'.unwalked ∧ FailsAt value bare n e ∧ FailsAt value' marked n e'

namespace NullSafe

theorem of_ok (h : value bare = .ok v) (h' : value' marked = .ok v) :
    NullSafe walked value value' bare marked where
  kept u hu := by rw [h', ← h, hu]
  gained u hu _ := by rw [h, ← h', hu]
  null hnull := .inl (by rw [h, ← h', hnull])
  fails e he := by rw [h'] at he; cases he

/-- The added marker made the path null. -/
theorem of_null (front : List Segment) {back : List Segment}
    (hbare : bare = front ++ segment :: back)
    (h : value bare =
      .error (.fault (.unresolved (.readOfNull segment.name (walked ++ Segment.textAll front)))))
    (h' : value' marked = .ok .null) : NullSafe walked value value' bare marked where
  kept u hu := by rw [h] at hu; cases hu
  gained u hu hne := by
    rw [h'] at hu
    exact absurd (Except.ok.inj hu).symm hne
  null _ := .inr ⟨front, segment, back, hbare, h⟩
  fails e he := by rw [h'] at he; cases he

theorem of_error (h : value bare = .error e) (h' : value' marked = .error e')
    (heq : e.unwalked = e'.unwalked) (hfails : FailsAt value bare n e)
    (hfails' : FailsAt value' marked n e') : NullSafe walked value value' bare marked where
  kept u hu := by rw [h] at hu; cases hu
  gained u hu := by rw [h'] at hu; cases hu
  null hu := by rw [h'] at hu; cases hu
  fails e'' he := by
    rw [h'] at he
    cases he
    exact ⟨n, e, h, heq, hfails, hfails'⟩

/-- Both paths read their first segment and go on. -/
theorem cons (hnil : value [] = .ok v) (hnil' : value' [] = .ok v)
    (hcons : ∀ segments, value (segment :: segments) = rest segments)
    (hcons' : ∀ segments, value' (segment' :: segments) = rest' segments)
    (h : NullSafe (walked ++ segment.text) rest rest' bare marked) :
    NullSafe walked value value' (segment :: bare) (segment' :: marked) where
  kept u hu := by
    rw [hcons] at hu
    rw [hcons', h.kept u hu]
  gained u hu hne := by
    rw [hcons'] at hu
    rw [hcons, h.gained u hu hne]
  null hu := by
    rw [hcons'] at hu
    rw [hcons]
    refine (h.null hu).imp_right ?_
    rintro ⟨front, last, back, rfl, hlast⟩
    refine ⟨segment :: front, last, back, rfl, ?_⟩
    rw [hlast, Segment.textAll_cons, String.append_assoc]
  fails e' he := by
    rw [hcons'] at he
    obtain ⟨n, e, hbare, heq, hfails, hfails'⟩ := h.fails e' he
    exact ⟨n + 1, e, (hcons _).trans hbare, heq, hfails.cons hnil hcons,
      hfails'.cons hnil' hcons'⟩

end NullSafe

/-! ## Reading segments -/

namespace Scope

variable {s : Scope} {w w₁ : World} {back : List Segment}

/-- What reading the segments from a value comes to. -/
def walkValue (s : Scope) (walked : String) (v : Value) (w : World) (segments : List Segment) :
    Except Stop Value :=
  (outcome (s.walk walked v segments) w).1

/-- What a path comes to, whatever its segments are. -/
def pathValue (s : Scope) (base : Expr) (w : World) (segments : List Segment) : Except Stop Value :=
  (outcome (s.evaluate (.path base segments)) w).1

/-- What was walked shows in the fault of a property that cannot be read, and nowhere else. -/
theorem property_cases (s : Scope) (v : Value) (name walked walked' : String) (w : World) :
    (∃ u w₁, outcome (s.property v name walked) w = (.ok u, w₁) ∧
      outcome (s.property v name walked') w = (.ok u, w₁)) ∨
    ∃ e e' w₁, outcome (s.property v name walked) w = (.error e, w₁) ∧
      outcome (s.property v name walked') w = (.error e', w₁) ∧ e.unwalked = e'.unwalked := by
  have hsame : ∀ m : Evaluation Value,
      (∃ u w₁, outcome m w = (.ok u, w₁) ∧ outcome m w = (.ok u, w₁)) ∨
      ∃ e e' w₁, outcome m w = (.error e, w₁) ∧ outcome m w = (.error e', w₁) ∧
        e.unwalked = e'.unwalked := by
    intro m
    rcases outcome m w with ⟨e | u, w₁⟩
    · exact .inr ⟨e, e, w₁, rfl, rfl, rfl⟩
    · exact .inl ⟨u, w₁, rfl, rfl⟩
  cases v with
  | object fields => exact hsame _
  | capability target =>
    simp only [property, outcome_bind_ok (outcome_offers s target _ _ w)]
    split
    · exact hsame _
    · rw [outcome_bind_ok (outcome_offers s target _ _ w),
        outcome_bind_ok (outcome_offers s target _ _ w)]
      split
      · exact hsame _
      · exact .inr ⟨_, _, w, rfl, rfl, rfl⟩
  | _ => exact .inr ⟨_, _, w, rfl, rfl, rfl⟩

theorem walkValue_null_optional (hoptional : segment.optional = true) :
    s.walkValue walked .null w (segment :: back) = .ok .null := by
  unfold walkValue walk
  rw [Value.isNull, if_pos rfl, if_pos hoptional]
  rfl

theorem walkValue_null_bare (hoptional : segment.optional = false) :
    s.walkValue walked .null w (segment :: back) =
      .error (.fault (.unresolved (.readOfNull segment.name walked))) := by
  unfold walkValue walk
  rw [Value.isNull, if_pos rfl, hoptional, if_neg Bool.false_ne_true]
  rfl

/-- From null a path comes to null, or its first segment is read of null. -/
theorem walkValue_null (s : Scope) (walked : String) (w : World) (segments : List Segment) :
    s.walkValue walked .null w segments = .ok .null ∨ ∃ segment back,
      segments = segment :: back ∧ s.walkValue walked .null w segments =
        .error (.fault (.unresolved (.readOfNull segment.name walked))) := by
  cases segments with
  | nil => exact .inl rfl
  | cons segment back =>
    cases hoptional : segment.optional with
    | true => exact .inl (walkValue_null_optional hoptional)
    | false => exact .inr ⟨segment, back, rfl, walkValue_null_bare hoptional⟩

theorem walkValue_error (hv : v.isNull = false)
    (h : outcome (s.property v segment.name walked) w = (.error e, w₁)) :
    s.walkValue walked v w (segment :: back) = .error e := by
  unfold walkValue walk
  rw [hv, if_neg Bool.false_ne_true, outcome_bind_error h]

theorem walkValue_stop (hv : v.isNull = false)
    (h : outcome (s.property v segment.name walked) w = (.ok .null, w₁))
    (hoptional : segment.optional = true) :
    s.walkValue walked v w (segment :: back) = .ok .null := by
  unfold walkValue walk
  rw [hv, if_neg Bool.false_ne_true, outcome_bind_ok h, hoptional]
  rfl

theorem walkValue_step (hv : v.isNull = false)
    (h : outcome (s.property v segment.name walked) w = (.ok u, w₁))
    (hgo : ¬((segment.optional && u.isNull) = true)) (segments : List Segment) :
    s.walkValue walked v w (segment :: segments) =
      s.walkValue (walked ++ segment.text) u w₁ segments := by
  unfold walkValue
  rw [walk, hv, if_neg Bool.false_ne_true, outcome_bind_ok h, if_neg hgo]

/-- Where the bare path has read null: it comes to null, or what follows is read of null. -/
theorem walkValue_read_null (back : List Segment) (hv : v.isNull = false)
    (h : outcome (s.property v segment.name walked) w = (.ok .null, w₁)) :
    s.walkValue walked v w (segment :: back) = .ok .null ∨ ∃ front last rest,
      segment :: back = front ++ last :: rest ∧ s.walkValue walked v w (segment :: back) =
        .error (.fault (.unresolved
          (.readOfNull last.name (walked ++ Segment.textAll front)))) := by
  cases hoptional : segment.optional with
  | true => exact .inl (walkValue_stop hv h hoptional)
  | false =>
    rw [walkValue_step hv h (by rw [hoptional]; exact Bool.false_ne_true)]
    refine (s.walkValue_null (walked ++ segment.text) w₁ back).imp_right ?_
    rintro ⟨last, rest, rfl, hlast⟩
    refine ⟨[segment], last, rest, rfl, ?_⟩
    rw [hlast, Segment.textAll_cons, Segment.textAll_nil, String.append_empty]

theorem nullSafe_walk_null (hmarks : segment.Marks segment') (back back' : List Segment)
    (walked walked' : String) (w : World) :
    NullSafe walked (s.walkValue walked .null w) (s.walkValue walked' .null w) (segment :: back)
      (segment' :: back') := by
  cases hoptional' : segment'.optional with
  | true =>
    have hnull : s.walkValue walked' .null w (segment' :: back') = .ok .null :=
      walkValue_null_optional hoptional'
    obtain hbare | ⟨first, rest, hsplit, hbare⟩ := s.walkValue_null walked w (segment :: back)
    · exact .of_ok hbare hnull
    · refine .of_null [] hsplit (hbare.trans ?_) hnull
      rw [Segment.textAll_nil, String.append_empty]
  | false =>
    have hoptional : segment.optional = false := by
      rw [Bool.eq_false_iff]
      intro hbare
      rw [hmarks.optional hbare] at hoptional'
      cases hoptional'
    refine .of_error (walkValue_null_bare hoptional) (walkValue_null_bare hoptional') ?_
      (.head rfl (walkValue_null_bare hoptional) _) (.head rfl (walkValue_null_bare hoptional') _)
    rw [hmarks.name]
    rfl

/-- From the same value and world. The induction is on the two paths together: until one of them
stops, both have read the same values and left the same worlds. -/
theorem nullSafe_walk (s : Scope) (h : List.Forall₂ Segment.Marks bare marked) :
    ∀ walked walked' v w,
      NullSafe walked (s.walkValue walked v w) (s.walkValue walked' v w) bare marked := by
  induction h with
  | nil => exact fun _ _ _ _ => .of_ok rfl rfl
  | @cons segment segment' back back' hmarks _ ih =>
    intro walked walked' v w
    cases hv : v.isNull with
    | true =>
      obtain rfl : v = .null := Value.eq_null_of_isNull hv
      exact nullSafe_walk_null hmarks back back' walked walked' w
    | false =>
      obtain ⟨u, w₁, hbare, hmarked⟩ | ⟨e, e', w₁, hbare, hmarked, heq⟩ :=
        s.property_cases v segment.name walked walked' w
      · rw [hmarks.name] at hmarked
        by_cases hstop : (segment'.optional && u.isNull) = true
        -- The marked path stops at null. If the marker was added, the bare one reads on from there.
        · obtain ⟨hoptional', hu⟩ := Bool.and_eq_true_iff.mp hstop
          obtain rfl : u = .null := Value.eq_null_of_isNull hu
          have hnull : s.walkValue walked' v w (segment' :: back') = .ok .null :=
            walkValue_stop hv hmarked hoptional'
          obtain h | ⟨front, last, rest, hsplit, h⟩ := walkValue_read_null back hv hbare
          · exact .of_ok h hnull
          · exact .of_null front hsplit h hnull
        -- The bare path has no marker that the other lacks, so it does not stop here either.
        · have hgo : ¬((segment.optional && u.isNull) = true) := by
            intro hstop'
            obtain ⟨hoptional, hu⟩ := Bool.and_eq_true_iff.mp hstop'
            exact hstop (Bool.and_eq_true_iff.mpr ⟨hmarks.optional hoptional, hu⟩)
          exact .cons rfl rfl (walkValue_step hv hbare hgo) (walkValue_step hv hmarked hstop)
            (ih (walked ++ segment.text) (walked' ++ segment'.text) u w₁)
      · rw [hmarks.name] at hmarked
        exact .of_error (walkValue_error hv hbare) (walkValue_error hv hmarked) heq
          (.head rfl (walkValue_error hv hbare) _) (.head rfl (walkValue_error hv hmarked) _)

/-! ## Paths -/

theorem pathValue_of_base_ok {base : Expr} (h : outcome (s.evaluate base) w = (.ok v, w₁)) :
    s.pathValue base w = s.walkValue base.text v w₁ := by
  funext segments
  unfold pathValue walkValue
  rw [evaluate, outcome_bind_ok h]

theorem pathValue_of_base_error {base : Expr} (h : outcome (s.evaluate base) w = (.error e, w₁))
    (segments : List Segment) : s.pathValue base w segments = .error e := by
  unfold pathValue
  rw [evaluate, outcome_bind_error h]

theorem nullSafe_pathValue (s : Scope) (base : Expr) (w : World)
    (h : List.Forall₂ Segment.Marks bare marked) :
    NullSafe base.text (s.pathValue base w) (s.pathValue base w) bare marked := by
  rcases hbase : outcome (s.evaluate base) w with ⟨e | v, w₁⟩
  · have herror := pathValue_of_base_error hbase
    exact .of_error (herror bare) (herror marked) rfl (.base (herror []) bare)
      (.base (herror []) marked)
  · rw [pathValue_of_base_ok hbase]
    exact s.nullSafe_walk h base.text base.text v w₁

/-- With a pure host and pure loaders a path comes to the same whenever it is evaluated. -/
theorem pathValue_eq (hhost : s.host.IsPure) (hpure : s.context.IsPure) (base : Expr) {w' : World}
    (hw : s.context.Agrees w) (hw' : s.context.Agrees w') :
    s.pathValue base w = s.pathValue base w' := by
  funext segments
  have hfirm := (isSteady_evaluate hhost hpure (.path base segments)).firm
  obtain ⟨w₁, hout, -⟩ := hfirm w hw
  obtain ⟨w₂, hout', -⟩ := hfirm w' hw'
  unfold pathValue
  rw [hout, hout']

/-- Adding markers to a path only makes null of reading from null. With more of them it comes to the
same value, or to null where without them it would be null or where a segment would be read of
null; and where it fails, it fails at the same segment without them and for the same reason. So it
is when both are evaluated in one world, whatever the host does, and in any two if host and loaders
are pure. -/
theorem evaluate_path_nullSafe (s : Scope) (base : Expr)
    (h : List.Forall₂ Segment.Marks bare marked) :
    (∀ w, NullSafe base.text (s.pathValue base w) (s.pathValue base w) bare marked) ∧
    (s.host.IsPure → s.context.IsPure → ∀ w w', s.context.Agrees w → s.context.Agrees w' →
      NullSafe base.text (s.pathValue base w) (s.pathValue base w') bare marked) := by
  refine ⟨fun w => s.nullSafe_pathValue base w h, fun hhost hpure w w' hw hw' => ?_⟩
  rw [pathValue_eq hhost hpure base hw hw']
  exact s.nullSafe_pathValue base w' h

/-- A user without a text about themselves: the marker on `bio` makes null of reading its length.
The profile is asked of the host. -/
theorem evaluate_path_nullSafe_bio :
    let profile : Value := .object ⟨[("bio", .null)]⟩
    let host : Host := { capability := fun _ =>
      ⟨fun name _ => name == "profile", fun _ _ _ => .returned profile⟩ }
    let s : Scope :=
      ⟨host, { innermost := { values := ⟨[("user", .capability ⟨0, "user"⟩)]⟩ } }, ⟨0, []⟩⟩
    let bare : List Segment := [⟨"profile", false⟩, ⟨"bio", false⟩, ⟨"length", false⟩]
    let marked : List Segment := [⟨"profile", false⟩, ⟨"bio", true⟩, ⟨"length", false⟩]
    let later : World := { invocations := [⟨⟨0, "user"⟩, "profile", []⟩] }
    List.Forall₂ Segment.Marks bare marked ∧
    s.pathValue (.variable "user") later marked = .ok .null ∧
    ∃ front segment back, bare = front ++ segment :: back ∧
      s.pathValue (.variable "user") {} bare = .error (.fault (.unresolved
        (.readOfNull segment.name ((Expr.variable "user").text ++ Segment.textAll front)))) := by
  intro profile host s bare marked later
  have hmarks : List.Forall₂ Segment.Marks bare marked :=
    .cons ⟨rfl, nofun⟩ (.cons ⟨rfl, nofun⟩ (.cons ⟨rfl, nofun⟩ .nil))
  have hhost : s.host.IsPure := ⟨fun _ _ => rfl, fun _ _ _ _ => rfl⟩
  have hpure : s.context.IsPure := fun _ h => by cases h
  have hnull : s.pathValue (.variable "user") later marked = .ok .null := rfl
  have hsafe := (evaluate_path_nullSafe s (.variable "user") hmarks).2 hhost hpure {} later
    (Context.agrees_of_loaded_nil rfl) (Context.agrees_of_loaded_nil rfl)
  refine ⟨hmarks, hnull, (hsafe.null hnull).resolve_left fun hbare => ?_⟩
  have herror : s.pathValue (.variable "user") {} bare =
    .error (.fault (.unresolved (.readOfNull "length" "user.profile.bio"))) := rfl
  rw [herror] at hbare
  cases hbare

end Scope
end RowQuery
