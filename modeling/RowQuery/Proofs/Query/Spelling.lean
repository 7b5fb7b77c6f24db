import RowQuery.Proofs.Evaluation.Steady
import RowQuery.Proofs.Query.Agreement

/-!
# The names that words give

A word after a dot or in front of a field is a name, whatever word it is. A keyword is one token in
every letter case, so the name it gives is the one spelling that the token has left, in lower case;
every other word gives itself (`nameOfWord`). A word is therefore read as the name it spells exactly
when it is a name or a keyword in lower case (`nameOfWord_eq_iff`), and a builder, which is given names
and not words, is the only way to the other spellings.

The name of a segment is the key that is read of an object, and the names of a projection are the
keys of the objects it makes.
-/

set_option autoImplicit false

namespace RowQuery

/-! ## Words as names -/

/-- The name a word gives: a keyword's in lower case, any other word itself. -/
def nameOfWord (word : String) : String :=
  match Keyword.ofWord? word.toList with
  | some k => k.word
  | none => word

theorem fieldName?_ofWord (word : String) :
    (Token.ofWord word.toList).fieldName? = some (nameOfWord word) := by
  unfold Token.ofWord nameOfWord
  cases Keyword.ofWord? word.toList with
  | some k => rfl
  | none => exact congrArg some String.ofList_toList

/-- The name of a keyword is the word in lower case. -/
theorem nameOfWord_eq (word : String) : nameOfWord word =
    if (Keyword.ofWord? word.toList).isSome then String.ofList (word.toList.map Char.toLower)
    else word := by
  unfold nameOfWord
  cases hk : Keyword.ofWord? word.toList with
  | some k =>
    have hfound := List.find?_some hk
    have hlower : k.word.toList = word.toList.map Char.toLower := beq_iff_eq.mp hfound
    rw [← hlower, String.ofList_toList]
    rfl
  | none => rfl

/-- The words that are read as they are spelled. -/
theorem nameOfWord_eq_iff {word : String} (hword : IsWord word.toList) :
    nameOfWord word = word ↔ IsFieldName word := by
  unfold nameOfWord
  cases hk : Keyword.ofWord? word.toList with
  | some k =>
    refine ⟨fun h => .inr ⟨k, h⟩, ?_⟩
    rintro (hname | ⟨k', rfl⟩)
    · rw [hname.noKeyword] at hk; cases hk
    · rw [Keyword.ofWord?_word] at hk
      obtain rfl := Option.some.inj hk
      rfl
  | none => exact iff_of_true rfl (.inl ⟨hword, hk⟩)

/-! ## Names in an expression -/

/-- A word behind a dot. -/
theorem lexes_dot_word {word : String} (h : IsWord word.toList) :
    Lexes ('.' :: word.toList) [.dot, Token.ofWord word.toList] ∧
      Apart ('.' :: word.toList) := by
  cases hword : word.toList with
  | nil =>
    rw [hword] at h
    exact absurd h id
  | cons c cs =>
    rw [hword] at h
    have hq : c ≠ '?' := by
      rintro rfl
      exact absurd h.1 (by decide)
    exact ⟨.token (by decide) (Token.read_dot hq cs) (.word h),
      .dot cs (isDigit_of_isWordStart h.1)⟩

namespace Expr

variable {x word : String}

/-- A name and a word after it. -/
theorem lexes_property (hx : IsName x) (hword : IsWord word.toList) :
    Lexes (x.toList ++ '.' :: word.toList) [.identifier x, .dot, Token.ofWord word.toList] :=
  .append (.name hx.isWord hx.noKeyword) (lexes_dot_word hword).1 (lexes_dot_word hword).2

theorem parse_property (hx : IsName x) (hword : IsWord word.toList) :
    parse (x ++ "." ++ word) = .ok (.path (.variable x) [⟨nameOfWord word, false⟩]) := by
  have hderives : Derives .chain [.identifier x, .dot, Token.ofWord word.toList]
      (.path (.variable x) [⟨nameOfWord word, false⟩]) :=
    .property (.ofAtom (.name x)) (show dotOf? .dot = some false from rfl) (fieldName?_ofWord word)
  refine parse_eq_ok_iff.mpr ⟨_, ?_, hderives.chain_disjunction⟩
  have htext : (x ++ "." ++ word).toList = x.toList ++ '.' :: word.toList := by simp
  rw [htext]
  exact lexes_property hx hword

theorem parse_call (hx : IsName x) (hword : IsWord word.toList) :
    parse (x ++ "." ++ word ++ "()") = .ok (.call (.variable x) (nameOfWord word) []) := by
  have hderives : Derives .chain
      [.identifier x, .dot, Token.ofWord word.toList, .leftParen, .rightParen]
      (.call (.variable x) (nameOfWord word) []) :=
    .call (.ofAtom (.name x)) (fieldName?_ofWord word) (fun _ ha => absurd ha List.not_mem_nil) .none
  refine parse_eq_ok_iff.mpr ⟨_, ?_, hderives.chain_disjunction⟩
  have htext : (x ++ "." ++ word ++ "()").toList =
      (x.toList ++ '.' :: word.toList) ++ ['(', ')'] := by simp
  have hbrackets : Lexes ['(', ')'] [.leftParen, .rightParen] :=
    (Lexes.nil.mark .rightParen).mark .leftParen
  rw [htext]
  exact (lexes_property hx hword).append hbrackets (Mark.leftParen.apart _)

theorem parse_one : parse "1" = .ok (.literal (.int 1)) := by
  have hlex : Lexes "1".toList [.integer 1] := .integer 1
  have hderives : Derives .atom [.integer 1] (.literal (.int 1)) := .literal rfl
  exact parse_eq_ok_iff.mpr ⟨_, hlex, hderives.ofAtom.chain_disjunction⟩

end Expr

/-! ## Names of fields -/

/-- Parts of a query whose fields are named by words of any kind. -/
structure QueryParts.NamedByWords (q : QueryParts) : Prop where
  source : IsName q.source
  aliasName : IsName q.aliasName
  groups : ∀ g ∈ q.groups, g.WellFormed
  restriction : ∀ t ∈ q.restriction, IsExprText t
  nonempty : q.fields ≠ []
  fields : ∀ f ∈ q.fields, IsWord f.1.toList ∧ IsExprText f.2

namespace Query

open Reading

/-- Fields named by words are read with the names that these give. -/
theorem exists_fieldReads {fields : List (String × String)}
    (h : ∀ f ∈ fields, IsWord f.1.toList ∧ IsExprText f.2) :
    ∃ projection : Projection, List.Forall₂ FieldReads fields projection ∧
      List.Forall₂ (fun f field => field.1 = nameOfWord f.1 ∧ Expr.parse f.2 = .ok field.2)
        fields projection := by
  induction fields with
  | nil => exact ⟨[], .nil, .nil⟩
  | cons f fields ih =>
    obtain ⟨hword, e, he⟩ := h f List.mem_cons_self
    obtain ⟨projection, hreads, hnames⟩ := ih fun f hf => h f (List.mem_cons_of_mem _ hf)
    have hlex : Lexes f.1.toList [Token.ofWord f.1.toList] := .word hword
    exact ⟨(nameOfWord f.1, e) :: projection,
      .cons ⟨⟨_, hlex, fieldName?_ofWord f.1⟩, he⟩ hreads, .cons ⟨rfl, he⟩ hnames⟩

/-- Every text with the tokens of the parts is read, and its fields have the names that the words
give. -/
theorem exists_parse_of_words {q : QueryParts} (h : q.NamedByWords) {text : String}
    {ts : List Token} (hpieces : Lexed q.pieces ts) (htext : Lexes text.toList ts) :
    ∃ query, parse text = .ok query ∧
      List.Forall₂ (fun f field => field.1 = nameOfWord f.1 ∧ Expr.parse f.2 = .ok field.2)
        q.fields query.projection := by
  obtain ⟨groups, -, hreadGroups⟩ := exists_groups h.groups
  obtain ⟨restriction, -, hreadRestriction⟩ := exists_restriction h.restriction
  obtain ⟨projection, hreads, hnames⟩ := exists_fieldReads h.fields
  let source : Source := ⟨q.source, q.aliasName⟩
  have hleads : Leads .start q.pieces (.closed ⟨source, groups, restriction, projection⟩) := by
    obtain ⟨r₁, hr₁, hclause⟩ := hreadGroups (.clauses { source }) { source } fun _ _ => rfl
    obtain ⟨r₂, hr₂, hselect⟩ := hreadRestriction r₁ _ hclause rfl
    have hsource : Leads .start
        [.keyword .from', .fragment q.source, .keyword .as', .fragment q.aliasName]
        (.clauses { source }) :=
      .keyword rfl (.name h.source rfl (.keyword rfl (.name h.aliasName rfl (.refl _))))
    have hfields := leads_fields hreads h.nonempty { source, groups, restriction } []
    exact hsource.trans (hr₁.trans (hr₂.trans
      (.keyword hselect (.keyword rfl (.mark rfl hfields)))))
  obtain ⟨us, hus, hreach⟩ := hleads
  obtain rfl := hpieces.unique hus
  exact ⟨_, parse_of_reaches htext hreach, hnames⟩

/-- A field that is one of the parts is one of the projection, under the name its word gives. -/
theorem mem_of_named {fields : List (String × String)} {projection : Projection}
    (h : List.Forall₂ (fun f field => field.1 = nameOfWord f.1 ∧ Expr.parse f.2 = .ok field.2)
      fields projection) {word text : String} (hmem : (word, text) ∈ fields) {e : Expr}
    (he : Expr.parse text = .ok e) : (nameOfWord word, e) ∈ projection := by
  induction h with
  | nil => cases hmem
  | @cons f field fields projection hfield _ ih =>
    rcases List.mem_cons.mp hmem with rfl | hmem
    · obtain ⟨name, e'⟩ := field
      obtain ⟨rfl, he'⟩ := hfield
      obtain rfl := Except.ok.inj (he'.symm.trans he)
      exact List.mem_cons_self
    · exact List.mem_cons_of_mem _ (ih hmem)

end Query

/-! ## Keys -/

theorem Fields.mem_names_insert {α : Type} (fields : Fields α) (name : String) (value : α)
    {n : String} : n ∈ (fields.insert name value).names ↔ n = name ∨ n ∈ fields.names := by
  obtain ⟨entries⟩ := fields
  unfold insert names
  dsimp only
  induction entries with
  | nil => simp [insertInto]
  | cons entry rest ih =>
    obtain ⟨m, v⟩ := entry
    unfold insertInto
    split
    · next h =>
      subst h
      simp
    · simp only [List.map_cons, List.mem_cons, ih]
      exact or_left_comm

namespace Scope

/-- A property of an object is read under the name of its segment. -/
theorem evaluate_property (s : Scope) {x : String} {fields : Object}
    (h : s.row.get? x = some (.object fields)) (segment : Segment) :
    s.evaluate (.path (.variable x) [segment]) =
      pure ((fields.get? segment.name).getD .null) := by
  have hbase : s.evaluate (.variable x) = pure (.object fields) := by
    rw [evaluate, lookup, h]
  rw [evaluate, hbase, pure_bind, walk]
  generalize hv : (fields.get? segment.name).getD .null = v
  have hproperty : s.property (.object fields) segment.name (Expr.variable x).text = pure v := by
    rw [property, hv]
  have hnull : ¬(Value.object fields).isNull := Bool.false_ne_true
  rw [if_neg hnull, hproperty, pure_bind, walk]
  split
  · next hoptional =>
    cases v with
    | null => rfl
    | _ => simp [Value.isNull] at hoptional
  · rfl

open Run

/-- The keys of the object a projection makes are the names of its fields. -/
theorem mem_names_of_projectOnto (s : Scope) (projection : Projection) {name : String} :
    ∀ {object o : Object} {w w' : World},
      outcome (s.projectOnto object projection) w = (.ok o, w') →
      (name ∈ o.names ↔ name ∈ object.names ∨ name ∈ projection.map Prod.fst) := by
  induction projection with
  | nil =>
    intro object o w w' h
    obtain rfl := Except.ok.inj (Prod.mk.inj h).1
    simp
  | cons field rest ih =>
    intro object o w w' h
    obtain ⟨n, e⟩ := field
    rw [projectOnto, outcome_bind] at h
    split at h
    · next v w₁ _ =>
      rw [ih h, Fields.mem_names_insert, List.map_cons, List.mem_cons]
      exact or_assoc.trans or_left_comm
    · cases (Prod.mk.inj h).1

end Scope

/-! ## A word in every place of a name -/

/-- A word `w` is read as the name `nameOfWord w`: as a property, which is the key read of an object,
as an operation, and as a field, which is a key of every object the projection makes. That is the
word in lower case for a keyword and else the word itself: the spelling is kept by names and by
keywords in lower case, and by no other word. -/
theorem parse_word_names {x word : String} (hx : IsName x) (hword : IsWord word.toList) :
    (nameOfWord word =
      if (Keyword.ofWord? word.toList).isSome then String.ofList (word.toList.map Char.toLower)
      else word) ∧
    (nameOfWord word = word ↔ IsFieldName word) ∧
    Expr.parse (x ++ "." ++ word) = .ok (.path (.variable x) [⟨nameOfWord word, false⟩]) ∧
    Expr.parse (x ++ "." ++ word ++ "()") = .ok (.call (.variable x) (nameOfWord word) []) ∧
    (∀ (q : QueryParts) (text : String) (ts : List Token), q.NamedByWords →
      (word, "1") ∈ q.fields → Lexed q.pieces ts → Lexes text.toList ts →
      ∃ query, Query.parse text = .ok query ∧
        (nameOfWord word, .literal (.int 1)) ∈ query.projection ∧
        ∀ (s : Scope) (o : Object) (w w' : World),
          Run.outcome (s.project query.projection) w = (.ok o, w') → nameOfWord word ∈ o.names) ∧
    ∀ (s : Scope) (fields : Object), s.row.get? x = some (.object fields) →
      s.evaluate (.path (.variable x) [⟨nameOfWord word, false⟩]) =
        pure ((fields.get? (nameOfWord word)).getD .null) := by
  refine ⟨nameOfWord_eq word, nameOfWord_eq_iff hword, Expr.parse_property hx hword,
    Expr.parse_call hx hword, ?_, fun s fields h => s.evaluate_property h _⟩
  intro q text ts hq hmem hpieces htext
  obtain ⟨query, hparse, hnames⟩ := Query.exists_parse_of_words hq hpieces htext
  have hfield := Query.mem_of_named hnames hmem Expr.parse_one
  refine ⟨query, hparse, hfield, fun s o w w' hproject => ?_⟩
  exact (s.mem_names_of_projectOnto _ hproject).mpr (.inr (List.mem_map_of_mem hfield))

/-- The word `Select` as a property, an operation and a field. -/
theorem parse_word_names_select :
    IsName "x" ∧ IsWord "Select".toList ∧
      Expr.parse ("x" ++ "." ++ "Select") = .ok (.path (.variable "x") [⟨"select", false⟩]) ∧
      Expr.parse ("x" ++ "." ++ "Select" ++ "()") = .ok (.call (.variable "x") "select" []) ∧
      ∃ query, Query.parse "from xs as x select new \x7b Select = 1 \x7d" = .ok query ∧
        ("select", .literal (.int 1)) ∈ query.projection := by
  have hx : IsName "x" := ⟨by decide, by decide⟩
  have hword : IsWord "Select".toList := by decide
  have hname : nameOfWord "Select" = "select" := by decide
  let q : QueryParts := {
    source := "xs", aliasName := "x", groups := [], restriction := none, fields := [("Select", "1")] }
  have hone : Lexes "1".toList [.integer 1] := .integer 1
  have hq : q.NamedByWords := by
    refine ⟨⟨by decide, by decide⟩, hx, nofun, nofun, by simp [q], fun f hf => ?_⟩
    obtain rfl := List.mem_singleton.mp hf
    exact ⟨hword, _, Expr.parse_one⟩
  have hassign : Lexes "=".toList [.assign] := .token (by decide) rfl .nil
  have mark : ∀ m : Mark, Piece.Lexes (.mark m) [m.token] := fun _ => rfl
  have hpieces : Lexed q.pieces _ :=
    .cons (Lexes.keyword .from') (.cons (Lexes.name (by decide) (by decide))
      (.cons (Lexes.keyword .as') (.cons (Lexes.name hx.isWord hx.noKeyword)
        (.cons (Lexes.keyword .select) (.cons (Lexes.keyword .new) (.cons (mark .leftBrace)
          (.cons (Lexes.word hword) (.cons hassign (.cons hone (.cons (mark .rightBrace) .nil))))))))))
  have hspell : spell q.pieces = "from xs as x select new \x7b Select = 1 \x7d" := by decide
  obtain ⟨-, -, hproperty, hcall, hfield, -⟩ := parse_word_names hx hword
  rw [hname] at hproperty hcall hfield
  obtain ⟨query, hparse, hmem, -⟩ := hfield q (spell q.pieces) _ hq (List.mem_singleton.mpr rfl)
    hpieces (lexes_of_written (written_spell q.pieces) hpieces)
  exact ⟨hx, hword, hproperty, hcall, query, hspell ▸ hparse, hmem⟩

/-- A keyword with a capital letter is not read as it is spelled, in any of the places of a name. -/
theorem parse_word_names_capital :
    IsWord "Select".toList ∧
      Expr.parse "x.Select" = .ok (.path (.variable "x") [⟨"select", false⟩]) ∧
      Expr.parse "x.Select" ≠ .ok (.path (.variable "x") [⟨"Select", false⟩]) ∧
      Expr.parse "x.Select()" ≠ .ok (.call (.variable "x") "Select" []) ∧
      Query.parse "from xs as x select new \x7b Select = 1 \x7d" =
        .ok ⟨⟨"xs", "x"⟩, [], none, [("select", .literal (.int 1))]⟩ := by
  have hx : IsName "x" := ⟨by decide, by decide⟩
  have hword : IsWord "Select".toList := by decide
  have hname : nameOfWord "Select" = "select" := by decide
  have hproperty : Expr.parse "x.Select" = .ok (.path (.variable "x") [⟨"select", false⟩]) :=
    hname ▸ Expr.parse_property hx hword
  have hcall : Expr.parse "x.Select()" = .ok (.call (.variable "x") "select" []) :=
    hname ▸ Expr.parse_call hx hword
  have htokens : tokenize "from xs as x select new \x7b Select = 1 \x7d" = .ok [
      ⟨.keyword .from', 0⟩, ⟨.identifier "xs", 5⟩, ⟨.keyword .as', 8⟩, ⟨.identifier "x", 11⟩,
      ⟨.keyword .select, 13⟩, ⟨.keyword .new, 20⟩, ⟨.leftBrace, 24⟩, ⟨.keyword .select, 26⟩,
      ⟨.assign, 33⟩, ⟨.integer 1, 35⟩, ⟨.rightBrace, 37⟩, ⟨.eof, 38⟩] := by
    decide +kernel
  refine ⟨hword, hproperty, ?_, ?_, ?_⟩
  · rw [hproperty]
    simp
  · rw [hcall]
    simp
  · unfold Query.parse
    rw [htokens]
    rfl

end RowQuery
