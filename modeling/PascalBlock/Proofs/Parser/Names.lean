import PascalBlock.Proofs.Parser.TokensKept
import PascalBlock.Proofs.Scope.Uses

/-!
# Every name that is read is recorded

Every rule of the readings uses the identifiers that it takes, in their order, and does nothing else
to the scopes (`Uses`). The variables of the trees are the references that these names have from
then on. Main result: what `Records` says of a row of uses holds of the identifiers that a program
or an expression takes, well formed or not, in whatever scopes they are read.
-/

namespace PascalBlock

/-- The identifiers among tokens. -/
def identifiers (ts : List Token) : List Token := ts.filter (·.kind == .identifier)

@[simp] theorem identifiers_nil : identifiers [] = [] := rfl

@[simp] theorem identifiers_append (ts us : List Token) :
    identifiers (ts ++ us) = identifiers ts ++ identifiers us := List.filter_append ..

theorem identifiers_eq_nil {ts : List Token} (h : ∀ t ∈ ts, t.kind ≠ .identifier) :
    identifiers ts = [] := List.filter_eq_nil_iff.2 fun t ht => by simpa using h t ht

/-- What the variables in trees refer to, from left to right. -/
def Node.references (ns : List Node) : List (Option EntryRef) :=
  ((preorderAll ns).filter (·.kind == .variable)).map Node.entry?

@[simp] theorem Node.references_nil : references [] = [] := rfl

@[simp] theorem Node.references_append (ns ms : List Node) :
    references (ns ++ ms) = references ns ++ references ms := by simp [references]

/-- Only a variable has a reference of its own. -/
theorem Node.references_mk {kind : NodeKind} (hk : kind ≠ .variable) (a : Attributes)
    (ns : List Node) : references [.mk kind a ns] = references ns := by
  simp [references, hk]

namespace Parser

variable {p q : Parser} {s s' s'' : ScopeStack} {ts us : List Token} {ds : List Diagnostic}
  {ns ms ls : List Node}

/-- On the way from the scopes `s` to `s'` the identifiers of `ts` were used, and their references,
which later uses leave as they are, came into the trees. -/
structure Uses (s : ScopeStack) (ts : List Token) (before after : List Node) (s' : ScopeStack) :
    Prop where
  scopes : s' = (identifiers ts).foldl ScopeStack.use s
  references : ∀ later : ScopeStack,
    (∀ name e, s'.lookup? name = some e → later.lookup? name = some e) →
    Node.references after =
      Node.references before ++ (identifiers ts).map fun t => later.lookup? t.name

namespace Uses

theorem refl (s : ScopeStack) (ns : List Node) : Uses s [] ns ns s := ⟨rfl, by simp⟩

theorem trans (h : Uses s ts ls ms s') (h' : Uses s' us ms ns s'') :
    Uses s (ts ++ us) ls ns s'' := by
  constructor
  · rw [h'.scopes, h.scopes, identifiers_append, List.foldl_append]
  · intro later hlater
    have hkept : ∀ name e, s'.lookup? name = some e → later.lookup? name = some e :=
      fun name e he => hlater name e (h'.scopes ▸ ScopeStack.lookup?_foldl_of_some he _)
    rw [h'.references later hlater, h.references later hkept, identifiers_append, List.map_append,
      List.append_assoc]

theorem frame (h : Uses s ts ms ns s') (ls : List Node) : Uses s ts (ls ++ ms) (ls ++ ns) s' :=
  ⟨h.scopes, fun later hlater => by simp [h.references later hlater]⟩

/-- A token that is no identifier does nothing. -/
theorem other {t : Token} (hk : t.kind ≠ .identifier) (s : ScopeStack) (ns : List Node) :
    Uses s [t] ns ns s := by
  have hnil : identifiers [t] = [] := identifiers_eq_nil (List.forall_mem_singleton.2 hk)
  exact ⟨by rw [hnil]; rfl, fun later _ => by simp [hnil]⟩

theorem cons {kind : TokenKind} (hp : p.kind = kind) (hk : kind ≠ .identifier)
    (h : Uses p.scopes ts ms ns s') : Uses p.scopes (p.current :: ts) ms ns s' :=
  (other (t := p.current) (by rwa [current_kind, hp]) _ ms).trans h

/-- A node around the trees adds no name. -/
theorem wrap {kind : NodeKind} (h : Uses s ts ls ns s') (hk : kind ≠ .variable) (a : Attributes) :
    Uses s ts ls [.mk kind a ns] s' :=
  ⟨h.scopes, fun later hlater => by rw [Node.references_mk hk, h.references later hlater]⟩

end Uses

/-! ## Expressions -/

/-- Whether the name had to be known matters only to what is flagged. -/
theorem resolve_eq (p : Parser) (known : Bool) (name : String) :
    (p.resolve known name).value = (p.scopes.resolve name).1 ∧
      (p.resolve known name).after.scopes = (p.scopes.resolve name).2 := by
  unfold resolve ScopeStack.resolve
  cases p.scopes.lookup? name with
  | some e => exact ⟨rfl, rfl⟩
  | none => cases known <;> exact ⟨rfl, rfl⟩

theorem identifier_scopes (p : Parser) (known : Bool) :
    (identifier known p).after.scopes = p.scopes.use p.current := by
  obtain ⟨hvalue, hscopes⟩ := resolve_eq p known p.current.name
  change (p.resolve known p.current.name).after.scopes.record
    (p.resolve known p.current.name).value p.current.line = _
  rw [hvalue, hscopes]
  rfl

theorem identifier_entry (p : Parser) (known : Bool) : (identifier known p).value =
    .mk .variable ⟨none, some (.entry (p.scopes.resolve p.current.name).1), none⟩ [] := by
  rw [← (resolve_eq p known p.current.name).1]
  rfl

theorem uses_identifier (hk : p.kind = .identifier) (known : Bool) :
    Uses p.scopes [p.current] [] [(identifier known p).value]
      (identifier known p).after.scopes := by
  have hone : identifiers [p.current] = [p.current] := by
    simp [identifiers, current_kind, hk]
  rw [identifier_scopes]
  refine ⟨by rw [hone]; rfl, fun later hlater => ?_⟩
  have hself : later.lookup? p.current.name = some (p.scopes.resolve p.current.name).1 :=
    hlater _ _ (by rw [ScopeStack.lookup?_use, if_pos rfl])
  rw [hone, identifier_entry, List.map_singleton, hself]
  rfl

theorem uses_constant {kind : NodeKind} (hk : constantKind? p.kind = some kind) :
    Uses p.scopes [p.current] [] [(constant kind p).value] p.scopes := by
  have hne : p.current.kind ≠ .identifier := by
    intro h
    rw [← current_kind, h] at hk
    cases hk
  have hkind : kind ≠ .variable := by
    rintro rfl
    unfold constantKind? at hk
    split at hk <;> cases hk
  rw [constant_value]
  exact (Uses.other hne _ []).wrap hkind _

theorem Expects.uses {kind : TokenKind} {cause : Cause} {component : Component}
    (h : Expects kind cause component p ts ds q) (hk : kind ≠ .identifier) (ns : List Node) :
    Uses p.scopes ts ns ns q.scopes := by
  cases h with
  | found hp => exact .other (t := p.current) (by rwa [current_kind, hp]) _ ns
  | missing => exact .refl _ ns

theorem not_variable_of_operator {s : Strength} {kind : TokenKind} {op : NodeKind}
    (h : s.operator? kind = some op) : kind ≠ .identifier ∧ op ≠ .variable := by
  cases s <;> cases kind <;> cases h <;> decide

theorem not_variable_of_relational {kind : TokenKind} {op : NodeKind}
    (h : kind.relational? = some op) : kind ≠ .identifier ∧ op ≠ .variable := by
  cases kind <;> cases h <;> decide

theorem ReadsOperand.uses {phrase : Phrase} (h : ReadsOperand phrase p ts ds ns q) :
    Uses p.scopes ts phrase.before ns q.scopes := by
  induction h with
  | identifier hk => exact uses_identifier hk true
  | constant hk => exact uses_constant hk
  | tooDeep hk =>
    refine .other (fun h => ?_) _ _
    rw [current_kind] at h
    rcases hk with hk | hk <;> rw [h] at hk <;> cases hk
  | unexpected => exact .refl _ _
  | negation hk _ _ ih => exact Uses.cons hk (by decide) (ih.wrap (by decide) _)
  | parentheses hk _ _ close ih =>
    exact (Uses.cons hk (by decide) ih).trans (close.uses (by decide) _)
  | plus hk _ ih => exact .cons hk (by decide) ih
  | minus hk _ ih => exact Uses.cons hk (by decide) (ih.wrap (by decide) _)
  | unsigned _ _ _ ih | simple _ _ ih => exact ih
  | @chain s _ _ _ _ _ _ _ _ _ _ _ ih ih' =>
    have hb : s.first.before = [] := by cases s <;> rfl
    rw [hb] at ih
    exact ih.trans ih'
  | stop => exact .refl _ _
  | @link s _ _ _ _ ls _ _ _ _ _ _ hk _ _ ih ih' =>
    have hb : s.operand.before = [] := by cases s <;> rfl
    rw [hb] at ih
    obtain ⟨htoken, hop⟩ := not_variable_of_operator hk
    have hright := Uses.cons rfl htoken ((ih.frame ls).wrap hop .empty)
    rw [List.append_nil] at hright
    exact hright.trans ih'
  | @relation _ _ _ _ _ _ ls _ _ _ _ hk _ ih ih' =>
    obtain ⟨htoken, hop⟩ := not_variable_of_relational hk
    have hright := Uses.cons rfl htoken ((ih'.frame ls).wrap hop .empty)
    exact ih.trans (by simpa [Phrase.before] using hright)

/-! ## Statements -/

theorem Separates.uses (h : Separates p ts ds q) (ns : List Node) :
    Uses p.scopes ts ns ns q.scopes := by
  cases h with
  | semicolon hk => exact .other (by rw [current_kind, hk]; decide) _ ns
  | missing | closing => exact .refl _ ns
  | stray _ hi => exact .other hi _ ns

theorem ReadsStatement.uses {clause : Clause} (h : ReadsStatement clause p ts ds ns q) :
    Uses p.scopes ts [] ns q.scopes := by
  induction h with
  | @assignment p q r ts ds us es ns hk sign value =>
    have htarget := (uses_identifier hk false).trans (sign.uses (by decide) _)
    exact (htarget.trans (value.uses.frame [_])).wrap (by decide) _
  | tooDeep hk =>
    exact .cons hk (by decide) ((Uses.refl _ []).wrap (by decide) _)
  | compound hk _ _ close ih =>
    have hbody := (Uses.cons hk (by decide) ih).trans (close.uses (by decide) _)
    exact hbody.wrap (by decide) _
  | empty => exact (Uses.refl _ []).wrap (by decide) _
  | finish => exact .refl _ []
  | @round _ _ _ _ _ _ ns _ _ _ _ _ _ _ separator _ ih ih' =>
    have hrest := ih'.frame ns
    rw [List.append_nil] at hrest
    exact (ih.trans (separator.uses ns)).trans hrest

theorem ReadsProgram.uses (h : ReadsProgram p ts ds ns q) : Uses p.scopes ts [] ns q.scopes := by
  cases h with
  | nothing => exact .refl _ []
  | block _ root period => exact root.uses.trans (period.uses (by decide) ns)
  | noBlock _ _ period => exact period.uses (by decide) []

/-! ## Programs and expressions -/

/-- The identifiers that were taken are recorded in the scopes, and the variables that were built
are, in the same order, the references that these names have. -/
structure RecordsNames (p : Parser) (out : Parsed (Option Node)) : Prop where
  records : p.scopes.Records (identifiers (p.cursor.upTo out.after.cursor)) out.after.scopes
  references : Node.references out.value.toList =
    (identifiers (p.cursor.upTo out.after.cursor)).map fun t => out.after.scopes.lookup? t.name
  shared : ∀ n ∈ Node.preorderAll out.value.toList, n.kind = .variable →
    ∃ e, n.entry? = some e ∧ out.after.scopes.lookup? e.name = some e

/-- Every variable has the reference of its name. -/
theorem shared_of_references {later : ScopeStack} (hkeyed : later.Keyed)
    (hs : s.Records (identifiers ts) later)
    (h : Node.references ns = (identifiers ts).map fun t => later.lookup? t.name) :
    ∀ n ∈ Node.preorderAll ns, n.kind = .variable →
      ∃ e, n.entry? = some e ∧ later.lookup? e.name = some e := by
  intro n hn hk
  have hmem : n.entry? ∈ Node.references ns :=
    List.mem_map_of_mem (List.mem_filter.2 ⟨hn, by simp [hk]⟩)
  rw [h] at hmem
  obtain ⟨t, ht, heq⟩ := List.mem_map.1 hmem
  obtain ⟨e, he⟩ := Option.isSome_iff_exists.1 ((hs.visible t.name).2 (.inr ⟨t, ht, rfl⟩))
  refine ⟨e, by rw [← heq, he], ?_⟩
  rw [hkeyed.name_eq he, he]

theorem Uses.recordsNames {out : Parsed (Option Node)} (hs : p.scopes.Sound)
    (he : Effect p ts ds out.after) (h : Uses p.scopes ts [] out.value.toList out.after.scopes) :
    RecordsNames p out := by
  rw [← Cursor.upTo_eq he.ahead] at h
  have hrecords : p.scopes.Records (identifiers (p.cursor.upTo out.after.cursor))
      out.after.scopes := by
    rw [h.scopes]
    exact ScopeStack.records_foldl hs _
  have hreferences := h.references _ fun _ _ he => he
  exact ⟨hrecords, hreferences, shared_of_references out.after.keyed hrecords hreferences⟩

/-- The names of a parse are recorded from nothing. -/
theorem recordsNames_parse (tokens : List Token) (file : String) :
    RecordsNames (ofTokens tokens file).withStatements (parse tokens file) :=
  (readsProgram_parse tokens file).uses.recordsNames ScopeStack.sound_initial
    (readsProgram_parse tokens file).effect

theorem records_parse (tokens : List Token) (file : String) :
    ScopeStack.Records .initial (identifiers (consumed tokens (parse tokens file)))
      (parse tokens file).after.scopes := by
  rw [← upTo_eq_consumed tokens file]
  exact (recordsNames_parse tokens file).records

/-- **Every name that is read is recorded**, and nothing else happens to the scopes. -/
theorem names_are_recorded (p : Parser) (hp : p.Standard) (hs : p.scopes.Reachable) :
    RecordsNames p p.program ∧ RecordsNames p p.expression := by
  obtain ⟨ts, ds, hprogram⟩ := reading_program hp
  obtain ⟨us, es, hexpression⟩ := reading_expression p
  exact ⟨hprogram.uses.recordsNames hs.sound hprogram.effect,
    hexpression.uses.recordsNames hs.sound hexpression.effect⟩

/-- A block that names `a`, which the outer one of two scopes holds, and `b`, which is new. -/
def nestedNames : Parser :=
  { (ofTokens [⟨.beginWord, "BEGIN", none, 1, ⟨"", 0⟩, ⟨"", 5⟩⟩,
      ⟨.identifier, "A", none, 1, ⟨"", 6⟩, ⟨"", 7⟩⟩,
      ⟨.becomes, ":=", none, 1, ⟨"", 8⟩, ⟨"", 10⟩⟩, ⟨.identifier, "b", none, 2, ⟨"", 11⟩, ⟨"", 12⟩⟩,
      ⟨.endWord, "END", none, 2, ⟨"", 13⟩, ⟨"", 16⟩⟩,
      ⟨.dot, ".", none, 2, ⟨"", 16⟩, ⟨"", 17⟩⟩] "").withStatements with
    scopes := (ScopeStack.initial.enter "a").2.push
    keyed := (ScopeStack.keyed_initial.enter "a").push }

theorem nestedNames_are_recorded :
    (nestedNames.Standard ∧ nestedNames.scopes.Reachable) ∧
      RecordsNames nestedNames nestedNames.program ∧
      RecordsNames nestedNames nestedNames.expression := by
  have hstandard : nestedNames.Standard := standard_withStatements _ _
  have hreachable : nestedNames.scopes.Reachable :=
    ⟨_, _, (Relation.ReflTransGen.single (.enter "a")).tail .push⟩
  exact ⟨⟨hstandard, hreachable⟩, names_are_recorded nestedNames hstandard hreachable⟩

end Parser

end PascalBlock
