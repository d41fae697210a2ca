import PascalBlock.Proofs.Parser.Names
import PascalBlock.Proofs.Parser.Notes

/-!
# Undefined names

Every identifier that a parse takes is used in one of two roles, which the tree shows: as an operand,
whose name has to be known, or as the target of an assignment. Either makes its name visible, so what
is flagged for a name is settled by its first use (`filter_unknown`), whatever else went wrong in the
text. `Flags` is what every rule of the readings does to the uses, the tree and the log.
-/

namespace PascalBlock

/-- What a name is used for. -/
inductive Role where
  | operand
  /-- The name of what an assignment sets. -/
  | target
deriving DecidableEq, Repr

/-! ## The uses that a tree shows -/

namespace Node

/-- The name of what a variable refers to. -/
def name? (n : Node) : Option String := n.entry?.map (·.name)

mutual

/-- The variables in a tree, from left to right, with their roles; `role` is that of the root. The
first child of an assignment is its target. -/
def rolesAs (role : Role) : Node → List (Role × Option String)
  | mk kind a cs =>
    (if kind = .variable then [(role, (mk kind a cs).name?)] else []) ++
      rolesAll (if kind = .assign then .target else .operand) cs

def rolesAll (first : Role) : List Node → List (Role × Option String)
  | [] => []
  | n :: ns => rolesAs first n ++ rolesAll .operand ns

end

/-- The variables in trees that are not the children of an assignment. -/
def roles (ns : List Node) : List (Role × Option String) := rolesAll .operand ns

@[simp] theorem roles_nil : roles [] = [] := by
  rw [roles, rolesAll]

@[simp] theorem roles_append (ns ms : List Node) : roles (ns ++ ms) = roles ns ++ roles ms := by
  unfold roles
  induction ns with
  | nil => rw [rolesAll, List.nil_append, List.nil_append]
  | cons n ns ih => rw [List.cons_append, rolesAll, rolesAll, ih, List.append_assoc]

theorem roles_singleton (n : Node) : roles [n] = rolesAs .operand n := by
  rw [roles, rolesAll, rolesAll, List.append_nil]

/-- Around its children a node shows no use, unless it is a variable or an assignment. -/
theorem roles_mk {kind : NodeKind} (hv : kind ≠ .variable) (ha : kind ≠ .assign) (a : Attributes)
    (ns : List Node) : roles [mk kind a ns] = roles ns := by
  rw [roles_singleton, rolesAs, if_neg hv, if_neg ha, List.nil_append, roles]

theorem roles_assign (a : Attributes) (target : Node) (ns : List Node) :
    roles [mk .assign a (target :: ns)] = rolesAs .target target ++ roles ns := by
  rw [roles_singleton, rolesAs, if_neg (by decide), if_pos rfl, List.nil_append, rolesAll, roles]

/-- The variable that a node is shows in its outline. -/
theorem variable_congr {n m : Node} (hk : n.kind = m.kind) (hl : n.asLeaf? = m.asLeaf?)
    (hv : n.kind = .variable) : n.name? = m.name? := by
  unfold asLeaf? at hl
  rw [← hk, hv] at hl
  simpa [name?] using hl

mutual

theorem rolesAs_congr : ∀ (role : Role) (n m : Node), n.outline = m.outline →
    n.rolesAs role = m.rolesAs role
  | role, mk kind a ns, mk kind' a' ms, h => by
    simp only [outline, Outline.mk.injEq] at h
    obtain ⟨rfl, hl, hc⟩ := h
    rw [rolesAs, rolesAs, rolesAll_congr _ ns ms hc]
    congr 1
    refine ite_congr rfl (fun hv => ?_) fun _ => rfl
    rw [variable_congr (n := mk kind a ns) (m := mk kind a' ms) rfl hl hv]

theorem rolesAll_congr : ∀ (first : Role) (ns ms : List Node), outlines ns = outlines ms →
    rolesAll first ns = rolesAll first ms
  | _, [], [], _ => rfl
  | _, [], _ :: _, h => by cases h
  | _, _ :: _, [], h => by cases h
  | first, n :: ns, m :: ms, h => by
    simp only [outlines, List.cons.injEq] at h
    rw [rolesAll, rolesAll, rolesAs_congr first n m h.1, rolesAll_congr .operand ns ms h.2]

end

end Node

/-! ## Uses of unknown names -/

/-- The uses of names that had to be known and are not visible. Every use makes its name visible to
the later ones. -/
def ScopeStack.unknown : ScopeStack → List (Role × Token) → List Token
  | _, [] => []
  | s, (role, t) :: uses =>
    (if role = .operand ∧ s.lookup? t.name = none then [t] else []) ++ unknown (s.use t) uses

/-- The name is not visible before, and `t`, the first of its uses, needs its value. -/
def ScopeStack.Undefined (s : ScopeStack) (uses : List (Role × Token)) (name : String) (t : Token) :
    Prop :=
  s.lookup? name = none ∧ uses.find? (·.2.name == name) = some (.operand, t)

/-- The diagnostic says of the name that it is undefined. -/
def Diagnostic.undefines (name : String) (d : Diagnostic) : Bool :=
  d.error.cause = .identifierUndefined name

namespace ScopeStack

variable {s : ScopeStack} {name : String} {t : Token} {uses : List (Role × Token)}

theorem unknown_append (s : ScopeStack) (uses more : List (Role × Token)) :
    s.unknown (uses ++ more) = s.unknown uses ++ unknown ((uses.map (·.2)).foldl use s) more := by
  induction uses generalizing s with
  | nil => rfl
  | cons u uses ih =>
    rw [List.cons_append, unknown, unknown, ih, List.append_assoc]
    rfl

/-- A visible name is never unknown. -/
theorem filter_unknown_of_visible (h : s.lookup? name ≠ none) (uses : List (Role × Token)) :
    (s.unknown uses).filter (·.name == name) = [] := by
  induction uses generalizing s with
  | nil => rfl
  | cons u uses ih =>
    obtain ⟨e, he⟩ := Option.ne_none_iff_exists'.1 h
    have hlater : (s.use u.2).lookup? name ≠ none := by
      rw [lookup?_use_of_some he]
      exact Option.some_ne_none e
    rw [unknown, List.filter_append, ih hlater, List.append_nil]
    split
    · next hu =>
      have hne : u.2.name ≠ name := by
        rintro rfl
        exact h hu.2
      simp [hne]
    · rfl

/-- **The first use of a name settles whether it is flagged**. -/
theorem filter_unknown (h : s.lookup? name = none) (uses : List (Role × Token)) :
    (s.unknown uses).filter (·.name == name) =
      match uses.find? (·.2.name == name) with
      | some (.operand, t) => [t]
      | _ => [] := by
  induction uses generalizing s with
  | nil => rfl
  | cons u uses ih =>
    obtain ⟨role, t⟩ := u
    rw [unknown, List.filter_append]
    by_cases hname : t.name = name
    · subst hname
      have hlater : (s.use t).lookup? t.name ≠ none := by
        rw [lookup?_use, if_pos rfl]
        exact Option.some_ne_none _
      rw [filter_unknown_of_visible hlater, List.append_nil, List.find?_cons_of_pos (by simp)]
      cases role <;> simp [h]
    · have hlater : (s.use t).lookup? name = none := by
        rw [lookup?_use, if_neg (Ne.symm hname), h]
      rw [ih hlater, List.find?_cons_of_neg (by simpa using hname)]
      split <;> simp [hname]

theorem filter_unknown_eq (h : s.Undefined uses name t) :
    (s.unknown uses).filter (·.name == name) = [t] := by
  rw [filter_unknown h.1, h.2]

theorem filter_unknown_eq_nil (h : ∀ t, ¬ s.Undefined uses name t) :
    (s.unknown uses).filter (·.name == name) = [] := by
  by_cases hname : s.lookup? name = none
  · rw [filter_unknown hname]
    split
    · next t hfirst => exact absurd ⟨hname, hfirst⟩ (h t)
    · rfl
  · exact filter_unknown_of_visible hname uses

/-- Whether a name is undefined shows in the roles of the names. -/
theorem exists_undefined_iff : (∃ t, s.Undefined uses name t) ↔ s.lookup? name = none ∧
    (uses.map fun u => (u.1, some u.2.name)).find? (·.2 == some name) =
      some (.operand, some name) := by
  have hfind : (uses.map fun u => (u.1, some u.2.name)).find? (·.2 == some name) =
      (uses.find? (·.2.name == name)).map fun u => (u.1, some u.2.name) := by
    rw [List.find?_map]
    congr 1
  simp only [Undefined, exists_and_left, hfind, Option.map_eq_some_iff]
  refine and_congr_right fun _ => ⟨?_, ?_⟩
  · rintro ⟨t, ht⟩
    have hname : t.name = name := by simpa using List.find?_some ht
    exact ⟨_, ht, by rw [hname]⟩
  · rintro ⟨⟨role, t⟩, ht, hu⟩
    obtain rfl := (Prod.mk.inj hu).1
    exact ⟨t, ht⟩

end ScopeStack

namespace Parser

variable {p q : Parser} {s s' : ScopeStack} {ts us : List Token}
  {ds es : List Diagnostic} {ns ms ls : List Node}

/-! ## What is flagged -/

/-- From the scopes `s` on, the identifiers of `ts` were used in the roles that came into the trees,
and what was flagged on names are the uses of unknown ones. -/
def Flags (s : ScopeStack) (ts : List Token) (ds : List Diagnostic)
    (before after : List Node) : Prop :=
  ∃ uses : List (Role × Token), uses.map (·.2) = identifiers ts ∧
    Node.roles after = Node.roles before ++ uses.map (fun u => (u.1, some u.2.name)) ∧
    ds.filter (·.isUndefined) = (s.unknown uses).map
      fun t => .on t (.identifierUndefined t.name) .expression

namespace Flags

/-- Without an identifier there is no use. -/
theorem quiet (ht : ∀ t ∈ ts, t.kind ≠ .identifier) (hd : ∀ d ∈ ds, d.isUndefined = false)
    (ns : List Node) : Flags s ts ds ns ns := by
  refine ⟨[], (identifiers_eq_nil ht).symm, (List.append_nil _).symm, ?_⟩
  exact List.filter_eq_nil_iff.2 fun d h => by simp [hd d h]

theorem refl (ns : List Node) : Flags s [] [] ns ns :=
  quiet (List.forall_mem_nil _) (List.forall_mem_nil _) ns

theorem trans (h : Flags s ts ds ls ms) (hs : s' = (identifiers ts).foldl ScopeStack.use s)
    (h' : Flags s' us es ms ns) : Flags s (ts ++ us) (ds ++ es) ls ns := by
  obtain ⟨uses, htokens, hroles, hflagged⟩ := h
  obtain ⟨more, htokens', hroles', hflagged'⟩ := h'
  refine ⟨uses ++ more, ?_, ?_, ?_⟩
  · rw [List.map_append, htokens, htokens', identifiers_append]
  · rw [hroles', hroles, List.map_append, List.append_assoc]
  · rw [List.filter_append, hflagged, hflagged', ScopeStack.unknown_append, htokens, ← hs,
      List.map_append]

theorem frame (h : Flags s ts ds ms ns) (ls : List Node) :
    Flags s ts ds (ls ++ ms) (ls ++ ns) := by
  obtain ⟨uses, htokens, hroles, hflagged⟩ := h
  exact ⟨uses, htokens, by simp [hroles], hflagged⟩

theorem cons {kind : TokenKind} (hp : p.kind = kind) (hk : kind ≠ .identifier)
    (h : Flags s ts ds ms ns) : Flags s (p.current :: ts) ds ms ns := by
  have ht : ∀ t ∈ [p.current], t.kind ≠ .identifier := by
    simpa [current_kind, hp] using hk
  have htoken : Flags s [p.current] [] ms ms := quiet ht (List.forall_mem_nil _) ms
  exact htoken.trans (by rw [identifiers_eq_nil ht]; rfl) h

/-- A node around the trees adds no use. -/
theorem wrap {kind : NodeKind} (h : Flags s ts ds ls ns) (hv : kind ≠ .variable)
    (ha : kind ≠ .assign) (a : Attributes) : Flags s ts ds ls [.mk kind a ns] := by
  obtain ⟨uses, htokens, hroles, hflagged⟩ := h
  exact ⟨uses, htokens, by rw [Node.roles_mk hv ha, hroles], hflagged⟩

end Flags

/-! ## Expressions -/

theorem roles_identifier (p : Parser) (known : Bool) (role : Role) :
    (identifier known p).value.rolesAs role = [(role, some p.current.name)] := by
  obtain ⟨e, he, hv⟩ := identifier_value p known
  rw [hv, Node.rolesAs, if_pos rfl, Node.rolesAll, ← he]
  rfl

theorem flags_identifier (hk : p.kind = .identifier) :
    Flags p.scopes [p.current] p.unknownName [] [(identifier true p).value] := by
  refine ⟨[(.operand, p.current)], by simp [identifiers, current_kind, hk], ?_, ?_⟩
  · rw [Node.roles_singleton, roles_identifier]
    rfl
  · unfold unknownName
    rw [ScopeStack.unknown]
    cases hname : p.scopes.lookup? p.current.name with
    | some e => simp [ScopeStack.unknown]
    | none => simp [ScopeStack.unknown, diagnostic, Diagnostic.isUndefined, Diagnostic.on]

/-- The target of an assignment is not flagged. -/
theorem flags_target (hk : p.kind = .identifier) (h : Flags s us ds [] ns)
    (hs : s = p.scopes.use p.current) (a : Attributes) :
    Flags p.scopes (p.current :: us) ds []
      [.mk .assign a ((identifier false p).value :: ns)] := by
  obtain ⟨uses, htokens, hroles, hflagged⟩ := h
  refine ⟨(.target, p.current) :: uses, ?_, ?_, ?_⟩
  · rw [List.map_cons, htokens]
    simp [identifiers, current_kind, hk]
  · rw [Node.roles_assign, roles_identifier, hroles]
    rfl
  · rw [hflagged, ScopeStack.unknown, hs]
    simp

theorem flags_constant {kind : NodeKind} (hk : constantKind? p.kind = some kind) :
    Flags s [p.current] [] [] [(constant kind p).value] := by
  have hne : p.kind ≠ .identifier := by
    intro h
    rw [h] at hk
    cases hk
  have hkind : kind ≠ .variable ∧ kind ≠ .assign := by
    unfold constantKind? at hk
    split at hk <;> cases hk <;> decide
  rw [constant_value]
  exact (Flags.cons rfl hne (.refl [])).wrap hkind.1 hkind.2 _

theorem Expects.flags {kind : TokenKind} {cause : Cause} {component : Component}
    (h : Expects kind cause component p ts ds q) (hk : kind ≠ .identifier)
    (hcause : ∀ name, cause ≠ .identifierUndefined name) (ns : List Node) :
    Flags s ts ds ns ns := by
  refine .quiet (fun t ht => h.taken t ht ▸ hk) ?_ ns
  cases h with
  | found => exact List.forall_mem_nil _
  | missing =>
    refine List.forall_mem_singleton.2 ?_
    unfold Diagnostic.isUndefined
    split
    · next name h => exact absurd h (hcause name)
    · rfl

theorem not_assign_of_operator {s : Strength} {kind : TokenKind} {op : NodeKind}
    (h : s.operator? kind = some op) : op ≠ .assign := by
  cases s <;> cases kind <;> cases h <;> decide

theorem not_assign_of_relational {kind : TokenKind} {op : NodeKind}
    (h : kind.relational? = some op) : op ≠ .assign := by
  cases kind <;> cases h <;> decide

theorem ReadsOperand.flags {phrase : Phrase} (h : ReadsOperand phrase p ts ds ns q) :
    Flags p.scopes ts ds phrase.before ns := by
  induction h with
  | identifier hk => exact flags_identifier hk
  | constant hk => exact flags_constant hk
  | tooDeep hk =>
    refine .quiet (List.forall_mem_singleton.2 ?_) (List.forall_mem_singleton.2 rfl) _
    rw [current_kind]
    rcases hk with hk | hk <;> rw [hk] <;> decide
  | unexpected => exact .quiet (List.forall_mem_nil _) (List.forall_mem_singleton.2 rfl) _
  | negation hk _ _ ih => exact Flags.cons hk (by decide) (ih.wrap (by decide) (by decide) _)
  | parentheses hk _ inner close ih =>
    exact (Flags.cons hk (by decide) ih).trans rfl (close.flags (by decide) (by simp) _)
  | plus hk _ ih => exact .cons hk (by decide) ih
  | minus hk _ ih => exact Flags.cons hk (by decide) (ih.wrap (by decide) (by decide) _)
  | unsigned _ _ _ ih | simple _ _ ih => exact ih
  | @chain s _ _ _ _ _ _ _ _ _ first _ ih ih' =>
    have hb : s.first.before = [] := by cases s <;> rfl
    rw [hb] at ih
    exact ih.trans first.uses.scopes ih'
  | stop => exact .refl _
  | @link s _ _ _ _ ls _ _ _ _ _ _ hk right _ ih ih' =>
    have hb : s.operand.before = [] := by cases s <;> rfl
    rw [hb] at ih
    obtain ⟨htoken, hop⟩ := not_variable_of_operator hk
    have hright := Flags.cons rfl htoken ((ih.frame ls).wrap hop (not_assign_of_operator hk) .empty)
    rw [List.append_nil] at hright
    exact hright.trans (Uses.cons rfl htoken right.uses).scopes ih'
  | @relation _ p q _ _ _ ls _ _ _ left hk _ ih ih' =>
    obtain ⟨htoken, hop⟩ := not_variable_of_relational hk
    have hright : Flags q.scopes _ _ _ _ := Flags.cons rfl htoken
      ((ih'.frame ls).wrap hop (not_assign_of_relational hk) .empty)
    exact ih.trans left.uses.scopes (by simpa [Phrase.before] using hright)

/-! ## Statements -/

theorem Separates.flags (h : Separates p ts ds q) (ns : List Node) : Flags s ts ds ns ns := by
  cases h with
  | semicolon hk => exact .cons hk (by decide) (.refl ns)
  | missing => exact .quiet (List.forall_mem_nil _) (List.forall_mem_singleton.2 rfl) ns
  | closing => exact .refl ns
  | stray _ hi =>
    exact .quiet (List.forall_mem_singleton.2 hi) (List.forall_mem_singleton.2 rfl) ns

theorem ReadsStatement.flags {clause : Clause} (h : ReadsStatement clause p ts ds ns q) :
    Flags p.scopes ts ds [] ns := by
  induction h with
  | @assignment p q r ts ds us es ns hk sign value =>
    have hsign : Flags (identifier false p).after.scopes ts ds [] [] :=
      sign.flags (by decide) (by simp) []
    exact flags_target hk (hsign.trans (sign.uses (by decide) []).scopes value.flags)
      (identifier_scopes p false) _
  | tooDeep hk =>
    refine Flags.wrap (.quiet ?_ (List.forall_mem_singleton.2 rfl) []) (by decide) (by decide) _
    exact List.forall_mem_singleton.2 (by rw [current_kind, hk]; decide)
  | compound hk _ _ close ih =>
    have hbody := (Flags.cons hk (by decide) ih).trans rfl (close.flags (by decide) (by simp) _)
    exact hbody.wrap (by decide) (by decide) _
  | empty => exact (Flags.refl []).wrap (by decide) (by decide) _
  | finish => exact .refl []
  | @round _ _ _ _ _ _ ns _ _ _ _ _ _ one separator _ ih ih' =>
    have hone := ih.trans one.uses.scopes (separator.flags ns)
    have hrest := ih'.frame ns
    rw [List.append_nil] at hrest
    exact hone.trans (one.uses.trans (separator.uses ns)).scopes hrest

theorem ReadsProgram.flags (h : ReadsProgram p ts ds ns q) :
    Flags p.scopes ts ds [] ns := by
  cases h with
  | nothing => exact .refl []
  | block _ root period =>
    exact root.flags.trans rfl (period.flags (by decide) (by simp) ns)
  | noBlock _ _ period =>
    have hfirst : Flags p.scopes []
        [p.diagnostic (.unexpectedToken p.current.text) .program] [] [] :=
      .quiet (List.forall_mem_nil _) (List.forall_mem_singleton.2 rfl) []
    exact hfirst.trans rfl (period.flags (by decide) (by simp) [])

/-! ## Programs and expressions -/

/-- The identifiers that were taken have the roles that the tree shows, and a name is flagged, once,
on its first use, just when it is undefined. -/
structure FlagsNames (p : Parser) (out : Parsed (Option Node)) (ds : List Diagnostic)
    (uses : List (Role × Token)) : Prop where
  log : out.after.log.entries.toList = p.log.entries.toList ++ ds
  tokens : uses.map (·.2) = identifiers (p.cursor.upTo out.after.cursor)
  roles : Node.roles out.value.toList = uses.map fun u => (u.1, some u.2.name)
  flagged : ∀ name, (∃ d ∈ ds, d.error.cause = .identifierUndefined name) ↔
    ∃ t, p.scopes.Undefined uses name t
  once : ∀ name t, p.scopes.Undefined uses name t →
    ds.filter (·.undefines name) = [.on t (.identifierUndefined name) .expression]

theorem filter_undefines {uses : List (Role × Token)}
    (h : ds.filter (·.isUndefined) = (s.unknown uses).map
      fun t => .on t (.identifierUndefined t.name) .expression) (name : String) :
    ds.filter (·.undefines name) = ((s.unknown uses).filter (·.name == name)).map
      fun t => .on t (.identifierUndefined name) .expression := by
  have hsub : ∀ d : Diagnostic, d.undefines name = (d.undefines name && d.isUndefined) := by
    intro d
    unfold Diagnostic.undefines Diagnostic.isUndefined
    split <;> simp_all
  calc ds.filter (·.undefines name)
      = (ds.filter (·.isUndefined)).filter (·.undefines name) := by
        rw [List.filter_filter]
        exact List.filter_congr fun d _ => hsub d
    _ = ((s.unknown uses).filter (·.name == name)).map
          fun t => .on t (.identifierUndefined t.name) .expression := by
        rw [h, List.filter_map]
        congr 1
        refine List.filter_congr fun t _ => ?_
        simp only [Function.comp_apply, Diagnostic.undefines, Diagnostic.on,
          Cause.identifierUndefined.injEq]
        rfl
    _ = _ := by
        refine List.map_congr_left fun t ht => ?_
        have hname : t.name = name := by simpa using (List.mem_filter.1 ht).2
        rw [hname]

theorem Flags.flagsNames {out : Parsed (Option Node)} (he : Effect p ts ds out.after)
    (h : Flags p.scopes ts ds [] out.value.toList) :
    ∃ ds uses, FlagsNames p out ds uses := by
  obtain ⟨uses, htokens, hroles, hflagged⟩ := h
  rw [← Cursor.upTo_eq he.ahead] at htokens
  have hname := filter_undefines hflagged
  refine ⟨ds, uses, he.log, htokens, by simpa using hroles, fun name => ?_, ?_⟩
  · have hiff : (∃ d ∈ ds, d.error.cause = .identifierUndefined name) ↔
        ds.filter (·.undefines name) ≠ [] := by
      simp [List.filter_eq_nil_iff, Diagnostic.undefines]
    rw [hiff, hname]
    constructor
    · refine fun h => Classical.byContradiction fun hno => h ?_
      rw [ScopeStack.filter_unknown_eq_nil (not_exists.1 hno)]
      rfl
    · rintro ⟨t, ht⟩
      rw [ScopeStack.filter_unknown_eq ht]
      simp
  · intro name t ht
    rw [hname, ScopeStack.filter_unknown_eq ht]
    rfl

/-- Trees with the same names in the same roles have the same undefined names. -/
theorem FlagsNames.congr {out out' : Parsed (Option Node)} {uses more : List (Role × Token)}
    (h : FlagsNames p out ds uses) (h' : FlagsNames q out' es more) (hs : p.scopes = q.scopes)
    (hr : Node.roles out.value.toList = Node.roles out'.value.toList) (name : String) :
    (∃ d ∈ ds, d.error.cause = .identifierUndefined name) ↔
      ∃ d ∈ es, d.error.cause = .identifierUndefined name := by
  rw [h.flagged, h'.flagged, ScopeStack.exists_undefined_iff, ScopeStack.exists_undefined_iff,
    ← h.roles, ← h'.roles, hs, hr]

theorem flagsNames_parse (tokens : List Token) (file : String) :
    ∃ uses, FlagsNames (ofTokens tokens file).withStatements (parse tokens file)
      (parse tokens file).after.log.entries.toList uses := by
  have hparse := readsProgram_parse tokens file
  obtain ⟨ds, uses, h⟩ := hparse.flags.flagsNames hparse.effect
  have hds : (parse tokens file).after.log.entries.toList = ds := h.log
  exact ⟨uses, hds ▸ h⟩

/-- **Undefined names are flagged once, and only they**, in programs and in expressions, well formed
or not. -/
theorem undefined_names_are_flagged_once (p : Parser) (hp : p.Standard) :
    (∃ ds uses, FlagsNames p p.program ds uses) ∧ ∃ ds uses, FlagsNames p p.expression ds uses := by
  obtain ⟨ts, ds, hprogram⟩ := reading_program hp
  obtain ⟨us, es, hexpression⟩ := reading_expression p
  exact ⟨hprogram.flags.flagsNames hprogram.effect,
    hexpression.flags.flagsNames hexpression.effect⟩

/-- The tokens of `begin x := y; y := x end.` where no name is visible. -/
def undefinedOperand : Parser :=
  (ofTokens [⟨.beginWord, "begin", none, 1, ⟨"", 0⟩, ⟨"", 5⟩⟩,
    ⟨.identifier, "x", none, 1, ⟨"", 6⟩, ⟨"", 7⟩⟩,
    ⟨.becomes, ":=", none, 1, ⟨"", 8⟩, ⟨"", 10⟩⟩, ⟨.identifier, "y", none, 1, ⟨"", 11⟩, ⟨"", 12⟩⟩,
    ⟨.semicolon, ";", none, 1, ⟨"", 12⟩, ⟨"", 13⟩⟩, ⟨.identifier, "y", none, 1, ⟨"", 14⟩, ⟨"", 15⟩⟩,
    ⟨.becomes, ":=", none, 1, ⟨"", 16⟩, ⟨"", 18⟩⟩, ⟨.identifier, "x", none, 1, ⟨"", 19⟩, ⟨"", 20⟩⟩,
    ⟨.endWord, "end", none, 1, ⟨"", 21⟩, ⟨"", 24⟩⟩,
    ⟨.dot, ".", none, 1, ⟨"", 24⟩, ⟨"", 25⟩⟩] "").withStatements

theorem undefinedOperand_is_flagged_once : undefinedOperand.Standard ∧
    (∃ ds uses, FlagsNames undefinedOperand undefinedOperand.program ds uses) ∧
    ∃ ds uses, FlagsNames undefinedOperand undefinedOperand.expression ds uses := by
  have hstandard : undefinedOperand.Standard := standard_withStatements _ _
  exact ⟨hstandard, undefined_names_are_flagged_once undefinedOperand hstandard⟩

end Parser

end PascalBlock
