import PascalBlock.Proofs.Parser.TokensKept

/-!
# What is read does not depend on the notes

The scopes and the log are notes that a parse keeps: which tokens it takes, which tree it builds and
what it flags depends on them in two places only. A name that is not visible is flagged, and a
variable refers to the place of its name in the ledger. With other notes every reading goes the same
way up to these (`ReadsOperand.renoted`, `ReadsStatement.renoted`).
-/

namespace PascalBlock

/-! ## Trees by their names -/

/-- An identifier by its name alone, without its place in the ledger. -/
def AttrValue.named : AttrValue → AttrValue
  | .entry e => .entry ⟨e.name, 0⟩
  | v => v

def Attributes.named (a : Attributes) : Attributes :=
  ⟨a.line.map .named, a.id.map .named, a.value.map .named⟩

namespace Node

mutual

/-- The tree with its kinds, lines, values and names, but without the places of the names. -/
def named : Node → Node
  | mk kind attributes children => mk kind attributes.named (namedAll children)

def namedAll : List Node → List Node
  | [] => []
  | n :: ns => named n :: namedAll ns

end

theorem namedAll_eq_map (ns : List Node) : namedAll ns = ns.map named := by
  induction ns with
  | nil => rfl
  | cons n ns ih => rw [namedAll, ih, List.map_cons]

@[simp] theorem named_mk (kind : NodeKind) (a : Attributes) (ns : List Node) :
    (mk kind a ns).named = mk kind a.named (ns.map named) := by
  rw [named, namedAll_eq_map]

end Node

/-! ## Diagnostics but for unknown names -/

def Diagnostic.isUndefined (d : Diagnostic) : Bool :=
  match d.error.cause with
  | .identifierUndefined _ => true
  | _ => false

/-- The diagnostics that do not depend on which names are known. -/
def Diagnostic.others (ds : List Diagnostic) : List Diagnostic := ds.filter fun d => !d.isUndefined

@[simp] theorem Diagnostic.others_append (ds es : List Diagnostic) :
    others (ds ++ es) = others ds ++ others es := List.filter_append ..

/-! ## Notes -/

/-- What a parse keeps beside its cursor: the scopes, and what was flagged. -/
structure Notes where
  scopes : ScopeStack
  log : DiagnosticLog
  keyed : scopes.Keyed

/-- One more diagnostic. -/
def Notes.flag (m : Notes) (t : Token) (cause : Cause) (component : Component) : Notes :=
  { m with log := m.log.flag t cause component }

namespace Parser

variable {p q : Parser} {m : Notes} {ts : List Token} {ds : List Diagnostic} {ns : List Node}

def notes (p : Parser) : Notes := ⟨p.scopes, p.log, p.keyed⟩

/-- The same state with other notes. -/
def renoted (p : Parser) (m : Notes) : Parser :=
  { p with scopes := m.scopes, log := m.log, keyed := m.keyed }

/-- States that have all but the notes in common. -/
theorem eq_renoted (hc : q.cursor = p.cursor) (hh : q.handlers = p.handlers)
    (hn : q.nesting = p.nesting) : q = p.renoted q.notes := by
  cases p
  cases q
  simp_all [renoted, notes]

/-- With other notes the same tokens lead to the same place and, up to names, to the same trees and
diagnostics. `Reads` is what is read. -/
def SameWith (Reads : List Diagnostic → List Node → Parser → Prop) (ds : List Diagnostic)
    (ns : List Node) (q : Parser) : Prop :=
  ∃ ds' ns' m', Reads ds' ns' (q.renoted m') ∧
    Diagnostic.others ds' = Diagnostic.others ds ∧ ns'.map Node.named = ns.map Node.named

theorem others_unknownName (p : Parser) : Diagnostic.others p.unknownName = [] := by
  unfold unknownName
  split <;> rfl

theorem named_identifier (p : Parser) (known : Bool) : (identifier known p).value.named =
    .mk .variable ⟨none, some (.entry ⟨p.current.name, 0⟩), none⟩ [] := by
  obtain ⟨e, he, hv⟩ := identifier_value p known
  rw [hv, Node.named_mk, ← he]
  rfl

/-- A name is read in the same way, known or not. -/
theorem identifier_renoted (p : Parser) (known : Bool) (m : Notes) :
    ∃ m', (identifier known (p.renoted m)).after = (identifier known p).after.renoted m' ∧
      (identifier known (p.renoted m)).value.named = (identifier known p).value.named := by
  refine ⟨(identifier known (p.renoted m)).after.notes, ?_, ?_⟩
  · rw [identifier_after, identifier_after p]
    rfl
  · rw [named_identifier, named_identifier]
    rfl

theorem Expects.renoted {kind : TokenKind} {cause : Cause} {component : Component}
    (h : Expects kind cause component p ts ds q) (m : Notes) :
    ∃ m', Expects kind cause component (p.renoted m) ts ds (q.renoted m') := by
  cases h with
  | found hk => exact ⟨m, .found hk⟩
  | missing hk => exact ⟨m.flag p.current cause component, .missing hk⟩

/-! ## Expressions -/

/-- The phrase with other trees to start from. -/
def Phrase.behind : Phrase → List Node → Phrase
  | .links s _, left => .links s left
  | phrase, _ => phrase

theorem Strength.first_behind (s : Strength) (left : List Node) :
    s.first.behind left = s.first := by cases s <;> rfl

theorem Strength.operand_behind (s : Strength) (left : List Node) :
    s.operand.behind left = s.operand := by cases s <;> rfl

theorem ReadsOperand.renoted {phrase : Phrase} (h : ReadsOperand phrase p ts ds ns q) :
    ∀ m left, left.map Node.named = phrase.before.map Node.named →
      SameWith (ReadsOperand (phrase.behind left) (p.renoted m) ts) ds ns q := by
  induction h with
  | @identifier p hk =>
    intro m left _
    obtain ⟨m', hafter, hvalue⟩ := identifier_renoted p true m
    have hread := ReadsOperand.identifier (p := p.renoted m) hk
    rw [hafter] at hread
    refine ⟨_, _, m', hread, ?_, ?_⟩
    · rw [others_unknownName, others_unknownName]
    · rw [List.map_singleton, List.map_singleton, hvalue]
  | constant hk =>
    intro m left _
    exact ⟨_, _, m, .constant hk, rfl, rfl⟩
  | @tooDeep p hk hn =>
    intro m left _
    exact ⟨_, _, m.flag p.current .nestingTooDeep .expression, .tooDeep hk hn, rfl, rfl⟩
  | @unexpected p hk =>
    intro m left _
    exact ⟨_, _, m.flag p.current (.unexpectedToken p.current.text) .expression, .unexpected hk,
      rfl, rfl⟩
  | @negation p _ _ _ _ hk hn _ ih =>
    intro m left _
    obtain ⟨ds', ns', m', inner, hds, hns⟩ := ih m [] rfl
    have hread := ReadsOperand.negation (p := p.renoted m) hk hn inner
    exact ⟨ds', _, m', hread, hds, by simp [hns]⟩
  | @parentheses p _ _ _ _ _ _ _ hk hn _ close ih =>
    intro m left _
    obtain ⟨ds', ns', m', inner, hds, hns⟩ := ih m [] rfl
    obtain ⟨m'', close'⟩ := close.renoted m'
    have hread := ReadsOperand.parentheses (p := p.renoted m) hk hn inner close'
    exact ⟨_, ns', m'', hread, by simp [hds], hns⟩
  | plus hk _ ih =>
    intro m left _
    obtain ⟨ds', ns', m', term, hsame⟩ := ih m [] rfl
    exact ⟨ds', ns', m', .plus hk term, hsame⟩
  | minus hk _ ih =>
    intro m left _
    obtain ⟨ds', ns', m', term, hds, hns⟩ := ih m [] rfl
    exact ⟨ds', _, m', .minus hk term, hds, by simp [hns]⟩
  | unsigned hp hm _ ih =>
    intro m left _
    obtain ⟨ds', ns', m', term, hsame⟩ := ih m [] rfl
    exact ⟨ds', ns', m', .unsigned hp hm term, hsame⟩
  | @chain strength _ _ _ _ _ ls _ _ _ _ _ ih ih' =>
    intro m left _
    obtain ⟨ds', ls', m', first, hds, hls⟩ := ih m [] (by cases strength <;> rfl)
    obtain ⟨es', ns', m'', rest, hes, hns⟩ := ih' m' ls' hls
    rw [Strength.first_behind] at first
    exact ⟨_, ns', m'', .chain first rest, by simp [hds, hes], hns⟩
  | stop hk =>
    intro m left hleft
    exact ⟨[], left, m, .stop hk, rfl, hleft⟩
  | @link strength op _ _ _ ls _ _ rs _ _ _ hk _ _ ih ih' =>
    intro m left hleft
    obtain ⟨ds', rs', m', right, hds, hrs⟩ := ih m [] (by cases strength <;> rfl)
    have hnode : [Node.mk op .empty (left ++ rs')].map Node.named =
        [Node.mk op .empty (ls ++ rs)].map Node.named := by
      simp only [List.map_singleton, Node.named_mk, List.map_append, hrs]
      rw [show left.map Node.named = ls.map Node.named from hleft]
    obtain ⟨es', ns', m'', rest, hes, hns⟩ := ih' m' _ hnode
    rw [Strength.operand_behind] at right
    exact ⟨_, ns', m'', .link hk right rest, by simp [hds, hes], hns⟩
  | simple _ hk ih =>
    intro m left _
    obtain ⟨ds', ns', m', inner, hsame⟩ := ih m [] rfl
    exact ⟨ds', ns', m', .simple inner hk, hsame⟩
  | @relation _ _ q _ _ _ _ _ _ _ _ hk _ ih ih' =>
    intro m left _
    obtain ⟨ds', ls', m', first, hds, hls⟩ := ih m [] rfl
    obtain ⟨es', rs', m'', right, hes, hrs⟩ := ih' m' [] rfl
    have hread := ReadsOperand.relation (q := q.renoted m') first hk right
    exact ⟨_, _, m'', hread, by simp [hds, hes], by simp [hls, hrs]⟩

/-! ## Statements -/

theorem Separates.renoted (h : Separates p ts ds q) (m : Notes) :
    ∃ m', Separates (p.renoted m) ts ds (q.renoted m') := by
  cases h with
  | semicolon hk => exact ⟨m, .semicolon hk⟩
  | missing hk => exact ⟨m.flag p.current .missingSemicolon .statement, .missing hk⟩
  | closing hk => exact ⟨m, .closing hk⟩
  | stray hs hi hk =>
    exact ⟨m.flag p.current (.unexpectedToken p.current.text) .statement, .stray hs hi hk⟩

theorem ReadsStatement.renoted {clause : Clause} (h : ReadsStatement clause p ts ds ns q) :
    ∀ m, SameWith (ReadsStatement clause (p.renoted m) ts) ds ns q := by
  induction h with
  | @assignment p _ _ _ _ _ _ _ hk sign value =>
    intro m
    obtain ⟨m₁, hafter, htarget⟩ := identifier_renoted p false m
    obtain ⟨m₂, sign'⟩ := sign.renoted m₁
    rw [← hafter] at sign'
    obtain ⟨es', ns', m₃, value', hes, hns⟩ := value.renoted m₂ [] rfl
    have hread := ReadsStatement.assignment (p := p.renoted m) hk sign' value'
    refine ⟨_, _, m₃, hread, by simp [hes], ?_⟩
    simp only [Node.named_mk, List.map_cons, htarget, hns]
    rfl
  | @tooDeep p hk hn =>
    intro m
    exact ⟨_, _, m.flag p.current .nestingTooDeep .compound, .tooDeep hk hn, rfl, rfl⟩
  | @compound p _ _ _ _ _ _ _ hk hn _ close ih =>
    intro m
    obtain ⟨ds', ns', m', body, hds, hns⟩ := ih m
    obtain ⟨m'', close'⟩ := close.renoted m'
    have hread := ReadsStatement.compound (p := p.renoted m) hk hn body close'
    refine ⟨_, _, m'', hread, by simp [hds], ?_⟩
    simp only [List.map_singleton, Node.named_mk, hns]
    rfl
  | empty hb hi =>
    intro m
    exact ⟨_, _, m, .empty hb hi, rfl, rfl⟩
  | finish hk =>
    intro m
    exact ⟨_, _, m, .finish hk, rfl, rfl⟩
  | round hk _ separator _ ih ih' =>
    intro m
    obtain ⟨ds', ns', m₁, one, hds, hns⟩ := ih m
    obtain ⟨m₂, separator'⟩ := separator.renoted m₁
    obtain ⟨fs', ms', m₃, rest, hfs, hms⟩ := ih' m₂
    exact ⟨_, _, m₃, .round hk one separator' rest, by simp [hds, hfs], by simp [hns, hms]⟩

end Parser

end PascalBlock
