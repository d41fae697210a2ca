import PascalBlock.Proofs.Parser.Acceptance

/-!
# Precedence and associativity

The value of an expression, said of its tokens alone: `evaluate` looks for the operator outside
parentheses that is applied last, and evaluates what stands on its two sides. It never builds a tree
and never reads from left to right. What is derived has the value that its tree has
(`Derives.evaluate`), so the trees that are read respect precedence and associativity.
-/

universe u

namespace PascalBlock

open Grammar

/-! ## Values of trees -/

/-- Any meaning of operators and operands. -/
structure Interpretation (D : Type u) where
  leaf : Leaf → D
  unary : NodeKind → D → D
  binary : NodeKind → D → D → D

namespace Interpretation

variable {D : Type u}

/-- What an operator makes of its operands, of which there are one or two. -/
def apply (I : Interpretation D) (op : NodeKind) : List D → Option D
  | [a] => some (I.unary op a)
  | [a, b] => some (I.binary op a b)
  | _ => none

end Interpretation

section
variable {D : Type u} (I : Interpretation D)

mutual

/-- The value of a tree, from the values of its children. -/
def Outline.value? : Outline → Option D
  | .mk _ (some leaf) _ => some (I.leaf leaf)
  | .mk op none children => (Outline.values? children).bind (I.apply op)

def Outline.values? : List Outline → Option (List D)
  | [] => some []
  | o :: os => (Outline.value? o).bind fun a => (Outline.values? os).map (a :: ·)

end

/-- The value of a tree. -/
def Node.value? (n : Node) : Option D := n.outline.value? I

end

/-! ## Operators outside parentheses -/

/-- The operators of a precedence. -/
def Grammar.Precedence.operator? : Precedence → TokenKind → Option NodeKind
  | .multiplicative, .star => some .multiply
  | .multiplicative, .slash => some .floatDivide
  | .multiplicative, .divWord => some .integerDivide
  | .multiplicative, .modWord => some .mod
  | .multiplicative, .andWord => some .and
  | .additive, .plus => some .add
  | .additive, .minus => some .subtract
  | .additive, .orWord => some .or
  | .relational, .equals => some .eq
  | .relational, .notEquals => some .ne
  | .relational, .lessThan => some .lt
  | .relational, .lessEquals => some .le
  | .relational, .greaterThan => some .gt
  | .relational, .greaterEquals => some .ge
  | _, _ => none

/-- How many parentheses are open behind a token. -/
def depthBehind (depth : Nat) (t : Token) : Nat :=
  if t.kind = .leftParen then depth + 1 else if t.kind = .rightParen then depth - 1 else depth

/-- How many parentheses are open behind tokens. -/
def depthAfter (depth : Nat) (ts : List Token) : Nat := ts.foldl depthBehind depth

/-- Tokens split at an operator. -/
structure Split where
  left : List Token
  operator : NodeKind
  right : List Token

/-- The same with more tokens in front. -/
def Split.behind (ts : List Token) (s : Split) : Split := { s with left := ts ++ s.left }

/-- The same with more tokens at the end. -/
def Split.before (ts : List Token) (s : Split) : Split := { s with right := s.right ++ ts }

/-- The tokens split at the last operator of the precedence outside parentheses, where `depth`
parentheses are open in front of them. -/
def lastOutside? (prec : Precedence) : Nat → List Token → Option Split
  | _, [] => none
  | depth, t :: ts =>
    ((lastOutside? prec (depthBehind depth t) ts).map (Split.behind [t])).or
      (if depth = 0 then (prec.operator? t.kind).map fun op => ⟨[], op, ts⟩ else none)

/-- The tokens split at the last additive operator outside parentheses that has something in front
of it, and so is no sign. -/
def lastSum? : List Token → Option Split
  | [] => none
  | t :: ts => (lastOutside? .additive (depthBehind 0 t) ts).map (Split.behind [t])

/-! ## Values of tokens -/

/-- How an expression is put together. -/
inductive Form where
  | binary (split : Split)
  | unary (operator : NodeKind) (operand : List Token)
  /-- A plus sign or parentheses, which change nothing. -/
  | same (inside : List Token)
  | leaf (leaf : Leaf)
  /-- No expression. -/
  | unknown

/-- The form of a factor: `NOT` and what it is applied to, what stands in parentheses, or an
operand. -/
def factorForm (t : Token) (ts : List Token) : Form :=
  if t.kind = .notWord then .unary .not ts
  else if t.kind = .leftParen then .same ts.dropLast
  else if ts = [] then (t.asLeaf?.map Form.leaf).getD .unknown
  else .unknown

/-- The form of tokens without a binary operator but multiplicative ones: a sign and the whole term
behind it, a product, or a factor. -/
def termForm : List Token → Form
  | [] => .unknown
  | t :: ts =>
    if t.kind = .minus then .unary .negate ts
    else if t.kind = .plus then .same ts
    else match lastOutside? .multiplicative 0 (t :: ts) with
      | some s => .binary s
      | none => factorForm t ts

/-- The form of an expression: it is split at the relational operator, else at the last binary
additive one. -/
def form (ts : List Token) : Form :=
  match (lastOutside? .relational 0 ts).or (lastSum? ts) with
  | some s => .binary s
  | none => termForm ts

/-- What is to be evaluated first. -/
def Form.parts : Form → List (List Token)
  | binary s => [s.left, s.right]
  | unary _ ts => [ts]
  | same ts => [ts]
  | leaf _ | unknown => []

variable {prec : Precedence} {depth : Nat} {ts us vs : List Token} {s : Split} {t : Token}

/-- A split leaves out the operator and nothing else. -/
theorem lastOutside?_parts (h : lastOutside? prec depth ts = some s) :
    ∃ t, ts = s.left ++ t :: s.right := by
  induction ts generalizing depth s with
  | nil => cases h
  | cons t ts ih =>
    rw [lastOutside?] at h
    rcases Option.or_eq_some_iff.1 h with h | ⟨-, h⟩
    · obtain ⟨s', hs', rfl⟩ := Option.map_eq_some_iff.1 h
      obtain ⟨u, rfl⟩ := ih hs'
      exact ⟨u, rfl⟩
    · split at h
      · obtain ⟨op, -, rfl⟩ := Option.map_eq_some_iff.1 h
        exact ⟨t, rfl⟩
      · cases h

theorem lastSum?_parts (h : lastSum? ts = some s) : ∃ t, ts = s.left ++ t :: s.right := by
  cases ts with
  | nil => cases h
  | cons t ts =>
    obtain ⟨s', hs', rfl⟩ := Option.map_eq_some_iff.1 h
    obtain ⟨u, rfl⟩ := lastOutside?_parts hs'
    exact ⟨u, rfl⟩

theorem binary_shorter (h : ∃ t, ts = s.left ++ t :: s.right) :
    ∀ part ∈ (Form.binary s).parts, part.length < ts.length := by
  obtain ⟨t, rfl⟩ := h
  refine List.forall_mem_cons.2 ⟨?_, List.forall_mem_singleton.2 ?_⟩ <;>
    rw [List.length_append, List.length_cons] <;> omega

theorem factorForm_shorter (t : Token) (ts : List Token) :
    ∀ part ∈ (factorForm t ts).parts, part.length < (t :: ts).length := by
  unfold factorForm
  split
  · simp [Form.parts]
  · split
    · simp [Form.parts]
    · split
      · cases t.asLeaf? <;> simp [Form.parts]
      · simp [Form.parts]

theorem termForm_shorter (ts : List Token) :
    ∀ part ∈ (termForm ts).parts, part.length < ts.length := by
  cases ts with
  | nil => simp [termForm, Form.parts]
  | cons t ts =>
    rw [termForm]
    split
    · simp [Form.parts]
    · split
      · simp [Form.parts]
      · split
        · next s hs => exact binary_shorter (lastOutside?_parts hs)
        · exact factorForm_shorter t ts

theorem form_shorter (ts : List Token) : ∀ part ∈ (form ts).parts, part.length < ts.length := by
  unfold form
  split
  · next s hs =>
    rcases Option.or_eq_some_iff.1 hs with hs | ⟨-, hs⟩
    · exact binary_shorter (lastOutside?_parts hs)
    · exact binary_shorter (lastSum?_parts hs)
  · exact termForm_shorter ts

/-- The value of an expression, from its tokens alone. -/
def evaluate {D : Type u} (I : Interpretation D) (ts : List Token) : Option D :=
  match _ : form ts with
  | .binary s =>
    (evaluate I s.left).bind fun a => (evaluate I s.right).map fun b => I.binary s.operator a b
  | .unary op operand => (evaluate I operand).map (I.unary op)
  | .same inside => evaluate I inside
  | .leaf leaf => some (I.leaf leaf)
  | .unknown => none
termination_by ts.length
decreasing_by all_goals exact form_shorter ts _ (by simp [*, Form.parts])

section
variable {D : Type u} (I : Interpretation D)

theorem evaluate_binary (h : form ts = .binary s) : evaluate I ts =
    (evaluate I s.left).bind fun a => (evaluate I s.right).map fun b => I.binary s.operator a b := by
  rw [evaluate]
  split <;> simp_all

theorem evaluate_unary {op : NodeKind} (h : form ts = .unary op us) :
    evaluate I ts = (evaluate I us).map (I.unary op) := by
  rw [evaluate]
  split <;> simp_all

theorem evaluate_same (h : form ts = .same us) : evaluate I ts = evaluate I us := by
  rw [evaluate]
  split <;> simp_all

theorem evaluate_leaf {leaf : Leaf} (h : form ts = .leaf leaf) :
    evaluate I ts = some (I.leaf leaf) := by
  rw [evaluate]
  split <;> simp_all

end

/-! ## What is derived has no operator outside parentheses but its own -/

theorem operator?_eq_some_iff {kind : TokenKind} {op : NodeKind} :
    prec.operator? kind = some op ↔ Operator prec kind op := by
  constructor
  · intro h
    cases prec <;> cases kind <;> cases h <;> constructor
  · intro h
    cases h <;> rfl

theorem depthAfter_append (depth : Nat) (ts us : List Token) :
    depthAfter depth (ts ++ us) = depthAfter (depthAfter depth ts) us := List.foldl_append

theorem depthBehind_of_ne (hl : t.kind ≠ .leftParen) (hr : t.kind ≠ .rightParen) (depth : Nat) :
    depthBehind depth t = depth := by
  rw [depthBehind, if_neg hl, if_neg hr]

theorem depthBehind_operator {op : NodeKind} (h : Operator prec t.kind op) (depth : Nat) :
    depthBehind depth t = depth := by
  generalize hk : t.kind = kind at h
  refine depthBehind_of_ne ?_ ?_ depth <;> rw [hk] <;> cases h <;> decide

theorem lastOutside?_append (prec : Precedence) (depth : Nat) (ts us : List Token) :
    lastOutside? prec depth (ts ++ us) =
      ((lastOutside? prec (depthAfter depth ts) us).map (Split.behind ts)).or
        ((lastOutside? prec depth ts).map (Split.before us)) := by
  induction ts generalizing depth with
  | nil =>
    change lastOutside? prec depth us = ((lastOutside? prec depth us).map (Split.behind [])).or none
    cases lastOutside? prec depth us <;> rfl
  | cons t ts ih =>
    rw [List.cons_append, lastOutside?, ih, lastOutside?]
    change _ = ((lastOutside? prec (depthAfter (depthBehind depth t) ts) us).map _).or _
    cases lastOutside? prec (depthAfter (depthBehind depth t) ts) us with
    | some s => rfl
    | none =>
      cases lastOutside? prec (depthBehind depth t) ts with
      | some s => rfl
      | none =>
        by_cases hd : depth = 0
        · rw [if_pos hd, if_pos hd]
          cases prec.operator? t.kind <;> rfl
        · rw [if_neg hd, if_neg hd]
          rfl

/-- No operator is found where there is none on either side. -/
theorem lastOutside?_append_eq_none (h : lastOutside? prec depth ts = none)
    (h' : lastOutside? prec (depthAfter depth ts) us = none) :
    lastOutside? prec depth (ts ++ us) = none := by
  rw [lastOutside?_append, h, h']
  rfl

/-- An operator outside parentheses is the last one if none comes behind it. -/
theorem lastOutside?_at {op : NodeKind} (hop : Operator prec t.kind op)
    (hts : depthAfter depth ts = 0) (hus : lastOutside? prec 0 us = none) :
    lastOutside? prec depth (ts ++ t :: us) = some ⟨ts, op, us⟩ := by
  rw [lastOutside?_append, hts, lastOutside?, depthBehind_operator hop, hus, if_pos rfl,
    operator?_eq_some_iff.2 hop]
  change some (Split.behind ts ⟨[], op, us⟩) = _
  rw [Split.behind, List.append_nil]

variable {symbol : Nonterminal} {n : Nat} {o : Outline}

theorem depthAfter_cons (depth : Nat) (t : Token) (ts : List Token) :
    depthAfter depth (t :: ts) = depthAfter (depthBehind depth t) ts := rfl

theorem depthBehind_leftParen (h : t.kind = .leftParen) (depth : Nat) :
    depthBehind depth t = depth + 1 := if_pos h

theorem depthBehind_rightParen (h : t.kind = .rightParen) (depth : Nat) :
    depthBehind (depth + 1) t = depth := by
  rw [depthBehind, if_neg (by rw [h]; decide), if_pos h, Nat.add_sub_cancel]

/-- Parentheses are closed again. -/
theorem Grammar.Derives.depth_eq (h : Derives symbol n ts o) (depth : Nat) :
    depthAfter depth ts = depth := by
  induction h generalizing depth with
  | operand ht =>
    refine depthBehind_of_ne ?_ ?_ depth <;>
    · intro hk
      simp [Token.asLeaf?, hk] at ht
  | negation ht _ ih | plus ht _ ih | minus ht _ ih =>
    rw [depthAfter_cons, depthBehind_of_ne (by simp [ht]) (by simp [ht]), ih]
  | @parentheses n l r ts o hl _ hr ih =>
    rw [List.cons_append, depthAfter_cons, depthBehind_leftParen hl, depthAfter_append, ih]
    exact depthBehind_rightParen hr depth
  | factor _ ih | term _ ih | simple _ ih => exact ih depth
  | product _ ht _ ih ih' | sum _ ht _ ih ih' | relation _ ht _ ih ih' =>
    rw [depthAfter_append, ih, depthAfter_cons, depthBehind_operator ht, ih']

/-- The precedences of the operators that a symbol may have outside parentheses. -/
def Grammar.Nonterminal.has : Nonterminal → Precedence → Bool
  | .factor, _ => false
  | .term, prec => prec = .multiplicative
  | .simpleExpression, prec => prec ≠ .relational
  | .expression, _ => true

/-- A token that is no operator of the precedence adds none. -/
theorem lastOutside?_cons_eq_none (ht : depth = 0 → prec.operator? t.kind = none)
    (h : lastOutside? prec (depthBehind depth t) ts = none) :
    lastOutside? prec depth (t :: ts) = none := by
  rw [lastOutside?, h]
  split
  · next hd => rw [ht hd]; rfl
  · rfl

theorem operator?_eq_none_of_ne {prec' : Precedence} {op : NodeKind} (h : Operator prec t.kind op)
    (hne : prec' ≠ prec) : prec'.operator? t.kind = none := by
  have hends : Parser.Ends prec' [t] := Parser.ends_of_operator h hne
  cases hop : prec'.operator? t.kind with
  | none => rfl
  | some op' => exact absurd (operator?_eq_some_iff.1 hop) (hends op')

theorem operator?_operand {leaf : Leaf} (h : t.asLeaf? = some leaf) :
    prec.operator? t.kind = none := by
  unfold Token.asLeaf? at h
  split at h <;> cases h <;> rename_i hk <;> rw [hk] <;> cases prec <;> rfl

/-- Between two parts stands an operator that the whole may have. -/
theorem lastOutside?_between {prec' : Precedence} {op : NodeKind} (hop : Operator prec' t.kind op)
    (hne : depth = 0 → prec ≠ prec') (hts : depthAfter depth ts = depth)
    (h : lastOutside? prec depth ts = none) (h' : lastOutside? prec depth us = none) :
    lastOutside? prec depth (ts ++ t :: us) = none := by
  refine lastOutside?_append_eq_none h (lastOutside?_cons_eq_none (fun hd => ?_) ?_)
  · exact operator?_eq_none_of_ne hop (hne (hts.symm.trans hd))
  · rw [hts, depthBehind_operator hop, h']

theorem eq_relational (h : Nonterminal.simpleExpression.has prec = false) : prec = .relational := by
  cases prec <;> simp_all [Nonterminal.has]

/-- **Outside parentheses there are only the operators that the symbol may have there**. -/
theorem Grammar.Derives.lastOutside?_eq_none (h : Derives symbol n ts o) :
    ∀ {prec depth}, (depth = 0 → symbol.has prec = false) → lastOutside? prec depth ts = none := by
  induction h with
  | operand ht =>
    intro prec depth _
    exact lastOutside?_cons_eq_none (fun _ => operator?_operand ht) rfl
  | negation ht _ ih =>
    intro prec depth _
    refine lastOutside?_cons_eq_none (fun _ => ?_) (ih fun _ => rfl)
    rw [ht]
    cases prec <;> rfl
  | @parentheses n l r ts o hl _ hr ih =>
    intro prec depth _
    refine lastOutside?_cons_eq_none (fun _ => ?_) ?_
    · rw [hl]
      cases prec <;> rfl
    · rw [depthBehind_leftParen hl]
      refine lastOutside?_append_eq_none (ih nofun) (lastOutside?_cons_eq_none (fun _ => ?_) rfl)
      rw [hr]
      cases prec <;> rfl
  | factor _ ih =>
    intro prec depth _
    exact ih fun _ => rfl
  | term _ ih =>
    intro prec depth hd
    exact ih fun h => by rw [eq_relational (hd h)]; rfl
  | simple _ ih =>
    intro prec depth hd
    exact ih fun h => absurd (hd h) (by simp [Nonterminal.has])
  | @product n t op ts us a b left ht _ ih ih' =>
    intro prec depth hd
    have hne : depth = 0 → prec ≠ .multiplicative := by
      rintro h rfl
      exact absurd (hd h) (by decide)
    exact lastOutside?_between ht hne (left.depth_eq depth) (ih hd) (ih' fun _ => rfl)
  | @sum n t op ts us a b left ht _ ih ih' =>
    intro prec depth hd
    have hrel : depth = 0 → prec = .relational := fun h => eq_relational (hd h)
    exact lastOutside?_between ht (fun h => by rw [hrel h]; decide) (left.depth_eq depth) (ih hd)
      (ih' fun h => by rw [hrel h]; rfl)
  | @relation n t op ts us a b left ht _ ih ih' =>
    intro prec depth hd
    have hne : depth ≠ 0 := fun h => absurd (hd h) (by simp [Nonterminal.has])
    exact lastOutside?_between ht (fun h => absurd h hne) (left.depth_eq depth)
      (ih fun h => absurd h hne) (ih' fun h => absurd h hne)
  | plus ht _ ih | minus ht _ ih =>
    intro prec depth hd
    have hrel : depth = 0 → prec = .relational := fun h => eq_relational (hd h)
    refine lastOutside?_cons_eq_none (fun h => by rw [hrel h, ht]; rfl) ?_
    rw [depthBehind_of_ne (by simp [ht]) (by simp [ht])]
    exact ih fun h => by rw [hrel h]; rfl

/-! ## Values agree -/

/-- What is derived has a first token, and that of a term is no sign. -/
theorem Grammar.Derives.exists_cons (h : Derives symbol n ts o) :
    ∃ t us, ts = t :: us ∧
      (symbol.has .additive = false → t.kind ≠ .plus ∧ t.kind ≠ .minus) := by
  obtain ⟨t, us, rfl, hstart⟩ := Parser.startsFactor_of_derives h
  refine ⟨t, us, rfl, fun hs => Parser.not_sign_of_startsFactor (hstart ?_)⟩
  cases symbol
  · exact .inl rfl
  · exact .inr rfl
  · cases hs
  · cases hs

theorem lastSum?_eq_none (h : lastOutside? .additive 0 ts = none) : lastSum? ts = none := by
  cases ts with
  | nil => rfl
  | cons t ts =>
    rw [lastOutside?, Option.or_eq_none_iff] at h
    exact h.1

/-- Tokens with no other operators than multiplicative ones outside parentheses. -/
theorem form_eq_termForm (hrel : lastOutside? .relational 0 ts = none) (hsum : lastSum? ts = none) :
    form ts = termForm ts := by
  rw [form, hrel, hsum]
  rfl

theorem Grammar.Derives.form_eq_termForm (h : Derives symbol n ts o)
    (hrel : symbol.has .relational = false) (hadd : symbol.has .additive = false) :
    form ts = termForm ts :=
  PascalBlock.form_eq_termForm (h.lastOutside?_eq_none fun _ => hrel)
    (lastSum?_eq_none (h.lastOutside?_eq_none fun _ => hadd))

/-- Behind a sign stands the whole term. -/
theorem form_signed (h : Derives .simpleExpression n (t :: ts) o) (ht : t.kind = .plus ∨ t.kind = .minus)
    (hterm : lastOutside? .additive 0 ts = none) : form (t :: ts) = termForm (t :: ts) := by
  refine form_eq_termForm (h.lastOutside?_eq_none fun _ => rfl) ?_
  rw [lastSum?, depthBehind_of_ne (by rcases ht with ht | ht <;> simp [ht])
    (by rcases ht with ht | ht <;> simp [ht]), hterm]
  rfl

/-- A factor is no sign and no product. -/
theorem form_factor (h : Derives .factor n (t :: ts) o) : form (t :: ts) = factorForm t ts := by
  obtain ⟨u, us, hcons, hsign⟩ := h.exists_cons
  obtain ⟨rfl, rfl⟩ := List.cons.inj hcons
  rw [h.form_eq_termForm rfl rfl, termForm, if_neg (hsign rfl).2, if_neg (hsign rfl).1,
    h.lastOutside?_eq_none fun _ => rfl]

theorem form_product {op : NodeKind} (left : Derives .term n ts o)
    (ht : Operator .multiplicative t.kind op) {b : Outline} (right : Derives .factor n us b) :
    form (ts ++ t :: us) = .binary ⟨ts, op, us⟩ := by
  have h := Derives.product left ht right
  obtain ⟨s, ss, rfl, hsign⟩ := left.exists_cons
  rw [h.form_eq_termForm rfl rfl, List.cons_append, termForm, if_neg (hsign rfl).2,
    if_neg (hsign rfl).1, ← List.cons_append,
    lastOutside?_at ht (left.depth_eq 0) (right.lastOutside?_eq_none fun _ => rfl)]

theorem form_sum {op : NodeKind} (left : Derives .simpleExpression n ts o)
    (ht : Operator .additive t.kind op) {b : Outline} (right : Derives .term n us b) :
    form (ts ++ t :: us) = .binary ⟨ts, op, us⟩ := by
  have h := Derives.sum left ht right
  have hdepth := left.depth_eq 0
  obtain ⟨s, ss, rfl, -⟩ := left.exists_cons
  have hlast := lastOutside?_at ht (depthAfter_cons 0 s ss ▸ hdepth)
    (right.lastOutside?_eq_none fun _ => rfl)
  rw [form, h.lastOutside?_eq_none fun _ => rfl, List.cons_append, lastSum?, hlast]
  rfl

theorem form_relation {op : NodeKind} (left : Derives .simpleExpression n ts o)
    (ht : Operator .relational t.kind op) {b : Outline} (right : Derives .simpleExpression n us b) :
    form (ts ++ t :: us) = .binary ⟨ts, op, us⟩ := by
  rw [form, lastOutside?_at ht (left.depth_eq 0) (right.lastOutside?_eq_none fun _ => rfl)]
  rfl

section
variable {D : Type u} (I : Interpretation D)

theorem value?_binary {op : NodeKind} {a b : Outline} {x y : D} (ha : a.value? I = some x)
    (hb : b.value? I = some y) : (Outline.node op [a, b]).value? I = some (I.binary op x y) := by
  simp [Outline.node, Outline.value?, Outline.values?, ha, hb, Interpretation.apply]

theorem value?_unary {op : NodeKind} {a : Outline} {x : D} (ha : a.value? I = some x) :
    (Outline.node op [a]).value? I = some (I.unary op x) := by
  simp [Outline.node, Outline.value?, Outline.values?, ha, Interpretation.apply]

/-- The value is put together from those of the two sides. -/
theorem evaluate_split {op : NodeKind} {a b : Outline} (hform : form ts = .binary ⟨us, op, vs⟩)
    (ha : ∃ x, a.value? I = some x ∧ evaluate I us = some x)
    (hb : ∃ x, b.value? I = some x ∧ evaluate I vs = some x) :
    ∃ x, (Outline.node op [a, b]).value? I = some x ∧ evaluate I ts = some x := by
  obtain ⟨x, ha, hx⟩ := ha
  obtain ⟨y, hb, hy⟩ := hb
  refine ⟨_, value?_binary I ha hb, ?_⟩
  rw [evaluate_binary I hform, hx, hy]
  rfl

/-- **The tokens have the value of the tree**. -/
theorem Grammar.Derives.evaluate (h : Derives symbol n ts o) :
    ∃ x, o.value? I = some x ∧ evaluate I ts = some x := by
  induction h with
  | @operand n t leaf ht =>
    refine ⟨I.leaf leaf, by simp [Outline.operand, Outline.value?], evaluate_leaf I ?_⟩
    have hform : form [t] = factorForm t [] := form_factor (.operand ht : Derives .factor n [t] _)
    rw [hform, factorForm, if_neg, if_neg, if_pos rfl, ht]
    · rfl
    · intro hk; simp [Token.asLeaf?, hk] at ht
    · intro hk; simp [Token.asLeaf?, hk] at ht
  | negation ht inner ih =>
    obtain ⟨x, ho, hx⟩ := ih
    refine ⟨_, value?_unary I ho, ?_⟩
    rw [evaluate_unary I (by rw [form_factor (.negation ht inner), factorForm, if_pos ht]), hx]
    rfl
  | @parentheses n l r ts o hl inner hr ih =>
    obtain ⟨x, ho, hx⟩ := ih
    refine ⟨x, ho, ?_⟩
    have hform : form (l :: (ts ++ [r])) = factorForm l (ts ++ [r]) :=
      form_factor (.parentheses hl inner hr)
    rw [factorForm, if_neg (by rw [hl]; decide), if_pos hl, List.dropLast_concat] at hform
    rw [List.cons_append, evaluate_same I hform, hx]
  | factor _ ih | term _ ih | simple _ ih => exact ih
  | product left ht right ih ih' => exact evaluate_split I (form_product left ht right) ih ih'
  | sum left ht right ih ih' => exact evaluate_split I (form_sum left ht right) ih ih'
  | relation left ht right ih ih' => exact evaluate_split I (form_relation left ht right) ih ih'
  | plus ht term ih =>
    obtain ⟨x, ho, hx⟩ := ih
    refine ⟨x, ho, ?_⟩
    have hform := form_signed (.plus ht term) (.inl ht) (term.lastOutside?_eq_none fun _ => rfl)
    rw [termForm, if_neg (by rw [ht]; decide), if_pos ht] at hform
    rw [evaluate_same I hform, hx]
  | minus ht term ih =>
    obtain ⟨x, ho, hx⟩ := ih
    refine ⟨_, value?_unary I ho, ?_⟩
    have hform := form_signed (.minus ht term) (.inr ht) (term.lastOutside?_eq_none fun _ => rfl)
    rw [termForm, if_pos ht] at hform
    rw [evaluate_unary I hform, hx]
    rfl

end

/-! ## Expressions that are read -/

namespace Parser

variable {p q : Parser} {e rest : List Token}

/-- A simple expression is read where no operator of a chain comes next. -/
theorem reads_simpleExpression (h : Derives .simpleExpression p.levelsLeft e o)
    (ha : p.cursor.ahead = e ++ rest) (hmul : Ends .multiplicative rest)
    (hadd : Ends .additive rest) : ∃ q, ReadsAs (.chain .additive) p e o q := by
  obtain ⟨q, hq⟩ := readable_of_derives h p rest rfl ha hmul
  exact ⟨q, hq.stop ha hadd⟩

/-- What is derived is read where nothing comes next that goes on with it. A relation is not gone on
with by another relational operator. -/
theorem reads_expression (h : Derives .expression p.levelsLeft e o)
    (ha : p.cursor.ahead = e ++ rest) (hmul : Ends .multiplicative rest)
    (hadd : Ends .additive rest)
    (hrel : Ends .relational rest ∨ (lastOutside? .relational 0 e).isSome) :
    ∃ q, ReadsAs .expression p e o q := by
  cases h with
  | simple h =>
    have hnone : lastOutside? .relational 0 e = none := h.lastOutside?_eq_none fun _ => rfl
    have hrel := hrel.resolve_right (by simp [hnone])
    refine readable_of_derives (.simple h) p rest rfl ha fun prec => ?_
    cases prec
    · exact hmul
    · exact hadd
    · exact hrel
  | @relation _ t op ts us a b left ht right =>
    rw [List.append_assoc, List.cons_append] at ha
    obtain ⟨q, hq⟩ := reads_simpleExpression left ha (ends_of_operator ht nofun)
      (ends_of_operator ht nofun)
    have hahead := hq.ahead ha
    obtain rfl := current_eq hahead
    have hlevels : q.advance.levelsLeft = p.levelsLeft := by
      obtain ⟨ds, ns, hread, -⟩ := hq
      exact hread.levelsLeft
    obtain ⟨r, hr⟩ := reads_simpleExpression (hlevels ▸ right) (advance_ahead hahead) hmul hadd
    exact ⟨r, hq.relation ht hr⟩

/-- **Expressions respect precedence and associativity**. What is derived as an expression, in front
of anything that does not go on with it, is what is taken; nothing but unknown names is flagged; and
the tree has the value of the tokens, whatever the operators and the operands mean. -/
theorem expression_respects_precedence (hp : p.nesting = 0) (h : Derives .expression maxNesting e o)
    (ha : p.cursor.ahead = e ++ rest) (hmul : Ends .multiplicative rest)
    (hadd : Ends .additive rest)
    (hrel : Ends .relational rest ∨ (lastOutside? .relational 0 e).isSome) :
    p.expression.after.cursor.ahead = rest ∧
      (∃ ds, p.expression.after.log.entries.toList = p.log.entries.toList ++ ds ∧ Clean ds) ∧
      ∃ root, p.expression.value = some root ∧
        ∀ (D : Type u) (I : Interpretation D), ∃ x, root.value? I = some x ∧ evaluate I e = some x := by
  have hlevels : p.levelsLeft = maxNesting := by rw [levelsLeft, hp]; rfl
  obtain ⟨q, hq⟩ := reads_expression (hlevels ▸ h) ha hmul hadd hrel
  have hahead := hq.ahead ha
  obtain ⟨ds, ns, hread, hc, ho⟩ := hq
  obtain ⟨us, es, hexpression⟩ := reading_expression p
  obtain ⟨rfl, rfl, rfl, rfl⟩ := hread.unique hexpression
  refine ⟨hahead, ⟨ds, hread.effect.log, hc⟩, ?_⟩
  cases hroot : p.expression.value with
  | none => simp [hroot] at ho
  | some root =>
    have houtline : root.outline = o := by simpa [hroot] using ho
    refine ⟨root, rfl, fun D I => ?_⟩
    rw [Node.value?, houtline]
    exact h.evaluate I

/-- The tokens of `1 - 2 - x = 3`. -/
def difference : List Token :=
  [⟨.integer, "1", some (.integer 1), 1, ⟨"", 0⟩, ⟨"", 1⟩⟩,
    ⟨.minus, "-", none, 1, ⟨"", 2⟩, ⟨"", 3⟩⟩,
    ⟨.integer, "2", some (.integer 2), 1, ⟨"", 4⟩, ⟨"", 5⟩⟩,
    ⟨.minus, "-", none, 1, ⟨"", 6⟩, ⟨"", 7⟩⟩,
    ⟨.identifier, "x", none, 1, ⟨"", 8⟩, ⟨"", 9⟩⟩, ⟨.equals, "=", none, 1, ⟨"", 10⟩, ⟨"", 11⟩⟩,
    ⟨.integer, "3", some (.integer 3), 1, ⟨"", 12⟩, ⟨"", 13⟩⟩]

theorem derives_difference : ∃ o, Derives .expression maxNesting difference o :=
  ⟨_, .relation (.sum (.sum (.term (.factor (.operand rfl))) .difference (.factor (.operand rfl)))
    .difference (.factor (.operand rfl))) .equal (.term (.factor (.operand rfl)))⟩

/-- A second relational operator does not go on with a relation. -/
theorem difference_respects_precedence :
    let p := ofTokens (difference ++ [⟨.equals, "=", none, 1, ⟨"", 14⟩, ⟨"", 15⟩⟩]) ""
    p.expression.after.cursor.ahead = [⟨.equals, "=", none, 1, ⟨"", 14⟩, ⟨"", 15⟩⟩] ∧
      ∃ root, p.expression.value = some root ∧
        ∀ (D : Type) (I : Interpretation D), ∃ x, root.value? I = some x ∧
          evaluate I difference = some x := by
  obtain ⟨o, h⟩ := derives_difference
  obtain ⟨hahead, -, hroot⟩ := expression_respects_precedence
    (p := ofTokens (difference ++ [⟨.equals, "=", none, 1, ⟨"", 14⟩, ⟨"", 15⟩⟩]) "")
    rfl h rfl (ends_of_kind rfl nofun) (ends_of_kind rfl nofun) (.inr (by decide))
  exact ⟨hahead, hroot⟩

end Parser

end PascalBlock
