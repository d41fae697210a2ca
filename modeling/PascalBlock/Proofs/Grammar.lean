import PascalBlock.Proofs.Node.Outline

/-!
# The grammar

What a Pascal block is, said without any reading: which tokens make up a factor, a term, an
expression, a statement or a program, and which tree they stand for. A derivation has levels to
spend, and every `begin`, `(` and `not` that is open takes one. `Opens` counts how many it takes.
-/

namespace PascalBlock.Grammar

/-! ## Operators -/

/-- How strongly an operator binds. -/
inductive Precedence where
  | multiplicative | additive | relational
deriving DecidableEq, Repr

/-- The operators between two operands, with what they build. -/
inductive Operator : Precedence → TokenKind → NodeKind → Prop
  | times : Operator .multiplicative .star .multiply
  | ratio : Operator .multiplicative .slash .floatDivide
  | quotient : Operator .multiplicative .divWord .integerDivide
  | remainder : Operator .multiplicative .modWord .mod
  | and : Operator .multiplicative .andWord .and
  | sum : Operator .additive .plus .add
  | difference : Operator .additive .minus .subtract
  | or : Operator .additive .orWord .or
  | equal : Operator .relational .equals .eq
  | notEqual : Operator .relational .notEquals .ne
  | less : Operator .relational .lessThan .lt
  | lessOrEqual : Operator .relational .lessEquals .le
  | greater : Operator .relational .greaterThan .gt
  | greaterOrEqual : Operator .relational .greaterEquals .ge

/-! ## Expressions -/

inductive Nonterminal where
  | factor | term | simpleExpression | expression

/-- `Derives symbol levels ts o`: the tokens `ts` are a `symbol` with the tree `o`, and no more than
`levels` levels are open in it at once. -/
inductive Derives : Nonterminal → Nat → List Token → Outline → Prop
  | operand {n : Nat} {t : Token} {leaf : Leaf} (ht : t.asLeaf? = some leaf) :
      Derives .factor n [t] (.operand leaf)
  | negation {n : Nat} {t : Token} {ts o} (ht : t.kind = .notWord)
      (inner : Derives .factor n ts o) : Derives .factor (n + 1) (t :: ts) (.node .not [o])
  | parentheses {n : Nat} {l r : Token} {ts o} (hl : l.kind = .leftParen)
      (inner : Derives .expression n ts o) (hr : r.kind = .rightParen) :
      Derives .factor (n + 1) (l :: ts ++ [r]) o
  | factor {n : Nat} {ts o} (h : Derives .factor n ts o) : Derives .term n ts o
  | product {n : Nat} {t : Token} {op ts us a b} (left : Derives .term n ts a)
      (ht : Operator .multiplicative t.kind op) (right : Derives .factor n us b) :
      Derives .term n (ts ++ t :: us) (.node op [a, b])
  | term {n : Nat} {ts o} (h : Derives .term n ts o) : Derives .simpleExpression n ts o
  | plus {n : Nat} {t : Token} {ts o} (ht : t.kind = .plus) (h : Derives .term n ts o) :
      Derives .simpleExpression n (t :: ts) o
  | minus {n : Nat} {t : Token} {ts o} (ht : t.kind = .minus) (h : Derives .term n ts o) :
      Derives .simpleExpression n (t :: ts) (.node .negate [o])
  | sum {n : Nat} {t : Token} {op ts us a b} (left : Derives .simpleExpression n ts a)
      (ht : Operator .additive t.kind op) (right : Derives .term n us b) :
      Derives .simpleExpression n (ts ++ t :: us) (.node op [a, b])
  | simple {n : Nat} {ts o} (h : Derives .simpleExpression n ts o) : Derives .expression n ts o
  | relation {n : Nat} {t : Token} {op ts us a b} (left : Derives .simpleExpression n ts a)
      (ht : Operator .relational t.kind op) (right : Derives .simpleExpression n us b) :
      Derives .expression n (ts ++ t :: us) (.node op [a, b])

/-! ## Statements and programs -/

inductive Block where
  | compound | statement
  /-- What stands between `begin` and `end`. -/
  | statements

/-- As `Derives`, with a list of trees: the statements of a block are as many, up to an empty one in
the last place, which leaves no tree. -/
inductive DerivesBlock : Block → Nat → List Token → List Outline → Prop
  | compound {n : Nat} {b e : Token} {ts os} (hb : b.kind = .beginWord)
      (body : DerivesBlock .statements n ts os) (he : e.kind = .endWord) :
      DerivesBlock .compound (n + 1) (b :: ts ++ [e]) [.node .compound os]
  | block {n : Nat} {ts os} (h : DerivesBlock .compound n ts os) : DerivesBlock .statement n ts os
  | assignment {n : Nat} {t s : Token} {us o} (ht : t.kind = .identifier) (hs : s.kind = .becomes)
      (value : Derives .expression n us o) :
      DerivesBlock .statement n (t :: s :: us)
        [.node .assign [.operand (.variable (some t.name)), o]]
  | empty {n : Nat} : DerivesBlock .statement n [] [.node .noOp []]
  | lastEmpty {n : Nat} : DerivesBlock .statements n [] []
  | last {n : Nat} {ts os} (h : DerivesBlock .statement n ts os) (hts : ts ≠ []) :
      DerivesBlock .statements n ts os
  | next {n : Nat} {s : Token} {ts os us vs} (h : DerivesBlock .statement n ts os)
      (hs : s.kind = .semicolon) (rest : DerivesBlock .statements n us vs) :
      DerivesBlock .statements n (ts ++ s :: us) (os ++ vs)

/-- A program is a compound statement and a period. -/
inductive DerivesProgram (levels : Nat) : List Token → Outline → Prop
  | program {d : Token} {ts o} (block : DerivesBlock .compound levels ts [o]) (hd : d.kind = .dot) :
      DerivesProgram levels (ts ++ [d]) o

/-! ## Levels -/

variable {n m : Nat} {ts : List Token}

/-- Levels may be left over. -/
theorem Derives.mono {symbol : Nonterminal} {o : Outline} (h : Derives symbol n ts o) :
    ∀ {m}, n ≤ m → Derives symbol m ts o := by
  induction h with
  | operand ht => exact fun _ => .operand ht
  | negation ht _ ih =>
    intro m hm
    obtain ⟨m, rfl⟩ : ∃ k, m = k + 1 := ⟨m - 1, by omega⟩
    exact .negation ht (ih (by omega))
  | parentheses hl _ hr ih =>
    intro m hm
    obtain ⟨m, rfl⟩ : ∃ k, m = k + 1 := ⟨m - 1, by omega⟩
    exact .parentheses hl (ih (by omega)) hr
  | factor _ ih => exact fun hm => .factor (ih hm)
  | product _ ht _ ih ih' => exact fun hm => .product (ih hm) ht (ih' hm)
  | term _ ih => exact fun hm => .term (ih hm)
  | plus ht _ ih => exact fun hm => .plus ht (ih hm)
  | minus ht _ ih => exact fun hm => .minus ht (ih hm)
  | sum _ ht _ ih ih' => exact fun hm => .sum (ih hm) ht (ih' hm)
  | simple _ ih => exact fun hm => .simple (ih hm)
  | relation _ ht _ ih ih' => exact fun hm => .relation (ih hm) ht (ih' hm)

theorem DerivesBlock.mono {symbol : Block} {os : List Outline} (h : DerivesBlock symbol n ts os) :
    ∀ {m}, n ≤ m → DerivesBlock symbol m ts os := by
  induction h with
  | compound hb _ he ih =>
    intro m hm
    obtain ⟨m, rfl⟩ : ∃ k, m = k + 1 := ⟨m - 1, by omega⟩
    exact .compound hb (ih (by omega)) he
  | block _ ih => exact fun hm => .block (ih hm)
  | assignment ht hs value => exact fun hm => .assignment ht hs (value.mono hm)
  | empty => exact fun _ => .empty
  | lastEmpty => exact fun _ => .lastEmpty
  | last _ hts ih => exact fun hm => .last (ih hm) hts
  | next _ hs _ ih ih' => exact fun hm => .next (ih hm) hs (ih' hm)

/-! ## The levels that are opened -/

/-- As `Derives`, where `levels` are open at once somewhere, and nowhere more. -/
inductive Opens : Nonterminal → Nat → List Token → Outline → Prop
  | operand {t : Token} {leaf : Leaf} (ht : t.asLeaf? = some leaf) :
      Opens .factor 0 [t] (.operand leaf)
  | negation {n : Nat} {t : Token} {ts o} (ht : t.kind = .notWord) (inner : Opens .factor n ts o) :
      Opens .factor (n + 1) (t :: ts) (.node .not [o])
  | parentheses {n : Nat} {l r : Token} {ts o} (hl : l.kind = .leftParen)
      (inner : Opens .expression n ts o) (hr : r.kind = .rightParen) :
      Opens .factor (n + 1) (l :: ts ++ [r]) o
  | factor {n : Nat} {ts o} (h : Opens .factor n ts o) : Opens .term n ts o
  | product {n m : Nat} {t : Token} {op ts us a b} (left : Opens .term n ts a)
      (ht : Operator .multiplicative t.kind op) (right : Opens .factor m us b) :
      Opens .term (max n m) (ts ++ t :: us) (.node op [a, b])
  | term {n : Nat} {ts o} (h : Opens .term n ts o) : Opens .simpleExpression n ts o
  | plus {n : Nat} {t : Token} {ts o} (ht : t.kind = .plus) (h : Opens .term n ts o) :
      Opens .simpleExpression n (t :: ts) o
  | minus {n : Nat} {t : Token} {ts o} (ht : t.kind = .minus) (h : Opens .term n ts o) :
      Opens .simpleExpression n (t :: ts) (.node .negate [o])
  | sum {n m : Nat} {t : Token} {op ts us a b} (left : Opens .simpleExpression n ts a)
      (ht : Operator .additive t.kind op) (right : Opens .term m us b) :
      Opens .simpleExpression (max n m) (ts ++ t :: us) (.node op [a, b])
  | simple {n : Nat} {ts o} (h : Opens .simpleExpression n ts o) : Opens .expression n ts o
  | relation {n m : Nat} {t : Token} {op ts us a b} (left : Opens .simpleExpression n ts a)
      (ht : Operator .relational t.kind op) (right : Opens .simpleExpression m us b) :
      Opens .expression (max n m) (ts ++ t :: us) (.node op [a, b])

/-- As `DerivesBlock`, with the levels counted as in `Opens`. -/
inductive OpensBlock : Block → Nat → List Token → List Outline → Prop
  | compound {n : Nat} {b e : Token} {ts os} (hb : b.kind = .beginWord)
      (body : OpensBlock .statements n ts os) (he : e.kind = .endWord) :
      OpensBlock .compound (n + 1) (b :: ts ++ [e]) [.node .compound os]
  | block {n : Nat} {ts os} (h : OpensBlock .compound n ts os) : OpensBlock .statement n ts os
  | assignment {n : Nat} {t s : Token} {us o} (ht : t.kind = .identifier) (hs : s.kind = .becomes)
      (value : Opens .expression n us o) :
      OpensBlock .statement n (t :: s :: us)
        [.node .assign [.operand (.variable (some t.name)), o]]
  | empty : OpensBlock .statement 0 [] [.node .noOp []]
  | lastEmpty : OpensBlock .statements 0 [] []
  | last {n : Nat} {ts os} (h : OpensBlock .statement n ts os) (hts : ts ≠ []) :
      OpensBlock .statements n ts os
  | next {n m : Nat} {s : Token} {ts os us vs} (h : OpensBlock .statement n ts os)
      (hs : s.kind = .semicolon) (rest : OpensBlock .statements m us vs) :
      OpensBlock .statements (max n m) (ts ++ s :: us) (os ++ vs)

inductive OpensProgram (levels : Nat) : List Token → Outline → Prop
  | program {d : Token} {ts o} (block : OpensBlock .compound levels ts [o]) (hd : d.kind = .dot) :
      OpensProgram levels (ts ++ [d]) o

/-- The levels that are opened are enough. -/
theorem Opens.derives {symbol : Nonterminal} {o : Outline} (h : Opens symbol n ts o) :
    Derives symbol n ts o := by
  induction h with
  | operand ht => exact .operand ht
  | negation ht _ ih => exact .negation ht ih
  | parentheses hl _ hr ih => exact .parentheses hl ih hr
  | factor _ ih => exact .factor ih
  | product _ ht _ ih ih' =>
    exact .product (ih.mono (Nat.le_max_left ..)) ht (ih'.mono (Nat.le_max_right ..))
  | term _ ih => exact .term ih
  | plus ht _ ih => exact .plus ht ih
  | minus ht _ ih => exact .minus ht ih
  | sum _ ht _ ih ih' =>
    exact .sum (ih.mono (Nat.le_max_left ..)) ht (ih'.mono (Nat.le_max_right ..))
  | simple _ ih => exact .simple ih
  | relation _ ht _ ih ih' =>
    exact .relation (ih.mono (Nat.le_max_left ..)) ht (ih'.mono (Nat.le_max_right ..))

theorem OpensBlock.derives {symbol : Block} {os : List Outline} (h : OpensBlock symbol n ts os) :
    DerivesBlock symbol n ts os := by
  induction h with
  | compound hb _ he ih => exact .compound hb ih he
  | block _ ih => exact .block ih
  | assignment ht hs value => exact .assignment ht hs value.derives
  | empty => exact .empty
  | lastEmpty => exact .lastEmpty
  | last _ hts ih => exact .last ih hts
  | next _ hs _ ih ih' =>
    exact .next (ih.mono (Nat.le_max_left ..)) hs (ih'.mono (Nat.le_max_right ..))

theorem OpensProgram.derives {o : Outline} (h : OpensProgram n ts o) (hm : n ≤ m) :
    DerivesProgram m ts o := by
  cases h with
  | program block hd => exact .program (block.derives.mono hm) hd

/-! ## Factors -/

theorem Opens.of_factor {o : Outline} (h : Opens .factor n ts o) : Opens .expression n ts o :=
  .simple (.term (.factor h))

/-- Any operator between two factors. -/
theorem Opens.binary {prec : Precedence} {t : Token} {op : NodeKind} {us : List Token}
    {a b : Outline} (ht : Operator prec t.kind op) (left : Opens .factor n ts a)
    (right : Opens .factor m us b) :
    Opens .expression (max n m) (ts ++ t :: us) (.node op [a, b]) := by
  cases prec with
  | multiplicative => exact .simple (.term (.product (.factor left) ht right))
  | additive => exact .simple (.sum (.term (.factor left)) ht (.factor right))
  | relational => exact .relation (.term (.factor left)) ht (.term (.factor right))

end PascalBlock.Grammar
