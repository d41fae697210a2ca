import PascalBlock.Token.Basic

/-!
# A cursor over tokens

There is always a token under the cursor: one of those ahead, or at last the one that ends the text,
on which the cursor stays. An end token may also stand among those ahead; the cursor can go past
such a one.
-/

namespace PascalBlock

structure Cursor where
  /-- The tokens from the current one on, without the last. -/
  ahead : List Token
  last : Token
  count : Nat
  last_kind : last.kind = .endOfText
  count_eq : count = ahead.length
deriving DecidableEq

namespace Cursor

/-- At the first of `tokens`. A list that does not end with an end token gets one, on the line and
at the end of its last token, or at the start of the file. -/
def ofTokens (tokens : List Token) (file : String) : Cursor :=
  match tokens.getLast? with
  | none => ⟨[], .endAt 1 ⟨file, 0⟩, 0, rfl, rfl⟩
  | some t =>
    if h : t.kind = .endOfText then ⟨tokens.dropLast, t, tokens.dropLast.length, h, rfl⟩
    else ⟨tokens, .endAt t.line t.stop, tokens.length, rfl, rfl⟩

/-- The token under the cursor. -/
def current (c : Cursor) : Token := c.ahead.headD c.last

def kind (c : Cursor) : TokenKind := c.current.kind

/-- On to the next token. -/
def advance (c : Cursor) : Cursor :=
  ⟨c.ahead.tail, c.last, c.count - 1, c.last_kind, by simp [c.count_eq]⟩

/-- Whether the end of the text is reached. -/
def atEnd (c : Cursor) : Bool := c.kind == .endOfText

end Cursor

end PascalBlock
