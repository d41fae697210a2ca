/-!
# Kinds of token

The special symbols and the reserved words have a kind each; identifiers, numbers, strings and the
end of the text have one kind for all of theirs.
-/

namespace PascalBlock

inductive TokenKind where
  | endOfText | identifier | integer | real | string
  | plus | minus | star | slash | becomes | dot | dotDot | comma | semicolon | colon | upArrow
  | equals | notEquals | lessThan | lessEquals | greaterEquals | greaterThan
  | leftParen | rightParen | leftBracket | rightBracket
  | andWord | arrayWord | beginWord | caseWord | constWord | divWord | doWord | downtoWord
  | elseWord | endWord | fileWord | forWord | functionWord | gotoWord | ifWord | inWord | labelWord
  | modWord | nilWord | notWord | ofWord | orWord | packedWord | procedureWord | programWord
  | recordWord | repeatWord | setWord | thenWord | toWord | typeWord | untilWord | varWord
  | whileWord | withWord
deriving DecidableEq, Repr

namespace TokenKind

/-- Every kind with its name in messages. -/
def names : List (TokenKind × String) := [
  (endOfText, "EOF"), (identifier, "Identifier"), (integer, "Integer"), (real, "Real"),
  (string, "String"), (plus, "Plus"), (minus, "Minus"), (star, "Star"), (slash, "Slash"),
  (becomes, "ColonEquals"), (dot, "Dot"), (dotDot, "DotDot"), (comma, "Comma"),
  (semicolon, "Semicolon"), (colon, "Colon"), (upArrow, "UpArrow"), (equals, "Equals"),
  (notEquals, "NotEquals"), (lessThan, "LessThan"), (lessEquals, "LessEquals"),
  (greaterEquals, "GreaterEquals"), (greaterThan, "GreaterThan"), (leftParen, "LeftParen"),
  (rightParen, "RightParen"), (leftBracket, "LeftBracket"), (rightBracket, "RightBracket"),
  (andWord, "And"), (arrayWord, "Array"), (beginWord, "Begin"), (caseWord, "Case"),
  (constWord, "Const"), (divWord, "Div"), (doWord, "Do"), (downtoWord, "Downto"),
  (elseWord, "Else"), (endWord, "End"), (fileWord, "File"), (forWord, "For"),
  (functionWord, "Function"), (gotoWord, "Goto"), (ifWord, "If"), (inWord, "In"),
  (labelWord, "Label"), (modWord, "Mod"), (nilWord, "Nil"), (notWord, "Not"), (ofWord, "Of"),
  (orWord, "Or"), (packedWord, "Packed"), (procedureWord, "Procedure"), (programWord, "Program"),
  (recordWord, "Record"), (repeatWord, "Repeat"), (setWord, "Set"), (thenWord, "Then"),
  (toWord, "To"), (typeWord, "Type"), (untilWord, "Until"), (varWord, "Var"),
  (whileWord, "While"), (withWord, "With")]

/-- The name of a kind. -/
def name (k : TokenKind) : String := (names.lookup k).getD ""

/-- The kind of a name. -/
def ofName? (s : String) : Option TokenKind := (names.find? (·.2 == s)).map (·.1)

/-- Whether the spelling varies from token to token, apart from case. -/
def isOpen : TokenKind → Bool
  | .string | .identifier | .integer | .real => true
  | _ => false

/-- The reserved words, in small letters. -/
def reservedWords : List (String × TokenKind) := [
  ("and", andWord), ("array", arrayWord), ("begin", beginWord), ("case", caseWord),
  ("const", constWord), ("div", divWord), ("do", doWord), ("downto", downtoWord),
  ("else", elseWord), ("end", endWord), ("file", fileWord), ("for", forWord),
  ("function", functionWord), ("goto", gotoWord), ("if", ifWord), ("in", inWord),
  ("label", labelWord), ("mod", modWord), ("nil", nilWord), ("not", notWord), ("of", ofWord),
  ("or", orWord), ("packed", packedWord), ("procedure", procedureWord), ("program", programWord),
  ("record", recordWord), ("repeat", repeatWord), ("set", setWord), ("then", thenWord),
  ("to", toWord), ("type", typeWord), ("until", untilWord), ("var", varWord),
  ("while", whileWord), ("with", withWord)]

/-- The kind of a word that is reserved; the word is asked for as it is. -/
def ofReserved? (word : String) : Option TokenKind := reservedWords.lookup word

/-- The special symbols. A symbol comes before those it begins with. -/
def symbols : List (String × TokenKind) := [
  (":=", becomes), ("<>", notEquals), ("<=", lessEquals), (">=", greaterEquals), ("..", dotDot),
  ("+", plus), ("-", minus), ("*", star), ("/", slash), ("=", equals), ("<", lessThan),
  (">", greaterThan), ("(", leftParen), (")", rightParen), ("[", leftBracket),
  ("]", rightBracket), (".", dot), (",", comma), (";", semicolon), (":", colon), ("^", upArrow)]

end TokenKind

end PascalBlock
