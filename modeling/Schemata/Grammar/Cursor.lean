import Schemata.Grammar.Lexeme

/-!
# Places in a text

A cursor is a place in a source text. Blanks and comments stand between the lexemes; a comment
becomes a node of its own. A line may end a statement without a semicolon: whether it does depends
on what comes first on the lines that follow.
-/

namespace Schemata.Grammar

structure Cursor where
  /-- The text that is still to be read. -/
  rest : List Char
  /-- The offset in bytes of the rest. -/
  offset : Nat
  /-- The offset in bytes at which the last lexeme ended. -/
  stop : Nat

namespace Cursor

def bytes (chars : List Char) : Nat := chars.foldl (fun total c => total + c.utf8Size) 0

def ofString (text : String) : Cursor := ⟨text.toList, 0, 0⟩

def advance (cursor : Cursor) (count : Nat) : Cursor :=
  let offset := cursor.offset + bytes (cursor.rest.take count)
  ⟨cursor.rest.drop count, offset, offset⟩

end Cursor

def commentNode (start stop : Nat) : Outline := .mk .comment none start stop true false false []

/-- What is being skipped between two lexemes. A comment remembers the place where it starts. -/
inductive Skipping where
  | blanks
  | line (start : Nat)
  | block (opening : Cursor)

def endsLine (c : Char) : Bool :=
  c == '\n' || c == '\r' || c.toNat == 0x2028 || c.toNat == 0x2029

/-- The comments in front of the next lexeme, and the place of that lexeme. Blanks are skipped as
far as they satisfy the test. A block comment that is never closed is not skipped. The last offset
is the end of the last lexeme or comment. -/
def skip (isBlank : Char → Bool) :
    Skipping → (offset stop : Nat) → List Char → List Outline × Cursor
  | .blanks, offset, stop, '/' :: '/' :: rest => skip isBlank (.line offset) (offset + 2) stop rest
  | .blanks, offset, stop, '/' :: '*' :: rest =>
    skip isBlank (.block ⟨'/' :: '*' :: rest, offset, stop⟩) (offset + 2) stop rest
  | .blanks, offset, stop, c :: rest =>
    if isBlank c then skip isBlank .blanks (offset + c.utf8Size) stop rest
    else ([], ⟨c :: rest, offset, stop⟩)
  | .blanks, offset, stop, [] => ([], ⟨[], offset, stop⟩)
  | .line start, offset, stop, c :: rest =>
    if endsLine c then
      let found := if isBlank c then skip isBlank .blanks (offset + c.utf8Size) offset rest
        else ([], ⟨c :: rest, offset, offset⟩)
      (commentNode start offset :: found.1, found.2)
    else skip isBlank (.line start) (offset + c.utf8Size) stop rest
  | .line start, offset, _, [] => ([commentNode start offset], ⟨[], offset, offset⟩)
  | .block opening, offset, _, '*' :: '/' :: rest =>
    let found := skip isBlank .blanks (offset + 2) (offset + 2) rest
    (commentNode opening.offset (offset + 2) :: found.1, found.2)
  | .block opening, offset, stop, c :: rest =>
    skip isBlank (.block opening) (offset + c.utf8Size) stop rest
  | .block opening, _, _, [] => ([], opening)

namespace Cursor

/-- The comments in front of the next lexeme, and the place of that lexeme. Comments do not count as
lexemes here. -/
def skipGap (cursor : Cursor) : List Outline × Cursor :=
  let found := skip isGap .blanks cursor.offset cursor.stop cursor.rest
  (found.1, { found.2 with stop := cursor.stop })

/-- The comments on the rest of the line, and the place behind them. -/
def skipOnLine (cursor : Cursor) : List Outline × Cursor :=
  skip (fun c => isSpace c && c != '\n') .blanks cursor.offset cursor.stop cursor.rest

end Cursor

/-- Whether a statement may end before a line that starts like this. In an expression a bracket
continues the statement, in a signature a brace does. -/
def mayStart (inExpression inSignature : Bool) : List Char → Bool
  | [] => true
  | c :: rest =>
    if "`,.;*%><=?^|&/:".toList.contains c then false
    else if c == '(' || c == '[' then !inExpression
    else if c == '\x7b' then !inSignature
    else if c == '+' || c == '-' then rest.head? == some c
    else if c == '!' then rest.head? != some '='
    else (Lexeme.length? (.word "in") (c :: rest)).isNone &&
      (Lexeme.length? (.word "instanceof") (c :: rest)).isNone

/-- Whether a statement without a semicolon ends at this place, comments on the rest of the line
left aside: at the end of the text, before a closing brace, and before a line whose first lexeme
cannot continue it. -/
def endsHere (inExpression inSignature : Bool) (rest : List Char) : Bool :=
  match rest.dropWhile fun c => isSpace c && c != '\n' with
  | [] => true
  | '\x7d' :: behind => (behind.dropWhile isSpace).head? != some ':' || inExpression
  | '\n' :: behind =>
    mayStart inExpression inSignature (skip isSpace .blanks 0 0 behind).2.rest
  | _ => false

end Schemata.Grammar
