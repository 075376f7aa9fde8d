import Schemata.Grammar.Cursor

/-!
# Grammar rules

A grammar is data: a table of rules by name. A rule describes a stretch of text and the nodes that
the stretch becomes; alternatives are tried in order and the first that fits is taken. `Rule.step`
gives the meaning of one rule in terms of the meanings of its parts, and `Rule.run` iterates it, so
the number of iterations bounds the depth of nesting that is read.

Comments go to the innermost node that is open on both sides of them.
-/

namespace Schemata.Grammar

structure Setting where
  /-- A line may end the statement or member in which the rule stands. -/
  lineEnds : Bool
  /-- The rule stands in an expression, where an operator may follow. -/
  inExpression : Bool

inductive Rule (ν : Type) where
  /-- A lexeme. Unnamed ones are plain tokens. -/
  | leaf (named : Bool) (kind : Kind) (lexeme : Lexeme)
  /-- One rule after the other. -/
  | sequence (rules : List (Rule ν))
  /-- The first rule that fits. -/
  | choice (rules : List (Rule ν))
  /-- The rule as often as it fits. -/
  | many (rule : Rule ν)
  /-- Takes nothing, but requires that the rule fits. -/
  | ahead (rule : Rule ν)
  /-- Takes nothing, but requires that the rule does not fit. -/
  | absent (rule : Rule ν)
  /-- The rule with this name. -/
  | ref (name : ν)
  /-- A node that holds what the rule gives. -/
  | node (kind : Kind) (rule : Rule ν)
  /-- Gives a role to what the rule gives. -/
  | playing (role : Role) (rule : Rule ν)
  /-- A beginning that each fitting tail makes into a larger node, with its old self in the given
  role. One tail at most, unless they repeat. -/
  | chain (repeats : Bool) (first : Rule ν) (tails : List (Kind × Option Role × Rule ν))
  /-- The rule where a line may, or may not, end the statement. -/
  | lines (lineEnds : Bool) (rule : Rule ν)
  /-- The rule inside, or outside, of an expression. -/
  | expressing (inExpression : Bool) (rule : Rule ν)
  /-- Takes nothing, but requires that the place is outside of an expression. -/
  | outside
  /-- Takes nothing, but requires that no line ends the statement here. -/
  | joined
  /-- The end of a statement without a semicolon, with the comments on the rest of its line. -/
  | lineEnd (inSignature : Bool)

/-- The nodes of a stretch of text, and the place behind it. -/
abbrev Match := List Outline × Cursor

/-- The outline in the given role; a comment has none. -/
def inRole (role : Role) : Outline → Outline
  | .mk kind old start stop named missing flawed children =>
    .mk kind (if kind.isComment then old else some role) start stop named missing flawed children

namespace Rule

variable {ν : Type}

/-- What a rule, in its setting, finds at a place. -/
abbrev Reading (ν : Type) := Rule ν → Setting → Cursor → Option Match

/-- The lexeme at a place, behind the comments before it. -/
def readLeaf (named : Bool) (kind : Kind) (lexeme : Lexeme) (cursor : Cursor) : Option Match :=
  let gap := if lexeme.isGlued then ([], cursor) else cursor.skipGap
  (lexeme.length? gap.2.rest).map fun count =>
    let behind := gap.2.advance count
    (gap.1 ++ [.mk kind none gap.2.offset behind.offset named false false []], behind)

def readAll (read : Reading ν) (setting : Setting) : List (Rule ν) → Cursor → Option Match
  | [], cursor => some ([], cursor)
  | rule :: rest, cursor =>
    (read rule setting cursor).bind fun first =>
      (readAll read setting rest first.2).map fun others => (first.1 ++ others.1, others.2)

/-- The rule as often as it fits and takes something, at most `fuel` times. -/
def readMany (read : Reading ν) (setting : Setting) (rule : Rule ν) : Nat → Cursor → Match
  | 0, cursor => ([], cursor)
  | fuel + 1, cursor =>
    match read rule setting cursor with
    | none => ([], cursor)
    | some first =>
      if first.2.offset ≤ cursor.offset then ([], cursor)
      else
        let others := readMany read setting rule fuel first.2
        (first.1 ++ others.1, others.2)

/-- The larger node that the first fitting tail makes of the nodes read so far. -/
def readTail (read : Reading ν) (setting : Setting) (start : Nat) (left : List Outline)
    (cursor : Cursor) (tails : List (Kind × Option Role × Rule ν)) : Option Match :=
  tails.findSome? fun tail =>
    (read tail.2.2 setting cursor).map fun right =>
      let roled := match tail.2.1 with
        | some role => left.map (inRole role)
        | none => left
      ([.mk tail.1 none start right.2.stop true false false (roled ++ right.1)], right.2)

/-- The tails as often as one fits, at most `fuel` times. -/
def readTails (read : Reading ν) (setting : Setting) (start : Nat)
    (tails : List (Kind × Option Role × Rule ν)) : Nat → Match → Match
  | 0, left => left
  | fuel + 1, left =>
    match readTail read setting start left.1 left.2 tails with
    | none => left
    | some larger => readTails read setting start tails fuel larger

/-- What a rule finds at a place, given what the rules inside it and the named rules find.
Repetitions stop after `fuel` rounds. -/
def step (table : ν → Rule ν) (fuel : Nat) (read : Reading ν) : Reading ν
  | leaf named kind lexeme, _, cursor => readLeaf named kind lexeme cursor
  | sequence rules, setting, cursor => readAll read setting rules cursor
  | choice rules, setting, cursor => rules.findSome? fun rule => read rule setting cursor
  | many rule, setting, cursor => some (readMany read setting rule fuel cursor)
  | ahead rule, setting, cursor => (read rule setting cursor).map fun _ => ([], cursor)
  | absent rule, setting, cursor =>
    if (read rule setting cursor).isNone then some ([], cursor) else none
  | ref name, setting, cursor => read (table name) setting cursor
  | node kind rule, setting, cursor =>
    let gap := cursor.skipGap
    (read rule setting gap.2).map fun inner =>
      (gap.1 ++ [.mk kind none gap.2.offset inner.2.stop true false false inner.1], inner.2)
  | playing role rule, setting, cursor =>
    (read rule setting cursor).map fun inner => (inner.1.map (inRole role), inner.2)
  | chain repeats first tails, setting, cursor =>
    let gap := cursor.skipGap
    (read first setting gap.2).map fun left =>
      let larger := readTails read setting gap.2.offset tails (if repeats then fuel else 1) left
      (gap.1 ++ larger.1, larger.2)
  | lines lineEnds rule, setting, cursor => read rule { setting with lineEnds } cursor
  | expressing inExpression rule, setting, cursor => read rule { setting with inExpression } cursor
  | outside, setting, cursor => if setting.inExpression then none else some ([], cursor)
  | joined, setting, cursor =>
    if setting.lineEnds && endsHere setting.inExpression false cursor.skipOnLine.2.rest then none
    else some ([], cursor)
  | lineEnd inSignature, setting, cursor =>
    let gap := cursor.skipOnLine
    if endsHere setting.inExpression inSignature gap.2.rest then some gap else none

/-- What a rule finds at a place, with at most `fuel` rules open at a time. -/
def run (table : ν → Rule ν) : Nat → Reading ν
  | 0 => fun _ _ _ => none
  | fuel + 1 => step table fuel (run table fuel)

def token (text : String) : Rule ν := leaf false (.ofName text) (.symbol text)

def word (text : String) : Rule ν := leaf false (.ofName text) (.word text)

def operator (allowed : List String) : Rule ν :=
  leaf false (.ofName "operator") (.operator allowed)

def named (kind : String) (lexeme : Lexeme) : Rule ν := leaf true (.ofName kind) lexeme

def tree (kind : String) (rules : List (Rule ν)) : Rule ν := node (.ofName kind) (sequence rules)

/-- The rule behind the comments before it, which are skipped once for all alternatives. -/
def settled (rule : Rule ν) : Rule ν := chain false rule []

def optional (rule : Rule ν) : Rule ν := choice [rule, sequence []]

def commas (rule : Rule ν) : Rule ν := sequence [rule, many (sequence [token ",", rule])]

/-- Rules in brackets, where no line ends anything. -/
def enclosed (left : String) (rules : List (Rule ν)) (right : String) : Rule ν :=
  sequence [token left, lines false (sequence rules), token right]

/-- One of some words that modifies what follows on the line. A word with nothing to modify is a
name. -/
def modifier (texts : List String) (modified : Rule ν) : Rule ν :=
  sequence [choice (texts.map word), ahead (sequence [joined, modified])]

end Rule

end Schemata.Grammar
