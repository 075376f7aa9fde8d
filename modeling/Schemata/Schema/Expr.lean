import Schemata.Json.Basic

/-!
# Schema expressions

An expression is what stands on the right of a generated constant: calls of the schema
constructors, references to other constants, calls of generic constants, object and array
arguments, and text that is passed through. A call may carry options, in order.
-/

namespace Schemata

/-- The value of a schema option: a literal, or text that is emitted as it is. -/
inductive OptionValue where
  | literal (value : Json)
  | raw (text : String)
  deriving Repr, Inhabited

/-- Schema options in order, each name once. -/
abbrev Options := List (String × OptionValue)

/-- The first options updated by the second: known names keep their place. -/
def Options.update (options more : Options) : Options :=
  more.foldl (fun acc (name, value) => setEntry name value acc) options

inductive Expr where
  /-- A schema constructor with its arguments and options. -/
  | call (name : String) (args : List Expr) (options : Options)
  /-- A reference to a constant or a type parameter. -/
  | ref (name : String)
  /-- A generic constant applied to arguments. -/
  | apply (callee : String) (args : List Expr)
  /-- Text that is passed through. -/
  | raw (text : String)
  | array (items : List Expr)
  /-- An object argument; a member that is passed through has an empty name. -/
  | object (fields : List (String × Expr))
  /-- A fixed point that binds a name to the schema being built. -/
  | recursive (name : String) (body : Expr)
  /-- No expression at all. -/
  | absent
  /-- An expression of no known form, which cannot be rendered. -/
  | bare
  deriving Inhabited

namespace Expr

/-- A constructor without arguments and options. -/
def constant (name : String) : Expr := .call name [] []

def construct (name : String) (args : List Expr) : Expr := .call name args []

def isPresent : Expr → Bool
  | .absent => false
  | _ => true

def children : Expr → List Expr
  | .array items => items
  | .call _ args _ => args
  | .apply _ args => args
  | .object fields => (fields.map Prod.snd).filter isPresent
  | .recursive _ body => [body].filter isPresent
  | _ => []

/-- The wrappers that carry no options themselves. -/
def isWrapper (name : String) : Bool :=
  name == "Optional" || name == "Readonly" || name == "ReadonlyOptional"

/-- Adds options to the outermost constructor that carries some, inside fixed points and
wrappers. -/
def addOptions (options : Options) : Expr → Option Expr
  | .recursive name body =>
    if body.isPresent then (addOptions options body).map (.recursive name) else none
  | .call name (first :: rest) own =>
    if isWrapper name then
      (addOptions options first).map fun inner => .call name (inner :: rest) own
    else some (.call name (first :: rest) (own.update options))
  | .call name [] own => some (.call name [] (own.update options))
  | _ => none

/-- Attaches options to an expression; no options change nothing. Without a constructor to carry
them there is no result. -/
def attach (options : Options) (expr : Expr) : Option Expr :=
  if options.isEmpty then some expr else expr.addOptions options

mutual

/-- The fields of all object arguments reached through arguments, items and fixed points, in order
of occurrence, with their names unquoted. Field values are not searched. -/
def fieldList : Expr → List (String × Expr)
  | .object fields =>
    (fields.filter fun field => field.2.isPresent).map fun field => (Text.unquote field.1, field.2)
  | .array items => fieldLists items
  | .call _ args _ => fieldLists args
  | .apply _ args => fieldLists args
  | .recursive _ body => fieldList body
  | _ => []

def fieldLists : List Expr → List (String × Expr)
  | [] => []
  | expr :: rest => fieldList expr ++ fieldLists rest

end

/-- The field map of an expression: a later field of the same name replaces an earlier one. -/
def fields (expr : Expr) : List (String × Expr) := entriesOf expr.fieldList

/-- The field that an indexed access selects. -/
def field? (expr : Expr) (key : String) : Option Expr := valueAt? key expr.fields

/-- Wraps an expression for the read-only and optional marks of a property. -/
def withModifiers (expr : Expr) (readonly optional : Bool) : Expr :=
  match readonly, optional with
  | true, true => construct "ReadonlyOptional" [expr]
  | true, false => construct "Readonly" [expr]
  | false, true => construct "Optional" [expr]
  | false, false => expr

end Expr

end Schemata
