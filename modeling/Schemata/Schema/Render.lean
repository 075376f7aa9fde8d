import Schemata.Schema.Declaration
import Schemata.Json.Writer
import Schemata.Text.Blank
import Schemata.Text.Line
import Schemata.Text.Word

/-!
# Rendering

Expressions and declarations as code. Object arguments put each field on a line of its own, two
blanks deeper than the argument; a namespace indents everything inside it by two blanks.
-/

namespace Schemata

inductive RenderError where
  | unknownExpr
  | unknownDeclaration
  deriving DecidableEq, Repr

def RenderError.message : RenderError → String
  | .unknownExpr => "Unknown expression type: Expr"
  | .unknownDeclaration => "Unknown declaration type: Declaration"

/-- The blanks in front of a line at some depth; none at a negative depth. -/
def indentation (level : Int) : String := String.ofList (List.replicate (2 * level.toNat) ' ')

/-- An option name as it stands in an object: plain names as they are, others quoted. -/
def renderKey (key : String) : String :=
  if Text.isIdentifier key then key else Json.quote true key

/-- The code of an option value. Strings keep all their characters, other literals do not. -/
def OptionValue.render : OptionValue → String
  | .raw text => text
  | .literal (.str text) => Json.quote false text
  | .literal (.broken points) => Json.quotePoints false points
  | .literal value => value.write true

/-- The code of options, as the last argument of a constructor. -/
def Options.render (options : Options) : String :=
  "\x7b " ++
    ", ".intercalate (options.map fun (name, value) => renderKey name ++ ": " ++ value.render) ++
    " \x7d"

namespace Expr

/-- The line of a field: without a name only the value stands there. -/
def fieldLine (level : Int) (name value : String) : String :=
  indentation (level + 1) ++ (if name == "" then value else name ++ ": " ++ value)

mutual

/-- The code of an expression; `level` counts the object arguments around it. -/
def render (level : Int) : Expr → Except RenderError String
  | .absent => .ok ""
  | .bare => .error .unknownExpr
  | .ref name => .ok name
  | .raw text => .ok text
  | .call name args options => do
    let args ← renderAll level args
    let args := if options.isEmpty then args else args ++ [options.render]
    return "Type." ++ name ++ "(" ++ ", ".intercalate args ++ ")"
  | .apply callee args => do
    return callee ++ "(" ++ ", ".intercalate (← renderAll level args) ++ ")"
  | .array items => do
    return "[" ++ ", ".intercalate (← renderAll level items) ++ "]"
  | .object fields => do
    let lines ← renderFields level fields
    if lines.isEmpty then return "\x7b\x7d"
    else return "\x7b\n" ++ ",\n".intercalate lines ++ "\n" ++ indentation level ++ "\x7d"
  | .recursive name body => do
    return "Type.Recursive(" ++ name ++ " => " ++ (← render level body) ++ ")"

def renderAll (level : Int) : List Expr → Except RenderError (List String)
  | [] => .ok []
  | expr :: rest => do
    let text ← render level expr
    return text :: (← renderAll level rest)

def renderFields (level : Int) : List (String × Expr) → Except RenderError (List String)
  | [] => .ok []
  | (name, value) :: rest => do
    let text ← render (level + 1) value
    return fieldLine level name text :: (← renderFields level rest)

end

end Expr

/-- The lines of a text, each but the empty ones moved two blanks to the right. -/
def indentLines (text : String) : String :=
  Text.join "\n" ((Text.lineTexts text).map fun line => if line == "" then line else "  " ++ line)

def exportWord (exported : Bool) : String := if exported then "export " else ""

def staticLine (name : String) (exported : Bool) (parameters : List String) : String :=
  if parameters.isEmpty then
    exportWord exported ++ "type " ++ name ++ " = Static<typeof " ++ name ++ ">"
  else
    exportWord exported ++ "type " ++ name ++ "<" ++
      ", ".intercalate (parameters.map (· ++ " extends TSchema")) ++
      "> = Static<ReturnType<typeof " ++ name ++ "<" ++ ", ".intercalate parameters ++ ">>>"

def valueLines (name : String) (exported : Bool) (parameters : List String) (body : String) :
    String :=
  exportWord exported ++ "const " ++ name ++ " = " ++
    (if parameters.isEmpty then body
    else
      "<" ++ ", ".intercalate (parameters.map (· ++ " extends TSchema")) ++ ">(" ++
        ", ".intercalate (parameters.map fun p => p ++ ": " ++ p) ++ ") => " ++ body)

def enumerationText (name : String) (exported : Bool) (members : List String) : String :=
  let list := ", ".intercalate members
  exportWord exported ++ "enum " ++ name ++ "Enum " ++
    (if list == "" then "\x7b\x7d" else "\x7b " ++ list ++ " \x7d") ++ "\n\n" ++
    exportWord exported ++ "const " ++ name ++ " = Type.Enum(" ++ name ++ "Enum)"

def scopeText (name : String) (exported : Bool) (keyword body : String) : String :=
  let inner := indentLines body
  exportWord exported ++ keyword ++ " " ++ name ++ " \x7b\n" ++
    (if inner == "" then "" else inner ++ "\n") ++ "\x7d"

namespace Declaration

mutual

def render : Declaration → Except RenderError String
  | .schema name exported body parameters => do
    let text ← body.render 0
    return staticLine name exported parameters ++ "\n" ++ valueLines name exported parameters text
  | .enumeration name exported members => .ok (enumerationText name exported members)
  | .scope name exported keyword body => do
    return scopeText name exported keyword (Text.join "\n\n" (← renderAll body))
  | .verbatim text => .ok text
  | .bare => .error .unknownDeclaration

def renderAll : List Declaration → Except RenderError (List String)
  | [] => .ok []
  | declaration :: rest => do
    let text ← render declaration
    return text :: (← renderAll rest)

end

end Declaration

def importNames (usesSchema usesGenerics : Bool) : List String :=
  if usesSchema then
    if usesGenerics then ["Type", "Static", "TSchema"] else ["Type", "Static"]
  else []

/-- The import header; empty if nothing has to be brought in. -/
def importHeader (library : String) (names : List String) : String :=
  if names.isEmpty then ""
  else Text.trim
    ("import \x7b " ++ ", ".intercalate names ++ " \x7d from '" ++ library ++ "'")

namespace Module

def header (library : String) (module : Module) : String :=
  importHeader library (importNames module.usesSchema module.usesGenerics)

/-- The code of a file: the import header and the declarations, with blank lines between them. -/
def render (library : String) (module : Module) : Except RenderError String := do
  let blocks ← Declaration.renderAll module.declarations
  return Text.join "\n\n" ((module.header library :: blocks).filter (· != "")) ++ "\n"

end Module

/-- The lines above the import header: the comment, if there is one. -/
def commentLines (comment : String) : String := if comment == "" then "" else comment ++ "\n"

end Schemata
