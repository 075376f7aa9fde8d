import Schemata.Schema.Declaration
import Schemata.Derive.SelfReference
import Schemata.Derive.Type

/-!
# Statements

The declaration of each statement of a file. Aliases and interfaces become schema constants,
enumerations keep their members, namespaces are entered, functions and classes are kept as they are
and every other statement is noted and passed through. Only the declarations of the file itself,
and only those without type parameters, are registered for indexed accesses.
-/

namespace Schemata

def parameterNames (declaration : Node) : Report (List String) :=
  match declaration.child? .typeParameters with
  | none => return []
  | some list =>
    (list.parts.filter fun part => part.kind == .typeParameter).mapM fun part =>
      Report.require .noName ((part.child? .name).map Node.text)

/-- The expression of one type of an `extends` clause. -/
def heritageExpr (find : String → Option Expr) (node : Node) : Report Expr :=
  if node.kind == .genericType then do
    let callee ← nameText node.children
    return .apply callee (← argumentExprs find node.children)
  else return .ref node.text

/-- The expression of an `extends` clause: one type, or the intersection of several. -/
def heritageClause (find : String → Option Expr) (clause : Node) : Report Expr := do
  let exprs ← clause.parts.mapM (heritageExpr find)
  match exprs with
  | [expr] => return expr
  | _ => return .construct "Intersect" [.array exprs]

/-- Ends a schema declaration: generic ones need the bound of their parameters, the others are
registered if they stand in the file itself. -/
def schemaDeclaration (topLevel exported : Bool) (name : String) (parameters : List String)
    (body : Expr) : Report Declaration := do
  if !parameters.isEmpty then Report.emit .needsGenerics
  else if topLevel then Report.emit (.registered name body)
  return .schema name exported body parameters

def aliasDeclaration (find : String → Option Expr) (topLevel exported : Bool)
    (comment : Option Node) (node : Node) : Report Declaration := do
  Report.emit .needsSchema
  let name ← nameText node.children
  let parameters ← parameterNames node
  let body ← roleExpr find .value node.children
  let options ← docOptions comment
  let body ← withOptions node.label options body
  let body := if node.isSelfReferential then .recursive name body else body
  schemaDeclaration topLevel exported name parameters body

def interfaceFields (find : String → Option Expr) (node : Node) : Report (List (String × Expr)) :=
  match node.child? .body with
  | none => return []
  | some body => fieldExprs find none body.children

def interfaceDeclaration (find : String → Option Expr) (topLevel exported : Bool)
    (comment : Option Node) (node : Node) : Report Declaration := do
  Report.emit .needsSchema
  let name ← nameText node.children
  let parameters ← parameterNames node
  let heritage ← (node.children.filter fun child => child.kind == .extendsClause).mapM
    (heritageClause find)
  let fields ← interfaceFields find node
  let options ← docOptions comment
  let own ← withOptions node.label options (.construct "Object" [.object fields])
  let own := if node.isSelfReferential then .recursive name own else own
  let body := if heritage.isEmpty then own
    else .construct "Intersect" [.array (heritage ++ [own])]
  schemaDeclaration topLevel exported name parameters body

def enumDeclaration (exported : Bool) (node : Node) : Report Declaration := do
  Report.emit .needsSchema
  let name ← nameText node.children
  let members := ((node.child? .body).map Node.parts).getD []
  return .enumeration name exported (members.map Node.text)

def unsupportedStatement (label : Label) : Report (Option Declaration) := do
  noteUnsupported label
  return some (.verbatim label.text)

def scopeKeyword (kind : Kind) : String :=
  if kind == .internalModule then "namespace" else "module"

mutual

/-- The declaration of a statement, if it has one. The sibling before it, or before the export
around it, may be the comment that documents it. -/
def statement (find : String → Option Expr) (topLevel exported : Bool) (previous : Option Node) :
    Node → Report (Option Declaration)
  | .mk label children =>
    match label.kind with
    | .comment | .emptyStatement => return none
    | .functionDeclaration | .classDeclaration | .abstractClassDeclaration =>
      return some (.verbatim (if exported then "export " ++ label.text else label.text))
    | .typeAlias =>
      some <$> aliasDeclaration find topLevel exported (commentBefore previous)
        (.mk label children)
    | .interface =>
      some <$> interfaceDeclaration find topLevel exported (commentBefore previous)
        (.mk label children)
    | .enumeration => some <$> enumDeclaration exported (.mk label children)
    | .internalModule | .externalModule => do
      let name ← nameText children
      return some (.scope name exported (scopeKeyword label.kind) (← scopeBody find children))
    | .exportStatement =>
      (exportedStatement? find topLevel previous children).getD (unsupportedStatement label)
    | .expressionStatement =>
      match children.filter Node.isPart with
      | [part] =>
        if part.kind == .internalModule then onlyPart find exported children
        else unsupportedStatement label
      | _ => unsupportedStatement label
    | _ => unsupportedStatement label

def exportedStatement? (find : String → Option Expr) (topLevel : Bool) (previous : Option Node) :
    List Node → Option (Report (Option Declaration))
  | [] => none
  | node :: rest =>
    if node.label.role == some .declaration then some (statement find topLevel true previous node)
    else exportedStatement? find topLevel previous rest

/-- The declaration of the first part, which is a namespace. -/
def onlyPart (find : String → Option Expr) (exported : Bool) :
    List Node → Report (Option Declaration)
  | [] => return none
  | node :: rest =>
    if node.isPart then statement find false exported none node else onlyPart find exported rest

def scopeBody (find : String → Option Expr) : List Node → Report (List Declaration)
  | [] => return []
  | .mk label children :: rest =>
    if label.role == some .body then scopeStatements find none children else scopeBody find rest

/-- The declarations of the statements in a namespace, given the child before the first one. -/
def scopeStatements (find : String → Option Expr) (previous : Option Node) :
    List Node → Report (List Declaration)
  | [] => return []
  | node :: rest =>
    if node.label.named then do
      let declaration ← statement find false false previous node
      let declarations ← scopeStatements find (some node) rest
      return declaration.toList ++ declarations
    else scopeStatements find (some node) rest

end

/-- What is derived from a file: its declarations and the registry after the last one. -/
structure DerivedFile where
  declarations : List Declaration
  registry : Registry

/-- Derives the declarations of the children of a file from a registry on, given the child before
the first one. Each statement sees what the statements before it registered. -/
def statements (registry : Registry) (previous : Option Node) : List Node → Report DerivedFile
  | [] => return ⟨[], registry⟩
  | node :: rest =>
    if node.label.named then
      let report := statement registry.get? true false previous node
      do
        let declaration ← report
        let tail ← statements (registry.apply report.events) (some node) rest
        return ⟨declaration.toList ++ tail.declarations, tail.registry⟩
    else statements registry (some node) rest

def deriveFile (root : Node) : Report DerivedFile := statements .empty none root.children

def Event.isNeedsSchema : Event → Bool
  | .needsSchema => true
  | _ => false

def Event.isNeedsGenerics : Event → Bool
  | .needsGenerics => true
  | _ => false

/-- The module of derived declarations, with the needs reported on the way. -/
def moduleOf (declarations : List Declaration) (events : List Event) : Module :=
  ⟨declarations, events.any Event.isNeedsSchema, events.any Event.isNeedsGenerics⟩

end Schemata
