import Schemata.Derive.Report
import Schemata.Tree.Node

/-!
# Indexed accesses

`Base["key"]` and `Base["a"]["b"]` stand for the field of a declaration that was registered before.
A base that is not registered, a missing field and a deeper access are noted, and a marker stands
in for the expression.
-/

namespace Schemata

/-- Stands in for an access that cannot be resolved at all. -/
def accessErrorMarker : String := "IndexedAccessTypeError"

/-- Stands in for a field that does not exist. -/
def fieldErrorMarker : String := "IndexedAccessTypeAttributeNotFound"

def Kind.isReference : Kind → Bool
  | .typeIdentifier | .nestedTypeIdentifier | .genericType => true
  | _ => false

def Node.baseAndKey (node : Node) : Report (Node × Node) :=
  match node.parts with
  | base :: key :: _ => return (base, key)
  | parts => Report.fault (.shortLookup parts.length)

def failedAccess (node : Node) (message marker : String) : Report Expr := do
  Report.emit (.noted ⟨.indexedAccess, message, node.kind.name, node.line⟩)
  return .raw marker

def selectField (node : Node) (expr : Expr) (key : String) : Report Expr :=
  match expr.field? key with
  | some value => return value
  | none =>
    failedAccess node ("Property '" ++ key ++ "' not found in '" ++ node.text ++ "'.")
      fieldErrorMarker

/-- An access to a field of a registered declaration. -/
def resolveShallow (find : String → Option Expr) (node : Node) : Report Expr := do
  let (base, key) ← node.baseAndKey
  match find base.text with
  | none =>
    failedAccess node
      ("Error in IndexedAccessType. Expected the type '" ++ base.text ++
        "' that was indexed to already have been generated.")
      accessErrorMarker
  | some expr => selectField node expr (Text.unquote key.text)

def Expr.isMarker : Expr → Bool
  | .raw text => text == accessErrorMarker || text == fieldErrorMarker
  | _ => false

/-- An access to a field of a field of a registered declaration. -/
def resolveDeep (find : String → Option Expr) (node : Node) : Report Expr := do
  let (inner, key) ← node.baseAndKey
  let expr ← resolveShallow find inner
  if expr.isMarker then return expr else selectField node expr (Text.unquote key.text)

def resolveAccess (find : String → Option Expr) (node : Node) : Report Expr := do
  let (base, _) ← node.baseAndKey
  if base.kind.isReference then resolveShallow find node
  else
    let tooDeep := failedAccess node
      "Only indexed access types of depth 1 and 2 are supported." accessErrorMarker
    if base.kind == .lookupType then
      let (innerBase, _) ← base.baseAndKey
      if innerBase.kind.isReference then resolveDeep find node else tooDeep
    else tooDeep

end Schemata
