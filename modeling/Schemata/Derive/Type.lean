import Schemata.Doc.Tag
import Schemata.Derive.IndexedAccess

/-!
# Types

The schema expression of a type. Keyword types and the built-in generic types have constructors of
their own; other names become references. Unions and intersections are flattened, an omitted
annotation means any type, and a type without a counterpart is noted and passed through.
-/

namespace Schemata

def keywordConstructor? (keyword : String) : Option String :=
  valueAt? keyword
    [("string", "String"), ("number", "Number"), ("boolean", "Boolean"), ("bigint", "BigInt"),
      ("any", "Any"), ("unknown", "Unknown"), ("never", "Never"), ("undefined", "Undefined"),
      ("void", "Void"), ("null", "Null"), ("symbol", "Symbol")]

/-- The generic types that have a constructor of the same name. -/
def builtinGenerics : List String :=
  ["Array", "Record", "Partial", "Required", "Omit", "Pick", "Promise", "ReturnType",
    "InstanceType", "Parameters", "ConstructorParameters", "Exclude", "Extract"]

def noteUnsupported (label : Label) : Report Unit :=
  Report.emit (unsupported label.kind.name label.line)

def passThrough (label : Label) : Report Expr := do
  noteUnsupported label
  return .raw label.text

def keywordType (label : Label) : Report Expr :=
  match keywordConstructor? label.text with
  | some name => return .constant name
  | none => passThrough label

def namedType (name : String) : Expr :=
  match keywordConstructor? name with
  | some constructor => .constant constructor
  | none =>
    if name == "Uint8Array" then .constant "Uint8Array"
    else if builtinGenerics.contains name then .raw ("Type." ++ name)
    else .ref name

def literalType (text : String) : Expr :=
  if text == "null" then .constant "Null"
  else if text == "undefined" then .constant "Undefined"
  else .construct "Literal" [.raw text]

def genericType (name : String) (args : List Expr) : Expr :=
  if builtinGenerics.contains name then .construct name args else .apply name args

/-- The schema options in a comment; tags that get lost are noted at the comment. -/
def docOptions (comment : Option Node) : Report Options :=
  match comment with
  | none => return []
  | some node => do
    (Doc.lostNames node.text).forM fun name =>
      Report.emit (.noted ⟨.optionsIgnored,
        "Documentation tag @" ++ name ++ " ignored: write one tag per line.", node.kind.name,
        node.line⟩)
    match Doc.options node.text with
    | .ok options => return options
    | .error limit => Report.fault (.digitLimit limit.count)

def commentBefore (previous : Option Node) : Option Node :=
  previous.filter fun node => node.kind.isComment

/-- Attaches the options of a documented node to its expression; if nothing can carry them they are
noted at the node. -/
def withOptions (label : Label) (options : Options) (expr : Expr) : Report Expr :=
  if options.isEmpty then return expr
  else
    match expr.attach options with
    | some result => return result
    | none => do
      Report.emit (.noted ⟨.optionsIgnored,
        "Documentation tags " ++ ", ".intercalate (options.map Prod.fst) ++ " ignored: '" ++
          String.ofList (label.text.toList.take 40) ++
          "' has no TypeBox constructor to carry them.",
        label.kind.name, label.line⟩)
      return expr

def nameText (children : List Node) : Report String :=
  Report.require .noName
    ((children.find? fun child => child.label.role == some .name).map Node.text)

/-- What an omitted annotation stands for. -/
def anyType : Expr := .constant "Any"

/-- The reading that is there; without one it is any type. -/
def orAny : Option (Report Expr) → Report Expr
  | none => return anyType
  | some report => report

def holdsToken (children : List Node) (token : String) : Bool :=
  children.any fun child => !child.label.named && child.kind.name == token

mutual

def typeExpr (find : String → Option Expr) : Node → Report Expr
  | .mk label children =>
    match label.kind with
    | .predefinedType => keywordType label
    | .typeIdentifier => return namedType label.text
    | .nestedTypeIdentifier => return .ref label.text
    | .literalType => return literalType label.text
    | .restType => return .constant "Rest"
    | .lookupType => resolveAccess find (.mk label children)
    | .genericType => do
      let name ← nameText children
      if name == "Uint8Array" then return .constant "Uint8Array"
      else return genericType name (← argumentExprs find children)
    | .arrayType => do return .construct "Array" [← firstExpr find children]
    | .keyofType => do return .construct "KeyOf" [← firstExpr find children]
    | .readonlyType => do return .construct "Readonly" [← firstExpr find children]
    | .optionalType => do return .construct "Optional" [← firstExpr find children]
    | .parenthesizedType => firstExpr find children
    | .tupleType => do return .construct "Tuple" [.array (← partExprs find children)]
    | .unionType => do
      return .construct "Union" [.array (← memberExprs find .unionType children)]
    | .intersectionType => do
      return .construct "Intersect" [.array (← memberExprs find .intersectionType children)]
    | .objectType => do return .construct "Object" [.object (← fieldExprs find none children)]
    | .functionType => do
      let parameters ← parameterExprs find children
      return .construct "Function" [.array parameters, ← orAny
        (roleExpr? find .returnType children <|> roleExpr? find .type children <|>
          lastExpr? find children)]
    | .constructorType => do
      let parameters ← parameterExprs find children
      return .construct "Constructor" [.array parameters, ← orAny
        (roleExpr? find .returnType children <|> roleExpr? find .type children <|>
          lastExpr? find children)]
    | .conditionalType => do
      let left ← roleExpr find .left children
      let right ← roleExpr find .right children
      let consequence ← roleExpr find .consequence children
      return .construct "Extends"
        [left, right, consequence, ← roleExpr find .alternative children]
    | .requiredParameter =>
      orAny (annotationExpr? find children <|> looseAnnotationExpr? find children)
    | .optionalParameter => do
      return .construct "Optional"
        [← orAny (annotationExpr? find children <|> looseAnnotationExpr? find children)]
    | _ => passThrough label

def firstExpr (find : String → Option Expr) : List Node → Report Expr
  | [] => Report.fault .noPart
  | node :: rest => if node.isPart then typeExpr find node else firstExpr find rest

def partExprs (find : String → Option Expr) : List Node → Report (List Expr)
  | [] => return []
  | node :: rest =>
    if node.isPart then do
      let expr ← typeExpr find node
      return expr :: (← partExprs find rest)
    else partExprs find rest

/-- The expression of the child with a role; without one it is any type. -/
def roleExpr (find : String → Option Expr) (role : Role) : List Node → Report Expr
  | [] => return anyType
  | node :: rest =>
    if node.label.role == some role then typeExpr find node else roleExpr find role rest

def argumentExprs (find : String → Option Expr) : List Node → Report (List Expr)
  | [] => return []
  | .mk label children :: rest =>
    if label.role == some .typeArguments then partExprs find children
    else argumentExprs find rest

/-- The expression inside the annotation that has the role of a type. -/
def annotationExpr? (find : String → Option Expr) : List Node → Option (Report Expr)
  | [] => none
  | .mk label children :: rest =>
    if label.role == some .type then some (firstExpr find children) else annotationExpr? find rest

/-- The expression inside the first annotation, whatever its role. -/
def looseAnnotationExpr? (find : String → Option Expr) : List Node → Option (Report Expr)
  | [] => none
  | .mk label children :: rest =>
    if label.named && label.kind == .typeMark then some (firstExpr find children)
    else looseAnnotationExpr? find rest

def parameterExprs (find : String → Option Expr) : List Node → Report (List Expr)
  | [] => return []
  | .mk label children :: rest =>
    if label.role == some .parameters then parameterTypes find children
    else parameterExprs find rest

/-- The types of parameters; a parameter without annotation has any type. -/
def parameterTypes (find : String → Option Expr) : List Node → Report (List Expr)
  | [] => return []
  | .mk label children :: rest =>
    if label.named && !label.kind.isComment then do
      let expr ← orAny (annotationExpr? find children)
      return expr :: (← parameterTypes find rest)
    else parameterTypes find rest

def roleExpr? (find : String → Option Expr) (role : Role) : List Node → Option (Report Expr)
  | [] => none
  | node :: rest =>
    if node.label.role == some role then some (typeExpr find node) else roleExpr? find role rest

/-- The expression of the last part that is no list of parameters. -/
def lastExpr? (find : String → Option Expr) : List Node → Option (Report Expr)
  | [] => none
  | node :: rest =>
    lastExpr? find rest <|>
      (if node.isPart && node.kind != .formalParameters && node.kind != .typeParameters then
        some (typeExpr find node)
      else none)

/-- The expressions of the members of a union or an intersection; nodes of the same kind directly
inside count as their members. -/
def memberExprs (find : String → Option Expr) (kind : Kind) : List Node → Report (List Expr)
  | [] => return []
  | .mk label children :: rest =>
    if label.named && !label.kind.isComment then
      if label.kind == kind then do
        let exprs ← memberExprs find kind children
        return exprs ++ (← memberExprs find kind rest)
      else do
        let expr ← typeExpr find (.mk label children)
        return expr :: (← memberExprs find kind rest)
    else memberExprs find kind rest

/-- The fields of an object type, given the child before the first one. A member that is no
property is noted and passed through. -/
def fieldExprs (find : String → Option Expr) (previous : Option Node) :
    List Node → Report (List (String × Expr))
  | [] => return []
  | .mk label children :: rest =>
    if label.named && !label.kind.isComment then
      if label.kind == .propertySignature then do
        let expr ← orAny (annotationExpr? find children)
        let options ← docOptions (commentBefore previous)
        let expr ← withOptions label options expr
        let expr := expr.withModifiers (holdsToken children "readonly") (holdsToken children "?")
        let name ← nameText children
        return (name, expr) :: (← fieldExprs find (some (.mk label children)) rest)
      else do
        let expr ← passThrough label
        return ("", expr) :: (← fieldExprs find (some (.mk label children)) rest)
    else fieldExprs find (some (.mk label children)) rest

end

end Schemata
