import Schemata.Tree.Kind

/-!
# Concrete trees

A node carries the text it covers, the line on which it starts and its children in document order.
Comments may stand between any two of them; the parts of a node are its named children that are not
comments.
-/

namespace Schemata

/-- What is known of a node apart from its children. -/
structure Label where
  kind : Kind
  role : Option Role
  text : String
  /-- The line of the first character, counted from one. -/
  line : Nat
  /-- Named nodes have a meaning of their own; the others are plain tokens. -/
  named : Bool
  /-- Inserted where the source lacks a token. -/
  missing : Bool
  /-- Marked as holding an error: the node is one, or there is one somewhere below. -/
  flawed : Bool
  deriving DecidableEq, Repr

inductive Node where
  | mk (label : Label) (children : List Node)

namespace Node

def label : Node → Label
  | mk label _ => label

def children : Node → List Node
  | mk _ children => children

def kind (node : Node) : Kind := node.label.kind

def text (node : Node) : String := node.label.text

def line (node : Node) : Nat := node.label.line

/-- Whether the node is a part: named and not a comment. -/
def isPart (node : Node) : Bool := node.label.named && !node.kind.isComment

def parts (node : Node) : List Node := node.children.filter isPart

def child? (node : Node) (role : Role) : Option Node :=
  node.children.find? fun child => child.label.role == some role

def hasToken (node : Node) (token : String) : Bool :=
  node.children.any fun child => !child.label.named && child.kind.name == token

def isError (node : Node) : Bool := node.kind == .error || node.label.missing

/-- Whether a node is marked as holding an error, in itself or below. -/
def hasError (node : Node) : Bool := node.label.flawed

mutual

/-- The topmost errors in document order. Children without a mark are not entered. -/
def topErrors : Node → List Node
  | mk label children =>
    if label.kind == .error || label.missing then [mk label children] else topErrorsOf children

def topErrorsOf : List Node → List Node
  | [] => []
  | node :: rest =>
    (if node.hasError || node.label.missing then topErrors node else []) ++ topErrorsOf rest

end

end Node

structure SourceError where
  place : Option (Nat × String)
  deriving DecidableEq, Repr

namespace SourceError

def line? (error : SourceError) : Option Nat := error.place.map Prod.fst

def message (error : SourceError) : String :=
  match error.place with
  | none => "Failed to parse TypeScript code"
  | some (line, snippet) =>
    "Failed to parse TypeScript code at line " ++ toString line ++ ": syntax error near '" ++
      snippet ++ "'"

end SourceError

/-- Accepts a tree without errors; otherwise the first topmost error is reported, with at most fifty
characters of its text. -/
def Node.check (root : Node) : Except SourceError Node :=
  if root.hasError then
    .error ⟨root.topErrors.head?.map fun node =>
      (node.line, String.ofList (node.text.toList.take 50))⟩
  else .ok root

end Schemata
