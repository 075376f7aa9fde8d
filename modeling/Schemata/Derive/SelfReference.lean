import Schemata.Tree.Node

/-!
# Self references

A declaration refers to itself if its own name occurs as a type inside it. The callee of a generic
type, the parts of a qualified name and the name of a type parameter do not count. The test is
textual: a name that is shadowed inside still counts.
-/

namespace Schemata

mutual

/-- Whether a node is, or has below it, a reference to the name. `plain` says that a name right
here counts as a reference. -/
def Node.mentions (name : String) (plain : Bool) : Node → Bool
  | .mk label children =>
    (plain && label.kind == .typeIdentifier && label.text == name) ||
      mentionedIn name label.kind true children

/-- Whether one of the children of a node refers to the name; `nameOpen` says that no child with
the role of a name was met yet. -/
def mentionedIn (name : String) (parent : Kind) (nameOpen : Bool) : List Node → Bool
  | [] => false
  | node :: rest =>
    let isName := nameOpen && node.label.role == some .name
    let plain :=
      match parent with
      | .genericType | .nestedTypeIdentifier => false
      | .typeParameter => !isName
      | _ => true
    node.mentions name plain || mentionedIn name parent (nameOpen && !isName) rest

end

/-- Whether a declaration refers to itself: an alias in its value, any other one in the parts of its
body. -/
def Node.isSelfReferential (declaration : Node) : Bool :=
  match declaration.child? .name with
  | none => false
  | some nameNode =>
    if declaration.kind == .typeAlias then
      match declaration.child? .value with
      | none => false
      | some value => value.mentions nameNode.text true
    else
      match declaration.child? .body with
      | none => false
      | some body => mentionedIn nameNode.text body.kind true body.parts

end Schemata
