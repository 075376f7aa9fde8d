import Schemata.Tree.Node

/-!
# Outlines

An outline is a concrete tree that refers to its source by byte offsets. Placed on the source it
gives a tree whose nodes carry their text and line, and whose errors are marked all the way up to the
root.
-/

namespace Schemata

/-- A concrete tree with byte offsets into its source. -/
inductive Outline where
  | mk (kind : Kind) (role : Option Role) (start stop : Nat) (named missing flawed : Bool)
      (children : List Outline)

/-- A source text in bytes, with the offsets of its line feeds. -/
structure Source where
  bytes : ByteArray
  lineFeeds : List Nat

namespace Source

def ofString (text : String) : Source :=
  let bytes := text.toUTF8
  ⟨bytes, (List.range bytes.size).filter fun i => bytes.get! i == 10⟩

def slice (source : Source) (start stop : Nat) : String :=
  (String.fromUTF8? (source.bytes.extract start stop)).getD ""

/-- The line of an offset, counted from one. -/
def lineAt (source : Source) (offset : Nat) : Nat :=
  1 + (source.lineFeeds.takeWhile (· < offset)).length

end Source

namespace Outline

mutual

def place (source : Source) : Outline → Node
  | mk kind role start stop named missing flawed children =>
    let inside := placeAll source children
    let hasError := flawed || kind == .error || missing || inside.any Node.hasError
    .mk ⟨kind, role, source.slice start stop, source.lineAt start, named, missing, hasError⟩ inside

def placeAll (source : Source) : List Outline → List Node
  | [] => []
  | outline :: rest => place source outline :: placeAll source rest

end

end Outline

end Schemata
