import Schemata.Schema.Expr

/-!
# Declarations

A generated file is a list of declarations: a schema constant with its static type, an enumeration
with its schema, a namespace with declarations inside, and statements passed through.
-/

namespace Schemata

inductive Declaration where
  /-- A schema constant and its static type; with parameters it is generic. -/
  | schema (name : String) (exported : Bool) (body : Expr) (parameters : List String)
  /-- An enumeration and the schema bound to it. -/
  | enumeration (name : String) (exported : Bool) (members : List String)
  /-- A namespace or module. -/
  | scope (name : String) (exported : Bool) (keyword : String) (body : List Declaration)
  /-- A statement passed through. -/
  | verbatim (text : String)
  /-- A declaration of no known form, which cannot be rendered. -/
  | bare
  deriving Inhabited

/-- The declarations of one file, and what its import header has to bring in. -/
structure Module where
  declarations : List Declaration
  usesSchema : Bool
  usesGenerics : Bool

end Schemata
