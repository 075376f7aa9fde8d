import Schemata.Schema.Render

/-!
# Encoding

The code of a file is a text, unless half of a surrogate pair gets into it, which is shown there by
a mark. It can come from the string of an option, or from the module that the header imports from.
All other texts are those of the source.
-/

namespace Schemata

def OptionValue.encodable : OptionValue → Bool
  | .literal value => value.encodable
  | .raw _ => true

namespace Expr

mutual

def encodable : Expr → Bool
  | .call _ args options => allEncodable args && options.all fun option => option.2.encodable
  | .apply _ args => allEncodable args
  | .array items => allEncodable items
  | .object fields => fieldsEncodable fields
  | .recursive _ body => encodable body
  | .ref _ | .raw _ | .absent | .bare => true

def allEncodable : List Expr → Bool
  | [] => true
  | expr :: rest => encodable expr && allEncodable rest

def fieldsEncodable : List (String × Expr) → Bool
  | [] => true
  | (_, value) :: rest => encodable value && fieldsEncodable rest

end

end Expr

namespace Declaration

mutual

def encodable : Declaration → Bool
  | .schema _ _ body _ => body.encodable
  | .scope _ _ _ body => allEncodable body
  | .enumeration _ _ _ | .verbatim _ | .bare => true

def allEncodable : List Declaration → Bool
  | [] => true
  | declaration :: rest => encodable declaration && allEncodable rest

end

end Declaration

/-- Whether the code of a file can be encoded. The library only matters if it is imported. -/
def Module.encodable (library : String) (libraryEncodable : Bool) (module : Module) : Bool :=
  (libraryEncodable || module.header library == "") &&
    Declaration.allEncodable module.declarations

end Schemata
