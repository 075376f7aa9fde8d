import Schemata.Json.Basic

/-!
# Kinds and roles of nodes

A node of a concrete tree has a kind, named as the TypeScript grammar names it, and may play a role
for its parent. Kinds and roles without a meaning for the generator keep their name.
-/

namespace Schemata

inductive Kind where
  | typeAlias
  | interface
  | enumeration
  | internalModule
  | externalModule
  | exportStatement
  | expressionStatement
  | functionDeclaration
  | classDeclaration
  | abstractClassDeclaration
  | emptyStatement
  | comment
  | htmlComment
  | predefinedType
  | typeIdentifier
  | nestedTypeIdentifier
  | genericType
  | literalType
  | arrayType
  | tupleType
  | unionType
  | intersectionType
  | objectType
  | functionType
  | constructorType
  | keyofType
  | readonlyType
  | lookupType
  | parenthesizedType
  | conditionalType
  | restType
  | optionalType
  | requiredParameter
  | optionalParameter
  | typeParameter
  | typeParameters
  | typeMark
  | formalParameters
  | extendsClause
  | propertySignature
  | error
  | other (name : String)
  deriving DecidableEq, Repr

namespace Kind

def name : Kind → String
  | typeAlias => "type_alias_declaration"
  | interface => "interface_declaration"
  | enumeration => "enum_declaration"
  | internalModule => "internal_module"
  | externalModule => "module"
  | exportStatement => "export_statement"
  | expressionStatement => "expression_statement"
  | functionDeclaration => "function_declaration"
  | classDeclaration => "class_declaration"
  | abstractClassDeclaration => "abstract_class_declaration"
  | emptyStatement => "empty_statement"
  | comment => "comment"
  | htmlComment => "html_comment"
  | predefinedType => "predefined_type"
  | typeIdentifier => "type_identifier"
  | nestedTypeIdentifier => "nested_type_identifier"
  | genericType => "generic_type"
  | literalType => "literal_type"
  | arrayType => "array_type"
  | tupleType => "tuple_type"
  | unionType => "union_type"
  | intersectionType => "intersection_type"
  | objectType => "object_type"
  | functionType => "function_type"
  | constructorType => "constructor_type"
  | keyofType => "index_type_query"
  | readonlyType => "readonly_type"
  | lookupType => "lookup_type"
  | parenthesizedType => "parenthesized_type"
  | conditionalType => "conditional_type"
  | restType => "rest_type"
  | optionalType => "optional_type"
  | requiredParameter => "required_parameter"
  | optionalParameter => "optional_parameter"
  | typeParameter => "type_parameter"
  | typeParameters => "type_parameters"
  | typeMark => "type_annotation"
  | formalParameters => "formal_parameters"
  | extendsClause => "extends_type_clause"
  | propertySignature => "property_signature"
  | error => "ERROR"
  | other text => text

/-- The kinds with a meaning for the generator. -/
def known : List Kind :=
  [typeAlias, interface, enumeration, internalModule, externalModule, exportStatement,
    expressionStatement, functionDeclaration, classDeclaration, abstractClassDeclaration,
    emptyStatement, comment, htmlComment, predefinedType, typeIdentifier, nestedTypeIdentifier,
    genericType, literalType, arrayType, tupleType, unionType, intersectionType, objectType,
    functionType, constructorType, keyofType, readonlyType, lookupType, parenthesizedType,
    conditionalType, restType, optionalType, requiredParameter, optionalParameter, typeParameter,
    typeParameters, typeMark, formalParameters, extendsClause, propertySignature, error]

def ofName (text : String) : Kind :=
  (known.find? fun kind => kind.name == text).getD (other text)

def isComment : Kind → Bool
  | comment | htmlComment => true
  | _ => false

end Kind

inductive Role where
  | name
  | value
  | body
  | declaration
  | type
  | returnType
  | parameters
  | typeParameters
  | typeArguments
  | left
  | right
  | consequence
  | alternative
  | other (name : String)
  deriving DecidableEq, Repr

namespace Role

def fieldName : Role → String
  | name => "name"
  | value => "value"
  | body => "body"
  | declaration => "declaration"
  | type => "type"
  | returnType => "return_type"
  | parameters => "parameters"
  | typeParameters => "type_parameters"
  | typeArguments => "type_arguments"
  | left => "left"
  | right => "right"
  | consequence => "consequence"
  | alternative => "alternative"
  | other text => text

/-- The roles with a meaning for the generator. -/
def known : List Role :=
  [name, value, body, declaration, type, returnType, parameters, typeParameters, typeArguments,
    left, right, consequence, alternative]

def ofFieldName (text : String) : Role :=
  (known.find? fun role => role.fieldName == text).getD (other text)

end Role

end Schemata
