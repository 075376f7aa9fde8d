import Schemata.Grammar.Rule

/-!
# Names of the grammar

The names of the rules that refer to each other, and the small rules that all parts of the grammar
share.
-/

namespace Schemata.Grammar

inductive Name where
  | type
  | plainType
  | unionMember
  | typeOperand
  | keyOperand
  | pattern
  | expression
  | operand
  | statement
  | declaration
  | classBody
  deriving DecidableEq, Repr

abbrev Form := Rule Name

open Rule

/-- A type where no operator of an expression may follow. -/
def typeForm : Form := expressing false (ref .type)

def expressionForm : Form := expressing true (ref .expression)

def anyName (kind : String) : Form := named kind (.name [])

/-- The words that start an expression of their own and so are no names in one. -/
def expressionWords : List String :=
  ["function", "class", "new", "typeof", "void", "delete", "await", "yield", "import", "super",
    "this", "null", "true", "false", "undefined"]

def identifier : Form := named "identifier" (.name expressionWords)

def quotedText : Form := named "string" .quoted

def numberLiteral : Form := named "number" .number

/-- The end of a statement: a semicolon, or the end of a line. -/
def terminator : Form := choice [lineEnd false, token ";"]

def dottedName : Form :=
  chain true identifier
    [(.ofName "nested_identifier", some (.ofFieldName "object"),
      sequence [token ".", playing (.ofFieldName "property") (anyName "property_identifier")])]

def expressionList : Form := commas expressionForm

/-- The arguments of a call. Places may be left empty. -/
def argumentList : Form :=
  tree "arguments"
    [enclosed "("
      [commas (optional (choice [sequence [token "...", expressionForm], expressionForm]))] ")"]

def propertyName : Form :=
  choice [anyName "property_identifier", named "private_property_identifier" .privateName,
    quotedText, numberLiteral,
    tree "computed_property_name" [enclosed "[" [expressionForm] "]"]]

def initializer : Form :=
  sequence [operator ["="], playing .value expressionForm]

def typeMark : Form := node .typeMark (sequence [token ":", typeForm])

def decorator : Form :=
  playing (.ofFieldName "decorator")
    (tree "decorator"
      [token "@",
        choice
          [sequence
            [identifier,
              many (sequence [token ".", anyName "property_identifier"]),
              many argumentList],
            enclosed "(" [expressionForm] ")"]])

def typeArguments : Form :=
  tree "type_arguments" [enclosed "<" [commas (ref .type), optional (token ",")] ">"]

def typeParameter : Form :=
  node .typeParameter
    (sequence
      [optional (modifier ["const"] (anyName "type_identifier")),
        playing .name (anyName "type_identifier"),
        optional (playing (.ofFieldName "constraint")
          (tree "constraint" [choice [word "extends", token ":"], typeForm])),
        optional (playing .value (tree "default_type" [token "=", typeForm]))])

def typeParameters : Form :=
  playing .typeParameters
    (node .typeParameters (enclosed "<" [commas typeParameter, optional (token ",")] ">"))

def parameterName : Form :=
  let taken := choice [ref .pattern, word "this"]
  sequence
    [many decorator,
      optional (tree "accessibility_modifier" [modifier ["public", "private", "protected"] taken]),
      optional (tree "override_modifier" [modifier ["override"] taken]),
      optional (modifier ["readonly"] taken),
      playing (.ofFieldName "pattern") (choice [named "this" (.word "this"), ref .pattern])]

def parameter : Form :=
  let ending := [optional (playing .type typeMark), optional initializer]
  choice
    [node .optionalParameter (sequence ([parameterName, token "?"] ++ ending)),
      node .requiredParameter (sequence (parameterName :: ending))]

def formalParameters : Form :=
  playing .parameters
    (node .formalParameters
      (enclosed "(" [optional (sequence [commas parameter, optional (token ",")])] ")"))

def typePredicate : Form :=
  tree "type_predicate"
    [playing .name (choice [named "this" (.word "this"), anyName "identifier"]), joined, word "is",
      playing .type typeForm]

def assertion : Form :=
  tree "asserts"
    [word "asserts",
      joined,
      choice [typePredicate, named "this" (.word "this"), anyName "identifier"]]

/-- The type that a function returns, behind a colon. -/
def returnMark : Form :=
  playing .returnType
    (choice
      [tree "asserts_annotation" [token ":", assertion],
        tree "type_predicate_annotation" [token ":", typePredicate], typeMark])

def callSignature : Form :=
  sequence [optional typeParameters, formalParameters, optional returnMark]

end Schemata.Grammar
