import Schemata.Grammar.Name

/-!
# The grammar of types

Postfix brackets bind tightest, then `keyof`, then `&`, then `|`, then conditions. Functions and
`readonly` take all that follows.
-/

namespace Schemata.Grammar

open Rule

/-- The words that start a type of their own and so are no names of types. -/
def typeWords : List String :=
  ["typeof", "keyof", "readonly", "infer", "new", "unique", "abstract", "this", "import", "null",
    "undefined", "true", "false", "void", "any", "number", "boolean", "string", "symbol", "unknown",
    "never", "object", "const"]

def typeName : Form := named "type_identifier" (.name typeWords)

def moduleName : Form :=
  chain true (named "identifier" (.name typeWords))
    [(.ofName "nested_identifier", some (.ofFieldName "object"),
      sequence
        [token ".", playing (.ofFieldName "property") (anyName "property_identifier"),
          ahead (token ".")])]

def qualifiedName : Form :=
  choice
    [node .nestedTypeIdentifier
      (sequence
        [playing (.ofFieldName "module") moduleName, token ".",
          playing .name (anyName "type_identifier")]),
      typeName]

def typeReference : Form :=
  chain false qualifiedName
    [(.genericType, some .name, playing .typeArguments typeArguments)]

def predefinedType : Form :=
  node .predefinedType
    (choice
      [sequence [word "unique", word "symbol"], word "any", word "number", word "boolean",
        word "string", word "symbol", word "void", word "unknown", word "never", word "object"])

def literalType : Form :=
  node .literalType
    (choice
      [tree "unary_expression"
        [playing (.ofFieldName "operator") (choice [token "-", token "+"]),
          playing (.ofFieldName "argument") numberLiteral],
        numberLiteral, quotedText, named "true" (.word "true"), named "false" (.word "false"),
        named "null" (.word "null"), named "undefined" (.word "undefined")])

def templateType : Form :=
  tree "template_literal_type"
    [token "`",
      many
        (choice
          [named "string_fragment" .templateTypeText,
            tree "template_type" [enclosed "$\x7b" [ref .type] "\x7d"]]),
      token "`"]

def typeQuery : Form :=
  let object := choice
    [named "this" (.word "this"),
      sequence [word "import", argumentList],
      named "identifier" (.name ["this", "import"])]
  let index := choice [predefinedType, quotedText, numberLiteral]
  let property := choice
    [named "private_property_identifier" .privateName, anyName "property_identifier"]
  tree "type_query"
    [word "typeof",
      chain true object
        [(.ofName "member_expression", some (.ofFieldName "object"),
            sequence [choice [token "?.", token "."], property]),
          (.ofName "subscript_expression", some (.ofFieldName "object"),
            sequence [joined, optional (token "?."), enclosed "[" [index] "]"]),
          (.ofName "call_expression", some (.ofFieldName "function"),
            sequence [joined, argumentList])],
      optional typeArguments]

def tupleMember : Form :=
  let label := named "identifier" (.name typeWords)
  let mark := playing .type typeMark
  choice
    [node .requiredParameter (sequence [playing .name label, mark]),
      node .optionalParameter (sequence [playing .name label, token "?", mark]),
      node .requiredParameter
        (sequence [playing .name (tree "rest_pattern" [token "...", label]), mark]),
      node .restType (sequence [token "...", ref .type]),
      chain false (ref .type) [(.optionalType, none, token "?")]]

def tupleType : Form :=
  node .tupleType
    (enclosed "[" [optional (commas tupleMember), optional (token ",")] "]")

def indexSignature : Form :=
  tree "index_signature"
    [optional
        (sequence
          [optional (playing (.ofFieldName "sign") (choice [token "-", token "+"])),
            word "readonly"]),
      enclosed "["
        [choice
          [sequence
              [playing .name (anyName "identifier"), token ":",
                playing (.ofFieldName "index_type") typeForm],
            tree "mapped_type_clause"
              [playing .name (anyName "type_identifier"), word "in", playing .type typeForm,
                optional
                  (sequence [word "as", playing (.ofFieldName "alias") typeForm])]]] "]",
      playing .type
        (choice
          [tree "omitting_type_annotation" [token "-?:", typeForm],
            tree "adding_type_annotation" [token "+?:", typeForm],
            tree "opting_type_annotation" [token "?:", typeForm], typeMark])]

def propertyModifiers : Form :=
  sequence
    [optional
        (tree "accessibility_modifier" [modifier ["public", "private", "protected"] propertyName]),
      optional (modifier ["static"] propertyName),
      optional (tree "override_modifier" [modifier ["override"] propertyName]),
      optional (modifier ["readonly"] propertyName)]

def methodModifiers : Form :=
  sequence
    [optional (modifier ["async"] (choice [propertyName, token "*"])),
      optional (choice [modifier ["get", "set"] propertyName, token "*"])]

def objectMember : Form :=
  settled
    (choice
      [indexSignature,
        tree "construct_signature"
          [optional (word "abstract"), word "new", joined, optional typeParameters,
            formalParameters, optional (playing .type typeMark)],
        tree "call_signature" [callSignature],
        tree "method_signature"
          [propertyModifiers, methodModifiers, playing .name propertyName, optional (token "?"),
            joined, callSignature],
        node .propertySignature
          (sequence
            [propertyModifiers, playing .name propertyName, optional (token "?"),
              optional (playing .type typeMark)])])

def objectBody : Form :=
  let separator := choice [token ",", terminator]
  sequence
    [choice [token "\x7b|", token "\x7b"],
      lines true
        (expressing false
          (optional
            (sequence
              [optional (choice [token ",", token ";"]), objectMember,
                many (sequence [separator, objectMember]), optional separator]))),
      choice [token "|\x7d", token "\x7d"]]

def primaryType : Form :=
  choice
    [node .parenthesizedType (enclosed "(" [ref .type] ")"), predefinedType, literalType,
      node .objectType objectBody, tupleType, typeQuery, templateType,
      named "this_type" (.word "this"), named "existential_type" (.symbol "*"), word "const",
      typeReference]

def postfixType : Form :=
  chain true primaryType
    [(.arrayType, none, sequence [joined, enclosed "[" [] "]"]),
      (.lookupType, none, sequence [joined, enclosed "[" [ref .type] "]"])]

/-- A type that may stand behind `keyof`. -/
def keyOperand : Form :=
  settled
    (choice
      [node .keyofType (sequence [word "keyof", ref .keyOperand]),
        tree "flow_maybe_type" [token "?", ref .keyOperand],
        node .unionType (sequence [token "|", ref .unionMember]),
        node .intersectionType (sequence [token "&", ref .typeOperand]),
        postfixType])

def functionType : Form :=
  node .functionType
    (sequence
      [optional typeParameters, formalParameters, token "=>",
        playing .returnType (choice [assertion, typePredicate, ref .type])])

def constructorType : Form :=
  node .constructorType
    (sequence
      [optional (word "abstract"), word "new", optional typeParameters, formalParameters,
        token "=>", playing .type (ref .type)])

def inferredType : Form :=
  tree "infer_type"
    [word "infer", anyName "type_identifier",
      optional (sequence [joined, word "extends", ref .plainType])]

def importedType : Form :=
  chain true
    (tree "call_expression"
      [playing (.ofFieldName "function") (tree "import" [word "import"]),
        playing (.ofFieldName "arguments") argumentList])
    [(.ofName "member_expression", some (.ofFieldName "object"),
      sequence [token ".", playing (.ofFieldName "property") (anyName "property_identifier")])]

/-- An operand of `&`. -/
def typeOperand : Form :=
  settled
    (choice
      [functionType, constructorType, node .readonlyType (sequence [word "readonly", ref .type]),
        inferredType, importedType, keyOperand])

/-- A sign between two types. In an expression it must not be the start of a longer operator. -/
def typeSign (text : String) : Form :=
  choice [sequence [outside, token text], leaf false (.ofName text) (.operator [text])]

/-- An operand of `|`. -/
def unionMember : Form :=
  chain true (ref .typeOperand)
    [(.intersectionType, none, sequence [typeSign "&", ref .typeOperand])]

def plainType : Form :=
  chain true (ref .unionMember) [(.unionType, none, sequence [typeSign "|", ref .unionMember])]

def type : Form :=
  chain false plainType
    [(.conditionalType, some .left,
      sequence
        [joined, word "extends", playing .right (lines false plainType), token "?",
          playing .consequence (lines false (ref .type)), token ":",
          playing .alternative (ref .type)])]

end Schemata.Grammar
