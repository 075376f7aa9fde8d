import Schemata.Grammar.Types

/-!
# The grammar of expressions

The nodes of an expression are those of the types and statements inside it; for the rest only its
extent matters, so operators are read without their precedence.
-/

namespace Schemata.Grammar

open Rule

def block : Form :=
  tree "statement_block"
    [token "\x7b",
      lines true (expressing true (sequence [many (ref .statement), token "\x7d"])),
      lines true (expressing true (optional (lineEnd false)))]

def boundName : Form := named "identifier" (.name ["this", "null", "true", "false"])

/-- A pattern that takes a value apart, or a name. -/
def pattern : Form :=
  let withDefault (rule : Form) : Form := sequence [rule, optional initializer]
  settled
    (choice
      [tree "rest_pattern" [token "...", ref .pattern],
        tree "array_pattern" [enclosed "[" [commas (optional (withDefault (ref .pattern)))] "]"],
        tree "object_pattern"
          [enclosed "\x7b"
            [commas
              (optional
                (choice
                  [sequence [propertyName, token ":", withDefault (ref .pattern)],
                    tree "rest_pattern" [token "...", ref .pattern],
                    withDefault boundName]))] "\x7d"],
        boundName])

def templateString : Form :=
  tree "template_string"
    [token "`",
      many
        (choice
          [named "string_fragment" .templateText,
            tree "template_substitution" [enclosed "$\x7b" [expressionList] "\x7d"]]),
      token "`"]

def memberModifiers : Form :=
  many
    (modifier
      ["declare", "public", "private", "protected", "static", "override", "readonly", "abstract",
        "accessor", "async"]
      (choice [propertyName, token "*"]))

def methodDefinition : Form :=
  tree "method_definition"
    [memberModifiers, optional (choice [modifier ["get", "set"] propertyName, token "*"]),
      playing .name propertyName, optional (token "?"), joined, callSignature,
      playing .body block]

def objectLiteral : Form :=
  enclosed "\x7b"
    [commas
      (optional
        (choice
          [sequence [token "...", expressionForm], methodDefinition,
            sequence [propertyName, token ":", expressionForm], boundName]))] "\x7d"

def arrayLiteral : Form :=
  enclosed "["
    [commas (optional (choice [sequence [token "...", expressionForm], expressionForm]))] "]"

def functionExpression : Form :=
  sequence
    [optional (modifier ["async"] (word "function")), word "function", optional (token "*"),
      optional (anyName "identifier"), callSignature, block]

def heritage : Form :=
  sequence
    [optional
        (sequence
          [word "extends",
            commas (sequence [expressing true (ref .operand), optional typeArguments])]),
      optional (sequence [word "implements", commas typeForm])]

def classHead (name : Form) : Form :=
  sequence [word "class", name, optional typeParameters, heritage]

def className : Form :=
  playing .name (named "type_identifier" (.name ["extends", "implements"]))

def classExpression : Form :=
  sequence [many decorator, classHead (optional className), ref .classBody]

def classMember : Form :=
  let ending := choice [token ",", terminator]
  settled
    (choice
      [token ";", sequence [word "static", block],
        sequence [many decorator, methodDefinition, optional terminator],
        sequence
          [many decorator,
            tree "method_signature"
              [memberModifiers, optional (choice [modifier ["get", "set"] propertyName, token "*"]),
                playing .name propertyName, optional (token "?"), joined, callSignature],
            choice [token ",", lineEnd true, token ";"]],
        sequence [optional (modifier ["static"] indexSignature), indexSignature, ending],
        sequence
          [tree "public_field_definition"
            [many decorator, memberModifiers, playing .name propertyName,
              optional (choice [token "?", token "!"]), optional (playing .type typeMark),
              optional initializer],
            ending]])

def classBody : Form :=
  tree "class_body"
    [token "\x7b", lines true (expressing false (many classMember)), token "\x7d"]

def arrowFunction : Form :=
  sequence
    [optional (modifier ["async"] (choice [token "(", token "<", identifier])),
      choice [sequence [identifier, ahead (token "=>")], callSignature], token "=>",
      choice [block, expressionForm]]

def parenthesized : Form :=
  tree "parenthesized_expression"
    [enclosed "(" [expressionList, optional typeMark] ")"]

def primary : Form :=
  choice
    [numberLiteral, quotedText, templateString, named "regex" .pattern, functionExpression,
      classExpression, parenthesized, arrayLiteral, objectLiteral,
      sequence [word "import", ahead (choice [token "(", token "."])],
      sequence [word "new", token ".", word "target"], word "this", word "super", word "null",
      word "true", word "false", word "undefined", identifier,
      named "private_property_identifier" .privateName]

/-- What may follow a type argument list that is an expression's last part. -/
def startsOperand : Form :=
  choice
    [anyName "identifier", numberLiteral, quotedText, token "(", token "[", token "\x7b",
      token "`", token "-", token "+", token "!", token "~", token "/"]

/-- A call, a member or another part behind an expression. -/
def trailing : Form :=
  let property := choice
    [named "private_property_identifier" .privateName, anyName "property_identifier"]
  let subscript := enclosed "[" [expressionList] "]"
  choice
    [sequence [token ".", absent (token "."), property],
      sequence
        [token "?.",
          choice [sequence [optional typeArguments, argumentList], subscript, property]],
      subscript, argumentList, templateString,
      sequence [typeArguments, choice [argumentList, templateString, absent startsOperand]],
      sequence [joined, operator ["!"]]]

def leadingSign : Form :=
  choice
    [operator ["!", "~", "-", "+", "++", "--"], word "typeof", word "void", word "delete",
      word "await", sequence [word "new", absent (token ".")],
      sequence [typeArguments, absent (token "=>")]]

def operand : Form :=
  sequence [settled primary, many trailing, optional (sequence [joined, operator ["++", "--"]])]

def betweenOperands : List String :=
  ["**", "*", "/", "%", "+", "-", "<<", ">>>", ">>", "<=", ">=", "<", ">", "===", "!==", "==", "!=",
    "&&", "||", "??", "&", "|", "^"]

def assigning : List String :=
  ["=", "+=", "-=", "*=", "/=", "%=", "**=", "<<=", ">>=", ">>>=", "&=", "|=", "^=", "&&=", "||=",
    "??="]

/-- An operator with its right operand, or a type behind `as` or `satisfies`. -/
def continuation : Form :=
  sequence
    [joined,
      choice
        [sequence
          [choice [operator betweenOperands, word "instanceof", word "in"],
            choice
              [arrowFunction, sequence [many leadingSign, ref .operand]]],
          sequence [word "as", choice [word "const", ref .type]],
          sequence [word "satisfies", ref .type]]]

def expressionRest : Form :=
  sequence
    [many continuation,
      optional
        (sequence
          [joined, operator ["?"], lines false expressionForm, token ":", expressionForm])]

def expression : Form :=
  settled
    (choice
      [arrowFunction,
        sequence [word "yield", optional (sequence [joined, optional (token "*"), expressionForm])],
        sequence
          [optional (modifier ["using"] identifier), ref .operand,
            choice [sequence [joined, operator assigning, expressionForm], expressionRest]],
        sequence [leadingSign, many leadingSign, ref .operand, expressionRest]])

end Schemata.Grammar
