import Schemata.Grammar.Expressions

/-!
# The grammar of statements

Declarations of types have their full structure. Of the other statements the kind and the extent
matter, with the types inside them.
-/

namespace Schemata.Grammar

open Rule

def typeAlias : Form :=
  node .typeAlias
    (sequence
      [word "type", joined,
        playing .name (named "type_identifier" (.name ["in", "instanceof", "as", "satisfies"])),
        optional typeParameters, token "=",
        lines true (expressing false (sequence [playing .value (ref .type), terminator]))])

def interface : Form :=
  node .interface
    (sequence
      [word "interface", playing .name (anyName "type_identifier"), optional typeParameters,
        optional
          (node .extendsClause
            (sequence [word "extends", commas (playing .type (lines false typeReference))])),
        playing .body (tree "interface_body" [objectBody])])

def enumeration : Form :=
  let enumMember := choice
    [tree "enum_assignment" [playing .name propertyName, initializer],
      playing .name propertyName]
  node .enumeration
    (sequence
      [optional (word "const"), word "enum", playing .name (anyName "identifier"),
        playing .body
          (tree "enum_body"
            [enclosed "\x7b" [optional (sequence [commas enumMember, optional (token ",")])]
              "\x7d"])])

def spaceName : Form := playing .name (choice [quotedText, dottedName])

/-- A namespace. Without a brace behind its name it has no body. -/
def internalModule : Form :=
  node .internalModule
    (sequence
      [word "namespace", joined, spaceName,
        choice
          [sequence [joined, playing .body block], absent (sequence [joined, token "\x7b"])]])

/-- A module. Without a brace behind its name it has no body. -/
def externalModule : Form :=
  node .externalModule
    (sequence
      [word "module", joined, spaceName,
        choice [playing .body block, absent (token "\x7b")]])

def functionHead : Form :=
  sequence [optional (modifier ["async"] (word "function")), word "function"]

def functionDeclaration : Form :=
  node .functionDeclaration
    (sequence
      [functionHead, playing .name (anyName "identifier"),
        lines true (expressing false callSignature), playing .body block])

def generatorDeclaration : Form :=
  tree "generator_function_declaration"
    [functionHead, token "*", playing .name (anyName "identifier"), callSignature,
      playing .body block]

def functionSignature : Form :=
  tree "function_signature"
    [functionHead, playing .name (anyName "identifier"),
      lines true (expressing false (sequence [callSignature, choice [lineEnd true, token ";"]]))]

def classDeclaration : Form :=
  node .classDeclaration
    (sequence
      [many decorator, classHead className, playing .body (ref .classBody),
        optional (lineEnd false)])

def abstractClassDeclaration : Form :=
  node .abstractClassDeclaration
    (sequence [many decorator, word "abstract", classHead className,
      playing .body (ref .classBody)])

def declarators : Form :=
  commas
    (tree "variable_declarator"
      [playing .name (choice [named "identifier" (.name ["enum"]), ref .pattern]),
        optional (token "!"), optional (playing .type typeMark),
        optional initializer])

def lexicalDeclaration : Form :=
  tree "lexical_declaration"
    [choice [word "const", sequence [word "let", joined]],
      lines true (expressing false (sequence [declarators, terminator]))]

def variableDeclaration : Form :=
  tree "variable_declaration"
    [word "var", lines true (expressing false (sequence [declarators, terminator]))]

def importAlias : Form :=
  tree "import_alias"
    [word "import", anyName "identifier", token "=", dottedName, terminator]

def ambientDeclaration : Form :=
  tree "ambient_declaration"
    [word "declare", joined,
      choice
        [lines false (ref .declaration), sequence [word "global", block],
          sequence
            [word "module", token ".", anyName "property_identifier", token ":",
              lines true typeForm, terminator]]]

def plainDeclaration : Form :=
  choice
    [typeAlias, interface, enumeration, externalModule, functionDeclaration, generatorDeclaration,
      functionSignature, classDeclaration, abstractClassDeclaration, lexicalDeclaration,
      variableDeclaration, importAlias, ambientDeclaration]

def declaration : Form := settled (choice [internalModule, plainDeclaration])

def moduleAttributes : Form :=
  optional (sequence [joined, choice [word "with", word "assert"], objectLiteral])

def fromClause : Form :=
  sequence [word "from", playing (.ofFieldName "source") quotedText, moduleAttributes]

def moduleItem : Form := choice [anyName "identifier", quotedText]

def listedName : Form :=
  choice
    [sequence
        [modifier ["type", "typeof"] moduleItem, moduleItem,
          optional (sequence [word "as", moduleItem])],
      sequence [moduleItem, word "as", moduleItem], moduleItem]

def nameList : Form :=
  enclosed "\x7b" [commas (optional listedName)] "\x7d"

def importStatement : Form :=
  let wholeModule := sequence [token "*", word "as", anyName "identifier"]
  let clause := choice
    [wholeModule, nameList,
      sequence
        [anyName "identifier",
          optional (sequence [token ",", choice [wholeModule, nameList]])]]
  let required := sequence
    [anyName "identifier", token "=", word "require", enclosed "(" [quotedText] ")"]
  let source := choice
    [sequence [clause, fromClause], required,
      sequence [quotedText, moduleAttributes]]
  tree "import_statement"
    [word "import",
      choice [sequence [choice [word "type", word "typeof"], source], source], terminator]

def exportStatement : Form :=
  node .exportStatement
    (sequence
      [many decorator, word "export", joined,
        choice
          [sequence
              [choice
                [sequence
                    [token "*", optional (sequence [word "as", moduleItem]), fromClause],
                  sequence [optional (word "type"), nameList, optional fromClause]],
                terminator],
            sequence [operator ["="], expressionForm, terminator],
            sequence [word "as", word "namespace", anyName "identifier", terminator],
            sequence
              [word "default",
                choice
                  [playing .declaration (lines false (ref .declaration)),
                    sequence [playing .value expressionForm, terminator]]],
            playing .declaration (lines false (ref .declaration))]])

/-- The header of a loop over the members of a value, or over a counter. -/
def loopHeader : Form :=
  let binder := choice [word "var", word "let", word "const"]
  enclosed "("
    [choice
      [sequence
          [choice [sequence [binder, ref .pattern], ref .operand], optional initializer,
            choice [word "in", word "of"], expressionList],
        sequence
          [optional (choice [sequence [binder, declarators], expressionList]), token ";",
            optional expressionList, token ";", optional expressionList]]] ")"

def flowStatement : Form :=
  let statements := many (ref .statement)
  choice
    [tree "if_statement"
        [word "if", parenthesized, ref .statement,
          optional (sequence [word "else", ref .statement])],
      tree "for_statement"
        [word "for", optional (word "await"), loopHeader, ref .statement],
      tree "while_statement" [word "while", parenthesized, ref .statement],
      tree "do_statement"
        [word "do", ref .statement, word "while", parenthesized, optional terminator],
      tree "try_statement"
        [word "try", block,
          optional
            (sequence
              [word "catch",
                optional (enclosed "(" [ref .pattern, optional typeMark] ")"), block]),
          optional (sequence [word "finally", block])],
      tree "switch_statement"
        [word "switch", parenthesized, token "\x7b",
          many
            (choice
              [tree "switch_case"
                [word "case", lines false expressionList, token ":", statements],
                tree "switch_default" [word "default", token ":", statements]]),
          token "\x7d"],
      tree "with_statement" [word "with", parenthesized, ref .statement],
      tree "return_statement"
        [word "return", optional (sequence [joined, expressionList]), terminator],
      tree "throw_statement" [word "throw", expressionList, terminator],
      tree "break_statement"
        [word "break", optional (sequence [joined, anyName "statement_identifier"]), terminator],
      tree "continue_statement"
        [word "continue", optional (sequence [joined, anyName "statement_identifier"]),
          terminator],
      tree "debugger_statement" [word "debugger", terminator]]

/-- The words that start a statement of their own and so start no expression. -/
def statementWords : List String :=
  ["if", "for", "while", "do", "try", "throw", "return", "switch", "with", "debugger", "break",
    "continue", "var", "const", "enum", "interface", "abstract"]

/-- What looks like an expression but is another statement: one that starts with a word of its own,
a function or class with a name, an export that is not complete, or a block. -/
def startsOther : Form :=
  choice
    [choice (statementWords.map word),
      sequence
        [optional (word "async"), word "function", optional (token "*"), anyName "identifier"],
      sequence [word "class", className],
      sequence [word "export", absent terminator],
      sequence [token "\x7b", choice (statementWords.map word)]]

def statement : Form :=
  lines true
    (expressing true
      (settled
        (choice
          [exportStatement,
            chain false internalModule [(.expressionStatement, none, lineEnd false)],
            plainDeclaration, importStatement, block, flowStatement,
            tree "labeled_statement"
              [playing (.ofFieldName "label")
                (named "statement_identifier" (.name (statementWords ++ expressionWords))),
                token ":", playing .body (ref .statement)],
            node .emptyStatement (token ";"),
            node .expressionStatement
              (sequence [absent startsOther, expressionList, terminator])])))

def program : Form :=
  sequence
    [optional (named "hash_bang_line" .scriptLine),
      many (choice [node .htmlComment (leaf false .comment .markupComment), ref .statement])]

def table : Name → Form
  | .type => type
  | .plainType => plainType
  | .unionMember => unionMember
  | .typeOperand => typeOperand
  | .keyOperand => keyOperand
  | .pattern => pattern
  | .expression => expression
  | .operand => operand
  | .statement => statement
  | .declaration => declaration
  | .classBody => classBody

def parse (text : String) : Option Outline :=
  let start := Cursor.ofString text
  (program.run table (200 * (text.length + 50)) ⟨true, true⟩ start).bind fun found =>
    let ending := found.2.skipGap
    if ending.2.rest.isEmpty then
      some (.mk (.ofName "program") none 0 ending.2.offset true false false (found.1 ++ ending.1))
    else none

end Schemata.Grammar
