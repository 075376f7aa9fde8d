/-!
# Log records

Records have a level and a message. A threshold decides which of them are shown, and each is shown
on a line with the program's name and its level.
-/

namespace Schemata

namespace Log

inductive Level where
  | debug
  | info
  | warning
  | error
  | critical
  deriving DecidableEq, Repr

namespace Level

/-- The rank of a level; a threshold is a rank. -/
def rank : Level → Nat
  | debug => 10
  | info => 20
  | warning => 30
  | error => 40
  | critical => 50

def word : Level → String
  | debug => "DEBUG"
  | info => "INFO"
  | warning => "WARNING"
  | error => "ERROR"
  | critical => "CRITICAL"

def ofWord? (text : String) : Option Level :=
  [debug, info, warning, error, critical].find? fun level => level.word == text

end Level

structure Record where
  level : Level
  message : String
  deriving DecidableEq, Repr

def Record.text (record : Record) : String := record.level.word ++ " " ++ record.message

/-- A record as it is shown on the error channel. -/
def Record.line (record : Record) : String := "[ts2typebox] " ++ record.text ++ "\n"

def atLeast (level : Level) (records : List Record) : List Record :=
  records.filter fun record => level.rank ≤ record.level.rank

def rootName : String := "ts_to_typebox"

/-- The name of a logger; an empty name means the whole program. -/
def loggerName (name : String) : String :=
  if name == "" then rootName else rootName ++ "." ++ name

/-- How records are shown: not set up yet, or from a level on. -/
structure Setup where
  threshold : Option Level

/-- The set-up of the command line: all records if it is verbose, otherwise from information on. -/
def configure (verbose : Bool) : Setup := ⟨some (if verbose then .debug else .info)⟩

/-- What a record prints. Before any set-up, warnings and worse show their message alone. -/
def Setup.show (setup : Setup) (record : Record) : String :=
  match setup.threshold with
  | some level => if level.rank ≤ record.level.rank then record.line else ""
  | none => if Level.warning.rank ≤ record.level.rank then record.message ++ "\n" else ""

end Log

end Schemata
