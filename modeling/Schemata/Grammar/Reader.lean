import Schemata.Grammar.Statements
import Schemata.Session

/-!
# Reading with the grammar

The parser of a session is a parameter of everything that is known of a run. Here the grammar of
this library takes its place, so that sessions can be run.
-/

namespace Schemata

/-- The tree of a text, and the reader for the next one. -/
def Reader.read (reader : Reader) (text : String) : Except SourceError Node × Reader :=
  reader.readWith Grammar.parse text

def Session.new (files : Store) (reader : Reader) (processes : Processes) : Session :=
  .fresh files Grammar.parse reader processes

end Schemata
