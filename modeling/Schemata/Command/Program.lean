import Schemata.Command.Standard
import Schemata.Grammar.Reader

/-!
# Running the program

The program with the front end and the grammar of this library.
-/

namespace Schemata.Command

def run (arguments : List String) (session : Session) : Outcome × Session :=
  runWith standard arguments session

end Schemata.Command
