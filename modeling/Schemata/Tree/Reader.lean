import Schemata.Tree.Outline

/-!
# Readers

A reader turns source text into a checked tree. It may hold outlines that were prepared elsewhere;
those are used up first, one for each text, and after them a parser does the work.
-/

namespace Schemata

/-- A reader with the outlines prepared for the next texts. -/
structure Reader where
  prepared : List Outline

namespace Reader

def plain : Reader := ⟨[]⟩

/-- The tree of a text, and the reader for the next one. A parser may give up on a text. -/
def readWith (parse : String → Option Outline) (reader : Reader) (text : String) :
    Except SourceError Node × Reader :=
  match reader.prepared with
  | outline :: rest => ((outline.place (.ofString text)).check, ⟨rest⟩)
  | [] =>
    (match parse text with
      | some outline => (outline.place (.ofString text)).check
      | none => .error ⟨none⟩, reader)

end Reader

end Schemata
