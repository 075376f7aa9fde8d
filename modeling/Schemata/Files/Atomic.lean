import Schemata.Files.Store

/-!
# Writing files

A file is written next to its target under a temporary name, checked, and then moved onto the
target in one step. If anything fails on the way the temporary file is removed, so the target is
either replaced as a whole or untouched. A file may also be written in place; then what it held is
lost as soon as it is open. Any step may be refused by the system, and content that cannot be
encoded is refused by every file once it is open.
-/

namespace Schemata

/-- What the system refuses, whatever the store holds. -/
structure Hazards where
  /-- Directories that cannot be made. -/
  makeDir : Path → Option FileError
  createTemp : Option FileError
  writeTemp : Option FileError
  replace : Option FileError
  /-- Files that cannot be read. -/
  read : Path → Option FileError
  /-- A file that is written in place cannot be opened. -/
  openFile : Option FileError
  /-- It was opened, but takes only some text. -/
  fillFile : Option (FileError × String)

def Hazards.none : Hazards where
  makeDir _ := .none
  createTemp := .none
  writeTemp := .none
  replace := .none
  read _ := .none
  openFile := .none
  fillFile := .none

/-- A step that may be refused. -/
def guarded {α : Type} (hazard : Option FileError) (step : Except FileError α) :
    Except FileError α :=
  match hazard with
  | some error => .error error
  | .none => step

theorem guarded_eq_ok {α : Type} {hazard : Option FileError} {step : Except FileError α} {a : α} :
    guarded hazard step = .ok a ↔ hazard = .none ∧ step = .ok a := by
  cases hazard <;> simp [guarded]

inductive WriteFailure (ε : Type) where
  /-- The content did not get as far as being checked; the path is the one complained about. -/
  | file (error : FileError) (path : Path)
  | unencodable
  | invalid (reason : ε)
  /-- The target cannot be replaced. -/
  | replace (error : FileError)
  /-- The target exists and must not be replaced. -/
  | outputExists
  deriving DecidableEq, Repr

def tempName (name : String) (n : Nat) : String := "." ++ name ++ "." ++ toString n ++ ".tmp"

/-- The first temporary place in a directory, from a number on, that is not among the taken ones. A
number that is taken uses up one of them, so the search ends. -/
def freeTempFrom (directory : Place) (name : String) (taken : List Place) (n : Nat) : Place :=
  if directory ++ [tempName name n] ∈ taken then
    freeTempFrom directory name (taken.erase (directory ++ [tempName name n])) (n + 1)
  else directory ++ [tempName name n]
termination_by taken.length
decreasing_by
  rename_i h
  rw [List.length_erase_of_mem h]
  exact Nat.sub_lt (List.length_pos_of_mem h) (by decide)

def freeTemp (store : Store) (directory : Place) (name : String) : Place :=
  freeTempFrom directory name (store.entries.map Prod.fst) 0

variable {ε : Type}

/-- What is to be written: a text, and whether it can be encoded. -/
structure Content where
  text : String
  encodable : Bool
  deriving DecidableEq, Repr

/-- Fills a temporary file, checks its content and moves it onto the target. Whatever fails, the
temporary file is removed. -/
def finishWrite (hazards : Hazards) (check : String → Except ε Unit) (store : Store) (temp : Place)
    (path : Path) (content : Content) : Except (WriteFailure ε) Unit × Store :=
  let opened := store.put temp (.file "")
  if !content.encodable then (.error .unencodable, opened.erase temp)
  else
    match guarded hazards.writeTemp (.ok (opened.put temp (.file content.text))) with
    | .error error => (.error (.file error path.parent), opened.erase temp)
    | .ok written =>
      match check content.text with
      | .error reason => (.error (.invalid reason), written.erase temp)
      | .ok () =>
        match guarded hazards.replace (written.replace temp path) with
        | .error error => (.error (.replace error), written.erase temp)
        | .ok replaced => (.ok (), replaced)

/-- Writes a file atomically. `check` decides whether the content may become the target's; the store
after the write comes with the outcome. -/
def atomicWrite (hazards : Hazards) (check : String → Except ε Unit) (store : Store) (path : Path)
    (content : Content) : Except (WriteFailure ε) Unit × Store :=
  match store.makeDirs hazards.makeDir path.parent with
  | (.error (error, directory), made) => (.error (.file error directory), made)
  | (.ok (), made) =>
    match guarded hazards.createTemp (made.resolve path.parent) with
    | .error error => (.error (.file error path.parent), made)
    | .ok directory =>
      finishWrite hazards check made (freeTemp made directory path.name) path content

def atomicWriteNew (hazards : Hazards) (check : String → Except ε Unit) (store : Store)
    (path : Path) (content : Content) : Except (WriteFailure ε) Unit × Store :=
  if store.contains path then (.error .outputExists, store)
  else atomicWrite hazards check store path content

structure WriteRequest (ε : Type) where
  /-- Something at the path must not be replaced. -/
  onlyNew : Bool
  path : Path
  content : Content
  validate : Bool
  validator : String → Except ε Unit
  hazards : Hazards

namespace WriteRequest

/-- The check of some content; it is only made if it is asked for. -/
def check (request : WriteRequest ε) (content : String) : Except ε Unit :=
  if request.validate then request.validator content else .ok ()

def perform (request : WriteRequest ε) (store : Store) : Except (WriteFailure ε) Unit × Store :=
  (if request.onlyNew then atomicWriteNew else atomicWrite) request.hazards request.check store
    request.path request.content

end WriteRequest

/-- Writes a file in place. Content that does not get there leaves a part of it, or nothing. -/
def plainWrite (hazards : Hazards) (store : Store) (path : Path) (content : Content) :
    Except (WriteFailure ε) Unit × Store :=
  match guarded hazards.openFile (store.write path content.text) with
  | .error error => (.error (.file error path), store)
  | .ok written =>
    if !content.encodable then (.error .unencodable, (store.write path "").toOption.getD store)
    else
      match hazards.fillFile with
      | .none => (.ok (), written)
      | some (error, part) =>
        (.error (.file error path), (store.write path part).toOption.getD store)

end Schemata
