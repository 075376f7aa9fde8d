import Schemata.Schema.Expr

/-!
# Reports

Deriving schemas from a tree yields a value or a fault and, along the way, a list of events:
diagnostics, registrations of declared names, and the needs of the import header. Events are only
ever appended, so what a part of a tree contributes does not depend on what was reported before.
-/

namespace Schemata

inductive Concern where
  | unsupportedSyntax
  | indexedAccess
  | optionsIgnored
  | other (name : String)
  deriving DecidableEq, Repr

def Concern.name : Concern → String
  | .unsupportedSyntax => "unsupported-syntax"
  | .indexedAccess => "indexed-access"
  | .optionsIgnored => "options-ignored"
  | .other text => text

/-- A problem that does not stop the derivation. -/
structure Diagnostic where
  concern : Concern
  message : String
  /-- The kind of the node it was found at. -/
  nodeKind : String
  line : Int
  deriving DecidableEq, Repr

inductive Event where
  | noted (diagnostic : Diagnostic)
  /-- A declared name becomes available to indexed accesses. -/
  | registered (name : String) (body : Expr)
  /-- The schema vocabulary is needed. -/
  | needsSchema
  /-- The bound of generic parameters is needed. -/
  | needsGenerics

/-- Why code cannot be derived or handed on: the tree lacks something that every well-formed tree
has, a tag holds a number that is too long, or a text cannot be encoded. -/
inductive Fault where
  | noName
  | noPart
  | shortLookup (parts : Nat)
  | digitLimit (count : Nat)
  | unencodable
  deriving DecidableEq, Repr

/-- A value or a fault, with the events on the way. -/
structure Report (α : Type) where
  events : List Event
  result : Except Fault α

namespace Report

variable {α β : Type}

/-- A value without events. -/
protected def pure (a : α) : Report α := ⟨[], .ok a⟩

/-- One report after another; a fault ends it. -/
protected def bind (x : Report α) (f : α → Report β) : Report β :=
  match x.result with
  | .error fault => ⟨x.events, .error fault⟩
  | .ok a => ⟨x.events ++ (f a).events, (f a).result⟩

instance : Monad Report where
  pure := Report.pure
  bind := Report.bind

def emit (event : Event) : Report Unit := ⟨[event], .ok ()⟩

def fault (cause : Fault) : Report α := ⟨[], .error cause⟩

/-- A value that must be there. -/
def require (cause : Fault) : Option α → Report α
  | some a => Report.pure a
  | none => fault cause

def diagnostics (events : List Event) : List Diagnostic :=
  events.filterMap fun
    | .noted diagnostic => some diagnostic
    | _ => none

private theorem map_id_report (x : Report α) : id <$> x = x := by
  obtain ⟨events, result⟩ := x
  cases result <;> simp [Functor.map, Report.bind, Report.pure]

private theorem pure_bind_report (a : α) (f : α → Report β) : pure a >>= f = f a := by
  simp [Bind.bind, Pure.pure, Report.bind, Report.pure]

private theorem bind_assoc_report {γ : Type} (x : Report α) (f : α → Report β)
    (g : β → Report γ) : x >>= f >>= g = x >>= fun a => f a >>= g := by
  obtain ⟨events, result⟩ := x
  cases result with
  | error => simp [Bind.bind, Report.bind]
  | ok a =>
    simp only [Bind.bind, Report.bind]
    cases h : (f a).result <;> simp

instance : LawfulMonad Report :=
  LawfulMonad.mk' Report map_id_report pure_bind_report bind_assoc_report

end Report

def unsupported (kind : String) (line : Nat) : Event :=
  .noted ⟨.unsupportedSyntax, "Unhandled: " ++ kind, kind, line⟩

/-- The expressions that indexed accesses can refer to, by declared name. -/
structure Registry where
  entries : List (String × Expr)

namespace Registry

def empty : Registry := ⟨[]⟩

def register (registry : Registry) (name : String) (expr : Expr) : Registry :=
  ⟨setEntry name expr registry.entries⟩

def get? (registry : Registry) (name : String) : Option Expr := valueAt? name registry.entries

def contains (registry : Registry) (name : String) : Bool := (registry.get? name).isSome

def size (registry : Registry) : Nat := registry.entries.length

def apply (registry : Registry) (events : List Event) : Registry :=
  events.foldl (fun acc event =>
    match event with
    | .registered name expr => acc.register name expr
    | _ => acc) registry

@[simp] theorem get?_register_self (registry : Registry) (name : String) (expr : Expr) :
    (registry.register name expr).get? name = some expr :=
  valueAt?_setEntry_self name expr registry.entries

theorem get?_register_of_ne {registry : Registry} {name other : String} (expr : Expr)
    (h : other ≠ name) : (registry.register name expr).get? other = registry.get? other :=
  valueAt?_setEntry_of_ne expr registry.entries h

end Registry

end Schemata
