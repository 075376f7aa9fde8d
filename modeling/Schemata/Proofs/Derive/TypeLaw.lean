import Schemata.Derive.Type
import Schemata.Proofs.Derive.Judgement

/-!
# Laws of derived types

Thirteen functions derive the expression of a type by mutual recursion on the tree. What holds of
every expression they yield is shown once, here: a law lists the few ways in which expressions come
about, and a property that is closed under them holds of the expression of every type.
-/

namespace Schemata

/-- Options that the tags of some comment give. -/
def Options.Documented (options : Options) : Prop := ∃ comment, Doc.options comment = .ok options

/-- A property of expressions that is closed under everything the derivation of a type does. -/
structure TypeLaw (J : Judgement) (find : String → Option Expr) (good : Expr → Prop) : Prop where
  construct : ∀ name args, (∀ arg ∈ args, good arg) → good (.construct name args)
  literal : ∀ text, good (.construct "Literal" [.raw text])
  builtin : ∀ name ∈ builtinGenerics, good (.raw ("Type." ++ name))
  ref : ∀ name, good (.ref name)
  apply : ∀ callee args, (∀ arg ∈ args, good arg) → good (.apply callee args)
  array : ∀ items, (∀ item ∈ items, good item) → good (.array items)
  object : ∀ fields : List (String × Expr), (∀ field ∈ fields, good field.2) → good (.object fields)
  attach : ∀ options expr result, Options.Documented options → good expr →
    expr.attach options = some result → good result
  /-- The fields of what can be looked up are good, and so are those of good expressions. -/
  found : ∀ name expr key value, find name = some expr → expr.field? key = some value → good value
  field : ∀ expr key value, good expr → expr.field? key = some value → good value
  remark : ∀ diagnostic, J.holds (fun _ => True) (Report.emit (.noted diagnostic))
  /-- Text that stands in for an expression after a remark. -/
  remarked : ∀ diagnostic text,
    J.holds good (Report.emit (.noted diagnostic) >>= fun _ => pure (.raw text))

namespace TypeLaw

variable {J : Judgement} {find : String → Option Expr} {good : Expr → Prop}

theorem constant (law : TypeLaw J find good) (name : String) : good (.constant name) :=
  law.construct name [] (by simp)

theorem wrap (law : TypeLaw J find good) (name : String) {expr : Expr} (h : good expr) :
    good (.construct name [expr]) :=
  law.construct name [expr] (by simpa using h)

theorem wrapArray (law : TypeLaw J find good) (name : String) {items : List Expr}
    (h : ∀ item ∈ items, good item) : good (.construct name [.array items]) :=
  law.wrap name (law.array items h)

theorem withModifiers (law : TypeLaw J find good) {expr : Expr} (h : good expr)
    (readonly optional : Bool) : good (expr.withModifiers readonly optional) := by
  cases readonly <;> cases optional
  · exact h
  · exact law.wrap "Optional" h
  · exact law.wrap "Readonly" h
  · exact law.wrap "ReadonlyOptional" h

theorem passThrough (law : TypeLaw J find good) (label : Label) :
    J.holds good (passThrough label) :=
  law.remarked _ label.text

theorem failedAccess (law : TypeLaw J find good) (node : Node) (message marker : String) :
    J.holds good (failedAccess node message marker) :=
  law.remarked _ marker

theorem keywordType (law : TypeLaw J find good) (label : Label) :
    J.holds good (keywordType label) := by
  unfold Schemata.keywordType
  split
  · exact J.ofPure (law.constant _)
  · exact law.passThrough label

theorem namedType (law : TypeLaw J find good) (name : String) : good (namedType name) := by
  unfold Schemata.namedType
  split
  · exact law.constant _
  · split
    · exact law.constant _
    · split
      · rename_i hbuiltin
        exact law.builtin name (by simpa using hbuiltin)
      · exact law.ref name

theorem literalType (law : TypeLaw J find good) (text : String) : good (literalType text) := by
  unfold Schemata.literalType
  split
  · exact law.constant _
  · split
    · exact law.constant _
    · exact law.literal text

theorem genericType (law : TypeLaw J find good) (name : String) {args : List Expr}
    (h : ∀ arg ∈ args, good arg) : good (genericType name args) := by
  unfold Schemata.genericType
  split
  · exact law.construct name args h
  · exact law.apply name args h

private theorem holds_forM {α : Type} {f : α → Report Unit} (xs : List α)
    (hf : ∀ x ∈ xs, J.holds (fun _ => True) (f x)) : J.holds (fun _ => True) (xs.forM f) := by
  induction xs with
  | nil => exact J.ofPure trivial
  | cons x rest ih =>
    exact J.ofBind (hf x List.mem_cons_self) fun _ _ =>
      ih fun y hy => hf y (List.mem_cons_of_mem x hy)

theorem docOptions (law : TypeLaw J find good) (comment : Option Node) :
    J.holds Options.Documented (docOptions comment) := by
  cases comment with
  | none => exact J.ofPure ⟨"", rfl⟩
  | some node =>
    refine J.ofBind (holds_forM _ fun name _ => law.remark _) fun _ _ => ?_
    split
    · rename_i options hoptions
      exact J.ofPure ⟨node.text, hoptions⟩
    · exact J.ofFault _

theorem withOptions (law : TypeLaw J find good) (label : Label) {options : Options} {expr : Expr}
    (h : good expr) (hattach : ∀ result, expr.attach options = some result → good result) :
    J.holds good (withOptions label options expr) := by
  unfold Schemata.withOptions
  split
  · exact J.ofPure h
  · split
    · rename_i result hresult
      exact J.ofPure (hattach result hresult)
    · exact J.ofBind (law.remark _) fun _ _ => J.ofPure h

theorem orAny (law : TypeLaw J find good) {found : Option (Report Expr)}
    (h : ∀ report ∈ found, J.holds good report) : J.holds good (orAny found) := by
  cases found with
  | none => exact J.ofPure (law.constant "Any")
  | some report => exact h report rfl

private theorem forall_mem_orElse {first second : Option (Report Expr)}
    (hfirst : ∀ report ∈ first, J.holds good report)
    (hsecond : ∀ report ∈ second, J.holds good report) :
    ∀ report ∈ first <|> second, J.holds good report := by
  cases first with
  | none => exact hsecond
  | some report => exact hfirst

/-- Function and constructor types: an array of parameters and a result. -/
theorem signature (law : TypeLaw J find good) (name : String) {parameters : Report (List Expr)}
    {result : Option (Report Expr)}
    (hparameters : J.holds (fun exprs => ∀ expr ∈ exprs, good expr) parameters)
    (hresult : ∀ report ∈ result, J.holds good report) :
    J.holds good (do
      let exprs ← parameters
      return .construct name [.array exprs, ← Schemata.orAny result]) := by
  refine J.ofBind hparameters fun exprs hexprs => ?_
  refine J.ofBind (law.orAny hresult) fun expr hexpr => ?_
  exact J.ofPure (law.construct name _ (by simp [hexpr, law.array exprs hexprs]))

/-! ### Indexed accesses -/

theorem baseAndKey (node : Node) : J.holds (fun _ => True) node.baseAndKey := by
  unfold Node.baseAndKey
  split
  · exact J.ofPure trivial
  · exact J.ofFault _

theorem selectField (law : TypeLaw J find good) (node : Node) {expr : Expr} {key : String}
    (h : ∀ value, expr.field? key = some value → good value) :
    J.holds good (selectField node expr key) := by
  unfold Schemata.selectField
  split
  · rename_i value hvalue
    exact J.ofPure (h value hvalue)
  · exact law.failedAccess _ _ _

theorem resolveShallow (law : TypeLaw J find good) (node : Node) :
    J.holds good (resolveShallow find node) := by
  refine J.ofBind (baseAndKey node) fun pair _ => ?_
  obtain ⟨base, key⟩ := pair
  dsimp only
  split
  · exact law.failedAccess _ _ _
  · rename_i expr hexpr
    exact law.selectField node fun value hvalue => law.found _ _ _ value hexpr hvalue

theorem resolveDeep (law : TypeLaw J find good) (node : Node) :
    J.holds good (resolveDeep find node) := by
  refine J.ofBind (baseAndKey node) fun pair _ => ?_
  obtain ⟨inner, key⟩ := pair
  refine J.ofBind (law.resolveShallow inner) fun expr hexpr => ?_
  split
  · exact J.ofPure hexpr
  · exact law.selectField node fun value hvalue => law.field _ _ value hexpr hvalue

theorem resolveAccess (law : TypeLaw J find good) (node : Node) :
    J.holds good (resolveAccess find node) := by
  refine J.ofBind (baseAndKey node) fun pair _ => ?_
  obtain ⟨base, key⟩ := pair
  dsimp only
  split
  · exact law.resolveShallow node
  · split
    · refine J.ofBind (baseAndKey base) fun inner _ => ?_
      split
      · exact law.resolveDeep node
      · exact law.failedAccess _ _ _
    · exact law.failedAccess _ _ _

/-! ### The recursion

One theorem for each of the thirteen functions, by the same recursion. -/

mutual

theorem typeExpr (law : TypeLaw J find good) : (node : Node) → J.holds good (typeExpr find node)
  | .mk label children => by
    rw [Schemata.typeExpr]
    split
    · exact law.keywordType label
    · exact J.ofPure (law.namedType label.text)
    · exact J.ofPure (law.ref label.text)
    · exact J.ofPure (law.literalType label.text)
    · exact J.ofPure (law.constant "Rest")
    · exact law.resolveAccess (.mk label children)
    · refine J.ofBind (J.holds_require _ _) fun name _ => ?_
      split
      · exact J.ofPure (law.constant "Uint8Array")
      · exact J.ofBind (argumentExprs law children) fun args hargs =>
          J.ofPure (law.genericType name hargs)
    · exact J.ofBind (firstExpr law children) fun _ h => J.ofPure (law.wrap "Array" h)
    · exact J.ofBind (firstExpr law children) fun _ h => J.ofPure (law.wrap "KeyOf" h)
    · exact J.ofBind (firstExpr law children) fun _ h => J.ofPure (law.wrap "Readonly" h)
    · exact J.ofBind (firstExpr law children) fun _ h => J.ofPure (law.wrap "Optional" h)
    · exact firstExpr law children
    · exact J.ofBind (partExprs law children) fun _ h => J.ofPure (law.wrapArray "Tuple" h)
    · exact J.ofBind (memberExprs law .unionType children) fun _ h =>
        J.ofPure (law.wrapArray "Union" h)
    · exact J.ofBind (memberExprs law .intersectionType children) fun _ h =>
        J.ofPure (law.wrapArray "Intersect" h)
    · exact J.ofBind (fieldExprs law none children) fun fields h =>
        J.ofPure (law.wrap "Object" (law.object fields h))
    · exact law.signature "Function" (parameterExprs law children)
        (forall_mem_orElse (roleExpr? law .returnType children)
          (forall_mem_orElse (roleExpr? law .type children) (lastExpr? law children)))
    · exact law.signature "Constructor" (parameterExprs law children)
        (forall_mem_orElse (roleExpr? law .returnType children)
          (forall_mem_orElse (roleExpr? law .type children) (lastExpr? law children)))
    · refine J.ofBind (roleExpr law .left children) fun left hleft => ?_
      refine J.ofBind (roleExpr law .right children) fun right hright => ?_
      refine J.ofBind (roleExpr law .consequence children) fun consequence hconsequence => ?_
      refine J.ofBind (roleExpr law .alternative children) fun alternative halternative => ?_
      exact J.ofPure (law.construct "Extends" _ (by simp [*]))
    · exact law.orAny
        (forall_mem_orElse (annotationExpr? law children) (looseAnnotationExpr? law children))
    · exact J.ofBind
        (law.orAny
          (forall_mem_orElse (annotationExpr? law children) (looseAnnotationExpr? law children)))
        fun _ h => J.ofPure (law.wrap "Optional" h)
    · exact law.passThrough label

theorem firstExpr (law : TypeLaw J find good) :
    (nodes : List Node) → J.holds good (firstExpr find nodes)
  | [] => J.ofFault .noPart
  | node :: rest => by
    rw [Schemata.firstExpr]
    split
    · exact typeExpr law node
    · exact firstExpr law rest

theorem partExprs (law : TypeLaw J find good) :
    (nodes : List Node) → J.holds (fun exprs => ∀ expr ∈ exprs, good expr) (partExprs find nodes)
  | [] => J.ofPure (by simp)
  | node :: rest => by
    rw [Schemata.partExprs]
    split
    · exact J.ofBind (typeExpr law node) fun expr hexpr =>
        J.ofBind (partExprs law rest) fun exprs hexprs =>
          J.ofPure (List.forall_mem_cons.2 ⟨hexpr, hexprs⟩)
    · exact partExprs law rest

theorem roleExpr (law : TypeLaw J find good) (role : Role) :
    (nodes : List Node) → J.holds good (roleExpr find role nodes)
  | [] => J.ofPure (law.constant "Any")
  | node :: rest => by
    rw [Schemata.roleExpr]
    split
    · exact typeExpr law node
    · exact roleExpr law role rest

theorem argumentExprs (law : TypeLaw J find good) :
    (nodes : List Node) →
      J.holds (fun exprs => ∀ expr ∈ exprs, good expr) (argumentExprs find nodes)
  | [] => J.ofPure (by simp)
  | .mk label children :: rest => by
    rw [Schemata.argumentExprs]
    split
    · exact partExprs law children
    · exact argumentExprs law rest

theorem annotationExpr? (law : TypeLaw J find good) :
    (nodes : List Node) → ∀ report ∈ annotationExpr? find nodes, J.holds good report
  | [] => by simp [Schemata.annotationExpr?]
  | .mk label children :: rest => by
    rw [Schemata.annotationExpr?]
    split
    · rintro _ ⟨⟩
      exact firstExpr law children
    · exact annotationExpr? law rest

theorem looseAnnotationExpr? (law : TypeLaw J find good) :
    (nodes : List Node) → ∀ report ∈ looseAnnotationExpr? find nodes, J.holds good report
  | [] => by simp [Schemata.looseAnnotationExpr?]
  | .mk label children :: rest => by
    rw [Schemata.looseAnnotationExpr?]
    split
    · rintro _ ⟨⟩
      exact firstExpr law children
    · exact looseAnnotationExpr? law rest

theorem parameterExprs (law : TypeLaw J find good) :
    (nodes : List Node) →
      J.holds (fun exprs => ∀ expr ∈ exprs, good expr) (parameterExprs find nodes)
  | [] => J.ofPure (by simp)
  | .mk label children :: rest => by
    rw [Schemata.parameterExprs]
    split
    · exact parameterTypes law children
    · exact parameterExprs law rest

theorem parameterTypes (law : TypeLaw J find good) :
    (nodes : List Node) →
      J.holds (fun exprs => ∀ expr ∈ exprs, good expr) (parameterTypes find nodes)
  | [] => J.ofPure (by simp)
  | .mk label children :: rest => by
    rw [Schemata.parameterTypes]
    split
    · exact J.ofBind (law.orAny (annotationExpr? law children)) fun expr hexpr =>
        J.ofBind (parameterTypes law rest) fun exprs hexprs =>
          J.ofPure (List.forall_mem_cons.2 ⟨hexpr, hexprs⟩)
    · exact parameterTypes law rest

theorem roleExpr? (law : TypeLaw J find good) (role : Role) :
    (nodes : List Node) → ∀ report ∈ roleExpr? find role nodes, J.holds good report
  | [] => by simp [Schemata.roleExpr?]
  | node :: rest => by
    rw [Schemata.roleExpr?]
    split
    · rintro _ ⟨⟩
      exact typeExpr law node
    · exact roleExpr? law role rest

theorem lastExpr? (law : TypeLaw J find good) :
    (nodes : List Node) → ∀ report ∈ lastExpr? find nodes, J.holds good report
  | [] => by simp [Schemata.lastExpr?]
  | node :: rest => by
    rw [Schemata.lastExpr?]
    refine forall_mem_orElse (lastExpr? law rest) ?_
    split
    · rintro _ ⟨⟩
      exact typeExpr law node
    · simp

theorem memberExprs (law : TypeLaw J find good) (kind : Kind) :
    (nodes : List Node) →
      J.holds (fun exprs => ∀ expr ∈ exprs, good expr) (memberExprs find kind nodes)
  | [] => J.ofPure (by simp)
  | .mk label children :: rest => by
    rw [Schemata.memberExprs]
    split
    · split
      · exact J.ofBind (memberExprs law kind children) fun exprs hexprs =>
          J.ofBind (memberExprs law kind rest) fun more hmore =>
            J.ofPure (List.forall_mem_append.2 ⟨hexprs, hmore⟩)
      · exact J.ofBind (typeExpr law (.mk label children)) fun expr hexpr =>
          J.ofBind (memberExprs law kind rest) fun exprs hexprs =>
            J.ofPure (List.forall_mem_cons.2 ⟨hexpr, hexprs⟩)
    · exact memberExprs law kind rest

theorem fieldExprs (law : TypeLaw J find good) (previous : Option Node) :
    (nodes : List Node) →
      J.holds (fun fields => ∀ field ∈ fields, good field.2) (fieldExprs find previous nodes)
  | [] => J.ofPure (by simp)
  | .mk label children :: rest => by
    rw [Schemata.fieldExprs]
    split
    · split
      · refine J.ofBind (law.orAny (annotationExpr? law children)) fun expr hexpr => ?_
        refine J.ofBind (law.docOptions _) fun options hoptions => ?_
        refine J.ofBind (law.withOptions label hexpr fun result =>
          law.attach options expr result hoptions hexpr) fun result hresult => ?_
        refine J.ofBind (J.holds_require _ _) fun name _ => ?_
        refine J.ofBind (fieldExprs law _ rest) fun fields hfields => ?_
        exact J.ofPure (List.forall_mem_cons.2 ⟨law.withModifiers hresult _ _, hfields⟩)
      · exact J.ofBind (law.passThrough label) fun expr hexpr =>
          J.ofBind (fieldExprs law _ rest) fun fields hfields =>
            J.ofPure (List.forall_mem_cons.2 ⟨hexpr, hfields⟩)
    · exact fieldExprs law _ rest

end

/-- Deriving a type notes diagnostics and reports nothing else. -/
theorem ofNoted (J : Judgement) (find : String → Option Expr)
    (h : ∀ diagnostic, J.assured (.noted diagnostic)) : TypeLaw J find fun _ => True where
  construct _ _ _ := trivial
  literal _ := trivial
  builtin _ _ := trivial
  ref _ := trivial
  apply _ _ _ := trivial
  array _ _ := trivial
  object _ _ := trivial
  attach _ _ _ _ _ _ := trivial
  found _ _ _ _ _ _ := trivial
  field _ _ _ _ _ := trivial
  remark diagnostic := by
    intro _
    exact ⟨by simpa using h diagnostic, fun _ _ => trivial⟩
  remarked diagnostic text :=
    J.ofBind (J.ofEmit fun _ => h diagnostic) fun _ _ => J.ofPure trivial

end TypeLaw

end Schemata
