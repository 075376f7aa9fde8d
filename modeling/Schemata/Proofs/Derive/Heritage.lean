import Schemata.Proofs.Derive.Independence

/-!
# Types of `extends` clauses

A type of an `extends` clause is read by a rule of its own: a name is a reference, a name with
arguments an application. Elsewhere the same type is read by the rule for all types, which knows the
names that have a constructor. The two rules agree on every other name, and nowhere else.
-/

namespace Schemata

/-- The constructor of a type that is written with arguments, if it has one. -/
def genericConstructor? (name : String) : Option String :=
  if name == "Uint8Array" || builtinGenerics.contains name then some name else none

namespace Node

/-- The kinds of nodes that refer to a type by its name. -/
def isReference (node : Node) : Bool :=
  node.kind == .typeIdentifier || node.kind == .nestedTypeIdentifier || node.kind == .genericType

/-- The constructor that a reference has as a type, if its name has one. -/
def ownConstructor? (node : Node) : Option String :=
  match node.kind with
  | .typeIdentifier => (keywordConstructor? node.text).or (genericConstructor? node.text)
  | .genericType => (node.child? .name).bind fun name => genericConstructor? name.text
  | _ => none

end Node

def clauseExpr : List Expr → Expr
  | [expr] => expr
  | exprs => .construct "Intersect" [.array exprs]

theorem heritageClause_eq (find : String → Option Expr) (clause : Node) :
    heritageClause find clause = clauseExpr <$> clause.parts.mapM (heritageExpr find) := by
  rw [heritageClause, map_eq_pure_bind]
  congr 1
  funext exprs
  obtain _ | ⟨expr, _ | ⟨next, exprs⟩⟩ := exprs
  · rfl
  · rfl
  · rfl

/-! ### The two rules side by side -/

theorem ne_of_genericConstructor?_eq_none {name : String} (h : genericConstructor? name = none) :
    (name == "Uint8Array") = false ∧ builtinGenerics.contains name = false := by
  rw [genericConstructor?] at h
  split at h
  · cases h
  · rename_i hname
    rwa [Bool.not_eq_true, Bool.or_eq_false_iff] at hname

theorem genericConstructor?_eq_some {name constructor : String}
    (h : genericConstructor? name = some constructor) :
    constructor = name ∧
      ((name == "Uint8Array") = true ∨ builtinGenerics.contains name = true) := by
  rw [genericConstructor?] at h
  split at h
  · rename_i hname
    cases h
    exact ⟨rfl, Bool.or_eq_true_iff.1 hname⟩
  · cases h

theorem namedType_of_none {name : String}
    (h : (keywordConstructor? name).or (genericConstructor? name) = none) :
    namedType name = .ref name := by
  rw [Option.or_eq_none_iff] at h
  obtain ⟨hbytes, hbuiltin⟩ := ne_of_genericConstructor?_eq_none h.2
  simp only [namedType, h.1, hbytes, hbuiltin, Bool.false_eq_true, if_false]

theorem namedType_ne_ref {name constructor : String}
    (h : (keywordConstructor? name).or (genericConstructor? name) = some constructor)
    (other : String) : namedType name ≠ .ref other := by
  rw [namedType]
  cases hkeyword : keywordConstructor? name with
  | some keyword => simp [Expr.constant]
  | none =>
    rw [hkeyword, Option.none_or] at h
    rcases (genericConstructor?_eq_some h).2 with hbytes | hbuiltin
    · simp [hbytes, Expr.constant]
    · simp only [hbuiltin, if_true]
      split <;> simp [Expr.constant]

theorem genericType_ne_apply {name constructor : String}
    (h : genericConstructor? name = some constructor) (hbytes : (name == "Uint8Array") = false)
    (args : List Expr) (callee : String) (others : List Expr) :
    genericType name args ≠ .apply callee others := by
  have hbuiltin := (genericConstructor?_eq_some h).2.resolve_left (by simp [hbytes])
  rw [genericType, hbuiltin]
  simp [Expr.construct]

/-- How a reference in an `extends` clause is read, compared with the rule for all types. -/
structure ReadAsHeritage (find : String → Option Expr) (node : Node) : Prop where
  /-- A name without a constructor is read the same, with the same events. -/
  same : node.ownConstructor? = none → heritageExpr find node = typeExpr find node
  /-- A name with a constructor is not: the constructor is missing. -/
  other : ∀ constructor, node.ownConstructor? = some constructor →
    ∀ expr, (heritageExpr find node).result = .ok expr → (typeExpr find node).result ≠ .ok expr
  /-- A built-in generic type is applied where it should be constructed, to the same arguments. -/
  applied : ∀ name, node.kind = .genericType → node.child? .name = some name →
    name.text ∈ builtinGenerics →
      heritageExpr find node = .apply name.text <$> argumentExprs find node.children ∧
      typeExpr find node = .construct name.text <$> argumentExprs find node.children
  /-- The events are the same but for the arguments of a byte array, which only this rule reads. -/
  events : (node.kind = .genericType → node.ownConstructor? ≠ some "Uint8Array") →
    (heritageExpr find node).events = (typeExpr find node).events

section

variable (find : String → Option Expr) {node name : Node}

theorem ReadAsHeritage.of_eq (hsame : heritageExpr find node = typeExpr find node)
    (hown : node.ownConstructor? = none)
    (hname : node.kind = .genericType → node.child? .name = none) : ReadAsHeritage find node := by
  constructor
  · exact fun _ => hsame
  · intro constructor hsome
    rw [hown] at hsome
    cases hsome
  · intro name hkind hsome
    rw [hname hkind] at hsome
    cases hsome
  · exact fun _ => congrArg Report.events hsame

theorem readAsHeritage_nested (hkind : node.kind = .nestedTypeIdentifier) :
    ReadAsHeritage find node := by
  refine .of_eq find ?_ ?_ ?_
  · obtain ⟨label, children⟩ := node
    rw [heritageExpr, typeExpr, show label.kind = .nestedTypeIdentifier from hkind, hkind]
    rfl
  · rw [Node.ownConstructor?, hkind]
  · intro hgeneric
    rw [hkind] at hgeneric
    cases hgeneric

theorem readAsHeritage_name (hkind : node.kind = .typeIdentifier) : ReadAsHeritage find node := by
  have hheritage : heritageExpr find node = pure (.ref node.text) := by
    rw [heritageExpr, hkind]
    rfl
  have htype : typeExpr find node = pure (namedType node.text) := by
    obtain ⟨label, children⟩ := node
    rw [typeExpr, show label.kind = .typeIdentifier from hkind]
    rfl
  have hown : node.ownConstructor? =
      (keywordConstructor? node.text).or (genericConstructor? node.text) := by
    rw [Node.ownConstructor?, hkind]
  constructor
  · intro hnone
    rw [hheritage, htype, namedType_of_none (hown ▸ hnone)]
  · intro constructor hsome expr hexpr hsame
    rw [hheritage] at hexpr
    rw [htype] at hsame
    cases hexpr
    exact namedType_ne_ref (hown ▸ hsome) node.text (Except.ok.inj hsame)
  · intro name hgeneric
    rw [hkind] at hgeneric
    cases hgeneric
  · intro _
    rw [hheritage, htype]
    rfl

theorem nameText_of_child (hname : node.child? .name = some name) :
    nameText node.children = pure name.text := by
  rw [nameText, show node.children.find? _ = some name from hname]
  rfl

theorem heritageExpr_generic (hkind : node.kind = .genericType)
    (hname : node.child? .name = some name) :
    heritageExpr find node = .apply name.text <$> argumentExprs find node.children := by
  rw [heritageExpr, hkind, nameText_of_child hname, map_eq_pure_bind]
  rfl

theorem typeExpr_generic (hkind : node.kind = .genericType)
    (hname : node.child? .name = some name) :
    typeExpr find node =
      if name.text == "Uint8Array" then pure (.constant "Uint8Array")
      else genericType name.text <$> argumentExprs find node.children := by
  have hread := nameText_of_child hname
  obtain ⟨label, children⟩ := node
  rw [typeExpr, show label.kind = .genericType from hkind]
  simp only [show nameText children = pure name.text from hread, pure_bind, map_eq_pure_bind,
    Node.children]

theorem readAsHeritage_unnamed (hkind : node.kind = .genericType)
    (hname : node.child? .name = none) : ReadAsHeritage find node := by
  have hread : nameText node.children = Report.fault .noName := by
    rw [nameText, show node.children.find? _ = none from hname]
    rfl
  refine .of_eq find ?_ ?_ fun _ => hname
  · obtain ⟨label, children⟩ := node
    rw [heritageExpr, typeExpr, show label.kind = .genericType from hkind, hkind, hread,
      show nameText children = Report.fault .noName from hread]
    rfl
  · rw [Node.ownConstructor?, hkind, hname]
    rfl

theorem readAsHeritage_generic (hkind : node.kind = .genericType)
    (hname : node.child? .name = some name) : ReadAsHeritage find node := by
  have hheritage := heritageExpr_generic find hkind hname
  have htype := typeExpr_generic find hkind hname
  have hown : node.ownConstructor? = genericConstructor? name.text := by
    rw [Node.ownConstructor?, hkind, hname]
    rfl
  constructor
  · intro hnone
    obtain ⟨hbytes, hbuiltin⟩ := ne_of_genericConstructor?_eq_none (hown ▸ hnone)
    have happly : genericType name.text = .apply name.text := by
      funext args
      rw [genericType, hbuiltin]
      rfl
    rw [hheritage, htype, hbytes, happly]
    rfl
  · intro constructor hsome expr hexpr hsame
    rw [hheritage, Report.result_map_eq_ok] at hexpr
    obtain ⟨args, -, rfl⟩ := hexpr
    rw [htype] at hsame
    split at hsame
    · cases hsame
    · rename_i hbytes
      obtain ⟨others, -, heq⟩ := Report.result_map_eq_ok.1 hsame
      exact genericType_ne_apply (hown ▸ hsome) (by simpa using hbytes) _ _ _ heq
  · intro other _ hother hbuiltin
    obtain rfl : name = other := Option.some.inj (hname.symm.trans hother)
    have hbytes : (name.text == "Uint8Array") = false := by
      rw [beq_eq_false_iff_ne]
      intro heq
      rw [heq] at hbuiltin
      exact absurd hbuiltin (by decide)
    have hconstruct : genericType name.text = .construct name.text := by
      funext args
      rw [genericType, List.contains_iff_mem.2 hbuiltin]
      rfl
    refine ⟨hheritage, ?_⟩
    rw [htype, hbytes, hconstruct]
    rfl
  · intro hbytes
    have hname : (name.text == "Uint8Array") = false := by
      rw [beq_eq_false_iff_ne]
      intro heq
      refine hbytes hkind ?_
      rw [hown, heq]
      rfl
    rw [hheritage, htype, hname]
    exact (Report.events_map _ _).trans (Report.events_map _ _).symm

theorem readAsHeritage (h : node.isReference = true) : ReadAsHeritage find node := by
  simp only [Node.isReference, Bool.or_eq_true, beq_iff_eq] at h
  rcases h with (hkind | hkind) | hkind
  · exact readAsHeritage_name find hkind
  · exact readAsHeritage_nested find hkind
  · cases hname : node.child? .name with
    | none => exact readAsHeritage_unnamed find hkind hname
    | some name => exact readAsHeritage_generic find hkind hname

end

/-- **Heritage goes by the bare name.** A reference in an `extends` clause is read as it would be in
any other place, with the same events, exactly if its name has no constructor: a built-in generic
type is applied like a declared one. A clause of names without constructors is what its types are,
or their intersection. -/
theorem heritage_by_bareName (find : String → Option Expr) (clause : Node) :
    (∀ node ∈ clause.parts, node.isReference = true → ReadAsHeritage find node) ∧
      ((∀ node ∈ clause.parts, node.isReference = true ∧ node.ownConstructor? = none) →
        heritageClause find clause = clauseExpr <$> clause.parts.mapM (typeExpr find)) := by
  refine ⟨fun node _ hreference => readAsHeritage find hreference, fun hplain => ?_⟩
  rw [heritageClause_eq, Report.mapM_congr fun node hnode =>
    (readAsHeritage find (hplain node hnode).1).same (hplain node hnode).2]

/-- The type `name<argument>`. -/
def Node.sampleGeneric (name argument : String) : Node :=
  sample .genericType none "" [
    sample .typeIdentifier (some .name) name [],
    sample (.other "type_arguments") (some .typeArguments) "" [
      sample .typeIdentifier none argument []]]

/-- `extends B, C<X>` -/
def plainClause : Node :=
  .sample .extendsClause none "" [.sample .typeIdentifier none "B" [], .sampleGeneric "C" "X"]

/-- `extends Partial<B>` -/
def partialClause : Node := .sample .extendsClause none "" [.sampleGeneric "Partial" "B"]

/-- Declared names are read as types; a built-in one becomes the call of a function that is declared
nowhere. -/
theorem heritage_partialClause :
    heritageClause (fun _ => none) plainClause =
        clauseExpr <$> plainClause.parts.mapM (typeExpr fun _ => none) ∧
      (heritageClause (fun _ => none) plainClause).result =
        .ok (.construct "Intersect" [.array [.ref "B", .apply "C" [.ref "X"]]]) ∧
      (typeExpr (fun _ => none) (.sampleGeneric "Partial" "B")).result ≠
        (heritageExpr (fun _ => none) (.sampleGeneric "Partial" "B")).result ∧
      (heritageClause (fun _ => none) partialClause).result =
        .ok (.apply "Partial" [.ref "B"]) := by
  have hpartial := (heritage_by_bareName (fun _ => none) partialClause).1
    (.sampleGeneric "Partial" "B") (List.mem_singleton.2 rfl) rfl
  refine ⟨(heritage_by_bareName (fun _ => none) plainClause).2 ?_, rfl, ?_, rfl⟩
  · intro node hnode
    rcases List.mem_pair.1 hnode with rfl | rfl
    · exact ⟨rfl, by decide⟩
    · exact ⟨rfl, by decide⟩
  · exact hpartial.other "Partial" (by decide) _ rfl

end Schemata
