import Schemata.Proofs.Derive.SchemaParts

/-!
# What a name stands for along a file

The registry after a stretch of a file is told by the declarations of that stretch, so what an
access in the next statement finds is too.
-/

namespace Schemata

/-- A failed access shows in the file: its diagnostic is reported, and its marker is worked into the
declaration that it stands in. -/
theorem Report.IsFailedAccess.contributes {root declaration origin access : Node}
    {front : List Node} {previous : Option Node} {before derived : DerivedFile}
    (h : (typeExpr before.registry.get? access).IsFailedAccess)
    (hderived : (deriveFile root).result = .ok derived)
    (hat : StatementAt root front previous declaration) (hkind : declaration.kind.isSchema = true)
    (hbefore : (statements .empty none front).result = .ok before)
    (horigin : origin ∈ declaration.ownTypes ++ declaration.heritageTypes)
    (hwithin : TypeWithin origin access) :
    (typeExpr before.registry.get? access).events ⊆ (deriveFile root).events ∧
    ∃ (parts : SchemaParts) (exported : Bool),
      parts.declaration declaration exported ∈ Declaration.nestedOf derived.declarations ∧
      ∃ part ∈ parts.own :: parts.heritage, (Expr.raw accessErrorMarker).WorkedInto part := by
  obtain ⟨before', hbefore', -, parts, exported, hdeclared, hparts⟩ :=
    exists_schemaParts_of_statementAt hderived hat hkind
  obtain rfl : before = before' := Except.ok.inj (hbefore.symm.trans hbefore')
  obtain ⟨diagnostic, -, hreport⟩ := h
  have hmarker : (typeExpr before.registry.get? access).result = .ok (.raw accessErrorMarker) := by
    rw [hreport]
  rcases List.mem_append.1 horigin with hown | hheritage
  · obtain ⟨expr, hexpr, hevents, hworked⟩ := hparts.exists_own hown hwithin
    obtain rfl := Except.ok.inj (hmarker.symm.trans hexpr)
    exact ⟨hevents, parts, exported, hdeclared, _, List.mem_cons_self, hworked⟩
  · obtain ⟨expr, hexpr, hevents, clause, hclause, hworked⟩ :=
      hparts.exists_heritage hheritage hwithin
    obtain rfl := Except.ok.inj (hmarker.symm.trans hexpr)
    exact ⟨hevents, parts, exported, hdeclared, _, List.mem_cons_of_mem _ hclause, hworked⟩

/-- **The registry along a file.** After any stretch of the statements of a file, each name has in
the registry the body of the last plain schema declaration of that name so far, and the next
statement is derived by looking names up there. A statement without a plain declaration and
everything inside a namespace leave the registry alone, and an access to a name that the stretch
does not plainly declare fails with one diagnostic. If the access stands in the next statement, the
diagnostic is one of the file, and the marker is worked into the declaration around the access. -/
theorem registry_eq_lastDeclared (root : Node) (k : Nat) (derived : DerivedFile)
    (h : (statements .empty none (root.children.take k)).result = .ok derived) :
    (∀ name, derived.registry.get? name =
      lastValue? name (derived.declarations.filterMap Declaration.registration?)) ∧
    (∀ node rest, root.children.drop k = node :: rest → node.label.named = true →
      deriveFile root = (do
        let first ← statements .empty none (root.children.take k)
        let previous := (root.children.take k).getLast?
        let found ← statement first.registry.get? true false previous node
        let second ← statements (first.registry.apply
          (statement first.registry.get? true false previous node).events) (some node) rest
        return ⟨first.declarations ++ (found.toList ++ second.declarations), second.registry⟩)) ∧
    (∀ previous node,
      (∀ name exported body, (statement derived.registry.get? true false previous node).result ≠
        .ok (some (.schema name exported body []))) →
      derived.registry.apply (statement derived.registry.get? true false previous node).events =
        derived.registry) ∧
    (∀ exported previous node,
      derived.registry.apply
        (statement derived.registry.get? false exported previous node).events =
          derived.registry) ∧
    (∀ name, (∀ exported body, .schema name exported body [] ∉ derived.declarations) →
      ∀ access, AccessOn name access →
        (typeExpr derived.registry.get? access).IsFailedAccess ∧
        ∀ previous declaration origin whole,
          StatementAt root (root.children.take k) previous declaration →
          declaration.kind.isSchema = true →
          origin ∈ declaration.ownTypes ++ declaration.heritageTypes → TypeWithin origin access →
          (deriveFile root).result = .ok whole →
          (typeExpr derived.registry.get? access).events ⊆ (deriveFile root).events ∧
          ∃ (parts : SchemaParts) (exported : Bool),
            parts.declaration declaration exported ∈ Declaration.nestedOf whole.declarations ∧
            ∃ part ∈ parts.own :: parts.heritage,
              (Expr.raw accessErrorMarker).WorkedInto part) := by
  have hget : ∀ name, derived.registry.get? name =
      lastValue? name (derived.declarations.filterMap Declaration.registration?) := by
    intro name
    rw [statements_registry h, Registry.get?, valueAt?_foldl_setEntry]
    simp [Registry.empty, valueAt?]
  refine ⟨hget, ?_, ?_, ?_, ?_⟩
  · intro node rest hdrop hnamed
    have hsplit : root.children = root.children.take k ++ node :: rest := by
      rw [← hdrop, List.take_append_drop]
    rw [deriveFile, hsplit, statements_append, ← hsplit]
    simp only [statements, hnamed, if_true, Option.or_none, bind_assoc, pure_bind]
  · exact fun previous node hplain => apply_statement_of_not_plain _ previous node hplain _
  · intro exported previous node
    exact Registry.apply_of_registrations_eq_nil
      (registrations_nested_statement _ exported previous node) _
  · intro name hname access haccess
    have hnone : derived.registry.get? name = none := by
      rw [hget, lastValue?_eq_none_iff]
      rintro ⟨other, body⟩ hmem rfl
      obtain ⟨declaration, hdeclaration, hregistration⟩ := List.mem_filterMap.1 hmem
      obtain ⟨exported, rfl⟩ := Declaration.eq_of_registration? hregistration
      exact hname exported body hdeclaration
    have hfailed := isFailedAccess_typeExpr hnone haccess
    refine ⟨hfailed, fun previous declaration origin whole hat hkind horigin hwithin hwhole => ?_⟩
    exact hfailed.contributes hwhole hat hkind h horigin hwithin

/-- `type T = B["b"]` -/
def shadowedAccess : Node := .sampleAlias "T" [] (.sampleAccess "B" "\"b\"")

/-- The access after a generic `B`, a namespace with a plain `B`, and a plain `A`. -/
def shadowedBaseFile : Node :=
  .sample (.other "program") none "" [
    .sampleAlias "B" [.sampleParameter "X"] (.sample .predefinedType (some .value) "string" []),
    .sampleNamespace "N" [
      .sampleAlias "B" [] (.sample .predefinedType (some .value) "number" [])],
    .sampleAlias "A" [] (.sample .predefinedType (some .value) "string" []),
    shadowedAccess]

/-- Before the last statement only `A` is registered, so its access fails and the file says so. -/
theorem registry_shadowedBaseFile :
    ∃ derived, (statements .empty none (shadowedBaseFile.children.take 3)).result = .ok derived ∧
      derived.registry.get? "A" = some (.constant "String") ∧
      derived.registry.get? "B" = none ∧
      (typeExpr derived.registry.get? (.sampleAccess "B" "\"b\"")).IsFailedAccess ∧
      (typeExpr derived.registry.get? (.sampleAccess "B" "\"b\"")).events ⊆
        (deriveFile shadowedBaseFile).events := by
  have hderived : (statements .empty none (shadowedBaseFile.children.take 3)).result =
      .ok ⟨[.schema "B" false (.constant "String") ["X"],
        .scope "N" false "namespace" [.schema "B" false (.constant "Number") []],
        .schema "A" false (.constant "String") []], ⟨[("A", .constant "String")]⟩⟩ := rfl
  obtain ⟨-, -, -, -, haccess⟩ := registry_eq_lastDeclared shadowedBaseFile 3 _ hderived
  obtain ⟨hfailed, hshown⟩ := haccess "B" (by simp) (.sampleAccess "B" "\"b\"")
    (.direct rfl rfl rfl rfl)
  have hat : StatementAt shadowedBaseFile (shadowedBaseFile.children.take 3) _ shadowedAccess :=
    ⟨_, [], rfl, rfl, .refl⟩
  exact ⟨_, hderived, rfl, rfl, hfailed,
    (hshown _ shadowedAccess _ _ hat rfl List.mem_cons_self .refl rfl).1⟩

end Schemata
