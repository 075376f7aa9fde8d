import Schemata.Proofs.Derive.SchemaParts
import Schemata.Text.Blank

/-!
# Statements that are passed through

Functions, classes and everything that has no translation are passed through as text. Outside of
exports that is the text of the statement itself. Of an export only the declaration inside is looked
at, and what stands in front of it is lost: a function or a class gets the word `export` back, so
its text is the same up to blanks and comments if nothing but that word was in front of it; any
other declaration does not get it back.
-/

namespace Schemata

namespace Node

/-- Whether a statement is an export with a declaration inside. -/
def isExporting (node : Node) : Bool :=
  node.kind == .exportStatement && (node.child? .declaration).isSome

/-- The declaration inside all exports around it. -/
inductive ExportCore : Node → Node → Prop where
  | self {node : Node} (h : node.isExporting = false) : ExportCore node node
  | inside {node inner core : Node} (hkind : node.kind = .exportStatement)
      (hinner : node.child? .declaration = some inner) (h : ExportCore inner core) :
      ExportCore node core

/-- Whether a statement that is no export of a declaration is passed through. -/
def isPassed (node : Node) : Bool :=
  match node.kind with
  | .comment | .emptyStatement | .typeAlias | .interface | .enumeration | .internalModule
  | .externalModule => false
  | .expressionStatement =>
    match node.parts with
    | [part] => part.kind != .internalModule
    | _ => true
  | _ => true

/-- The text that becomes of a declaration, which may stand in an export. -/
def passedText (core : Node) (exported : Bool) : String :=
  if exported && core.kind.isKept then "export " ++ core.text else core.text

/-- What may become of a statement that is no export itself. -/
inductive PassedAs (node : Node) (exported : Bool) : Option Declaration → Prop where
  | passed (h : node.isPassed = true) :
      PassedAs node exported (some (.verbatim (node.passedText exported)))
  | translated {found : Option Declaration} (h : node.isPassed = false)
      (hne : ∀ text, found ≠ some (.verbatim text)) : PassedAs node exported found

theorem PassedAs.verbatim_iff {node : Node} {exported : Bool} {found : Option Declaration}
    (h : node.PassedAs exported found) (text : String) :
    found = some (.verbatim text) ↔ node.isPassed = true ∧ text = node.passedText exported := by
  cases h with
  | passed h => simp [h, eq_comm]
  | translated h hne => simp [h, hne]

theorem isPassed_of_isKept {node : Node} (h : node.kind.isKept = true) : node.isPassed = true := by
  unfold Kind.isKept at h
  split at h <;> rename_i hkind
  · simp [isPassed, hkind]
  · simp [isPassed, hkind]
  · simp [isPassed, hkind]
  · cases h

theorem exists_exportCore (node : Node) : ∃ core, ExportCore node core := by
  induction node using Node.induct with
  | step node ih =>
    cases hexport : node.isExporting with
    | false => exact ⟨node, .self hexport⟩
    | true =>
      rw [isExporting, Bool.and_eq_true, Option.isSome_iff_exists] at hexport
      obtain ⟨hkind, inner, hinner⟩ := hexport
      obtain ⟨core, hcore⟩ := ih inner (mem_descendants_of_child? hinner)
      exact ⟨core, .inside (eq_of_beq hkind) hinner hcore⟩

end Node

section Statements

variable {find : String → Option Expr} {topLevel exported : Bool} {previous : Option Node}

theorem passedAs_of_unsupported {node : Node} (hkept : ¬ node.kind.isKept = true)
    (hpassed : node.isPassed = true) {found : Option Declaration}
    (h : (unsupportedStatement node.label).result = .ok found) : node.PassedAs exported found := by
  have htext : node.passedText exported = node.label.text := by
    simp [Node.passedText, Bool.eq_false_iff.2 hkept, Node.text]
  obtain ⟨_, -, h⟩ := Report.result_bind_eq_ok.1 h
  cases h
  rw [← htext]
  exact .passed hpassed

theorem ne_verbatim_of_isSchema {node : Node} (hkind : node.kind.isSchema = true)
    {found : Option Declaration}
    (h : (statement find topLevel exported previous node).result = .ok found) (text : String) :
    found ≠ some (.verbatim text) := by
  rw [statement_eq_schemaStatement hkind, map_eq_pure_bind] at h
  obtain ⟨declaration, hdeclaration, h⟩ := Report.result_bind_eq_ok.1 h
  obtain ⟨parts, rfl, -⟩ := exists_schemaParts hdeclaration
  cases h
  rintro ⟨⟩

theorem ne_verbatim_of_scope {children : List Node} {keyword : String} {found : Option Declaration}
    (h : (do
      let name ← nameText children
      return some (.scope name exported keyword (← scopeBody find children)) :
        Report (Option Declaration)).result = .ok found) (text : String) :
    found ≠ some (.verbatim text) := by
  obtain ⟨name, -, h⟩ := Report.result_bind_eq_ok.1 h
  obtain ⟨body, -, h⟩ := Report.result_bind_eq_ok.1 h
  cases h
  rintro ⟨⟩

theorem ne_verbatim_of_enumeration {node : Node} {found : Option Declaration}
    (h : (some <$> enumDeclaration exported node).result = .ok found) (text : String) :
    found ≠ some (.verbatim text) := by
  rw [map_eq_pure_bind] at h
  obtain ⟨declaration, henum, h⟩ := Report.result_bind_eq_ok.1 h
  obtain ⟨_, -, henum⟩ := Report.result_bind_eq_ok.1 henum
  obtain ⟨_, -, henum⟩ := Report.result_bind_eq_ok.1 henum
  cases henum
  cases h
  rintro ⟨⟩

theorem statement_of_isKept {node : Node} (hkind : node.kind.isKept = true) :
    statement find topLevel exported previous node =
      pure (some (.verbatim (node.passedText exported))) := by
  obtain ⟨label, children⟩ := node
  rw [Node.passedText, hkind, Bool.and_true, statement]
  change label.kind.isKept = true at hkind
  unfold Kind.isKept at hkind
  split at hkind <;> rename_i hlabel
  · rw [hlabel]
    rfl
  · rw [hlabel]
    rfl
  · rw [hlabel]
    rfl
  · cases hkind

/-- Of the expressions only a namespace is translated. -/
theorem passedAs_expression {label : Label} {children : List Node}
    (hkind : label.kind = .expressionStatement) {found : Option Declaration}
    (h : (statement find topLevel exported previous (.mk label children)).result = .ok found) :
    (Node.mk label children).PassedAs exported found := by
  have hlabel : (Node.mk label children).kind = .expressionStatement := hkind
  have hkept : ¬ (Node.mk label children).kind.isKept = true := by simp [hlabel, Kind.isKept]
  have hparts : (Node.mk label children).parts = children.filter Node.isPart := rfl
  rw [statement, hkind] at h
  simp only at h
  split at h
  · rename_i part honly
    split at h
    · rename_i hinternal
      obtain ⟨partLabel, partChildren⟩ := part
      have hpart : partLabel.kind = .internalModule := eq_of_beq hinternal
      rw [onlyPart_eq find exported honly, statement, hpart] at h
      refine .translated ?_ (ne_verbatim_of_scope h)
      simp [Node.isPassed, hlabel, hparts, honly, eq_of_beq hinternal]
    · rename_i hinternal
      refine passedAs_of_unsupported hkept ?_ h
      simpa [Node.isPassed, hlabel, hparts, honly] using hinternal
  · refine passedAs_of_unsupported hkept ?_ h
    simp only [Node.isPassed, hlabel, hparts]

/-- A statement that is no export is passed through exactly if it is of the kinds for that. -/
theorem passedAs_of_not_isExporting {node : Node} (hexport : node.isExporting = false)
    {found : Option Declaration}
    (h : (statement find topLevel exported previous node).result = .ok found) :
    node.PassedAs exported found := by
  by_cases hschema : node.kind.isSchema = true
  · refine .translated ?_ (ne_verbatim_of_isSchema hschema h)
    rcases Kind.eq_of_isSchema hschema with hkind | hkind <;> simp [Node.isPassed, hkind]
  by_cases hkept : node.kind.isKept = true
  · rw [statement_of_isKept hkept] at h
    cases h
    exact .passed (Node.isPassed_of_isKept hkept)
  obtain ⟨label, children⟩ := node
  have hlabel : (Node.mk label children).kind = label.kind := rfl
  by_cases hexpression : label.kind = .expressionStatement
  · exact passedAs_expression hexpression h
  rw [statement] at h
  split at h <;> rename_i hkind
  · cases h
    exact .translated (by simp [Node.isPassed, hlabel, hkind]) (by simp)
  · cases h
    exact .translated (by simp [Node.isPassed, hlabel, hkind]) (by simp)
  · exact absurd (congrArg Kind.isKept hkind) hkept
  · exact absurd (congrArg Kind.isKept hkind) hkept
  · exact absurd (congrArg Kind.isKept hkind) hkept
  · exact absurd (congrArg Kind.isSchema hkind) hschema
  · exact absurd (congrArg Kind.isSchema hkind) hschema
  · exact .translated (by simp [Node.isPassed, hlabel, hkind]) (ne_verbatim_of_enumeration h)
  · exact .translated (by simp [Node.isPassed, hlabel, hkind]) (ne_verbatim_of_scope h)
  · exact .translated (by simp [Node.isPassed, hlabel, hkind]) (ne_verbatim_of_scope h)
  · have hnone : Node.first? .declaration children = none := by
      change (Node.mk label children).child? .declaration = none
      simpa [Node.isExporting, hlabel, hkind] using hexport
    rw [exportedStatement?_eq, hnone] at h
    exact passedAs_of_unsupported hkept (by simp [Node.isPassed, hlabel, hkind]) h
  · exact absurd hkind hexpression
  · refine passedAs_of_unsupported hkept ?_ h
    unfold Node.isPassed
    split <;> simp_all

/-- What becomes of a statement is decided by the declaration inside its exports. -/
theorem verbatim_iff {node core : Node} (hcore : node.ExportCore core) {found : Option Declaration}
    (h : (statement find topLevel exported previous node).result = .ok found) (text : String) :
    found = some (.verbatim text) ↔
      core.isPassed = true ∧ text = core.passedText (exported || node.isExporting) := by
  induction hcore generalizing topLevel exported previous with
  | self hexport =>
    rw [hexport, Bool.or_false]
    exact (passedAs_of_not_isExporting hexport h).verbatim_iff text
  | @inside node inner core hkind hinner _ ih =>
    have hexport : node.isExporting = true := by simp [Node.isExporting, hkind, hinner]
    obtain ⟨label, children⟩ := node
    have hlabel : label.kind = .exportStatement := hkind
    have hfirst : Node.first? .declaration children = some inner := hinner
    rw [statement, hlabel, exportedStatement?_eq, hfirst] at h
    rw [ih h, hexport, Bool.true_or, Bool.or_true]

end Statements

/-! ### The same text -/

inductive IsGap : String → Prop where
  | empty : IsGap ""
  | blank {c : Char} {gap : String} (hc : Text.isBlank c = true) (h : IsGap gap) :
      IsGap (String.singleton c ++ gap)
  | lineComment {body gap : String} (hbody : '\n' ∉ body.toList) (h : IsGap gap) :
      IsGap ("//" ++ body ++ "\n" ++ gap)
  | blockComment {body gap : String} (hbody : ¬ ['*', '/'] <:+: body.toList) (h : IsGap gap) :
      IsGap ("/*" ++ body ++ "*/" ++ gap)

/-- Texts that differ at most in the gaps behind the leading words of an export. -/
inductive SameUpToGaps : String → String → Prop where
  | same (text : String) : SameUpToGaps text text
  | behind {word gap other rest more : String} (hword : word ∈ ["export", "default"])
      (hgap : IsGap gap) (hother : IsGap other) (h : SameUpToGaps rest more) :
      SameUpToGaps (word ++ gap ++ rest) (word ++ other ++ more)

theorem isGap_singleton {c : Char} (h : Text.isBlank c = true) : IsGap (String.singleton c) := by
  simpa using IsGap.blank h .empty

/-- A statement that is no export, or one with nothing but the word `export` in front of a function
or a class. -/
def Node.OpensPlainly (node core : Node) : Prop :=
  node.isExporting = true →
    core.kind.isKept = true ∧ ∃ gap, IsGap gap ∧ node.text = "export" ++ gap ++ core.text

theorem Node.ExportCore.eq_of_not_isExporting {node core : Node} (h : node.ExportCore core)
    (hexport : node.isExporting = false) : core = node := by
  cases h with
  | self => rfl
  | inside hkind hinner => simp [Node.isExporting, hkind, hinner] at hexport

theorem sameUpToGaps_passedText {node core : Node} (hcore : node.ExportCore core)
    (h : node.OpensPlainly core) : SameUpToGaps node.text (core.passedText node.isExporting) := by
  cases hexport : node.isExporting with
  | false =>
    rw [hcore.eq_of_not_isExporting hexport, Node.passedText, Bool.false_and]
    exact .same _
  | true =>
    obtain ⟨hkept, gap, hgap, htext⟩ := h hexport
    have hpassed : core.passedText true = "export" ++ " " ++ core.text := by
      simp [Node.passedText, hkept]
    have hspace : IsGap " " := isGap_singleton (c := ' ') (by decide)
    rw [hpassed, htext]
    exact .behind (by simp) hgap hspace (.same _)

/-! ### Statements of a file -/

/-- A statement of the file itself, or in the body of a namespace that lies behind the given children
of the file. -/
inductive OwnStatement (root : Node) (front : List Node) : Option Node → Node → Prop where
  | top {node : Node} {back : List Node} (hsplit : root.children = front ++ node :: back)
      (hnamed : node.label.named = true) : OwnStatement root front front.getLast? node
  | inScope {before previous : Option Node} {scope node : Node}
      (hscope : StatementAt root front before scope)
      (hkind : scope.kind = .internalModule ∨ scope.kind = .externalModule)
      (hnode : (previous, node) ∈ scope.subStatements before) : OwnStatement root front previous node

theorem contributes_subStatement_of_scope {find : String → Option Expr} {scope node : Node}
    {before previous : Option Node}
    (hkind : scope.kind = .internalModule ∨ scope.kind = .externalModule)
    (hnode : (previous, node) ∈ scope.subStatements before) (topLevel exported : Bool) :
    (statement find false false previous node).Contributes DeclaredWithin
      (statement find topLevel exported before scope) := by
  obtain ⟨label, children⟩ := scope
  rcases hkind with hkind | hkind
  · rw [Node.subStatements, hkind] at hnode
    rw [statement, show label.kind = .internalModule from hkind]
    exact contributes_scope (.mk label children) exported _ hnode
  · rw [Node.subStatements, hkind] at hnode
    rw [statement, show label.kind = .externalModule from hkind]
    exact contributes_scope (.mk label children) exported _ hnode

/-- Every statement of a file that is derived is turned into declarations of the result. -/
theorem exists_found_of_ownStatement {root node : Node} {front : List Node}
    {previous : Option Node} {derived : DerivedFile}
    (hderived : (deriveFile root).result = .ok derived)
    (hown : OwnStatement root front previous node) :
    ∃ before topLevel found, (statements .empty none front).result = .ok before ∧
      (statement before.registry.get? topLevel false previous node).result = .ok found ∧
      found.toList ⊆ Declaration.nestedOf derived.declarations := by
  cases hown with
  | top hsplit hnamed =>
    obtain ⟨before, found, hbefore, hfound, -, hleads⟩ := contributes_top hsplit hnamed hderived
    refine ⟨before, true, found, hbefore, hfound, fun declaration hmem => ?_⟩
    exact Declaration.mem_nestedOf_self (hleads.subset (List.mem_append_right _ hmem))
  | inScope hscope hkind hnode =>
    obtain ⟨before, scopeTop, exported, inner, hbefore, -, hinner, -, hdeclared⟩ :=
      exists_found_of_statementAt hderived hscope
    obtain ⟨found, hfound, -, hnested⟩ :=
      contributes_subStatement_of_scope hkind hnode scopeTop exported inner hinner
    exact ⟨before, false, found, hbefore, hfound, fun declaration hmem =>
      hdeclared (hnested (Declaration.mem_nestedOf_self hmem))⟩

/-- **What is passed through.** Every statement of a file that is derived, in the file itself or in a
namespace, is passed through exactly if the declaration inside its exports is of the kinds for that.
The text in the result is the text of that declaration, with the word `export` before a function or
a class of an export. It is the text of the whole statement, up to blanks and comments, unless more
than that word stands in front of a function or a class, or any other declaration is exported. -/
theorem passedThrough_of_derived {root node : Node} {front : List Node} {previous : Option Node}
    {derived : DerivedFile} (hderived : (deriveFile root).result = .ok derived)
    (hown : OwnStatement root front previous node) :
    ∃ before topLevel found core, (statements .empty none front).result = .ok before ∧
      (statement before.registry.get? topLevel false previous node).result = .ok found ∧
      found.toList ⊆ Declaration.nestedOf derived.declarations ∧
      node.ExportCore core ∧
      (∀ text, found = some (.verbatim text) ↔
        core.isPassed = true ∧ text = core.passedText node.isExporting) ∧
      (node.OpensPlainly core → SameUpToGaps node.text (core.passedText node.isExporting)) := by
  obtain ⟨before, topLevel, found, hbefore, hfound, hmem⟩ :=
    exists_found_of_ownStatement hderived hown
  obtain ⟨core, hcore⟩ := node.exists_exportCore
  refine ⟨before, topLevel, found, core, hbefore, hfound, hmem, hcore, fun text => ?_,
    sameUpToGaps_passedText hcore⟩
  rw [verbatim_iff hcore hfound, Bool.false_or]

/-- An exported function, with a line break behind the word `export`. -/
def exportedFunction : Node :=
  .sample .exportStatement none "export\nfunction f() {}" [
    .sample .functionDeclaration (some .declaration) "function f() {}" []]

/-- `export const x = 1` -/
def exportedConstant : Node :=
  .sample .exportStatement none "export const x = 1" [
    .sample (.other "lexical_declaration") (some .declaration) "const x = 1" []]

/-- Both of them in a namespace. -/
def exportsFile : Node :=
  .sample (.other "program") none "" [.sampleNamespace "N" [exportedFunction, exportedConstant]]

theorem passedThrough_exportsFile :
    ∃ derived, (deriveFile exportsFile).result = .ok derived ∧
      OwnStatement exportsFile [] none exportedFunction ∧
      .verbatim "export function f() {}" ∈ Declaration.nestedOf derived.declarations ∧
      SameUpToGaps "export\nfunction f() {}" "export function f() {}" := by
  have hown : OwnStatement exportsFile [] none exportedFunction :=
    .inScope ⟨.sampleNamespace "N" [exportedFunction, exportedConstant], [], rfl, rfl, .refl⟩
      (.inl rfl) List.mem_cons_self
  obtain ⟨before, topLevel, found, core, -, -, hmem, hcore, htext, hsame⟩ :=
    passedThrough_of_derived rfl hown
  obtain rfl : core = .sample .functionDeclaration (some .declaration) "function f() {}" [] := by
    cases hcore with
    | self h => cases h
    | inside _ hinner h =>
      cases hinner
      exact h.eq_of_not_isExporting rfl
  have hfound := (htext _).2 ⟨rfl, rfl⟩
  refine ⟨_, rfl, hown, hmem (by rw [hfound]; exact List.mem_singleton.2 rfl), hsame fun _ => ?_⟩
  exact ⟨rfl, "\n", isGap_singleton (c := '\n') (by decide), rfl⟩

/-- The word `export` is lost. -/
example : (deriveFile exportsFile).result = .ok ⟨[.scope "N" false "namespace"
    [.verbatim "export function f() {}", .verbatim "const x = 1"]], .empty⟩ := rfl

end Schemata
