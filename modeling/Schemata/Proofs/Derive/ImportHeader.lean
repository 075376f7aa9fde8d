import Schemata.Proofs.Derive.Completeness
import Schemata.Proofs.Derive.Needs
import Schemata.Proofs.Emitted.Blocks
import Schemata.Proofs.Schema.PlainCode

/-!
# The import header of a file

The header is made from needs that were reported on the way, the code from the declarations. The two
fit: the header brings in the vocabulary if it is used anywhere, at any depth, and the bound if a
generic schema is declared anywhere. Without a header there is no schema, and then the code is made
of what was taken from the source as it is: statements that were passed through, and the names of
namespaces in the lines that open them.
-/

namespace Schemata

open Text

/-- The header fits the declarations and the code. -/
structure HeaderFits (root : Node) (declarations : List Declaration)
    (library header code : String) : Prop where
  ne_empty_iff : header ≠ "" ↔ ∃ declaration ∈ Declaration.nestedOf declarations,
    declaration.usesSchema = true
  /-- It brings in the names of the vocabulary and the bound, each exactly if it is needed. -/
  imports : header ≠ "" → ∃ names : List String,
    header = "import \x7b " ++ ", ".intercalate names ++ " \x7d from '" ++ library ++ "'" ∧
      names.Sublist ["Type", "Static", "TSchema"] ∧ "Type" ∈ names ∧ "Static" ∈ names ∧
      ("TSchema" ∈ names ↔ ∃ declaration ∈ Declaration.nestedOf declarations,
        declaration.isGeneric = true)
  /-- It stands in front of the declarations, as a block of its own. -/
  first : ∃ blocks, Declaration.renderAll declarations = .ok blocks ∧
    code = Text.join "\n\n"
      ((if header = "" then [] else [header]) ++ blocks.filter (· != "")) ++ "\n"
  /-- Without it there are only namespaces and statements passed through. -/
  plain : header = "" →
    (∀ declaration ∈ Declaration.nestedOf declarations, declaration.isPlain = true) ∧
    ∀ line ∈ lineTexts code, PlainLine declarations line ∧
      ∀ word ∈ vocabulary, word.toList <:+: line.toList → StandsInCopy declarations word line
  /-- Namespaces have their names from the source, and what is passed through is its text. -/
  copied : ∀ declaration ∈ Declaration.nestedOf declarations,
    declaration.CopiedFrom (· ∈ root.nodes)

theorem isPlain_of_complete {declaration : Declaration} (hcomplete : declaration.Complete)
    (h : declaration.usesSchema ≠ true) : declaration.isPlain = true := by
  cases declaration <;> first
    | rfl
    | exact absurd rfl h
    | exact hcomplete.elim

theorem importHeader_ne_empty_iff (library : String) (usesSchema usesGenerics : Bool) :
    importHeader library (importNames usesSchema usesGenerics) ≠ "" ↔ usesSchema = true := by
  cases usesSchema with
  | false => simp [importNames, importHeader]
  | true => simp [importHeader_ne_empty library (show importNames true usesGenerics ≠ [] by
      cases usesGenerics <;> decide)]

theorem importNames_true (usesGenerics : Bool) :
    importNames true usesGenerics ≠ [] ∧
      (importNames true usesGenerics).Sublist ["Type", "Static", "TSchema"] ∧
      "Type" ∈ importNames true usesGenerics ∧ "Static" ∈ importNames true usesGenerics ∧
      ("TSchema" ∈ importNames true usesGenerics ↔ usesGenerics = true) := by
  cases usesGenerics <;> decide

theorem importHeader_eq (library : String) {names : List String} (hne : names ≠ []) :
    importHeader library names =
      "import \x7b " ++ ", ".intercalate names ++ " \x7d from '" ++ library ++ "'" := by
  rw [← String.toList_inj, toList_importHeader library hne]
  simp [String.toList_append]

/-- Code without schemas has plain lines only. -/
theorem plain_code {declarations : List Declaration} {blocks : List String}
    (hblocks : Declaration.renderAll declarations = .ok blocks)
    (hplain : ∀ declaration ∈ Declaration.nestedOf declarations, declaration.isPlain = true) :
    Plain declarations (Text.join "\n\n" (blocks.filter (· != "")) ++ "\n") := by
  have hall := Declaration.plain_renderAll declarations (List.Subset.refl _) hplain blocks hblocks
  have hjoined : Plain declarations (Text.join "\n\n" (blocks.filter (· != ""))) :=
    plain_join (fun _ _ => Plain.feeds) fun text htext => hall text (List.mem_filter.1 htext).1
  have hfed := hjoined.feed plain_empty
  rwa [String.append_empty] at hfed

/-- The header is made from the declarations alone. -/
theorem Accounted.header_eq {occurs : Node → Prop} {events : List Event}
    {declarations : List Declaration} (h : Accounted occurs events declarations)
    (library : String) :
    (moduleOf declarations events).header library =
      importHeader library (importNames
        ((Declaration.nestedOf declarations).any Declaration.usesSchema)
        ((Declaration.nestedOf declarations).any Declaration.isGeneric)) := by
  rw [Module.header, moduleOf, h.schema, h.generics]

/-- **The import header is exact.** Whatever a file is, if it can be derived then its module can be
written, with a header that fits its declarations and its code. -/
theorem headerFits_of_derived {root : Node} {derived : DerivedFile}
    (hderived : (deriveFile root).result = .ok derived) (library : String) :
    ∃ code, (moduleOf derived.declarations (deriveFile root).events).render library = .ok code ∧
      HeaderFits root derived.declarations library
        ((moduleOf derived.declarations (deriveFile root).events).header library) code := by
  have haccounted : Accounted (· ∈ root.nodes) (deriveFile root).events derived.declarations := by
    refine accounts_statements .empty none (fun inner hinner => ?_) derived hderived
    cases root
    exact Node.mem_nodes_of_child hinner
  have hcomplete := (complete_of_derived hderived).1
  obtain ⟨blocks, hblocks⟩ := Declaration.exists_renderAll derived.declarations hcomplete
  have hcode := render_moduleOf hblocks (deriveFile root).events library
  rw [haccounted.header_eq] at hcode ⊢
  generalize hnames : importHeader library _ = header at hcode ⊢
  refine ⟨_, hcode, ?_⟩
  have hiff : header ≠ "" ↔
      (Declaration.nestedOf derived.declarations).any Declaration.usesSchema = true := by
    rw [← hnames, importHeader_ne_empty_iff]
  constructor
  · rw [hiff, List.any_eq_true]
  · intro hne
    rw [hiff.1 hne] at hnames
    obtain ⟨hsome, hsublist, htype, hstatic, hbound⟩ := importNames_true
      ((Declaration.nestedOf derived.declarations).any Declaration.isGeneric)
    refine ⟨_, hnames.symm.trans (importHeader_eq library hsome), hsublist, htype, hstatic, ?_⟩
    rw [hbound, List.any_eq_true]
  · refine ⟨blocks, hblocks, ?_⟩
    by_cases hempty : header = ""
    · simp [hempty]
    · simp [hempty]
  · intro hempty
    have hplain : ∀ declaration ∈ Declaration.nestedOf derived.declarations,
        declaration.isPlain = true := by
      intro declaration hmem
      refine isPlain_of_complete (hcomplete declaration hmem) fun huses => ?_
      exact hiff.2 (List.any_eq_true.2 ⟨declaration, hmem, huses⟩) hempty
    have hlines := plain_code hblocks hplain
    rw [hempty]
    refine ⟨hplain, fun line hline => ⟨hlines line hline, fun word hword hoccurs => ?_⟩⟩
    refine (hlines line hline).standsInCopy (fun name exported keyword body hmem => ?_) hword
      hoccurs
    exact (haccounted.copied _ hmem).2
  · exact haccounted.copied

/-- A class in a namespace, and in an exported one inside it `type G<T> = T`. -/
def nestedGenericFile : Node :=
  .sample (.other "program") none "" [
    .sampleNamespace "N" [
      .sample .classDeclaration none "class Type.A" [],
      .sample .exportStatement none "" [
        .sample .internalModule (some .declaration) "" [
          .sample (.other "identifier") (some .name) "M" [],
          .sample (.other "statement_block") (some .body) "" [
            .sampleAlias "G" [.sampleParameter "T"]
              (.sample .typeIdentifier (some .value) "T" [])]]]]]

/-- Two levels down, a generic schema calls for the whole header. -/
theorem headerFits_nestedGenericFile :
    ∃ declarations code header, HeaderFits nestedGenericFile declarations "typebox" header code ∧
      .schema "G" false (.ref "T") ["T"] ∈ Declaration.nestedOf declarations ∧
      header = "import \x7b Type, Static, TSchema \x7d from 'typebox'" := by
  have hderived : (deriveFile nestedGenericFile).result = .ok
      ⟨[.scope "N" false "namespace" [.verbatim "class Type.A",
        .scope "M" true "namespace" [.schema "G" false (.ref "T") ["T"]]]], .empty⟩ := rfl
  obtain ⟨code, -, hfits⟩ := headerFits_of_derived hderived "typebox"
  refine ⟨_, code, _, hfits, by simp [Declaration.nestedOf, Declaration.nested], ?_⟩
  exact importHeader_eq "typebox" (show importNames true true ≠ [] by decide)

/-- `namespace Type.A { class B {} }`. -/
def dottedNamespaceFile : Node :=
  .sample (.other "program") none "" [
    .sampleNamespace "Type.A" [.sample .classDeclaration none "class B \x7b\x7d" []]]

/-- Not all of the vocabulary stands in statements that were passed through: a namespace may have
it in its name, and then the line that opens it has it too. -/
theorem not_vocabulary_in_verbatim :
    ∃ derived code, (deriveFile dottedNamespaceFile).result = .ok derived ∧
      (moduleOf derived.declarations (deriveFile dottedNamespaceFile).events).header "typebox" =
        "" ∧
      (moduleOf derived.declarations (deriveFile dottedNamespaceFile).events).render "typebox" =
        .ok code ∧
      "namespace Type.A \x7b\n".toList <+: code.toList ∧
      ∃ word ∈ vocabulary, word.toList <:+: "namespace Type.A \x7b\n".toList ∧
        ∀ text, .verbatim text ∈ Declaration.nestedOf derived.declarations →
          ¬ word.toList <:+: text.toList := by
  have hderived : (deriveFile dottedNamespaceFile).result = .ok
      ⟨[.scope "Type.A" false "namespace" [.verbatim "class B \x7b\x7d"]], .empty⟩ := rfl
  have hblocks : Declaration.renderAll
      [.scope "Type.A" false "namespace" [.verbatim "class B \x7b\x7d"]] =
        .ok [scopeText "Type.A" false "namespace" "class B \x7b\x7d"] := by
    simp [Declaration.renderAll, Declaration.render, Text.join, bind, Except.bind, pure,
      Except.pure]
  have hcode := render_moduleOf hblocks (deriveFile dottedNamespaceFile).events "typebox"
  have hheader : (moduleOf [.scope "Type.A" false "namespace" [.verbatim "class B \x7b\x7d"]]
      (deriveFile dottedNamespaceFile).events).header "typebox" = "" := rfl
  refine ⟨_, _, hderived, hheader, hcode, ?_, "Type.", by decide,
    ⟨"namespace ".toList, "A \x7b\n".toList, by decide⟩, fun text htext hoccurs => ?_⟩
  · rw [hheader]
    have hopening : "namespace Type.A \x7b\n".toList <+:
        (scopeText "Type.A" false "namespace" "class B \x7b\x7d").toList := by
      simp [scopeText, exportWord, String.toList_append]
    have hfilled : scopeText "Type.A" false "namespace" "class B \x7b\x7d" ≠ "" := by
      intro hempty
      rw [hempty] at hopening
      cases hopening.length_le
    simpa [Text.join, hfilled] using hopening.trans (List.prefix_append _ _)
  · simp only [Declaration.nestedOf, Declaration.nested, List.append_nil, List.mem_cons,
      Declaration.verbatim.injEq, reduceCtorEq, List.not_mem_nil, or_false, false_or] at htext
    rw [htext, ← List.append_nil "class B \x7b\x7d".toList] at hoccurs
    have hnone : avoids "Type.".toList "class B \x7b\x7d".toList = true := by decide
    cases (infix_of_avoids hnone hoccurs).length_le

end Schemata
