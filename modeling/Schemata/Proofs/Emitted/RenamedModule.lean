import Schemata.Pipeline
import Schemata.Proofs.Emitted.Renaming
import Schemata.Proofs.Session

/-!
# Renamed modules

A file of schemas may be named by templates: the declared types by one, the declared values and the
references to them by another. The names are changed in the finished code, but the outcome is the
code of the same schemas with other names in them: a type parameter hides a value of its name in its
own block, and only names of declared values are replaced.
-/

namespace Schemata

open Text Emitted

/-! ### Schemas under other names -/

/-- The static type line of a schema whose type and value have names of their own. -/
def typeLine (type value : String) (exported : Bool) (parameters : List String) : String :=
  if parameters.isEmpty then
    exportWord exported ++ "type " ++ type ++ " = Static<typeof " ++ value ++ ">"
  else
    exportWord exported ++ "type " ++ type ++ "<" ++
      ", ".intercalate (parameters.map (· ++ " extends TSchema")) ++
      "> = Static<ReturnType<typeof " ++ value ++ "<" ++ ", ".intercalate parameters ++ ">>>"

theorem typeLine_self (name : String) (exported : Bool) (parameters : List String) :
    typeLine name name exported parameters = staticLine name exported parameters := rfl

namespace Declaration

/-- A schema with plain names whose name is no word of the code around it and none of its own type
parameters. -/
def isPlainSchema : Declaration → Bool
  | .schema name _ body parameters =>
    isPlainName name.toList && !skeletonWords.contains name && !parameters.contains name &&
      parameters.all (fun parameter => decide (IsName parameter.toList)) && body.isPlain
  | _ => false

def schemaName? : Declaration → Option String
  | .schema name _ _ _ => some name
  | _ => none

/-- The code of a declaration with other names for types and values. The type parameters of a schema
hide the values that are named like them. -/
def renderAs (types values : String → String) : Declaration → Except RenderError String
  | .schema name exported body parameters => do
    let visible := fun other => if parameters.contains other then other else values other
    let text ← (body.rename visible).render 0
    return typeLine (types name) (values name) exported parameters ++ "\n" ++
      valueLines (values name) exported parameters text
  | declaration => declaration.render

end Declaration

namespace Module

def schemaNames (module : Module) : List String :=
  module.declarations.filterMap Declaration.schemaName?

/-- The code of a file with other names for types and values. -/
def renderAs (library : String) (types values : String → String) (module : Module) :
    Except RenderError String := do
  let blocks ← module.declarations.mapM (Declaration.renderAs types values)
  return Text.join "\n\n" ((module.header library :: blocks).filter (· != "")) ++ "\n"

end Module

/-- The code of a file whose declarations are named by templates. A template that cannot be filled
in stops it, that of the values first. -/
def Module.renderByTemplates (library typeTemplate valueTemplate : String) (module : Module) :
    Except Failure String := do
  let values ← (filledNames valueTemplate module.schemaNames.eraseDups).mapError .template
  let types ← (filledNames typeTemplate module.schemaNames.eraseDups).mapError .template
  (module.renderAs library (nameIn types) (nameIn values)).mapError .render

/-! ### Blocks of a file -/

theorem toList_schema (type value : String) (exported : Bool) (parameters : List String)
    (body : String) :
    (typeLine type value exported parameters ++ "\n" ++
      valueLines value exported parameters body).toList =
        schemaBlock type.toList value.toList exported parameters body.toList := by
  have htype : (typeLine type value exported parameters).toList =
      keywordLine exported "type" (type.toList ++ staticTail value.toList parameters) := by
    rw [typeLine, staticTail, keywordLine]
    split <;> simp [String.toList_append, boundParameters]
  rw [String.toList_append, String.toList_append, toList_valueLines, htype, schemaBlock]
  simp

theorem schema_ne_empty (type value : String) (exported : Bool) (parameters : List String)
    (body : String) :
    typeLine type value exported parameters ++ "\n" ++ valueLines value exported parameters body ≠
      "" := by
  intro hempty
  have hchars := congrArg String.toList hempty
  rw [toList_schema, schemaBlock] at hchars
  simp at hchars

/-- A block declares some names, as types and as values. -/
structure Declares (source : List Char) (declared : List (List Char)) : Prop where
  values : ∀ rest, declaredValues true (source ++ '\n' :: rest) =
    declared ++ declaredValues true rest
  types : ∀ rest, declaredTypes (source ++ '\n' :: rest) = declared ++ declaredTypes rest

theorem declares_nil : Declares [] [] where
  values rest := by
    rw [List.nil_append, declaredValues]
    rfl
  types rest := by
    rw [declaredTypes, splitLines_append_feed unbroken_nil]
    rfl

theorem Declares.join {source source' : List Char} {declared declared' : List (List Char)}
    (h : Declares source declared) (h' : Declares source' declared') :
    Declares (source ++ ("\n\n".toList ++ source')) (declared ++ declared') := by
  have hsource : ∀ rest, source ++ ("\n\n".toList ++ source') ++ '\n' :: rest =
      source ++ '\n' :: ([] ++ '\n' :: (source' ++ '\n' :: rest)) := by simp
  constructor
  · intro rest
    rw [hsource, h.values, declares_nil.values, h'.values, List.append_assoc, List.nil_append]
  · intro rest
    rw [hsource, h.types, declares_nil.types, h'.types, List.append_assoc, List.nil_append]

theorem declares_importHeader {library : String} (hlibrary : Unbroken library.toList)
    (generic : Bool) :
    Declares (importHeader library (importNames true generic)).toList [] := by
  have hunbroken := unbroken_importHeader hlibrary generic
  have hheadless := headless_importHeader library
    (show importNames true generic ≠ [] by cases generic <;> decide)
  constructor
  · intro rest
    exact declaredValues_line hunbroken.feed_not_mem (hheadless.valueDeclaration? _)
  · intro rest
    have hlines := @declaredTypes_lines [(importHeader library (importNames true generic)).toList]
      (by simpa using ⟨hunbroken, hheadless.staticDeclaration?⟩) rest
    simpa using hlines

theorem declares_intercalate {sources : List (List Char)} {declared : List (List (List Char))}
    (h : List.Forall₂ Declares sources declared) :
    Declares ("\n\n".toList.intercalate sources) declared.flatten := by
  induction h with
  | nil => exact declares_nil
  | cons hfirst hrest ih =>
    cases hrest with
    | nil => simpa using hfirst
    | cons hnext hmore =>
      rw [List.intercalate_cons_cons, List.append_assoc, List.flatten_cons]
      exact hfirst.join ih

theorem renamesBlock_intercalate {names : NewNames} {sources targets : List (List Char)}
    (h : List.Forall₂ (RenamesBlock names) sources targets) :
    RenamesBlock names ("\n\n".toList.intercalate sources)
      ("\n\n".toList.intercalate targets) := by
  induction h with
  | nil => exact renamesBlock_nil names
  | cons hfirst hrest ih =>
    cases hrest with
    | nil => simpa using hfirst
    | cons hnext hmore =>
      rw [List.intercalate_cons_cons, List.intercalate_cons_cons, List.append_assoc,
        List.append_assoc]
      exact hfirst.join ih

namespace Declaration

theorem exists_of_isPlainSchema {declaration : Declaration}
    (h : declaration.isPlainSchema = true) :
    ∃ name exported body parameters, declaration = .schema name exported body parameters ∧
      isPlainName name.toList = true ∧ name ∉ skeletonWords ∧ name ∉ parameters ∧
      (∀ parameter ∈ parameters, IsName parameter.toList) ∧ body.isPlain = true := by
  cases declaration with
  | schema name exported body parameters =>
    simp only [isPlainSchema, Bool.and_eq_true, Bool.not_eq_true', List.contains_eq_mem,
      decide_eq_false_iff_not, List.all_eq_true, decide_eq_true_eq] at h
    obtain ⟨⟨⟨⟨hname, hword⟩, hown⟩, hparameters⟩, hbody⟩ := h
    exact ⟨name, exported, body, parameters, rfl, hname, hword, hown, hparameters, hbody⟩
  | enumeration name exported members => cases h
  | scope name exported keyword body => cases h
  | verbatim text => cases h
  | bare => cases h

/-- The block of a plain schema declares its name. -/
theorem declares_render {declaration : Declaration} (h : declaration.isPlainSchema = true)
    {source : String} (hsource : declaration.render = .ok source) :
    source ≠ "" ∧ Declares source.toList (declaration.schemaName?.toList.map String.toList) := by
  obtain ⟨name, exported, body, parameters, rfl, hname, -, -, hparameters, hbody⟩ :=
    exists_of_isPlainSchema h
  rw [render] at hsource
  obtain ⟨text, htext, hsource⟩ := bind_eq_ok_iff.1 hsource
  cases hsource
  have hfolded := Expr.folded_render body 0 (Expr.keepsLines_of_isPlain body hbody) htext
  have hsolid := Expr.solid_render hbody htext
  rw [← typeLine_self]
  refine ⟨schema_ne_empty name name exported parameters text, ?_⟩
  rw [toList_schema]
  have hisName := isName_of_isPlainName hname
  exact ⟨declaredValues_schema hisName exported hparameters hfolded hsolid,
    declaredTypes_schema hisName exported hparameters hfolded hsolid⟩

variable {names : NewNames} {types values : String → String}

/-- The block of a plain schema is renamed to its block under the other names. -/
theorem renamesBlock_render (hnames : names.values.Proper) (htypes : names.types.Gives types)
    (hvalues : names.values.Gives values)
    {declaration : Declaration} (h : declaration.isPlainSchema = true) :
    ∃ source target, declaration.render = .ok source ∧
      declaration.renderAs types values = .ok target ∧ target ≠ "" ∧
      RenamesBlock names source.toList target.toList := by
  obtain ⟨name, exported, body, parameters, rfl, hname, -, hown, hparameters, hbody⟩ :=
    exists_of_isPlainSchema h
  have hmem : ∀ other : String, other.toList ∈ parameters.map String.toList ↔ other ∈ parameters :=
    fun other => List.mem_map_of_injective fun _ _ => String.toList_inj.1
  have hvisible : (names.values.visible (parameters.map String.toList)).Gives
      (fun other => if parameters.contains other then other else values other) := by
    intro other
    by_cases hhidden : other ∈ parameters
    · rw [names.values.get?_visible_of_mem ((hmem other).2 hhidden)]
      simp [hhidden]
    · rw [names.values.get?_visible_of_not_mem fun hin => hhidden ((hmem other).1 hin)]
      simpa [hhidden] using hvalues other
  obtain ⟨source, target, hsource, htarget, hrewrites⟩ :=
    Expr.rewrites_render (hnames.visible _) hvisible body 0 hbody
  have hfolded := Expr.folded_render body 0 (Expr.keepsLines_of_isPlain body hbody) hsource
  have hblock := renamesBlock_schema (isName_of_isPlainName hname) exported hparameters hfolded
    (Expr.solid_render hbody hsource) hnames (fun hin => hown ((hmem name).1 hin)) hrewrites
  refine ⟨_, _, by rw [render, hsource]; rfl, by rw [renderAs, htarget]; rfl,
    schema_ne_empty _ _ _ _ _, ?_⟩
  rw [← htypes, ← hvalues] at hblock
  rw [← typeLine_self, toList_schema, toList_schema]
  exact hblock

theorem renderAll_eq_mapM (declarations : List Declaration) :
    renderAll declarations = declarations.mapM render := by
  induction declarations with
  | nil => rw [renderAll, List.mapM_nil]; rfl
  | cons declaration rest ih => rw [renderAll, List.mapM_cons, ih]

theorem renderAs_eq_render (htypes : ∀ name, types name = name)
    (hvalues : ∀ name, values name = name) (declaration : Declaration) :
    declaration.renderAs types values = declaration.render := by
  cases declaration with
  | schema name exported body parameters =>
    have hrename := Expr.rename_eq_self
      (show ∀ other, (if parameters.contains other then other else values other) = other by
        intro other
        rw [hvalues, ite_self]) body
    rw [renderAs, render, htypes, hvalues, hrename]
    rfl
  | enumeration name exported members => rfl
  | scope name exported keyword body => rfl
  | verbatim text => rfl
  | bare => rfl

theorem declares_renderAll {declarations : List Declaration}
    (h : ∀ declaration ∈ declarations, declaration.isPlainSchema = true) {sources : List String}
    (hsources : renderAll declarations = .ok sources) :
    (∀ source ∈ sources, source ≠ "") ∧ List.Forall₂ Declares (sources.map String.toList)
      (declarations.map fun declaration =>
        declaration.schemaName?.toList.map String.toList) := by
  induction declarations generalizing sources with
  | nil =>
    rw [renderAll] at hsources
    cases hsources
    exact ⟨by simp, .nil⟩
  | cons declaration rest ih =>
    rw [renderAll] at hsources
    obtain ⟨source, hsource, hsources⟩ := bind_eq_ok_iff.1 hsources
    obtain ⟨more, hmore, hsources⟩ := bind_eq_ok_iff.1 hsources
    cases hsources
    obtain ⟨hne, hdeclares⟩ := declares_render (h declaration (by simp)) hsource
    obtain ⟨hrest, hall⟩ := ih (fun other hmem => h other (by simp [hmem])) hmore
    exact ⟨by simpa using ⟨hne, hrest⟩, .cons hdeclares hall⟩

theorem renamesBlock_renderAll (hnames : names.values.Proper) (htypes : names.types.Gives types)
    (hvalues : names.values.Gives values)
    {declarations : List Declaration}
    (h : ∀ declaration ∈ declarations, declaration.isPlainSchema = true) :
    ∃ sources targets, renderAll declarations = .ok sources ∧
      declarations.mapM (renderAs types values) = .ok targets ∧ (∀ target ∈ targets, target ≠ "") ∧
      List.Forall₂ (RenamesBlock names) (sources.map String.toList)
        (targets.map String.toList) := by
  induction declarations with
  | nil => exact ⟨[], [], by rw [renderAll], rfl, by simp, .nil⟩
  | cons declaration rest ih =>
    obtain ⟨source, target, hsource, htarget, hne, hblock⟩ :=
      renamesBlock_render hnames htypes hvalues (h declaration (by simp))
    obtain ⟨sources, targets, hsources, htargets, hrest, hall⟩ :=
      ih fun other hmem => h other (by simp [hmem])
    refine ⟨source :: sources, target :: targets, ?_, ?_, ?_, .cons hblock hall⟩
    · rw [renderAll, hsource, hsources]
      rfl
    · rw [List.mapM_cons, htarget, htargets]
      rfl
    · simpa using ⟨hne, hrest⟩

end Declaration

namespace Module

variable {module : Module} {library : String}

theorem renderAs_eq_render {types values : String → String} (htypes : ∀ name, types name = name)
    (hvalues : ∀ name, values name = name) (library : String) (module : Module) :
    module.renderAs library types values = module.render library := by
  rw [renderAs, render, Declaration.renderAll_eq_mapM,
    funext (Declaration.renderAs_eq_render htypes hvalues)]

/-- The parts of a file that are not empty: its blocks, and the import header if there is one. -/
theorem exists_parts (library : String) (module : Module) :
    ∃ header : List String, (∀ blocks : List String, (∀ block ∈ blocks, block ≠ "") →
        (module.header library :: blocks).filter (· != "") = header ++ blocks) ∧
      ∀ text ∈ header, ∃ generic, text = importHeader library (importNames true generic) := by
  have hfilter : ∀ blocks : List String, (∀ block ∈ blocks, block ≠ "") →
      blocks.filter (· != "") = blocks := by
    intro blocks hblocks
    rw [List.filter_eq_self]
    simpa using hblocks
  cases hschema : module.usesSchema with
  | false =>
    have hheader : module.header library = "" := by
      rw [header, hschema]
      rfl
    refine ⟨[], ?_, by simp⟩
    intro blocks hblocks
    rw [hheader, List.filter_cons_of_neg (by simp), hfilter blocks hblocks]
    rfl
  | true =>
    have hheader : module.header library =
        importHeader library (importNames true module.usesGenerics) := by
      rw [header, hschema]
    have hne := importHeader_ne_empty library
      (show importNames true module.usesGenerics ≠ [] by cases module.usesGenerics <;> decide)
    refine ⟨[module.header library], ?_, ?_⟩
    · intro blocks hblocks
      rw [List.filter_cons_of_pos (by simpa [hheader] using hne), hfilter blocks hblocks]
      rfl
    · intro text hmem
      exact ⟨module.usesGenerics, by rw [List.mem_singleton.1 hmem, hheader]⟩

theorem toList_join_append_feed (parts : List String) :
    (Text.join "\n\n" parts ++ "\n").toList =
      "\n\n".toList.intercalate (parts.map String.toList) ++ '\n' :: [] := by
  rw [Text.join, String.toList_append, String.toList_intercalate]
  rfl

/-- The code of a file of plain schemas declares their names, in order. -/
theorem declared_render (hlibrary : Unbroken library.toList)
    (hplain : ∀ declaration ∈ module.declarations, declaration.isPlainSchema = true)
    {code : String} (hcode : module.render library = .ok code) :
    declaredValues true code.toList = module.schemaNames.map String.toList ∧
      declaredTypes code.toList = module.schemaNames.map String.toList := by
  rw [render] at hcode
  obtain ⟨sources, hsources, hcode⟩ := bind_eq_ok_iff.1 hcode
  cases hcode
  obtain ⟨hne, hdeclares⟩ := Declaration.declares_renderAll hplain hsources
  obtain ⟨header, hparts, hheader⟩ := exists_parts library module
  have hheaders : List.Forall₂ Declares (header.map String.toList)
      (header.map fun _ => []) := by
    rw [List.forall₂_map_left_iff, List.forall₂_map_right_iff, List.forall₂_same]
    intro text hmem
    obtain ⟨generic, rfl⟩ := hheader text hmem
    exact declares_importHeader hlibrary generic
  have hall := declares_intercalate (List.rel_append hheaders hdeclares)
  have hnames : ((header.map fun _ => ([] : List (List Char))) ++ module.declarations.map
      fun declaration => declaration.schemaName?.toList.map String.toList).flatten =
        module.schemaNames.map String.toList := by
    rw [List.flatten_append, ← List.flatMap_def, ← List.flatMap_def, schemaNames,
      List.filterMap_eq_flatMap_toList, List.map_flatMap]
    simp
  rw [hparts sources hne, toList_join_append_feed, List.map_append, hall.values, hall.types, hnames]
  simp [declaredValues, declaredTypes, splitLines]

theorem exists_render (library : String)
    (hplain : ∀ declaration ∈ module.declarations, declaration.isPlainSchema = true) :
    ∃ code, module.render library = .ok code := by
  have hnone : Names.Proper [] := ⟨fun _ _ => rfl, fun _ _ _ => rfl⟩
  obtain ⟨sources, targets, hsources, -⟩ := Declaration.renamesBlock_renderAll
    (show Names.Proper (NewNames.mk [] []).values from hnone) (fun _ => rfl) (fun _ => rfl) hplain
  exact ⟨_, by rw [render, hsources]; rfl⟩

/-- The code of a file of plain schemas is renamed to its code under the other names. -/
theorem applyNames_render {names : NewNames} {types values : String → String}
    (hnames : names.values.Proper) (htypes : names.types.Gives types)
    (hvalues : names.values.Gives values)
    (hlibrary : Unbroken library.toList) (hquote : '\'' ∉ library.toList)
    (hback : '\\' ∉ library.toList)
    (hplain : ∀ declaration ∈ module.declarations, declaration.isPlainSchema = true) :
    ∃ code target, module.render library = .ok code ∧
      module.renderAs library types values = .ok target ∧
      applyNames names code.toList = target.toList := by
  obtain ⟨sources, targets, hsources, htargets, hne, hblocks⟩ :=
    Declaration.renamesBlock_renderAll hnames htypes hvalues hplain
  have hsourcesNe := (Declaration.declares_renderAll hplain hsources).1
  obtain ⟨header, hparts, hheader⟩ := exists_parts library module
  have hheaders : List.Forall₂ (RenamesBlock names) (header.map String.toList)
      (header.map String.toList) := by
    rw [List.forall₂_same]
    intro part hpart
    obtain ⟨text, hmem, rfl⟩ := List.mem_map.1 hpart
    obtain ⟨generic, rfl⟩ := hheader text hmem
    exact renamesBlock_importHeader hnames hlibrary hquote hback generic
  obtain ⟨hidden, hall⟩ := renamesBlock_intercalate (List.rel_append hheaders hblocks)
  refine ⟨_, _, by rw [render, hsources]; rfl, by rw [renderAs, htargets]; rfl, ?_⟩
  rw [hparts sources hsourcesNe, hparts targets hne, toList_join_append_feed,
    toList_join_append_feed, List.map_append, List.map_append, applyNames, hall]
  rfl

end Module

/-! ### Names by templates -/

/-- Templates that change nothing leave the code as it is. -/
theorem Module.renderByTemplates_plain (library : String) (module : Module) :
    module.renderByTemplates library plainTemplate plainTemplate =
      (module.render library).mapError .render := by
  rw [renderByTemplates, filledNames_plain]
  change (module.renderAs library _ _).mapError Failure.render = _
  rw [renderAs_eq_render (nameIn_plain _) (nameIn_plain _)]

/-- The templates are filled in for the names that the code declares. -/
theorem newNames_render {module : Module} {library : String} (hlibrary : Unbroken library.toList)
    (hplain : ∀ declaration ∈ module.declarations, declaration.isPlainSchema = true)
    {code : String} (hcode : module.render library = .ok code)
    (typeTemplate valueTemplate : String) :
    newNames typeTemplate valueTemplate code.toList = (do
      let values ← filledNames valueTemplate module.schemaNames.eraseDups
      let types ← filledNames typeTemplate module.schemaNames.eraseDups
      return ⟨charNames types, (charNames values).filter fun entry => entry.1 != entry.2⟩) := by
  obtain ⟨hvalues, htypes⟩ := Module.declared_render hlibrary hplain hcode
  rw [newNames, hvalues, htypes, eraseDups_map_toList, fillAll_map_toList, fillAll_map_toList]
  cases filledNames valueTemplate module.schemaNames.eraseDups with
  | error error => rfl
  | ok values =>
    cases filledNames typeTemplate module.schemaNames.eraseDups with
    | error error => rfl
    | ok types => rfl

theorem templateNames_str (mark : Char) (typeTemplate valueTemplate : String) (chars : List Char) :
    templateNames mark (.str typeTemplate) (.str valueTemplate) chars =
      Run.ofExcept .template (newNames typeTemplate valueTemplate chars) := by
  have hfill : ∀ (template : String) (names : List (List Char)),
      (if names.isEmpty then pure [] else do
        Run.ofExcept .template (fillAll (← templateText mark (.str template)) names) : Run Names) =
        Run.ofExcept .template (fillAll template names) := by
    intro template names
    cases names with
    | nil => rfl
    | cons name names => rfl
  rw [templateNames]
  simp only [hfill, newNames]
  cases fillAll valueTemplate (declaredValues true chars).eraseDups with
  | error error => rfl
  | ok values =>
    cases fillAll typeTemplate (declaredTypes chars).eraseDups with
    | error error => rfl
    | ok types => rfl

/-- Code under its new names, if there are any. -/
def renamedCode (names : NewNames) (code : String) : String :=
  if names.values.isEmpty && names.types.isEmpty then code
  else String.ofList (applyNames names code.toList)

/-- Renaming fails if a template cannot be filled in, and otherwise gives the renamed code; what it
logs does not matter. -/
theorem on_renameDeclarations (session : Session) {typeTemplate valueTemplate : String}
    (h : ¬(typeTemplate = plainTemplate ∧ valueTemplate = plainTemplate)) (code : String) :
    (Run.on session (renameDeclarations (.str typeTemplate) (.str valueTemplate) code)).1 =
      ((newNames typeTemplate valueTemplate code.toList).mapError .template).map
        fun names => renamedCode names code := by
  have hplain : ((Json.str typeTemplate).sameScalar (.str plainTemplate) &&
      (Json.str valueTemplate).sameScalar (.str plainTemplate)) = false := by
    simpa [Json.sameScalar] using h
  rw [renameDeclarations]
  simp only [hplain, Bool.false_eq_true, if_false]
  rw [templateNames_str, Run.on_bind, Run.on_ofExcept]
  cases newNames typeTemplate valueTemplate code.toList with
  | error error => rfl
  | ok names =>
    simp only [Except.mapError, Except.map, renamedCode]
    split
    · rfl
    · have hlogs : Run.Logs ((collisions names code.toList).forM fun name => Run.log .warning
          ("Renamed value " ++ name ++ " collides with an imported name")) :=
        Run.logs_forM fun name _ => Run.logs_log _ _
      obtain ⟨records, hwarn⟩ := hlogs.exists_on_bind session fun _ => do
        Run.log .debug ("Renamed " ++ toString names.types.length ++ " types and " ++
          toString names.values.length ++ " values")
        return String.ofList (applyNames names code.toList)
      rw [hwarn]
      rfl

/-- With the names that the templates give, the renamed code is the code under these names. -/
theorem renderAs_eq_renamedCode {module : Module} {library : String}
    (hlibrary : Unbroken library.toList) (hquote : '\'' ∉ library.toList)
    (hback : '\\' ∉ library.toList)
    (hplain : ∀ declaration ∈ module.declarations, declaration.isPlainSchema = true)
    {names : NewNames} (hnames : names.values.Proper) {types values : String → String}
    (htypes : names.types.Gives types) (hvalues : names.values.Gives values) {code : String}
    (hcode : module.render library = .ok code) :
    module.renderAs library types values = .ok (renamedCode names code) := by
  rw [renamedCode]
  split
  · -- no name changes
    rename_i hempty
    rw [Bool.and_eq_true, List.isEmpty_iff, List.isEmpty_iff] at hempty
    have hsame : ∀ name, types name = name ∧ values name = name := by
      intro name
      rw [← String.toList_inj, ← String.toList_inj, htypes, hvalues, hempty.1, hempty.2]
      exact ⟨rfl, rfl⟩
    rw [Module.renderAs_eq_render (fun name => (hsame name).1) fun name => (hsame name).2, hcode]
  · obtain ⟨source, target, hsource, htarget, happly⟩ :=
      Module.applyNames_render hnames htypes hvalues hlibrary hquote hback hplain
    rw [hcode] at hsource
    cases hsource
    rw [htarget, happly, String.ofList_toList]

theorem isPlainName_of_mem_schemaNames {module : Module}
    (hplain : ∀ declaration ∈ module.declarations, declaration.isPlainSchema = true)
    {name : String} (hmem : name ∈ module.schemaNames) :
    isPlainName name.toList = true ∧ name ∉ skeletonWords := by
  obtain ⟨declaration, hdeclaration, hname⟩ := List.mem_filterMap.1 hmem
  obtain ⟨other, exported, body, parameters, rfl, hother, hword, -⟩ :=
    Declaration.exists_of_isPlainSchema (hplain declaration hdeclaration)
  cases hname
  exact ⟨hother, hword⟩

/-- A schema whose type parameter is named like a constant, and one that refers to that constant. -/
def crateFile : Module where
  declarations := [
    .schema "T" true (.call "String" [] [("title", .literal (.str "a T"))]) [],
    .schema "Box" true
      (.call "Object" [.object [("T", .ref "T"), ("\"in T\"", .apply "Box" [.ref "T"])]] []) ["T"],
    .schema "Crate" false (.apply "Box" [.ref "T", .raw "'T'"]) []]
  usesSchema := true
  usesGenerics := true

/-- A session without files and without a formatter. -/
def emptySession : Session := .fresh .empty (fun _ => none) .plain .absent

/-- A constant with the name of a number, and a bound that is this number. -/
def infinityFile : Module where
  declarations := [.schema "Infinity" false
    (.call "Number" [] [("maximum", .literal (.float (.infinite false)))]) []]
  usesSchema := true
  usesGenerics := false

end Schemata
