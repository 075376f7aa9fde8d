import Schemata.Pipeline
import Schemata.Proofs.Derive.Completeness
import Schemata.Proofs.Derive.Traversal
import Schemata.Proofs.Session

/-!
# Rendering does not fail

A file that is derived is complete, down to what its accesses copied, so its module can be written,
and generating code from the tree of the file goes through to the end.
-/

namespace Schemata

open Run

theorem Run.on_ofReport {α : Type} (session : Session) (report : Report α) :
    on session (ofReport report) = (report.result.mapError Failure.fault,
      session.logging (report.events.filterMap Event.record?)) :=
  on_ofExcept _ _ _

/-- The code generated from a tree is that of the module derived from it. -/
theorem on_generateFrom {root : Node} {derived : DerivedFile} {library code : String}
    (hderived : (deriveFile root).result = .ok derived)
    (hcode : (moduleOf derived.declarations (deriveFile root).events).render library = .ok code)
    (libraryEncodable : Bool) (session : Session) :
    (on session (generateFrom library libraryEncodable root)).1 =
      .ok ⟨code, Report.diagnostics (deriveFile root).events,
        (moduleOf derived.declarations (deriveFile root).events).encodable library
          libraryEncodable⟩ := by
  obtain ⟨parsed, hparsed⟩ := (logs_log .debug _).exists_on_bind session _
  rw [generateFrom]
  dsimp only
  rw [hparsed, on_bind, on_ofReport, hderived]
  dsimp only [Except.mapError]
  obtain ⟨built, hbuilt⟩ := (logs_log .debug _).exists_on_bind _ _
  rw [hbuilt, hcode]
  rfl

/-- **Everything derived can be written.** Declarations and what they register are complete, so the
module of a file has a code, and generating it does not fail. -/
theorem rendered_of_derived {root : Node} {derived : DerivedFile}
    (hderived : (deriveFile root).result = .ok derived) :
    (∀ declaration ∈ Declaration.nestedOf derived.declarations, declaration.Complete) ∧
      derived.registry.All Expr.Complete ∧
      ∀ library, ∃ code,
        (moduleOf derived.declarations (deriveFile root).events).render library = .ok code ∧
          ∀ libraryEncodable session,
            (on session (generateFrom library libraryEncodable root)).1 =
              .ok ⟨code, Report.diagnostics (deriveFile root).events,
                (moduleOf derived.declarations (deriveFile root).events).encodable library
                  libraryEncodable⟩ := by
  obtain ⟨hcomplete, hregistered⟩ := complete_of_derived hderived
  refine ⟨hcomplete, hregistered, fun library => ?_⟩
  obtain ⟨blocks, hblocks⟩ := Declaration.exists_renderAll derived.declarations hcomplete
  have hcode := render_moduleOf hblocks (deriveFile root).events library
  exact ⟨_, hcode, on_generateFrom hderived hcode⟩

/-- `type A = { a: string }`, where the property has the tag `@default [0] @pattern`, then
`type T = A["a"]` in a namespace. -/
def copiedOptionFile : Node :=
  .sample (.other "program") none "" [
    .sampleAlias "A" [] (.sample .objectType (some .value) "" [
      .sample .comment none "/** @default [0] @pattern */" [],
      .sampleProperty "a" (.sample .predefinedType none "string" [])]),
    .sampleNamespace "N" [.sampleAlias "T" [] (.sampleAccess "A" "\"a\"")]]

/-- A list in a tag is kept as text, also where an access copies it. -/
theorem rendered_copiedOptionFile :
    ∃ derived code, (deriveFile copiedOptionFile).result = .ok derived ∧
      derived.declarations[1]? = some (.scope "N" false "namespace" [
        .schema "T" false (.call "String" [] [("default", .raw "[0] @pattern")]) []]) ∧
      (moduleOf derived.declarations (deriveFile copiedOptionFile).events).render "typebox" =
        .ok code := by
  have hderived : ∃ derived, (deriveFile copiedOptionFile).result = .ok derived ∧
      derived.declarations[1]? = some (.scope "N" false "namespace" [
        .schema "T" false (.call "String" [] [("default", .raw "[0] @pattern")]) []]) :=
    ⟨_, rfl, rfl⟩
  obtain ⟨derived, hderived, hcopied⟩ := hderived
  obtain ⟨-, -, hrendered⟩ := rendered_of_derived hderived
  obtain ⟨code, hcode, -⟩ := hrendered "typebox"
  exact ⟨derived, code, hderived, hcopied, hcode⟩

end Schemata
