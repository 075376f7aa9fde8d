import Schemata.Proofs.Derive.StrictSoundness
import Schemata.Proofs.Doc.TagValues
import Schemata.Proofs.Schema.Leaves
import Schemata.Schema.Render

/-!
# Everything derived can be written

Only an expression or a declaration of no known form cannot be written. None is ever derived: no
rule makes one, and what is copied from the registry was derived before. Neither is a field or the
body of a fixed point ever left out, nor does an option ever hold a list or an object, for options
come from tags alone.
-/

namespace Schemata

namespace Expr

/-- A constructor of a known form has values in its fields and in its body, and its options are
single values. -/
def WellBuilt : Expr → Prop
  | .call _ _ options => ∀ option ∈ options, option.2.isAtom = true
  | .object fields => ∀ field ∈ fields, field.2 ≠ .absent
  | .recursive _ body => body ≠ .absent
  | .ref _ | .apply _ _ | .raw _ | .array _ => True
  | .absent | .bare => False

/-- The expression and everything inside it is well built. -/
def Complete (expr : Expr) : Prop := expr.Everywhere WellBuilt

theorem Complete.ne_absent {expr : Expr} (h : expr.Complete) : expr ≠ .absent := by
  rintro rfl
  exact h .absent (self_mem_subterms _)

theorem complete_raw (text : String) : (Expr.raw text).Complete := everywhere_raw.2 trivial

theorem complete_call_iff {name : String} {args : List Expr} {options : Options} :
    (Expr.call name args options).Complete ↔
      (∀ option ∈ options, option.2.isAtom = true) ∧ ∀ arg ∈ args, arg.Complete :=
  everywhere_call_iff

theorem complete_construct {name : String} {args : List Expr} (h : ∀ arg ∈ args, arg.Complete) :
    (Expr.construct name args).Complete :=
  complete_call_iff.2 ⟨by simp, h⟩

theorem complete_apply_iff {callee : String} {args : List Expr} :
    (Expr.apply callee args).Complete ↔ ∀ arg ∈ args, arg.Complete :=
  everywhere_apply_iff.trans (and_iff_right trivial)

theorem complete_array_iff {items : List Expr} :
    (Expr.array items).Complete ↔ ∀ item ∈ items, item.Complete :=
  everywhere_array_iff.trans (and_iff_right trivial)

theorem complete_object_iff {fields : List (String × Expr)} :
    (Expr.object fields).Complete ↔ ∀ field ∈ fields, field.2.Complete :=
  everywhere_object_iff.trans
    (and_iff_right_of_imp fun h field hfield => Complete.ne_absent (h field hfield))

theorem complete_recursive_iff {name : String} {body : Expr} :
    (Expr.recursive name body).Complete ↔ body.Complete :=
  everywhere_recursive_iff.trans (and_iff_right_of_imp Complete.ne_absent)

/-- Options with single values may be attached. -/
theorem Gains.complete {options : Options} {expr result : Expr} (h : Gains options expr result)
    (hoptions : ∀ option ∈ options, option.2.isAtom = true) (hexpr : expr.Complete) :
    result.Complete := by
  induction h with
  | constructor name args own =>
    obtain ⟨hown, hargs⟩ := complete_call_iff.1 hexpr
    refine complete_call_iff.2 ⟨?_, hargs⟩
    exact forall_mem_setEntries (p := fun value : OptionValue => value.isAtom = true) hoptions hown
  | wrapped name rest own _ ih =>
    obtain ⟨hown, hargs⟩ := complete_call_iff.1 hexpr
    rw [List.forall_mem_cons] at hargs
    exact complete_call_iff.2 ⟨hown, List.forall_mem_cons.2 ⟨ih hargs.1, hargs.2⟩⟩
  | recursive name _ ih => exact complete_recursive_iff.2 (ih (complete_recursive_iff.1 hexpr))

theorem complete_attach {options : Options} {expr result : Expr}
    (hoptions : ∀ option ∈ options, option.2.isAtom = true) (hexpr : expr.Complete)
    (h : expr.attach options = some result) : result.Complete := by
  obtain ⟨-, rfl⟩ | hgains := attach_eq_some h
  · exact hexpr
  · exact hgains.complete hoptions hexpr

mutual

theorem subterms_subset_of_mem_fieldList {field : String × Expr} :
    (expr : Expr) → field ∈ expr.fieldList → field.2.subterms ⊆ expr.subterms
  | .object fields, hmem => by
    obtain ⟨origin, horigin, rfl⟩ := List.mem_map.1 hmem
    intro inner hinner
    exact List.mem_cons_of_mem _
      (mem_subtermsOfFields.2 ⟨origin, (List.mem_filter.1 horigin).1, hinner⟩)
  | .call _ args _, hmem | .apply _ args, hmem | .array args, hmem => fun _ hinner =>
    List.mem_cons_of_mem _ (subterms_subset_of_mem_fieldLists args hmem hinner)
  | .recursive _ body, hmem => fun _ hinner =>
    List.mem_cons_of_mem _ (subterms_subset_of_mem_fieldList body hmem hinner)
  | .ref _, hmem | .raw _, hmem | .absent, hmem | .bare, hmem => by simp [fieldList] at hmem

theorem subterms_subset_of_mem_fieldLists {field : String × Expr} :
    (exprs : List Expr) → field ∈ fieldLists exprs → field.2.subterms ⊆ subtermsOf exprs
  | [], hmem => by simp [fieldLists] at hmem
  | expr :: rest, hmem => by
    rw [fieldLists, List.mem_append] at hmem
    rw [subtermsOf]
    intro inner hinner
    rcases hmem with hhere | hrest
    · exact List.mem_append_left _ (subterms_subset_of_mem_fieldList expr hhere hinner)
    · exact List.mem_append_right _ (subterms_subset_of_mem_fieldLists rest hrest hinner)

end

theorem Complete.field {expr value : Expr} {key : String} (h : expr.Complete)
    (hfield : expr.field? key = some value) : value.Complete := by
  rw [field?_eq_lastValue?] at hfield
  have hsubset := subterms_subset_of_mem_fieldList expr (mem_of_lastValue? hfield)
  exact fun inner hinner => h inner (hsubset hinner)

/-! ### Writing -/

mutual

theorem exists_render (level : Int) :
    (expr : Expr) → expr.Complete → ∃ text, expr.render level = .ok text
  | .ref name, _ => ⟨name, rfl⟩
  | .raw text, _ => ⟨text, rfl⟩
  | .call name args options, h => by
    obtain ⟨texts, htexts⟩ :=
      exists_renderAll level args (complete_call_iff.1 h).2
    rw [render, htexts]
    exact ⟨_, rfl⟩
  | .apply callee args, h => by
    obtain ⟨texts, htexts⟩ :=
      exists_renderAll level args (complete_apply_iff.1 h)
    rw [render, htexts]
    exact ⟨_, rfl⟩
  | .array items, h => by
    obtain ⟨texts, htexts⟩ :=
      exists_renderAll level items (complete_array_iff.1 h)
    rw [render, htexts]
    exact ⟨_, rfl⟩
  | .object fields, h => by
    obtain ⟨lines, hlines⟩ :=
      exists_renderFields level fields (complete_object_iff.1 h)
    rw [render, hlines]
    cases lines with
    | nil => exact ⟨_, rfl⟩
    | cons => exact ⟨_, rfl⟩
  | .recursive name body, h => by
    obtain ⟨text, htext⟩ := exists_render level body (complete_recursive_iff.1 h)
    rw [render, htext]
    exact ⟨_, rfl⟩
  | .absent, h => absurd rfl h.ne_absent
  | .bare, h => (h .bare (self_mem_subterms _)).elim

theorem exists_renderAll (level : Int) :
    (exprs : List Expr) → (∀ expr ∈ exprs, expr.Complete) →
      ∃ texts, renderAll level exprs = .ok texts
  | [], _ => ⟨[], rfl⟩
  | expr :: rest, h => by
    obtain ⟨text, htext⟩ := exists_render level expr (h expr List.mem_cons_self)
    obtain ⟨texts, htexts⟩ := exists_renderAll level rest fun other hother =>
      h other (List.mem_cons_of_mem _ hother)
    rw [renderAll, htext, htexts]
    exact ⟨_, rfl⟩

theorem exists_renderFields (level : Int) :
    (fields : List (String × Expr)) → (∀ field ∈ fields, field.2.Complete) →
      ∃ lines, renderFields level fields = .ok lines
  | [], _ => ⟨[], rfl⟩
  | (name, value) :: rest, h => by
    obtain ⟨text, htext⟩ := exists_render (level + 1) value (h _ List.mem_cons_self)
    obtain ⟨lines, hlines⟩ := exists_renderFields level rest fun other hother =>
      h other (List.mem_cons_of_mem _ hother)
    rw [renderFields, htext, hlines]
    exact ⟨_, rfl⟩

end

end Expr

namespace Declaration

/-- The declaration is of a known form, and its expression is complete. -/
def Complete : Declaration → Prop
  | .schema _ _ body _ => body.Complete
  | .enumeration _ _ _ | .scope _ _ _ _ | .verbatim _ => True
  | .bare => False

mutual

theorem exists_render :
    (declaration : Declaration) → (∀ inner ∈ declaration.nested, inner.Complete) →
      ∃ text, declaration.render = .ok text
  | .schema name exported body parameters, h => by
    have hbody : body.Complete := h _ (mem_nested_self _)
    obtain ⟨text, htext⟩ := Expr.exists_render 0 body hbody
    rw [render, htext]
    exact ⟨_, rfl⟩
  | .enumeration _ _ _, _ => ⟨_, rfl⟩
  | .scope name exported keyword body, h => by
    obtain ⟨texts, htexts⟩ := exists_renderAll body fun inner hinner =>
      h inner (List.mem_cons_of_mem _ hinner)
    rw [render, htexts]
    exact ⟨_, rfl⟩
  | .verbatim text, _ => ⟨text, rfl⟩
  | .bare, h => (h _ (mem_nested_self _)).elim

theorem exists_renderAll :
    (declarations : List Declaration) → (∀ inner ∈ nestedOf declarations, inner.Complete) →
      ∃ texts, renderAll declarations = .ok texts
  | [], _ => ⟨[], rfl⟩
  | declaration :: rest, h => by
    rw [nestedOf, List.forall_mem_append] at h
    obtain ⟨text, htext⟩ := exists_render declaration h.1
    obtain ⟨texts, htexts⟩ := exists_renderAll rest h.2
    rw [renderAll, htext, htexts]
    exact ⟨_, rfl⟩

end

end Declaration

theorem render_moduleOf {declarations : List Declaration} {blocks : List String}
    (hblocks : Declaration.renderAll declarations = .ok blocks) (events : List Event)
    (library : String) :
    (moduleOf declarations events).render library =
      .ok (Text.join "\n\n"
        (((moduleOf declarations events).header library :: blocks).filter (· != "")) ++
          "\n") := by
  have hdeclarations : (moduleOf declarations events).declarations = declarations := rfl
  rw [Module.render, hdeclarations, hblocks]
  rfl

/-! ### Derived declarations -/

/-- Whatever happens, what is registered is complete. -/
def completeRegistrations : Judgement where
  benign _ := True
  assured event := ∀ name body, event = .registered name body → body.Complete

theorem completeTypeLaw {find : String → Option Expr}
    (hfind : ∀ name expr, find name = some expr → expr.Complete) :
    TypeLaw completeRegistrations find Expr.Complete where
  construct _ _ h := Expr.complete_construct h
  literal text := Expr.complete_construct (List.forall_mem_singleton.2 (Expr.complete_raw text))
  builtin name _ := Expr.complete_raw ("Type." ++ name)
  ref _ := Expr.everywhere_ref.2 trivial
  apply _ _ h := Expr.complete_apply_iff.2 h
  array _ h := Expr.complete_array_iff.2 h
  object _ h := Expr.complete_object_iff.2 h
  attach _ _ _ hdocumented h hattach := by
    obtain ⟨comment, hcomment⟩ := hdocumented
    exact Expr.complete_attach (Doc.isAtom_of_options hcomment) h hattach
  found _ _ _ _ hexpr hvalue := (hfind _ _ hexpr).field hvalue
  field _ _ _ h hfield := h.field hfield
  remark diagnostic := by simp [Judgement.holds, completeRegistrations]
  remarked diagnostic text :=
    completeRegistrations.ofBind (completeRegistrations.ofEmit (by simp [completeRegistrations]))
      fun _ _ => completeRegistrations.ofPure (Expr.complete_raw text)

theorem completeStatementLaw {find : String → Option Expr}
    (hfind : ∀ name expr, find name = some expr → expr.Complete) :
    StatementLaw completeRegistrations find Expr.Complete (fun _ => True) True
      (fun declaration => ∀ inner ∈ declaration.nested, inner.Complete) where
  toTypeLaw := completeTypeLaw hfind
  recursive _ _ h := Expr.complete_recursive_iff.2 h
  schema _ _ _ _ h := by simpa [Declaration.nested, Declaration.Complete] using h
  enumeration _ _ _ := by simp [Declaration.nested, Declaration.Complete]
  scope _ _ _ _ h := Declaration.forall_nested_scope trivial h
  kept _ _ _ _ := by simp [Declaration.nested, Declaration.Complete]
  remarkedStatement label :=
    completeRegistrations.ofBind
      (completeRegistrations.ofEmit (by simp [completeRegistrations, unsupported]))
      fun _ _ => completeRegistrations.ofPure (by simp [Declaration.nested, Declaration.Complete])
  needsSchema := by simp [completeRegistrations]
  needsGenerics := by simp [completeRegistrations]
  registered _ name body h := by
    rintro _ _ ⟨⟩
    exact h

/-- Whatever is derived from a file, and whatever it registers, is complete. -/
theorem complete_of_derived {root : Node} {derived : DerivedFile}
    (h : (deriveFile root).result = .ok derived) :
    (∀ declaration ∈ Declaration.nestedOf derived.declarations, declaration.Complete) ∧
      derived.registry.All Expr.Complete := by
  have hlaw := statements_holds
    (fun registry hall => completeStatementLaw hall)
    (fun name body hassured => hassured name body rfl)
    root.children .empty none (by simp [Registry.All, Registry.empty, Registry.get?, valueAt?])
    (fun _ _ => trivial)
  obtain ⟨hfits, hregistry⟩ := (hlaw fun _ _ => trivial).2 derived h
  refine ⟨fun declaration hdeclaration => ?_, hregistry⟩
  obtain ⟨outer, houter, hnested⟩ := Declaration.mem_nestedOf.1 hdeclaration
  exact hfits outer houter declaration hnested

end Schemata
