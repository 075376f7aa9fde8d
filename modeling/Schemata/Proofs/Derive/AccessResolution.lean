import Schemata.Proofs.Derive.AccessScope
import Schemata.Proofs.Derive.StrictSoundness

/-!
# How accesses are resolved

An access selects a field by its key: of a registered expression, or of the field that an access
inside it selected. Which field that is can be said without the map that the resolver builds: of the
objects that are not inside another object, read from left to right, it is the last field that bears
the key once its quotes are taken off. What cannot be resolved is marked, and noted once, where it
fails; a marker that was met on the way, made here or long before, is passed on without a further
word.

The rules are stated as a relation between a node and a report, and the resolver is shown to be that
relation.
-/

namespace Schemata

namespace Text

/-- What is left of a text without one pair of equal quotes around it. -/
inductive Unquoted (text : String) : String → Prop where
  | quoted {quote : Char} {inner : String} (hquote : quote ∈ ['"', '\'', '`'])
      (h : text.toList = quote :: (inner.toList ++ [quote])) : Unquoted text inner
  | plain (h : ∀ quote ∈ ['"', '\'', '`'], ∀ inner, text.toList ≠ quote :: (inner ++ [quote])) :
      Unquoted text text

theorem unquoteChars_quoted {quote : Char} (hquote : quote ∈ ['"', '\'', '`'])
    (inner : List Char) : unquoteChars (quote :: (inner ++ [quote])) = inner := by
  have hbool : (quote == '"' || quote == '\'' || quote == '`') = true := by
    simpa [or_assoc] using hquote
  cases inner with
  | nil => simp [unquoteChars, hbool]
  | cons c inner =>
    have hclosed : (c :: (inner ++ [quote])).getLast? = some quote :=
      List.getLast?_eq_some_iff.2 ⟨c :: inner, rfl⟩
    have hinner : (c :: (inner ++ [quote])).dropLast = c :: inner := by
      rw [← List.cons_append, List.dropLast_concat]
    simp [unquoteChars, hbool, hclosed, hinner]

theorem unquoteChars_plain {chars : List Char}
    (h : ∀ quote ∈ ['"', '\'', '`'], ∀ inner, chars ≠ quote :: (inner ++ [quote])) :
    unquoteChars chars = chars := by
  unfold unquoteChars
  split
  · rename_i first second rest
    split
    · rename_i hquotes
      simp only [Bool.and_eq_true, Bool.or_eq_true, beq_iff_eq] at hquotes
      obtain ⟨inner, hclosed⟩ := List.getLast?_eq_some_iff.1 hquotes.2
      exact absurd (congrArg (first :: ·) hclosed)
        (h first (by simpa [or_assoc] using hquotes.1) inner)
    · rfl
  · rfl

theorem unquoted_iff {text inner : String} : Unquoted text inner ↔ unquote text = inner := by
  constructor
  · intro h
    cases h with
    | quoted hquote h => rw [unquote, h, unquoteChars_quoted hquote, String.ofList_toList]
    | plain h => rw [unquote, unquoteChars_plain h, String.ofList_toList]
  · rintro rfl
    by_cases h : ∃ quote ∈ ['"', '\'', '`'], ∃ inner, text.toList = quote :: (inner ++ [quote])
    · obtain ⟨quote, hquote, inner, htext⟩ := h
      refine .quoted hquote ?_
      rw [unquote, htext, unquoteChars_quoted hquote, String.toList_ofList]
    · have hplain : ∀ quote ∈ ['"', '\'', '`'], ∀ inner,
          text.toList ≠ quote :: (inner ++ [quote]) :=
        fun quote hquote inner htext => h ⟨quote, hquote, inner, htext⟩
      have hself : unquote text = text := by
        rw [unquote, unquoteChars_plain hplain, String.ofList_toList]
      rw [hself]
      exact .plain hplain

end Text

/-! ### Fields by their keys -/

namespace Expr

mutual

/-- The objects in an expression that are not inside another object, from left to right. -/
def outerObjects : Expr → List (List (String × Expr))
  | .object fields => [fields]
  | .call _ args _ | .apply _ args | .array args => outerObjectsOf args
  | .recursive _ body => outerObjects body
  | .ref _ | .raw _ | .absent | .bare => []

def outerObjectsOf : List Expr → List (List (String × Expr))
  | [] => []
  | expr :: rest => outerObjects expr ++ outerObjectsOf rest

end

/-- Of the fields of the outer objects that have a value, the last one that bears the key. -/
def LastField (expr : Expr) (key : String) (value : Expr) : Prop :=
  ∃ before name after, expr.outerObjects.flatten = before ++ (name, value) :: after ∧
    value ≠ .absent ∧ Text.Unquoted name key ∧
    ∀ field ∈ after, Text.Unquoted field.1 key → field.2 = .absent

/-- No field of the outer objects that has a value bears the key. -/
def LacksField (expr : Expr) (key : String) : Prop :=
  ∀ field ∈ expr.outerObjects.flatten, Text.Unquoted field.1 key → field.2 = .absent

/-- The fields that have a value, under their keys. -/
def keyed (fields : List (String × Expr)) : List (String × Expr) :=
  (fields.filter fun field => field.2.isPresent).map fun field => (Text.unquote field.1, field.2)

theorem isPresent_iff {expr : Expr} : expr.isPresent = true ↔ expr ≠ .absent := by
  cases expr <;> simp [isPresent]

theorem keyed_append (front back : List (String × Expr)) :
    keyed (front ++ back) = keyed front ++ keyed back := by
  simp [keyed]

mutual

theorem fieldList_eq_keyed : (expr : Expr) → expr.fieldList = keyed expr.outerObjects.flatten
  | .object fields => by simp [fieldList, outerObjects, keyed]
  | .call _ args _ | .apply _ args | .array args => by
    rw [fieldList, outerObjects]
    exact fieldLists_eq_keyed args
  | .recursive _ body => by
    rw [fieldList, outerObjects]
    exact fieldList_eq_keyed body
  | .ref _ | .raw _ | .absent | .bare => by simp [fieldList, outerObjects, keyed]

theorem fieldLists_eq_keyed :
    (exprs : List Expr) → fieldLists exprs = keyed (outerObjectsOf exprs).flatten
  | [] => rfl
  | expr :: rest => by
    rw [fieldLists, outerObjectsOf, List.flatten_append, keyed_append, fieldList_eq_keyed expr,
      fieldLists_eq_keyed rest]

end

theorem lastValue?_keyed_eq_none {key : String} {fields : List (String × Expr)} :
    lastValue? key (keyed fields) = none ↔
      ∀ field ∈ fields, Text.Unquoted field.1 key → field.2 = .absent := by
  simp only [lastValue?_eq_none_iff, keyed, List.mem_map, List.mem_filter, isPresent_iff,
    Text.unquoted_iff]
  constructor
  · intro h field hfield hkey
    refine Classical.byContradiction fun hvalue => ?_
    exact h _ ⟨field, ⟨hfield, hvalue⟩, rfl⟩ hkey
  · rintro h _ ⟨field, ⟨hfield, hvalue⟩, rfl⟩ hkey
    exact hvalue (h field hfield hkey)

theorem lastValue?_keyed_eq_some {key : String} {value : Expr} {fields : List (String × Expr)} :
    lastValue? key (keyed fields) = some value ↔
      ∃ before name after, fields = before ++ (name, value) :: after ∧ value ≠ .absent ∧
        Text.Unquoted name key ∧
        ∀ field ∈ after, Text.Unquoted field.1 key → field.2 = .absent := by
  constructor
  · -- along the fields: the last one that counts is in the rest, or it is the first one
    intro h
    induction fields with
    | nil => cases h
    | cons field rest ih =>
      rw [← List.singleton_append, keyed_append, lastValue?_append] at h
      cases hrest : lastValue? key (keyed rest) with
      | some later =>
        rw [hrest, Option.some_or] at h
        obtain ⟨before, name, after, rfl, hvalue⟩ := ih (hrest.trans h)
        exact ⟨field :: before, name, after, rfl, hvalue⟩
      | none =>
        rw [hrest, Option.none_or] at h
        obtain ⟨hfield, heq⟩ : field ∈ [field].filter (fun field => field.2.isPresent) ∧
            (Text.unquote field.1, field.2) = (key, value) := by
          obtain ⟨origin, horigin, heq⟩ := List.mem_map.1 (mem_of_lastValue? h)
          obtain rfl := List.mem_singleton.1 (List.mem_filter.1 horigin).1
          exact ⟨horigin, heq⟩
        obtain ⟨hkey, rfl⟩ := Prod.mk.inj heq
        exact ⟨[], field.1, rest, rfl, isPresent_iff.1 (List.mem_filter.1 hfield).2,
          Text.unquoted_iff.2 hkey, lastValue?_keyed_eq_none.1 hrest⟩
  · rintro ⟨before, name, after, rfl, hvalue, hkey, hafter⟩
    have hhere : keyed ((name, value) :: after) = (key, value) :: keyed after := by
      simp [keyed, isPresent_iff.2 hvalue, Text.unquoted_iff.1 hkey]
    rw [keyed_append, lastValue?_append, hhere, lastValue?_cons,
      lastValue?_keyed_eq_none.2 hafter]
    simp

theorem lastField_iff {expr value : Expr} {key : String} :
    expr.LastField key value ↔ expr.field? key = some value := by
  rw [field?_eq_lastValue?, fieldList_eq_keyed, lastValue?_keyed_eq_some]
  rfl

theorem lacksField_iff {expr : Expr} {key : String} :
    expr.LacksField key ↔ expr.field? key = none := by
  rw [field?_eq_lastValue?, fieldList_eq_keyed, lastValue?_keyed_eq_none]
  rfl

end Expr

/-! ### The rules -/

/-- A failure is noted once, where it happens, and a marker stands in for the expression. -/
def Report.marked (node : Node) (message marker : String) : Report Expr :=
  ⟨[.noted ⟨.indexedAccess, message, "lookup_type", node.line⟩], .ok (.raw marker)⟩

/-- The kinds of nodes that name a declaration. -/
def referenceKinds : List Kind := [.typeIdentifier, .nestedTypeIdentifier, .genericType]

/-- What an access yields that selects a key in an expression. -/
inductive Selected (node : Node) (expr : Expr) (key : String) : Report Expr → Prop where
  | found {value : Expr} (h : expr.LastField key value) : Selected node expr key (pure value)
  | missing (h : expr.LacksField key) :
      Selected node expr key (.marked node
        ("Property '" ++ key ++ "' not found in '" ++ node.text ++ "'.")
        "IndexedAccessTypeAttributeNotFound")

/-- What an access to a field of a declaration yields. -/
inductive ResolvedDirectly (find : String → Option Expr) (node : Node) : Report Expr → Prop where
  | registered {base key : Node} {more : List Node} {expr : Expr} {name : String}
      {report : Report Expr} (hparts : node.parts = base :: key :: more)
      (hbase : base.kind ∈ referenceKinds) (hfind : find base.text = some expr)
      (hkey : Text.Unquoted key.text name) (h : Selected node expr name report) :
      ResolvedDirectly find node report
  | unregistered {base key : Node} {more : List Node} (hparts : node.parts = base :: key :: more)
      (hbase : base.kind ∈ referenceKinds) (hfind : find base.text = none) :
      ResolvedDirectly find node (.marked node
        ("Error in IndexedAccessType. Expected the type '" ++ base.text ++
          "' that was indexed to already have been generated.")
        "IndexedAccessTypeError")

/-- An access whose base names a declaration. -/
def Node.IsDirectAccess (node : Node) : Prop :=
  node.kind = .lookupType ∧
    ∃ base key more, node.parts = base :: key :: more ∧ base.kind ∈ referenceKinds

/-- What an access yields. -/
inductive Resolved (find : String → Option Expr) (node : Node) : Report Expr → Prop where
  | directly {report : Report Expr} (h : ResolvedDirectly find node report) :
      Resolved find node report
  | through {inner key : Node} {more : List Node} {value : Expr} {name : String}
      {report : Report Expr} (hparts : node.parts = inner :: key :: more)
      (hinner : inner.IsDirectAccess) (hvalue : ResolvedDirectly find inner (pure value))
      (hmarker : value ≠ .raw "IndexedAccessTypeError" ∧
        value ≠ .raw "IndexedAccessTypeAttributeNotFound")
      (hkey : Text.Unquoted key.text name) (h : Selected node value name report) :
      Resolved find node report
  | inherited {inner key : Node} {more : List Node} {marker : String} {report : Report Expr}
      (hparts : node.parts = inner :: key :: more) (hinner : inner.IsDirectAccess)
      (hmarker : marker ∈ ["IndexedAccessTypeError", "IndexedAccessTypeAttributeNotFound"])
      (h : ResolvedDirectly find inner report) (hresult : report.result = .ok (.raw marker)) :
      Resolved find node report
  | refused {base key : Node} {more : List Node} (hparts : node.parts = base :: key :: more)
      (hbase : base.kind ∉ referenceKinds) (hinner : ¬ base.IsDirectAccess) :
      Resolved find node (.marked node
        "Only indexed access types of depth 1 and 2 are supported." "IndexedAccessTypeError")

/-! ### The resolver follows the rules -/

theorem isReference_iff {kind : Kind} : kind.isReference = true ↔ kind ∈ referenceKinds := by
  cases kind <;> simp [Kind.isReference, referenceKinds]

theorem isMarker_iff {expr : Expr} :
    expr.isMarker = true ↔ expr = .raw "IndexedAccessTypeError" ∨
      expr = .raw "IndexedAccessTypeAttributeNotFound" := by
  cases expr <;> simp [Expr.isMarker, accessErrorMarker, fieldErrorMarker]

theorem isMarker_raw {marker : String}
    (h : marker ∈ ["IndexedAccessTypeError", "IndexedAccessTypeAttributeNotFound"]) :
    (Expr.raw marker).isMarker = true := by
  rw [isMarker_iff]
  simpa using h

theorem bind_of_isMarker {report : Report Expr} {value : Expr} (f : Expr → Report Expr)
    (h : report.result = .ok value) (hstop : value.isMarker = true) :
    (report >>= fun expr => if expr.isMarker then pure expr else f expr) = report := by
  obtain ⟨events, result⟩ := report
  obtain rfl : result = .ok value := h
  simp [Bind.bind, Report.bind, Pure.pure, Report.pure, hstop]

section Resolution

variable {find : String → Option Expr} {node : Node}

theorem failedAccess_eq (hkind : node.kind = .lookupType) (message marker : String) :
    failedAccess node message marker = .marked node message marker := by
  rw [failedAccess, hkind]
  rfl

theorem selected_iff (hkind : node.kind = .lookupType) {expr : Expr} {key : String}
    {report : Report Expr} : Selected node expr key report ↔ selectField node expr key = report := by
  constructor
  · intro h
    cases h with
    | found h => rw [selectField, Expr.lastField_iff.1 h]
    | missing h =>
      rw [selectField, Expr.lacksField_iff.1 h]
      exact failedAccess_eq hkind _ _
  · rintro rfl
    cases hfield : expr.field? key with
    | some value =>
      rw [selectField, hfield]
      exact .found (Expr.lastField_iff.2 hfield)
    | none =>
      rw [selectField, hfield]
      dsimp only
      rw [failedAccess_eq hkind]
      exact .missing (Expr.lacksField_iff.2 hfield)

theorem resolvedDirectly_iff (h : node.IsDirectAccess) {report : Report Expr} :
    ResolvedDirectly find node report ↔ resolveShallow find node = report := by
  obtain ⟨hkind, base, key, more, hparts, hbase⟩ := h
  rw [resolveShallow, baseAndKey_eq hparts, pure_bind]
  dsimp only
  constructor
  · intro h
    cases h with
    | registered hparts' _ hfind hkey h =>
      cases hparts.symm.trans hparts'
      rw [hfind]
      dsimp only
      rw [Text.unquoted_iff.1 hkey]
      exact (selected_iff hkind).1 h
    | unregistered hparts' _ hfind =>
      cases hparts.symm.trans hparts'
      rw [hfind]
      exact failedAccess_eq hkind _ _
  · rintro rfl
    cases hfind : find base.text with
    | some expr =>
      exact .registered hparts hbase hfind (Text.unquoted_iff.2 rfl) ((selected_iff hkind).2 rfl)
    | none =>
      dsimp only
      rw [failedAccess_eq hkind]
      exact .unregistered hparts hbase hfind

theorem ResolvedDirectly.isDirectAccess {report : Report Expr} (hkind : node.kind = .lookupType)
    (h : ResolvedDirectly find node report) : node.IsDirectAccess := by
  cases h with
  | registered hparts hbase => exact ⟨hkind, _, _, _, hparts, hbase⟩
  | unregistered hparts hbase => exact ⟨hkind, _, _, _, hparts, hbase⟩

theorem resolveAccess_directly (h : node.IsDirectAccess) :
    resolveAccess find node = resolveShallow find node := by
  obtain ⟨-, base, key, more, hparts, hbase⟩ := h
  rw [resolveAccess, baseAndKey_eq hparts, pure_bind]
  simp only [isReference_iff.2 hbase, if_true]

theorem resolveAccess_through {inner key : Node} {more : List Node}
    (hparts : node.parts = inner :: key :: more) (hinner : inner.IsDirectAccess) :
    resolveAccess find node = (do
      let expr ← resolveShallow find inner
      if expr.isMarker then return expr else selectField node expr (Text.unquote key.text)) := by
  obtain ⟨hkind, base, innerKey, innerMore, hinnerParts, hbase⟩ := hinner
  have hlookup : Kind.lookupType.isReference = false := rfl
  rw [resolveAccess, baseAndKey_eq hparts, pure_bind]
  simp only [hkind, hlookup, baseAndKey_eq hinnerParts, pure_bind, isReference_iff.2 hbase,
    beq_self_eq_true, if_true, Bool.false_eq_true, if_false]
  rw [resolveDeep, baseAndKey_eq hparts, pure_bind]

theorem resolveAccess_refused {base key : Node} {more : List Node}
    (hparts : node.parts = base :: key :: more) (hbase : base.kind ∉ referenceKinds)
    (hinner : ¬ base.IsDirectAccess)
    (hshape : base.kind = .lookupType → ∃ inner innerKey innerMore,
      base.parts = inner :: innerKey :: innerMore) :
    resolveAccess find node = failedAccess node
      "Only indexed access types of depth 1 and 2 are supported." accessErrorMarker := by
  have hplain : base.kind.isReference = false :=
    Bool.eq_false_iff.2 fun h => hbase (isReference_iff.1 h)
  rw [resolveAccess, baseAndKey_eq hparts, pure_bind]
  simp only [hplain, Bool.false_eq_true, if_false]
  split
  · rename_i hlookup
    obtain ⟨inner, innerKey, innerMore, hinnerParts⟩ := hshape (eq_of_beq hlookup)
    have hdeep : inner.kind.isReference = false :=
      Bool.eq_false_iff.2 fun h => hinner
        ⟨eq_of_beq hlookup, inner, innerKey, innerMore, hinnerParts, isReference_iff.1 h⟩
    rw [baseAndKey_eq hinnerParts, pure_bind]
    simp only [hdeep, Bool.false_eq_true, if_false]
  · rfl

theorem resolveAccess_of_resolved (hkind : node.kind = .lookupType)
    (hshape : ∀ base ∈ node.parts.head?, base.kind = .lookupType →
      ∃ inner innerKey innerMore, base.parts = inner :: innerKey :: innerMore)
    {report : Report Expr} (h : Resolved find node report) : resolveAccess find node = report := by
  cases h with
  | directly h =>
    have hdirect := h.isDirectAccess hkind
    rw [resolveAccess_directly hdirect]
    exact (resolvedDirectly_iff hdirect).1 h
  | @through inner key more value name _ hparts hinner hvalue hmarker hkey h =>
    have hplain : value.isMarker = false :=
      Bool.eq_false_iff.2 fun h => (isMarker_iff.1 h).elim hmarker.1 hmarker.2
    rw [resolveAccess_through hparts hinner, (resolvedDirectly_iff hinner).1 hvalue, pure_bind,
      hplain, Text.unquoted_iff.1 hkey]
    exact (selected_iff hkind).1 h
  | @inherited inner key more marker _ hparts hinner hmarker h hresult =>
    rw [resolveAccess_through hparts hinner, (resolvedDirectly_iff hinner).1 h]
    exact bind_of_isMarker _ hresult (isMarker_raw hmarker)
  | refused hparts hbase hinner =>
    rw [resolveAccess_refused hparts hbase hinner (hshape _ (by rw [hparts]; rfl))]
    exact failedAccess_eq hkind _ _

/-- A report that says nothing, or one that notes a failure once and marks it. -/
def Report.NotedOnce (report : Report Expr) : Prop :=
  (∃ value, report = pure value) ∨
    ∃ node message marker, report = .marked node message marker ∧
      marker ∈ ["IndexedAccessTypeError", "IndexedAccessTypeAttributeNotFound"]

theorem Selected.notedOnce {expr : Expr} {key : String} {report : Report Expr}
    (h : Selected node expr key report) : report.NotedOnce := by
  cases h with
  | found => exact .inl ⟨_, rfl⟩
  | missing => exact .inr ⟨_, _, _, rfl, by simp⟩

theorem ResolvedDirectly.notedOnce {report : Report Expr} (h : ResolvedDirectly find node report) :
    report.NotedOnce := by
  cases h with
  | registered _ _ _ _ h => exact h.notedOnce
  | unregistered => exact .inr ⟨_, _, _, rfl, by simp⟩

theorem Resolved.notedOnce {report : Report Expr} (h : Resolved find node report) :
    report.NotedOnce := by
  cases h with
  | directly h => exact h.notedOnce
  | through _ _ _ _ _ h => exact h.notedOnce
  | inherited _ _ _ h => exact h.notedOnce
  | refused => exact .inr ⟨_, _, _, rfl, by simp⟩

theorem resolved_resolveAccess (hkind : node.kind = .lookupType) {base key : Node}
    {more : List Node} (hparts : node.parts = base :: key :: more)
    (hshape : base.kind = .lookupType → ∃ inner innerKey innerMore,
      base.parts = inner :: innerKey :: innerMore) :
    Resolved find node (resolveAccess find node) := by
  by_cases hbase : base.kind ∈ referenceKinds
  · have hdirect : node.IsDirectAccess := ⟨hkind, base, key, more, hparts, hbase⟩
    rw [resolveAccess_directly hdirect]
    exact .directly ((resolvedDirectly_iff hdirect).2 rfl)
  by_cases hinner : base.IsDirectAccess
  · have hfirst : ResolvedDirectly find base (resolveShallow find base) :=
      (resolvedDirectly_iff hinner).2 rfl
    rw [resolveAccess_through hparts hinner]
    obtain ⟨value, hvalue⟩ | ⟨place, message, marker, hmarked, hmarker⟩ := hfirst.notedOnce
    · rw [hvalue] at hfirst ⊢
      rw [pure_bind]
      by_cases hstop : value.isMarker = true
      · obtain ⟨marker, rfl, hmarker⟩ : ∃ marker, value = .raw marker ∧
            marker ∈ ["IndexedAccessTypeError", "IndexedAccessTypeAttributeNotFound"] := by
          obtain rfl | rfl := isMarker_iff.1 hstop
          · exact ⟨_, rfl, by simp⟩
          · exact ⟨_, rfl, by simp⟩
        rw [if_pos hstop]
        exact .inherited hparts hinner hmarker hfirst rfl
      · rw [if_neg hstop]
        rw [isMarker_iff, not_or] at hstop
        exact .through hparts hinner hfirst hstop (Text.unquoted_iff.2 rfl)
          ((selected_iff hkind).2 rfl)
    · rw [hmarked] at hfirst ⊢
      rw [bind_of_isMarker _ rfl (isMarker_raw hmarker)]
      exact .inherited hparts hinner hmarker hfirst rfl
  · rw [resolveAccess_refused hparts hbase hinner hshape, failedAccess_eq hkind]
    exact .refused hparts hbase hinner

end Resolution

/-- **Accesses are resolved by the rules.** Whatever is registered, an access yields the report that
the rules give it and no other one: the field that was selected, without a word, or a marker. A
failure is noted once, at the access that fails. -/
theorem access_by_rules (find : String → Option Expr) {node base key : Node} {more : List Node}
    (hkind : node.kind = .lookupType) (hparts : node.parts = base :: key :: more)
    (hshape : base.kind = .lookupType → ∃ inner innerKey innerMore,
      base.parts = inner :: innerKey :: innerMore) :
    (∀ report, Resolved find node report ↔ typeExpr find node = report) ∧
      (typeExpr find node).NotedOnce := by
  rw [typeExpr_lookup hkind]
  have hresolved : Resolved find node (resolveAccess find node) :=
    resolved_resolveAccess hkind hparts hshape
  refine ⟨fun report => ⟨fun h => ?_, fun h => h ▸ hresolved⟩, hresolved.notedOnce⟩
  refine resolveAccess_of_resolved hkind (fun first hfirst => ?_) h
  rw [hparts] at hfirst
  cases hfirst
  exact hshape

/-- `T["a"]['b']` -/
def nestedAccess : Node :=
  .sample .lookupType none "T[\"a\"]['b']" [
    .sampleAccess "T" "\"a\"", .sample .literalType none "'b'" []]

/-- `{ a: number, 'a': { b: boolean, "b": string } }` -/
def repeatedFields : Expr :=
  .construct "Object" [.object [("a", .constant "Number"),
    ("'a'", .construct "Object" [
      .object [("b", .constant "Boolean"), ("\"b\"", .constant "String")]])]]

/-- Of repeated fields the last one counts, at both levels, whatever quotes it has. -/
theorem access_nestedAccess :
    (∀ report, Resolved (fun _ => some repeatedFields) nestedAccess report ↔
      report = pure (.constant "String")) ∧
    Resolved (fun _ => none) nestedAccess (.marked (.sampleAccess "T" "\"a\"")
      ("Error in IndexedAccessType. Expected the type 'T' that was indexed to already have been " ++
        "generated.") "IndexedAccessTypeError") := by
  have hshape : (Node.sampleAccess "T" "\"a\"").kind = .lookupType → ∃ inner innerKey innerMore,
      (Node.sampleAccess "T" "\"a\"").parts = inner :: innerKey :: innerMore :=
    fun _ => ⟨_, _, _, rfl⟩
  constructor
  · intro report
    rw [(access_by_rules (fun _ => some repeatedFields) rfl rfl hshape).1]
    exact eq_comm
  · exact ((access_by_rules (fun _ => none) rfl rfl hshape).1 _).2 rfl

end Schemata
