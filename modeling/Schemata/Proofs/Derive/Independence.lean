import Schemata.Proofs.Derive.Lookups

/-!
# How statements influence each other

A statement of a file sees of the others only what they registered, and of that only what it looks
up. Its own registrations are named by what it declares. So neighbouring statements that do not look
each other up and declare different names can change places: each yields the same declaration and
the same events as before, and the rest of the file, for which the registries are the same under
look-up, does not notice.

What stands right before a statement matters too, for it may be its documentation. A statement
therefore moves together with its comments.
-/

namespace Schemata

theorem Report.events_map {α β : Type} (f : α → β) (x : Report α) :
    (f <$> x).events = x.events := by
  cases h : x.result with
  | error cause => rw [map_eq_pure_bind, events_bind_of_error h]
  | ok a => rw [map_eq_pure_bind, events_bind_of_ok h, events_pure, List.append_nil]

theorem Report.result_map_eq_ok {α β : Type} {f : α → β} {x : Report α} {b : β} :
    (f <$> x).result = .ok b ↔ ∃ a, x.result = .ok a ∧ f a = b := by
  rw [map_eq_pure_bind, result_bind_eq_ok]
  simp

/-- What stands before a statement matters only as a comment. -/
theorem statement_congr_previous {find : String → Option Expr} {node : Node}
    {previous previous' : Option Node} (h : commentBefore previous = commentBefore previous')
    (topLevel exported : Bool) :
    statement find topLevel exported previous node =
      statement find topLevel exported previous' node := by
  induction node using Node.induct generalizing topLevel exported with
  | step node ih =>
    by_cases hschema : node.kind.isSchema = true
    · rw [statement_eq_schemaStatement hschema, statement_eq_schemaStatement hschema, h]
    · obtain ⟨label, children⟩ := node
      rw [statement, statement]
      split <;> rename_i hkind <;> first
        | rfl
        | exact absurd (congrArg Kind.isSchema hkind) hschema
        | skip
      rw [exportedStatement?_eq, exportedStatement?_eq]
      cases hinner : Node.first? .declaration children with
      | none => simp only [Option.map_none]
      | some inner =>
        simp only [Option.map_some, Option.getD_some]
        exact ih inner (Node.mem_descendants_of_child? hinner) _ _

/-- A statement registers nothing but what it declares. -/
theorem lastValue?_registrations {find : String → Option Expr} {previous : Option Node}
    {node : Node} {name : String} (h : ¬ node.Declares name) :
    lastValue? name (registrations (statement find true false previous node).events) = none := by
  have hvalue := registersValue_statement find false previous node
  rw [lastValue?_eq_none_iff, hvalue]
  rintro ⟨registered, body⟩ hmem rfl
  split at hmem
  · rename_i found hfound
    obtain ⟨declaration, rfl, hregistration⟩ := Option.bind_eq_some_iff.1 (Option.mem_toList.1 hmem)
    cases declaration with
    | schema declared exported own parameters =>
      cases parameters with
      | nil =>
        cases hregistration
        exact h (exists_schemaParts_of_statement hfound).1
      | cons => cases hregistration
    | _ => cases hregistration
  · cases hmem

/-! ### Statements with their comments -/

/-- A statement of a file with what stands in front of it: comments, and tokens without a name. -/
structure StatementBlock where
  lead : List Node
  statement : Node
  isPart_lead : ∀ node ∈ lead, node.isPart = false
  isPart_statement : statement.isPart = true

/-- What becomes of a child of a file that is no part. The older kind of comment is not skipped but
passed through. -/
def remark (node : Node) : Report (Option Declaration) :=
  if node.label.named && node.kind == .htmlComment then unsupportedStatement node.label
  else return none

namespace StatementBlock

def nodes (block : StatementBlock) : List Node := block.lead ++ [block.statement]

def derive (block : StatementBlock) (find : String → Option Expr) :
    Report (List Declaration) := do
  let remarks ← block.lead.mapM remark
  let found ← Schemata.statement find true false block.lead.getLast? block.statement
  return remarks.flatMap Option.toList ++ found.toList

theorem named_statement (block : StatementBlock) : block.statement.label.named = true := by
  have h := block.isPart_statement
  simp only [Node.isPart, Bool.and_eq_true] at h
  exact h.1

theorem commentBefore_statement (block : StatementBlock) :
    commentBefore (some block.statement) = none := by
  have h := block.isPart_statement
  simp only [Node.isPart, Bool.and_eq_true, Bool.not_eq_true'] at h
  simp [commentBefore, Option.filter, h.2]

end StatementBlock

theorem statement_of_not_isPart {find : String → Option Expr} {node : Node}
    (hnamed : node.label.named = true) (h : node.isPart = false) (previous : Option Node) :
    statement find true false previous node = remark node := by
  obtain ⟨label, children⟩ := node
  have hcomment : label.kind.isComment = true := by
    rw [Node.isPart, hnamed, Bool.true_and, Bool.not_eq_false'] at h
    exact h
  unfold Kind.isComment at hcomment
  split at hcomment
  · rename_i hkind
    simp [statement, remark, Node.kind, Node.label, hkind]
  · rename_i hkind
    simp [statement, remark, Node.kind, Node.label, hkind, show label.named = true from hnamed]
  · cases hcomment

theorem exists_result_remark (node : Node) : ∃ found, (remark node).result = .ok found := by
  unfold remark
  split
  · exact ⟨_, rfl⟩
  · exact ⟨_, rfl⟩

theorem registrations_remark (node : Node) : registrations (remark node).events = [] := by
  unfold remark
  split
  · rfl
  · rfl

theorem exists_remarks (nodes : List Node) :
    ∃ remarks, (nodes.mapM remark).result = .ok remarks ∧
      registrations (nodes.mapM remark).events = [] := by
  induction nodes with
  | nil => exact ⟨[], rfl, rfl⟩
  | cons node rest ih =>
    obtain ⟨remarks, hremarks, hevents⟩ := ih
    obtain ⟨found, hfound⟩ := exists_result_remark node
    refine ⟨found :: remarks, ?_, ?_⟩
    · rw [List.mapM_cons, Report.result_bind_of_ok hfound, Report.result_bind_of_ok hremarks,
        Report.result_pure]
    · rw [List.mapM_cons, Report.events_bind_of_ok hfound, Report.events_bind_of_ok hremarks,
        registrations_append, registrations_append, registrations_remark, hevents]
      rfl

theorem statements_lead (registry : Registry) (previous : Option Node) {lead : List Node}
    (h : ∀ node ∈ lead, node.isPart = false) :
    statements registry previous lead = (do
      let remarks ← lead.mapM remark
      return ⟨remarks.flatMap Option.toList, registry⟩) := by
  induction lead generalizing previous with
  | nil => rfl
  | cons node rest ih =>
    have hrest := ih (some node) fun other hother => h other (List.mem_cons_of_mem _ hother)
    rw [statements, List.mapM_cons]
    split <;> rename_i hnamed
    · simp only [statement_of_not_isPart hnamed (h node List.mem_cons_self),
        Registry.apply_of_registrations_eq_nil (registrations_remark node), hrest, bind_assoc,
        pure_bind, List.flatMap_cons]
    · have hskipped : remark node = pure none := by
        rw [remark, Bool.eq_false_iff.2 hnamed, Bool.false_and, if_neg (by decide)]
      simp only [hskipped, hrest, bind_assoc, pure_bind, List.flatMap_cons, Option.toList_none,
        List.nil_append]

namespace StatementBlock

theorem registrations_derive (block : StatementBlock) (find : String → Option Expr) :
    registrations (block.derive find).events =
      registrations (Schemata.statement find true false block.lead.getLast?
        block.statement).events := by
  obtain ⟨remarks, hremarks, hevents⟩ := exists_remarks block.lead
  rw [derive, Report.events_bind_of_ok hremarks, registrations_append, hevents, List.nil_append,
    ← map_eq_pure_bind, Report.events_map]

theorem lastValue?_derive {block : StatementBlock} {find : String → Option Expr} {name : String}
    (h : ¬ block.statement.Declares name) :
    lastValue? name (registrations (block.derive find).events) = none := by
  rw [registrations_derive]
  exact lastValue?_registrations h

theorem derive_congr {block : StatementBlock} {find find' : String → Option Expr}
    (h : ∀ base ∈ block.statement.lookupBases, find base = find' base) :
    block.derive find = block.derive find' := by
  rw [derive, derive, statement_congr h]

end StatementBlock

/-- A block yields what is in it, unless a comment further up reaches it. -/
theorem statements_block (registry : Registry) {previous : Option Node} (block : StatementBlock)
    (h : commentBefore previous = none) :
    statements registry previous block.nodes = (do
      let found ← block.derive registry.get?
      return ⟨found, registry.apply (block.derive registry.get?).events⟩) := by
  have hcomment : commentBefore (block.lead.getLast?.or previous) =
      commentBefore block.lead.getLast? := by
    cases block.lead.getLast? with
    | none => exact h
    | some node => rfl
  have hregistry : registry.apply (block.derive registry.get?).events = registry.apply
      (statement registry.get? true false block.lead.getLast? block.statement).events := by
    rw [Registry.apply_eq, Registry.apply_eq, block.registrations_derive]
  rw [hregistry, StatementBlock.nodes, statements_append,
    statements_lead registry previous block.isPart_lead, StatementBlock.derive]
  simp only [statements, block.named_statement, if_true, statement_congr_previous hcomment,
    bind_assoc, pure_bind, List.append_nil]

/-! ### Along a file -/

/-- A stretch of a file takes from the registry only what look-ups yield, and from what stands
before it only the comment. -/
theorem statements_congr {registry registry' : Registry} {previous previous' : Option Node}
    (hget : registry.get? = registry'.get?)
    (hprevious : commentBefore previous = commentBefore previous') (nodes : List Node) :
    DerivedFile.declarations <$> statements registry previous nodes =
      DerivedFile.declarations <$> statements registry' previous' nodes := by
  induction nodes generalizing registry registry' previous previous' with
  | nil => rfl
  | cons node rest ih =>
    have hnext : ∀ events, DerivedFile.declarations <$>
        statements (registry.apply events) (some node) rest =
        DerivedFile.declarations <$> statements (registry'.apply events) (some node) rest := by
      intro events
      refine ih (funext fun name => ?_) rfl
      rw [Registry.get?_apply, Registry.get?_apply, hget]
    have hstep : ∀ (registry : Registry) (report : Report (Option Declaration)),
        DerivedFile.declarations <$> (do
          let declaration ← report
          let tail ← statements (registry.apply report.events) (some node) rest
          return ⟨declaration.toList ++ tail.declarations, tail.registry⟩) = (do
          let declaration ← report
          let declarations ← DerivedFile.declarations <$>
            statements (registry.apply report.events) (some node) rest
          return declaration.toList ++ declarations) := by
      intro registry report
      simp only [map_eq_pure_bind, bind_assoc, pure_bind]
    rw [statements, statements]
    split
    · rw [← hget, ← statement_congr_previous hprevious]
      dsimp only
      rw [hstep, hstep, hnext]
    · exact ih hget rfl

/-- Two blocks in a row, the second of which does not look up what the first one declares: both are
derived from the registry in front. -/
theorem statements_two_blocks (registry : Registry) {previous : Option Node}
    (hprevious : commentBefore previous = none) (first second : StatementBlock)
    (hlookups : ∀ base ∈ second.statement.lookupBases, ¬ first.statement.Declares base)
    (back : List Node) :
    DerivedFile.declarations <$> statements registry previous
        (first.nodes ++ (second.nodes ++ back)) = (do
      let found ← first.derive registry.get?
      let found' ← second.derive registry.get?
      let rest ← DerivedFile.declarations <$>
        statements ((registry.apply (first.derive registry.get?).events).apply
          (second.derive registry.get?).events) (some second.statement) back
      return found ++ (found' ++ rest)) := by
  have hsecond : second.derive (registry.apply (first.derive registry.get?).events).get? =
      second.derive registry.get? := by
    refine StatementBlock.derive_congr fun base hbase => ?_
    rw [Registry.get?_apply, StatementBlock.lastValue?_derive (hlookups base hbase),
      Option.none_or]
  have hlast : ∀ (block : StatementBlock) (previous : Option Node),
      block.nodes.getLast?.or previous = some block.statement := by
    intro block previous
    simp [StatementBlock.nodes]
  simp only [statements_append, statements_block registry first hprevious,
    statements_block _ second first.commentBefore_statement, hlast, hsecond, map_eq_pure_bind,
    bind_assoc, pure_bind]

/-- Each child of a file with the children in front of it. -/
def stages (front : List Node) : List Node → List (List Node × Node)
  | [] => []
  | node :: rest => (front, node) :: stages (front ++ [node]) rest

/-- What a child of a file declares after the children in front of it. -/
def declaredAfter (front : List Node) (node : Node) : List Declaration :=
  match (statements .empty none front).result with
  | .error _ => []
  | .ok before =>
    if node.label.named then
      match (statement before.registry.get? true false front.getLast? node).result with
      | .error _ => []
      | .ok found => found.toList
    else []

theorem declarations_snoc {front : List Node} {node : Node} {derived : DerivedFile}
    (h : (statements .empty none (front ++ [node])).result = .ok derived) :
    ∃ before, (statements .empty none front).result = .ok before ∧
      derived.declarations = before.declarations ++ declaredAfter front node := by
  rw [statements_append] at h
  obtain ⟨before, hbefore, h⟩ := Report.result_bind_eq_ok.1 h
  obtain ⟨last, hlast, h⟩ := Report.result_bind_eq_ok.1 h
  cases h
  refine ⟨before, hbefore, congrArg (before.declarations ++ ·) ?_⟩
  rw [Option.or_none, statements] at hlast
  rw [declaredAfter, hbefore]
  dsimp only
  split at hlast <;> rename_i hnamed
  · obtain ⟨found, hfound, hlast⟩ := Report.result_bind_eq_ok.1 hlast
    obtain ⟨tail, htail, hlast⟩ := Report.result_bind_eq_ok.1 hlast
    cases htail
    cases hlast
    simp only [if_pos hnamed, hfound, List.append_nil]
  · cases hlast
    rw [if_neg hnamed]

theorem declarations_eq_flatMap (front : List Node) {nodes : List Node} {derived : DerivedFile}
    (h : (statements .empty none (front ++ nodes)).result = .ok derived) :
    ∃ before, (statements .empty none front).result = .ok before ∧
      derived.declarations = before.declarations ++
        (stages front nodes).flatMap fun stage => declaredAfter stage.1 stage.2 := by
  induction nodes generalizing front with
  | nil => exact ⟨derived, by rwa [List.append_nil] at h, by simp [stages]⟩
  | cons node rest ih =>
    rw [← List.singleton_append, ← List.append_assoc] at h
    obtain ⟨middle, hmiddle, hderived⟩ := ih (front ++ [node]) h
    obtain ⟨before, hbefore, hsnoc⟩ := declarations_snoc hmiddle
    refine ⟨before, hbefore, ?_⟩
    rw [hderived, hsnoc, stages, List.flatMap_cons, List.append_assoc]

theorem events_prefix_append (front back : List Node) :
    (statements .empty none front).events <+:
      (statements .empty none (front ++ back)).events := by
  rw [statements_append]
  cases h : (statements .empty none front).result with
  | error cause =>
    refine ⟨[], ?_⟩
    rw [Report.events_bind_of_error h, List.append_nil]
  | ok before =>
    rw [Report.events_bind_of_ok h]
    exact List.prefix_append _ _

theorem declarations_prefix_append {front back : List Node} {derived : DerivedFile}
    (h : (statements .empty none (front ++ back)).result = .ok derived) :
    ∃ before, (statements .empty none front).result = .ok before ∧
      before.declarations <+: derived.declarations := by
  rw [statements_append] at h
  obtain ⟨before, hbefore, h⟩ := Report.result_bind_eq_ok.1 h
  obtain ⟨after, hafter, h⟩ := Report.result_bind_eq_ok.1 h
  cases h
  exact ⟨before, hbefore, List.prefix_append _ _⟩

/-! ### Changing places -/

/-- Neither statement looks up what the other declares, and they declare different names. -/
structure Exchangeable (first second : Node) : Prop where
  names : ∀ name, first.Declares name → ¬ second.Declares name
  firstLookups : ∀ base ∈ first.lookupBases, ¬ second.Declares base
  secondLookups : ∀ base ∈ second.lookupBases, ¬ first.Declares base

theorem get?_apply_comm {first second : StatementBlock}
    (h : Exchangeable first.statement second.statement) (find : String → Option Expr)
    (registry : Registry) :
    ((registry.apply (first.derive find).events).apply (second.derive find).events).get? =
      ((registry.apply (second.derive find).events).apply (first.derive find).events).get? := by
  funext name
  simp only [Registry.get?_apply]
  by_cases hname : first.statement.Declares name
  · rw [StatementBlock.lastValue?_derive (h.names name hname), Option.none_or, Option.none_or]
  · rw [StatementBlock.lastValue?_derive hname, Option.none_or, Option.none_or]

private theorem statements_exchange {registry : Registry} {previous : Option Node}
    {first second : StatementBlock} {back : List Node} {derived : DerivedFile}
    (hprevious : commentBefore previous = none)
    (h : Exchangeable first.statement second.statement)
    (hderived : (statements registry previous (first.nodes ++ (second.nodes ++ back))).result =
      .ok derived) :
    ∃ found found' after events, ∃ derived' : DerivedFile,
      (first.derive registry.get?).result = .ok found ∧
      (second.derive registry.get?).result = .ok found' ∧
      derived.declarations = found ++ (found' ++ after) ∧
      (statements registry previous (first.nodes ++ (second.nodes ++ back))).events =
        (first.derive registry.get?).events ++ ((second.derive registry.get?).events ++ events) ∧
      (statements registry previous (second.nodes ++ (first.nodes ++ back))).result =
        .ok derived' ∧
      derived'.declarations = found' ++ (found ++ after) ∧
      (statements registry previous (second.nodes ++ (first.nodes ++ back))).events =
        (second.derive registry.get?).events ++
          ((first.derive registry.get?).events ++ events) := by
  have hforward := statements_two_blocks registry hprevious first second h.secondLookups back
  have hbackward := statements_two_blocks registry hprevious second first h.firstLookups back
  -- what follows sees registries that differ in the order of entries at most
  have hrest := statements_congr (get?_apply_comm h registry.get? registry)
    (second.commentBefore_statement.trans first.commentBefore_statement.symm) back
  have hresult : (DerivedFile.declarations <$> statements registry previous
      (first.nodes ++ (second.nodes ++ back))).result = .ok derived.declarations :=
    Report.result_map_eq_ok.2 ⟨derived, hderived, rfl⟩
  rw [hforward] at hresult
  obtain ⟨found, hfound, hresult⟩ := Report.result_bind_eq_ok.1 hresult
  obtain ⟨found', hfound', hresult⟩ := Report.result_bind_eq_ok.1 hresult
  obtain ⟨after, hafter, hresult⟩ := Report.result_bind_eq_ok.1 hresult
  have hafter' := hafter
  rw [hrest] at hafter'
  have hresult' : (DerivedFile.declarations <$> statements registry previous
      (second.nodes ++ (first.nodes ++ back))).result =
      .ok (found' ++ (found ++ after)) := by
    rw [hbackward, Report.result_bind_of_ok hfound', Report.result_bind_of_ok hfound,
      Report.result_bind_of_ok hafter', Report.result_pure]
  obtain ⟨derived', hderived', hdeclarations'⟩ := Report.result_map_eq_ok.1 hresult'
  have hevents := congrArg Report.events hforward
  rw [Report.events_map, Report.events_bind_of_ok hfound, Report.events_bind_of_ok hfound',
    Report.events_bind_of_ok hafter, Report.events_pure, List.append_nil] at hevents
  have hevents' := congrArg Report.events hbackward
  rw [Report.events_map, Report.events_bind_of_ok hfound', Report.events_bind_of_ok hfound,
    Report.events_bind_of_ok hafter', Report.events_pure, List.append_nil, ← hrest] at hevents'
  exact ⟨found, found', after, _, derived', hfound, hfound', (Except.ok.inj hresult).symm, hevents,
    hderived', hdeclarations', hevents'⟩

/-- **Neighbours change places.** Each of the two blocks is derived from the registry in front of
both, in either order; their declarations and events change places with them, and those of the rest
of the file stay. -/
theorem deriveFile_exchange {root root' : Node} {front back : List Node}
    {first second : StatementBlock} {derived : DerivedFile}
    (hroot : root.children = front ++ (first.nodes ++ (second.nodes ++ back)))
    (hroot' : root'.children = front ++ (second.nodes ++ (first.nodes ++ back)))
    (hfront : commentBefore front.getLast? = none)
    (h : Exchangeable first.statement second.statement)
    (hderived : (deriveFile root).result = .ok derived) :
    ∃ before found found' after events, ∃ derived' : DerivedFile,
      (statements .empty none front).result = .ok before ∧
      (first.derive before.registry.get?).result = .ok found ∧
      (second.derive before.registry.get?).result = .ok found' ∧
      derived.declarations =
        before.declarations ++ (found ++ (found' ++ after)) ∧
      (deriveFile root).events = (statements .empty none front).events ++
        ((first.derive before.registry.get?).events ++
          ((second.derive before.registry.get?).events ++ events)) ∧
      (deriveFile root').result = .ok derived' ∧
      derived'.declarations =
        before.declarations ++ (found' ++ (found ++ after)) ∧
      (deriveFile root').events = (statements .empty none front).events ++
        ((second.derive before.registry.get?).events ++
          ((first.derive before.registry.get?).events ++ events)) := by
  rw [deriveFile, hroot, statements_append] at hderived ⊢
  rw [deriveFile, hroot', statements_append]
  obtain ⟨before, hbefore, hderived⟩ := Report.result_bind_eq_ok.1 hderived
  obtain ⟨middle, hmiddle, hderived⟩ := Report.result_bind_eq_ok.1 hderived
  cases hderived
  rw [Option.or_none] at hmiddle ⊢
  obtain ⟨found, found', after, events, middle', hfound, hfound', hdeclarations, hevents, hmiddle',
    hdeclarations', hevents'⟩ := statements_exchange hfront h hmiddle
  refine ⟨before, found, found', after, events, ⟨before.declarations ++ middle'.declarations,
    middle'.registry⟩, hbefore, hfound, hfound', ?_, ?_, ?_, ?_, ?_⟩
  · rw [hdeclarations]
  · rw [Report.events_bind_of_ok hbefore, Report.events_bind_of_ok hmiddle, hevents,
      Report.events_pure, List.append_nil]
  · rw [Report.result_bind_of_ok hbefore, Report.result_bind_of_ok hmiddle', Report.result_pure]
  · rw [hdeclarations']
  · rw [Report.events_bind_of_ok hbefore, Report.events_bind_of_ok hmiddle', hevents',
      Report.events_pure, List.append_nil]

/-- **Statements meet in the registry only.** The report of a statement is the same with any two
registries that agree on the bases of its accesses. So the declarations of a file are those of its
statements in order, further statements change nothing of what was derived before, and neighbours
that neither look each other up nor declare the same name change places with their comments,
declarations and diagnostics, and nothing else. -/
theorem statements_meet_in_registry :
    (∀ (registry registry' : Registry) (node : Node),
      (∀ base ∈ node.lookupBases, registry.get? base = registry'.get? base) →
      ∀ topLevel exported previous,
        statement registry.get? topLevel exported previous node =
          statement registry'.get? topLevel exported previous node) ∧
    (∀ root derived, (deriveFile root).result = .ok derived →
      derived.declarations =
        (stages [] root.children).flatMap fun stage => declaredAfter stage.1 stage.2) ∧
    (∀ front back,
      Report.diagnostics (statements .empty none front).events <+:
        Report.diagnostics (statements .empty none (front ++ back)).events ∧
      ∀ derived, (statements .empty none (front ++ back)).result = .ok derived →
        ∃ before, (statements .empty none front).result = .ok before ∧
          before.declarations <+: derived.declarations) ∧
    (∀ (root root' : Node) (front back : List Node) (first second : StatementBlock)
        (derived : DerivedFile),
      root.children = front ++ (first.nodes ++ (second.nodes ++ back)) →
      root'.children = front ++ (second.nodes ++ (first.nodes ++ back)) →
      commentBefore front.getLast? = none →
      Exchangeable first.statement second.statement →
      (deriveFile root).result = .ok derived →
      ∃ before found found' after events, ∃ derived' : DerivedFile,
        (statements .empty none front).result = .ok before ∧
        (first.derive before.registry.get?).result = .ok found ∧
        (second.derive before.registry.get?).result = .ok found' ∧
        derived.declarations =
          before.declarations ++ (found ++ (found' ++ after)) ∧
        (deriveFile root).events = (statements .empty none front).events ++
          ((first.derive before.registry.get?).events ++
            ((second.derive before.registry.get?).events ++ events)) ∧
        (deriveFile root').result = .ok derived' ∧
        derived'.declarations =
          before.declarations ++ (found' ++ (found ++ after)) ∧
        (deriveFile root').events = (statements .empty none front).events ++
          ((second.derive before.registry.get?).events ++
            ((first.derive before.registry.get?).events ++ events))) := by
  refine ⟨?_, ?_, ?_, ?_⟩
  · exact fun registry registry' node h topLevel exported previous =>
      statement_congr h topLevel exported previous
  · intro root derived h
    obtain ⟨before, hbefore, hdeclarations⟩ := declarations_eq_flatMap [] h
    cases hbefore
    exact hdeclarations
  · exact fun front back =>
      ⟨(events_prefix_append front back).filterMap _, fun derived => declarations_prefix_append⟩
  · exact fun root root' front back first second derived hroot hroot' hfront h hderived =>
      deriveFile_exchange hroot hroot' hfront h hderived

/-- `type A = string`, without comments. -/
def plainBlock : StatementBlock where
  lead := []
  statement := .sampleAlias "A" [] (.sample .predefinedType (some .value) "string" [])
  isPart_lead := by simp
  isPart_statement := rfl

/-- `type T = B["b"]` with a comment. -/
def commentedBlock : StatementBlock where
  lead := [.sample .comment none "// an access" []]
  statement := .sampleAlias "T" [] (.sampleAccess "B" "\"b\"")
  isPart_lead := by decide
  isPart_statement := rfl

theorem Node.Declares.eq_of_sampleAlias {name declared : String} {parameters : List Node}
    {value : Node} (h : (Node.sampleAlias declared parameters value).Declares name) :
    name = declared := by
  cases h with
  | named _ hname => exact (Option.some.inj hname).symm
  | exported hkind => cases hkind
  | expression hkind => cases hkind

theorem exchangeable_plainBlock :
    Exchangeable plainBlock.statement commentedBlock.statement where
  names _ hfirst hsecond := by
    have hname := hfirst.eq_of_sampleAlias.symm.trans hsecond.eq_of_sampleAlias
    exact absurd hname (by decide)
  firstLookups base hbase := by cases hbase
  secondLookups base hbase hdeclares := by
    rw [hdeclares.eq_of_sampleAlias] at hbase
    revert hbase
    decide

def blockFile (first second : StatementBlock) : Node :=
  .sample (.other "program") none "" (first.nodes ++ (second.nodes ++ []))

theorem exchange_plainBlock :
    ∃ derived, (deriveFile (blockFile commentedBlock plainBlock)).result = .ok derived ∧
      derived.declarations = [.schema "T" false (.raw accessErrorMarker) [],
        .schema "A" false (.constant "String") []] := by
  have hderived : (deriveFile (blockFile plainBlock commentedBlock)).result = .ok
      ⟨[.schema "A" false (.constant "String") [], .schema "T" false (.raw accessErrorMarker) []],
        ⟨[("A", .constant "String"), ("T", .raw accessErrorMarker)]⟩⟩ := rfl
  obtain ⟨before, found, found', after, events, derived, hbefore, hfound, hfound', hdeclarations,
    -, hexchanged, hdeclarations', -⟩ := statements_meet_in_registry.2.2.2 _
      (blockFile commentedBlock plainBlock) [] [] plainBlock commentedBlock _ rfl rfl rfl
      exchangeable_plainBlock hderived
  cases hbefore
  cases hfound
  cases hfound'
  refine ⟨derived, hexchanged, ?_⟩
  obtain rfl : [] = after := (List.cons.inj (List.cons.inj hdeclarations).2).2
  exact hdeclarations'

end Schemata
