import Schemata.Derive.IndexedAccess
import Schemata.Proofs.Schema.Attachment

/-!
# Where attached options go

An expression is a core inside layers: fixed points and the wrappers for read-only and optional
properties. Options go to the core and nowhere else, so attaching them twice is attaching both at
once, and the fields that an indexed access can select are the same with and without them.
-/

namespace Schemata

/-- Each name stands once, as in a mapping. -/
def Options.Distinct (options : Options) : Prop := (options.map Prod.fst).Nodup

instance (options : Options) : Decidable options.Distinct :=
  inferInstanceAs (Decidable (options.map Prod.fst).Nodup)

/-- Two options as one: the names of the first keep their place, those that only the second has
follow in its order, and values are taken from the second where it has the name. -/
def Options.merged (options more : Options) : Options :=
  (options.map fun entry => (entry.1, (valueAt? entry.1 more).getD entry.2)) ++
    more.filter fun entry => !(options.map Prod.fst).contains entry.1

namespace Options

theorem update_eq_setEntries (options more : Options) :
    options.update more = setEntries more options := rfl

theorem merged_nil (options : Options) : options.merged [] = options := by
  simp [merged, valueAt?]

theorem nil_merged (options : Options) : merged [] options = options := by
  simp [merged]

private theorem merged_setEntry_of_mem {options rest : Options} {name : String}
    (value : OptionValue) (h : options.Distinct) (hmem : name ∈ options.map Prod.fst)
    (hrest : name ∉ rest.map Prod.fst) :
    merged (setEntry name value options) rest = merged options ((name, value) :: rest) := by
  have hnames : (setEntry name value options).map Prod.fst = options.map Prod.fst := by
    rw [keys_setEntry, if_pos hmem]
  have hunset := valueAt?_of_not_mem hrest
  rw [merged, merged, hnames, List.filter_cons_of_neg (by simpa using hmem),
    setEntry_of_mem value h hmem, List.map_map]
  congr 1
  refine List.map_congr_left fun entry _ => ?_
  by_cases hname : entry.1 = name
  · simp [hname, valueAt?, hunset]
  · simp [hname, valueAt?, Ne.symm hname]

private theorem merged_setEntry_of_not_mem {options rest : Options} {name : String}
    (value : OptionValue) (hmem : name ∉ options.map Prod.fst)
    (hrest : name ∉ rest.map Prod.fst) :
    merged (setEntry name value options) rest = merged options ((name, value) :: rest) := by
  have hunset := valueAt?_of_not_mem hrest
  have hold : (options.map fun entry =>
      (entry.1, (valueAt? entry.1 ((name, value) :: rest)).getD entry.2)) =
      options.map fun entry => (entry.1, (valueAt? entry.1 rest).getD entry.2) := by
    refine List.map_congr_left fun entry hentry => ?_
    have hne : name ≠ entry.1 := by
      rintro rfl
      exact hmem (List.mem_map_of_mem hentry)
    rw [valueAt?, if_neg hne]
  have hnew : ∀ entry ∈ rest,
      (!((options ++ [(name, value)]).map Prod.fst).contains entry.1) =
        !(options.map Prod.fst).contains entry.1 := by
    intro entry hentry
    have hne : entry.1 ≠ name := by
      rintro rfl
      exact hrest (List.mem_map_of_mem hentry)
    simp [hne]
  rw [merged, merged, setEntry_of_not_mem value hmem, hold, List.filter_congr hnew,
    List.filter_cons_of_pos (by simpa using hmem), List.map_append]
  simp [hunset]

theorem update_eq_merged {options more : Options} (h : options.Distinct) (hmore : more.Distinct) :
    options.update more = options.merged more := by
  induction more generalizing options with
  | nil => rw [merged_nil]; rfl
  | cons entry rest ih =>
    obtain ⟨name, value⟩ := entry
    have hrest : name ∉ rest.map Prod.fst := (List.nodup_cons.1 hmore).1
    have hstep : options.update ((name, value) :: rest) =
        merged (setEntry name value options) rest :=
      ih (nodup_setEntry name value h) (List.nodup_cons.1 hmore).2
    rw [hstep]
    by_cases hmem : name ∈ options.map Prod.fst
    · exact merged_setEntry_of_mem value h hmem hrest
    · exact merged_setEntry_of_not_mem value hmem hrest

theorem update_update {first : Options} (h : first.Distinct) (options second : Options) :
    (options.update first).update second = options.update (first.update second) :=
  setEntries_setEntries h second options

theorem update_ne_nil {options : Options} (h : options ≠ []) (more : Options) :
    options.update more ≠ [] := by
  obtain ⟨entry, rest, rfl⟩ := List.exists_cons_of_ne_nil h
  have hkey : ∀ (pairs entries : Options), entry.1 ∈ entries.map Prod.fst →
      entry.1 ∈ (setEntries pairs entries).map Prod.fst := by
    intro pairs
    induction pairs with
    | nil => exact fun entries hentries => hentries
    | cons pair pairs ih =>
      intro entries hentries
      exact ih _ (mem_keys_setEntry.2 (Or.inr hentries))
  intro hempty
  have hmem := hkey more (entry :: rest) (by simp)
  rw [← update_eq_setEntries, hempty] at hmem
  cases hmem

end Options

namespace Expr

/-- What may stand around the constructor that carries the options. -/
inductive Layer where
  | fixedPoint (name : String)
  | wrapper (name : String) (rest : List Expr) (own : Options)

def Layer.around : Layer → Expr → Expr
  | .fixedPoint name, inner => .recursive name inner
  | .wrapper name rest own, inner => .call name (inner :: rest) own

/-- What is left when fixed points and wrappers are entered as long as there is something inside. -/
def core : Expr → Expr
  | .recursive name body => if body.isPresent then core body else .recursive name body
  | .call name (first :: rest) own =>
    if isWrapper name then core first else .call name (first :: rest) own
  | expr => expr

/-- The fixed points and wrappers that are entered, the outermost first. -/
def layers : Expr → List Layer
  | .recursive name body => if body.isPresent then .fixedPoint name :: layers body else []
  | .call name (first :: rest) own =>
    if isWrapper name then .wrapper name rest own :: layers first else []
  | _ => []

/-- The expression with another core. -/
def withCore (expr inner : Expr) : Expr := expr.layers.foldr Layer.around inner

@[simp] theorem withCore_core (expr : Expr) : expr.withCore expr.core = expr := by
  rw [withCore]
  fun_induction core expr with
  | case1 name body hpresent ih => rw [layers, if_pos hpresent, List.foldr_cons, ih, Layer.around]
  | case2 name body hpresent => rw [layers, if_neg hpresent, List.foldr_nil]
  | case3 name first rest own hwrapper ih =>
    rw [layers, if_pos hwrapper, List.foldr_cons, ih, Layer.around]
  | case4 name first rest own hwrapper => rw [layers, if_neg hwrapper, List.foldr_nil]
  | case5 expr hrecursive hcall =>
    rw [layers.eq_3 expr hrecursive hcall, List.foldr_nil]

/-- A constructor with more options; nothing else takes options. -/
def gain? (options : Options) : Expr → Option Expr
  | .call name args own => some (.call name args (own.update options))
  | _ => none

/-- The options go to the core, if that is a constructor. -/
theorem addOptions_eq (options : Options) (expr : Expr) :
    expr.addOptions options = (expr.core.gain? options).map expr.withCore := by
  fun_induction addOptions options expr with
  | case1 name body hpresent ih =>
    rw [core, if_pos hpresent, ih, Option.map_map]
    congr 1
    funext inner
    rw [withCore, layers, if_pos hpresent]
    rfl
  | case2 name body hpresent =>
    rw [core, if_neg hpresent]
    rfl
  | case3 name first rest own hwrapper ih =>
    rw [core, if_pos hwrapper, ih, Option.map_map]
    congr 1
    funext inner
    rw [withCore, layers, if_pos hwrapper]
    rfl
  | case4 name first rest own hwrapper =>
    rw [core, if_neg hwrapper, gain?, Option.map_some, withCore, layers, if_neg hwrapper,
      List.foldr_nil]
  | case5 name own => rfl
  | case6 expr hrecursive hfirst hcall =>
    rw [core.eq_3 expr hrecursive hfirst]
    cases expr with
    | call name args own =>
      cases args with
      | nil => exact absurd rfl (hcall name own)
      | cons first rest => exact absurd rfl (hfirst name first rest own)
    | _ => rfl

theorem attach_of_ne_nil {options : Options} (h : options ≠ []) (expr : Expr) :
    expr.attach options = expr.addOptions options := by
  rw [attach, if_neg (by simpa using h)]

theorem isPresent_of_addOptions {options : Options} {expr result : Expr}
    (h : expr.addOptions options = some result) : result.isPresent = true := by
  cases gains_of_addOptions h <;> rfl

theorem addOptions_addOptions {first : Options} (h : first.Distinct) (second : Options)
    (expr : Expr) :
    (expr.addOptions first).bind (addOptions second) = expr.addOptions (first.update second) := by
  fun_induction addOptions first expr with
  | case1 name body hpresent ih =>
    rw [addOptions, if_pos hpresent, ← ih]
    cases hbody : body.addOptions first with
    | none => rfl
    | some result =>
      rw [Option.map_some, Option.bind_some, Option.bind_some, addOptions,
        if_pos (isPresent_of_addOptions hbody)]
  | case2 name body hpresent => rw [addOptions, if_neg hpresent, Option.bind_none]
  | case3 name inner rest own hwrapper ih =>
    rw [addOptions, if_pos hwrapper, ← ih]
    cases hinner : inner.addOptions first with
    | none => rfl
    | some result =>
      rw [Option.map_some, Option.bind_some, Option.bind_some, addOptions, if_pos hwrapper]
  | case4 name inner rest own hwrapper =>
    rw [Option.bind_some, addOptions, addOptions, if_neg hwrapper, if_neg hwrapper,
      Options.update_update h]
  | case5 name own => rw [Option.bind_some, addOptions, addOptions, Options.update_update h]
  | case6 expr hrecursive hfirst hcall =>
    rw [Option.bind_none, addOptions.eq_4 _ expr hrecursive hfirst hcall]

theorem attach_attach {first second : Options} (hfirst : first.Distinct)
    (hsecond : second.Distinct) (expr : Expr) :
    (expr.attach first).bind (attach second) = expr.attach (first.merged second) := by
  by_cases hnone : first = []
  · rw [hnone, Options.nil_merged]
    rfl
  · by_cases hlast : second = []
    · have hkept : attach [] = some := by
        funext result
        rfl
      rw [hlast, Options.merged_nil, hkept, Option.bind_fun_some]
    · have hadded : attach second = addOptions second := by
        funext result
        exact attach_of_ne_nil hlast result
      rw [← Options.update_eq_merged hfirst hsecond, attach_of_ne_nil hnone, hadded,
        attach_of_ne_nil (Options.update_ne_nil hnone second), addOptions_addOptions hfirst]

theorem Gains.fieldList_eq {options : Options} {expr result : Expr}
    (h : Gains options expr result) : result.fieldList = expr.fieldList := by
  induction h with
  | constructor name args own => rw [fieldList, fieldList]
  | wrapped name rest own _ ih => rw [fieldList, fieldList, fieldLists, fieldLists, ih]
  | recursive name _ ih => rw [fieldList, fieldList, ih]

theorem fields_attach {options : Options} {expr result : Expr}
    (h : expr.attach options = some result) : result.fields = expr.fields := by
  obtain ⟨-, rfl⟩ | hgains := attach_eq_some h
  · rfl
  · rw [fields, fields, hgains.fieldList_eq]

end Expr

/-! ### Indexed accesses -/

theorem selectField_congr (node : Node) {expr other : Expr} (h : expr.fields = other.fields)
    (key : String) : selectField node expr key = selectField node other key := by
  rw [selectField, selectField, Expr.field?, Expr.field?, h]

/-- An access to a field sees nothing but the fields of the declarations. -/
theorem resolveShallow_congr_fields {find find' : String → Option Expr}
    (h : ∀ name, (find name).map Expr.fields = (find' name).map Expr.fields) (node : Node) :
    resolveShallow find node = resolveShallow find' node := by
  rw [resolveShallow, resolveShallow]
  congr 1
  funext pair
  obtain ⟨base, key⟩ := pair
  have hbase := h base.text
  dsimp only
  cases hfind : find base.text with
  | none =>
    rw [hfind, Option.map_none, eq_comm, Option.map_eq_none_iff] at hbase
    rw [hbase]
  | some expr =>
    rw [hfind, Option.map_some, eq_comm, Option.map_eq_some_iff] at hbase
    obtain ⟨other, hother, hfields⟩ := hbase
    rw [hother]
    exact selectField_congr node hfields.symm _

theorem resolveAccess_congr_fields {find find' : String → Option Expr}
    (h : ∀ name, (find name).map Expr.fields = (find' name).map Expr.fields) (node : Node) :
    resolveAccess find node = resolveAccess find' node := by
  have hdeep : resolveDeep find = resolveDeep find' := by
    funext inner
    simp only [resolveDeep, resolveShallow_congr_fields h]
  simp only [resolveAccess, hdeep, resolveShallow_congr_fields h]

/-- What holds of attaching options to an expression. -/
structure AttachesToCore (expr : Expr) : Prop where
  /-- Only a constructor as core takes options. -/
  refused : ∀ options : Options, options ≠ [] →
    (expr.attach options = none ↔ ∀ name args own, expr.core ≠ .call name args own)
  /-- The options of the core are merged, and the layers around it stay. -/
  taken : ∀ (options own : Options) (name : String) (args : List Expr), options ≠ [] →
    options.Distinct → own.Distinct → expr.core = .call name args own →
    expr = expr.withCore (.call name args own) ∧
      expr.attach options = some (expr.withCore (.call name args (own.merged options)))
  composed : ∀ first second : Options, first.Distinct → second.Distinct →
    (expr.attach first).bind (Expr.attach second) = expr.attach (first.merged second)
  fields : ∀ (options : Options) (result : Expr), expr.attach options = some result →
    result.fields = expr.fields
  accesses : ∀ (options : Options) (result : Expr), expr.attach options = some result →
    ∀ (registry : Registry) (name : String) (node : Node),
      resolveAccess (registry.register name result).get? node =
        resolveAccess (registry.register name expr).get? node

/-- **Options change one constructor.** Options are attached to the core of an expression, if that
is a constructor, and to nothing else. Attaching twice is attaching both merged, and neither the
fields of the expression nor any indexed access to it change. -/
theorem attachesToCore (expr : Expr) : AttachesToCore expr := by
  constructor
  · intro options hne
    rw [Expr.attach_of_ne_nil hne, Expr.addOptions_eq, Option.map_eq_none_iff]
    cases expr.core with
    | call name args own => simp [Expr.gain?]
    | _ => simp [Expr.gain?]
  · intro options own name args hne hoptions hown hcore
    refine ⟨by rw [← hcore, Expr.withCore_core], ?_⟩
    rw [Expr.attach_of_ne_nil hne, Expr.addOptions_eq, hcore, Expr.gain?, Option.map_some,
      Options.update_eq_merged hown hoptions]
  · intro first second hfirst hsecond
    exact Expr.attach_attach hfirst hsecond expr
  · intro options result h
    exact Expr.fields_attach h
  · intro options result h registry name node
    refine resolveAccess_congr_fields (fun other => ?_) node
    by_cases hname : other = name
    · subst hname
      rw [Registry.get?_register_self, Registry.get?_register_self, Option.map_some,
        Option.map_some, Expr.fields_attach h]
    · rw [Registry.get?_register_of_ne _ hname, Registry.get?_register_of_ne _ hname]

/-- An optional property of a recursive type whose text has a length. -/
def optionalText : Expr :=
  .recursive "T" (.call "Optional" [.call "String" [] [("minLength", .literal (.int 1))]] [])

/-- The options arrive two layers down, behind the one that was there. -/
theorem attachesToCore_optionalText :
    optionalText.core = .call "String" [] [("minLength", .literal (.int 1))] ∧
      optionalText.attach [("title", .raw "x"), ("minLength", .literal (.int 2))] =
        some (.recursive "T" (.call "Optional" [.call "String" []
          [("minLength", .literal (.int 2)), ("title", .raw "x")]] [])) :=
  ⟨rfl, ((attachesToCore optionalText).taken _ _ _ _ (by simp) (by decide) (by decide) rfl).2⟩

end Schemata
