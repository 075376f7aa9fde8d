import Mathlib.Data.List.Forall2
import Schemata.Proofs.Derive.SelfReference

/-!
# Trees with further comments

A tree may be given further comments, anywhere among the children of its nodes, as long as they
document nothing and do not come between a documentation comment and what it documents. Whatever is
picked from a node (its parts, the child with a role, a plain token, the members of a union) is
picked from the commented node too, with comments further inside at most. The sibling right before a
node can be a new comment, but it says the same of the node.
-/

namespace Schemata

/-- A comment without a role that documents nothing. -/
structure Label.IsPlainComment (label : Label) : Prop where
  kind : label.kind = .comment
  role : label.role = none
  named : label.named = true
  text : Doc.isDocComment label.text.toList = false

def Kind.isDocumented : Kind → Bool
  | .typeAlias | .interface | .exportStatement | .propertySignature => true
  | _ => false

/-- Whether the first sibling is a documentation comment and the second what it documents. -/
def documents (previous next : Option Node) : Bool :=
  previous.any (fun node => node.kind.isComment && Doc.isDocComment node.text.toList) &&
    next.any fun node => node.kind.isDocumented

/-- The second list of siblings is the first one, node by node up to a relation, with further
comments in between. What stands before the first sibling is given. -/
inductive Interspersed (related : Node → Node → Prop) :
    Option Node → List Node → List Node → Prop where
  | nil {previous : Option Node} : Interspersed related previous [] []
  | keep {previous : Option Node} {node node' : Node} {rest rest' : List Node}
      (hnode : related node node') (hrest : Interspersed related (some node) rest rest') :
      Interspersed related previous (node :: rest) (node' :: rest')
  | insert {previous : Option Node} {label : Label} {nodes nodes' : List Node}
      (hlabel : label.IsPlainComment) (hplace : documents previous nodes.head? = false)
      (hnodes : Interspersed related previous nodes nodes') :
      Interspersed related previous nodes (.mk label [] :: nodes')

/-- The second tree is the first one with further comments among the children of its nodes. -/
inductive Commented : Node → Node → Prop where
  | mk {label : Label} {children children' : List Node}
      (h : Interspersed Commented none children children') :
      Commented (.mk label children) (.mk label children')

namespace Commented

variable {node node' : Node}

theorem label_eq (h : Commented node node') : node'.label = node.label := by
  cases h
  rfl

theorem kind_eq (h : Commented node node') : node'.kind = node.kind :=
  congrArg Label.kind h.label_eq

theorem text_eq (h : Commented node node') : node'.text = node.text :=
  congrArg Label.text h.label_eq

theorem children (h : Commented node node') :
    Interspersed Commented none node.children node'.children := by
  cases h with
  | mk h => exact h

end Commented

/-! ### What is picked by its label -/

theorem Interspersed.filter {previous : Option Node} {nodes nodes' : List Node}
    (h : Interspersed Commented previous nodes nodes') {p : Label → Bool}
    (hp : ∀ label : Label, label.IsPlainComment → p label = false) :
    List.Forall₂ Commented (nodes.filter fun node => p node.label)
      (nodes'.filter fun node => p node.label) := by
  induction h with
  | nil => exact .nil
  | keep hnode _ ih =>
    rw [List.filter_cons, List.filter_cons, hnode.label_eq]
    split
    · exact .cons hnode ih
    · exact ih
  | insert hlabel _ _ ih =>
    rw [List.filter_cons, Node.label, hp _ hlabel]
    exact ih

theorem forall₂_head? {nodes nodes' : List Node} (h : List.Forall₂ Commented nodes nodes') :
    Option.Rel Commented nodes.head? nodes'.head? := by
  cases h with
  | nil => exact .none
  | cons hnode _ => exact .some hnode

theorem forall₂_getLast? {nodes nodes' : List Node} (h : List.Forall₂ Commented nodes nodes') :
    Option.Rel Commented nodes.getLast? nodes'.getLast? := by
  rw [← List.head?_reverse, ← List.head?_reverse]
  exact forall₂_head? (List.forall₂_reverse_iff.2 h)

theorem rel_orElse {first first' second second' : Option Node}
    (hfirst : Option.Rel Commented first first') (hsecond : Option.Rel Commented second second') :
    Option.Rel Commented (first <|> second) (first' <|> second') := by
  cases hfirst with
  | none => exact hsecond
  | some hnode => exact .some hnode

theorem map_eq_of_rel {α : Type} {read : Node → α} {first first' : Option Node}
    (h : Option.Rel Commented first first')
    (hread : ∀ node ∈ first, ∀ node', Commented node node' → read node' = read node) :
    first'.map read = first.map read := by
  cases h with
  | none => rfl
  | some hnode => exact congrArg some (hread _ rfl _ hnode)

theorem rel_cases {first first' : Option Node} (h : Option.Rel Commented first first') :
    (first = none ∧ first' = none) ∨
      ∃ node node', first = some node ∧ first' = some node' ∧ Commented node node' := by
  cases h with
  | none => exact Or.inl ⟨rfl, rfl⟩
  | some hnode => exact Or.inr ⟨_, _, rfl, rfl, hnode⟩

namespace Commented

variable {node node' : Node}

theorem find? (h : Commented node node') {p : Label → Bool}
    (hp : ∀ label : Label, label.IsPlainComment → p label = false) :
    Option.Rel Commented (node.children.find? fun child => p child.label)
      (node'.children.find? fun child => p child.label) := by
  rw [← List.head?_filter, ← List.head?_filter]
  exact forall₂_head? (h.children.filter hp)

theorem parts (h : Commented node node') : List.Forall₂ Commented node.parts node'.parts :=
  h.children.filter (p := fun label => label.named && !label.kind.isComment)
    fun label hlabel => by simp [hlabel.kind, Kind.isComment]

theorem child? (h : Commented node node') (role : Role) :
    Option.Rel Commented (node.child? role) (node'.child? role) :=
  h.find? (p := fun label => label.role == some role) fun label hlabel => by simp [hlabel.role]

theorem hasToken_eq (h : Commented node node') (token : String) :
    node'.hasToken token = node.hasToken token := by
  have hfind := h.find? (p := fun label => !label.named && label.kind.name == token)
    fun label hlabel => by simp [hlabel.named]
  rw [Node.hasToken, Node.hasToken, ← List.isSome_find?, ← List.isSome_find?]
  rcases rel_cases hfind with ⟨hnone, hnone'⟩ | ⟨_, _, hsome, hsome', -⟩
  · simp only [Node.kind, hnone, hnone']
  · simp only [Node.kind, hsome, hsome', Option.isSome_some]

theorem nameText_eq (h : Commented node node') :
    nameText node'.children = nameText node.children :=
  congrArg (Report.require .noName)
    (map_eq_of_rel (h.child? .name) fun _ _ _ hname => hname.text_eq)

/-! ### The types that a type is made of -/

theorem childParts (h : Commented node node') (role : Role) :
    List.Forall₂ Commented (((node.child? role).map Node.parts).getD [])
      (((node'.child? role).map Node.parts).getD []) := by
  rcases rel_cases (h.child? role) with ⟨hnone, hnone'⟩ | ⟨list, list', hlist, hlist', hparts⟩
  · rw [hnone, hnone']
    exact .nil
  · rw [hlist, hlist']
    exact hparts.parts

theorem firstPart (h : Commented node node') :
    Option.Rel Commented node.parts.head? node'.parts.head? :=
  forall₂_head? h.parts

theorem memberMark? (h : Commented node node') :
    Option.Rel Commented
      (node.child? .type <|> node.children.find? fun child =>
        child.label.named && child.kind == .typeMark)
      (node'.child? .type <|> node'.children.find? fun child =>
        child.label.named && child.kind == .typeMark) :=
  rel_orElse (h.child? .type) (h.find? (p := fun label => label.named && label.kind == .typeMark)
    fun label hlabel => by simp [hlabel.kind])

theorem resultType? (h : Commented node node') :
    Option.Rel Commented node.resultType? node'.resultType? := by
  refine rel_orElse (h.child? .returnType) (rel_orElse (h.child? .type) (forall₂_getLast? ?_))
  exact h.children.filter (p := fun label => (label.named && !label.kind.isComment) &&
    label.kind != .formalParameters && label.kind != .typeParameters)
    fun label hlabel => by simp [hlabel.kind, Kind.isComment]

end Commented

theorem Interspersed.members {previous : Option Node} {nodes nodes' : List Node} {kind : Kind}
    (h : Interspersed Commented previous nodes nodes')
    (hinside : ∀ node ∈ nodes, ∀ node', Commented node node' →
      List.Forall₂ Commented (Node.membersAt kind node) (Node.membersAt kind node')) :
    List.Forall₂ Commented (Node.members kind nodes) (Node.members kind nodes') := by
  induction h with
  | nil =>
    rw [Node.members]
    exact .nil
  | keep hnode _ ih =>
    rw [Node.members, Node.members]
    exact List.rel_append (hinside _ List.mem_cons_self _ hnode)
      (ih fun node hmem => hinside node (List.mem_cons_of_mem _ hmem))
  | @insert _ label _ _ hlabel _ _ ih =>
    have hnone : Node.membersAt kind (.mk label []) = [] := by
      simp [Node.membersAt, hlabel.kind, Kind.isComment]
    rw [Node.members.eq_2, hnone, List.nil_append]
    exact ih hinside

theorem Commented.membersAt {node node' : Node} (h : Commented node node') (kind : Kind) :
    List.Forall₂ Commented (Node.membersAt kind node) (Node.membersAt kind node') := by
  induction node using Node.induct generalizing node' with
  | step node ih =>
    cases h with
    | mk hchildren =>
      rw [Node.membersAt, Node.membersAt]
      split
      · split
        · exact hchildren.members fun inner hinner inner' h =>
            ih inner (Node.mem_descendants_of_mem_children hinner) h
        · exact .cons (.mk hchildren) .nil
      · exact .nil

theorem Commented.members {node node' : Node} (h : Commented node node') (kind : Kind) :
    List.Forall₂ Commented (Node.members kind node.children)
      (Node.members kind node'.children) :=
  h.children.members fun _ _ _ hinner => hinner.membersAt kind

/-! ### What stands before a node -/

theorem docOptions_of_not_isDocComment {node : Node}
    (h : Doc.isDocComment node.text.toList = false) : docOptions (some node) = pure [] := by
  have htags : Doc.tags node.text = [] := by
    rw [Doc.tags, h]
    rfl
  simp only [docOptions, Doc.lostNames, Doc.options, htags]
  rfl

/-- Both siblings say the same of a node after them. -/
def SaysSame (previous previous' : Option Node) : Prop :=
  docOptions (commentBefore previous') = docOptions (commentBefore previous)

theorem saysSame_of_label_eq {node node' : Node} (h : node'.label = node.label) :
    SaysSame (some node) (some node') := by
  obtain ⟨label, children⟩ := node
  obtain ⟨label', children'⟩ := node'
  obtain rfl : label' = label := h
  rw [SaysSame, commentBefore, commentBefore, Option.filter_some, Option.filter_some]
  change docOptions (if label'.kind.isComment then _ else _) =
    docOptions (if label'.kind.isComment then _ else _)
  split
  · rfl
  · rfl

theorem saysSame_of_not_documents {previous : Option Node} {node : Node} {label : Label}
    (hlabel : label.IsPlainComment) (h : documents previous (some node) = false)
    (hkind : node.kind.isDocumented = true) : SaysSame previous (some (.mk label [])) := by
  have hcomment : commentBefore (some (.mk label [])) = some (.mk label []) := by
    simp [commentBefore, Option.filter_some, Node.kind, Node.label, hlabel.kind, Kind.isComment]
  have hplain : docOptions (some (.mk label [])) = pure [] :=
    docOptions_of_not_isDocComment hlabel.text
  rw [SaysSame, hcomment, hplain]
  cases previous with
  | none => rfl
  | some before =>
    simp only [documents, Option.any_some, hkind, Bool.and_true] at h
    rw [commentBefore, Option.filter_some]
    cases hbefore : before.kind.isComment with
    | false => rfl
    | true =>
      rw [hbefore, Bool.true_and] at h
      exact (docOptions_of_not_isDocComment h).symm

/-- Two siblings that are read alike wherever the same is said of them. -/
structure Alike {β : Type} (read : Option Node → Node → β) (node node' : Node) : Prop where
  label_eq : node'.label = node.label
  read_eq : ∀ previous previous',
    (node.kind.isDocumented = true → SaysSame previous previous') →
      read previous' node' = read previous node

/-- A pass along siblings, with a state and the sibling before the next one, that learns of a
sibling only its label and what is read there, and skips further comments. -/
structure Undisturbed {σ β γ : Type} (read : Option Node → Node → β)
    (pass : σ → Option Node → List Node → γ) : Prop where
  nil : ∀ state previous previous', pass state previous' [] = pass state previous []
  keep : ∀ state previous previous' node node' rest rest', node'.label = node.label →
    read previous' node' = read previous node →
    (∀ state, pass state (some node') rest' = pass state (some node) rest) →
    pass state previous' (node' :: rest') = pass state previous (node :: rest)
  insert : ∀ state previous label rest, label.IsPlainComment →
    pass state previous (.mk label [] :: rest) = pass state (some (.mk label [])) rest

section Passes

variable {σ β γ : Type} {read : Option Node → Node → β} {pass : σ → Option Node → List Node → γ}

private theorem Undisturbed.pass_eq (h : Undisturbed read pass)
    {previous previous' : Option Node} {nodes nodes' : List Node}
    (hnodes : Interspersed (Alike read) previous nodes nodes')
    (hprevious : ∀ node ∈ nodes.head?, node.kind.isDocumented = true → SaysSame previous previous')
    (state : σ) : pass state previous' nodes' = pass state previous nodes := by
  induction hnodes generalizing previous' state with
  | nil => exact h.nil state _ _
  | keep hnode _ ih =>
    refine h.keep state _ _ _ _ _ _ hnode.label_eq (hnode.read_eq _ _ (hprevious _ rfl))
      fun state => ih ?_ state
    exact fun _ _ _ => saysSame_of_label_eq hnode.label_eq
  | insert hlabel hplace _ ih =>
    rw [h.insert state previous' _ _ hlabel]
    refine ih (fun node hnode hkind => ?_) state
    rw [Option.mem_def.1 hnode] at hplace
    exact saysSame_of_not_documents hlabel hplace hkind

/-- Further comments do not change the outcome of a pass. -/
theorem Interspersed.pass_eq {nodes nodes' : List Node}
    (hnodes : Interspersed (Alike read) none nodes nodes') (h : Undisturbed read pass)
    (state : σ) : pass state none nodes' = pass state none nodes :=
  h.pass_eq hnodes (fun _ _ _ => rfl) state

end Passes

theorem Interspersed.imp_mem {related other : Node → Node → Prop} {previous : Option Node}
    {nodes nodes' : List Node} (h : Interspersed related previous nodes nodes')
    (himp : ∀ node ∈ nodes, ∀ node', related node node' → other node node') :
    Interspersed other previous nodes nodes' := by
  induction h with
  | nil => exact .nil
  | keep hnode _ ih =>
    exact .keep (himp _ List.mem_cons_self _ hnode)
      (ih fun node hmem => himp node (List.mem_cons_of_mem _ hmem))
  | insert hlabel hplace _ ih => exact .insert hlabel hplace (ih himp)

theorem interspersed_of_forall₂ {related : Node → Node → Prop} {nodes nodes' : List Node}
    (h : List.Forall₂ related nodes nodes') (previous : Option Node) :
    Interspersed related previous nodes nodes' := by
  induction h generalizing previous with
  | nil => exact .nil
  | cons hnode _ ih => exact .keep hnode (ih _)

/-! ### References to a name -/

theorem undisturbed_mentionedIn (name : String) (parent : Kind) :
    Undisturbed (fun _ node plain => node.mentions name plain)
      (fun nameOpen _ nodes => mentionedIn name parent nameOpen nodes) where
  nil _ _ _ := rfl
  keep nameOpen _ _ node node' rest rest' hlabel hread hrest := by
    rw [mentionedIn_cons, mentionedIn_cons, hlabel, congrFun hread, hrest]
  insert nameOpen _ label rest hlabel := by
    have hmentions : ∀ plain, (Node.mk label []).mentions name plain = false := by
      intro plain
      simp [Node.mentions, mentionedIn, hlabel.kind]
    rw [mentionedIn_cons, hmentions, Bool.false_or]
    simp [Node.label, hlabel.role]

theorem Commented.mentions_eq {node node' : Node} (h : Commented node node') (name : String)
    (plain : Bool) : node'.mentions name plain = node.mentions name plain := by
  induction node using Node.induct generalizing node' plain with
  | step node ih =>
    cases h with
    | @mk label children children' hchildren =>
      have hinside : Interspersed (Alike fun _ node plain => node.mentions name plain) none children
          children' := hchildren.imp_mem fun inner hinner inner' h =>
        ⟨h.label_eq, fun _ _ _ => funext fun plain =>
          ih inner (Node.mem_descendants_of_mem_children hinner) h plain⟩
      rw [Node.mentions, Node.mentions, hinside.pass_eq (undisturbed_mentionedIn name label.kind)]

theorem Commented.isSelfReferential_eq {node node' : Node} (h : Commented node node') :
    node'.isSelfReferential = node.isSelfReferential := by
  unfold Node.isSelfReferential
  rw [h.kind_eq]
  rcases rel_cases (h.child? .name) with ⟨hnone, hnone'⟩ | ⟨name, name', hname, hname', hsame⟩
  · rw [hnone, hnone']
  · simp only [hname, hname', hsame.text_eq]
    split
    · rcases rel_cases (h.child? .value) with ⟨hnone, hnone'⟩ | ⟨value, value', hv, hv', hvalue⟩
      · rw [hnone, hnone']
      · simp only [hv, hv', hvalue.mentions_eq]
    · rcases rel_cases (h.child? .body) with ⟨hnone, hnone'⟩ | ⟨body, body', hb, hb', hbody⟩
      · rw [hnone, hnone']
      · have hparts : List.Forall₂ (Alike fun _ node plain => node.mentions name.text plain)
            body.parts body'.parts := hbody.parts.imp fun inner inner' h =>
          ⟨h.label_eq, fun _ _ _ => funext (h.mentions_eq name.text)⟩
        simp only [hb, hb', hbody.kind_eq]
        exact (interspersed_of_forall₂ hparts none).pass_eq
          (undisturbed_mentionedIn name.text body.kind) true

end Schemata
