import Mathlib.Data.List.Basic
import Schemata.Tree.Outline
import Schemata.Proofs.Derive.Traversal

/-!
# Topmost errors

The search for errors does not enter what it has found, nor anything without a mark. As long as
every node with an error in itself or below is marked, nothing gets lost that way: the search lists
the topmost errors of the tree, each of them once and in document order.

Equal nodes may stand at several places of a tree, so places are told apart by their addresses, the
positions among the children on the way down. A proper ancestor has a proper prefix for its
address, and document order is the lexicographic order of addresses.
-/

namespace Schemata

namespace Node

/-- The node at an address. -/
def at? (node : Node) : List Nat → Option Node
  | [] => some node
  | index :: rest => node.children[index]?.bind fun child => child.at? rest

/-- Whatever has an error in itself or below is marked. -/
def MarksErrors (root : Node) : Prop :=
  ∀ node ∈ root.nodes, ∀ error ∈ node.nodes, error.isError = true → node.hasError = true

/-- An error at an address, without an error among its proper ancestors. -/
structure TopErrorAt (root : Node) (address : List Nat) (node : Node) : Prop where
  found : root.at? address = some node
  error : node.isError = true
  top : ∀ above other, above <+: address → above ≠ address → root.at? above = some other →
    other.isError = false

theorem at?_cons_eq_some_iff {root node : Node} {index : Nat} {rest : List Nat} :
    root.at? (index :: rest) = some node ↔
      ∃ child, root.children[index]? = some child ∧ child.at? rest = some node := by
  rw [at?, Option.bind_eq_some_iff]

theorem mem_nodes_of_at? {root node : Node} {address : List Nat}
    (h : root.at? address = some node) : node ∈ root.nodes := by
  induction address generalizing root with
  | nil => exact Option.some.inj h ▸ self_mem_nodes root
  | cons index rest ih =>
    obtain ⟨child, hchild, hrest⟩ := at?_cons_eq_some_iff.1 h
    exact mem_nodes_iff.2 (Or.inr (mem_nodesOf (List.mem_of_getElem? hchild) (ih hrest)))

theorem topErrorAt_of_isError {root node : Node} {address : List Nat}
    (herror : root.isError = true) : TopErrorAt root address node ↔ address = [] ∧ node = root := by
  constructor
  · intro h
    cases address with
    | nil => exact ⟨rfl, (Option.some.inj h.found).symm⟩
    | cons index rest =>
      have htop := h.top [] root List.nil_prefix (List.cons_ne_nil index rest).symm rfl
      rw [herror] at htop
      cases htop
  · rintro ⟨rfl, rfl⟩
    exact ⟨rfl, herror, fun above _ hprefix hne => absurd (List.prefix_nil.1 hprefix) hne⟩

theorem topErrorAt_of_not_isError {root node : Node} {address : List Nat}
    (herror : root.isError = false) : TopErrorAt root address node ↔
      ∃ index rest child, address = index :: rest ∧ root.children[index]? = some child ∧
        TopErrorAt child rest node := by
  constructor
  · rintro ⟨hfound, hnode, htop⟩
    cases address with
    | nil =>
      rw [← Option.some.inj hfound, herror] at hnode
      cases hnode
    | cons index rest =>
      obtain ⟨child, hchild, hrest⟩ := at?_cons_eq_some_iff.1 hfound
      refine ⟨index, rest, child, rfl, hchild, hrest, hnode, ?_⟩
      intro above other hprefix hne hother
      exact htop (index :: above) other ((List.cons_prefix_cons).2 ⟨rfl, hprefix⟩)
        (fun heq => hne (List.cons.inj heq).2) (at?_cons_eq_some_iff.2 ⟨child, hchild, hother⟩)
  · rintro ⟨index, rest, child, rfl, hchild, hrest, hnode, htop⟩
    refine ⟨at?_cons_eq_some_iff.2 ⟨child, hchild, hrest⟩, hnode, ?_⟩
    intro above other hprefix hne hother
    cases above with
    | nil => exact Option.some.inj hother ▸ herror
    | cons index' above =>
      obtain ⟨rfl, hinside⟩ := List.cons_prefix_cons.1 hprefix
      obtain ⟨child', hchild', hother⟩ := at?_cons_eq_some_iff.1 hother
      obtain rfl : child = child' := Option.some.inj (hchild.symm.trans hchild')
      exact htop above other hinside (fun heq => hne (heq ▸ rfl)) hother

/-! ### A search of the whole tree -/

mutual

/-- The topmost errors with their addresses; marks play no part. -/
def topPlaces : Node → List (List Nat × Node)
  | mk label children =>
    if (mk label children).isError then [([], mk label children)] else topPlacesFrom 0 children

/-- The topmost errors of siblings, the first of which has the given position. -/
def topPlacesFrom (start : Nat) : List Node → List (List Nat × Node)
  | [] => []
  | node :: rest =>
    (topPlaces node).map (fun place => (start :: place.1, place.2)) ++
      topPlacesFrom (start + 1) rest

end

theorem topPlacesFrom_eq_flatMap (start : Nat) (nodes : List Node) :
    topPlacesFrom start nodes = (nodes.zipIdx start).flatMap fun pair =>
      pair.1.topPlaces.map fun place => (pair.2 :: place.1, place.2) := by
  induction nodes generalizing start with
  | nil => rfl
  | cons node rest ih => rw [topPlacesFrom, ih, List.zipIdx_cons, List.flatMap_cons]

theorem topPlaces_of_isError {root : Node} (h : root.isError = true) :
    root.topPlaces = [([], root)] := by
  cases root
  rw [topPlaces, if_pos h]

theorem topPlaces_of_not_isError {root : Node} (h : root.isError = false) :
    root.topPlaces = root.children.zipIdx.flatMap fun pair =>
      pair.1.topPlaces.map fun place => (pair.2 :: place.1, place.2) := by
  cases root
  rw [topPlaces, if_neg (by simp [h]), topPlacesFrom_eq_flatMap, children]

theorem mem_topPlaces_iff {root node : Node} {address : List Nat} :
    (address, node) ∈ root.topPlaces ↔ TopErrorAt root address node := by
  induction root using Node.induct generalizing address with
  | step root ih =>
    cases herror : root.isError with
    | true =>
      rw [topPlaces_of_isError herror, topErrorAt_of_isError herror, List.mem_singleton,
        Prod.mk.injEq]
    | false =>
      rw [topPlaces_of_not_isError herror, topErrorAt_of_not_isError herror]
      simp only [List.mem_flatMap, List.mem_map, Prod.mk.injEq, Prod.exists]
      constructor
      · rintro ⟨child, index, hchild, rest, node', hplace, rfl, rfl⟩
        have hchild := List.mk_mem_zipIdx_iff_getElem?.1 hchild
        have hmem := mem_descendants_of_mem_children (List.mem_of_getElem? hchild)
        exact ⟨index, rest, child, rfl, hchild, (ih child hmem).1 hplace⟩
      · rintro ⟨index, rest, child, rfl, hchild, hplace⟩
        have hmem := mem_descendants_of_mem_children (List.mem_of_getElem? hchild)
        exact ⟨child, index, List.mk_mem_zipIdx_iff_getElem?.2 hchild, rest, node,
          (ih child hmem).2 hplace, rfl, rfl⟩

private theorem pairwise_position_zipIdx (nodes : List Node) (start : Nat) :
    (nodes.zipIdx start).Pairwise fun first second => first.2 < second.2 := by
  induction nodes generalizing start with
  | nil => exact .nil
  | cons node rest ih =>
    rw [List.zipIdx_cons]
    exact .cons (fun _ h => List.le_snd_of_mem_zipIdx h) (ih (start + 1))

theorem pairwise_address_topPlaces (root : Node) :
    root.topPlaces.Pairwise fun first second => first.1 < second.1 := by
  induction root using Node.induct with
  | step root ih =>
    cases herror : root.isError with
    | true => rw [topPlaces_of_isError herror]; exact List.pairwise_singleton _ _
    | false =>
      rw [topPlaces_of_not_isError herror, List.pairwise_flatMap]
      constructor
      · rintro ⟨child, index⟩ hchild
        have hmem := List.mem_of_getElem? (List.mk_mem_zipIdx_iff_getElem?.1 hchild)
        rw [List.pairwise_map]
        exact (ih child (mem_descendants_of_mem_children hmem)).imp fun hlt =>
          List.cons_lt_cons_iff.2 (Or.inr ⟨rfl, hlt⟩)
      · refine (pairwise_position_zipIdx root.children 0).imp ?_
        intro pair pair' hlt first hfirst second hsecond
        obtain ⟨place, -, rfl⟩ := List.mem_map.1 hfirst
        obtain ⟨place', -, rfl⟩ := List.mem_map.1 hsecond
        exact List.cons_lt_cons_iff.2 (Or.inl hlt)

/-! ### The pruned search -/

theorem topErrors_of_isError {root : Node} (h : root.isError = true) : root.topErrors = [root] := by
  cases root
  rw [topErrors]
  exact if_pos h

theorem topErrorsOf_eq_flatMap (nodes : List Node) :
    topErrorsOf nodes = nodes.flatMap fun node =>
      if node.hasError || node.label.missing then node.topErrors else [] := by
  induction nodes with
  | nil => rfl
  | cons node rest ih => rw [topErrorsOf, ih, List.flatMap_cons]

theorem topErrors_of_not_isError {root : Node} (h : root.isError = false) :
    root.topErrors = root.children.flatMap fun node =>
      if node.hasError || node.label.missing then node.topErrors else [] := by
  cases root
  rw [topErrors]
  exact (if_neg (Bool.not_eq_true _ ▸ h)).trans (topErrorsOf_eq_flatMap _)

theorem MarksErrors.of_mem_children {root child : Node} (h : root.MarksErrors)
    (hchild : child ∈ root.children) : child.MarksErrors :=
  fun node hnode => h node (mem_nodes_iff.2 (Or.inr (mem_nodesOf hchild hnode)))

/-- What is not entered has nothing to offer. -/
theorem MarksErrors.topPlaces_eq_nil {root : Node} (h : root.MarksErrors)
    (hflag : root.hasError = false) : root.topPlaces = [] := by
  refine List.eq_nil_iff_forall_not_mem.2 ?_
  rintro ⟨address, node⟩ hplace
  have hplace := mem_topPlaces_iff.1 hplace
  have hmarked := h root (self_mem_nodes root) node (mem_nodes_of_at? hplace.found) hplace.error
  rw [hflag] at hmarked
  cases hmarked

theorem MarksErrors.topErrors_eq {root : Node} (h : root.MarksErrors) :
    root.topErrors = root.topPlaces.map Prod.snd := by
  induction root using Node.induct with
  | step root ih =>
    cases herror : root.isError with
    | true => rw [topErrors_of_isError herror, topPlaces_of_isError herror]; rfl
    | false =>
      rw [topErrors_of_not_isError herror, topPlaces_of_not_isError herror, List.map_flatMap]
      calc _ = (root.children.zipIdx.map Prod.fst).flatMap fun node =>
              if node.hasError || node.label.missing then node.topErrors else [] := by
            rw [List.zipIdx_map_fst]
        _ = root.children.zipIdx.flatMap fun pair =>
              if pair.1.hasError || pair.1.label.missing then pair.1.topErrors else [] :=
            List.flatMap_map ..
        _ = _ := List.flatMap_congr ?_
      rintro ⟨child, index⟩ hchild
      have hmem := List.mem_of_getElem? (List.mk_mem_zipIdx_iff_getElem?.1 hchild)
      have hmarks := h.of_mem_children hmem
      rw [List.map_map]
      change (if child.hasError || child.label.missing then child.topErrors else []) =
        child.topPlaces.map Prod.snd
      split
      · exact ih child (mem_descendants_of_mem_children hmem) hmarks
      · rename_i hflag
        rw [Bool.not_eq_true, Bool.or_eq_false_iff] at hflag
        rw [hmarks.topPlaces_eq_nil hflag.1, List.map_nil]

mutual

theorem topErrors_sublist_nodes : (root : Node) → root.topErrors.Sublist root.nodes
  | mk label children => by
    rw [topErrors, nodes]
    split
    · exact (List.nil_sublist _).cons_cons _
    · exact (topErrorsOf_sublist_nodesOf children).cons _

theorem topErrorsOf_sublist_nodesOf :
    (trees : List Node) → (topErrorsOf trees).Sublist (nodesOf trees)
  | [] => List.Sublist.refl _
  | tree :: rest => by
    rw [topErrorsOf, nodesOf]
    refine List.Sublist.append ?_ (topErrorsOf_sublist_nodesOf rest)
    split
    · exact topErrors_sublist_nodes tree
    · exact List.nil_sublist _

end

/-! ### Accepting a tree -/

/-- The search lists the topmost errors, and the tree is accepted exactly without a mark at its
root; otherwise the first of the list is reported. -/
structure FindsErrors (root : Node) : Prop where
  lists : ∃ places : List (List Nat × Node), root.topErrors = places.map Prod.snd ∧
    (places.map Prod.fst).Pairwise (· < ·) ∧
    ∀ address node, (address, node) ∈ places ↔ TopErrorAt root address node
  inOrder : root.topErrors.Sublist root.nodes
  accepts : root.hasError = false → root.check = .ok root
  refuses : (∃ error, root.check = .error error) ↔ root.hasError = true
  reports : (∃ node ∈ root.nodes, node.isError = true) →
    ∃ first error, root.topErrors.head? = some first ∧ root.check = .error error ∧
      error.line? = some first.line ∧
      error.message = "Failed to parse TypeScript code at line " ++ toString first.line ++
        ": syntax error near '" ++ String.ofList (first.text.toList.take 50) ++ "'"

/-- Below an error stands a topmost one, which is that error or an ancestor of it. -/
theorem topPlaces_ne_nil {root node : Node} (hnode : node ∈ root.nodes)
    (herror : node.isError = true) : root.topPlaces ≠ [] := by
  induction root using Node.induct with
  | step root ih =>
    cases hroot : root.isError with
    | true =>
      rw [topPlaces_of_isError hroot]
      exact List.cons_ne_nil _ _
    | false =>
      rcases mem_nodes_iff.1 hnode with rfl | hbelow
      · rw [herror] at hroot
        cases hroot
      · obtain ⟨child, hchild, hinside⟩ := exists_of_mem_nodesOf hbelow
        obtain ⟨index, hindex⟩ := List.mem_iff_getElem?.1 hchild
        obtain ⟨⟨address, top⟩, hplace⟩ := List.exists_mem_of_ne_nil _
          (ih child (mem_descendants_of_mem_children hchild) hinside)
        refine List.ne_nil_of_mem (a := (index :: address, top)) (mem_topPlaces_iff.2 ?_)
        exact (topErrorAt_of_not_isError hroot).2
          ⟨index, address, child, rfl, hindex, mem_topPlaces_iff.1 hplace⟩

theorem check_of_hasError {root : Node} (h : root.hasError = true) :
    root.check = .error ⟨root.topErrors.head?.map fun node =>
      (node.line, String.ofList (node.text.toList.take 50))⟩ := if_pos h

/-- In a tree that marks its errors the pruned search misses none of the topmost ones. -/
theorem findsErrors_of_marksErrors {root : Node} (hmarks : root.MarksErrors) :
    root.FindsErrors where
  lists := ⟨root.topPlaces, hmarks.topErrors_eq,
    List.pairwise_map.2 (pairwise_address_topPlaces root), fun _ _ => mem_topPlaces_iff⟩
  inOrder := topErrors_sublist_nodes root
  accepts := fun hflag => by
    rw [check, hflag]
    rfl
  refuses := by
    cases hflag : root.hasError with
    | true => simp [check_of_hasError hflag]
    | false => simp [check, hflag]
  reports := by
    rintro ⟨node, hnode, herror⟩
    have hflag := hmarks root (self_mem_nodes root) node hnode herror
    have hfound : root.topErrors ≠ [] := by
      rw [hmarks.topErrors_eq]
      exact fun hnil => topPlaces_ne_nil hnode herror (List.map_eq_nil_iff.1 hnil)
    obtain ⟨first, rest, hfirst⟩ := List.exists_cons_of_ne_nil hfound
    refine ⟨first, _, by rw [hfirst, List.head?_cons], check_of_hasError hflag, ?_⟩
    rw [hfirst]
    exact ⟨rfl, rfl⟩

theorem MarksErrors.of_children {root : Node} (hself : root.isError = true → root.hasError = true)
    (hbelow : ∀ child ∈ root.children, child.hasError = true → root.hasError = true)
    (hchildren : ∀ child ∈ root.children, child.MarksErrors) : root.MarksErrors := by
  intro node hnode error herror hflaw
  rcases mem_nodes_iff.1 hnode with rfl | hnode
  · rcases mem_nodes_iff.1 herror with rfl | herror
    · exact hself hflaw
    · obtain ⟨child, hchild, hinside⟩ := exists_of_mem_nodesOf herror
      exact hbelow child hchild (hchildren child hchild child (self_mem_nodes child) error hinside
        hflaw)
  · obtain ⟨child, hchild, hinside⟩ := exists_of_mem_nodesOf hnode
    exact hchildren child hchild node hinside error herror hflaw

end Node

namespace Outline

mutual

theorem marksErrors_place (source : Source) :
    (outline : Outline) → (outline.place source).MarksErrors
  | mk kind role start stop named missing flawed children => by
    rw [place]
    refine Node.MarksErrors.of_children ?_ ?_ (marksErrors_placeAll source children)
    · intro herror
      simp only [Node.isError, Node.kind, Node.label, Node.hasError, Bool.or_eq_true] at herror ⊢
      exact Or.inl (herror.elim (fun hkind => Or.inl (Or.inr hkind)) Or.inr)
    · intro child hchild hflag
      simp only [Node.hasError, Node.label, Bool.or_eq_true, List.any_eq_true]
      exact Or.inr ⟨child, hchild, hflag⟩

theorem marksErrors_placeAll (source : Source) :
    (outlines : List Outline) → ∀ node ∈ placeAll source outlines, node.MarksErrors
  | [], _, h => by simp [placeAll] at h
  | outline :: rest, node, h => by
    rw [placeAll, List.mem_cons] at h
    rcases h with rfl | h
    · exact marksErrors_place source outline
    · exact marksErrors_placeAll source rest node h

end

/-- `type = ;` and an unfinished `{` on the next line: an error inside an error, a token that had to
be inserted, and a marked statement without an error of its own. -/
def brokenFile : Outline :=
  .mk (.other "program") none 0 11 true false false [
    .mk .error none 0 8 true false false [
      .mk .error none 5 6 true false false []],
    .mk .expressionStatement none 9 9 true false true [],
    .mk (.other "statement_block") none 9 11 true false false [
      .mk (.other "\x7b") none 9 10 false false false [],
      .mk (.other "\x7d") none 11 11 false true false []]]

theorem findsErrors_brokenFile :
    let root := brokenFile.place (.ofString "type = ;\n\x7b ")
    root.MarksErrors ∧ root.FindsErrors ∧ root.topErrors.map Node.line = [1, 2] ∧
      root.topErrors.map Node.text = ["type = ;", ""] :=
  ⟨marksErrors_place _ _, Node.findsErrors_of_marksErrors (marksErrors_place _ _),
    by decide +kernel, by decide +kernel⟩

end Outline

end Schemata
