import Schemata.Files.Store

/-!
# Looking into stores

What a store holds is read place by place. A path leads to one place, whatever the store holds; the
store only decides whether the way there can be followed. Making directories adds directories on the
way and nothing else, so no file is ever touched by it.
-/

namespace Schemata

namespace Store

def content? (store : Store) (place : Place) : Option String :=
  match store.get? place with
  | some (.file content) => some content
  | _ => none

variable {store : Store} {place other : Place} {entry : Entry}

theorem get?_of_isAnchor (h : place.isAnchor = true) : store.get? place = some .directory := by
  simp [get?, h]

theorem isAnchor_eq_false {found : Option Entry} (h : store.get? place = found)
    (hfound : found ≠ some .directory) : place.isAnchor = false := by
  cases hanchor : place.isAnchor with
  | false => rfl
  | true => exact absurd (h.symm.trans (get?_of_isAnchor hanchor)) hfound

theorem get?_erase_of_ne (h : other ≠ place) : (store.erase place).get? other = store.get? other := by
  have hfind : (store.erase place).entries.find? (fun e => e.1 == other) =
      store.entries.find? fun e => e.1 == other := by
    rw [erase, List.find?_filter]
    congr 1
    funext e
    by_cases he : e.1 = other
    · simp [he, h]
    · simp [he]
  simp [get?, hfind]

theorem get?_put_of_ne (h : other ≠ place) :
    (store.put place entry).get? other = store.get? other := by
  have herase : (store.erase place).get? other = store.get? other := get?_erase_of_ne h
  rw [← herase]
  simp [get?, put, Ne.symm h]

theorem get?_put_self (h : place.isAnchor = false) :
    (store.put place entry).get? place = some entry := by
  simp [get?, put, h]

/-- Removing an entry from a store that has none there. -/
theorem erase_of_not_mem (h : place ∉ store.entries.map Prod.fst) : store.erase place = store := by
  have hfilter : store.entries.filter (fun e => e.1 != place) = store.entries := by
    apply List.filter_eq_self.2
    intro e he
    simpa using fun heq => h (List.mem_map.2 ⟨e, he, heq⟩)
  rw [erase, hfilter]

theorem erase_put : (store.put place entry).erase place = store.erase place := by
  simp [put, erase, List.filter_filter]

theorem put_put {entry' : Entry} :
    (store.put place entry).put place entry' = store.put place entry' := by
  rw [put, erase_put, ← put]

theorem get?_eq_none_of_not_mem (hanchor : place.isAnchor = false)
    (h : place ∉ store.entries.map Prod.fst) : store.get? place = none := by
  have hfind : store.entries.find? (fun e => e.1 == place) = none := by
    apply List.find?_eq_none.2
    intro e he heq
    exact h (List.mem_map.2 ⟨e, he, eq_of_beq heq⟩)
  simp [get?, hanchor, hfind]

theorem content?_of_get?_eq {after before : Store}
    (h : after.get? place = before.get? place) : after.content? place = before.content? place := by
  rw [content?, content?, h]

theorem content?_put_self (h : place.isAnchor = false) (content : String) :
    (store.put place (.file content)).content? place = some content := by
  rw [content?, get?_put_self h]

theorem content?_put_of_ne (h : other ≠ place) :
    (store.put place entry).content? other = store.content? other :=
  content?_of_get?_eq (get?_put_of_ne h)

/-- The same files with the same contents; directories may differ. -/
def SameFiles (before after : Store) : Prop :=
  ∀ place, after.content? place = before.content? place

theorem SameFiles.refl (store : Store) : store.SameFiles store := fun _ => rfl

/-- One file was written: the path leads to it, and every other file is as before. -/
structure Writes (before after : Store) (path : Path) (content : String) : Prop where
  resolved : after.resolve path = .ok path.place
  content : after.content? path.place = some content
  others : ∀ place ≠ path.place, after.content? place = before.content? place

/-- Whatever stands in a store stands in a directory. -/
def Rooted (store : Store) : Prop :=
  ∀ directory part, store.get? (directory ++ [part]) ≠ none →
    store.get? directory = some .directory

end Store

/-! ### The places on the way -/

theorem Path.isAnchor_origin (path : Path) : path.origin.isAnchor = true := by
  unfold origin
  split <;> rfl

/-- The path of the first components. -/
def Path.upTo (path : Path) (n : Nat) : Path := { path with components := path.components.take n }

theorem Path.place_upTo_succ (path : Path) {n : Nat} (h : n < path.components.length) :
    (path.upTo (n + 1)).place = (path.upTo n).place.enter (path.components.get ⟨n, h⟩) := by
  rw [place, upTo, List.take_succ_eq_append_getElem h, List.foldl_append]
  rfl

theorem Path.mem_steps {path step : Path} :
    step ∈ path.steps ↔ ∃ n < path.components.length, step = path.upTo (n + 1) := by
  simp [steps, upTo, eq_comm]

/-- The steps to a directory are the beginnings of every path into it. -/
theorem Path.upTo_parent (path : Path) {n : Nat} (h : n < path.components.length) :
    path.parent.upTo n = path.upTo n := by
  have htake : path.components.dropLast.take n = path.components.take n := by
    rw [List.dropLast_eq_take, List.take_take]
    congr 1
    omega
  simp [upTo, parent, htake]

theorem Path.place_of_components_ne_nil {path : Path} (h : path.components ≠ []) :
    path.place = path.parent.place.enter path.name := by
  have hsplit : path.components = path.components.dropLast ++ [path.name] := by
    rw [name, List.getLast?_eq_some_getLast h, Option.getD_some, List.dropLast_concat_getLast h]
  rw [place, hsplit, List.foldl_append]
  rfl

theorem Place.enter_of_ne {part : String} (h : part ≠ "..") (place : Place) :
    place.enter part = place ++ [part] := by
  simp [enter, h]

namespace Store

variable {store : Store}

/-- Components can be followed exactly if each of them is looked for in a directory. -/
theorem follow_eq_ok {parts : List String} {place target : Place} :
    store.follow place parts = .ok target ↔
      target = parts.foldl Place.enter place ∧
        ∀ n < parts.length, store.get? ((parts.take n).foldl Place.enter place) =
          some .directory := by
  induction parts generalizing place with
  | nil =>
    simp [follow, eq_comm]
  | cons part rest ih =>
    rw [follow]
    have hhere : (∀ n < (part :: rest).length,
        store.get? (((part :: rest).take n).foldl Place.enter place) = some .directory) ↔
        store.get? place = some .directory ∧ ∀ n < rest.length,
          store.get? ((rest.take n).foldl Place.enter (place.enter part)) = some .directory := by
      constructor
      · intro h
        refine ⟨h 0 (by simp), fun n hn => ?_⟩
        exact h (n + 1) (by simpa using hn)
      · rintro ⟨hfirst, hrest⟩ n hn
        cases n with
        | zero => exact hfirst
        | succ n => exact hrest n (by simpa using hn)
    rw [hhere]
    split <;> rename_i hget
    · rw [ih, hget]
      simp
    · simp [hget]
    · simp [hget]

theorem resolve_eq_ok {path : Path} {place : Place} :
    store.resolve path = .ok place ↔
      place = path.place ∧
        ∀ n < path.components.length, store.get? (path.upTo n).place = some .directory :=
  follow_eq_ok

theorem contains_of_read {path : Path} {content : String} (h : store.read path = .ok content) :
    store.contains path = true := by
  rw [contains, entry?]
  cases hresolve : store.resolve path with
  | error error =>
    rw [read, hresolve] at h
    cases h
  | ok place =>
    simp only [read, hresolve, bind, Except.bind] at h
    split at h
    · rename_i hget
      simp [hget]
    · cases h
    · cases h

/-- Where something stands at the end of a way that does not go back, its beginnings are
directories. -/
theorem get?_upTo_of_rooted {path : Path} (hroot : store.Rooted) (hback : ".." ∉ path.components)
    {n : Nat} (hn : n ≤ path.components.length) (h : store.get? (path.upTo n).place ≠ none) :
    ∀ m < n, store.get? (path.upTo m).place = some .directory := by
  induction n with
  | zero => simp
  | succ n ih =>
    have hpart : path.components.get ⟨n, hn⟩ ≠ ".." := by
      intro heq
      exact hback (heq ▸ List.get_mem _ _)
    rw [path.place_upTo_succ hn, Place.enter_of_ne hpart] at h
    have hlast := hroot _ _ h
    intro m hm
    rcases Nat.lt_succ_iff_lt_or_eq.1 hm with hlt | rfl
    · exact ih (by omega) (by simp [hlast]) m hlt
    · exact hlast

/-- A path that does not go back misses nothing that stands at its place. -/
theorem get?_place_of_not_contains {path : Path} (hroot : store.Rooted)
    (hback : ".." ∉ path.components) (h : store.contains path = false) :
    store.get? path.place = none := by
  cases hget : store.get? path.place with
  | none => rfl
  | some entry =>
    have hwhole : path.upTo path.components.length = path := by simp [Path.upTo]
    have hdirs := get?_upTo_of_rooted hroot hback (Nat.le_refl _) (by simp [hwhole, hget])
    have hresolve : store.resolve path = .ok path.place := resolve_eq_ok.2 ⟨rfl, hdirs⟩
    simp [contains, entry?, hresolve, hget] at h

/-- Putting a file where a path leads, unless there is a directory. -/
theorem writes_put {path : Path} (hpath : store.resolve path = .ok path.place)
    (hfile : store.get? path.place ≠ some .directory) (content : String) :
    store.Writes (store.put path.place (.file content)) path content := by
  obtain ⟨-, hdirs⟩ := resolve_eq_ok.1 hpath
  refine ⟨resolve_eq_ok.2 ⟨rfl, fun n hn => ?_⟩, ?_, fun place hne => content?_put_of_ne hne⟩
  · have hne : (path.upTo n).place ≠ path.place := by
      intro heq
      exact hfile (heq ▸ hdirs n hn)
    rw [get?_put_of_ne hne, hdirs n hn]
  · exact content?_put_self (isAnchor_eq_false rfl hfile) content

theorem Writes.after {before middle after : Store} {path : Path} {content : String}
    (h : middle.Writes after path content) (hsame : before.SameFiles middle) :
    before.Writes after path content :=
  ⟨h.resolved, h.content, fun place hne => (h.others place hne).trans (hsame place)⟩

/-! ### Making directories -/

/-- Only directories were added, at some of the given places. -/
def AddsDirectories (before after : Store) (places : List Place) : Prop :=
  ∀ place, after.get? place = before.get? place ∨
    before.get? place = none ∧ after.get? place = some .directory ∧ place ∈ places

theorem AddsDirectories.sameFiles {before after : Store} {places : List Place}
    (h : before.AddsDirectories after places) : before.SameFiles after := by
  intro place
  rcases h place with hsame | ⟨hbefore, hafter, -⟩
  · exact content?_of_get?_eq hsame
  · simp [content?, hbefore, hafter]

theorem AddsDirectories.get?_directory {before after : Store} {places : List Place}
    (h : before.AddsDirectories after places) {place : Place}
    (hplace : before.get? place = some .directory) : after.get? place = some .directory := by
  rcases h place with hsame | ⟨hbefore, -, -⟩
  · rw [hsame, hplace]
  · rw [hbefore] at hplace
    cases hplace

/-- Whether it fails or not, making directories adds nothing but some of them. -/
theorem addsDirectories_makeSteps (refusal : Path → Option FileError) (store : Store) (made : Bool)
    (steps : List Path) :
    store.AddsDirectories (makeSteps refusal store made steps).2 (steps.map Path.place) := by
  induction steps generalizing store made with
  | nil => exact fun _ => .inl rfl
  | cons step rest ih =>
    rw [makeSteps]
    split
    · intro place
      rcases ih store made place with hsame | ⟨hbefore, hafter, hmem⟩
      · exact .inl hsame
      · exact .inr ⟨hbefore, hafter, List.mem_cons_of_mem _ hmem⟩
    · exact fun _ => .inl rfl
    · rename_i hnone
      split
      · exact fun _ => .inl rfl
      · intro place
        have hanchor : step.place.isAnchor = false := isAnchor_eq_false hnone (by simp)
        have hrest := ih (store.put step.place .directory) true
        by_cases hplace : place = step.place
        · subst hplace
          refine .inr ⟨hnone, ?_, List.mem_cons_self⟩
          exact hrest.get?_directory (get?_put_self hanchor)
        · rcases hrest place with hsame | ⟨hbefore, hafter, hmem⟩
          · rw [get?_put_of_ne hplace] at hsame
            exact .inl hsame
          · rw [get?_put_of_ne hplace] at hbefore
            exact .inr ⟨hbefore, hafter, List.mem_cons_of_mem _ hmem⟩

theorem get?_directory_of_makeSteps {refusal : Path → Option FileError} {store : Store}
    {made : Bool} {steps : List Path} (h : (makeSteps refusal store made steps).1 = .ok ())
    {step : Path} (hstep : step ∈ steps) :
    (makeSteps refusal store made steps).2.get? step.place = some .directory := by
  induction steps generalizing store made with
  | nil => cases hstep
  | cons first rest ih =>
    rw [makeSteps] at h ⊢
    split at h <;> rename_i hfirst
    · rcases List.mem_cons.1 hstep with rfl | hstep
      · exact (addsDirectories_makeSteps refusal store made rest).get?_directory hfirst
      · exact ih h hstep
    · cases h
    · split at h <;> rename_i hrefusal
      · cases h
      · have hanchor : first.place.isAnchor = false := isAnchor_eq_false hfirst (by simp)
        rcases List.mem_cons.1 hstep with rfl | hstep
        · exact (addsDirectories_makeSteps refusal _ true rest).get?_directory
            (get?_put_self hanchor)
        · exact ih h hstep

/-- Directories cannot be made only where the system refuses one or a file is in the way. -/
theorem exists_obstacle_of_makeSteps {refusal : Path → Option FileError} {store : Store}
    {made : Bool} {steps : List Path} {failure : FileError × Path}
    (h : (makeSteps refusal store made steps).1 = .error failure) :
    ∃ step ∈ steps, (refusal step).isSome = true ∨ (store.content? step.place).isSome = true := by
  induction steps generalizing store made with
  | nil => cases h
  | cons first rest ih =>
    rw [makeSteps] at h
    split at h <;> rename_i hfirst
    · obtain ⟨step, hstep, hwhy⟩ := ih h
      exact ⟨step, List.mem_cons_of_mem _ hstep, hwhy⟩
    · exact ⟨first, List.mem_cons_self, .inr (by simp [content?, hfirst])⟩
    · split at h <;> rename_i hrefusal
      · exact ⟨first, List.mem_cons_self, .inl (by simp [hrefusal])⟩
      · obtain ⟨step, hstep, hwhy⟩ := ih h
        refine ⟨step, List.mem_cons_of_mem _ hstep, hwhy.imp_right fun hfile => ?_⟩
        by_cases hplace : step.place = first.place
        · have hput : (store.put first.place .directory).content? first.place = none := by
            cases hanchor : first.place.isAnchor with
            | false => simp [content?, get?_put_self hanchor]
            | true => simp [content?, get?_of_isAnchor hanchor]
          rw [hplace, hput] at hfile
          cases hfile
        · rwa [content?_put_of_ne hplace] at hfile

/-- Once the directory of a path is made, the path can be followed, and its directory is there. -/
theorem get?_upTo_of_makeDirs {refusal : Path → Option FileError} {store : Store} {path : Path}
    (h : (makeDirs refusal store path).1 = .ok ()) {n : Nat} (hn : n ≤ path.components.length) :
    (makeDirs refusal store path).2.get? (path.upTo n).place = some .directory := by
  cases n with
  | zero =>
    apply get?_of_isAnchor
    exact path.isAnchor_origin
  | succ n => exact get?_directory_of_makeSteps h (Path.mem_steps.2 ⟨n, by omega, rfl⟩)

end Store

end Schemata
