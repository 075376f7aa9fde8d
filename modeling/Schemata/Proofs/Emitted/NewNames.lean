import Schemata.Proofs.Schema.Renaming

/-!
# New names

Templates give new names to the declared names. The renaming looks them up by characters, leaves
those out that stay as they are, and hides some of them inside a block; what a name becomes is not
changed by the first two.
-/

namespace Schemata.Emitted

open Text

/-! ### Looking names up -/

def Names.visible (names : Names) (hidden : List (List Char)) : Names :=
  names.filter fun entry => !hidden.contains entry.1

theorem Names.get?_filter (names : Names) {keep : List Char × List Char → Bool} {name : List Char}
    (h : ∀ entry ∈ names, entry.1 = name → keep entry = true) :
    Names.get? (names.filter keep) name = names.get? name := by
  rw [Names.get?, Names.get?, List.find?_filter]
  congr 1
  induction names with
  | nil => rfl
  | cons entry names ih =>
    rw [List.find?_cons, List.find?_cons, ih fun other hmem => h other (by simp [hmem])]
    by_cases hname : entry.1 = name
    · simp [hname, h entry (by simp) hname]
    · have hbeq : (entry.1 == name) = false := beq_eq_false_iff_ne.2 hname
      simp [hbeq]

theorem Names.get?_eq_none_iff {names : Names} {name : List Char} :
    names.get? name = none ↔ ∀ entry ∈ names, entry.1 ≠ name := by
  simp [Names.get?]

theorem Names.mem_of_get? {names : Names} {name other : List Char}
    (h : names.get? name = some other) : (name, other) ∈ names := by
  obtain ⟨entry, hfind, rfl⟩ := Option.map_eq_some_iff.1 h
  have hname : entry.1 = name := by simpa using List.find?_some hfind
  rw [← hname]
  exact List.mem_of_find?_eq_some hfind

theorem Names.get?_visible_of_mem (names : Names) {hidden : List (List Char)} {name : List Char}
    (h : name ∈ hidden) : (names.visible hidden).get? name = none := by
  rw [Names.get?_eq_none_iff]
  intro entry hentry hname
  simp [Names.visible, hname, h] at hentry

theorem Names.get?_visible_of_not_mem (names : Names) {hidden : List (List Char)}
    {name : List Char} (h : name ∉ hidden) :
    (names.visible hidden).get? name = names.get? name := by
  refine names.get?_filter ?_
  rintro entry - rfl
  simpa using h

theorem Names.Proper.visible {names : Names} (h : names.Proper) (hidden : List (List Char)) :
    (names.visible hidden).Proper := by
  have hnone : ∀ name, names.get? name = none → (names.visible hidden).get? name = none := by
    intro name hname
    by_cases hmem : name ∈ hidden
    · exact names.get?_visible_of_mem hmem
    · rw [names.get?_visible_of_not_mem hmem, hname]
  exact ⟨fun word hword => hnone _ (h.reserved word hword),
    fun c rest hdigit => hnone _ (h.digits c rest hdigit)⟩

end Schemata.Emitted

namespace Schemata

open Text Emitted

/-! ### Names that templates give -/

/-- The names that a template gives to some names, each beside the old one. -/
def filledNames (template : String) (names : List String) :
    Except TemplateError (List (String × String)) :=
  names.mapM fun name => do return (name, ← fillTemplate template name)

/-- What a name becomes; a name that is given no other stays. -/
def nameIn (entries : List (String × String)) (name : String) : String :=
  (valueAt? name entries).getD name

/-- New names as the renaming looks them up. -/
def charNames (entries : List (String × String)) : Names :=
  entries.map fun entry => (entry.1.toList, entry.2.toList)

theorem get?_charNames (entries : List (String × String)) (name : String) :
    (charNames entries).get? name.toList = (valueAt? name entries).map String.toList := by
  induction entries with
  | nil => rfl
  | cons entry entries ih =>
    rw [Names.get?, charNames] at ih
    rw [Names.get?, charNames, List.map_cons, List.find?_cons, valueAt?]
    by_cases hname : entry.1 = name
    · simp [hname]
    · have hbeq : (entry.1.toList == name.toList) = false := by
        rw [beq_eq_false_iff_ne]
        exact fun heq => hname (String.toList_inj.1 heq)
      simp only [hbeq, hname, if_false]
      exact ih

theorem gives_nameIn (entries : List (String × String)) :
    (charNames entries).Gives (nameIn entries) := by
  intro name
  rw [nameIn, get?_charNames]
  cases valueAt? name entries <;> rfl

theorem fillAll_map_toList (template : String) (names : List String) :
    fillAll template (names.map String.toList) = (filledNames template names).map charNames := by
  induction names with
  | nil => rfl
  | cons name names ih =>
    rw [fillAll, filledNames] at ih ⊢
    rw [List.map_cons, List.mapM_cons, List.mapM_cons, ih, String.ofList_toList]
    cases fillTemplate template name with
    | error error => rfl
    | ok other =>
      cases names.mapM (fun name => do return (name, ← fillTemplate template name) :
          String → Except TemplateError (String × String)) with
      | error error => rfl
      | ok entries => rfl

/-- Every name is filled in on its own. -/
theorem fillTemplate_of_mem {template : String} {names : List String}
    {entries : List (String × String)} (h : filledNames template names = .ok entries) :
    ∀ entry ∈ entries, entry.1 ∈ names ∧ fillTemplate template entry.1 = .ok entry.2 := by
  induction names generalizing entries with
  | nil =>
    cases h
    simp
  | cons name names ih =>
    rw [filledNames, List.mapM_cons] at h
    obtain ⟨first, hfirst, h⟩ := bind_eq_ok_iff.1 h
    obtain ⟨rest, hrest, h⟩ := bind_eq_ok_iff.1 h
    obtain ⟨other, hother, hfirst⟩ := bind_eq_ok_iff.1 hfirst
    cases hfirst
    cases h
    intro entry hmem
    rcases List.mem_cons.1 hmem with rfl | hmem
    · exact ⟨by simp, hother⟩
    · obtain ⟨hname, hfilled⟩ := ih hrest entry hmem
      exact ⟨by simp [hname], hfilled⟩

theorem eraseDups_map_toList (names : List String) :
    (names.map String.toList).eraseDups = names.eraseDups.map String.toList := by
  cases names with
  | nil => rfl
  | cons name names =>
    have hfilter : (names.map String.toList).filter (fun other => !other == name.toList) =
        (names.filter fun other => !other == name).map String.toList := by
      rw [List.filter_map]
      congr 1
      refine List.filter_congr ?_
      intro other _
      rw [Function.comp_apply, Bool.eq_iff_iff]
      simp [String.toList_inj]
    rw [List.map_cons, List.eraseDups_cons, List.eraseDups_cons, List.map_cons, hfilter,
      eraseDups_map_toList (names.filter fun other => !other == name)]
termination_by names.length
decreasing_by exact Nat.lt_succ_of_le (List.length_filter_le _ _)

/-- Leaving out the names that stay changes no name. -/
theorem getD_get?_changed {names : Names}
    (h : ∀ entry ∈ names, ∀ other ∈ names, entry.1 = other.1 → entry.2 = other.2)
    (name : List Char) :
    (Names.get? (names.filter fun entry => entry.1 != entry.2) name).getD name =
      (names.get? name).getD name := by
  cases hget : names.get? name with
  | none =>
    have hnone : Names.get? (names.filter fun entry => entry.1 != entry.2) name = none := by
      rw [Names.get?_eq_none_iff] at hget ⊢
      exact fun entry hmem => hget entry (List.mem_of_mem_filter hmem)
    rw [hnone]
  | some other =>
    have hother := Names.mem_of_get? hget
    by_cases heq : other = name
    · subst heq
      have hnone : Names.get? (names.filter fun entry => entry.1 != entry.2) other = none := by
        rw [Names.get?_eq_none_iff]
        intro entry hmem hname
        obtain ⟨hmem, hchanged⟩ := List.mem_filter.1 hmem
        have hsame : entry.2 = other := h entry hmem _ hother hname
        rw [hname, hsame] at hchanged
        simp at hchanged
      rw [hnone]
      rfl
    · rw [names.get?_filter, hget]
      intro entry hmem hname
      have hsame : entry.2 = other := h entry hmem _ hother hname
      rw [hname, hsame]
      simpa using Ne.symm heq

theorem proper_changed {template : String} {names : List String}
    {entries : List (String × String)} (h : filledNames template names = .ok entries)
    (hnames : ∀ name ∈ names, isPlainName name.toList = true ∧ name ∉ reservedWords) :
    Names.Proper ((charNames entries).filter fun entry => entry.1 != entry.2) := by
  -- whatever gets a new name is one of the names
  have hkey : ∀ key, (∀ name ∈ names, name.toList ≠ key) →
      Names.get? ((charNames entries).filter fun entry => entry.1 != entry.2) key = none := by
    intro key hkey
    rw [Names.get?_eq_none_iff]
    intro pair hpair
    obtain ⟨entry, hentry, rfl⟩ := List.mem_map.1 (List.mem_of_mem_filter hpair)
    exact hkey entry.1 (fillTemplate_of_mem h entry hentry).1
  constructor
  · intro word hword
    refine hkey word.toList ?_
    intro name hname heq
    rw [String.toList_inj] at heq
    subst heq
    exact (hnames name hname).2 hword
  · intro c rest hdigit
    refine hkey (c :: rest) ?_
    intro name hname heq
    have hstart := (hnames name hname).1
    rw [heq, isPlainName, Bool.and_eq_true] at hstart
    rw [isNameStart_eq_false_of_isDigit hdigit] at hstart
    exact absurd hstart.1 (by simp)

/-- The names that are looked up are those that the template gives. -/
theorem gives_nameIn_changed {template : String} {names : List String}
    {entries : List (String × String)} (h : filledNames template names = .ok entries) :
    Names.Gives ((charNames entries).filter fun entry => entry.1 != entry.2)
      (nameIn entries) := by
  intro name
  rw [getD_get?_changed, gives_nameIn]
  intro pair hpair other hother hsame
  obtain ⟨entry, hentry, rfl⟩ := List.mem_map.1 hpair
  obtain ⟨second, hsecond, rfl⟩ := List.mem_map.1 hother
  have hfirst := (fillTemplate_of_mem h entry hentry).2
  have hagain := (fillTemplate_of_mem h second hsecond).2
  rw [String.toList_inj.1 hsame, hagain] at hfirst
  exact congrArg String.toList (Except.ok.inj hfirst).symm

/-! ### The template that changes nothing -/

theorem fillTemplate_plain (name : String) : fillTemplate plainTemplate name = .ok name := by
  have hfill : Template.fill name.toList (plainTemplate.toList.length + 1) 2 plainTemplate.toList =
      .ok (name.toList ++ []) := rfl
  rw [fillTemplate, hfill, Except.map, List.append_nil, String.ofList_toList]

theorem filledNames_plain (names : List String) :
    filledNames plainTemplate names = .ok (names.map fun name => (name, name)) := by
  induction names with
  | nil => rfl
  | cons name names ih =>
    rw [filledNames] at ih ⊢
    rw [List.mapM_cons, ih, fillTemplate_plain]
    rfl

theorem nameIn_plain (names : List String) (name : String) :
    nameIn (names.map fun name => (name, name)) name = name := by
  rw [nameIn]
  induction names with
  | nil => rfl
  | cons other names ih =>
    rw [List.map_cons, valueAt?]
    split
    · rename_i heq
      exact heq
    · exact ih

end Schemata
