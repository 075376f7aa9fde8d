import Mathlib.Data.List.Basic
import Mathlib.Data.List.Induction
import Schemata.Json.Basic

/-!
# Ordered mappings

An ordered mapping is built by setting one entry after another, and a later entry for a key replaces
an earlier one. Looked up by key it is therefore the list of settings read from its end.
-/

namespace Schemata

variable {α : Type}

def lastValue? (key : String) (pairs : List (String × α)) : Option α :=
  (pairs.reverse.find? fun pair => pair.1 == key).map Prod.snd

@[simp] theorem lastValue?_nil (key : String) : lastValue? key ([] : List (String × α)) = none :=
  rfl

theorem lastValue?_append (key : String) (front back : List (String × α)) :
    lastValue? key (front ++ back) = (lastValue? key back).or (lastValue? key front) := by
  simp [lastValue?, List.find?_append, Option.map_or]

theorem lastValue?_cons (key : String) (pair : String × α) (rest : List (String × α)) :
    lastValue? key (pair :: rest) =
      (lastValue? key rest).or (if pair.1 = key then some pair.2 else none) := by
  rw [← List.singleton_append, lastValue?_append]
  congr 1
  by_cases h : pair.1 = key <;> simp [lastValue?, h]

theorem lastValue?_singleton (key : String) (pair : String × α) :
    lastValue? key [pair] = if pair.1 = key then some pair.2 else none := by
  rw [lastValue?_cons, lastValue?_nil, Option.none_or]

theorem mem_of_lastValue? {key : String} {pairs : List (String × α)} {value : α}
    (h : lastValue? key pairs = some value) : (key, value) ∈ pairs := by
  obtain ⟨pair, hfind, rfl⟩ := Option.map_eq_some_iff.1 h
  have hkey : pair.1 = key := by simpa using List.find?_some hfind
  rw [← hkey]
  exact List.mem_reverse.1 (List.mem_of_find?_eq_some hfind)

theorem lastValue?_eq_none_iff {key : String} {pairs : List (String × α)} :
    lastValue? key pairs = none ↔ ∀ pair ∈ pairs, pair.1 ≠ key := by
  simp [lastValue?]

/-- Where each key is given once, what it is given is its last value. -/
theorem lastValue?_of_mem {key : String} {value : α} {pairs : List (String × α)}
    (hnodup : (pairs.map Prod.fst).Nodup) (h : (key, value) ∈ pairs) :
    lastValue? key pairs = some value := by
  induction pairs with
  | nil => cases h
  | cons pair rest ih =>
    rw [List.map_cons, List.nodup_cons] at hnodup
    rw [lastValue?_cons]
    rcases List.mem_cons.1 h with rfl | h
    · have hrest : lastValue? key rest = none :=
        lastValue?_eq_none_iff.2 fun other hother heq =>
          hnodup.1 (List.mem_map.2 ⟨other, hother, heq⟩)
      simp [hrest]
    · rw [ih hnodup.2 h, Option.some_or]

/-- Entries of other keys have no part in the value of a key. -/
theorem lastValue?_filter {key : String} {p : String → Bool} (hkey : p key = true)
    (pairs : List (String × α)) :
    lastValue? key (pairs.filter fun pair => p pair.1) = lastValue? key pairs := by
  induction pairs with
  | nil => rfl
  | cons pair rest ih =>
    rw [List.filter_cons, lastValue?_cons]
    split
    · rw [lastValue?_cons, ih]
    · rename_i hother
      have hne : pair.1 ≠ key := by
        rintro rfl
        exact hother hkey
      rw [ih, if_neg hne, Option.or_none]

/-- Where each key is given once, the order does not matter. -/
theorem lastValue?_perm {pairs other : List (String × α)} (hnodup : (pairs.map Prod.fst).Nodup)
    (hperm : other.Perm pairs) (key : String) : lastValue? key other = lastValue? key pairs := by
  cases hvalue : lastValue? key pairs with
  | none =>
    rw [lastValue?_eq_none_iff] at hvalue ⊢
    exact fun pair hpair => hvalue pair (hperm.mem_iff.1 hpair)
  | some value =>
    refine lastValue?_of_mem ?_ (hperm.mem_iff.2 (mem_of_lastValue? hvalue))
    exact (hperm.map Prod.fst).nodup_iff.2 hnodup

theorem mem_of_valueAt? {key : String} {value : α} {entries : List (String × α)}
    (h : valueAt? key entries = some value) : (key, value) ∈ entries := by
  induction entries with
  | nil => cases h
  | cons entry rest ih =>
    rw [valueAt?] at h
    split at h
    · rename_i hkey
      cases h
      rw [← hkey]
      exact List.mem_cons_self
    · exact List.mem_cons_of_mem _ (ih h)

theorem valueAt?_of_not_mem {key : String} {entries : List (String × α)}
    (h : key ∉ entries.map Prod.fst) : valueAt? key entries = none := by
  cases hvalue : valueAt? key entries with
  | none => rfl
  | some value => exact absurd (List.mem_map.2 ⟨_, mem_of_valueAt? hvalue, rfl⟩) h

theorem mem_keys_setEntry {key other : String} {value : α} {entries : List (String × α)} :
    other ∈ (setEntry key value entries).map Prod.fst ↔
      other = key ∨ other ∈ entries.map Prod.fst := by
  induction entries with
  | nil => simp [setEntry]
  | cons entry rest ih =>
    rw [setEntry]
    split
    · rename_i hkey
      simp [hkey]
    · simp only [List.map_cons, List.mem_cons, ih]
      exact or_left_comm

/-- Each key stands once. -/
theorem nodup_setEntry (key : String) (value : α) {entries : List (String × α)}
    (h : (entries.map Prod.fst).Nodup) : ((setEntry key value entries).map Prod.fst).Nodup := by
  induction entries with
  | nil => simp [setEntry]
  | cons entry rest ih =>
    rw [List.map_cons, List.nodup_cons] at h
    rw [setEntry]
    split
    · rename_i hkey
      rw [List.map_cons, List.nodup_cons, ← hkey]
      exact h
    · rename_i hkey
      rw [List.map_cons, List.nodup_cons, mem_keys_setEntry]
      exact ⟨fun hmem => hmem.elim hkey h.1, ih h.2⟩

theorem keys_setEntry (key : String) (value : α) (entries : List (String × α)) :
    (setEntry key value entries).map Prod.fst =
      if key ∈ entries.map Prod.fst then entries.map Prod.fst
      else entries.map Prod.fst ++ [key] := by
  induction entries with
  | nil => simp [setEntry]
  | cons entry rest ih =>
    obtain ⟨k, v⟩ := entry
    by_cases hkey : k = key
    · simp [setEntry, hkey]
    · by_cases hmem : key ∈ rest.map Prod.fst
      · simp only [setEntry, if_neg hkey, List.map_cons, ih, if_pos hmem, List.mem_cons,
          Ne.symm hkey, false_or]
      · simp only [setEntry, if_neg hkey, List.map_cons, ih, if_neg hmem, List.mem_cons,
          Ne.symm hkey, false_or, List.cons_append]

theorem valueAt?_setEntry (key other : String) (value : α) (entries : List (String × α)) :
    valueAt? other (setEntry key value entries) =
      (if key = other then some value else none).or (valueAt? other entries) := by
  by_cases h : key = other
  · subst h
    simp
  · simp [valueAt?_setEntry_of_ne value entries (Ne.symm h), h]

/-- Setting entries in order: the last setting of a key counts, before what was there. -/
theorem valueAt?_foldl_setEntry (key : String) (pairs entries : List (String × α)) :
    valueAt? key (pairs.foldl (fun entries pair => setEntry pair.1 pair.2 entries) entries) =
      (lastValue? key pairs).or (valueAt? key entries) := by
  induction pairs generalizing entries with
  | nil => simp
  | cons pair rest ih =>
    rw [List.foldl_cons, ih, valueAt?_setEntry, lastValue?_cons, Option.or_assoc]

theorem valueAt?_entriesOf (key : String) (pairs : List (String × α)) :
    valueAt? key (entriesOf pairs) = lastValue? key pairs := by
  rw [entriesOf, valueAt?_foldl_setEntry]
  simp [valueAt?]

/-! ### Setting several entries -/

theorem setEntry_of_not_mem {key : String} (value : α) {entries : List (String × α)}
    (h : key ∉ entries.map Prod.fst) : setEntry key value entries = entries ++ [(key, value)] := by
  induction entries with
  | nil => rfl
  | cons entry rest ih =>
    rw [List.map_cons, List.mem_cons, not_or] at h
    rw [setEntry, if_neg (Ne.symm h.1), ih h.2, List.cons_append]

/-- Setting a known key changes its value and nothing else. -/
theorem setEntry_of_mem {key : String} (value : α) {entries : List (String × α)}
    (hnodup : (entries.map Prod.fst).Nodup) (h : key ∈ entries.map Prod.fst) :
    setEntry key value entries =
      entries.map fun entry => if entry.1 = key then (key, value) else entry := by
  induction entries with
  | nil => cases h
  | cons entry rest ih =>
    rw [List.map_cons, List.nodup_cons] at hnodup
    rw [setEntry, List.map_cons]
    by_cases hkey : entry.1 = key
    · have hrest : ∀ other ∈ rest, other.1 ≠ key := by
        rintro other hother heq
        exact hnodup.1 (List.mem_map.2 ⟨other, hother, heq.trans hkey.symm⟩)
      rw [if_pos hkey, if_pos hkey,
        List.map_congr_left fun other hother => if_neg (hrest other hother), List.map_id']
    · rw [List.map_cons, List.mem_cons] at h
      rw [if_neg hkey, if_neg hkey, ih hnodup.2 (h.resolve_left (Ne.symm hkey))]

theorem setEntry_setEntry (key : String) (first second : α) (entries : List (String × α)) :
    setEntry key second (setEntry key first entries) = setEntry key second entries := by
  induction entries with
  | nil => simp [setEntry]
  | cons entry rest ih =>
    obtain ⟨k, v⟩ := entry
    by_cases hkey : k = key <;> simp [setEntry, hkey, ih]

/-- A known key may be set before or after another one: it keeps its place. -/
theorem setEntry_comm {key other : String} (hne : key ≠ other) (value first : α)
    {entries : List (String × α)} (h : key ∈ entries.map Prod.fst) :
    setEntry key value (setEntry other first entries) =
      setEntry other first (setEntry key value entries) := by
  induction entries with
  | nil => cases h
  | cons entry rest ih =>
    obtain ⟨k, v⟩ := entry
    by_cases hkey : k = key
    · simp [setEntry, hkey, hne]
    · have hrest : key ∈ rest.map Prod.fst := by
        rw [List.map_cons, List.mem_cons] at h
        exact h.resolve_left (Ne.symm hkey)
      by_cases hother : k = other
      · simp [setEntry, hother, Ne.symm hne]
      · simp [setEntry, hkey, hother, ih hrest]

def setEntries (pairs entries : List (String × α)) : List (String × α) :=
  pairs.foldl (fun entries pair => setEntry pair.1 pair.2 entries) entries

@[simp] theorem setEntries_nil (entries : List (String × α)) :
    setEntries [] entries = entries := rfl

theorem setEntries_cons (pair : String × α) (pairs entries : List (String × α)) :
    setEntries (pair :: pairs) entries = setEntries pairs (setEntry pair.1 pair.2 entries) := rfl

theorem nodup_setEntries (pairs : List (String × α)) {entries : List (String × α)}
    (h : (entries.map Prod.fst).Nodup) : ((setEntries pairs entries).map Prod.fst).Nodup := by
  induction pairs generalizing entries with
  | nil => exact h
  | cons pair pairs ih => exact ih (nodup_setEntry pair.1 pair.2 h)

/-- What holds of a value that is set and of all values before it still holds of all. -/
theorem forall_mem_setEntry {p : α → Prop} {key : String} {value : α} (hvalue : p value)
    {entries : List (String × α)} (h : ∀ entry ∈ entries, p entry.2) :
    ∀ entry ∈ setEntry key value entries, p entry.2 := by
  induction entries with
  | nil => simpa [setEntry] using hvalue
  | cons entry rest ih =>
    rw [List.forall_mem_cons] at h
    rw [setEntry]
    split
    · exact List.forall_mem_cons.2 ⟨hvalue, h.2⟩
    · exact List.forall_mem_cons.2 ⟨h.1, ih h.2⟩

theorem forall_mem_setEntries {p : α → Prop} {pairs entries : List (String × α)}
    (hpairs : ∀ pair ∈ pairs, p pair.2) (h : ∀ entry ∈ entries, p entry.2) :
    ∀ entry ∈ setEntries pairs entries, p entry.2 := by
  induction pairs generalizing entries with
  | nil => exact h
  | cons pair pairs ih =>
    rw [List.forall_mem_cons] at hpairs
    exact ih hpairs.2 (forall_mem_setEntry hpairs.1 h)

private theorem setEntries_setEntry_of_mem {key : String} (value : α)
    {pairs entries : List (String × α)} (hpairs : key ∉ pairs.map Prod.fst)
    (h : key ∈ entries.map Prod.fst) :
    setEntries pairs (setEntry key value entries) =
      setEntry key value (setEntries pairs entries) := by
  induction pairs generalizing entries with
  | nil => rfl
  | cons pair pairs ih =>
    rw [List.map_cons, List.mem_cons, not_or] at hpairs
    rw [setEntries_cons, setEntries_cons, ← setEntry_comm hpairs.1 value pair.2 h]
    exact ih hpairs.2 (mem_keys_setEntry.2 (Or.inr h))

/-- One more setting after all others may as well be made among them. -/
theorem setEntries_setEntry {key : String} (value : α) {pairs : List (String × α)}
    (hpairs : (pairs.map Prod.fst).Nodup) (entries : List (String × α)) :
    setEntries (setEntry key value pairs) entries =
      setEntry key value (setEntries pairs entries) := by
  induction pairs generalizing entries with
  | nil => rfl
  | cons pair pairs ih =>
    rw [List.map_cons, List.nodup_cons] at hpairs
    rw [setEntry]
    split
    · rename_i hkey
      -- the key keeps the place that its first setting gave it
      rw [setEntries_cons, setEntries_cons, ← setEntries_setEntry_of_mem value (hkey ▸ hpairs.1)
        (mem_keys_setEntry.2 (Or.inl hkey.symm)), hkey, setEntry_setEntry]
    · rw [setEntries_cons, setEntries_cons]
      exact ih hpairs.2 (setEntry pair.1 pair.2 entries)

/-- Setting some entries and then others sets the former updated by the latter. -/
theorem setEntries_setEntries {first : List (String × α)} (h : (first.map Prod.fst).Nodup)
    (second entries : List (String × α)) :
    setEntries second (setEntries first entries) =
      setEntries (setEntries second first) entries := by
  induction second generalizing first with
  | nil => rfl
  | cons pair second ih =>
    rw [setEntries_cons, setEntries_cons, ← ih (nodup_setEntry pair.1 pair.2 h),
      setEntries_setEntry pair.2 h]

/-! ### Entries from pairs -/

/-- Each key at the place of its first occurrence, with its last value. -/
def lastSettings (pairs : List (String × α)) : List (String × α) :=
  (pairs.map Prod.fst).eraseDups.filterMap fun key =>
    (lastValue? key pairs).map fun value => (key, value)

/-- A mapping is the list of its keys with their values. -/
theorem filterMap_valueAt? {entries : List (String × α)} (h : (entries.map Prod.fst).Nodup) :
    ((entries.map Prod.fst).filterMap fun key =>
      (valueAt? key entries).map fun value => (key, value)) = entries := by
  induction entries with
  | nil => rfl
  | cons entry rest ih =>
    obtain ⟨key, value⟩ := entry
    rw [List.map_cons, List.nodup_cons] at h
    have hrest : ∀ other ∈ rest.map Prod.fst,
        ((valueAt? other ((key, value) :: rest)).map fun value => (other, value)) =
          (valueAt? other rest).map fun value => (other, value) := by
      intro other hother
      have hne : key ≠ other := by
        rintro rfl
        exact h.1 hother
      rw [valueAt?, if_neg hne]
    rw [List.map_cons, List.filterMap_cons, List.filterMap_congr hrest, ih h.2]
    simp [valueAt?]

theorem keys_entriesOf (pairs : List (String × α)) :
    (entriesOf pairs).map Prod.fst = (pairs.map Prod.fst).eraseDups := by
  induction pairs using List.reverseRecOn with
  | nil => rfl
  | append_singleton pairs pair ih =>
    have hstep : entriesOf (pairs ++ [pair]) = setEntry pair.1 pair.2 (entriesOf pairs) := by
      rw [entriesOf, List.foldl_append]
      rfl
    rw [hstep, keys_setEntry, ih, List.map_append, List.eraseDups_append]
    by_cases hmem : pair.1 ∈ pairs.map Prod.fst <;>
      simp [hmem, List.removeAll, List.mem_eraseDups, List.eraseDups_cons]

theorem entriesOf_eq_lastSettings (pairs : List (String × α)) :
    entriesOf pairs = lastSettings pairs := by
  have hnodup : ((entriesOf pairs).map Prod.fst).Nodup := nodup_setEntries pairs List.nodup_nil
  rw [lastSettings, ← keys_entriesOf]
  simp only [← valueAt?_entriesOf]
  exact (filterMap_valueAt? hnodup).symm

end Schemata
