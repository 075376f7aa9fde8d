import Schemata.Derive.Report

/-!
# Judgements on reports

A derivation is a long chain of small reports, so what is proved of it has to be closed under
sequencing. A judgement is about the events and the value of a report at once: as long as nothing
but benign events happens, every event is as assured and the value meets its condition. With all
events benign it says what a report can emit at all; with diagnostics left out it says what a run
without diagnostics gives.
-/

namespace Schemata

namespace Report

variable {α β : Type}

@[simp] theorem events_pure (a : α) : (pure a : Report α).events = [] := rfl

@[simp] theorem result_pure (a : α) : (pure a : Report α).result = .ok a := rfl

@[simp] theorem events_emit (event : Event) : (emit event).events = [event] := rfl

@[simp] theorem result_emit (event : Event) : (emit event).result = .ok () := rfl

@[simp] theorem events_fault (cause : Fault) : (fault cause : Report α).events = [] := rfl

@[simp] theorem result_fault (cause : Fault) : (fault cause : Report α).result = .error cause := rfl

theorem events_bind_of_ok {x : Report α} {a : α} (h : x.result = .ok a) (f : α → Report β) :
    (x >>= f).events = x.events ++ (f a).events := by
  simp [Bind.bind, Report.bind, h]

theorem result_bind_of_ok {x : Report α} {a : α} (h : x.result = .ok a) (f : α → Report β) :
    (x >>= f).result = (f a).result := by
  simp [Bind.bind, Report.bind, h]

theorem events_bind_of_error {x : Report α} {cause : Fault} (h : x.result = .error cause)
    (f : α → Report β) : (x >>= f).events = x.events := by
  simp [Bind.bind, Report.bind, h]

theorem result_bind_of_error {x : Report α} {cause : Fault} (h : x.result = .error cause)
    (f : α → Report β) : (x >>= f).result = .error cause := by
  simp [Bind.bind, Report.bind, h]

theorem events_subset_bind (x : Report α) (f : α → Report β) : x.events ⊆ (x >>= f).events := by
  cases h : x.result with
  | error cause =>
    rw [events_bind_of_error h]
    exact List.Subset.refl _
  | ok a =>
    rw [events_bind_of_ok h]
    exact List.subset_append_left _ _

/-- A sequence has a value exactly if both of its reports have one. -/
theorem result_bind_eq_ok {x : Report α} {f : α → Report β} {b : β} :
    (x >>= f).result = .ok b ↔ ∃ a, x.result = .ok a ∧ (f a).result = .ok b := by
  cases h : x.result with
  | error cause => simp [result_bind_of_error h]
  | ok a => simp [result_bind_of_ok h]

end Report

/-- Which events may be taken for granted, and what is to be shown of every event then. -/
structure Judgement where
  benign : Event → Prop
  assured : Event → Prop

namespace Judgement

variable {α β : Type}

/-- As long as all events are benign, they are all assured and the value is good. -/
def holds (J : Judgement) (good : α → Prop) (x : Report α) : Prop :=
  (∀ event ∈ x.events, J.benign event) →
    (∀ event ∈ x.events, J.assured event) ∧ ∀ a, x.result = .ok a → good a

variable (J : Judgement)

theorem ofPure {good : α → Prop} {a : α} (h : good a) : J.holds good (pure a) := by
  intro _
  refine ⟨by simp, ?_⟩
  rintro _ ⟨⟩
  exact h

theorem ofFault {good : α → Prop} (cause : Fault) :
    J.holds good (Report.fault cause : Report α) := by
  intro _
  exact ⟨by simp, by simp⟩

theorem ofEmit {event : Event} (h : J.benign event → J.assured event) :
    J.holds (fun _ => J.benign event) (Report.emit event) := by
  intro hbenign
  have hevent : J.benign event := hbenign event (by simp)
  exact ⟨by simpa using h hevent, fun _ _ => hevent⟩

/-- One report after another: the second may rely on the value of the first. -/
theorem ofBind {good : α → Prop} {next : β → Prop} {x : Report α} {f : α → Report β}
    (hx : J.holds good x) (hf : ∀ a, good a → J.holds next (f a)) : J.holds next (x >>= f) := by
  intro hbenign
  have hfirst : ∀ event ∈ x.events, J.benign event :=
    fun event h => hbenign event (Report.events_subset_bind x f h)
  obtain ⟨hassured, hgood⟩ := hx hfirst
  cases h : x.result with
  | error cause =>
    rw [Report.events_bind_of_error h, Report.result_bind_of_error h]
    exact ⟨hassured, by simp⟩
  | ok a =>
    rw [Report.events_bind_of_ok h, List.forall_mem_append] at hbenign
    obtain ⟨hassured', hnext⟩ := hf a (hgood a h) hbenign.2
    rw [Report.events_bind_of_ok h, Report.result_bind_of_ok h]
    exact ⟨List.forall_mem_append.2 ⟨hassured, hassured'⟩, hnext⟩

/-- A look-up that must succeed says nothing about what it finds. -/
theorem holds_require (cause : Fault) (found : Option α) :
    J.holds (fun _ => True) (Report.require cause found) := by
  cases found with
  | none => exact J.ofFault cause
  | some a => exact J.ofPure trivial

theorem holds_map {good : α → Prop} {next : β → Prop} {x : Report α} {f : α → β}
    (hx : J.holds good x) (hf : ∀ a, good a → next (f a)) : J.holds next (f <$> x) := by
  rw [map_eq_pure_bind]
  exact J.ofBind hx fun a ha => J.ofPure (hf a ha)

/-- One report for each element: if all of them are judged good, so is the list of their values. -/
theorem holds_mapM {good : β → Prop} {f : α → Report β} (xs : List α)
    (hf : ∀ x ∈ xs, J.holds good (f x)) :
    J.holds (fun ys => ∀ y ∈ ys, good y) (xs.mapM f) := by
  induction xs with
  | nil => exact J.ofPure (by simp)
  | cons x rest ih =>
    rw [List.mapM_cons]
    refine J.ofBind (hf x List.mem_cons_self) fun y hy => ?_
    refine J.ofBind (ih fun z hz => hf z (List.mem_cons_of_mem x hz)) fun ys hys => ?_
    exact J.ofPure (List.forall_mem_cons.2 ⟨hy, hys⟩)

end Judgement

end Schemata
