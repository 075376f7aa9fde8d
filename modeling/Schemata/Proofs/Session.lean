import Schemata.Session

/-!
# Computations in a session

Running a computation gives a result or a failure, and the session after it. What a composed
computation does is read off its parts.
-/

namespace Schemata

/-- The session with more records in its log. -/
def Session.logging (session : Session) (records : List Log.Record) : Session :=
  { session with log := session.log ++ records }

@[simp] theorem Session.logging_logging (session : Session) (first second : List Log.Record) :
    (session.logging first).logging second = session.logging (first ++ second) := by
  simp [Session.logging]

namespace Run

variable {α β ε : Type}

/-- A computation run in a session: its result and the session after it. -/
def on (session : Session) (computation : Run α) : Except Failure α × Session :=
  StateT.run computation.run session

@[simp] theorem on_pure (session : Session) (a : α) :
    on session (pure a) = (.ok a, session) := rfl

theorem on_bind (session : Session) (first : Run α) (next : α → Run β) :
    on session (first >>= next) = match on session first with
      | (.ok a, after) => on after (next a)
      | (.error failure, after) => (.error failure, after) := by
  rw [on, on, ExceptT.run_bind]
  simp only [StateT.run_bind]
  cases StateT.run first.run session with
  | mk result after => cases result <;> rfl

theorem on_ofExcept (session : Session) (wrap : ε → Failure) (result : Except ε α) :
    on session (ofExcept wrap result) = (result.mapError wrap, session) := by
  cases result <;> rfl

@[simp] theorem on_ofExcept_ok (session : Session) (wrap : ε → Failure) (a : α) :
    on session (ofExcept wrap (.ok a)) = (.ok a, session) := rfl

@[simp] theorem on_fail (session : Session) (failure : Failure) :
    on session (fail failure : Run α) = (.error failure, session) := rfl

theorem on_get_bind (session : Session) (next : Session → Run β) :
    on session (get >>= next) = on session (next session) := rfl

theorem on_set_bind (session after : Session) (next : PUnit → Run β) :
    on session (set after >>= next) = on after (next ⟨⟩) := rfl

theorem on_tryCatch (session : Session) (computation : Run α) (handler : Failure → Run α) :
    on session (tryCatch computation handler) = match on session computation with
      | (.ok a, after) => (.ok a, after)
      | (.error failure, after) => on after (handler failure) := by
  change on session (ExceptT.tryCatch computation handler) = _
  cases hrun : on session computation with
  | mk result after =>
    change StateT.run computation session = (result, after) at hrun
    simp only [ExceptT.tryCatch, on, ExceptT.run_mk, StateT.run_bind, hrun]
    cases result <;> rfl

/-- A computation after which some view of the session is as before. -/
def Keeps {γ : Type} (view : Session → γ) (computation : Run α) : Prop :=
  ∀ session, view (on session computation).2 = view session

section Keeps

variable {γ : Type} {view : Session → γ}

theorem keeps_pure (a : α) : Keeps view (pure a : Run α) := fun _ => rfl

theorem keeps_fail (failure : Failure) : Keeps view (fail failure : Run α) := fun _ => rfl

theorem keeps_get : Keeps view (get : Run Session) := fun _ => rfl

theorem keeps_peek (computation : Run α) : Keeps view (peek computation) := fun _ => rfl

theorem keeps_ofExcept (wrap : ε → Failure) (result : Except ε α) :
    Keeps view (ofExcept wrap result) := by
  intro session
  rw [on_ofExcept]

theorem keeps_modify {change : Session → Session}
    (h : ∀ session, view (change session) = view session) :
    Keeps view (modify change : Run Unit) := fun session => h session

theorem Keeps.bind {first : Run α} {next : α → Run β} (hfirst : Keeps view first)
    (hnext : ∀ a, Keeps view (next a)) : Keeps view (first >>= next) := by
  intro session
  rw [on_bind]
  have hhere := hfirst session
  cases hrun : on session first with
  | mk result after =>
    rw [hrun] at hhere
    cases result with
    | error failure => exact hhere
    | ok a => exact (hnext a after).trans hhere

theorem keeps_ite {c : Prop} [Decidable c] {yes no : Run α} (hyes : Keeps view yes)
    (hno : Keeps view no) : Keeps view (if c then yes else no) := by
  split
  · exact hyes
  · exact hno

theorem keeps_forM {items : List β} {each : β → Run Unit} (h : ∀ item, Keeps view (each item)) :
    Keeps view (items.forM each) := by
  induction items with
  | nil => exact keeps_pure ()
  | cons item rest ih => exact (h item).bind fun _ => ih

theorem keeps_readFile (text : String) : Keeps view (readFile text) :=
  keeps_get.bind fun _ => keeps_ofExcept _ _

/-- A computation that leaves the session as it is. -/
theorem Keeps.on_eq {computation : Run α} (h : Keeps (fun session => session) computation)
    (session : Session) : on session computation = ((on session computation).1, session) :=
  Prod.ext rfl (h session)

end Keeps

/-- A computation that only adds records to the log. -/
def Logs (computation : Run Unit) : Prop :=
  ∀ session, ∃ records, on session computation = (.ok (), session.logging records)

theorem logs_log (level : Log.Level) (message : String) : Logs (log level message) :=
  fun _ => ⟨[⟨level, message⟩], rfl⟩

theorem logs_forM {items : List β} {each : β → Run Unit} (h : ∀ item ∈ items, Logs (each item)) :
    Logs (items.forM each) := by
  induction items with
  | nil =>
    intro session
    exact ⟨[], by simp [Session.logging]⟩
  | cons item rest ih =>
    intro session
    obtain ⟨records, hfirst⟩ := h item (by simp) session
    obtain ⟨more, hrest⟩ := ih (fun other hmem => h other (by simp [hmem]))
      (session.logging records)
    have hcons : (item :: rest).forM each = each item >>= fun _ => rest.forM each := rfl
    refine ⟨records ++ more, ?_⟩
    rw [hcons, on_bind, hfirst, ← Session.logging_logging]
    exact hrest

/-- What is logged first does not stop what follows. -/
theorem Logs.exists_on_bind {first : Run Unit} (h : Logs first) (session : Session)
    (next : Unit → Run β) :
    ∃ records, on session (first >>= next) = on (session.logging records) (next ()) := by
  obtain ⟨records, hfirst⟩ := h session
  exact ⟨records, by rw [on_bind, hfirst]⟩

end Run

end Schemata
