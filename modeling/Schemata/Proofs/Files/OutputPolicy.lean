import Schemata.Pipeline
import Schemata.Proofs.Files.AtomicWrite
import Schemata.Proofs.Session

/-!
# The policy of the output file

Generated code goes to its file on one of two ways. Written atomically it replaces a file only in
force mode, and only if it can be read where that is asked for. Written in place it is never read,
and a file is only kept if the mode says so in words: a mode that is no text is none of the known
modes, and does not keep it.

On either way the target is the only file that can change. A failure changes none, unless the file
is written in place and its content does not get there.
-/

namespace Schemata

open Run

/-! ### Writing in place -/

theorem Store.write_eq_ok {store written : Store} {path : Path} {content : String}
    (h : store.write path content = .ok written) :
    store.resolve path = .ok path.place ∧ store.get? path.place ≠ some .directory ∧
      written = store.put path.place (.file content) := by
  rw [write] at h
  cases hresolve : store.resolve path with
  | error error =>
    rw [hresolve] at h
    cases h
  | ok place =>
    obtain ⟨rfl, -⟩ := resolve_eq_ok.1 hresolve
    simp only [hresolve, bind, Except.bind] at h
    split at h
    · cases h
    · rename_i hfile
      cases h
      exact ⟨rfl, hfile, rfl⟩

theorem Store.write_of_resolve {store : Store} {path : Path}
    (hpath : store.resolve path = .ok path.place)
    (hfile : store.get? path.place ≠ some .directory) (content : String) :
    store.write path content = .ok (store.put path.place (.file content)) := by
  simp only [write, hpath, bind, Except.bind]
  rfl

/-- How much of some content a file takes that is written in place and does not take all of it:
nothing if the content cannot be encoded, and otherwise what it holds when the system gives up. -/
inductive CutShort (hazards : Hazards) (content : Content) : String → Prop where
  | unencodable (h : content.encodable = false) : CutShort hazards content ""
  | refused {error : FileError} {part : String} (h : hazards.fillFile = some (error, part)) :
      CutShort hazards content part

/-- Writing in place either does nothing, or puts some text at the target: the content, or what got
there of it. -/
theorem plainWrite_cases {ε : Type} (hazards : Hazards) (store : Store) (path : Path)
    (content : Content) :
    (∃ error : WriteFailure ε, plainWrite hazards store path content = (.error error, store)) ∨
      store.resolve path = .ok path.place ∧ store.get? path.place ≠ some .directory ∧
        (plainWrite (ε := ε) hazards store path content =
            (.ok (), store.put path.place (.file content.text)) ∧ content.encodable = true ∨
          ∃ (error : WriteFailure ε) (part : String), CutShort hazards content part ∧
            plainWrite hazards store path content =
              (.error error, store.put path.place (.file part))) := by
  rw [plainWrite]
  cases hopen : guarded hazards.openFile (store.write path content.text) with
  | error error => exact .inl ⟨.file error path, rfl⟩
  | ok written =>
    obtain ⟨hpath, hfile, rfl⟩ := Store.write_eq_ok (guarded_eq_ok.1 hopen).2
    have hpart (part : String) :
        (store.write path part).toOption.getD store = store.put path.place (.file part) := by
      rw [Store.write_of_resolve hpath hfile]
      rfl
    simp only [hpart]
    refine .inr ⟨hpath, hfile, ?_⟩
    cases hencodable : content.encodable with
    | false => exact .inr ⟨.unencodable, "", .unencodable hencodable, rfl⟩
    | true =>
      cases hfill : hazards.fillFile with
      | none => exact .inl ⟨rfl, rfl⟩
      | some refusal =>
        obtain ⟨error, part⟩ := refusal
        exact .inr ⟨.file error path, part, .refused hfill, rfl⟩

/-! ### What a write does to the session -/

theorem on_writeAtomically (session : Session) (onlyNew validate : Bool) (path : Path)
    (code : String) (encodable : Bool) :
    ∃ result reader,
      on session (writeAtomically onlyNew validate path code encodable) =
        (result, { session with
          files :=
            ((codeRequest session onlyNew validate path ⟨code, encodable⟩).perform session.files).2
          reader := reader }) ∧
      (result = .ok () ↔
        ((codeRequest session onlyNew validate path ⟨code, encodable⟩).perform session.files).1 =
          .ok ()) := by
  rw [writeAtomically, on_get_bind]
  cases (codeRequest session onlyNew validate path ⟨code, encodable⟩).perform session.files with
  | mk outcome files =>
    simp only [on_set_bind]
    cases outcome with
    | ok => exact ⟨_, _, rfl, by simp⟩
    | error failure => cases failure <;> exact ⟨_, _, rfl, by simp⟩

def OutputConfig.request (output : OutputConfig) (session : Session) (path : Path)
    (content : Content) : WriteRequest SourceError :=
  codeRequest session (!output.mode.isMode .force) output.validate.truthy path content

section Output

variable {config : Config} {output : OutputConfig}

theorem on_writeOutput_atomic (hconfig : config.output = .group output)
    (hatomic : output.atomic.truthy = true) (session : Session) (content : Content) (path : Path) :
    ∃ result after,
      on session (writeOutput config content.text path content.encodable) = (result, after) ∧
      after.files = ((output.request session path content).perform session.files).2 ∧
      (result = .ok () ↔
        ((output.request session path content).perform session.files).1 = .ok ()) := by
  obtain ⟨result, reader, hwrite, hresult⟩ := on_writeAtomically session
    (!output.mode.isMode .force) output.validate.truthy path content.text content.encodable
  rw [OutputConfig.request]
  simp only [writeOutput, hconfig, hatomic, if_true, on_bind, hwrite]
  cases result with
  | error failure => exact ⟨_, _, rfl, rfl, hresult⟩
  | ok => exact ⟨_, _, rfl, rfl, by simpa using hresult⟩

theorem on_writeOutput_plain (hconfig : config.output = .group output)
    (hatomic : output.atomic.truthy = false) (session : Session) (content : Content)
    (path : Path) :
    output.mode.isMode .errorIfExists = true ∧ session.files.contains path = true ∧
        on session (writeOutput config content.text path content.encodable) =
          (.error (.outputExists path.text), session) ∨
      (output.mode.isMode .errorIfExists = true → session.files.contains path = false) ∧
        on session (writeOutput config content.text path content.encodable) =
          ((plainWrite session.hazards session.files path content).1.mapError
            (WriteFailure.failure path),
          { session with
            files :=
              (plainWrite (ε := SourceError) session.hazards session.files path content).2 }) := by
  simp only [writeOutput, hconfig, hatomic]
  cases hkeep : output.mode.isMode .errorIfExists && session.files.contains path with
  | true =>
    obtain ⟨hmode, hcontains⟩ := Bool.and_eq_true_iff.1 hkeep
    refine .inl ⟨hmode, hcontains, ?_⟩
    rw [if_neg (by simp), on_get_bind, hkeep]
    rfl
  | false =>
    refine .inr ⟨by simpa using hkeep, ?_⟩
    rw [if_neg (by simp), on_get_bind, hkeep]
    exact on_ofExcept _ _ _

/-- What is left of a write in place whose content did not get there. -/
structure Spoiled (config : Config) (hazards : Hazards) (path : Path) (content : Content)
    (before after : Store) : Prop where
  inPlace : ∃ output, config.output = .group output ∧ output.atomic.truthy = false
  cutShort : ∃ part, CutShort hazards content part ∧ before.Writes after path part

/-- Writing the output leaves the code at its target, or it fails. -/
theorem writeOutput_cases (config : Config) (session : Session) (content : Content) (path : Path) :
    (∃ after,
      on session (writeOutput config content.text path content.encodable) = (.ok (), after) ∧
      content.encodable = true ∧ session.files.Writes after.files path content.text) ∨
    ∃ failure after,
      on session (writeOutput config content.text path content.encodable) =
        (.error failure, after) ∧
      (session.files.SameFiles after.files ∨
        Spoiled config session.hazards path content session.files after.files) := by
  cases hconfig : config.output with
  | other value =>
    exact .inr ⟨.config .notAGroup, session, by simp only [writeOutput, hconfig, on_fail],
      .inl (.refl _)⟩
  | group output =>
  cases hatomic : output.atomic.truthy with
  | true =>
    obtain ⟨result, after, hwrite, hfiles, hresult⟩ :=
      on_writeOutput_atomic hconfig hatomic session content path
    have hall := allOrNothing_perform (output.request session path content) session.files
    rw [← hfiles] at hall
    cases result with
    | ok =>
      have hok := hresult.1 rfl
      exact .inl ⟨after, hwrite, hall.encoded hok, hall.written hok⟩
    | error failure =>
      refine .inr ⟨failure, after, hwrite, .inl ?_⟩
      match houtcome : ((output.request session path content).perform session.files).1 with
      | .ok () => cases hresult.2 houtcome
      | .error why => exact hall.unchanged why houtcome
  | false =>
    rcases on_writeOutput_plain hconfig hatomic session content path with
      ⟨-, -, hwrite⟩ | ⟨-, hwrite⟩
    · exact .inr ⟨_, _, hwrite, .inl (.refl _)⟩
    rw [hwrite]
    rcases plainWrite_cases (ε := SourceError) session.hazards session.files path content with
      ⟨error, hplain⟩ | ⟨hpath, hfile, ⟨hplain, hencodable⟩ | ⟨error, part, hpart, hplain⟩⟩
    · exact .inr ⟨_, _, by rw [hplain]; rfl, .inl (.refl _)⟩
    · exact .inl ⟨_, by rw [hplain]; rfl, hencodable, Store.writes_put hpath hfile content.text⟩
    · exact .inr ⟨_, _, by rw [hplain]; rfl,
        .inr ⟨⟨output, hconfig, hatomic⟩, part, hpart, Store.writes_put hpath hfile part⟩⟩

/-! ### What lets a file change -/

/-- What must hold for the output file to change. -/
structure MayChange (session : Session) (output : OutputConfig) (path : Path) (code : String) :
    Prop where
  /-- Something may be replaced in force mode. Otherwise the path led nowhere, which means that the
  file was not there unless the path goes back on its way. Written in place, a file is not kept by a
  mode that is no text. -/
  mode : output.mode.isMode .force = true ∨
    session.files.contains path = false ∧ (session.files.Rooted → ".." ∉ path.components →
      session.files.get? path.place = none) ∨
    output.atomic.truthy = false ∧ ∃ value, output.mode = .other value
  /-- The code can be read, unless nobody asks or it is written in place. -/
  readable : output.validate.truthy = false ∨
    (∃ root, (session.read code).1 = .ok root) ∨ output.atomic.truthy = false

theorem isMode_cases (mode : Setting OutputMode) :
    mode.isMode .force = true ∨ mode.isMode .errorIfExists = true ∨ ∃ value, mode = .other value := by
  cases mode with
  | other value => exact .inr (.inr ⟨value, rfl⟩)
  | group mode => cases mode <;> simp [Setting.isMode]

theorem checkCode_eq_ok {session : Session} {code : String} (h : checkCode session code = .ok ()) :
    ∃ root, (session.read code).1 = .ok root := by
  unfold checkCode at h
  cases hread : (session.read code).1 with
  | ok root => exact ⟨root, rfl⟩
  | error error => simp [hread, Except.map] at h

theorem mayChange_of_perform {session : Session} {path : Path} {content : Content}
    (h : ¬ session.files.SameFiles ((output.request session path content).perform session.files).2) :
    MayChange session output path content.text := by
  have hall := allOrNothing_perform (output.request session path content) session.files
  have hok : ((output.request session path content).perform session.files).1 = .ok () := by
    cases houtcome : ((output.request session path content).perform session.files).1 with
    | ok => rfl
    | error failure => exact absurd (hall.unchanged failure houtcome) h
  constructor
  · cases hforce : output.mode.isMode .force with
    | true => exact .inl rfl
    | false =>
      refine .inr (.inl ?_)
      cases hcontains : session.files.contains path with
      | false => exact ⟨rfl, fun hroot hback =>
          Store.get?_place_of_not_contains hroot hback hcontains⟩
      | true =>
        have hnew : (output.request session path content).onlyNew = true := by
          simp [OutputConfig.request, codeRequest, hforce]
        rw [(hall.refused hnew hcontains).1] at hok
        cases hok
  · cases hvalidate : output.validate.truthy with
    | false => exact .inl rfl
    | true => exact .inr (.inl (checkCode_eq_ok (hall.accepted hok hvalidate)))

theorem mayChange_of_plain {session : Session} {path : Path} (code : String)
    (hatomic : output.atomic.truthy = false)
    (hmode : output.mode.isMode .errorIfExists = true → session.files.contains path = false) :
    MayChange session output path code := by
  refine ⟨?_, .inr (.inr hatomic)⟩
  rcases isMode_cases output.mode with hforce | herror | hother
  · exact .inl hforce
  · exact .inr (.inl ⟨hmode herror, fun hroot hback =>
      Store.get?_place_of_not_contains hroot hback (hmode herror)⟩)
  · exact .inr (.inr ⟨hatomic, hother⟩)

theorem plainWrite_others {ε : Type} (hazards : Hazards) (store : Store) (path : Path)
    (content : Content) {place : Place} (h : place ≠ path.place) :
    (plainWrite (ε := ε) hazards store path content).2.content? place = store.content? place := by
  rcases plainWrite_cases (ε := ε) hazards store path content with
    ⟨error, hplain⟩ | ⟨-, -, ⟨hplain, -⟩ | ⟨error, part, -, hplain⟩⟩
  · rw [hplain]
  · rw [hplain, Store.content?_put_of_ne h]
  · rw [hplain, Store.content?_put_of_ne h]

/-- Whatever comes of it, a write changes at most the target, and only where that is allowed. -/
theorem changed_writeOutput (hconfig : config.output = .group output) (session : Session)
    (content : Content) (path : Path) {place : Place}
    (h : (on session (writeOutput config content.text path content.encodable)).2.files.content?
      place ≠ session.files.content? place) :
    place = path.place ∧ MayChange session output path content.text := by
  cases hatomic : output.atomic.truthy with
  | true =>
    obtain ⟨result, after, hwrite, hfiles, -⟩ :=
      on_writeOutput_atomic hconfig hatomic session content path
    rw [hwrite, hfiles] at h
    refine ⟨?_, mayChange_of_perform fun hsame => h (hsame place)⟩
    have hall := allOrNothing_perform (output.request session path content) session.files
    by_cases hplace : place = path.place
    · exact hplace
    · match houtcome : ((output.request session path content).perform session.files).1 with
      | .ok () => exact absurd ((hall.written houtcome).others place hplace) h
      | .error failure => exact absurd (hall.unchanged failure houtcome place) h
  | false =>
    rcases on_writeOutput_plain hconfig hatomic session content path with
      ⟨-, -, hwrite⟩ | ⟨hmode, hwrite⟩
    · rw [hwrite] at h
      exact absurd rfl h
    · rw [hwrite] at h
      refine ⟨?_, mayChange_of_plain content.text hatomic hmode⟩
      by_cases hplace : place = path.place
      · exact hplace
      · exact absurd (plainWrite_others _ _ _ _ hplace) h

end Output

/-! ### Options read from an object -/

theorem Config.output_set {config next : Config} {name : String} {value : Json}
    (h : config.set name value = .ok next) :
    next.output = config.output ∨
      name = "output" ∧ ∀ entries, value = .obj entries → ∃ output, next.output = .group output := by
  unfold set at h
  split at h
  case h_2 entries =>
    refine .inr ⟨rfl, fun _ _ => ?_⟩
    cases houtput : OutputConfig.ofEntries entries with
    | error error =>
      rw [houtput] at h
      cases h
    | ok output =>
      rw [houtput] at h
      cases h
      exact ⟨output, rfl⟩
  case h_4 hobject =>
    exact .inr ⟨rfl, fun entries heq => (hobject entries heq).elim⟩
  case h_1 entries =>
    cases hformatter : FormatterConfig.ofEntries entries with
    | error error =>
      rw [hformatter] at h
      cases h
    | ok formatter =>
      rw [hformatter] at h
      cases h
      exact .inl rfl
  all_goals
    cases h
    exact .inl rfl

theorem Config.exists_group_of_foldlM {entries : List (String × Json)} {start config : Config}
    (hstart : ∃ output, start.output = .group output)
    (h : entries.foldlM (fun config (name, value) => config.set name value) start = .ok config)
    (houtput : ∀ value, ("output", value) ∈ entries → ∃ group, value = .obj group) :
    ∃ output, config.output = .group output := by
  induction entries generalizing start with
  | nil =>
    cases h
    exact hstart
  | cons entry rest ih =>
    obtain ⟨name, value⟩ := entry
    rw [List.foldlM_cons] at h
    simp only at h
    cases hset : start.set name value with
    | error error =>
      rw [hset] at h
      cases h
    | ok next =>
      rw [hset] at h
      refine ih ?_ h fun value hmem => houtput value (List.mem_cons_of_mem _ hmem)
      rcases output_set hset with hsame | ⟨rfl, hgroup⟩
      · rwa [hsame]
      · obtain ⟨group, rfl⟩ := houtput value List.mem_cons_self
        exact hgroup group rfl

/-- **The policy of the output.** With options from an object whose entry for the output is an object
or missing, a write that succeeds leaves the code at its target, and whatever comes of a write, no
other file changes, and the target only where that is allowed. -/
theorem output_policy {entries : List (String × Json)} {config : Config}
    (hread : Config.ofJson (.obj entries) = .ok config)
    (houtput : ∀ value, ("output", value) ∈ entries → ∃ group, value = .obj group)
    (session : Session) (code : String) (path : Path) (encodable : Bool) :
    ∃ output, config.output = .group output ∧
      ((on session (writeOutput config code path encodable)).1 = .ok () → session.files.Writes
        (on session (writeOutput config code path encodable)).2.files path code) ∧
      ∀ place, (on session (writeOutput config code path encodable)).2.files.content? place ≠
          session.files.content? place →
        place = path.place ∧ MayChange session output path code := by
  obtain ⟨output, hconfig⟩ := Config.exists_group_of_foldlM ⟨_, rfl⟩ hread houtput
  refine ⟨output, hconfig, fun hok => ?_, fun _ =>
    changed_writeOutput hconfig session ⟨code, encodable⟩ path⟩
  rcases writeOutput_cases config session ⟨code, encodable⟩ path with
    ⟨after, hwrite, -, hwrites⟩ | ⟨failure, after, hwrite, -⟩
  · rwa [hwrite]
  · rw [hwrite] at hok
    cases hok

def inPlaceEntries : List (String × Json) := [("output", .obj [("atomic_write", .bool false)])]

/-- A session without files in which no text can be read. -/
def unreadableSession : Session :=
  .fresh .empty (fun _ => some (.mk .error none 0 1 true false true [])) .plain .absent

def outPath : Path := ⟨false, ["out.ts"]⟩

theorem output_policy_unreadable :
    ∃ config, Config.ofJson (.obj inPlaceEntries) = .ok config ∧
      (∀ value, ("output", value) ∈ inPlaceEntries → ∃ group, value = .obj group) ∧
      (∀ root, (unreadableSession.read "(").1 ≠ .ok root) ∧
      unreadableSession.files.Writes
        (on unreadableSession (writeOutput config "(" outPath true)).2.files outPath "(" ∧
      ∃ output, config.output = .group output ∧
        MayChange unreadableSession output outPath "(" := by
  have hgroups : ∀ value, ("output", value) ∈ inPlaceEntries → ∃ group, value = .obj group := by
    simp [inPlaceEntries]
  have hread : Config.ofJson (.obj inPlaceEntries) = .ok _ := rfl
  obtain ⟨output, houtput, hwritten, hchanged⟩ :=
    output_policy hread hgroups unreadableSession "(" outPath true
  have hwrites := hwritten rfl
  refine ⟨_, hread, hgroups, fun root h => ?_, hwrites, output, houtput, ?_⟩
  · cases h
  · refine (hchanged outPath.place ?_).2
    rw [hwrites.content]
    decide

end Schemata
