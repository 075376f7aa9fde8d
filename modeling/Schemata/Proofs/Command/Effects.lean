import Schemata.Command.Work
import Schemata.Proofs.Files.OutputPolicy
import Schemata.Text.Style

/-!
# What a run of the program leaves behind

Up to the moment at which the output is written a run only reads files, so wherever it stops before,
the files are as they were. The write is the last thing that it does, and nothing after it can fail.
A write is done or leaves the files alone, except that a file that is written in place may be cut
short. So a run that succeeds has printed its code, or has put it where it belongs, and a run that
fails has changed no file but such a one.
-/

namespace Schemata

open Run

/-! ### Generating code spares the files -/

/-- The files of a session, with what the system refuses. -/
def Session.disk (session : Session) : Store × Hazards := (session.files, session.hazards)

def Session.atStart (session : Session) : Session :=
  { session with formatterFound := none, log := [] }

theorem keeps_log (level : Log.Level) (message : String) :
    Keeps Session.disk (Run.log level message) :=
  keeps_modify fun _ => rfl

theorem keeps_readSource (text : String) : Keeps Session.disk (Run.readSource text) := by
  intro session
  rw [Run.readSource, on_get_bind]
  exact (keeps_ofExcept _ _ : Keeps Session.disk _) _

theorem keeps_call (words : List String) (input : Option String) (timeout : Nat) :
    Keeps Session.disk (Run.call words input timeout) := by
  intro session
  rw [Run.call, on_get_bind, on_set_bind]
  dsimp only
  generalize (if words.contains "--version" then session.processes.version
    else session.processes.run) = outcome
  split <;> rfl

theorem keeps_generate (library source : String) (libraryEncodable : Bool) :
    Keeps Session.disk (Schemata.generate library source libraryEncodable) := by
  refine (keeps_readSource source).bind fun root => ?_
  refine (keeps_log _ _).bind fun _ => ?_
  refine Keeps.bind ?_ fun derived => ?_
  · rw [Run.ofReport]
    refine Keeps.bind ?_ fun _ => keeps_ofExcept _ _
    exact keeps_modify fun _ => rfl
  refine (keeps_log _ _).bind fun _ => ?_
  exact (keeps_ofExcept _ _).bind fun code => keeps_pure _

theorem keeps_templateNames (mark : Char) (typeTemplate valueTemplate : Json)
    (chars : List Char) :
    Keeps Session.disk (templateNames mark typeTemplate valueTemplate chars) := by
  have hfill : ∀ (template : Json) (names : List (List Char)), Keeps Session.disk
      (if names.isEmpty then pure []
        else do
          Run.ofExcept .template (Emitted.fillAll (← templateText mark template) names)) := by
    intro template names
    refine keeps_ite (keeps_pure _) ?_
    refine Keeps.bind ?_ fun _ => keeps_ofExcept _ _
    cases template <;> first | exact keeps_pure _ | exact keeps_fail _
  unfold templateNames
  exact (hfill _ _).bind fun _ => (hfill _ _).bind fun _ => keeps_pure _

theorem keeps_postprocess (config : Config) (code : String) :
    Keeps Session.disk (postprocess config code) := by
  refine keeps_ite (keeps_pure _) ?_
  refine (keeps_templateNames _ _ _ _).bind fun names => ?_
  refine keeps_ite (keeps_pure _) ?_
  refine (keeps_forM fun _ => keeps_log _ _).bind fun _ => ?_
  exact (keeps_log _ _).bind fun _ => keeps_pure _

theorem keeps_canStart (outcome : ProcessOutcome) :
    Keeps Session.disk (Formatter.canStart outcome) := by
  cases outcome with
  | denied => exact keeps_fail _
  | notFound | timeout | finished => exact keeps_pure _

theorem keeps_isAvailable (formatter : Formatter) :
    Keeps Session.disk formatter.isAvailable := by
  have hcall : ∀ _ : PUnit, Keeps Session.disk (do
      let found ← Formatter.canStart (← Run.call (formatter.words ++ ["--version"]) none 30)
      modify fun session => { session with formatterFound := some found }
      return found) := by
    intro _
    refine (keeps_call _ _ _).bind fun outcome => ?_
    refine (keeps_canStart outcome).bind fun found => ?_
    exact Keeps.bind (keeps_modify fun _ => rfl) fun _ => keeps_pure _
  refine keeps_get.bind fun session => ?_
  split
  · exact keeps_pure _
  · exact keeps_ite ((keeps_fail _).bind hcall) (hcall ⟨⟩)

theorem keeps_accept (words : List String) (encodable : Bool) (outcome : ProcessOutcome) :
    Keeps Session.disk (Formatter.accept words encodable outcome) := by
  cases outcome with
  | finished code stdout stderr echo =>
    exact keeps_ite (keeps_fail _) (keeps_ite (keeps_pure _) (keeps_fail _))
  | timeout => exact keeps_ite (keeps_fail _) (keeps_fail _)
  | notFound => exact keeps_fail _
  | denied => exact keeps_fail _

theorem keeps_format (formatter : Formatter) (code : String) (config : FormatterConfig)
    (encodable : Bool) : Keeps Session.disk (formatter.format code config encodable) := by
  refine (keeps_isAvailable formatter).bind fun found => ?_
  refine keeps_ite ?_ ((keeps_log _ _).bind fun _ => keeps_pure _)
  refine (keeps_log _ _).bind fun _ => ?_
  exact keeps_ite ((keeps_call _ _ _).bind (keeps_accept _ _)) (keeps_fail _)

theorem keeps_spoiledByTemplates (config : Config) (code : String) :
    Keeps Session.disk (spoiledByTemplates config code) :=
  (keeps_peek _).bind fun _ => (keeps_peek _).bind fun _ => keeps_pure _

theorem keeps_generator (generator : Generator) (line source : String) :
    Keeps Session.disk (generator.generate line source) := by
  refine (keeps_generate _ _ _).bind fun generated => ?_
  have hrest : ∀ _ : PUnit, Keeps Session.disk (do
      let spoiled ← spoiledByTemplates generator.config generated.code
      let code ← postprocess generator.config generated.code
      let code := commentLines (generationComment generator.config line) ++ code
      let encodable := generated.encodable && !spoiled
      let code ← if generator.formatterConfig.enabled.truthy then
          generator.formatter.format code generator.formatterConfig encodable
        else pure code
      return (⟨code, generated.diagnostics, encodable⟩ : Generated)) := by
    intro _
    refine (keeps_spoiledByTemplates _ _).bind fun spoiled => ?_
    refine (keeps_postprocess _ _).bind fun code => ?_
    exact keeps_ite ((keeps_format _ _ _ _).bind fun _ => keeps_pure _)
      ((keeps_pure _).bind fun _ => keeps_pure _)
  dsimp only
  split
  · exact (keeps_fail _).bind hrest
  · exact hrest ⟨⟩

/-- What generated code asks to be written. -/
def Generated.content (generated : Generated) : Content := ⟨generated.code, generated.encodable⟩

namespace Command

/-! ### What comes of a run on checked settings -/

variable {settings : Settings} {before : Session}

/-- What a run that fails leaves behind: the files as they were, or an output file that was cut
short. -/
def LeavesBehind (settings : Settings) (before : Session) (produced : Config → Generated → Prop)
    (after : Session) : Prop :=
  before.files.SameFiles after.files ∨ ∃ config generated, produced config generated ∧
    settings.flag "output_stdout" = false ∧
    Spoiled config before.hazards settings.outputPath generated.content before.files after.files

/-- How the generation and delivery of code may end, for the code that may have been produced. -/
inductive Delivery (settings : Settings) (before : Session)
    (produced : Config → Generated → Prop) : Except Failure Ending → Session → Prop where
  | printed {config : Config} {generated : Generated} {after : Session}
      (hcode : produced config generated) (hencodable : generated.encodable = true)
      (hflag : settings.flag "output_stdout" = true) (hfiles : after.files = before.files) :
      Delivery settings before produced (.ok (.printed generated.code)) after
  | written {config : Config} {generated : Generated} {after : Session}
      (hcode : produced config generated) (hencodable : generated.encodable = true)
      (hflag : settings.flag "output_stdout" = false)
      (hfiles : before.files.Writes after.files settings.outputPath generated.code) :
      Delivery settings before produced (.ok .written) after
  | refused {message : String} {after : Session}
      (hleft : LeavesBehind settings before produced after) :
      Delivery settings before produced (.ok (.refused message)) after
  | failed {failure : Failure} {after : Session}
      (hleft : LeavesBehind settings before produced after) :
      Delivery settings before produced (.error failure) after

section Delivery

variable {produced other : Config → Generated → Prop} {result : Except Failure Ending}
  {after : Session}

theorem LeavesBehind.mono (h : LeavesBehind settings before produced after)
    (himp : ∀ config generated, produced config generated → other config generated) :
    LeavesBehind settings before other after := by
  rcases h with hsame | ⟨config, generated, hcode, hspoiled⟩
  · exact .inl hsame
  · exact .inr ⟨config, generated, himp _ _ hcode, hspoiled⟩

theorem Delivery.mono (h : Delivery settings before produced result after)
    (himp : ∀ config generated, produced config generated → other config generated) :
    Delivery settings before other result after := by
  cases h with
  | printed hcode hencodable hflag hfiles =>
    exact .printed (himp _ _ hcode) hencodable hflag hfiles
  | written hcode hencodable hflag hfiles =>
    exact .written (himp _ _ hcode) hencodable hflag hfiles
  | refused hleft => exact .refused (hleft.mono himp)
  | failed hleft => exact .failed (hleft.mono himp)

theorem Delivery.leavesBehind (h : Delivery settings before produced result after)
    {frontend : Frontend} {shown : String}
    (hfailed : (Outcome.ofResult frontend shown result).exitCode ≠ 0 ∨
      (Outcome.ofResult frontend shown result).failure.isSome = true) :
    LeavesBehind settings before produced after := by
  cases h with
  | printed => simp [Outcome.ofResult] at hfailed
  | written => simp [Outcome.ofResult] at hfailed
  | refused hleft => exact hleft
  | failed hleft => exact hleft

/-- What has become of the code of a run that succeeds. -/
structure Delivered (frontend : Frontend) (settings : Settings) (generated : Generated)
    (before : Store) (stdout : String) (after : Store) : Prop where
  encoded : generated.encodable = true
  printed : settings.flag "output_stdout" = true →
    stdout = frontend.echo generated.code ∧ after = before
  plain : settings.flag "output_stdout" = true → '\x1b' ∉ generated.code.toList →
    stdout = generated.code
  written : settings.flag "output_stdout" = false →
    stdout = "" ∧ before.Writes after settings.outputPath generated.code

theorem Delivery.delivered (h : Delivery settings before produced result after)
    {frontend : Frontend}
    (hecho : ∀ text : String, '\x1b' ∉ text.toList → frontend.echo text = text) {shown : String}
    (hok : (Outcome.ofResult frontend shown result).exitCode = 0) :
    ∃ config generated, produced config generated ∧
      Delivered frontend settings generated before.files
        (Outcome.ofResult frontend shown result).stdout after.files := by
  cases h with
  | printed hcode hencodable hflag hfiles =>
    refine ⟨_, _, hcode, hencodable, fun _ => ⟨rfl, hfiles⟩, fun _ => hecho _, fun hfalse => ?_⟩
    rw [hflag] at hfalse
    cases hfalse
  | written hcode hencodable hflag hfiles =>
    refine ⟨_, _, hcode, hencodable, fun htrue => ?_, fun htrue => ?_, fun _ => ⟨rfl, hfiles⟩⟩
    · rw [hflag] at htrue
      cases htrue
    · rw [hflag] at htrue
      cases htrue
  | refused => cases hok
  | failed => cases hok

theorem delivery_foresee (failure : Failure)
    (hleft : LeavesBehind settings before produced after) :
    Delivery settings before produced (on after (foresee failure)).1
      (on after (foresee failure)).2 := by
  unfold foresee
  split
  · exact .refused hleft
  · exact .failed hleft

end Delivery

theorem delivery_produce (generator : Generator) (line source : String) :
    Delivery settings before
      (fun config generated => config = generator.config ∧
        ∃ after, on before (generator.generate line source) = (.ok generated, after))
      (on before (tryCatch (produce settings generator line source) foresee)).1
      (on before (tryCatch (produce settings generator line source) foresee)).2 := by
  have hdisk := keeps_generator generator line source before
  rw [on_tryCatch, produce, on_bind]
  cases hgenerate : on before (generator.generate line source) with
  | mk result middle =>
  rw [hgenerate] at hdisk
  obtain ⟨hfiles, hhazards⟩ := Prod.mk.inj hdisk
  have hsame : before.files.SameFiles middle.files := by
    rw [hfiles]
    exact .refl _
  cases result with
  | error failure => exact delivery_foresee failure (.inl hsame)
  | ok generated =>
  simp only [deliver]
  cases hflag : settings.flag "output_stdout" with
  | true =>
    cases hencodable : generated.encodable with
    | true => exact .printed ⟨rfl, middle, rfl⟩ hencodable hflag hfiles
    | false => exact delivery_foresee (.fault .unencodable) (.inl hsame)
  | false =>
  simp only [Bool.false_eq_true, if_false, on_bind]
  rcases writeOutput_cases generator.config middle generated.content settings.outputPath with
    ⟨after, hwrite, hencodable, hwrites⟩ | ⟨failure, after, hwrite, hends⟩
  · rw [Generated.content] at hwrite
    rw [hwrite]
    rw [hfiles] at hwrites
    exact .written ⟨rfl, middle, rfl⟩ hencodable hflag hwrites
  · rw [Generated.content] at hwrite
    rw [hwrite]
    rw [hfiles, hhazards] at hends
    refine delivery_foresee failure ?_
    rcases hends with hunchanged | hspoiled
    · exact .inl hunchanged
    · exact .inr ⟨generator.config, generated, ⟨rfl, middle, rfl⟩, hflag, hspoiled⟩

/-- The code that a run generates from the configuration and the source that it finds. -/
def Produces (session : Session) (settings : Settings) (config : Config) (generated : Generated) :
    Prop :=
  ∃ content generator after,
    on session (runConfig settings) = (.ok config, session) ∧
    on session (Run.readFile (settings.text "input_path")) = (.ok content, session) ∧
    Generator.ofConfig config = .ok generator ∧
    on session (generator.generate (runLine session.files settings.values)
      (String.ofList (universalNewlines content.toList))) = (.ok generated, after)

theorem config_of_ofConfig {config : Config} {generator : Generator}
    (h : Generator.ofConfig config = .ok generator) : generator.config = config := by
  unfold Generator.ofConfig at h
  split at h
  · cases h
  · rename_i formatterConfig _
    cases hformatter : Formatter.ofCommand formatterConfig.command with
    | error failure =>
      rw [hformatter] at h
      cases h
    | ok formatter =>
      rw [hformatter] at h
      cases h
      rfl

theorem keeps_runConfig {γ : Type} {view : Session → γ} (settings : Settings) :
    Keeps view (runConfig settings) := by
  refine Keeps.bind ?_ fun _ => keeps_ofExcept _ _
  unfold loadConfig
  split
  · refine (keeps_readFile _).bind fun _ => ?_
    exact (keeps_ofExcept _ _).bind fun _ => keeps_ofExcept _ _
  · exact keeps_pure _

/-- What comes of a run: code is printed or written, or the run fails. -/
theorem delivery_work (settings : Settings) (before : Session) :
    Delivery settings before (Produces before settings) (on before (work settings)).1
      (on before (work settings)).2 := by
  have hconfigured := (keeps_runConfig settings).on_eq before
  have hread := (keeps_readFile (settings.text "input_path")).on_eq before
  rw [work, on_bind, hconfigured]
  cases hconfig : (on before (runConfig settings)).1 with
  | error failure => exact .failed (.inl (.refl _))
  | ok config =>
  simp only [on_get_bind]
  split
  · exact .refused (.inl (.refl _))
  rw [on_bind, hread]
  cases hcontent : (on before (Run.readFile (settings.text "input_path"))).1 with
  | error failure => exact .failed (.inl (.refl _))
  | ok content =>
  simp only [on_bind, on_ofExcept]
  cases hgenerator : Generator.ofConfig config with
  | error failure => exact .failed (.inl (.refl _))
  | ok generator =>
  refine (delivery_produce generator _ _).mono ?_
  rintro _ generated ⟨rfl, after, hgenerate⟩
  rw [config_of_ofConfig hgenerator]
  refine ⟨content, generator, after, ?_, ?_, hgenerator, hgenerate⟩
  · rw [hconfigured, hconfig]
  · rw [hread, hcontent]

theorem contains_of_readFile {session : Session} {text content : String}
    (h : on session (Run.readFile text) = (.ok content, session)) :
    session.files.contains (Path.ofString text) = true := by
  rw [Run.readFile, on_get_bind, on_ofExcept] at h
  cases hread : guarded (session.hazards.read (Path.ofString text))
      (session.files.read (Path.ofString text)) with
  | error error =>
    rw [hread] at h
    cases h
  | ok content => exact Store.contains_of_read (guarded_eq_ok.1 hread).2

/-- Code that can be generated and encoded is printed if that is asked for. -/
theorem work_of_produces {config : Config} {generated : Generated}
    (h : Produces before settings config generated) (hencodable : generated.encodable = true)
    (hflag : settings.flag "output_stdout" = true) :
    (on before (work settings)).1 = .ok (.printed generated.code) := by
  obtain ⟨content, generator, after, hconfig, hcontent, hgenerator, hgenerate⟩ := h
  rw [work, on_bind, hconfig]
  simp only [on_get_bind, contains_of_readFile hcontent, Bool.not_true, Bool.false_eq_true,
    if_false]
  rw [on_bind, hcontent]
  simp only [on_bind, on_ofExcept_ok, hgenerator, on_tryCatch, produce, hgenerate, deliver, hflag,
    hencodable, if_true, on_pure]

/-! ### The run as a whole -/

variable {frontend : Frontend}

theorem run_of_start {arguments : List String} {session : Session}
    (hstart : frontend.start session.files arguments = .run settings) :
    ∃ shown, runWith frontend arguments session =
      (.ofResult frontend shown (on session.atStart (work settings)).1,
        (on session.atStart (work settings)).2) := by
  simp only [runWith, hstart]
  exact ⟨_, rfl⟩

/-- **A run has no partial effect.** A run that fails has changed no file, unless it was to write
its code in place and the file did not take all of it: then the file holds what it took, which is
nothing if the code cannot be encoded. A run that succeeds ended with its command line, and left the
session alone, or it has generated code that can be encoded: that was printed, and no file has
changed, or it is in the output file, and no other file has changed. Code that can be generated and
encoded is printed if that is asked for. The front end may take terminal styles out of what it
prints, but no more. -/
theorem run_effects (frontend : Frontend)
    (hecho : ∀ text : String, '\x1b' ∉ text.toList → frontend.echo text = text)
    (arguments : List String) (session : Session) :
    ((runWith frontend arguments session).1.exitCode ≠ 0 ∨
        (runWith frontend arguments session).1.failure.isSome = true →
      session.files.SameFiles (runWith frontend arguments session).2.files ∨
      ∃ settings config generated, frontend.start session.files arguments = .run settings ∧
        Produces session.atStart settings config generated ∧
        settings.flag "output_stdout" = false ∧
        Spoiled config session.hazards settings.outputPath generated.content session.files
          (runWith frontend arguments session).2.files) ∧
    ((runWith frontend arguments session).1.exitCode = 0 →
      (∃ outcome, frontend.start session.files arguments = .ended outcome ∧
        runWith frontend arguments session = (outcome, session)) ∨
      ∃ settings config generated, frontend.start session.files arguments = .run settings ∧
        Produces session.atStart settings config generated ∧
        Delivered frontend settings generated session.files
          (runWith frontend arguments session).1.stdout
          (runWith frontend arguments session).2.files) ∧
    ∀ settings config generated, frontend.start session.files arguments = .run settings →
      Produces session.atStart settings config generated → generated.encodable = true →
      settings.flag "output_stdout" = true →
        (runWith frontend arguments session).1.exitCode = 0 := by
  cases hstart : frontend.start session.files arguments with
  | ended outcome =>
    have hrun : runWith frontend arguments session = (outcome, session) := by
      simp only [runWith, hstart]
    rw [hrun]
    exact ⟨fun _ => .inl (.refl _), fun _ => .inl ⟨outcome, rfl, rfl⟩, fun _ _ _ h => by cases h⟩
  | run settings =>
    obtain ⟨shown, hrun⟩ := run_of_start hstart
    have hwork := delivery_work settings session.atStart
    rw [hrun]
    refine ⟨fun hfailed => ?_, fun hok => .inr ?_, fun other config generated hother hcode
      hencodable hflag => ?_⟩
    · rcases hwork.leavesBehind hfailed with hsame | ⟨config, generated, hcode, hflag, hspoiled⟩
      · exact .inl hsame
      · exact .inr ⟨settings, config, generated, rfl, hcode, hflag, hspoiled⟩
    · obtain ⟨config, generated, hcode, hdelivered⟩ := hwork.delivered hecho hok
      exact ⟨settings, config, generated, rfl, hcode, hdelivered⟩
    · cases hother
      rw [work_of_produces hcode hencodable hflag]
      rfl

/-- The type alias of a file that holds nothing else, with a string for its type. -/
def aliasOutline (first last : Nat) (comments : List Outline) : Outline :=
  .mk (.other "program") none 0 last true false false (comments ++ [
    .mk .typeAlias none first last true false false [
      .mk .typeIdentifier (some .name) (first + 5) (first + 6) true false false [],
      .mk .literalType (some .value) (first + 9) last true false false [
        .mk (.other "string") none (first + 9) last true false false []]]])

/-- The file `types.ts`, in which a literal type holds a style. -/
def styledSession : Session :=
  .fresh ⟨[(["types.ts"], .file "type A = '\x1b[31mred'")]⟩
    (fun text => if text = "type A = '\x1b[31mred'" then some (aliasOutline 0 20 []) else none)
    .plain .absent

/-- A front end that knows the command lines below. -/
def sampleFrontend : Frontend where
  start _ arguments := .run ⟨programOptions.map fun spec =>
    (spec.key, match spec.key, arguments with
      | "output_path", ["-o", path] | "config", ["-c", path] => .str path
      | "output_stdout", ["--output-stdout"] => .bool true
      | _, _ => spec.fallback)⟩
  echo := Text.unstyled
  complain message := "Error: " ++ message ++ "\n"

theorem run_effects_styledFile :
    (∀ text : String, '\x1b' ∉ text.toList → sampleFrontend.echo text = text) ∧
      (runWith sampleFrontend ["-o", "types.ts"] styledSession).1.exitCode = 1 ∧
      styledSession.files.SameFiles
        (runWith sampleFrontend ["-o", "types.ts"] styledSession).2.files ∧
      (runWith sampleFrontend ["--output-stdout"] styledSession).1.exitCode = 0 ∧
      ∃ settings config generated,
        sampleFrontend.start styledSession.files ["--output-stdout"] = .run settings ∧
        Produces styledSession.atStart settings config generated ∧
        Delivered sampleFrontend settings generated styledSession.files
          (runWith sampleFrontend ["--output-stdout"] styledSession).1.stdout
          (runWith sampleFrontend ["--output-stdout"] styledSession).2.files := by
  have hecho : ∀ text : String, '\x1b' ∉ text.toList → sampleFrontend.echo text = text :=
    fun _ => Text.unstyled_eq_self
  have hrefused : (runWith sampleFrontend ["-o", "types.ts"] styledSession).1.exitCode = 1 := by
    decide +kernel
  have hkept : (runWith sampleFrontend ["-o", "types.ts"] styledSession).2.files.content?
      ["types.ts"] ≠ some "" := by
    decide +kernel
  have hprinted : (runWith sampleFrontend ["--output-stdout"] styledSession).1.exitCode = 0 := by
    decide +kernel
  refine ⟨hecho, hrefused, ?_, hprinted, ?_⟩
  · rcases (run_effects sampleFrontend hecho ["-o", "types.ts"] styledSession).1
      (.inl (by rw [hrefused]; decide)) with hsame | ⟨settings, _, _, hstart, -, -, hspoiled⟩
    · exact hsame
    · -- the system refuses nothing, so only code that cannot be encoded could be cut short
      obtain ⟨part, hpart, hwrites⟩ := hspoiled.cutShort
      cases hstart
      cases hpart with
      | unencodable => exact absurd hwrites.content hkept
      | refused hfill => cases hfill
  · rcases (run_effects sampleFrontend hecho ["--output-stdout"] styledSession).2.1 hprinted with
      ⟨outcome, hended, -⟩ | hdelivered
    · cases hended
    · exact hdelivered

/-- The file `types.ts`, whose comment gives half of a surrogate pair for a title, with options that
ask for writing in place. -/
def brokenTitleSession : Session :=
  let source := "/** @title \"\\ud800\" */ type A = 'x'"
  .fresh ⟨[(["types.ts"], .file source),
      (["in-place.json"], .file "\x7b\"output\": \x7b\"atomic_write\": false\x7d\x7d")]⟩
    (fun text => if text = source then
      some (aliasOutline 23 35 [.mk .comment none 0 22 true false false []]) else none)
    .plain .absent

-- the run fails, and leaves an empty file
example :
    (runWith sampleFrontend ["-c", "in-place.json"] brokenTitleSession).1.exitCode = 1 ∧
      (runWith sampleFrontend ["-c", "in-place.json"] brokenTitleSession).2.files.content?
        ["generated-types.ts"] = some "" := by
  decide +kernel

end Command

end Schemata
