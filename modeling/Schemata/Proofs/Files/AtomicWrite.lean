import Schemata.Files.Atomic
import Schemata.Proofs.Files.Store

/-!
# Atomic writes are all or nothing

A write that fails takes its temporary file back, at whichever step it fails, and a write that
succeeds has moved it onto the target. So a write ends in one of two stores: the one with the
directories of the target made, or that one with the content put at the target. Everything else is
read off these two, first for one request and then along a sequence of them.
-/

namespace Schemata

/-! ### Temporary places -/

theorem tempName_inj {name : String} {m n : Nat} (h : tempName name m = tempName name n) :
    m = n := by
  have hrepr : Nat.repr m = Nat.repr n := by simpa [tempName] using h
  have hdigits : Nat.toDigits 10 m = Nat.toDigits 10 n := by
    rw [← Nat.toList_repr, hrepr, Nat.toList_repr]
  have hvalue := congrArg (Nat.ofDigitChars 10 · 0) hdigits
  simpa using hvalue

theorem length_tempName (name : String) (n : Nat) :
    name.length + 6 ≤ (tempName name n).length := by
  have hdigits : (toString n).length ≠ 0 := by
    rw [Ne, String.length_eq_zero_iff]
    exact Nat.repr_ne_empty
  have hpoint : ".".length = 1 := by decide
  have hending : ".tmp".length = 4 := by decide
  simp only [tempName, String.length_append]
  omega

theorem Place.isAnchor_temp (directory : Place) (name : String) (n : Nat) :
    Place.isAnchor (directory ++ [tempName name n]) = false := by
  have hlength := length_tempName name n
  have hback : tempName name n ≠ ".." := by
    intro h
    rw [h, show "..".length = 2 from by decide] at hlength
    omega
  have hroot : tempName name n ≠ "/" := by
    intro h
    rw [h, show "/".length = 1 from by decide] at hlength
    omega
  have hplace : directory ++ [tempName name n] ≠ ["/"] := by
    intro h
    have hlast := congrArg List.getLast? h
    simp at hlast
    exact hroot hlast
  simp [Place.isAnchor, hplace, hback]

theorem exists_freeTempFrom (directory : Place) (name : String) (taken : List Place) (n : Nat) :
    ∃ m, n ≤ m ∧ freeTempFrom directory name taken n = directory ++ [tempName name m] ∧
      directory ++ [tempName name m] ∉ taken := by
  fun_induction freeTempFrom directory name taken n with
  | case1 taken n hmem ih =>
    obtain ⟨m, hm, heq, hfree⟩ := ih
    refine ⟨m, by omega, heq, fun hin => hfree ?_⟩
    -- the place that was taken has a smaller number, so erasing it does not matter
    have hne : directory ++ [tempName name m] ≠ directory ++ [tempName name n] := by
      intro h
      have hmn : m = n := tempName_inj (by simpa using h)
      omega
    exact (List.mem_erase_of_ne hne).2 hin
  | case2 taken n hfree => exact ⟨n, Nat.le_refl n, rfl, hfree⟩

theorem exists_freeTemp (store : Store) (directory : Place) (name : String) :
    ∃ n, freeTemp store directory name = directory ++ [tempName name n] ∧
      directory ++ [tempName name n] ∉ store.entries.map Prod.fst := by
  obtain ⟨n, -, heq, hfree⟩ := exists_freeTempFrom directory name (store.entries.map Prod.fst) 0
  exact ⟨n, heq, hfree⟩

theorem Path.place_ne_temp (path : Path) (n : Nat) :
    path.place ≠ path.parent.place ++ [tempName path.name n] := by
  intro h
  by_cases hsome : path.components = []
  · have hparent : path.parent = path := by
      obtain ⟨absolute, components⟩ := path
      simp only at hsome
      simp [parent, hsome]
    simp [hparent] at h
  rw [place_of_components_ne_nil hsome] at h
  have hlength := length_tempName path.name n
  by_cases hname : path.name = ".."
  · -- going back never leads into a directory's own entries
    simp only [hname, Place.enter, beq_self_eq_true, if_true, Place.above] at h
    split at h
    · simp at h
    · split at h
      · have htemp : ".." = tempName ".." n := by simpa using h
        rw [hname, ← htemp] at hlength
        omega
      · have hcount := congrArg List.length h
        simp only [List.length_dropLast, List.length_append, List.length_singleton] at hcount
        omega
  · rw [Place.enter_of_ne hname] at h
    have htemp : path.name = tempName path.name n := by simpa using h
    rw [← htemp] at hlength
    omega

namespace Store

section Temp

variable {store : Store} {temp : Place} {path : Path}

theorem erase_put_of_not_mem (hfree : temp ∉ store.entries.map Prod.fst) (entry : Entry) :
    (store.put temp entry).erase temp = store := by
  rw [erase_put, erase_of_not_mem hfree]

theorem resolve_put_of_not_mem (hanchor : temp.isAnchor = false)
    (hfree : temp ∉ store.entries.map Prod.fst) (entry : Entry) {place : Place}
    (h : store.resolve path = .ok place) : (store.put temp entry).resolve path = .ok place := by
  obtain ⟨hplace, hdirs⟩ := resolve_eq_ok.1 h
  refine resolve_eq_ok.2 ⟨hplace, fun n hn => ?_⟩
  have hne : (path.upTo n).place ≠ temp := by
    intro heq
    have hget := hdirs n hn
    rw [heq, get?_eq_none_of_not_mem hanchor hfree] at hget
    cases hget
  rw [get?_put_of_ne hne, hdirs n hn]

/-- Moving a file from a free place onto a path. -/
theorem replace_put_of_not_mem (hanchor : temp.isAnchor = false)
    (hfree : temp ∉ store.entries.map Prod.fst) (hpath : store.resolve path = .ok path.place)
    (hne : path.place ≠ temp) (content : String) :
    (store.put temp (.file content)).replace temp path =
      if path.isNameless then .error .busy
      else if store.get? path.place = some .directory then .error .isDirectory
      else .ok (store.put path.place (.file content)) := by
  rw [replace, resolve_put_of_not_mem hanchor hfree _ hpath]
  simp only [bind, Except.bind, get?_put_self hanchor, get?_put_of_ne hne,
    erase_put_of_not_mem hfree]
  split
  · rfl
  · cases hget : store.get? path.place with
    | none => rfl
    | some entry => cases entry <;> rfl

end Temp

end Store

/-! ### One write -/

section Write

variable {ε : Type}

inductive WriteObstacle (hazards : Hazards) (check : String → Except ε Unit) (store : Store)
    (path : Path) (content : Content) : Prop where
  | refused (h : (hazards.createTemp.or (hazards.writeTemp.or hazards.replace)).isSome = true)
  | directoryRefused {step : Path} (hstep : step ∈ path.parent.steps)
      (h : (hazards.makeDir step).isSome = true)
  | fileOnTheWay {step : Path} (hstep : step ∈ path.parent.steps)
      (h : (store.content? step.place).isSome = true)
  | unencodable (h : content.encodable = false)
  | rejected {reason : ε} (h : check content.text = .error reason)
  /-- The path leads to a directory, or to one that is made on the way. -/
  | directory (h : store.get? path.place = some .directory ∨
      path.place ∈ path.parent.steps.map Path.place)
  | nameless (h : path.isNameless = true)

theorem resolve_parent_of_makeDirs {refusal : Path → Option FileError} {store : Store} {path : Path}
    (h : (store.makeDirs refusal path.parent).1 = .ok ()) :
    (store.makeDirs refusal path.parent).2.resolve path.parent = .ok path.parent.place := by
  refine Store.resolve_eq_ok.2 ⟨rfl, fun n hn => ?_⟩
  exact Store.get?_upTo_of_makeDirs h (by omega)

theorem resolve_of_makeDirs {refusal : Path → Option FileError} {store : Store} {path : Path}
    (h : (store.makeDirs refusal path.parent).1 = .ok ()) :
    (store.makeDirs refusal path.parent).2.resolve path = .ok path.place := by
  refine Store.resolve_eq_ok.2 ⟨rfl, fun n hn => ?_⟩
  rw [← path.upTo_parent hn]
  refine Store.get?_upTo_of_makeDirs h ?_
  simp only [Path.parent, List.length_dropLast]
  omega

theorem directory_cases_of_makeDirs {refusal : Path → Option FileError} {store : Store}
    {path : Path} {place : Place}
    (h : (store.makeDirs refusal path).2.get? place = some .directory) :
    store.get? place = some .directory ∨ place ∈ path.steps.map Path.place := by
  rcases Store.addsDirectories_makeSteps refusal store false path.steps place with hsame | hnew
  · exact .inl (hsame.symm.trans h)
  · exact .inr hnew.2.2

/-- What comes of a write once the directories are there and a temporary place is found. -/
theorem finishWrite_cases (hazards : Hazards) (check : String → Except ε Unit) {store : Store}
    {temp : Place} {path : Path} (hanchor : temp.isAnchor = false)
    (hfree : temp ∉ store.entries.map Prod.fst) (hpath : store.resolve path = .ok path.place)
    (hne : path.place ≠ temp) (content : Content) :
    (∃ failure, finishWrite hazards check store temp path content = (.error failure, store) ∧
      ((hazards.writeTemp.or hazards.replace).isSome = true ∨ content.encodable = false ∨
        (∃ reason, check content.text = .error reason) ∨
        path.isNameless = true ∨ store.get? path.place = some .directory)) ∨
    (finishWrite hazards check store temp path content =
        (.ok (), store.put path.place (.file content.text)) ∧ content.encodable = true ∧
      check content.text = .ok () ∧ store.get? path.place ≠ some .directory) := by
  simp only [finishWrite, Store.put_put, Store.erase_put_of_not_mem hfree]
  cases hencodable : content.encodable with
  | false => exact .inl ⟨.unencodable, rfl, .inr (.inl rfl)⟩
  | true =>
  simp only [Bool.not_true, Bool.false_eq_true, if_false]
  cases hwrite : hazards.writeTemp with
  | some error => exact .inl ⟨.file error path.parent, rfl, .inl rfl⟩
  | none =>
  cases hcheck : check content.text with
  | error reason =>
    exact .inl ⟨.invalid reason, by simp [guarded, Store.erase_put_of_not_mem hfree],
      .inr (.inr (.inl ⟨reason, rfl⟩))⟩
  | ok =>
  cases hreplace : hazards.replace with
  | some error =>
    exact .inl ⟨.replace error, by simp [guarded, Store.erase_put_of_not_mem hfree], .inl rfl⟩
  | none =>
  simp only [guarded, Store.replace_put_of_not_mem hanchor hfree hpath hne]
  cases hnameless : path.isNameless with
  | true => exact .inl ⟨.replace .busy, by simp [Store.erase_put_of_not_mem hfree], by simp⟩
  | false =>
  by_cases hdirectory : store.get? path.place = some .directory
  · exact .inl ⟨.replace .isDirectory, by simp [hdirectory, Store.erase_put_of_not_mem hfree],
      by simp [hdirectory]⟩
  · exact .inr ⟨by simp [hdirectory], trivial, trivial, hdirectory⟩

/-- **The two ends of a write.** A write that fails leaves the store with the directories of its
target made, and something stood in its way; one that succeeds has put its content at the target. -/
theorem atomicWrite_cases (hazards : Hazards) (check : String → Except ε Unit) (store : Store)
    (path : Path) (content : Content) :
    (∃ failure, atomicWrite hazards check store path content =
        (.error failure, (store.makeDirs hazards.makeDir path.parent).2) ∧
      WriteObstacle hazards check store path content) ∨
    (atomicWrite hazards check store path content =
        (.ok (),
          (store.makeDirs hazards.makeDir path.parent).2.put path.place (.file content.text)) ∧
      content.encodable = true ∧ check content.text = .ok () ∧
      (store.makeDirs hazards.makeDir path.parent).2.resolve path = .ok path.place ∧
      (store.makeDirs hazards.makeDir path.parent).2.get? path.place ≠ some .directory) := by
  rw [atomicWrite]
  cases hdirs : store.makeDirs hazards.makeDir path.parent with
  | mk outcome made =>
  cases outcome with
  | error failure =>
    obtain ⟨step, hstep, hwhy⟩ := Store.exists_obstacle_of_makeSteps (congrArg Prod.fst hdirs)
    refine .inl ⟨_, rfl, ?_⟩
    rcases hwhy with hrefused | hfile
    · exact .directoryRefused hstep hrefused
    · exact .fileOnTheWay hstep hfile
  | ok =>
  have hok : (store.makeDirs hazards.makeDir path.parent).1 = .ok () := by rw [hdirs]
  have hparent := resolve_parent_of_makeDirs hok
  have hpath := resolve_of_makeDirs hok
  rw [hdirs] at hparent hpath
  cases hcreate : hazards.createTemp with
  | some error => exact .inl ⟨.file error path.parent, rfl, .refused (by simp [hcreate])⟩
  | none =>
  obtain ⟨n, htemp, hfree⟩ := exists_freeTemp made path.parent.place path.name
  simp only [guarded, hparent, htemp]
  rcases finishWrite_cases hazards check (Place.isAnchor_temp _ _ n) hfree hpath
    (path.place_ne_temp n) content with ⟨failure, heq, hwhy⟩ | ⟨heq, hencodable, hcheck, hfile⟩
  · refine .inl ⟨failure, heq, ?_⟩
    rcases hwhy with hrefused | hencodable | ⟨reason, hreason⟩ | hnameless | hdirectory
    · exact .refused (by simpa [hcreate] using hrefused)
    · exact .unencodable hencodable
    · exact .rejected hreason
    · exact .nameless hnameless
    · exact .directory (directory_cases_of_makeDirs (by rw [hdirs, hdirectory]))
  · exact .inr ⟨heq, hencodable, hcheck, hpath, hfile⟩

/-! ### Requests -/

/-- What a request may have done to a store: all it asked for, or nothing to any file. -/
structure AllOrNothing (request : WriteRequest ε) (before : Store)
    (outcome : Except (WriteFailure ε) Unit) (after : Store) : Prop where
  written : outcome = .ok () → before.Writes after request.path request.content.text
  unchanged : ∀ failure, outcome = .error failure → before.SameFiles after
  keptDirectories : ∀ place, before.get? place = some .directory → after.get? place = some .directory
  newDirectories : ∀ place, after.get? place = some .directory →
    before.get? place = some .directory ∨ place ∈ request.path.parent.steps.map Path.place
  refused : request.onlyNew = true → before.contains request.path = true →
    outcome = .error .outputExists ∧ after = before
  accepted : outcome = .ok () → request.validate = true →
    request.validator request.content.text = .ok ()
  encoded : outcome = .ok () → request.content.encodable = true
  /-- A request does not fail without a reason. -/
  hindered : ∀ failure, outcome = .error failure →
    request.onlyNew = true ∧ before.contains request.path = true ∨
      WriteObstacle request.hazards request.check before request.path request.content

/-- What `perform` can do, with the store after it. -/
theorem WriteRequest.perform_cases (request : WriteRequest ε) (store : Store) :
    request.onlyNew = true ∧ store.contains request.path = true ∧
        request.perform store = (.error .outputExists, store) ∨
      (request.onlyNew = true → store.contains request.path = false) ∧
        request.perform store =
          atomicWrite request.hazards request.check store request.path request.content := by
  unfold perform
  cases hnew : request.onlyNew with
  | false => exact .inr ⟨by simp, rfl⟩
  | true =>
    cases hcontains : store.contains request.path with
    | true => exact .inl ⟨rfl, rfl, by simp [atomicWriteNew, hcontains]⟩
    | false => exact .inr ⟨fun _ => rfl, by simp [atomicWriteNew, hcontains]⟩

theorem WriteRequest.validator_of_check {request : WriteRequest ε} {content : String}
    (h : request.check content = .ok ()) (hvalidate : request.validate = true) :
    request.validator content = .ok () := by
  rwa [check, if_pos hvalidate] at h

theorem allOrNothing_perform (request : WriteRequest ε) (store : Store) :
    AllOrNothing request store (request.perform store).1 (request.perform store).2 := by
  have hdirs := Store.addsDirectories_makeSteps request.hazards.makeDir store false
    request.path.parent.steps
  rcases request.perform_cases store with ⟨hnew, hcontains, heq⟩ | ⟨hfresh, heq⟩
  · rw [heq]
    exact {
      written := by simp
      unchanged := fun _ _ => .refl _
      keptDirectories := fun _ h => h
      newDirectories := fun _ h => .inl h
      refused := fun _ _ => ⟨rfl, rfl⟩
      accepted := by simp
      encoded := by simp
      hindered := fun _ _ => .inl ⟨hnew, hcontains⟩ }
  have hnotRefused {motive : Prop} (hnew : request.onlyNew = true)
      (hcontains : store.contains request.path = true) : motive := by
    rw [hfresh hnew] at hcontains
    cases hcontains
  rcases atomicWrite_cases request.hazards request.check store request.path request.content with
    ⟨failure, hwrite, hwhy⟩ | ⟨hwrite, hencodable, hcheck, hpath, hfile⟩
  · rw [heq, hwrite]
    exact {
      written := by simp
      unchanged := fun _ _ => hdirs.sameFiles
      keptDirectories := fun _ h => hdirs.get?_directory h
      newDirectories := fun _ h => directory_cases_of_makeDirs h
      refused := hnotRefused
      accepted := by simp
      encoded := by simp
      hindered := fun _ _ => .inr hwhy }
  · have hanchor := Store.isAnchor_eq_false rfl hfile
    rw [heq, hwrite]
    exact {
      written := fun _ => (Store.writes_put hpath hfile _).after hdirs.sameFiles
      unchanged := by simp
      keptDirectories := by
        intro place h
        have hmade := hdirs.get?_directory h
        have hne : place ≠ request.path.place := by
          rintro rfl
          exact hfile hmade
        rw [Store.get?_put_of_ne hne]
        exact hmade
      newDirectories := by
        intro place h
        by_cases hplace : place = request.path.place
        · rw [hplace, Store.get?_put_self hanchor] at h
          cases h
        · rw [Store.get?_put_of_ne hplace] at h
          exact directory_cases_of_makeDirs h
      refused := hnotRefused
      accepted := fun _ => WriteRequest.validator_of_check hcheck
      encoded := fun _ => hencodable
      hindered := by simp }

/-! ### Sequences of requests -/

def Store.afterRequests (store : Store) (requests : List (WriteRequest ε)) : Store :=
  requests.foldl (fun store request => (request.perform store).2) store

/-- The places that some requests write to with success, and what they write, in order. -/
def Store.writtenBy (store : Store) : List (WriteRequest ε) → List (Place × String)
  | [] => []
  | request :: rest =>
    (match (request.perform store).1 with
      | .ok () => [(request.path.place, request.content.text)]
      | .error _ => []) ++ (request.perform store).2.writtenBy rest

/-- **Files along a sequence of requests.** A file holds what the last successful write to it gave
it, and without one what it held before. -/
theorem content?_afterRequests (store : Store) (requests : List (WriteRequest ε)) (place : Place) :
    (store.afterRequests requests).content? place =
      ((store.writtenBy requests).reverse.lookup place).or (store.content? place) := by
  induction requests generalizing store with
  | nil => rfl
  | cons request rest ih =>
    have hstep := allOrNothing_perform request store
    have hnext := ih (request.perform store).2
    rw [Store.afterRequests] at hnext ⊢
    rw [List.foldl_cons, hnext, Store.writtenBy, List.reverse_append, List.lookup_append]
    cases houtcome : (request.perform store).1 with
    | error failure =>
      rw [houtcome] at hstep
      simp [hstep.unchanged failure rfl place]
    | ok =>
      rw [houtcome] at hstep
      by_cases hplace : place = request.path.place
      · simp [hplace, (hstep.written rfl).content]
      · have hother : (place == request.path.place) = false := by simpa using hplace
        simp [List.lookup_cons, hother, (hstep.written rfl).others place hplace]

/-- **Atomic writes are all or nothing.** Along every sequence of requests, each one does all that it
asks for or changes no file, and what the files hold in the end are the successful writes. -/
theorem requests_all_or_nothing (store : Store) (requests : List (WriteRequest ε)) :
    (∀ done request rest, requests = done ++ request :: rest →
      AllOrNothing request (store.afterRequests done)
        (request.perform (store.afterRequests done)).1
        (store.afterRequests (done ++ [request]))) ∧
    ∀ place, (store.afterRequests requests).content? place =
      ((store.writtenBy requests).reverse.lookup place).or (store.content? place) := by
  refine ⟨fun done request rest _ => ?_, content?_afterRequests store requests⟩
  have hlast : store.afterRequests (done ++ [request]) =
      (request.perform (store.afterRequests done)).2 := by
    simp [Store.afterRequests]
  rw [hlast]
  exact allOrNothing_perform request _

end Write

/-- The file `out.ts`, which holds a comment. -/
def keptStore : Store := ⟨[(["out.ts"], .file "// keep")]⟩

/-- A request for a new file at `out.ts`, with a validator that takes no empty text. -/
def newRequest (content : String) : WriteRequest String :=
  ⟨true, ⟨false, ["out.ts"]⟩, ⟨content, true⟩, true,
    fun text => if text = "" then .error "empty" else .ok (), .none⟩

theorem requests_keptStore :
    AllOrNothing (newRequest "x") (keptStore.afterRequests [newRequest ""])
        ((newRequest "x").perform (keptStore.afterRequests [newRequest ""])).1
        (keptStore.afterRequests [newRequest "", newRequest "x"]) ∧
      (keptStore.afterRequests [newRequest "", newRequest "x"]).content? ["out.ts"] =
        some "// keep" := by
  obtain ⟨hsteps, hfiles⟩ := requests_all_or_nothing keptStore [newRequest "", newRequest "x"]
  exact ⟨hsteps [newRequest ""] (newRequest "x") [] rfl, hfiles ["out.ts"]⟩

end Schemata
