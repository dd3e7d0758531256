import NotebookExtract.Command.Machine
import NotebookExtract.Proofs.Notebook.Layout
import NotebookExtract.Proofs.Shown
import NotebookExtract.Proofs.Utf8

/-!
# What each stage does to a machine

A run goes through its stages in order: it settles the options, loads the notebook,
extracts the artifact and delivers it. A stage that fails is the last one, and leaves
the machine as it was then. The stages before the delivery leave it as they found it,
so nothing is printed or written until there is an artifact.
-/

namespace NotebookExtract

theorem Notebook.ofBytes_eq_ok_iff {bytes : Except FileFailure Bytes} {notebook : Notebook} :
    Notebook.ofBytes bytes = .ok notebook ↔
      ∃ document, bytes = .ok (Text.toUtf8 document) ∧ Notebook.ofText document = .ok notebook := by
  unfold Notebook.ofBytes
  cases bytes with
  | error why => simp
  | ok bytes =>
    cases hdecoded : Text.ofUtf8? bytes with
    | none =>
      have hnone : ∀ document, bytes ≠ Text.toUtf8 document := by
        rintro document rfl
        simp at hdecoded
      simp [hdecoded, hnone]
    | some document =>
      obtain rfl := Text.ofUtf8?_eq_some_iff.mp hdecoded
      simp [Text.toUtf8_inj]

namespace Command

variable {machine next : Machine} {args : List Bytes} {request : Request}
  {options : Extract.Options} {notebook : Notebook} {artifact : Artifact} {α β : Type}

/-! ## One stage after the other -/

/-- What a stage comes to on a machine, and the machine after it. -/
def Machine.outcome (machine : Machine) (stage : ExceptT RunFailure (StateM Machine) α) :
    Except RunFailure α × Machine :=
  StateT.run (ExceptT.run stage) machine

/-- Where a stage succeeds, the next one goes on from there. -/
theorem outcome_bind_of_ok {stage : ExceptT RunFailure (StateM Machine) α} {a : α}
    {later : α → ExceptT RunFailure (StateM Machine) β}
    (h : machine.outcome stage = (.ok a, next)) :
    machine.outcome (stage >>= later) = next.outcome (later a) := by
  change StateT.run (ExceptT.bindCont later (machine.outcome stage).1)
    (machine.outcome stage).2 = _
  rw [h]
  rfl

/-- A stage that fails is the last one. -/
theorem outcome_bind_of_error {stage : ExceptT RunFailure (StateM Machine) α} {why : RunFailure}
    {later : α → ExceptT RunFailure (StateM Machine) β}
    (h : machine.outcome stage = (.error why, next)) :
    machine.outcome (stage >>= later) = (.error why, next) := by
  change StateT.run (ExceptT.bindCont later (machine.outcome stage).1)
    (machine.outcome stage).2 = _
  rw [h]
  rfl

/-! ## The stages that read -/

/-- The text of the setting file at the first of some paths that leads to a file. -/
def settingText? (disk : Disk) (paths : List Bytes) : Option Text :=
  (paths.find? disk.isFile).bind fun path => (disk.read path).toOption.map Text.ofUtf8Lossy

/-- The text of the setting file that a request names on a disk. -/
def requestText? (disk : Disk) (request : Request) : Option Text :=
  request.config.bind fun path => settingText? disk (settingPaths disk.homePath path)

/-- The bytes that an input stands for on a machine. -/
def Machine.source (machine : Machine) (input : Bytes) : Except FileFailure Bytes :=
  if isStandardInput input then machine.input else machine.disk.read input

theorem run_findSettings (machine : Machine) (paths : List Bytes) :
    StateT.run (findSettings Machine.host paths) machine =
      (settingText? machine.disk paths, machine) := by
  induction paths with
  | nil => rfl
  | cons path rest ih =>
    rw [findSettings]
    change StateT.run (if machine.disk.isFile path then _ else _) machine = _
    cases hfile : machine.disk.isFile path with
    | false =>
      have hskip : settingText? machine.disk (path :: rest) = settingText? machine.disk rest := by
        simp [settingText?, hfile]
      rw [hskip, ← ih]
      rfl
    | true =>
      have hfound : settingText? machine.disk (path :: rest) =
          (machine.disk.read path).toOption.map Text.ofUtf8Lossy := by
        simp [settingText?, hfile]
      have hread : StateT.run (Machine.host.readFile path) machine =
          (machine.disk.read path, machine) := rfl
      rw [hfound, if_pos rfl, StateT.run_bind, hread]
      cases machine.disk.read path <;> rfl

theorem run_readSettings (machine : Machine) (request : Request) :
    StateT.run (readSettings Machine.host request) machine =
      (requestText? machine.disk request, machine) := by
  rw [readSettings, requestText?]
  cases request.config with
  | none => rfl
  | some path => exact run_findSettings machine (settingPaths machine.disk.homePath path)

theorem outcome_loadOptions (machine : Machine) (request : Request) :
    machine.outcome (loadOptions Machine.host request) =
      ((requestLoader request (requestText? machine.disk request)).build.mapError .settings,
        machine) := by
  change ((requestLoader request
      (StateT.run (readSettings Machine.host request) machine).1).build.mapError
        RunFailure.settings,
    (StateT.run (readSettings Machine.host request) machine).2) = _
  rw [run_readSettings]

theorem outcome_loadNotebook (machine : Machine) (input : Bytes) :
    machine.outcome (loadNotebook Machine.host input) =
      ((Notebook.ofBytes (machine.source input)).mapError (.load input), machine) := by
  rw [loadNotebook, Machine.source]
  cases isStandardInput input <;> rfl

theorem outcome_extractArtifact (machine : Machine) (request : Request)
    (options : Extract.Options) (notebook : Notebook) :
    machine.outcome (extractArtifact request options notebook) =
      ((extract options (sourceName? request.input) notebook).mapError (.extract request.input),
        machine) :=
  rfl

/-! ## The stage that writes -/

theorem outcome_deliver_of_stdout (h : request.stdout = true) (machine : Machine)
    (artifact : Artifact) :
    machine.outcome (deliver Machine.host request artifact) =
      ((machine.print (Text.toUtf8 artifact.content)).1.mapError .print,
        (machine.print (Text.toUtf8 artifact.content)).2) := by
  rw [deliver, h]
  rfl

theorem outcome_deliver_of_file (h : request.stdout = false) (machine : Machine)
    (artifact : Artifact) :
    machine.outcome (deliver Machine.host request artifact) =
      ((machine.write (targetPath request artifact) (Text.toUtf8 artifact.content)).1.mapError
          (.write (targetPath request artifact)),
        (machine.write (targetPath request artifact) (Text.toUtf8 artifact.content)).2) := by
  rw [deliver, h]
  rfl

/-! ## The whole run -/

/-- The run gets as far as an artifact: its arguments make the request, its settings
give the options, its input holds the notebook, and the artifact is what these give. -/
structure Produces (machine : Machine) (args : List Bytes) (request : Request)
    (options : Extract.Options) (notebook : Notebook) (artifact : Artifact) : Prop where
  asks : Request.ofArguments args = .ok request
  settles : (requestLoader request (requestText? machine.disk request)).build = .ok options
  loads : ∃ document, machine.source request.input = .ok (Text.toUtf8 document) ∧
    Notebook.ofText document = .ok notebook
  makes : extract options (sourceName? request.input) notebook = .ok artifact

/-- How a run ends that comes to something on a machine. -/
def ending (result : Except RunFailure Unit × Machine) : Ending × Machine :=
  match result.1 with
  | .ok () => (.done, result.2)
  | .error why => (.failed why, result.2)

theorem run_of_ofArguments (h : Request.ofArguments args = .ok request) :
    machine.run args = ending (machine.outcome (perform Machine.host request)) := by
  rw [Machine.run, Command.run, h]
  change StateT.run (match (machine.outcome (perform Machine.host request)).1 with
    | .ok () => _
    | .error _ => _) (machine.outcome (perform Machine.host request)).2 = _
  unfold ending
  cases (machine.outcome (perform Machine.host request)).1 <;> rfl

/-- A run with an artifact delivers it. -/
theorem run_of_produces (h : Produces machine args request options notebook artifact) :
    machine.run args = ending (machine.outcome (deliver Machine.host request artifact)) := by
  have hoptions : machine.outcome (loadOptions Machine.host request) = (.ok options, machine) := by
    rw [outcome_loadOptions, h.settles]
    rfl
  have hnotebook : machine.outcome (loadNotebook Machine.host request.input) =
      (.ok notebook, machine) := by
    rw [outcome_loadNotebook, Notebook.ofBytes_eq_ok_iff.mpr h.loads]
    rfl
  have hartifact : machine.outcome (extractArtifact request options notebook) =
      (.ok artifact, machine) := by
    rw [outcome_extractArtifact, h.makes]
    rfl
  rw [run_of_ofArguments h.asks, perform, outcome_bind_of_ok hoptions,
    outcome_bind_of_ok hnotebook, outcome_bind_of_ok hartifact]

/-- A request either fails before its delivery and leaves the machine as it was, or has an
artifact. -/
theorem failed_or_produces (machine : Machine) (hasks : Request.ofArguments args = .ok request) :
    (∃ why, machine.run args = (.failed why, machine)) ∨
    ∃ options notebook artifact, Produces machine args request options notebook artifact := by
  have hfailed : ∀ why, machine.outcome (perform Machine.host request) = (.error why, machine) →
      machine.run args = (.failed why, machine) := by
    intro why houtcome
    rw [run_of_ofArguments hasks, houtcome]
    rfl
  have hoptions := outcome_loadOptions machine request
  cases hsettles : (requestLoader request (requestText? machine.disk request)).build with
  | error why =>
    rw [hsettles] at hoptions
    refine Or.inl ⟨.settings why, hfailed _ ?_⟩
    exact outcome_bind_of_error hoptions
  | ok options =>
    rw [hsettles] at hoptions
    have hnotebook := outcome_loadNotebook machine request.input
    cases hloads : Notebook.ofBytes (machine.source request.input) with
    | error why =>
      rw [hloads] at hnotebook
      refine Or.inl ⟨.load request.input why, hfailed _ ?_⟩
      rw [perform, outcome_bind_of_ok hoptions]
      exact outcome_bind_of_error hnotebook
    | ok notebook =>
      rw [hloads] at hnotebook
      have hartifact := outcome_extractArtifact machine request options notebook
      cases hmakes : extract options (sourceName? request.input) notebook with
      | error why =>
        rw [hmakes] at hartifact
        refine Or.inl ⟨.extract request.input why, hfailed _ ?_⟩
        rw [perform, outcome_bind_of_ok hoptions, outcome_bind_of_ok hnotebook]
        exact outcome_bind_of_error hartifact
      | ok artifact =>
        exact Or.inr ⟨options, notebook, artifact, hasks, hsettles,
          Notebook.ofBytes_eq_ok_iff.mp hloads, hmakes⟩

/-- A run gets to one artifact at most. -/
theorem Produces.eq {request' : Request} {options' : Extract.Options} {notebook' : Notebook}
    {artifact' : Artifact} (h : Produces machine args request options notebook artifact)
    (h' : Produces machine args request' options' notebook' artifact') :
    request' = request ∧ artifact' = artifact := by
  obtain rfl := Except.ok.inj (h'.asks.symm.trans h.asks)
  obtain rfl := Except.ok.inj (h'.settles.symm.trans h.settles)
  have hnotebook : Notebook.ofBytes (machine.source request'.input) = .ok notebook' :=
    Notebook.ofBytes_eq_ok_iff.mpr h'.loads
  rw [Notebook.ofBytes_eq_ok_iff.mpr h.loads] at hnotebook
  obtain rfl := Except.ok.inj hnotebook
  exact ⟨rfl, Except.ok.inj (h'.makes.symm.trans h.makes)⟩

/-- The content of an artifact comes from the options and the notebook alone. -/
theorem content_eq_of_produces {machine' : Machine} {args' : List Bytes} {request' : Request}
    {artifact' : Artifact} (h : Produces machine args request options notebook artifact)
    (h' : Produces machine' args' request' options notebook artifact') :
    artifact'.content = artifact.content := by
  obtain ⟨r, hr, rfl⟩ := extract_eq_ok_iff.mp h.makes
  obtain ⟨r', hr', rfl⟩ := extract_eq_ok_iff.mp h'.makes
  rw [hr, Except.ok.injEq] at hr'
  rw [hr']

theorem fileName_of_produces (h : Produces machine args request options notebook artifact) :
    artifact.fileName = Naming.fileName (sourceName? request.input) options.format := by
  obtain ⟨r, -, rfl⟩ := extract_eq_ok_iff.mp h.makes
  rfl

end Command

end NotebookExtract
