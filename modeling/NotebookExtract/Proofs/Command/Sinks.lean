import NotebookExtract.Proofs.Command.Paths
import NotebookExtract.Proofs.Command.Stages

/-!
# One sink or none

A run that fails leaves the machine as it was, whatever stage it fails in: the stages
that read change nothing, and a delivery that fails has changed nothing. A run that
succeeds has an artifact and gives it to one sink: standard output, the file that its
path leads to, or what else its path leads to. What is written does not depend on where.

A path may lead to standard output without naming it, so a run can print its artifact
without being asked to by `--stdout`.
-/

namespace NotebookExtract

/-! ## Where a path lets bytes be written -/

namespace Disk

variable {disk : Disk} {path : Bytes} {location : Location} {stream : Stream}

theorem isPrefixOf_home_eq_false (h : disk.get? location ≠ some .folder) :
    location.isPrefixOf disk.home = false := by
  rw [← Bool.not_eq_true]
  intro hprefix
  exact h (if_pos hprefix)

theorem exists_locate_of_sink {sink : Sink} (h : disk.sink path = .ok sink) :
    ∃ location, disk.locate path = .ok location ∧ disk.sinkAt location = .ok sink := by
  rw [Disk.sink] at h
  cases hlocate : disk.locate path with
  | error why =>
    rw [hlocate] at h
    cases h
  | ok location =>
    rw [hlocate] at h
    exact ⟨location, rfl, h⟩

/-- Bytes go to a file where the path leads to no folder and to no stream. -/
theorem locate_of_sink_file (h : disk.sink path = .ok (.file location)) :
    disk.locate path = .ok location ∧ disk.get? location ≠ some .folder ∧
      ∀ stream, disk.get? location ≠ some (.stream stream) := by
  obtain ⟨found, hlocate, hsink⟩ := exists_locate_of_sink h
  suffices hfound : found = location ∧ disk.get? found ≠ some .folder ∧
      ∀ stream, disk.get? found ≠ some (.stream stream) by
    obtain ⟨rfl, hplain⟩ := hfound
    exact ⟨hlocate, hplain⟩
  rw [sinkAt] at hsink
  split at hsink
  · cases hsink
  · split at hsink <;> cases hsink
  all_goals
    -- a file, or nothing yet
    rename_i hentry
    split at hsink
    · cases hsink
    · cases hsink
      exact ⟨rfl, by simp [hentry], by simp [hentry]⟩

/-- Bytes go to a stream where the path leads to it. -/
theorem locate_of_sink_stream (h : disk.sink path = .ok (.stream stream)) :
    ∃ location, disk.locate path = .ok location ∧
      disk.get? location = some (.stream stream) := by
  obtain ⟨location, hlocate, hsink⟩ := exists_locate_of_sink h
  refine ⟨location, hlocate, ?_⟩
  rw [sinkAt] at hsink
  split at hsink
  · cases hsink
  · rename_i hentry
    split at hsink
    · cases hsink
    · cases hsink
      exact hentry
  all_goals split at hsink <;> cases hsink

end Disk

namespace Command

open Disk

variable {machine : Machine} {args : List Bytes} {request : Request}
  {options : Extract.Options} {notebook : Notebook} {artifact : Artifact}

/-! ## Where the artifact goes -/

/-- The path of a request's artifact: the output path; without one the path of the
notebook, with the file name in the place of its last name; and the file name alone when
the notebook is read from standard input. -/
def IsTarget (request : Request) (fileName : Text) (target : Bytes) : Prop :=
  match request.output with
  | some path => target = path
  | none =>
    if isStandardInput request.input then target = Text.toUtf8 fileName
    else isAbsolute target = isAbsolute request.input ∧
      names target = (names request.input).dropLast ++ [Text.toUtf8 fileName]

/-- Of two machines the second has a file at a location, and there is no other
difference. -/
structure DiffersAt (location : Location) (content : Bytes) (before after : Machine) :
    Prop where
  holds : after.disk.get? location = some (.file content)
  others : ∀ other, other ≠ location → after.disk.get? other = before.disk.get? other
  rest : after = { before with disk := { before.disk with entries := after.disk.entries } }

/-- The one thing that a run does with its artifact. -/
inductive Delivered (before : Machine) (request : Request) (artifact : Artifact)
    (after : Machine) : Prop where
  /-- It prints the content, as `--stdout` asks. -/
  | printed (asked : request.stdout = true)
      (shown : after = before.appear (Text.toUtf8 artifact.content))
  /-- It writes the content to the one file that the artifact's path leads to. -/
  | wrote (target : Bytes) (location : Location) (unasked : request.stdout = false)
      (named : IsTarget request artifact.fileName target)
      (leads : before.disk.locate target = .ok location)
      (plain : ∀ stream, before.disk.get? location ≠ some (.stream stream))
      (differs : DiffersAt location (Text.toUtf8 artifact.content) before after)
  /-- It hands the content to the stream that the artifact's path leads to. -/
  | handed (target : Bytes) (location : Location) (stream : Stream)
      (unasked : request.stdout = false) (named : IsTarget request artifact.fileName target)
      (leads : before.disk.locate target = .ok location)
      (reached : before.disk.get? location = some (.stream stream))
      (shown : after = if stream.isOutput then before.appear (Text.toUtf8 artifact.content)
        else before)

/-- The sink of a request takes nothing. -/
def Refused (machine : Machine) (request : Request) (fileName : Text) : Prop :=
  if request.stdout then machine.blocked ≠ none
  else ∃ target why, IsTarget request fileName target ∧ machine.disk.sink target = .error why

/-- The path that the artifact is written to is the one that the request gives it. -/
theorem isTarget_targetPath (h : Produces machine args request options notebook artifact) :
    IsTarget request artifact.fileName (targetPath request artifact) := by
  unfold IsTarget targetPath
  cases request.output with
  | some path => rfl
  | none =>
    dsimp only
    cases hinput : isStandardInput request.input with
    | true => simp
    | false =>
      have hslash : slash ∉ Text.toUtf8 artifact.fileName :=
        fileName_of_produces h ▸ Naming.slash_not_mem_fileName
      have hidle : isIdle (Text.toUtf8 artifact.fileName) = false :=
        fileName_of_produces h ▸ Naming.isIdle_fileName
      -- the notebook was read from the path, so there is a name on it
      have hnames : names request.input ≠ [] := by
        obtain ⟨document, hsource, -⟩ := h.loads
        rw [Machine.source, hinput, if_neg Bool.false_ne_true] at hsource
        obtain ⟨last, hlast, hname⟩ := endsInName_of_read hsource
        rw [names_eq_of_getLast? hlast hname]
        simp
      rw [if_neg Bool.false_ne_true, if_neg Bool.false_ne_true]
      exact ⟨isAbsolute_sibling hslash hnames, names_sibling request.input hslash hidle⟩

theorem differsAt_put {location : Location} (h : machine.disk.get? location ≠ some .folder)
    (content : Bytes) :
    DiffersAt location content machine
      { machine with disk := machine.disk.put location content } := by
  have hget := get?_put (isPrefixOf_home_eq_false h) content
  refine ⟨?_, ?_, rfl⟩
  · rw [hget, if_pos rfl]
  · intro other hne
    rw [hget, if_neg hne]

/-! ## The whole run -/

/-- A run with an artifact delivers it, unless its sink takes nothing: then the machine
is as it was. -/
theorem delivered_or_refused (h : Produces machine args request options notebook artifact) :
    ((machine.run args).1 = .done ∧ Delivered machine request artifact (machine.run args).2) ∨
    ((machine.run args).1.exitCode = 1 ∧ (machine.run args).2 = machine ∧
      Refused machine request artifact.fileName) := by
  rw [run_of_produces h]
  cases hstdout : request.stdout with
  | true =>
    rw [outcome_deliver_of_stdout hstdout, Machine.print]
    cases hblocked : machine.blocked with
    | none => exact Or.inl ⟨rfl, .printed hstdout rfl⟩
    | some why =>
      refine Or.inr ⟨rfl, rfl, ?_⟩
      rw [Refused, if_pos hstdout, hblocked]
      simp
  | false =>
    have hnamed := isTarget_targetPath h
    rw [outcome_deliver_of_file hstdout, Machine.write]
    cases hsink : machine.disk.sink (targetPath request artifact) with
    | error why =>
      refine Or.inr ⟨rfl, rfl, ?_⟩
      rw [Refused, hstdout, if_neg Bool.false_ne_true]
      exact ⟨_, why, hnamed, hsink⟩
    | ok sink =>
      left
      cases sink with
      | file location =>
        obtain ⟨hlocate, hfolder, hplain⟩ := locate_of_sink_file hsink
        exact ⟨rfl, .wrote _ location hstdout hnamed hlocate hplain (differsAt_put hfolder _)⟩
      | stream stream =>
        obtain ⟨location, hlocate, hreached⟩ := locate_of_sink_stream hsink
        exact ⟨rfl, .handed _ location stream hstdout hnamed hlocate hreached rfl⟩

/-- Apart from help and version, a run fails and leaves the machine as it was, or it has an
artifact and delivers it. -/
theorem unchanged_or_delivered (machine : Machine) {args : List Bytes}
    (hhelp : Request.ofArguments args ≠ .error .help)
    (hversion : Request.ofArguments args ≠ .error .version) :
    ((machine.run args).1.exitCode ≠ 0 ∧ (machine.run args).2 = machine) ∨
    ((machine.run args).1.exitCode = 0 ∧ ∃ request options notebook artifact,
      Produces machine args request options notebook artifact ∧
        Delivered machine request artifact (machine.run args).2) := by
  cases hargs : Request.ofArguments args with
  | error why =>
    -- no request: of the three reasons only a mistake is left
    cases why with
    | help => exact absurd hargs hhelp
    | version => exact absurd hargs hversion
    | usage =>
      have hrun : machine.run args = (.stopped .usage, machine) := by
        rw [Machine.run, Command.run, hargs]
        rfl
      rw [hrun]
      exact Or.inl ⟨Nat.succ_ne_zero 1, rfl⟩
  | ok request =>
    rcases failed_or_produces machine hargs with ⟨why, hrun⟩ |
      ⟨options, notebook, artifact, hproduces⟩
    · -- no artifact
      left
      rw [hrun]
      exact ⟨Nat.one_ne_zero, rfl⟩
    · rcases delivered_or_refused hproduces with ⟨hdone, hdelivered⟩ | ⟨hone, hsame, -⟩
      · right
        exact ⟨by rw [hdone]; rfl, request, options, notebook, artifact, hproduces, hdelivered⟩
      · left
        exact ⟨by rw [hone]; exact Nat.one_ne_zero, hsame⟩

/-- A notebook with one code cell. -/
def plainNotebook : Notebook where
  cells := [{ kind := .code, source := some (.whole "x = 1 # a".toList) }]

theorem ofText_plainText : Notebook.ofText Notebook.plainText = .ok plainNotebook :=
  Notebook.ofText_eq_ok_iff.mpr
    ((Notebook.parse_eq_ok_iff_of_fills Notebook.plainDoc_fills).mpr rfl)

/-- What a request is when arguments say nothing but its input. -/
def bareRequest (input : Bytes) : Request where
  input := input
  output := none
  stdout := false
  format := none
  codeOnly := false
  keepComments := false
  keepLineComments := false
  keepDocstrings := false
  config := none
  verbosity := 0

/-- What the artifact of the notebook holds. -/
def plainContent : Text := "# Cell 1 (Code)\nx = 1".toList

/-- The name of a place. -/
def named (name : String) : Bytes := Text.toUtf8 name.toList

/-- A machine with the notebook in its working folder, and a link to that folder. -/
def linkedMachine : Machine where
  disk := {
    home := [named "w", named "d"]
    entries := [
      ([named "w", named "d", named "a.ipynb"], .file (Text.toUtf8 Notebook.plainText)),
      ([named "l"], .link (named "/w/d"))] }

/-- A path from the root to the notebook, through the link and the folder above. -/
def linkedPath : Bytes := named "/l/..//d/./a.ipynb"

/-- The artifact of the notebook. -/
def linkedArtifact : Artifact := ⟨plainContent, "a_extracted.py".toList, 1⟩

theorem produces_linked : Produces linkedMachine [linkedPath] (bareRequest linkedPath) {}
    plainNotebook linkedArtifact := by
  have hlocate : linkedMachine.disk.locate linkedPath =
      .ok [named "w", named "d", named "a.ipynb"] := by decide +kernel
  have hsource : linkedMachine.source linkedPath = .ok (Text.toUtf8 Notebook.plainText) := by
    have hinput : isStandardInput linkedPath = false := by decide +kernel
    rw [Machine.source, hinput, if_neg Bool.false_ne_true, Disk.read, hlocate]
    rfl
  exact ⟨by decide +kernel, by rfl, ⟨Notebook.plainText, hsource, ofText_plainText⟩,
    by decide +kernel⟩

/-- A machine with the notebook on standard input, and the path that leads to standard
output. -/
def streamMachine : Machine where
  disk := {
    entries := [
      ([named "dev"], .folder),
      ([named "dev", named "stdout"], .link (named "/proc/self/fd/1")),
      ([named "proc"], .folder),
      ([named "proc", named "self"], .folder),
      ([named "proc", named "self", named "fd"], .folder),
      ([named "proc", named "self", named "fd", named "1"],
        .stream { gives := .error .denied, isOutput := true })] }
  input := .ok (Text.toUtf8 Notebook.plainText)

/-- Arguments that ask for an output path, and not for standard output. -/
def streamArgs : List Bytes := [named "-", named "-o", named "/dev/stdout"]

/-- The request that they make. -/
def streamRequest : Request :=
  { bareRequest (named "-") with output := some (named "/dev/stdout") }

theorem produces_stream : Produces streamMachine streamArgs streamRequest {} plainNotebook
    ⟨plainContent, "notebook_extracted.py".toList, 1⟩ := by
  have hsource : streamMachine.source (named "-") = .ok (Text.toUtf8 Notebook.plainText) := by
    have hinput : isStandardInput (named "-") = true := by decide +kernel
    rw [Machine.source, hinput, if_pos rfl]
    rfl
  exact ⟨by decide +kernel, by rfl, ⟨Notebook.plainText, hsource, ofText_plainText⟩,
    by decide +kernel⟩

end Command

end NotebookExtract
