import DepotDownloader.Foundation.Interleaving
import DepotDownloader.SteamClient.Download.Effects

/-! # The events of a download

The events about files are an interleaving of one outcome for each entry of the manifest,
and the progress values count the entries that have been dealt with.
-/

namespace DepotDownloader.SteamClient

open Foundation Foundation.LexPath Steam

namespace DownloadEvent

/-- The event starts, completes or skips a file. -/
def concernsFile : DownloadEvent → Bool
  | fileStarted _ _ _ | fileCompleted _ | fileSkipped _ => true
  | chunkCompleted _ _ | depotProgress _ _ => false

/-- The two values of a progress event. -/
def progress : DownloadEvent → Option (Nat × Nat)
  | depotProgress filesCompleted filesTotal => some (filesCompleted, filesTotal)
  | _ => none

end DownloadEvent

def Effect.sent : Effect → Option DownloadEvent
  | send event => some event
  | _ => none

namespace World

/-- What has been sent on the event channel, in order. -/
def events (world : World) : List DownloadEvent := (world.log.filterMap Effect.sent).reverse

def fileEvents (world : World) : List DownloadEvent :=
  world.events.filter DownloadEvent.concernsFile

/-- The progress events, each with its two values. -/
def progress (world : World) : List (Nat × Nat) := world.events.filterMap DownloadEvent.progress

@[simp] theorem events_emit_send (world : World) (event : DownloadEvent) :
    (world.emit (.send event)).events = world.events ++ [event] := by
  simp [events, Effect.sent]

theorem events_emit_of_unsent (world : World) {effect : Effect} (hunsent : effect.sent = none) :
    (world.emit effect).events = world.events := by
  simp [events, hunsent]

theorem fileEvents_send (world : World) (event : DownloadEvent) :
    (world.emit (.send event)).fileEvents =
      world.fileEvents ++ if event.concernsFile then [event] else [] := by
  rw [fileEvents, events_emit_send, List.filter_append]
  cases event <;> rfl

theorem progress_send (world : World) (event : DownloadEvent) :
    (world.emit (.send event)).progress = world.progress ++ event.progress.toList := by
  rw [progress, events_emit_send, List.filterMap_append]
  cases event <;> rfl

end World

/-- An entry without a name has no events. Any other one is skipped, or it is started and
then completed. -/
def FileOutcome (file : ManifestFile) (events : List DownloadEvent) : Prop :=
  match file.filename with
  | none => events = []
  | some name =>
      events = [.fileSkipped name] ∨
        events = [.fileStarted name file.chunks.length file.size, .fileCompleted name]

/-- The events interleave the outcomes of the entries. -/
def Accounted (files : List ManifestFile) (events : List DownloadEvent) : Prop :=
  ∃ outcomes, Interleaves outcomes events ∧ List.Forall₂ FileOutcome files outcomes

/-- An entry that the loop has passed. If its file was started, has it completed? -/
structure Account where
  file : ManifestFile
  completed : Option Bool

namespace Account

/-- The file task, as its events show it. -/
def started (account : Account) : Option (Option String × Bool) :=
  account.completed.map fun completed => (account.file.filename, completed)

def events (account : Account) : List DownloadEvent :=
  match account.file.filename with
  | none => []
  | some name =>
      match account.completed with
      | none => [.fileSkipped name]
      | some completed =>
          .fileStarted name account.file.chunks.length account.file.size ::
            if completed then [.fileCompleted name] else []

/-- A started file is found among the accounts, and completes there. -/
theorem exists_complete {accounts : List Account} {position : Nat} {name : Option String}
    (hstarted : (accounts.filterMap started)[position]? = some (name, false)) :
    ∃ (index : Nat) (file : ManifestFile), accounts[index]? = some ⟨file, some false⟩ ∧
      file.filename = name ∧ (accounts.set index ⟨file, some true⟩).filterMap started =
        (accounts.filterMap started).set position (name, true) := by
  induction accounts generalizing position with
  | nil => cases hstarted
  | cons account rest ih =>
      cases hfirst : account.started with
      | none =>
          rw [List.filterMap_cons_none hfirst] at hstarted
          obtain ⟨index, file, hfile, hname, hset⟩ := ih hstarted
          refine ⟨index + 1, file, hfile, hname, ?_⟩
          rw [List.set_cons_succ, List.filterMap_cons_none hfirst, hset,
            List.filterMap_cons_none hfirst]
      | some first =>
          rw [List.filterMap_cons_some hfirst] at hstarted
          cases position with
          | zero =>
              obtain rfl := Option.some.inj hstarted
              obtain ⟨file, completed⟩ := account
              obtain ⟨completed, rfl, hpair⟩ := Option.map_eq_some_iff.mp hfirst
              obtain ⟨rfl, rfl⟩ := Prod.mk.inj hpair
              refine ⟨0, file, rfl, rfl, ?_⟩
              rw [List.set_cons_zero, List.filterMap_cons_some hfirst]
              rfl
          | succ position =>
              obtain ⟨index, file, hfile, hname, hset⟩ := ih hstarted
              refine ⟨index + 1, file, hfile, hname, ?_⟩
              rw [List.set_cons_succ, List.filterMap_cons_some hfirst, hset,
                List.filterMap_cons_some hfirst, List.set_cons_succ]

end Account

/-- The accounts of the entries that have been passed, with the file tasks and the events so
far. -/
def Ledger (passed : List ManifestFile) (started : List (Option String × Bool))
    (events : List DownloadEvent) : Prop :=
  ∃ accounts : List Account, accounts.map Account.file = passed ∧
    accounts.filterMap Account.started = started ∧
      Interleaves (accounts.map Account.events) events

namespace Ledger

variable {passed : List ManifestFile} {started : List (Option String × Bool)}
  {events : List DownloadEvent} {file : ManifestFile} {name : String}

theorem nil : Ledger [] [] [] := ⟨[], rfl, rfl, .nil nofun⟩

theorem pass (hledger : Ledger passed started events) (hname : file.filename = none) :
    Ledger (passed ++ [file]) started events := by
  obtain ⟨accounts, rfl, rfl, hshares⟩ := hledger
  refine ⟨accounts ++ [⟨file, none⟩], by simp, by simp [Account.started], ?_⟩
  simpa [Account.events, hname] using hshares.push

theorem skip (hledger : Ledger passed started events) (hname : file.filename = some name) :
    Ledger (passed ++ [file]) started (events ++ [.fileSkipped name]) := by
  obtain ⟨accounts, rfl, rfl, hshares⟩ := hledger
  refine ⟨accounts ++ [⟨file, none⟩], by simp, by simp [Account.started], ?_⟩
  simpa [Account.events, hname] using hshares.push_one (.fileSkipped name)

theorem start (hledger : Ledger passed started events) (hname : file.filename = some name) :
    Ledger (passed ++ [file]) (started ++ [(some name, false)])
      (events ++ [.fileStarted name file.chunks.length file.size]) := by
  obtain ⟨accounts, rfl, rfl, hshares⟩ := hledger
  refine ⟨accounts ++ [⟨file, some false⟩], by simp, by simp [Account.started, hname], ?_⟩
  simpa [Account.events, hname] using
    hshares.push_one (.fileStarted name file.chunks.length file.size)

theorem complete (hledger : Ledger passed started events) {position : Nat}
    (hstarted : started[position]? = some (some name, false)) :
    Ledger passed (started.set position (some name, true))
      (events ++ [.fileCompleted name]) := by
  obtain ⟨accounts, rfl, rfl, hshares⟩ := hledger
  obtain ⟨index, file, hfile, hname, hset⟩ := Account.exists_complete hstarted
  refine ⟨accounts.set index ⟨file, some true⟩, ?_, hset, ?_⟩
  · have hkept : (accounts.map Account.file)[index]? = some file := by
      rw [List.getElem?_map, hfile]
      rfl
    obtain ⟨hlt, hget⟩ := List.getElem?_eq_some_iff.mp hkept
    rw [List.map_set]
    exact hget ▸ List.set_getElem_self hlt
  · have hshare : (accounts.map Account.events)[index]? =
        some (Account.events ⟨file, some false⟩) := by
      rw [List.getElem?_map, hfile]
      rfl
    have hsnoc : Interleaves _ (events ++ [.fileCompleted name]) := hshares.snoc hshare
    rw [List.map_set]
    simpa [Account.events, hname] using hsnoc

/-- When all started files have completed, every entry has its outcome. -/
theorem accounted (hledger : Ledger passed started events)
    (hall : ∀ file ∈ started, file.2 = true) : Accounted passed events := by
  obtain ⟨accounts, rfl, rfl, hshares⟩ := hledger
  refine ⟨accounts.map Account.events, hshares, ?_⟩
  rw [List.forall₂_map_left_iff, List.forall₂_map_right_iff, List.forall₂_same]
  intro account hmem
  unfold FileOutcome Account.events
  split
  next => rfl
  next name hname =>
    cases hcompleted : account.completed with
    | none => exact .inl rfl
    | some completed =>
        have hstarted : account.started = some (some name, completed) := by
          simp [Account.started, hcompleted, hname]
        have hdone := hall _ (List.mem_filterMap.mpr ⟨account, hmem, hstarted⟩)
        rw [show completed = true from hdone]
        exact .inr rfl

/-- A file that was started has a task. -/
theorem started_ne_nil (hledger : Ledger passed started events) {chunks : Nat}
    {size : Option Nat} (hmem : .fileStarted name chunks size ∈ events) : started ≠ [] := by
  obtain ⟨accounts, rfl, rfl, hshares⟩ := hledger
  obtain ⟨share, hshare, hevent⟩ := hshares.mem hmem
  obtain ⟨account, haccount, rfl⟩ := List.mem_map.mp hshare
  cases hcompleted : account.completed with
  | none =>
      unfold Account.events at hevent
      rw [hcompleted] at hevent
      split at hevent
      next => cases hevent
      next => simp at hevent
  | some completed =>
      have hstarted : account.started = some (account.file.filename, completed) := by
        rw [Account.started, hcompleted, Option.map_some]
      exact List.ne_nil_of_mem (List.mem_filterMap.mpr ⟨account, haccount, hstarted⟩)

end Ledger

/-- A file task, as the ledger lists it. -/
def FileJob.started (fileJob : FileJob) : Option String × Bool :=
  (some fileJob.task.filename, fileJob.finished == some (.ok ()))

def JobState.started (state : JobState) : List (Option String × Bool) :=
  state.files.map FileJob.started

namespace JobContext

variable (ctx : JobContext)

/-- The entries with a name. -/
def named (files : List ManifestFile) : Nat := (files.filterMap ManifestFile.filename).length

/-- The progress events count up to a number of entries. -/
structure Counter (progress : List (Nat × Nat)) (filesCompleted : Nat) : Prop where
  increasing : (progress.map Prod.fst).Pairwise (· < ·)
  bounded : ∀ values ∈ progress, values.1 ≤ filesCompleted
  total : ∀ values ∈ progress, values.2 = ctx.manifest.files.length

/-- The events and the counter of a job that has passed some of the entries and awaited some
of the tasks. -/
structure Tally (world : World) (state : JobState) (passed : List ManifestFile)
    (awaited : Nat) : Prop where
  passed_eq : ctx.manifest.files = passed ++ state.stage.unspawned
  ledger : Ledger passed state.started world.fileEvents
  counter : ctx.Counter world.progress state.filesCompleted
  counted : state.filesCompleted + state.files.length = named passed + awaited
  spawning : ∀ rest, state.stage = .spawning rest → awaited = 0
  awaiting : ∀ position, state.stage = .awaiting position → awaited = position
  complete : state.stage.deletes = true → awaited = state.files.length
  finished : ∀ position < awaited, ∃ name, state.started[position]? = some (name, true)
  last : 0 < awaited → ∃ filesTotal,
    world.progress.getLast? = some (state.filesCompleted, filesTotal)

variable {ctx} {world world' : World} {state state' : JobState} {move : JobMove}
  {passed : List ManifestFile} {awaited : Nat}

theorem named_concat (file : ManifestFile) :
    named (passed ++ [file]) = named passed + if file.filename.isSome then 1 else 0 := by
  unfold named
  cases hname : file.filename <;> simp [hname]

namespace Counter

variable {progress : List (Nat × Nat)} {filesCompleted : Nat}

theorem succ (hcounter : ctx.Counter progress filesCompleted) :
    ctx.Counter progress (filesCompleted + 1) where
  increasing := hcounter.increasing
  bounded values hmem := Nat.le_succ_of_le (hcounter.bounded values hmem)
  total := hcounter.total

/-- The counter goes up and is sent. -/
theorem send (hcounter : ctx.Counter progress filesCompleted) :
    ctx.Counter (progress ++ [(filesCompleted + 1, ctx.manifest.files.length)])
      (filesCompleted + 1) where
  increasing := by
    rw [List.map_append, List.pairwise_append]
    refine ⟨hcounter.increasing, List.pairwise_singleton _ _, ?_⟩
    intro value hvalue other hother
    obtain ⟨values, hmem, rfl⟩ := List.mem_map.mp hvalue
    rw [List.mem_singleton.mp hother]
    exact Nat.lt_succ_of_le (hcounter.bounded values hmem)
  bounded values hmem := by
    rcases List.mem_append.mp hmem with hold | hnew
    · exact Nat.le_succ_of_le (hcounter.bounded values hold)
    · rw [List.mem_singleton.mp hnew]
  total values hmem := by
    rcases List.mem_append.mp hmem with hold | hnew
    · exact hcounter.total values hold
    · rw [List.mem_singleton.mp hnew]

end Counter

namespace Tally

variable {file : ManifestFile} {rest : List ManifestFile} {name : String}

/-- The loop passes an entry without a name. -/
theorem pass (htally : ctx.Tally world state passed awaited)
    (hstage : state.stage = .spawning (file :: rest)) (hname : file.filename = none) :
    ctx.Tally world { state with stage := .spawning rest } (passed ++ [file]) awaited where
  passed_eq := by simp [htally.passed_eq, hstage]
  ledger := htally.ledger.pass hname
  counter := htally.counter
  counted := by simpa [named_concat, hname] using htally.counted
  spawning _ _ := htally.spawning _ hstage
  awaiting := by simp
  complete := by simp
  finished := htally.finished
  last := htally.last

/-- The loop skips a file. -/
theorem skip (htally : ctx.Tally world state passed awaited)
    (hstage : state.stage = .spawning (file :: rest)) (hname : file.filename = some name)
    (hevents : world'.fileEvents = world.fileEvents ++ [.fileSkipped name])
    (hcounter : ctx.Counter world'.progress (state.filesCompleted + 1)) :
    ctx.Tally world'
      { state with stage := .spawning rest, filesCompleted := state.filesCompleted + 1 }
      (passed ++ [file]) awaited where
  passed_eq := by simp [htally.passed_eq, hstage]
  ledger := hevents ▸ htally.ledger.skip hname
  counter := hcounter
  counted := by
    have hcounted := htally.counted
    simp only [named_concat, hname, Option.isSome_some, if_true]
    omega
  spawning _ _ := htally.spawning _ hstage
  awaiting := by simp
  complete := by simp
  finished := htally.finished
  last hlt := by
    rw [htally.spawning _ hstage] at hlt
    cases hlt

/-- The loop starts a file. -/
theorem spawn (htally : ctx.Tally world state passed awaited)
    (hstage : state.stage = .spawning (file :: rest)) (hname : file.filename = some name) :
    ctx.Tally (world.emit (.send (.fileStarted name file.chunks.length file.size)))
      { state with
        stage := .spawning rest
        files := state.files ++ [⟨ctx.job.fileTask file name, .initial, none⟩] }
      (passed ++ [file]) awaited where
  passed_eq := by simp [htally.passed_eq, hstage]
  ledger := by
    have hledger := htally.ledger.start hname
    rw [World.fileEvents_send]
    simpa [JobState.started, FileJob.started, DepotJob.fileTask, DownloadEvent.concernsFile]
      using hledger
  counter := by
    rw [World.progress_send]
    simpa [DownloadEvent.progress] using htally.counter
  counted := by
    have hcounted := htally.counted
    simp only [named_concat, hname, Option.isSome_some, if_true, List.length_append,
      List.length_singleton]
    omega
  spawning _ _ := htally.spawning _ hstage
  awaiting := by simp
  complete := by simp
  finished position hlt := by
    rw [htally.spawning _ hstage] at hlt
    cases hlt
  last hlt := by
    rw [htally.spawning _ hstage] at hlt
    cases hlt

/-- The job awaits a task that has completed. -/
theorem await (htally : ctx.Tally world state passed awaited) {position : Nat}
    {fileJob : FileJob} (hstage : state.stage = .awaiting position)
    (hfile : state.files[position]? = some fileJob)
    (hfinished : fileJob.finished = some (.ok ())) :
    ctx.Tally (world.emit (ctx.progress (state.filesCompleted + 1)))
      { state with stage := .awaiting (position + 1), filesCompleted := state.filesCompleted + 1 }
      passed (awaited + 1) where
  passed_eq := by simpa [hstage] using htally.passed_eq
  ledger := by
    rw [JobContext.progress, World.fileEvents_send]
    simpa [JobState.started, DownloadEvent.concernsFile] using htally.ledger
  counter := by
    rw [JobContext.progress, World.progress_send]
    exact htally.counter.send
  counted := by
    have hcounted := htally.counted
    simp only
    omega
  spawning := by simp
  awaiting other hother := by
    rw [← JobStage.awaiting.inj hother, htally.awaiting position hstage]
  complete := by simp
  finished earlier hlt := by
    rcases Nat.lt_succ_iff_lt_or_eq.mp hlt with hlt | rfl
    · exact htally.finished earlier hlt
    · rw [← htally.awaiting position hstage] at hfile
      have hstarted : state.started[earlier]? = some fileJob.started := by
        rw [JobState.started, List.getElem?_map, hfile, Option.map_some]
      have hcompleted : fileJob.started = (some fileJob.task.filename, true) := by
        rw [FileJob.started, hfinished]
        rfl
      exact ⟨some fileJob.task.filename, hcompleted ▸ hstarted⟩
  last _ := by
    rw [JobContext.progress, World.progress_send]
    exact ⟨ctx.manifest.files.length, List.getLast?_concat⟩

/-- The job goes on with the same tasks. -/
theorem advance (htally : ctx.Tally world state passed awaited) {stage : JobStage}
    (hunspawned : stage.unspawned = state.stage.unspawned)
    (hspawning : ∀ rest, stage = .spawning rest → awaited = 0)
    (hawaiting : ∀ position, stage = .awaiting position → awaited = position)
    (hcomplete : stage.deletes = true → awaited = state.files.length)
    (hevents : world'.events = world.events) :
    ctx.Tally world' { state with stage } passed awaited := by
  have hfiles : world'.fileEvents = world.fileEvents := by
    rw [World.fileEvents, hevents, World.fileEvents]
  have hprogress : world'.progress = world.progress := by
    rw [World.progress, hevents, World.progress]
  exact
    { passed_eq := hunspawned ▸ htally.passed_eq
      ledger := hfiles ▸ htally.ledger
      counter := hprogress ▸ htally.counter
      counted := htally.counted
      spawning := hspawning
      awaiting := hawaiting
      complete := hcomplete
      finished := htally.finished
      last := hprogress ▸ htally.last }

/-- One of the tasks goes on. -/
theorem task (htally : ctx.Tally world state passed awaited) {files : List FileJob}
    (hlength : files.length = state.files.length)
    (hledger : Ledger passed (files.map FileJob.started) world'.fileEvents)
    (hkept : ∀ (position : Nat) (name : Option String),
      state.started[position]? = some (name, true) →
        (files.map FileJob.started)[position]? = some (name, true))
    (hprogress : world'.progress = world.progress) :
    ctx.Tally world' { state with files } passed awaited where
  passed_eq := htally.passed_eq
  ledger := hledger
  counter := hprogress ▸ htally.counter
  counted := by simpa [hlength] using htally.counted
  spawning := htally.spawning
  awaiting := htally.awaiting
  complete hdeletes := (htally.complete hdeletes).trans hlength.symm
  finished position hlt := by
    obtain ⟨name, hname⟩ := htally.finished position hlt
    exact ⟨name, hkept position name hname⟩
  last := hprogress ▸ htally.last

/-- It goes on without completing. -/
theorem retain (htally : ctx.Tally world state passed awaited) {files : List FileJob}
    (hstarted : files.map FileJob.started = state.files.map FileJob.started)
    (hevents : world'.fileEvents = world.fileEvents)
    (hprogress : world'.progress = world.progress) :
    ctx.Tally world' { state with files } passed awaited := by
  have hlength := congrArg List.length hstarted
  rw [List.length_map, List.length_map] at hlength
  refine htally.task hlength ?_ (fun position name hname => hstarted ▸ hname) hprogress
  rw [hstarted, hevents]
  exact htally.ledger

/-- It completes. -/
theorem report (htally : ctx.Tally world state passed awaited) {position : Nat}
    {fileJob : FileJob} (hfile : state.files[position]? = some fileJob)
    (hfinished : fileJob.finished = none)
    (hevents : world'.fileEvents = world.fileEvents ++ [.fileCompleted fileJob.task.filename])
    (hprogress : world'.progress = world.progress) :
    ctx.Tally world'
      { state with files := state.files.set position { fileJob with finished := some (.ok ()) } }
      passed awaited := by
  have hstarted : state.started[position]? = some (some fileJob.task.filename, false) := by
    rw [JobState.started, List.getElem?_map, hfile, Option.map_some, FileJob.started, hfinished]
    rfl
  have hset : (state.files.set position { fileJob with finished := some (.ok ()) }).map
      FileJob.started = state.started.set position (some fileJob.task.filename, true) := by
    rw [List.map_set, JobState.started]
    rfl
  refine htally.task (List.length_set ..) ?_ ?_ hprogress
  · rw [hset, hevents]
    exact htally.ledger.complete hstarted
  · intro other name hname
    have hne : position ≠ other := by
      rintro rfl
      cases hstarted.symm.trans hname
    rw [hset, List.getElem?_set_ne hne, hname]

end Tally

variable (ctx) in
theorem report_events (world : World) (task : FileTask) :
    (ctx.report world task).fileEvents = world.fileEvents ++ [.fileCompleted task.filename] ∧
      (ctx.report world task).progress = world.progress := by
  have hevents : (ctx.report world task).events =
      world.events ++ [.fileCompleted task.filename] := by
    unfold report
    split
    · rw [World.events_emit_send, World.events_emit_of_unsent _ rfl]
    · rw [World.events_emit_send]
  constructor
  · rw [World.fileEvents, hevents, List.filter_append, World.fileEvents]
    rfl
  · rw [World.progress, hevents, List.filterMap_append, World.progress]
    exact List.append_nil _

/-- Only tasks are awaited. -/
theorem Tally.awaited_le (htally : ctx.Tally world state passed awaited) :
    awaited ≤ state.files.length := by
  by_contra hlt
  obtain ⟨name, hname⟩ := htally.finished state.files.length (Nat.lt_of_not_le hlt)
  rw [List.getElem?_eq_none (by simp [JobState.started])] at hname
  cases hname

/-- At the end of the loop all tasks have been awaited. -/
theorem Tally.awaited_all (htally : ctx.Tally world state passed awaited) {position : Nat}
    (hstage : state.stage = .awaiting position) (hend : state.files[position]? = none) :
    awaited = state.files.length := by
  have hle := htally.awaited_le
  have hge := List.getElem?_eq_none_iff.mp hend
  rw [← htally.awaiting position hstage] at hge
  exact Nat.le_antisymm hle hge

/-- The effect is no event about a file or about the progress. -/
def Quiet (effect : Effect) : Prop :=
  ∀ event ∈ effect.sent, event.concernsFile = false ∧ event.progress = none

theorem file_quiet {fileCtx : FileContext} {fileState fileState' : FileState}
    {fileMove : FileMove}
    (hstep : fileCtx.step (world, fileState) fileMove = some (world', fileState')) :
    Emitted Quiet world world' := by
  rcases FileContext.step_cases hstep with hmain | ⟨_, hchunk⟩
  · cases hmain with
    | stagingDir | finalDir | resumed | created | renamed => exact .one rfl nofun
    | _ => exact .none rfl
  · cases hchunk with
    | fetch => exact .one rfl nofun
    | unplaced | wrote =>
        refine .one rfl fun event hsent => ?_
        cases hsent
        exact ⟨rfl, rfl⟩
    | _ => exact .none rfl

theorem quiet_events (hquiet : Emitted Quiet world world') :
    world'.fileEvents = world.fileEvents ∧ world'.progress = world.progress := by
  obtain ⟨effects, hlog, hall⟩ := hquiet
  have hevents : world'.events = world.events ++ (effects.filterMap Effect.sent).reverse := by
    rw [World.events, hlog, List.filterMap_append, List.reverse_append, World.events]
  have hsent : ∀ event ∈ (effects.filterMap Effect.sent).reverse,
      event.concernsFile = false ∧ event.progress = none := by
    intro event hmem
    obtain ⟨effect, heffect, hevent⟩ := List.mem_filterMap.mp (List.mem_reverse.mp hmem)
    exact hall effect heffect event hevent
  constructor
  · have hfiles : (effects.filterMap Effect.sent).reverse.filter DownloadEvent.concernsFile =
        [] := by
      refine List.filter_eq_nil_iff.mpr fun event hmem => ?_
      rw [(hsent event hmem).1]
      exact Bool.false_ne_true
    rw [World.fileEvents, hevents, List.filter_append, hfiles, List.append_nil, World.fileEvents]
  · have hprogress : (effects.filterMap Effect.sent).reverse.filterMap DownloadEvent.progress =
        [] := List.filterMap_eq_nil_iff.mpr fun event hmem => (hsent event hmem).2
    rw [World.progress, hevents, List.filterMap_append, hprogress, List.append_nil,
      World.progress]

/-- A task that is seen as before leaves the list of the started ones as it is. -/
theorem map_started_set {files : List FileJob} {position : Nat} {fileJob fileJob' : FileJob}
    (hget : files[position]? = some fileJob) (hsame : fileJob'.started = fileJob.started) :
    (files.set position fileJob').map FileJob.started = files.map FileJob.started := by
  obtain ⟨hlt, rfl⟩ := List.getElem?_eq_some_iff.mp hget
  have hlt' : position < (files.map FileJob.started).length := by simpa using hlt
  have hself := List.set_getElem_self hlt'
  rw [List.getElem_map, ← hsame] at hself
  rw [List.map_set, hself]

/-- One move of a job keeps its tally. -/
theorem Tally.step (htally : ctx.Tally world state passed awaited)
    (hstep : ctx.JobStep world state move world' state') :
    ∃ passed awaited, ctx.Tally world' state' passed awaited := by
  cases hstep with
  | unnamed hstage hname => exact ⟨_, _, htally.pass hstage hname⟩
  | filtered hstage hname | unchanged hstage hname =>
      refine ⟨_, _, htally.skip hstage hname (World.fileEvents_send _ _) ?_⟩
      rw [World.progress_send]
      simpa [DownloadEvent.progress] using htally.counter.succ
  | directory hstage hname =>
      refine ⟨_, _, htally.skip hstage hname ?_ ?_⟩
      · rw [progress, World.fileEvents_send, World.fileEvents_send]
        simp [DownloadEvent.concernsFile]
      · rw [progress, World.progress_send, World.progress_send]
        simpa [DownloadEvent.progress] using htally.counter.send
  | spawned hstage hname => exact ⟨_, _, htally.spawn hstage hname⟩
  | spawnDone hstage =>
      exact ⟨_, _, htally.advance (by simp [hstage]) (by simp)
        (fun _ hnext => JobStage.awaiting.inj hnext ▸ htally.spawning _ hstage) (by simp) rfl⟩
  | awaited hstage hfile hfinished => exact ⟨_, _, htally.await hstage hfile hfinished⟩
  | awaitFailed hstage =>
      exact ⟨_, _, htally.advance (by simp [hstage]) (by simp) (by simp) (by simp) rfl⟩
  | awaitDone hstage hend | deleteBegun hstage hend =>
      exact ⟨_, _, htally.advance (by simp [hstage]) (by simp) (by simp)
        (fun _ => htally.awaited_all hstage hend) rfl⟩
  | deleted hstage =>
      exact ⟨_, _, htally.advance (by simp [hstage]) (by simp) (by simp)
        (fun _ => htally.complete (by simp [hstage])) (World.events_emit_of_unsent _ rfl)⟩
  | kept hstage | deleteDone hstage =>
      exact ⟨_, _, htally.advance (by simp [hstage]) (by simp) (by simp)
        (fun _ => htally.complete (by simp [hstage])) rfl⟩
  | file hfile hstep =>
      obtain ⟨hevents, hprogress⟩ := quiet_events (file_quiet hstep)
      exact ⟨_, _, htally.retain (map_started_set hfile rfl) hevents hprogress⟩
  | @reported position fileJob hfile hfinished =>
      obtain ⟨hevents, hprogress⟩ := ctx.report_events world fileJob.task
      exact ⟨_, _, htally.report hfile hfinished hevents hprogress⟩
  | @reportedError position fileJob error hfile hfinished =>
      have hsame : ({ fileJob with finished := some (.error error) } : FileJob).started =
          fileJob.started := by
        rw [FileJob.started, FileJob.started, hfinished]
        rfl
      exact ⟨_, _, htally.retain (map_started_set hfile hsame) rfl rfl⟩

theorem Tally.initial (disk : Disk) : ctx.Tally ⟨disk, []⟩ ctx.initial [] 0 where
  passed_eq := rfl
  ledger := .nil
  counter := ⟨List.Pairwise.nil, nofun, nofun⟩
  counted := rfl
  spawning _ _ := rfl
  awaiting := nofun
  complete := nofun
  finished := nofun
  last := nofun

theorem Tally.run {disk : Disk} {moves : List JobMove}
    (hrun : ctx.download disk moves = some (world, state)) :
    ∃ passed awaited, ctx.Tally world state passed awaited := by
  have hstep : ∀ (config : JobConfig) (move : JobMove) (next : JobConfig),
      (∃ passed awaited, ctx.Tally config.1 config.2 passed awaited) → True →
        ctx.machine.step config move = some next →
          ∃ passed awaited, ctx.Tally next.1 next.2 passed awaited :=
    fun _ _ _ ⟨_, _, htally⟩ _ hnext => htally.step (jobStep_cases hnext)
  exact ctx.machine.run_invariant hstep (fun _ _ => trivial) ⟨[], 0, .initial disk⟩ hrun

/-- In every interleaving that ends with Ok, the events about files interleave one outcome
for each entry, the progress counts up, and if a file was started, then it counts to the
last entry with a name. -/
theorem events_accounted {disk : Disk} {moves : List JobMove}
    (hrun : ctx.download disk moves = some (world, state))
    (hreturned : state.stage = .returned (.ok ())) :
    Accounted ctx.manifest.files world.fileEvents ∧
      (world.progress.map Prod.fst).Pairwise (· < ·) ∧
        (∀ values ∈ world.progress, values.1 ≤ values.2) ∧
          ((∃ name chunks size, .fileStarted name chunks size ∈ world.events) →
            world.progress.getLast?.map Prod.fst =
              some (ctx.manifest.files.filterMap ManifestFile.filename).length) := by
  obtain ⟨passed, awaited, htally⟩ := Tally.run hrun
  have hpassed : ctx.manifest.files = passed := by
    simpa [hreturned] using htally.passed_eq
  have hall := htally.complete (by simp [hreturned])
  have hcounted : state.filesCompleted = named ctx.manifest.files := by
    have hcounted := htally.counted
    rw [hpassed]
    omega
  refine ⟨?_, htally.counter.increasing, ?_, ?_⟩
  · rw [hpassed]
    refine htally.ledger.accounted fun file hmem => ?_
    obtain ⟨position, hposition⟩ := List.mem_iff_getElem?.mp hmem
    have hlt := (List.getElem?_eq_some_iff.mp hposition).1
    rw [JobState.started, List.length_map, ← hall] at hlt
    obtain ⟨name, hname⟩ := htally.finished position hlt
    rw [hposition, Option.some.injEq] at hname
    rw [hname]
  · intro values hmem
    rw [htally.counter.total values hmem]
    refine (htally.counter.bounded values hmem).trans ?_
    rw [hcounted]
    exact List.length_filterMap_le _ _
  · rintro ⟨name, chunks, size, hmem⟩
    have hstarted : state.started ≠ [] :=
      htally.ledger.started_ne_nil (List.mem_filter.mpr ⟨hmem, rfl⟩)
    have hlt : 0 < awaited := by
      rw [hall]
      simpa [JobState.started, List.length_pos_iff] using hstarted
    obtain ⟨filesTotal, hlast⟩ := htally.last hlt
    rw [hlast, hcounted]
    rfl

/-- A file, an entry without a name, a directory and another file. -/
def sampleEntries : List ManifestFile :=
  [zeroFile "a" 0, { zeroFile "" 0 with filename := none },
    { zeroFile "maps" 0 with flags := some 0x40 }, zeroFile "b" 0]

def sampleJob : JobContext := offline (manifestOf sampleEntries) none

/-- The second file completes before the first. -/
theorem events_accounted_sample :
    ∃ world state,
      sampleJob.download .empty (List.replicate 5 (.main none) ++ offlineMoves 1 ++
        offlineMoves 0 ++ List.replicate 3 (.main none)) = some (world, state) ∧
      world.fileEvents = [.fileStarted "a" 0 (some 0), .fileSkipped "maps",
        .fileStarted "b" 0 (some 0), .fileCompleted "b", .fileCompleted "a"] ∧
      world.progress = [(1, 4), (2, 4), (3, 4)] ∧ Accounted sampleEntries world.fileEvents := by
  have hany : (sampleJob.download .empty (List.replicate 5 (.main none) ++ offlineMoves 1 ++
      offlineMoves 0 ++ List.replicate 3 (.main none))).any (fun config =>
        config.2.stage == .returned (.ok ()) && (config.1.fileEvents ==
          [.fileStarted "a" 0 (some 0), .fileSkipped "maps", .fileStarted "b" 0 (some 0),
            .fileCompleted "b", .fileCompleted "a"] &&
          config.1.progress == [(1, 4), (2, 4), (3, 4)])) = true := by
    decide
  obtain ⟨⟨world, state⟩, hrun, hboth⟩ := Machine.exists_of_run_any _ hany
  simp only [Bool.and_eq_true, beq_iff_eq] at hboth
  obtain ⟨hreturned, hevents, hprogress⟩ := hboth
  exact ⟨world, state, hrun, hevents, hprogress, (events_accounted hrun hreturned).1⟩

end JobContext

end DepotDownloader.SteamClient
