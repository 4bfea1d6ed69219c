import DepotDownloader.SteamClient.Download.DepotStep

/-! # The effects of a depot download

Which effects a move can have, and on which paths. A path that a download acts
on is one of the two of a task, the parent of one, or the path of a name that is
removed.
-/

namespace DepotDownloader.SteamClient

open Foundation Foundation.LexPath Steam

/-- The path that an effect creates, truncates, renames onto, changes the
permissions of or deletes. -/
def Effect.acted : Effect → Option Path
  | .createDirAll path => some path
  | .createTruncate path => some path
  | .rename _ target => some target
  | .setPermissions path => some path
  | .removeFile path => some path
  | .openExisting _ | .fetchChunk _ | .send _ => none

/-- The log grows by effects of a kind. -/
def Emitted (kind : Effect → Prop) (world world' : World) : Prop :=
  ∃ effects, world'.log = effects ++ world.log ∧ ∀ effect ∈ effects, kind effect

theorem Emitted.none {kind : Effect → Prop} {world world' : World}
    (hlog : world'.log = world.log) : Emitted kind world world' :=
  ⟨[], by simpa using hlog, by simp⟩

theorem Emitted.one {kind : Effect → Prop} {world world' : World} {effect : Effect}
    (hlog : world'.log = effect :: world.log) (hkind : kind effect) :
    Emitted kind world world' :=
  ⟨[effect], by simpa using hlog, by simpa using hkind⟩

theorem Emitted.mono {kind kind' : Effect → Prop} {world world' : World}
    (hemitted : Emitted kind world world') (hsub : ∀ effect, kind effect → kind' effect) :
    Emitted kind' world world' := by
  obtain ⟨effects, hlog, hall⟩ := hemitted
  exact ⟨effects, hlog, fun effect hmem => hsub effect (hall effect hmem)⟩

theorem Emitted.mem {kind : Effect → Prop} {world world' : World}
    (hemitted : Emitted kind world world') {effect : Effect} (hmem : effect ∈ world'.log) :
    effect ∈ world.log ∨ kind effect := by
  obtain ⟨effects, hlog, hall⟩ := hemitted
  rw [hlog, List.mem_append] at hmem
  exact hmem.symm.imp_right (hall effect)

namespace FileContext

/-- An effect of a file task. -/
inductive Emits (ctx : FileContext) : Effect → Prop
  | stagingDir {parent : Path} (hparent : ctx.stagingPath.parent = some parent) :
      Emits ctx (.createDirAll parent)
  | finalDir {parent : Path} (hparent : ctx.task.path.parent = some parent) :
      Emits ctx (.createDirAll parent)
  | opened : Emits ctx (.openExisting ctx.stagingPath)
  | created : Emits ctx (.createTruncate ctx.stagingPath)
  | renamed : Emits ctx (.rename ctx.stagingPath ctx.task.path)
  | fetched {chunkTask : ChunkTask} {attempt : Nat} :
      Emits ctx (.fetchChunk (ctx.fetchCall chunkTask attempt))
  | sent {event : DownloadEvent} : Emits ctx (.send event)

variable {ctx : FileContext} {world world' : World} {state state' : FileState}

theorem step_emits {move : FileMove}
    (hstep : ctx.step (world, state) move = some (world', state')) :
    Emitted ctx.Emits world world' := by
  rcases step_cases hstep with hmain | ⟨_, hchunk⟩
  · cases hmain with
    | stagingDir _ hparent => exact .one rfl (.stagingDir hparent)
    | finalDir _ hparent => exact .one rfl (.finalDir hparent)
    | resumed => exact .one rfl .opened
    | created => exact .one rfl .created
    | renamed => exact .one rfl .renamed
    | _ => exact .none rfl
  · cases hchunk with
    | fetch => exact .one rfl .fetched
    | unplaced | wrote => exact .one rfl .sent
    | _ => exact .none rfl

end FileContext

namespace JobContext

/-- An effect of a depot download. -/
inductive Emits (ctx : JobContext) (state : JobState) : Effect → Prop
  | file {position : Nat} {fileJob : FileJob} {effect : Effect} (hmem : fileJob ∈ state.files)
      (heffect : (ctx.fileContext position fileJob.task).Emits effect) : Emits ctx state effect
  | permitted {fileJob : FileJob} (hmem : fileJob ∈ state.files) :
      Emits ctx state (.setPermissions fileJob.task.path)
  | removed {old : ManifestFile} {rest : List ManifestFile} {name : String}
      (hstage : state.stage = .deleting (old :: rest))
      (hremoved : removedName ctx.manifest old = some name) :
      Emits ctx state (.removeFile (ctx.job.finalPath name))
  | sent {event : DownloadEvent} : Emits ctx state (.send event)

variable {ctx : JobContext} {world world' : World} {state state' : JobState}

theorem report_emits {fileJob : FileJob} (hmem : fileJob ∈ state.files) :
    Emitted (ctx.Emits state) world (ctx.report world fileJob.task) := by
  unfold report
  split
  · exact ⟨[_, _], rfl, by simp [Emits.sent, Emits.permitted hmem]⟩
  · exact .one rfl .sent

theorem jobStep_emits {move : JobMove} (hstep : ctx.JobStep world state move world' state') :
    Emitted (ctx.Emits state) world world' := by
  cases hstep with
  | unnamed | spawnDone | awaitFailed | awaitDone | deleteBegun | kept | deleteDone
  | reportedError => exact .none rfl
  | filtered | unchanged | spawned | awaited => exact .one rfl .sent
  | directory => exact ⟨[_, _], rfl, by simp [Emits.sent, progress]⟩
  | deleted hstage hremoved => exact .one rfl (.removed hstage hremoved)
  | file hget hfile =>
      exact (FileContext.step_emits hfile).mono fun _ => .file (List.mem_of_getElem? hget)
  | reported hget => exact report_emits (List.mem_of_getElem? hget)

end JobContext

end DepotDownloader.SteamClient
