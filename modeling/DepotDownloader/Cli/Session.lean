import DepotDownloader.Cli.RunDownload
import DepotDownloader.SteamClient.SavedEntries
import DepotDownloader.SteamClient.StoreFrame

/-! # Sessions

A session is any sequence of iterations of the depot loop, of one invocation
after the other. This module says what an iteration does to the store, and when
it downloads.
-/

namespace DepotDownloader.Cli

open Foundation Foundation.LexPath Steam SteamClient

/-- One iteration of the depot loop of an invocation. -/
structure Iteration where
  args : DownloadArgs
  request : DepotRequest

namespace CliEnv

variable (env : CliEnv)

def session : Machine Disk Iteration where
  step disk iteration := (env.runDepot iteration.args disk iteration.request).map Prod.fst

variable {env}

/-- The effect of an invocation is that of the iterations it gets to. -/
theorem runDownload_session {args : DownloadArgs} {disk disk' : Disk}
    {requests : List DepotRequest} {ok : Bool}
    (hrun : env.runDownload args disk requests = some (disk', ok)) :
    ∃ done, done <+: requests ∧
      env.session.run disk (done.map fun request => ⟨args, request⟩) = some disk' := by
  induction requests generalizing disk with
  | nil =>
      cases hrun
      exact ⟨[], List.prefix_rfl, rfl⟩
  | cons request rest ih =>
      have hcons {middle : Disk} {outcome : DepotOutcome}
          (hfirst : env.runDepot args disk request = some (middle, outcome))
          {done : List DepotRequest} (hlead : done <+: rest)
          (hrest : env.session.run middle (done.map fun request => ⟨args, request⟩) =
            some disk') :
          ∃ done, done <+: request :: rest ∧
            env.session.run disk (done.map fun request => ⟨args, request⟩) = some disk' := by
        refine ⟨request :: done, List.prefix_cons_inj request |>.mpr hlead, ?_⟩
        apply (Machine.run_cons_eq_some _).mpr
        exact ⟨middle, by simp [session, hfirst], hrest⟩
      simp only [runDownload] at hrun
      split at hrun
      next => cases hrun
      next middle hfirst =>
        cases hrun
        exact hcons hfirst List.nil_prefix rfl
      next middle outcome _ hfirst =>
        obtain ⟨done, hlead, hrest⟩ := ih hrun
        exact hcons hfirst hlead hrest

/-- The outcomes of an iteration. -/
inductive DepotStep (env : CliEnv) (args : DownloadArgs) (request : DepotRequest) (disk : Disk) :
    Disk → Prop where
  | aborted {prepared : Disk}
      (hprepare : env.prepareDepot args disk request = (prepared, .aborted)) :
      DepotStep env args request disk prepared
  | upToDate {prepared : Disk}
      (hprepare : env.prepareDepot args disk request = (prepared, .upToDate)) :
      DepotStep env args request disk prepared
  | recorded {prepared : Disk} {ctx : JobContext} {manifestId : ManifestId} {world : World}
      {state : JobState}
      (hprepare : env.prepareDepot args disk request = (prepared, .download ctx manifestId))
      (hrun : ctx.download prepared request.moves = some (world, state))
      (hok : state.stage = .returned (.ok ())) :
      DepotStep env args request disk
        (env.recordInstalled args world.disk request.depotId manifestId request.configFault)
  | interrupted {prepared : Disk} {ctx : JobContext} {manifestId : ManifestId} {world : World}
      {state : JobState}
      (hprepare : env.prepareDepot args disk request = (prepared, .download ctx manifestId))
      (hrun : ctx.download prepared request.moves = some (world, state))
      (hstage : state.stage ≠ .returned (.ok ())) :
      DepotStep env args request disk world.disk

theorem session_cases {disk disk' : Disk} {iteration : Iteration}
    (hstep : env.session.step disk iteration = some disk') :
    DepotStep env iteration.args iteration.request disk disk' := by
  obtain ⟨⟨next, outcome⟩, hrun, rfl⟩ := Option.map_eq_some_iff.mp hstep
  unfold runDepot at hrun
  split at hrun
  next prepared hprepare =>
    cases hrun
    exact .aborted hprepare
  next prepared hprepare =>
    cases hrun
    exact .upToDate hprepare
  next prepared ctx manifestId hprepare =>
    split at hrun
    next => cases hrun
    next world state hdownload =>
      split at hrun
      next hok =>
        cases hrun
        exact .recorded hprepare hdownload hok
      next hstage =>
        cases hrun
        exact .interrupted hprepare hdownload hstage

section Prepare

variable {args : DownloadArgs} {request : DepotRequest} {disk prepared : Disk}

/-- What an iteration has found when it gets past the requests: the key, the
manifest from the cache or the CDN, and its names decrypted. -/
structure Found (env : CliEnv) (args : DownloadArgs) (request : DepotRequest)
    (disk prepared : Disk) (key : DepotKey) (manifestId : ManifestId)
    (raw manifest : DepotManifest) (filter : Option FileFilter) : Prop where
  asked : request.keyAndManifest = some (key, manifestId)
  obtained : env.obtainManifest args disk request manifestId = (prepared, some raw)
  decrypted : env.decrypted raw key = some manifest
  filter : args.fileFilter = some filter

/-- An iteration finds one manifest. -/
theorem Found.unique {prepared' : Disk} {key key' : DepotKey} {manifestId manifestId' : ManifestId}
    {raw raw' manifest manifest' : DepotManifest} {filter filter' : Option FileFilter}
    (hfound : Found env args request disk prepared key manifestId raw manifest filter)
    (hfound' : Found env args request disk prepared' key' manifestId' raw' manifest' filter') :
    prepared' = prepared ∧ manifest' = manifest := by
  obtain ⟨hasked, hobtained, hdecrypted, _⟩ := hfound
  obtain ⟨hasked', hobtained', hdecrypted', _⟩ := hfound'
  cases hasked.symm.trans hasked'
  cases hobtained.symm.trans hobtained'
  exact ⟨rfl, Option.some.inj (hdecrypted'.symm.trans hdecrypted)⟩

/-- An iteration that does not abort before the download has found everything, and what
is recorded and the verify flag decide about the rest. -/
theorem prepareDepot_found {outcome : Prepared}
    (hprepare : env.prepareDepot args disk request = (prepared, outcome))
    (hpassed : outcome ≠ .aborted) :
    ∃ key manifestId raw manifest filter,
      Found env args request disk prepared key manifestId raw manifest filter ∧
      outcome =
        if (env.loadConfig args prepared).getInstalled request.depotId = some manifestId ∧
            args.verify = false then .upToDate
        else .download (env.jobContext args prepared request key manifestId filter manifest)
          manifestId := by
  unfold prepareDepot at hprepare
  split at hprepare
  next =>
    cases hprepare
    exact absurd rfl hpassed
  next key manifestId hasked =>
    split at hprepare
    next =>
      cases hprepare
      exact absurd rfl hpassed
    next found raw hobtained =>
      split at hprepare
      next manifest filter hdecrypted hfilter =>
        have hfound : found = prepared := by
          split at hprepare <;> exact (Prod.mk.inj hprepare).1
        subst hfound
        refine ⟨key, manifestId, raw, manifest, filter,
          ⟨hasked, hobtained, hdecrypted, hfilter⟩, ?_⟩
        split at hprepare
        next hskip => rw [if_pos hskip, (Prod.mk.inj hprepare).2]
        next hskip => rw [if_neg hskip, (Prod.mk.inj hprepare).2]
      next =>
        cases hprepare
        exact absurd rfl hpassed

theorem prepareDepot_upToDate
    (hprepare : env.prepareDepot args disk request = (prepared, .upToDate)) :
    ∃ key manifestId raw manifest filter,
      Found env args request disk prepared key manifestId raw manifest filter ∧
      (env.loadConfig args prepared).getInstalled request.depotId = some manifestId ∧
      args.verify = false := by
  obtain ⟨key, manifestId, raw, manifest, filter, hfound, houtcome⟩ :=
    prepareDepot_found hprepare nofun
  split at houtcome
  next hskip => exact ⟨key, manifestId, raw, manifest, filter, hfound, hskip⟩
  next => cases houtcome

theorem prepareDepot_download {ctx : JobContext} {manifestId : ManifestId}
    (hprepare : env.prepareDepot args disk request = (prepared, .download ctx manifestId)) :
    ∃ key raw manifest filter,
      Found env args request disk prepared key manifestId raw manifest filter ∧
      ctx = env.jobContext args prepared request key manifestId filter manifest := by
  obtain ⟨key, manifestId', raw, manifest, filter, hfound, houtcome⟩ :=
    prepareDepot_found hprepare nofun
  split at houtcome
  next => cases houtcome
  next =>
    cases houtcome
    exact ⟨key, raw, manifest, filter, hfound, rfl⟩

/-- Where the manifest of an iteration comes from, and what it leaves on disk. -/
inductive Obtains (env : CliEnv) (args : DownloadArgs) (request : DepotRequest)
    (manifestId : ManifestId) (disk : Disk) : Disk → Option DepotManifest → Prop where
  | cached {manifest : DepotManifest}
      (hload : env.loadCached args disk request.depotId manifestId = some manifest) :
      Obtains env args request manifestId disk disk (some manifest)
  | unanswered : Obtains env args request manifestId disk disk none
  | fetched {bytes : Bytes} {saved : Disk}
      (hmissing : env.loadCached args disk request.depotId manifestId = none)
      (hresponse : request.response = some bytes)
      (hsaves : ManifestCache.Saves env.store env.workingDir args.baseDir request.depotId
        manifestId bytes disk saved) :
      Obtains env args request manifestId disk saved (extractAndParse env.store bytes).toOption

theorem obtainManifest_cases {manifestId : ManifestId} {result : Option DepotManifest}
    (hobtain : env.obtainManifest args disk request manifestId = (prepared, result)) :
    Obtains env args request manifestId disk prepared result := by
  unfold obtainManifest at hobtain
  split at hobtain
  next cached hload =>
    cases hobtain
    exact .cached hload
  next hmissing =>
    split at hobtain
    next =>
      cases hobtain
      exact .unanswered
    next bytes hresponse =>
      cases hobtain
      exact .fetched hmissing hresponse (ManifestCache.save_cases ..)

/-- Before the download at most the manifest is saved. -/
theorem prepareDepot_obtains {outcome : Prepared}
    (hprepare : env.prepareDepot args disk request = (prepared, outcome)) :
    prepared = disk ∨ ∃ key manifestId result,
      request.keyAndManifest = some (key, manifestId) ∧
        Obtains env args request manifestId disk prepared result := by
  unfold prepareDepot at hprepare
  split at hprepare
  next =>
    cases hprepare
    exact .inl rfl
  next key manifestId hasked =>
    right
    split at hprepare
    next found hobtained =>
      cases hprepare
      exact ⟨key, manifestId, none, hasked, obtainManifest_cases hobtained⟩
    next found raw hobtained =>
      have hfound : found = prepared := by
        split at hprepare
        · split at hprepare <;> cases hprepare <;> rfl
        · cases hprepare
          rfl
      rw [← hfound]
      exact ⟨key, manifestId, some raw, hasked, obtainManifest_cases hobtained⟩

theorem Obtains.changesOnly {manifestId : ManifestId} {result : Option DepotManifest}
    (hobtains : Obtains env args request manifestId disk prepared result) :
    FileTree.ChangesOnly Stored disk prepared := by
  cases hobtains with
  | cached | unanswered => exact FileTree.ChangesOnly.refl _ _
  | fetched _ _ hsaves => exact hsaves.changesOnly

/-- Before the download no file is removed. -/
theorem prepareDepot_present {outcome : Prepared}
    (hprepare : env.prepareDepot args disk request = (prepared, outcome)) {place : Place}
    (hpresent : disk.present place = true) : prepared.present place = true := by
  obtain rfl | ⟨_, _, _, _, hobtains⟩ := prepareDepot_obtains hprepare
  · exact hpresent
  · cases hobtains with
    | cached | unanswered => exact hpresent
    | fetched _ _ hsaves =>
        cases hsaves with
        | nothing => exact hpresent
        | cut => exact writeFile_present hpresent _ _
        | written => exact writeFile_present (writeFile_present hpresent _ _) _ _

theorem prepareDepot_changesOnly {outcome : Prepared}
    (hprepare : env.prepareDepot args disk request = (prepared, outcome)) :
    FileTree.ChangesOnly Stored disk prepared := by
  obtain rfl | ⟨_, _, _, _, hobtains⟩ := prepareDepot_obtains hprepare
  · exact FileTree.ChangesOnly.refl _ _
  · exact hobtains.changesOnly

theorem recordInstalled_changesOnly (args : DownloadArgs) (disk : Disk) (depotId : DepotId)
    (manifestId : ManifestId) (fault : Option WriteFault) :
    FileTree.ChangesOnly Stored disk (env.recordInstalled args disk depotId manifestId fault) :=
  DepotConfig.save_changesOnly _ _ _

/-- The record of an installed manifest is one cycle of the saved files. -/
theorem recordInstalled_eq_cycle (tokens : TokenCodecs) (home : Option Path) (disk : Disk)
    (depotId : DepotId) (manifestId : ManifestId) (fault : Option WriteFault) :
    env.recordInstalled args disk depotId manifestId fault =
      (SavedFiles.mk env.store tokens env.workingDir args.baseDir home).cycle disk
        (.installed depotId manifestId fault) := rfl

end Prepare

end CliEnv

end DepotDownloader.Cli
