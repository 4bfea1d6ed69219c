import DepotDownloader.Cli.DepotSelection
import DepotDownloader.SteamClient.FileLists

/-! # Listing files

`run_files` fetches a manifest and prints the names of its files. The list can be given back to
the download command as a filter.
-/

namespace DepotDownloader.Cli

open Foundation Steam SteamClient

structure FilesArgs where
  depot : DepotId
  manifest : Option ManifestId
  branch : String
  raw : Bool

/-- What the servers answer to the command. A request that fails has no answer. -/
structure FilesAnswers where
  appInfos : Option (List AppInfo)
  cdnServers : Option Nat
  requestCodeAnswered : Bool
  response : ManifestId → Option Bytes
  key : Option DepotKey

namespace FilesArgs

variable (args : FilesArgs) (answers : FilesAnswers)

/-- The manifest of the arguments, or that of the branch. -/
def manifestId : Except CliError ManifestId :=
  match args.manifest with
  | some id => .ok id
  | none =>
      match answers.appInfos with
      | none => .error .passedOn
      | some appInfos =>
          match discoverManifestId appInfos args.depot args.branch with
          | some id => .ok id
          | none =>
              .error (.other ("No manifest found for depot " ++ toString args.depot.id.toNat ++
                " on branch '" ++ args.branch ++ "'"))

end FilesArgs

/-- The same download with another filter. -/
def DownloadArgs.withFilter (args : DownloadArgs) (filter : Option FileFilter) : DownloadArgs :=
  { args with fileFilter := some filter }

namespace CliEnv

variable (env : CliEnv) (files : FilesArgs) (answers : FilesAnswers)

/-- Decrypt filenames unless --raw was requested. Without a key they stay as they are. -/
def shownNames (manifest : DepotManifest) : Option DepotManifest :=
  if files.raw then some manifest
  else
    match answers.key with
    | some key => env.decrypted manifest key
    | none => some manifest

/-- The command up to the output: the manifest that it lists. -/
def runFiles : Except CliError DepotManifest := do
  let manifestId ← files.manifestId answers
  match answers.cdnServers with
  | none => .error .passedOn
  | some 0 => .error (.other "No CDN servers available")
  | some _ =>
      if answers.requestCodeAnswered then
        match answers.response manifestId with
        | none => .error .passedOn
        | some manifestBytes =>
            match extractAndParse env.store manifestBytes with
            | .error _ => .error .passedOn
            | .ok manifest => (env.shownNames files answers manifest).elim (.error .passedOn) .ok
      else .error .passedOn

variable {env files answers} {manifest : DepotManifest}

/-- What has been listed came from the CDN. -/
theorem runFiles_ok (hfiles : env.runFiles files answers = .ok manifest) :
    ∃ manifestId manifestBytes raw, files.manifestId answers = .ok manifestId ∧
      answers.response manifestId = some manifestBytes ∧
      extractAndParse env.store manifestBytes = .ok raw ∧
      env.shownNames files answers raw = some manifest := by
  unfold runFiles at hfiles
  cases hid : files.manifestId answers with
  | error error =>
      rw [hid] at hfiles
      cases hfiles
  | ok manifestId =>
      rw [hid] at hfiles
      simp only [bind, Except.bind] at hfiles
      split at hfiles
      next => cases hfiles
      next => cases hfiles
      next =>
        split at hfiles
        next =>
          split at hfiles
          next => cases hfiles
          next manifestBytes hresponse =>
            split at hfiles
            next => cases hfiles
            next raw hparse =>
              cases hshown : env.shownNames files answers raw with
              | none =>
                  rw [hshown] at hfiles
                  cases hfiles
              | some shown =>
                  rw [hshown] at hfiles
                  obtain rfl := Except.ok.inj hfiles
                  exact ⟨manifestId, manifestBytes, raw, rfl, hresponse, hparse, hshown⟩
        next => cases hfiles

section Filtered

variable {disk obtained : Disk} {args : DownloadArgs} {request : DepotRequest} {key : DepotKey}
  {manifestId : ManifestId} {raw : DepotManifest}

/-- The filter does not decide whether a depot is downloaded. -/
theorem prepareDepot_withFilter (hasked : request.keyAndManifest = some (key, manifestId))
    (hobtained : env.obtainManifest args disk request manifestId = (obtained, some raw))
    (hdecrypted : env.decrypted raw key = some manifest) (filter : Option FileFilter) :
    env.prepareDepot (args.withFilter filter) disk request =
      if (env.loadConfig args obtained).getInstalled request.depotId = some manifestId ∧
          args.verify = false then
        (obtained, .upToDate)
      else
        (obtained, .download
          (env.jobContext args obtained request key manifestId filter manifest) manifestId) := by
  have hsame : env.obtainManifest (args.withFilter filter) disk request manifestId =
      (obtained, some raw) := hobtained
  unfold prepareDepot
  rw [hasked]
  simp only [hsame, hdecrypted]
  rfl

/-- A filter that lets every name through is no filter. -/
theorem runDepot_withFilter {filter : FileFilter}
    (hasked : request.keyAndManifest = some (key, manifestId))
    (hobtained : env.obtainManifest args disk request manifestId = (obtained, some raw))
    (hdecrypted : env.decrypted raw key = some manifest)
    (hselects : ∀ name ∈ manifestNames manifest, filter.selects name = true) :
    env.runDepot (args.withFilter (some filter)) disk request =
      env.runDepot (args.withFilter none) disk request := by
  let ctx := env.jobContext args obtained request key manifestId none manifest
  have hctx : env.jobContext args obtained request key manifestId (some filter) manifest =
      ctx.withFilter (some filter) := rfl
  have hselected : ∀ file ∈ ctx.manifest.files,
      ctx.selected file = true ∧ (ctx.withFilter (some filter)).selected file = true :=
    fun file hmem => ⟨JobContext.selected_unfiltered ctx file,
      JobContext.selected_of_selects hselects file hmem⟩
  unfold runDepot
  rw [prepareDepot_withFilter hasked hobtained hdecrypted,
    prepareDepot_withFilter hasked hobtained hdecrypted]
  split_ifs
  · rfl
  · simp only [hctx, ← JobContext.download_withFilter hselected obtained request.moves]
    rfl

end Filtered

/-- What `files` prints of a manifest in plain form is read by `--filelist` as a filter that
changes nothing: the download of that manifest with the list is, whatever happens to it, the
download without one. The names have to stand on a line each as they are. -/
theorem listed_download (compile : CompileRegex) (download : DownloadArgs) (disk : Disk)
    (request : DepotRequest) {key : DepotKey} {manifestId : ManifestId}
    (hfiles : env.runFiles files answers = .ok manifest) (hraw : files.raw = false)
    (hkey : answers.key = some key) (hid : files.manifestId answers = .ok manifestId)
    (hlistable : ∀ name ∈ manifestNames manifest, Listable name)
    (hasked : request.keyAndManifest = some (key, manifestId))
    (hresponse : request.response = answers.response manifestId)
    (hcached : ∀ cached, env.loadCached download disk request.depotId manifestId = some cached →
      ∀ manifestBytes ∈ answers.response manifestId,
        extractAndParse env.store manifestBytes = .ok cached) :
    ∃ filter, FileFilter.fromFilelist compile (some (plainFiles manifest)) = some filter ∧
      env.runDepot (download.withFilter (some filter)) disk request =
        env.runDepot (download.withFilter none) disk request := by
  obtain ⟨other, manifestBytes, raw, hother, hserved, hparse, hshown⟩ := runFiles_ok hfiles
  obtain rfl : manifestId = other := Except.ok.inj (hid.symm.trans hother)
  have hdecrypted : env.decrypted raw key = some manifest := by
    simpa [shownNames, hraw, hkey] using hshown
  obtain ⟨filter, hread, hselects⟩ := fromFilelist_plainFiles compile hlistable
  have hobtained : ∃ obtained,
      env.obtainManifest download disk request manifestId = (obtained, some raw) := by
    unfold obtainManifest
    cases hload : env.loadCached download disk request.depotId manifestId with
    | none =>
        simp only [hresponse, hserved, hparse]
        exact ⟨_, rfl⟩
    | some cached =>
        obtain rfl : raw = cached :=
          Except.ok.inj (hparse.symm.trans (hcached cached hload manifestBytes hserved))
        exact ⟨disk, rfl⟩
  obtain ⟨obtained, hobtained⟩ := hobtained
  exact ⟨filter, hread, runDepot_withFilter hasked hobtained hdecrypted hselects⟩

end CliEnv

def sampleFiles : FilesArgs := ⟨⟨1⟩, some ⟨17⟩, "public", false⟩

def sampleFilesAnswers : FilesAnswers where
  appInfos := none
  cdnServers := some 1
  requestCodeAnswered := true
  response _ := some SampleManifest.sealed.archive
  key := some ⟨.replicate 32 0⟩

theorem listable_sample : Listable "b/c" := ⟨by decide, by decide, by decide, by decide⟩

/-- The list of a manifest with an encrypted name, which is decrypted before it is printed. -/
theorem listed_download_sample : ∃ manifest filter,
    sampleEnv.runFiles sampleFiles sampleFilesAnswers = .ok manifest ∧
      plainFiles manifest = "b/c\n" ∧
      FileFilter.fromFilelist (fun _ => none) (some (plainFiles manifest)) = some filter ∧
      sampleEnv.runDepot ((sampleArgs none).withFilter (some filter)) .empty
          (sampleRequest .sealed blankMoves) =
        sampleEnv.runDepot ((sampleArgs none).withFilter none) .empty
          (sampleRequest .sealed blankMoves) := by
  have hany : ((sampleEnv.runFiles sampleFiles sampleFilesAnswers).toOption.any
      fun manifest => manifestNames manifest == ["b/c"]) = true := by
    decide +kernel
  cases hfiles : sampleEnv.runFiles sampleFiles sampleFilesAnswers with
  | error error =>
      rw [hfiles] at hany
      cases hany
  | ok manifest =>
      rw [hfiles] at hany
      have hnames : manifestNames manifest = ["b/c"] := beq_iff_eq.mp hany
      have hlistable : ∀ name ∈ manifestNames manifest, Listable name := by
        rw [hnames, List.forall_mem_singleton]
        exact listable_sample
      have hmissing : sampleEnv.loadCached (sampleArgs none) .empty ⟨1⟩ ⟨17⟩ = none := rfl
      obtain ⟨filter, hread, hsame⟩ := CliEnv.listed_download (fun _ => none) (sampleArgs none)
        .empty (sampleRequest .sealed blankMoves) hfiles rfl rfl rfl hlistable rfl rfl
        (fun _ hcached => by cases hmissing.symm.trans hcached)
      refine ⟨manifest, filter, rfl, ?_, hread, hsame⟩
      rw [plainFiles, hnames]
      rfl

end DepotDownloader.Cli
