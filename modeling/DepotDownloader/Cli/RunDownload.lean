import DepotDownloader.SteamClient.Download.DepotJob
import DepotDownloader.SteamClient.Manifest

/-! # The download command

`run_download` works through a list of depots. For each it takes the manifest
from the cache or from the CDN, skips the depot when `depot.json` names that
manifest, downloads it otherwise, and records it. What the servers answer, how
the tasks of a download interleave and where a write stops are inputs.
-/

namespace DepotDownloader.Cli

open Foundation Foundation.LexPath Steam SteamClient

/-- The libraries and the directory that a process runs in. -/
structure CliEnv where
  store : StoreCodecs
  workingDir : Place

/-- The options of one invocation. A filter that cannot be built is `none`. -/
structure DownloadArgs where
  output : Option Path
  buildId : Option UInt32
  verify : Bool
  fileFilter : Option (Option FileFilter)

/-- One depot of the list with what happens to it. The key or the manifest ID is
missing when a request fails, and so is the response when the CDN fails. Its file tasks
make calls that may fail without a trace. -/
structure DepotRequest where
  depotId : DepotId
  keyAndManifest : Option (DepotKey × ManifestId)
  response : Option Bytes
  fetcher : ChunkFetcher
  moves : List JobMove
  cacheFault : Option SaveFault
  configFault : Option WriteFault
  silent : Nat → SilentFailures := fun _ => .none

namespace DownloadArgs

variable (args : DownloadArgs)

def baseDir : Path := args.output.getD (.ofString "depots")

/-- With an output directory every depot goes there, otherwise each goes to a
directory of its own and of the build. -/
def installDir (depotId : DepotId) : Path :=
  match args.output with
  | some base => base
  | none =>
      let depotDir := args.baseDir.join (.ofString (toString depotId.id.toNat))
      match args.buildId with
      | none => depotDir
      | some buildId => depotDir.join (.ofString (toString buildId.toNat))

end DownloadArgs

/-- What the loop does with a depot once its manifest is known. -/
inductive Prepared where
  | aborted
  | upToDate
  | download (ctx : JobContext) (manifestId : ManifestId)

inductive DepotOutcome where
  | aborted
  | upToDate
  | installed
  deriving DecidableEq, Repr

namespace CliEnv

variable (env : CliEnv) (args : DownloadArgs)

def cache : ManifestCache := .defaultFor args.baseDir

def loadCached (disk : Disk) (depotId : DepotId) (manifestId : ManifestId) :
    Option DepotManifest :=
  (cache args).load env.store env.workingDir disk depotId manifestId

def loadConfig (disk : Disk) : DepotConfig :=
  .load env.store env.workingDir disk (DepotConfig.pathFor args.baseDir)

/-- The manifest from the cache, or from the CDN and into the cache. -/
def obtainManifest (disk : Disk) (request : DepotRequest) (manifestId : ManifestId) :
    Disk × Option DepotManifest :=
  match env.loadCached args disk request.depotId manifestId with
  | some cached => (disk, some cached)
  | none =>
      match request.response with
      | none => (disk, none)
      | some manifestBytes =>
          ((cache args).save env.store env.workingDir disk request.depotId manifestId manifestBytes
            request.cacheFault, (extractAndParse env.store manifestBytes).toOption)

/-- Decrypt filenames if needed. -/
def decrypted (manifest : DepotManifest) (key : DepotKey) : Option DepotManifest :=
  if manifest.filenamesEncrypted then
    match manifest.decryptFilenames ⟨env.store.codecs.aes, env.store.base64Decode⟩ key with
    | (manifest, .ok ()) => some manifest
    | (_, .error _) => none
  else some manifest

/-- The manifest that was installed before, if it is another one and cached. -/
def previousManifest (disk : Disk) (depotId : DepotId) (manifestId : ManifestId) :
    Option DepotManifest :=
  ((env.loadConfig args disk).getInstalled depotId |>.filter fun oldId => oldId ≠ manifestId).bind
    fun oldId => env.loadCached args disk depotId oldId

def jobContext (disk : Disk) (request : DepotRequest) (key : DepotKey) (manifestId : ManifestId)
    (filter : Option FileFilter) (manifest : DepotManifest) : JobContext where
  job :=
    { depotId := request.depotId
      depotKey := key
      installDir := args.installDir request.depotId
      verify := args.verify
      fileFilter := filter
      previousManifest := env.previousManifest args disk request.depotId manifestId
      retry := .default
      workingDir := env.workingDir }
  codecs := env.store.codecs
  fetcher := request.fetcher
  manifest := manifest
  silent := request.silent

/-- Everything that the loop does with a depot before it downloads. -/
def prepareDepot (disk : Disk) (request : DepotRequest) : Disk × Prepared :=
  match request.keyAndManifest with
  | none => (disk, .aborted)
  | some (key, manifestId) =>
      match env.obtainManifest args disk request manifestId with
      | (disk, none) => (disk, .aborted)
      | (disk, some manifest) =>
          match env.decrypted manifest key, args.fileFilter with
          | some manifest, some filter =>
              if (env.loadConfig args disk).getInstalled request.depotId = some manifestId ∧
                  args.verify = false then
                (disk, .upToDate)
              else
                (disk, .download
                  (env.jobContext args disk request key manifestId filter manifest) manifestId)
          | _, _ => (disk, .aborted)

/-- Track the installed manifest for future delta downloads. -/
def recordInstalled (disk : Disk) (depotId : DepotId) (manifestId : ManifestId)
    (fault : Option WriteFault) : Disk :=
  ((env.loadConfig args disk).setInstalled depotId manifestId).save env.store env.workingDir disk
    (DepotConfig.pathFor args.baseDir) fault

/-- One iteration of the loop over the depots. A download that has not returned
Ok, because it failed or because the process ended before, records nothing. -/
def runDepot (disk : Disk) (request : DepotRequest) : Option (Disk × DepotOutcome) :=
  match env.prepareDepot args disk request with
  | (disk, .aborted) => some (disk, .aborted)
  | (disk, .upToDate) => some (disk, .upToDate)
  | (disk, .download ctx manifestId) =>
      match ctx.download disk request.moves with
      | none => none
      | some (world, state) =>
          if state.stage = .returned (.ok ()) then
            some (env.recordInstalled args world.disk request.depotId manifestId
              request.configFault, .installed)
          else some (world.disk, .aborted)

/-- The loop over the depots. It ends with the first depot that fails. -/
def runDownload (disk : Disk) : List DepotRequest → Option (Disk × Bool)
  | [] => some (disk, true)
  | request :: rest =>
      match env.runDepot args disk request with
      | none => none
      | some (disk, .aborted) => some (disk, false)
      | some (disk, _) => runDownload disk rest

end CliEnv

end DepotDownloader.Cli
