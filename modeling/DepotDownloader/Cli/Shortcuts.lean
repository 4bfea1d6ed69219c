import DepotDownloader.Cli.Origins
import DepotDownloader.Steam.Depot.EncryptedNames
import DepotDownloader.SteamClient.CacheHistory

/-! # The shortcuts of an upgrade

Two shortcuts look at `depot.json` and not at the disk: a download takes a file for
unchanged when the recorded manifest lists it with the same hash, and an invocation
skips a depot when its manifest is the recorded one. In sessions that only take
over what was put there for the content that they look for, both are right.
-/

namespace DepotDownloader.Cli

open Foundation Foundation.LexPath Steam SteamClient

namespace CliEnv

variable {env : CliEnv} {disk : Disk} {config : Disk × Origins} {iterations : List Iteration}
  {iteration : Iteration} {prepared : Disk}

/-- In a session of careful iterations, however they end, a file that a download
takes for unchanged passes the check of the new manifest's entry. -/
theorem unchanged_file_valid
    (hrun : env.traced.RunWhere env.Careful (disk, fun _ => none) iterations config)
    (hcareful : env.Careful config iteration) {ctx : JobContext} {manifestId : ManifestId}
    (hprepare : env.prepareDepot iteration.args config.1 iteration.request =
      (prepared, .download ctx manifestId))
    {moves : List JobMove} {world : World} {state : JobState}
    (hmoves : ctx.download prepared moves = some (world, state)) {file : ManifestFile}
    {rest : List ManifestFile} (hstage : state.stage = .spawning (file :: rest)) {name : String}
    (hname : file.filename = some name) (hfilter : ctx.job.filteredOut name = false)
    (hdir : file.isDirectory = false)
    (hunchanged : ctx.job.unchanged world.disk file name = true) :
    fileHasValidChunks world.disk (ctx.job.finalPlace name) file.size file.chunks = true := by
  obtain ⟨hordinary, htakes⟩ := hcareful prepared ctx manifestId hprepare
  have hfaithful : Faithful (prepared, config.2) :=
    (faithful_run hrun).of_stored (prepareDepot_changesOnly hprepare)
  have hshape := JobContext.JobShape.run hordinary.names hmoves
  have hmem : file ∈ state.stage.unspawned := by simp [hstage]
  have hselected : ctx.Selected file name := by
    obtain ⟨passed, hfiles, _⟩ := hshape.spawned
    exact ⟨hfiles ▸ List.mem_append_right _ hmem, hname, hfilter, hdir⟩
  -- the loop decides and checks as it would have when the download began
  have hsame := hshape.unspawned_same hordinary.names hmem hname (.inr rfl)
  have hbefore : ctx.job.unchanged prepared file name = true := by
    simpa only [DepotJob.unchanged, hsame.present_eq] using hunchanged
  obtain ⟨data, hread, haccepts⟩ := fileHasValidChunks_accepts.mp
    (hfaithful.unchanged_valid hordinary htakes hselected hbefore)
  exact fileHasValidChunks_accepts.mpr ⟨data, hsame.read_eq.trans hread, haccepts⟩

/-- The place of a file in the directory that an invocation installs a depot in. -/
def filePlace (env : CliEnv) (args : DownloadArgs) (depotId : DepotId) (name : String) : Place :=
  ((args.installDir depotId).join (.ofString name)).resolve env.workingDir

/-- Every file that the filter selects was put there for an entry of the same content. -/
def SkipsInstalled (env : CliEnv) (config : Disk × Origins) (iteration : Iteration) : Prop :=
  ∀ prepared key manifestId raw manifest filter,
    Found env iteration.args iteration.request config.1 prepared key manifestId raw manifest
        filter →
      env.prepareDepot iteration.args config.1 iteration.request = (prepared, .upToDate) →
        ∀ file ∈ manifest.files, ∀ name, file.filename = some name → file.isDirectory = false →
          (filter.any fun filter => !filter.selects name) = false →
            config.2.Give (env.filePlace iteration.args iteration.request.depotId name) file

/-- In a session of careful iterations, however they end, a depot that is skipped as
up to date has every selected file of its manifest, and the file passes the check. -/
theorem upToDate_files_valid
    (hrun : env.traced.RunWhere env.Careful (disk, fun _ => none) iterations config)
    (hskips : env.SkipsInstalled config iteration)
    (hprepare : env.prepareDepot iteration.args config.1 iteration.request =
      (prepared, .upToDate)) :
    ∃ key manifestId raw manifest filter,
      Found env iteration.args iteration.request config.1 prepared key manifestId raw manifest
        filter ∧
      ∀ file ∈ manifest.files, ∀ name, file.filename = some name → file.isDirectory = false →
        (filter.any fun filter => !filter.selects name) = false →
          fileHasValidChunks prepared
            (env.filePlace iteration.args iteration.request.depotId name) file.size
              file.chunks = true := by
  obtain ⟨key, manifestId, raw, manifest, filter, hfound, _⟩ := prepareDepot_upToDate hprepare
  refine ⟨key, manifestId, raw, manifest, filter, hfound, ?_⟩
  intro file hfile name hname hdir hfilter
  have hfaithful : Faithful (prepared, config.2) :=
    (faithful_run hrun).of_stored (prepareDepot_changesOnly hprepare)
  have hgives := hskips prepared key manifestId raw manifest filter hfound hprepare file hfile
    name hname hdir hfilter
  exact fileHasValidChunks_accepts.mpr (hfaithful.accepts hgives)

end CliEnv

section Sample

/-- A v5 manifest: the payload and the metadata section between their magics. -/
def rawManifest (payload metadata : Bytes) : Bytes :=
  [208, 23, 246, 113, UInt8.ofNat payload.length, 0, 0, 0] ++ payload ++
    [190, 18, 72, 31, UInt8.ofNat metadata.length, 0, 0, 0] ++ metadata ++ [171, 21, 196, 50]

/-- A ZIP archive that stores one entry with the given CRC-32. -/
def storedArchive (crc raw : Bytes) : Bytes :=
  let sizes := crc ++ [UInt8.ofNat raw.length, 0, 0, 0, UInt8.ofNat raw.length, 0, 0, 0]
  [80, 75, 3, 4, 20, 0, 0, 0, 0, 0, 0, 0, 33, 0] ++ sizes ++ [1, 0, 0, 0, 122] ++ raw ++
    [80, 75, 1, 2, 20, 3, 20, 0, 0, 0, 0, 0, 0, 0, 33, 0] ++ sizes ++
    [1, 0, 0, 0, 0, 0, 0, 0, 0, 0, 0, 0, 128, 1, 0, 0, 0, 0, 122, 80, 75, 5, 6, 0, 0, 0, 0, 1, 0, 1,
      0, 47, 0, 0, 0, UInt8.ofNat (31 + raw.length), 0, 0, 0, 0, 0]

/-- SHA-1 of no bytes and of the letter x. -/
def blankHash : Vector UInt8 20 :=
  #v[218, 57, 163, 238, 94, 107, 75, 13, 50, 85, 191, 239, 149, 96, 24, 144, 175, 216, 7, 9]

def letterHash : Vector UInt8 20 :=
  #v[17, 246, 173, 142, 197, 42, 41, 132, 171, 170, 253, 124, 59, 81, 101, 3, 120, 92, 32, 114]

/-- The payloads that list one file, empty or with the letter x. -/
def blankPayload : Bytes := [10, 27, 10, 1, 102, 16, 0, 42, 20] ++ blankHash.toList

/-- The payload that lists the empty file `.staging/f`. -/
def stagedPayload : Bytes :=
  [10, 36, 10, 10, 46, 115, 116, 97, 103, 105, 110, 103, 47, 102, 16, 0, 42, 20] ++
    blankHash.toList

def letterPayload : Bytes :=
  [10, 62, 10, 1, 102, 16, 1, 42, 20] ++ letterHash.toList ++ [50, 33, 10, 20] ++
    letterHash.toList ++ [21, 120, 0, 120, 0, 24, 0, 32, 1, 40, 17]

/-- The payloads that list the empty file `b/c`, under an encrypted name and under the
plain one. -/
def sealedName : String := "tl0wAwyItEyXWjQ/k/s8CRIW2bb0VVyobQ7uu9tDfcU="

def sealedPayload : Bytes :=
  [10, 70, 10, 44] ++ encodeUtf8 sealedName.toList ++ [16, 0, 42, 20] ++ blankHash.toList

def openPayload : Bytes := [10, 29, 10, 3, 98, 47, 99, 16, 0, 42, 20] ++ blankHash.toList

/-- The payloads that list the empty file `d` in the same two ways. -/
def renamedName : String := "tl0wAwyItEyXWjQ/k/s8CWUhfDOl0l/L4WYw5KigyVg="

def sealedRenamedPayload : Bytes :=
  [10, 70, 10, 44] ++ encodeUtf8 renamedName.toList ++ [16, 0, 42, 20] ++ blankHash.toList

def openRenamedPayload : Bytes := [10, 27, 10, 1, 100, 16, 0, 42, 20] ++ blankHash.toList

def sampleSections : SectionCodecs where
  decodePayload data :=
    if data = [] then some ⟨[]⟩
    else if data = blankPayload then
      some ⟨[⟨some "f", some 0, none, none, some blankHash.toList, [], none⟩]⟩
    else if data = stagedPayload then
      some ⟨[⟨some ".staging/f", some 0, none, none, some blankHash.toList, [], none⟩]⟩
    else if data = letterPayload then
      some ⟨[⟨some "f", some 1, none, none, some letterHash.toList,
        [⟨some letterHash.toList, some 0x780078, some 0, some 1, some 17⟩], none⟩]⟩
    else if data = sealedPayload then
      some ⟨[⟨some sealedName, some 0, none, none, some blankHash.toList, [], none⟩]⟩
    else if data = openPayload then
      some ⟨[⟨some "b/c", some 0, none, none, some blankHash.toList, [], none⟩]⟩
    else if data = sealedRenamedPayload then
      some ⟨[⟨some renamedName, some 0, none, none, some blankHash.toList, [], none⟩]⟩
    else if data = openRenamedPayload then
      some ⟨[⟨some "d", some 0, none, none, some blankHash.toList, [], none⟩]⟩
    else none
  decodeMetadata data :=
    match data with
    | [8, depotId, 16, gid, 32, flag] =>
        some ⟨some depotId.toUInt32, some gid.toUInt64, none, some (flag ≠ 0), none, none, none,
          none, none⟩
    | _ => none
  decodeSignature _ := none

/-- A manifest with the CRC-32 in its archive and the SHA-1 in the cache. The flag tells
whether its names are encrypted. -/
structure SampleManifest where
  depotId : UInt8
  gid : UInt8
  flag : UInt8
  payload : Bytes
  crc : Bytes
  sha : Vector UInt8 20

namespace SampleManifest

def raw (manifest : SampleManifest) : Bytes :=
  rawManifest manifest.payload [8, manifest.depotId, 16, manifest.gid, 32, manifest.flag]

def archive (manifest : SampleManifest) : Bytes := storedArchive manifest.crc manifest.raw

def blank : SampleManifest :=
  ⟨1, 11, 0, blankPayload, [138, 9, 206, 118],
    #v[62, 251, 32, 41, 14, 78, 165, 71, 92, 215, 229, 146, 242, 54, 174, 102, 176, 144, 152, 32]⟩

def letter : SampleManifest :=
  ⟨1, 12, 0, letterPayload, [208, 176, 7, 119],
    #v[114, 85, 200, 200, 21, 235, 28, 254, 198, 229, 42, 185, 210, 49, 73, 194, 203, 30, 73, 71]⟩

def letterAgain : SampleManifest :=
  ⟨1, 13, 0, letterPayload, [100, 187, 112, 209], #v[221, 114, 134, 252, 52, 243, 155, 255, 61, 192,
    48, 123, 146, 250, 56, 90, 108, 59, 170, 255]⟩

def blankAgain : SampleManifest :=
  ⟨1, 14, 0, blankPayload, [45, 38, 246, 36], #v[248, 225, 222, 188, 213, 0, 139, 251, 106, 162, 86,
    113, 38, 187, 184, 226, 208, 134, 109, 125]⟩

/-- The manifest without files, and the empty file in another depot. -/
def none : SampleManifest :=
  ⟨1, 15, 0, [], [13, 255, 147, 30], #v[228, 57, 234, 81, 111, 79, 143, 204, 67, 114, 189, 79, 195,
    173, 56, 244, 239, 65, 92, 153]⟩

def other : SampleManifest :=
  ⟨2, 22, 0, blankPayload, [65, 200, 74, 73],
    #v[188, 124, 4, 231, 234, 53, 236, 44, 71, 59, 199, 12, 94, 26, 18, 234, 87, 186, 112, 126]⟩

def staged : SampleManifest :=
  ⟨1, 16, 0, stagedPayload, [229, 239, 54, 133],
    #v[147, 247, 28, 210, 250, 199, 49, 223, 64, 87, 55, 143, 129, 92, 4, 188, 45, 28, 24, 32]⟩

/-- Manifests of the encrypted and of the plain name. -/
def sealed : SampleManifest :=
  ⟨1, 17, 1, sealedPayload, [192, 75, 203, 229], #v[64, 144, 64, 226, 196, 110, 211, 89, 15, 122,
    65, 186, 200, 144, 213, 65, 174, 240, 128, 105]⟩

def sealedAgain : SampleManifest :=
  ⟨1, 18, 1, sealedPayload, [93, 81, 35, 212], #v[194, 255, 105, 3, 206, 224, 161, 29, 73, 140, 82,
    24, 231, 158, 149, 63, 118, 242, 99, 0]⟩

def plain : SampleManifest :=
  ⟨1, 17, 0, openPayload, [131, 216, 60, 84], #v[19, 0, 165, 137, 245, 241, 161, 129, 66, 181, 148,
    47, 86, 131, 212, 132, 72, 133, 33, 216]⟩

def plainAgain : SampleManifest :=
  ⟨1, 18, 0, openPayload, [30, 194, 212, 101], #v[253, 180, 91, 112, 148, 127, 86, 178, 74, 236, 55,
    112, 105, 18, 26, 88, 121, 45, 103, 242]⟩

/-- Manifests of the file that replaces the one of `sealed` and `plain`. -/
def sealedRenamed : SampleManifest :=
  ⟨1, 20, 1, sealedRenamedPayload, [84, 163, 71, 91], #v[137, 169, 216, 236, 227, 242, 42, 68, 36,
    64, 196, 90, 198, 36, 89, 197, 75, 118, 247, 193]⟩

def plainRenamed : SampleManifest :=
  ⟨1, 20, 0, openRenamedPayload, [91, 8, 127, 105], #v[217, 229, 86, 120, 194, 32, 25, 198, 177,
    205, 79, 149, 31, 52, 77, 54, 137, 250, 240, 169]⟩

def all : List SampleManifest :=
  [blank, letter, letterAgain, blankAgain, none, other, staged, sealed, sealedAgain, plain,
    plainAgain, sealedRenamed, plainRenamed]

end SampleManifest

/-- The text of a config, with the depots in the order of its entries. -/
def configText (config : DepotConfig) : Bytes :=
  let entries := config.installedManifests.map fun entry =>
    "\n    \"" ++ toString entry.1.id.toNat ++ "\": " ++ toString entry.2.id.toNat
  encodeUtf8 ("\x7b\n  \"installed_manifests\": \x7b" ++ ",".intercalate entries ++
    "\n  \x7d\n\x7d").toList

def sampleConfigs : List (DepotConfig × Bytes) :=
  [[(⟨1⟩, ⟨11⟩)], [(⟨1⟩, ⟨12⟩)], [(⟨1⟩, ⟨15⟩)], [(⟨2⟩, ⟨22⟩), (⟨1⟩, ⟨11⟩)],
    [(⟨2⟩, ⟨22⟩), (⟨1⟩, ⟨15⟩)], [(⟨1⟩, ⟨15⟩), (⟨2⟩, ⟨22⟩)], [(⟨1⟩, ⟨16⟩)],
    [(⟨2⟩, ⟨22⟩), (⟨1⟩, ⟨16⟩)], [(⟨1⟩, ⟨17⟩)]].map fun entries =>
      (⟨entries⟩, configText ⟨entries⟩)

theorem apart_sampleConfigs : TableCodec.Apart sampleConfigs where
  texts := by decide +kernel
  uncounted := by decide +kernel
  nonempty := by decide +kernel

/-- The two blocks that AES-256 encrypts under the zero key for the letter x, and the
chunk that they are. -/
def letterBlocks : List (Bytes × Bytes) :=
  [(.replicate 16 0,
    [220, 149, 192, 120, 162, 64, 137, 137, 173, 72, 162, 20, 146, 132, 32, 135]),
  (120 :: .replicate 15 15,
    [54, 68, 110, 68, 252, 113, 53, 123, 55, 252, 247, 86, 149, 106, 75, 43])]

def letterRaw : Bytes := letterBlocks.flatMap Prod.snd

/-- The block behind the one of the vector in the encrypted `d`. -/
def renamedBlocks : List (Bytes × Bytes) :=
  [([100, 1, 12, 13, 10, 11, 8, 9, 6, 7, 4, 5, 2, 3, 0, 1],
    [101, 33, 124, 51, 165, 210, 95, 203, 225, 102, 48, 228, 168, 160, 201, 88])]

def sampleStore : StoreCodecs where
  codecs :=
    { aes := tableAes (nameBlocks ++ letterBlocks ++ renamedBlocks).reverse
      zstdDecodeAll := fun _ => none
      lzmaDecompress := fun _ => none
      zipFirst := fun data =>
        match SampleManifest.all.find? fun manifest => manifest.archive = data with
        | some manifest => .entry manifest.raw
        | none => .notAnArchive }
  base64Decode := nameCodecs.base64Decode
  sha1 data :=
    match SampleManifest.all.find? fun manifest => manifest.raw = data with
    | some manifest => manifest.sha
    | none => .replicate 20 (UInt8.ofNat data.length)
  parse := DepotManifest.parse sampleSections
  configToJson := TableCodec.encode sampleConfigs
  configFromJson := TableCodec.decode sampleConfigs
  configFromJson_toJson config :=
    ⟨config, TableCodec.decode_encode apart_sampleConfigs config, fun _ => rfl⟩
  configFromJson_cut config _ hcut := TableCodec.decode_cut apart_sampleConfigs config hcut

def sampleEnv : CliEnv where
  store := sampleStore
  workingDir := ["home"]

def sampleArgs (filter : Option FileFilter) : DownloadArgs where
  output := some (.ofString "out")
  buildId := none
  verify := false
  fileFilter := some filter

def sampleRequest (manifest : SampleManifest) (moves : List JobMove) : DepotRequest where
  depotId := ⟨manifest.depotId.toUInt32⟩
  keyAndManifest := some (⟨.replicate 32 0⟩, ⟨manifest.gid.toUInt64⟩)
  response := some manifest.archive
  fetcher _ := .error "offline"
  moves := moves
  cacheFault := none
  configFault := none

/-- The files that `out` holds for a recorded manifest. -/
def storeFiles (manifest : SampleManifest) : List (Place × Bytes) :=
  let depotId : DepotId := ⟨manifest.depotId.toUInt32⟩
  let manifestId : ManifestId := ⟨manifest.gid.toUInt64⟩
  let store : Place := ["home", "out", ".depotdownloader"]
  [(store ++ ["depot.json"], configText ⟨[(depotId, manifestId)]⟩),
    (store ++ ["manifests", ManifestCache.manifestName depotId manifestId], manifest.raw),
    (store ++ ["manifests", ManifestCache.shaName depotId manifestId], shaBytes manifest.sha)]

/-- An iteration that downloads a manifest into `out`. -/
def sampleIteration (manifest : SampleManifest) (filter : Option FileFilter)
    (moves : List JobMove) : Iteration :=
  ⟨sampleArgs filter, sampleRequest manifest moves⟩

/-- The moves of a first download of the empty file. -/
def blankMoves : List JobMove :=
  List.replicate 2 (.main none) ++ offlineMoves 0 ++ List.replicate 2 (.main none)

/-- The download of the empty file, and downloads whose filter leaves nothing to do. -/
def fullIteration : Iteration := sampleIteration .blank none blankMoves

/-- The first download of the file with the letter, whose chunk the fetcher serves. -/
def letterMoves : List JobMove :=
  List.replicate 2 (.main none) ++ List.replicate 9 (.file 0 ⟨.main, none⟩) ++
    List.replicate 5 (.file 0 ⟨.chunk 0, none⟩) ++ List.replicate 3 (.file 0 ⟨.main, none⟩) ++
      [.finish 0] ++ List.replicate 2 (.main none)

def letterIteration : Iteration where
  args := sampleArgs none
  request := { sampleRequest .letter letterMoves with fetcher := fun _ => .ok letterRaw }

def filteredDownload : Iteration :=
  sampleIteration .letter (some (.fileList ["g"])) (List.replicate 3 (.main none))

def filteredIteration : Iteration :=
  sampleIteration .letter (some (.fileList ["g"])) (List.replicate 5 (.main none))

def blankFile : ManifestFile := ⟨some "f", some 0, none, some blankHash, [], none⟩

def letterFile : ManifestFile :=
  ⟨some "f", some 1, none, some letterHash,
    [⟨some ⟨letterHash⟩, some 0x780078, some 0, some 17, some 1⟩], none⟩

theorem cleanName_f : CleanName "f" := ⟨by decide, by decide⟩

/-- A file of one chunk that covers it. -/
theorem layout_letterFile : Layout letterFile.size letterFile.chunks 1 where
  size := rfl
  complete chunk hmem := by
    rw [List.mem_singleton.mp hmem]
    exact ⟨rfl, rfl, 0, 1, rfl, rfl, by decide⟩
  disjoint := List.pairwise_singleton _ _

theorem distinctIds_letterFile : DistinctIds letterFile.chunks := by
  intro chunk hmem chunk' hmem' _
  exact (List.mem_singleton.mp hmem).trans (List.mem_singleton.mp hmem').symm

/-- A download of one file that the previous manifest, if there is one, lists alike. -/
theorem ordinary_of_same {ctx : JobContext} {file : ManifestFile} {length : Nat}
    (hfiles : ctx.manifest.files = [file]) (hname : file.filename = some "f")
    (hlayout : Layout file.size file.chunks length) (hdistinct : DistinctIds file.chunks)
    (hprevious : (ctx.job.previousManifest.all fun previous => previous.files = [file]) = true) :
    Ordinary ctx := by
  have hnames : manifestNames ctx.manifest = ["f"] := by simp [manifestNames, hfiles, hname]
  have hselected {other : ManifestFile} {name : String} (hother : ctx.Selected other name) :
      other = file := by
    simpa [hfiles] using hother.1
  have hlist {previous : DepotManifest} (hjob : ctx.job.previousManifest = some previous) :
      previous.files = [file] := by
    simpa [hjob] using hprevious
  have hold {old : ManifestFile} {name : String} (hold : ctx.job.oldFile name = some old) :
      old = file := by
    obtain ⟨previous, hjob, hfind⟩ := Option.bind_eq_some_iff.mp hold
    simpa [hlist hjob] using List.mem_of_find?_eq_some hfind
  refine ⟨cleanNames_single hnames cleanName_f, ?_, ?_, ?_, ?_⟩
  · rintro _ ⟨previous, hjob, old, hmem, removed, hremoved, rfl⟩
    rw [hlist hjob, List.mem_singleton] at hmem
    subst hmem
    simp [removedName, hname, hfiles] at hremoved
  · intro other name hother
    exact ⟨length, hselected hother ▸ hlayout⟩
  · intro other name old hother hfound _ _ data haccepts
    rw [hselected hother, ← hold hfound]
    exact haccepts
  · intro other name old hother hfound oldChunk holdChunk chunk hchunk hid _
    rw [hold hfound] at holdChunk
    rw [hselected hother] at hchunk
    rw [hdistinct oldChunk holdChunk chunk hchunk hid]
    exact ⟨rfl, rfl⟩

/-- The iteration downloads the file with the letter, which it finds nowhere or where it
was put. -/
def letterCareful (config : Disk × Origins) (iteration : Iteration) : Bool :=
  match sampleEnv.prepareDepot iteration.args config.1 iteration.request with
  | (_, .download ctx _) =>
      ctx.manifest.files = [letterFile] ∧
        (ctx.job.previousManifest.all fun previous => previous.files = [letterFile]) ∧
        (ctx.job.previousManifest = none ∨ config.2 (ctx.job.finalPlace "f") = some letterFile)
  | _ => true

theorem careful_of_letter {config : Disk × Origins} {iteration : Iteration}
    (hletter : letterCareful config iteration = true)
    (hsilent : ∀ position, iteration.request.silent position = .none) :
    sampleEnv.Careful config iteration := by
  intro prepared ctx manifestId hprepare
  unfold letterCareful at hletter
  rw [hprepare] at hletter
  obtain ⟨hfiles, hprevious, horigin⟩ := of_decide_eq_true hletter
  refine ⟨ordinary_of_same hfiles rfl layout_letterFile distinctIds_letterFile hprevious,
    ?_, ?_, ?_⟩
  · intro file name hselected
    right
    rw [show file = letterFile by simpa [hfiles] using hselected.1]
    exact distinctIds_letterFile
  · intro file name old hselected hold _ _
    obtain ⟨previous, hjob, hfind⟩ := Option.bind_eq_some_iff.mp hold
    have hfile : file = letterFile := by simpa [hfiles] using hselected.1
    have hname : name = "f" := by
      have hnamed := hselected.2.1
      rw [hfile] at hnamed
      exact (Option.some.inj hnamed).symm
    have hmem : old = letterFile := by
      have hlist : previous.files = [letterFile] := by simpa [hjob] using hprevious
      simpa [hlist] using List.mem_of_find?_eq_some hfind
    rw [hname, hmem]
    refine ⟨letterFile, ?_, fun _ => id⟩
    exact horigin.resolve_left (by simp [hjob])
  · intro position task _ _
    obtain ⟨_, _, _, _, _, rfl⟩ := CliEnv.prepareDepot_download hprepare
    exact .of_none (hsilent position)

theorem letterIteration_careful {config : Disk × Origins}
    (hrun : sampleEnv.traced.run (.empty, fun _ => none) [letterIteration] = some config) :
    sampleEnv.traced.RunWhere sampleEnv.Careful (.empty, fun _ => none) [letterIteration]
      config := by
  have hletter : letterCareful (.empty, fun _ => none) letterIteration = true := by
    decide +kernel
  obtain ⟨middle, hstep, hend⟩ := (Machine.run_cons_eq_some _).mp hrun
  exact ⟨careful_of_letter hletter fun _ => rfl, middle, hstep, Option.some.inj hend⟩

theorem unchanged_file_valid_sample :
    ∃ config prepared ctx manifestId,
      sampleEnv.traced.run (.empty, fun _ => none) [letterIteration] = some config ∧
      sampleEnv.prepareDepot (sampleIteration .letterAgain none []).args config.1
        (sampleIteration .letterAgain none []).request = (prepared, .download ctx manifestId) ∧
      ctx.job.unchanged prepared letterFile "f" = true ∧
      fileHasValidChunks prepared (ctx.job.finalPlace "f") letterFile.size letterFile.chunks =
        true := by
  have hcheck : ((sampleEnv.traced.run (.empty, fun _ => none) [letterIteration]).any fun config =>
      letterCareful config (sampleIteration .letterAgain none []) &&
        match sampleEnv.prepareDepot (sampleIteration .letterAgain none []).args config.1
            (sampleIteration .letterAgain none []).request with
        | (prepared, .download ctx _) =>
            ctx.manifest.files = [letterFile] ∧ ctx.job.filteredOut "f" = false ∧
              ctx.job.unchanged prepared letterFile "f"
        | _ => false) = true := by decide +kernel
  obtain ⟨config, hrun, hsecond⟩ := Machine.exists_of_run_any _ hcheck
  obtain ⟨hletter, hsecond⟩ := Bool.and_eq_true_iff.mp hsecond
  revert hsecond
  split
  next prepared ctx manifestId hprepare =>
    intro hsecond
    obtain ⟨hfiles, hfilter, hunchanged⟩ := of_decide_eq_true hsecond
    refine ⟨config, prepared, ctx, manifestId, hrun, hprepare, hunchanged, ?_⟩
    have hstage : ctx.initial.stage = .spawning [letterFile] := by rw [JobContext.initial, hfiles]
    exact CliEnv.unchanged_file_valid (letterIteration_careful hrun)
      (careful_of_letter hletter fun _ => rfl)
      hprepare (Machine.run_nil _ _) hstage rfl hfilter rfl hunchanged
  next =>
    intro hsecond
    cases hsecond

/-- The shortcut is wrong after an upgrade whose filter left the file out: the upgrade
records a manifest of which this disk holds an older version. -/
theorem filtered_upgrade_unchanged :
    ∃ disk prepared ctx manifestId,
      sampleEnv.session.run .empty [fullIteration, filteredIteration] = some disk ∧
      sampleEnv.prepareDepot (sampleIteration .letterAgain none []).args disk
        (sampleIteration .letterAgain none []).request = (prepared, .download ctx manifestId) ∧
      Ordinary ctx ∧ ctx.initial.stage = .spawning [letterFile] ∧
      ctx.job.filteredOut "f" = false ∧ letterFile.isDirectory = false ∧
      ctx.job.unchanged prepared letterFile "f" = true ∧
      fileHasValidChunks prepared (ctx.job.finalPlace "f") letterFile.size letterFile.chunks =
        false := by
  have hcheck : ((sampleEnv.session.run .empty [fullIteration, filteredIteration]).any fun disk =>
      match sampleEnv.prepareDepot (sampleIteration .letterAgain none []).args disk
          (sampleIteration .letterAgain none []).request with
      | (prepared, .download ctx _) =>
          ctx.manifest.files = [letterFile] ∧
            (ctx.job.previousManifest.all fun previous => previous.files = [letterFile]) ∧
            ctx.job.filteredOut "f" = false ∧ ctx.job.unchanged prepared letterFile "f" ∧
            fileHasValidChunks prepared (ctx.job.finalPlace "f") letterFile.size
              letterFile.chunks = false
      | _ => false) = true := by decide +kernel
  obtain ⟨disk, hrun, hthird⟩ := Machine.exists_of_run_any _ hcheck
  revert hthird
  split
  next prepared ctx manifestId hprepare =>
    intro hthird
    obtain ⟨hfiles, hprevious, hfilter, hunchanged, hinvalid⟩ := of_decide_eq_true hthird
    refine ⟨disk, prepared, ctx, manifestId, hrun, hprepare, ?_, ?_, hfilter, rfl, hunchanged,
      hinvalid⟩
    · exact ordinary_of_same hfiles rfl layout_letterFile distinctIds_letterFile hprevious
    · rw [JobContext.initial, hfiles]
  next =>
    intro hthird
    cases hthird

/-- The manifest that the iteration of a manifest of one plaintext name finds. -/
theorem files_of_found {sample : SampleManifest} {filter filter' : Option FileFilter}
    {moves : List JobMove} {disk prepared : Disk} {key : DepotKey} {manifestId : ManifestId}
    {raw manifest : DepotManifest} {file : ManifestFile}
    (hfound : CliEnv.Found sampleEnv (sampleIteration sample filter moves).args
      (sampleIteration sample filter moves).request disk prepared key manifestId raw manifest
        filter')
    (hraw : ((sampleEnv.obtainManifest (sampleIteration sample filter moves).args disk
      (sampleIteration sample filter moves).request ⟨sample.gid.toUInt64⟩).2.any fun raw =>
        raw.filenamesEncrypted = false ∧ raw.files = [file]) = true) :
    manifest.files = [file] ∧ filter' = filter := by
  obtain ⟨hasked, hobtained, hdecrypted, hfilter⟩ := hfound
  cases hasked
  cases hfilter
  rw [hobtained] at hraw
  obtain ⟨hplain, hfiles⟩ := of_decide_eq_true hraw
  unfold CliEnv.decrypted at hdecrypted
  rw [if_neg (by simp [hplain])] at hdecrypted
  cases hdecrypted
  exact ⟨hfiles, rfl⟩

/-- The iteration is skipped, and its manifest lists that file only. -/
def skipsSingle (file : ManifestFile) (disk : Disk) (sample : SampleManifest) : Bool :=
  let iteration := sampleIteration sample none []
  (match (sampleEnv.prepareDepot iteration.args disk iteration.request).2 with
    | .upToDate => true
    | _ => false) &&
  (sampleEnv.obtainManifest iteration.args disk iteration.request
    ⟨sample.gid.toUInt64⟩).2.any fun raw =>
      raw.filenamesEncrypted = false ∧ raw.files = [file]

theorem of_skipsSingle {file : ManifestFile} {disk : Disk} {sample : SampleManifest}
    (hskips : skipsSingle file disk sample = true) :
    ∃ prepared,
      sampleEnv.prepareDepot (sampleIteration sample none []).args disk
        (sampleIteration sample none []).request = (prepared, .upToDate) ∧
      ∀ prepared key manifestId raw manifest filter,
        CliEnv.Found sampleEnv (sampleIteration sample none []).args
            (sampleIteration sample none []).request disk prepared key manifestId raw manifest
              filter →
          manifest.files = [file] ∧ filter = none := by
  obtain ⟨hprepare, hraw⟩ := Bool.and_eq_true_iff.mp hskips
  refine ⟨_, Prod.ext rfl ?_, fun _ _ _ _ _ _ hfound => files_of_found hfound hraw⟩
  revert hprepare
  split
  next heq => exact fun _ => heq
  next => exact fun hfalse => Bool.noConfusion hfalse

theorem upToDate_files_valid_sample :
    ∃ config prepared,
      sampleEnv.traced.run (.empty, fun _ => none) [letterIteration] = some config ∧
      sampleEnv.prepareDepot (sampleIteration .letter none []).args config.1
        (sampleIteration .letter none []).request = (prepared, .upToDate) ∧
      fileHasValidChunks prepared
        (sampleEnv.filePlace (sampleIteration .letter none []).args ⟨1⟩ "f") letterFile.size
          letterFile.chunks = true := by
  have hcheck : ((sampleEnv.traced.run (.empty, fun _ => none) [letterIteration]).any fun config =>
      skipsSingle letterFile config.1 .letter && config.2 (sampleEnv.filePlace
        (sampleIteration .letter none []).args ⟨1⟩ "f") == some letterFile) = true := by
    decide +kernel
  obtain ⟨config, hrun, hsecond⟩ := Machine.exists_of_run_any _ hcheck
  obtain ⟨hsingle, horigin⟩ := Bool.and_eq_true_iff.mp hsecond
  obtain ⟨prepared, hprepare, hfiles⟩ := of_skipsSingle hsingle
  have hskips : sampleEnv.SkipsInstalled config (sampleIteration .letter none []) := by
    intro _ _ _ _ manifest _ hfound _ file hfile name hname _ _
    rw [(hfiles _ _ _ _ _ _ hfound).1, List.mem_singleton] at hfile
    rw [hfile] at hname
    cases hname
    exact ⟨letterFile, beq_iff_eq.mp horigin, fun _ haccepts => hfile ▸ haccepts⟩
  obtain ⟨_, _, _, _, _, hfound, hvalid⟩ :=
    CliEnv.upToDate_files_valid (letterIteration_careful hrun) hskips hprepare
  obtain ⟨hlist, hfilter⟩ := hfiles _ _ _ _ _ _ hfound
  refine ⟨config, prepared, hrun, hprepare, ?_⟩
  exact hvalid letterFile (by simp [hlist]) "f" rfl rfl (by simp [hfilter])

/-- The other shortcut is wrong after a download whose filter left the file out. -/
theorem filtered_download_upToDate :
    ∃ disk prepared key manifestId raw manifest,
      sampleEnv.session.run .empty [filteredDownload] = some disk ∧
      CliEnv.Found sampleEnv (sampleIteration .letter none []).args
        (sampleIteration .letter none []).request disk prepared key manifestId raw manifest none ∧
      sampleEnv.prepareDepot (sampleIteration .letter none []).args disk
        (sampleIteration .letter none []).request = (prepared, .upToDate) ∧
      letterFile ∈ manifest.files ∧ letterFile.filename = some "f" ∧
      letterFile.isDirectory = false ∧
      prepared.read (sampleEnv.filePlace (sampleIteration .letter none []).args ⟨1⟩ "f") =
        none := by
  have hcheck : ((sampleEnv.session.run .empty [filteredDownload]).any fun disk =>
      skipsSingle letterFile disk .letter &&
        (sampleEnv.prepareDepot (sampleIteration .letter none []).args disk
          (sampleIteration .letter none []).request).1.read
            (sampleEnv.filePlace (sampleIteration .letter none []).args ⟨1⟩ "f") == none) =
      true := by
    decide +kernel
  obtain ⟨disk, hrun, hsecond⟩ := Machine.exists_of_run_any _ hcheck
  obtain ⟨hsingle, hmissing⟩ := Bool.and_eq_true_iff.mp hsecond
  obtain ⟨prepared, hprepare, hfiles⟩ := of_skipsSingle hsingle
  obtain ⟨key, manifestId, raw, manifest, filter, hfound, _⟩ :=
    CliEnv.prepareDepot_upToDate hprepare
  obtain ⟨hlist, hfilter⟩ := hfiles _ _ _ _ _ _ hfound
  subst hfilter
  rw [hprepare] at hmissing
  exact ⟨disk, prepared, key, manifestId, raw, manifest, hrun, hfound, hprepare, by simp [hlist],
    rfl, rfl, beq_iff_eq.mp hmissing⟩

end Sample

end DepotDownloader.Cli
