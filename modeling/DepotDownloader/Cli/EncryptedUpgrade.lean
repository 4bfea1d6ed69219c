import DepotDownloader.Cli.Shortcuts

/-! # Upgrades between manifests with encrypted names

The cache keeps a manifest as the CDN has sent it. A new manifest is decrypted once it
is loaded and a previous one is not, so an upgrade looks plain names up among encrypted
ones. It still does what the upgrade between plain manifests does as long as there is
nothing to take over and nothing to delete.
-/

namespace DepotDownloader.Cli

open Foundation Foundation.LexPath Steam SteamClient

namespace CliEnv

variable (env : CliEnv)

def nameCodecs : NameCodecs := ⟨env.store.codecs.aes, env.store.base64Decode⟩

/-- The second manifest is the first with its names decrypted. -/
def Decrypts (key : DepotKey) (sealedManifest plain : DepotManifest) : Prop :=
  sealedManifest.filenamesEncrypted = true ∧
    sealedManifest.decryptFilenames env.nameCodecs key = (plain, .ok ())

/-- The iteration downloads the new manifest over the old one, both of them as they are
stored. -/
def Upgrade (args : DownloadArgs) (disk : Disk) (request : DepotRequest) (key : DepotKey)
    (old new : DepotManifest) (ctx : JobContext) : Prop :=
  ∃ prepared manifestId manifest filter,
    Found env args request disk prepared key manifestId new manifest filter ∧
    env.prepareDepot args disk request = (prepared, .download ctx manifestId) ∧
    ctx.job.previousManifest = some old

end CliEnv

section Effect

variable (ctx ctx' : JobContext) (disk : Disk) (nameOf : ManifestFile → Option String)
  (old : DepotManifest)

/-- Two upgrades select the same files, take the same ones for unchanged, reuse the same
chunks and delete the same files. -/
structure SameUpgrade : Prop where
  selected : ∀ file name, ctx.Selected file name ↔ ctx'.Selected file name
  unchanged : ∀ file name, ctx.Selected file name →
    ctx.job.unchanged disk file name = ctx'.job.unchanged disk file name
  reused : ∀ file name, ctx.Selected file name →
    (ctx.job.fileTask file name).oldChunks = (ctx'.job.fileTask file name).oldChunks
  removed : ∀ place, disk.present place = true → (ctx.Removes place ↔ ctx'.Removes place)

/-- The upgrade looks a file up under the names of the old entries. -/
def MatchesByName : Prop :=
  ∀ file name, ctx.Selected file name →
    (∀ entry, ctx.job.oldFile name = some entry → nameOf entry = some name) ∧
      ((∃ entry ∈ old.files, nameOf entry = some name) → (ctx.job.oldFile name).isSome = true)

/-- No selected file has an old entry, be it by its stored name or by the name of it. -/
def Unshared : Prop :=
  ∀ file name, ctx.Selected file name → ∀ entry ∈ old.files,
    entry.filename ≠ some name ∧ nameOf entry ≠ some name

/-- The place is that of an old file under a name that the new manifest does not have. -/
def Dropped (place : Place) : Prop :=
  ∃ entry ∈ old.files, entry.isDirectory = false ∧ ∃ name, nameOf entry = some name ∧
    name ∉ manifestNames ctx.manifest ∧ place = ctx.job.finalPlace name

/-- No file on disk is dropped under its stored name only or under its name only. -/
def DroppedAlike : Prop :=
  ∀ place, disk.present place = true →
    (Dropped ctx ManifestFile.filename old place ↔ Dropped ctx nameOf old place)

variable {ctx ctx' disk nameOf old}

theorem removes_iff_dropped (hprevious : ctx.job.previousManifest = some old) {place : Place} :
    ctx.Removes place ↔ Dropped ctx ManifestFile.filename old place := by
  constructor
  · rintro ⟨previous, hjob, entry, hmem, name, hremoved, hplace⟩
    obtain ⟨hname, hdir, hdropped⟩ := removedName_eq_some.mp hremoved
    cases hprevious.symm.trans hjob
    exact ⟨entry, hmem, hdir, name, hname, hdropped, hplace⟩
  · rintro ⟨entry, hmem, hdir, name, hname, hdropped, hplace⟩
    exact ⟨old, hprevious, entry, hmem, name, removedName_eq_some.mpr ⟨hname, hdir, hdropped⟩,
      hplace⟩

theorem oldFile_eq_none (hprevious : ctx.job.previousManifest = some old) {name : String} :
    ctx.job.oldFile name = none ↔ ∀ entry ∈ old.files, entry.filename ≠ some name := by
  simp [DepotJob.oldFile, hprevious, List.find?_eq_none]

theorem oldFile_eq_some {name : String} {entry : ManifestFile}
    (hprevious : ctx.job.previousManifest = some old) (hold : ctx.job.oldFile name = some entry) :
    entry ∈ old.files ∧ entry.filename = some name := by
  rw [DepotJob.oldFile, hprevious, Option.bind_some] at hold
  exact ⟨List.mem_of_find?_eq_some hold, by simpa using List.find?_some hold⟩

/-- An upgrade that finds what it looks up has nothing to look up when no stored name
stands for itself. -/
theorem unshared_of_matches (hprevious : ctx.job.previousManifest = some old)
    (hsealed : ∀ entry ∈ old.files, entry.filename ≠ none → nameOf entry ≠ entry.filename)
    (hmatches : MatchesByName ctx nameOf old) : Unshared ctx nameOf old := by
  intro file name hselected
  obtain ⟨hright, hfinds⟩ := hmatches file name hselected
  have hnone : ctx.job.oldFile name = none := by
    cases hold : ctx.job.oldFile name with
    | none => rfl
    | some entry =>
        obtain ⟨hmem, hname⟩ := oldFile_eq_some hprevious hold
        have hself : nameOf entry = entry.filename := (hright entry hold).trans hname.symm
        exact absurd hself (hsealed entry hmem (by simp [hname]))
  intro entry hmem
  refine ⟨(oldFile_eq_none hprevious).mp hnone entry hmem, ?_⟩
  intro hname
  have hfound := hfinds ⟨entry, hmem, hname⟩
  rw [hnone] at hfound
  cases hfound

end Effect

namespace CliEnv

variable {env : CliEnv} {args : DownloadArgs} {disk disk' : Disk} {request request' : DepotRequest}
  {key key' : DepotKey} {old new plainOld plainNew : DepotManifest} {ctx ctx' : JobContext}

theorem Upgrade.previous (hupgrade : env.Upgrade args disk request key old new ctx) :
    ctx.job.previousManifest = some old := by
  obtain ⟨_, _, _, _, _, _, hprevious⟩ := hupgrade
  exact hprevious

theorem Upgrade.context (hupgrade : env.Upgrade args disk request key old new ctx) :
    ∃ prepared manifestId manifest filter,
      args.fileFilter = some filter ∧ env.decrypted new key = some manifest ∧
      ctx = env.jobContext args prepared request key manifestId filter manifest := by
  obtain ⟨prepared, manifestId, manifest, filter, hfound, hprepare, _⟩ := hupgrade
  obtain ⟨key', raw', manifest', filter', hfound', rfl⟩ := prepareDepot_download hprepare
  cases hfound.asked.symm.trans hfound'.asked
  cases hfound.obtained.symm.trans hfound'.obtained
  exact ⟨prepared, manifestId, manifest', filter', hfound'.filter, hfound'.decrypted, rfl⟩

theorem Decrypts.decrypted (hdecrypts : env.Decrypts key new plainNew) :
    env.decrypted new key = some plainNew := by
  obtain ⟨hflag, hdecrypt⟩ := hdecrypts
  change new.decryptFilenames ⟨env.store.codecs.aes, env.store.base64Decode⟩ key = _ at hdecrypt
  unfold CliEnv.decrypted
  rw [if_pos hflag, hdecrypt]

theorem Decrypts.plain (hdecrypts : env.Decrypts key new plainNew) :
    plainNew.filenamesEncrypted = false := by
  obtain ⟨hflag, hdecrypt⟩ := hdecrypts
  unfold DepotManifest.decryptFilenames at hdecrypt
  rw [if_pos hflag] at hdecrypt
  split at hdecrypt
  next => cases hdecrypt
  next =>
    cases hdecrypt
    rfl

/-- The decryption leaves a plain manifest as it is. -/
theorem decrypted_plain (hplain : plainNew.filenamesEncrypted = false) :
    env.decrypted plainNew key' = some plainNew := by
  unfold CliEnv.decrypted
  rw [if_neg (by simp [hplain])]

/-- An upgrade that compares plain manifests drops the files that the other one drops
under their plain names. -/
theorem Decrypts.dropped (hdecrypts : env.Decrypts key old plainOld) {place : Place} :
    Dropped ctx ManifestFile.filename plainOld place ↔
      Dropped ctx (ManifestFile.plainName env.nameCodecs key) old place := by
  obtain ⟨hflag, hdecrypt⟩ := hdecrypts
  constructor
  · rintro ⟨file, hfile, hdir, name, hname, hdropped, hplace⟩
    obtain ⟨entry, hentry, rfl⟩ := (mem_files_of_decryptFilenames hflag hdecrypt).mp hfile
    exact ⟨entry, hentry, hdir, name, hname, hdropped, hplace⟩
  · rintro ⟨entry, hentry, hdir, name, hname, hdropped, hplace⟩
    have hfile := (mem_files_of_decryptFilenames hflag hdecrypt).mpr ⟨entry, hentry, rfl⟩
    exact ⟨_, hfile, hdir, name, hname, hdropped, hplace⟩

/-- No name is encrypted to itself. -/
theorem plainName_ne_filename
    (hblock : ∀ block, block.length = 16 → (env.store.codecs.aes key block).length = 16)
    (hbase : ∀ text bytes, env.store.base64Decode text = some bytes → bytes.length ≤ text.length)
    {entry : ManifestFile} (hnamed : entry.filename ≠ none) :
    entry.plainName env.nameCodecs key ≠ entry.filename := by
  intro hself
  obtain ⟨encrypted, hname⟩ := Option.ne_none_iff_exists'.mp hnamed
  rw [ManifestFile.plainName, hname, Option.bind_some] at hself
  cases hdecrypt : decryptFilename env.nameCodecs encrypted key with
  | error => simp [hdecrypt, Except.toOption] at hself
  | ok name =>
      simp only [hdecrypt, Except.toOption, Option.some.injEq] at hself
      have hlength := decryptFilename_length_lt hblock hbase hdecrypt
      rw [hself] at hlength
      exact lt_irrefl _ hlength

/-- The two upgrades download the same manifest to the same places. -/
theorem upgrades_alike (hupgrade : env.Upgrade args disk request key old new ctx)
    (hupgrade' : env.Upgrade args disk' request' key' plainOld plainNew ctx')
    (hdepot : request'.depotId = request.depotId) (hnew : env.Decrypts key new plainNew) :
    ctx'.manifest = ctx.manifest ∧ ctx'.job.finalPlace = ctx.job.finalPlace ∧
      ctx'.job.filteredOut = ctx.job.filteredOut := by
  obtain ⟨_, _, manifest, filter, hfilter, hdecrypted, rfl⟩ := hupgrade.context
  obtain ⟨_, _, manifest', filter', hfilter', hdecrypted', rfl⟩ := hupgrade'.context
  rw [hnew.decrypted] at hdecrypted
  rw [decrypted_plain hnew.plain] at hdecrypted'
  refine ⟨Option.some.inj (hdecrypted'.symm.trans hdecrypted), ?_, ?_⟩
  · unfold DepotJob.finalPlace DepotJob.finalPath DepotJob.place jobContext
    rw [hdepot]
  · cases hfilter.symm.trans hfilter'
    rfl

/-- An upgrade between manifests with encrypted names has the effect of the upgrade
between the plain manifests, and looks old entries up by their plain names, exactly when
no selected file has an old entry and no file on disk is dropped under one kind of name
only. -/
theorem encrypted_upgrade_same
    (hblock : ∀ block, block.length = 16 → (env.store.codecs.aes key block).length = 16)
    (hbase : ∀ text bytes, env.store.base64Decode text = some bytes → bytes.length ≤ text.length)
    (hupgrade : env.Upgrade args disk request key old new ctx)
    (hupgrade' : env.Upgrade args disk' request' key' plainOld plainNew ctx')
    (hdepot : request'.depotId = request.depotId) (hold : env.Decrypts key old plainOld)
    (hnew : env.Decrypts key new plainNew) (files : Disk) :
    (SameUpgrade ctx ctx' files ∧
        MatchesByName ctx (ManifestFile.plainName env.nameCodecs key) old) ↔
      (Unshared ctx (ManifestFile.plainName env.nameCodecs key) old ∧
        DroppedAlike ctx files (ManifestFile.plainName env.nameCodecs key) old) := by
  obtain ⟨hmanifest, hplace, hfilter⟩ := upgrades_alike hupgrade hupgrade' hdepot hnew
  have hprevious := hupgrade.previous
  have hprevious' := hupgrade'.previous
  have hremoved : ∀ place, ctx'.Removes place ↔
      Dropped ctx (ManifestFile.plainName env.nameCodecs key) old place := by
    intro place
    rw [removes_iff_dropped hprevious', ← hold.dropped]
    unfold Dropped
    rw [hmanifest, hplace]
  constructor
  · rintro ⟨hsame, hmatches⟩
    constructor
    · apply unshared_of_matches hprevious _ hmatches
      intro entry _ hnamed
      exact plainName_ne_filename hblock hbase hnamed
    · intro place hpresent
      rw [← removes_iff_dropped hprevious, ← hremoved]
      exact hsame.removed place hpresent
  · rintro ⟨hunshared, hdropped⟩
    have hnone : ∀ file name, ctx.Selected file name → ctx.job.oldFile name = none := by
      intro file name hfile
      apply (oldFile_eq_none hprevious).mpr
      intro entry hmem
      exact (hunshared file name hfile entry hmem).1
    have hnone' : ∀ file name, ctx.Selected file name → ctx'.job.oldFile name = none := by
      intro file name hfile
      apply (oldFile_eq_none hprevious').mpr
      intro listed hlisted
      obtain ⟨entry, hmem, rfl⟩ := (mem_files_of_decryptFilenames hold.1 hold.2).mp hlisted
      exact (hunshared file name hfile entry hmem).2
    refine ⟨⟨?_, ?_, ?_, ?_⟩, ?_⟩
    · intro file name
      rw [JobContext.Selected, JobContext.Selected, hmanifest, hfilter]
    · intro file name hfile
      rw [DepotJob.unchanged, DepotJob.unchanged, hnone file name hfile, hnone' file name hfile]
      rfl
    · intro file name hfile
      rw [DepotJob.fileTask, DepotJob.fileTask, hnone file name hfile, hnone' file name hfile]
    · intro place hpresent
      rw [removes_iff_dropped hprevious, hremoved]
      exact hdropped place hpresent
    · intro file name hfile
      rw [hnone file name hfile]
      constructor
      · intro _ hentry
        cases hentry
      · rintro ⟨entry, hmem, hname⟩
        exact absurd hname (hunshared file name hfile entry hmem).2

end CliEnv

section Sample

/-- What the sample manifests of the encrypted names and of the plain ones are parsed
to. -/
def sealedManifest (manifestId : UInt64) : DepotManifest :=
  ⟨some ⟨1⟩, some ⟨manifestId⟩, none, true, none, none,
    [{ blankFile with filename := some sealedName }]⟩

def plainManifest (manifestId : UInt64) : DepotManifest :=
  ⟨some ⟨1⟩, some ⟨manifestId⟩, none, false, none, none,
    [{ blankFile with filename := some "b/c" }]⟩

def renamedManifest (encrypted : Bool) (name : String) : DepotManifest :=
  ⟨some ⟨1⟩, some ⟨20⟩, none, encrypted, none, none, [{ blankFile with filename := some name }]⟩

/-- The iteration upgrades between the manifests, with a job that passes the check. -/
def upgradesWith (stored sample : SampleManifest) (old new : DepotManifest)
    (check : JobContext → Bool) : Bool :=
  let disk : Disk := .ofFiles (storeFiles stored)
  let iteration := sampleIteration sample none []
  decide ((sampleEnv.obtainManifest iteration.args disk iteration.request
    ⟨sample.gid.toUInt64⟩).2 = some new) &&
  match sampleEnv.prepareDepot iteration.args disk iteration.request with
  | (_, .download ctx _) => decide (ctx.job.previousManifest = some old) && check ctx
  | _ => false

theorem of_upgradesWith {stored sample : SampleManifest} {old new : DepotManifest}
    {check : JobContext → Bool} (hupgrades : upgradesWith stored sample old new check = true) :
    ∃ ctx, sampleEnv.Upgrade (sampleArgs none) (.ofFiles (storeFiles stored))
      (sampleRequest sample []) ⟨.replicate 32 0⟩ old new ctx ∧ check ctx = true := by
  obtain ⟨hobtained, hdownload⟩ := Bool.and_eq_true_iff.mp hupgrades
  revert hdownload
  split
  next prepared ctx manifestId hprepare =>
    intro hdownload
    obtain ⟨hprevious, hcheck⟩ := Bool.and_eq_true_iff.mp hdownload
    obtain ⟨key, raw, manifest, filter, hfound, _⟩ := CliEnv.prepareDepot_download hprepare
    cases hfound.asked
    have hraw : raw = new := by
      have hnew := of_decide_eq_true hobtained
      rw [hfound.obtained] at hnew
      exact Option.some.inj hnew
    subst hraw
    exact ⟨ctx, ⟨prepared, _, manifest, filter, hfound, hprepare, of_decide_eq_true hprevious⟩,
      hcheck⟩
  next =>
    intro hfalse
    cases hfalse

theorem decrypts_sealedManifest (manifestId : UInt64) :
    sampleEnv.Decrypts ⟨.replicate 32 0⟩ (sealedManifest manifestId)
      (plainManifest manifestId) := by
  have hname : decryptFilename sampleEnv.nameCodecs sealedName ⟨.replicate 32 0⟩ = .ok "b/c" := by
    decide +kernel
  refine ⟨rfl, ?_⟩
  simp [DepotManifest.decryptFilenames, sealedManifest, plainManifest, decryptNames, hname]

theorem decrypts_renamedManifest :
    sampleEnv.Decrypts ⟨.replicate 32 0⟩ (renamedManifest true renamedName)
      (renamedManifest false "d") := by
  have hname : decryptFilename sampleEnv.nameCodecs renamedName ⟨.replicate 32 0⟩ = .ok "d" := by
    decide +kernel
  refine ⟨rfl, ?_⟩
  simp [DepotManifest.decryptFilenames, renamedManifest, decryptNames, hname]

theorem plainName_sealed :
    ManifestFile.plainName sampleEnv.nameCodecs ⟨.replicate 32 0⟩
      { blankFile with filename := some sealedName } = some "b/c" := by decide +kernel

theorem sampleEnv_aes_length (key : DepotKey) (block : Bytes) (hblock : block.length = 16) :
    (sampleEnv.store.codecs.aes key block).length = 16 :=
  (tableAes_inverse (by decide)).length_decrypt key block hblock

theorem sampleEnv_base64_length (text : String) (bytes : Bytes)
    (hdecode : sampleEnv.store.base64Decode text = some bytes) : bytes.length ≤ text.length := by
  rw [← String.length_toList]
  exact Base64.length_decode_le hdecode

/-- The upgrade from `b/c` to `d`. The disk has an older `d` and no `b/c` any more. -/
theorem encrypted_upgrade_same_sample :
    ∃ ctx ctx',
      sampleEnv.Upgrade (sampleArgs none) (.ofFiles (storeFiles .sealed))
        (sampleRequest .sealedRenamed []) ⟨.replicate 32 0⟩ (sealedManifest 17)
        (renamedManifest true renamedName) ctx ∧
      sampleEnv.Upgrade (sampleArgs none) (.ofFiles (storeFiles .plain))
        (sampleRequest .plainRenamed []) ⟨.replicate 32 0⟩ (plainManifest 17)
        (renamedManifest false "d") ctx' ∧
      SameUpgrade ctx ctx' (.ofFiles [(["home", "out", "d"], [1])]) ∧
      MatchesByName ctx (ManifestFile.plainName sampleEnv.nameCodecs ⟨.replicate 32 0⟩)
        (sealedManifest 17) := by
  obtain ⟨ctx, hupgrade, hcheck⟩ := of_upgradesWith (by decide +kernel :
    upgradesWith .sealed .sealedRenamed (sealedManifest 17) (renamedManifest true renamedName)
      (fun ctx => ctx.manifest.files = [{ blankFile with filename := some "d" }] ∧
        ctx.job.finalPlace "b/c" ≠ ["home", "out", "d"] ∧
        ctx.job.finalPlace sealedName ≠ ["home", "out", "d"]) = true)
  obtain ⟨ctx', hupgrade', _⟩ := of_upgradesWith (by decide +kernel :
    upgradesWith .plain .plainRenamed (plainManifest 17) (renamedManifest false "d")
      (fun _ => true) = true)
  obtain ⟨hfiles, hplain, hsealed⟩ := of_decide_eq_true hcheck
  refine ⟨ctx, ctx', hupgrade, hupgrade', ?_⟩
  apply (CliEnv.encrypted_upgrade_same (sampleEnv_aes_length _) sampleEnv_base64_length hupgrade
    hupgrade' rfl (decrypts_sealedManifest 17) decrypts_renamedManifest _).mpr
  constructor
  · intro file name hselected old hold
    have hfile : file = { blankFile with filename := some "d" } :=
      List.mem_singleton.mp (hfiles ▸ hselected.1)
    have hname : some "d" = some name := by
      rw [← hselected.2.1, hfile]
    cases hname
    rw [List.mem_singleton.mp hold]
    exact ⟨by decide, fun heq => absurd (plainName_sealed.symm.trans heq) (by decide)⟩
  · intro place hpresent
    have hplace : place = ["home", "out", "d"] := by
      by_contra hother
      simp [FileTree.ofFiles, FileTree.present, List.findIdx?_cons, Ne.symm hother] at hpresent
    subst hplace
    apply iff_of_false
    · rintro ⟨old, hold, _, name, hname, _, heq⟩
      rw [List.mem_singleton.mp hold] at hname
      cases hname
      exact hsealed heq.symm
    · rintro ⟨old, hold, _, name, hname, _, heq⟩
      rw [List.mem_singleton.mp hold] at hname
      rw [← Option.some.inj (plainName_sealed.symm.trans hname)] at heq
      exact hplain heq.symm

/-- The file `b/c`, on disk and in both manifests with the same hash, is taken for
unchanged when the names are plain, and is not found when they are encrypted. -/
theorem encrypted_upgrade_differs :
    ∃ ctx ctx',
      sampleEnv.Upgrade (sampleArgs none) (.ofFiles (storeFiles .sealed))
        (sampleRequest .sealedAgain []) ⟨.replicate 32 0⟩ (sealedManifest 17) (sealedManifest 18)
        ctx ∧
      sampleEnv.Upgrade (sampleArgs none) (.ofFiles (storeFiles .plain))
        (sampleRequest .plainAgain []) ⟨.replicate 32 0⟩ (plainManifest 17) (plainManifest 18)
        ctx' ∧
      sampleEnv.Decrypts ⟨.replicate 32 0⟩ (sealedManifest 17) (plainManifest 17) ∧
      sampleEnv.Decrypts ⟨.replicate 32 0⟩ (sealedManifest 18) (plainManifest 18) ∧
      ¬ SameUpgrade ctx ctx' (.ofFiles [(["home", "out", "b", "c"], [])]) ∧
      ¬ MatchesByName ctx (ManifestFile.plainName sampleEnv.nameCodecs ⟨.replicate 32 0⟩)
        (sealedManifest 17) := by
  let file : ManifestFile := { blankFile with filename := some "b/c" }
  let files : Disk := .ofFiles [(["home", "out", "b", "c"], [])]
  obtain ⟨ctx, hupgrade, hcheck⟩ := of_upgradesWith (by decide +kernel :
    upgradesWith .sealed .sealedAgain (sealedManifest 17) (sealedManifest 18) (fun ctx =>
      ctx.manifest.files = [file] ∧ ctx.job.filteredOut "b/c" = false ∧
        ctx.job.oldFile "b/c" = none ∧ ctx.job.unchanged files file "b/c" = false) = true)
  obtain ⟨ctx', hupgrade', hcheck'⟩ := of_upgradesWith (by decide +kernel :
    upgradesWith .plain .plainAgain (plainManifest 17) (plainManifest 18) (fun ctx =>
      ctx.job.unchanged files file "b/c") = true)
  obtain ⟨hfiles, hfilter, hmissing, hchanged⟩ := of_decide_eq_true hcheck
  have hselected : ctx.Selected file "b/c" := ⟨by simp [hfiles], rfl, hfilter, rfl⟩
  refine ⟨ctx, ctx', hupgrade, hupgrade', decrypts_sealedManifest 17, decrypts_sealedManifest 18,
    ?_, ?_⟩
  · intro hsame
    have heq := hsame.unchanged file "b/c" hselected
    rw [hchanged, hcheck'] at heq
    cases heq
  · intro hmatches
    have hfound :=
      (hmatches file "b/c" hselected).2 ⟨_, List.mem_singleton_self _, plainName_sealed⟩
    rw [hmissing] at hfound
    cases hfound

end Sample

end DepotDownloader.Cli
