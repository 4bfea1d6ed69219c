import DepotDownloader.Cli.Discovery

/-! # Manifests behind a password

The lookup by branch takes a gid from either manifest section, so the step that its
caller means for public manifests returns the others too. This module says which ids
of the section behind the password come out without it.
-/

namespace DepotDownloader.Cli

open Foundation Steam Steam.Types SteamClient

variable (appInfos : List AppInfo) (depotId : DepotId) (branch : String)

/-- A depot of that number has the gid for the branch in the section. -/
def HasGid (manifests branch : String) (id : ManifestId) : Prop :=
  ∃ depot ∈ depotsOf appInfos depotId, manifestGid depot manifests branch = some id

/-- The id occurs in the section behind the password and nowhere outside it. -/
def OnlyEncrypted (id : ManifestId) : Prop :=
  (∃ branch, HasGid appInfos depotId "encryptedmanifests" branch id) ∧
    ∀ branch, ¬ HasGid appInfos depotId "manifests" branch id

/-- The id of the public manifest for the branch, or for "public" if there is none. -/
def PublicChoice (id : ManifestId) : Prop :=
  HasGid appInfos depotId "manifests" branch id ∨
    (∀ other, ¬ HasGid appInfos depotId "manifests" branch other) ∧
      HasGid appInfos depotId "manifests" "public" id

/-- What a call returns is open to it: an id of the section behind the password needs the
password, and without a password only the documented choice is left. -/
structure PasswordKept (betaPassword : Option String) (call : Resolution) : Prop where
  checked : ∀ id, call.result = .ok id → OnlyEncrypted appInfos depotId id → .ok () ∈ call.checks
  documented : ∀ id, call.result = .ok id → betaPassword = none →
    PublicChoice appInfos depotId branch id

/-- No depot of that number has a gid for the branch. -/
def NoGid : Prop := ∀ id, ¬ HasGid appInfos depotId "manifests" branch id ∧
  ¬ HasGid appInfos depotId "encryptedmanifests" branch id

/-- The first depot of that number with a gid for the branch has it behind the password
only. -/
def EncryptedFirst (id : ManifestId) : Prop :=
  ∃ before depot after, depotsOf appInfos depotId = before ++ depot :: after ∧
    manifestGid depot "manifests" branch = none ∧
    manifestGid depot "encryptedmanifests" branch = some id ∧
    ∀ other ∈ before, anyGid branch other = none

/-- The id may come out without the password, because it is public anyway. -/
def PublicAnyway (betaPassword : Option String) (id : ManifestId) : Prop :=
  match betaPassword with
  | none => PublicChoice appInfos depotId branch id
  | some _ => ∃ other, HasGid appInfos depotId "manifests" other id

variable {appInfos depotId branch} {depot : KeyValue} {id : ManifestId}

theorem anyGid_eq_none :
    anyGid branch depot = none ↔ manifestGid depot "manifests" branch = none ∧
      manifestGid depot "encryptedmanifests" branch = none := by
  unfold anyGid
  rw [Option.or_eq_none_iff]

theorem anyGid_eq_some :
    anyGid branch depot = some id ↔ manifestGid depot "manifests" branch = some id ∨
      manifestGid depot "manifests" branch = none ∧
        manifestGid depot "encryptedmanifests" branch = some id := by
  unfold anyGid
  rw [Option.or_eq_some_iff]

theorem noGid_iff : NoGid appInfos depotId branch ↔
    discoverManifestId appInfos depotId branch = none := by
  rw [discoverManifestId_eq, List.findSome?_eq_none_iff]
  constructor
  · intro hnone depot hmem
    apply anyGid_eq_none.mpr
    constructor
    · exact Option.eq_none_iff_forall_ne_some.mpr fun id hid => (hnone id).1 ⟨depot, hmem, hid⟩
    · exact Option.eq_none_iff_forall_ne_some.mpr fun id hid => (hnone id).2 ⟨depot, hmem, hid⟩
  · intro hnone id
    constructor
    · rintro ⟨depot, hmem, hid⟩
      rw [(anyGid_eq_none.mp (hnone depot hmem)).1] at hid
      cases hid
    · rintro ⟨depot, hmem, hid⟩
      rw [(anyGid_eq_none.mp (hnone depot hmem)).2] at hid
      cases hid

/-- A lookup finds a public gid, or the first gid it comes to is behind the password. -/
theorem discoverManifestId_cases (hfound : discoverManifestId appInfos depotId branch = some id) :
    HasGid appInfos depotId "manifests" branch id ∨ EncryptedFirst appInfos depotId branch id := by
  rw [discoverManifestId_eq] at hfound
  obtain ⟨before, depot, after, hsplit, hgid, hbefore⟩ := List.findSome?_eq_some_iff.mp hfound
  rcases anyGid_eq_some.mp hgid with hplain | ⟨hnone, hsecret⟩
  · exact .inl ⟨depot, by simp [hsplit], hplain⟩
  · exact .inr ⟨before, depot, after, hsplit, hnone, hsecret, hbefore⟩

theorem EncryptedFirst.found (hfirst : EncryptedFirst appInfos depotId branch id) :
    discoverManifestId appInfos depotId branch = some id := by
  obtain ⟨before, depot, after, hsplit, hnone, hsecret, hbefore⟩ := hfirst
  rw [discoverManifestId_eq]
  exact List.findSome?_eq_some_iff.mpr
    ⟨before, depot, after, hsplit, anyGid_eq_some.mpr (.inr ⟨hnone, hsecret⟩), hbefore⟩

theorem EncryptedFirst.hasGid (hfirst : EncryptedFirst appInfos depotId branch id) :
    HasGid appInfos depotId "encryptedmanifests" branch id := by
  obtain ⟨before, depot, after, hsplit, -, hsecret, -⟩ := hfirst
  exact ⟨depot, by simp [hsplit], hsecret⟩

/-- An id that comes from the section behind the password while no answer to the password
was Ok is public anyway, if the password is kept. -/
theorem PasswordKept.publicAnyway {betaPassword : Option String} {call : Resolution}
    (hkept : PasswordKept appInfos depotId branch betaPassword call) (hok : call.result = .ok id)
    {other : String} (hsecret : HasGid appInfos depotId "encryptedmanifests" other id)
    (hunchecked : .ok () ∉ call.checks) : PublicAnyway appInfos depotId branch betaPassword id := by
  cases betaPassword with
  | none => exact hkept.documented id hok rfl
  | some password =>
      by_contra hhidden
      exact hunchecked (hkept.checked id hok ⟨⟨other, hsecret⟩, fun plain hplain =>
        hhidden ⟨plain, hplain⟩⟩)

theorem PublicAnyway.kept {betaPassword : Option String} {call : Resolution}
    (hok : call.result = .ok id) (hopen : PublicAnyway appInfos depotId branch betaPassword id) :
    PasswordKept appInfos depotId branch betaPassword call := by
  have hsame : ∀ other, call.result = .ok other → other = id := fun other hother =>
    Except.ok.inj (hother.symm.trans hok)
  constructor
  · intro other hother hsecret
    obtain rfl := hsame other hother
    exfalso
    cases betaPassword with
    | some password =>
        obtain ⟨plain, hplain⟩ := hopen
        exact hsecret.2 plain hplain
    | none =>
        rcases hopen with hplain | ⟨-, hplain⟩
        · exact hsecret.2 branch hplain
        · exact hsecret.2 "public" hplain
  · intro other hother hnone
    obtain rfl := hsame other hother
    subst hnone
    exact hopen

/-- A public gid for the branch, or for "public" when there is none for the branch, is
public anyway. -/
theorem publicAnyway_of_hasGid (betaPassword : Option String)
    (hchoice : PublicChoice appInfos depotId branch id) :
    PublicAnyway appInfos depotId branch betaPassword id := by
  cases betaPassword with
  | none => exact hchoice
  | some password =>
      rcases hchoice with hplain | ⟨-, hplain⟩
      · exact ⟨branch, hplain⟩
      · exact ⟨"public", hplain⟩

/-- The lookup for the branch finds an id. -/
theorem kept_found_iff (check : PasswordCheck) {betaPassword : Option String}
    {found : ManifestId} (hlookup : discoverManifestId appInfos depotId branch = some found) :
    PasswordKept appInfos depotId branch betaPassword
        (resolveManifestId check appInfos depotId branch betaPassword) ↔
      ∀ id, EncryptedFirst appInfos depotId branch id →
        PublicAnyway appInfos depotId branch betaPassword id := by
  rw [resolveManifestId_found hlookup]
  constructor
  · intro hkept id hfirst
    obtain rfl : found = id := Option.some.inj (hlookup.symm.trans hfirst.found)
    exact hkept.publicAnyway rfl hfirst.hasGid (by simp)
  · intro hopen
    refine PublicAnyway.kept rfl ?_
    rcases discoverManifestId_cases hlookup with hplain | hfirst
    · exact publicAnyway_of_hasGid betaPassword (.inl hplain)
    · exact hopen found hfirst

/-- It finds none, and the id is one for "public". -/
theorem kept_missing_iff (check : PasswordCheck) {betaPassword : Option String}
    (hlookup : discoverManifestId appInfos depotId branch = none) :
    PasswordKept appInfos depotId branch betaPassword
        (resolveManifestId check appInfos depotId branch betaPassword) ↔
      ∀ id, EncryptedFirst appInfos depotId "public" id →
        PublicAnyway appInfos depotId branch betaPassword id ∨
          ∃ password, betaPassword = some password ∧ check password = .ok () := by
  rw [resolveManifestId_missing hlookup]
  have hchecked : .ok () ∈ (betaPassword.map check).toList ↔
      ∃ password, betaPassword = some password ∧ check password = .ok () := by
    simp
  constructor
  · intro hkept id hfirst
    by_cases hok : .ok () ∈ (betaPassword.map check).toList
    · exact .inr (hchecked.mp hok)
    · exact .inl (hkept.publicAnyway ((resolvePublic_eq_ok hlookup).mpr hfirst.found)
        hfirst.hasGid hok)
  · intro hopen
    cases hresult : resolvePublic appInfos depotId branch with
    | error error =>
        constructor
        · intro id hid
          cases hid
        · intro id hid
          cases hid
    | ok id =>
        have hpublic := (resolvePublic_eq_ok hlookup).mp hresult
        have hnone : NoGid appInfos depotId branch := noGid_iff.mpr hlookup
        rcases discoverManifestId_cases hpublic with hplain | hfirst
        · exact PublicAnyway.kept rfl (publicAnyway_of_hasGid betaPassword
            (.inr ⟨fun other hother => (hnone other).1 hother, hplain⟩))
        · rcases hopen id hfirst with hanyway | hright
          · exact PublicAnyway.kept rfl hanyway
          · constructor
            · intro _ _ _
              exact hchecked.mpr hright
            · rintro _ - rfl
              obtain ⟨password, hpassword, -⟩ := hright
              cases hpassword

/-- The password of a branch is kept exactly when no id comes out of the section behind
it but one that is public anyway, or one of the public branch after the password was
found to be right. -/
theorem resolveManifestId_kept_iff (check : PasswordCheck) (appInfos : List AppInfo)
    (depotId : DepotId) (branch : String) (betaPassword : Option String) :
    PasswordKept appInfos depotId branch betaPassword
        (resolveManifestId check appInfos depotId branch betaPassword) ↔
      ∀ id, (EncryptedFirst appInfos depotId branch id →
          PublicAnyway appInfos depotId branch betaPassword id) ∧
        (NoGid appInfos depotId branch → EncryptedFirst appInfos depotId "public" id →
          PublicAnyway appInfos depotId branch betaPassword id ∨
            ∃ password, betaPassword = some password ∧ check password = .ok ()) := by
  cases hlookup : discoverManifestId appInfos depotId branch with
  | some found =>
      rw [kept_found_iff check hlookup]
      have hgid : ¬ NoGid appInfos depotId branch := by
        rw [noGid_iff, hlookup]
        simp
      exact forall_congr' fun id =>
        ⟨fun hopen => ⟨hopen, fun hnone => absurd hnone hgid⟩, And.left⟩
  | none =>
      rw [kept_missing_iff check hlookup]
      have hnone : NoGid appInfos depotId branch := noGid_iff.mpr hlookup
      have hunfound : ∀ id, ¬ EncryptedFirst appInfos depotId branch id := by
        intro id hfirst
        rw [hfirst.found] at hlookup
        cases hlookup
      exact forall_congr' fun id =>
        ⟨fun hopen => ⟨fun hfirst => absurd hfirst (hunfound id), fun _ => hopen⟩,
          fun hboth => hboth.2 hnone⟩

/-- Depot 1 with a manifest for the branch "beta" behind the password. -/
def secretDepot : KeyValue :=
  ⟨"1", .children [⟨"encryptedmanifests", .children [⟨"beta", .children
    [⟨"gid", .string "5"⟩]⟩]⟩]⟩

def secretBytes : Bytes :=
  sectionBytes "app" (sectionBytes "depots" (sectionBytes "1" (sectionBytes "encryptedmanifests"
    (sectionBytes "beta" (KvTag.string.toU8 :: (nullString "gid" ++ nullString "5" ++ []))))))

theorem depotNodes_secret : depotNodes [⟨some secretBytes⟩] = [(⟨1⟩, secretDepot)] := by
  have hwritten : Written [⟨"app", .children [⟨"depots", .children [secretDepot]⟩]⟩]
      secretBytes := by
    repeat apply written_section (by simp [NulFree])
    exact .leaf (by simp [NulFree]) (by simp [NulFree, KvValue.NulFree]) rfl .nil
  unfold depotNodes
  rw [List.flatMap_singleton, parseAppKv_written hwritten]
  rfl

/-- The id comes out though no password is given. -/
theorem secret_resolved : ¬ PasswordKept [⟨some secretBytes⟩] ⟨1⟩ "beta" none
    (resolveManifestId (fun _ => .error .io) [⟨some secretBytes⟩] ⟨1⟩ "beta" none) := by
  intro hkept
  have hdepots : depotsOf [⟨some secretBytes⟩] ⟨1⟩ = [secretDepot] := by
    unfold depotsOf
    rw [depotNodes_secret]
    rfl
  have hfound : discoverManifestId [⟨some secretBytes⟩] ⟨1⟩ "beta" = some ⟨5⟩ := by
    rw [discoverManifestId_eq, hdepots]
    rfl
  rw [resolveManifestId_found hfound] at hkept
  have hplain : ∀ branch id, ¬ HasGid [⟨some secretBytes⟩] ⟨1⟩ "manifests" branch id := by
    rintro branch id ⟨depot, hmem, hgid⟩
    rw [hdepots, List.mem_singleton] at hmem
    subst hmem
    cases hgid
  rcases hkept.documented ⟨5⟩ rfl rfl with hbeta | ⟨-, hpublic⟩
  · exact hplain _ _ hbeta
  · exact hplain _ _ hpublic

end DepotDownloader.Cli
