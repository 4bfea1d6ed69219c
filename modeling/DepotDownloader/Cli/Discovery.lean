import DepotDownloader.Steam.Messages
import DepotDownloader.Steam.Types.BinaryKeyValue
import DepotDownloader.Steam.Types.TextCut
import DepotDownloader.SteamClient.Manifest

/-! # Finding manifests

The product info of an app is a KeyValue tree. A manifest of a depot is found in it by
branch, in a section of its own when the branch has a password. This module embeds the
search and says when it keeps such manifests behind the password.
-/

namespace DepotDownloader.Steam.Types.KeyValue

/-- Look up a child by key (case-insensitive). -/
def get (node : KeyValue) (key : String) : Option KeyValue :=
  match node.value with
  | .children children => children.find? fun child => SteamClient.eqIgnoreAsciiCase child.key key
  | _ => none

/-- Get the string value, if this is a string node. -/
def asStr (node : KeyValue) : Option String :=
  match node.value with
  | .string text => some text
  | _ => none

end DepotDownloader.Steam.Types.KeyValue

namespace DepotDownloader.Cli

open Foundation Steam Steam.Types SteamClient

/-- `str::parse` for an unsigned integer type with so many values. -/
def parseUnsigned (size : Nat) (text : String) : Option Nat :=
  let digits := match text.toList with
    | '+' :: digits => digits
    | digits => digits
  if digits ≠ [] ∧ digits.all Char.isDigit then
    let value := digits.foldl (fun value digit => 10 * value + (digit.toNat - '0'.toNat)) 0
    if value < size then some value else none
  else none

def parseDepotId (text : String) : Option DepotId :=
  (parseUnsigned UInt32.size text).map fun id => ⟨.ofNat id⟩

def parseManifestId (text : String) : Option ManifestId :=
  (parseUnsigned UInt64.size text).map fun id => ⟨.ofNat id⟩

/-- Product info for an app, as returned by PICS. -/
structure AppInfo where
  kvData : Option Bytes

/-- Parse KV data from a PICS app info response (text or binary format). -/
def parseAppKv (info : AppInfo) : Option KeyValue :=
  info.kvData.bind fun kvData =>
    let text := (decodeUtf8 kvData).bind fun chars => (parseTextKv (String.ofList chars)).toOption
    text.or ((parseBinaryKv kvData).toOption.map Prod.fst)

/-- The depots of the apps, in the order of their keys. Other keys of the section, such
as "branches", are no numbers. -/
def depotNodes (appInfos : List AppInfo) : List (DepotId × KeyValue) :=
  appInfos.flatMap fun info =>
    match (parseAppKv info).bind (·.get "depots") with
    | some ⟨_, .children children⟩ =>
        children.filterMap fun child => (parseDepotId child.key).map (·, child)
    | _ => []

/-- The gid for a branch in one of the two manifest sections of a depot. -/
def manifestGid (depot : KeyValue) (manifests branch : String) : Option ManifestId := do
  let manifests ← depot.get manifests
  let branch ← manifests.get branch
  let gid ← branch.get "gid"
  let text ← gid.asStr
  parseManifestId text

/-- A depot's manifest on a specific branch. It is encrypted when it comes from the
`encryptedmanifests` section. -/
structure DepotManifestEntry where
  depotId : DepotId
  depotName : Option String
  manifestId : Option ManifestId
  encrypted : Bool

def depotManifestEntry (branch : String) (depotId : DepotId) (depot : KeyValue) :
    DepotManifestEntry :=
  -- check public manifests first, then encrypted manifests
  let manifestId := manifestGid depot "manifests" branch
  let encryptedManifestId :=
    if manifestId.isNone then manifestGid depot "encryptedmanifests" branch else none
  let (resolvedId, encrypted) := match manifestId, encryptedManifestId with
    | some id, _ => (some id, false)
    | none, some id => (some id, true)
    | none, none => (none, false)
  { depotId
    depotName := (depot.get "name").bind (·.asStr)
    manifestId := resolvedId
    encrypted }

/-- List all depot manifests for a specific branch. -/
def discoverManifestsForBranch (appInfos : List AppInfo) (branch : String)
    (depotFilter : Option DepotId) : List DepotManifestEntry :=
  ((depotNodes appInfos).filter fun node => depotFilter.all (node.1 = ·)).map
    fun node => depotManifestEntry branch node.1 node.2

def discoverManifestId (appInfos : List AppInfo) (depotId : DepotId) (branch : String) :
    Option ManifestId :=
  (discoverManifestsForBranch appInfos branch (some depotId)).findSome? (·.manifestId)

/-- An error of the program is a message of its own or an error that it passes on. -/
inductive CliError where
  | passedOn
  | other (message : String)
  deriving DecidableEq, Repr

def CliError.noManifest (depotId : DepotId) (branch : String) : CliError :=
  .other ("No manifest for depot " ++ toString depotId.id.toNat ++ " on branch '" ++ branch ++ "'")

/-- What the server answers to a password. The branches in the answer are only logged. -/
abbrev PasswordCheck := String → Except ClientError Unit

/-- What a call has found, and the answers it has had to the password. -/
structure Resolution where
  checks : List (Except ClientError Unit)
  result : Except CliError ManifestId

def resolvePublic (appInfos : List AppInfo) (depotId : DepotId) (branch : String) :
    Except CliError ManifestId :=
  match if branch ≠ "public" then discoverManifestId appInfos depotId "public" else none with
  | some id => .ok id
  | none => .error (.noManifest depotId branch)

/-- Resolve a manifest ID for a depot: by the branch, then with the beta password if one
is given, then by the public branch. -/
def resolveManifestId (checkBetaPassword : PasswordCheck) (appInfos : List AppInfo)
    (depotId : DepotId) (branch : String) (betaPassword : Option String) : Resolution :=
  match discoverManifestId appInfos depotId branch with
  | some id => ⟨[], .ok id⟩
  | none =>
      match betaPassword with
      | none => ⟨[], resolvePublic appInfos depotId branch⟩
      | some password =>
          match checkBetaPassword password with
          | .error error => ⟨[.error error], resolvePublic appInfos depotId branch⟩
          | .ok () =>
              let entries := discoverManifestsForBranch appInfos branch (some depotId)
              match entries.findSome? (·.manifestId) with
              | some id => ⟨[.ok ()], .ok id⟩
              | none => ⟨[.ok ()], resolvePublic appInfos depotId branch⟩

section Lookup

variable (appInfos : List AppInfo) (depotId : DepotId) (branch : String)

/-- The depots of that number. -/
def depotsOf : List KeyValue :=
  (depotNodes appInfos).filterMap fun node => if node.1 = depotId then some node.2 else none

/-- The gid that counts for a branch, whichever section it is in. -/
def anyGid (depot : KeyValue) : Option ManifestId :=
  (manifestGid depot "manifests" branch).or (manifestGid depot "encryptedmanifests" branch)

theorem mem_depotsOf {depot : KeyValue} :
    depot ∈ depotsOf appInfos depotId ↔ (depotId, depot) ∈ depotNodes appInfos := by
  simp only [depotsOf, List.mem_filterMap, Prod.exists]
  constructor
  · rintro ⟨id, other, hmem, hsome⟩
    split at hsome
    next heq =>
      cases hsome
      exact heq ▸ hmem
    next => cases hsome
  · intro hmem
    exact ⟨depotId, depot, hmem, if_pos rfl⟩

theorem depotManifestEntry_manifestId (depot : KeyValue) :
    (depotManifestEntry branch depotId depot).manifestId = anyGid branch depot := by
  unfold depotManifestEntry anyGid
  cases manifestGid depot "manifests" branch with
  | some id => rfl
  | none =>
      simp only [Option.isNone_none, if_true, Option.none_or]
      cases manifestGid depot "encryptedmanifests" branch <;> rfl

theorem discoverManifestId_eq :
    discoverManifestId appInfos depotId branch =
      (depotsOf appInfos depotId).findSome? (anyGid branch) := by
  unfold discoverManifestId discoverManifestsForBranch depotsOf
  rw [List.findSome?_map]
  induction depotNodes appInfos with
  | nil => rfl
  | cons node nodes ih =>
      simp only [Option.all_some] at ih ⊢
      by_cases heq : node.1 = depotId
      · simp [heq, List.findSome?_cons, depotManifestEntry_manifestId, ih]
      · simp [heq, ih]

variable {appInfos depotId branch} {check : PasswordCheck} {betaPassword : Option String}

theorem resolveManifestId_found {id : ManifestId}
    (hfound : discoverManifestId appInfos depotId branch = some id) :
    resolveManifestId check appInfos depotId branch betaPassword = ⟨[], .ok id⟩ := by
  unfold resolveManifestId
  rw [hfound]

/-- The password changes nothing about what is found: behind it the same lookup is made
in the same product info. -/
theorem resolveManifestId_missing
    (hmissing : discoverManifestId appInfos depotId branch = none) :
    resolveManifestId check appInfos depotId branch betaPassword =
      ⟨(betaPassword.map check).toList, resolvePublic appInfos depotId branch⟩ := by
  unfold resolveManifestId
  rw [hmissing]
  cases betaPassword with
  | none => rfl
  | some password =>
      simp only [Option.map_some, Option.toList_some]
      cases hcheck : check password with
      | error error => rfl
      | ok answer =>
          unfold discoverManifestId at hmissing
          simp only [hmissing]

theorem resolvePublic_eq_ok {id : ManifestId}
    (hmissing : discoverManifestId appInfos depotId branch = none) :
    resolvePublic appInfos depotId branch = .ok id ↔
      discoverManifestId appInfos depotId "public" = some id := by
  unfold resolvePublic
  by_cases hpublic : branch = "public"
  · subst hpublic
    simp [hmissing]
  · rw [if_pos hpublic]
    cases discoverManifestId appInfos depotId "public" <;> simp

end Lookup

section Format

/-- A section in the binary format is no text. -/
theorem parseAppKv_binary (rest : Bytes) :
    parseAppKv ⟨some (0 :: rest)⟩ = (parseBinaryKv (0 :: rest)).toOption.map Prod.fst := by
  have htext : ∀ chars, decodeUtf8 (0 :: rest) = some chars →
      (parseTextKv (String.ofList chars)).toOption = none := by
    intro chars hdecode
    have hchars : chars = '\x00' :: fromUtf8Lossy rest := by
      have hlead : fromUtf8Lossy (0 :: rest) = '\x00' :: fromUtf8Lossy rest :=
        fromUtf8Lossy_one (by decide : 0 < 0x80) rest
      unfold decodeUtf8 at hdecode
      simp only [hlead] at hdecode
      split at hdecode
      · exact (Option.some.inj hdecode).symm
      · cases hdecode
    have htrim : trim chars = '\x00' :: trimEnd (fromUtf8Lossy rest) := by
      rw [trim_eq, hchars, trimStart_plain (by decide)]
      exact trimEnd_last (by decide) [] _
    have hkey : parseQuotedString (skipWhitespaceAndComments (trim chars)) =
        .error .expectedQuote := by
      rw [parseQuotedString, skip_skip, htrim, skip_token ⟨by decide, by decide⟩]
      rfl
    obtain ⟨error, herror⟩ := parseTextNode_key hkey ((trim chars).length + 1) (by omega)
    unfold parseTextKv
    simp only [String.toList_ofList, herror]
    rfl
  unfold parseAppKv
  simp only [Option.bind_some]
  cases hdecode : decodeUtf8 (0 :: rest) with
  | none => rfl
  | some chars => rw [Option.bind_some, htext chars hdecode, Option.none_or]

theorem parseAppKv_written {key : String} {children : List KeyValue} {bytes : Bytes}
    (hwritten : Written [⟨key, .children children⟩] bytes) :
    parseAppKv ⟨some bytes⟩ = some ⟨key, .children children⟩ := by
  have hparse := parseBinaryKv_written hwritten []
  rw [List.append_nil] at hparse
  have htag : ∃ rest, bytes = 0 :: rest := by
    cases hwritten with
    | leaf _ _ hleaf => cases hleaf
    | branch => exact ⟨_, rfl⟩
  obtain ⟨rest, rfl⟩ := htag
  rw [parseAppKv_binary, hparse]
  rfl

/-- A section with one child. -/
def sectionBytes (key : String) (inner : Bytes) : Bytes :=
  KvTag.none.toU8 :: (nullString key ++ inner ++ KvTag.endTag.toU8 :: [])

theorem written_section {key : String} {child : KeyValue} {inner : Bytes} (hkey : NulFree key)
    (hinner : Written [child] inner) :
    Written [⟨key, .children [child]⟩] (sectionBytes key inner) :=
  .branch hkey (List.pairwise_singleton _ _) (List.Perm.refl _) hinner rfl .nil

end Format

end DepotDownloader.Cli
