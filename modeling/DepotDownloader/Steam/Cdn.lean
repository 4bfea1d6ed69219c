import DepotDownloader.SteamClient.ShaText
import DepotDownloader.SteamClient.StorePlaces
import DepotDownloader.SteamFfi.Client

/-! # Requests to the CDN

Manifests and chunks are asked for by the path of a URL. A Lancache gets the requests of
all servers under one name and tells them apart by the `Host` header, and it serves again
what it has stored under the URL and the header.
-/

namespace DepotDownloader.Steam

open Foundation DepotDownloader.SteamClient
open SteamFfi (CdnServer)

/-- What is downloaded: a manifest, with a request code unless it is 0, or a chunk. -/
inductive CdnContent where
  | manifest (depotId : DepotId) (manifestId : ManifestId) (requestCode : UInt64)
  | chunk (depotId : DepotId) (chunkId : ChunkId)
  deriving DecidableEq

namespace CdnContent

def path : CdnContent → String
  | .manifest depotId manifestId requestCode =>
      if requestCode > 0 then
        "depot/" ++ toString depotId.id.toNat ++ "/manifest/" ++ toString manifestId.id.toNat ++
          "/5/" ++ toString requestCode.toNat
      else
        "depot/" ++ toString depotId.id.toNat ++ "/manifest/" ++ toString manifestId.id.toNat ++
          "/5"
  | .chunk depotId chunkId =>
      "depot/" ++ toString depotId.id.toNat ++ "/chunk/" ++ .ofList (shaText chunkId.sha)

end CdnContent

/-- A GET request, with the `Host` header if it is set. -/
structure HttpGet where
  url : String
  host : Option String
  deriving DecidableEq, Repr

def lancacheDomain : String := "lancache.steamcontent.com"

def withToken (url : String) : Option String → String
  | some token => url ++ "?" ++ token
  | none => url

/-- Build a lancache-routed URL. -/
def lancacheUrl (path : String) (cdnAuthToken : Option String) : String :=
  withToken ("http://" ++ lancacheDomain ++ "/" ++ path) cdnAuthToken

/-- Build a full URL for a CDN request path. -/
def buildUrl (server : CdnServer) (path : String) (cdnAuthToken : Option String) : String :=
  withToken ((if server.https then "https" else "http") ++ "://" ++ server.vhost ++ ":" ++
    toString server.port.toNat ++ "/" ++ path) cdnAuthToken

structure CdnClient where
  useLancache : Bool

/-- `cdn_get`. -/
def CdnClient.get (client : CdnClient) (server : CdnServer) (path : String)
    (cdnAuthToken : Option String) : HttpGet :=
  if client.useLancache then ⟨lancacheUrl path cdnAuthToken, some server.vhost⟩
  else ⟨buildUrl server path cdnAuthToken, none⟩

section Paths

/-- A separator that neither front contains separates both texts alike. -/
theorem append_cons_inj {front front' rest rest' : List Char} {separator : Char}
    (hfront : separator ∉ front) (hfront' : separator ∉ front')
    (heq : front ++ separator :: rest = front' ++ separator :: rest') :
    front = front' ∧ rest = rest' := by
  induction front generalizing front' with
  | nil =>
      cases front' with
      | nil => exact ⟨rfl, (List.cons.inj heq).2⟩
      | cons first tail =>
          exact absurd ((List.cons.inj heq).1 ▸ List.mem_cons_self) hfront'
  | cons char front ih =>
      cases front' with
      | nil => exact absurd ((List.cons.inj heq).1 ▸ List.mem_cons_self) hfront
      | cons first tail =>
          obtain ⟨rfl, hrest⟩ := List.cons.inj heq
          obtain ⟨rfl, rfl⟩ := ih (fun hmem => hfront (List.mem_cons_of_mem _ hmem))
            (fun hmem => hfront' (List.mem_cons_of_mem _ hmem)) hrest
          exact ⟨rfl, rfl⟩

theorem notMem_toDigits {value : Nat} {char : Char} (hchar : char.isDigit = false) :
    char ∉ Nat.toDigits 10 value := by
  intro hmem
  rw [Nat.isDigit_of_mem_toDigits (by decide) (by decide) hmem] at hchar
  cases hchar

namespace CdnContent

def depotId : CdnContent → DepotId
  | .manifest depotId _ _ => depotId
  | .chunk depotId _ => depotId

/-- The request code in the path, behind the version. -/
def codeTail (requestCode : UInt64) : List Char :=
  if requestCode > 0 then '/' :: Nat.toDigits 10 requestCode.toNat else []

def depotSegment : List Char := ['d', 'e', 'p', 'o', 't', '/']
def manifestSegment : List Char := ['m', 'a', 'n', 'i', 'f', 'e', 's', 't', '/']
def chunkSegment : List Char := ['c', 'h', 'u', 'n', 'k', '/']

/-- The part of a path behind the depot. -/
def tail : CdnContent → List Char
  | .manifest _ manifestId requestCode =>
      manifestSegment ++
        (Nat.toDigits 10 manifestId.id.toNat ++ '/' :: '5' :: codeTail requestCode)
  | .chunk _ chunkId => chunkSegment ++ shaText chunkId.sha

theorem toList_path (content : CdnContent) :
    content.path.toList =
      depotSegment ++ (Nat.toDigits 10 content.depotId.id.toNat ++ '/' :: content.tail) := by
  have hdepot : "depot/".toList = depotSegment := rfl
  have hmanifest : "/manifest/".toList = '/' :: manifestSegment := rfl
  have hversion : "/5/".toList = ['/', '5', '/'] := rfl
  have hend : "/5".toList = ['/', '5'] := rfl
  have hchunk : "/chunk/".toList = '/' :: chunkSegment := rfl
  cases content with
  | manifest _ _ requestCode =>
      simp only [path, tail, codeTail]
      split <;>
        simp only [String.toList_append, Nat.toString_eq_repr, Nat.toList_repr, hdepot, hmanifest,
          hversion, hend, List.append_assoc, List.cons_append, List.nil_append] <;>
        rfl
  | chunk =>
      simp only [path, tail, String.toList_append, Nat.toString_eq_repr, Nat.toList_repr,
        String.toList_ofList, hdepot, hchunk, List.append_assoc, List.cons_append]
      rfl

theorem noQuery_tail (content : CdnContent) : '?' ∉ content.tail := by
  have hdigits (value : Nat) : '?' ∉ Nat.toDigits 10 value := notMem_toDigits (by decide)
  have hsegments : '?' ∉ manifestSegment ∧ '?' ∉ chunkSegment := by decide
  cases content with
  | manifest _ _ requestCode =>
      have hcode : '?' ∉ codeTail requestCode := by
        unfold codeTail
        split
        · simp [hdigits]
        · exact List.not_mem_nil
      simp only [tail, List.mem_append, List.mem_cons, not_or]
      exact ⟨hsegments.1, hdigits _, by decide, by decide, hcode⟩
  | chunk _ chunkId =>
      simp only [tail, List.mem_append, not_or]
      refine ⟨hsegments.2, fun hmem => ?_⟩
      obtain ⟨value, hvalue, heq⟩ := digit_of_mem_shaText chunkId.sha hmem
      have hplain : ∀ value < 16, '?' ≠ value.digitChar := by decide
      exact hplain value hvalue heq

theorem noQuery_path (content : CdnContent) : '?' ∉ content.path.toList := by
  have hsegment : '?' ∉ depotSegment := by decide
  rw [toList_path]
  simp only [List.mem_append, List.mem_cons, not_or]
  exact ⟨hsegment, notMem_toDigits (by decide), by decide, content.noQuery_tail⟩

end CdnContent

/-- What a slash separates. -/
theorem digits_slash_inj {value value' : Nat} {rest rest' : List Char}
    (heq : Nat.toDigits 10 value ++ '/' :: rest = Nat.toDigits 10 value' ++ '/' :: rest') :
    value = value' ∧ rest = rest' := by
  obtain ⟨hdigits, hrest⟩ :=
    append_cons_inj (noSlash_toDigits value) (noSlash_toDigits value') heq
  exact ⟨toDigits_injective hdigits, hrest⟩

theorem codeTail_injective : Function.Injective CdnContent.codeTail := by
  intro code code' heq
  have hzero {code : UInt64} (hcode : ¬ code > 0) : code = 0 := by
    rw [gt_iff_lt, UInt64.not_lt] at hcode
    exact UInt64.le_antisymm hcode UInt64.zero_le
  unfold CdnContent.codeTail at heq
  split at heq
  next hcode =>
    split at heq
    next => exact UInt64.toNat_inj.mp (toDigits_injective (List.cons.inj heq).2)
    next => cases heq
  next hcode =>
    split at heq
    next => cases heq
    next hcode' => rw [hzero hcode, hzero hcode']

/-- A path names one content. -/
theorem path_injective : Function.Injective CdnContent.path := by
  intro content content' heq
  have hchars := congrArg String.toList heq
  rw [CdnContent.toList_path, CdnContent.toList_path] at hchars
  obtain ⟨hdepot, htail⟩ := digits_slash_inj (List.append_cancel_left hchars)
  have hdepot := UInt32.toNat_inj.mp hdepot
  cases content with
  | manifest depotId manifestId code =>
      cases content' with
      | chunk => cases htail
      | manifest depotId' manifestId' code' =>
          obtain ⟨hmanifest, hcode⟩ := digits_slash_inj (List.append_cancel_left htail)
          obtain rfl := codeTail_injective (List.cons.inj hcode).2
          have hmanifest := UInt64.toNat_inj.mp hmanifest
          cases depotId
          cases depotId'
          cases manifestId
          cases manifestId'
          cases hdepot
          cases hmanifest
          rfl
  | chunk depotId chunkId =>
      cases content' with
      | manifest => cases htail
      | chunk depotId' chunkId' =>
          have hsha := shaText_injective (List.append_cancel_left htail)
          cases depotId
          cases depotId'
          cases chunkId
          cases chunkId'
          cases hdepot
          cases hsha
          rfl

end Paths

section Requests

variable {token token' : Option String} {path path' : String}

/-- The token is what stands behind the first question mark. -/
theorem withToken_inj (hpath : '?' ∉ path.toList) (hpath' : '?' ∉ path'.toList)
    (heq : withToken path token = withToken path' token') : path = path' ∧ token = token' := by
  have hquery : "?".toList = ['?'] := rfl
  have hchars := congrArg String.toList heq
  cases token with
  | none =>
      cases token' with
      | none => exact ⟨heq, rfl⟩
      | some token' =>
          simp only [withToken, String.toList_append, hquery, List.append_assoc,
            List.cons_append, List.nil_append] at hchars
          exact absurd (by simp [hchars]) hpath
  | some token =>
      cases token' with
      | none =>
          simp only [withToken, String.toList_append, hquery, List.append_assoc,
            List.cons_append, List.nil_append] at hchars
          exact absurd (by simp [← hchars]) hpath'
      | some token' =>
          simp only [withToken, String.toList_append, hquery, List.append_assoc,
            List.cons_append, List.nil_append] at hchars
          obtain ⟨hfront, hrest⟩ := append_cons_inj hpath hpath' hchars
          exact ⟨String.toList_injective hfront, by rw [String.toList_injective hrest]⟩

theorem withToken_append (front path : String) (token : Option String) :
    withToken (front ++ path) token = front ++ withToken path token := by
  cases token with
  | none => rfl
  | some token => simp only [withToken, String.append_assoc]

/-- Host and port stand before the last colon and behind it. -/
theorem colon_digits_inj {front front' : List Char} {value value' : Nat}
    (heq : front ++ ':' :: Nat.toDigits 10 value = front' ++ ':' :: Nat.toDigits 10 value') :
    front = front' ∧ value = value' := by
  have hcolon (value : Nat) : ':' ∉ (Nat.toDigits 10 value).reverse := fun hmem =>
    notMem_toDigits (by decide) (List.mem_reverse.mp hmem)
  have hreverse := congrArg List.reverse heq
  simp only [List.reverse_append, List.reverse_cons, List.append_assoc, List.cons_append,
    List.nil_append] at hreverse
  obtain ⟨hdigits, hfront⟩ := append_cons_inj (hcolon value) (hcolon value') hreverse
  exact ⟨List.reverse_injective hfront, toDigits_injective (List.reverse_injective hdigits)⟩

theorem lancacheUrl_inj (hpath : '?' ∉ path.toList) (hpath' : '?' ∉ path'.toList)
    (heq : lancacheUrl path token = lancacheUrl path' token') : path = path' ∧ token = token' := by
  rw [lancacheUrl, lancacheUrl, withToken_append, withToken_append] at heq
  exact withToken_inj hpath hpath'
    (String.toList_injective (List.append_cancel_left (by
      simpa only [String.toList_append] using congrArg String.toList heq)))

/-- The part of a URL between scheme and path. -/
def authority (server : CdnServer) : List Char :=
  server.vhost.toList ++ ':' :: Nat.toDigits 10 server.port.toNat

theorem noSlash_authority {server : CdnServer} (hslash : '/' ∉ server.vhost.toList) :
    '/' ∉ authority server := by
  simp only [authority, List.mem_append, List.mem_cons, not_or]
  exact ⟨hslash, by decide, noSlash_toDigits _⟩

theorem toList_buildUrl (server : CdnServer) (path : String) (token : Option String) :
    (buildUrl server path token).toList =
      (if server.https then ['h', 't', 't', 'p', 's'] else ['h', 't', 't', 'p']) ++
        ':' :: '/' :: '/' :: (authority server ++ '/' :: (withToken path token).toList) := by
  have hsecure : "https".toList = ['h', 't', 't', 'p', 's'] := rfl
  have hplain : "http".toList = ['h', 't', 't', 'p'] := rfl
  have hscheme : "://".toList = [':', '/', '/'] := rfl
  have hcolon : ":".toList = [':'] := rfl
  have hslash : "/".toList = ['/'] := rfl
  rw [buildUrl, withToken_append]
  simp only [String.toList_append, Nat.toString_eq_repr, Nat.toList_repr, hscheme, hcolon, hslash,
    authority, List.append_assoc, List.cons_append, List.nil_append]
  split <;> rfl

theorem buildUrl_inj {server server' : CdnServer} (hslash : '/' ∉ server.vhost.toList)
    (hslash' : '/' ∉ server'.vhost.toList) (hpath : '?' ∉ path.toList)
    (hpath' : '?' ∉ path'.toList)
    (heq : buildUrl server path token = buildUrl server' path' token') :
    (path = path' ∧ token = token') ∧ server.vhost = server'.vhost ∧
      server.port = server'.port ∧ server.https = server'.https := by
  have hchars := congrArg String.toList heq
  rw [toList_buildUrl, toList_buildUrl] at hchars
  have hcolon (secure : Bool) :
      ':' ∉ if secure then ['h', 't', 't', 'p', 's'] else ['h', 't', 't', 'p'] := by
    cases secure <;> decide
  obtain ⟨hscheme, hrest⟩ := append_cons_inj (hcolon _) (hcolon _) hchars
  have hsecure : server.https = server'.https := by
    cases hhttps : server.https <;> cases hhttps' : server'.https <;>
      simp_all
  obtain ⟨hauthority, htail⟩ :=
    append_cons_inj (noSlash_authority hslash) (noSlash_authority hslash')
      (List.cons.inj (List.cons.inj hrest).2).2
  obtain ⟨hvhost, hport⟩ := colon_digits_inj hauthority
  exact ⟨withToken_inj hpath hpath' (String.toList_injective htail),
    String.toList_injective hvhost, UInt16.toNat_inj.mp hport, hsecure⟩

end Requests

/-- Whoever answers a request again by URL and `Host` header, as a Lancache does, answers with
the content that was asked for, of the same server and under the same token. -/
theorem request_identifies (client : CdnClient) (server server' : CdnServer)
    (content content' : CdnContent) (token token' : Option String)
    (hslash : client.useLancache = false →
      '/' ∉ server.vhost.toList ∧ '/' ∉ server'.vhost.toList)
    (heq : client.get server content.path token = client.get server' content'.path token') :
    content = content' ∧ token = token' ∧ server.vhost = server'.vhost ∧
      (client.useLancache = false → server.port = server'.port ∧ server.https = server'.https) := by
  have hquery := content.noQuery_path
  have hquery' := content'.noQuery_path
  unfold CdnClient.get at heq
  split at heq
  next hcache =>
    obtain ⟨hurl, hhost⟩ := HttpGet.mk.inj heq
    obtain ⟨hpath, htoken⟩ := lancacheUrl_inj hquery hquery' hurl
    refine ⟨path_injective hpath, htoken, Option.some.inj hhost, fun hdirect => ?_⟩
    rw [hcache] at hdirect
    cases hdirect
  next hcache =>
    obtain ⟨hvhost, hvhost'⟩ := hslash (Bool.eq_false_of_not_eq_true hcache)
    obtain ⟨⟨hpath, htoken⟩, hserver⟩ :=
      buildUrl_inj hvhost hvhost' hquery hquery' (HttpGet.mk.inj heq).1
    exact ⟨path_injective hpath, htoken, hserver.1, fun _ => hserver.2⟩

theorem request_identifies_sample :
    let content := CdnContent.manifest ⟨480⟩ ⟨7⟩ 9
    let near : CdnServer := ⟨"edge-1", 80, false, "vhost"⟩
    let far : CdnServer := ⟨"edge-2", 443, true, "vhost"⟩
    let spare : CdnServer := ⟨"edge-3", 80, false, "vhost"⟩
    (content = content ∧ some "t?" = some "t?" ∧ near.vhost = far.vhost ∧
        (true = false → near.port = far.port ∧ near.https = far.https)) ∧
      (content = content ∧ (none : Option String) = none ∧ near.vhost = spare.vhost ∧
        (false = false → near.port = spare.port ∧ near.https = spare.https)) :=
  ⟨request_identifies ⟨true⟩ ⟨"edge-1", 80, false, "vhost"⟩ ⟨"edge-2", 443, true, "vhost"⟩
      (.manifest ⟨480⟩ ⟨7⟩ 9) (.manifest ⟨480⟩ ⟨7⟩ 9) (some "t?") (some "t?")
      (fun hdirect => by cases hdirect) rfl,
    request_identifies ⟨false⟩ ⟨"edge-1", 80, false, "vhost"⟩ ⟨"edge-3", 80, false, "vhost"⟩
      (.manifest ⟨480⟩ ⟨7⟩ 9) (.manifest ⟨480⟩ ⟨7⟩ 9) none none
      (fun _ => by decide) rfl⟩

end DepotDownloader.Steam
