import DepotDownloader.Steam.Depot.EncryptedNames

/-! # Failed decryptions and plain manifests

A decryption that fails leaves the names in front of the failing one decrypted. A
manifest whose names are plain is left alone, whatever its separators and its order.
-/

namespace DepotDownloader.Steam

open Foundation

section Failure

variable {codecs : NameCodecs} {key : DepotKey}

/-- The first entry that has a name is one whose name fails to decrypt. -/
def FirstNameFails (codecs : NameCodecs) (key : DepotKey) (files : List ManifestFile) : Prop :=
  ∃ file, files.find? (fun file => file.filename.isSome) = some file ∧
    file.plainName codecs key = none

/-- The call that led from one manifest to the other might as well not have happened. -/
structure LeavesNoTrace (codecs : NameCodecs) (before after : DepotManifest) : Prop where
  files : after.files = before.files
  flag : after.filenamesEncrypted = before.filenamesEncrypted
  retry : ∀ key, after.decryptFilenames codecs key = before.decryptFilenames codecs key

/-- The loop leaves the entries as they are when it fails at the first name, and at no
later one: the names that it has decrypted are not what they were. -/
theorem decryptNames_error_iff
    (hblock : ∀ block, block.length = 16 → (codecs.aes key block).length = 16)
    (hbase : ∀ text bytes, codecs.base64Decode text = some bytes → bytes.length ≤ text.length)
    {files files' : List ManifestFile} {error : ManifestError}
    (hdecrypt : decryptNames codecs key files = (files', .error error)) :
    files' = files ↔ FirstNameFails codecs key files := by
  induction files generalizing files' with
  | nil => cases hdecrypt
  | cons file rest ih =>
      rw [decryptNames] at hdecrypt
      split at hdecrypt
      next hname =>
        simp only [Prod.mk.injEq] at hdecrypt
        obtain ⟨rfl, herror⟩ := hdecrypt
        have hrest := ih (Prod.ext rfl herror)
        simp only [List.cons.injEq, true_and, hrest, FirstNameFails, List.find?_cons, hname,
          Option.isSome_none]
      next encrypted hname =>
        have hfirst : FirstNameFails codecs key (file :: rest) ↔
            file.plainName codecs key = none := by
          simp [FirstNameFails, hname]
        rw [hfirst, ManifestFile.plainName, hname, Option.bind_some]
        split at hdecrypt
        next failure hfailure =>
          cases hdecrypt
          simp [hfailure, Except.toOption]
        next name hplain =>
          simp only [Prod.mk.injEq] at hdecrypt
          obtain ⟨rfl, _⟩ := hdecrypt
          -- a decrypted name is shorter than the text it was encrypted to
          have hshorter := decryptFilename_length_lt hblock hbase hplain
          simp only [hplain, Except.toOption, List.cons.injEq, reduceCtorEq, iff_false, not_and]
          intro hsame
          have hfilename := congrArg ManifestFile.filename hsame
          rw [hname, Option.some.injEq] at hfilename
          rw [show name = encrypted from hfilename] at hshorter
          exact absurd hshorter (lt_irrefl _)

/-- A decryption that fails leaves the manifest as it was, for a retry too, exactly when
it fails at the first name. -/
theorem decryptFilenames_atomic_iff
    (hblock : ∀ block, block.length = 16 → (codecs.aes key block).length = 16)
    (hbase : ∀ text bytes, codecs.base64Decode text = some bytes → bytes.length ≤ text.length)
    {manifest after : DepotManifest} {error : ManifestError}
    (hflag : manifest.filenamesEncrypted = true)
    (hdecrypt : manifest.decryptFilenames codecs key = (after, .error error)) :
    LeavesNoTrace codecs manifest after ↔ FirstNameFails codecs key manifest.files := by
  unfold DepotManifest.decryptFilenames at hdecrypt
  rw [if_pos hflag] at hdecrypt
  split at hdecrypt
  next files failure hnames =>
    cases hdecrypt
    rw [← decryptNames_error_iff hblock hbase hnames]
    constructor
    · intro htrace
      exact htrace.files
    · rintro rfl
      exact ⟨rfl, rfl, fun _ => rfl⟩
  next => cases hdecrypt

end Failure

section FailureSample

/-- The name `b\\c`, encrypted under the zero key. -/
def sealedName : String := "tl0wAwyItEyXWjQ/k/s8CRIW2bb0VVyobQ7uu9tDfcU="

/-- A manifest with a name that is sealed and one that is no base64 text. -/
def halfSealed (first second : String) : DepotManifest :=
  ⟨none, none, none, true, none, none,
    [⟨some first, some 5, none, none, [], none⟩, ⟨some second, some 3, none, none, [], none⟩]⟩

theorem nameCodecs_block (block : Bytes) (hlength : block.length = 16) :
    (nameCodecs.aes ⟨.replicate 32 0⟩ block).length = 16 :=
  (tableAes_inverse (by decide)).length_decrypt ⟨.replicate 32 0⟩ block hlength

theorem nameCodecs_base (text : String) (bytes : Bytes)
    (hdecode : nameCodecs.base64Decode text = some bytes) : bytes.length ≤ text.length := by
  have hbytes := Base64.length_decode_le hdecode
  rw [String.length_toList] at hbytes
  exact hbytes

theorem decryptFilenames_atomic_iff_sample :
    LeavesNoTrace nameCodecs (halfSealed "!" sealedName) (halfSealed "!" sealedName) ↔
      FirstNameFails nameCodecs ⟨.replicate 32 0⟩ (halfSealed "!" sealedName).files := by
  have hdecrypt : (halfSealed "!" sealedName).decryptFilenames nameCodecs ⟨.replicate 32 0⟩ =
      (halfSealed "!" sealedName,
        .error (.missingSection "invalid base64 in filename")) := by decide +kernel
  exact decryptFilenames_atomic_iff nameCodecs_block nameCodecs_base rfl hdecrypt

/-- The first name stays decrypted when the second one fails, and its manifest still
says that it is encrypted: no key decrypts the manifest any more. -/
theorem decryptFilenames_partial :
    (halfSealed sealedName "!").decryptFilenames nameCodecs ⟨.replicate 32 0⟩ =
      (halfSealed "b/c" "!", .error (.missingSection "invalid base64 in filename")) ∧
    ¬LeavesNoTrace nameCodecs (halfSealed sealedName "!") (halfSealed "b/c" "!") ∧
    ∀ key second, (halfSealed "b/c" second).decryptFilenames nameCodecs key =
      (halfSealed "b/c" second, .error (.missingSection "invalid base64 in filename")) := by
  refine ⟨by decide +kernel, ?_, ?_⟩
  · intro htrace
    exact absurd htrace.files (by decide +kernel)
  · intro key second
    have hdecode : nameCodecs.base64Decode
        (String.ofList ("b/c".toList.filter fun char => !isWhitespace char)) = none := by
      decide +kernel
    simp only [DepotManifest.decryptFilenames, halfSealed, if_true, decryptNames, decryptFilename,
      hdecode]

end FailureSample

section Variants

variable {encrypt : Aes256} {encode : Bytes → String} {codecs : NameCodecs} {key : DepotKey}

theorem replaceBackslash_idem (name : String) :
    replaceBackslash (replaceBackslash name) = replaceBackslash name := by
  unfold replaceBackslash
  rw [String.toList_ofList, List.map_map]
  congr 1
  apply List.map_congr_left
  intro char _
  by_cases hchar : char = '\\'
  · simp [hchar]
  · simp [hchar]

theorem ManifestFile.normalized_idem (file : ManifestFile) :
    file.normalized.normalized = file.normalized := by
  cases hname : file.filename with
  | none => rw [normalized_of_none hname, normalized_of_none hname]
  | some name => simp [normalized, hname, replaceBackslash_idem]

/-- Rewriting the separators changes nothing where there is no backslash. -/
theorem replaceBackslash_eq_self {name : String} :
    replaceBackslash name = name ↔ '\\' ∉ name.toList := by
  rw [replaceBackslash, ← String.toList_inj, String.toList_ofList]
  constructor
  · intro hsame hmem
    have hslash : '\\' ∈ name.toList.map fun char => if char = '\\' then '/' else char := by
      rw [hsame]
      exact hmem
    obtain ⟨char, _, hchar⟩ := List.mem_map.mp hslash
    by_cases hback : char = '\\'
    · rw [if_pos hback] at hchar
      cases hchar
    · rw [if_neg hback] at hchar
      exact hback hchar
  · intro hplain
    refine (List.map_congr_left fun char hmem => if_neg ?_).trans (List.map_id' _)
    rintro rfl
    exact hplain hmem

theorem ManifestFile.normalized_eq_self {file : ManifestFile} : file.normalized = file ↔
    ∀ name, file.filename = some name → '\\' ∉ name.toList := by
  cases file with
  | mk filename =>
      cases filename with
      | none => simp [normalized]
      | some name => simp [normalized, replaceBackslash_eq_self]

/-- The same manifest with its names encrypted and with plain names: decrypting the one
rewrites the separators and sorts the entries, decrypting the other does nothing. They
give the same list exactly when no plain name has a backslash and the plain entries are in
the byte order of their names. -/
theorem decryptFilenames_variants (haes : AesInverse encrypt codecs.aes)
    (hbase : Base64Laws encode codecs.base64Decode) (manifest : DepotManifest)
    (hflag : manifest.filenamesEncrypted = true) {entries : List ManifestFile}
    (hentries : List.Forall₂ (EncryptedEntry encrypt encode key) entries manifest.files) :
    let plain : DepotManifest := { manifest with files := entries, filenamesEncrypted := false }
    ∃ decrypted slashed, manifest.decryptFilenames codecs key = (decrypted, .ok ()) ∧
      plain.decryptFilenames codecs key = (plain, .ok ()) ∧
      List.Forall₂ SlashedEntry entries slashed ∧
      decrypted = { plain with files := slashed.insertionSort nameLe } ∧
      (decrypted = plain ↔
        (∀ entry ∈ entries, ∀ name, entry.filename = some name → '\\' ∉ name.toList) ∧
          entries.Pairwise fun left right => left.nameBytes ≤ right.nameBytes) := by
  have hdecrypted : manifest.decryptFilenames codecs key = ({ manifest with
      files := (entries.map ManifestFile.normalized).insertionSort nameLe
      filenamesEncrypted := false }, .ok ()) := by
    unfold DepotManifest.decryptFilenames
    rw [if_pos hflag, decryptNames_encrypted haes hbase hentries]
  refine ⟨_, _, hdecrypted, rfl, slashedEntries_normalized entries, rfl, ?_⟩
  have hsorted : entries.Pairwise nameLe ↔
      entries.Pairwise fun left right => left.nameBytes ≤ right.nameBytes := by
    constructor
    · intro hpairs
      exact hpairs.imp fun {left right} hle => (nameLe_iff left right).mp hle
    · intro hpairs
      exact hpairs.imp fun {left right} hle => (nameLe_iff left right).mpr hle
  simp only [DepotManifest.mk.injEq, true_and]
  rw [← hsorted]
  constructor
  · intro hsame
    refine ⟨?_, ?_⟩
    -- every entry of the plain list is one of the rewritten entries
    · intro entry hmem
      rw [← hsame, List.mem_insertionSort, List.mem_map] at hmem
      obtain ⟨other, _, rfl⟩ := hmem
      exact ManifestFile.normalized_eq_self.mp other.normalized_idem
    · rw [← hsame]
      exact List.pairwise_insertionSort nameLe _
  · rintro ⟨hplain, hordered⟩
    have hmap : entries.map ManifestFile.normalized = entries := by
      rw [List.map_congr_left fun entry hmem =>
        ManifestFile.normalized_eq_self.mpr (hplain entry hmem)]
      exact List.map_id' entries
    rw [hmap]
    exact hordered.insertionSort_eq

end Variants

section VariantsSample

/-- A manifest with one entry. -/
def singleEntry (encrypted : Bool) (name : String) : DepotManifest :=
  ⟨none, none, none, encrypted, none, none, [⟨some name, some 5, none, none, [], none⟩]⟩

theorem sealedName_encrypted :
    EncryptedName (tableAes nameBlocks) (fun bytes => String.ofList (Base64.encode bytes))
      ⟨.replicate 32 0⟩ "b\\c" sealedName := by
  refine ⟨[0, 1, 2, 3, 4, 5, 6, 7, 8, 9, 10, 11, 12, 13, 14, 15], 1, rfl, ?_⟩
  have htext : Base64.encode (symmetricEncryptEcb (tableAes nameBlocks) ⟨.replicate 32 0⟩
      [0, 1, 2, 3, 4, 5, 6, 7, 8, 9, 10, 11, 12, 13, 14, 15]
      (encodeUtf8 "b\\c".toList ++ List.replicate 1 0)) = sealedName.toList := by decide +kernel
  simp only [htext, String.toList_ofList]
  exact .refl _

theorem singleEntry_encrypted :
    List.Forall₂ (EncryptedEntry (tableAes nameBlocks)
        (fun bytes => String.ofList (Base64.encode bytes)) ⟨.replicate 32 0⟩)
      (singleEntry false "b\\c").files (singleEntry true sealedName).files := by
  have hplain : NulFree "b\\c" := by simp [NulFree]
  exact .cons (.named rfl hplain sealedName_encrypted) .nil

theorem decryptFilenames_variants_sample :
    ∃ (decrypted : DepotManifest) (slashed : List ManifestFile),
      (singleEntry true sealedName).decryptFilenames nameCodecs ⟨.replicate 32 0⟩ =
        (decrypted, .ok ()) ∧
      (singleEntry false "b\\c").decryptFilenames nameCodecs ⟨.replicate 32 0⟩ =
        (singleEntry false "b\\c", .ok ()) ∧
      List.Forall₂ SlashedEntry (singleEntry false "b\\c").files slashed ∧
      decrypted = { singleEntry false "b\\c" with files := slashed.insertionSort nameLe } ∧
      (decrypted = singleEntry false "b\\c" ↔
        (∀ entry ∈ (singleEntry false "b\\c").files, ∀ name, entry.filename = some name →
          '\\' ∉ name.toList) ∧
        (singleEntry false "b\\c").files.Pairwise fun left right =>
          left.nameBytes ≤ right.nameBytes) :=
  decryptFilenames_variants (tableAes_inverse (by decide)) base64Laws_encode
    (singleEntry true sealedName) rfl singleEntry_encrypted

/-- The plain manifest keeps the separator that the encrypted one loses. -/
theorem decryptFilenames_separators :
    List.Forall₂ (EncryptedEntry (tableAes nameBlocks)
        (fun bytes => String.ofList (Base64.encode bytes)) ⟨.replicate 32 0⟩)
      (singleEntry false "b\\c").files (singleEntry true sealedName).files ∧
    (singleEntry true sealedName).decryptFilenames nameCodecs ⟨.replicate 32 0⟩ =
      (singleEntry false "b/c", .ok ()) ∧
    (singleEntry false "b\\c").decryptFilenames nameCodecs ⟨.replicate 32 0⟩ =
      (singleEntry false "b\\c", .ok ()) ∧
    (singleEntry false "b/c").files ≠ (singleEntry false "b\\c").files :=
  ⟨singleEntry_encrypted, by decide +kernel, rfl, by decide +kernel⟩

end VariantsSample

end DepotDownloader.Steam
