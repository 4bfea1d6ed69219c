import DepotDownloader.Foundation.Base64
import DepotDownloader.Steam.Sealing
import DepotDownloader.Steam.Utf8

/-! # Decrypting the file names of a manifest

An encrypted name is the base64 text of the sealed name, with NULs behind the name
and whitespace anywhere in the text. Decrypting a manifest of such names gives its
entries under their plain names, in the byte order of these.
-/

namespace DepotDownloader.Steam

open Foundation

/-- Base64 text is decoded to the bytes it stands for and has no whitespace. -/
structure Base64Laws (encode : Bytes → String) (decode : String → Option Bytes) : Prop where
  decode_encode : ∀ bytes, decode (encode bytes) = some bytes
  plain : ∀ bytes, ∀ char ∈ (encode bytes).toList, isWhitespace char = false

/-- Whitespace is inserted into the text. -/
inductive Spread : List Char → List Char → Prop where
  | nil : Spread [] []
  | keep {char : Char} {text spread : List Char} (hrest : Spread text spread) :
      Spread (char :: text) (char :: spread)
  | space {char : Char} {text spread : List Char} (hspace : isWhitespace char = true)
      (hrest : Spread text spread) : Spread text (char :: spread)

section Name

variable (encrypt : Aes256) (encode : Bytes → String) (key : DepotKey)

/-- The text is an encryption of the name. -/
def EncryptedName (name encrypted : String) : Prop :=
  ∃ (iv : Bytes) (nuls : Nat), iv.length = 16 ∧
    Spread (encode (symmetricEncryptEcb encrypt key iv
      (encodeUtf8 name.toList ++ List.replicate nuls 0))).toList encrypted.toList

/-- The second entry is the first with its name encrypted. -/
inductive EncryptedEntry : ManifestFile → ManifestFile → Prop where
  | unnamed {file : ManifestFile} (hname : file.filename = none) : EncryptedEntry file file
  | named {file : ManifestFile} {name encrypted : String} (hname : file.filename = some name)
      (hplain : NulFree name) (hencrypted : EncryptedName encrypt encode key name encrypted) :
      EncryptedEntry file { file with filename := some encrypted }

end Name

/-- The second text has a slash where the first has a backslash, and the same characters
elsewhere. -/
def Slashed (name plain : String) : Prop :=
  List.Forall₂ (fun char written => char = '\\' ∧ written = '/' ∨ char ≠ '\\' ∧ written = char)
    name.toList plain.toList

/-- The second entry is the first with the separators of its name rewritten. -/
inductive SlashedEntry : ManifestFile → ManifestFile → Prop where
  | unnamed {file : ManifestFile} (hname : file.filename = none) : SlashedEntry file file
  | named {file : ManifestFile} {name plain : String} (hname : file.filename = some name)
      (hslashed : Slashed name plain) : SlashedEntry file { file with filename := some plain }

/-- The entry with the separators of its name rewritten. -/
def ManifestFile.normalized (file : ManifestFile) : ManifestFile :=
  { file with filename := file.filename.map replaceBackslash }

/-- The bytes of an entry's name; an entry without a name has none. -/
def ManifestFile.nameBytes (file : ManifestFile) : Bytes :=
  encodeUtf8 (file.filename.getD "").toList

theorem ManifestFile.normalized_of_none {file : ManifestFile} (hname : file.filename = none) :
    file.normalized = file := by
  cases file
  cases hname
  rfl

theorem slashed_replaceBackslash (name : String) : Slashed name (replaceBackslash name) := by
  unfold Slashed replaceBackslash
  rw [String.toList_ofList, List.forall₂_map_right_iff, List.forall₂_same]
  intro char _
  by_cases hchar : char = '\\'
  · exact .inl ⟨hchar, if_pos hchar⟩
  · exact .inr ⟨hchar, if_neg hchar⟩

theorem slashedEntry_normalized (file : ManifestFile) : SlashedEntry file file.normalized := by
  cases hname : file.filename with
  | none =>
      rw [ManifestFile.normalized_of_none hname]
      exact .unnamed hname
  | some name =>
      have hnormalized : file.normalized =
          { file with filename := some (replaceBackslash name) } := by
        simp [ManifestFile.normalized, hname]
      rw [hnormalized]
      exact .named hname (slashed_replaceBackslash name)

theorem slashedEntries_normalized (entries : List ManifestFile) :
    List.Forall₂ SlashedEntry entries (entries.map ManifestFile.normalized) := by
  rw [List.forall₂_map_right_iff, List.forall₂_same]
  exact fun file _ => slashedEntry_normalized file

section Order

theorem nameLe_iff (left right : ManifestFile) :
    nameLe left right ↔ left.nameBytes ≤ right.nameBytes := by
  rw [nameLe, String.le_iff_toList_le]
  exact encodeUtf8_le_iff.symm

instance : Std.Total nameLe where
  total _ _ := le_total (α := String) _ _

instance : IsTrans ManifestFile nameLe where
  trans _ _ _ hle hle' := le_trans (α := String) hle hle'

end Order

section Decrypt

variable {encrypt : Aes256} {encode : Bytes → String} {codecs : NameCodecs} {key : DepotKey}

/-- Stripping whitespace undoes its insertion. -/
theorem Spread.filter {text spread : List Char} (hspread : Spread text spread)
    (hplain : ∀ char ∈ text, isWhitespace char = false) :
    spread.filter (fun char => !isWhitespace char) = text := by
  induction hspread with
  | nil => rfl
  | keep _ ih =>
      have hchar := hplain _ List.mem_cons_self
      have hrest := ih fun char hmem => hplain char (List.mem_cons_of_mem _ hmem)
      rw [List.filter_cons_of_pos (by simp [hchar]), hrest]
  | space hspace _ ih =>
      rw [List.filter_cons_of_neg (by simp [hspace]), ih hplain]

/-- The NULs behind a name are cut off. -/
theorem takeWhile_padded {name : String} (hplain : NulFree name) (nuls : Nat) :
    (encodeUtf8 name.toList ++ List.replicate nuls 0).takeWhile (· ≠ 0) =
      encodeUtf8 name.toList := by
  have hzero : ∀ byte ∈ encodeUtf8 name.toList, decide (byte ≠ 0) = true := by
    intro byte hmem
    apply decide_eq_true
    rintro rfl
    exact zero_notMem_encodeUtf8 hplain hmem
  rw [List.takeWhile_append_of_pos hzero]
  cases nuls with
  | zero => simp
  | succ nuls => simp [List.replicate_succ]

theorem decryptFilename_encrypted (haes : AesInverse encrypt codecs.aes)
    (hbase : Base64Laws encode codecs.base64Decode) {name encrypted : String}
    (hplain : NulFree name) (hencrypted : EncryptedName encrypt encode key name encrypted) :
    decryptFilename codecs encrypted key = .ok (replaceBackslash name) := by
  obtain ⟨iv, nuls, hiv, hspread⟩ := hencrypted
  generalize hplaintext : encodeUtf8 name.toList ++ List.replicate nuls 0 = plaintext at hspread
  have hsealed := haes.length_encrypt key iv hiv
  have hbody := length_encryptPaddedVec haes hiv key plaintext
  have hopen : decryptPaddedVec codecs.aes key iv (encryptPaddedVec encrypt key iv plaintext) =
      some plaintext := (decryptPaddedVec_eq_some haes hiv).mpr rfl
  have hlength : ¬(symmetricEncryptEcb encrypt key iv plaintext).length < 32 := by
    rw [symmetricEncryptEcb, List.length_append]
    omega
  have htake : (symmetricEncryptEcb encrypt key iv plaintext).take 16 = encrypt key iv :=
    List.take_left' hsealed
  have hdrop : (symmetricEncryptEcb encrypt key iv plaintext).drop 16 =
      encryptPaddedVec encrypt key iv plaintext := List.drop_left' hsealed
  unfold decryptFilename
  simp only
  rw [hspread.filter (hbase.plain _), String.ofList_toList, hbase.decode_encode]
  simp only
  rw [if_neg hlength, htake, hdrop, haes.decrypt_encrypt key iv hiv, hopen]
  simp only
  rw [← hplaintext, takeWhile_padded hplain, fromUtf8Lossy_encodeUtf8, String.ofList_toList]

theorem decryptNames_encrypted (haes : AesInverse encrypt codecs.aes)
    (hbase : Base64Laws encode codecs.base64Decode) {entries files : List ManifestFile}
    (hentries : List.Forall₂ (EncryptedEntry encrypt encode key) entries files) :
    decryptNames codecs key files = (entries.map ManifestFile.normalized, .ok ()) := by
  induction hentries with
  | nil => rfl
  | @cons entry file entries files hentry _ ih =>
      cases hentry with
      | unnamed hname =>
          simp only [decryptNames, hname, ih, List.map_cons, ManifestFile.normalized_of_none hname]
      | named hname hplain hencrypted =>
          simp [decryptNames, decryptFilename_encrypted haes hbase hplain hencrypted, ih, hname,
            ManifestFile.normalized]

/-- Decrypting the names of a manifest gives the entries under their plain names,
with a slash for every backslash and sorted by the bytes of the names. Nothing else
of the manifest changes, but that its names are no longer encrypted. -/
theorem decryptFilenames_encrypted (haes : AesInverse encrypt codecs.aes)
    (hbase : Base64Laws encode codecs.base64Decode) (manifest : DepotManifest)
    (hflag : manifest.filenamesEncrypted = true) {entries : List ManifestFile}
    (hentries : List.Forall₂ (EncryptedEntry encrypt encode key) entries manifest.files) :
    ∃ files plain : List ManifestFile,
      manifest.decryptFilenames codecs key =
        ({ manifest with files := files, filenamesEncrypted := false }, .ok ()) ∧
      List.Forall₂ SlashedEntry entries plain ∧ files.Perm plain ∧
      files.Pairwise fun left right => left.nameBytes ≤ right.nameBytes := by
  refine ⟨(entries.map ManifestFile.normalized).insertionSort nameLe,
    entries.map ManifestFile.normalized, ?_, slashedEntries_normalized entries, ?_, ?_⟩
  · unfold DepotManifest.decryptFilenames
    rw [if_pos hflag, decryptNames_encrypted haes hbase hentries]
  · exact List.perm_insertionSort _ _
  · apply (List.pairwise_insertionSort nameLe _).imp
    intro left right hle
    exact (nameLe_iff left right).mp hle

end Decrypt

/-- The decrypted name of an entry. -/
def ManifestFile.plainName (codecs : NameCodecs) (key : DepotKey) (file : ManifestFile) :
    Option String :=
  file.filename.bind fun encrypted => (decryptFilename codecs encrypted key).toOption

section Plain

variable {codecs : NameCodecs} {key : DepotKey}

theorem decryptNames_eq_ok {files plain : List ManifestFile}
    (hdecrypt : decryptNames codecs key files = (plain, .ok ())) :
    plain = files.map fun file => { file with filename := file.plainName codecs key } := by
  induction files generalizing plain with
  | nil =>
      cases hdecrypt
      rfl
  | cons file rest ih =>
      rw [decryptNames] at hdecrypt
      split at hdecrypt
      next hname =>
        simp only [Prod.mk.injEq] at hdecrypt
        obtain ⟨rfl, hok⟩ := hdecrypt
        have hrest := ih (Prod.ext rfl hok)
        rw [List.map_cons, ← hrest]
        cases file
        cases hname
        rfl
      next encrypted hname =>
        split at hdecrypt
        next => cases hdecrypt
        next name hplain =>
          simp only [Prod.mk.injEq] at hdecrypt
          obtain ⟨rfl, hok⟩ := hdecrypt
          have hrest := ih (Prod.ext rfl hok)
          rw [List.map_cons, ← hrest]
          simp [ManifestFile.plainName, hname, hplain, Except.toOption]

/-- A decrypted manifest lists the entries under their plain names. -/
theorem mem_files_of_decryptFilenames {manifest plain : DepotManifest}
    (hflag : manifest.filenamesEncrypted = true)
    (hdecrypt : manifest.decryptFilenames codecs key = (plain, .ok ())) {file : ManifestFile} :
    file ∈ plain.files ↔ ∃ entry ∈ manifest.files,
      { entry with filename := entry.plainName codecs key } = file := by
  unfold DepotManifest.decryptFilenames at hdecrypt
  rw [if_pos hflag] at hdecrypt
  split at hdecrypt
  next => cases hdecrypt
  next files hnames =>
    cases hdecrypt
    simp only [List.mem_insertionSort, decryptNames_eq_ok hnames, List.mem_map]

/-- A plain name is shorter than the text that it is encrypted to. -/
theorem decryptFilename_length_lt
    (hblock : ∀ block, block.length = 16 → (codecs.aes key block).length = 16)
    (hbase : ∀ text bytes, codecs.base64Decode text = some bytes → bytes.length ≤ text.length)
    {name encrypted : String} (hdecrypt : decryptFilename codecs encrypted key = .ok name) :
    name.length < encrypted.length := by
  unfold decryptFilename at hdecrypt
  simp only at hdecrypt
  split at hdecrypt
  next => cases hdecrypt
  next bytes hdecode =>
    split at hdecrypt
    next => cases hdecrypt
    next hlong =>
      split at hdecrypt
      next => cases hdecrypt
      next plaintext hplaintext =>
        have htext := hbase _ _ hdecode
        have hcleaned := List.length_filter_le (fun char => !isWhitespace char) encrypted.toList
        have hiv : (codecs.aes key (bytes.take 16)).length = 16 := by
          apply hblock
          rw [List.length_take]
          omega
        have hunpadded : plaintext.length < (bytes.drop 16).length := by
          unfold decryptPaddedVec at hplaintext
          split at hplaintext
          next => exact (length_pkcs7Unpad_lt hplaintext).trans_le (length_cbcDecrypt_le _ _ hiv _)
          next => cases hplaintext
        have hname := length_fromUtf8Lossy_le (plaintext.takeWhile (· ≠ 0))
        have hcut := (plaintext.takeWhile_sublist (· ≠ 0)).length_le
        cases hdecrypt
        rw [String.length_ofList] at htext
        rw [List.length_drop] at hunpadded
        rw [String.length_toList] at hcleaned
        simp only [replaceBackslash, String.length_ofList, List.length_map, String.toList_ofList]
        omega

end Plain

/-- The two blocks that AES-256 encrypts under the zero key for a name of three
bytes and one NUL. -/
def nameBlocks : List (Bytes × Bytes) :=
  [([0, 1, 2, 3, 4, 5, 6, 7, 8, 9, 10, 11, 12, 13, 14, 15],
    [182, 93, 48, 3, 12, 136, 180, 76, 151, 90, 52, 63, 147, 251, 60, 9]),
  ([98, 93, 97, 3, 8, 9, 10, 11, 4, 5, 6, 7, 0, 1, 2, 3],
    [18, 22, 217, 182, 244, 85, 92, 168, 109, 14, 238, 187, 219, 67, 125, 197])]

def nameCodecs : NameCodecs where
  aes := tableAes nameBlocks.reverse
  base64Decode text := Base64.decode text.toList

theorem base64Laws_encode :
    Base64Laws (fun bytes => String.ofList (Base64.encode bytes)) nameCodecs.base64Decode where
  decode_encode bytes := by
    change Base64.decode (String.ofList (Base64.encode bytes)).toList = some bytes
    rw [String.toList_ofList]
    exact Base64.decode_encode bytes
  plain bytes char hmem := by
    rw [String.toList_ofList] at hmem
    have hdigits : ∀ value < 64, isWhitespace (Base64.digit value) = false := by decide
    rcases Base64.mem_encode hmem with rfl | ⟨value, hvalue, rfl⟩
    · rfl
    · exact hdigits value hvalue

theorem Spread.refl (text : List Char) : Spread text text := by
  induction text with
  | nil => exact .nil
  | cons char rest ih => exact .keep ih

/-- An entry whose name has a separator and an entry without a name. -/
theorem decryptFilenames_encrypted_sample :
    ∃ files plain : List ManifestFile,
      DepotManifest.decryptFilenames nameCodecs
          ⟨none, none, none, true, none, none,
            [⟨some "\ntl0wAwyItEyXWjQ/k/s8CRIW2bb0VVyobQ7uu9tDfcU=", some 5, none, none, [], none⟩,
              ⟨none, none, some 64, none, [], none⟩]⟩ ⟨.replicate 32 0⟩ =
        (⟨none, none, none, false, none, none, files⟩, .ok ()) ∧
      List.Forall₂ SlashedEntry [⟨some "b\\c", some 5, none, none, [], none⟩,
        ⟨none, none, some 64, none, [], none⟩] plain ∧
      files.Perm plain ∧
      files.Pairwise fun left right => left.nameBytes ≤ right.nameBytes := by
  have hplain : NulFree "b\\c" := by simp [NulFree]
  have hspread : Spread (String.ofList (Base64.encode (symmetricEncryptEcb (tableAes nameBlocks)
      ⟨.replicate 32 0⟩ [0, 1, 2, 3, 4, 5, 6, 7, 8, 9, 10, 11, 12, 13, 14, 15]
      (encodeUtf8 "b\\c".toList ++ List.replicate 1 0)))).toList
      "\ntl0wAwyItEyXWjQ/k/s8CRIW2bb0VVyobQ7uu9tDfcU=".toList := by
    have htext : Base64.encode (symmetricEncryptEcb (tableAes nameBlocks) ⟨.replicate 32 0⟩
        [0, 1, 2, 3, 4, 5, 6, 7, 8, 9, 10, 11, 12, 13, 14, 15]
        (encodeUtf8 "b\\c".toList ++ List.replicate 1 0)) =
        "tl0wAwyItEyXWjQ/k/s8CRIW2bb0VVyobQ7uu9tDfcU=".toList := by decide
    rw [htext, String.toList_ofList]
    exact .space (by decide) (.refl _)
  exact decryptFilenames_encrypted (tableAes_inverse (by decide)) base64Laws_encode _ rfl
    (.cons (@EncryptedEntry.named _ _ _ ⟨some "b\\c", some 5, none, none, [], none⟩ _ _ rfl hplain
      ⟨_, 1, rfl, hspread⟩) (.cons (.unnamed rfl) .nil))

end DepotDownloader.Steam
