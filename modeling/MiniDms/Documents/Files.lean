import MiniDms.Documents.Upload

/-! # Uploaded files

`UploadSerializer.validate_file`: the name is cleaned, the type is decided from the extension of the
name and the first bytes together, and the bytes are hashed as the file is cut into chunks. -/

namespace MiniDms

open Python

/-! ## Names -/

/-- The Unicode tables the program reads. -/
structure UnicodeData where
  /-- `unicodedata.category`. -/
  category : CodePoint → Str
  /-- `str.lower` of a character outside ASCII. -/
  lower : CodePoint → Str
  /-- Printable ASCII is in none of the C categories. -/
  category_ascii : ∀ c, 32 ≤ c.val → c.val < 127 → ¬ lit "C" <+: category c
  /-- No character outside ASCII is lower-cased to letters of an extension. -/
  lower_nonascii : ∀ c, 128 ≤ c.val → ∃ x ∈ lower c, x ∉ lit "pdfngje"

/-- `unicodedata.category(c).startswith("C")`. -/
def UnicodeData.invisible (unicode : UnicodeData) (c : CodePoint) : Bool :=
  (lit "C").isPrefixOf (unicode.category c)

/-- `str.lower`. A final sigma is lower-cased by its neighbours, always to a character outside
ASCII. -/
def UnicodeData.toLower (unicode : UnicodeData) (s : Str) : Str :=
  s.flatMap fun c => if c.val < 128 then [asciiLower c] else unicode.lower c

/-- `name.replace("\\", "/").rsplit("/", 1)[-1]`. -/
def lastComponent (name : Str) : Str :=
  (name.map fun c => if c = codePoint '\\' then codePoint '/' else c).rtakeWhile
    fun c => c ≠ codePoint '/'

/-- The name without path and invisible characters. -/
def cleanName (unicode : UnicodeData) (name : Str) : Str :=
  (lastComponent name).filter fun c => !unicode.invisible c

/-- `name.rsplit(".", 1)[-1].lower()`; a name without a dot is taken whole. -/
def extensionOf (unicode : UnicodeData) (name : Str) : Str :=
  unicode.toLower (name.rtakeWhile fun c => c ≠ codePoint '.')

/-! ## Types -/

/-- The signatures, in the order they are tried. -/
def signatures : List (Bytes × MimeType) :=
  [([37, 80, 68, 70, 45], .pdf), ([137, 80, 78, 71, 13, 10, 26, 10], .png), ([255, 216, 255], .jpeg)]

/-- The type of a file that starts with these bytes. -/
def detectType (head : Bytes) : Option MimeType :=
  (signatures.find? fun s => s.1.isPrefixOf head).map Prod.snd

/-- `expected.get(extension)`. -/
def expectedType (extension : Str) : Option MimeType :=
  ([(lit "pdf", .pdf), (lit "jpg", .jpeg), (lit "jpeg", .jpeg), (lit "png", .png)].find?
    fun (e : Str × MimeType) => e.1 = extension).map Prod.snd

/-! ## The file -/

/-- What the framework hands to the field: a file of some stated size, and how `chunks()` cuts it. -/
structure RawUpload where
  name : Str
  size : Nat
  content : Bytes
  chunks : List Bytes
  /-- The chunks are the file from its start. -/
  whole : chunks.flatten = content

/-- A file object: its bytes and the position of the next read. -/
structure FileObject where
  content : Bytes
  position : Nat

namespace FileObject

/-- `read(size)`. -/
def read (file : FileObject) (size : Nat) : Bytes × FileObject :=
  let data := (file.content.drop file.position).take size
  (data, { file with position := file.position + data.length })

/-- `seek(position)`. -/
def seek (file : FileObject) (position : Nat) : FileObject := { file with position := position }

/-- What is left to read. -/
def rest (file : FileObject) : Bytes := file.content.drop file.position

end FileObject

/-- What `validate_file` raises. -/
inductive FileError
  | payloadTooLarge
  | validationError (text : String)
  deriving DecidableEq

/-- The loop over `upload.chunks()`, from the bytes the digest has absorbed so far. -/
def hashChunks (maxUploadBytes : Int) : List Bytes → Bytes → Except FileError Bytes
  | [], absorbed => .ok absorbed
  | chunk :: chunks, absorbed =>
      if maxUploadBytes < (absorbed ++ chunk).length then .error .payloadTooLarge
      else hashChunks maxUploadBytes chunks (absorbed ++ chunk)

/-- `validate_file`. -/
def validateFile (unicode : UnicodeData) (env : Env) (maxUploadBytes : Int) (upload : RawUpload) :
    Except FileError UploadedFile := do
  if maxUploadBytes < upload.size then throw .payloadTooLarge
  else
    let name := cleanName unicode upload.name
    if name = [] ∨ 255 < name.length then
      throw (.validationError "Use a filename of 1 to 255 characters.")
    else
      let (head, file) := FileObject.read ⟨upload.content, 0⟩ 1024
      let file := file.seek 0
      match detectType head with
      | some detected =>
          if expectedType (extensionOf unicode name) = some detected then
            let absorbed ← hashChunks maxUploadBytes upload.chunks []
            -- Reading the chunks has moved the position to the end.
            let file := (file.seek upload.content.length).seek 0
            if absorbed.length ≠ upload.size then
              throw (.validationError "Invalid upload size.")
            else
              return ⟨name, upload.size, env.sha256 absorbed, detected, file.rest⟩
          else throw (.validationError
            "Only PDF, JPEG and PNG with matching file signatures are accepted.")
      | none => throw (.validationError
          "Only PDF, JPEG and PNG with matching file signatures are accepted.")

/-! ## What is accepted -/

/-- Hashing goes over all the chunks or stops at the limit. -/
theorem hashChunks_cases {maxUploadBytes : Int} (chunks : List Bytes) (absorbed : Bytes) :
    hashChunks maxUploadBytes chunks absorbed = .ok (absorbed ++ chunks.flatten) ∨
    hashChunks maxUploadBytes chunks absorbed = .error .payloadTooLarge ∧
      maxUploadBytes < (absorbed ++ chunks.flatten).length := by
  induction chunks generalizing absorbed with
  | nil => exact .inl (by rw [List.flatten_nil, List.append_nil]; rfl)
  | cons chunk chunks ih =>
      rw [List.flatten_cons, ← List.append_assoc, hashChunks]
      by_cases hlimit : maxUploadBytes < (absorbed ++ chunk).length
      · rw [if_pos hlimit]
        refine .inr ⟨rfl, hlimit.trans_le ?_⟩
        rw [@List.length_append _ (absorbed ++ chunk)]
        exact_mod_cast Nat.le_add_right _ _
      · rw [if_neg hlimit]
        exact ih (absorbed ++ chunk)

/-- The signature shows in the first bytes that are read. -/
theorem detectType_take (content : Bytes) : detectType (content.take 1024) = detectType content := by
  have hprefix : ∀ s ∈ signatures, s.1.isPrefixOf (content.take 1024) = s.1.isPrefixOf content := by
    intro s hs
    have hlength : s.1.length ≤ 1024 := by
      revert s
      decide
    rw [Bool.eq_iff_iff, List.isPrefixOf_iff_prefix, List.isPrefixOf_iff_prefix,
      List.prefix_take_iff]
    exact and_iff_left hlength
  unfold detectType
  congr 1
  exact List.find?_congr fun s hs => hprefix s hs

/-- **What `validate_file` accepts.** -/
theorem validateFile_eq_ok_iff {unicode : UnicodeData} {env : Env} {maxUploadBytes : Int}
    {upload : RawUpload} {file : UploadedFile} :
    validateFile unicode env maxUploadBytes upload = .ok file ↔
      upload.size ≤ maxUploadBytes ∧ upload.content.length = upload.size ∧
      (cleanName unicode upload.name ≠ [] ∧ (cleanName unicode upload.name).length ≤ 255) ∧
      ∃ detected, detectType upload.content = some detected ∧
        expectedType (extensionOf unicode (cleanName unicode upload.name)) = some detected ∧
        file = ⟨cleanName unicode upload.name, upload.size, env.sha256 upload.content, detected,
          upload.content⟩ := by
  have hhead : (FileObject.read ⟨upload.content, 0⟩ 1024).1 = upload.content.take 1024 := by
    rw [FileObject.read, List.drop_zero]
  have hrest : (FileObject.seek ((FileObject.read ⟨upload.content, 0⟩ 1024).2.seek 0 |>.seek
      upload.content.length) 0).rest = upload.content := List.drop_zero
  have habsorbed : hashChunks maxUploadBytes upload.chunks [] = .ok upload.content ∨
      hashChunks maxUploadBytes upload.chunks [] = .error .payloadTooLarge ∧
        maxUploadBytes < upload.content.length := by
    have hcases := @hashChunks_cases maxUploadBytes upload.chunks []
    rwa [List.nil_append, upload.whole] at hcases
  unfold validateFile
  by_cases hsize : maxUploadBytes < upload.size
  · rw [if_pos hsize]
    exact ⟨nofun, fun h => absurd h.1 (not_le.mpr hsize)⟩
  rw [if_neg hsize]
  dsimp only
  by_cases hname : cleanName unicode upload.name = [] ∨ 255 < (cleanName unicode upload.name).length
  · rw [if_pos hname]
    refine ⟨nofun, fun h => ?_⟩
    rcases hname with hname | hname
    · exact absurd hname h.2.2.1.1
    · exact absurd h.2.2.1.2 (not_le.mpr hname)
  rw [if_neg hname, hhead, detectType_take]
  push Not at hname
  cases hdetect : detectType upload.content with
  | none =>
      refine ⟨nofun, fun h => ?_⟩
      obtain ⟨_, hdetected, -⟩ := h.2.2.2
      cases hdetected
  | some detected =>
      dsimp only
      by_cases hexpected :
          expectedType (extensionOf unicode (cleanName unicode upload.name)) = some detected
      · rw [if_pos hexpected]
        obtain hok | ⟨hlarge, hlimit⟩ := habsorbed
        · rw [hok]
          show (if _ then _ else _ : Except FileError UploadedFile) = _ ↔ _
          by_cases hlength : upload.content.length ≠ upload.size
          · rw [if_pos hlength]
            exact ⟨nofun, fun h => absurd h.2.1 hlength⟩
          · rw [if_neg hlength, hrest]
            constructor
            · intro h
              cases h
              exact ⟨not_lt.mp hsize, not_not.mp hlength, hname, detected, rfl, hexpected, rfl⟩
            · rintro ⟨-, -, -, detected', hdetected, -, rfl⟩
              cases hdetected
              rfl
        · rw [hlarge]
          refine ⟨nofun, fun h => ?_⟩
          rw [h.2.1] at hlimit
          exact absurd hlimit hsize
      · rw [if_neg hexpected]
        refine ⟨nofun, fun h => ?_⟩
        obtain ⟨_, hdetected, hagrees, -⟩ := h.2.2.2
        cases hdetected
        exact absurd hagrees hexpected

end MiniDms
