import MiniDms.Documents.Files
import MiniDms.Workflow.World

/-! # What an accepted file is

The name of an accepted file is safe, and its type, digest and size are those of its bytes. What was
taken for the extension is one only when the name has a dot: without a dot, splitting at the last dot
leaves the whole name. -/

namespace MiniDms

open Python

variable {unicode : UnicodeData}

/-! ## Names -/

/-- Neither separator is left in the last component of a path. -/
theorem not_mem_lastComponent (name : Str) :
    codePoint '/' ∉ lastComponent name ∧ codePoint '\\' ∉ lastComponent name := by
  constructor
  · intro h
    have hne := List.mem_rtakeWhile_imp h
    simp at hne
  · intro h
    have hmem := (List.rtakeWhile_suffix _ _).subset h
    obtain ⟨c, -, hc⟩ := List.mem_map.mp hmem
    split at hc
    · exact absurd hc (by decide)
    · next hne => exact hne hc

/-- A dot is visible. -/
theorem mem_cleanName_dot (name : Str) :
    codePoint '.' ∈ cleanName unicode name ↔ codePoint '.' ∈ lastComponent name := by
  have hvisible : unicode.invisible (codePoint '.') = false := by
    have hascii := unicode.category_ascii (codePoint '.') (by decide) (by decide)
    rwa [← List.isPrefixOf_iff_prefix, Bool.not_eq_true] at hascii
  rw [cleanName, List.mem_filter, hvisible]
  exact and_iff_left rfl

/-- A name with a dot is a stem, a dot and what follows the last dot. -/
theorem exists_stem {name : Str} (h : codePoint '.' ∈ name) :
    ∃ stem, name = stem ++ codePoint '.' :: name.rtakeWhile (fun c => c ≠ codePoint '.') := by
  generalize hp : (fun c : CodePoint => decide (c ≠ codePoint '.')) = p
  have hne : name.rdropWhile p ≠ [] := by
    intro hnil
    have hall := List.rdropWhile_eq_nil_iff.mp hnil _ h
    simp [← hp] at hall
  have hdot : (name.rdropWhile p).getLast hne = codePoint '.' := by
    have hlast := List.rdropWhile_last_not p name hne
    simpa [← hp] using hlast
  refine ⟨(name.rdropWhile p).dropLast, ?_⟩
  calc name = name.rdropWhile p ++ name.rtakeWhile p := List.rdropWhile_append_rtakeWhile.symm
    _ = ((name.rdropWhile p).dropLast ++ [codePoint '.']) ++ name.rtakeWhile p := by
        rw [← hdot, List.dropLast_append_getLast]
    _ = (name.rdropWhile p).dropLast ++ codePoint '.' :: name.rtakeWhile p := by
        rw [List.append_assoc, List.singleton_append]

/-! ## Extensions -/

/-- The extensions are written with these letters. -/
theorem letters_of_expectedType {s : Str} {t : MimeType} (h : expectedType s = some t) :
    ∀ x ∈ s, x ∈ lit "pdfngje" := by
  obtain ⟨e, hfind, -⟩ := Option.map_eq_some_iff.mp h
  have hmem := List.mem_of_find?_eq_some hfind
  have heq : e.1 = s := by simpa using List.find?_some hfind
  subst heq
  clear h hfind
  revert e
  decide

/-- An extension of a known type is written in ASCII letters, in upper or lower case. -/
theorem toLower_of_expectedType {s : Str} {t : MimeType}
    (h : expectedType (unicode.toLower s) = some t) : unicode.toLower s = s.map asciiLower := by
  have hascii : ∀ c ∈ s, c.val < 128 := by
    intro c hc
    by_contra hlarge
    obtain ⟨x, hx, hletter⟩ := unicode.lower_nonascii c (not_lt.mp hlarge)
    refine hletter (letters_of_expectedType h x (List.mem_flatMap.mpr ⟨c, hc, ?_⟩))
    rwa [if_neg hlarge]
  rw [UnicodeData.toLower, ← List.flatMap_singleton' (s.map asciiLower), List.flatMap_map]
  exact List.flatMap_congr fun c hc => if_pos (hascii c hc)

/-! ## Accepted files -/

/-- A file is what the name and the bytes of an upload say, with a real extension. -/
structure SafeFile (unicode : UnicodeData) (env : Env) (maxUploadBytes : Int) (upload : RawUpload)
    (file : UploadedFile) : Prop where
  plain : codePoint '/' ∉ file.name ∧ codePoint '\\' ∉ file.name ∧
    ∀ c ∈ file.name, ¬ lit "C" <+: unicode.category c
  length : 1 ≤ file.name.length ∧ file.name.length ≤ 255
  extension : ∃ stem extension, file.name = stem ++ codePoint '.' :: extension ∧
    expectedType (extension.map asciiLower) = some file.detectedType
  signature : ∃ signature, (signature, file.detectedType) ∈ signatures ∧ signature <+: upload.content
  saved : file.content = upload.content
  sha256 : file.sha256 = env.sha256 upload.content
  size : file.size = upload.content.length
  limit : 1 ≤ file.size ∧ file.size ≤ maxUploadBytes

/-- A detected type has its signature at the start of the bytes. -/
theorem signature_of_detectType {content : Bytes} {t : MimeType} (h : detectType content = some t) :
    ∃ signature, (signature, t) ∈ signatures ∧ signature <+: content := by
  obtain ⟨s, hfind, rfl⟩ := Option.map_eq_some_iff.mp h
  have hprefix : s.1.isPrefixOf content = true := by simpa using List.find?_some hfind
  exact ⟨s.1, List.mem_of_find?_eq_some hfind, List.isPrefixOf_iff_prefix.mp hprefix⟩

/-- **An accepted file is safe and has a real, matching extension exactly when the last component of
the name it was sent with has a dot.** -/
theorem accepted_file_safe_iff {env : Env} {maxUploadBytes : Int} {upload : RawUpload}
    {file : UploadedFile} (hnonempty : upload.size ≠ 0)
    (h : validateFile unicode env maxUploadBytes upload = .ok file) :
    SafeFile unicode env maxUploadBytes upload file ↔ codePoint '.' ∈ lastComponent upload.name := by
  obtain ⟨hlimit, hlength, ⟨hne, hshort⟩, detected, hdetect, hexpected, rfl⟩ :=
    validateFile_eq_ok_iff.mp h
  have hsub : ∀ {c}, c ∈ cleanName unicode upload.name → c ∈ lastComponent upload.name := fun hc =>
    (List.mem_filter.mp hc).1
  rw [← @mem_cleanName_dot unicode]
  constructor
  · intro hsafe
    obtain ⟨stem, extension, hname, -⟩ := hsafe.extension
    have hname : cleanName unicode upload.name = stem ++ codePoint '.' :: extension := hname
    rw [hname]
    exact List.mem_append_right _ List.mem_cons_self
  · intro hdot
    obtain ⟨stem, hstem⟩ := exists_stem hdot
    refine ⟨⟨fun hc => (not_mem_lastComponent _).1 (hsub hc),
      fun hc => (not_mem_lastComponent _).2 (hsub hc), fun c hc hcategory => ?_⟩,
      ⟨List.length_pos_iff.mpr hne, hshort⟩, ⟨stem, _, hstem, ?_⟩, signature_of_detectType hdetect,
      rfl, rfl, hlength.symm, Nat.pos_of_ne_zero hnonempty, hlimit⟩
    · have hvisible := (List.mem_filter.mp hc).2
      rw [UnicodeData.invisible, List.isPrefixOf_iff_prefix.mpr hcategory] at hvisible
      cases hvisible
    · -- What the code lower-cased is what follows the last dot.
      rw [← toLower_of_expectedType hexpected]
      exact hexpected

/-- Tables that know of control characters and of two letters outside ASCII. -/
def sampleUnicode : UnicodeData where
  category c := if c.val < 32 ∨ c.val = 127 then lit "Cc" else if c.val = 0x200B then lit "Cf" else lit "Ll"
  lower c := if c.val = 0x212A then lit "k" else if c.val = 0xC9 then [0xE9] else [c]
  category_ascii c hlow hhigh := by
    rw [if_neg (by omega), if_neg (by omega)]
    decide
  lower_nonascii c hc := by
    have hletters : ∀ x ∈ lit "pdfngje", x.val < 128 := by decide
    split
    · exact ⟨codePoint 'k', by decide, by decide⟩
    · split
      · exact ⟨0xE9, by decide, by decide⟩
      · exact ⟨c, List.mem_singleton_self c, fun hmem => absurd (hletters c hmem) (not_lt.mpr hc)⟩

/-- A small PDF under this name, cut in two. -/
def namedUpload (name : Str) : RawUpload where
  name := name
  size := sampleData.file.content.length
  content := sampleData.file.content
  chunks := [sampleData.file.content.take 5, sampleData.file.content.drop 5]
  whole := by decide

/-- A name that is cleaned to one with a PDF extension is accepted with the small PDF. -/
theorem validateFile_named (env : Env) {name : Str} (hname : cleanName sampleUnicode name ≠ [] ∧
      (cleanName sampleUnicode name).length ≤ 255)
    (hextension : expectedType (extensionOf sampleUnicode (cleanName sampleUnicode name)) = some .pdf) :
    validateFile sampleUnicode env 26214400 (namedUpload name) = .ok
      ⟨cleanName sampleUnicode name, 14, env.sha256 sampleData.file.content, .pdf,
        sampleData.file.content⟩ :=
  validateFile_eq_ok_iff.mpr ⟨show (14 : Int) ≤ 26214400 by decide, rfl, hname, .pdf, rfl,
    hextension, rfl⟩

/-- A name with a path and an invisible character in it. -/
def scannedName : Str := lit "C:\\scans/2026\\a.\u200bPDF"

/-- The name is cleaned to `a.PDF`, and its extension is real. -/
theorem accepted_file_safe_iff_sample : cleanName sampleUnicode scannedName = lit "a.PDF" ∧
    ∃ file, validateFile sampleUnicode sampleEnv 26214400 (namedUpload scannedName) = .ok file ∧
      SafeFile sampleUnicode sampleEnv 26214400 (namedUpload scannedName) file := by
  have haccepted := @validateFile_named sampleEnv scannedName (by decide +kernel) (by decide +kernel)
  exact ⟨by decide +kernel, _, haccepted,
    (accepted_file_safe_iff (by decide) haccepted).mpr (by decide +kernel)⟩

/-- A file named `pdf` is accepted: the whole name is taken for the extension, and there is no dot. -/
theorem pdf_without_extension_accepted : ∃ file,
    validateFile sampleUnicode sampleEnv 26214400 (namedUpload (lit "pdf")) = .ok file ∧
      file.name = lit "pdf" ∧
      ¬ SafeFile sampleUnicode sampleEnv 26214400 (namedUpload (lit "pdf")) file := by
  refine ⟨_, @validateFile_named sampleEnv (lit "pdf") (by decide +kernel) (by decide +kernel),
    by decide +kernel, fun hsafe => ?_⟩
  obtain ⟨stem, extension, hname, -⟩ := hsafe.extension
  have hname : cleanName sampleUnicode (lit "pdf") = stem ++ codePoint '.' :: extension := hname
  have hdot : codePoint '.' ∈ cleanName sampleUnicode (lit "pdf") := by
    rw [hname]
    exact List.mem_append_right _ List.mem_cons_self
  exact absurd hdot (by decide +kernel)

end MiniDms
