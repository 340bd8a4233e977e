import MiniDms.Documents.Extraction

/-! # What a PDF is read as

Each page contributes its text layer or what the engine reads on it, and the stored text is made of
these contributions. `PdfPage.Reads` says what a page contributes under which method. -/

namespace MiniDms

open Python Traced

variable {settings : OcrSettings}

/-! ## Contributions -/

/-- What one page contributes: its text layer, stripped, if the layer has a character that is no
whitespace, and otherwise what the engine prints, stripped. -/
structure PdfPage.Reads (page : PdfPage) (layer : Str) (read : Str × PageMethod) : Prop where
  raw : page.textRange = .ok layer
  method : read.2 = .textLayer ↔ ∃ c ∈ layer, isSpace c = false
  native : read.2 = .textLayer → read.1 = strip layer
  scanned : read.2 = .tesseract →
    ∃ stdout, page.step.ran = .ok stdout ∧ read.1 = strip (decodeReplace stdout)

/-- A text is stripped to nothing exactly when it is all whitespace. -/
theorem strip_eq_nil_iff {s : Str} : strip s = [] ↔ ∀ c ∈ s, isSpace c = true := by
  constructor
  · intro h c hc
    by_contra hspace
    have hmem := (mem_strip (by simpa using hspace)).mpr hc
    rw [h] at hmem
    cases hmem
  · intro h
    have hdrop : s.dropWhile isSpace = [] := List.dropWhile_eq_nil_iff.mpr h
    rw [strip, hdrop]
    rfl

/-- Where a text is not all whitespace, a character shows it. -/
theorem strip_ne_nil_iff {s : Str} : strip s ≠ [] ↔ ∃ c ∈ s, isSpace c = false := by
  rw [Ne, strip_eq_nil_iff]
  push Not
  simp only [ne_eq, Bool.not_eq_true]

/-- The engine's text is what it printed. -/
theorem ocrImage_satisfies_printed (width height : Int) (step : OcrStep) :
    (ocrImage settings width height step).Satisfies (fun _ => True)
      fun text => ∃ stdout, step.ran = .ok stdout ∧ text = strip (decodeReplace stdout) := by
  have hchecked : (checkPixels settings width height).Satisfies (fun _ => True) fun _ => True :=
    ⟨fun _ _ => trivial, fun _ _ => trivial⟩
  refine hchecked.bind fun _ _ => ?_
  refine (satisfies_call fun _ _ => trivial).bind fun _ (_ : True) => ?_
  refine (satisfies_record trivial).bind fun _ _ => ?_
  refine (satisfies_call fun stdout h => h).bind fun stdout hran => ?_
  exact satisfies_pure ⟨stdout, mapError_eq_ok.mp hran, rfl⟩

/-- **A page that is read contributes as it should.** -/
theorem readPage_reads (total : Int) (page : PdfPage) :
    (readPage settings total page).Satisfies (fun _ => True)
      fun read => ∃ layer, page.Reads layer read := by
  refine (satisfies_record trivial).bind fun _ _ => ?_
  refine (satisfies_call fun _ _ => trivial).bind fun _ (_ : True) => ?_
  refine (satisfies_call fun _ _ => trivial).bind fun _ (_ : True) => ?_
  refine (satisfies_record trivial).bind fun _ _ => ?_
  refine (satisfies_call fun _ _ => trivial).bind fun count (_ : True) => ?_
  split
  · exact satisfies_raise _
  refine (satisfies_call fun layer h => h).bind fun layer hlayer => ?_
  split
  · next hne =>
      exact satisfies_pure ⟨layer, hlayer, by simpa using strip_ne_nil_iff.mp hne, fun _ => rfl,
        fun h => by cases h⟩
  · next hblank =>
      have hchecked : ∀ width height,
          (checkPixels settings width height).Satisfies (fun _ => True) fun _ => True :=
        fun _ _ => ⟨fun _ _ => trivial, fun _ _ => trivial⟩
      refine (hchecked _ _).bind fun _ _ => ?_
      refine (satisfies_record trivial).bind fun _ _ => ?_
      refine (satisfies_call fun _ _ => trivial).bind fun _ (_ : True) => ?_
      refine (satisfies_call fun _ _ => trivial).bind fun _ (_ : True) => ?_
      refine (ocrImage_satisfies_printed _ _ page.step).bind fun text htext => ?_
      refine satisfies_pure ⟨layer, hlayer, ⟨fun h => (by cases h), fun h => ?_⟩, fun h => ?_,
        fun _ => htext⟩
      · exact absurd (strip_ne_nil_iff.mpr h) hblank
      · cases h

/-- Every page contributes once, in page order. -/
theorem extractPages_reads (pages : List PdfPage) (total : Int) :
    (extractPages settings pages total).Satisfies (fun _ => True)
      fun read => List.Forall₂ (fun page entry => ∃ layer, page.Reads layer entry) pages read := by
  induction pages generalizing total with
  | nil => exact satisfies_pure .nil
  | cons page pages ih =>
      refine (readPage_reads total page).bind fun read hread => ?_
      dsimp only
      split
      · exact satisfies_raise _
      · exact (ih _).bind fun rest hrest => satisfies_pure (.cons hread hrest)

/-- A method is written as one of the two texts. -/
theorem PageMethod.name_eq (method : PageMethod) :
    method.name = if method = .textLayer then lit "text_layer" else lit "tesseract" := by
  cases method <;> rfl

/-- **`page_methods` tells which texts were stored.** Of every PDF that is extracted there is one entry
for each page, in page order. An entry is `text_layer` exactly when the layer of the page has a
character that is no whitespace; its text is then the stripped layer, and otherwise what the engine
printed. The stored text is the blank-line join of these texts without NUL characters. -/
theorem page_methods_of_text {pages : List PdfPage} {image : Except Exn ImageSource}
    {result : ExtractionResult}
    (h : (extract settings .pdf ⟨.ok pages, image⟩).result = .ok result) :
    ∃ read : List (Str × PageMethod),
      List.Forall₂ (fun page entry => ∃ layer, page.Reads layer entry) pages read ∧
      result.info.item (lit "pages") = some (.int pages.length) ∧
      result.info.item (lit "page_methods") = some (.list (read.map fun entry =>
        .str (if entry.2 = .textLayer then lit "text_layer" else lit "tesseract"))) ∧
      result.text = (join (lit "\n\n") (read.map Prod.fst)).filter fun c => c ≠ 0 := by
  have hpdf : (extractPdf settings (.ok pages)).Satisfies (fun _ => True) fun out =>
      ∃ read : List (Str × PageMethod),
        List.Forall₂ (fun page entry => ∃ layer, page.Reads layer entry) pages read ∧
        out = (join (lit "\n\n") (read.map Prod.fst), read.map Prod.snd) := by
    refine Satisfies.mapError ?_ _
    refine (satisfies_call fun _ h => h).bind fun opened hopened => ?_
    cases hopened
    split
    · refine (extractPages_reads pages 0).bind fun read hread => ?_
      exact satisfies_pure ⟨read, hread, rfl⟩
    · exact satisfies_raise _
  have hextract : (extract settings .pdf ⟨.ok pages, image⟩).Satisfies (fun _ => True) fun result =>
      ∃ read : List (Str × PageMethod),
        List.Forall₂ (fun page entry => ∃ layer, page.Reads layer entry) pages read ∧
        result.info.item (lit "pages") = some (.int pages.length) ∧
        result.info.item (lit "page_methods") = some (.list (read.map fun entry =>
          .str (if entry.2 = .textLayer then lit "text_layer" else lit "tesseract"))) ∧
        result.text = (join (lit "\n\n") (read.map Prod.fst)).filter fun c => c ≠ 0 := by
    refine hpdf.bind fun out hout => ?_
    obtain ⟨read, hread, rfl⟩ := hout
    split
    · exact satisfies_raise _
    · refine satisfies_pure ⟨read, hread, ?_, ?_, rfl⟩
      · rw [extractionInfo_pages, List.length_map, hread.length_eq]
      · rw [extractionInfo_page_methods, List.map_map]
        simp only [PageMethod.name_eq, Function.comp_def]
  exact hextract.result result h

/-- The stored entries of the sample file. -/
theorem page_methods_of_text_sample :
    ∃ result, (extract sampleSettings .pdf sampleFile).result = .ok result ∧
      result.text = lit "Invoice 42\n\nPaid" ∧
      ∃ read : List (Str × PageMethod),
        List.Forall₂ (fun page entry => ∃ layer, PdfPage.Reads page layer entry)
          [samplePage (lit "Invoice 42\n") [], samplePage (lit " \n") [80, 97, 105, 100, 10]]
          read ∧
        result.info.item (lit "pages") = some (.int 2) ∧
        result.info.item (lit "page_methods") = some (.list (read.map fun entry =>
          .str (if entry.2 = .textLayer then lit "text_layer" else lit "tesseract"))) ∧
        result.text = (join (lit "\n\n") (read.map Prod.fst)).filter fun c => c ≠ 0 := by
  have hsome : (extract sampleSettings .pdf sampleFile).result.toOption.map ExtractionResult.text =
      some (lit "Invoice 42\n\nPaid") := by decide +kernel
  cases h : (extract sampleSettings .pdf sampleFile).result with
  | error e =>
      rw [h] at hsome
      cases hsome
  | ok result =>
      rw [h] at hsome
      exact ⟨result, rfl, Option.some.inj hsome, page_methods_of_text h⟩

/-- A page whose text layer is one NUL character. -/
def nulPage : PdfPage := samplePage [0] [80, 97, 105, 100, 10]

/-- The page is reported as read from its text layer, although the layer has no character besides NUL,
and nothing of it is stored. -/
theorem nul_layer_reported :
    ∃ result, (extract sampleSettings .pdf (samplePdf [nulPage])).result = .ok result ∧
      result.info.item (lit "page_methods") = some (.list [.str (lit "text_layer")]) ∧
      result.text = [] ∧ nulPage.textRange = .ok [0] ∧
      ¬ ∃ c ∈ ([0] : Str), isSpace c = false ∧ c ≠ 0 := by
  refine ⟨_, rfl, rfl, rfl, rfl, ?_⟩
  rintro ⟨c, hc, -, hne⟩
  exact hne (List.mem_singleton.mp hc)

end MiniDms
