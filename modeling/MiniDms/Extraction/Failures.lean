import MiniDms.Extraction.Limits
import MiniDms.Extraction.TextLimit
import MiniDms.Workflow.RunJob

/-! # Failures of the OCR step

`_ocr_image` is called under two sets of handlers. Those of the image branch take every `OSError` for
a damaged image, also one that comes from the workspace or from starting the engine; those of the PDF
branch let it through to `run_job`. -/

namespace MiniDms

open Python Traced

/-! ## What the step can meet -/

/-- What the OCR step of an image can meet once the image has passed its checks. -/
inductive OcrFault
  /-- The workspace file cannot be written. -/
  | unwritable (e : Exn) (h : e.isOSError = true)
  /-- The engine cannot be started; a missing engine is a `FileNotFoundError`. -/
  | unstartable (e : Exn) (h : e.isOSError = true)
  /-- The engine exceeds its time limit. -/
  | timedOut
  /-- The engine exits with a status other than zero. -/
  | exited
  /-- The soft time limit of the task fires, while the file is written or while the engine runs. -/
  | interrupted (writing : Bool)

/-- The step that meets a fault. -/
def OcrFault.step : OcrFault → OcrStep
  | .unwritable e _ => ⟨.error e, .ok []⟩
  | .unstartable e _ => ⟨.ok (), .error e⟩
  | .timedOut => ⟨.ok (), .error .timeoutExpired⟩
  | .exited => ⟨.ok (), .error .calledProcessError⟩
  | .interrupted true => ⟨.error .softTimeLimitExceeded, .ok []⟩
  | .interrupted false => ⟨.ok (), .error .softTimeLimitExceeded⟩

/-- What leaves `_ocr_image`. -/
def OcrFault.raised : OcrFault → Exn
  | .unwritable e _ => e
  | .unstartable e _ => engineFailure e
  | .timedOut => engineFailure .timeoutExpired
  | .exited => engineFailure .calledProcessError
  | .interrupted _ => .softTimeLimitExceeded

/-- The fault is no `OSError`, or it is the missing engine, which has a handler of its own. -/
def OcrFault.Handled : OcrFault → Prop
  | .unwritable _ _ => False
  | .unstartable e _ => e = .fileNotFoundError
  | _ => True

variable {settings : OcrSettings}

/-- The step raises its fault on an image that passes the check. -/
theorem ocrImage_of_fault {width height : Int} (hwidth : 0 < width) (hheight : 0 < height)
    (hpixels : width * height ≤ settings.maxOcrPixels) (fault : OcrFault) :
    (ocrImage settings width height fault.step).result = .error fault.raised := by
  rw [ocrImage, WorkingPage.checkPixels_of_le hwidth hheight hpixels]
  cases fault with
  | interrupted writing => cases writing <;> rfl
  | _ => rfl

/-! ## The image branch -/

/-- An image that can be decoded and passes the checks. -/
structure ImageSource.Passes (source : ImageSource) (settings : OcrSettings) : Prop where
  sides : 0 < source.width ∧ 0 < source.height
  pixels : (source.width * source.height : Int) ≤ settings.maxOcrPixels
  format : source.jpegOrPng = true
  loaded : source.loaded = .ok ()
  transposed : source.transposed = .ok ()

/-- The handlers of the image branch see the fault. -/
theorem extractImage_of_fault {source : ImageSource} (h : source.Passes settings)
    {fault : OcrFault} (hstep : source.step = fault.step) :
    (extractImage settings (.ok source)).result = .error (imageFailure fault.raised) := by
  have hwidth : (0 : Int) < source.width := by exact_mod_cast h.sides.1
  have hheight : (0 : Int) < source.height := by exact_mod_cast h.sides.2
  rw [extractImage, result_mapError]
  show Except.mapError imageFailure (checkPixels settings source.width source.height >>= fun _ =>
    if source.jpegOrPng then _ else _ : Extracting _).result = _
  rw [WorkingPage.checkPixels_of_le hwidth hheight h.pixels, result_bind, result_pure]
  show Except.mapError imageFailure (if source.jpegOrPng then _ else _ : Extracting _).result = _
  rw [if_pos h.format]
  simp only [result_bind, result_record, result_call, h.loaded, h.transposed, hstep]
  -- Turning the image swaps the sides and keeps their product.
  have hocr : ∀ turned : Bool, (ocrImage settings
      (if turned then source.height else source.width : Nat)
      (if turned then source.width else source.height : Nat) fault.step).result =
        .error fault.raised := by
    intro turned
    cases turned with
    | false => exact ocrImage_of_fault hwidth hheight h.pixels fault
    | true => exact ocrImage_of_fault hheight hwidth (mul_comm (source.width : Int) _ ▸ h.pixels) fault
  show Except.mapError imageFailure ((ocrImage settings _ _ fault.step).result >>= _) = _
  rw [hocr]
  rfl

/-! ## The PDF branch -/

/-- A page whose bitmap reaches the OCR step once `total` characters have been charged. -/
structure PdfPage.ReachesOcr (page : PdfPage) (settings : OcrSettings) (total : Int) : Prop where
  opened : page.opened = .ok ()
  textpage : page.textpage = .ok ()
  counted : ∃ count, page.countChars = .ok count ∧ (count : Int) ≤ settings.maxOcrChars - total
  blank : ∃ layer, page.textRange = .ok layer ∧ strip layer = []
  sides : 0 < page.width ∧ 0 < page.height
  pixels : predictedSide page.width * predictedSide page.height ≤ settings.maxOcrPixels
  rendered : page.rendered = .ok ()
  toPil : page.toPil = .ok ()

/-- The loop over the pages comes to a page whose bitmap reaches the OCR step. -/
inductive ReachesPage (settings : OcrSettings) : List PdfPage → Int → PdfPage → Prop
  | here {page : PdfPage} {pages : List PdfPage} {total : Int}
      (h : page.ReachesOcr settings total) : ReachesPage settings (page :: pages) total page
  | later {earlier page : PdfPage} {pages : List PdfPage} {total : Int} {read : Str × PageMethod}
      (hread : (readPage settings total earlier).result = .ok read)
      (hfits : total + read.1.length + 2 ≤ settings.maxOcrChars)
      (h : ReachesPage settings pages (total + read.1.length + 2) page) :
      ReachesPage settings (earlier :: pages) total page

/-- The body of the loop raises the fault of the page. -/
theorem readPage_of_fault {page : PdfPage} {total : Int} (h : page.ReachesOcr settings total)
    {fault : OcrFault} (hstep : page.step = fault.step) :
    (readPage settings total page).result = .error fault.raised := by
  obtain ⟨count, hcount, hremaining⟩ := h.counted
  obtain ⟨layer, hlayer, hblank⟩ := h.blank
  have hscale : (0 : ℚ) < scale := by norm_num [scale]
  have hside : ∀ {side : ℚ≥0}, 0 < side → 0 < renderedSide side := fun hpos =>
    Int.ceil_pos.mpr (mul_pos (by exact_mod_cast hpos) hscale)
  have hpredicted : ∀ side : ℚ≥0, 0 < predictedSide side := fun side =>
    Int.lt_add_one_of_le (Int.floor_nonneg.mpr (mul_nonneg side.2 hscale.le))
  have hbitmap : renderedSide page.width * renderedSide page.height ≤ settings.maxOcrPixels :=
    rendered_within (hpredicted page.width) h.pixels
  simp only [readPage, result_bind, result_record, result_call, h.opened, h.textpage, hcount]
  show (if _ then _ else _ : Extracting _).result = _
  rw [if_neg (by omega)]
  simp only [result_bind, result_call, hlayer]
  show (if _ then _ else _ : Extracting _).result = _
  rw [if_neg (not_not.mpr hblank),
    WorkingPage.checkPixels_of_le (hpredicted _) (hpredicted _) h.pixels]
  simp only [result_bind, result_pure, result_call, result_record, h.rendered, h.toPil, hstep,
    ocrImage_of_fault (hside h.sides.1) (hside h.sides.2) hbitmap]
  rfl

/-- The loop raises the fault of the page it comes to. -/
theorem extractPages_of_fault {pages : List PdfPage} {total : Int} {page : PdfPage}
    (h : ReachesPage settings pages total page) {fault : OcrFault} (hstep : page.step = fault.step) :
    (extractPages settings pages total).result = .error fault.raised := by
  induction h with
  | here hpage =>
      rw [extractPages, result_bind, readPage_of_fault hpage hstep]
      rfl
  | later hread hfits _ ih =>
      rw [extractPages, result_bind, hread]
      show (if _ then _ else _ : Extracting _).result = _
      rw [if_neg (not_lt.mpr hfits), result_bind, ih hstep]
      rfl

/-- The handler of the PDF branch sees the fault. -/
theorem extractPdf_of_fault {pages : List PdfPage} (hpages : pages.length ≤ settings.maxOcrPages)
    {page : PdfPage} (h : ReachesPage settings pages 0 page) {fault : OcrFault}
    (hstep : page.step = fault.step) :
    (extractPdf settings (.ok pages)).result = .error (pdfFailure fault.raised) := by
  have hlength : 0 < pages.length := by cases h <;> exact Nat.succ_pos _
  rw [extractPdf, result_mapError, result_bind, result_call]
  show Except.mapError pdfFailure (if _ then _ else _ : Extracting _).result = _
  rw [if_pos ⟨hlength, hpages⟩, result_bind, extractPages_of_fault h hstep]
  rfl

/-! ## What the delivery records -/

/-- The failure `run_job` records for a file it has fetched, unless extraction returns. -/
def failureOf (settings : OcrSettings) (mimeType : MimeType) (file : LocalFile) :
    Option OCRFailure :=
  match (extract settings mimeType file).result with
  | .ok _ => none
  | .error e => some (recorded e)

/-- A delivery that has fetched an intact document calls `finish` with that failure. -/
theorem runClaimed_of_failureOf {env : Env} {maxUploadBytes : Int} {c : Collaborators}
    {s : Surroundings} {db : Db} {job : Job} {document : Document} {content : Bytes}
    {file : LocalFile} {failure : OCRFailure} (hkind : job.kind = .ocr)
    (hqueried : c.queried = .ok ()) (hdirectory : c.directory = .ok ()) (hcleaned : c.cleaned = .ok ())
    (hdocument : (s.beforeRead db).documents.find job.documentId = some document)
    (hfetch : fetch maxUploadBytes c = .ok content) (hsize : content.length = document.size)
    (hsha256 : env.sha256 content = document.sha256)
    (hextract : c.extract document.mimeType content =
      (extract settings document.mimeType file).result)
    (hfailure : failureOf settings document.mimeType file = some failure) :
    runClaimed env maxUploadBytes c s db job =
      callFinish env (s.beforeFailure (s.beforeRead db)) s.failureDraw s.failureJitter job
        (.failure failure) s.failure := by
  unfold failureOf at hfailure
  cases hresult : (extract settings document.mimeType file).result with
  | ok result =>
      rw [hresult] at hfailure
      cases hfailure
  | error e =>
      rw [hresult] at hfailure hextract
      cases hfailure
      have hwork : (work env maxUploadBytes c (s.beforeRead db) job).result = .error e := by
        rw [work, hkind]
        simp only [result_bind, result_call, hqueried, hdocument, hdirectory]
        show leaving c.cleaned (process env maxUploadBytes c document).result = _
        rw [hcleaned, leaving, process, result_bind, result_call, hfetch]
        show (if _ then _ else _ : Traced Extraction Exn _).result = _
        rw [if_neg (by tauto), result_bind, result_record, result_bind, result_call, hextract]
        rfl
      unfold runClaimed
      simp only [hwork]
      rfl

/-- What is recorded for an image whose OCR step meets a fault. -/
theorem failureOf_image {mimeType : MimeType} (htype : mimeType ≠ .pdf) {file : LocalFile}
    {source : ImageSource} (hfile : file.image = .ok source) (h : source.Passes settings)
    {fault : OcrFault} (hstep : source.step = fault.step) :
    failureOf settings mimeType file = some (recorded (imageFailure fault.raised)) := by
  have hextract : (extract settings mimeType file).result =
      .error (imageFailure fault.raised) := by
    have htext : extractText settings mimeType file = extractImage settings (.ok source) := by
      cases mimeType with
      | pdf => exact absurd rfl htype
      | png => rw [← hfile, extractText]
      | jpeg => rw [← hfile, extractText]
    rw [extract, result_bind, htext, extractImage_of_fault h hstep]
    rfl
  rw [failureOf, hextract]

/-- What is recorded for a PDF with a scanned page whose OCR step meets a fault. -/
theorem failureOf_pdf {file : LocalFile} {pages : List PdfPage} (hfile : file.pdf = .ok pages)
    (hpages : pages.length ≤ settings.maxOcrPages) {page : PdfPage}
    (h : ReachesPage settings pages 0 page) {fault : OcrFault} (hstep : page.step = fault.step) :
    failureOf settings .pdf file = some (recorded (pdfFailure fault.raised)) := by
  have hextract : (extract settings .pdf file).result = .error (pdfFailure fault.raised) := by
    rw [extract, result_bind, extractText, hfile, extractPdf_of_fault hpages h hstep]
    rfl
  rw [failureOf, hextract]

/-- The image branch takes an `OSError` for a damaged image, unless it is the missing engine. -/
theorem recorded_imageFailure {fault : OcrFault} (h : ¬ fault.Handled) :
    recorded (imageFailure fault.raised) = ⟨.invalidDocument, false⟩ := by
  cases fault with
  | unwritable e he =>
      cases e with
      | fileNotFoundError => rfl
      | unidentifiedImageError => rfl
      | osError => rfl
      | _ => cases he
  | unstartable e he =>
      cases e with
      | fileNotFoundError => exact absurd rfl h
      | unidentifiedImageError => rfl
      | osError => rfl
      | _ => cases he
  | timedOut => exact absurd trivial h
  | exited => exact absurd trivial h
  | interrupted => exact absurd trivial h

/-- A fault with a handler of its own is recorded as such under both sets of handlers. -/
theorem recorded_of_handled {fault : OcrFault} (h : fault.Handled) :
    recorded (imageFailure fault.raised) = recorded (pdfFailure fault.raised) ∧
      (recorded (pdfFailure fault.raised)).code ≠ .invalidDocument := by
  cases fault with
  | unwritable e he => exact h.elim
  | unstartable e he =>
      have he : e = .fileNotFoundError := h
      subst he
      exact ⟨rfl, nofun⟩
  | timedOut => exact ⟨rfl, nofun⟩
  | exited => exact ⟨rfl, nofun⟩
  | interrupted => exact ⟨rfl, nofun⟩

/-- **A failure of the OCR step is recorded alike for an image and for a scanned page, and never as a
damaged document, exactly when it has a handler of its own.** A time-out, an exit status other than
zero, a missing engine and the soft time limit have one. Any other `OSError`, from the workspace or
from starting the engine, is recorded as `invalid_document` for the image and as `unexpected_error`
for the PDF. -/
theorem ocr_failure_same_iff (fault : OcrFault) {imageType : MimeType} (htype : imageType ≠ .pdf)
    {imageFile pdfFile : LocalFile} {source : ImageSource} {pages : List PdfPage} {page : PdfPage}
    (himage : imageFile.image = .ok source) (hpdf : pdfFile.pdf = .ok pages)
    (hsource : source.Passes settings) (hpages : pages.length ≤ settings.maxOcrPages)
    (hreaches : ReachesPage settings pages 0 page) (hsourceStep : source.step = fault.step)
    (hpageStep : page.step = fault.step) :
    (∃ failure, failureOf settings imageType imageFile = some failure ∧
      failureOf settings .pdf pdfFile = some failure ∧ failure.code ≠ .invalidDocument) ↔
      fault.Handled := by
  rw [failureOf_image htype himage hsource hsourceStep, failureOf_pdf hpdf hpages hreaches hpageStep]
  constructor
  · rintro ⟨failure, hfailure, -, hcode⟩
    by_contra hunhandled
    rw [recorded_imageFailure hunhandled, Option.some_inj] at hfailure
    subst hfailure
    exact hcode rfl
  · intro h
    obtain ⟨hsame, hcode⟩ := recorded_of_handled h
    exact ⟨_, congrArg some hsame, rfl, hcode⟩

/-- An image of 200 by 100 pixels with this fault. -/
def faultyImage (fault : OcrFault) : ImageSource where
  width := 200
  height := 100
  jpegOrPng := true
  loaded := .ok ()
  turned := false
  transposed := .ok ()
  step := fault.step

/-- The sample image passes the checks before OCR. -/
theorem faultyImage_passes (fault : OcrFault) : (faultyImage fault).Passes sampleSettings :=
  ⟨⟨Nat.succ_pos 199, Nat.succ_pos 99⟩, show (200 * 100 : Int) ≤ 20000000 by norm_num, rfl, rfl, rfl⟩

/-- A blank page with this fault. -/
def faultyPage (fault : OcrFault) : PdfPage :=
  { samplePage (lit " \n") [] with step := fault.step }

/-- The blank page of a PDF, behind a page with a text layer, reaches the OCR step. -/
theorem faultyPage_reached (fault : OcrFault) : ReachesPage sampleSettings
    [samplePage (lit "Invoice 42") [], faultyPage fault] 0 (faultyPage fault) := by
  refine @ReachesPage.later _ _ _ _ _ (lit "Invoice 42", .textLayer) rfl (by decide) (.here ?_)
  have hpixels : predictedSide 612 * predictedSide 792 ≤ 20000000 := by decide +kernel
  exact ⟨rfl, rfl, ⟨2, rfl, by decide⟩, ⟨_, rfl, by decide⟩,
    by constructor <;> norm_num [faultyPage, samplePage], hpixels, rfl, rfl⟩

/-- A time-out is the same for the image and for the second page. -/
theorem ocr_failure_same_iff_sample :
    (∃ failure, failureOf sampleSettings .png ⟨.error .other, .ok (faultyImage .timedOut)⟩ =
        some failure ∧
      failureOf sampleSettings .pdf
        (samplePdf [samplePage (lit "Invoice 42") [], faultyPage .timedOut]) = some failure ∧
      failure.code ≠ .invalidDocument) ↔ OcrFault.timedOut.Handled :=
  ocr_failure_same_iff .timedOut (by decide) rfl rfl (faultyImage_passes _) (by decide)
    (faultyPage_reached _) rfl rfl

/-- An engine that may not be executed raises a `PermissionError`. The image fails for good as a
damaged document, and the PDF is retried. -/
theorem engine_permission_divides :
    let fault : OcrFault := .unstartable .osError rfl
    let image := failureOf sampleSettings .png ⟨.error .other, .ok (faultyImage fault)⟩
    let pdf := failureOf sampleSettings .pdf
      (samplePdf [samplePage (lit "Invoice 42") [], faultyPage fault])
    image = some ⟨.invalidDocument, false⟩ ∧ pdf = some ⟨.unexpectedError, true⟩ ∧
      ¬ ∃ failure, image = some failure ∧ pdf = some failure ∧ failure.code ≠ .invalidDocument := by
  intro fault image pdf
  have himage : image = some ⟨.invalidDocument, false⟩ :=
    @failureOf_image sampleSettings .png (by decide) _ (faultyImage fault) rfl
      (faultyImage_passes fault) fault rfl
  refine ⟨himage, @failureOf_pdf sampleSettings (samplePdf _) _ rfl (by decide) (faultyPage fault)
    (faultyPage_reached fault) fault rfl, ?_⟩
  rintro ⟨failure, hfailure, -, hcode⟩
  rw [himage, Option.some_inj] at hfailure
  subst hfailure
  exact hcode rfl

end MiniDms
