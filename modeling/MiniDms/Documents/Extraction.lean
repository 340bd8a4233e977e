import MiniDms.Documents.Models
import MiniDms.Python.Traced
import MiniDms.Python.Utf8

/-! # Extraction

`_ocr_image`, `_extract_pdf` and `extract`. PDFium, Pillow and the OCR engine enter as what their
calls return or raise on the given file; every page that is opened, every bitmap that is rendered or
decoded and every image handed to the engine is recorded. -/

namespace MiniDms

open Python

/-! ## Settings and exceptions -/

/-- The settings extraction reads. -/
structure OcrSettings where
  maxOcrPages : Int
  maxOcrPixels : Int
  maxOcrChars : Int
  ocrLanguages : Str

/-- The exceptions the handlers of extraction and of the job tell apart. -/
inductive Exn
  | ocrFailure (failure : OCRFailure)
  | pdfiumError
  | decompressionBombError
  | decompressionBombWarning
  /-- A subclass of `OSError`. -/
  | unidentifiedImageError
  /-- A subclass of `OSError`. -/
  | fileNotFoundError
  /-- Any other `OSError`. -/
  | osError
  | valueError
  | timeoutExpired
  | calledProcessError
  | softTimeLimitExceeded
  /-- Any other `Exception`. -/
  | other
  deriving DecidableEq

/-- `isinstance(exc, OSError)`. -/
def Exn.isOSError : Exn → Bool
  | .unidentifiedImageError | .fileNotFoundError | .osError => true
  | _ => false

/-- `OCRFailure(code)`, which is permanent. -/
def Exn.permanent (code : ErrorCode) : Exn := .ocrFailure ⟨code, false⟩

/-! ## The file as the libraries see it -/

/-- The two steps of `_ocr_image` that may raise: writing the page into the workspace, and running
the engine, which returns what it printed. -/
structure OcrStep where
  saved : Except Exn Unit
  ran : Except Exn Bytes

/-- A page as PDFium answers about it; the sides are in points. -/
structure PdfPage where
  opened : Except Exn Unit
  textpage : Except Exn Unit
  countChars : Except Exn Nat
  textRange : Except Exn Str
  width : ℚ≥0
  height : ℚ≥0
  rendered : Except Exn Unit
  toPil : Except Exn Unit
  step : OcrStep

/-- An image as Pillow answers about it; `turned` is an orientation that swaps the sides. -/
structure ImageSource where
  width : Nat
  height : Nat
  jpegOrPng : Bool
  loaded : Except Exn Unit
  turned : Bool
  transposed : Except Exn Unit
  step : OcrStep

/-- The local file: what `PdfDocument(path)` and `Image.open(path)` make of it. -/
structure LocalFile where
  pdf : Except Exn (List PdfPage)
  image : Except Exn ImageSource

/-- What extraction does that takes resources. -/
inductive Activity
  /-- A page of a PDF is opened. -/
  | opened
  /-- The subtraction `settings.MAX_OCR_CHARS - total`. -/
  | budgeted (remaining : Int)
  /-- A page is rendered to a bitmap. -/
  | rendered (width height : Int)
  /-- An image is decoded in full. -/
  | decoded (width height : Int)
  /-- An image is handed to the engine. -/
  | recognised (width height : Int)

/-- A step of extraction. -/
abbrev Extracting := Traced Activity Exn

/-! ## One image -/

/-- `_check_pixels`. -/
def checkPixels (settings : OcrSettings) (width height : Int) : Extracting Unit :=
  if width ≤ 0 ∨ height ≤ 0 ∨ settings.maxOcrPixels < width * height then
    .raise (.permanent .pixelLimit)
  else pure ()

/-- The handlers around `subprocess.run`. -/
def engineFailure : Exn → Exn
  | .timeoutExpired => .ocrFailure ⟨.ocrTimeout, true⟩
  | .fileNotFoundError | .calledProcessError => .permanent .ocrEngineUnavailable
  | e => e

/-- `_ocr_image` on an image of the given size. -/
def ocrImage (settings : OcrSettings) (width height : Int) (step : OcrStep) : Extracting Str := do
  checkPixels settings width height
  -- Writing the page stands outside the `try`.
  .call step.saved
  .record (.recognised width height)
  let stdout ← .call (step.ran.mapError engineFailure)
  return strip (decodeReplace stdout)

/-! ## PDF documents -/

/-- The entries of `page_methods`. -/
inductive PageMethod
  | textLayer
  | tesseract
  deriving DecidableEq, Repr

/-- The scale pages are rendered at. -/
def scale : ℚ := 5 / 2

/-- The side `_check_pixels` is given for a page: `int(side * scale) + 1`. -/
def predictedSide (side : ℚ≥0) : Int := ⌊(side : ℚ) * scale⌋ + 1

/-- The side of the rendered bitmap, which PDFium rounds up. -/
def renderedSide (side : ℚ≥0) : Int := ⌈(side : ℚ) * scale⌉

/-- The body of the loop over the pages, up to the text and the method of the page. -/
def readPage (settings : OcrSettings) (total : Int) (page : PdfPage) :
    Extracting (Str × PageMethod) := do
  .record .opened
  .call page.opened
  .call page.textpage
  let remaining := settings.maxOcrChars - total
  .record (.budgeted remaining)
  let count ← .call page.countChars
  -- The raw layer is measured, before it is stripped.
  if remaining < count then .raise (.permanent .textLimit)
  else do
    let layer ← .call page.textRange
    if strip layer ≠ [] then return (strip layer, .textLayer)
    else do
      checkPixels settings (predictedSide page.width) (predictedSide page.height)
      .record (.rendered (renderedSide page.width) (renderedSide page.height))
      .call page.rendered
      .call page.toPil
      let text ← ocrImage settings (renderedSide page.width) (renderedSide page.height) page.step
      return (text, .tesseract)

/-- The loop over the pages; every page is charged its text and two characters more. -/
def extractPages (settings : OcrSettings) :
    List PdfPage → Int → Extracting (List (Str × PageMethod))
  | [], _ => pure []
  | page :: pages, total => do
      let read ← readPage settings total page
      let total := total + read.1.length + 2
      if settings.maxOcrChars < total then .raise (.permanent .textLimit)
      else do
        let rest ← extractPages settings pages total
        return read :: rest

/-- The handler of `_extract_pdf`. -/
def pdfFailure : Exn → Exn
  | .pdfiumError => .permanent .invalidDocument
  | e => e

/-- `_extract_pdf`. -/
def extractPdf (settings : OcrSettings) (pdf : Except Exn (List PdfPage)) :
    Extracting (Str × List PageMethod) :=
  Traced.mapError pdfFailure do
    let pages ← .call pdf
    if 0 < pages.length ∧ pages.length ≤ settings.maxOcrPages then do
      let read ← extractPages settings pages 0
      return (join (lit "\n\n") (read.map Prod.fst), read.map Prod.snd)
    else .raise (.permanent .pageLimit)

/-! ## Images -/

/-- The handlers of the image branch of `extract`. -/
def imageFailure (e : Exn) : Exn :=
  match e with
  | .decompressionBombError | .decompressionBombWarning => .permanent .pixelLimit
  | .valueError => .permanent .invalidDocument
  | e => if e.isOSError then .permanent .invalidDocument else e

/-- The image branch of `extract`. -/
def extractImage (settings : OcrSettings) (image : Except Exn ImageSource) :
    Extracting (Str × List PageMethod) :=
  Traced.mapError imageFailure do
    let source ← .call image
    checkPixels settings source.width source.height
    if source.jpegOrPng then do
      .record (.decoded source.width source.height)
      .call source.loaded
      let width := if source.turned then source.height else source.width
      let height := if source.turned then source.width else source.height
      .record (.decoded width height)
      .call source.transposed
      let text ← ocrImage settings width height source.step
      return (text, [.tesseract])
    else .raise (.permanent .invalidDocument)

/-! ## `extract` -/

/-- The text of a method in `page_methods`. -/
def PageMethod.name : PageMethod → Str
  | .textLayer => lit "text_layer"
  | .tesseract => lit "tesseract"

/-- The `info` of an extraction result. -/
def extractionInfo (settings : OcrSettings) (text : Str) (methods : List PageMethod) : Json :=
  .dict
    [(lit "engine", .str (lit "pdfium+tesseract")),
      (lit "languages", .str settings.ocrLanguages),
      (lit "pages", .int methods.length),
      (lit "page_methods", .list (methods.map fun method => .str method.name)),
      (lit "warnings", .list
        (if strip text = [] then [.str (lit "No readable text was detected.")] else []))]

variable (settings : OcrSettings) (text : Str) (methods : List PageMethod)

/-- The result counts the pages it has methods for. -/
@[simp]
theorem extractionInfo_pages :
    (extractionInfo settings text methods).item (lit "pages") = some (.int methods.length) := rfl

/-- The result names the methods in page order. -/
@[simp]
theorem extractionInfo_page_methods :
    (extractionInfo settings text methods).item (lit "page_methods") =
      some (.list (methods.map fun method => .str method.name)) := rfl

/-- `text.replace("\x00", "")`. -/
def withoutNul (text : Str) : Str := text.filter fun c => c ≠ 0

/-- The two branches of `extract`. -/
def extractText (settings : OcrSettings) (mimeType : MimeType) (file : LocalFile) :
    Extracting (Str × List PageMethod) :=
  match mimeType with
  | .pdf => extractPdf settings file.pdf
  | .png | .jpeg => extractImage settings file.image

/-- `extract`. -/
def extract (settings : OcrSettings) (mimeType : MimeType) (file : LocalFile) :
    Extracting ExtractionResult := do
  let read ← extractText settings mimeType file
  if settings.maxOcrChars < read.1.length then .raise (.permanent .textLimit)
  else return ⟨withoutNul read.1, extractionInfo settings (withoutNul read.1) read.2⟩

/-! ## A sample file -/

/-- The default settings. -/
def sampleSettings : OcrSettings := ⟨20, 20000000, 200000, lit "eng+fas"⟩

/-- A page of paper size on which no call fails, with its text layer and what the engine prints. -/
def samplePage (layer : Str) (stdout : Bytes) : PdfPage where
  opened := .ok ()
  textpage := .ok ()
  countChars := .ok layer.length
  textRange := .ok layer
  width := 612
  height := 792
  rendered := .ok ()
  toPil := .ok ()
  step := ⟨.ok (), .ok stdout⟩

/-- A PDF with these pages. -/
def samplePdf (pages : List PdfPage) : LocalFile := ⟨.ok pages, .error .unidentifiedImageError⟩

/-- A page with a text layer, and a scanned one that reads `Paid`. -/
def sampleFile : LocalFile :=
  samplePdf [samplePage (lit "Invoice 42\n") [], samplePage (lit " \n") [80, 97, 105, 100, 10]]

end MiniDms
