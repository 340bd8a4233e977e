import MiniDms.Extraction.Pages

/-! # The character limit of a PDF

The loop over the pages charges every page two characters for the blank line after it, the last page
included, and measures a text layer before it is stripped. `Fits` is what it lets pass. It differs from
the limit on the joined text in the last two characters and in the whitespace of the layers. -/

namespace MiniDms

open Python Traced

/-- A page that can be rendered and read by the engine. -/
structure PdfPage.Scans (page : PdfPage) (settings : OcrSettings) (stdout : Bytes) : Prop where
  sides : 0 < page.width ∧ 0 < page.height
  pixels : predictedSide page.width * predictedSide page.height ≤ settings.maxOcrPixels
  rendered : page.rendered = .ok ()
  toPil : page.toPil = .ok ()
  saved : page.step.saved = .ok ()
  ran : page.step.ran = .ok stdout

/-- A page on which no call fails: PDFium counts the characters of the text layer it returns, and a
page without text can be scanned. -/
structure WorkingPage (settings : OcrSettings) extends PdfPage where
  layer : Str
  stdout : Bytes
  openedOk : opened = .ok ()
  textpageOk : textpage = .ok ()
  counted : countChars = .ok layer.length
  ranged : textRange = .ok layer
  scanned : strip layer = [] → toPdfPage.Scans settings stdout

namespace WorkingPage

variable {settings : OcrSettings}

/-- What the page contributes to the text. -/
def text (page : WorkingPage settings) : Str :=
  if strip page.layer ≠ [] then strip page.layer else strip (decodeReplace page.stdout)

/-- The method the page is read with. -/
def method (page : WorkingPage settings) : PageMethod :=
  if strip page.layer ≠ [] then .textLayer else .tesseract

/-- A passed check leaves nothing. -/
theorem checkPixels_of_le {width height : Int} (hwidth : 0 < width) (hheight : 0 < height)
    (h : width * height ≤ settings.maxOcrPixels) : checkPixels settings width height = pure () := by
  rw [checkPixels, if_neg (by omega)]

/-- The engine reads a page that can be scanned. -/
theorem ocrImage_result {page : PdfPage} {stdout : Bytes} (h : page.Scans settings stdout) :
    (ocrImage settings (renderedSide page.width) (renderedSide page.height) page.step).result =
      .ok (strip (decodeReplace stdout)) := by
  have hside : ∀ {side : ℚ≥0}, 0 < side → 0 < renderedSide side := by
    intro side h
    apply Int.ceil_pos.mpr
    exact mul_pos (by exact_mod_cast h) (by norm_num [scale])
  have hbitmap : renderedSide page.width * renderedSide page.height ≤ settings.maxOcrPixels :=
    (mul_le_mul (Int.ceil_le_floor_add_one _) (Int.ceil_le_floor_add_one _) (hside h.sides.2).le
      ((hside h.sides.1).le.trans (Int.ceil_le_floor_add_one _))).trans h.pixels
  rw [ocrImage, checkPixels_of_le (hside h.sides.1) (hside h.sides.2) hbitmap]
  simp only [result_bind, result_pure, result_call, result_record, h.saved, h.ran]
  rfl

/-- **One page is read, or its raw layer exceeds what is left.** -/
theorem readPage_result (page : WorkingPage settings) (total : Int) :
    (readPage settings total page.toPdfPage).result =
      if settings.maxOcrChars - total < page.layer.length then .error (.permanent .textLimit)
      else .ok (page.text, page.method) := by
  simp only [readPage, result_bind, result_record, result_call, page.openedOk, page.textpageOk,
    page.counted]
  show (if _ then _ else _ : Extracting _).result = _
  split
  · rfl
  · simp only [result_bind, result_call, page.ranged]
    show (if _ then _ else _ : Extracting _).result = _
    unfold text method
    by_cases hlayer : strip page.layer ≠ []
    · rw [if_pos hlayer, if_pos hlayer, if_pos hlayer]
      rfl
    · have hscans := page.scanned (not_not.mp hlayer)
      have hpredicted : ∀ side : ℚ≥0, 0 < predictedSide side := fun side =>
        Int.lt_add_one_of_le (Int.floor_nonneg.mpr (mul_nonneg side.2 (by norm_num [scale])))
      rw [if_neg hlayer, if_neg hlayer, if_neg hlayer,
        checkPixels_of_le (hpredicted _) (hpredicted _) hscans.pixels]
      simp only [result_bind, result_pure, result_call, result_record, hscans.rendered,
        hscans.toPil, ocrImage_result hscans]
      rfl

/-! ## The budget -/

/-- What a page is charged. -/
def charge (page : WorkingPage settings) : Int := page.text.length + 2

/-- What some pages are charged. -/
def charges (pages : List (WorkingPage settings)) : Int := (pages.map charge).sum

/-- The text a PDF would be returned as. -/
def joined (pages : List (WorkingPage settings)) : Str := join (lit "\n\n") (pages.map text)

/-- What the loop lets pass from a total on. -/
def Fits (settings : OcrSettings) : List (WorkingPage settings) → Int → Prop
  | [], _ => True
  | page :: pages, total =>
      page.layer.length ≤ settings.maxOcrChars - total ∧
        total + page.charge ≤ settings.maxOcrChars ∧ Fits settings pages (total + page.charge)

/-- **The loop returns the contributions of pages that fit, and fails on the limit otherwise.** -/
theorem extractPages_result (pages : List (WorkingPage settings)) (total : Int) :
    (Fits settings pages total →
      (extractPages settings (pages.map toPdfPage) total).result =
        .ok (pages.map fun page => (page.text, page.method))) ∧
    (¬ Fits settings pages total →
      (extractPages settings (pages.map toPdfPage) total).result =
        .error (.permanent .textLimit)) := by
  induction pages generalizing total with
  | nil => exact ⟨fun _ => rfl, fun h => absurd trivial h⟩
  | cons page pages ih =>
      have hstep : (extractPages settings ((page :: pages).map toPdfPage) total).result =
          if settings.maxOcrChars - total < page.layer.length then .error (.permanent .textLimit)
          else if settings.maxOcrChars < total + page.charge then .error (.permanent .textLimit)
          else (extractPages settings (pages.map toPdfPage) (total + page.charge)).result >>=
            fun rest => .ok ((page.text, page.method) :: rest) := by
        rw [List.map_cons, extractPages, result_bind, readPage_result]
        split
        · rfl
        · show (if _ then _ else _ : Extracting _).result = _
          rw [charge, ← add_assoc]
          split
          · rfl
          · rw [result_bind]
            rfl
      rw [hstep]
      constructor
      · rintro ⟨hlayer, htotal, hrest⟩
        rw [if_neg (not_lt.mpr hlayer), if_neg (not_lt.mpr htotal), (ih _).1 hrest]
        rfl
      · intro hfit
        split
        · rfl
        split
        · rfl
        · next hlayer htotal =>
            rw [(ih _).2 fun hrest => hfit ⟨not_lt.mp hlayer, not_lt.mp htotal, hrest⟩]
            rfl

/-- Every page is charged something. -/
theorem charges_nonneg (pages : List (WorkingPage settings)) : 0 ≤ charges pages := by
  apply List.sum_nonneg
  intro c hc
  obtain ⟨page, -, rfl⟩ := List.mem_map.mp hc
  unfold charge
  omega

/-- No pages are charged nothing. -/
@[simp] theorem charges_nil : charges ([] : List (WorkingPage settings)) = 0 := rfl

/-- Pages are charged one by one. -/
@[simp] theorem charges_cons (page : WorkingPage settings) (pages : List (WorkingPage settings)) :
    charges (page :: pages) = page.charge + charges pages := List.sum_cons

/-- Pages fit when they do not exceed the limit together and no layer exceeds what is left for it. The
total only grows, so the last comparison decides about all of them. -/
theorem fits_iff {pages : List (WorkingPage settings)} {total : Int} (hne : pages ≠ []) :
    Fits settings pages total ↔ total + charges pages ≤ settings.maxOcrChars ∧
      ∀ earlier page later, pages = earlier ++ page :: later →
        page.layer.length + (total + charges earlier) ≤ settings.maxOcrChars := by
  induction pages generalizing total with
  | nil => exact absurd rfl hne
  | cons page pages ih =>
      have hsplit : (∀ earlier next later, page :: pages = earlier ++ next :: later →
          next.layer.length + (total + charges earlier) ≤ settings.maxOcrChars) ↔
          page.layer.length + total ≤ settings.maxOcrChars ∧
          ∀ earlier next later, pages = earlier ++ next :: later →
            next.layer.length + (total + page.charge + charges earlier) ≤ settings.maxOcrChars := by
        constructor
        · intro h
          refine ⟨by simpa using h [] page pages rfl, fun earlier next later heq => ?_⟩
          have hnext := h (page :: earlier) next later (by rw [heq]; rfl)
          rw [charges_cons] at hnext
          omega
        · rintro ⟨hfirst, hrest⟩ earlier next later heq
          cases earlier with
          | nil =>
              cases heq
              simpa using hfirst
          | cons first earlier =>
              obtain ⟨rfl, htail⟩ := List.cons.inj heq
              have hnext := hrest earlier next later htail
              rw [charges_cons]
              omega
      rw [hsplit, Fits, charges_cons]
      have hnonneg := charges_nonneg pages
      cases pages with
      | nil =>
          have hnone : ∀ earlier (next : WorkingPage settings) later,
              [] = earlier ++ next :: later → False := by
            intro earlier next later heq
            cases earlier <;> cases heq
          simp only [Fits, charges_nil, and_true, add_zero]
          constructor
          · rintro ⟨hlayer, htotal⟩
            exact ⟨htotal, by omega, fun e n l heq => (hnone e n l heq).elim⟩
          · rintro ⟨htotal, hlayer, -⟩
            exact ⟨by omega, htotal⟩
      | cons next later =>
          rw [ih (by simp)]
          constructor
          · rintro ⟨hlayer, htotal, hrest, hsplits⟩
            exact ⟨by omega, by omega, hsplits⟩
          · rintro ⟨htotal, hlayer, hsplits⟩
            exact ⟨by omega, by omega, by omega, hsplits⟩

/-- **The running total is the length of the joined text and two characters more.** -/
theorem charges_eq {pages : List (WorkingPage settings)} (hne : pages ≠ []) :
    charges pages = (joined pages).length + 2 := by
  have hlength : (lit "\n\n").length = 2 := rfl
  induction pages with
  | nil => exact absurd rfl hne
  | cons page pages ih =>
      cases pages with
      | nil => simp [charge, joined, join]
      | cons next later =>
          have ih := ih (by simp)
          rw [charges_cons, ih]
          simp only [joined, join, List.map_cons, List.intercalate_cons_cons, List.length_append,
            hlength, charge]
          push_cast
          ring

end WorkingPage

open WorkingPage

/-- **When the character limit of a PDF is exact.** On every PDF with a permitted number of pages and no
other failure, extraction fails on the character limit exactly when the text it would return is longer
than the limit, if and only if: that text is longer than the limit, or it is shorter by at least the two
characters charged after the last page and no text layer is, before it is stripped, longer than what
the earlier pages and their blank lines leave. -/
theorem text_limit_exact_iff {settings : OcrSettings} (pages : List (WorkingPage settings))
    (hpages : 0 < pages.length ∧ pages.length ≤ settings.maxOcrPages)
    (image : Except Exn ImageSource) :
    ((extract settings .pdf ⟨.ok (pages.map toPdfPage), image⟩).result =
        .error (.permanent .textLimit) ↔
      settings.maxOcrChars < (joined pages).length) ↔
    (settings.maxOcrChars < (joined pages).length ∨
      ((joined pages).length + 2 ≤ settings.maxOcrChars ∧
        ∀ earlier page later, pages = earlier ++ page :: later →
          page.layer.length + charges earlier ≤ settings.maxOcrChars)) := by
  have hne : pages ≠ [] := List.length_pos_iff.mp hpages.1
  have hfits : Fits settings pages 0 ↔ ((joined pages).length + 2 ≤ settings.maxOcrChars ∧
      ∀ earlier page later, pages = earlier ++ page :: later →
        page.layer.length + charges earlier ≤ settings.maxOcrChars) := by
    rw [fits_iff hne, charges_eq hne]
    simp only [zero_add]
  have hresult : (extract settings .pdf ⟨.ok (pages.map toPdfPage), image⟩).result =
      .error (.permanent .textLimit) ↔ ¬ Fits settings pages 0 := by
    have hread : (extractText settings .pdf ⟨.ok (pages.map toPdfPage), image⟩).result =
        ((extractPages settings (pages.map toPdfPage) 0).result >>= fun read =>
          .ok (join (lit "\n\n") (read.map Prod.fst), read.map Prod.snd)).mapError pdfFailure := by
      show ((if _ then _ else _ : Extracting _).result).mapError pdfFailure = _
      rw [if_pos (by rw [List.length_map]; exact hpages), result_bind]
      rfl
    rw [extract, result_bind, hread]
    constructor
    · intro hfail hfit
      rw [(extractPages_result pages 0).1 hfit] at hfail
      have hshort : ¬ settings.maxOcrChars < (joined pages).length := by
        have hle := (hfits.mp hfit).1
        omega
      have htext : join (lit "\n\n") ((pages.map fun page => (page.text, page.method)).map Prod.fst) =
          joined pages := by
        rw [List.map_map]
        rfl
      change (if settings.maxOcrChars < (join (lit "\n\n")
        ((pages.map fun page => (page.text, page.method)).map Prod.fst)).length then _ else _ :
          Extracting _).result = _ at hfail
      rw [htext, if_neg hshort] at hfail
      cases hfail
    · intro hfit
      rw [(extractPages_result pages 0).2 hfit]
      rfl
  rw [hresult, hfits]
  constructor
  · intro h
    by_cases hlong : settings.maxOcrChars < (joined pages).length
    · exact .inl hlong
    · exact .inr (not_not.mp fun hfit => hlong (h.mp hfit))
  · rintro (hlong | hfit)
    · exact ⟨fun _ => hlong, fun _ hfit => by omega⟩
    · exact ⟨fun h => absurd hfit h, fun hlong => by omega⟩

/-- A page whose text layer has the given text, read under any limits. -/
def workingPage (settings : OcrSettings) (layer : Str) (h : strip layer ≠ []) :
    WorkingPage settings where
  toPdfPage := samplePage layer []
  layer := layer
  stdout := []
  openedOk := rfl
  textpageOk := rfl
  counted := rfl
  ranged := rfl
  scanned hblank := absurd hblank h

/-- The default settings with room for ten characters. -/
def narrowSettings : OcrSettings := { sampleSettings with maxOcrChars := 10 }

/-- Two pages, of which the second ends in a blank. -/
def invoicePages : List (WorkingPage narrowSettings) :=
  [workingPage narrowSettings (lit "No") (by decide), workingPage narrowSettings (lit "42 ") (by decide)]

/-- The limit is exact on two pages whose text of six characters leaves room for two more. -/
theorem text_limit_exact_iff_sample :
    ((extract narrowSettings .pdf ⟨.ok (invoicePages.map toPdfPage), .error .osError⟩).result =
        .error (.permanent .textLimit) ↔
      narrowSettings.maxOcrChars < (joined invoicePages).length) ↔
    (narrowSettings.maxOcrChars < (joined invoicePages).length ∨
      ((joined invoicePages).length + 2 ≤ narrowSettings.maxOcrChars ∧
        ∀ earlier page later, invoicePages = earlier ++ page :: later →
          page.layer.length + charges earlier ≤ narrowSettings.maxOcrChars)) :=
  text_limit_exact_iff invoicePages (by decide) (.error .osError)

/-- **Ten characters are refused where ten are permitted**: the text is not longer than the limit, and
still extraction fails on the limit. -/
theorem permitted_text_refused :
    ¬ ((extract narrowSettings .pdf
        (samplePdf [(workingPage narrowSettings (lit "Invoice 42") (by decide)).toPdfPage])).result =
      .error (.permanent .textLimit) ↔
    narrowSettings.maxOcrChars <
      (joined [workingPage narrowSettings (lit "Invoice 42") (by decide)]).length) := by
  intro h
  exact absurd (h.mp rfl) (by decide)

end MiniDms
