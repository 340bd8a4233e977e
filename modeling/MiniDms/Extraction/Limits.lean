import MiniDms.Documents.Extraction

/-! # Extraction respects its limits

Every bitmap and every image stays within the pixel limit, whatever a file says about its sizes, and
the character budget is never overdrawn. The sizes are checked before anything is rendered or
decoded, so the bound holds of runs that raise as well. -/

namespace MiniDms

open Python Traced

/-- What the settings allow of an activity. -/
def Activity.Within (settings : OcrSettings) : Activity → Prop
  | .opened => True
  | .budgeted remaining => 0 ≤ remaining
  | .rendered width height | .decoded width height | .recognised width height =>
      width * height ≤ settings.maxOcrPixels

/-- A page is opened. -/
def Activity.isOpened : Activity → Bool
  | .opened => true
  | _ => false

/-- A page is rendered. -/
def Activity.isRendered : Activity → Bool
  | .rendered .. => true
  | _ => false

variable {settings : OcrSettings}

/-! ## Pixels -/

/-- A passed pixel check bounds the product of the sides. -/
theorem checkPixels_satisfies (p : Activity → Prop) (width height : Int) :
    (checkPixels settings width height).Satisfies p
      fun _ => 0 < width ∧ 0 < height ∧ width * height ≤ settings.maxOcrPixels := by
  unfold checkPixels
  split
  · exact satisfies_raise _
  · next h =>
      push Not at h
      exact satisfies_pure h

/-- **The renderer stays below the prediction**: rounding up exceeds truncating by one at most. -/
theorem renderedSide_le_predictedSide (side : ℚ≥0) : renderedSide side ≤ predictedSide side :=
  Int.ceil_le_floor_add_one _

/-- A bitmap has no negative side. -/
theorem renderedSide_nonneg (side : ℚ≥0) : 0 ≤ renderedSide side := by
  apply Int.ceil_nonneg
  exact mul_nonneg side.2 (by norm_num [scale])

/-- What the check predicts of a page bounds its bitmap. -/
theorem rendered_within {width height : ℚ≥0} (hwidth : 0 < predictedSide width)
    (h : predictedSide width * predictedSide height ≤ settings.maxOcrPixels) :
    renderedSide width * renderedSide height ≤ settings.maxOcrPixels :=
  calc renderedSide width * renderedSide height
      ≤ predictedSide width * predictedSide height :=
        mul_le_mul (renderedSide_le_predictedSide width) (renderedSide_le_predictedSide height)
          (renderedSide_nonneg height) hwidth.le
    _ ≤ settings.maxOcrPixels := h

/-- Whatever image the engine is given has passed the check. -/
theorem ocrImage_satisfies (width height : Int) (step : OcrStep) :
    (ocrImage settings width height step).Satisfies (Activity.Within settings) fun _ => True := by
  refine (checkPixels_satisfies _ width height).bind fun _ hpixels => ?_
  refine (satisfies_call fun _ _ => trivial).bind fun _ (_ : True) => ?_
  have hwithin : Activity.Within settings (.recognised width height) := hpixels.2.2
  refine (satisfies_record hwithin).bind fun _ _ => ?_
  refine (satisfies_call fun _ _ => trivial).bind fun _ (_ : True) => ?_
  exact satisfies_pure trivial

/-! ## The loop over the pages -/

/-- One page, read while the budget is not overdrawn. -/
theorem readPage_satisfies {total : Int} (htotal : total ≤ settings.maxOcrChars) (page : PdfPage) :
    (readPage settings total page).Satisfies (Activity.Within settings) fun _ => True := by
  refine (satisfies_record trivial).bind fun _ _ => ?_
  refine (satisfies_call fun _ _ => trivial).bind fun _ (_ : True) => ?_
  refine (satisfies_call fun _ _ => trivial).bind fun _ (_ : True) => ?_
  have hbudget : Activity.Within settings (.budgeted (settings.maxOcrChars - total)) :=
    Int.sub_nonneg_of_le htotal
  refine (satisfies_record hbudget).bind fun _ _ => ?_
  refine (satisfies_call fun _ _ => trivial).bind fun count (_ : True) => ?_
  split
  · exact satisfies_raise _
  refine (satisfies_call fun _ _ => trivial).bind fun layer (_ : True) => ?_
  split
  · exact satisfies_pure trivial
  -- A page without text: the check comes before the bitmap.
  refine (checkPixels_satisfies _ _ _).bind fun _ hpixels => ?_
  have hrendered : Activity.Within settings
      (.rendered (renderedSide page.width) (renderedSide page.height)) :=
    rendered_within hpixels.1 hpixels.2.2
  refine (satisfies_record hrendered).bind fun _ _ => ?_
  refine (satisfies_call fun _ _ => trivial).bind fun _ (_ : True) => ?_
  refine (satisfies_call fun _ _ => trivial).bind fun _ (_ : True) => ?_
  refine (ocrImage_satisfies _ _ page.step).bind fun text _ => ?_
  exact satisfies_pure trivial

/-- **The loop keeps the budget**: it goes on to the next page only within the limit. The returned
entries are one for each page. -/
theorem extractPages_satisfies (pages : List PdfPage) {total : Int}
    (htotal : total ≤ settings.maxOcrChars) :
    (extractPages settings pages total).Satisfies (Activity.Within settings)
      fun read => read.length = pages.length := by
  induction pages generalizing total with
  | nil => exact satisfies_pure rfl
  | cons page pages ih =>
      refine (readPage_satisfies htotal page).bind fun read _ => ?_
      dsimp only
      split
      · exact satisfies_raise _
      · next hle =>
          refine (ih (not_lt.mp hle)).bind fun rest hrest => ?_
          exact satisfies_pure (by rw [List.length_cons, List.length_cons, hrest])

variable {count : Activity → Bool}

/-- The pixel check leaves no event. -/
theorem checkPixels_atMost (width height : Int) :
    (checkPixels settings width height).AtMost count 0 := by
  unfold checkPixels
  split
  · exact atMost_raise _
  · exact atMost_pure _

/-- The engine opens and renders no page. -/
theorem ocrImage_atMost (hcount : ∀ width height, count (.recognised width height) = false)
    (width height : Int) (step : OcrStep) :
    (ocrImage settings width height step).AtMost count 0 := by
  refine (checkPixels_atMost width height).bind_silent fun _ => ?_
  refine (atMost_call _).bind_silent fun _ => ?_
  refine ((atMost_record _).mono (by rw [hcount]; rfl)).bind_silent fun _ => ?_
  exact (atMost_call _).bind_silent fun _ => atMost_pure _

/-- A page is opened once and rendered at most once. -/
theorem readPage_atMost (hcount : count = Activity.isOpened ∨ count = Activity.isRendered)
    (total : Int) (page : PdfPage) : (readPage settings total page).AtMost count 1 := by
  have hsilent : (∀ remaining, count (.budgeted remaining) = false) ∧
      ∀ width height, count (.recognised width height) = false := by
    rcases hcount with rfl | rfl <;> exact ⟨fun _ => rfl, fun _ _ => rfl⟩
  have hpage : ∀ n, (if count (.rendered (renderedSide page.width) (renderedSide page.height)) = true
      then 1 else 0) ≤ n →
      (readPage settings total page).AtMost count ((if count .opened = true then 1 else 0) + n) := by
    intro n hn
    refine (atMost_record _).bind fun _ _ => ?_
    refine (atMost_call _).bind_silent fun _ => (atMost_call _).bind_silent fun _ => ?_
    refine ((atMost_record _).mono (by rw [hsilent.1]; rfl)).bind_silent fun _ => ?_
    refine (atMost_call _).bind_silent fun read => ?_
    split
    · exact (atMost_raise _).mono (Nat.zero_le _)
    refine (atMost_call _).bind_silent fun layer => ?_
    split
    · exact (atMost_pure _).mono (Nat.zero_le _)
    refine (checkPixels_atMost _ _).bind_silent fun _ => ?_
    refine ((atMost_record _).mono hn).then_silent fun _ => ?_
    refine (atMost_call _).bind_silent fun _ => (atMost_call _).bind_silent fun _ => ?_
    exact (ocrImage_atMost hsilent.2 _ _ _).bind_silent fun _ => atMost_pure _
  -- Either the opening counts or the rendering, never both.
  refine (hpage _ (Nat.le_refl _)).mono ?_
  rcases hcount with rfl | rfl <;> simp [Activity.isOpened, Activity.isRendered]

/-- The loop opens and renders at most as many pages as there are. -/
theorem extractPages_atMost (hcount : count = Activity.isOpened ∨ count = Activity.isRendered)
    (pages : List PdfPage) (total : Int) : (extractPages settings pages total).AtMost count pages.length := by
  induction pages generalizing total with
  | nil => exact atMost_pure _
  | cons page pages ih =>
      rw [List.length_cons, Nat.add_comm]
      refine (readPage_atMost hcount total page).bind fun read _ => ?_
      dsimp only
      split
      · exact (atMost_raise _).mono (Nat.zero_le _)
      · exact (ih _).bind fun rest _ => atMost_pure _

/-! ## Whole extractions -/

variable (settings)

/-- A PDF is read within the limits, and yields one entry for each of its pages. -/
theorem extractPdf_satisfies (hchars : 0 ≤ settings.maxOcrChars)
    (pdf : Except Exn (List PdfPage)) :
    (extractPdf settings pdf).Satisfies (Activity.Within settings)
      fun read => 1 ≤ read.2.length ∧ read.2.length ≤ settings.maxOcrPages := by
  refine Satisfies.mapError ?_ _
  refine (satisfies_call fun _ _ => trivial).bind fun pages (_ : True) => ?_
  split
  · next hpages =>
      refine (extractPages_satisfies pages hchars).bind fun read hread => satisfies_pure ?_
      rw [List.length_map, hread]
      exact hpages
  · exact satisfies_raise _

/-- An image is read within the limits, and counts as one page. Turning it does not change the
product of its sides. -/
theorem extractImage_satisfies (image : Except Exn ImageSource) :
    (extractImage settings image).Satisfies (Activity.Within settings)
      fun read => read.2.length = 1 := by
  refine Satisfies.mapError ?_ _
  refine (satisfies_call fun _ _ => trivial).bind fun source (_ : True) => ?_
  refine (checkPixels_satisfies _ _ _).bind fun _ hpixels => ?_
  have hdecoded : Activity.Within settings (.decoded source.width source.height) := hpixels.2.2
  have hturned : Activity.Within settings (.decoded
      (if source.turned then source.height else source.width : Nat)
      (if source.turned then source.width else source.height : Nat)) := by
    cases source.turned with
    | false => exact hpixels.2.2
    | true => exact (mul_comm (source.height : Int) source.width).trans_le hpixels.2.2
  split
  · refine (satisfies_record hdecoded).bind fun _ _ => ?_
    refine (satisfies_call fun _ _ => trivial).bind fun _ (_ : True) => ?_
    refine (satisfies_record hturned).bind fun _ _ => ?_
    refine (satisfies_call fun _ _ => trivial).bind fun _ (_ : True) => ?_
    exact (ocrImage_satisfies _ _ source.step).bind fun text _ => satisfies_pure rfl
  · exact satisfies_raise _

/-- An extraction opens and renders at most the permitted number of pages. -/
theorem extract_atMost (hcount : count = Activity.isOpened ∨ count = Activity.isRendered)
    (hpages : 1 ≤ settings.maxOcrPages) (mimeType : MimeType) (file : LocalFile) :
    (extract settings mimeType file).AtMost count settings.maxOcrPages.toNat := by
  have hpdf : (extractPdf settings file.pdf).AtMost count settings.maxOcrPages.toNat := by
    refine (atMost_call file.pdf).bind_silent fun pages => ?_
    split
    · next hlength =>
        refine ((extractPages_atMost hcount pages 0).mono (by omega)).then_silent fun read => ?_
        exact atMost_pure _
    · exact (atMost_raise _).mono (Nat.zero_le _)
  have hsilent : (∀ width height, count (.decoded width height) = false) ∧
      ∀ width height, count (.recognised width height) = false := by
    rcases hcount with rfl | rfl <;> exact ⟨fun _ _ => rfl, fun _ _ => rfl⟩
  have himage : (extractImage settings file.image).AtMost count 0 := by
    refine (atMost_call file.image).bind_silent fun source => ?_
    refine (checkPixels_atMost _ _).bind_silent fun _ => ?_
    split
    · refine ((atMost_record _).mono (by rw [hsilent.1]; rfl)).bind_silent fun _ => ?_
      refine (atMost_call _).bind_silent fun _ => ?_
      refine ((atMost_record _).mono (by rw [hsilent.1]; rfl)).bind_silent fun _ => ?_
      refine (atMost_call _).bind_silent fun _ => ?_
      exact (ocrImage_atMost hsilent.2 _ _ _).bind_silent fun _ => atMost_pure _
    · exact atMost_raise _
  have hend : ∀ read : Str × List PageMethod,
      (if settings.maxOcrChars < read.1.length then .raise (.permanent .textLimit)
      else pure ⟨withoutNul read.1, extractionInfo settings (withoutNul read.1) read.2⟩ :
        Extracting ExtractionResult).AtMost count 0 := by
    intro read
    split
    · exact atMost_raise _
    · exact atMost_pure _
  cases mimeType with
  | pdf => exact hpdf.then_silent hend
  | png => exact (himage.mono (Nat.zero_le _)).then_silent hend
  | jpeg => exact (himage.mono (Nat.zero_le _)).then_silent hend

/-- **Extraction respects its resource limits.** Whatever the file is and whatever the libraries and
the engine answer: every rendered bitmap and every image that is decoded or handed to the engine has
at most the permitted number of pixels, the budget of characters is never negative when it is used,
at most the permitted number of pages is opened and rendered, and a result has a text of permitted
length without NUL, and `pages` is the number of its `page_methods`, between one and the limit. -/
theorem extraction_within_limits (hpages : 1 ≤ settings.maxOcrPages)
    (hchars : 0 ≤ settings.maxOcrChars) (mimeType : MimeType) (file : LocalFile) :
    (∀ activity ∈ (extract settings mimeType file).events, activity.Within settings) ∧
    ((extract settings mimeType file).events.countP Activity.isOpened : Int) ≤
      settings.maxOcrPages ∧
    ((extract settings mimeType file).events.countP Activity.isRendered : Int) ≤
      settings.maxOcrPages ∧
    ∀ result, (extract settings mimeType file).result = .ok result →
      (result.text.length : Int) ≤ settings.maxOcrChars ∧ 0 ∉ result.text ∧
      ∃ methods : List Json, result.info.item (lit "page_methods") = some (.list methods) ∧
        result.info.item (lit "pages") = some (.int methods.length) ∧
        1 ≤ methods.length ∧ (methods.length : Int) ≤ settings.maxOcrPages := by
  have hread : (extractText settings mimeType file).Satisfies (Activity.Within settings)
      fun read => 1 ≤ read.2.length ∧ (read.2.length : Int) ≤ settings.maxOcrPages := by
    have himage : (extractImage settings file.image).Satisfies (Activity.Within settings)
        fun read => 1 ≤ read.2.length ∧ (read.2.length : Int) ≤ settings.maxOcrPages :=
      (extractImage_satisfies settings file.image).mono (fun _ h => h) fun read hone => by
        rw [hone]
        exact ⟨Nat.le_refl 1, hpages⟩
    cases mimeType with
    | pdf => exact extractPdf_satisfies settings hchars file.pdf
    | png => exact himage
    | jpeg => exact himage
  have hextract : (extract settings mimeType file).Satisfies (Activity.Within settings)
      fun result => (result.text.length : Int) ≤ settings.maxOcrChars ∧ 0 ∉ result.text ∧
        ∃ methods : List Json, result.info.item (lit "page_methods") = some (.list methods) ∧
          result.info.item (lit "pages") = some (.int methods.length) ∧
          1 ≤ methods.length ∧ (methods.length : Int) ≤ settings.maxOcrPages := by
    refine hread.bind fun read hmethods => ?_
    split
    · exact satisfies_raise _
    · next hle =>
        -- Removing NUL characters only shortens the text.
        have hshort : (withoutNul read.1).length ≤ read.1.length := List.length_filter_le _ _
        refine satisfies_pure ⟨by dsimp only; omega, by simp [withoutNul],
          read.2.map fun method => .str method.name, extractionInfo_page_methods .., ?_⟩
        rw [extractionInfo_pages, List.length_map]
        exact ⟨rfl, hmethods⟩
  have hopened := extract_atMost settings (.inl rfl) hpages mimeType file
  have hrendered := extract_atMost settings (.inr rfl) hpages mimeType file
  unfold AtMost at hopened hrendered
  exact ⟨hextract.events, by omega, by omega, hextract.result⟩

/-- The bounds on the sample file. -/
theorem extraction_within_limits_sample :
    (∀ activity ∈ (extract sampleSettings .pdf sampleFile).events,
      activity.Within sampleSettings) ∧
    ((extract sampleSettings .pdf sampleFile).events.countP Activity.isOpened : Int) ≤ 20 ∧
    ((extract sampleSettings .pdf sampleFile).events.countP Activity.isRendered : Int) ≤ 20 ∧
    ∀ result, (extract sampleSettings .pdf sampleFile).result = .ok result →
      (result.text.length : Int) ≤ 200000 ∧ 0 ∉ result.text ∧
      ∃ methods : List Json, result.info.item (lit "page_methods") = some (.list methods) ∧
        result.info.item (lit "pages") = some (.int methods.length) ∧
        1 ≤ methods.length ∧ (methods.length : Int) ≤ 20 :=
  extraction_within_limits sampleSettings (by decide) (by decide) .pdf sampleFile

end MiniDms
