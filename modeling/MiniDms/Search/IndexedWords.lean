import MiniDms.Python.EncodedWords
import MiniDms.Workflow.World

/-! # Is every stored word indexed as a word?

`Document.save` joins the text columns, the encodings of tags and metadata and the extracted text.
The words of the joined text are those of its parts. A part that is stored as it is keeps its words;
an encoded string glues the ending of the escape of a control character to the word behind it, so
that this word is indexed only if the document has it somewhere else. -/

namespace MiniDms

open Python Relational Sequences

/-! ## Normalizing ASCII -/

/-- The library functions on ASCII: NFKC leaves it alone, and `casefold` lower-cases it. -/
structure AsciiEnv (env : Env) : Prop where
  nfkc : ∀ s, Ascii s → env.nfkc s = s
  casefold : ∀ s, Ascii s → env.casefold s = s.map asciiLower

/-- The translation table leaves ASCII alone. -/
theorem translate_of_ascii {c : CodePoint} (h : c.val < 0x80) : translate c = c := by
  rw [translate, if_neg (by omega), if_neg (by omega), if_neg (by omega)]

/-- Normalizing ASCII lower-cases it. -/
theorem normalizeText_ascii {env : Env} (henv : AsciiEnv env) {s : Str} (hs : Ascii s) :
    normalizeText env s = s.map asciiLower := by
  have htranslate : s.map translate = s :=
    (List.map_congr_left fun c hc => translate_of_ascii (hs c hc)).trans (List.map_id' s)
  rw [normalizeText, henv.nfkc s hs, htranslate, henv.casefold s hs]

/-! ## The strings of a document -/

/-- The columns that are indexed as they are. -/
def Document.plainTexts (row : Document) : List Str :=
  [row.title, row.description, row.documentType, row.extractedText]

/-- The strings that are indexed through an encoding: tags, and the keys and strings of the metadata
at any depth. -/
def Document.encodedStrings (row : Document) : List Str := row.tags.strings ++ row.metadata.strings

/-- The texts of the other values in tags and metadata. -/
def Document.encodedAtoms (row : Document) : List Str := row.tags.atoms ++ row.metadata.atoms

/-- The strings of a document are ASCII. -/
def Document.AsciiOnly (row : Document) : Prop :=
  ∀ s ∈ row.plainTexts ++ row.encodedStrings, Ascii s

/-- Every word of every string of the document is indexed as a word. -/
def Document.WordsIndexed (row : Document) : Prop :=
  ∀ s ∈ row.plainTexts ++ row.encodedStrings, ∀ w, WordOf isAlnum s w →
    WordOf isAlnum row.searchText (w.map asciiLower)

/-- What is written as a word: a word of a plain text, a word of an encoded string together with the
escape ending right before it, or a word of a number or of a literal. -/
def Document.Writes (row : Document) (w : Str) : Prop :=
  (∃ s ∈ row.plainTexts, WordOf isAlnum s w) ∨
    (∃ s ∈ row.encodedStrings, GluedWord isAlnum Json.escapeEnding s w) ∨
      ∃ t ∈ row.encodedAtoms, WordOf isAlnum t w

/-- A word that stands directly after a control character. -/
def AfterControl (s w : Str) : Prop :=
  ∃ a c b, s = a ++ c :: (w ++ b) ∧ c.val < 0x20 ∧ w ≠ [] ∧ (∀ x ∈ w, isAlnum x = true) ∧
    ∀ x ∈ b.head?, isAlnum x = false

/-- Every word directly after a control character of an encoded string is written, in upper or lower
case, somewhere else. -/
def Document.ControlWordsWritten (row : Document) : Prop :=
  ∀ s ∈ row.encodedStrings, ∀ w, AfterControl s w →
    ∃ v, row.Writes v ∧ v.map asciiLower = w.map asciiLower

/-! ## The words of the search text -/

/-- The text before normalization. -/
def Document.joined (row : Document) : Str :=
  join (lit " ") [row.title, row.description, row.documentType, row.tags.dumps, row.metadata.dumps,
    row.extractedText]

/-- The words of the text are the words the document writes. -/
theorem Document.wordOf_joined_iff (row : Document) {w : Str} :
    WordOf isAlnum row.joined w ↔ row.Writes w := by
  rw [joined, join, wordOf_intercalate_iff (by decide) (by decide)]
  simp only [Writes, plainTexts, encodedStrings, encodedAtoms, List.exists_mem_cons_iff,
    List.not_mem_nil, false_and, exists_false, or_false, List.mem_append, or_and_right, exists_or,
    Json.wordOf_dumps_iff, Json.wordOf_escaped_iff]
  -- The same eight alternatives, in the order of the text and by the kind of string.
  simp only [or_assoc, or_left_comm, or_comm]

/-- The text of an ASCII document is ASCII. -/
theorem Document.AsciiOnly.joined {row : Document} (h : row.AsciiOnly) : Ascii row.joined := by
  have hplain : ∀ s ∈ row.plainTexts, Ascii s := fun s hs => h s (List.mem_append_left _ hs)
  have htags : Ascii row.tags.dumps := Json.ascii_dumps fun s hs =>
    h s (List.mem_append_right _ (List.mem_append_left _ hs))
  have hmetadata : Ascii row.metadata.dumps := Json.ascii_dumps fun s hs =>
    h s (List.mem_append_right _ (List.mem_append_right _ hs))
  have hjoin : ∀ parts : List Str, (∀ part ∈ parts, Ascii part) → Ascii (join (lit " ") parts) := by
    intro parts hparts
    induction parts with
    | nil => exact fun c hc => absurd hc List.not_mem_nil
    | cons part parts ih =>
        obtain ⟨hpart, hparts⟩ := List.forall_mem_cons.mp hparts
        cases parts with
        | nil => simpa [join, List.intercalate_singleton] using hpart
        | cons next parts =>
            rw [join, List.intercalate_cons_cons]
            intro c hc
            rcases List.mem_append.mp hc with hc | hc
            · rcases List.mem_append.mp hc with hc | hc
              · exact hpart c hc
              · exact (by decide : Ascii (lit " ")) c hc
            · exact ih hparts c hc
  refine hjoin _ ?_
  simp only [List.forall_mem_cons]
  exact ⟨hplain _ (by simp [plainTexts]), hplain _ (by simp [plainTexts]),
    hplain _ (by simp [plainTexts]), htags, hmetadata, hplain _ (by simp [plainTexts]),
    fun s hs => absurd hs List.not_mem_nil⟩

/-- The search text of a row is that of its other columns. -/
def Document.Searchable (env : Env) (row : Document) : Prop :=
  row.searchText = row.toDocumentColumns.searchable env row.extractedText

/-- **What is indexed as a word**: what the document writes, lower-cased. -/
theorem Document.wordOf_searchText_iff {env : Env} (henv : AsciiEnv env) {row : Document}
    (hsearch : row.Searchable env) (hascii : row.AsciiOnly) {w : Str} :
    WordOf isAlnum row.searchText w ↔ ∃ v, row.Writes v ∧ v.map asciiLower = w := by
  have htext : row.searchText = row.joined.map asciiLower :=
    hsearch.trans (normalizeText_ascii henv hascii.joined)
  rw [htext, wordOf_map_iff isAlnum_asciiLower]
  simp only [row.wordOf_joined_iff]

/-! ## Words after control characters -/

/-- A control character belongs to no word. -/
theorem isAlnum_of_control {c : CodePoint} (h : c.val < 0x20) : isAlnum c = false := by
  rw [Bool.eq_false_iff, ne_eq, isAlnum_iff]
  omega

/-- A word after a control character is a word. -/
theorem AfterControl.wordOf {s w : Str} (h : AfterControl s w) : WordOf isAlnum s w := by
  obtain ⟨a, c, b, rfl, hc, hne, hall, hb⟩ := h
  refine ⟨hne, hall, a ++ [c], b, by simp, fun x hx => ?_, hb⟩
  rw [List.getLast?_concat] at hx
  cases hx
  exact isAlnum_of_control hc

/-- **A word of an encoded string** stands after a control character or is written as it is. -/
theorem afterControl_or_glued {s w : Str} (h : WordOf isAlnum s w) :
    AfterControl s w ∨ GluedWord isAlnum Json.escapeEnding s w := by
  obtain ⟨hne, hall, a, b, rfl, ha, hb⟩ := h
  have hglued : (∀ c ∈ a.getLast?, Json.escapeEnding c = []) →
      GluedWord isAlnum Json.escapeEnding (a ++ (w ++ b)) w := fun hend => by
    refine ⟨hne, a, w, b, rfl, hall, ha, hb, ?_⟩
    cases hlast : a.getLast? with
    | none => rfl
    | some c => rw [Option.elim_some, hend c hlast, List.nil_append]
  cases hlast : a.getLast? with
  | none => exact .inr (hglued fun c hc => by rw [hlast] at hc; cases hc)
  | some c =>
      by_cases hc : c.val < 0x20
      · obtain ⟨init, rfl⟩ := List.getLast?_eq_some_iff.mp hlast
        exact .inl ⟨init, c, b, by simp, hc, hne, hall, hb⟩
      · refine .inr (hglued fun d hd => ?_)
        rw [hlast] at hd
        cases hd
        exact if_neg hc

/-! ## Saved documents -/

/-- **A save leaves a searchable row.** -/
theorem DocumentObject.searchable_of_save {env : Env} {db db' : Db} {now : Timestamp}
    {document saved : DocumentObject} (h : document.save env db now = .ok (db', saved))
    {row : Document} (hrow : db'.documents.find document.id = some row) : row.Searchable env := by
  obtain ⟨text, -, rfl⟩ := DocumentObject.of_save h
  rw [Db.putDocument_documents, Table.find_put, Document.indexed_columns, if_pos rfl] at hrow
  cases hrow
  rfl

/-- **When every stored word is indexed as a word**: exactly when every word directly after a control
character of a tag, a key or a string of the metadata is also written somewhere else. -/
theorem wordsIndexed_iff {env : Env} (henv : AsciiEnv env) {db db' : Db} {now : Timestamp}
    {document saved : DocumentObject} (hsave : document.save env db now = .ok (db', saved))
    {row : Document} (hrow : db'.documents.find document.id = some row)
    (hascii : row.AsciiOnly) : row.WordsIndexed ↔ row.ControlWordsWritten := by
  have hindexed : ∀ w, WordOf isAlnum row.searchText w ↔
      ∃ v, row.Writes v ∧ v.map asciiLower = w := fun w =>
    Document.wordOf_searchText_iff henv (DocumentObject.searchable_of_save hsave hrow) hascii
  constructor
  · intro h s hs w hw
    exact (hindexed _).mp (h s (List.mem_append_right _ hs) w hw.wordOf)
  · intro h s hs w hw
    refine (hindexed _).mpr ?_
    rcases List.mem_append.mp hs with hs | hs
    · exact ⟨w, .inl ⟨s, hs, hw⟩, rfl⟩
    · rcases afterControl_or_glued hw with hcontrol | hglued
      · exact h s hs w hcontrol
      · exact ⟨w, .inr (.inl ⟨s, hs, hglued⟩), rfl⟩

/-! ## Two documents with a line feed in a tag -/

/-- The sample functions are plain on ASCII. -/
theorem asciiEnv_sampleEnv : AsciiEnv sampleEnv := ⟨fun _ _ => rfl, fun _ _ => rfl⟩

/-- A document with a given title and one tag, not indexed yet. -/
def taggedRow (title tag : Str) : Document where
  toDocumentColumns :=
    { (Upload.enter sampleEnv sampleUser sampleData none 100).document ⟨1, 2, 3⟩ (.requested 7 1 2)
        1000 with title := title, tags := .list [.str tag] }
  extractedText := []
  searchText := []
  searchVector := none

/-- The row its save leaves. -/
def savedRow (title tag : Str) : Document :=
  .indexed sampleEnv { (taggedRow title tag).toDocumentColumns with updatedAt := 2000 } []

/-- Saving the document over its row. -/
theorem save_taggedRow (title tag : Str) : ∃ saved,
    (taggedRow title tag).load.save sampleEnv (Db.empty.putDocument (taggedRow title tag)) 2000 =
      .ok ((Db.empty.putDocument (taggedRow title tag)).putDocument (savedRow title tag), saved) := by
  have hfind : (Db.empty.putDocument (taggedRow title tag)).documents.find
      (taggedRow title tag).id = some (taggedRow title tag) := by
    rw [Db.putDocument_documents, Table.find_put, if_pos rfl]
  exact ⟨_, DocumentObject.save_loaded hfind⟩

/-- The saved row is found. -/
theorem find_savedRow (title tag : Str) (db : Db) :
    (db.putDocument (savedRow title tag)).documents.find (taggedRow title tag).load.id =
      some (savedRow title tag) := by
  rw [Db.putDocument_documents, Table.find_put]
  exact if_pos rfl

/-- The word behind the line feed is a word of the title, too. -/
theorem wordsIndexed_iff_sample : (savedRow (lit "Tab") (lit "the\ntab")).WordsIndexed := by
  obtain ⟨saved, hsave⟩ := save_taggedRow (lit "Tab") (lit "the\ntab")
  have hascii : (savedRow (lit "Tab") (lit "the\ntab")).AsciiOnly := by
    intro s hs
    exact (by decide : ∀ s ∈ (savedRow (lit "Tab") (lit "the\ntab")).plainTexts ++
      (savedRow (lit "Tab") (lit "the\ntab")).encodedStrings, Ascii s) s hs
  refine (wordsIndexed_iff asciiEnv_sampleEnv hsave (find_savedRow _ _ _) hascii).mpr ?_
  intro s hs w hw
  obtain rfl : s = lit "the\ntab" :=
    (by decide : ∀ s ∈ (savedRow (lit "Tab") (lit "the\ntab")).encodedStrings,
      s = lit "the\ntab") s hs
  have hword : w ∈ words isAlnum (lit "the\ntab") := mem_words_iff.mpr hw.wordOf
  have hwords : words isAlnum (lit "the\ntab") = [lit "the", lit "tab"] := by decide
  rw [hwords] at hword
  rcases List.mem_pair.mp hword with rfl | rfl
  · have hfirst : ∀ x ∈ (lit "\ntab").head?, isAlnum x = false := fun x hx => by
      cases hx
      decide
    exact ⟨lit "the", .inr (.inl ⟨_, hs, by decide, [], lit "the", lit "\ntab", rfl, by decide,
      by simp, hfirst, rfl⟩), rfl⟩
  · exact ⟨lit "Tab", .inl ⟨lit "Tab", by decide, by decide⟩, by decide⟩

/-- A word behind a line feed that stands nowhere else is not indexed. -/
theorem lineFeed_word_not_indexed : ¬ ∀ (env : Env) (db db' : Db) (now : Timestamp)
    (document saved : DocumentObject) (row : Document), AsciiEnv env →
    document.save env db now = .ok (db', saved) → db'.documents.find document.id = some row →
    row.AsciiOnly → row.WordsIndexed := by
  intro h
  obtain ⟨saved, hsave⟩ := save_taggedRow (lit "Invoice") (lit "a\nb")
  have hascii : (savedRow (lit "Invoice") (lit "a\nb")).AsciiOnly := by
    intro s hs
    exact (by decide : ∀ s ∈ (savedRow (lit "Invoice") (lit "a\nb")).plainTexts ++
      (savedRow (lit "Invoice") (lit "a\nb")).encodedStrings, Ascii s) s hs
  have hindexed := h sampleEnv _ _ 2000 _ saved _ asciiEnv_sampleEnv hsave (find_savedRow _ _ _)
    hascii (lit "a\nb") (by decide) (lit "b") (by decide)
  exact absurd hindexed (by decide +kernel)

end MiniDms
