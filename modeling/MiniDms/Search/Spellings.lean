import MiniDms.Documents.Models
import MiniDms.Unicode.Normalization

/-! # Do Arabic and Persian spellings search alike?

`normalize_text` translates Arabic yeh and kaf and the zero-width non-joiner after NFKC. NFKC leaves
kaf and the joiner alone, but it composes an Arabic yeh with a hamza above it, and the composite is not
translated: spellings normalize alike exactly when no yeh that is replaced takes a hamza. -/

namespace MiniDms

open Python Unicode

/-! ## Spellings -/

/-- U+064A. -/
def arabicYeh : CodePoint := 0x064A

/-- U+06CC. -/
def persianYeh : CodePoint := 0x06CC

/-- U+0643. -/
def arabicKaf : CodePoint := 0x0643

/-- U+06A9. -/
def keheh : CodePoint := 0x06A9

/-- U+200C. -/
def zeroWidthNonJoiner : CodePoint := 0x200C

/-- U+0020. -/
def space : CodePoint := 0x20

/-- U+0654. -/
def hamzaAbove : CodePoint := 0x0654

/-- U+0626. -/
def yehWithHamza : CodePoint := 0x0626

/-- A character and what it may be replaced by. -/
inductive Varies : CodePoint → CodePoint → Prop
  | same (c : CodePoint) : Varies c c
  | yeh : Varies arabicYeh persianYeh
  | kaf : Varies arabicKaf keheh
  | joiner : Varies zeroWidthNonJoiner space

/-- The second text is the first with any set of occurrences replaced. -/
def Respelled (s t : Str) : Prop := List.Forall₂ Varies s t

/-- What the character database says of these characters: none of them is decomposed, carries a
combining class or composes, except that Arabic yeh and hamza above have a composite. -/
structure StandardTables (u : Tables CodePoint) : Prop where
  persianYeh : u.Cuts persianYeh
  arabicKaf : u.Cuts arabicKaf
  keheh : u.Cuts keheh
  zeroWidthNonJoiner : u.Cuts zeroWidthNonJoiner
  space : u.Cuts space
  yeh_whole : u.decompose arabicYeh = [arabicYeh]
  yeh_starter : u.combining arabicYeh = 0
  yeh_notSecond : ∀ c, u.compose c arabicYeh = none
  yeh_takes : u.Takes arabicYeh hamzaAbove yehWithHamza
  hamza_class : u.combining hamzaAbove = 230

/-- `unicodedata.normalize` and `str.casefold` with these tables; folding goes character by character,
keeps the space, and makes no yeh with hamza of anything else. -/
structure StandardEnv (env : Env) (u : Tables CodePoint) (fold : CodePoint → Str) : Prop where
  tables : StandardTables u
  nfkc : ∀ s, env.nfkc s = u.nfkc s
  casefold : ∀ s, env.casefold s = s.flatMap fold
  fold_space : fold MiniDms.space = [MiniDms.space]
  fold_yeh : ∀ c, (fold c).count yehWithHamza = if c = yehWithHamza then 1 else 0

variable {u : Tables CodePoint}

/-- Replacing a character keeps its combining class. -/
theorem Varies.combining {c d : CodePoint} (h : Varies c d) (hu : StandardTables u) :
    u.combining c = u.combining d := by
  cases h with
  | same => rfl
  | yeh => rw [hu.yeh_starter, hu.persianYeh.starter]
  | kaf => rw [hu.arabicKaf.starter, hu.keheh.starter]
  | joiner => rw [hu.zeroWidthNonJoiner.starter, hu.space.starter]

/-- Marks are not replaced. -/
theorem Varies.eq_of_mark {c d : CodePoint} (h : Varies c d) (hu : StandardTables u)
    (hc : u.combining c ≠ 0) : c = d := by
  cases h with
  | same => rfl
  | yeh => exact absurd hu.yeh_starter hc
  | kaf => exact absurd hu.arabicKaf.starter hc
  | joiner => exact absurd hu.zeroWidthNonJoiner.starter hc

/-- Both characters are translated to the same. -/
theorem Varies.translate {c d : CodePoint} (h : Varies c d) :
    MiniDms.translate c = MiniDms.translate d := by
  cases h with
  | same => rfl
  | yeh | kaf | joiner => decide

/-! ## The letters that are composed -/

/-- How many replaced letters take a hamza from the text behind them. -/
def takenHamzas (u : Tables CodePoint) : Str → Str → Nat
  | c :: s, d :: t =>
      (if c = arabicYeh ∧ d = persianYeh ∧ u.markOfClass 230 s = some hamzaAbove then 1 else 0) +
        takenHamzas u s t
  | _, _ => 0

/-- A character that is not replaced takes nothing more than before. -/
theorem takenHamzas_same (c : CodePoint) (s t : Str) :
    takenHamzas u (c :: s) (c :: t) = takenHamzas u s t := by
  rw [takenHamzas, if_neg, Nat.zero_add]
  rintro ⟨hc, hd, -⟩
  exact absurd (hc.symm.trans hd) (by decide)

/-- A common beginning takes no hamza. -/
theorem takenHamzas_append (p s t : Str) :
    takenHamzas u (p ++ s) (p ++ t) = takenHamzas u s t := by
  induction p with
  | nil => rfl
  | cons c p ih => rw [List.cons_append, List.cons_append, takenHamzas_same, ih]

/-! ## Ordering -/

/-- Respelled texts are ordered alike. -/
theorem respelled_insertMark (hu : StandardTables u) {c d : CodePoint} (hcd : Varies c d) {s t : Str}
    (h : Respelled s t) : Respelled (u.insertMark c s) (u.insertMark d t) ∧
      takenHamzas u (u.insertMark c s) (u.insertMark d t) = takenHamzas u (c :: s) (d :: t) := by
  induction h with
  | nil => exact ⟨.cons hcd .nil, rfl⟩
  | @cons a b s t hab h ih =>
      rw [Tables.insertMark, Tables.insertMark, ← hcd.combining hu, ← hab.combining hu]
      split_ifs with hlt
      · refine ⟨.cons hab ih.1, ?_⟩
        -- Both are marks, and marks are not replaced.
        obtain rfl : a = b := hab.eq_of_mark hu hlt.1
        obtain rfl : c = d := hcd.eq_of_mark hu (by omega)
        rw [takenHamzas_same, ih.2, takenHamzas_same, takenHamzas_same, takenHamzas_same]
      · exact ⟨.cons hcd (.cons hab h), rfl⟩

/-- Canonical ordering keeps two texts respelled, and the hamzas that are taken. -/
theorem respelled_reorder (hu : StandardTables u) {s t : Str} (h : Respelled s t) :
    Respelled (u.reorder s) (u.reorder t) ∧
      takenHamzas u (u.reorder s) (u.reorder t) = takenHamzas u s t := by
  induction h with
  | nil => exact ⟨.nil, rfl⟩
  | @cons c d s t hcd h ih =>
      obtain ⟨hrespelled, htaken⟩ := respelled_insertMark hu hcd ih.1
      refine ⟨hrespelled, ?_⟩
      rw [Tables.reorder, Tables.reorder, htaken, takenHamzas, takenHamzas, ih.2,
        Tables.markOfClass_reorder]

/-! ## Composing -/

/-- Two texts that differ by `n` yehs with hamza, and not at all once translated when `n` is zero. -/
structure DifferBy (n : Nat) (s t : Str) : Prop where
  count : s.count yehWithHamza = t.count yehWithHamza + n
  same : n = 0 → s.map translate = t.map translate

/-- A common beginning counts no difference. -/
theorem DifferBy.prepend {n : Nat} {s t : Str} (h : DifferBy n s t) (p : Str) :
    DifferBy n (p ++ s) (p ++ t) where
  count := by rw [List.count_append, List.count_append, h.count, Nat.add_assoc]
  same hn := by rw [List.map_append, List.map_append, h.same hn]

/-- A replaced character in front. -/
theorem DifferBy.cons {n : Nat} {s t : Str} (h : DifferBy n s t) {c d : CodePoint}
    (hcd : Varies c d) : DifferBy n (c :: s) (d :: t) where
  count := by
    cases hcd with
    | same => rw [List.count_cons, List.count_cons, h.count]; omega
    | yeh | kaf | joiner =>
        rw [List.count_cons_of_ne (by decide), List.count_cons_of_ne (by decide), h.count]
  same hn := by rw [List.map_cons, List.map_cons, h.same hn, hcd.translate]

/-- **A replaced letter and what follows it**: when the letter takes a hamza, the texts differ by its
composite. -/
theorem differBy_replaced (hu : StandardTables u) {c d : CodePoint} (hcd : Varies c d) (hne : c ≠ d)
    {n : Nat} {s t : Str} (hs : u.Ordered n s) (hn : n = 0)
    (h : DifferBy (takenHamzas u s t) (u.composeAll s) (u.composeAll t)) :
    DifferBy (takenHamzas u (c :: s) (d :: t)) (u.composeFrom c [] 0 s)
      (u.composeFrom d [] 0 t) := by
  subst hn
  cases hcd with
  | same => contradiction
  | kaf =>
      rw [Tables.composeFrom_of_inert hu.arabicKaf.inert, Tables.composeFrom_of_inert hu.keheh.inert,
        takenHamzas, if_neg (fun h => absurd h.1 (by decide)), Nat.zero_add]
      exact h.cons .kaf
  | joiner =>
      rw [Tables.composeFrom_of_inert hu.zeroWidthNonJoiner.inert,
        Tables.composeFrom_of_inert hu.space.inert, takenHamzas,
        if_neg (fun h => absurd h.1 (by decide)), Nat.zero_add]
      exact h.cons .joiner
  | yeh =>
      have hclass : u.combining hamzaAbove = 230 := hu.hamza_class
      have htakes := hu.yeh_takes.composeFrom [] (by omega) hs
      rw [hclass] at htakes
      rw [htakes, Tables.composeFrom_of_inert hu.persianYeh.inert, takenHamzas]
      by_cases hmark : u.markOfClass 230 s = some hamzaAbove
      · rw [if_pos hmark, if_pos ⟨rfl, rfl, hmark⟩]
        refine ⟨?_, fun hzero => absurd hzero (by omega)⟩
        have herase : ((u.composeAll s).erase hamzaAbove).count yehWithHamza =
            (u.composeAll s).count yehWithHamza :=
          List.count_erase_of_ne (by decide)
        rw [List.singleton_append, List.count_cons_self, herase, List.singleton_append,
          List.count_cons_of_ne (by decide), h.count]
        omega
      · rw [if_neg hmark, if_neg (fun h => hmark h.2.2), Nat.zero_add]
        exact h.cons .yeh

/-- A replaced character starts the composition anew. -/
theorem Varies.starts {c d : CodePoint} (h : Varies c d) (hu : StandardTables u) (hne : c ≠ d)
    (e : CodePoint) (he : e = c ∨ e = d) : u.combining e = 0 ∧ ∀ a, u.compose a e = none := by
  cases h with
  | same => contradiction
  | yeh =>
      rcases he with rfl | rfl
      · exact ⟨hu.yeh_starter, hu.yeh_notSecond⟩
      · exact ⟨hu.persianYeh.starter, hu.persianYeh.notSecond⟩
  | kaf =>
      rcases he with rfl | rfl
      · exact ⟨hu.arabicKaf.starter, hu.arabicKaf.notSecond⟩
      · exact ⟨hu.keheh.starter, hu.keheh.notSecond⟩
  | joiner =>
      rcases he with rfl | rfl
      · exact ⟨hu.zeroWidthNonJoiner.starter, hu.zeroWidthNonJoiner.notSecond⟩
      · exact ⟨hu.space.starter, hu.space.notSecond⟩

/-- In front of such a character the composition ends. -/
theorem composeFrom_of_starts {e : CodePoint} (he : u.combining e = 0 ∧ ∀ a, u.compose a e = none)
    (a : CodePoint) (kept : Str) (last : Nat) (s : Str) :
    u.composeFrom a kept last (e :: s) = a :: kept ++ u.composeFrom e [] 0 s := by
  rw [Tables.composeFrom, he.2, ite_self]
  dsimp only
  rw [if_pos he.1]

/-- **Respelled texts are composed alike**, up to the letters that take a hamza. The induction is on
the texts, both behind any starter and at the beginning. -/
theorem differBy_compose (hu : StandardTables u) {s t : Str} (h : Respelled s t) {n : Nat}
    (hs : u.Ordered n s) :
    (∀ a kept last, DifferBy (takenHamzas u s t) (u.composeFrom a kept last s)
      (u.composeFrom a kept last t)) ∧
      DifferBy (takenHamzas u s t) (u.composeAll s) (u.composeAll t) := by
  induction h generalizing n with
  | nil => exact ⟨fun a kept last => ⟨rfl, fun _ => rfl⟩, rfl, fun _ => rfl⟩
  | @cons c d s t hcd h ih =>
      obtain ⟨hfrom, hall⟩ := ih hs.2
      by_cases hne : c = d
      · subst hne
        rw [takenHamzas_same]
        constructor
        · intro a kept last
          rw [Tables.composeFrom, Tables.composeFrom]
          split
          · exact hfrom _ _ _
          · split_ifs
            · exact (hfrom c [] 0).prepend (a :: kept)
            · exact hfrom _ _ _
        · rw [Tables.composeAll, Tables.composeAll]
          split_ifs
          · exact hfrom c [] 0
          · exact hall.cons (.same c)
      · have hc := hcd.starts hu hne c (.inl rfl)
        have hd := hcd.starts hu hne d (.inr rfl)
        have hreplaced := differBy_replaced hu hcd hne hs.2 hc.1 hall
        constructor
        · intro a kept last
          rw [composeFrom_of_starts hc, composeFrom_of_starts hd]
          exact hreplaced.prepend (a :: kept)
        · rw [Tables.composeAll, Tables.composeAll, if_pos hc.1, if_pos hd.1]
          exact hreplaced

/-! ## Decomposing -/

/-- The text behind a letter begins with marks of which hamza above is the first of class 230. -/
def HamzaFollows (u : Tables CodePoint) (s : Str) : Prop :=
  u.markOfClass 230 (s.flatMap u.decompose) = some hamzaAbove

/-- No replaced yeh is followed by a hamza. -/
def NoHamzaTaken (u : Tables CodePoint) (s t : Str) : Prop :=
  ∀ before after, s = before ++ arabicYeh :: after → t[before.length]? = some persianYeh →
    ¬ HamzaFollows u after

/-- No hamza is taken from a text exactly when none is taken at its first letter or behind it. -/
theorem noHamzaTaken_cons (c d : CodePoint) (s t : Str) : NoHamzaTaken u (c :: s) (d :: t) ↔
    ¬ (c = arabicYeh ∧ d = persianYeh ∧ HamzaFollows u s) ∧ NoHamzaTaken u s t := by
  constructor
  · intro h
    refine ⟨?_, ?_⟩
    · rintro ⟨rfl, rfl, hfollows⟩
      exact h [] s rfl rfl hfollows
    · intro before after hs ht
      exact h (c :: before) after (by rw [hs, List.cons_append]) (by simpa using ht)
  · rintro ⟨hhead, htail⟩ before after hs ht hfollows
    cases before with
    | nil =>
        obtain ⟨rfl, rfl⟩ := List.cons.inj hs
        exact hhead ⟨rfl, Option.some.inj ht, hfollows⟩
    | cons e before =>
        obtain ⟨rfl, rfl⟩ := List.cons.inj hs
        exact htail before after rfl (by simpa using ht) hfollows

/-- **Respelled texts are decomposed alike**, and a letter takes a hamza that follows it. -/
theorem respelled_decompose (hu : StandardTables u) {s t : Str} (h : Respelled s t) :
    Respelled (s.flatMap u.decompose) (t.flatMap u.decompose) ∧
      (takenHamzas u (s.flatMap u.decompose) (t.flatMap u.decompose) = 0 ↔ NoHamzaTaken u s t) := by
  induction h with
  | nil =>
      refine ⟨.nil, fun _ before after hs => ?_, fun _ => rfl⟩
      exact absurd hs (by simp)
  | @cons c d s t hcd h ih =>
      obtain ⟨hrespelled, htaken⟩ := ih
      rw [List.flatMap_cons, List.flatMap_cons, noHamzaTaken_cons]
      -- A replaced character is its own decomposition.
      have hreplaced : ∀ {a b : CodePoint}, Varies a b → u.decompose a = [a] → u.decompose b = [b] →
          Respelled (u.decompose a ++ s.flatMap u.decompose) (u.decompose b ++ t.flatMap u.decompose) ∧
          (takenHamzas u (u.decompose a ++ s.flatMap u.decompose)
            (u.decompose b ++ t.flatMap u.decompose) = 0 ↔
              ¬ (a = arabicYeh ∧ b = persianYeh ∧ HamzaFollows u s) ∧ NoHamzaTaken u s t) := by
        intro a b hab ha hb
        rw [ha, hb, List.singleton_append, List.singleton_append, takenHamzas, ← htaken]
        refine ⟨.cons hab hrespelled, ?_⟩
        unfold HamzaFollows
        split_ifs with hyeh
        · exact ⟨fun h => absurd h (by omega), fun h => absurd hyeh h.1⟩
        · rw [Nat.zero_add]
          exact ⟨fun h => ⟨hyeh, h⟩, fun h => h.2⟩
      cases hcd with
      | yeh => exact hreplaced .yeh hu.yeh_whole hu.persianYeh.whole
      | kaf => exact hreplaced .kaf hu.arabicKaf.whole hu.keheh.whole
      | joiner => exact hreplaced .joiner hu.zeroWidthNonJoiner.whole hu.space.whole
      | same =>
          rw [takenHamzas_append, htaken]
          have hno : ¬ (c = arabicYeh ∧ c = persianYeh ∧ HamzaFollows u s) := by
            rintro ⟨hc, hc', -⟩
            exact absurd (hc.symm.trans hc') (by decide)
          exact ⟨List.rel_append (List.forall₂_same.mpr fun a _ => .same a) hrespelled,
            fun h => ⟨hno, h⟩, fun h => h.2⟩

/-! ## Normalizing -/

/-- **NFKC of respelled texts.** -/
theorem differBy_nfkc (hu : StandardTables u) {s t : Str} (h : Respelled s t) :
    ∃ n, DifferBy n (u.nfkc s) (u.nfkc t) ∧ (n = 0 ↔ NoHamzaTaken u s t) := by
  obtain ⟨hdecomposed, hzero⟩ := respelled_decompose hu h
  obtain ⟨hordered, htaken⟩ := respelled_reorder hu hdecomposed
  refine ⟨_, (differBy_compose hu hordered (Tables.ordered_reorder _)).2, ?_⟩
  rw [htaken]
  exact hzero

/-- Translating and folding keep the yehs with hamza. -/
theorem count_fold {env : Env} {fold : CodePoint → Str} (henv : StandardEnv env u fold) (s : Str) :
    ((s.map translate).flatMap fold).count yehWithHamza = s.count yehWithHamza := by
  have htranslate : ∀ c, translate c = yehWithHamza ↔ c = yehWithHamza := by
    intro c
    constructor
    · unfold translate
      split_ifs
      · intro h; exact absurd h (by decide)
      · intro h; exact absurd h (by decide)
      · intro h; exact absurd h (by decide)
      · exact id
    · rintro rfl
      decide
  induction s with
  | nil => rfl
  | cons c s ih =>
      rw [List.map_cons, List.flatMap_cons, List.count_append, ih, henv.fold_yeh, List.count_cons]
      simp only [htranslate, beq_iff_eq]
      omega

/-- `normalize_text` under the standard. -/
theorem normalizeText_eq {env : Env} {fold : CodePoint → Str} (henv : StandardEnv env u fold)
    (s : Str) : normalizeText env s = ((u.nfkc s).map translate).flatMap fold := by
  rw [normalizeText, henv.nfkc, henv.casefold]

/-- A text is normalized piece by piece between spaces. -/
theorem normalizeText_append {env : Env} {fold : CodePoint → Str} (henv : StandardEnv env u fold)
    (s t : Str) : normalizeText env (s ++ space :: t) =
      normalizeText env s ++ space :: normalizeText env t := by
  have hspace : translate space = space := by decide
  rw [normalizeText_eq henv, normalizeText_eq henv, normalizeText_eq henv,
    Tables.nfkc_append henv.tables.space, List.map_append, List.map_cons, hspace,
    List.flatMap_append, List.flatMap_cons, henv.fold_space, List.singleton_append]

/-- Joined texts are normalized one by one. -/
theorem normalizeText_join {env : Env} {fold : CodePoint → Str} (henv : StandardEnv env u fold)
    (first : Str) (parts : List Str) : normalizeText env (join (lit " ") (first :: parts)) =
      join (lit " ") ((first :: parts).map (normalizeText env)) := by
  have hcons : ∀ (a b : Str) (rest : List Str), join (lit " ") (a :: b :: rest) =
      a ++ space :: join (lit " ") (b :: rest) := by
    intro a b rest
    have hlit : lit " " = [space] := by decide
    rw [join, List.intercalate_cons_cons, hlit, List.append_assoc, List.singleton_append, join]
  induction parts generalizing first with
  | nil => rw [List.map_singleton, join, join, List.intercalate_singleton, List.intercalate_singleton]
  | cons part parts ih =>
      rw [hcons, normalizeText_append henv, ih]
      simp only [List.map_cons]
      rw [hcons]

/-- **The indexed text of a document** consists of its normalized parts. -/
theorem searchable_eq {env : Env} {fold : CodePoint → Str} (henv : StandardEnv env u fold)
    (columns : DocumentColumns) (extractedText : Str) : columns.searchable env extractedText =
      join (lit " ") ([columns.title, columns.description, columns.documentType, columns.tags.dumps,
        columns.metadata.dumps, extractedText].map (normalizeText env)) :=
  normalizeText_join henv _ _

/-- **When spellings search alike**: a text and a respelling of it are normalized alike exactly when
no replaced yeh is followed, among its marks, by a hamza above as the first of class 230. Then the
respelling of a phrase within a longer text, such as the indexed text of a document, normalizes to
the words that stand there. -/
theorem spellings_alike_iff {env : Env} {fold : CodePoint → Str} (henv : StandardEnv env u fold)
    {s t : Str} (h : Respelled s t) :
    (normalizeText env s = normalizeText env t ↔ NoHamzaTaken u s t) ∧
      (NoHamzaTaken u s t → ∀ before after,
        normalizeText env (before ++ space :: s ++ space :: after) =
          normalizeText env before ++ space :: normalizeText env t ++
            space :: normalizeText env after) := by
  obtain ⟨n, hdiffer, hzero⟩ := differBy_nfkc henv.tables h
  have halike : NoHamzaTaken u s t → normalizeText env s = normalizeText env t := by
    intro hno
    rw [normalizeText_eq henv, normalizeText_eq henv, hdiffer.same (hzero.mpr hno)]
  refine ⟨⟨fun heq => ?_, halike⟩, fun hno before after => ?_⟩
  · have hcount := hdiffer.count
    rw [← count_fold henv, ← count_fold henv (u.nfkc t), ← normalizeText_eq henv,
      ← normalizeText_eq henv, heq] at hcount
    exact hzero.mp (by omega)
  · rw [normalizeText_append henv, normalizeText_append henv, halike hno]

/-! ## A phrase and a word

The tables of the sample cover the Arabic letters that are composed with a mark. -/

/-- A letter, a mark and their composite. -/
structure Composition where
  letter : CodePoint
  mark : CodePoint
  composite : CodePoint

/-- The Arabic letters that compose with a madda or a hamza. -/
def arabicComposites : List Composition :=
  [⟨0x0627, 0x0653, 0x0622⟩, ⟨0x0627, 0x0654, 0x0623⟩, ⟨0x0648, 0x0654, 0x0624⟩,
    ⟨0x0627, 0x0655, 0x0625⟩, ⟨0x064A, 0x0654, 0x0626⟩, ⟨0x06D5, 0x0654, 0x06C0⟩,
    ⟨0x06C1, 0x0654, 0x06C2⟩, ⟨0x06D2, 0x0654, 0x06D3⟩]

/-- The marks from fathatan to hamza below, and the superscript alef. -/
def arabicClasses : List (CodePoint × Nat) :=
  [(0x064B, 27), (0x064C, 28), (0x064D, 29), (0x064E, 30), (0x064F, 31), (0x0650, 32), (0x0651, 33),
    (0x0652, 34), (0x0653, 230), (0x0654, 230), (0x0655, 220), (0x0670, 35)]

/-- The tables of the Unicode standard on the Arabic letters of the sample. -/
def arabicTables : Tables CodePoint where
  decompose c :=
    match arabicComposites.find? fun e => e.composite = c with
    | some e => [e.letter, e.mark]
    | none => [c]
  combining c := (arabicClasses.lookup c).getD 0
  compose c d := (arabicComposites.find? fun e => e.letter = c ∧ e.mark = d).map fun e => e.composite

/-- Letters outside ASCII are not folded here. -/
def foldAscii (c : CodePoint) : Str := if 65 ≤ c.val ∧ c.val ≤ 90 then [c + 32] else [c]

/-- The library functions on the texts of the sample. -/
def spellingEnv : Env where
  nfkc := arabicTables.nfkc
  casefold s := s.flatMap foldAscii
  toTsvector _ := []
  sha256 _ := []

/-- What is not listed does not compose. -/
theorem arabicTables_compose_eq_none {c d : CodePoint}
    (h : ∀ e ∈ arabicComposites, e.letter = c → e.mark ≠ d) : arabicTables.compose c d = none := by
  have hnone : (arabicComposites.find? fun e => e.letter = c ∧ e.mark = d) = none := by
    rw [List.find?_eq_none]
    intro e he hcd
    obtain ⟨hc, hd⟩ := of_decide_eq_true hcd
    exact h e he hc hd
  show ((arabicComposites.find? fun e => e.letter = c ∧ e.mark = d).map fun e => e.composite) = none
  rw [hnone]
  rfl

/-- A character without decomposition, class and composites. -/
theorem arabicTables_cuts {c : CodePoint} (hwhole : arabicTables.decompose c = [c])
    (hstarter : arabicTables.combining c = 0) (h : ∀ e ∈ arabicComposites, e.letter ≠ c ∧ e.mark ≠ c) :
    arabicTables.Cuts c where
  whole := hwhole
  starter := hstarter
  inert _ := arabicTables_compose_eq_none fun e he hc => absurd hc (h e he).1
  notSecond _ := arabicTables_compose_eq_none fun e he _ => (h e he).2

/-- Yeh is composed with hamza above and nothing else. -/
theorem arabicTables_takes : arabicTables.Takes arabicYeh hamzaAbove yehWithHamza where
  compose d := by
    by_cases hd : d = hamzaAbove
    · subst hd
      rw [if_pos rfl]
      decide
    · rw [if_neg hd]
      have honly : ∀ e ∈ arabicComposites, e.letter = arabicYeh → e.mark = hamzaAbove := by decide
      exact arabicTables_compose_eq_none fun e he hyeh heq => hd (heq.symm.trans (honly e he hyeh))
  isMark := by decide
  inert d := by
    have hfirst : ∀ e ∈ arabicComposites, e.letter ≠ yehWithHamza := by decide
    exact arabicTables_compose_eq_none fun e he hyeh => absurd hyeh (hfirst e he)

/-- The sample tables are as the standard has them. -/
theorem standardTables_arabicTables : StandardTables arabicTables where
  persianYeh := arabicTables_cuts (by decide) (by decide) (by decide)
  arabicKaf := arabicTables_cuts (by decide) (by decide) (by decide)
  keheh := arabicTables_cuts (by decide) (by decide) (by decide)
  zeroWidthNonJoiner := arabicTables_cuts (by decide) (by decide) (by decide)
  space := arabicTables_cuts (by decide) (by decide) (by decide)
  yeh_whole := by decide
  yeh_starter := by decide
  yeh_notSecond c := by
    have hsecond : ∀ e ∈ arabicComposites, e.mark ≠ arabicYeh := by decide
    exact arabicTables_compose_eq_none fun e he _ => hsecond e he
  yeh_takes := arabicTables_takes
  hamza_class := by decide

/-- The sample functions are as the documentation has them. -/
theorem standardEnv_spellingEnv : StandardEnv spellingEnv arabicTables foldAscii where
  tables := standardTables_arabicTables
  nfkc _ := rfl
  casefold _ := rfl
  fold_space := by decide
  fold_yeh c := by
    have hyeh : yehWithHamza.val = 0x0626 := rfl
    unfold foldAscii
    split_ifs with hupper heq heq
    · rw [heq] at hupper
      omega
    · rw [List.count_eq_zero, List.mem_singleton]
      intro hfold
      have hval : yehWithHamza.val = (c.val + 32) % 0x110000 := congrArg Fin.val hfold
      omega
    · rw [heq, List.count_singleton_self]
    · rw [List.count_eq_zero, List.mem_singleton]
      exact fun h => heq h.symm

/-- A phrase in Arabic letters. -/
def arabicPhrase : Str := [0x0634, 0x0631, 0x0643, 0x062A, 0x20, 0x0643, 0x064A, 0x0627, 0x0646]

/-- The phrase in Persian letters. -/
def persianPhrase : Str := [0x0634, 0x0631, 0x06A9, 0x062A, 0x20, 0x06A9, 0x06CC, 0x0627, 0x0646]

/-- The two sample phrases are spellings of each other. -/
theorem respelled_phrase : Respelled arabicPhrase persianPhrase :=
  .cons (.same _) <| .cons (.same _) <| .cons .kaf <| .cons (.same _) <| .cons (.same _) <|
    .cons .kaf <| .cons .yeh <| .cons (.same _) <| .cons (.same _) .nil

/-- The phrase is found in either spelling. -/
theorem spellings_alike_iff_sample :
    normalizeText spellingEnv arabicPhrase = normalizeText spellingEnv persianPhrase := by
  have hno : NoHamzaTaken arabicTables arabicPhrase persianPhrase :=
    (respelled_decompose standardEnv_spellingEnv.tables respelled_phrase).2.mp (by decide)
  exact (spellings_alike_iff standardEnv_spellingEnv respelled_phrase).1.mpr hno

/-- A word that ends in yeh and hamza above. -/
def arabicWord : Str := [0x0634, 0x064A, 0x0654]

/-- The word with Persian yeh. -/
def persianWord : Str := [0x0634, 0x06CC, 0x0654]

/-- **A word that is normalized in two ways**: the hamza makes another letter of the Arabic yeh. -/
theorem hamza_divides_spellings : StandardEnv spellingEnv arabicTables foldAscii ∧
    Respelled arabicWord persianWord ∧
      normalizeText spellingEnv arabicWord = [0x0634, 0x0626] ∧
        normalizeText spellingEnv persianWord = [0x0634, 0x06CC, 0x0654] :=
  ⟨standardEnv_spellingEnv, .cons (.same _) (.cons .yeh (.cons (.same _) .nil)), by decide, by decide⟩

end MiniDms
