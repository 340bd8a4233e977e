import MiniDms.Python.Numerals
import MiniDms.Sequences.Codes

/-! # `json.dumps` is unambiguous

The text of a string ends at its quote, that of a list or a dictionary at its bracket or brace, and
that of any other value at the first character no number or word has; behind a value there is always
such a character. So two finite values with one text are the same, item by item and in the same
order. -/

namespace Python.Json

open Sequences

/-! ## Scalars -/

/-- What may follow a value: nothing that could continue a number or a word. -/
def Ends (s : Str) : Prop := ∀ c ∈ s.head?, isAtomic c = false

/-- The words. -/
def words : List Json := [.null, .bool true, .bool false]

/-- A finite scalar is a word, an integer or a float. -/
theorem scalar_cases {v : Json} (hv : Scalar v) (hfinite : v.finite = true) :
    v ∈ words ∨ (∃ i, v = .int i ∧ v.dumps = intRepr i) ∨ ∃ f, v = .float f ∧ v.dumps = f.repr := by
  cases v with
  | null => exact .inl (by simp [words])
  | bool b => cases b <;> exact .inl (by simp [words])
  | int i => exact .inr (.inl ⟨i, rfl, rfl⟩)
  | float f =>
      rw [finite] at hfinite
      exact .inr (.inr ⟨f, rfl, by rw [dumps, floatText, if_pos hfinite]⟩)
  | str _ | list _ | dict _ => cases hv

/-- A numeral begins with a sign or a digit. -/
theorem numeral_head (n : Numeral) :
    ∃ c rest, n.text = c :: rest ∧ (c = codePoint '-' ∨ isDigit c = true) := by
  obtain ⟨d, ds, hd⟩ := List.exists_cons_of_ne_nil n.digits_ne_nil
  unfold Numeral.text
  cases n.negative with
  | true => exact ⟨codePoint '-', _, rfl, .inl rfl⟩
  | false =>
      refine ⟨d, _, by rw [hd]; rfl, .inr (n.isDigit_digits d ?_)⟩
      rw [hd]
      exact List.mem_cons_self

/-- No word is printed like a numeral, and no two words alike. -/
theorem words_dumps {v : Json} (hv : v ∈ words) :
    (∀ n : Numeral, n.text ≠ v.dumps) ∧ ∀ w ∈ words, v.dumps = w.dumps → v = w := by
  have hlist : v = .null ∨ v = .bool true ∨ v = .bool false := by simpa [words] using hv
  constructor
  · intro n h
    obtain ⟨c, rest, htext, hc⟩ := numeral_head n
    rw [htext] at h
    have hnot : ∀ d ∈ lit "ntf", ¬ (d = codePoint '-' ∨ isDigit d = true) := by decide
    rcases hlist with rfl | rfl | rfl
    · exact hnot _ (by decide) ((List.cons.inj h).1 ▸ hc)
    · exact hnot _ (by decide) ((List.cons.inj h).1 ▸ hc)
    · exact hnot _ (by decide) ((List.cons.inj h).1 ▸ hc)
  · intro w hw h
    have hlist' : w = .null ∨ w = .bool true ∨ w = .bool false := by simpa [words] using hw
    rcases hlist with rfl | rfl | rfl <;> rcases hlist' with rfl | rfl | rfl <;>
      first | rfl | exact absurd h (by decide)

/-- No word is printed like a number. -/
theorem words_dumps_ne {v : Json} (hv : v ∈ words) (i : Int) (f : Double) :
    v.dumps ≠ intRepr i ∧ v.dumps ≠ f.repr := by
  obtain ⟨hnumeral, -⟩ := words_dumps hv
  obtain ⟨_, ⟨n, hn, -⟩, -⟩ := Numeral.exists_prints_repr f
  exact ⟨fun h => hnumeral _ ((Numeral.text_ofInt i).trans h.symm),
    fun h => hnumeral n (hn.trans h.symm)⟩

/-- **Scalars are told apart by their texts.** -/
theorem scalar_eq_of_dumps_eq {v w : Json} (hv : Scalar v) (hw : Scalar w)
    (hvfinite : v.finite = true) (hwfinite : w.finite = true) (h : v.dumps = w.dumps) : v = w := by
  obtain hword | ⟨i, hi, htext⟩ | ⟨f, hf, htext⟩ := scalar_cases hv hvfinite
  · obtain hword' | ⟨j, -, htext'⟩ | ⟨g, -, htext'⟩ := scalar_cases hw hwfinite
    · exact (words_dumps hword).2 w hword' h
    · exact absurd (h.trans htext') (words_dumps_ne hword j ⟨0⟩).1
    · exact absurd (h.trans htext') (words_dumps_ne hword 0 g).2
  · obtain hword' | ⟨j, hj, htext'⟩ | ⟨g, -, htext'⟩ := scalar_cases hw hwfinite
    · exact absurd (h.symm.trans htext) (words_dumps_ne hword' i ⟨0⟩).1
    · rw [hi, hj, Numeral.intRepr_injective (htext.symm.trans (h.trans htext'))]
    · exact absurd (htext.symm.trans (h.trans htext')) (Numeral.intRepr_ne_repr i g)
  · obtain hword' | ⟨j, -, htext'⟩ | ⟨g, hg, htext'⟩ := scalar_cases hw hwfinite
    · exact absurd (h.symm.trans htext) (words_dumps_ne hword' 0 f).2
    · exact absurd (htext'.symm.trans (h.symm.trans htext)) (Numeral.intRepr_ne_repr j f)
    · rw [hf, hg, Numeral.repr_injective (htext.symm.trans (h.trans htext'))]

/-- A scalar's text has neither structure nor escapes, and is not empty. -/
theorem atomic_dumps {v : Json} (hv : Scalar v) : Atomic v.dumps := by
  cases v with
  | null => decide
  | bool b => cases b <;> decide
  | int i => exact atomic_intRepr i
  | float f => exact atomic_floatText f
  | str _ | list _ | dict _ => cases hv

/-! ## How a value begins -/

/-- The first character of a value that is no scalar. -/
def opening : Json → Option CodePoint
  | .str _ => some (codePoint '"')
  | .list _ => some (codePoint '[')
  | .dict _ => some (codePoint '\x7b')
  | _ => none

/-- The opening of a value tells its kind. -/
theorem exists_dumps_cons {v : Json} {c : CodePoint} (h : v.opening = some c) :
    ∃ rest, v.dumps = c :: rest := by
  cases v with
  | str _ | list _ | dict _ =>
      cases h
      exact ⟨_, rfl⟩
  | null | bool _ | int _ | float _ => cases h

/-- The scalars are the values whose text opens no bracket or quote. -/
theorem scalar_iff_opening (v : Json) : Scalar v ↔ v.opening = none := by
  cases v <;> simp [Scalar, opening]

/-- A bracket or a quote is not atomic. -/
theorem not_atomic_opening {v : Json} {c : CodePoint} (h : v.opening = some c) :
    isAtomic c = false := by
  cases v <;> cases h <;> decide

/-- A scalar's text has a first character, which is atomic. -/
theorem exists_scalar_cons {v : Json} (hv : Scalar v) (hfinite : v.finite = true) :
    ∃ c rest, v.dumps = c :: rest ∧ isAtomic c = true := by
  have hatomic := atomic_dumps hv
  have hne : v.dumps ≠ [] := by
    obtain hword | ⟨i, -, htext⟩ | ⟨f, -, htext⟩ := scalar_cases hv hfinite
    · have hlist : v = .null ∨ v = .bool true ∨ v = .bool false := by simpa [words] using hword
      rcases hlist with rfl | rfl | rfl <;> decide
    · rw [htext, ← Numeral.text_ofInt]
      obtain ⟨c, rest, hc, -⟩ := numeral_head (Numeral.ofInt i)
      simp [hc]
    · obtain ⟨_, ⟨n, hn, -⟩, -⟩ := Numeral.exists_prints_repr f
      obtain ⟨c, rest, hc, -⟩ := numeral_head n
      rw [htext, ← hn]
      simp [hc]
  obtain ⟨c, rest, hc⟩ := List.exists_cons_of_ne_nil hne
  exact ⟨c, rest, hc, hatomic c (hc ▸ List.mem_cons_self)⟩

/-- An atomic text ends where something follows that is not. -/
theorem atomic_append_inj {a b s t : Str} (ha : Atomic a) (hb : Atomic b) (hs : Ends s)
    (ht : Ends t) (h : a ++ s = b ++ t) : a = b ∧ s = t := by
  have hspan : ∀ {a s : Str}, Atomic a → Ends s → (a ++ s).takeWhile isAtomic = a := by
    intro a s ha hs
    rw [List.takeWhile_append_of_pos ha]
    cases s with
    | nil => simp
    | cons c s => simp [hs c rfl]
  have heq : a = b := by rw [← hspan ha hs, h, hspan hb ht]
  subst heq
  exact ⟨rfl, List.append_cancel_left h⟩

/-! ## The induction -/

/-- A quoted string ends at its quote, whatever follows. -/
theorem readable_quote (s : Str) :
    Readable (fun _ => True) (fun _ => True) quote s := by
  intro t _ r r' _ _ h
  have hscan : ∀ u rest : Str, scanString (u.flatMap escape ++ codePoint '"' :: rest) =
      some (u, rest) := fun u => (literalText_escape u).scan
  unfold quote at h
  rw [List.append_assoc, List.append_assoc] at h
  have htail : s.flatMap escape ++ codePoint '"' :: r = t.flatMap escape ++ codePoint '"' :: r' :=
    (List.cons.inj h).2
  have hread := hscan s r
  rw [htail, hscan] at hread
  cases hread
  exact ⟨rfl, rfl⟩

/-- The texts of the items of a list. -/
theorem dumpsList_eq_map (items : List Json) : dumpsList items = items.map dumps := by
  induction items with
  | nil => rfl
  | cons x items ih => rw [dumpsList, ih, List.map_cons]

/-- The text of an item. -/
def itemText (item : Str × Json) : Str := quote item.1 ++ lit ": " ++ dumps item.2

/-- The texts of the items of a dictionary. -/
theorem dumpsItems_eq_map (items : List (Str × Json)) : dumpsItems items = items.map itemText := by
  induction items with
  | nil => rfl
  | cons item items ih => rw [dumpsItems, ih, List.map_cons, itemText]

/-- Values that begin alike are of one kind. -/
theorem opening_eq {v w : Json} (hv : v.finite = true) (hw : w.finite = true) {s t : Str}
    (h : v.dumps ++ s = w.dumps ++ t) : v.opening = w.opening := by
  -- A scalar does not begin like a value that is none.
  have hne : ∀ {v w : Json} {s t : Str} {c : CodePoint}, v.finite = true → v.opening = none →
      w.opening = some c → v.dumps ++ s ≠ w.dumps ++ t := by
    intro v w s t c hv hnone hsome h
    obtain ⟨d, rest, hd, hatomic⟩ := exists_scalar_cons ((scalar_iff_opening v).mpr hnone) hv
    obtain ⟨rest', hc⟩ := exists_dumps_cons hsome
    rw [hd, hc] at h
    rw [(List.cons.inj h).1, not_atomic_opening hsome] at hatomic
    cases hatomic
  cases hopen : v.opening with
  | none =>
      cases hopen' : w.opening with
      | none => rfl
      | some c => exact absurd h (hne hv hopen hopen')
  | some c =>
      cases hopen' : w.opening with
      | none => exact absurd h.symm (hne hw hopen' hopen)
      | some d =>
          obtain ⟨rest, hc⟩ := exists_dumps_cons hopen
          obtain ⟨rest', hd⟩ := exists_dumps_cons hopen'
          rw [hc, hd] at h
          rw [(List.cons.inj h).1]

/-- A value begins with no bracket or brace that closes. -/
theorem exists_cons_ne_close {v : Json} (hv : v.finite = true) {close : CodePoint}
    (hclose : close ∈ lit "]\x7d") : ∃ c rest, v.dumps = c :: rest ∧ c ≠ close := by
  cases hopen : v.opening with
  | none =>
      obtain ⟨c, rest, hc, hatomic⟩ := exists_scalar_cons ((scalar_iff_opening v).mpr hopen) hv
      refine ⟨c, rest, hc, ?_⟩
      rintro rfl
      have hnot : ∀ d ∈ lit "]\x7d", isAtomic d = false := by decide
      rw [hnot c hclose] at hatomic
      cases hatomic
  | some c =>
      obtain ⟨rest, hc⟩ := exists_dumps_cons hopen
      refine ⟨c, rest, hc, ?_⟩
      rintro rfl
      have hnot : ∀ d ∈ lit "]\x7d", d ∉ lit "\"[\x7b" := by decide
      refine hnot c hclose ?_
      cases v <;> cases hopen <;> decide

/-- A scalar is read back. -/
theorem readable_scalar {v : Json} (hscalar : Scalar v) (hv : v.finite = true) :
    Readable Ends (fun w => w.finite = true) dumps v := by
  intro w hw s t hs ht h
  have hopen : w.opening = none :=
    (opening_eq hv hw h).symm.trans ((scalar_iff_opening v).mp hscalar)
  have hscalar' : Scalar w := (scalar_iff_opening w).mpr hopen
  obtain ⟨htext, hrest⟩ := atomic_append_inj (atomic_dumps hscalar) (atomic_dumps hscalar') hs ht h
  exact ⟨scalar_eq_of_dumps_eq hscalar hscalar' hv hw htext, hrest⟩

/-- What stands between two parts, and what closes them, ends a value. -/
theorem ends_cons {c : CodePoint} (hc : c ∈ structural) (s : Str) : Ends (c :: s) := by
  intro d hd
  cases hd
  revert c
  decide

/-- Enclosed and separated parts are read back when each part is. -/
theorem readable_enclosed {β : Type} {Valid : β → Prop} {code : β → Str} {open' close : CodePoint}
    (hclose : close ∈ lit "]\x7d") (hhead : ∀ b, Valid b → ∃ c r, code b = c :: r ∧ c ≠ close)
    {bs cs : List β} (hread : ∀ b ∈ bs, Readable Ends Valid code b) (hbs : ∀ b ∈ bs, Valid b)
    (hcs : ∀ c ∈ cs, Valid c) {s t : Str}
    (h : [open'] ++ join (lit ", ") (bs.map code) ++ [close] ++ s =
      [open'] ++ join (lit ", ") (cs.map code) ++ [close] ++ t) : bs = cs ∧ s = t := by
  have hstructural : ∀ c ∈ lit "]\x7d", c ∈ structural ∧ codePoint ',' ≠ c := by decide
  have hsep : lit ", " = [codePoint ',', codePoint ' '] := rfl
  simp only [List.append_assoc, List.singleton_append] at h
  have hparts := (List.cons.inj h).2
  rw [join, join, hsep] at hparts
  exact readable_intercalate (fun u => ends_cons (by decide) _)
    (fun u => ends_cons (hstructural close hclose).1 u) (hstructural close hclose).2 hhead hread hbs
    hcs hparts

mutual

/-- **A finite value is read back from its text**, whatever follows that could not continue it. -/
theorem readable_dumps : ∀ v : Json, v.finite = true →
    Readable Ends (fun w => w.finite = true) dumps v
  | .null, hv => readable_scalar trivial hv
  | .bool _, hv => readable_scalar trivial hv
  | .int _, hv => readable_scalar trivial hv
  | .float _, hv => readable_scalar trivial hv
  | .str text, hv => by
      intro w hw s t _ _ h
      have hopen := opening_eq hv hw h
      cases w with
      | str text' =>
          obtain ⟨rfl, hrest⟩ := readable_quote text text' trivial s t trivial trivial h
          exact ⟨rfl, hrest⟩
      | list _ | dict _ => exact absurd hopen (by simp only [opening]; decide)
      | null | bool _ | int _ | float _ => cases hopen
  | .list items, hv => by
      intro w hw s t _ _ h
      have hopen := opening_eq hv hw h
      cases w with
      | list items' =>
          simp only [dumps, dumpsList_eq_map] at h
          obtain ⟨rfl, hrest⟩ := readable_enclosed (by decide)
            (fun x hx => exists_cons_ne_close hx (by decide)) (readable_elements items hv)
            ((finiteList_iff items).mp hv) ((finiteList_iff items').mp hw) h
          exact ⟨rfl, hrest⟩
      | str _ | dict _ => exact absurd hopen (by simp only [opening]; decide)
      | null | bool _ | int _ | float _ => cases hopen
  | .dict items, hv => by
      intro w hw s t _ _ h
      have hopen := opening_eq hv hw h
      cases w with
      | dict items' =>
          simp only [dumps, dumpsItems_eq_map] at h
          obtain ⟨rfl, hrest⟩ := readable_enclosed (by decide)
            (fun item _ => ⟨codePoint '"', _, rfl, by decide⟩) (readable_items items hv)
            ((finiteItems_iff items).mp hv) ((finiteItems_iff items').mp hw) h
          exact ⟨rfl, hrest⟩
      | str _ | list _ => exact absurd hopen (by simp only [opening]; decide)
      | null | bool _ | int _ | float _ => cases hopen

/-- Every element is. -/
theorem readable_elements : ∀ items : List Json, finiteList items = true →
    ∀ x ∈ items, Readable Ends (fun w => w.finite = true) dumps x
  | [], _ => fun x hx => nomatch hx
  | x :: items, h => by
      rw [finiteList, Bool.and_eq_true] at h
      exact List.forall_mem_cons.mpr ⟨readable_dumps x h.1, readable_elements items h.2⟩

/-- Every item is. -/
theorem readable_items : ∀ items : List (Str × Json), finiteItems items = true →
    ∀ item ∈ items, Readable Ends (fun item => item.2.finite = true) itemText item
  | [], _ => fun item hitem => nomatch hitem
  | (k, x) :: items, h => by
      rw [finiteItems, Bool.and_eq_true] at h
      exact List.forall_mem_cons.mpr
        ⟨(readable_quote k).pair (readable_dumps x h.1), readable_items items h.2⟩

end

/-- **Finite values are told apart by their texts.** -/
theorem eq_of_dumps_eq {v w : Json} (hv : v.finite = true) (hw : w.finite = true)
    (h : v.dumps = w.dumps) : v = w := by
  have hnil : Ends [] := fun c hc => nomatch hc
  exact (readable_dumps v hv w hw [] [] hnil hnil (by rw [h])).1

end Python.Json
