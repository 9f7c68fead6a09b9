import PgVector.Types.Representation

/-!
# Literals of sparse vectors

A literal as its parts: blanks, indices and numbers as they are written, and the
dimension.  `sparsevec_in` is described on the text of every literal, and every
text it accepts is the text of a literal.
-/

namespace PgVector.Types

open Foundation

/-! ## Blanks -/

abbrev Blanks := {text : List Char // ∀ c ∈ text, sparsevecIsspace c = true}

def noBlanks : Blanks := ⟨[], by simp⟩

def leadingBlanks (pt : List Char) : Blanks :=
  ⟨pt.takeWhile sparsevecIsspace, fun _ hc => List.mem_takeWhile_imp hc⟩

variable {rest : List Char} (pt : List Char)

theorem leadingBlanks_append : (leadingBlanks pt).1 ++ skipSpace pt = pt :=
  List.takeWhile_append_dropWhile

@[simp]
theorem skipSpace_blanks (s : Blanks) (rest : List Char) :
    skipSpace (s.1 ++ rest) = skipSpace rest :=
  List.dropWhile_append_of_pos s.2

theorem skipSpace_of_head {pt : List Char}
    (h : ∀ c ∈ pt.head?, sparsevecIsspace c = false) : skipSpace pt = pt := by
  cases pt with
  | nil => rfl
  | cons c pt => exact skipSpace_cons (h c rfl) pt

theorem skipSpace_head : ∀ c ∈ (skipSpace pt).head?, sparsevecIsspace c = false := by
  intro c hc
  have hhead := List.head?_dropWhile_not sparsevecIsspace pt
  rw [Option.mem_def] at hc
  rw [skipSpace] at hc
  rw [hc] at hhead
  exact hhead

theorem comma_notMem_blanks (s : Blanks) : ',' ∉ s.1 :=
  fun h => absurd (s.2 _ h) (by decide)

theorem not_isDigit_of_isspace {c : Char} (h : sparsevecIsspace c = true) : c.isDigit = false := by
  cases hc : c.isDigit with
  | false => rfl
  | true => simp [sparsevecIsspace_of_isDigit hc] at h

theorem head_blanks {p : Char → Prop} (s : Blanks) (hspace : ∀ c, sparsevecIsspace c = true → p c)
    (hrest : ∀ c ∈ rest.head?, p c) : ∀ c ∈ (s.1 ++ rest).head?, p c := by
  obtain ⟨text, htext⟩ := s
  cases text with
  | nil => exact hrest
  | cons d text =>
    intro c hc
    obtain rfl : d = c := by simpa using hc
    exact hspace d (htext d (.head _))

/-! ## Integers -/

inductive IntSign where
  | none
  | plus
  | minus
  deriving DecidableEq

def IntSign.text : IntSign → List Char
  | .none => []
  | .plus => ['+']
  | .minus => ['-']

structure IntText where
  sign : IntSign
  digits : List Char
  digits_ne_nil : digits ≠ []
  isDigit : ∀ c ∈ digits, c.isDigit = true

namespace IntText

def text (i : IntText) : List Char := i.sign.text ++ i.digits

def magnitude (i : IntText) : Int := Nat.ofDigitChars 10 i.digits 0

def value (i : IntText) : Int := if i.sign = .minus then -i.magnitude else i.magnitude

variable (i : IntText) (rest : List Char)

theorem text_head : ∀ c ∈ (i.text ++ rest).head?, sparsevecIsspace c = false ∧ c ≠ '\x7d' := by
  obtain ⟨sign, digits, hne, hdigits⟩ := i
  intro c hc
  cases sign with
  | plus | minus =>
    simp only [text, IntSign.text, List.cons_append, List.head?_cons, Option.mem_def,
      Option.some.injEq] at hc
    subst hc
    decide
  | none =>
    cases digits with
    | nil => exact absurd rfl hne
    | cons d digits =>
      simp only [text, IntSign.text, List.nil_append, List.cons_append, List.head?_cons,
        Option.mem_def, Option.some.injEq] at hc
      subst hc
      have hd := hdigits d (.head _)
      exact ⟨sparsevecIsspace_of_isDigit hd, ne_of_isDigit hd (by decide)⟩

@[simp]
theorem skipSpace_text : skipSpace (i.text ++ rest) = i.text ++ rest :=
  skipSpace_of_head fun c hc => (i.text_head rest c hc).1

theorem splitSign_text :
    splitSign (i.text ++ rest) = (decide (i.sign = .minus), i.digits ++ rest) := by
  obtain ⟨sign, digits, hne, hdigits⟩ := i
  cases sign with
  | plus => rfl
  | minus => rfl
  | none =>
    cases digits with
    | nil => exact absurd rfl hne
    | cons d digits => exact splitSign_of_isDigit (hdigits d (.head _)) _

theorem comma_notMem_text : ',' ∉ i.text := by
  have hdigits : ',' ∉ i.digits := fun h => absurd (i.isDigit _ h) (by decide)
  have hsign : ',' ∉ i.sign.text := by cases i.sign <;> decide
  simp [text, hdigits, hsign]

theorem strtol_text {rest : List Char} (hrest : ∀ c ∈ rest.head?, c.isDigit = false) :
    strtol (i.text ++ rest) = some (clamp (-2 ^ 63) (2 ^ 63 - 1) i.value, rest) := by
  obtain ⟨htake, hdrop⟩ := digits_takeWhile i.isDigit hrest
  simp [strtol, splitSign_text, htake, hdrop, i.digits_ne_nil, value, magnitude]

end IntText

theorem exists_sign :
    ∃ sign : IntSign, pt = sign.text ++ (splitSign pt).2 ∧
      ((splitSign pt).1 = true ↔ sign = .minus) := by
  unfold splitSign
  split
  · exact ⟨.minus, rfl, by simp⟩
  · exact ⟨.plus, rfl, by simp⟩
  · exact ⟨.none, rfl, by simp⟩

theorem strtol_eq_some {pt : List Char} {n : Int} (h : strtol pt = some (n, rest)) :
    ∃ i : IntText, skipSpace pt = i.text ++ rest ∧ n = clamp (-2 ^ 63) (2 ^ 63 - 1) i.value := by
  simp only [strtol] at h
  split at h <;> simp only [Option.some.injEq, Prod.mk.injEq, reduceCtorEq] at h
  rename_i hne
  obtain ⟨rfl, rfl⟩ := h
  have hdigits : ∀ c ∈ (splitSign (skipSpace pt)).2.takeWhile Char.isDigit,
      c.isDigit = true := fun _ hc => List.mem_takeWhile_imp hc
  obtain ⟨sign, htext, hminus⟩ := exists_sign (skipSpace pt)
  refine ⟨⟨sign, _, by simpa using hne, hdigits⟩, ?_, ?_⟩
  · rw [IntText.text, List.append_assoc, List.takeWhile_append_dropWhile, ← htext]
  · simp only [IntText.value, IntText.magnitude, hminus]

/-! ## Entries -/

/-- A byte that follows a number: a blank, a comma or the closing brace. -/
def EndsNumber (c : Char) : Prop := sparsevecIsspace c = true ∨ c = ',' ∨ c = '\x7d'

/--
`strtof` takes the longest number at the front of its argument, whatever follows
it; a number has no comma.
-/
structure DelimitedText extends FloatText where
  strtof_number : ∀ {pt value erange stringEnd}, strtof pt = some (value, erange, stringEnd) →
    ∃ number, pt = number ++ stringEnd ∧ ',' ∉ number ∧
      ∀ rest, (∀ c ∈ rest.head?, EndsNumber c) →
        strtof (number ++ rest) = some (value, erange, rest)

structure EntryText (T : FloatText) where
  before : Blanks
  index : IntText
  beforeColon : Blanks
  afterColon : Blanks
  number : List Char
  value : Float4
  erange : Bool
  after : Blanks
  number_head : ∀ c ∈ number.head?, sparsevecIsspace c = false
  number_ne_nil : number ≠ []
  comma_notMem_number : ',' ∉ number
  strtof_number : ∀ rest, (∀ c ∈ rest.head?, EndsNumber c) →
    T.strtof (number ++ rest) = some (value, erange, rest)

def clampIndex (n : Int) : Int := clamp (-2 ^ 31 + 1) (2 ^ 31 - 1) (clamp (-2 ^ 63) (2 ^ 63 - 1) n)

namespace EntryText

variable {T : FloatText}

def text (e : EntryText T) : List Char :=
  e.before.1 ++ (e.index.text ++ (e.beforeColon.1 ++
    ':' :: (e.afterColon.1 ++ (e.number ++ e.after.1))))

def Accepted (e : EntryText T) : Prop :=
  ¬ (e.erange = true ∧ isZero e.value = true) ∧ e.value.isFinite = true

def stored (e : EntryText T) : Option SparseInputElement :=
  if isZero e.value then none else some ⟨clampIndex e.index.value - 1, e.value⟩

variable (e : EntryText T)

theorem readIndex_text (lit rest : List Char) :
    readIndex lit (e.text ++ rest) =
      .ok (clampIndex e.index.value, e.afterColon.1 ++ (e.number ++ (e.after.1 ++ rest))) := by
  have hcolon : ∀ more, ∀ c ∈ (e.beforeColon.1 ++ ':' :: more).head?, c.isDigit = false :=
    fun more => head_blanks e.beforeColon (fun _ => not_isDigit_of_isspace) (by simp)
  have hne : ∀ more, (e.index.text ++ more).isEmpty = false := by
    simp [IntText.text, e.index.digits_ne_nil]
  simp only [text, List.append_assoc, List.cons_append, readIndex, skipSpace_blanks,
    IntText.skipSpace_text, hne, Bool.false_eq_true, ↓reduceIte,
    IntText.strtol_text e.index (hcolon _), clampIndex,
    skipSpace_cons (by decide : sparsevecIsspace ':' = false)]

theorem readValue_text_eq_ok {lit rest : List Char} (hrest : ∀ c ∈ rest.head?, EndsNumber c)
    {read : Float4 × List Char} :
    readValue T lit (e.afterColon.1 ++ (e.number ++ (e.after.1 ++ rest))) = .ok read ↔
      e.Accepted ∧ read = (e.value, e.after.1 ++ rest) := by
  have hskip : skipSpace (e.number ++ (e.after.1 ++ rest)) = e.number ++ (e.after.1 ++ rest) := by
    refine skipSpace_of_head fun c hc => e.number_head c ?_
    rwa [List.head?_append_of_ne_nil _ e.number_ne_nil] at hc
  have hends := head_blanks e.after (p := EndsNumber) (fun _ => .inl) hrest
  simp only [readValue, skipSpace_blanks, hskip, e.strtof_number _ hends, bind_eq_ok,
    errorIf_eq_ok, checkElement_eq_ok, pure, Except.pure, Except.ok.injEq, Accepted,
    exists_and_left, exists_const]
  constructor
  · rintro ⟨hrange, hfinite, rfl⟩
    exact ⟨⟨fun h => hrange ⟨h.1, .inl h.2⟩, hfinite⟩, rfl⟩
  · rintro ⟨⟨hrange, hfinite⟩, rfl⟩
    refine ⟨?_, hfinite, rfl⟩
    rw [(isFinite_iff.mp hfinite).2]
    simpa using hrange

def trimmed (e : EntryText T) : EntryText T := { e with before := ⟨[], by simp⟩ }

theorem text_eq_trimmed : e.text = e.before.1 ++ e.trimmed.text := rfl

theorem trimmed_head (rest : List Char) :
    ∀ c ∈ (e.trimmed.text ++ rest).head?, sparsevecIsspace c = false ∧ c ≠ '\x7d' := by
  simp only [text, trimmed, List.nil_append, List.append_assoc]
  exact e.index.text_head _

theorem comma_notMem_text : ',' ∉ e.text := by
  simp [text, comma_notMem_blanks, e.index.comma_notMem_text, e.comma_notMem_number]

end EntryText

/-! ## The loop -/

section Loop

variable {T : FloatText} {lit : List Char} {maxNnz : Nat}

def entriesText (entries : List (EntryText T)) : List Char :=
  List.intercalate [','] (entries.map EntryText.text)

variable {read : List SparseInputElement} {rest : List Char}
  {result : List SparseInputElement × List Char} (e : EntryText T) (entries : List (EntryText T))

theorem entriesText_cons :
    entriesText (e :: entries) = e.text ++ entries.flatMap fun e => ',' :: e.text := by
  rw [entriesText, List.map_cons, intercalate_cons, List.flatMap_map]

theorem entriesText_cons_cons (e' : EntryText T) (entries : List (EntryText T)) :
    entriesText (e :: e' :: entries) = e.text ++ ',' :: entriesText (e' :: entries) := by
  rw [entriesText_cons, entriesText_cons, List.flatMap_cons, List.cons_append]

theorem count_comma_entriesText : (entriesText entries).count ',' = entries.length - 1 := by
  induction entries with
  | nil => rfl
  | cons e entries ih =>
    have he := List.count_eq_zero.mpr e.comma_notMem_text
    cases entries with
    | nil => simpa [entriesText] using he
    | cons e' entries =>
      rw [entriesText_cons_cons, List.count_append, he, List.count_cons_self, ih]
      simp

theorem readElements_entry_eq_ok (hfull : read.length ≠ maxNnz) {c : Char} (hc : EndsNumber c)
    (hspace : sparsevecIsspace c = false) :
    readElements T lit maxNnz read (e.text ++ c :: rest) = .ok result ↔
      e.Accepted ∧ (match c :: rest with
        | ',' :: pt => readElements T lit maxNnz (read ++ e.stored.toList) pt
        | '\x7d' :: pt => .ok (read ++ e.stored.toList, pt)
        | _ => .error (invalidSyntax lit none)) = .ok result := by
  have hends : ∀ d ∈ (c :: rest).head?, EndsNumber d := by simpa using hc
  have hindex := e.readIndex_text lit (c :: rest)
  have hskip : skipSpace (e.after.1 ++ c :: rest) = c :: rest := by
    rw [skipSpace_blanks, skipSpace_cons hspace]
  have hstored : (if isZero e.value then read
      else read ++ [⟨clampIndex e.index.value - 1, e.value⟩]) = read ++ e.stored.toList := by
    rw [EntryText.stored]
    split <;> simp
  constructor
  · intro h
    obtain ⟨_, _, value, stringEnd, hread, hvalue⟩ := exists_read_of_readElements T h
    rw [hindex, Except.ok.injEq, Prod.mk.injEq] at hread
    obtain ⟨rfl, rfl⟩ := hread
    obtain ⟨haccepted, hpair⟩ := (e.readValue_text_eq_ok hends).mp hvalue
    cases hpair
    rw [readElements_of_read T hfull hindex hvalue, hskip, hstored] at h
    exact ⟨haccepted, h⟩
  · rintro ⟨haccepted, h⟩
    have hvalue : readValue T lit _ = .ok (e.value, e.after.1 ++ c :: rest) :=
      (e.readValue_text_eq_ok hends).mpr ⟨haccepted, rfl⟩
    rw [readElements_of_read T hfull hindex hvalue, hskip, hstored]
    exact h

theorem filterMap_stored_cons :
    (e :: entries).filterMap EntryText.stored =
      e.stored.toList ++ entries.filterMap EntryText.stored := by
  cases h : e.stored <;> simp [h]

theorem length_append_stored_le (read : List SparseInputElement) (e : EntryText T) :
    (read ++ e.stored.toList).length ≤ read.length + 1 := by
  cases e.stored <;> simp

theorem readElements_entriesText_eq_ok {entries : List (EntryText T)} (hne : entries ≠ [])
    (hroom : read.length + entries.length ≤ maxNnz) :
    readElements T lit maxNnz read (entriesText entries ++ '\x7d' :: rest) = .ok result ↔
      (∀ e ∈ entries, e.Accepted) ∧
        (read ++ entries.filterMap EntryText.stored, rest) = result := by
  induction entries generalizing read with
  | nil => exact absurd rfl hne
  | cons e entries ih =>
    rw [List.length_cons] at hroom
    have hfull : read.length ≠ maxNnz := by omega
    have hlength := length_append_stored_le read e
    rw [filterMap_stored_cons, ← List.append_assoc]
    cases entries with
    | nil =>
      have htext : entriesText [e] = e.text := by simp [entriesText]
      rw [htext, readElements_entry_eq_ok e hfull (.inr (.inr rfl)) (by decide)]
      simp
    | cons e' entries =>
      have hroom' : (read ++ e.stored.toList).length + (e' :: entries).length ≤ maxNnz := by
        omega
      rw [entriesText_cons_cons, List.append_assoc, List.cons_append,
        readElements_entry_eq_ok e hfull (.inr (.inl rfl)) (by decide),
        List.forall_mem_cons, and_assoc]
      exact and_congr_right fun _ => ih (by simp) hroom'

theorem readEntries_entriesText_eq_ok (inside : Blanks) {entries : List (EntryText T)}
    (hroom : entries.length ≤ maxNnz) :
    readEntries T lit (inside.1 ++ (entriesText entries ++ '\x7d' :: rest)) maxNnz =
        .ok result ↔
      (∀ e ∈ entries, e.Accepted) ∧ (entries.filterMap EntryText.stored, rest) = result := by
  cases entries with
  | nil =>
    have hskip : skipSpace (inside.1 ++ (entriesText ([] : List (EntryText T)) ++
        '\x7d' :: rest)) = '\x7d' :: rest := by
      rw [skipSpace_blanks]
      exact skipSpace_cons (by decide) rest
    rw [readEntries, hskip]
    simp
  | cons e entries =>
    have hroom : ([] : List SparseInputElement).length + (e.trimmed :: entries).length ≤
        maxNnz := by simpa using hroom
    -- the blanks before the first entry are skipped with those after the brace
    have hskip : skipSpace (inside.1 ++ (entriesText (e :: entries) ++ '\x7d' :: rest)) =
        entriesText (e.trimmed :: entries) ++ '\x7d' :: rest := by
      rw [entriesText_cons, entriesText_cons, e.text_eq_trimmed, List.append_assoc,
        List.append_assoc, List.append_assoc, skipSpace_blanks, skipSpace_blanks]
      exact skipSpace_of_head fun c hc => (e.trimmed_head _ c hc).1
    rw [readEntries, hskip]
    split
    · rename_i heq
      have hhead : (entriesText (e.trimmed :: entries) ++ '\x7d' :: rest).head? =
          some '\x7d' := by rw [heq]; rfl
      rw [entriesText_cons, List.append_assoc] at hhead
      exact absurd rfl (e.trimmed_head _ _ hhead).2
    · rw [readElements_entriesText_eq_ok (by simp) hroom, List.forall_mem_cons,
        List.forall_mem_cons]
      exact Iff.rfl

end Loop

/-! ## Literals -/

structure Literal (T : FloatText) where
  before : Blanks
  inside : Blanks
  entries : List (EntryText T)
  beforeSlash : Blanks
  beforeDim : Blanks
  dim : IntText
  after : Blanks

def clampDim (n : Int) : Int := clamp (-2 ^ 31) (2 ^ 31 - 1) (clamp (-2 ^ 63) (2 ^ 63 - 1) n)

namespace Literal

variable {T : FloatText}

def dimText (L : Literal T) : List Char :=
  L.beforeSlash.1 ++ '/' :: (L.beforeDim.1 ++ (L.dim.text ++ L.after.1))

def text (L : Literal T) : List Char :=
  L.before.1 ++ '\x7b' :: (L.inside.1 ++ (entriesText L.entries ++ '\x7d' :: L.dimText))

def stored (L : Literal T) : List SparseInputElement := L.entries.filterMap EntryText.stored

variable (L : Literal T)

theorem readDim_dimText (lit : List Char) : readDim lit L.dimText = .ok (clampDim L.dim.value) := by
  have hafter : ∀ c ∈ L.after.1.head?, c.isDigit = false := by
    have hhead : ∀ c ∈ (L.after.1 ++ []).head?, c.isDigit = false :=
      head_blanks L.after (fun _ => not_isDigit_of_isspace) (by simp)
    rwa [List.append_nil] at hhead
  have hend : skipSpace L.after.1 = [] := by
    have hskip := skipSpace_blanks L.after []
    rwa [List.append_nil] at hskip
  simp only [readDim, dimText, skipSpace_blanks,
    skipSpace_cons (by decide : sparsevecIsspace '/' = false), IntText.skipSpace_text,
    L.dim.strtol_text hafter, hend, List.isEmpty_nil, ↓reduceIte, clampDim]

theorem count_comma_text : L.text.count ',' = L.entries.length - 1 := by
  have hblanks := fun s : Blanks => List.count_eq_zero.mpr (comma_notMem_blanks s)
  have hdim := List.count_eq_zero.mpr L.dim.comma_notMem_text
  simp [text, dimText, count_comma_entriesText, hblanks, hdim]

theorem sparsevecIn_text_eq_ok {typmod : Int} {v : SparseVector} :
    sparsevecIn T L.text typmod = .ok v ↔
      L.entries.length ≤ sparsevecMaxNnz ∧ (∀ e ∈ L.entries, e.Accepted) ∧
        makeSparsevec typmod (clampDim L.dim.value) L.stored = .ok v := by
  have hcount := L.count_comma_text
  have hskip : skipSpace L.text =
      '\x7b' :: (L.inside.1 ++ (entriesText L.entries ++ '\x7d' :: L.dimText)) := by
    rw [text, skipSpace_blanks, skipSpace_cons (by decide)]
  have hroom : L.entries.length ≤ L.text.count ',' + 1 := by omega
  have hmax : ¬ L.text.count ',' + 1 > sparsevecMaxNnz ↔ L.entries.length ≤ sparsevecMaxNnz := by
    rw [hcount, sparsevecMaxNnz]
    omega
  simp only [sparsevecIn, bind_eq_ok, errorIf_eq_ok, hmax, hskip, exists_and_left, exists_const,
    readEntries_entriesText_eq_ok L.inside hroom, Prod.exists]
  refine and_congr_right fun _ => ?_
  constructor
  · rintro ⟨elements, rest, ⟨haccepted, hread⟩, dim, hdim, hmake⟩
    cases hread
    rw [readDim_dimText, Except.ok.injEq] at hdim
    rw [hdim]
    exact ⟨haccepted, hmake⟩
  · rintro ⟨haccepted, hmake⟩
    exact ⟨_, _, ⟨haccepted, rfl⟩, _, L.readDim_dimText _, hmake⟩

end Literal

/-! ## Every accepted text is that of a literal -/

theorem readIndex_eq_ok {lit pt : List Char} {index : Int}
    (h : readIndex lit pt = .ok (index, rest)) :
    ∃ (before : Blanks) (i : IntText) (beforeColon : Blanks),
      pt = before.1 ++ (i.text ++ (beforeColon.1 ++ ':' :: rest)) := by
  simp only [readIndex] at h
  split at h
  · simp at h
  · split at h
    · simp at h
    · rename_i n stringEnd hstrtol
      split at h
      · rename_i rest' hcolon
        simp only [Except.ok.injEq, Prod.mk.injEq] at h
        obtain ⟨i, htext, -⟩ := strtol_eq_some hstrtol
        refine ⟨leadingBlanks pt, i, leadingBlanks stringEnd, ?_⟩
        rw [← h.2, ← hcolon, leadingBlanks_append, ← htext,
          skipSpace_of_head (skipSpace_head pt), leadingBlanks_append]
      · simp at h

section Accepted

variable {T : DelimitedText} {lit : List Char}

variable {pt : List Char} {result : List SparseInputElement × List Char}

theorem exists_entryText {rest stringEnd pt' : List Char} {index : Int} {value : Float4}
    {c : Char} (hindex : readIndex lit pt = .ok (index, rest))
    (hvalue : readValue T.toFloatText lit rest = .ok (value, stringEnd))
    (hnext : skipSpace stringEnd = c :: pt') :
    ∃ e : EntryText T.toFloatText, pt = e.text ++ c :: pt' := by
  obtain ⟨before, i, beforeColon, rfl⟩ := readIndex_eq_ok hindex
  obtain ⟨⟨erange, hstrtof⟩, -⟩ := readValue_eq_ok hvalue
  obtain ⟨number, htext, hcomma, hnumber⟩ := T.strtof_number hstrtof
  have hne : number ≠ [] := by
    rintro rfl
    have hlength := T.strtof_length hstrtof
    rw [htext] at hlength
    simp at hlength
  have hhead : ∀ d ∈ number.head?, sparsevecIsspace d = false := by
    intro d hd
    refine skipSpace_head rest d ?_
    rwa [htext, List.head?_append_of_ne_nil _ hne]
  refine ⟨⟨before, i, beforeColon, leadingBlanks rest, number, value, erange,
    leadingBlanks stringEnd, hhead, hne, hcomma, hnumber⟩, ?_⟩
  simp only [EntryText.text, List.append_assoc, List.cons_append]
  rw [← hnext, leadingBlanks_append, ← htext, leadingBlanks_append]

theorem exists_entriesText {maxNnz : Nat} {elements : List SparseInputElement}
    (h : readElements T.toFloatText lit maxNnz elements pt = .ok result) :
    ∃ entries : List (EntryText T.toFloatText), entries ≠ [] ∧
      pt = entriesText entries ++ '\x7d' :: result.2 := by
  fun_induction readElements T.toFloatText lit maxNnz elements pt with
  | case1 => simp at h
  | case2 => simp at h
  | case3 => simp at h
  | case4 elements pt hfull index after hindex value stringEnd hvalue elements' pt' hnext ih =>
    obtain ⟨e, rfl⟩ := exists_entryText hindex hvalue hnext
    obtain ⟨entries, hne, rfl⟩ := ih h
    obtain ⟨e', entries, rfl⟩ := List.exists_cons_of_ne_nil hne
    refine ⟨e :: e' :: entries, by simp, ?_⟩
    rw [entriesText_cons_cons, List.append_assoc, List.cons_append]
  | case5 elements pt hfull index after hindex value stringEnd hvalue elements' pt' hnext =>
    obtain ⟨e, rfl⟩ := exists_entryText hindex hvalue hnext
    rw [Except.ok.injEq] at h
    exact ⟨[e], by simp, by simp [entriesText, ← h]⟩
  | case6 => simp at h

theorem readEntries_eq_ok {maxNnz : Nat}
    (h : readEntries T.toFloatText lit pt maxNnz = .ok result) :
    ∃ entries : List (EntryText T.toFloatText),
      skipSpace pt = entriesText entries ++ '\x7d' :: result.2 := by
  rw [readEntries] at h
  split at h
  · rename_i hbrace
    rw [Except.ok.injEq] at h
    exact ⟨[], by rw [hbrace, ← h]; rfl⟩
  · obtain ⟨entries, -, htext⟩ := exists_entriesText h
    exact ⟨entries, htext⟩

theorem readDim_eq_ok {dim : Int} (h : readDim lit pt = .ok dim) :
    ∃ (beforeSlash beforeDim : Blanks) (i : IntText) (after : Blanks),
      pt = beforeSlash.1 ++ '/' :: (beforeDim.1 ++ (i.text ++ after.1)) := by
  rw [readDim] at h
  split at h
  · rename_i rest hslash
    split at h
    · simp at h
    · rename_i n stringEnd hstrtol
      split at h
      · rename_i hend
        obtain ⟨i, htext, -⟩ := strtol_eq_some hstrtol
        rw [skipSpace_of_head (skipSpace_head rest)] at htext
        have hafter := leadingBlanks_append stringEnd
        rw [List.isEmpty_iff.mp hend, List.append_nil] at hafter
        refine ⟨leadingBlanks pt, leadingBlanks rest, i, leadingBlanks stringEnd, ?_⟩
        rw [hafter, ← htext, leadingBlanks_append, ← hslash, leadingBlanks_append]
      · simp at h
  · simp at h

theorem exists_literal {typmod : Int} {v : SparseVector}
    (h : sparsevecIn T.toFloatText lit typmod = .ok v) :
    ∃ L : Literal T.toFloatText, L.text = lit := by
  simp only [sparsevecIn, bind_eq_ok] at h
  obtain ⟨_, _, h⟩ := h
  split at h
  · rename_i pt hbrace
    simp only [bind_eq_ok] at h
    obtain ⟨result, hentries, dim, hdim, -⟩ := h
    obtain ⟨entries, htext⟩ := readEntries_eq_ok hentries
    obtain ⟨beforeSlash, beforeDim, i, after, hrest⟩ := readDim_eq_ok hdim
    refine ⟨⟨leadingBlanks lit, leadingBlanks pt, entries, beforeSlash, beforeDim, i, after⟩, ?_⟩
    simp only [Literal.text, Literal.dimText]
    rw [← hrest, ← htext, leadingBlanks_append, ← hbrace, leadingBlanks_append]
  · simp at h

end Accepted

end PgVector.Types
