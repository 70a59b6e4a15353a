import Kroker.Grounding.Quotes
import Kroker.Capability.Identity
import Mathlib.Algebra.Order.Field.Basic
import Mathlib.Algebra.Order.Field.Rat

/-!
# Evidence ranges

`verify_rows` of `assessment/verification.py` keeps the rows whose references all resolve.  A
reference names a file and, in `lines`, nothing, a line or a span; the docstrings say that a range
is `"42"` or `"42-78"`, and that lines are counted as a reader of the file does.

## 1.  How lines are counted

`splitlines` breaks at more than line feeds, so it counts no fewer lines than a reader
(`readerSpan_le_lineSpan`), and more where a form feed or a lone carriage return stands in a line.

## 2.  How a range is read

`rangeRefusal_eq_empty_iff` --- a range is let pass if `int` reads what stands before its first
hyphen and after its last.  That is wider than the grammar of `Spelled` but for one thing: `int`
refuses more than 4300 digits.  `loose_iff` and `overlong_iff` say where the two differ.

## 3.  Which rows are kept

`verifyRows_exact_iff` --- the rows that are kept are the ones whose evidence is `Sound` exactly if
each row is `Judged` rightly.
-/

namespace Kroker.Discover

/-! ## 1.  How lines are counted -/

/-- The lines a reader counts: each line feed ends one, and what follows the last is one more. -/
def readerSpan (text : String) : ℕ :=
  text.toList.count '\n' + if text.toList.getLast? = some '\n' then 0 else 1

def linesFrom (begun : Bool) (text : List Char) : ℕ :=
  text.count '\n' + match text.getLast? with
    | none => if begun then 1 else 0
    | some c => if c = '\n' then 0 else 1

theorem linesFrom_cons (begun : Bool) (c : Char) (rest : List Char) :
    linesFrom begun (c :: rest) = (if c = '\n' then 1 else 0) + linesFrom (c ≠ '\n') rest := by
  have hcount : (c :: rest).count '\n' = rest.count '\n' + if c = '\n' then 1 else 0 := by
    simp [List.count_cons]
  rw [linesFrom, linesFrom, hcount]
  cases rest with
  | nil => by_cases hc : c = '\n' <;> simp [hc]
  | cons d rest =>
    rw [List.getLast?_cons_cons]
    cases hlast : (d :: rest).getLast? with
    | none => exact absurd (List.getLast?_eq_none_iff.mp hlast) (List.cons_ne_nil d rest)
    | some e =>
      dsimp only
      omega

theorem linesFrom_le_false (begun : Bool) (text : List Char) :
    linesFrom begun text ≤ 1 + linesFrom false text := by
  cases text with
  | nil => cases begun <;> simp [linesFrom]
  | cons c rest =>
    rw [linesFrom_cons, linesFrom_cons]
    omega

theorem linesFrom_le (begun : Bool) (text : List Char) :
    linesFrom begun text ≤ splitlinesLength begun text := by
  fun_induction splitlinesLength begun text with
  | case1 => exact le_rfl
  | case2 begun hbegun =>
    rw [Bool.not_eq_true] at hbegun
    rw [hbegun]
    exact le_rfl
  | case3 begun rest ih =>
    rw [linesFrom_cons, linesFrom_cons, if_neg (by decide), if_pos rfl]
    simpa using ih
  | case4 begun c rest _ hc ih =>
    rw [linesFrom_cons]
    by_cases hnewline : c = '\n'
    · simpa [hnewline] using ih
    · have hle := linesFrom_le_false (c ≠ '\n') rest
      rw [if_neg hnewline]
      omega
  | case5 begun c rest _ hc ih =>
    have hne : c ≠ '\n' := fun h => hc (h ▸ by decide)
    rw [linesFrom_cons, if_neg hne, decide_eq_true hne]
    omega

/-- **`splitlines` counts no fewer lines than a reader.** -/
theorem readerSpan_le_lineSpan (text : String) : readerSpan text ≤ lineSpan text := by
  have hle := linesFrom_le false text.toList
  rw [linesFrom] at hle
  rw [readerSpan, lineSpan]
  cases hlast : text.toList.getLast? with
  | none =>
    rw [List.getLast?_eq_none_iff] at hlast
    rw [hlast]
    decide
  | some c =>
    rw [hlast] at hle
    simp only [Option.some.injEq] at hle ⊢
    split_ifs at hle ⊢ <;> omega

/-! ## 2.  How a range is read -/

/-- A decimal numeral and its value. -/
def Numeral (digits : List Char) (n : ℕ) : Prop :=
  digits ≠ [] ∧ (∀ c ∈ digits, c.isDigit = true) ∧ Nat.ofDigitChars 10 digits 0 = n

/-- The grammar of a range: `n`, or `n-m`. -/
def Spelled (lines : String) (n m : ℕ) : Prop :=
  (n = m ∧ Numeral lines.toList n) ∨
    ∃ a b, Numeral a n ∧ Numeral b m ∧ lines.toList = a ++ '-' :: b

/-- **The range lies inside the file**, as it is spelled and as a reader counts. -/
def Inside (lines body : String) : Prop :=
  lines = "" ∨ ∃ n m, Spelled lines n m ∧ 1 ≤ n ∧ n ≤ m ∧ m ≤ readerSpan body

/-- What stands between the hyphens. -/
def rangeParts (lines : String) : List String := (lines.toList.splitOn '-').map String.ofList

/-- `int` reads the range, and it lies inside the file as `splitlines` counts. -/
def Passes (D : UnicodeDigits) (lines body : String) : Prop :=
  lines = "" ∨ ∃ n m : ℤ, pyInt D ((rangeParts lines).headD "") = some n ∧
    pyInt D ((rangeParts lines).getLastD "") = some m ∧ 1 ≤ n ∧ n ≤ m ∧ m ≤ lineSpan body

/-- No numeral of the range is longer than `int` reads. -/
def Short (lines : String) : Prop := ∀ part ∈ rangeParts lines, part.length ≤ 4300

/-- A range that passes, although it is not spelled as one or ends past what a reader counts. -/
def Loose (D : UnicodeDigits) (lines body : String) : Prop :=
  Passes D lines body ∧ lines ≠ "" ∧ ∀ n m, Spelled lines n m → readerSpan body < m

/-- A range inside the file with a numeral that is too long for `int`. -/
def Overlong (lines body : String) : Prop := Inside lines body ∧ ¬Short lines

theorem rangeRefusal_eq_empty_iff {D : UnicodeDigits} {ref : EvidenceRef} {body : String} :
    rangeRefusal D ref body = "" ↔ Passes D ref.lines body := by
  rw [rangeRefusal, Passes, rangeParts]
  by_cases hempty : ref.lines = ""
  · rw [if_pos hempty]
    exact iff_of_true rfl (.inl hempty)
  · rw [if_neg hempty]
    dsimp only
    split
    · rename_i first last hfirst hlast
      rw [hfirst, hlast]
      split_ifs with hrange
      · refine iff_of_false (by decide) ?_
        rintro (h | ⟨n, m, hn, hm, hn1, hnm, hbody⟩)
        · exact hempty h
        · obtain rfl := Option.some.inj hn
          obtain rfl := Option.some.inj hm
          omega
      · refine iff_of_true rfl (.inr ⟨first, last, rfl, rfl, ?_⟩)
        omega
    · rename_i hnone
      refine iff_of_false (by decide) ?_
      rintro (h | ⟨n, m, hn, hm, -⟩)
      · exact hempty h
      · exact hnone n m hn hm

theorem isSpace_of_isDigit {c : Char} (h : c.isDigit = true) : isSpace c = false := by
  rw [Char.isDigit, Bool.and_eq_true, decide_eq_true_eq, decide_eq_true_eq] at h
  have hlow : 48 ≤ c.toNat := h.1
  have hhigh : c.toNat ≤ 57 := h.2
  rw [isSpace]
  simp only [Bool.or_eq_false_iff, Bool.and_eq_false_iff, decide_eq_false_iff_not, not_le,
    List.mem_cons, List.not_mem_nil, or_false, not_or]
  omega

theorem Numeral.notMem {digits : List Char} {n : ℕ} (h : Numeral digits n) {c : Char}
    (hc : c.isDigit = false) : c ∉ digits :=
  fun hmem => Bool.false_ne_true (hc.symm.trans (h.2.1 c hmem))

theorem pyInt_numeral (D : UnicodeDigits) {digits : List Char} {n : ℕ} (h : Numeral digits n) :
    pyInt D (String.ofList digits) = if digits.length ≤ 4300 then some (n : ℤ) else none := by
  obtain ⟨hne, hdigits, hvalue⟩ := h
  have hstrip : strip (String.ofList digits) = String.ofList digits := by
    refine strip_eq_self (fun c hc => ?_) fun c hc => ?_ <;> rw [String.toList_ofList] at hc
    · exact isSpace_of_isDigit (hdigits c (List.mem_of_mem_head? hc))
    · exact isSpace_of_isDigit (hdigits c (List.mem_of_mem_getLast? hc))
  have hhead : ∀ c : Char, c.isDigit = false → digits.head? ≠ some c :=
    fun c hc hmem => Numeral.notMem ⟨hne, hdigits, hvalue⟩ hc (List.mem_of_mem_head? hmem)
  have hminus := hhead '-' (by decide)
  have hplus := hhead '+' (by decide)
  have hgroups : digits.splitOn '_' = [digits] :=
    List.splitOn_eq_singleton (Numeral.notMem ⟨hne, hdigits, hvalue⟩ (by decide))
  unfold pyInt
  dsimp only
  rw [hstrip, String.toList_ofList, if_neg hminus, if_neg (not_or.mpr ⟨hminus, hplus⟩), hgroups,
    List.flatten_singleton]
  by_cases hlength : digits.length ≤ 4300
  · have hread : ¬([] ∈ [digits] ∨ 4300 < digits.length) := by
      rintro (hnil | hlong)
      · exact hne (List.mem_singleton.mp hnil).symm
      · omega
    rw [if_pos hlength, if_neg hread, D.valueOf_of_isDigit hdigits, hvalue]
    exact congrArg some (one_mul (n : ℤ))
  · rw [if_neg hlength, if_pos (.inr (by omega))]

theorem rangeParts_of_spelled {lines : String} {n m : ℕ} (h : Spelled lines n m) :
    lines ≠ "" ∧ ∃ a b, Numeral a n ∧ Numeral b m ∧
      (rangeParts lines).headD "" = String.ofList a ∧
      (rangeParts lines).getLastD "" = String.ofList b ∧
      (Short lines ↔ a.length ≤ 4300 ∧ b.length ≤ 4300) := by
  rcases h with ⟨rfl, hnumeral⟩ | ⟨a, b, ha, hb, hlines⟩
  · have hparts : rangeParts lines = [lines] := by
      rw [rangeParts, List.splitOn_eq_singleton (hnumeral.notMem (by decide)), List.map_singleton,
        String.ofList_toList]
    refine ⟨fun hempty => hnumeral.1 (hempty ▸ rfl), lines.toList, lines.toList, hnumeral, hnumeral,
      ?_⟩
    rw [Short, hparts, String.ofList_toList]
    simp [String.length_toList]
  · have hparts : rangeParts lines = [String.ofList a, String.ofList b] := by
      rw [rangeParts, hlines, List.splitOn_append_cons_self_of_not_mem (ha.notMem (by decide)),
        List.splitOn_eq_singleton (hb.notMem (by decide))]
      rfl
    refine ⟨fun hempty => ?_, a, b, ha, hb, ?_⟩
    · rw [hempty] at hlines
      exact absurd hlines (by simp)
    · rw [Short, hparts]
      simp

theorem passes_spelled_iff {D : UnicodeDigits} {lines body : String} {n m : ℕ}
    (h : Spelled lines n m) :
    Passes D lines body ↔ Short lines ∧ 1 ≤ n ∧ n ≤ m ∧ m ≤ lineSpan body := by
  obtain ⟨hne, a, b, ha, hb, hhead, hlast, hshort⟩ := rangeParts_of_spelled h
  rw [Passes, hhead, hlast, pyInt_numeral D ha, pyInt_numeral D hb, hshort]
  constructor
  · rintro (hempty | ⟨n', m', hn, hm, hrange⟩)
    · exact absurd hempty hne
    · split_ifs at hn hm with hlength hlength'
      obtain rfl := Option.some.inj hn
      obtain rfl := Option.some.inj hm
      exact ⟨⟨hlength, hlength'⟩, by omega⟩
  · rintro ⟨⟨hlength, hlength'⟩, hrange⟩
    exact .inr ⟨n, m, if_pos hlength, if_pos hlength', by omega⟩

/-- **Where the code lets more pass** than lies inside. -/
theorem loose_iff {D : UnicodeDigits} {lines body : String} :
    Loose D lines body ↔ Passes D lines body ∧ ¬Inside lines body := by
  constructor
  · rintro ⟨hpasses, hne, hpast⟩
    refine ⟨hpasses, ?_⟩
    rintro (hempty | ⟨n, m, hspelled, -, -, hspan⟩)
    · exact hne hempty
    · exact absurd (hpast n m hspelled) (not_lt.mpr hspan)
  · rintro ⟨hpasses, hinside⟩
    refine ⟨hpasses, fun hempty => hinside (.inl hempty), fun n m hspelled => ?_⟩
    by_contra hspan
    obtain ⟨-, hn, hnm, -⟩ := (passes_spelled_iff hspelled).mp hpasses
    exact hinside (.inr ⟨n, m, hspelled, hn, hnm, not_lt.mp hspan⟩)

/-- **Where the code lets less pass** than lies inside. -/
theorem overlong_iff {D : UnicodeDigits} {lines body : String} :
    Overlong lines body ↔ ¬Passes D lines body ∧ Inside lines body := by
  constructor
  · rintro ⟨hinside, hlong⟩
    refine ⟨fun hpasses => hlong ?_, hinside⟩
    rcases hinside with rfl | ⟨n, m, hspelled, -⟩
    · exact fun part hpart => by rw [List.mem_singleton.mp hpart]; decide
    · exact ((passes_spelled_iff hspelled).mp hpasses).1
  · rintro ⟨hpasses, hinside⟩
    refine ⟨hinside, fun hshort => hpasses ?_⟩
    rcases hinside with rfl | ⟨n, m, hspelled, hn, hnm, hspan⟩
    · exact .inl rfl
    · exact (passes_spelled_iff hspelled).mpr
        ⟨hshort, hn, hnm, hspan.trans (readerSpan_le_lineSpan body)⟩

/-! ## 3.  Which rows are kept -/

theorem Refusal.add_rule_eq_empty {r : Refusal} {rule detail : String} (h : rule ≠ "") :
    (r.add rule detail).rule ≠ "" := by
  rw [Refusal.add]
  dsimp only
  split_ifs with hr
  · exact h
  · exact hr

section Rows

variable {R : Type} [VerifiableRow R] {D : UnicodeDigits} {blobs : String → Option String}

open VerifiableRow

def RefPasses (D : UnicodeDigits) (blobs : String → Option String) (ref : EvidenceRef) : Prop :=
  ∃ body, blobs ref.path = some body ∧ Passes D ref.lines body

theorem refuseRef_rule_iff {r : Refusal} {ref : EvidenceRef} :
    (refuseRef D blobs r ref).rule = "" ↔ r.rule = "" ∧ RefPasses D blobs ref := by
  rw [refuseRef, RefPasses]
  cases hblob : blobs ref.path with
  | none => exact iff_of_false (Refusal.add_rule_eq_empty (by decide)) (by simp)
  | some body =>
    have hpasses : (∃ b, some body = some b ∧ Passes D ref.lines b) ↔ Passes D ref.lines body := by
      simp
    rw [hpasses, ← rangeRefusal_eq_empty_iff]
    dsimp only
    split_ifs with hrange
    · exact (and_iff_left hrange).symm
    · exact iff_of_false (Refusal.add_rule_eq_empty hrange) fun h => hrange h.2

theorem foldl_refuseRef_rule_iff {refs : List EvidenceRef} {r : Refusal} :
    (refs.foldl (refuseRef D blobs) r).rule = "" ↔
      r.rule = "" ∧ ∀ ref ∈ refs, RefPasses D blobs ref := by
  induction refs generalizing r with
  | nil => simp
  | cons ref refs ih =>
    rw [List.foldl_cons, ih, refuseRef_rule_iff, List.forall_mem_cons, and_assoc]

theorem refuse_unresolved_le (row : R) : (refuse D blobs row).unresolved ≤ referencesOf row := by
  have href : ∀ (r : Refusal) (ref : EvidenceRef),
      (refuseRef D blobs r ref).unresolved ≤ r.unresolved + 1 := by
    intro r ref
    rw [refuseRef]
    split
    · exact le_rfl
    · split_ifs
      · exact Nat.le_succ _
      · exact le_rfl
  have hrefs : ∀ (refs : List EvidenceRef) (r : Refusal),
      (refs.foldl (refuseRef D blobs) r).unresolved ≤ r.unresolved + refs.length := by
    intro refs
    induction refs with
    | nil => exact fun r => le_rfl
    | cons ref refs ih =>
      intro r
      have hstep := href r ref
      have hrest := ih (refuseRef D blobs r ref)
      rw [List.foldl_cons, List.length_cons]
      omega
  have hquote : ∀ (r : Refusal) (refs : List EvidenceRef) (quote : String),
      (refuseQuote blobs r refs quote).unresolved ≤
        r.unresolved + if quote = "" then 0 else 1 := by
    intro r refs quote
    unfold refuseQuote
    by_cases hempty : quote = ""
    · rw [if_pos hempty, if_pos hempty]
      exact le_rfl
    · rw [if_neg hempty, if_neg hempty]
      split_ifs
      · exact le_rfl
      · split
        · exact le_rfl
        · split
          · exact Nat.le_succ _
          · split_ifs
            · exact Nat.le_succ _
            · exact le_rfl
  have hall := hrefs (evidence row) {}
  have hlast := hquote ((evidence row).foldl (refuseRef D blobs) {}) (evidence row) (quote row)
  rw [refuse, referencesOf]
  have hzero : ({} : Refusal).unresolved = 0 := rfl
  omega

/-- The text of the file that the first evidence path names. -/
def Anchor (blobs : String → Option String) (row : R) (body : String) : Prop :=
  ∃ ref rest, evidence row = ref :: rest ∧ blobs ref.path = some body

/-- A quote that is refused: it is blank, or has no evidence, or is not found in the file. -/
def QuoteBad (blobs : String → Option String) (row : R) : Prop :=
  quote row ≠ "" ∧ (strip (quote row) = "" ∨ evidence row = [] ∨
    ∃ body, Anchor blobs row body ∧ verifyQuote (quote row) body = false)

theorem refuseQuote_rule_iff {r : Refusal} {row : R} :
    (refuseQuote blobs r (evidence row) (quote row)).rule = "" ↔
      r.rule = "" ∧ ¬QuoteBad blobs row := by
  unfold refuseQuote QuoteBad
  split_ifs with hempty hblank
  · exact (and_iff_left fun h => h.1 hempty).symm
  · exact iff_of_false (Refusal.add_rule_eq_empty (by decide)) fun h => h.2 ⟨hempty, .inl hblank⟩
  · cases hevidence : evidence row with
    | nil =>
      exact iff_of_false (Refusal.add_rule_eq_empty (by decide))
        fun h => h.2 ⟨hempty, .inr (.inl rfl)⟩
    | cons ref rest =>
      have hanchor : ∀ body, Anchor blobs row body ↔ blobs ref.path = some body := by
        intro body
        rw [Anchor, hevidence]
        constructor
        · rintro ⟨ref', rest', hcons, hbody⟩
          obtain ⟨rfl, -⟩ := List.cons.inj hcons
          exact hbody
        · exact fun hbody => ⟨ref, rest, rfl, hbody⟩
      simp only [hanchor]
      cases hblob : blobs ref.path with
      | none => simp [hblank]
      | some body =>
        dsimp only
        split_ifs with hverified
        · simp [hblank, hverified]
        · refine iff_of_false (Refusal.add_rule_eq_empty (by decide)) fun h => h.2 ⟨hempty, ?_⟩
          exact .inr (.inr ⟨body, rfl, Bool.not_eq_true _ ▸ hverified⟩)

/-- **What `_refuse` accepts.** -/
theorem accepted_iff {row : R} : Accepted D blobs row ↔
    (∀ ref ∈ evidence row, RefPasses D blobs ref) ∧ ¬QuoteBad blobs row := by
  rw [Accepted, refuse, refuseQuote_rule_iff, foldl_refuseRef_rule_iff]
  exact and_congr_left fun _ => and_iff_right rfl

/-- **The evidence of a row is sound**: every path resolves, every range is spelled as one and lies
inside its file, and a quote is not blank and occurs in the file of the first path. -/
def Sound (blobs : String → Option String) (occurs : String → String → Prop) (row : R) : Prop :=
  (∀ ref ∈ evidence row, ∃ body, blobs ref.path = some body ∧ Inside ref.lines body) ∧
    (quote row ≠ "" → strip (quote row) ≠ "" ∧
      ∃ body, Anchor blobs row body ∧ occurs (quote row) body)

/-- A reference that neither passes nor lies inside its file. -/
def RefBad (D : UnicodeDigits) (blobs : String → Option String) (ref : EvidenceRef) : Prop :=
  ∀ body, blobs ref.path = some body → ¬Passes D ref.lines body ∧ ¬Inside ref.lines body

/-- A reference or a quote of the row passes and should not. -/
def HasLoose (D : UnicodeDigits) (blobs : String → Option String) (occurs : String → String → Prop)
    (row : R) : Prop :=
  (∃ ref ∈ evidence row, ∃ body, blobs ref.path = some body ∧ Loose D ref.lines body) ∨
    quote row ≠ "" ∧ ∃ body, Anchor blobs row body ∧ verifyQuote (quote row) body = true ∧
      ¬occurs (quote row) body

/-- A reference of the row is refused and should not be. -/
def HasOverlong (blobs : String → Option String) (row : R) : Prop :=
  ∃ ref ∈ evidence row, ∃ body, blobs ref.path = some body ∧ Overlong ref.lines body

/-- **What is judged rightly**: a row with a reference or a quote that is bad either way, or with
both kinds of slip, or with neither. -/
def Judged (D : UnicodeDigits) (blobs : String → Option String) (occurs : String → String → Prop)
    (row : R) : Prop :=
  (∃ ref ∈ evidence row, RefBad D blobs ref) ∨ QuoteBad blobs row ∨
    (HasLoose D blobs occurs row ↔ HasOverlong blobs row)

theorem refPasses_iff {ref : EvidenceRef} : RefPasses D blobs ref ↔ ¬RefBad D blobs ref ∧
    ¬∃ body, blobs ref.path = some body ∧ Overlong ref.lines body := by
  rw [RefPasses, RefBad]
  cases blobs ref.path with
  | none => simp
  | some body =>
    simp only [Option.some.injEq, exists_eq_left', forall_eq', overlong_iff (D := D)]
    by_cases hpasses : Passes D ref.lines body <;> simp [hpasses]

theorem refInside_iff {ref : EvidenceRef} :
    (∃ body, blobs ref.path = some body ∧ Inside ref.lines body) ↔ ¬RefBad D blobs ref ∧
      ¬∃ body, blobs ref.path = some body ∧ Loose D ref.lines body := by
  rw [RefBad]
  cases blobs ref.path with
  | none => simp
  | some body =>
    simp only [Option.some.injEq, exists_eq_left', forall_eq', loose_iff]
    by_cases hinside : Inside ref.lines body <;> simp [hinside]

theorem accepted_iff_not {row : R} : Accepted D blobs row ↔
    ¬(∃ ref ∈ evidence row, RefBad D blobs ref) ∧ ¬HasOverlong blobs row ∧ ¬QuoteBad blobs row := by
  rw [accepted_iff, HasOverlong, ← and_assoc]
  refine and_congr_left fun _ => ?_
  simp only [refPasses_iff, not_exists, not_and, forall_and]

theorem sound_iff_not {occurs : String → String → Prop}
    (hoccurs : ∀ quote body, strip quote ≠ "" → occurs quote body → verifyQuote quote body = true)
    {row : R} : Sound blobs occurs row ↔ ¬(∃ ref ∈ evidence row, RefBad D blobs ref) ∧
      ¬HasLoose D blobs occurs row ∧ ¬QuoteBad blobs row := by
  have hrefs : (∀ ref ∈ evidence row, ∃ body, blobs ref.path = some body ∧ Inside ref.lines body) ↔
      ¬(∃ ref ∈ evidence row, RefBad D blobs ref) ∧
        ¬∃ ref ∈ evidence row, ∃ body, blobs ref.path = some body ∧ Loose D ref.lines body := by
    simp only [refInside_iff (D := D), not_exists, not_and, forall_and]
  have hone : ∀ body body', Anchor blobs row body → Anchor blobs row body' → body = body' := by
    rintro body body' ⟨ref, rest, hcons, hbody⟩ ⟨ref', rest', hcons', hbody'⟩
    obtain ⟨rfl, -⟩ := List.cons.inj (hcons.symm.trans hcons')
    exact Option.some.inj (hbody.symm.trans hbody')
  -- Where every path resolves, the first one has a text.
  have hquote : (∀ ref ∈ evidence row, ∃ body, blobs ref.path = some body ∧
        Inside ref.lines body) →
      ((quote row ≠ "" → strip (quote row) ≠ "" ∧
          ∃ body, Anchor blobs row body ∧ occurs (quote row) body) ↔
        ¬(quote row ≠ "" ∧ ∃ body, Anchor blobs row body ∧ verifyQuote (quote row) body = true ∧
          ¬occurs (quote row) body) ∧ ¬QuoteBad blobs row) := by
    intro hresolve
    constructor
    · intro h
      refine ⟨?_, ?_⟩
      · rintro ⟨hne, body, hbody, -, hnot⟩
        obtain ⟨-, body', hbody', hoccurs'⟩ := h hne
        exact hnot (hone _ _ hbody' hbody ▸ hoccurs')
      · rintro ⟨hne, hbad⟩
        obtain ⟨hblank, body, hbody, hoccurs'⟩ := h hne
        rcases hbad with hempty | hnil | ⟨body', hbody', hrefused⟩
        · exact hblank hempty
        · obtain ⟨ref, rest, hcons, -⟩ := hbody
          exact List.cons_ne_nil ref rest (hcons.symm.trans hnil)
        · have hverified := hoccurs _ _ hblank hoccurs'
          rw [hone _ _ hbody hbody'] at hverified
          exact Bool.false_ne_true (hrefused.symm.trans hverified)
    · rintro ⟨hloose, hbad⟩ hne
      have hblank : strip (quote row) ≠ "" := fun hempty => hbad ⟨hne, .inl hempty⟩
      obtain ⟨ref, rest, hcons⟩ := List.exists_cons_of_ne_nil
        fun hnil => hbad ⟨hne, .inr (.inl hnil)⟩
      obtain ⟨body, hbody, -⟩ := hresolve ref (hcons ▸ List.mem_cons_self)
      refine ⟨hblank, body, ⟨ref, rest, hcons, hbody⟩, ?_⟩
      by_contra hnot
      refine hloose ⟨hne, body, ⟨ref, rest, hcons, hbody⟩, ?_, hnot⟩
      by_contra hrefused
      exact hbad ⟨hne, .inr (.inr ⟨body, ⟨ref, rest, hcons, hbody⟩, Bool.not_eq_true _ ▸ hrefused⟩)⟩
  rw [Sound, HasLoose, and_congr_right hquote, hrefs, not_or, and_assoc, and_assoc]

def RowVerification.fabricationRate (v : RowVerification R) : ℚ :=
  if v.totalReferences = 0 then 0 else v.unresolvedReferences / v.totalReferences

theorem unresolved_le_total {idOf : R → String} (rows : List R) :
    (verifyRows D blobs idOf rows).unresolvedReferences ≤
      (verifyRows D blobs idOf rows).totalReferences := by
  have hall : ∀ v : RowVerification R, v.unresolvedReferences ≤ v.totalReferences →
      (rows.foldl (verifyRow D blobs idOf) v).unresolvedReferences ≤
        (rows.foldl (verifyRow D blobs idOf) v).totalReferences := by
    induction rows with
    | nil => exact fun v hv => hv
    | cons row rows ih =>
      intro v hv
      exact ih _ (Nat.add_le_add hv (refuse_unresolved_le row))
  exact hall _ le_rfl

omit [VerifiableRow R] in
theorem fabricationRate_mem (v : RowVerification R)
    (h : v.unresolvedReferences ≤ v.totalReferences) :
    0 ≤ v.fabricationRate ∧ v.fabricationRate ≤ 1 := by
  rw [RowVerification.fabricationRate]
  split_ifs with hzero
  · exact ⟨le_rfl, zero_le_one⟩
  · have hpos : (0 : ℚ) < v.totalReferences := Nat.cast_pos.mpr (Nat.pos_of_ne_zero hzero)
    exact ⟨div_nonneg (Nat.cast_nonneg _) hpos.le, (div_le_one hpos).mpr (Nat.cast_le.mpr h)⟩

/-- **Evidence is checked exactly** exactly if each row is judged rightly: then, and only then, are
the survivors the sound rows, in their order and each as often as it was proposed.  The counts are
related, and the rate is between zero and one, for any rows. -/
theorem verifyRows_exact_iff (D : UnicodeDigits) (blobs : String → Option String)
    (occurs : String → String → Prop)
    (hoccurs : ∀ quote body, strip quote ≠ "" → occurs quote body → verifyQuote quote body = true)
    (idOf : R → String) (rows : List R) :
    ((∃ keep : R → Bool, (∀ row ∈ rows, keep row = true ↔ Sound blobs occurs row) ∧
        (verifyRows D blobs idOf rows).survivors = rows.filter keep) ∧
      (verifyRows D blobs idOf rows).unresolvedReferences ≤
        (verifyRows D blobs idOf rows).totalReferences ∧
      0 ≤ (verifyRows D blobs idOf rows).fabricationRate ∧
      (verifyRows D blobs idOf rows).fabricationRate ≤ 1) ↔
    ∀ row ∈ rows, Judged D blobs occurs row := by
  have hcounts : (verifyRows D blobs idOf rows).unresolvedReferences ≤
      (verifyRows D blobs idOf rows).totalReferences := unresolved_le_total rows
  have hrate := fabricationRate_mem _ hcounts
  have hrow : ∀ row : R, (Accepted D blobs row ↔ Sound blobs occurs row) ↔
      Judged D blobs occurs row := by
    intro row
    rw [accepted_iff_not, sound_iff_not hoccurs (D := D), Judged]
    by_cases href : ∃ ref ∈ evidence row, RefBad D blobs ref
    · simp [href]
    · by_cases hquote : QuoteBad blobs row
      · simp [hquote]
      · rw [and_iff_right href, and_iff_right href, and_iff_left hquote, and_iff_left hquote,
          or_iff_right href, or_iff_right hquote, not_iff_not]
        exact iff_comm
  rw [and_iff_left ⟨hcounts, hrate⟩, survivors_verifyRows]
  simp only [← hrow]
  constructor
  · rintro ⟨keep, hkeep, hfilter⟩ row hmem
    rw [← hkeep row hmem]
    have hsame : row ∈ rows.filter (fun row => Accepted D blobs row) ↔ row ∈ rows.filter keep := by
      rw [hfilter]
    rw [List.mem_filter, List.mem_filter, decide_eq_true_eq] at hsame
    exact (and_congr_right_iff.mp hsame) hmem
  · exact fun h => ⟨fun row => Accepted D blobs row,
      fun row hmem => decide_eq_true_iff.trans (h row hmem), rfl⟩

end Rows

def StandsIn (quote body : String) : Prop := quote.toList <:+: body.toList

def samplePage (path : String) : Option String := if path = "a.py" then some "a\x0cb" else none

/-- A row that cites the second line of a file of one line, in which a form feed stands. -/
def sampleCitation : ProposedDisposition where
  candidateId := "c"
  action := .confirm
  rationale := "r"
  evidence := [⟨"a.py", "2"⟩]

theorem verifyRows_exact_iff_sample :
    ((∃ keep : ProposedDisposition → Bool,
        (∀ row ∈ [sampleCitation], keep row = true ↔ Sound samplePage StandsIn row) ∧
        (verifyRows asciiDigits samplePage ProposedDisposition.candidateId
          [sampleCitation]).survivors = [sampleCitation].filter keep) ∧
      (verifyRows asciiDigits samplePage ProposedDisposition.candidateId
          [sampleCitation]).unresolvedReferences ≤
        (verifyRows asciiDigits samplePage ProposedDisposition.candidateId
          [sampleCitation]).totalReferences ∧
      0 ≤ (verifyRows asciiDigits samplePage ProposedDisposition.candidateId
          [sampleCitation]).fabricationRate ∧
      (verifyRows asciiDigits samplePage ProposedDisposition.candidateId
          [sampleCitation]).fabricationRate ≤ 1) ↔
    ∀ row ∈ [sampleCitation], Judged asciiDigits samplePage StandsIn row :=
  verifyRows_exact_iff asciiDigits samplePage StandsIn (fun _ _ => verifyQuote_of_infix)
    ProposedDisposition.candidateId [sampleCitation]

theorem form_feed_counted :
    (verifyRows asciiDigits samplePage ProposedDisposition.candidateId [sampleCitation]).survivors =
      [sampleCitation] ∧
    ¬Sound samplePage StandsIn sampleCitation := by
  refine ⟨by decide +kernel, fun hsound => ?_⟩
  obtain ⟨body, hbody, hinside⟩ := hsound.1 ⟨"a.py", "2"⟩ List.mem_cons_self
  obtain rfl : "a\x0cb" = body := Option.some.inj hbody
  have hspan : readerSpan "a\x0cb" = 1 := by decide +kernel
  rcases hinside with hempty | ⟨n, m, hspelled, hn, hnm, hm⟩
  · exact absurd hempty (by decide)
  · rw [hspan] at hm
    rcases hspelled with ⟨rfl, -, -, hvalue⟩ | ⟨a, b, -, -, hlines⟩
    · have htwo : Nat.ofDigitChars 10 "2".toList 0 = 2 := by decide +kernel
      have hn2 : n = 2 := hvalue.symm.trans htwo
      omega
    · have hmem : '-' ∈ "2".toList := by
        rw [show "2".toList = a ++ '-' :: b from hlines]
        exact List.mem_append_right _ List.mem_cons_self
      exact absurd hmem (by decide)

end Kroker.Discover
