import Kroker.Assessment.Discover
import Kroker.Core.Lines

/-!
# Verification: every reference resolved, every quote found

`assessment/verification.py`, the check both proposers' rows go through: a row whose references do
not all resolve at the pinned commit is refused, the others survive, and the share of unresolved
references decides whether the proposal as a whole is usable.

`blobs` gives the text under a cited path, or nothing when the path does not resolve.  `D` is what
`int` reads digits with.  The rate is a quotient of floats compared with `0.10`; here the integers
are compared, which agrees as long as the counts are below `2^53`.
-/

namespace Kroker.Discover

/-! ## Rows that can be verified -/

class VerifiableRow (R : Type) where
  evidence : R → List EvidenceRef
  quote : R → String

instance : VerifiableRow ProposedDisposition := ⟨ProposedDisposition.evidence, ProposedDisposition.quote⟩

/-! ## Line ranges -/

/-- `len(splitlines())`; `open` says whether a line has begun. -/
def splitlinesLength : Bool → List Char → ℕ
  | begun, [] => if begun then 1 else 0
  | _, '\r' :: '\n' :: rest => 1 + splitlinesLength false rest
  | _, c :: rest =>
    if c ∈ lineBreaks then 1 + splitlinesLength false rest else splitlinesLength true rest

/-- Lines in the file; an empty file is one empty line. -/
def lineSpan (text : String) : ℕ :=
  if splitlinesLength false text.toList = 0 then 1 else splitlinesLength false text.toList

theorem lawfulBEq_group : LawfulBEq (List Char) := inferInstance

/-- `int` of any text: blanks around, a sign, and digits with single underscores between them. -/
def pyInt (D : UnicodeDigits) (s : String) : Option ℤ :=
  haveI := lawfulBEq_group
  let body := (strip s).toList
  let sign : ℤ := if body.head? = some '-' then -1 else 1
  let digits := if body.head? = some '-' ∨ body.head? = some '+' then body.tail else body
  let groups := digits.splitOn '_'
  if [] ∈ groups ∨ 4300 < groups.flatten.length then none
  else (D.valueOf groups.flatten).map fun n => sign * (n : ℤ)

/-- `_range_refusal`: whether the lines of a reference lie inside the file. -/
def rangeRefusal (D : UnicodeDigits) (ref : EvidenceRef) (body : String) : String :=
  if ref.lines = "" then ""
  else
    let raw := (ref.lines.toList.splitOn '-').map String.ofList
    match pyInt D (raw.headD ""), pyInt D (raw.getLastD "") with
    | some first, some last =>
      if first < 1 ∨ last < first ∨ (lineSpan body : ℤ) < last then "dropped_ref_line_range" else ""
    | _, _ => "dropped_ref_line_range"

/-! ## Quotes -/

/-- `re.sub(r"\s+", " ", text)`. -/
def collapseBlanks : Bool → List Char → List Char
  | _, [] => []
  | blank, c :: rest =>
    if isSpace c then
      if blank then collapseBlanks true rest else ' ' :: collapseBlanks true rest
    else c :: collapseBlanks false rest

/-- `normalize` under `VERBATIM_BYTES`. -/
def normalizeVerbatim (text : String) : String :=
  strip (String.ofList (collapseBlanks false text.toList))

/-- `verify_quote` under `VERBATIM_BYTES`. -/
def verifyQuote (quote haystack : String) : Bool :=
  normalizeVerbatim quote ≠ "" &&
    decide ((normalizeVerbatim quote).toList <:+: (normalizeVerbatim haystack).toList)

/-! ## Refusals -/

/-- The first rule that refused a row, with its detail, and how many references did not resolve. -/
structure Refusal where
  rule : String := ""
  detail : String := ""
  unresolved : ℕ := 0

/-- One more reference that does not resolve. -/
def Refusal.add (r : Refusal) (rule detail : String) : Refusal where
  rule := if r.rule = "" then rule else r.rule
  detail := if r.rule = "" then detail else r.detail
  unresolved := r.unresolved + 1

def refuseRef (D : UnicodeDigits) (blobs : String → Option String) (r : Refusal)
    (ref : EvidenceRef) : Refusal :=
  match blobs ref.path with
  | none =>
    r.add "dropped_ref_unresolved"
      ("evidence path " ++ quoted ref.path ++ " does not resolve at the pinned commit")
  | some body =>
    if rangeRefusal D ref body = "" then r
    else
      r.add (rangeRefusal D ref body)
        ("evidence lines " ++ quoted ref.lines ++ " lie outside " ++ quoted ref.path ++
          ", which has " ++ toString (lineSpan body) ++ " line(s)")

def refuseQuote (blobs : String → Option String) (r : Refusal) (evidence : List EvidenceRef)
    (quote : String) : Refusal :=
  if quote = "" then r
  else if strip quote = "" then
    r.add "dropped_quote_empty"
      "the quote is blank, and an empty quote grounds trivially against any file (E-43)"
  else
    match evidence with
    | [] =>
      r.add "dropped_quote_unanchored"
        "the quote names no evidence path, so there is nothing to verify it against"
    | ref :: _ =>
      match blobs ref.path with
      | none => r
      | some body =>
        if verifyQuote quote body = true then r
        else
          r.add "dropped_quote_unverified"
            ("the quote does not byte-verify against " ++ quoted ref.path ++ " under VERBATIM_BYTES")

section Verify

variable {R : Type} [VerifiableRow R]

open VerifiableRow

def refuse (D : UnicodeDigits) (blobs : String → Option String) (row : R) : Refusal :=
  refuseQuote blobs ((evidence row).foldl (refuseRef D blobs) {}) (evidence row) (quote row)

/-- Whether every reference of a row resolves. -/
def Accepted (D : UnicodeDigits) (blobs : String → Option String) (row : R) : Prop :=
  (refuse D blobs row).rule = ""

instance (D : UnicodeDigits) (blobs : String → Option String) (row : R) :
    Decidable (Accepted D blobs row) := inferInstanceAs (Decidable (_ = _))

/-- What survived, what was refused, and the guard's two terms. -/
structure RowVerification (R : Type) where
  survivors : List R
  refusals : Dict (String × String)
  totalReferences : ℕ
  unresolvedReferences : ℕ

def referencesOf (row : R) : ℕ := (evidence row).length + (if quote row = "" then 0 else 1)

/-- The loop body of `verify_rows`. -/
def verifyRow (D : UnicodeDigits) (blobs : String → Option String) (idOf : R → String)
    (v : RowVerification R) (row : R) : RowVerification R where
  survivors := if Accepted D blobs row then v.survivors ++ [row] else v.survivors
  refusals :=
    if Accepted D blobs row then v.refusals
    else v.refusals.insert (idOf row) ((refuse D blobs row).rule, (refuse D blobs row).detail)
  totalReferences := v.totalReferences + referencesOf row
  unresolvedReferences := v.unresolvedReferences + (refuse D blobs row).unresolved

def verifyRows (D : UnicodeDigits) (blobs : String → Option String) (idOf : R → String)
    (rows : List R) : RowVerification R :=
  rows.foldl (verifyRow D blobs idOf) ⟨[], ∅, 0, 0⟩

end Verify

/-- `guard_reason`: why the whole proposal is unusable, or nothing when it is usable.  `rateText`
prints the rate with two decimals. -/
def guardReason {R : Type} (rateText : ℕ → ℕ → String) (v : RowVerification R) : String :=
  if 10 * v.unresolvedReferences ≤ v.totalReferences then ""
  else
    "the proposer's citation fabrication rate is " ++ toString v.unresolvedReferences ++ "/" ++
      toString v.totalReferences ++ " = " ++
      rateText v.unresolvedReferences v.totalReferences ++ ", past the 0.10 guard -- too many " ++
      "references failed to resolve for the surviving ones to be evidence"

/-! ## What the pass leaves -/

section Pass

variable {R : Type} [VerifiableRow R] {D : UnicodeDigits} {blobs : String → Option String}
  {idOf : R → String}

theorem foldl_verifyRow_survivors (rows : List R) (v : RowVerification R) :
    (rows.foldl (verifyRow D blobs idOf) v).survivors =
      v.survivors ++ rows.filter fun row => Accepted D blobs row := by
  induction rows generalizing v with
  | nil => rw [List.foldl_nil, List.filter_nil, List.append_nil]
  | cons row rows ih =>
    have hrow : (verifyRow D blobs idOf v row).survivors =
        if Accepted D blobs row then v.survivors ++ [row] else v.survivors := rfl
    rw [List.foldl_cons, ih, hrow, List.filter_cons]
    by_cases h : Accepted D blobs row
    · rw [if_pos h, if_pos (decide_eq_true h), List.append_assoc, List.singleton_append]
    · rw [if_neg h, if_neg (by simpa using h)]

/-- **The survivors are the accepted rows, in order.** -/
theorem survivors_verifyRows (rows : List R) :
    (verifyRows D blobs idOf rows).survivors = rows.filter fun row => Accepted D blobs row := by
  rw [verifyRows, foldl_verifyRow_survivors, List.nil_append]

theorem foldl_verifyRow_refusals (rows : List R) (v : RowVerification R) (id : String) :
    ((rows.foldl (verifyRow D blobs idOf) v).refusals[id]?).isSome = true ↔
      (v.refusals[id]?).isSome = true ∨ ∃ row ∈ rows, ¬Accepted D blobs row ∧ idOf row = id := by
  induction rows generalizing v with
  | nil => simp
  | cons row rows ih =>
    have hrow : (verifyRow D blobs idOf v row).refusals =
        if Accepted D blobs row then v.refusals
        else v.refusals.insert (idOf row)
          ((refuse D blobs row).rule, (refuse D blobs row).detail) := rfl
    rw [List.foldl_cons, ih, List.exists_mem_cons_iff, ← or_assoc, hrow]
    refine or_congr_left ?_
    by_cases h : Accepted D blobs row
    · rw [if_pos h]
      simp [h]
    · rw [if_neg h, Dict.get?_insert]
      by_cases hid : idOf row = id
      · simp [hid, h]
      · simp [hid]

/-- **An id is refused when a row of it is not accepted.** -/
theorem refused_verifyRows_iff (rows : List R) (id : String) :
    ((verifyRows D blobs idOf rows).refusals[id]?).isSome = true ↔
      ∃ row ∈ rows, ¬Accepted D blobs row ∧ idOf row = id := by
  rw [verifyRows, foldl_verifyRow_refusals]
  have hempty : ((∅ : Dict (String × String))[id]?).isSome = false := by
    rw [Dict.get?_empty]
    rfl
  rw [hempty]
  simp

end Pass

end Kroker.Discover
