import Kroker.Library.Bounded
import Mathlib.Data.List.Infix

/-!
# Lines

`str.splitlines` breaks at more characters than a line feed, some of which a text may hold that was
written as one line.  `pieces` are the stretches between them.

* `splitlines_append_newline` --- a text that ends with a line feed is read as its pieces, and then
  what follows;
* `pieces_eq` --- every piece but the first begins after a break;
* `decoded_toByteArray` --- a text without a carriage return is read from a file as it was written.
-/

namespace Kroker

/-- The characters `splitlines` breaks at; a carriage return and a line feed are one break. -/
def lineBreaks : List Char :=
  ['\n', '\r', Char.ofNat 0x0b, Char.ofNat 0x0c, Char.ofNat 0x1c, Char.ofNat 0x1d, Char.ofNat 0x1e,
    Char.ofNat 0x85, Char.ofNat 0x2028, Char.ofNat 0x2029]

/-- `splitlines`, where `line` has been read of the current line, the last character first. -/
def splitlinesFrom : List Char → List Char → List (List Char)
  | line, [] => if line = [] then [] else [line.reverse]
  | line, '\r' :: '\n' :: rest => line.reverse :: splitlinesFrom [] rest
  | line, c :: rest =>
    if c ∈ lineBreaks then line.reverse :: splitlinesFrom [] rest
    else splitlinesFrom (c :: line) rest

def splitlines (text : List Char) : List (List Char) := splitlinesFrom [] text

/-- What stands before, between and after the breaks of a text. -/
def pieces (text : List Char) : List (List Char) := text.splitOnP (· ∈ lineBreaks)

theorem splitlinesFrom_cons (line : List Char) {c : Char} (hc : c ≠ '\r') (rest : List Char) :
    splitlinesFrom line (c :: rest) =
      if c ∈ lineBreaks then line.reverse :: splitlinesFrom [] rest
      else splitlinesFrom (c :: line) rest := by
  rw [splitlinesFrom]
  exact fun _ h _ => hc h

theorem pieces_cons (c : Char) (text : List Char) :
    pieces (c :: text) =
      if c ∈ lineBreaks then [] :: pieces text else (pieces text).modifyHead (c :: ·) := by
  rw [pieces, List.splitOnP_cons_eq_if_modifyHead]
  simp [pieces]

variable {text : List Char}

theorem pieces_eq_self (h : ∀ c ∈ text, c ∉ lineBreaks) :
    pieces text = [text] := by
  induction text with
  | nil => rfl
  | cons c text ih =>
    rw [List.forall_mem_cons] at h
    rw [pieces_cons, if_neg h.1, ih h.2, List.modifyHead_cons]

/-- **A text that is ended by a line feed**, whichever breaks are in it, is read as its pieces. -/
theorem splitlinesFrom_append_newline (h : '\r' ∉ text) (line rest : List Char) :
    splitlinesFrom line (text ++ '\n' :: rest) =
      (pieces text).modifyHead (line.reverse ++ ·) ++ splitlines rest := by
  induction text generalizing line with
  | nil =>
    rw [List.nil_append, splitlinesFrom_cons line (by decide), if_pos (by decide)]
    simp [pieces, splitlines]
  | cons c text ih =>
    rw [List.mem_cons, not_or] at h
    rw [List.cons_append, splitlinesFrom_cons line (Ne.symm h.1), pieces_cons]
    by_cases hc : c ∈ lineBreaks
    · rw [if_pos hc, if_pos hc, ih h.2]
      cases pieces text <;> simp
    · rw [if_neg hc, if_neg hc, ih h.2]
      cases pieces text <;> simp

theorem splitlines_append_newline (h : '\r' ∉ text) (rest : List Char) :
    splitlines (text ++ '\n' :: rest) = pieces text ++ splitlines rest := by
  rw [splitlines, splitlinesFrom_append_newline h]
  cases pieces text <;> simp

/-- **Lines that are written one after the other** are read back, if there is no break in any. -/
theorem splitlines_flatMap {lines : List (List Char)} (h : ∀ line ∈ lines, ∀ c ∈ line, c ∉ lineBreaks) :
    splitlines (lines.flatMap (· ++ ['\n'])) = lines := by
  induction lines with
  | nil => rfl
  | cons line lines ih =>
    rw [List.forall_mem_cons] at h
    have hreturn : '\r' ∉ line := fun hmem => h.1 '\r' hmem (by decide)
    rw [List.flatMap_cons, List.append_assoc, List.singleton_append,
      splitlines_append_newline hreturn, pieces_eq_self h.1, ih h.2, List.singleton_append]

theorem splitlinesFrom_cases (h : '\r' ∉ text) (line : List Char) :
    splitlinesFrom line text = (pieces text).modifyHead (line.reverse ++ ·) ∨
      (pieces text).modifyHead (line.reverse ++ ·) = splitlinesFrom line text ++ [[]] := by
  induction text generalizing line with
  | nil =>
    by_cases hline : line = []
    · exact .inr (by simp [splitlinesFrom, pieces, hline])
    · exact .inl (by simp [splitlinesFrom, pieces, hline])
  | cons c text ih =>
    rw [List.mem_cons, not_or] at h
    rw [splitlinesFrom_cons line (Ne.symm h.1), pieces_cons]
    by_cases hc : c ∈ lineBreaks
    · rw [if_pos hc, if_pos hc]
      have hrest := ih h.2 []
      have hid : (pieces text).modifyHead (([] : List Char).reverse ++ ·) = pieces text := by
        cases pieces text <;> simp
      rw [hid] at hrest
      rcases hrest with hrest | hrest
      · exact .inl (by simp [hrest])
      · exact .inr (by simp [hrest])
    · rw [if_neg hc, if_neg hc]
      have hrest := ih h.2 (c :: line)
      have hhead : (pieces text).modifyHead ((c :: line).reverse ++ ·) =
          ((pieces text).modifyHead (c :: ·)).modifyHead (line.reverse ++ ·) := by
        cases pieces text <;> simp
      rwa [hhead] at hrest

theorem splitlines_cases (h : '\r' ∉ text) :
    splitlines text = pieces text ∨ pieces text = splitlines text ++ [[]] := by
  have hcases := splitlinesFrom_cases h []
  have hid : (pieces text).modifyHead (([] : List Char).reverse ++ ·) = pieces text := by
    cases pieces text <;> simp
  rwa [hid] at hcases

/-- **The pieces of a text**: the first is what stands before its first break, and every other
begins after a break. -/
theorem pieces_eq (text : List Char) :
    ∃ others, pieces text = text.takeWhile (· ∉ lineBreaks) :: others ∧
      ∀ q ∈ others, ∃ xs c ys, text = xs ++ c :: ys ∧ c ∈ lineBreaks ∧ q <+: ys := by
  induction text with
  | nil => exact ⟨[], rfl, by simp⟩
  | cons c text ih =>
    obtain ⟨others, hothers, hafter⟩ := ih
    have hlater : ∀ q ∈ others, ∃ xs d ys, c :: text = xs ++ d :: ys ∧ d ∈ lineBreaks ∧
        q <+: ys := by
      intro q hq
      obtain ⟨xs, d, ys, htext, hd, hprefix⟩ := hafter q hq
      exact ⟨c :: xs, d, ys, by rw [htext, List.cons_append], hd, hprefix⟩
    rw [pieces_cons, hothers]
    by_cases hc : c ∈ lineBreaks
    · rw [if_pos hc, List.takeWhile_cons_of_neg (by simpa using hc)]
      refine ⟨_, rfl, List.forall_mem_cons.mpr ⟨?_, hlater⟩⟩
      exact ⟨[], c, text, rfl, hc, List.takeWhile_prefix _⟩
    · rw [if_neg hc, List.modifyHead_cons, List.takeWhile_cons_of_pos (by simpa using hc)]
      exact ⟨others, rfl, hlater⟩

/-! ## Texts in files -/

/-- Universal newlines: a carriage return, with a line feed after it or without, is read as a line
feed. -/
def newlines : List Char → List Char
  | '\r' :: '\n' :: cs => '\n' :: newlines cs
  | '\r' :: cs => '\n' :: newlines cs
  | c :: cs => c :: newlines cs
  | [] => []

def decoded (bytes : ByteArray) : Option String :=
  (String.fromUTF8? bytes).map fun s => String.ofList (newlines s.toList)

theorem newlines_eq_self {cs : List Char} (h : '\r' ∉ cs) : newlines cs = cs := by
  induction cs with
  | nil => rfl
  | cons c cs ih =>
    rw [List.mem_cons, not_or] at h
    have hne : c ≠ '\r' := Ne.symm h.1
    rw [newlines, ih h.2]
    · exact fun cs' hc => absurd hc hne
    · exact hne

theorem decoded_toByteArray {text : String} (h : '\r' ∉ text.toList) :
    decoded text.toByteArray = some text := by
  rw [decoded, String.fromUTF8?, dif_pos text.isValidUTF8, Option.map_some]
  change some (String.ofList (newlines text.toList)) = some text
  rw [newlines_eq_self h, String.ofList_toList]

end Kroker
