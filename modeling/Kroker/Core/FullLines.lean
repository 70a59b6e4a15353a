import Kroker.Core.Lines
import Kroker.Core.Text

/-!
# Lines that are not blank

A reader that strips each line of a text and passes over the blank ones sees `fullLines`.  Stripping the
text first makes no difference to it (`fullLines_strip`), and lines that are joined again are seen as
they were (`fullLines_joinWith`).
-/

namespace Kroker

/-- These lines, without the white space around them and without the blank ones. -/
def stripped (lines : List (List Char)) : List String :=
  (lines.map fun line => strip (String.ofList line)).filter (· ≠ "")

/-- The lines of a text that are not blank, without the white space around them. -/
def fullLines (text : String) : List String := stripped (splitlines text.toList)

theorem strip_empty : strip (String.ofList []) = "" := rfl

theorem stripped_cons (line : List Char) (lines : List (List Char)) :
    stripped (line :: lines) =
      if strip (String.ofList line) = "" then stripped lines
      else strip (String.ofList line) :: stripped lines := by
  rw [stripped, List.map_cons, List.filter_cons]
  by_cases h : strip (String.ofList line) = ""
  · rw [if_pos h, if_neg (by simpa using h)]
    rfl
  · rw [if_neg h, if_pos (by simpa using h)]
    rfl

theorem stripped_splitlinesFrom (line text : List Char) :
    stripped (splitlinesFrom line text) = stripped ((pieces text).modifyHead (line.reverse ++ ·)) := by
  have hid : ∀ text : List Char, (pieces text).modifyHead (([] : List Char).reverse ++ ·) =
      pieces text := by
    intro text
    cases pieces text <;> simp
  fun_induction splitlinesFrom line text with
  | case1 => simp [stripped, pieces, strip]
  | case2 line hne => simp [pieces, stripped_cons]
  | case3 line rest ih =>
    have hreturn : '\r' ∈ lineBreaks := by decide
    have hfeed : '\n' ∈ lineBreaks := by decide
    rw [stripped_cons, ih, hid, pieces_cons, if_pos hreturn, pieces_cons, if_pos hfeed,
      List.modifyHead_cons, List.append_nil, stripped_cons, stripped_cons]
    rw [if_pos strip_empty]
  | case4 line c rest hbreak hc ih =>
    rw [stripped_cons, ih, hid, pieces_cons, if_pos hc, List.modifyHead_cons, List.append_nil,
      stripped_cons]
  | case5 line c rest hbreak hc ih =>
    rw [ih, pieces_cons, if_neg hc]
    congr 1
    cases pieces rest <;> simp

theorem fullLines_eq (text : String) : fullLines text = stripped (pieces text.toList) := by
  rw [fullLines, splitlines, stripped_splitlinesFrom]
  cases pieces text.toList <;> simp

/-! ## Stripping the text -/

theorem strip_cons_of_isSpace {c : Char} (hc : isSpace c = true) (line : List Char) :
    strip (String.ofList (c :: line)) = strip (String.ofList line) := by
  rw [strip, strip, String.toList_ofList, String.toList_ofList, List.dropWhile_cons_of_pos hc]

theorem strip_append_of_isSpace {c : Char} (hc : isSpace c = true) (line : List Char) :
    strip (String.ofList (line ++ [c])) = strip (String.ofList line) := by
  rw [strip, strip, String.toList_ofList, String.toList_ofList, List.dropWhile_append]
  by_cases h : line.dropWhile isSpace = []
  · rw [h, List.isEmpty_nil, if_pos rfl, List.dropWhile_cons_of_pos hc, List.dropWhile_nil]
  · rw [if_neg (by simpa using h), List.reverse_append, List.reverse_singleton,
      List.singleton_append, List.dropWhile_cons_of_pos hc]

theorem stripped_pieces_cons {c : Char} (hc : isSpace c = true) (text : List Char) :
    stripped (pieces (c :: text)) = stripped (pieces text) := by
  rw [pieces_cons]
  split
  · rw [stripped_cons, if_pos strip_empty]
  · cases pieces text with
    | nil => rfl
    | cons line lines =>
      rw [List.modifyHead_cons, stripped_cons, stripped_cons, strip_cons_of_isSpace hc]

theorem stripped_pieces_append {c : Char} (hc : isSpace c = true) (line text : List Char) :
    stripped ((pieces (text ++ [c])).modifyHead (line ++ ·)) =
      stripped ((pieces text).modifyHead (line ++ ·)) := by
  induction text generalizing line with
  | nil =>
    rw [List.nil_append, pieces_cons]
    have hnil : pieces [] = [[]] := rfl
    rw [hnil]
    split
    · rw [List.modifyHead_cons, List.modifyHead_cons, List.append_nil, stripped_cons,
        stripped_cons, stripped_cons, if_pos strip_empty]
    · rw [List.modifyHead_cons, List.modifyHead_cons, List.modifyHead_cons, List.append_nil,
        stripped_cons, stripped_cons, strip_append_of_isSpace hc]
  | cons d text ih =>
    rw [List.cons_append, pieces_cons, pieces_cons]
    split
    · have hrest := ih []
      have hid : ∀ ls : List (List Char), ls.modifyHead (([] : List Char) ++ ·) = ls := by
        intro ls
        cases ls <;> simp
      rw [hid, hid] at hrest
      rw [List.modifyHead_cons, List.modifyHead_cons, stripped_cons, stripped_cons, hrest]
    · have hhead : ∀ ls : List (List Char), (ls.modifyHead (d :: ·)).modifyHead (line ++ ·) =
          ls.modifyHead ((line ++ [d]) ++ ·) := by
        intro ls
        cases ls <;> simp
      rw [hhead, hhead, ih]

/-- **Stripping a text** leaves its lines that are not blank. -/
theorem fullLines_strip (text : String) : fullLines (strip text) = fullLines text := by
  have hfront : ∀ cs : List Char, stripped (pieces (cs.dropWhile isSpace)) = stripped (pieces cs) := by
    intro cs
    induction cs with
    | nil => rfl
    | cons c cs ih =>
      by_cases hc : isSpace c = true
      · rw [List.dropWhile_cons_of_pos hc, ih, stripped_pieces_cons hc]
      · rw [List.dropWhile_cons_of_neg hc]
  have hback : ∀ cs : List Char,
      stripped (pieces (cs.dropWhile isSpace).reverse) = stripped (pieces cs.reverse) := by
    intro cs
    induction cs with
    | nil => rfl
    | cons c cs ih =>
      by_cases hc : isSpace c = true
      · have happend := stripped_pieces_append hc [] cs.reverse
        have hid : ∀ ls : List (List Char), ls.modifyHead (([] : List Char) ++ ·) = ls := by
          intro ls
          cases ls <;> simp
        rw [hid, hid] at happend
        rw [List.dropWhile_cons_of_pos hc, ih, List.reverse_cons, happend]
      · rw [List.dropWhile_cons_of_neg hc]
  rw [fullLines_eq, fullLines_eq, strip, String.toList_ofList, hback, List.reverse_reverse, hfront]

/-! ## Joining the lines -/

/-- A line that such a reader hands on. -/
structure FullLine (line : String) : Prop where
  ne : line ≠ ""
  strip : strip line = line
  unbroken : ∀ c ∈ line.toList, c ∉ lineBreaks

theorem unbroken_of_mem_pieces {text line : List Char} (h : line ∈ pieces text) :
    ∀ c ∈ line, c ∉ lineBreaks := by
  induction text generalizing line with
  | nil =>
    obtain rfl := List.mem_singleton.mp h
    exact nofun
  | cons d text ih =>
    rw [pieces_cons] at h
    split at h
    · rcases List.mem_cons.mp h with rfl | h
      · exact nofun
      · exact ih h
    · rename_i hd
      cases hpieces : pieces text with
      | nil =>
        rw [hpieces] at h
        exact nomatch h
      | cons first lines =>
        rw [hpieces, List.modifyHead_cons] at h
        rcases List.mem_cons.mp h with rfl | h
        · rw [List.forall_mem_cons]
          exact ⟨hd, ih (by rw [hpieces]; exact List.mem_cons_self)⟩
        · exact ih (by rw [hpieces]; exact List.mem_cons_of_mem _ h)

theorem fullLine_of_mem {text line : String} (h : line ∈ fullLines text) : FullLine line := by
  rw [fullLines_eq, stripped, List.mem_filter, List.mem_map] at h
  obtain ⟨⟨piece, hpiece, rfl⟩, hne⟩ := h
  refine ⟨by simpa using hne, strip_strip _, fun c hc => ?_⟩
  refine unbroken_of_mem_pieces hpiece c ?_
  rw [strip, String.toList_ofList, String.toList_ofList, List.mem_reverse] at hc
  exact List.dropWhile_subset _ (List.mem_reverse.mp (List.dropWhile_subset _ hc))

theorem pieces_append {line : List Char} (h : ∀ c ∈ line, c ∉ lineBreaks) {c : Char}
    (hc : c ∈ lineBreaks) (text : List Char) :
    pieces (line ++ c :: text) = line :: pieces text := by
  induction line with
  | nil => rw [List.nil_append, pieces_cons, if_pos hc]
  | cons d line ih =>
    rw [List.forall_mem_cons] at h
    rw [List.cons_append, pieces_cons, if_neg h.1, ih h.2, List.modifyHead_cons]

/-- **Lines that are joined** are read as they were. -/
theorem fullLines_joinWith {lines : List String} (h : ∀ line ∈ lines, FullLine line) :
    fullLines (joinWith "\n" lines) = lines := by
  rw [fullLines_eq]
  induction lines with
  | nil => rfl
  | cons line lines ih =>
    rw [List.forall_mem_cons] at h
    cases lines with
    | nil =>
      rw [joinWith, String.intercalate_singleton, pieces_eq_self h.1.unbroken, stripped_cons,
        String.ofList_toList, h.1.strip, if_neg h.1.ne]
      rfl
    | cons next lines =>
      have hpieces : pieces (joinWith "\n" (line :: next :: lines)).toList =
          line.toList :: pieces (joinWith "\n" (next :: lines)).toList := by
        rw [joinWith, String.intercalate_cons_cons, String.toList_append, String.toList_append,
          List.append_assoc]
        exact pieces_append h.1.unbroken (by decide : '\n' ∈ lineBreaks) _
      rw [hpieces, stripped_cons, String.ofList_toList, h.1.strip, if_neg h.1.ne, ih h.2]

end Kroker
