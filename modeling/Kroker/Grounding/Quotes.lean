import Kroker.Assessment.Verification
import Mathlib.Algebra.Ring.Parity

/-!
# Quotes and the text they are looked for in

`grounding.py` decides whether a quote stands in the text it cites.  Both are normalized first, and
the quote is looked for in what is left of the text.  Normalizing rewrites across the place where a
span of the text begins or ends, so this is not yet the question whether the quote is a span.

## 1.  White space

A run of blanks becomes one blank.  A span of the text keeps what it normalizes to
(`normalizeVerbatim_infix`), and whatever is found comes from a span (`exists_span_of_infix`).

## 2.  Markers

`dropBold` takes `**` out from left to right, so it keeps one asterisk of a run of odd length.  A
cut is harmless unless it divides a run into two odd parts (`dropBold_append_iff`).

## 3.  What verifies

`quotes_grounded` --- a quote is found exactly if it is not blank and a span of the text that is
`Whole` normalizes to it.  Under `VERBATIM_BYTES` every span is whole.
-/

namespace Kroker.Discover

/-! ## 1.  White space -/

theorem collapseBlanks_append (blank : Bool) (xs ys : List Char) :
    ∃ blank', collapseBlanks blank (xs ++ ys) =
      collapseBlanks blank xs ++ collapseBlanks blank' ys := by
  induction xs generalizing blank with
  | nil => exact ⟨blank, rfl⟩
  | cons c xs ih =>
    rw [List.cons_append]
    simp only [collapseBlanks]
    split_ifs
    · exact ih true
    · obtain ⟨blank', h⟩ := ih true
      exact ⟨blank', by rw [h, List.cons_append]⟩
    · obtain ⟨blank', h⟩ := ih false
      exact ⟨blank', by rw [h, List.cons_append]⟩

theorem collapseBlanks_true (text : List Char) :
    collapseBlanks false text = collapseBlanks true text ∨
      collapseBlanks false text = ' ' :: collapseBlanks true text := by
  cases text with
  | nil => exact .inl rfl
  | cons c text =>
    by_cases hc : isSpace c = true
    · exact .inr (by simp [collapseBlanks, hc])
    · exact .inl (by simp [collapseBlanks, hc])

theorem mem_collapseBlanks {c : Char} (hc : isSpace c = false) {text : List Char} (h : c ∈ text)
    (blank : Bool) : c ∈ collapseBlanks blank text := by
  induction text generalizing blank with
  | nil => cases h
  | cons d text ih =>
    simp only [collapseBlanks]
    rcases List.mem_cons.mp h with rfl | h
    · rw [if_neg (hc ▸ Bool.false_ne_true)]
      exact List.mem_cons_self
    · split_ifs
      · exact ih h true
      · exact List.mem_cons_of_mem _ (ih h true)
      · exact List.mem_cons_of_mem _ (ih h false)

theorem strip_within (s : String) : (strip s).toList <:+: s.toList := by
  rw [strip, String.toList_ofList]
  refine List.IsInfix.trans ?_ (List.dropWhile_suffix isSpace).isInfix
  rw [← List.reverse_infix, List.reverse_reverse]
  exact (List.dropWhile_suffix isSpace).isInfix

theorem infix_dropWhile {part text : List Char} (hpart : part <:+: text) (hne : part ≠ [])
    (hhead : ∀ c ∈ part.head?, isSpace c = false) : part <:+: text.dropWhile isSpace := by
  obtain ⟨front, back, rfl⟩ := hpart
  obtain ⟨c, part, rfl⟩ := List.exists_cons_of_ne_nil hne
  have hkept : (c :: part ++ back).dropWhile isSpace = c :: part ++ back := by
    rw [List.cons_append, List.dropWhile_cons_of_neg]
    rw [hhead c rfl]
    exact Bool.false_ne_true
  rw [List.append_assoc, List.dropWhile_append, hkept]
  split_ifs
  · exact (List.prefix_append _ _).isInfix
  · exact ⟨_, back, by rw [List.append_assoc]⟩

theorem infix_strip {part : List Char} {text : String} (hpart : part <:+: text.toList)
    (hne : part ≠ []) (hhead : ∀ c ∈ part.head?, isSpace c = false)
    (hlast : ∀ c ∈ part.getLast?, isSpace c = false) : part <:+: (strip text).toList := by
  rw [strip, String.toList_ofList, ← List.reverse_infix, List.reverse_reverse]
  refine infix_dropWhile (List.reverse_infix.mpr (infix_dropWhile hpart hne hhead)) ?_ ?_
  · exact fun hnil => hne (List.reverse_eq_nil_iff.mp hnil)
  · rw [List.head?_reverse]
    exact hlast

theorem normalizeVerbatim_ne_empty {text : String} (hblank : strip text ≠ "") :
    normalizeVerbatim text ≠ "" := by
  intro hempty
  refine hblank (strip_eq_empty_iff.mpr fun c hc => ?_)
  by_contra hspace
  rw [Bool.not_eq_true] at hspace
  have hmem := mem_collapseBlanks hspace hc false
  have hall := strip_eq_empty_iff.mp hempty c (by rwa [String.toList_ofList])
  exact Bool.false_ne_true (hspace.symm.trans hall)

theorem ends_of_normalizeVerbatim (text : String) :
    (∀ c ∈ (normalizeVerbatim text).toList.head?, isSpace c = false) ∧
      ∀ c ∈ (normalizeVerbatim text).toList.getLast?, isSpace c = false :=
  ends_of_strip (strip_strip (String.ofList (collapseBlanks false text.toList)))

/-- **A span of a text is normalized to a span** of what the text is normalized to. -/
theorem normalizeVerbatim_infix {span text : String} (hwithin : span.toList <:+: text.toList) :
    (normalizeVerbatim span).toList <:+: (normalizeVerbatim text).toList := by
  by_cases hne : (normalizeVerbatim span).toList = []
  · rw [hne]
    exact List.nil_infix
  obtain ⟨hhead, hlast⟩ := ends_of_normalizeVerbatim span
  have hspan : (normalizeVerbatim span).toList <:+: collapseBlanks false span.toList := by
    have h := strip_within (String.ofList (collapseBlanks false span.toList))
    rwa [String.toList_ofList] at h
  -- In the text the span may follow a blank, and then it loses one that is stripped anyway.
  have hany : ∀ blank, (normalizeVerbatim span).toList <:+: collapseBlanks blank span.toList := by
    intro blank
    cases blank with
    | false => exact hspan
    | true =>
      rcases collapseBlanks_true span.toList with heq | heq
      · exact heq ▸ hspan
      · rw [heq, List.infix_cons_iff] at hspan
        refine hspan.resolve_left fun hstarts => ?_
        obtain ⟨c, part, hpart⟩ := List.exists_cons_of_ne_nil hne
        rw [hpart, List.cons_prefix_cons] at hstarts
        have hspace := hhead c (hpart ▸ rfl)
        rw [hstarts.1] at hspace
        exact absurd hspace (by decide)
  have htext : (normalizeVerbatim span).toList <:+: collapseBlanks false text.toList := by
    obtain ⟨front, back, hfront⟩ := hwithin
    obtain ⟨blank, hsplit⟩ := collapseBlanks_append false front (span.toList ++ back)
    obtain ⟨blank', hsplit'⟩ := collapseBlanks_append blank span.toList back
    rw [← hfront, List.append_assoc, hsplit, hsplit']
    obtain ⟨xs, ys, hxs⟩ := hany blank
    refine ⟨collapseBlanks false front ++ xs, ys ++ collapseBlanks blank' back, ?_⟩
    rw [← hxs]
    simp only [List.append_assoc]
  refine infix_strip ?_ hne hhead hlast
  rwa [String.toList_ofList]

/-- **A quote that stands in a file is found there**, unless it is blank. -/
theorem verifyQuote_of_infix {quote body : String} (hblank : strip quote ≠ "")
    (hwithin : quote.toList <:+: body.toList) : verifyQuote quote body = true := by
  rw [verifyQuote, Bool.and_eq_true, decide_eq_true_eq, decide_eq_true_eq]
  exact ⟨normalizeVerbatim_ne_empty hblank, normalizeVerbatim_infix hwithin⟩

theorem exists_cut_of_collapseBlanks {blank : Bool} {text front back : List Char}
    (h : collapseBlanks blank text = front ++ back) : ∃ xs ys blank', text = xs ++ ys ∧
      collapseBlanks blank xs = front ∧ collapseBlanks blank' ys = back := by
  induction text generalizing blank front with
  | nil =>
    obtain ⟨rfl, rfl⟩ := List.append_eq_nil_iff.mp h.symm
    exact ⟨[], [], blank, rfl, rfl, rfl⟩
  | cons c text ih =>
    cases front with
    | nil => exact ⟨[], c :: text, blank, rfl, rfl, h⟩
    | cons d front =>
      simp only [collapseBlanks] at h
      split_ifs at h with hspace hafter
      · obtain ⟨xs, ys, blank', rfl, hxs, hys⟩ := ih h
        exact ⟨c :: xs, ys, blank', rfl, by simp [collapseBlanks, hspace, hafter, hxs], hys⟩
      · obtain ⟨rfl, htail⟩ := List.cons.inj h
        obtain ⟨xs, ys, blank', rfl, hxs, hys⟩ := ih htail
        exact ⟨c :: xs, ys, blank', rfl, by simp [collapseBlanks, hspace, hafter, hxs], hys⟩
      · obtain ⟨rfl, htail⟩ := List.cons.inj h
        obtain ⟨xs, ys, blank', rfl, hxs, hys⟩ := ih htail
        exact ⟨c :: xs, ys, blank', rfl, by simp [collapseBlanks, hspace, hxs], hys⟩

/-- **What is found comes from a span.** -/
theorem exists_span_of_infix {quote text : String}
    (h : (normalizeVerbatim quote).toList <:+: (normalizeVerbatim text).toList) :
    ∃ before span after, text.toList = before ++ span ++ after ∧
      normalizeVerbatim (String.ofList span) = normalizeVerbatim quote := by
  obtain ⟨hhead, hlast⟩ := ends_of_normalizeVerbatim quote
  have hcollapsed := h.trans (strip_within (String.ofList (collapseBlanks false text.toList)))
  rw [String.toList_ofList] at hcollapsed
  obtain ⟨front, back, hcut⟩ := hcollapsed
  rw [List.append_assoc] at hcut
  obtain ⟨before, rest, blank, hbefore, -, hrest⟩ := exists_cut_of_collapseBlanks hcut.symm
  obtain ⟨span, after, -, hafter, hspan, -⟩ := exists_cut_of_collapseBlanks hrest
  refine ⟨before, span, after, by rw [hbefore, hafter, List.append_assoc], ?_⟩
  have hself : strip (normalizeVerbatim quote) = normalizeVerbatim quote := strip_strip _
  cases blank with
  | false => rw [normalizeVerbatim, String.toList_ofList, hspan, String.ofList_toList, hself]
  | true =>
    rcases collapseBlanks_true span with heq | heq
    · rw [normalizeVerbatim, String.toList_ofList, heq, hspan, String.ofList_toList, hself]
    · rw [normalizeVerbatim, String.toList_ofList, heq, hspan, strip, String.toList_ofList,
        List.dropWhile_cons_of_pos (by decide)]
      exact hself

end Kroker.Discover

namespace Kroker.Grounding

open Discover

/-! ## 2.  Markers -/

/-- What the bytes are, and so what may be dropped from them. -/
inductive Profile
  | extractedText
  | verbatimBytes

/-- `_APOSTROPHE`. -/
def apostrophes : String := "'‘’`\ufffd"

/-- `_APOSTROPHE.sub("", text)`. -/
def dropApostrophes (text : List Char) : List Char := text.filter (· ∉ apostrophes.toList)

/-- `_MD_BOLD.sub("", text)`. -/
def dropBold : List Char → List Char
  | '*' :: '*' :: rest => dropBold rest
  | c :: rest => c :: dropBold rest
  | [] => []

def reduce (profile : Profile) (text : String) : String :=
  match profile with
  | .extractedText => String.ofList (dropBold (dropApostrophes text.toList))
  | .verbatimBytes => text

def normalize (text : String) (profile : Profile) : String :=
  normalizeVerbatim (reduce profile text)

def verifyQuote (quote haystack : String) (profile : Profile) : Bool :=
  normalize quote profile ≠ "" &&
    decide ((normalize quote profile).toList <:+: (normalize haystack profile).toList)

def starsAtEnd (text : List Char) : ℕ := (text.rtakeWhile (· = '*')).length

/-- The asterisks a text begins with. -/
def starsAtStart (text : List Char) : ℕ := (text.takeWhile (· = '*')).length

/-- A cut divides a run of asterisks into two odd parts. -/
def Tears (before after : List Char) : Prop :=
  Odd (starsAtEnd before) ∧ Odd (starsAtStart after)

theorem dropBold_cons {c : Char} {rest : List Char} (h : c ≠ '*' ∨ rest.head? ≠ some '*') :
    dropBold (c :: rest) = c :: dropBold rest := by
  rw [dropBold.eq_2]
  rintro rest' rfl rfl
  rcases h with h | h
  · exact h rfl
  · exact h rfl

variable {text : List Char}

theorem starsAtStart_of_stars (h : ∀ c ∈ text, c = '*') :
    starsAtStart text = text.length := by
  rw [starsAtStart, List.takeWhile_eq_self_iff.mpr fun c hc => decide_eq_true (h c hc)]

theorem not_pair {c : Char} {rest : List Char}
    (h : ∀ rest', c = '*' → rest = '*' :: rest' → False) : c ≠ '*' ∨ rest.head? ≠ some '*' := by
  by_contra hboth
  push Not at hboth
  obtain ⟨rest', rfl⟩ := List.head?_eq_some_iff.mp hboth.2
  exact h rest' hboth.1 rfl

theorem starsAtStart_cons (c : Char) (rest : List Char) :
    starsAtStart (c :: rest) = if c = '*' then starsAtStart rest + 1 else 0 := by
  rw [starsAtStart, List.takeWhile_cons]
  by_cases hc : c = '*'
  · simp [hc, starsAtStart]
  · simp [hc]

theorem starsAtEnd_append (front back : List Char) : starsAtEnd (front ++ back) =
    if starsAtEnd back = back.length then starsAtEnd front + starsAtEnd back
    else starsAtEnd back := by
  have hend : ∀ text : List Char,
      starsAtEnd text = (text.reverse.takeWhile (· = '*')).length := by
    intro text
    rw [starsAtEnd, List.rtakeWhile, List.length_reverse]
  rw [hend, hend, hend, List.reverse_append, List.takeWhile_append, List.length_reverse]
  split_ifs with hall
  · rw [List.length_append, List.length_reverse, hall, Nat.add_comm]
  · rfl

theorem starsAtEnd_cons (c : Char) (rest : List Char) : starsAtEnd (c :: rest) =
    if starsAtEnd rest = rest.length ∧ c = '*' then starsAtEnd rest + 1 else starsAtEnd rest := by
  have hsole : starsAtEnd [c] = if c = '*' then 1 else 0 := by
    by_cases hc : c = '*'
    · simp [starsAtEnd, List.rtakeWhile, hc]
    · simp [starsAtEnd, List.rtakeWhile, hc]
  rw [← List.singleton_append, starsAtEnd_append, hsole]
  by_cases hc : c = '*'
  · simp only [hc, if_true, and_true, Nat.add_comm]
  · simp only [hc, if_false, and_false, Nat.zero_add, ite_self]

theorem starsAtEnd_le (text : List Char) : starsAtEnd text ≤ text.length := by
  rw [starsAtEnd, List.rtakeWhile, List.length_reverse]
  exact (List.takeWhile_prefix _).length_le.trans_eq List.length_reverse

theorem odd_starsAtEnd_pair (rest : List Char) :
    Odd (starsAtEnd ('*' :: '*' :: rest)) ↔ Odd (starsAtEnd rest) := by
  have hle := starsAtEnd_le rest
  rw [starsAtEnd_cons, starsAtEnd_cons, List.length_cons]
  by_cases hall : starsAtEnd rest = rest.length
  · simp only [hall, and_self, if_true, Nat.odd_add_one, not_not]
  · simp only [hall, false_and, if_false]
    rw [if_neg fun h => by omega]

theorem eq_star_of_starsAtEnd (h : starsAtEnd text = text.length) :
    ∀ c ∈ text, c = '*' := by
  have hall : text.rtakeWhile (· = '*') = text :=
    (List.rtakeWhile_suffix _ _).eq_of_length h
  intro c hc
  rw [← hall] at hc
  exact of_decide_eq_true (List.mem_rtakeWhile_imp (p := (· = '*')) hc)

theorem starsAtStart_eq_zero (h : text.head? ≠ some '*') :
    starsAtStart text = 0 := by
  cases text with
  | nil => rfl
  | cons c text =>
    rw [starsAtStart_cons, if_neg]
    rintro rfl
    exact h rfl

theorem starsAtStart_append (front back : List Char) : starsAtStart (front ++ back) =
    if starsAtStart front = front.length then starsAtStart front + starsAtStart back
    else starsAtStart front := by
  rw [starsAtStart, starsAtStart, starsAtStart, List.takeWhile_append]
  split_ifs with hall
  · rw [List.length_append, hall]
  · rfl

theorem dropBold_star_cons_iff (rest : List Char) :
    dropBold ('*' :: rest) = '*' :: dropBold rest ↔ ¬Odd (starsAtStart rest) := by
  induction rest using dropBold.induct with
  | case1 rest ih =>
    have hpair : dropBold ('*' :: '*' :: rest) = dropBold rest := dropBold.eq_1 rest
    have htriple : dropBold ('*' :: '*' :: '*' :: rest) = dropBold ('*' :: rest) :=
      dropBold.eq_1 ('*' :: rest)
    rw [htriple, hpair, ih, starsAtStart_cons, starsAtStart_cons]
    simp [Nat.odd_add_one]
  | case2 c rest hsingle ih =>
    have hhead := not_pair hsingle
    by_cases hc : c = '*'
    · subst hc
      have hnone := starsAtStart_eq_zero (hhead.resolve_left fun h => h rfl)
      rw [dropBold.eq_1, dropBold_cons hhead, starsAtStart_cons, if_pos rfl, hnone]
      refine iff_of_false (fun h => ?_) (by simp)
      have hlength := congrArg List.length h
      simp only [List.length_cons] at hlength
      omega
    · rw [dropBold_cons (.inr (by simpa using hc)), starsAtStart_cons, if_neg hc]
      simp
  | case3 => simp [dropBold, starsAtStart]

/-- **A cut keeps the markers apart** exactly if it tears none. -/
theorem dropBold_append_iff (before after : List Char) :
    dropBold (before ++ after) = dropBold before ++ dropBold after ↔ ¬Tears before after := by
  induction before using dropBold.induct with
  | case1 rest ih =>
    rw [Tears, odd_starsAtEnd_pair, dropBold.eq_1, ← Tears, ← ih, List.cons_append,
      List.cons_append, dropBold.eq_1]
  | case2 c rest hsingle ih =>
    have hhead := not_pair hsingle
    by_cases hsole : rest = [] ∧ c = '*'
    · obtain ⟨rfl, rfl⟩ := hsole
      have hone : Odd (starsAtEnd ['*']) := by decide
      have hsingle : dropBold ['*'] = ['*'] := by decide
      rw [List.singleton_append, hsingle, List.singleton_append, dropBold_star_cons_iff, Tears,
        and_iff_right hone]
    · have hjoined : c ≠ '*' ∨ (rest ++ after).head? ≠ some '*' := by
        cases rest with
        | nil => exact .inl fun hc => hsole ⟨rfl, hc⟩
        | cons d rest => exact hhead
      have hends : starsAtEnd (c :: rest) = starsAtEnd rest := by
        rw [starsAtEnd_cons, if_neg]
        rintro ⟨hall, rfl⟩
        cases rest with
        | nil => exact hsole ⟨rfl, rfl⟩
        | cons d rest =>
          refine hhead.resolve_left (fun h => h rfl) ?_
          rw [List.head?_cons, eq_star_of_starsAtEnd hall d List.mem_cons_self]
      rw [List.cons_append, dropBold_cons hjoined, dropBold_cons hhead, List.cons_append,
        List.cons_inj_right, ih, Tears, Tears, hends]
  | case3 => simp [dropBold, Tears, starsAtEnd]

theorem exists_cut_of_dropBold {front back : List Char} (h : dropBold text = front ++ back) :
    ∃ xs ys, text = xs ++ ys ∧ dropBold xs = front ∧ dropBold ys = back := by
  induction text using dropBold.induct generalizing front with
  | case1 rest ih =>
    rw [dropBold.eq_1] at h
    obtain ⟨xs, ys, rfl, hxs, hys⟩ := ih h
    exact ⟨'*' :: '*' :: xs, ys, rfl, by rw [dropBold.eq_1, hxs], hys⟩
  | case2 c rest hsingle ih =>
    have hhead := not_pair hsingle
    cases front with
    | nil => exact ⟨[], c :: rest, rfl, rfl, h⟩
    | cons d front =>
      rw [dropBold_cons hhead] at h
      obtain ⟨rfl, htail⟩ := List.cons.inj h
      obtain ⟨xs, ys, rfl, hxs, hys⟩ := ih htail
      refine ⟨c :: xs, ys, rfl, ?_, hys⟩
      rw [dropBold_cons, hxs]
      refine hhead.imp_right fun hfirst => ?_
      cases xs with
      | nil => exact (nomatch ·)
      | cons e xs => exact hfirst
  | case3 =>
    obtain ⟨rfl, rfl⟩ := List.append_eq_nil_iff.mp h.symm
    exact ⟨[], [], rfl, rfl, rfl⟩

/-! ## 3.  What verifies -/

/-- Neither end of a span tears a marker; apostrophes, which are dropped first, do not count. -/
def Whole (profile : Profile) (before span after : List Char) : Prop :=
  profile = .extractedText →
    ¬Tears (dropApostrophes before) (dropApostrophes (span ++ after)) ∧
      ¬Tears (dropApostrophes (before ++ span)) (dropApostrophes after)

theorem star_mem_dropBold (h : Odd (starsAtEnd text)) :
    '*' ∈ dropBold text := by
  induction text using dropBold.induct with
  | case1 rest ih =>
    rw [dropBold.eq_1]
    exact ih ((odd_starsAtEnd_pair rest).mp h)
  | case2 c rest hsingle ih =>
    rw [dropBold_cons (not_pair hsingle), List.mem_cons]
    by_cases hc : c = '*'
    · exact .inl hc.symm
    · rw [starsAtEnd_cons, if_neg fun h => hc h.2] at h
      exact .inr (ih h)
  | case3 => exact absurd h (by decide)

theorem dropBold_of_stars (h : ∀ c ∈ text, c = '*') :
    dropBold text = if Odd text.length then ['*'] else [] := by
  induction text using dropBold.induct with
  | case1 rest ih =>
    rw [dropBold.eq_1, ih fun c hc => h c (List.mem_cons_of_mem _ (List.mem_cons_of_mem _ hc)),
      List.length_cons, List.length_cons]
    simp only [Nat.odd_add_one, not_not]
  | case2 c rest hsingle ih =>
    obtain rfl := h c List.mem_cons_self
    cases rest with
    | nil => rfl
    | cons d rest =>
      obtain rfl := h d (List.mem_cons_of_mem _ List.mem_cons_self)
      exact (hsingle rest rfl rfl).elim
  | case3 => rfl

theorem not_tears_append {before span after : List Char} (hfirst : ¬Tears before (span ++ after))
    (hsecond : ¬Tears span after) : ¬Tears (before ++ span) after := by
  rintro ⟨hend, hstart⟩
  rw [starsAtEnd_append] at hend
  split_ifs at hend with hall
  · have hstars := starsAtStart_of_stars (eq_star_of_starsAtEnd hall)
    have heven : Even (starsAtEnd span) := by
      rw [← Nat.not_odd_iff_even]
      exact fun hodd => hsecond ⟨hodd, hstart⟩
    refine hfirst ⟨(Nat.odd_add.mp hend).mpr heven, ?_⟩
    rw [starsAtStart_append, if_pos hstars, hstars, ← hall]
    exact heven.add_odd hstart
  · exact hsecond ⟨hend, hstart⟩

/-- **A span that tears no marker is left as a span.** -/
theorem dropBold_infix {before span after : List Char} (hbefore : ¬Tears before (span ++ after))
    (hafter : ¬Tears (before ++ span) after) :
    dropBold span <:+: dropBold (before ++ span ++ after) := by
  have hfirst := (dropBold_append_iff _ _).mpr hbefore
  have hsecond := (dropBold_append_iff _ _).mpr hafter
  by_cases hall : starsAtEnd span = span.length
  · rw [dropBold_of_stars (eq_star_of_starsAtEnd hall)]
    split_ifs with hodd
    · rw [List.singleton_infix_iff]
      -- The run the span stands in is odd up to one end of the span, and there a marker is left.
      have hrun := starsAtEnd_append before span
      rw [if_pos hall, hall] at hrun
      rcases Nat.even_or_odd (starsAtEnd before) with heven | hodd'
      · rw [hsecond]
        refine List.mem_append_left _ (star_mem_dropBold ?_)
        rw [hrun]
        exact heven.add_odd hodd
      · rw [List.append_assoc, hfirst]
        exact List.mem_append_left _ (star_mem_dropBold hodd')
    · exact List.nil_infix
  · have hthird : dropBold (span ++ after) = dropBold span ++ dropBold after := by
      refine (dropBold_append_iff _ _).mpr fun htears => hafter ?_
      rwa [Tears, starsAtEnd_append, if_neg hall]
    rw [List.append_assoc, hfirst, hthird]
    exact ⟨_, _, List.append_assoc _ _ _⟩

theorem reduce_infix {profile : Profile} {before span after : List Char}
    (hwhole : Whole profile before span after) :
    (reduce profile (String.ofList span)).toList <:+:
      (reduce profile (String.ofList (before ++ span ++ after))).toList := by
  cases profile with
  | verbatimBytes =>
    simp only [reduce, String.toList_ofList]
    exact ⟨before, after, rfl⟩
  | extractedText =>
    obtain ⟨hbefore, hafter⟩ := hwhole rfl
    simp only [reduce, String.toList_ofList]
    simp only [dropApostrophes, List.filter_append] at hbefore hafter ⊢
    exact dropBold_infix hbefore hafter

theorem exists_whole_of_reduce {profile : Profile} {haystack : String}
    {front middle back : List Char}
    (h : (reduce profile haystack).toList = front ++ middle ++ back) :
    ∃ before span after, haystack.toList = before ++ span ++ after ∧
      Whole profile before span after ∧
        reduce profile (String.ofList span) = String.ofList middle := by
  cases profile with
  | verbatimBytes =>
    refine ⟨front, middle, back, h, fun hprofile => ?_, rfl⟩
    cases hprofile
  | extractedText =>
    rw [reduce, String.toList_ofList, List.append_assoc] at h
    obtain ⟨xs, rest, hxs, rfl, hrest⟩ := exists_cut_of_dropBold h
    obtain ⟨ys, zs, rfl, rfl, rfl⟩ := exists_cut_of_dropBold hrest
    obtain ⟨before, rest', htext, rfl, hrest'⟩ := List.filter_eq_append_iff.mp hxs
    obtain ⟨span, after, rfl, rfl, rfl⟩ := List.filter_eq_append_iff.mp hrest'
    have hbefore := (dropBold_append_iff _ _).mp ((hxs ▸ h).trans (congrArg _ hrest.symm))
    refine ⟨before, span, after, by rw [htext, List.append_assoc], fun _ => ⟨?_, ?_⟩, ?_⟩
    · simpa only [dropApostrophes, List.filter_append] using hbefore
    · simpa only [dropApostrophes, List.filter_append] using
        not_tears_append hbefore ((dropBold_append_iff _ _).mp hrest)
    · rw [reduce, String.toList_ofList, dropApostrophes]

theorem verifyQuote_eq_true {quote haystack : String} {profile : Profile} :
    verifyQuote quote haystack profile = true ↔ normalize quote profile ≠ "" ∧
      (normalize quote profile).toList <:+: (normalize haystack profile).toList := by
  rw [verifyQuote, Bool.and_eq_true, decide_eq_true_eq, decide_eq_true_eq]

/-- **Quote grounding is sound and complete** for the spans that tear no marker. -/
theorem quotes_grounded (quote haystack : String) (profile : Profile) :
    (verifyQuote quote haystack profile = true ↔ normalize quote profile ≠ "" ∧
      ∃ before span after, haystack.toList = before ++ span ++ after ∧
        Whole profile before span after ∧
        normalize (String.ofList span) profile = normalize quote profile) ∧
    ∀ before span after, haystack.toList = before ++ span ++ after →
      Whole profile before span after → normalize (String.ofList span) profile ≠ "" →
        verifyQuote (String.ofList span) haystack profile = true := by
  have hspan : ∀ before span after, haystack.toList = before ++ span ++ after →
      Whole profile before span after →
        (normalize (String.ofList span) profile).toList <:+:
          (normalize haystack profile).toList := by
    intro before span after htext hwhole
    have h := reduce_infix hwhole
    rw [← htext, String.ofList_toList] at h
    exact normalizeVerbatim_infix h
  constructor
  · rw [verifyQuote_eq_true]
    refine and_congr_right fun _ => ⟨fun hfound => ?_, ?_⟩
    · rw [normalize, normalize] at hfound
      obtain ⟨front, middle, back, hleft, hmiddle⟩ := exists_span_of_infix hfound
      obtain ⟨before, span, after, htext, hwhole, hreduce⟩ := exists_whole_of_reduce hleft
      exact ⟨before, span, after, htext, hwhole, by rw [normalize, hreduce, hmiddle, normalize]⟩
    · rintro ⟨before, span, after, htext, hwhole, hsame⟩
      rw [← hsame]
      exact hspan before span after htext hwhole
  · intro before span after htext hwhole hne
    rw [verifyQuote_eq_true]
    exact ⟨hne, hspan before span after htext hwhole⟩

/-- A quote that begins in the middle of a marker is a span of the text and is not found. -/
theorem torn_quote_not_found : ¬∀ quote haystack profile,
    verifyQuote quote haystack profile = true ↔ normalize quote profile ≠ "" ∧
      ∃ before span after, haystack.toList = before ++ span ++ after ∧
        normalize (String.ofList span) profile = normalize quote profile := by
  intro h
  have hspan : verifyQuote "*y" "x**y" .extractedText = true :=
    (h "*y" "x**y" .extractedText).mpr ⟨by decide, ['x', '*'], ['*', 'y'], [], by decide, rfl⟩
  exact absurd hspan (by decide)

end Kroker.Grounding
