import Kroker.Library.Bounded
import Mathlib.Data.List.Infix
import Mathlib.Tactic.IntervalCases

/-!
# JSON text

What a program relies on when it keeps one JSON object on each line of a file and reads the file
back by lines.

## 1.  Strings

`escape` writes a string as encoders do that escape nothing they need not: a backslash before quotes
and backslashes, control characters by their escapes, every other character as it is.  No quote
begins a character of it (`escape_append_eq_cons`), so the first quote that does ends the string.

## 2.  Objects with a member

`ObjectText` says of a text what the grammar of JSON says of an object that has a member, as far as
it is needed here: a brace, a key, a colon, what follows with its brackets matched and its strings
ended, and a brace.  Reading it ends with all brackets closed and outside of strings
(`ObjectText.scan_eq`).

## 3.  Flat objects

`objectText` writes an object whose members are scalars, with no blanks.  No part of such a text is
an object with a member.  A proper prefix leaves its brace open (`not_objectText_of_prefix`); and
what begins after a character of a string begins inside of that string, where the first quote ends
it and what follows is not the name of a key (`not_opens_after`).
-/

namespace Kroker.JsonText

/-! ## 1.  Strings -/

def hexDigits : List Char :=
  ['0', '1', '2', '3', '4', '5', '6', '7', '8', '9', 'a', 'b', 'c', 'd', 'e', 'f']

def hexDigit (n : ℕ) : Char := hexDigits[n]?.getD '0'

/-- A character as it is written between quotes. -/
def escapeChar (c : Char) : List Char :=
  if c = '"' then ['\\', '"']
  else if c = '\\' then ['\\', '\\']
  else if c.toNat = 8 then ['\\', 'b']
  else if c.toNat = 9 then ['\\', 't']
  else if c.toNat = 10 then ['\\', 'n']
  else if c.toNat = 12 then ['\\', 'f']
  else if c.toNat = 13 then ['\\', 'r']
  else if c.toNat < 32 then
    ['\\', 'u', '0', '0', hexDigit (c.toNat / 16), hexDigit (c.toNat % 16)]
  else [c]

def escape (s : List Char) : List Char := s.flatMap escapeChar

@[simp] theorem escape_nil : escape [] = [] := rfl

@[simp] theorem escape_cons (c : Char) (s : List Char) :
    escape (c :: s) = escapeChar c ++ escape s := rfl

theorem hexDigit_mem (n : ℕ) : hexDigit n ∈ hexDigits := by
  rw [hexDigit]
  cases h : hexDigits[n]? with
  | none => decide
  | some c => exact List.mem_of_getElem? h

theorem hexDigits_printed : ∀ c ∈ hexDigits, 32 ≤ c.toNat ∧ c.toNat < 128 ∧ c ≠ '"' ∧ c ≠ '\\' := by
  decide

theorem escapeChar_cases (c : Char) :
    (escapeChar c = [c] ∧ c ≠ '"' ∧ c ≠ '\\' ∧ 32 ≤ c.toNat) ∨
      ∃ d l, escapeChar c = '\\' :: d :: l ∧ (32 ≤ d.toNat ∧ d.toNat < 128) ∧
        (∀ e ∈ l, e ∈ hexDigits) ∧ c.toNat < 128 := by
  have hzero : '0' ∈ hexDigits := by decide
  have hnone : ∀ e ∈ ([] : List Char), e ∈ hexDigits := by simp
  unfold escapeChar
  split_ifs with h₁ h₂ h₃ h₄ h₅ h₆ h₇ h₈
  · exact .inr ⟨_, _, rfl, by decide, hnone, by rw [h₁]; decide⟩
  · exact .inr ⟨_, _, rfl, by decide, hnone, by rw [h₂]; decide⟩
  · exact .inr ⟨_, _, rfl, by decide, hnone, by omega⟩
  · exact .inr ⟨_, _, rfl, by decide, hnone, by omega⟩
  · exact .inr ⟨_, _, rfl, by decide, hnone, by omega⟩
  · exact .inr ⟨_, _, rfl, by decide, hnone, by omega⟩
  · exact .inr ⟨_, _, rfl, by decide, hnone, by omega⟩
  · refine .inr ⟨_, _, rfl, by decide, ?_, by omega⟩
    simp only [List.forall_mem_cons]
    exact ⟨hzero, hzero, hexDigit_mem _, hexDigit_mem _, hnone⟩
  · exact .inl ⟨rfl, h₁, h₂, by omega⟩

variable {s t : List Char}

theorem escape_append_eq_quote {r : List Char} (h : escape s ++ t = '"' :: r) :
    s = [] ∧ t = '"' :: r := by
  cases s with
  | nil => exact ⟨rfl, h⟩
  | cons c s =>
    rw [escape_cons, List.append_assoc] at h
    rcases escapeChar_cases c with ⟨hc, hquote, -⟩ | ⟨d, l, hl, -⟩
    · rw [hc, List.singleton_append, List.cons.injEq] at h
      exact absurd h.1 hquote
    · rw [hl, List.cons_append, List.cons.injEq] at h
      exact absurd h.1 (by decide)

theorem escape_append_eq_cons {r : List Char} {x : Char} (h : escape s ++ '"' :: t = x :: r)
    (hquote : x ≠ '"') (hslash : x ≠ '\\') :
    ∃ s', s = x :: s' ∧ r = escape s' ++ '"' :: t := by
  cases s with
  | nil =>
    rw [escape_nil, List.nil_append, List.cons.injEq] at h
    exact absurd h.1.symm hquote
  | cons c s =>
    rw [escape_cons, List.append_assoc] at h
    rcases escapeChar_cases c with ⟨hc, -⟩ | ⟨d, l, hl, -⟩
    · rw [hc, List.singleton_append, List.cons.injEq] at h
      exact ⟨s, by rw [h.1], h.2.symm⟩
    · rw [hl, List.cons_append, List.cons.injEq] at h
      exact absurd h.1.symm hslash

/-! ## 2.  Objects with a member -/

/-- What stands between the quotes of a string. -/
inductive Body : List Char → Prop where
  | nil : Body []
  | plain {c : Char} {b : List Char} (hquote : c ≠ '"') (hslash : c ≠ '\\') (h : Body b) :
      Body (c :: b)
  | escaped {c : Char} {b : List Char} (h : Body b) : Body ('\\' :: c :: b)

def Blank (w : List Char) : Prop := ∀ c ∈ w, c ∈ [' ', '\t', '\n', '\r']

/-- No quote and no bracket. -/
def Word (w : List Char) : Prop := ∀ c ∈ w, c ∉ ['"', '{', '}', '[', ']']

/-- Brackets are matched and strings are ended. -/
inductive Nested : List Char → Prop where
  | word {w : List Char} (h : Word w) : Nested w
  | string {b : List Char} (h : Body b) : Nested ('"' :: b ++ ['"'])
  | array {l : List Char} (h : Nested l) : Nested ('[' :: l ++ [']'])
  | object {l : List Char} (h : Nested l) : Nested ('{' :: l ++ ['}'])
  | append {l l' : List Char} (h : Nested l) (h' : Nested l') : Nested (l ++ l')

/-- A brace, a key and a colon, with blanks. -/
def Opens (t : List Char) : Prop :=
  ∃ w₁ w₂ b w₃ l, Blank w₁ ∧ Blank w₂ ∧ Body b ∧ Blank w₃ ∧
    t = w₁ ++ '{' :: (w₂ ++ '"' :: (b ++ '"' :: (w₃ ++ ':' :: l)))

inductive ObjectText : List Char → Prop where
  | of {w₁ w₂ b w₃ l w₄ : List Char} (h₁ : Blank w₁) (h₂ : Blank w₂) (hb : Body b) (h₃ : Blank w₃)
      (hl : Nested l) (h₄ : Blank w₄) :
      ObjectText (w₁ ++ '{' :: (w₂ ++ '"' :: (b ++ '"' :: (w₃ ++ ':' :: (l ++ '}' :: w₄)))))

theorem ObjectText.opens (h : ObjectText t) : Opens t := by
  cases h with
  | of h₁ h₂ hb h₃ hl h₄ => exact ⟨_, _, _, _, _, h₁, h₂, hb, h₃, rfl⟩

theorem ObjectText.ne_nil (h : ObjectText t) : t ≠ [] := by
  cases h with
  | of => simp

theorem Opens.append (h : Opens t) (t' : List Char) : Opens (t ++ t') := by
  obtain ⟨w₁, w₂, b, w₃, l, h₁, h₂, hb, h₃, rfl⟩ := h
  exact ⟨w₁, w₂, b, w₃, l ++ t', h₁, h₂, hb, h₃, by simp⟩

/-! ### Reading character by character -/

inductive Mode where
  | outside
  | inside
  | escaped

/-- Where reading is, and how many brackets are open. -/
def scanChar : Mode × ℕ → Char → Mode × ℕ
  | (.outside, d), c =>
    if c = '"' then (.inside, d)
    else if c = '{' ∨ c = '[' then (.outside, d + 1)
    else if c = '}' ∨ c = ']' then (.outside, d - 1)
    else (.outside, d)
  | (.inside, d), c =>
    if c = '"' then (.outside, d) else if c = '\\' then (.escaped, d) else (.inside, d)
  | (.escaped, d), _ => (.inside, d)

def scan (st : Mode × ℕ) (l : List Char) : Mode × ℕ := l.foldl scanChar st

@[simp] theorem scan_nil (st : Mode × ℕ) : scan st [] = st := rfl

@[simp] theorem scan_cons (st : Mode × ℕ) (c : Char) (l : List Char) :
    scan st (c :: l) = scan (scanChar st c) l := rfl

@[simp] theorem scan_append (st : Mode × ℕ) (l l' : List Char) :
    scan st (l ++ l') = scan (scan st l) l' := List.foldl_append

variable {c : Char}

theorem scanChar_word (h : c ∉ ['"', '{', '}', '[', ']']) (d : ℕ) :
    scanChar (.outside, d) c = (.outside, d) := by
  simp only [List.mem_cons, List.not_mem_nil, or_false, not_or] at h
  obtain ⟨h₁, h₂, h₃, h₄, h₅⟩ := h
  simp [scanChar, h₁, h₂, h₃, h₄, h₅]

theorem scan_word {w : List Char} (h : Word w) (d : ℕ) : scan (.outside, d) w = (.outside, d) := by
  induction w with
  | nil => rfl
  | cons c w ih =>
    rw [Word, List.forall_mem_cons] at h
    rw [scan_cons, scanChar_word h.1, ih h.2]

theorem Blank.word {w : List Char} (h : Blank w) : Word w := by
  intro c hc
  have hblank := h c hc
  simp only [List.mem_cons, List.not_mem_nil, or_false] at hblank
  rcases hblank with rfl | rfl | rfl | rfl <;> decide

theorem scan_body {b : List Char} (h : Body b) (d : ℕ) : scan (.inside, d) b = (.inside, d) := by
  induction h with
  | nil => rfl
  | plain hquote hslash _ ih => simpa [scanChar, hquote, hslash] using ih
  | escaped _ ih => simpa [scanChar] using ih

theorem scan_nested {l : List Char} (h : Nested l) (d : ℕ) :
    scan (.outside, d) l = (.outside, d) := by
  induction h generalizing d with
  | word h => exact scan_word h d
  | string h => simp [scanChar, scan_body h]
  | array _ ih => simp [scanChar, ih]
  | object _ ih => simp [scanChar, ih]
  | append _ _ ih ih' => rw [scan_append, ih, ih']

/-- **Reading an object ends outside of strings, with no bracket open.** -/
theorem ObjectText.scan_eq (h : ObjectText t) :
    scan (.outside, 0) t = (.outside, 0) := by
  cases h with
  | of h₁ h₂ hb h₃ hl h₄ =>
    simp [scan_word h₁.word, scan_word h₂.word, scan_word h₃.word, scan_word h₄.word, scan_body hb,
      scan_nested hl, scanChar]

/-! ## 3.  Flat objects -/

def numericChars : List Char :=
  ['0', '1', '2', '3', '4', '5', '6', '7', '8', '9', '+', '-', '.', 'e', 'E']

theorem mem_numericChars_of_isDigit (h : c.isDigit = true) : c ∈ numericChars := by
  obtain ⟨hlow, hhigh⟩ := Char.isDigit_iff_toNat.mp h
  have hlow : 48 ≤ c.toNat := hlow
  have hhigh : c.toNat ≤ 57 := hhigh
  rw [← Char.ofNat_toNat c]
  interval_cases c.toNat <;> decide

/-- The text of a number. -/
structure Numeral where
  chars : List Char
  numeric : ∀ c ∈ chars, c ∈ numericChars

inductive Scalar where
  | null
  | number (n : Numeral)
  | string (s : List Char)

def stringText (s : List Char) : List Char := '"' :: (escape s ++ ['"'])

def scalarText : Scalar → List Char
  | .null => ['n', 'u', 'l', 'l']
  | .number n => n.chars
  | .string s => stringText s

def memberText (m : List Char × Scalar) : List Char := stringText m.1 ++ ':' :: scalarText m.2

/-- Further members, and what closes the object. -/
def tailText (ms : List (List Char × Scalar)) : List Char :=
  ms.flatMap (fun m => ',' :: memberText m) ++ ['}']

/-- An object, written with no blanks. -/
def objectText : List (List Char × Scalar) → List Char
  | [] => ['{', '}']
  | m :: ms => '{' :: (memberText m ++ tailText ms)

/-- ASCII characters, of which none is a space or a colon. -/
def Name (k : List Char) : Prop := ∀ c ∈ k, c.toNat < 128 ∧ c ≠ ' ' ∧ c ≠ ':'

instance (k : List Char) : Decidable (Name k) := inferInstanceAs (Decidable (∀ c ∈ k, _))

theorem tailText_cons (m : List Char × Scalar) (ms : List (List Char × Scalar)) :
    tailText (m :: ms) = ',' :: (memberText m ++ tailText ms) := by
  simp [tailText]

/-! ### The characters of an object -/

theorem mem_escape_of_le (h : 128 ≤ c.toNat) :
    c ∈ escape s ↔ c ∈ s := by
  induction s with
  | nil => rfl
  | cons d s ih =>
    rw [escape_cons, List.mem_append, ih, List.mem_cons]
    refine or_congr_left ?_
    rcases escapeChar_cases d with ⟨hd, -⟩ | ⟨e, l, hl, he, hdigits, hd⟩
    · rw [hd, List.mem_singleton]
    · have hne : ∀ x : Char, x.toNat < 128 → c ≠ x := by
        rintro x hx rfl
        omega
      rw [hl, List.mem_cons, List.mem_cons]
      refine iff_of_false ?_ (hne d hd)
      rintro (hc | hc | hc)
      · exact hne '\\' (by decide) hc
      · exact hne e he.2 hc
      · exact hne c (hexDigits_printed c (hdigits c hc)).2.1 rfl

theorem printed_escape (h : c ∈ escape s) : 32 ≤ c.toNat := by
  obtain ⟨d, -, hc⟩ := List.mem_flatMap.mp h
  rcases escapeChar_cases d with ⟨hd, -, -, hprinted⟩ | ⟨e, l, hl, he, hdigits, -⟩
  · rw [hd, List.mem_singleton] at hc
    exact hc ▸ hprinted
  · rw [hl, List.mem_cons, List.mem_cons] at hc
    rcases hc with rfl | rfl | hc
    · decide
    · exact he.1
    · exact (hexDigits_printed c (hdigits c hc)).1

theorem printed_stringText (h : c ∈ stringText s) : 32 ≤ c.toNat := by
  simp only [stringText, List.mem_cons, List.mem_append, List.not_mem_nil, or_false] at h
  rcases h with rfl | h | rfl
  · decide
  · exact printed_escape h
  · decide

theorem Numeral.printed {n : Numeral} (h : c ∈ n.chars) :
    32 ≤ c.toNat ∧ c.toNat < 128 := by
  have hall : ∀ d ∈ numericChars, 32 ≤ d.toNat ∧ d.toNat < 128 := by decide
  exact hall c (n.numeric c h)

theorem printed_scalarText {v : Scalar} (h : c ∈ scalarText v) : 32 ≤ c.toNat := by
  cases v with
  | null =>
    have hall : ∀ d ∈ ['n', 'u', 'l', 'l'], 32 ≤ d.toNat := by decide
    exact hall c h
  | number n => exact (Numeral.printed h).1
  | string s => exact printed_stringText h

theorem printed_memberText {m : List Char × Scalar} (h : c ∈ memberText m) :
    32 ≤ c.toNat := by
  rw [memberText, List.mem_append, List.mem_cons] at h
  rcases h with h | rfl | h
  · exact printed_stringText h
  · decide
  · exact printed_scalarText h

variable {ms : List (List Char × Scalar)}

theorem mem_tailText :
    c ∈ tailText ms ↔ (∃ m ∈ ms, c = ',' ∨ c ∈ memberText m) ∨ c = '}' := by
  simp [tailText]

theorem mem_objectText (h : c ∈ objectText ms) :
    (∃ m ∈ ms, c ∈ memberText m) ∨ c = '{' ∨ c = ',' ∨ c = '}' := by
  cases ms with
  | nil =>
    have hbraces : c = '{' ∨ c = '}' := by simpa [objectText] using h
    rcases hbraces with rfl | rfl
    · exact .inr (.inl rfl)
    · exact .inr (.inr (.inr rfl))
  | cons m ms =>
    simp only [objectText, List.mem_cons, List.mem_append, mem_tailText] at h
    rcases h with rfl | h | ⟨m', hm', rfl | h⟩ | rfl
    · exact .inr (.inl rfl)
    · exact .inl ⟨m, List.mem_cons_self, h⟩
    · exact .inr (.inr (.inl rfl))
    · exact .inl ⟨m', List.mem_cons_of_mem m hm', h⟩
    · exact .inr (.inr (.inr rfl))

theorem memberText_subset {m : List Char × Scalar} (hm : m ∈ ms) (h : c ∈ memberText m) :
    c ∈ objectText ms := by
  cases ms with
  | nil => exact nomatch hm
  | cons m' ms =>
    simp only [objectText, List.mem_cons, List.mem_append, mem_tailText]
    rcases List.mem_cons.mp hm with rfl | hm
    · exact .inr (.inl h)
    · exact .inr (.inr (.inl ⟨m, hm, .inr h⟩))

theorem printed_objectText (h : c ∈ objectText ms) :
    32 ≤ c.toNat := by
  rcases mem_objectText h with ⟨m, -, h⟩ | rfl | rfl | rfl
  · exact printed_memberText h
  · decide
  · decide
  · decide

theorem mem_objectText_iff (hnames : ∀ m ∈ ms, Name m.1) (hc : 128 ≤ c.toNat) :
    c ∈ objectText ms ↔ ∃ m ∈ ms, ∃ s, m.2 = .string s ∧ c ∈ s := by
  have hne : ∀ d : Char, d.toNat < 128 → c ≠ d := by
    rintro d hd rfl
    omega
  have hstring : ∀ s, c ∈ stringText s ↔ c ∈ s := by
    intro s
    simp [stringText, hne '"' (by decide), mem_escape_of_le hc]
  have hmember : ∀ m ∈ ms, c ∈ memberText m ↔ ∃ s, m.2 = .string s ∧ c ∈ s := by
    intro m hm
    have hname : c ∉ m.1 := fun h => by
      have := (hnames m hm c h).1
      omega
    rw [memberText, List.mem_append, List.mem_cons, hstring, or_iff_right hname,
      or_iff_right (hne ':' (by decide))]
    cases m.2 with
    | null => simp [scalarText, hne 'n' (by decide), hne 'u' (by decide), hne 'l' (by decide)]
    | number n =>
      have hnumeric : c ∉ n.chars := fun h => by
        have := (Numeral.printed h).2
        omega
      simp [scalarText, hnumeric]
    | string s => simp [scalarText, hstring]
  constructor
  · intro h
    rcases mem_objectText h with ⟨m, hm, h⟩ | h | h | h
    · exact ⟨m, hm, (hmember m hm).mp h⟩
    · exact absurd h (hne _ (by decide))
    · exact absurd h (hne _ (by decide))
    · exact absurd h (hne _ (by decide))
  · rintro ⟨m, hm, h⟩
    exact memberText_subset hm ((hmember m hm).mpr h)

/-! ### A prefix of an object -/

theorem Body.append {b b' : List Char} (h : Body b) (h' : Body b') : Body (b ++ b') := by
  induction h with
  | nil => exact h'
  | plain hquote hslash _ ih => exact .plain hquote hslash ih
  | escaped _ ih => exact .escaped ih

theorem body_hexDigits {l : List Char} (h : ∀ e ∈ l, e ∈ hexDigits) : Body l := by
  induction l with
  | nil => exact .nil
  | cons e l ih =>
    rw [List.forall_mem_cons] at h
    obtain ⟨-, -, hquote, hslash⟩ := hexDigits_printed e h.1
    exact .plain hquote hslash (ih h.2)

theorem body_escape (s : List Char) : Body (escape s) := by
  induction s with
  | nil => exact .nil
  | cons c s ih =>
    rw [escape_cons]
    refine Body.append ?_ ih
    rcases escapeChar_cases c with ⟨hc, hquote, hslash, -⟩ | ⟨d, l, hl, -, hdigits, -⟩
    · rw [hc]
      exact .plain hquote hslash .nil
    · rw [hl]
      exact .escaped (body_hexDigits hdigits)

theorem prefix_append_cases {α : Type} {q l l' : List α} (h : q <+: l ++ l') :
    q <+: l ∨ ∃ q', q = l ++ q' ∧ q' <+: l' := by
  obtain ⟨r, hr⟩ := h
  rcases List.append_eq_append_iff.mp hr with ⟨t, ht, -⟩ | ⟨t, ht, hl'⟩
  · exact .inl ⟨t, ht.symm⟩
  · exact .inr ⟨t, ht, r, hl'.symm⟩

/-- In no prefix does the number of open brackets change, and the whole ends outside of strings. -/
structure Flat (l : List Char) : Prop where
  closed (d : ℕ) : scan (.outside, d) l = (.outside, d)
  depth (d : ℕ) {q : List Char} (h : q <+: l) : (scan (.outside, d) q).2 = d

theorem Flat.append {l l' : List Char} (h : Flat l) (h' : Flat l') : Flat (l ++ l') where
  closed d := by rw [scan_append, h.closed, h'.closed]
  depth d q hq := by
    rcases prefix_append_cases hq with hq | ⟨q', rfl, hq'⟩
    · exact h.depth d hq
    · rw [scan_append, h.closed]
      exact h'.depth d hq'

theorem Flat.word {w : List Char} (h : Word w) : Flat w where
  closed := scan_word h
  depth d q hq := by rw [scan_word (fun c hc => h c (hq.subset hc))]

theorem depth_body {b : List Char} (h : Body b) (d : ℕ) {q : List Char} (hq : q <+: b) :
    (scan (.inside, d) q).2 = d := by
  induction h generalizing q with
  | nil => rw [List.prefix_nil.mp hq, scan_nil]
  | plain hquote hslash _ ih =>
    rcases List.prefix_cons_iff.mp hq with rfl | ⟨r, rfl, hr⟩
    · rfl
    · simpa [scanChar, hquote, hslash] using ih hr
  | escaped _ ih =>
    rcases List.prefix_cons_iff.mp hq with rfl | ⟨r, rfl, hr⟩
    · rfl
    · rcases List.prefix_cons_iff.mp hr with rfl | ⟨r', rfl, hr'⟩
      · rfl
      · simpa [scanChar] using ih hr'

theorem flat_stringText (s : List Char) : Flat (stringText s) where
  closed d := by simp [stringText, scanChar, scan_body (body_escape s)]
  depth d q hq := by
    rcases List.prefix_cons_iff.mp hq with rfl | ⟨r, rfl, hr⟩
    · rfl
    · rcases List.prefix_concat_iff.mp hr with rfl | hr'
      · simp [scanChar, scan_body (body_escape s)]
      · simpa [scanChar] using depth_body (body_escape s) d hr'

theorem flat_scalarText (v : Scalar) : Flat (scalarText v) := by
  cases v with
  | null => exact .word (by unfold Word; decide)
  | number n =>
    have hword : ∀ c ∈ numericChars, c ∉ ['"', '{', '}', '[', ']'] := by decide
    exact .word fun c hc => hword c (n.numeric c hc)
  | string s => exact flat_stringText s

theorem flat_memberText (m : List Char × Scalar) : Flat (memberText m) := by
  have hcolon : Flat [':'] := .word (by unfold Word; decide)
  exact (flat_stringText m.1).append (hcolon.append (flat_scalarText m.2))

theorem flat_members (ms : List (List Char × Scalar)) :
    Flat (ms.flatMap fun m => ',' :: memberText m) := by
  have hcomma : Flat [','] := .word (by unfold Word; decide)
  induction ms with
  | nil => exact .word (by unfold Word; decide)
  | cons m ms ih => exact (hcomma.append (flat_memberText m)).append ih

theorem objectText_eq (ms : List (List Char × Scalar)) :
    ∃ l, Flat l ∧ objectText ms = '{' :: (l ++ ['}']) := by
  cases ms with
  | nil => exact ⟨[], .word (by unfold Word; decide), rfl⟩
  | cons m ms =>
    refine ⟨_, (flat_memberText m).append (flat_members ms), ?_⟩
    rw [objectText, tailText, List.append_assoc]

/-- **A proper prefix of an object is not an object.** -/
theorem not_objectText_of_prefix {p : List Char} (hp : p <+: objectText ms)
    (hne : p ≠ objectText ms) : ¬ObjectText p := by
  intro h
  obtain ⟨l, hflat, heq⟩ := objectText_eq ms
  rw [heq] at hp hne
  have hscan := h.scan_eq
  rcases List.prefix_cons_iff.mp hp with rfl | ⟨q, rfl, hq⟩
  · exact h.ne_nil rfl
  · rcases List.prefix_concat_iff.mp hq with rfl | hq
    · exact hne rfl
    · have hdepth : (scan (.outside, 1) q).2 = 1 := hflat.depth 1 hq
      have hzero : scan (.outside, 1) q = (.outside, 0) := hscan
      rw [hzero] at hdepth
      exact absurd hdepth (by decide)

/-! ### An object is an object -/

theorem nested_scalarText (v : Scalar) : Nested (scalarText v) := by
  cases v with
  | null => exact .word (by unfold Word; decide)
  | number n =>
    have hword : ∀ c ∈ numericChars, c ∉ ['"', '{', '}', '[', ']'] := by decide
    exact .word fun c hc => hword c (n.numeric c hc)
  | string s => exact .string (body_escape s)

theorem nested_members (ms : List (List Char × Scalar)) :
    Nested (ms.flatMap fun m => ',' :: memberText m) := by
  induction ms with
  | nil => exact .word (by unfold Word; decide)
  | cons m ms ih =>
    have hcomma : Nested [','] := .word (by unfold Word; decide)
    have hcolon : Nested [':'] := .word (by unfold Word; decide)
    have hkey : Nested (stringText m.1) := .string (body_escape m.1)
    exact (hcomma.append (hkey.append (hcolon.append (nested_scalarText m.2)))).append ih

theorem objectText_cons (m : List Char × Scalar) (ms : List (List Char × Scalar)) :
    ObjectText (objectText (m :: ms)) := by
  have hblank : Blank [] := by simp [Blank]
  have hobject := ObjectText.of hblank hblank (body_escape m.1) hblank
    ((nested_scalarText m.2).append (nested_members ms)) hblank
  simpa [objectText, memberText, stringText, tailText] using hobject

/-! ### What begins inside of a string -/

theorem escape_append_eq_blank {w r : List Char} (hw : Blank w) (h : escape s ++ '"' :: t = w ++ r) :
    ∃ s', r = escape s' ++ '"' :: t := by
  induction w generalizing s with
  | nil => exact ⟨s, h.symm⟩
  | cons c w ih =>
    rw [Blank, List.forall_mem_cons] at hw
    have hne : c ≠ '"' ∧ c ≠ '\\' := by
      have hblank : ∀ d ∈ [' ', '\t', '\n', '\r'], d ≠ '"' ∧ d ≠ '\\' := by decide
      exact hblank c hw.1
    obtain ⟨s', -, hs'⟩ := escape_append_eq_cons h hne.1 hne.2
    exact ih hw.2 hs'.symm

theorem head_name {k r l : List Char} (hk : Name k) (h : escape k ++ '"' :: r = c :: l) :
    c ∉ [' ', '\t', '\n', '\r', ':'] := by
  have hmem : ∀ d ∈ [' ', '\t', '\n', '\r', ':'], d ≠ '"' ∧ d ≠ '\\' ∧
      (d.toNat < 32 ∨ d = ' ' ∨ d = ':') := by decide
  intro hc
  obtain ⟨hquote, hslash, hplain⟩ := hmem c hc
  obtain ⟨k', rfl, -⟩ := escape_append_eq_cons h hquote hslash
  obtain ⟨-, hspace, hcolon⟩ := hk c List.mem_cons_self
  have hprinted : 32 ≤ c.toNat := by
    rcases escapeChar_cases c with ⟨-, -, -, hprinted⟩ | ⟨d, l', hl', -⟩
    · exact hprinted
    · rw [escape_cons, hl'] at h
      exact absurd (List.cons.inj h).1.symm hslash
  rcases hplain with hlow | hc | hc
  · omega
  · exact hspace hc
  · exact hcolon hc

/-- **What begins inside of a string names no key**: the first quote ends the string, and after it
stands the end of the object, or a comma and the name of the next key. -/
theorem not_opens_tail (hnames : ∀ m ∈ ms, Name m.1) : ¬Opens (escape s ++ '"' :: tailText ms) := by
  rintro ⟨w₁, w₂, b, w₃, l, h₁, h₂, hb, h₃, heq⟩
  -- The blanks and the brace are characters of the string, and the quote is its end.
  obtain ⟨s₁, hs₁⟩ := escape_append_eq_blank h₁ heq
  obtain ⟨s₂, -, hs₂⟩ := escape_append_eq_cons hs₁.symm (by decide) (by decide)
  obtain ⟨s₃, hs₃⟩ := escape_append_eq_blank h₂ hs₂.symm
  obtain ⟨-, htail⟩ := escape_append_eq_quote hs₃.symm
  have htail : tailText ms = b ++ '"' :: (w₃ ++ ':' :: l) := (List.cons.inj htail).2
  cases ms with
  | nil =>
    have htail : ['}'] = b ++ '"' :: (w₃ ++ ':' :: l) := htail
    cases hb with
    | nil => exact absurd (List.cons.inj htail).1 (by decide)
    | plain => simp at htail
    | escaped => exact absurd (List.cons.inj htail).1 (by decide)
  | cons m ms =>
    have hname : Name m.1 := hnames m List.mem_cons_self
    rw [tailText_cons] at htail
    cases hb with
    | nil => exact absurd (List.cons.inj htail).1 (by decide)
    | escaped => exact absurd (List.cons.inj htail).1 (by decide)
    | plain _ _ hb =>
      -- The comma is the key, so that the quote of the next key ends it.
      have hkey := (List.cons.inj htail).2
      cases hb with
      | plain hquote => exact hquote (List.cons.inj hkey).1.symm
      | escaped => exact absurd (List.cons.inj hkey).1 (by decide)
      | nil =>
        have hnext : escape m.1 ++ '"' :: (':' :: scalarText m.2 ++ tailText ms) =
            w₃ ++ ':' :: l := by
          have hkey := (List.cons.inj hkey).2
          simpa [memberText, stringText] using hkey
        cases w₃ with
        | nil => exact head_name hname hnext (by decide)
        | cons c w₃ =>
          rw [Blank, List.forall_mem_cons] at h₃
          refine head_name hname hnext ?_
          have hsub : ∀ d ∈ [' ', '\t', '\n', '\r'], d ∈ [' ', '\t', '\n', '\r', ':'] := by
            decide
          exact hsub c h₃.1

variable {xs ys : List Char}

theorem after_append {l l' : List Char} (hl : ∀ d ∈ l, d.toNat < 128) (hc : 128 ≤ c.toNat)
    (h : l ++ l' = xs ++ c :: ys) : ∃ xs', l' = xs' ++ c :: ys := by
  rcases List.append_eq_append_iff.mp h with ⟨t, -, ht⟩ | ⟨t, ht, hr⟩
  · exact ⟨t, ht⟩
  · cases t with
    | nil => exact ⟨[], hr.symm⟩
    | cons d t =>
      have hmem : c ∈ l := by
        rw [ht, (List.cons.inj hr).1]
        simp
      have := hl c hmem
      omega

theorem after_escape (hc : 128 ≤ c.toNat) (h : escape s ++ t = xs ++ c :: ys) :
    (∃ s', ys = escape s' ++ t) ∨ ∃ xs', t = xs' ++ c :: ys := by
  induction s generalizing xs with
  | nil => exact .inr ⟨xs, h⟩
  | cons d s ih =>
    rw [escape_cons, List.append_assoc] at h
    rcases escapeChar_cases d with ⟨hd, -⟩ | ⟨e, l, hl, he, hdigits, -⟩
    · rw [hd, List.singleton_append] at h
      cases xs with
      | nil => exact .inl ⟨s, (List.cons.inj h).2.symm⟩
      | cons x xs => exact ih (List.cons.inj h).2
    · have hascii : ∀ x ∈ escapeChar d, x.toNat < 128 := by
        rw [hl]
        simp only [List.forall_mem_cons]
        exact ⟨by decide, he.2, fun x hx => (hexDigits_printed x (hdigits x hx)).2.1⟩
      obtain ⟨xs', hxs'⟩ := after_append hascii hc h
      exact ih hxs'

theorem ascii_stringText {k : List Char} (hk : Name k) {d : Char} (hd : d ∈ stringText k) :
    d.toNat < 128 := by
  by_contra hbeyond
  have hle : 128 ≤ d.toNat := not_lt.mp hbeyond
  simp only [stringText, List.mem_cons, List.mem_append, List.not_mem_nil, or_false,
    mem_escape_of_le hle] at hd
  rcases hd with rfl | hd | rfl
  · exact hbeyond (by decide)
  · exact hbeyond (hk d hd).1
  · exact hbeyond (by decide)

theorem after_memberText {m : List Char × Scalar} (hm : Name m.1) (hc : 128 ≤ c.toNat)
    (h : memberText m ++ tailText ms = xs ++ c :: ys) :
    (∃ s, ys = escape s ++ '"' :: tailText ms) ∨ ∃ xs', tailText ms = xs' ++ c :: ys := by
  have hkey : ∀ d ∈ stringText m.1 ++ [':'], d.toNat < 128 := by
    intro d hd
    rcases List.mem_append.mp hd with hd | hd
    · exact ascii_stringText hm hd
    · rw [List.mem_singleton.mp hd]
      decide
  have hsplit : (stringText m.1 ++ [':']) ++ (scalarText m.2 ++ tailText ms) = xs ++ c :: ys := by
    rw [← h, memberText]
    simp
  obtain ⟨xs, hscalar⟩ := after_append hkey hc hsplit
  cases hv : m.2 with
  | null =>
    rw [hv] at hscalar
    exact .inr (after_append (by decide) hc hscalar)
  | number n =>
    rw [hv] at hscalar
    exact .inr (after_append (fun d hd => (Numeral.printed hd).2) hc hscalar)
  | string s =>
    have hstring : ['"'] ++ (escape s ++ '"' :: tailText ms) = xs ++ c :: ys := by
      rw [← hscalar, hv, scalarText, stringText]
      simp
    obtain ⟨xs, hescape⟩ := after_append (by decide) hc hstring
    rcases after_escape hc hescape with hinside | ⟨xs, hrest⟩
    · exact .inl hinside
    · have hquote : ['"'] ++ tailText ms = xs ++ c :: ys := hrest
      exact .inr (after_append (by decide) hc hquote)

theorem after_tailText (hnames : ∀ m ∈ ms, Name m.1) (hc : 128 ≤ c.toNat)
    (h : tailText ms = xs ++ c :: ys) :
    ∃ s ms', (∀ m ∈ ms', Name m.1) ∧ ys = escape s ++ '"' :: tailText ms' := by
  induction ms generalizing xs with
  | nil =>
    have hbrace : ['}'] ++ [] = xs ++ c :: ys := h
    obtain ⟨xs', hxs'⟩ := after_append (by decide) hc hbrace
    simp at hxs'
  | cons m ms ih =>
    rw [List.forall_mem_cons] at hnames
    rw [tailText_cons] at h
    have hcomma : [','] ++ (memberText m ++ tailText ms) = xs ++ c :: ys := h
    obtain ⟨xs', hmember⟩ := after_append (by decide) hc hcomma
    rcases after_memberText hnames.1 hc hmember with ⟨s, hs⟩ | ⟨xs'', hrest⟩
    · exact ⟨s, ms, hnames.2, hs⟩
    · exact ih hnames.2 hrest

/-- **What follows a character beyond ASCII is not the beginning of an object.** -/
theorem not_opens_after (hnames : ∀ m ∈ ms, Name m.1) (hc : 128 ≤ c.toNat)
    (h : objectText ms = xs ++ c :: ys) :
    ¬Opens ys := by
  have hinside : ∃ s ms', (∀ m ∈ ms', Name m.1) ∧ ys = escape s ++ '"' :: tailText ms' := by
    cases ms with
    | nil =>
      have hbraces : ['{', '}'] ++ [] = xs ++ c :: ys := h
      obtain ⟨xs', hxs'⟩ := after_append (by decide) hc hbraces
      simp at hxs'
    | cons m ms =>
      rw [List.forall_mem_cons] at hnames
      have hbrace : ['{'] ++ (memberText m ++ tailText ms) = xs ++ c :: ys := h
      obtain ⟨xs', hmember⟩ := after_append (by decide) hc hbrace
      rcases after_memberText hnames.1 hc hmember with ⟨s, hs⟩ | ⟨xs'', hrest⟩
      · exact ⟨s, ms, hnames.2, hs⟩
      · exact after_tailText hnames.2 hc hrest
  obtain ⟨s, ms', hnames', rfl⟩ := hinside
  exact not_opens_tail hnames'

end Kroker.JsonText
