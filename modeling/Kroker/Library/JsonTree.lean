import Kroker.Library.Json
import Kroker.Library.Members
import Mathlib

/-!
# JSON trees

`json.dumps` with compact separators, of values of any depth.

## 1.  Codings

A string is written character by character, and what is written for a character tells where it ends
and which character it was (`Coding`).  There are two ways: control characters, quotes and
backslashes are escaped, or every character outside of printable ASCII is, one beyond the basic plane
by two surrogates.

## 2.  Trees

A tree is read back from its text whatever follows the text, if that does not prolong its last token
(`readValue_print`); so the text determines the tree (`print_injective`).

## 3.  Keys in order

`sort_keys` sorts the members at every depth.  A member is found as before, its value sorted
(`get?_sorted_record`).

## 4.  Values and their trees

A `Codec` writes the values of a type as trees and reads them back whatever the order of the members.
The fields of a record are left out at their defaults.
-/

namespace Kroker.JsonText

/-! ## 1.  Codings -/

/-- How the characters of a string are written. -/
structure Coding where
  code : Char → List Char
  read : List Char → Option (Char × List Char)
  read_code : ∀ c r, read (code c ++ r) = some (c, r)
  code_ne_quote : ∀ c r r', code c ++ r ≠ '"' :: r'

def hexValue (c : Char) : ℕ := hexDigits.idxOf c

theorem hexValue_hexDigit {n : ℕ} (h : n < 16) : hexValue (hexDigit n) = n := by
  interval_cases n <;> decide

/-- What stands after a backslash. -/
def unescaped (d : Char) : Char :=
  if d = 'b' then Char.ofNat 8
  else if d = 't' then Char.ofNat 9
  else if d = 'n' then Char.ofNat 10
  else if d = 'f' then Char.ofNat 12
  else if d = 'r' then Char.ofNat 13
  else d

/-- `\u` and four hexadecimal digits. -/
def unicodeEscape (n : ℕ) : List Char :=
  ['\\', 'u', hexDigit (n / 4096), hexDigit (n / 256 % 16), hexDigit (n / 16 % 16),
    hexDigit (n % 16)]

def unicodeValue (a b c d : Char) : ℕ :=
  4096 * hexValue a + 256 * hexValue b + 16 * hexValue c + hexValue d

/-- The second of two surrogates. -/
def readLow (high : ℕ) : List Char → Option (Char × List Char)
  | _ :: _ :: a :: b :: c :: d :: r =>
    some (Char.ofNat (65536 + 1024 * (high - 0xd800) + (unicodeValue a b c d - 0xdc00)), r)
  | _ => none

/-- The first character of what stands between quotes, and the rest. -/
def readChar : List Char → Option (Char × List Char)
  | '\\' :: 'u' :: a :: b :: c :: d :: r =>
    if unicodeValue a b c d < 0xd800 ∨ 0xe000 ≤ unicodeValue a b c d then
      some (Char.ofNat (unicodeValue a b c d), r)
    else readLow (unicodeValue a b c d) r
  | '\\' :: d :: r => some (unescaped d, r)
  | c :: r => some (c, r)
  | [] => none

theorem unicodeValue_digits {n : ℕ} (h : n < 65536) :
    unicodeValue (hexDigit (n / 4096)) (hexDigit (n / 256 % 16)) (hexDigit (n / 16 % 16))
      (hexDigit (n % 16)) = n := by
  rw [unicodeValue, hexValue_hexDigit (by omega), hexValue_hexDigit (by omega),
    hexValue_hexDigit (by omega), hexValue_hexDigit (by omega)]
  omega

theorem readChar_unicodeEscape {n : ℕ} (h : n < 65536) (hn : n < 0xd800 ∨ 0xe000 ≤ n)
    (r : List Char) : readChar (unicodeEscape n ++ r) = some (Char.ofNat n, r) := by
  show readChar ('\\' :: 'u' :: _ :: _ :: _ :: _ :: r) = _
  rw [readChar, unicodeValue_digits h, if_pos hn]

theorem char_eq_ofNat {c : Char} {n : ℕ} (h : c.toNat = n) : c = Char.ofNat n := by
  rw [← h, Char.ofNat_toNat]

theorem readChar_escapeChar (c : Char) (r : List Char) :
    readChar (escapeChar c ++ r) = some (c, r) := by
  unfold escapeChar
  split_ifs with h₁ h₂ h₃ h₄ h₅ h₆ h₇ h₈
  · rw [h₁]
    rfl
  · rw [h₂]
    rfl
  · rw [char_eq_ofNat h₃]
    rfl
  · rw [char_eq_ofNat h₄]
    rfl
  · rw [char_eq_ofNat h₅]
    rfl
  · rw [char_eq_ofNat h₆]
    rfl
  · rw [char_eq_ofNat h₇]
    rfl
  · have hdigits : ['\\', 'u', '0', '0', hexDigit (c.toNat / 16), hexDigit (c.toNat % 16)] =
        unicodeEscape c.toNat := by
      have hfirst : c.toNat / 4096 = 0 := by omega
      have hsecond : c.toNat / 256 % 16 = 0 := by omega
      have hthird : c.toNat / 16 % 16 = c.toNat / 16 := by omega
      rw [unicodeEscape, hfirst, hsecond, hthird]
      rfl
    rw [hdigits, readChar_unicodeEscape (by omega) (by omega), Char.ofNat_toNat]
  · rw [List.singleton_append, readChar]
    · exact fun _ _ _ _ _ h _ => absurd h h₂
    · exact fun _ _ h => absurd h h₂

/-- A character as it is written in ASCII. -/
def asciiChar (c : Char) : List Char :=
  if c.toNat ≤ 126 then escapeChar c
  else if c.toNat < 65536 then unicodeEscape c.toNat
  else unicodeEscape (0xd800 + (c.toNat - 65536) / 1024) ++
    unicodeEscape (0xdc00 + (c.toNat - 65536) % 1024)

theorem toNat_bounds (c : Char) :
    c.toNat < 0xd800 ∨ 0xdfff < c.toNat ∧ c.toNat < 0x110000 := c.valid

theorem readChar_asciiChar (c : Char) (r : List Char) :
    readChar (asciiChar c ++ r) = some (c, r) := by
  have hbounds := toNat_bounds c
  unfold asciiChar
  split_ifs with hascii hbasic
  · exact readChar_escapeChar c r
  · rw [readChar_unicodeEscape hbasic (by omega), Char.ofNat_toNat]
  · -- Two surrogates: the first stands for no character of its own.
    rw [List.append_assoc]
    show readChar ('\\' :: 'u' :: _ :: _ :: _ :: _ :: ('\\' :: 'u' :: _ :: _ :: _ :: _ :: r)) = _
    rw [readChar, unicodeValue_digits (by omega), if_neg (by omega), readLow,
      unicodeValue_digits (by omega)]
    have hsum : 65536 + 1024 * (0xd800 + (c.toNat - 65536) / 1024 - 0xd800) +
        (0xdc00 + (c.toNat - 65536) % 1024 - 0xdc00) = c.toNat := by omega
    rw [hsum, Char.ofNat_toNat]

theorem escapeChar_append_ne_quote (c : Char) (r r' : List Char) :
    escapeChar c ++ r ≠ '"' :: r' := by
  intro h
  obtain ⟨hc, hquote, -⟩ | ⟨d, l, hl, -⟩ := escapeChar_cases c
  · rw [hc, List.singleton_append, List.cons.injEq] at h
    exact hquote h.1
  · rw [hl, List.cons_append, List.cons.injEq] at h
    exact absurd h.1 (by decide)

/-- `ensure_ascii=False`. -/
def plain : Coding where
  code := escapeChar
  read := readChar
  read_code := readChar_escapeChar
  code_ne_quote := escapeChar_append_ne_quote

/-- `ensure_ascii=True`. -/
def ascii : Coding where
  code := asciiChar
  read := readChar
  read_code := readChar_asciiChar
  code_ne_quote c r r' h := by
    unfold asciiChar at h
    split_ifs at h
    · exact escapeChar_append_ne_quote c r r' h
    · exact absurd (List.cons.inj h).1 (by decide)
    · exact absurd (List.cons.inj h).1 (by decide)

namespace Coding

variable (E : Coding)

def quoted (s : List Char) : List Char := '"' :: (s.flatMap E.code ++ ['"'])

variable {E}

theorem code_ne_nil (c : Char) : E.code c ≠ [] := by
  intro h
  refine E.code_ne_quote c ['"'] [] ?_
  rw [h, List.nil_append]

end Coding

theorem printed_unicodeEscape {n : ℕ} {d : Char} (h : d ∈ unicodeEscape n) :
    32 ≤ d.toNat ∧ d.toNat < 128 := by
  have hdigit (m : ℕ) : 32 ≤ (hexDigit m).toNat ∧ (hexDigit m).toNat < 128 :=
    ⟨(hexDigits_printed _ (hexDigit_mem m)).1, (hexDigits_printed _ (hexDigit_mem m)).2.1⟩
  simp only [unicodeEscape, List.mem_cons, List.not_mem_nil, or_false] at h
  rcases h with rfl | rfl | rfl | rfl | rfl | rfl
  · decide
  · decide
  · exact hdigit _
  · exact hdigit _
  · exact hdigit _
  · exact hdigit _

theorem printed_asciiChar {c d : Char} (h : d ∈ asciiChar c) : 32 ≤ d.toNat ∧ d.toNat < 128 := by
  unfold asciiChar at h
  split_ifs at h with hascii
  · rcases escapeChar_cases c with ⟨hc, -, -, hprinted⟩ | ⟨e, l, hl, he, hdigits, -⟩
    · rw [hc, List.mem_singleton] at h
      rw [h]
      omega
    · rw [hl, List.mem_cons, List.mem_cons] at h
      rcases h with rfl | rfl | h
      · decide
      · exact he
      · exact ⟨(hexDigits_printed d (hdigits d h)).1, (hexDigits_printed d (hdigits d h)).2.1⟩
  · exact printed_unicodeEscape h
  · rcases List.mem_append.mp h with h | h
    · exact printed_unicodeEscape h
    · exact printed_unicodeEscape h

theorem printed_quoted_ascii {s : List Char} {d : Char} (h : d ∈ ascii.quoted s) :
    32 ≤ d.toNat ∧ d.toNat < 128 := by
  rw [Coding.quoted, List.mem_cons, List.mem_append, List.mem_singleton] at h
  rcases h with rfl | h | rfl
  · decide
  · obtain ⟨c, -, hc⟩ := List.mem_flatMap.mp h
    exact printed_asciiChar hc
  · decide

/-! ## 2.  Trees -/

/-- What is written for a number, a truth value or nothing. -/
@[ext] structure Token where
  chars : List Char
  ne_nil : chars ≠ []
  proper : ∀ c ∈ chars, c ∉ ['"', '[', ']', '{', '}', ',', ':']

inductive Tree where
  | token (w : Token)
  | string (s : List Char)
  | array (items : List Tree)
  | object (members : List (List Char × Tree))

namespace Tree

variable (E : Coding)

mutual

/-- `json.dumps` with compact separators. -/
def print : Tree → List Char
  | .token w => w.chars
  | .string s => E.quoted s
  | .array [] => ['[', ']']
  | .array (t :: ts) => '[' :: (print t ++ printItems ts)
  | .object [] => ['{', '}']
  | .object ((k, t) :: ms) => '{' :: (E.quoted k ++ ':' :: (print t ++ printMembers ms))

def printItems : List Tree → List Char
  | [] => [']']
  | t :: ts => ',' :: (print t ++ printItems ts)

def printMembers : List (List Char × Tree) → List Char
  | [] => ['}']
  | (k, t) :: ms => ',' :: (E.quoted k ++ ':' :: (print t ++ printMembers ms))

end

/-- What follows a value: nothing, or a character that no token has. -/
def Ends (r : List Char) : Prop := ∀ c ∈ r.head?, c ∈ [',', ']', '}']

variable {E}

theorem ends_printItems (ts : List Tree) (r : List Char) : Ends (printItems E ts ++ r) := by
  cases ts with
  | nil =>
    rw [printItems]
    intro c hc
    cases hc
    decide
  | cons t ts =>
    rw [printItems]
    intro c hc
    cases hc
    decide

theorem ends_printMembers (ms : List (List Char × Tree)) (r : List Char) :
    Ends (printMembers E ms ++ r) := by
  cases ms with
  | nil =>
    rw [printMembers]
    intro c hc
    cases hc
    decide
  | cons m ms =>
    rw [printMembers]
    intro c hc
    cases hc
    decide

theorem token_append_ne {w : Token} {r r' : List Char} {c : Char}
    (hc : c ∈ ['"', '[', ']', '{', '}', ',', ':']) : w.chars ++ r ≠ c :: r' := by
  obtain ⟨d, l, hl⟩ := List.exists_cons_of_ne_nil w.ne_nil
  rw [hl, List.cons_append]
  intro h
  refine w.proper d (by rw [hl]; exact List.mem_cons_self) ?_
  rw [(List.cons.inj h).1]
  exact hc

theorem print_append_ne {t : Tree} {r r' : List Char} : print E t ++ r ≠ ']' :: r' := by
  intro h
  match t with
  | .token w =>
    rw [print] at h
    exact token_append_ne (c := ']') (by decide) h
  | .string s =>
    rw [print, Coding.quoted] at h
    exact absurd (List.cons.inj h).1 (by decide)
  | .array [] | .array (_ :: _) =>
    rw [print] at h
    exact absurd (List.cons.inj h).1 (by decide)
  | .object [] | .object (_ :: _) =>
    rw [print] at h
    exact absurd (List.cons.inj h).1 (by decide)

/-- A character of a token. -/
def proper (c : Char) : Bool := c ∉ ['"', '[', ']', '{', '}', ',', ':']

theorem proper_iff {c : Char} :
    proper c = true ↔ c ∉ ['"', '[', ']', '{', '}', ',', ':'] :=
  decide_eq_true_iff

/-- The token that a text begins with. -/
def readToken (l : List Char) : Option (Tree × List Char) :=
  if h : l.takeWhile proper ≠ [] then
    some (.token ⟨l.takeWhile proper, h, fun _ hc => proper_iff.mp (List.mem_takeWhile_imp hc)⟩,
      l.dropWhile proper)
  else none

theorem readToken_chars (w : Token) {r : List Char} (hr : Ends r) :
    readToken (w.chars ++ r) = some (.token w, r) := by
  have hproper : ∀ c ∈ w.chars, proper c = true := fun c hc => decide_eq_true (w.proper c hc)
  have hrest : ∀ c ∈ r.head?, proper c = false := by
    intro c hc
    have hall : ∀ d ∈ [',', ']', '}'], proper d = false := by decide
    exact hall c (hr c hc)
  have htake : (w.chars ++ r).takeWhile proper = w.chars := by
    rw [List.takeWhile_append_of_pos hproper]
    cases r with
    | nil => rw [List.takeWhile_nil, List.append_nil]
    | cons c r =>
      rw [List.takeWhile_cons_of_neg (Bool.eq_false_iff.mp (hrest c rfl)), List.append_nil]
  have hdrop : (w.chars ++ r).dropWhile proper = r := by
    rw [List.dropWhile_append_of_pos hproper]
    cases r with
    | nil => rfl
    | cons c r => exact List.dropWhile_cons_of_neg (Bool.eq_false_iff.mp (hrest c rfl))
  rw [readToken, dif_pos (by rw [htake]; exact w.ne_nil), hdrop]
  exact congrArg (fun u => some (Tree.token u, r)) (Token.ext htake)

variable (E) in
/-- A string, after the quote that opens it. -/
def readBody : ℕ → List Char → Option (List Char × List Char)
  | 0, _ => none
  | _ + 1, '"' :: r => some ([], r)
  | n + 1, l => do
    let (c, r) ← E.read l
    let (s, r) ← readBody n r
    some (c :: s, r)

theorem readBody_quoted (s r : List Char) {n : ℕ} (hn : (E.quoted s).length ≤ n + 1) :
    readBody E n ((E.quoted s ++ r).tail) = some (s, r) := by
  rw [Coding.quoted, List.length_cons, List.length_append, List.length_singleton] at hn
  rw [Coding.quoted, List.cons_append, List.tail_cons, List.append_assoc, List.singleton_append]
  induction s generalizing n with
  | nil =>
    obtain ⟨m, rfl⟩ : ∃ m, n = m + 1 := ⟨n - 1, by omega⟩
    rfl
  | cons c s ih =>
    obtain ⟨m, rfl⟩ : ∃ m, n = m + 1 := ⟨n - 1, by omega⟩
    have hcode := List.length_pos_iff.mpr (E.code_ne_nil c)
    rw [List.flatMap_cons, List.length_append] at hn
    rw [List.flatMap_cons, List.append_assoc, readBody]
    · have hrest := ih (n := m) (by omega)
      show (E.read (E.code c ++ _)).bind _ = _
      rw [E.read_code, Option.bind_some]
      show (readBody E m _).bind _ = _
      rw [hrest]
      rfl
    · exact fun r' h => E.code_ne_quote c _ _ h

variable (E) in
mutual

/-- The value that a text without blanks begins with. -/
def readValue : ℕ → List Char → Option (Tree × List Char)
  | 0, _ => none
  | n + 1, '"' :: l => do
    let (s, r) ← readBody E n l
    some (.string s, r)
  | _ + 1, '[' :: ']' :: r => some (.array [], r)
  | n + 1, '[' :: l => do
    let (t, r) ← readValue n l
    let (ts, r) ← readItems n r
    some (.array (t :: ts), r)
  | _ + 1, '{' :: '}' :: r => some (.object [], r)
  | n + 1, '{' :: l => do
    let (m, r) ← readMember n l
    let (ms, r) ← readMembers n r
    some (.object (m :: ms), r)
  | _ + 1, l => readToken l

def readItems : ℕ → List Char → Option (List Tree × List Char)
  | 0, _ => none
  | _ + 1, ']' :: r => some ([], r)
  | n + 1, ',' :: l => do
    let (t, r) ← readValue n l
    let (ts, r) ← readItems n r
    some (t :: ts, r)
  | _ + 1, _ => none

def readMember : ℕ → List Char → Option ((List Char × Tree) × List Char)
  | 0, _ => none
  | n + 1, '"' :: l => do
    let (k, r) ← readBody E n l
    if r.head? = some ':' then do
      let (t, r) ← readValue n r.tail
      some ((k, t), r)
    else none
  | _ + 1, _ => none

def readMembers : ℕ → List Char → Option (List (List Char × Tree) × List Char)
  | 0, _ => none
  | _ + 1, '}' :: r => some ([], r)
  | n + 1, ',' :: l => do
    let (m, r) ← readMember n l
    let (ms, r) ← readMembers n r
    some (m :: ms, r)
  | _ + 1, _ => none

end

mutual

/-- **A value is read back**, whatever follows it that ends it. -/
theorem readValue_print (t : Tree) {n : ℕ} {r : List Char} (hr : Ends r)
    (hn : (print E t).length ≤ n) : readValue E n (print E t ++ r) = some (t, r) := by
  match t with
  | .token w =>
    rw [print] at hn ⊢
    have hpos := List.length_pos_iff.mpr w.ne_nil
    obtain ⟨m, rfl⟩ : ∃ m, n = m + 1 := ⟨n - 1, by omega⟩
    rw [readValue]
    · exact readToken_chars w hr
    all_goals exact fun _ h => token_append_ne (by decide) h
  | .string s =>
    rw [print] at hn ⊢
    have hpos : 0 < (E.quoted s).length := Nat.succ_pos _
    obtain ⟨m, rfl⟩ : ∃ m, n = m + 1 := ⟨n - 1, by omega⟩
    have hbody := readBody_quoted s r hn
    show (readBody E m ((E.quoted s ++ r).tail)).bind _ = _
    rw [hbody]
    rfl
  | .array [] =>
    rw [print] at hn ⊢
    obtain ⟨m, rfl⟩ : ∃ m, n = m + 1 := ⟨n - 1, by rw [List.length_cons] at hn; omega⟩
    rfl
  | .array (t :: ts) =>
    rw [print, List.length_cons, List.length_append] at hn
    obtain ⟨m, rfl⟩ : ∃ m, n = m + 1 := ⟨n - 1, by omega⟩
    have hvalue := readValue_print t (n := m) (ends_printItems (E := E) ts r) (by omega)
    have hitems := readItems_print ts r (n := m) (by omega)
    rw [print, List.cons_append, List.append_assoc, readValue]
    · show (readValue E m _).bind _ = _
      rw [hvalue]
      show (readItems E m _).bind _ = _
      rw [hitems]
      rfl
    · exact fun _ h => print_append_ne h
  | .object [] =>
    rw [print] at hn ⊢
    obtain ⟨m, rfl⟩ : ∃ m, n = m + 1 := ⟨n - 1, by rw [List.length_cons] at hn; omega⟩
    rfl
  | .object ((k, t) :: ms) =>
    rw [print, List.length_cons, List.length_append, List.length_cons, List.length_append] at hn
    obtain ⟨m, rfl⟩ : ∃ m, n = m + 1 := ⟨n - 1, by omega⟩
    have hmember := readMember_print k t (n := m) (ends_printMembers (E := E) ms r) (by omega)
    have hmembers := readMembers_print ms r (n := m) (by omega)
    rw [print, List.cons_append, List.append_assoc, List.cons_append, List.append_assoc, readValue]
    · show (readMember E m _).bind _ = _
      rw [hmember]
      show (readMembers E m _).bind _ = _
      rw [hmembers]
      rfl
    · intro r' h
      rw [Coding.quoted, List.cons_append] at h
      exact absurd (List.cons.inj h).1 (by decide)

theorem readItems_print (ts : List Tree) (r : List Char) {n : ℕ}
    (hn : (printItems E ts).length ≤ n) : readItems E n (printItems E ts ++ r) = some (ts, r) := by
  match ts with
  | [] =>
    rw [printItems] at hn ⊢
    obtain ⟨m, rfl⟩ : ∃ m, n = m + 1 := ⟨n - 1, by rw [List.length_cons] at hn; omega⟩
    rfl
  | t :: ts =>
    rw [printItems, List.length_cons, List.length_append] at hn
    obtain ⟨m, rfl⟩ : ∃ m, n = m + 1 := ⟨n - 1, by omega⟩
    have hvalue := readValue_print t (n := m) (ends_printItems (E := E) ts r) (by omega)
    have hitems := readItems_print ts r (n := m) (by omega)
    rw [printItems, List.cons_append, List.append_assoc]
    show (readValue E m _).bind _ = _
    rw [hvalue]
    show (readItems E m _).bind _ = _
    rw [hitems]
    rfl

theorem readMember_print (k : List Char) (t : Tree) {n : ℕ} {r : List Char} (hr : Ends r)
    (hn : (E.quoted k).length + (1 + (print E t).length) ≤ n) :
    readMember E n (E.quoted k ++ ':' :: (print E t ++ r)) = some ((k, t), r) := by
  obtain ⟨m, rfl⟩ : ∃ m, n = m + 1 := ⟨n - 1, by omega⟩
  have hpos : 0 < (E.quoted k).length := by
    rw [Coding.quoted, List.length_cons]
    omega
  have hkey := readBody_quoted (E := E) k (':' :: (print E t ++ r)) (n := m) (by omega)
  have hvalue := readValue_print t (n := m) hr (by omega)
  show (readBody E m ((E.quoted k ++ ':' :: (print E t ++ r)).tail)).bind _ = _
  rw [hkey]
  show (readValue E m (print E t ++ r)).bind _ = _
  rw [hvalue]
  rfl

theorem readMembers_print (ms : List (List Char × Tree)) (r : List Char) {n : ℕ}
    (hn : (printMembers E ms).length ≤ n) :
    readMembers E n (printMembers E ms ++ r) = some (ms, r) := by
  match ms with
  | [] =>
    rw [printMembers] at hn ⊢
    obtain ⟨m, rfl⟩ : ∃ m, n = m + 1 := ⟨n - 1, by rw [List.length_cons] at hn; omega⟩
    rfl
  | (k, t) :: ms =>
    rw [printMembers, List.length_cons, List.length_append, List.length_cons,
      List.length_append] at hn
    obtain ⟨m, rfl⟩ : ∃ m, n = m + 1 := ⟨n - 1, by omega⟩
    have hmember := readMember_print k t (n := m) (ends_printMembers (E := E) ms r) (by omega)
    have hmembers := readMembers_print ms r (n := m) (by omega)
    rw [printMembers, List.cons_append, List.append_assoc, List.cons_append, List.append_assoc]
    show (readMember E m _).bind _ = _
    rw [hmember]
    show (readMembers E m _).bind _ = _
    rw [hmembers]
    rfl

end

/-- `json.loads`, of a text without blanks between its tokens. -/
def loads (E : Coding) (text : List Char) : Option Tree :=
  (readValue E text.length text).bind fun (t, r) => if r = [] then some t else none

theorem loads_print (t : Tree) : loads E (print E t) = some t := by
  have hvalue := readValue_print (E := E) t (r := []) nofun le_rfl
  rw [List.append_nil] at hvalue
  rw [loads, hvalue]
  rfl

/-- **The text of a value determines it.** -/
theorem print_injective : Function.Injective (print E) := by
  intro t t' h
  exact Option.some.inj ((loads_print t).symm.trans ((congrArg (loads E) h).trans (loads_print t')))

/-! ## 3.  Keys in order -/

mutual

/-- The members in the order of their keys, at every depth. -/
def sorted : Tree → Tree
  | .token w => .token w
  | .string s => .string s
  | .array ts => .array (sortedItems ts)
  | .object ms => .object ((sortedMembers ms).insertionSort fun a b => a.1 ≤ b.1)

def sortedItems : List Tree → List Tree
  | [] => []
  | t :: ts => sorted t :: sortedItems ts

def sortedMembers : List (List Char × Tree) → List (List Char × Tree)
  | [] => []
  | (k, t) :: ms => (k, sorted t) :: sortedMembers ms

end

theorem sortedItems_eq_map (ts : List Tree) : sortedItems ts = ts.map sorted := by
  induction ts with
  | nil => rw [sortedItems, List.map_nil]
  | cons t ts ih => rw [sortedItems, ih, List.map_cons]

theorem sortedMembers_eq_map (ms : List (List Char × Tree)) :
    sortedMembers ms = ms.map fun m => (m.1, sorted m.2) := by
  induction ms with
  | nil => rw [sortedMembers, List.map_nil]
  | cons m ms ih => rw [sortedMembers, ih, List.map_cons]

def get? : Tree → List Char → Option Tree
  | .object ms, k => Members.get? ms k
  | _, _ => none

/-- The members that are given a value. -/
def given (fields : List (List Char × Option Tree)) : List (List Char × Tree) :=
  fields.filterMap fun f => f.2.map fun t => (f.1, t)

/-- The object that has these members. -/
def record (fields : List (List Char × Option Tree)) : Tree := .object (given fields)

theorem mem_given {fields : List (List Char × Option Tree)} {k : List Char} {t : Tree} :
    (k, t) ∈ given fields ↔ (k, some t) ∈ fields := by
  rw [given, List.mem_filterMap]
  constructor
  · rintro ⟨⟨k', v⟩, hmem, h⟩
    obtain ⟨t', rfl, h⟩ := Option.map_eq_some_iff.mp h
    cases h
    exact hmem
  · exact fun h => ⟨_, h, rfl⟩

theorem keys_given_sublist (fields : List (List Char × Option Tree)) :
    ((given fields).map Prod.fst).Sublist (fields.map Prod.fst) := by
  induction fields with
  | nil => exact List.Sublist.refl _
  | cons f fields ih =>
    obtain ⟨k, v⟩ := f
    cases v with
    | none => exact ih.cons _
    | some t => exact ih.cons_cons _

/-- **A member of a record** is found whatever the order of the members. -/
theorem get?_sorted_record {fields : List (List Char × Option Tree)}
    (hnodup : (fields.map Prod.fst).Nodup) (i : ℕ) {k : List Char} {v : Option Tree}
    (hi : fields[i]? = some (k, v)) : (sorted (record fields)).get? k = v.map sorted := by
  have h : (k, v) ∈ fields := List.mem_of_getElem? hi
  have hgiven := hnodup.sublist (keys_given_sublist fields)
  have hkeys : ((sortedMembers (given fields)).map Prod.fst).Nodup := by
    rw [sortedMembers_eq_map, List.map_map]
    exact hgiven
  show Members.get? ((sortedMembers (given fields)).insertionSort fun a b => a.1 ≤ b.1) k = _
  rw [← Members.get?_perm (List.perm_insertionSort _ _).symm hkeys, sortedMembers_eq_map,
    Members.get?_map]
  congr 1
  ext t
  rw [Members.get?_eq_some_iff hgiven, mem_given]
  constructor
  · intro ht
    have hsame : (k, v) = (k, some t) :=
      List.inj_on_of_nodup_map hnodup h ht rfl
    exact (Prod.mk.inj hsame).2
  · rintro rfl
    exact h

theorem lawfulBEq_key : LawfulBEq (List Char) := inferInstance

/-- An object that has no other keys than these. -/
def keysWithin (keys : List (List Char)) : Tree → Bool
  | .object ms =>
    haveI := lawfulBEq_key
    ms.all fun m => decide (m.1 ∈ keys)
  | _ => false

theorem keysWithin_sorted_record (fields : List (List Char × Option Tree)) :
    keysWithin (fields.map Prod.fst) (sorted (record fields)) = true := by
  show List.all ((sortedMembers (given fields)).insertionSort fun a b => a.1 ≤ b.1) _ = true
  rw [List.all_eq_true]
  intro m hm
  rw [List.mem_insertionSort, sortedMembers_eq_map] at hm
  obtain ⟨m', hm', rfl⟩ := List.mem_map.mp hm
  have hkey : m'.1 ∈ (given fields).map Prod.fst := List.mem_map_of_mem hm'
  exact decide_eq_true ((keys_given_sublist fields).subset hkey)

end Tree

/-! ## 4.  Values and their trees -/

open Tree

/-- How the values of a type are written, and read whatever the order of the members. -/
structure Codec (α : Type) where
  write : α → Tree
  read : Tree → Option α
  read_write : ∀ a, read (sorted (write a)) = some a

namespace Codec

variable {α : Type}

def text : Codec String where
  write s := .string s.toList
  read
    | .string cs => some (String.ofList cs)
    | _ => none
  read_write s := by
    rw [sorted]
    exact congrArg some (String.ofList_toList)

/-- Values that are written as tokens. -/
def ofToken (toToken : α → Token) (fromToken : Token → Option α)
    (h : ∀ a, fromToken (toToken a) = some a) : Codec α where
  write a := .token (toToken a)
  read
    | .token w => fromToken w
    | _ => none
  read_write a := by
    rw [sorted]
    exact h a

def enum (values : List α) (name : α → String) (hmem : ∀ a, a ∈ values)
    (hname : Function.Injective name) : Codec α where
  write a := .string (name a).toList
  read
    | .string cs => values.find? fun a => name a = String.ofList cs
    | _ => none
  read_write a := by
    rw [sorted]
    dsimp only
    rw [String.ofList_toList]
    cases h : values.find? fun b => name b = name a with
    | none =>
      rw [List.find?_eq_none] at h
      exact absurd rfl (of_decide_eq_false (Bool.eq_false_iff.mpr (h a (hmem a))))
    | some b =>
      have hb : decide (name b = name a) = true :=
        List.find?_some (p := fun b => decide (name b = name a)) h
      rw [hname (of_decide_eq_true hb)]

/-- The values that meet a condition. -/
def restrict (c : Codec α) (p : α → Bool) : Codec {a // p a = true} where
  write a := c.write a.1
  read t := (c.read t).bind fun a => if h : p a = true then some ⟨a, h⟩ else none
  read_write a := by
    rw [c.read_write, Option.bind_some, dif_pos a.2]

def list (c : Codec α) : Codec (List α) where
  write as := .array (as.map c.write)
  read
    | .array ts => ts.mapM c.read
    | _ => none
  read_write as := by
    rw [sorted, sortedItems_eq_map]
    dsimp only
    induction as with
    | nil => rfl
    | cons a as ih =>
      rw [List.map_cons, List.map_cons, List.mapM_cons, c.read_write, ih]
      rfl

variable (c : Codec α)

def field [DecidableEq α] (default a : α) : Option Tree :=
  if a = default then none else some (c.write a)

def readField (default : α) : Option Tree → Option α
  | none => some default
  | some t => c.read t

/-- A field that is left out if it is `None`. -/
def optional (a : Option α) : Option Tree := a.map c.write

def readOptional : Option Tree → Option (Option α)
  | none => some none
  | some t => (c.read t).map some

def readRequired (t : Option Tree) : Option α := t.bind c.read

variable {c}

@[simp] theorem readField_field [DecidableEq α] (default a : α) :
    c.readField default ((c.field default a).map sorted) = some a := by
  rw [field]
  split
  next h => rw [h, Option.map_none, readField]
  next => rw [Option.map_some, readField, c.read_write]

@[simp] theorem readOptional_optional (a : Option α) :
    c.readOptional ((c.optional a).map sorted) = some a := by
  cases a with
  | none => rfl
  | some a =>
    rw [optional, Option.map_some, Option.map_some, readOptional, c.read_write]
    rfl

@[simp] theorem readRequired_write (a : α) :
    c.readRequired ((some (c.write a)).map sorted) = some a := by
  rw [Option.map_some, readRequired, Option.bind_some, c.read_write]

end Codec

end Kroker.JsonText
