import Kroker.Library.Dict
import Mathlib.Data.List.DropRight

/-!
# Text: the string operations the program reads its ids with

Node ids become gate names and activation ids `name#round` (`gate_key`), and the router reads
them back with `rpartition("#")` and `int`.  This file has those operations and the two facts
everything else uses: reading an id back gives what it was built from (`nodeOf_gateKey`,
`intOf_toString`), so distinct pairs have distinct ids (`gateKey_injective`).

`isDigits` accepts the ASCII digits, and `intOf` reads a numeral of any length.  Python's
`str.isdigit` also accepts other Unicode digits, of which `int` refuses some, and `int` refuses a
numeral of more than 4300 digits.  No id the program builds contains another digit; where ids come
from outside, `UnicodeDigits` reads them as Python does.

Texts that are joined with a separator can be told apart by their `stretches` and by nothing else
(`joinWith_eq_iff`): where a text may hold the separator, the cuts between the texts are lost.
-/

namespace Kroker

/-- `repr` of a string without quotes, backslashes and control characters. -/
def quoted (s : String) : String := "'" ++ s ++ "'"

/-- `str.rpartition` with a one-character separator: the text before the last separator, the
separator, and the text after it; two empty strings and the whole text when there is none. -/
def rpartition (s : String) (c : Char) : String × String × String :=
  match s.toList.reverse.dropWhile (· ≠ c) with
  | [] => ("", "", s)
  | _ :: front =>
    (String.ofList front.reverse, String.singleton c,
      String.ofList (s.toList.reverse.takeWhile (· ≠ c)).reverse)

/-- `str.isdigit`. -/
def isDigits (s : String) : Bool := s.toList ≠ [] && s.toList.all Char.isDigit

/-- `int` of a decimal numeral. -/
def intOf (s : String) : ℕ := Nat.ofDigitChars 10 s.toList 0

/-- `", ".join(...)` and its like. -/
def joinWith (sep : String) (parts : List String) : String := sep.intercalate parts

/-- `str.isspace` of a character, the white space of `str.split` and of `\s`. -/
def isSpace (c : Char) : Bool :=
  let n := c.toNat
  (9 ≤ n && n ≤ 13) || (28 ≤ n && n ≤ 32) || (8192 ≤ n && n ≤ 8202) ||
    n ∈ [133, 160, 5760, 8232, 8233, 8239, 8287, 12288]

def strip (s : String) : String :=
  String.ofList ((s.toList.dropWhile isSpace).reverse.dropWhile isSpace).reverse

/-- `value or fallback`. -/
def orElseText (value : Option String) (fallback : String) : String :=
  match value with
  | none => fallback
  | some s => if s = "" then fallback else s

/-! ## Blank text -/

theorem strip_eq_empty_iff {s : String} :
    strip s = "" ↔ ∀ c ∈ s.toList, isSpace c = true := by
  rw [strip, ← String.toList_eq_nil_iff, String.toList_ofList, List.reverse_eq_nil_iff,
    List.dropWhile_eq_nil_iff]
  simp only [List.mem_reverse]
  constructor
  · intro h c hc
    by_contra hblank
    have hmem : c ∈ s.toList.dropWhile isSpace := by
      rw [← List.takeWhile_append_dropWhile (p := isSpace) (l := s.toList),
        List.mem_append] at hc
      rcases hc with hc | hc
      · exact absurd (List.mem_takeWhile_imp hc) hblank
      · exact hc
    exact hblank (h c hmem)
  · exact fun h c hc => h c (List.dropWhile_subset _ hc)

theorem strip_append_ne {p s : String} (h : strip p ≠ "") : strip (p ++ s) ≠ "" := by
  intro hblank
  refine h (strip_eq_empty_iff.mpr fun c hc => ?_)
  refine strip_eq_empty_iff.mp hblank c ?_
  rw [String.toList_append]
  exact List.mem_append_left _ hc

theorem strip_strip (s : String) : strip (strip s) = strip s := by
  have hright : ∀ l : List Char, (l.reverse.dropWhile isSpace).reverse =
      l.rdropWhile isSpace := fun l => rfl
  rw [strip, strip, String.toList_ofList]
  simp only [hright]
  -- The first character left by the left side is not blank, and the right side keeps it.
  have hleft : ∀ l : List Char, ((l.dropWhile isSpace).rdropWhile isSpace).dropWhile isSpace =
      (l.dropWhile isSpace).rdropWhile isSpace := by
    intro l
    rw [List.dropWhile_eq_self_iff]
    intro hl
    have hprefix := List.rdropWhile_prefix isSpace (l := l.dropWhile isSpace)
    have hne : l.dropWhile isSpace ≠ [] := by
      intro h
      rw [h] at hl
      exact absurd hl (by simp)
    have hhead := List.head_dropWhile_not isSpace hne
    rw [List.head_eq_getElem] at hhead
    rw [List.IsPrefix.getElem hprefix]
    simp [hhead]
  rw [hleft, List.rdropWhile_idempotent]

theorem strip_eq_self {s : String} (hhead : ∀ c ∈ s.toList.head?, isSpace c = false)
    (hlast : ∀ c ∈ s.toList.getLast?, isSpace c = false) : strip s = s := by
  have hfront : s.toList.dropWhile isSpace = s.toList := by
    cases hs : s.toList with
    | nil => rfl
    | cons c cs =>
      rw [List.dropWhile_cons_of_neg]
      rw [hhead c (by rw [hs]; rfl)]
      exact Bool.false_ne_true
  have hback : s.toList.reverse.dropWhile isSpace = s.toList.reverse := by
    cases hs : s.toList.reverse with
    | nil => rfl
    | cons c cs =>
      rw [List.dropWhile_cons_of_neg]
      rw [hlast c (by rw [← List.head?_reverse, hs]; rfl)]
      exact Bool.false_ne_true
  rw [strip, hfront, hback, List.reverse_reverse, String.ofList_toList]

theorem ends_of_strip {s : String} (h : strip s = s) :
    (∀ c ∈ s.toList.head?, isSpace c = false) ∧ ∀ c ∈ s.toList.getLast?, isSpace c = false := by
  have hlist : (s.toList.dropWhile isSpace).rdropWhile isSpace = s.toList :=
    (String.toList_ofList).symm.trans (congrArg String.toList h)
  -- Neither end has lost anything, as nothing is lost in all.
  have hfront : s.toList.dropWhile isSpace = s.toList := by
    refine (List.dropWhile_suffix isSpace).eq_of_length_le ?_
    have hle := (List.rdropWhile_prefix isSpace (l := s.toList.dropWhile isSpace)).length_le
    rwa [hlist] at hle
  rw [hfront] at hlist
  constructor
  · intro c hc
    cases hs : s.toList with
    | nil =>
      rw [hs] at hc
      cases hc
    | cons d cs =>
      rw [hs] at hc hfront
      cases hc
      have hkept := List.dropWhile_eq_self_iff.mp hfront (by simp)
      simpa using hkept
  · intro c hc
    obtain ⟨hne, rfl⟩ := List.mem_getLast?_eq_getLast hc
    simpa using List.rdropWhile_eq_self_iff.mp hlist hne

/-! ## Reading a numeral back -/

theorem toList_toString (n : ℕ) : (toString n).toList = Nat.toDigits 10 n :=
  Nat.toList_repr

theorem isDigits_toString (n : ℕ) : isDigits (toString n) = true := by
  rw [isDigits, toList_toString, Bool.and_eq_true, List.all_eq_true]
  refine ⟨by simp, fun c hc => ?_⟩
  exact Nat.isDigit_of_mem_toDigits (by omega) (by omega) hc

theorem intOf_toString (n : ℕ) : intOf (toString n) = n := by
  rw [intOf, toList_toString, Nat.ofDigitChars_ten_toDigits]

theorem toString_injective : Function.Injective (toString : ℕ → String) := by
  intro m n h
  rw [← intOf_toString m, ← intOf_toString n, h]

theorem notMem_toString {c : Char} (hc : c.isDigit = false) (n : ℕ) :
    c ∉ (toString n).toList := by
  rw [toList_toString]
  intro h
  have := Nat.isDigit_of_mem_toDigits (by omega) (by omega) h
  rw [hc] at this
  cases this

theorem notMem_toString_int {c : Char} (hdigit : c.isDigit = false) (hminus : c ≠ '-') (z : ℤ) :
    c ∉ (toString z).toList := by
  cases z with
  | ofNat n => exact notMem_toString hdigit n
  | negSucc n =>
    show c ∉ ("-" ++ toString (n + 1)).toList
    rw [String.toList_append, List.mem_append, not_or]
    exact ⟨by simpa using hminus, notMem_toString hdigit (n + 1)⟩

theorem toString_int_injective : Function.Injective (toString : ℤ → String) := by
  have hsign : ∀ m n : ℕ, toString m ≠ "-" ++ toString n := by
    intro m n h
    refine notMem_toString (c := '-') (by decide) m ?_
    rw [h, String.toList_append]
    exact List.mem_append_left _ (by decide)
  intro y z h
  cases y with
  | ofNat m =>
    cases z with
    | ofNat n => exact congrArg Int.ofNat (toString_injective h)
    | negSucc n => exact absurd h (hsign m (n + 1))
  | negSucc m =>
    cases z with
    | ofNat n => exact absurd h.symm (hsign n (m + 1))
    | negSucc n =>
      have hlist := congrArg String.toList (show "-" ++ toString (m + 1) = "-" ++ toString (n + 1)
        from h)
      rw [String.toList_append, String.toList_append, List.append_cancel_left_eq] at hlist
      have := toString_injective (String.toList_injective hlist)
      congr 1
      omega

/-! ## Numerals of any digits -/

/-- The Unicode properties `str.isdigit` and `int` read. -/
structure UnicodeDigits where
  isDigit : Char → Bool
  value : Char → Option ℕ
  isDigit_ascii : ∀ c : Char, c.isDigit = true → isDigit c = true
  value_ascii : ∀ c : Char, c.isDigit = true → value c = some (c.toNat - '0'.toNat)

namespace UnicodeDigits

variable (D : UnicodeDigits)

/-- `str.isdigit`. -/
def isDigits (s : String) : Bool := s.toList ≠ [] && s.toList.all D.isDigit

/-- The value of a numeral, if each of its characters is a decimal digit. -/
def valueOf (cs : List Char) : Option ℕ :=
  cs.foldlM (fun acc c => (D.value c).map (10 * acc + ·)) 0

/-- `int`, of a text that `isdigit` accepts. -/
def intOf (s : String) : Except String ℕ :=
  if 4300 < s.length then
    .error ("Exceeds the limit (4300 digits) for integer string conversion: value has " ++
      toString s.length ++ " digits; use sys.set_int_max_str_digits() to increase the limit")
  else
    match D.valueOf s.toList with
    | some n => .ok n
    | none => .error ("invalid literal for int() with base 10: " ++ quoted s)

theorem valueOf_of_isDigit {cs : List Char} (h : ∀ c ∈ cs, c.isDigit = true) :
    D.valueOf cs = some (Nat.ofDigitChars 10 cs 0) := by
  suffices hgen : ∀ acc, cs.foldlM (fun acc c => (D.value c).map (10 * acc + ·)) acc =
      some (Nat.ofDigitChars 10 cs acc) from hgen 0
  induction cs with
  | nil => exact fun acc => by rw [List.foldlM_nil, Nat.ofDigitChars_nil]; rfl
  | cons c cs ih =>
    intro acc
    rw [List.foldlM_cons, D.value_ascii c (h c List.mem_cons_self), Nat.ofDigitChars_cons]
    exact ih (fun d hd => h d (List.mem_cons_of_mem _ hd)) _

theorem exists_valueOf_iff {cs : List Char} :
    (∃ n, D.valueOf cs = some n) ↔ ∀ c ∈ cs, (D.value c).isSome = true := by
  suffices hgen : ∀ acc, (∃ n, cs.foldlM (fun acc c => (D.value c).map (10 * acc + ·)) acc =
      some n) ↔ ∀ c ∈ cs, (D.value c).isSome = true from hgen 0
  induction cs with
  | nil => simp
  | cons c cs ih =>
    intro acc
    rw [List.foldlM_cons, List.forall_mem_cons]
    cases hc : D.value c with
    | none => simp
    | some v =>
      simp only [Option.map_some, Option.bind_eq_bind, Option.bind_some, Option.isSome_some,
        true_and]
      exact ih _

theorem exists_intOf_iff {s : String} : (∃ n, D.intOf s = .ok n) ↔
    s.length ≤ 4300 ∧ ∀ c ∈ s.toList, (D.value c).isSome = true := by
  rw [← exists_valueOf_iff, intOf]
  split
  · rename_i hlong
    refine iff_of_false ?_ fun h => absurd h.1 (Nat.not_le.mpr hlong)
    rintro ⟨n, hn⟩
    cases hn
  · rename_i hshort
    rw [and_iff_right (Nat.not_lt.mp hshort)]
    cases D.valueOf s.toList <;> simp

end UnicodeDigits

/-! ## Partitioning at a separator -/

theorem append_cons_inj {α : Type*} {a b a' b' : List α} {c : α} (ha : c ∉ a) (ha' : c ∉ a')
    (h : a ++ c :: b = a' ++ c :: b') : a = a' ∧ b = b' := by
  induction a generalizing a' with
  | nil =>
    cases a' with
    | nil => exact ⟨rfl, (List.cons.inj h).2⟩
    | cons x a' => exact absurd ((List.cons.inj h).1 ▸ List.mem_cons_self) ha'
  | cons x a ih =>
    cases a' with
    | nil => exact absurd ((List.cons.inj h).1 ▸ List.mem_cons_self) ha
    | cons y a' =>
      obtain ⟨rfl, htail⟩ := List.cons.inj h
      obtain ⟨rfl, rfl⟩ := ih (fun hm => ha (List.mem_cons_of_mem _ hm))
        (fun hm => ha' (List.mem_cons_of_mem _ hm)) htail
      exact ⟨rfl, rfl⟩

theorem rpartition_append (a b : String) (c : Char) (hb : c ∉ b.toList) :
    rpartition (a ++ String.singleton c ++ b) c = (a, String.singleton c, b) := by
  have hlist : (a ++ String.singleton c ++ b).toList.reverse =
      b.toList.reverse ++ c :: a.toList.reverse := by
    simp [String.toList_append]
  have hall : ∀ x ∈ b.toList.reverse, decide (x ≠ c) = true := by
    intro x hx
    rw [decide_eq_true_eq]
    rintro rfl
    exact hb (List.mem_reverse.mp hx)
  have hdrop : (b.toList.reverse ++ c :: a.toList.reverse).dropWhile (· ≠ c) =
      c :: a.toList.reverse := by
    rw [List.dropWhile_append_of_pos hall, List.dropWhile_cons_of_neg (by simp)]
  have htake : (b.toList.reverse ++ c :: a.toList.reverse).takeWhile (· ≠ c) =
      b.toList.reverse := by
    rw [List.takeWhile_append_of_pos hall, List.takeWhile_cons_of_neg (by simp), List.append_nil]
  rw [rpartition, hlist, hdrop]
  simp only [htake, List.reverse_reverse, String.ofList_toList]

/-! ## Joining with a separator -/

/-- The stretches of a text between its separators. -/
def stretches (c : Char) (s : String) : List (List Char) := s.toList.splitOn c

theorem stretches_ne_nil (c : Char) (s : String) : stretches c s ≠ [] :=
  List.splitOn_ne_nil c s.toList

theorem stretches_eq_self {c : Char} {s : String} (h : c ∉ s.toList) :
    stretches c s = [s.toList] := List.splitOn_eq_singleton h

theorem toList_eq_of_stretches {c : Char} {s : String} {cs : List Char}
    (h : stretches c s = [cs]) : s.toList = cs := by
  have hjoin : [c].intercalate (s.toList.splitOn c) = s.toList := List.intercalate_splitOn c
  rw [← hjoin, show s.toList.splitOn c = [cs] from h, List.intercalate_singleton]

/-- **What is joined is read back as its stretches**, not as what was joined. -/
theorem stretches_joinWith (c : Char) {l : List String} (h : l ≠ []) :
    stretches c (joinWith (String.singleton c) l) = l.flatMap (stretches c) := by
  induction l with
  | nil => exact absurd rfl h
  | cons s l ih =>
    cases l with
    | nil => rw [joinWith, String.intercalate_singleton, List.flatMap_singleton]
    | cons t l =>
      rw [List.flatMap_cons, ← ih (List.cons_ne_nil t l), joinWith, String.intercalate_cons_cons,
        stretches, String.toList_append, String.toList_append, List.append_assoc,
        String.toList_singleton, List.singleton_append, List.splitOn_append_cons_self]
      rfl

theorem joinWith_eq_iff (c : Char) {l m : List String} (hl : l ≠ []) (hm : m ≠ []) :
    joinWith (String.singleton c) l = joinWith (String.singleton c) m ↔
      l.flatMap (stretches c) = m.flatMap (stretches c) := by
  rw [← stretches_joinWith c hl, ← stretches_joinWith c hm]
  refine ⟨congrArg _, fun h => String.toList_injective ?_⟩
  have hjoined : ∀ t : String, [c].intercalate (t.toList.splitOn c) = t.toList :=
    fun t => t.toList.intercalate_splitOn c
  rw [← hjoined (joinWith (String.singleton c) l), ← hjoined (joinWith (String.singleton c) m)]
  exact congrArg _ h

theorem length_le_flatMap_stretches (c : Char) (l : List String) :
    l.length ≤ (l.flatMap (stretches c)).length := by
  induction l with
  | nil => exact Nat.le_refl _
  | cons s l ih =>
    have hpos : 0 < (stretches c s).length := List.length_pos_iff.mpr (stretches_ne_nil c s)
    rw [List.flatMap_cons, List.length_append, List.length_cons]
    omega

theorem flatMap_stretches_of_notMem {c : Char} {l : List String} (h : ∀ s ∈ l, c ∉ s.toList) :
    l.flatMap (stretches c) = l.map String.toList := by
  rw [← List.flatMap_pure_eq_map]
  exact List.flatMap_congr fun s hs => stretches_eq_self (h s hs)

theorem eq_of_flatMap_stretches {c : Char} {l m : List String} (hm : ∀ s ∈ m, c ∉ s.toList)
    (hlength : l.length = m.length)
    (h : l.flatMap (stretches c) = m.flatMap (stretches c)) : l = m := by
  induction m generalizing l with
  | nil => exact List.length_eq_zero_iff.mp hlength
  | cons t m ih =>
    rw [List.forall_mem_cons] at hm
    obtain ⟨s, l, rfl⟩ : ∃ s l', l = s :: l' := List.exists_cons_of_length_eq_add_one hlength
    have hsame : l.length = m.length := Nat.succ.inj hlength
    rw [List.flatMap_cons, List.flatMap_cons, stretches_eq_self hm.1, List.singleton_append] at h
    have hflat : (m.flatMap (stretches c)).length = m.length := by
      rw [flatMap_stretches_of_notMem hm.2, List.length_map]
    have hrest : l.length ≤ (l.flatMap (stretches c)).length := length_le_flatMap_stretches c l
    cases hs : stretches c s with
    | nil => exact absurd hs (stretches_ne_nil c s)
    | cons cs more =>
      rw [hs, List.cons_append] at h
      obtain ⟨rfl, htail⟩ := List.cons.inj h
      have hlen := congrArg List.length htail
      rw [List.length_append, hflat] at hlen
      obtain rfl : more = [] := List.length_eq_zero_iff.mp (by omega)
      rw [String.toList_injective (toList_eq_of_stretches hs), ih hm.2 hsame htail]

/-! ## Gate keys -/

/-- `gate_key`: round-scoped gate identity, and the id of an activation. -/
def gateKey (gate : String) (round : ℕ) : String := gate ++ "#" ++ toString round

theorem rpartition_gateKey (gate : String) (round : ℕ) :
    rpartition (gateKey gate round) '#' = (gate, "#", toString round) :=
  rpartition_append gate (toString round) '#' (notMem_toString (by decide) round)

/-- The router's `_node_of`: the node an activation id belongs to. -/
def nodeOf (activationId : String) : String := (rpartition activationId '#').1

@[simp] theorem nodeOf_gateKey (gate : String) (round : ℕ) :
    nodeOf (gateKey gate round) = gate := by
  rw [nodeOf, rpartition_gateKey]

theorem gateKey_injective {g g' : String} {r r' : ℕ} (h : gateKey g r = gateKey g' r') :
    g = g' ∧ r = r' := by
  have h' : (g, "#", toString r) = (g', "#", toString r') := by
    rw [← rpartition_gateKey, ← rpartition_gateKey, h]
  simp only [Prod.mk.injEq, true_and] at h'
  exact ⟨h'.1, toString_injective h'.2⟩

@[simp] theorem gateKey_inj {g g' : String} {r r' : ℕ} :
    gateKey g r = gateKey g' r' ↔ g = g' ∧ r = r' :=
  ⟨gateKey_injective, fun ⟨hg, hr⟩ => by rw [hg, hr]⟩

example : gateKey "tool_approval" 12 = "tool_approval#12" := by decide

example : rpartition "a#b#3" '#' = ("a#b", "#", "3") := by decide

end Kroker
