import Kroker.Core.FullLines
import Kroker.Library.Overlap
import Kroker.Library.Tally
import Mathlib.Data.List.GetD
import Mathlib.Data.Prod.Lex

/-!
# Clones between files

`clone_groups` slides a window over the lines of each file that carry content, keeps the places of
each block under its digest, and lists the blocks that two files share.  A long clone is found at
each of its windows, so a block is left out if every place of it directly follows a place met
before.

What is met before is a set of places, and it does not matter to which clone they belonged.  So two
clones together can swallow a third: the block on which two files begin to agree is left out,
although these two files share nothing that was listed.

## What is here

* `mem_cloneGroups_iff` --- what is listed, without the scan: the blocks that two files share and
  that are not swallowed.
* `Merged` --- what is asked of the groups: two files that share a block are covered where they
  share it, a group is a set of places of one block, and of a long clone the first window only is
  listed.
-/

namespace Kroker.Outliers

/-! ## 1.  The lines of a file -/

/-- `_COMMENT_LINE.match(raw)`: one of the marks, after white space. -/
def isCommentLine (raw : List Char) : Bool :=
  ["#", "//", "/*", "*"].any fun mark => mark.toList.isPrefixOf (raw.dropWhile isSpace)

/-- `normalized_lines`: the lines that carry content, with their numbers. -/
def normalizedLines (text : String) : List (ℕ × String) :=
  ((splitlines text.toList).zipIdx 1).filterMap fun (raw, lineno) =>
    let line := strip (String.ofList raw)
    if line = "" ∨ isCommentLine raw = true then none else some (lineno, line)

/-- A place where a block begins: the normalized index drives the continuation, the line number is
what a reader is shown. -/
structure Hit where
  path : String
  index : ℕ
  line : ℕ
  deriving DecidableEq, Inhabited

namespace Hit

/-- `(path, i)`. -/
def position (h : Hit) : String × ℤ := (h.path, h.index)

/-- `(path, i - 1)`. -/
def before (h : Hit) : String × ℤ := (h.path, h.index - 1)

/-- `(path, lineno)`. -/
def shown (h : Hit) : String × ℕ := (h.path, h.line)

/-- What two finds are compared by. -/
def place (h : Hit) : String ×ₗ ℕ := toLex (h.path, h.index)

/-- What the hits of a find are compared by. -/
def order (h : Hit) : String ×ₗ ℕ ×ₗ ℕ := toLex (h.path, toLex (h.index, h.line))

end Hit

/-- The blocks of `window` lines of a file. -/
def blocksOf (window : ℕ) (path : String) (lines : List (ℕ × String)) :
    List (Hit × List String) :=
  (List.range (lines.length + 1 - window)).map fun i =>
    (⟨path, i, (lines.getD i (0, "")).1⟩, ((lines.drop i).take window).map Prod.snd)

/-- The blocks of `window` lines of the files. -/
def blocks (blobs : Dict String) (window : ℕ) : List (Hit × List String) :=
  blobs.toList.flatMap fun blob => blocksOf window blob.1 (normalizedLines blob.2)

/-! ## 2.  The scan -/

section Scan

variable (sha256 : String → String) (blobs : Dict String)

def digest (block : List String) : String := sha256 (joinWith "\n" block)

def index (window : ℕ) : List (String × List Hit) :=
  gather (fun row => digest sha256 row.2) (fun hits row => hits ++ [row.1]) [] (blocks blobs window)

/-- `hits[0][:2]`. -/
def first (hits : List Hit) : String ×ₗ ℕ := (hits.headD default).place

def candidates (window : ℕ) : List (List Hit) :=
  sortedBy first <| ((sortedBy Prod.fst (index sha256 blobs window)).map fun m =>
    sortedBy Hit.order m.2).filter fun hits => 2 ≤ (hits.map Hit.path).dedup.length

def cloneGroups (window : ℤ) : List (List (String × ℕ)) :=
  if window ≤ 0 then []
  else (merge Hit.position Hit.before (candidates sha256 blobs window.toNat)).map fun hits =>
    hits.map Hit.shown

end Scan

/-! ## 3.  What is asked of the groups -/

section Spec

/-- The hit `p` is the one-line continuation of `o`. -/
def Continues (o p : Hit) : Prop := p.path = o.path ∧ p.index = o.index + 1

variable (blobs : Dict String) (window : ℕ)

/-- Two places are covered: they stand in one group, or they continue, in both files, places of one
block that are covered. -/
inductive Covered (groups : List (List (String × ℕ))) : Hit → Hit → Prop
  | together {g : List (String × ℕ)} {p q : Hit} (hg : g ∈ groups) (hp : p.shown ∈ g)
      (hq : q.shown ∈ g) : Covered groups p q
  | continues {d : List String} {o r p q : Hit} (ho : (o, d) ∈ blocks blobs window)
      (hr : (r, d) ∈ blocks blobs window) (hp : Continues o p) (hq : Continues r q)
      (hcovered : Covered groups o r) : Covered groups p q

structure Merged (groups : List (List (String × ℕ))) : Prop where
  /-- Any two files that share a block are covered where they share it. -/
  complete : ∀ b p q, (p, b) ∈ blocks blobs window → (q, b) ∈ blocks blobs window →
    p.path ≠ q.path → Covered blobs window groups p q
  /-- A group is a set of places of one block, in two files at least. -/
  sound : ∀ g ∈ groups, g.Nodup ∧ (∃ m ∈ g, ∃ n ∈ g, m.1 ≠ n.1) ∧
    ∃ b, ∀ m ∈ g, ∃ p, (p, b) ∈ blocks blobs window ∧ p.shown = m
  /-- Of a long clone, whose windows continue each other wherever they occur, only the first window
  is in a group. -/
  once : ∀ d b, (∀ p, (p, b) ∈ blocks blobs window →
      ∃ o, (o, d) ∈ blocks blobs window ∧ Continues o p) →
    ∀ p, (p, b) ∈ blocks blobs window → ∀ g ∈ groups, p.shown ∉ g

/-- The block occurs in two files at least. -/
def Shared (b : List String) : Prop := ∃ p q, (p, b) ∈ blocks blobs window ∧
  (q, b) ∈ blocks blobs window ∧ p.path ≠ q.path

/-- The block `d` occurs before the block `b` ever does. -/
def Earlier (d b : List String) : Prop := ∃ o, (o, d) ∈ blocks blobs window ∧
  ∀ p, (p, b) ∈ blocks blobs window → o.place < p.place

/-- Every occurrence of the block continues a shared block, one time this and one time that, which
occurs before the block ever does. -/
def Swallowed (b : List String) : Prop := ∀ p, (p, b) ∈ blocks blobs window →
  ∃ o d, (o, d) ∈ blocks blobs window ∧ Continues o p ∧ Shared blobs window d ∧
    Earlier blobs window d b

/-- The files of the places `p` and `q` begin to agree there: the places do not both continue one
block. -/
def Begin (p q : Hit) : Prop := ¬∃ o r d, (o, d) ∈ blocks blobs window ∧
  (r, d) ∈ blocks blobs window ∧ Continues o p ∧ Continues r q

/-- Where two files begin to agree on a block, it is not swallowed. -/
def Whole : Prop := ∀ b p q, (p, b) ∈ blocks blobs window → (q, b) ∈ blocks blobs window →
  p.path ≠ q.path → Begin blobs window p q → ¬Swallowed blobs window b

end Spec

/-! ## 4.  The blocks -/

variable {p : Hit}

theorem position_eq_before_iff {o : Hit} : o.position = p.before ↔ Continues o p := by
  rw [Hit.position, Hit.before, Prod.mk.injEq, Continues]
  constructor
  · rintro ⟨hpath, hindex⟩
    exact ⟨hpath.symm, by omega⟩
  · rintro ⟨hpath, hindex⟩
    exact ⟨hpath.symm, by omega⟩

theorem Continues.place_lt {o : Hit} (h : Continues o p) : o.place < p.place := by
  rw [Hit.place, Hit.place, Prod.Lex.toLex_lt_toLex]
  exact .inr ⟨h.1.symm, by show o.index < p.index; rw [h.2]; omega⟩

theorem fst_of_normalized {raw : List Char} {lineno n : ℕ} {line : String}
    (h : (if strip (String.ofList raw) = "" ∨ isCommentLine raw = true then none
      else some (lineno, strip (String.ofList raw))) = some (n, line)) :
    n = lineno ∧ line = strip (String.ofList raw) ∧ strip (String.ofList raw) ≠ "" := by
  split at h
  · cases h
  · rename_i hcontent
    cases h
    exact ⟨rfl, rfl, fun hblank => hcontent (.inl hblank)⟩

theorem pairwise_normalizedLines (text : String) :
    (normalizedLines text).Pairwise fun m n => m.1 < n.1 := by
  rw [normalizedLines, List.pairwise_filterMap]
  have hnumbers : ((splitlines text.toList).zipIdx 1).Pairwise fun m n => m.2 < n.2 := by
    rw [← List.pairwise_map, List.zipIdx_map_snd]
    exact List.pairwise_lt_range'
  refine hnumbers.imp fun {m n} hlt a ha b hb => ?_
  rw [(fst_of_normalized ha).1, (fst_of_normalized hb).1]
  exact hlt

theorem fullLine_of_mem_normalizedLines {text : String} {m : ℕ × String}
    (h : m ∈ normalizedLines text) : FullLine m.2 := by
  obtain ⟨⟨raw, lineno⟩, hraw, hline⟩ := List.mem_filterMap.mp h
  obtain ⟨-, hsame, hne⟩ := fst_of_normalized hline
  have hfull : m.2 ∈ fullLines text := by
    rw [fullLines, stripped, List.mem_filter, List.mem_map, hsame]
    exact ⟨⟨raw, List.fst_mem_of_mem_zipIdx hraw, rfl⟩, by simpa using hne⟩
  exact fullLine_of_mem hfull

variable {blobs : Dict String} {window : ℕ}

variable {b : List String}

theorem mem_blocks_iff : (p, b) ∈ blocks blobs window ↔
    ∃ text, blobs[p.path]? = some text ∧
      p.index < (normalizedLines text).length + 1 - window ∧
      p.line = ((normalizedLines text).getD p.index (0, "")).1 ∧
      b = (((normalizedLines text).drop p.index).take window).map Prod.snd := by
  rw [blocks, List.mem_flatMap]
  constructor
  · rintro ⟨⟨name, text⟩, hblob, hmem⟩
    obtain ⟨k, hk, heq⟩ := List.mem_map.mp hmem
    cases heq
    exact ⟨text, Std.ExtTreeMap.mem_toList_iff_getElem?_eq_some.mp hblob, List.mem_range.mp hk,
      rfl, rfl⟩
  · rintro ⟨text, hblob, hi, hline, rfl⟩
    refine ⟨(p.path, text), Std.ExtTreeMap.mem_toList_iff_getElem?_eq_some.mpr hblob,
      List.mem_map.mpr ⟨p.index, List.mem_range.mpr hi, ?_⟩⟩
    rw [← hline]

theorem pairwise_blocks (blobs : Dict String) (window : ℕ) :
    (blocks blobs window).Pairwise fun a b => a.1.place < b.1.place := by
  rw [blocks, List.pairwise_flatMap]
  constructor
  · intro blob _
    rw [blocksOf, List.pairwise_map]
    refine List.pairwise_lt_range.imp fun hlt => ?_
    rw [Hit.place, Hit.place, Prod.Lex.toLex_lt_toLex]
    exact .inr ⟨rfl, hlt⟩
  · refine Std.ExtTreeMap.ordered_keys_toList.imp fun {m n} hlt a ha b hb => ?_
    obtain ⟨i, -, rfl⟩ := List.mem_map.mp ha
    obtain ⟨j, -, rfl⟩ := List.mem_map.mp hb
    rw [Hit.place, Hit.place, Prod.Lex.toLex_lt_toLex]
    exact .inl (compare_lt_iff_lt.mp hlt)

variable {c : List String}

theorem eq_of_place_eq {q : Hit} (hp : (p, b) ∈ blocks blobs window)
    (hq : (q, c) ∈ blocks blobs window) (h : p.place = q.place) : p = q ∧ b = c := by
  obtain ⟨hpath, hindex⟩ := Prod.mk.inj (toLex_inj.mp h)
  obtain ⟨text, hblob, -, hline, rfl⟩ := mem_blocks_iff.mp hp
  obtain ⟨text', hblob', -, hline', rfl⟩ := mem_blocks_iff.mp hq
  rw [hpath, hblob'] at hblob
  obtain rfl := Option.some.inj hblob
  rw [hindex] at hline
  refine ⟨?_, by rw [hindex]⟩
  cases p
  cases q
  grind

theorem block_unique (hb : (p, b) ∈ blocks blobs window) (hc : (p, c) ∈ blocks blobs window) :
    b = c :=
  (eq_of_place_eq hb hc rfl).2

theorem eq_of_shown_eq (hwindow : 0 < window) {q : Hit} (hp : (p, b) ∈ blocks blobs window)
    (hq : (q, c) ∈ blocks blobs window) (h : p.shown = q.shown) :
    p = q := by
  obtain ⟨hpath, hshown⟩ := Prod.mk.inj h
  obtain ⟨text, hblob, hi, hline, rfl⟩ := mem_blocks_iff.mp hp
  obtain ⟨text', hblob', hj, hline', rfl⟩ := mem_blocks_iff.mp hq
  rw [hpath, hblob'] at hblob
  obtain rfl := Option.some.inj hblob
  have hilt : p.index < (normalizedLines text').length := by omega
  have hjlt : q.index < (normalizedLines text').length := by omega
  rw [hline, hline', List.getD_eq_getElem _ _ hilt, List.getD_eq_getElem _ _ hjlt] at hshown
  have hsorted := List.pairwise_iff_getElem.mp (pairwise_normalizedLines text')
  have hindex : p.index = q.index := by
    rcases lt_trichotomy p.index q.index with hlt | heq | hlt
    · exact absurd hshown (ne_of_lt (hsorted _ _ hilt hjlt hlt))
    · exact heq
    · exact absurd hshown.symm (ne_of_lt (hsorted _ _ hjlt hilt hlt))
  refine (eq_of_place_eq hp hq ?_).1
  rw [Hit.place, Hit.place, hpath, hindex]

theorem fullLine_of_mem_block (hb : (p, b) ∈ blocks blobs window) {line : String} (hline : line ∈ b) :
    FullLine line := by
  obtain ⟨text, -, -, -, rfl⟩ := mem_blocks_iff.mp hb
  obtain ⟨m, hm, rfl⟩ := List.mem_map.mp hline
  exact fullLine_of_mem_normalizedLines (List.mem_of_mem_drop (List.mem_of_mem_take hm))

theorem joinWith_injOn {q : Hit} (hp : (p, b) ∈ blocks blobs window)
    (hq : (q, c) ∈ blocks blobs window) (h : joinWith "\n" b = joinWith "\n" c) : b = c := by
  rw [← fullLines_joinWith fun line hline => fullLine_of_mem_block hp hline, h,
    fullLines_joinWith fun line hline => fullLine_of_mem_block hq hline]

/-! ## 5.  The finds -/

def find (blobs : Dict String) (window : ℕ) (b : List String) : List Hit :=
  sortedBy Hit.order (((blocks blobs window).filter (·.2 = b)).map Prod.fst)

@[simp] theorem mem_find :
    p ∈ find blobs window b ↔ (p, b) ∈ blocks blobs window := by
  rw [find, mem_sortedBy, List.mem_map]
  constructor
  · rintro ⟨⟨q, c⟩, hmem, rfl⟩
    obtain ⟨hblock, hsame⟩ := List.mem_filter.mp hmem
    obtain rfl : c = b := by simpa using hsame
    exact hblock
  · exact fun h => ⟨(p, b), List.mem_filter.mpr ⟨h, by simp⟩, rfl⟩

theorem nodup_find (b : List String) : (find blobs window b).Nodup := by
  rw [find, (sortedBy_perm _ _).nodup_iff, List.Nodup, List.pairwise_map]
  refine (pairwise_blocks blobs window).filter _ |>.imp fun hlt heq => ?_
  rw [heq] at hlt
  exact lt_irrefl _ hlt

theorem place_le_of_order_le {q : Hit} (h : p.order ≤ q.order) : p.place ≤ q.place := by
  rw [Hit.order, Hit.order, Prod.Lex.toLex_le_toLex, Prod.Lex.toLex_le_toLex] at h
  rw [Hit.place, Hit.place, Prod.Lex.toLex_le_toLex]
  rcases h with hlt | ⟨hpath, hlt | ⟨hindex, -⟩⟩
  · exact .inl hlt
  · exact .inr ⟨hpath, le_of_lt hlt⟩
  · exact .inr ⟨hpath, le_of_eq hindex⟩

theorem first_find {q : Hit} (hq : (q, b) ∈ blocks blobs window) :
    ∃ p, (p, b) ∈ blocks blobs window ∧ first (find blobs window b) = p.place ∧
      ∀ r, (r, b) ∈ blocks blobs window → p.place ≤ r.place := by
  have hsorted : (find blobs window b).Pairwise (Hit.order · ≤ Hit.order ·) := pairwise_sortedBy _ _
  have hmem : ∀ r, r ∈ find blobs window b ↔ (r, b) ∈ blocks blobs window := fun r => mem_find
  cases hfind : find blobs window b with
  | nil =>
    rw [hfind] at hmem
    exact absurd ((hmem q).mpr hq) List.not_mem_nil
  | cons p rest =>
    rw [hfind] at hmem hsorted
    refine ⟨p, (hmem p).mp List.mem_cons_self, rfl, fun r hr => ?_⟩
    rcases List.mem_cons.mp ((hmem r).mpr hr) with rfl | hrest
    · exact le_refl _
    · exact place_le_of_order_le (List.rel_of_pairwise_cons hsorted hrest)

def chunks (blobs : Dict String) (window : ℕ) : Set String :=
  {text | ∃ p b, (p, b) ∈ blocks blobs window ∧ text = joinWith "\n" b}

section Digests

variable {sha256 : String → String} (hsha : (chunks blobs window).InjOn sha256)

include hsha

theorem digest_inj {p q : Hit} {b c : List String} (hp : (p, b) ∈ blocks blobs window)
    (hq : (q, c) ∈ blocks blobs window) (h : digest sha256 b = digest sha256 c) : b = c :=
  joinWith_injOn hp hq (hsha ⟨p, b, hp, rfl⟩ ⟨q, c, hq, rfl⟩ h)

theorem mem_index {m : String × List Hit} (hm : m ∈ index sha256 blobs window) :
    ∃ p b, (p, b) ∈ blocks blobs window ∧ m.1 = digest sha256 b ∧
      sortedBy Hit.order m.2 = find blobs window b := by
  rw [index, gather_eq] at hm
  obtain ⟨key, hkey, rfl⟩ := List.mem_map.mp hm
  obtain ⟨⟨p, b⟩, hp, rfl⟩ := List.mem_map.mp (mem_of_mem_firstBy hkey)
  refine ⟨p, b, hp, rfl, ?_⟩
  have hfold : ∀ rows : List (Hit × List String),
      rows.foldl (fun hits row => hits ++ [row.1]) [] = rows.map Prod.fst := by
    intro rows
    induction rows using List.reverseRecOn with
    | nil => rfl
    | append_singleton rows row ih =>
      rw [List.foldl_append, ih, List.map_append]
      rfl
  have hfilter : (blocks blobs window).filter (fun row => digest sha256 row.2 = digest sha256 b) =
      (blocks blobs window).filter (·.2 = b) := by
    refine List.filter_congr fun row hrow => ?_
    exact decide_eq_decide.mpr ⟨digest_inj hsha hrow hp, congrArg _⟩
  rw [hfold, hfilter, find]

theorem exists_mem_index {p : Hit} {b : List String} (hp : (p, b) ∈ blocks blobs window) :
    ∃ m ∈ index sha256 blobs window, sortedBy Hit.order m.2 = find blobs window b := by
  have hkey : digest sha256 b ∈ (index sha256 blobs window).map Prod.fst :=
    mem_keys_gather.mpr (List.mem_map.mpr ⟨(p, b), hp, rfl⟩)
  obtain ⟨m, hm, hsame⟩ := List.mem_map.mp hkey
  obtain ⟨q, c, hq, hdigest, hfind⟩ := mem_index hsha hm
  obtain rfl : b = c := digest_inj hsha hp hq (hsame.symm.trans hdigest)
  exact ⟨m, hm, hfind⟩

omit hsha in
theorem two_le_paths_iff {b : List String} :
    2 ≤ ((find blobs window b).map Hit.path).dedup.length ↔ Shared blobs window b := by
  rw [← List.card_toFinset, Nat.succ_le_iff, Finset.one_lt_card]
  simp only [List.mem_toFinset, List.mem_map, mem_find]
  constructor
  · rintro ⟨_, ⟨p, hp, rfl⟩, _, ⟨q, hq, rfl⟩, hne⟩
    exact ⟨p, q, hp, hq, hne⟩
  · rintro ⟨p, q, hp, hq, hne⟩
    exact ⟨p.path, ⟨p, hp, rfl⟩, q.path, ⟨q, hq, rfl⟩, hne⟩

theorem mem_candidates_iff {hits : List Hit} : hits ∈ candidates sha256 blobs window ↔
    ∃ b, Shared blobs window b ∧ hits = find blobs window b := by
  rw [candidates, mem_sortedBy, List.mem_filter, List.mem_map]
  constructor
  · rintro ⟨⟨m, hm, rfl⟩, htwo⟩
    obtain ⟨p, b, hp, -, hfind⟩ := mem_index hsha (mem_sortedBy.mp hm)
    rw [hfind, decide_eq_true_eq, two_le_paths_iff] at htwo
    exact ⟨b, htwo, hfind⟩
  · rintro ⟨b, hshared, rfl⟩
    obtain ⟨p, q, hp, hq, hne⟩ := id hshared
    obtain ⟨m, hm, hfind⟩ := exists_mem_index hsha hp
    exact ⟨⟨m, mem_sortedBy.mpr hm, hfind⟩, decide_eq_true (two_le_paths_iff.mpr hshared)⟩

theorem pairwise_candidates :
    (candidates sha256 blobs window).Pairwise (first · < first ·) := by
  rw [← List.pairwise_map]
  refine sortedBy_strict ?_
  rw [List.Nodup, List.pairwise_map]
  refine List.Pairwise.filter _ (List.pairwise_map.mpr ?_)
  have hkeys : (sortedBy Prod.fst (index sha256 blobs window)).Pairwise fun m n => m.1 ≠ n.1 := by
    rw [← List.pairwise_map]
    exact ((sortedBy_perm _ _).map _).nodup_iff.mpr (nodup_gather _)
  refine hkeys.imp_of_mem fun {m n} hm hn hne hsame => hne ?_
  obtain ⟨p, b, hp, hdigest, hfind⟩ := mem_index hsha (mem_sortedBy.mp hm)
  obtain ⟨q, c, hq, hdigest', hfind'⟩ := mem_index hsha (mem_sortedBy.mp hn)
  obtain ⟨p', hp', hfirst, -⟩ := first_find hp
  obtain ⟨q', hq', hfirst', -⟩ := first_find hq
  have hblock : b = c := by
    refine (eq_of_place_eq hp' hq' ?_).2
    rw [← hfirst, ← hfirst', ← hfind, ← hfind', hsame]
  rw [hdigest, hdigest', hblock]

omit hsha in
theorem first_lt_iff {p q : Hit} {b d : List String} (hp : (p, b) ∈ blocks blobs window)
    (hq : (q, d) ∈ blocks blobs window) :
    first (find blobs window d) < first (find blobs window b) ↔ Earlier blobs window d b := by
  obtain ⟨p', hp', hfirst, hleast⟩ := first_find hp
  obtain ⟨q', hq', hfirst', hleast'⟩ := first_find hq
  rw [hfirst, hfirst']
  constructor
  · exact fun hlt => ⟨q', hq', fun r hr => lt_of_lt_of_le hlt (hleast r hr)⟩
  · rintro ⟨o, ho, hbefore⟩
    exact lt_of_le_of_lt (hleast' o ho) (hbefore p' hp')

/-- **The finds that are kept** are those of the shared blocks that are not swallowed. -/
theorem mem_kept_iff {hits : List Hit} :
    hits ∈ merge Hit.position Hit.before (candidates sha256 blobs window) ↔
      ∃ b, Shared blobs window b ∧ ¬Swallowed blobs window b ∧ hits = find blobs window b := by
  rw [mem_merge_iff (pairwise_candidates hsha), mem_candidates_iff hsha]
  constructor
  · rintro ⟨⟨b, hshared, rfl⟩, p, hp, hnone⟩
    refine ⟨b, hshared, fun hswallowed => ?_, rfl⟩
    rw [mem_find] at hp
    obtain ⟨o, d, ho, hcontinues, hd, hearlier⟩ := hswallowed p hp
    refine hnone (find blobs window d) ((mem_candidates_iff hsha).mpr ⟨d, hd, rfl⟩)
      ((first_lt_iff hp ho).mpr hearlier) (List.mem_map.mpr ⟨o, mem_find.mpr ho, ?_⟩)
    exact position_eq_before_iff.mpr hcontinues
  · rintro ⟨b, hshared, hkept, rfl⟩
    refine ⟨⟨b, hshared, rfl⟩, ?_⟩
    by_contra hall
    refine hkept fun p hp => ?_
    by_contra hnone
    refine hall ⟨p, mem_find.mpr hp, fun hits hhits hlt hmem => hnone ?_⟩
    obtain ⟨d, hd, rfl⟩ := (mem_candidates_iff hsha).mp hhits
    obtain ⟨o, ho, hposition⟩ := List.mem_map.mp hmem
    rw [mem_find] at ho
    exact ⟨o, d, ho, position_eq_before_iff.mp hposition, hd, (first_lt_iff hp ho).mp hlt⟩

theorem mem_cloneGroups_iff (hwindow : 0 < window) {g : List (String × ℕ)} :
    g ∈ cloneGroups sha256 blobs window ↔ ∃ b, Shared blobs window b ∧
      ¬Swallowed blobs window b ∧ g = (find blobs window b).map Hit.shown := by
  rw [cloneGroups, if_neg (by omega), Int.toNat_natCast, List.mem_map]
  constructor
  · rintro ⟨hits, hhits, rfl⟩
    obtain ⟨b, hshared, hkept, rfl⟩ := (mem_kept_iff hsha).mp hhits
    exact ⟨b, hshared, hkept, rfl⟩
  · rintro ⟨b, hshared, hkept, rfl⟩
    exact ⟨_, (mem_kept_iff hsha).mpr ⟨b, hshared, hkept, rfl⟩, rfl⟩

end Digests

/-! ## 6.  What the groups are -/

theorem shown_mem_iff (hwindow : 0 < window) (hp : (p, c) ∈ blocks blobs window) :
    p.shown ∈ (find blobs window b).map Hit.shown ↔ c = b := by
  rw [List.mem_map]
  constructor
  · rintro ⟨q, hq, hsame⟩
    rw [mem_find] at hq
    obtain rfl : q = p := eq_of_shown_eq hwindow hq hp hsame
    exact block_unique hp hq
  · rintro rfl
    exact ⟨p, mem_find.mpr hp, rfl⟩

theorem swallowed_of_continues {d : List String} (hshared : Shared blobs window b)
    (hall : ∀ p, (p, b) ∈ blocks blobs window → ∃ o, (o, d) ∈ blocks blobs window ∧ Continues o p) :
    Swallowed blobs window b := by
  obtain ⟨p, q, hp, hq, hne⟩ := hshared
  obtain ⟨o, ho, hop⟩ := hall p hp
  obtain ⟨r, hr, hrq⟩ := hall q hq
  have hd : Shared blobs window d := ⟨o, r, ho, hr, fun h => hne (by rw [hop.1, hrq.1, h])⟩
  have hearlier : Earlier blobs window d b := by
    obtain ⟨p', hp', -, hleast⟩ := first_find hp
    obtain ⟨o', ho', hcontinues⟩ := hall p' hp'
    exact ⟨o', ho', fun r hr => lt_of_lt_of_le hcontinues.place_lt (hleast r hr)⟩
  intro s hs
  obtain ⟨t, ht, hcontinues⟩ := hall s hs
  exact ⟨t, d, ht, hcontinues, hd, hearlier⟩

section Groups

variable {sha256 : String → String} (hsha : (chunks blobs window).InjOn sha256)
  (hwindow : 0 < window)

include hsha hwindow

theorem sound_cloneGroups : ∀ g ∈ cloneGroups sha256 blobs window,
    g.Nodup ∧ (∃ m ∈ g, ∃ n ∈ g, m.1 ≠ n.1) ∧
      ∃ b, ∀ m ∈ g, ∃ p, (p, b) ∈ blocks blobs window ∧ p.shown = m := by
  intro g hg
  obtain ⟨b, hshared, -, rfl⟩ := (mem_cloneGroups_iff hsha hwindow).mp hg
  refine ⟨?_, ?_, b, fun m hm => ?_⟩
  · refine (nodup_find b).map_on fun p hp q hq hsame => ?_
    exact eq_of_shown_eq hwindow (mem_find.mp hp) (mem_find.mp hq) hsame
  · obtain ⟨p, q, hp, hq, hne⟩ := hshared
    exact ⟨p.shown, (shown_mem_iff hwindow hp).mpr rfl, q.shown, (shown_mem_iff hwindow hq).mpr rfl,
      hne⟩
  · obtain ⟨p, hp, rfl⟩ := List.mem_map.mp hm
    exact ⟨p, mem_find.mp hp, rfl⟩

theorem once_cloneGroups (d b : List String) (hall : ∀ p, (p, b) ∈ blocks blobs window →
      ∃ o, (o, d) ∈ blocks blobs window ∧ Continues o p) (p : Hit)
    (hp : (p, b) ∈ blocks blobs window) : ∀ g ∈ cloneGroups sha256 blobs window, p.shown ∉ g := by
  intro g hg hmem
  obtain ⟨c, hshared, hkept, rfl⟩ := (mem_cloneGroups_iff hsha hwindow).mp hg
  obtain rfl : b = c := (shown_mem_iff hwindow hp).mp hmem
  exact hkept (swallowed_of_continues hshared hall)

theorem covered_of_whole (hwhole : Whole blobs window) (n : ℕ) : ∀ b p q, p.index = n →
    (p, b) ∈ blocks blobs window → (q, b) ∈ blocks blobs window → p.path ≠ q.path →
      Covered blobs window (cloneGroups sha256 blobs window) p q := by
  induction n using Nat.strong_induction_on with
  | _ n ih =>
    rintro b p q rfl hp hq hne
    by_cases hbegin : Begin blobs window p q
    · have hkept : ¬Swallowed blobs window b := hwhole b p q hp hq hne hbegin
      exact .together ((mem_cloneGroups_iff hsha hwindow).mpr ⟨b, ⟨p, q, hp, hq, hne⟩, hkept, rfl⟩)
        ((shown_mem_iff hwindow hp).mpr rfl) ((shown_mem_iff hwindow hq).mpr rfl)
    · obtain ⟨o, r, d, ho, hr, hop, hrq⟩ := not_not.mp hbegin
      have hlt : o.index < p.index := by
        rw [hop.2]
        omega
      have hapart : o.path ≠ r.path := fun h => hne (by rw [hop.1, hrq.1, h])
      exact .continues ho hr hop hrq (ih o.index hlt d o r rfl ho hr hapart)

theorem merged_iff :
    Merged blobs window (cloneGroups sha256 blobs window) ↔ Whole blobs window := by
  constructor
  · intro hmerged b p q hp hq hne hbegin hswallowed
    cases hmerged.complete b p q hp hq hne with
    | together hg hpg hqg =>
      obtain ⟨c, -, hkept, rfl⟩ := (mem_cloneGroups_iff hsha hwindow).mp hg
      obtain rfl : b = c := (shown_mem_iff hwindow hp).mp hpg
      exact hkept hswallowed
    | continues ho hr hop hrq => exact hbegin ⟨_, _, _, ho, hr, hop, hrq⟩
  · intro hwhole
    exact ⟨fun b p q => covered_of_whole hsha hwindow hwhole p.index b p q rfl,
      sound_cloneGroups hsha hwindow, once_cloneGroups hsha hwindow⟩

end Groups

/-- **The groups of clones**: for any files and any window of a line at least, they are as asked
exactly where no block on which two files begin to agree is swallowed. -/
theorem cloneGroups_merged_iff {sha256 : String → String} {blobs : Dict String} {window : ℤ}
    (hwindow : 1 ≤ window) (hsha : (chunks blobs window.toNat).InjOn sha256) :
    Merged blobs window.toNat (cloneGroups sha256 blobs window) ↔ Whole blobs window.toNat := by
  obtain ⟨n, rfl⟩ := Int.eq_ofNat_of_zero_le (show 0 ≤ window by omega)
  exact merged_iff hsha (by omega)

/-- Two files with three lines alike; in the second they are indented and commented. -/
def sampleClone : Dict String :=
  Dict.ofItems [("a", "r\ns\nt"), ("b", "  r\n  # s\n  s\n\n  t")]

theorem blocks_sampleClone : blocks sampleClone 2 =
    [(⟨"a", 0, 1⟩, ["r", "s"]), (⟨"a", 1, 2⟩, ["s", "t"]), (⟨"b", 0, 1⟩, ["r", "s"]),
      (⟨"b", 1, 3⟩, ["s", "t"])] := by decide +kernel

/-- A window of two lines: the second block continues the first wherever it occurs. -/
theorem cloneGroups_merged_iff_sample :
    Merged sampleClone 2 (cloneGroups id sampleClone 2) := by
  have hcases : ∀ p b, (p, b) ∈ blocks sampleClone 2 → p.index = 0 ∨
      ∃ o, (o, ["r", "s"]) ∈ blocks sampleClone 2 ∧ Continues o p := by
    intro p b hp
    rw [blocks_sampleClone] at hp ⊢
    simp only [List.mem_cons, Prod.mk.injEq, List.not_mem_nil, or_false] at hp
    rcases hp with ⟨rfl, rfl⟩ | ⟨rfl, rfl⟩ | ⟨rfl, rfl⟩ | ⟨rfl, rfl⟩
    · exact .inl rfl
    · exact .inr ⟨⟨"a", 0, 1⟩, by decide, rfl, rfl⟩
    · exact .inl rfl
    · exact .inr ⟨⟨"b", 0, 1⟩, by decide, rfl, rfl⟩
  refine (cloneGroups_merged_iff (show (1 : ℤ) ≤ 2 by decide) Function.injective_id.injOn).mpr ?_
  show Whole sampleClone 2
  intro b p q hp hq hne hbegin hswallowed
  obtain ⟨o, d, -, hop, -⟩ := hswallowed p hp
  obtain ⟨r, e, -, hrq, -⟩ := hswallowed q hq
  rcases hcases p b hp with hzero | ⟨o', ho', hop'⟩
  · exact absurd (hop.2.symm.trans hzero) (Nat.succ_ne_zero _)
  rcases hcases q b hq with hzero | ⟨r', hr', hrq'⟩
  · exact absurd (hrq.2.symm.trans hzero) (Nat.succ_ne_zero _)
  exact hbegin ⟨o', r', ["r", "s"], ho', hr', hop', hrq'⟩

/-- Two files that begin with one line, and two that begin with another, where the second files of
both go on alike. -/
def sampleBlobs : Dict String :=
  Dict.ofItems [("a", "s"), ("b", "r\nx"), ("c", "r"), ("d", "s\nx")]

theorem blocks_sampleBlobs : blocks sampleBlobs 1 =
    [(⟨"a", 0, 1⟩, ["s"]), (⟨"b", 0, 1⟩, ["r"]), (⟨"b", 1, 2⟩, ["x"]), (⟨"c", 0, 1⟩, ["r"]),
      (⟨"d", 0, 1⟩, ["s"]), (⟨"d", 1, 2⟩, ["x"])] := by decide +kernel

/-- Files "b" and "d" share a line, which no group shows: in either it follows a line that some
other file has. -/
theorem shared_line_lost : ¬Merged sampleBlobs 1 (cloneGroups id sampleBlobs 1) ∧
    (⟨"b", 1, 2⟩, ["x"]) ∈ blocks sampleBlobs 1 ∧ (⟨"d", 1, 2⟩, ["x"]) ∈ blocks sampleBlobs 1 ∧
    ∀ g ∈ cloneGroups id sampleBlobs 1, "b" ∈ g.map Prod.fst → "d" ∉ g.map Prod.fst := by
  have hapart : ∀ g ∈ cloneGroups id sampleBlobs 1,
      "b" ∈ g.map Prod.fst → "d" ∉ g.map Prod.fst := by decide +kernel
  have hb : (⟨"b", 1, 2⟩, ["x"]) ∈ blocks sampleBlobs 1 := by
    rw [blocks_sampleBlobs]
    decide
  have hd : (⟨"d", 1, 2⟩, ["x"]) ∈ blocks sampleBlobs 1 := by
    rw [blocks_sampleBlobs]
    decide
  refine ⟨fun hmerged => ?_, hb, hd, hapart⟩
  cases hmerged.complete _ _ _ hb hd (by decide) with
  | together hg hbg hdg =>
    exact hapart _ hg (List.mem_map.mpr ⟨_, hbg, rfl⟩) (List.mem_map.mpr ⟨_, hdg, rfl⟩)
  | continues ho hr hbo hdr =>
    -- the block before would be the line "r" in the one file and "s" in the other
    have hlines : ∀ row ∈ blocks sampleBlobs 1, row.1.index = 0 →
        (row.1.path = "b" → row.2 = ["r"]) ∧ (row.1.path = "d" → row.2 = ["s"]) := by
      rw [blocks_sampleBlobs]
      decide
    have hr' := (hlines _ ho (Nat.succ.inj hbo.2).symm).1 hbo.1.symm
    have hs' := (hlines _ hr (Nat.succ.inj hdr.2).symm).2 hdr.1.symm
    exact absurd (hr'.symm.trans hs') (by decide)

end Kroker.Outliers
