import Kroker.Library.Dict
import Mathlib.Data.Finset.Card
import Mathlib.Data.List.Chain
import Mathlib.Data.List.TakeWhile

/-!
# Depth-first search in three colours

The textbook search for a cycle in a graph on string-named nodes, given by a successor function
`succs`.  A node is white before it is visited, gray while its successors are, and black afterwards;
a gray successor closes a cycle, which is reported as the path that leads around it.

The search recurses once for every node on its path, and `depth` is how many calls the machine
allows: `none` is the run that exceeds them.  Two facts are all its users need.  Whatever `depth` is,
a search that reports no cycle leaves every node it started from with finite paths only, and a cycle
it reports is one (`answer_of_search`).  And a search that is allowed one call for each node answers
(`exists_search`).
-/

namespace Kroker

inductive Colour where
  | white
  | gray
  | black
  deriving DecidableEq

namespace DepthFirst

/-- The colour of a node; a node that has none yet is white. -/
def colourOf (colours : Dict Colour) (n : String) : Colour := colours[n]?.getD .white

theorem colourOf_insert (colours : Dict Colour) (n m : String) (c : Colour) :
    colourOf (colours.insert n c) m = if n = m then c else colourOf colours m := by
  rw [colourOf, Dict.get?_insert, colourOf]
  split <;> rfl

abbrev Found := Dict Colour × Option (List String)

/-- The loop over the successors of a node, `path` being the path to the node. -/
def visitSuccs (visit : String → List String → Dict Colour → Option Found) (path : List String) :
    List String → Dict Colour → Option Found
  | [], colours => some (colours, none)
  | m :: ms, colours =>
    match colourOf colours m with
    | .gray => some (colours, some (path.dropWhile (· ≠ m) ++ [m]))
    | .white =>
      match visit m (path ++ [m]) colours with
      | none => none
      | some (colours, some cycle) => some (colours, some cycle)
      | some (colours, none) => visitSuccs visit path ms colours
    | .black => visitSuccs visit path ms colours

variable (succs : String → List String)

/-- The visit of a white node. -/
def visit : ℕ → String → List String → Dict Colour → Option Found
  | 0, _, _, _ => none
  | depth + 1, n, path, colours =>
    match visitSuccs (visit depth) path (succs n) (colours.insert n .gray) with
    | none => none
    | some (colours, some cycle) => some (colours, some cycle)
    | some (colours, none) => some (colours.insert n .black, none)

def search (depth : ℕ) : List String → Dict Colour → Option Found
  | [], colours => some (colours, none)
  | n :: ns, colours =>
    if colourOf colours n = .white then
      match visit succs depth n [n] colours with
      | none => none
      | some (colours, some cycle) => some (colours, some cycle)
      | some (colours, none) => search depth ns colours
    else search depth ns colours

variable {succs}

/-! ## What a search answers -/

/-- A path along successors that ends where it begins. -/
def Cycle (succs : String → List String) (cycle : List String) : Prop :=
  cycle.IsChain (fun n m => m ∈ succs n) ∧ ∃ n inner, cycle = n :: inner ++ [n]

/-- No path from a node of a cycle is finite. -/
theorem Cycle.not_acc {n : String} {inner : List String} (h : Cycle succs (n :: inner ++ [n])) :
    ¬Acc (fun m n => m ∈ succs n) n := by
  intro hacc
  induction hacc generalizing inner with
  | intro n _ ih =>
    obtain ⟨hchain, -⟩ := h
    cases inner with
    | nil => exact ih n (List.isChain_cons_cons.mp hchain).1 ⟨hchain, n, [], rfl⟩
    | cons m inner =>
      -- The cycle goes through `m` as well.
      obtain ⟨hm, hrest⟩ := List.isChain_cons_cons.mp hchain
      refine ih m hm (show Cycle succs (m :: (inner ++ [n]) ++ [m]) from ⟨?_, m, _, rfl⟩)
      refine List.isChain_append.mpr ⟨hrest, List.isChain_singleton m, fun x hx y hy => ?_⟩
      rw [← List.cons_append, List.getLast?_concat] at hx
      obtain rfl : n = x := Option.some.inj hx
      obtain rfl : m = y := Option.some.inj hy
      exact hm

/-- Every path from a black node is finite. -/
def BlackAcc (succs : String → List String) (colours : Dict Colour) : Prop :=
  ∀ n, colourOf colours n = .black → Acc (fun m n => m ∈ succs n) n

/-- What a part of the search that reports no cycle does to the colours: paths from black nodes are
finite, black nodes stay black, and no node is left gray that was not. -/
structure Quiet (succs : String → List String) (colours colours' : Dict Colour) : Prop where
  acc : BlackAcc succs colours'
  black : ∀ n, colourOf colours n = .black → colourOf colours' n = .black
  gray : ∀ n, colourOf colours' n = .gray → colourOf colours n = .gray

variable {colours : Dict Colour}

theorem Quiet.refl (h : BlackAcc succs colours) :
    Quiet succs colours colours :=
  ⟨h, fun _ hn => hn, fun _ hn => hn⟩

/-- What a part of the search that visits `ms` may answer: that there is no cycle, with all of them
black, or a cycle. -/
inductive Answers (succs : String → List String) (colours : Dict Colour) (ms : List String) :
    Found → Prop
  | quiet {colours' : Dict Colour} (h : Quiet succs colours colours')
      (hms : ∀ m ∈ ms, colourOf colours' m = .black) : Answers succs colours ms (colours', none)
  | cycle {colours' : Dict Colour} {cycle : List String} (h : Cycle succs cycle) :
      Answers succs colours ms (colours', some cycle)

/-- The search goes on after a node is black. -/
theorem Answers.cons {m : String} {ms : List String} {colours₁ : Dict Colour} {r : Found}
    (h : Quiet succs colours colours₁) (hm : colourOf colours₁ m = .black)
    (hr : Answers succs colours₁ ms r) : Answers succs colours (m :: ms) r := by
  cases hr with
  | cycle hcycle => exact .cycle hcycle
  | quiet h' hms =>
    refine .quiet ⟨h'.acc, fun n hn => h'.black n (h.black n hn),
      fun n hn => h.gray n (h'.gray n hn)⟩ fun x hx => ?_
    rcases List.mem_cons.mp hx with rfl | hx
    · exact h'.black x hm
    · exact hms x hx

/-- Where the search stands: each node of the path is a successor of the one before, `n` is the last
of them, and every gray node is on it. -/
structure Trail (succs : String → List String) (colours : Dict Colour) (path : List String)
    (n : String) : Prop where
  acc : BlackAcc succs colours
  chain : path.IsChain fun n m => m ∈ succs n
  last : path.getLast? = some n
  gray : ∀ m, colourOf colours m = .gray → m ∈ path

theorem Trail.isChain_append {path : List String} {n m : String} (h : path.getLast? = some n)
    (hchain : path.IsChain fun n m => m ∈ succs n) (hm : m ∈ succs n) :
    (path ++ [m]).IsChain fun n m => m ∈ succs n := by
  refine List.isChain_append.mpr ⟨hchain, List.isChain_singleton m, fun x hx y hy => ?_⟩
  obtain rfl : n = x := Option.some.inj (h.symm.trans hx)
  obtain rfl : m = y := Option.some.inj hy
  exact hm

theorem Trail.closes {path : List String} {n m : String} (h : Trail succs colours path n)
    (hgray : colourOf colours m = .gray) (hm : m ∈ succs n) :
    Cycle succs (path.dropWhile (· ≠ m) ++ [m]) := by
  obtain ⟨front, hfront⟩ := List.dropWhile_suffix (l := path) (· ≠ m)
  cases hrest : path.dropWhile (· ≠ m) with
  | nil => simpa using List.dropWhile_eq_nil_iff.mp hrest m (h.gray m hgray)
  | cons x rest =>
    have hhead := List.head?_dropWhile_not (· ≠ m) path
    rw [hrest] at hhead
    obtain rfl : x = m := by simpa using hhead
    rw [hrest] at hfront
    have hlast := h.last
    rw [← hfront, List.getLast?_append_cons] at hlast
    exact ⟨isChain_append hlast (h.chain.suffix ⟨front, hfront⟩) hm, x, rest, rfl⟩

theorem answers_visitSuccs {visit : String → List String → Dict Colour → Option Found}
    (hvisit : ∀ m path colours r, Trail succs colours path m →
      visit m path colours = some r → Answers succs colours [m] r)
    {path ms : List String} {n : String} (hms : ∀ m ∈ ms, m ∈ succs n)
    (h : Trail succs colours path n) {r : Found}
    (hr : visitSuccs visit path ms colours = some r) : Answers succs colours ms r := by
  induction ms generalizing colours with
  | nil =>
    obtain rfl := Option.some.inj hr
    exact .quiet (Quiet.refl h.acc) nofun
  | cons m ms ih =>
    have hm := hms m List.mem_cons_self
    have hms' : ∀ m ∈ ms, m ∈ succs n := fun x hx => hms x (List.mem_cons_of_mem _ hx)
    rw [visitSuccs] at hr
    split at hr
    · rename_i hgray
      obtain rfl := Option.some.inj hr
      exact .cycle (h.closes hgray hm)
    · have htrail : Trail succs colours (path ++ [m]) m :=
        ⟨h.acc, Trail.isChain_append h.last h.chain hm, List.getLast?_concat,
          fun x hx => List.mem_append_left _ (h.gray x hx)⟩
      split at hr
      · cases hr
      · rename_i hvisited
        obtain rfl := Option.some.inj hr
        cases hvisit m _ _ _ htrail hvisited with
        | cycle hcycle => exact .cycle hcycle
      · rename_i hvisited
        cases hvisit m _ _ _ htrail hvisited with
        | quiet hquiet hblack =>
          exact .cons hquiet (hblack m List.mem_cons_self) (ih hms' ⟨hquiet.acc, h.chain, h.last,
            fun x hx => h.gray x (hquiet.gray x hx)⟩ hr)
    · rename_i hblack
      exact .cons (Quiet.refl h.acc) hblack (ih hms' h hr)

theorem answers_visit (depth : ℕ) : ∀ (n : String) (path : List String) (colours : Dict Colour)
    (r : Found), Trail succs colours path n → visit succs depth n path colours = some r →
      Answers succs colours [n] r := by
  induction depth with
  | zero => exact fun n path colours r _ h => nomatch h
  | succ depth ih =>
    intro n path colours r htrail h
    have hgray : Trail succs (colours.insert n .gray) path n := by
      refine ⟨fun m hm => ?_, htrail.chain, htrail.last, fun m hm => ?_⟩
      · rw [colourOf_insert] at hm
        split at hm
        · exact nomatch hm
        · exact htrail.acc m hm
      · rw [colourOf_insert] at hm
        split at hm
        · exact ‹n = m› ▸ List.mem_of_getLast? htrail.last
        · exact htrail.gray m hm
    rw [visit] at h
    split at h
    · cases h
    · rename_i hloop
      obtain rfl := Option.some.inj h
      cases answers_visitSuccs ih (fun m hm => hm) hgray hloop with
      | cycle hcycle => exact .cycle hcycle
    · rename_i hloop
      obtain rfl := Option.some.inj h
      cases answers_visitSuccs ih (fun m hm => hm) hgray hloop with
      | quiet hquiet hall =>
        refine .quiet ⟨fun m hm => ?_, fun m hm => ?_, fun m hm => ?_⟩ fun m hm => ?_
        · rw [colourOf_insert] at hm
          split at hm
          · rename_i heq
            -- Every successor of the node is black by now, so its paths are finite.
            subst heq
            exact Acc.intro _ fun x hx => hquiet.acc x (hall x hx)
          · exact hquiet.acc m hm
        · rw [colourOf_insert]
          split
          · rfl
          · rename_i hne
            refine hquiet.black m ?_
            rw [colourOf_insert, if_neg hne]
            exact hm
        · rw [colourOf_insert] at hm
          split at hm
          · exact nomatch hm
          · rename_i hne
            have hbefore := hquiet.gray m hm
            rwa [colourOf_insert, if_neg hne] at hbefore
        · rw [colourOf_insert, if_pos (List.mem_singleton.mp hm).symm]

theorem answers_search {depth : ℕ} {ns : List String} (hacc : BlackAcc succs colours)
    (hgray : ∀ n, colourOf colours n ≠ .gray) {r : Found}
    (h : search succs depth ns colours = some r) : Answers succs colours ns r := by
  induction ns generalizing colours with
  | nil =>
    obtain rfl := Option.some.inj h
    exact .quiet (Quiet.refl hacc) nofun
  | cons n ns ih =>
    have htrail : Trail succs colours [n] n :=
      ⟨hacc, List.isChain_singleton n, rfl, fun m hm => absurd hm (hgray m)⟩
    rw [search] at h
    split at h
    · split at h
      · cases h
      · rename_i hvisited
        obtain rfl := Option.some.inj h
        cases answers_visit depth n [n] colours _ htrail hvisited with
        | cycle hcycle => exact .cycle hcycle
      · rename_i hvisited
        cases answers_visit depth n [n] colours _ htrail hvisited with
        | quiet hquiet hblack =>
          exact .cons hquiet (hblack n List.mem_cons_self)
            (ih hquiet.acc (fun m hm => hgray m (hquiet.gray m hm)) h)
    · rename_i hwhite
      refine .cons (Quiet.refl hacc) ?_ (ih hacc hgray h)
      cases hx : colourOf colours n with
      | white => exact absurd hx hwhite
      | gray => exact absurd hx (hgray n)
      | black => rfl

/-- **A search that starts with white nodes** reports a cycle that is one, or leaves finite paths
only. -/
theorem answer_of_search {depth : ℕ} {ns : List String} {r : Found}
    (h : search succs depth ns ∅ = some r) :
    (∀ cycle ∈ r.2, Cycle succs cycle) ∧
      (r.2 = none → ∀ n ∈ ns, Acc (fun m n => m ∈ succs n) n) := by
  have hwhite : ∀ n, colourOf ∅ n = .white := fun n => by
    rw [colourOf, Dict.get?_empty]
    rfl
  cases answers_search (fun n hn => nomatch (hwhite n).symm.trans hn)
    (fun n hn => nomatch (hwhite n).symm.trans hn) h with
  | quiet hquiet hns => exact ⟨nofun, fun _ n hn => hquiet.acc n (hns n hn)⟩
  | cycle hcycle =>
    refine ⟨?_, nofun⟩
    rintro cycle ⟨⟩
    exact hcycle

/-! ## A search that is deep enough -/

def whiteNodes (univ : Finset String) (colours : Dict Colour) : Finset String :=
  univ.filter fun n => colourOf colours n = .white

def whites (univ : Finset String) (colours : Dict Colour) : ℕ := (whiteNodes univ colours).card

theorem mem_whiteNodes {univ : Finset String} {n : String} :
    n ∈ whiteNodes univ colours ↔ n ∈ univ ∧ colourOf colours n = .white :=
  Finset.mem_filter

theorem whiteNodes_insert (univ : Finset String) (colours : Dict Colour) (n : String) {c : Colour}
    (hc : c ≠ .white) : whiteNodes univ (colours.insert n c) = (whiteNodes univ colours).erase n := by
  ext m
  rw [Finset.mem_erase, mem_whiteNodes, mem_whiteNodes, colourOf_insert]
  by_cases h : n = m
  · simp [h, hc]
  · simp [h, Ne.symm h]

theorem whites_insert_le (univ : Finset String) (colours : Dict Colour) (n : String) {c : Colour}
    (hc : c ≠ .white) : whites univ (colours.insert n c) ≤ whites univ colours := by
  rw [whites, whiteNodes_insert univ colours n hc]
  exact Finset.card_erase_le

theorem whites_insert_lt {univ : Finset String} {n : String} (hn : n ∈ univ)
    (hwhite : colourOf colours n = .white) {c : Colour} (hc : c ≠ .white) :
    whites univ (colours.insert n c) < whites univ colours := by
  rw [whites, whiteNodes_insert univ colours n hc]
  exact Finset.card_erase_lt_of_mem (mem_whiteNodes.mpr ⟨hn, hwhite⟩)

variable {univ : Finset String}

theorem exists_visitSuccs {depth : ℕ} {visit : String → List String → Dict Colour → Option Found}
    (hvisit : ∀ m path colours, m ∈ univ → colourOf colours m = .white →
      whites univ colours ≤ depth →
      ∃ r, visit m path colours = some r ∧ whites univ r.1 ≤ whites univ colours)
    (path : List String) {ms : List String} (hms : ∀ m ∈ ms, m ∈ univ)
    (hdepth : whites univ colours ≤ depth) :
    ∃ r, visitSuccs visit path ms colours = some r ∧ whites univ r.1 ≤ whites univ colours := by
  induction ms generalizing colours with
  | nil => exact ⟨_, rfl, le_refl _⟩
  | cons m ms ih =>
    have hms' : ∀ m ∈ ms, m ∈ univ := fun x hx => hms x (List.mem_cons_of_mem _ hx)
    rw [visitSuccs]
    cases hm : colourOf colours m with
    | gray => exact ⟨_, rfl, le_refl _⟩
    | black => exact ih hms' hdepth
    | white =>
      obtain ⟨⟨colours₁, cycle⟩, hvisited, hle⟩ :=
        hvisit m (path ++ [m]) colours (hms m List.mem_cons_self) hm hdepth
      dsimp only
      rw [hvisited]
      cases cycle with
      | some cycle => exact ⟨_, rfl, hle⟩
      | none =>
        obtain ⟨r, hr, hle'⟩ := ih hms' (hle.trans hdepth)
        exact ⟨r, hr, hle'.trans hle⟩

theorem exists_visit (huniv : ∀ n, ∀ m ∈ succs n, m ∈ univ) (depth : ℕ) :
    ∀ (n : String) (path : List String) (colours : Dict Colour), n ∈ univ →
      colourOf colours n = .white → whites univ colours ≤ depth →
      ∃ r, visit succs depth n path colours = some r ∧ whites univ r.1 ≤ whites univ colours := by
  induction depth with
  | zero =>
    intro n path colours hn hwhite hdepth
    have hlt := whites_insert_lt hn hwhite (c := .gray) (by decide)
    omega
  | succ depth ih =>
    intro n path colours hn hwhite hdepth
    have hlt := whites_insert_lt hn hwhite (c := .gray) (by decide)
    obtain ⟨⟨colours₁, cycle⟩, hloop, hle⟩ := exists_visitSuccs (fun m => ih m) path (huniv n)
      (show whites univ (colours.insert n .gray) ≤ depth by omega)
    rw [visit, hloop]
    cases cycle with
    | some cycle => exact ⟨_, rfl, by omega⟩
    | none =>
      refine ⟨_, rfl, ?_⟩
      have hblack := whites_insert_le univ colours₁ n (c := .black) (by decide)
      change whites univ colours₁ ≤ _ at hle
      change whites univ (colours₁.insert n .black) ≤ _
      omega

/-- **A search that is allowed one call for each node answers.** -/
theorem exists_search (huniv : ∀ n, ∀ m ∈ succs n, m ∈ univ) {depth : ℕ} {ns : List String}
    (hns : ∀ n ∈ ns, n ∈ univ) (hdepth : whites univ colours ≤ depth) :
    ∃ r, search succs depth ns colours = some r := by
  induction ns generalizing colours with
  | nil => exact ⟨_, rfl⟩
  | cons n ns ih =>
    have hns' : ∀ m ∈ ns, m ∈ univ := fun x hx => hns x (List.mem_cons_of_mem _ hx)
    rw [search]
    split
    · rename_i hwhite
      obtain ⟨⟨colours₁, cycle⟩, hvisited, hle⟩ :=
        exists_visit huniv depth n [n] colours (hns n List.mem_cons_self) hwhite hdepth
      rw [hvisited]
      cases cycle with
      | some cycle => exact ⟨_, rfl⟩
      | none => exact ih hns' (hle.trans hdepth)
    · exact ih hns' hdepth

end DepthFirst

end Kroker
