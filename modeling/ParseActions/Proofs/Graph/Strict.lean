import ParseActions.Proofs.Graph.Cycle

/-!
# The search for cycles stays inside the graph

The search passes over numbers that are no nodes. A strict search gives up there: it fails as soon
as it looks for the mark or the children of a number that is no node. Where all children are nodes
the strict search does not fail, and finds what the search finds.

## Main definitions

* `Graph.exploreStrictly`, `Graph.firstCycleStrictly`: the strict search

## Main results

* `Graph.firstCycleStrictly_eq`: the strict search does not fail where all children are nodes
-/

namespace ParseActions.Graph

/-- The search from the open nodes on the stack. It fails where it looks at what is no node:
`children?` gives nothing, or there is no mark. -/
def exploreStrictly (children? : Nat → Option (List Nat)) (marks : Array Mark) :
    List Frame → Option (Except Nat (Array Mark))
  | [] => some (.ok marks)
  | ⟨node, []⟩ :: frames =>
    if node < marks.size then
      exploreStrictly children? (marks.setIfInBounds node .closed) frames
    else none
  | ⟨node, c :: rest⟩ :: frames =>
    if h : c < marks.size then
      match hm : marks[c] with
      | .opened => some (.error c)
      | .new =>
        match children? c with
        | none => none
        | some below =>
          exploreStrictly children? (marks.set c .opened) (⟨c, below⟩ :: ⟨node, rest⟩ :: frames)
      | .closed => exploreStrictly children? marks (⟨node, rest⟩ :: frames)
    else none
termination_by frames => (marks.count .new, pendingWork frames)
decreasing_by
  · exact lex_of_le_of_lt (count_closed_le _ _) (by simp [pendingWork])
  · exact Prod.Lex.left _ _ (count_opened_lt h hm)
  · exact Prod.Lex.right _ (by simp [pendingWork])

/-- The search from each of the given nodes that is still new. -/
def exploreAllStrictly (children? : Nat → Option (List Nat)) : (starts : List Nat) → Array Mark →
    Option (Except Nat (Array Mark))
  | [], marks => some (.ok marks)
  | start :: starts, marks =>
    match marks[start]? with
    | none => none
    | some .new =>
      match children? start with
      | none => none
      | some below =>
        match exploreStrictly children? (marks.setIfInBounds start .opened) [⟨start, below⟩] with
        | none => none
        | some (.error c) => some (.error c)
        | some (.ok marks) => exploreAllStrictly children? starts marks
    | some _ => exploreAllStrictly children? starts marks

/-- A node that lies on a cycle, if there is one. -/
def firstCycleStrictly (size : Nat) (children? : Nat → Option (List Nat)) : Option (Option Nat) :=
  match exploreAllStrictly children? (List.range size) (Array.replicate size .new) with
  | none => none
  | some (.error c) => some (some c)
  | some (.ok _) => some none

variable {children : Nat → List Nat} {children? : Nat → Option (List Nat)} {size : Nat}

section Rounds

variable {marks : Array Mark} {node c : Nat} {rest : List Nat} {frames : List Frame}

theorem exploreStrictly_of_opened (h : marks[c]? = some .opened) :
    exploreStrictly children? marks (⟨node, c :: rest⟩ :: frames) = some (.error c) := by
  obtain ⟨hc, hm⟩ := Array.getElem?_eq_some_iff.mp h
  rw [exploreStrictly, dif_pos hc]
  split <;> simp_all

theorem exploreStrictly_of_new (h : marks[c]? = some .new) {below : List Nat}
    (hbelow : children? c = some below) :
    exploreStrictly children? marks (⟨node, c :: rest⟩ :: frames) =
      exploreStrictly children? (marks.setIfInBounds c .opened)
        (⟨c, below⟩ :: ⟨node, rest⟩ :: frames) := by
  obtain ⟨hc, hm⟩ := Array.getElem?_eq_some_iff.mp h
  have hset : marks.set c .opened = marks.setIfInBounds c .opened := (dif_pos hc).symm
  rw [exploreStrictly, dif_pos hc, ← hset]
  split <;> simp_all

theorem exploreStrictly_of_closed (h : Closed marks c) :
    exploreStrictly children? marks (⟨node, c :: rest⟩ :: frames) =
      exploreStrictly children? marks (⟨node, rest⟩ :: frames) := by
  obtain ⟨hc, hm⟩ := Array.getElem?_eq_some_iff.mp h
  rw [exploreStrictly, dif_pos hc]
  split <;> simp_all

end Rounds

/-- The strict search from open nodes finds what the search finds. -/
theorem exploreStrictly_eq (hin : ∀ n < size, ∀ c ∈ children n, c < size)
    (hchildren : ∀ n < size, children? n = some (children n)) {marks : Array Mark}
    {frames : List Frame} (hsize : marks.size = size) (hs : Search children marks frames) :
    exploreStrictly children? marks frames = some (explore children marks frames) := by
  refine hs.induction hin
    (P := fun marks frames =>
      exploreStrictly children? marks frames = some (explore children marks frames))
    ?finish ?close ?found ?opening ?pass hsize
  case finish =>
    intro marks _ _
    rw [exploreStrictly, explore]
  case close =>
    intro marks node frames hsize hnode ih
    rw [exploreStrictly, if_pos (hsize ▸ hnode), explore_close, ih]
  case found =>
    intro marks node c rest frames _ _ hopen
    rw [exploreStrictly_of_opened hopen, explore_of_opened hopen]
  case opening =>
    intro marks node c rest frames hsize hnew ih
    have hc : c < size := hsize ▸ (Array.getElem?_eq_some_iff.mp hnew).1
    rw [exploreStrictly_of_new hnew (hchildren c hc), explore_of_new hnew, ih]
  case pass =>
    intro marks node c rest frames _ hclosed ih
    rw [exploreStrictly_of_closed hclosed, explore_of_closed hclosed, ih]

/-- The strict search from several nodes finds what the search finds. -/
theorem exploreAllStrictly_eq (hin : ∀ n < size, ∀ c ∈ children n, c < size)
    (hchildren : ∀ n < size, children? n = some (children n)) {starts : List Nat}
    (hstarts : ∀ n ∈ starts, n < size) {marks : Array Mark} (hsize : marks.size = size)
    (hs : Search children marks []) :
    exploreAllStrictly children? starts marks = some (exploreAll children starts marks) := by
  induction starts generalizing marks with
  | nil => rfl
  | cons start starts ih =>
    have hlt : start < size := hstarts start List.mem_cons_self
    have hstarts' : ∀ n ∈ starts, n < size := fun n hn => hstarts n (List.mem_cons_of_mem _ hn)
    have hget : marks[start]? = some marks[start] := Array.getElem?_eq_getElem (hsize ▸ hlt)
    rw [exploreAllStrictly, exploreAll, hget]
    cases hm : marks[start] with
    | new =>
      rw [hm] at hget
      have hsize' : (marks.setIfInBounds start .opened).size = size := by simpa using hsize
      have hs' := hs.start hget (hsize ▸ hin start hlt)
      simp only [hchildren start hlt, exploreStrictly_eq hin hchildren hsize' hs', if_true]
      cases he : explore children (marks.setIfInBounds start .opened) [⟨start, children start⟩] with
      | error c => rfl
      | ok marks₁ =>
        obtain ⟨hs₁, hsize₁, -⟩ := search_explore hin hsize' hs' he
        exact ih hstarts' hsize₁ hs₁
    | opened | closed => exact ih hstarts' hsize hs

/-- **The strict search does not fail** where all children are nodes, and finds what the search
finds. -/
theorem firstCycleStrictly_eq (hin : ∀ n < size, ∀ c ∈ children n, c < size)
    (hchildren : ∀ n < size, children? n = some (children n)) :
    firstCycleStrictly size children? = some (firstCycle? size children) := by
  have hstarts : ∀ n ∈ List.range size, n < size := fun n hn => List.mem_range.mp hn
  rw [firstCycleStrictly, firstCycle?,
    exploreAllStrictly_eq hin hchildren hstarts Array.size_replicate (Search.all_new size)]
  cases exploreAll children (List.range size) (Array.replicate size .new) with
  | error c => rfl
  | ok marks => rfl

end ParseActions.Graph
