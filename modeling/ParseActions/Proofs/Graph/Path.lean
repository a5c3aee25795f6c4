import Mathlib.Data.List.Chain
import ParseActions.Proofs.Graph.Cycle

/-!
# What the search for cycles finds is a cycle

The nodes on the stack of the search are a path: each one is a child of the node below it. So a
child of the topmost node that is open is reached from itself, along the stack and back by one
step. Where there is no cycle, the search finds none.

## Main definitions

* `Graph.Path`: the stack of a search is a path

## Main results

* `Graph.reaches_of_firstCycle?`: the node that is found lies on a cycle
* `Graph.firstCycle?_eq_none_iff`: the search finds a node exactly when there is a cycle
-/

namespace ParseActions.Graph

variable {children : Nat → List Nat}

/-- Each open node is a child of the one below it on the stack, and what is left to be looked at
are children of the node. -/
structure Path (children : Nat → List Nat) (frames : List Frame) : Prop where
  chain : frames.IsChain fun above below => above.node ∈ children below.node
  rest : ∀ f ∈ frames, ∀ c ∈ f.rest, c ∈ children f.node

namespace Path

variable {node c n : Nat} {rest : List Nat} {frames : List Frame}

theorem start (n : Nat) : Path children [⟨n, children n⟩] where
  chain := .singleton _
  rest f hf c hc := by
    rw [List.mem_singleton.mp hf] at hc ⊢
    exact hc

theorem close (h : Path children (⟨node, rest⟩ :: frames)) : Path children frames where
  chain := h.chain.tail
  rest f hf := h.rest f (List.mem_cons_of_mem _ hf)

/-- The next child of the topmost node is one of its children. -/
theorem mem_children (h : Path children (⟨node, c :: rest⟩ :: frames)) : c ∈ children node :=
  h.rest _ List.mem_cons_self c List.mem_cons_self

theorem pass (h : Path children (⟨node, c :: rest⟩ :: frames)) :
    Path children (⟨node, rest⟩ :: frames) where
  chain := by
    -- the chain is one of nodes, and the node of the topmost frame stays
    cases frames with
    | nil => exact .singleton _
    | cons f frames =>
      obtain ⟨hnode, hbelow⟩ := List.isChain_cons_cons.mp h.chain
      exact List.isChain_cons_cons.mpr ⟨hnode, hbelow⟩
  rest f hf d hd := by
    rcases List.mem_cons.mp hf with rfl | hf
    · exact h.rest _ List.mem_cons_self d (List.mem_cons_of_mem _ hd)
    · exact h.rest f (List.mem_cons_of_mem _ hf) d hd

theorem push (h : Path children (⟨node, c :: rest⟩ :: frames)) :
    Path children (⟨c, children c⟩ :: ⟨node, rest⟩ :: frames) where
  chain := List.isChain_cons_cons.mpr ⟨h.mem_children, h.pass.chain⟩
  rest f hf := by
    rcases List.mem_cons.mp hf with rfl | hf
    · intro d hd
      exact hd
    · exact h.pass.rest f hf

/-- **The topmost node is reached** from every other node on the stack. -/
theorem eq_or_reaches (h : Path children (⟨node, rest⟩ :: frames))
    (hn : n ∈ (⟨node, rest⟩ :: frames : List Frame).map Frame.node) :
    n = node ∨ Reaches children n node := by
  induction frames generalizing node rest with
  | nil => exact .inl (List.mem_singleton.mp hn)
  | cons f frames ih =>
    rcases List.mem_cons.mp hn with rfl | hn
    · exact .inl rfl
    · have hstep : node ∈ children f.node := (List.isChain_cons_cons.mp h.chain).1
      rcases ih h.close hn with rfl | hreaches
      · exact .inr (.step hstep)
      · exact .inr (hreaches.tail hstep)

/-- **An open child** of the topmost node is reached from itself. -/
theorem reaches_self (h : Path children (⟨node, c :: rest⟩ :: frames))
    (hc : c ∈ (⟨node, c :: rest⟩ :: frames : List Frame).map Frame.node) :
    Reaches children c c := by
  have hstep : c ∈ children node := h.mem_children
  rcases h.eq_or_reaches hc with rfl | hreaches
  · exact .step hstep
  · exact hreaches.tail hstep

end Path

/-- **What the search from open nodes finds** is a node that is reached from itself. -/
theorem reaches_of_explore {size : Nat} (hin : ∀ n < size, ∀ c ∈ children n, c < size)
    {marks : Array Mark} {frames : List Frame} {n : Nat} (hsize : marks.size = size)
    (hs : Search children marks frames) (hp : Path children frames)
    (h : explore children marks frames = .error n) : n < size ∧ Reaches children n n := by
  revert hp h
  refine hs.induction hin (P := fun marks frames => Path children frames →
    explore children marks frames = .error n → n < size ∧ Reaches children n n)
    ?finish ?close ?found ?opening ?pass hsize
  case finish =>
    intro marks _ _ _ h
    rw [explore] at h
    cases h
  case close =>
    intro marks node frames _ _ ih hp h
    rw [explore_close] at h
    exact ih hp.close h
  case found =>
    -- the child that ends the search is on the stack
    intro marks node c rest frames hsize hstack hopen hp h
    rw [explore_of_opened hopen] at h
    obtain rfl : c = n := Except.error.inj h
    exact ⟨hsize ▸ (Array.getElem?_eq_some_iff.mp hopen).1, hp.reaches_self hstack⟩
  case opening =>
    intro marks node c rest frames _ hnew ih hp h
    rw [explore_of_new hnew] at h
    exact ih hp.push h
  case pass =>
    intro marks node c rest frames _ hclosed ih hp h
    rw [explore_of_closed hclosed] at h
    exact ih hp.pass h

/-- What the search from several nodes finds is a node that is reached from itself. -/
theorem reaches_of_exploreAll {size : Nat} (hin : ∀ n < size, ∀ c ∈ children n, c < size)
    {starts : List Nat} {marks : Array Mark} {c : Nat} (hsize : marks.size = size)
    (hs : Search children marks []) (h : exploreAll children starts marks = .error c) :
    c < size ∧ Reaches children c c := by
  induction starts generalizing marks with
  | nil =>
    rw [exploreAll] at h
    cases h
  | cons start starts ih =>
    rw [exploreAll] at h
    split_ifs at h with hnew
    · have hlt : start < marks.size := (Array.getElem?_eq_some_iff.mp hnew).1
      have hin' := hsize ▸ hin start (hsize ▸ hlt)
      have hsize' : (marks.setIfInBounds start .opened).size = size := by simpa using hsize
      cases he : explore children (marks.setIfInBounds start .opened) [⟨start, children start⟩] with
      | error d =>
        rw [he] at h
        obtain rfl : d = c := Except.error.inj h
        exact reaches_of_explore hin hsize' (hs.start hnew hin') (.start start) he
      | ok marks₁ =>
        rw [he] at h
        obtain ⟨hs₁, hsize₁, -⟩ := search_explore hin hsize' (hs.start hnew hin') he
        exact ih hsize₁ hs₁ h
    · exact ih hsize hs h

/-- **The node that is found lies on a cycle.** -/
theorem reaches_of_firstCycle? {size c : Nat} (hin : ∀ n < size, ∀ c ∈ children n, c < size)
    (h : firstCycle? size children = some c) : c < size ∧ Reaches children c c := by
  rw [firstCycle?] at h
  cases he : exploreAll children (List.range size) (Array.replicate size .new) with
  | error d =>
    rw [he] at h
    obtain rfl : d = c := Option.some.inj h
    exact reaches_of_exploreAll hin Array.size_replicate (Search.all_new size) he
  | ok marks =>
    rw [he] at h
    cases h

/-- **The search finds a node exactly when there is a cycle.** -/
theorem firstCycle?_eq_none_iff {size : Nat} (hin : ∀ n < size, ∀ c ∈ children n, c < size) :
    firstCycle? size children = none ↔ Acyclic size children := by
  constructor
  · intro h
    exact acyclic_of_firstCycle?_eq_none hin h
  · intro hacyclic
    cases hfound : firstCycle? size children with
    | none => rfl
    | some c =>
      obtain ⟨hlt, hreaches⟩ := reaches_of_firstCycle? hin hfound
      exact absurd hreaches (hacyclic c hlt)

end ParseActions.Graph
