import Mathlib.Data.Fintype.EquivFin
import ParseActions.Graph.Basic

/-!
# The search for cycles is sound

While the search runs, the open nodes are those on the stack, and a child of a closed node is
closed. So nothing that is reached from a closed node is open, and a node that is being closed is
not reached from itself. A search that ends without a cycle has closed all nodes.

## Main definitions

* `Graph.Search`: what holds while the search runs

## Main results

* `Graph.acyclic_of_firstCycle?_eq_none`: no cycle is overlooked
* `Graph.wellFounded_of_acyclic`: without cycles there is recursion on the children
* `Graph.acyclic_of_rank`, `Graph.exists_rank`: a rank that goes down to the children
-/

namespace ParseActions.Graph

variable {children : Nat → List Nat}

theorem Reaches.trans {a b c : Nat} (h : Reaches children a b) (h' : Reaches children b c) :
    Reaches children a c := by
  induction h' with
  | step hc => exact h.tail hc
  | tail _ hc ih => exact ih.tail hc

/-- The node is closed. -/
def Closed (marks : Array Mark) (n : Nat) : Prop :=
  marks[n]? = some .closed

section Marking

variable {marks : Array Mark} {n : Nat} {mark : Mark}

theorem getElem?_mark (h : n < marks.size) (k : Nat) :
    (marks.setIfInBounds n mark)[k]? = if n = k then some mark else marks[k]? := by
  rw [Array.getElem?_setIfInBounds]
  split_ifs <;> rfl

/-- A node that is new was so before another node was marked as seen. -/
theorem new_of_mark (hmark : mark ≠ .new) {k : Nat}
    (h : (marks.setIfInBounds n mark)[k]? = some .new) : k ≠ n ∧ marks[k]? = some .new := by
  rw [Array.getElem?_setIfInBounds] at h
  split_ifs at h with hk
  · exact absurd (Option.some.inj h) hmark
  · exact ⟨Ne.symm hk, h⟩

/-- Opening a new node closes none. -/
theorem closed_mark_opened (hnew : marks[n]? = some .new) (k : Nat) :
    Closed (marks.setIfInBounds n .opened) k ↔ Closed marks k := by
  rw [Closed, Closed, getElem?_mark (Array.getElem?_eq_some_iff.mp hnew).1]
  split_ifs with hk
  · simp [← hk, hnew]
  · rfl

/-- Closing a node closes only this one. -/
theorem closed_mark_closed (h : n < marks.size) (k : Nat) :
    Closed (marks.setIfInBounds n .closed) k ↔ k = n ∨ Closed marks k := by
  rw [Closed, Closed, getElem?_mark h]
  split_ifs with hk
  · simp [hk]
  · simp [Ne.symm hk]

end Marking

/-- The children of the open nodes that are not left to be looked at are closed, but for the child
that is open above. -/
def Waiting (children : Nat → List Nat) (marks : Array Mark) :
    (above : Option Nat) → List Frame → Prop
  | _, [] => True
  | above, f :: frames =>
    (∀ c ∈ children f.node, c ∈ f.rest ∨ Closed marks c ∨ above = some c) ∧
      Waiting children marks (some f.node) frames

/-- What holds while the search runs. -/
structure Search (children : Nat → List Nat) (marks : Array Mark) (frames : List Frame) : Prop where
  closed : ∀ n, Closed marks n → ∀ c ∈ children n, Closed marks c
  acyclic : ∀ n, Closed marks n → ¬ Reaches children n n
  opened : ∀ n, marks[n]? = some .opened ↔ n ∈ frames.map Frame.node
  nodup : (frames.map Frame.node).Nodup
  rest_lt : ∀ f ∈ frames, ∀ c ∈ f.rest, c < marks.size
  waiting : Waiting children marks none frames

/-- The open nodes wait for the same children when more nodes are closed. -/
theorem Waiting.mono {marks marks' : Array Mark} (h : ∀ n, Closed marks n → Closed marks' n)
    {frames : List Frame} {above : Option Nat} (hw : Waiting children marks above frames) :
    Waiting children marks' above frames := by
  induction frames generalizing above with
  | nil => trivial
  | cons f frames ih =>
    refine ⟨fun c hc => ?_, ih hw.2⟩
    rcases hw.1 c hc with hr | hc' | ha
    · exact .inl hr
    · exact .inr (.inl (h c hc'))
    · exact .inr (.inr ha)

/-- Once the node above is closed, no node is open above the topmost one. -/
theorem Waiting.above_closed {marks : Array Mark} {n : Nat} {frames : List Frame}
    (hw : Waiting children marks (some n) frames) (hn : Closed marks n) :
    Waiting children marks none frames := by
  cases frames with
  | nil => trivial
  | cons f frames =>
    refine ⟨fun c hc => ?_, hw.2⟩
    rcases hw.1 c hc with hr | hc' | ha
    · exact .inl hr
    · exact .inr (.inl hc')
    · exact .inr (.inl (Option.some.inj ha ▸ hn))

/-- What is reached from a node with closed children is closed. -/
theorem closed_of_reaches {marks : Array Mark}
    (h : ∀ n, Closed marks n → ∀ c ∈ children n, Closed marks c) {a b : Nat}
    (ha : ∀ c ∈ children a, Closed marks c) (hr : Reaches children a b) : Closed marks b := by
  induction hr with
  | step hc => exact ha _ hc
  | tail _ hc ih => exact h _ ih _ hc

namespace Search

variable {marks : Array Mark} {node c : Nat} {rest : List Nat} {frames : List Frame}

/-- **Closing** the topmost node, when none of its children is left. -/
theorem close (h : Search children marks (⟨node, []⟩ :: frames)) :
    Search children (marks.setIfInBounds node .closed) frames := by
  have hopen : marks[node]? = some .opened := (h.opened node).mpr List.mem_cons_self
  have hlt : node < marks.size := (Array.getElem?_eq_some_iff.mp hopen).1
  have hclosed (n : Nat) := closed_mark_closed hlt n
  have hmono (n : Nat) (hn : Closed marks n) : Closed (marks.setIfInBounds node .closed) n :=
    (hclosed n).mpr (.inr hn)
  -- no child is left and no node is open above, so all children are closed
  have hchildren (c : Nat) (hc : c ∈ children node) : Closed marks c := by
    simpa using h.waiting.1 c hc
  obtain ⟨hnode, hnodup⟩ := List.nodup_cons.mp h.nodup
  refine ⟨fun n hn c hc => ?_, fun n hn => ?_, fun n => ?_, hnodup, fun f hf => ?_, ?_⟩
  · rcases (hclosed n).mp hn with rfl | hn
    · exact hmono c (hchildren c hc)
    · exact hmono c (h.closed n hn c hc)
  · rcases (hclosed n).mp hn with rfl | hn
    -- what is reached from the node is closed, and the node itself is still open
    · intro hr
      have hback : marks[n]? = some .closed := closed_of_reaches h.closed hchildren hr
      rw [hopen] at hback
      cases hback
    · exact h.acyclic n hn
  · rw [getElem?_mark hlt]
    split_ifs with he
    · subst he
      simpa using hnode
    · simpa [Ne.symm he] using h.opened n
  · rw [Array.size_setIfInBounds]
    exact h.rest_lt f (List.mem_cons_of_mem _ hf)
  -- the node was the one that is open above the next one on the stack
  · exact (h.waiting.2.mono hmono).above_closed ((hclosed node).mpr (.inl rfl))

/-- **Opening** a new child of the topmost node. -/
theorem push (h : Search children marks (⟨node, c :: rest⟩ :: frames))
    (hnew : marks[c]? = some .new) (hin : ∀ d ∈ children c, d < marks.size) :
    Search children (marks.setIfInBounds c .opened)
      (⟨c, children c⟩ :: ⟨node, rest⟩ :: frames) := by
  have hlt : c < marks.size := (Array.getElem?_eq_some_iff.mp hnew).1
  have hclosed (n : Nat) := closed_mark_opened hnew n
  -- the nodes on the stack are open, and this one is new
  have hout : c ∉ node :: frames.map Frame.node := by
    intro hmem
    have hopen := (h.opened c).mpr hmem
    rw [hnew] at hopen
    cases hopen
  refine ⟨fun n hn d hd => ?_, fun n hn => ?_, fun n => ?_, ?_, fun f hf d hd => ?_, ?_, ?_, ?_⟩
  · exact (hclosed d).mpr (h.closed n ((hclosed n).mp hn) d hd)
  · exact h.acyclic n ((hclosed n).mp hn)
  · rw [getElem?_mark hlt]
    split_ifs with he
    · simp [he]
    · simpa [Ne.symm he] using h.opened n
  · exact List.nodup_cons.mpr ⟨hout, h.nodup⟩
  · rw [Array.size_setIfInBounds]
    rcases List.mem_cons.mp hf with rfl | hf
    · exact hin d hd
    · rcases List.mem_cons.mp hf with rfl | hf
      · exact h.rest_lt _ List.mem_cons_self d (List.mem_cons_of_mem _ hd)
      · exact h.rest_lt f (List.mem_cons_of_mem _ hf) d hd
  · exact fun d hd => .inl hd
  -- the node below has one child less to look at, which is now the one that is open above it
  · intro d hd
    rcases h.waiting.1 d hd with hr | hd | ha
    · rcases List.mem_cons.mp hr with rfl | hr
      · exact .inr (.inr rfl)
      · exact .inl hr
    · exact .inr (.inl ((hclosed d).mpr hd))
    · cases ha
  · exact h.waiting.2.mono fun n => (hclosed n).mpr

/-- Passing over a child of the topmost node that is closed. -/
theorem pass (h : Search children marks (⟨node, c :: rest⟩ :: frames)) (hc : Closed marks c) :
    Search children marks (⟨node, rest⟩ :: frames) := by
  refine ⟨h.closed, h.acyclic, h.opened, h.nodup, fun f hf d hd => ?_, fun d hd => ?_, h.waiting.2⟩
  · rcases List.mem_cons.mp hf with rfl | hf
    · exact h.rest_lt _ List.mem_cons_self d (List.mem_cons_of_mem _ hd)
    · exact h.rest_lt f (List.mem_cons_of_mem _ hf) d hd
  · rcases h.waiting.1 d hd with hr | hd
    · rcases List.mem_cons.mp hr with rfl | hr
      · exact .inr (.inl hc)
      · exact .inl hr
    · exact .inr hd

end Search

section Rounds

variable {marks : Array Mark} {node c : Nat} {rest : List Nat} {frames : List Frame}

theorem explore_close : explore children marks (⟨node, []⟩ :: frames) =
    explore children (marks.setIfInBounds node .closed) frames := by
  rw [explore]

theorem explore_of_opened (h : marks[c]? = some .opened) :
    explore children marks (⟨node, c :: rest⟩ :: frames) = .error c := by
  obtain ⟨hc, hm⟩ := Array.getElem?_eq_some_iff.mp h
  rw [explore, dif_pos hc]
  split <;> simp_all

theorem explore_of_new (h : marks[c]? = some .new) :
    explore children marks (⟨node, c :: rest⟩ :: frames) =
      explore children (marks.setIfInBounds c .opened)
        (⟨c, children c⟩ :: ⟨node, rest⟩ :: frames) := by
  obtain ⟨hc, hm⟩ := Array.getElem?_eq_some_iff.mp h
  have hset : marks.set c .opened = marks.setIfInBounds c .opened := (dif_pos hc).symm
  rw [explore, dif_pos hc, ← hset]
  split <;> simp_all

theorem explore_of_closed (h : Closed marks c) :
    explore children marks (⟨node, c :: rest⟩ :: frames) =
      explore children marks (⟨node, rest⟩ :: frames) := by
  obtain ⟨hc, hm⟩ := Array.getElem?_eq_some_iff.mp h
  rw [explore, dif_pos hc]
  split <;> simp_all

end Rounds

/-- **Induction on the rounds of a search** where all children are nodes: the topmost node is
closed, or its next child is found open, is opened, or is passed over. -/
theorem Search.induction {size : Nat} (hin : ∀ n < size, ∀ c ∈ children n, c < size)
    {P : Array Mark → List Frame → Prop}
    (finish : ∀ marks, marks.size = size → Search children marks [] → P marks [])
    (close : ∀ marks node frames, marks.size = size → node < size →
      P (marks.setIfInBounds node .closed) frames → P marks (⟨node, []⟩ :: frames))
    (found : ∀ marks node c rest frames, marks.size = size →
      c ∈ (⟨node, c :: rest⟩ :: frames : List Frame).map Frame.node → marks[c]? = some .opened →
      P marks (⟨node, c :: rest⟩ :: frames))
    (opening : ∀ marks node c rest frames, marks.size = size → marks[c]? = some .new →
      P (marks.setIfInBounds c .opened) (⟨c, children c⟩ :: ⟨node, rest⟩ :: frames) →
      P marks (⟨node, c :: rest⟩ :: frames))
    (pass : ∀ marks node c rest frames, marks.size = size → Closed marks c →
      P marks (⟨node, rest⟩ :: frames) → P marks (⟨node, c :: rest⟩ :: frames))
    {marks : Array Mark} {frames : List Frame} (hsize : marks.size = size)
    (hs : Search children marks frames) : P marks frames := by
  induction marks, frames using explore.induct children with
  | case1 marks => exact finish marks hsize hs
  | case2 marks node frames ih =>
    have hopen : marks[node]? = some .opened := (hs.opened node).mpr List.mem_cons_self
    have hlt : node < size := hsize ▸ (Array.getElem?_eq_some_iff.mp hopen).1
    exact close marks node frames hsize hlt (ih (by simpa using hsize) hs.close)
  | case3 marks node c rest frames hc hm =>
    have hopen : marks[c]? = some .opened := by rw [Array.getElem?_eq_getElem hc, hm]
    exact found marks node c rest frames hsize ((hs.opened c).mp hopen) hopen
  | case4 marks node c rest frames hc hm ih =>
    have hset : marks.set c .opened hc = marks.setIfInBounds c .opened := (dif_pos hc).symm
    have hnew : marks[c]? = some .new := by rw [Array.getElem?_eq_getElem hc, hm]
    have hin' := hsize ▸ hin c (hsize ▸ hc)
    rw [hset] at ih
    exact opening marks node c rest frames hsize hnew
      (ih (by simpa using hsize) (hs.push hnew hin'))
  | case5 marks node c rest frames hc hm ih =>
    have hclosed : Closed marks c := by rw [Closed, Array.getElem?_eq_getElem hc, hm]
    exact pass marks node c rest frames hsize hclosed (ih hsize (hs.pass hclosed))
  | case6 marks node c rest frames hc ih =>
    -- all that is left on the stack are nodes
    exact absurd (hs.rest_lt _ List.mem_cons_self c List.mem_cons_self) hc

/-- **The search from open nodes** closes them, and no node that was seen is new again. -/
theorem search_explore {size : Nat} (hin : ∀ n < size, ∀ c ∈ children n, c < size)
    {marks marks' : Array Mark} {frames : List Frame} (hsize : marks.size = size)
    (hs : Search children marks frames) (h : explore children marks frames = .ok marks') :
    Search children marks' [] ∧ marks'.size = size ∧
      ∀ n : Nat, marks'[n]? = some Mark.new → marks[n]? = some Mark.new := by
  revert h
  refine Search.induction hin (P := fun marks frames => explore children marks frames = .ok marks' →
    Search children marks' [] ∧ marks'.size = size ∧
      ∀ n : Nat, marks'[n]? = some Mark.new → marks[n]? = some Mark.new)
    ?finish ?close ?found ?opening ?pass hsize hs
  case finish =>
    intro marks hsize hs h
    rw [explore, Except.ok.injEq] at h
    subst h
    exact ⟨hs, hsize, fun _ hn => hn⟩
  case close =>
    intro marks node frames _ _ ih h
    rw [explore_close] at h
    obtain ⟨hs', hsize', hnew⟩ := ih h
    exact ⟨hs', hsize', fun n hn => (new_of_mark (by decide) (hnew n hn)).2⟩
  case found =>
    -- an open child closes a cycle, and the search would have ended with it
    intro marks node c rest frames _ _ hopen h
    rw [explore_of_opened hopen] at h
    cases h
  case opening =>
    intro marks node c rest frames _ hnew ih h
    rw [explore_of_new hnew] at h
    obtain ⟨hs', hsize', hmono⟩ := ih h
    exact ⟨hs', hsize', fun n hn => (new_of_mark (by decide) (hmono n hn)).2⟩
  case pass =>
    intro marks node c rest frames _ hclosed ih h
    rw [explore_of_closed hclosed] at h
    exact ih h

/-- Opening a node from which a search starts. -/
theorem Search.start {marks : Array Mark} {n : Nat} (h : Search children marks [])
    (hnew : marks[n]? = some .new) (hin : ∀ c ∈ children n, c < marks.size) :
    Search children (marks.setIfInBounds n .opened) [⟨n, children n⟩] := by
  have hlt : n < marks.size := (Array.getElem?_eq_some_iff.mp hnew).1
  have hclosed (k : Nat) := closed_mark_opened hnew k
  refine ⟨fun k hk c hc => ?_, fun k hk => ?_, fun k => ?_, List.nodup_singleton _, ?_, ?_, trivial⟩
  · exact (hclosed c).mpr (h.closed k ((hclosed k).mp hk) c hc)
  · exact h.acyclic k ((hclosed k).mp hk)
  · rw [getElem?_mark hlt]
    split_ifs with he
    · simp [he]
    · simpa [Ne.symm he] using h.opened k
  · simpa using hin
  · exact fun c hc => .inl hc

/-- **The search from several nodes** leaves none of them new. -/
theorem search_exploreAll {size : Nat} (hin : ∀ n < size, ∀ c ∈ children n, c < size)
    {starts : List Nat} {marks marks' : Array Mark} (hsize : marks.size = size)
    (hs : Search children marks []) (h : exploreAll children starts marks = .ok marks') :
    Search children marks' [] ∧ marks'.size = size ∧
      (∀ n : Nat, marks'[n]? = some Mark.new → marks[n]? = some Mark.new) ∧
      ∀ n ∈ starts, marks'[n]? ≠ some Mark.new := by
  induction starts generalizing marks with
  | nil =>
    rw [exploreAll, Except.ok.injEq] at h
    subst h
    exact ⟨hs, hsize, fun _ hn => hn, by simp⟩
  | cons start starts ih =>
    rw [exploreAll] at h
    split_ifs at h with hnew
    · have hlt : start < marks.size := (Array.getElem?_eq_some_iff.mp hnew).1
      cases he : explore children (marks.setIfInBounds start .opened) [⟨start, children start⟩] with
      | error c =>
        rw [he] at h
        cases h
      | ok marks₁ =>
        rw [he] at h
        -- the node is not new when its own search ends, and stays so in the others
        have hin' := hsize ▸ hin start (hsize ▸ hlt)
        obtain ⟨hs₁, hsize₁, hnew₁⟩ :=
          search_explore hin (by simpa using hsize) (hs.start hnew hin') he
        obtain ⟨hs', hsize', hmono, hstarts⟩ := ih hsize₁ hs₁ h
        have hback (n : Nat) (hn : marks'[n]? = some Mark.new) :=
          new_of_mark (by decide) (hnew₁ n (hmono n hn))
        refine ⟨hs', hsize', fun n hn => (hback n hn).2, fun n hmem hn => ?_⟩
        rcases List.mem_cons.mp hmem with rfl | hmem
        · exact (hback n hn).1 rfl
        · exact hstarts n hmem hn
    · obtain ⟨hs', hsize', hmono, hstarts⟩ := ih hsize hs h
      refine ⟨hs', hsize', hmono, fun n hmem hn => ?_⟩
      rcases List.mem_cons.mp hmem with rfl | hmem
      · exact hnew (hmono n hn)
      · exact hstarts n hmem hn

/-- Before the search, all nodes are new. -/
theorem Search.all_new (size : Nat) : Search children (Array.replicate size .new) [] := by
  have hnone (n : Nat) (mark : Mark) (hne : mark ≠ .new) :
      (Array.replicate size Mark.new)[n]? ≠ some mark := by
    rw [Array.getElem?_replicate]
    split_ifs
    · exact fun h => hne (Option.some.inj h).symm
    · simp
  exact ⟨fun n hn => absurd hn (hnone n _ (by decide)),
    fun n hn => absurd hn (hnone n _ (by decide)),
    fun n => ⟨fun hn => absurd hn (hnone n _ (by decide)), by simp⟩, List.nodup_nil, by simp,
    trivial⟩

/-- **No cycle is overlooked** where all children are nodes. -/
theorem acyclic_of_firstCycle?_eq_none {size : Nat}
    (hin : ∀ n < size, ∀ c ∈ children n, c < size) (h : firstCycle? size children = none) :
    Acyclic size children := by
  intro n hn
  rw [firstCycle?] at h
  cases he : exploreAll children (List.range size) (Array.replicate size .new) with
  | error c =>
    rw [he] at h
    cases h
  | ok marks =>
    obtain ⟨hs, hsize, -, hstarts⟩ :=
      search_exploreAll hin Array.size_replicate (Search.all_new size) he
    refine hs.acyclic n ?_
    -- no node is new after the search, and none is open as the stack is empty
    have hget : marks[n]? = some marks[n] := Array.getElem?_eq_getElem (hsize ▸ hn)
    rw [Closed, hget]
    cases hm : marks[n] with
    | new => exact absurd (hm ▸ hget) (hstarts n (List.mem_range.mpr hn))
    | opened => exact absurd ((hs.opened n).mp (hm ▸ hget)) List.not_mem_nil
    | closed => rfl

/-- **Recursion on the children** ends in a graph without cycles, where all children are nodes and
only nodes have children. -/
theorem wellFounded_of_acyclic {size : Nat} (hin : ∀ n < size, ∀ c ∈ children n, c < size)
    (hout : ∀ n, size ≤ n → children n = []) (h : Acyclic size children) :
    WellFounded fun c n => c ∈ children n := by
  -- to be below is transitive, and irreflexive without cycles, on finitely many nodes
  have : IsTrans (Fin size) fun a b => Reaches children b a := ⟨fun _ _ _ hab hbc => hbc.trans hab⟩
  have : Std.Irrefl fun a b : Fin size => Reaches children b a := ⟨fun a => h a a.isLt⟩
  have hwf := Finite.wellFounded_of_trans_of_irrefl fun a b : Fin size => Reaches children b a
  have hacc (n : Fin size) : Acc (fun c n => c ∈ children n) n.val := by
    induction n using hwf.induction with
    | _ n ih => exact ⟨_, fun c hc => ih ⟨c, hin n n.isLt c hc⟩ (.step hc)⟩
  refine ⟨fun n => ?_⟩
  rcases Nat.lt_or_ge n size with hn | hn
  · exact hacc ⟨n, hn⟩
  · exact ⟨n, fun c hc => absurd hc (by simp [hout n hn])⟩

/-- A graph whose nodes have a rank that goes down to the children has no cycles. -/
theorem acyclic_of_rank {size : Nat} (rank : Nat → Nat)
    (h : ∀ n, ∀ c ∈ children n, rank c < rank n) : Acyclic size children := by
  have hlt {m n : Nat} (hreaches : Reaches children m n) : rank n < rank m := by
    induction hreaches with
    | step hchild => exact h _ _ hchild
    | tail _ hchild ih => exact Nat.lt_trans (h _ _ hchild) ih
  exact fun n _ hcycle => Nat.lt_irrefl _ (hlt hcycle)

open Classical in
/-- A graph without cycles has such a rank: the number of nodes that are reachable. -/
theorem exists_rank {size : Nat} (hin : ∀ n < size, ∀ c ∈ children n, c < size)
    (h : Acyclic size children) :
    ∃ rank : Nat → Nat, (∀ n, rank n ≤ size) ∧ ∀ n < size, ∀ c ∈ children n, rank c < rank n := by
  let reachable (n : Nat) : Finset Nat := (Finset.range size).filter (Reaches children n)
  refine ⟨fun n => (reachable n).card, fun n => ?_, fun n hn c hc => Finset.card_lt_card ?_⟩
  · exact (Finset.card_filter_le _ _).trans_eq (Finset.card_range size)
  -- a child is reachable, and not from itself
  · have hcsize := hin n hn c hc
    refine Finset.ssubset_iff_of_subset ?_ |>.mpr ⟨c, ?_, ?_⟩
    · exact Finset.monotone_filter_right _ fun k _ hk => .trans (.step hc) hk
    · exact Finset.mem_filter.mpr ⟨Finset.mem_range.mpr hcsize, .step hc⟩
    · exact fun hcycle => h c hcsize (Finset.mem_filter.mp hcycle).2

end ParseActions.Graph
