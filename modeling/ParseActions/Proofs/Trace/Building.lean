import ParseActions.Proofs.Trace.Verdict
import ParseActions.Trace.Builder

/-!
# What is built is valid

Each step of a building program refers to what was made before it, and the intervals of what it
makes are put together from the intervals there. So the arenas are consistent after every step, and
whichever piece is made the root, validation finds no fault.

## Main definitions

* `TraceBuilder.Step.InPlace`, `TraceBuilder.InOrder`: what the steps of a program are given lies in
  the input, and later attempts lie in the one that is taken
* `TraceBuilder.Consistent`, `TraceBuilder.Piece.Fits`: what holds of the arenas and of each piece
  after each step

## Main results

* `TraceBuilder.Consistent.step`: a step keeps the arenas consistent
* `TraceBuilder.Consistent.valid`: consistent arenas are those of a valid trace
* `TraceBuilder.finish_of_inOrder`: every piece of a program in order finishes the trace
-/

namespace ParseActions

namespace Interval

variable {i j k : Interval} {length : Nat}

/-- An interval of a text of the given length. -/
def Within (length : Nat) (i : Interval) : Prop :=
  i.start ≤ i.stop ∧ i.stop ≤ length

instance (length : Nat) (i : Interval) : Decidable (i.Within length) :=
  inferInstanceAs (Decidable (_ ∧ _))

theorem contains_iff : i.contains j = true ↔ i.start ≤ j.start ∧ j.stop ≤ i.stop := by
  simp [contains]

theorem contains_refl (i : Interval) : i.contains i = true :=
  contains_iff.mpr ⟨Nat.le_refl _, Nat.le_refl _⟩

theorem contains_trans (hij : i.contains j = true) (hjk : j.contains k = true) :
    i.contains k = true := by
  rw [contains_iff] at *
  omega

theorem cover_contains_left (i j : Interval) : (i.cover j).contains i = true :=
  contains_iff.mpr ⟨Nat.min_le_left _ _, Nat.le_max_left _ _⟩

theorem cover_contains_right (i j : Interval) : (i.cover j).contains j = true :=
  contains_iff.mpr ⟨Nat.min_le_right _ _, Nat.le_max_right _ _⟩

theorem Within.cover (hi : i.Within length) (hj : j.Within length) :
    (i.cover j).Within length := by
  simp only [Within, Interval.cover] at *
  omega

theorem within_point {place : Nat} (h : place ≤ length) : (point place).Within length :=
  ⟨Nat.le_refl _, h⟩

theorem Within.foldl_cover {is : List Interval} (hi : i.Within length)
    (his : ∀ j ∈ is, j.Within length) : (is.foldl Interval.cover i).Within length :=
  List.foldlRecOn _ _ hi fun _ hcover j hj => hcover.cover (his j hj)

/-- Covering intervals one after the other gives an interval with all of them in it. -/
theorem foldl_cover_contains {is : List Interval} (h : j ∈ i :: is) :
    (is.foldl Interval.cover i).contains j = true := by
  induction is generalizing i j with
  | nil =>
    obtain rfl := List.mem_singleton.mp h
    exact contains_refl j
  | cons k is ih =>
    have hcover := ih (List.mem_cons_self (a := i.cover k) (l := is))
    rcases List.mem_cons.mp h with rfl | h
    · exact contains_trans hcover (cover_contains_left _ _)
    rcases List.mem_cons.mp h with rfl | h
    · exact contains_trans hcover (cover_contains_right _ _)
    · exact ih (List.mem_cons_of_mem _ h)

end Interval

namespace TraceBuilder

/-! ## Programs in order -/

/-- The length of the input in bytes. -/
def inputLength (b : TraceBuilder) : Nat :=
  b.input.utf8ByteSize

/-- The length in bytes of the character at a place, which is zero where none starts. -/
def widthAt (b : TraceBuilder) (place : Nat) : Nat :=
  ((Text.dropBytes? place b.input.toList).bind List.head?).elim 0 Char.utf8Size

/-- If an attempt succeeded, it lies inside another one. -/
def Piece.InsideOf (b : TraceBuilder) (p outer : Piece) : Prop :=
  b.succeeded p = true → (b.intervalOf outer).contains (b.intervalOf p) = true

instance (b : TraceBuilder) (p outer : Piece) : Decidable (p.InsideOf b outer) :=
  inferInstanceAs (Decidable (_ → _))

/-- What a step is given lies in the input. The attempts that succeeded lie in the first of them,
and a step that replaces another one is among the `count` steps that there are in the end. -/
def Step.InPlace (count : Nat) (b : TraceBuilder) (pieces : Array Piece) : Step → Prop
  | .terminal place text => (⟨place, place + text.utf8ByteSize⟩ : Interval).Within b.inputLength
  | .range place _ _ => (⟨place, place + b.widthAt place⟩ : Interval).Within b.inputLength
  | .alt attempts =>
    ∀ ps ∈ pick? pieces attempts, ∀ winner ∈ ps.find? b.succeeded, ∀ p ∈ ps, p.InsideOf b winner
  | .iter _ _ place _ => place ≤ b.inputLength
  | .failed _ place => place ≤ b.inputLength
  | .spaces i => i.Within b.inputLength
  | .redirect _ other => other.index < count
  | .apply .. | .seq _ | .sourced .. => True

/-- Each step of a program refers to pieces that were made, and what it is given is in place. There
are at least `count` steps in the end. -/
def InOrder (count : Nat) (b : TraceBuilder) (pieces : Array Piece) : List Step → Prop
  | [] => count ≤ b.nodes.size
  | step :: steps =>
    step.InPlace count b pieces ∧
      match b.step? pieces step with
      | none => False
      | some (p, b) => InOrder count b (pieces.push p) steps

instance (count : Nat) (b : TraceBuilder) (pieces : Array Piece) (step : Step) :
    Decidable (step.InPlace count b pieces) :=
  match step with
  | .terminal .. | .range .. | .spaces _ => inferInstanceAs (Decidable (Interval.Within _ _))
  | .alt attempts => inferInstanceAs (Decidable (∀ ps ∈ pick? pieces attempts, _))
  | .iter .. | .failed .. => inferInstanceAs (Decidable (_ ≤ _))
  | .redirect .. => inferInstanceAs (Decidable (_ < _))
  | .apply .. | .seq _ | .sourced .. => inferInstanceAs (Decidable True)

instance decidableInOrder (count : Nat) : (b : TraceBuilder) → (pieces : Array Piece) →
    (steps : List Step) → Decidable (b.InOrder count pieces steps)
  | b, _, [] => inferInstanceAs (Decidable (count ≤ b.nodes.size))
  | b, pieces, step :: steps =>
    match h : b.step? pieces step with
    | none => .isFalse fun hsteps => by simp [InOrder, h] at hsteps
    | some (p, b') =>
      have := decidableInOrder count b' (pieces.push p) steps
      decidable_of_iff (step.InPlace count b pieces ∧ b'.InOrder count (pieces.push p) steps)
        (by simp [InOrder, h])

/-! ## Consistent arenas -/

/-- A step lies in the input, and what it refers to was made before it and lies inside it. -/
structure NodeFits (count : Nat) (b : TraceBuilder) (n : Nat) (node : TraceNode) : Prop where
  interval : node.interval.Within b.inputLength
  replaced : ∀ id ∈ node.replacedBy, id.index < count
  linked : ∀ id ∈ node.cst, id.index < b.cst.size
  children : ∀ id ∈ node.children, id.index < n ∧ ∃ below, b.nodes[id.index]? = some below ∧
    (node.succeeded → below.succeeded → node.interval.contains below.interval)

/-- A node of the syntax tree lies in the input, and what is below it was made before it and lies
inside it. -/
structure TreeFits (b : TraceBuilder) (n : Nat) (node : CstNode) : Prop where
  interval : node.interval.Within b.inputLength
  children : ∀ id ∈ node.children, id.index < n ∧ ∃ below, b.cst[id.index]? = some below ∧
    node.interval.contains below.interval

/-- Everything that was made fits. -/
structure Consistent (count : Nat) (b : TraceBuilder) : Prop where
  nodes : ∀ n node, b.nodes[n]? = some node → b.NodeFits count n node
  cst : ∀ n node, b.cst[n]? = some node → b.TreeFits n node

/-- The step of a piece was made; what the piece binds lies inside it, which is nothing if it
failed. -/
structure Piece.Fits (b : TraceBuilder) (p : Piece) : Prop where
  node : ∃ node, b.nodes[p.node.index]? = some node
  bindings : ∀ id ∈ p.bindings, ∃ below, b.cst[id.index]? = some below ∧
    (b.intervalOf p).contains below.interval
  failed : b.succeeded p = false → p.bindings = []

/-- What was made stays, and its intervals do not change. -/
structure Grows (b b' : TraceBuilder) : Prop where
  input : b'.input = b.input
  nodes : ∀ (n : Nat) (node : TraceNode), b.nodes[n]? = some node → ∃ node' : TraceNode,
    b'.nodes[n]? = some node' ∧ node'.interval = node.interval ∧ node'.succeeded = node.succeeded
  cst : ∀ (n : Nat) (node : CstNode), b.cst[n]? = some node → b'.cst[n]? = some node

variable {count : Nat} {b b' b'' : TraceBuilder} {p : Piece} {n : Nat}

section Found

variable {node : TraceNode} (h : b.nodes[p.node.index]? = some node)

include h

theorem intervalOf_eq : b.intervalOf p = node.interval := by
  rw [intervalOf, h]
  rfl

theorem succeeded_eq : b.succeeded p = node.succeeded := by
  rw [succeeded, h]
  rfl

end Found

theorem Consistent.intervalOf (h : b.Consistent count) (hp : p.Fits b) :
    (b.intervalOf p).Within b.inputLength := by
  obtain ⟨node, hnode⟩ := hp.node
  rw [intervalOf_eq hnode]
  exact (h.nodes _ _ hnode).interval

namespace Grows

theorem trans (h : b.Grows b') (h' : b'.Grows b'') : b.Grows b'' where
  input := h'.input.trans h.input
  nodes n node hnode := by
    obtain ⟨node', hnode', hinterval, hsucceeded⟩ := h.nodes n node hnode
    obtain ⟨node'', hnode'', hinterval', hsucceeded'⟩ := h'.nodes n node' hnode'
    exact ⟨node'', hnode'', hinterval'.trans hinterval, hsucceeded'.trans hsucceeded⟩
  cst n node hnode := h'.cst n node (h.cst n node hnode)

theorem inputLength (h : b.Grows b') : b'.inputLength = b.inputLength :=
  congrArg String.utf8ByteSize h.input

theorem nodeFits (h : b.Grows b') {node : TraceNode} (hfits : b.NodeFits count n node) :
    b'.NodeFits count n node where
  interval := h.inputLength ▸ hfits.interval
  replaced := hfits.replaced
  linked id hid := by
    have hlt := hfits.linked id hid
    exact (Array.getElem?_eq_some_iff.mp (h.cst _ _ (Array.getElem?_eq_getElem hlt))).1
  children id hid := by
    obtain ⟨hlt, below, hbelow, hinside⟩ := hfits.children id hid
    obtain ⟨below', hbelow', hinterval, hsucceeded⟩ := h.nodes _ _ hbelow
    exact ⟨hlt, below', hbelow', by rwa [hinterval, hsucceeded]⟩

theorem treeFits (h : b.Grows b') {node : CstNode} (hfits : b.TreeFits n node) :
    b'.TreeFits n node where
  interval := h.inputLength ▸ hfits.interval
  children id hid := by
    obtain ⟨hlt, below, hbelow, hinside⟩ := hfits.children id hid
    exact ⟨hlt, below, h.cst _ _ hbelow, hinside⟩

theorem pieceFits (h : b.Grows b') (hp : p.Fits b) : p.Fits b' := by
  obtain ⟨node, hnode⟩ := hp.node
  obtain ⟨node', hnode', hinterval, hsucceeded⟩ := h.nodes _ _ hnode
  have hsame : b'.intervalOf p = b.intervalOf p := by
    rw [intervalOf_eq hnode, intervalOf_eq hnode', hinterval]
  have hsame' : b'.succeeded p = b.succeeded p := by
    rw [succeeded_eq hnode, succeeded_eq hnode', hsucceeded]
  refine ⟨⟨node', hnode'⟩, ?_, hsame' ▸ hp.failed⟩
  intro id hid
  obtain ⟨below, hbelow, hinside⟩ := hp.bindings id hid
  exact ⟨below, h.cst _ _ hbelow, hsame ▸ hinside⟩

end Grows

/-! ## What one step does -/

/-- The outcome of a step: the arenas grow and stay consistent, and the piece fits. -/
structure Made (count : Nat) (b : TraceBuilder) (r : Piece × TraceBuilder) : Prop where
  grows : b.Grows r.2
  consistent : r.2.Consistent count
  fits : r.1.Fits r.2

/-- What an array has at its places, it has there after an element is added. -/
theorem getElem?_push_of_some {α : Type} {xs : Array α} {a x : α} (h : xs[n]? = some a) :
    (xs.push x)[n]? = some a := by
  rw [Array.getElem?_push, if_neg, h]
  exact Nat.ne_of_lt (Array.getElem?_eq_some_iff.mp h).1

/-- An element of an array that was added to is the new one or was there before. -/
theorem eq_or_of_getElem?_push {α : Type} {xs : Array α} {a x : α}
    (h : (xs.push x)[n]? = some a) : n = xs.size ∧ a = x ∨ xs[n]? = some a := by
  rw [Array.getElem?_push] at h
  split at h
  · next hn => exact .inl ⟨hn, (Option.some.inj h).symm⟩
  · exact .inr h

section Adding

variable {expr : ParsingExpr} {interval : Interval} {children : List TraceId} {succeeded : Bool}
  {cst : Option CstId} {kind : CstKind} {below : List CstId}

theorem grows_pushNode : b.Grows (b.pushNode expr interval children succeeded cst).2 where
  input := rfl
  nodes _ node hnode := ⟨node, getElem?_push_of_some hnode, rfl, rfl⟩
  cst _ _ hnode := hnode

theorem grows_pushCst : b.Grows (b.pushCst kind interval below).2 where
  input := rfl
  nodes _ node hnode := ⟨node, hnode, rfl, rfl⟩
  cst _ _ hnode := getElem?_push_of_some hnode

/-- A node of the syntax tree is added above nodes that lie inside it. -/
theorem Consistent.pushCst (h : b.Consistent count) (hin : interval.Within b.inputLength)
    (hbelow : ∀ id ∈ below, ∃ node, b.cst[id.index]? = some node ∧
      interval.contains node.interval) : (b.pushCst kind interval below).2.Consistent count where
  nodes n node hnode := grows_pushCst.nodeFits (h.nodes n node hnode)
  cst n node hnode := by
    rcases eq_or_of_getElem?_push hnode with ⟨rfl, rfl⟩ | hnode
    · refine grows_pushCst.treeFits ⟨hin, ?_⟩
      intro id hid
      obtain ⟨node, hnode, hinside⟩ := hbelow id hid
      exact ⟨(Array.getElem?_eq_some_iff.mp hnode).1, node, hnode, hinside⟩
    · exact grows_pushCst.treeFits (h.cst n node hnode)

/-- A step is added above steps that lie inside it, as far as they succeeded. -/
theorem Consistent.pushNode (h : b.Consistent count) (hin : interval.Within b.inputLength)
    (hlinked : ∀ id ∈ cst, id.index < b.cst.size)
    (hchildren : ∀ id ∈ children, ∃ node, b.nodes[id.index]? = some node ∧
      (succeeded → node.succeeded → interval.contains node.interval)) :
    (b.pushNode expr interval children succeeded cst).2.Consistent count where
  nodes n node hnode := by
    rcases eq_or_of_getElem?_push hnode with ⟨rfl, rfl⟩ | hnode
    · refine grows_pushNode.nodeFits ⟨hin, nofun, hlinked, ?_⟩
      intro id hid
      obtain ⟨node, hnode, hinside⟩ := hchildren id hid
      exact ⟨(Array.getElem?_eq_some_iff.mp hnode).1, node, hnode, hinside⟩
    · exact grows_pushNode.nodeFits (h.nodes n node hnode)
  cst n node hnode := grows_pushNode.treeFits (h.cst n node hnode)

/-- The piece of a new step, with bindings that lie inside it. -/
theorem made_pushNode {bindings : List CstId} (h : b.Consistent count)
    (hin : interval.Within b.inputLength)
    (hchildren : ∀ id ∈ children, ∃ node, b.nodes[id.index]? = some node ∧
      (succeeded → node.succeeded → interval.contains node.interval))
    (hbindings : ∀ id ∈ bindings, ∃ node, b.cst[id.index]? = some node ∧
      interval.contains node.interval)
    (hfailed : succeeded = false → bindings = []) :
    Made count b (⟨(b.pushNode expr interval children succeeded none).1, bindings⟩,
      (b.pushNode expr interval children succeeded none).2) := by
  have hnew : (b.pushNode expr interval children succeeded none).2.nodes[b.nodes.size]? =
      some ⟨expr, interval, children, succeeded, none, expr.display, none⟩ :=
    Array.getElem?_push_size
  refine ⟨grows_pushNode, h.pushNode hin nofun hchildren, ⟨_, hnew⟩, ?_, ?_⟩
  · rw [intervalOf_eq hnew]
    exact hbindings
  · rw [succeeded_eq hnew]
    exact hfailed

/-- The piece of a new step with a node of the syntax tree of its own. -/
theorem made_pushBoth (h : b.Consistent count) (hin : interval.Within b.inputLength)
    (hbelow : ∀ id ∈ below, ∃ node, b.cst[id.index]? = some node ∧
      interval.contains node.interval)
    (hchildren : ∀ id ∈ children, ∃ node, b.nodes[id.index]? = some node ∧
      (node.succeeded → interval.contains node.interval)) :
    Made count b (b.pushBoth kind expr interval below children) := by
  have hcst : (b.pushCst kind interval below).2.cst[b.cst.size]? = some ⟨kind, interval, below⟩ :=
    Array.getElem?_push_size
  have hnew : (b.pushBoth kind expr interval below children).2.nodes[b.nodes.size]? =
      some ⟨expr, interval, children, true, none, expr.display, some ⟨b.cst.size⟩⟩ :=
    Array.getElem?_push_size
  refine ⟨grows_pushCst.trans grows_pushNode, (h.pushCst hin hbelow).pushNode hin ?_ ?_,
    ⟨_, hnew⟩, ?_, ?_⟩
  · rintro id ⟨⟩
    exact (Array.getElem?_eq_some_iff.mp hcst).1
  · intro id hid
    obtain ⟨node, hnode, hinside⟩ := hchildren id hid
    exact ⟨node, hnode, fun _ => hinside⟩
  · intro id hid
    obtain rfl := List.mem_singleton.mp hid
    rw [intervalOf_eq hnew]
    exact ⟨_, hcst, Interval.contains_refl _⟩
  · rw [succeeded_eq hnew]
    exact nofun

end Adding

/-- A change to the step of a piece that leaves its interval and its verdict alone. -/
theorem grows_modify {f : TraceNode → TraceNode} (hinterval : ∀ node, (f node).interval = node.interval)
    (hsucceeded : ∀ node, (f node).succeeded = node.succeeded) : b.Grows (b.modify p f) where
  input := rfl
  nodes n node hnode := by
    rw [TraceBuilder.modify, Array.getElem?_modify, hnode]
    split
    · exact ⟨f node, rfl, hinterval node, hsucceeded node⟩
    · exact ⟨node, rfl, rfl, rfl⟩
  cst _ _ hnode := hnode

/-- A change to the step of a piece that leaves alone what the arenas are put together by. -/
theorem made_modify (h : b.Consistent count) (hp : p.Fits b) {f : TraceNode → TraceNode}
    (hinterval : ∀ node, (f node).interval = node.interval)
    (hchildren : ∀ node, (f node).children = node.children)
    (hsucceeded : ∀ node, (f node).succeeded = node.succeeded)
    (hcst : ∀ node, (f node).cst = node.cst)
    (hreplaced : ∀ node, (f node).replacedBy = node.replacedBy ∨
      ∀ id ∈ (f node).replacedBy, id.index < count) : Made count b (p, b.modify p f) := by
  have hgrows : b.Grows (b.modify p f) := grows_modify hinterval hsucceeded
  refine ⟨hgrows, ⟨?_, fun n node hnode => hgrows.treeFits (h.cst n node hnode)⟩,
    hgrows.pieceFits hp⟩
  intro n node hnode
  rw [TraceBuilder.modify, Array.getElem?_modify] at hnode
  split at hnode
  · obtain ⟨old, hold, rfl⟩ := Option.map_eq_some_iff.mp hnode
    have hfits := hgrows.nodeFits (h.nodes n old hold)
    refine ⟨hinterval old ▸ hfits.interval, ?_, hcst old ▸ hfits.linked, ?_⟩
    · rcases hreplaced old with hsame | hlt
      · exact hsame ▸ hfits.replaced
      · exact hlt
    · rw [hchildren, hinterval, hsucceeded]
      exact hfits.children
  · exact hgrows.nodeFits (h.nodes n node hnode)

/-! ## Pieces that are put together -/

/-- The steps of pieces that fit, with their intervals. -/
theorem exists_of_mem_nodes {ps : List Piece} {interval : Interval} (hps : ∀ p ∈ ps, p.Fits b)
    (hinside : ∀ p ∈ ps, b.succeeded p = true → interval.contains (b.intervalOf p))
    {id : TraceId} (hid : id ∈ ps.map Piece.node) : ∃ node, b.nodes[id.index]? = some node ∧
      (node.succeeded → interval.contains node.interval) := by
  obtain ⟨p, hp, rfl⟩ := List.mem_map.mp hid
  obtain ⟨node, hnode⟩ := (hps p hp).node
  refine ⟨node, hnode, ?_⟩
  rw [← intervalOf_eq hnode, ← succeeded_eq hnode]
  exact hinside p hp

/-- What pieces that fit bind lies in every interval that the pieces lie in: pieces that failed,
which need not lie in it, bind nothing. -/
theorem exists_of_mem_bindings {ps : List Piece} {interval : Interval} (hps : ∀ p ∈ ps, p.Fits b)
    (hinside : ∀ p ∈ ps, b.succeeded p = true → interval.contains (b.intervalOf p))
    {id : CstId} (hid : id ∈ ps.flatMap Piece.bindings) :
    ∃ node, b.cst[id.index]? = some node ∧ interval.contains node.interval := by
  obtain ⟨p, hp, hid⟩ := List.mem_flatMap.mp hid
  obtain ⟨node, hnode, hcontains⟩ := (hps p hp).bindings id hid
  refine ⟨node, hnode, Interval.contains_trans (hinside p hp ?_) hcontains⟩
  by_contra hfailed
  rw [(hps p hp).failed (Bool.eq_false_of_not_eq_true hfailed)] at hid
  cases hid

/-- The interval that covers pieces is one of the input. -/
theorem Consistent.spanOf (h : b.Consistent count) {ps : List Piece} (hps : ∀ p ∈ ps, p.Fits b)
    {place : Nat} (hplace : place ≤ b.inputLength) : (b.spanOf ps place).Within b.inputLength := by
  have hall : ∀ i ∈ (ps.filter b.succeeded).map b.intervalOf, i.Within b.inputLength := by
    intro i hi
    obtain ⟨p, hp, rfl⟩ := List.mem_map.mp hi
    exact h.intervalOf (hps p (List.mem_filter.mp hp).1)
  rw [TraceBuilder.spanOf]
  split
  · exact Interval.within_point hplace
  · next i is his =>
    rw [his] at hall
    obtain ⟨hi, his⟩ := List.forall_mem_cons.mp hall
    exact hi.foldl_cover his

/-- The interval that covers pieces covers each of them that succeeded. -/
theorem spanOf_contains {ps : List Piece} (place : Nat) {p : Piece} (hp : p ∈ ps)
    (hsucceeded : b.succeeded p = true) :
    (b.spanOf ps place).contains (b.intervalOf p) = true := by
  have hmem : b.intervalOf p ∈ (ps.filter b.succeeded).map b.intervalOf :=
    List.mem_map_of_mem (List.mem_filter.mpr ⟨hp, hsucceeded⟩)
  rw [spanOf]
  split
  · next hnone =>
    rw [hnone] at hmem
    cases hmem
  · next i is his =>
    rw [his] at hmem
    exact Interval.foldl_cover_contains hmem

section Combining

variable {ps : List Piece}

theorem Consistent.made_apply (h : b.Consistent count) (hp : p.Fits b) (rule : String) :
    Made count b (b.apply rule p) := by
  refine made_pushBoth h (h.intervalOf hp) hp.bindings ?_
  intro id hid
  obtain rfl := List.mem_singleton.mp hid
  obtain ⟨node, hnode⟩ := hp.node
  exact ⟨node, hnode, fun _ => intervalOf_eq hnode ▸ Interval.contains_refl _⟩

theorem Consistent.made_seq (h : b.Consistent count) (hps : ∀ p ∈ ps, p.Fits b) :
    Made count b (b.seq ps) := by
  refine made_pushNode h (h.spanOf hps (Nat.zero_le _)) ?_ ?_ nofun
  · intro id hid
    obtain ⟨node, hnode, hinside⟩ :=
      exists_of_mem_nodes hps (fun p hp => spanOf_contains 0 hp) hid
    exact ⟨node, hnode, fun _ => hinside⟩
  · intro id hid
    exact exists_of_mem_bindings hps (fun p hp => spanOf_contains 0 hp) hid

theorem Consistent.made_iter (h : b.Consistent count) (hps : ∀ p ∈ ps, p.Fits b)
    (op : Repetition) (inner : ParsingExpr) {place : Nat} (hplace : place ≤ b.inputLength) :
    Made count b (b.iter op inner place ps) := by
  refine made_pushBoth h (h.spanOf hps hplace) ?_ ?_
  · intro id hid
    exact exists_of_mem_bindings hps (fun p hp => spanOf_contains place hp) hid
  · intro id hid
    exact exists_of_mem_nodes hps (fun p hp => spanOf_contains place hp) hid

/-- An alternation takes the interval and the bindings of its first attempt that succeeded. -/
theorem Consistent.made_alt (h : b.Consistent count) (hps : ∀ p ∈ ps, p.Fits b)
    (hinside : ∀ winner ∈ ps.find? b.succeeded, ∀ p ∈ ps, p.InsideOf b winner) :
    Made count b (b.alt ps) := by
  rw [alt]
  cases hwinner : ps.find? b.succeeded with
  | some winner =>
    have hfits := hps winner (List.mem_of_find?_eq_some hwinner)
    refine made_pushNode h (h.intervalOf hfits) ?_ hfits.bindings nofun
    intro id hid
    obtain ⟨node, hnode, hcontains⟩ := exists_of_mem_nodes hps (hinside winner hwinner) hid
    exact ⟨node, hnode, fun _ => hcontains⟩
  | none =>
    refine made_pushNode h (Interval.within_point ?_) ?_ nofun fun _ => rfl
    · cases ps with
      | nil => exact Nat.zero_le _
      | cons p ps =>
        have hin := h.intervalOf (hps p List.mem_cons_self)
        exact Nat.le_trans hin.1 hin.2
    · intro id hid
      obtain ⟨p, hp, rfl⟩ := List.mem_map.mp hid
      obtain ⟨node, hnode⟩ := (hps p hp).node
      exact ⟨node, hnode, nofun⟩

end Combining

/-! ## Programs -/

theorem mem_of_pick? {pieces : Array Piece} {numbers : List Nat} {ps : List Piece}
    (h : pick? pieces numbers = some ps) : ∀ p ∈ ps, p ∈ pieces := by
  rw [pick?] at h
  induction numbers generalizing ps with
  | nil =>
    obtain rfl := Option.some.inj h
    exact nofun
  | cons n numbers ih =>
    rw [List.mapM_cons] at h
    obtain ⟨p, hp, h⟩ := Option.bind_eq_some_iff.mp h
    obtain ⟨rest, hrest, h⟩ := Option.bind_eq_some_iff.mp h
    obtain rfl := Option.some.inj h
    exact List.forall_mem_cons.mpr ⟨Array.mem_of_getElem? hp, ih hrest⟩

/-- **A step keeps the arenas consistent**, and the piece that it makes fits. -/
theorem Consistent.step {pieces : Array Piece} (h : b.Consistent count)
    (hpieces : ∀ p ∈ pieces, p.Fits b) {step : Step} (hstep : step.InPlace count b pieces)
    {r : Piece × TraceBuilder} (hr : b.step? pieces step = some r) : Made count b r := by
  cases step with
  | terminal place text =>
    obtain rfl := Option.some.inj hr
    exact made_pushBoth h hstep nofun nofun
  | range place first last =>
    obtain rfl := Option.some.inj hr
    exact made_pushBoth h hstep nofun nofun
  | apply rule body =>
    obtain ⟨p, hp, rfl⟩ := Option.map_eq_some_iff.mp hr
    exact h.made_apply (hpieces p (Array.mem_of_getElem? hp)) rule
  | seq parts =>
    obtain ⟨ps, hps, rfl⟩ := Option.map_eq_some_iff.mp hr
    exact h.made_seq fun p hp => hpieces p (mem_of_pick? hps p hp)
  | alt attempts =>
    obtain ⟨ps, hps, rfl⟩ := Option.map_eq_some_iff.mp hr
    exact h.made_alt (fun p hp => hpieces p (mem_of_pick? hps p hp)) (hstep ps hps)
  | iter op inner place parts =>
    obtain ⟨ps, hps, rfl⟩ := Option.map_eq_some_iff.mp hr
    exact h.made_iter (fun p hp => hpieces p (mem_of_pick? hps p hp)) op inner hstep
  | failed expr place =>
    obtain rfl := Option.some.inj hr
    exact made_pushNode h (Interval.within_point hstep) nofun nofun fun _ => rfl
  | spaces i =>
    obtain rfl := Option.some.inj hr
    exact made_pushNode h hstep nofun nofun nofun
  | sourced piece place =>
    obtain ⟨p, hp, rfl⟩ := Option.map_eq_some_iff.mp hr
    exact made_modify h (hpieces p (Array.mem_of_getElem? hp)) (fun _ => rfl) (fun _ => rfl)
      (fun _ => rfl) (fun _ => rfl) fun _ => .inl rfl
  | redirect piece other =>
    obtain ⟨p, hp, rfl⟩ := Option.map_eq_some_iff.mp hr
    refine made_modify h (hpieces p (Array.mem_of_getElem? hp)) (fun _ => rfl) (fun _ => rfl)
      (fun _ => rfl) (fun _ => rfl) fun _ => .inr ?_
    rintro id ⟨⟩
    exact hstep

/-- **A program in order** makes a piece for each step. The arenas stay consistent, and all pieces
fit in the end. -/
theorem Consistent.run {pieces : Array Piece} {steps : List Step} (h : b.Consistent count)
    (hpieces : ∀ p ∈ pieces, p.Fits b) (hsteps : b.InOrder count pieces steps) :
    ∃ pieces' b', b.run? pieces steps = some (pieces', b') ∧
      pieces'.size = pieces.size + steps.length ∧ b'.Consistent count ∧
      count ≤ b'.nodes.size ∧ ∀ p ∈ pieces', p.Fits b' := by
  induction steps generalizing b pieces with
  | nil => exact ⟨pieces, b, rfl, rfl, h, hsteps, hpieces⟩
  | cons step steps ih =>
    obtain ⟨hstep, hsteps⟩ := hsteps
    cases hr : b.step? pieces step with
    | none =>
      rw [hr] at hsteps
      exact hsteps.elim
    | some r =>
      obtain ⟨p, b₁⟩ := r
      rw [hr] at hsteps
      have hmade := h.step hpieces hstep hr
      have hpieces₁ : ∀ q ∈ pieces.push p, q.Fits b₁ := by
        intro q hq
        rcases Array.mem_push.mp hq with hq | rfl
        · exact hmade.grows.pieceFits (hpieces q hq)
        · exact hmade.fits
      obtain ⟨pieces', b', hrun, hsize, hb'⟩ := ih hmade.consistent hpieces₁ hsteps
      refine ⟨pieces', b', ?_, ?_, hb'⟩
      · rw [run?, hr]
        exact hrun
      · rw [hsize, Array.size_push, List.length_cons]
        omega

/-- **Consistent arenas** are those of a valid trace, whichever piece is its root. -/
theorem Consistent.valid (h : b.Consistent count) (hcount : count ≤ b.nodes.size)
    (hp : p.Fits b) : (b.toTrace p).Valid := by
  have hnode {node : TraceNode} (hmem : node ∈ b.nodes) : ∃ n, b.NodeFits count n node := by
    obtain ⟨n, hn⟩ := Array.mem_iff_getElem?.mp hmem
    exact ⟨n, h.nodes n node hn⟩
  have htree {node : CstNode} (hmem : node ∈ b.cst) : ∃ n, b.TreeFits n node := by
    obtain ⟨n, hn⟩ := Array.mem_iff_getElem?.mp hmem
    exact ⟨n, h.cst n node hn⟩
  obtain ⟨root, hroot⟩ := hp.node
  exact {
    root := (Array.getElem?_eq_some_iff.mp hroot).1
    steps := fun node hmem =>
      let ⟨_, hfits⟩ := hnode hmem
      hfits.interval
    replaced := fun node hmem id hid =>
      let ⟨_, hfits⟩ := hnode hmem
      Nat.lt_of_lt_of_le (hfits.replaced id hid) hcount
    linked := fun node hmem id hid =>
      let ⟨_, hfits⟩ := hnode hmem
      hfits.linked id hid
    children := by
      intro node hmem id hid
      obtain ⟨n, hfits⟩ := hnode hmem
      obtain ⟨-, below, hbelow, -⟩ := hfits.children id hid
      exact (Array.getElem?_eq_some_iff.mp hbelow).1
    nested := by
      intro node hmem id hid below hbelow
      obtain ⟨n, hfits⟩ := hnode hmem
      obtain ⟨-, below', hbelow', hinside⟩ := hfits.children id hid
      obtain rfl := Option.some.inj (hbelow'.symm.trans hbelow)
      exact hinside
    tree := fun node hmem =>
      let ⟨_, hfits⟩ := htree hmem
      hfits.interval
    treeChildren := by
      intro node hmem id hid
      obtain ⟨n, hfits⟩ := htree hmem
      obtain ⟨-, below, hbelow, -⟩ := hfits.children id hid
      exact (Array.getElem?_eq_some_iff.mp hbelow).1
    treeNested := by
      intro node hmem id hid below hbelow
      obtain ⟨n, hfits⟩ := htree hmem
      obtain ⟨-, below', hbelow', hinside⟩ := hfits.children id hid
      obtain rfl := Option.some.inj (hbelow'.symm.trans hbelow)
      exact hinside
    acyclic := Trace.acyclic_of_children_lt fun n node hn id hid =>
      ((h.nodes n node hn).children id hid).1
    treeAcyclic := Trace.treeAcyclic_of_children_lt fun n node hn id hid =>
      ((h.cst n node hn).children id hid).1 }

/-- **What a program in order builds is valid.** It makes a piece for each of its steps, and each
of the pieces finishes the trace without a fault. -/
theorem finish_of_inOrder {input : String} {grammar : Grammar} {steps : List Step}
    (h : InOrder count ⟨input, grammar, #[], #[]⟩ #[] steps) :
    ∃ pieces b, run? ⟨input, grammar, #[], #[]⟩ #[] steps = some (pieces, b) ∧
      pieces.size = steps.length ∧ ∀ p ∈ pieces, b.finish p = .ok (b.toTrace p) := by
  have hstart : Consistent count ⟨input, grammar, #[], #[]⟩ := ⟨nofun, nofun⟩
  have hnone : ∀ p ∈ (#[] : Array Piece), p.Fits ⟨input, grammar, #[], #[]⟩ := nofun
  obtain ⟨pieces, b, hrun, hsize, hb, hcount, hpieces⟩ := hstart.run hnone h
  refine ⟨pieces, b, hrun, by simpa using hsize, ?_⟩
  intro p hp
  rw [finish, Trace.validated_eq_ok]
  exact ⟨(hb.valid hcount (hpieces p hp)).validate_eq_ok, rfl⟩

/-- Every kind of step over the input `a c`, with pieces that are used twice, a successful attempt
after the one that is taken, an alternation that fails, and a step that a later one replaces. -/
def sampleProgram : List Step :=
  [.range 0 'a' 'z', .apply "Letter" 0, .failed (.of (.terminal "b")) 1, .spaces ⟨1, 2⟩,
    .terminal 2 "c", .iter .star (.of (.apply "Letter")) 0 [1, 1], .seq [5, 2, 3, 4],
    .alt [2, 6, 1], .alt [2], .sourced 7 ⟨0, 4⟩, .redirect 1 ⟨9⟩, .apply "Whole" 9]

theorem finish_of_inOrder_sample :
    InOrder 10 ⟨"a c", .empty, #[], #[]⟩ #[] sampleProgram ∧
      ∃ pieces b, run? ⟨"a c", .empty, #[], #[]⟩ #[] sampleProgram = some (pieces, b) ∧
        pieces.size = sampleProgram.length ∧ ∀ p ∈ pieces, b.finish p = .ok (b.toTrace p) :=
  have h : InOrder 10 ⟨"a c", .empty, #[], #[]⟩ #[] sampleProgram := by decide +kernel
  ⟨h, finish_of_inOrder h⟩

end TraceBuilder

end ParseActions
