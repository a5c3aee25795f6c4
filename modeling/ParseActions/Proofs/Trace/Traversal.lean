import ParseActions.Proofs.Trace.Recursion

/-!
# Traversals of traces without cycles

In a trace where no step is below itself a traversal needs no bound: the recursion on the steps
below a step ends. The loop that keeps, for each open step, the number of its next child works on
the steps below the one on top of its stack alone, and then goes on with the rest of the stack. So
it ends as well, and tells the visitor what the recursion tells it. So does the visit with a bound,
as no way down is longer than the bound.

## Main definitions

* `Notice`, `Visitor.recording`: what a visitor is told, and the visitor that writes it down
* `Trace.traverse`: the depth-first recursion
* `Trace.OpenStep`, `Trace.round`, `Trace.Ends`: the loop with a stack, and how it ends

## Main results

* `Trace.wellFounded_children`: going down a trace without cycles ends
* `Trace.ends_enterOn`: once it has entered a step, the loop goes on as the recursion does
* `Trace.walk_traverses`: loop, recursion and visit agree
-/

namespace ParseActions

/-- What a visitor is told. -/
inductive Notice where
  | entered (visit : Visit)
  | left (visit : Visit)
  deriving DecidableEq

/-- The visitor that also writes down what it is told. -/
def Visitor.recording {σ : Type} (v : Visitor σ) : Visitor (σ × List Notice) where
  enter visit s := ((v.enter visit s.1).1, (v.enter visit s.1).2, s.2 ++ [.entered visit])
  leave visit s := (v.leave visit s.1, s.2 ++ [.left visit])

namespace Trace

variable {σ : Type} {t : Trace}

/-! ## Going down -/

/-- Only steps that exist have children. -/
theorem index_lt_of_mem_children {id child : TraceId} (h : child ∈ t.children id) :
    id.index < t.nodes.size := by
  rw [Trace.children] at h
  cases hnode : t.node? id with
  | none =>
    rw [hnode] at h
    cases h
  | some node => exact index_lt_of_node? hnode

/-- **Going down a trace without cycles ends**, also where children do not exist. -/
theorem wellFounded_children (ht : Graph.Acyclic t.nodes.size t.stepGraph) :
    WellFounded fun child id => child ∈ t.children id := by
  -- the children that exist form a graph of which nothing leads out
  let inside (n : Nat) := (t.stepGraph n).filter (· < t.nodes.size)
  have hreaches {m n : Nat} (h : Graph.Reaches inside m n) : Graph.Reaches t.stepGraph m n := by
    induction h with
    | step hchild => exact .step (List.mem_filter.mp hchild).1
    | tail _ hchild ih => exact .tail ih (List.mem_filter.mp hchild).1
  have hwf : WellFounded fun c n => c ∈ inside n := by
    refine Graph.wellFounded_of_acyclic ?_ ?_ fun n hn hcycle => ht n hn (hreaches hcycle)
    · intro n _ c hc
      exact of_decide_eq_true (List.mem_filter.mp hc).2
    · intro n hn
      have hnone : t.node? ⟨n⟩ = none := Array.getElem?_eq_none hn
      simp only [inside, stepGraph, children, hnone]
      rfl
  refine ⟨fun id => ?_⟩
  induction hn : id.index using hwf.induction generalizing id with
  | _ n ih =>
    refine ⟨_, fun child hchild => ?_⟩
    by_cases hlt : child.index < t.nodes.size
    · refine ih child.index ?_ child rfl
      exact List.mem_filter.mpr ⟨hn ▸ List.mem_map_of_mem hchild, decide_eq_true hlt⟩
    -- a child that does not exist has no children
    · exact ⟨_, fun below hbelow => absurd (index_lt_of_mem_children hbelow) hlt⟩

/-! ## The recursion -/

/-- Some actions in turn, each with what it tells. -/
def inTurn {α : Type} (act : α → σ → List Notice × σ) : List α → σ → List Notice × σ
  | [], s => ([], s)
  | a :: rest, s =>
    let (told, s) := act a s
    let (more, s) := inTurn act rest s
    (told ++ more, s)

/-- **The depth-first recursion**: a step is entered; if the visitor descends, the steps below it
are traversed in turn, and the step is left. -/
def traverse (t : Trace) (ht : Graph.Acyclic t.nodes.size t.stepGraph) (v : Visitor σ)
    (visit : Visit) (s : σ) : List Notice × σ :=
  match v.enter visit s with
  | (.skip, s) => ([.entered visit], s)
  | (.descend, s) =>
    -- the children come with the proof that they are below the step
    let (told, s) := inTurn (fun child s =>
      t.traverse ht v ⟨child.1, some visit.node, visit.depth + 1⟩ s)
      (t.children visit.node).attach s
    (.entered visit :: told ++ [.left visit], v.leave visit s)
termination_by (wellFounded_children ht).wrap visit.node
decreasing_by exact child.2

variable {ht : Graph.Acyclic t.nodes.size t.stepGraph} {v : Visitor σ} {visit : Visit} {s s' : σ}

/-- The traversal of some children of a step. -/
def traverseBelow (t : Trace) (ht : Graph.Acyclic t.nodes.size t.stepGraph) (v : Visitor σ)
    (visit : Visit) : List TraceId → σ → List Notice × σ :=
  inTurn fun child => t.traverse ht v ⟨child, some visit.node, visit.depth + 1⟩

theorem inTurn_attach {α : Type} (act : α → σ → List Notice × σ) (l : List α) (s : σ) :
    inTurn (fun a : { a // a ∈ l } => act a.1) l.attach s = inTurn act l s := by
  have hmap {β : Type} (g : β → α) (l : List β) (s : σ) :
      inTurn act (l.map g) s = inTurn (fun b => act (g b)) l s := by
    induction l generalizing s with
    | nil => rfl
    | cons b l ih => simp only [List.map_cons, inTurn, ih]
  rw [← hmap Subtype.val, List.attach_map_subtype_val]

theorem traverse_of_skip (h : v.enter visit s = (.skip, s')) :
    t.traverse ht v visit s = ([.entered visit], s') := by
  rw [traverse, h]

theorem traverse_of_descend (h : v.enter visit s = (.descend, s')) :
    t.traverse ht v visit s =
      (.entered visit :: (t.traverseBelow ht v visit (t.children visit.node) s').1 ++ [.left visit],
        v.leave visit (t.traverseBelow ht v visit (t.children visit.node) s').2) := by
  rw [traverse, h]
  simp only [inTurn_attach
    (fun child => t.traverse ht v ⟨child, some visit.node, visit.depth + 1⟩)]
  rfl

theorem traverseBelow_cons {child : TraceId} {rest : List TraceId} :
    (t.traverseBelow ht v visit (child :: rest) s).2 =
      (t.traverseBelow ht v visit rest
        (t.traverse ht v ⟨child, some visit.node, visit.depth + 1⟩ s).2).2 :=
  rfl

/-- **Induction on the steps below a visited step.** -/
theorem visit_induction (ht : Graph.Acyclic t.nodes.size t.stepGraph) {P : Visit → Prop}
    (step : ∀ visit, (∀ child ∈ t.children visit.node,
      P ⟨child, some visit.node, visit.depth + 1⟩) → P visit) (visit : Visit) : P visit := by
  induction hid : visit.node using (wellFounded_children ht).induction generalizing visit with
  | _ id ih => exact step visit fun child hchild => ih child (hid ▸ hchild) _ rfl

theorem traverseBelow_recording {rest : List TraceId}
    (h : ∀ child ∈ rest, ∀ s l,
      (t.traverse ht v.recording ⟨child, some visit.node, visit.depth + 1⟩ (s, l)).2 =
        ((t.traverse ht v ⟨child, some visit.node, visit.depth + 1⟩ s).2,
          l ++ (t.traverse ht v ⟨child, some visit.node, visit.depth + 1⟩ s).1))
    (s : σ) (l : List Notice) :
    (t.traverseBelow ht v.recording visit rest (s, l)).2 =
      ((t.traverseBelow ht v visit rest s).2, l ++ (t.traverseBelow ht v visit rest s).1) := by
  induction rest generalizing s l with
  | nil => simp [traverseBelow, inTurn]
  | cons child rest ih =>
    obtain ⟨hchild, hrest⟩ := List.forall_mem_cons.mp h
    rw [traverseBelow_cons, hchild, ih hrest]
    simp [traverseBelow, inTurn]

/-- Writing down does not change the traversal, and writes down what it tells. -/
theorem traverse_recording (visit : Visit) (s : σ) (l : List Notice) :
    (t.traverse ht v.recording visit (s, l)).2 =
      ((t.traverse ht v visit s).2, l ++ (t.traverse ht v visit s).1) := by
  induction visit using visit_induction ht generalizing s l with
  | step visit ih =>
    have hrec : v.recording.enter visit (s, l) =
        ((v.enter visit s).1, (v.enter visit s).2, l ++ [.entered visit]) := rfl
    cases henter : v.enter visit s with
    | mk descent s' =>
      rw [henter] at hrec
      cases descent with
      | skip => rw [traverse_of_skip hrec, traverse_of_skip henter]
      | descend =>
        rw [traverse_of_descend hrec, traverse_of_descend henter, traverseBelow_recording ih]
        simp [Visitor.recording]

/-! ## The loop -/

/-- An open step and the number of the child that comes next. -/
structure OpenStep where
  visit : Visit
  next : Nat

/-- Enters a step, and puts it on the stack if the visitor descends. -/
def enterOn (v : Visitor σ) (visit : Visit) (s : σ) (stack : List OpenStep) : List OpenStep × σ :=
  match v.enter visit s with
  | (.descend, s) => (⟨visit, 0⟩ :: stack, s)
  | (.skip, s) => (stack, s)

/-- One round of the loop: the next child of the step on top is entered, or the step is left. There
is no round when the stack is empty. -/
def round (t : Trace) (v : Visitor σ) : List OpenStep × σ → Option (List OpenStep × σ)
  | ([], _) => none
  | (⟨visit, next⟩ :: stack, s) =>
    match (t.children visit.node)[next]? with
    | some child =>
      some (enterOn v ⟨child, some visit.node, visit.depth + 1⟩ s (⟨visit, next + 1⟩ :: stack))
    | none => some (stack, v.leave visit s)

/-- The loop ends in a state, after finitely many rounds. -/
inductive Ends (t : Trace) (v : Visitor σ) : List OpenStep × σ → σ → Prop where
  | done {s : σ} : Ends t v ([], s) s
  | more {w w' : List OpenStep × σ} {s : σ} (h : t.round v w = some w') (hends : Ends t v w' s) :
    Ends t v w s

/-- The loop ends in one state at most. -/
theorem Ends.unique {w : List OpenStep × σ} {s s' : σ} (h : t.Ends v w s) (h' : t.Ends v w s') :
    s = s' := by
  induction h with
  | done =>
    cases h' with
    | done => rfl
    | more hround _ => cases hround
  | more hround _ ih =>
    cases h' with
    | done => cases hround
    | more hround' hends' =>
      obtain rfl := Option.some.inj (hround.symm.trans hround')
      exact ih hends'

/-- The children of a step that are left are entered in turn, and the step is left. -/
theorem ends_below {stack : List OpenStep} {r : σ} {rest : List TraceId}
    (ih : ∀ child ∈ rest, ∀ s stack,
      t.Ends v (stack, (t.traverse ht v ⟨child, some visit.node, visit.depth + 1⟩ s).2) r →
      t.Ends v (enterOn v ⟨child, some visit.node, visit.depth + 1⟩ s stack) r)
    {next : Nat} (hrest : (t.children visit.node).drop next = rest)
    (hends : t.Ends v (stack, v.leave visit (t.traverseBelow ht v visit rest s).2) r) :
    t.Ends v (⟨visit, next⟩ :: stack, s) r := by
  induction rest generalizing next s with
  | nil =>
    have hnone : (t.children visit.node)[next]? = none :=
      List.getElem?_eq_none (List.drop_eq_nil_iff.mp hrest)
    refine .more ?_ hends
    rw [round, hnone]
    rfl
  | cons child rest ihrest =>
    obtain ⟨hchild, ih⟩ := List.forall_mem_cons.mp ih
    have hnext : (t.children visit.node)[next]? = some child := by
      rw [← List.head?_drop, hrest, List.head?_cons]
    have hafter : (t.children visit.node).drop (next + 1) = rest := by
      rw [← List.tail_drop, hrest, List.tail_cons]
    refine .more ?_ (hchild s (⟨visit, next + 1⟩ :: stack) (ihrest ih hafter ?_))
    · rw [round, hnext]
    · rw [traverseBelow_cons] at hends
      exact hends

/-- **Once it has entered a step**, the loop goes on as the recursion does, whatever else is on the
stack. -/
theorem ends_enterOn (visit : Visit) (s : σ) (stack : List OpenStep) (r : σ)
    (hends : t.Ends v (stack, (t.traverse ht v visit s).2) r) :
    t.Ends v (enterOn v visit s stack) r := by
  induction visit using visit_induction ht generalizing s stack with
  | step visit ih =>
    cases henter : v.enter visit s with
    | mk descent s' =>
      rw [enterOn, henter]
      cases descent with
      | skip =>
        rw [traverse_of_skip henter] at hends
        exact hends
      | descend =>
        rw [traverse_of_descend henter] at hends
        exact ends_below (fun child hchild s stack => ih child hchild s stack) List.drop_zero hends

/-! ## The visit with a bound -/

theorem visitBelow_eq_traverseBelow {room : Nat} {rest : List TraceId}
    (h : ∀ child ∈ rest, ∀ s,
      t.visitNode v room ⟨child, some visit.node, visit.depth + 1⟩ s =
        (t.traverse ht v ⟨child, some visit.node, visit.depth + 1⟩ s).2) (s : σ) :
    t.visitBelow v room visit rest s = (t.traverseBelow ht v visit rest s).2 := by
  induction rest generalizing s with
  | nil => rfl
  | cons child rest ih =>
    obtain ⟨hchild, hrest⟩ := List.forall_mem_cons.mp h
    rw [traverseBelow_cons, ← hchild, ← ih hrest]
    rfl

/-- **The bound is never met**: the steps above a step are distinct, so there are at most as many
levels as there are steps, and one below them. -/
theorem visitNode_eq_traverse (room : Nat) (visit : Visit) (s : σ) {above : List Nat}
    (hnodup : above.Nodup)
    (habove : ∀ n ∈ above, n < t.nodes.size ∧ Graph.Reaches t.stepGraph n visit.node.index)
    (hroom : t.nodes.size < above.length + room) :
    t.visitNode v room visit s = (t.traverse ht v visit s).2 := by
  induction room generalizing visit s above with
  | zero =>
    have hsub : above ⊆ List.range t.nodes.size := fun n hn => List.mem_range.mpr (habove n hn).1
    have hle := (hnodup.subperm hsub).length_le
    rw [List.length_range] at hle
    omega
  | succ room ih =>
    cases henter : v.enter visit s with
    | mk descent s' =>
      cases descent with
      | skip => rw [visitNode_of_skip henter, traverse_of_skip henter]
      | descend =>
        rw [visitNode_of_descend henter, traverse_of_descend henter, visitBelow_eq_traverseBelow]
        intro child hmem s
        have hstep : child.index ∈ t.stepGraph visit.node.index := List.mem_map_of_mem hmem
        have hlt := index_lt_of_mem_children hmem
        -- the step is not among those above it, as it is not below itself
        have hnodup' : (visit.node.index :: above).Nodup :=
          List.nodup_cons.mpr ⟨fun hn => ht _ hlt (habove _ hn).2, hnodup⟩
        refine ih _ s hnodup' ?_ ?_
        · refine List.forall_mem_cons.mpr ⟨⟨hlt, .step hstep⟩, ?_⟩
          exact fun n hn => ⟨(habove n hn).1, (habove n hn).2.tail hstep⟩
        · rw [List.length_cons]
          omega

/-- The visit from a step that exists is the traversal from there. -/
theorem walk_eq_traverse (ht : Graph.Acyclic t.nodes.size t.stepGraph) {start : TraceId}
    (hstart : (t.node? start).isSome) (v : Visitor σ) (s : σ) :
    t.walk v start s = (t.traverse ht v ⟨start, none, 0⟩ s).2 := by
  rw [walk_eq_visit, visit, if_pos hstart]
  refine visitNode_eq_traverse _ _ _ List.nodup_nil ?_ (by simp)
  exact fun n hn => absurd hn List.not_mem_nil

/-- **Loop, recursion and visit agree** on a trace without cycles, from every step that exists and
for every visitor. The loop ends; it leaves the visitor in the state that the recursion leaves it
in, and has told it what the recursion tells it, in the same order. The visit does so too. -/
theorem walk_traverses (ht : Graph.Acyclic t.nodes.size t.stepGraph) {start : TraceId}
    (hstart : (t.node? start).isSome) (v : Visitor σ) (s : σ) :
    t.Ends v (enterOn v ⟨start, none, 0⟩ s []) (t.traverse ht v ⟨start, none, 0⟩ s).2 ∧
      t.Ends v.recording (enterOn v.recording ⟨start, none, 0⟩ (s, []) [])
        ((t.traverse ht v ⟨start, none, 0⟩ s).2, (t.traverse ht v ⟨start, none, 0⟩ s).1) ∧
      t.walk v start s = (t.traverse ht v ⟨start, none, 0⟩ s).2 ∧
      t.walk v.recording start (s, []) =
        ((t.traverse ht v ⟨start, none, 0⟩ s).2, (t.traverse ht v ⟨start, none, 0⟩ s).1) := by
  have hrecording : (t.traverse ht v.recording ⟨start, none, 0⟩ (s, [])).2 =
      ((t.traverse ht v ⟨start, none, 0⟩ s).2, (t.traverse ht v ⟨start, none, 0⟩ s).1) :=
    traverse_recording _ s []
  refine ⟨?_, ?_, walk_eq_traverse ht hstart v s, ?_⟩
  · exact ends_enterOn _ _ _ _ .done
  · rw [← hrecording]
    exact ends_enterOn _ _ _ _ .done
  · rw [walk_eq_traverse ht hstart, hrecording]

/-- A step with two children, one of them twice, and below it a step with a child that does not
exist. -/
def forkSample : Trace where
  input := "a"
  grammar := .empty
  nodes := #[⟨.of (.apply "Fork"), ⟨0, 1⟩, [⟨1⟩, ⟨2⟩, ⟨1⟩], true, none, "Fork", none⟩,
    ⟨.of (.apply "Left"), ⟨0, 1⟩, [⟨2⟩, ⟨7⟩], true, none, "Left", none⟩,
    ⟨.of (.apply "Right"), ⟨0, 1⟩, [], true, none, "Right", none⟩]
  cst := #[]
  root := ⟨0⟩

theorem acyclic_forkSample : Graph.Acyclic forkSample.nodes.size forkSample.stepGraph := by
  refine Graph.acyclic_of_rank (fun n => 10 - n) fun n c hc => ?_
  match n, hc with
  | 0, hc =>
    have hmem : c = 1 ∨ c = 2 ∨ c = 1 := by simpa [forkSample, stepGraph, children, node?] using hc
    omega
  | 1, hc =>
    have hmem : c = 2 ∨ c = 7 := by simpa [forkSample, stepGraph, children, node?] using hc
    omega
  | n + 2, hc =>
    cases n <;> simp [forkSample, stepGraph, children, node?] at hc

/-- Counts the steps that it enters, and does not descend after the third. -/
def countingSample : Visitor Nat where
  enter _ n := (if n < 3 then .descend else .skip, n + 1)
  leave _ n := n

theorem walk_traverses_sample :
    Graph.Acyclic forkSample.nodes.size forkSample.stepGraph ∧
      (forkSample.node? ⟨0⟩).isSome ∧
      forkSample.walk countingSample.recording ⟨0⟩ (0, []) =
        ((forkSample.traverse acyclic_forkSample countingSample ⟨⟨0⟩, none, 0⟩ 0).2,
          (forkSample.traverse acyclic_forkSample countingSample ⟨⟨0⟩, none, 0⟩ 0).1) :=
  have hstart : (forkSample.node? ⟨0⟩).isSome := rfl
  have h := walk_traverses acyclic_forkSample hstart countingSample 0
  ⟨acyclic_forkSample, hstart, h.2.2.2⟩

end Trace

end ParseActions
