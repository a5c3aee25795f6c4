import ParseActions.Proofs.Action.Defaults
import ParseActions.Proofs.Trace.Building

/-!
# Names and children

The names of a rule's arguments come from the expression of its body, the values from the nodes of the
syntax tree below the node of the rule. Where the body is the one that was matched, both come from the
same steps: the expression has the expressions of the factors, the tree has the nodes that they bind.
A factor without a node is white space that was skipped; it has a name and no value, so the names after
it stand one place too far back. If there is none, each name has the value of its own factor.

## Main definitions

* `Factors`: the steps that a row of steps comes down to when sequences are taken apart
* `TraceNode.shown`: the steps that are looked at for names
* `TraceBuilder.Step.isMatch`: the steps of programs that only record what matched
* `TraceBuilder.Binds`, `TraceBuilder.NodeBinds`: what holds of pieces and of nodes after each step

## Main results

* `TraceBuilder.bound_run`: what holds after a program
* `TraceBuilder.length_signature_of_finish`: when there are as many names as children
-/

namespace ParseActions

/-! ## Factors of an expression -/

/-- An expression that is one factor: neither a sequence nor a negative lookahead. -/
def ParsingExpr.Single (e : ParsingExpr) : Prop :=
  match e.shape with
  | .seq _ | .not _ => False
  | _ => True

section BindingFactors

variable {e : ParsingExpr}

theorem bindingFactors_append (es es' : List ParsingExpr) :
    bindingFactors (es ++ es') = bindingFactors es ++ bindingFactors es' := by
  fun_induction bindingFactors es with
  | case1 => rfl
  | case2 factors source rest ihfactors ihrest =>
    rw [List.cons_append, bindingFactors, ihrest, List.append_assoc]
  | case3 inner source rest ih => rw [List.cons_append, bindingFactors, ih]
  | case4 e rest hseq hnot ih =>
    rw [List.cons_append, bindingFactors, ih, List.cons_append] <;> assumption

theorem bindingFactors_seq (es : List ParsingExpr) :
    bindingFactors [.of (.seq es)] = bindingFactors es := by
  rw [ParsingExpr.of, bindingFactors, bindingFactors, List.append_nil]

theorem bindingFactors_of_single (h : e.Single) : bindingFactors [e] = [e] := by
  rw [bindingFactors, bindingFactors]
  · rintro factors source rfl
    exact h
  · rintro inner source rfl
    exact h

/-- The arguments of an expression are those that it has inside a sequence. -/
theorem ParsingExpr.binders_of_single (h : e.Single) : e.binders = bindingFactors [e] := by
  rw [bindingFactors_of_single h, binders]
  split
  · next hseq => simp [Single, hseq] at h
  · rfl

end BindingFactors

/-! ## Factors of a match -/

/-- The steps that a row of steps comes down to when sequences are taken apart. -/
inductive Factors (nodes : Array TraceNode) : List TraceId → List TraceNode → Prop
  | nil : Factors nodes [] []
  | single {id node ids factors} (hnode : nodes[id.index]? = some node) (hsingle : node.expr.Single)
    (hrest : Factors nodes ids factors) : Factors nodes (id :: ids) (node :: factors)
  | seq {id node es below ids factors} (hnode : nodes[id.index]? = some node)
    (hseq : node.expr = .of (.seq es)) (hbelow : Factors nodes node.children below)
    (hrest : Factors nodes ids factors) : Factors nodes (id :: ids) (below ++ factors)

section Factors

variable {nodes : Array TraceNode} {ids ids' : List TraceId} {factors factors' : List TraceNode}

theorem Factors.append (h : Factors nodes ids factors) (h' : Factors nodes ids' factors') :
    Factors nodes (ids ++ ids') (factors ++ factors') := by
  induction h with
  | nil => exact h'
  | single hnode hsingle _ ih => exact .single hnode hsingle ih
  | seq hnode hseq hbelow _ _ ih =>
    rw [List.append_assoc]
    exact .seq hnode hseq hbelow ih

theorem Factors.mono {nodes' : Array TraceNode} (h : Factors nodes ids factors)
    (hnodes : ∀ (n : Nat) (node : TraceNode), nodes[n]? = some node → nodes'[n]? = some node) :
    Factors nodes' ids factors := by
  induction h with
  | nil => exact .nil
  | single hnode hsingle _ ih => exact .single (hnodes _ _ hnode) hsingle ih
  | seq hnode hseq _ _ ihbelow ih => exact .seq (hnodes _ _ hnode) hseq ihbelow ih

/-- Factors are steps of the trace that stand for one expression. -/
theorem Factors.mem (h : Factors nodes ids factors) :
    ∀ node ∈ factors, node ∈ nodes ∧ node.expr.Single := by
  induction h with
  | nil => exact nofun
  | single hnode hsingle _ ih =>
    exact List.forall_mem_cons.mpr ⟨⟨Array.mem_of_getElem? hnode, hsingle⟩, ih⟩
  | seq _ _ _ _ ihbelow ih => exact List.forall_mem_append.mpr ⟨ihbelow, ih⟩

theorem Factors.found (h : Factors nodes ids factors) :
    ∀ id ∈ ids, ∃ node, nodes[id.index]? = some node := by
  induction h with
  | nil => exact nofun
  | single hnode _ _ ih => exact List.forall_mem_cons.mpr ⟨⟨_, hnode⟩, ih⟩
  | seq hnode _ _ _ _ ih => exact List.forall_mem_cons.mpr ⟨⟨_, hnode⟩, ih⟩

/-- A step that stands for one expression comes down to itself. -/
theorem Factors.eq_singleton {id : TraceId} {node : TraceNode} (h : Factors nodes [id] factors)
    (hnode : nodes[id.index]? = some node) (hsingle : node.expr.Single) : factors = [node] := by
  cases h with
  | single hnode' _ hrest =>
    obtain rfl := Option.some.inj (hnode'.symm.trans hnode)
    cases hrest
    rfl
  | seq hnode' hseq =>
    obtain rfl := Option.some.inj (hnode'.symm.trans hnode)
    simp [hseq, ParsingExpr.Single, ParsingExpr.of, ParsingExpr.shape] at hsingle

end Factors

/-- Whether a step is looked at for names: it neither skips white space nor is passed over. -/
def TraceNode.shown (node : TraceNode) : Bool :=
  !node.isWhitespace && !node.isBlackhole

namespace TraceBuilder

variable {b b' : TraceBuilder} {p : Piece} {ps : List Piece} {node : TraceNode}

/-- A step that records a match. -/
def Step.isMatch : Step → Bool
  | .terminal .. | .range .. | .apply .. | .seq _ | .iter .. | .spaces _ => true
  | .alt _ | .failed .. | .sourced .. | .redirect .. => false

/-- What was made stays as it is. -/
structure Extends (b b' : TraceBuilder) : Prop where
  nodes : ∀ (n : Nat) (node : TraceNode), b.nodes[n]? = some node → b'.nodes[n]? = some node
  cst : ∀ (n : Nat) (node : CstNode), b.cst[n]? = some node → b'.cst[n]? = some node

/-- Pieces bind what their factors bind, and their expressions have the expressions of these as
factors. -/
def Binds (b : TraceBuilder) (ps : List Piece) : Prop :=
  ∃ factors, Factors b.nodes (ps.map Piece.node) factors ∧
    ps.flatMap Piece.bindings = factors.filterMap TraceNode.cst ∧
    bindingFactors (b.exprsOf ps) = factors.map TraceNode.expr

/-- A step is shown as it is, its expression is a sequence or one factor, which has a node of the
syntax tree unless it skips white space, and the node of a rule has below it what the body binds. -/
structure NodeBinds (b : TraceBuilder) (node : TraceNode) : Prop where
  kept : node.replacedBy = none
  display : node.display = node.expr.display
  form : (∃ es, node.expr = .of (.seq es)) ∨ node.expr.Single
  skipped : node.expr.Single → node.cst = none → node.isWhitespace = true
  applies : ∀ c ∈ node.cst, node.rule?.isSome = true → ∃ body, b.Binds [body] ∧
    node.children = [body.node] ∧ ∃ tree, b.cst[c.index]? = some tree ∧ tree.children = body.bindings

/-- The outcome of a step: what was made stays, all steps bind what their factors bind, and so does
the piece. -/
structure Bound (b : TraceBuilder) (r : Piece × TraceBuilder) : Prop where
  grows : b.Extends r.2
  nodes : ∀ node ∈ r.2.nodes, r.2.NodeBinds node
  binds : r.2.Binds [r.1]

theorem exprsOf_cons (b : TraceBuilder) (p : Piece) (ps : List Piece) :
    b.exprsOf (p :: ps) = b.exprsOf [p] ++ b.exprsOf ps := by
  rw [exprsOf, exprsOf, exprsOf, ← List.filterMap_append, List.singleton_append]

theorem exprsOf_singleton (h : b.nodes[p.node.index]? = some node) : b.exprsOf [p] = [node.expr] := by
  simp [exprsOf, h]

/-- Pieces that each bind what their factors bind do so together. -/
theorem binds_of_forall (h : ∀ p ∈ ps, b.Binds [p]) : b.Binds ps := by
  induction ps with
  | nil => exact ⟨[], .nil, rfl, by rw [exprsOf]; exact bindingFactors.eq_1⟩
  | cons p ps ih =>
    obtain ⟨hp, hps⟩ := List.forall_mem_cons.mp h
    obtain ⟨factors, hfactors, hbindings, hexprs⟩ := hp
    obtain ⟨factors', hfactors', hbindings', hexprs'⟩ := ih hps
    refine ⟨factors ++ factors', hfactors.append hfactors', ?_, ?_⟩
    · rw [List.filterMap_append, ← hbindings, ← hbindings', ← List.flatMap_append]
      rfl
    · rw [exprsOf_cons, bindingFactors_append, hexprs, hexprs', List.map_append]

/-- A piece whose step is one factor and binds the node that it has, if any. -/
theorem binds_of_single (hnode : b.nodes[p.node.index]? = some node) (hsingle : node.expr.Single)
    (hbindings : p.bindings = node.cst.toList) : b.Binds [p] := by
  refine ⟨[node], .single hnode hsingle .nil, ?_, ?_⟩
  · rw [List.flatMap_singleton, hbindings]
    cases hcst : node.cst <;> simp [hcst]
  · rw [exprsOf_singleton hnode, bindingFactors_of_single hsingle]
    rfl

namespace Extends

theorem trans {b'' : TraceBuilder} (h : b.Extends b') (h' : b'.Extends b'') : b.Extends b'' where
  nodes n node hnode := h'.nodes n node (h.nodes n node hnode)
  cst n node hnode := h'.cst n node (h.cst n node hnode)

theorem binds (h : b.Extends b') (hps : b.Binds ps) : b'.Binds ps := by
  obtain ⟨factors, hfactors, hbindings, hexprs⟩ := hps
  refine ⟨factors, hfactors.mono h.nodes, hbindings, hexprs ▸ congrArg bindingFactors ?_⟩
  refine List.filterMap_congr fun p hp => ?_
  obtain ⟨node, hnode⟩ := hfactors.found p.node (List.mem_map_of_mem hp)
  rw [hnode, h.nodes _ _ hnode]

theorem nodeBinds (h : b.Extends b') (hnode : b.NodeBinds node) : b'.NodeBinds node where
  kept := hnode.kept
  display := hnode.display
  form := hnode.form
  skipped := hnode.skipped
  applies c hc hrule := by
    obtain ⟨body, hbody, hchildren, tree, htree, hbelow⟩ := hnode.applies c hc hrule
    exact ⟨body, h.binds hbody, hchildren, tree, h.cst _ _ htree, hbelow⟩

end Extends

/-! ## What one step does -/

section Adding

variable {expr : ParsingExpr} {interval : Interval} {children : List TraceId} {succeeded : Bool}
  {cst : Option CstId} {kind : CstKind} {below : List CstId}

theorem extends_pushNode : b.Extends (b.pushNode expr interval children succeeded cst).2 where
  nodes _ _ hnode := getElem?_push_of_some hnode
  cst _ _ hnode := hnode

theorem extends_pushCst : b.Extends (b.pushCst kind interval below).2 where
  nodes _ _ hnode := hnode
  cst _ _ hnode := getElem?_push_of_some hnode

/-- The nodes after a step is added, if the new one binds what its factors bind. -/
theorem forall_nodeBinds_pushNode (h : ∀ node ∈ b.nodes, b.NodeBinds node)
    (hnew : (b.pushNode expr interval children succeeded cst).2.NodeBinds
      ⟨expr, interval, children, succeeded, none, expr.display, cst⟩) :
    ∀ node ∈ (b.pushNode expr interval children succeeded cst).2.nodes,
      (b.pushNode expr interval children succeeded cst).2.NodeBinds node := by
  intro node hnode
  rcases Array.mem_push.mp hnode with hnode | rfl
  · exact extends_pushNode.nodeBinds (h node hnode)
  · exact hnew

/-- A factor with a node of its own is added. Below a rule is what its body binds. -/
theorem bound_pushBoth (h : ∀ node ∈ b.nodes, b.NodeBinds node) (hsingle : expr.Single)
    (happlies : expr.rule?.isSome = true → ∃ body, b.Binds [body] ∧ children = [body.node] ∧
      below = body.bindings) : Bound b (b.pushBoth kind expr interval below children) := by
  have hgrows : b.Extends (b.pushBoth kind expr interval below children).2 :=
    extends_pushCst.trans extends_pushNode
  have hnodes : ∀ node ∈ (b.pushCst kind interval below).2.nodes,
      (b.pushCst kind interval below).2.NodeBinds node :=
    fun node hnode => extends_pushCst.nodeBinds (h node hnode)
  refine ⟨hgrows, forall_nodeBinds_pushNode hnodes ⟨rfl, rfl, .inr hsingle, nofun, ?_⟩, ?_⟩
  · rintro c ⟨⟩ hrule
    obtain ⟨body, hbody, hchildren, hbelow⟩ := happlies hrule
    exact ⟨body, hgrows.binds hbody, hchildren, _, Array.getElem?_push_size, hbelow⟩
  · exact binds_of_single Array.getElem?_push_size hsingle rfl

theorem bound_apply (h : ∀ node ∈ b.nodes, b.NodeBinds node) (hp : b.Binds [p]) (rule : String) :
    Bound b (b.apply rule p) :=
  bound_pushBoth h trivial fun _ => ⟨p, hp, rfl, rfl⟩

theorem bound_seq (h : ∀ node ∈ b.nodes, b.NodeBinds node) (hps : b.Binds ps) :
    Bound b (b.seq ps) := by
  refine ⟨extends_pushNode, forall_nodeBinds_pushNode h ⟨rfl, rfl, .inl ⟨_, rfl⟩, nofun, nofun⟩, ?_⟩
  have hgrows : b.Extends (b.seq ps).2 := extends_pushNode
  have hnew : (b.seq ps).2.nodes[b.nodes.size]? = some ⟨.of (.seq (b.exprsOf ps)), b.spanOf ps 0,
      ps.map Piece.node, true, none, _, none⟩ := Array.getElem?_push_size
  obtain ⟨factors, hfactors, hbindings, hexprs⟩ := hps
  refine ⟨factors ++ [], .seq hnew rfl (hfactors.mono hgrows.nodes) .nil, ?_, ?_⟩
  · rw [List.append_nil, ← hbindings, List.flatMap_singleton]
    rfl
  · rw [exprsOf_singleton hnew, bindingFactors_seq, hexprs, List.append_nil]

theorem bound_spaces (h : ∀ node ∈ b.nodes, b.NodeBinds node) (i : Interval) :
    Bound b (b.spaces i) where
  grows := extends_pushNode
  nodes := forall_nodeBinds_pushNode h ⟨rfl, rfl, .inr trivial, fun _ _ => rfl, nofun⟩
  binds := binds_of_single Array.getElem?_push_size trivial rfl

end Adding

/-- **A step that records a match** binds what its factors bind. -/
theorem bound_step? {pieces : Array Piece} (h : ∀ node ∈ b.nodes, b.NodeBinds node)
    (hpieces : ∀ p ∈ pieces, b.Binds [p]) {step : Step} (hstep : step.isMatch = true)
    {r : Piece × TraceBuilder} (hr : b.step? pieces step = some r) : Bound b r := by
  cases step with
  | terminal place text =>
    obtain rfl := Option.some.inj hr
    exact bound_pushBoth h trivial nofun
  | range place first last =>
    obtain rfl := Option.some.inj hr
    exact bound_pushBoth h trivial nofun
  | apply rule body =>
    obtain ⟨p, hp, rfl⟩ := Option.map_eq_some_iff.mp hr
    exact bound_apply h (hpieces p (Array.mem_of_getElem? hp)) rule
  | seq parts =>
    obtain ⟨ps, hps, rfl⟩ := Option.map_eq_some_iff.mp hr
    exact bound_seq h (binds_of_forall fun p hp => hpieces p (mem_of_pick? hps p hp))
  | iter op inner place parts =>
    obtain ⟨ps, hps, rfl⟩ := Option.map_eq_some_iff.mp hr
    exact bound_pushBoth h trivial nofun
  | spaces i =>
    obtain rfl := Option.some.inj hr
    exact bound_spaces h i
  | alt _ | failed _ _ | sourced _ _ | redirect _ _ => cases hstep

/-- **A program that records a match** makes steps and pieces that bind what their factors bind. -/
theorem bound_run? {pieces pieces' : Array Piece} {steps : List Step}
    (h : ∀ node ∈ b.nodes, b.NodeBinds node) (hpieces : ∀ p ∈ pieces, b.Binds [p])
    (hsteps : ∀ step ∈ steps, step.isMatch = true)
    (hrun : b.run? pieces steps = some (pieces', b')) :
    (∀ node ∈ b'.nodes, b'.NodeBinds node) ∧ ∀ p ∈ pieces', b'.Binds [p] := by
  induction steps generalizing b pieces with
  | nil =>
    obtain ⟨rfl, rfl⟩ := Prod.mk.inj (Option.some.inj hrun)
    exact ⟨h, hpieces⟩
  | cons step steps ih =>
    obtain ⟨hstep, hsteps⟩ := List.forall_mem_cons.mp hsteps
    rw [run?] at hrun
    split at hrun
    · cases hrun
    · next p b₁ hr =>
      have hbound := bound_step? h hpieces hstep hr
      refine ih hbound.nodes (fun q hq => ?_) hsteps hrun
      rcases Array.mem_push.mp hq with hq | rfl
      · exact hbound.grows.binds (hpieces q hq)
      · exact hbound.binds

/-! ## What is named -/

/-- Steps that bind what their factors bind have the arguments of these. -/
theorem NodeBinds.binders (h : b.NodeBinds node) : node.expr.binders = bindingFactors [node.expr] := by
  rcases h.form with ⟨es, hes⟩ | hsingle
  · rw [hes, bindingFactors_seq]
    rfl
  · exact ParsingExpr.binders_of_single hsingle

/-- A step that is not looked at for names stands for one expression. -/
theorem NodeBinds.single_of_shown_eq_false (h : b.NodeBinds node) (hshown : node.shown = false) :
    node.expr.Single := by
  refine h.form.resolve_left ?_
  rintro ⟨es, hes⟩
  have hdisplay (s : String) (hs : s.toList.head? ≠ some '(') : node.display ≠ s := by
    rintro rfl
    rw [h.display, hes] at hs
    exact hs (by simp [ParsingExpr.of, ParsingExpr.display, Shape.display])
  simp [TraceNode.shown, TraceNode.isWhitespace, TraceNode.isBlackhole, TraceNode.rule?,
    ParsingExpr.rule?, hes, ParsingExpr.of, ParsingExpr.shape, h.kept,
    hdisplay "space" (by decide), hdisplay "empty" (by decide)] at hshown

end TraceBuilder

/-- The arguments of a rule that the grammar lacks are those of its body, if that is shown. -/
theorem Trace.signature_of_children_eq {t : Trace} {id body : TraceId} {node step : TraceNode}
    {rule : String} (hnode : t.node? id = some node) (hrule : node.rule? = some rule)
    (hgrammar : t.grammar.body? rule = none) (hchildren : node.children = [body])
    (hbody : t.node? body = some step) :
    (t.matchedBody? id).elim [] ParsingExpr.signature =
      if step.shown then step.expr.signature else [] := by
  have hshown : t.shownChildren node = if step.shown then [step] else [] := by
    simp only [shownChildren, hchildren, List.filterMap_cons, hbody, List.filterMap_nil,
      List.filter_cons, List.filter_nil]
    rfl
  have hmatched : t.matchedBody? id = (t.shownChildren node).head?.map TraceNode.expr := by
    simp only [matchedBody?, hnode, hrule, hgrammar, Option.bind_eq_bind, Option.bind_some]
  rw [hmatched, hshown]
  split <;> rfl

/-- Factors that all have nodes have these nodes in their places. -/
theorem map_some_filterMap_cst {factors : List TraceNode} (h : ∀ f ∈ factors, f.cst ≠ none) :
    (factors.filterMap TraceNode.cst).map some = factors.map TraceNode.cst := by
  rw [List.map_filterMap_some_eq_filter_map_isSome, List.filter_eq_self]
  refine List.forall_mem_map.mpr fun f hf => ?_
  exact Option.isSome_iff_ne_none.mpr (h f hf)

theorem length_filterMap_cst {factors : List TraceNode} :
    factors.length = (factors.filterMap TraceNode.cst).length ↔ ∀ f ∈ factors, f.cst ≠ none := by
  rw [eq_comm, List.filterMap_length_eq_length]
  simp only [Option.isSome_iff_ne_none]

namespace TraceBuilder

variable {b : TraceBuilder} {node : TraceNode}

/-- **Names and children of a rule.** A trace is finished after a program that records a match. Each
step with a node of the syntax tree that applies a rule which the grammar lacks has one step below it,
its body. The nodes below its own are those of the factors of the body, and a factor without a node
skips white space. If the body is shown, there is a name for each factor, and so there are as many
names as children exactly when no factor is without a node; then the child at each place is that of
the factor for which the name is. If it is not shown, there are no names, and as many children exactly
when the body has no node either. -/
theorem length_signature_of_finish {input : String} {grammar : Grammar} {steps : List Step}
    {pieces : Array Piece} {root : Piece} {t : Trace} {id : TraceId} {rule : String} {c : CstId}
    (hsteps : ∀ step ∈ steps, step.isMatch = true)
    (hrun : run? ⟨input, grammar, #[], #[]⟩ #[] steps = some (pieces, b))
    (hfinish : b.finish root = .ok t) (hnode : t.node? id = some node)
    (hrule : node.rule? = some rule) (hcst : node.cst = some c)
    (hgrammar : t.grammar.body? rule = none) :
    let names := (t.matchedBody? id).elim [] ParsingExpr.signature
    let children := t.cstChildren c
    ∃ body step factors, node.children = [body] ∧ t.node? body = some step ∧
      Factors t.nodes [body] factors ∧ (∀ f ∈ factors, f.cst = none → f.isWhitespace = true) ∧
      children = factors.filterMap TraceNode.cst ∧
      (step.shown = true →
        names.map Parameter.display = factors.map (fun f => f.expr.display) ∧
        (names.length = children.length ↔ ∀ f ∈ factors, f.cst ≠ none) ∧
        (names.length = children.length → children.map some = factors.map TraceNode.cst)) ∧
      (step.shown = false → names = [] ∧ (names.length = children.length ↔ step.cst = none)) := by
  intro names children
  have hbinds : ∀ node ∈ b.nodes, b.NodeBinds node :=
    (bound_run? (by simp) (by simp) hsteps hrun).1
  obtain ⟨-, rfl⟩ := Trace.validated_eq_ok.mp hfinish
  obtain ⟨p, ⟨factors, hfactors, hbindings, hexprs⟩, hchildren, tree, htree, hbelow⟩ :=
    (hbinds node (Array.mem_of_getElem? hnode)).applies c hcst (hrule ▸ rfl)
  obtain ⟨step, hstep⟩ := hfactors.found p.node List.mem_cons_self
  have hstepBinds := hbinds step (Array.mem_of_getElem? hstep)
  rw [exprsOf_singleton hstep, ← hstepBinds.binders] at hexprs
  rw [List.flatMap_singleton] at hbindings
  have hkids : children = factors.filterMap TraceNode.cst := by
    simp only [children, Trace.cstChildren, Trace.cstNode?, toTrace, htree, Option.map_some,
      Option.getD_some, hbelow, hbindings]
  have hnames : names = if step.shown then step.expr.signature else [] :=
    Trace.signature_of_children_eq hnode hrule hgrammar hchildren hstep
  refine ⟨p.node, step, factors, hchildren, hstep, hfactors, fun f hf => ?_, hkids,
    fun hshown => ?_, fun hshown => ?_⟩
  · obtain ⟨hmem, hsingle⟩ := hfactors.mem f hf
    exact (hbinds f hmem).skipped hsingle
  · rw [if_pos hshown] at hnames
    have hlength : names.length = children.length ↔ ∀ f ∈ factors, f.cst ≠ none := by
      rw [hnames, hkids, ParsingExpr.length_signature, hexprs, List.length_map, length_filterMap_cst]
    refine ⟨?_, hlength, fun h => hkids ▸ map_some_filterMap_cst (hlength.mp h)⟩
    rw [hnames, ParsingExpr.map_display_signature, hexprs, List.map_map]
    rfl
  · rw [if_neg (by simp [hshown])] at hnames
    have hself := hfactors.eq_singleton hstep (hstepBinds.single_of_shown_eq_false hshown)
    refine ⟨hnames, ?_⟩
    rw [hnames, hkids, hself]
    cases hcst : step.cst <;> simp [hcst]

/-- What a program builds over an input, without rules. -/
def recorded (input : String) (steps : List Step) : Array Piece × TraceBuilder :=
  (run? ⟨input, .empty, #[], #[]⟩ #[] steps).getD (#[], .start input)

/-- A program in order makes what it builds, and each of its pieces finishes the trace. -/
theorem finish_recorded {count : Nat} {input : String} {steps : List Step}
    (h : InOrder count ⟨input, .empty, #[], #[]⟩ #[] steps) :
    run? ⟨input, .empty, #[], #[]⟩ #[] steps = some (recorded input steps) ∧
      ∀ p ∈ (recorded input steps).1,
        (recorded input steps).2.finish p = .ok ((recorded input steps).2.toTrace p) := by
  obtain ⟨pieces, b, hrun, -, hfinish⟩ := finish_of_inOrder h
  have hrecorded : recorded input steps = (pieces, b) := by rw [recorded, hrun, Option.getD_some]
  rw [hrecorded]
  exact ⟨hrun, hfinish⟩

/-- A word: a letter, a sequence with another letter in it, and no more of them. -/
def wordProgram : List Step :=
  [.range 0 'a' 'z', .apply "Letter" 0, .terminal 1 "b", .seq [2],
    .iter .star (.of (.apply "Letter")) 2 [], .seq [1, 3, 4], .apply "Word" 5]

/-- The trace of a word. -/
def word : Trace :=
  (recorded "ab" wordProgram).2.toTrace ⟨⟨6⟩, [⟨4⟩]⟩

/-- The word has three arguments, and each is named for the factor whose node is in its place. -/
theorem length_signature_of_finish_word :
    (recorded "ab" wordProgram).2.finish ⟨⟨6⟩, [⟨4⟩]⟩ = .ok word ∧
      word.cstChildren ⟨4⟩ = [⟨1⟩, ⟨2⟩, ⟨3⟩] ∧
      ∃ factors, Factors word.nodes [⟨5⟩] factors ∧
        factors.map TraceNode.cst = [some ⟨1⟩, some ⟨2⟩, some ⟨3⟩] ∧
        ((word.matchedBody? ⟨6⟩).elim [] ParsingExpr.signature).map Parameter.display =
          factors.map fun f => f.expr.display := by
  have horder : InOrder 7 ⟨"ab", .empty, #[], #[]⟩ #[] wordProgram := by decide +kernel
  obtain ⟨hrun, hfinish⟩ := finish_recorded horder
  have hword : (recorded "ab" wordProgram).2.finish ⟨⟨6⟩, [⟨4⟩]⟩ = .ok word :=
    hfinish ⟨⟨6⟩, [⟨4⟩]⟩ (by decide +kernel)
  have hkids : word.cstChildren ⟨4⟩ = [⟨1⟩, ⟨2⟩, ⟨3⟩] := by decide +kernel
  obtain ⟨node, hnode⟩ := Option.isSome_iff_exists.mp
    (by decide +kernel : (word.node? ⟨6⟩).isSome = true)
  have hfacts : ((word.node? ⟨6⟩).bind TraceNode.rule?, (word.node? ⟨6⟩).bind TraceNode.cst,
      word.children ⟨6⟩) = (some "Word", some ⟨4⟩, [⟨5⟩]) := by decide +kernel
  simp only [hnode, Trace.children, Option.bind_some, Option.map_some, Option.getD_some,
    Prod.mk.injEq] at hfacts
  obtain ⟨hrule, hcst, hchildren⟩ := hfacts
  obtain ⟨body, step, factors, hbody, hstep, hfactors, hskipped, -, hshown, -⟩ :=
    length_signature_of_finish (by decide) hrun hword hnode hrule hcst rfl
  obtain rfl : ⟨5⟩ = body := List.singleton_inj.mp (hchildren.symm.trans hbody)
  have hvisible : step.shown = true := by
    have hshown : (word.node? ⟨5⟩).all TraceNode.shown = true := by decide +kernel
    rwa [hstep] at hshown
  obtain ⟨hdisplay, hlength, hplaces⟩ := hshown hvisible
  have hlinked : ∀ f ∈ factors, f.cst ≠ none := by
    -- no step of the word skips white space
    have hsolid : ∀ node ∈ word.nodes, node.isWhitespace = false := by decide +kernel
    intro f hf hnone
    exact Bool.noConfusion ((hskipped f hf hnone).symm.trans (hsolid f (hfactors.mem f hf).1))
  refine ⟨hword, hkids, factors, hfactors, ?_, hdisplay⟩
  exact (hplaces (hlength.mpr hlinked)).symm.trans (congrArg (List.map some) hkids)

/-- White space before a letter. -/
def spacedProgram : List Step :=
  [.spaces ⟨0, 1⟩, .terminal 1 "x", .seq [0, 1], .apply "Word" 2]

/-- The trace of a word behind white space. -/
def spaced : Trace :=
  (recorded " x" spacedProgram).2.toTrace ⟨⟨3⟩, [⟨1⟩]⟩

/-- White space that was skipped has a name: a rule whose node has one child has two arguments, and the
first of them, which is for the white space, has the value of the other. -/
theorem signature_spaced :
    (∀ step ∈ spacedProgram, step.isMatch = true) ∧
      run? ⟨" x", .empty, #[], #[]⟩ #[] spacedProgram = some (recorded " x" spacedProgram) ∧
      (recorded " x" spacedProgram).2.finish ⟨⟨3⟩, [⟨1⟩]⟩ = .ok spaced ∧
      (spaced.node? ⟨3⟩).bind TraceNode.rule? = some "Word" ∧ spaced.grammar.body? "Word" = none ∧
      (spaced.node? ⟨3⟩).bind TraceNode.cst = some ⟨1⟩ ∧ spaced.cstChildren ⟨1⟩ = [⟨0⟩] ∧
      ((spaced.matchedBody? ⟨3⟩).elim [] ParsingExpr.signature).map Parameter.display =
        ["spaces", "\"x\""] := by
  have horder : InOrder 4 ⟨" x", .empty, #[], #[]⟩ #[] spacedProgram := by decide +kernel
  obtain ⟨hrun, hfinish⟩ := finish_recorded horder
  have hbody : spaced.matchedBody? ⟨3⟩ =
      some (.of (.seq [.of (.apply "spaces"), .of (.terminal "x")])) := rfl
  refine ⟨by decide, hrun, hfinish ⟨⟨3⟩, [⟨1⟩]⟩ (by decide +kernel), by decide +kernel, rfl,
    by decide +kernel, by decide +kernel, ?_⟩
  rw [hbody, Option.elim_some, ParsingExpr.map_display_signature]
  simp only [ParsingExpr.binders, ParsingExpr.shape, ParsingExpr.of, bindingFactors]
  decide +kernel

end TraceBuilder

end ParseActions
