import ParseActions.Proofs.Body.Block
import ParseActions.Proofs.Body.Node
import ParseActions.Proofs.Token.Order

/-!
# The places of nodes

The span of a node runs from the first of the tokens that it is read from to the last. So it covers
the spans of its parts, which stand one after another as their tokens do.

## Main definitions

* `Node.WellPlaced`: the span of a node is in order and covers those of its parts
* `Laid`: nodes that stand one after another between two positions, well placed all the way down

## Main results

* `Derives.laid`: the nodes of what is derived are laid out between the tokens around
* `Parsed.wellPlaced_of_below`: the nodes of bodies are well placed
-/

namespace ParseActions

open Parse
open ParseActions.Span (Before)
open Token (InOrder stopFrom Newlines Separators)

/-! ## Nodes between positions -/

namespace Node

/-- The span of a node is proper and covers those of its parts, which start one after another. -/
structure WellPlaced (n : Node) : Prop where
  proper : n.span.Proper
  covers : ∀ m ∈ n.parts, n.span.Covers m.span
  order : n.parts.Pairwise fun m m' => Before m.span.start m'.span.start

/-- A node is well placed, and so are all nodes below it. -/
def Sound (n : Node) : Prop :=
  ∀ m, n.Below m → m.WellPlaced

theorem Sound.proper {n : Node} (h : n.Sound) : n.span.Proper :=
  (h n .refl).proper

end Node

/-- Nodes stand one after another between two positions, well placed all the way down. -/
def Laid : Nat × Nat → List Node → Nat × Nat → Prop
  | lo, [], hi => Before lo hi
  | lo, n :: ns, hi => Before lo n.span.start ∧ n.Sound ∧ Laid n.span.stop ns hi

namespace Laid

variable {lo lo' mid hi hi' : Nat × Nat} {n : Node} {ns ms : List Node}

theorem mono_left (h : Laid lo ns hi) (hlo : Before lo' lo) : Laid lo' ns hi := by
  cases ns with
  | nil => exact hlo.trans h
  | cons n ns => exact ⟨hlo.trans h.1, h.2⟩

theorem append (h : Laid lo ns mid) (h' : Laid mid ms hi) : Laid lo (ns ++ ms) hi := by
  induction ns generalizing lo with
  | nil => exact h'.mono_left h
  | cons n ns ih => exact ⟨h.1, h.2.1, ih h.2.2⟩

theorem mono_right (h : Laid lo ns hi) (hhi : Before hi hi') : Laid lo ns hi' := by
  have hnone : Laid hi [] hi' := hhi
  simpa using h.append hnone

/-- More room on both sides. -/
theorem widen (h : Laid lo ns hi) (hlo : Before lo' lo) (hhi : Before hi hi') : Laid lo' ns hi' :=
  (h.mono_left hlo).mono_right hhi

theorem before (h : Laid lo ns hi) : Before lo hi := by
  induction ns generalizing lo with
  | nil => exact h
  | cons n ns ih => exact h.1.trans (h.2.1.proper.order.trans (ih h.2.2))

/-- The nodes stand between the positions. -/
theorem between (h : Laid lo ns hi) (hn : n ∈ ns) :
    Before lo n.span.start ∧ Before n.span.stop hi ∧ n.Sound := by
  induction ns generalizing lo with
  | nil => cases hn
  | cons m ns ih =>
    rcases List.mem_cons.mp hn with rfl | hn
    · exact ⟨h.1, h.2.2.before, h.2.1⟩
    · obtain ⟨hstart, hrest⟩ := ih h.2.2 hn
      exact ⟨h.1.trans (h.2.1.proper.order.trans hstart), hrest⟩

/-- The nodes start one after another. -/
theorem pairwise (h : Laid lo ns hi) :
    ns.Pairwise fun m m' => Before m.span.start m'.span.start := by
  induction ns generalizing lo with
  | nil => exact .nil
  | cons n ns ih =>
    refine .cons (fun m hm => ?_) (ih h.2.2)
    exact h.2.1.proper.order.trans (h.2.2.between hm).1

/-- **A node is well placed** all the way down if its parts are laid out within it. -/
theorem sound (h : Laid n.span.start n.parts n.span.stop) (hproper : n.span.Proper) : n.Sound := by
  intro m hm
  rcases hm.cases_head with rfl | ⟨part, hpart, hm⟩
  · exact ⟨hproper, fun m hm => ⟨(h.between hm).1, (h.between hm).2.1⟩, h.pairwise⟩
  · exact (h.between hpart).2.2 m hm

theorem singleton (hlo : Before lo n.span.start) (h : n.Sound) (hhi : Before n.span.stop hi) :
    Laid lo [n] hi :=
  ⟨hlo, h, hhi⟩

end Laid

/-! ## Nodes of tokens -/

section

variable {lo p : Nat × Nat} {n : Node} {t : Token} {ts : List Token} {s u : Span}

/-- A node of one token. -/
theorem laid_token (h : InOrder p [t]) (hspan : n.span = t.span) (hparts : n.parts = []) :
    Laid p [n] t.span.stop := by
  obtain ⟨hstart, hproper, -⟩ := h
  rw [← hspan] at hstart hproper ⊢
  have hlaid : Laid n.span.start n.parts n.span.stop := by rw [hparts]; exact hproper.order
  exact .singleton hstart (hlaid.sound hproper) (.refl _)

theorem laid_ident (text : String) (ht : Before p t.span.start) (hproper : t.span.Proper) :
    Laid p [.ident ⟨text, t.span⟩] t.span.stop :=
  laid_token ⟨ht, hproper, trivial⟩ rfl rfl

/-- A node over two spans in order, with its parts between them. -/
theorem sound_of_merge (hspan : n.span = s.merge u) (hs : s.Proper)
    (hstart : Before s.start u.start) (hparts : Laid s.start n.parts u.stop) (hstop : Before s.stop u.stop) :
    n.Sound ∧ n.span.start = s.start ∧ n.span.stop = u.stop := by
  have hstart' : n.span.start = s.start := by rw [hspan, Span.start_merge hstart]
  have hstop' : n.span.stop = u.stop := by rw [hspan, Span.stop_merge hstop]
  refine ⟨?_, hstart', hstop'⟩
  have horder : Before n.span.start n.span.stop := by
    rw [hstart', hstop']
    exact hs.order.trans hstop
  rw [← hstart', ← hstop'] at hparts
  exact hparts.sound (hs.of_start_eq hstart' horder)

theorem stop_lastSpan (s : Span) (ts : List Token) : (lastSpan s ts).stop = stopFrom s.stop ts := by
  induction ts generalizing s with
  | nil => rfl
  | cons t ts ih => rw [lastSpan_cons, ih, Token.stopFrom_cons]

theorem lastSpan_append_of_ne_nil {us : List Token} (h : us ≠ []) :
    lastSpan s (ts ++ us) = lastSpan s us := by
  rw [lastSpan_append, lastSpan_congr h]

theorem start_lastSpan (hs : s.Proper) (h : InOrder s.stop ts) :
    Before s.start (lastSpan s ts).start := by
  induction ts generalizing s with
  | nil => exact .refl _
  | cons t ts ih =>
    rw [lastSpan_cons]
    exact hs.order.trans (h.1.trans (ih h.2.1 h.2.2))

/-- A node from a token to the last of those after it, with its parts between them. -/
theorem laid_segment (hspan : n.span = t.span.merge (lastSpan t.span ts))
    (h : InOrder p (t :: ts)) (hlo : Before lo p)
    (hparts : Laid t.span.stop n.parts (stopFrom t.span.stop ts)) :
    Laid lo [n] (stopFrom p (t :: ts)) := by
  obtain ⟨hstart, hproper, hts⟩ := h
  have hstop : (lastSpan t.span ts).stop = stopFrom t.span.stop ts := stop_lastSpan t.span ts
  obtain ⟨hsound, hstart', hstop'⟩ := sound_of_merge hspan hproper (start_lastSpan hproper hts)
    (hstop.symm ▸ hparts.mono_left hproper.order) (hstop.symm ▸ hts.before_stopFrom)
  refine .singleton ?_ hsound ?_
  · rw [hstart']
    exact hlo.trans hstart
  · rw [hstop', hstop]
    exact .refl _

/-- A node from one laid before to a span after it, with the rest of its parts between them. -/
theorem laid_merge {left : Node} {rest : List Node} (hleft : Laid lo [left] p)
    (hrest : Laid p rest u.stop) (hu : Before p u.start) (hspan : n.span = left.span.merge u)
    (hparts : n.parts = left :: rest) : Laid lo [n] u.stop := by
  obtain ⟨hlo, hsound, hstop⟩ := hleft
  have horder : Before left.span.start left.span.stop := hsound.proper.order
  have hlaid : Laid left.span.start n.parts u.stop := by
    rw [hparts]
    exact ⟨.refl _, hsound, hrest.mono_left hstop⟩
  obtain ⟨hn, hstart', hstop'⟩ := sound_of_merge hspan hsound.proper
    (horder.trans (hstop.trans hu)) hlaid (hstop.trans hrest.before)
  exact .singleton (hstart' ▸ hlo) hn (hstop' ▸ .refl _)

/-- More room for the tokens after those that the nodes are read from. -/
theorem Laid.mono_tokens {ns : List Node} {us : List Token} (h : Laid lo ns (stopFrom p ts))
    (hus : InOrder (stopFrom p ts) us) : Laid lo ns (stopFrom p (ts ++ us)) := by
  rw [Token.stopFrom_append]
  exact h.mono_right hus.before_stopFrom

/-- A node with the span of its only part. -/
theorem laid_same {m : Node} {q : Nat × Nat} (h : Laid lo [m] q) (hspan : n.span = m.span)
    (hparts : n.parts = [m]) : Laid lo [n] q := by
  obtain ⟨hlo, hsound, hhi⟩ := h
  have hlaid : Laid n.span.start n.parts n.span.stop := by
    rw [hspan, hparts]
    exact ⟨.refl _, hsound, .refl _⟩
  rw [← hspan] at hlo hhi
  exact .singleton hlo (hlaid.sound (hspan ▸ hsound.proper)) hhi

end

/-! ## Derivations -/

namespace Derives

variable {g : Phrase} {d : Nat} {ts : List Token} {a : g.Tree} {lo p : Nat × Nat}

theorem startWith_block {b : Block} (h : Derives .block d ts b) :
    Token.StartWith (· == .symbol .leftBrace) ts :=
  h.opens

theorem startWith_expression {e : Expr} (h : Derives .expression d ts e) :
    Token.StartWith Token.Kind.startsExpression ts :=
  h.opens

theorem laid_index {index : Option Ident} (h : DerivesIndex ts index) (horder : InOrder p ts) :
    Laid p (index.toList.map .ident) (stopFrom p ts) := by
  cases h with
  | nothing => exact .refl p
  | name =>
    obtain ⟨hcomma, hproper, horder⟩ := horder
    exact (laid_ident _ horder.1 horder.2.1).mono_left (hcomma.trans hproper.order)

theorem laid_apply {left right : Expr} {q : Nat × Nat} (o : Operator)
    (hleft : Laid lo [.expr left] p) (hright : Laid p [.expr right] q) :
    Laid lo [.expr (o.apply left right)] q := by
  obtain ⟨hstart, hsound, hstop⟩ := hright
  have hmerge : Laid lo [.expr (o.apply left right)] right.span.stop := by
    refine laid_merge hleft (.singleton hstart hsound (.refl _)) hstart ?_ ?_
    · cases o <;> rfl
    · cases o <;> rfl
  exact hmerge.mono_right hstop

open Token in
/-- **The nodes of what is derived** stand between the tokens before and after the segment. -/
theorem laid (h : Derives g d ts a) (hlo : Laid lo g.onto p) (horder : InOrder p ts) :
    Laid lo (g.nodes a) (stopFrom p ts) := by
  -- `lo` stands before the nodes that the phrase goes on from, `p` before its own tokens; in each
  -- case the order of the tokens gives the positions between which the parts are laid
  induction h generalizing lo p with
  | expression _ ih | uncompared _ ih | plain _ ih => exact ih hlo horder
  | chain _ _ _ ih ih' | suffixed _ _ ih ih' =>
    rw [inOrder_append] at horder
    rw [stopFrom_append]
    exact ih' (ih hlo horder.1) horder.2
  | tailNil | suffixNil => exact hlo
  | tailCons _ _ _ _ _ ih ih' =>
    simp only [inOrder_cons, inOrder_append, stopFrom_cons, stopFrom_append] at horder ⊢
    obtain ⟨ht, hproper, hnewlines, hts, hus⟩ := horder
    have hbefore := ht.trans (hproper.order.trans hnewlines.before_stopFrom)
    exact ih' (laid_apply _ (Laid.mono_right hlo hbefore) (ih (Span.Before.refl _) hts)) hus
  | compared _ _ _ _ _ ih ih' =>
    simp only [inOrder_cons, inOrder_append, stopFrom_cons, stopFrom_append] at horder ⊢
    obtain ⟨hts, ht, hproper, hnewlines, hus⟩ := horder
    have hbefore := ht.trans (hproper.order.trans hnewlines.before_stopFrom)
    exact laid_apply _ ((ih hlo hts).mono_right hbefore) (ih' (Span.Before.refl _) hus)
  | @unary op _ t _ e _ _ ih =>
    obtain ⟨ht, hproper, hts⟩ := horder
    obtain ⟨hstart, hsound, hstop⟩ := ih (Before.refl _) hts
    have hbefore := hproper.order.trans hstart
    obtain ⟨hn, hstart', hstop'⟩ := sound_of_merge
      (n := .expr (.unary (t.span.merge e.span) op e)) rfl hproper hbefore
      (Laid.singleton hbefore hsound (.refl _)) (hstart.trans hsound.proper.order)
    exact .singleton (hstart' ▸ hlo.trans ht) hn (hstop' ▸ hstop)
  | member _ _ _ ih =>
    simp only [inOrder_cons, stopFrom_cons] at horder ⊢
    obtain ⟨hdot, hproper, ht, hproper', hus⟩ := horder
    refine ih (laid_merge (Laid.mono_right hlo (hdot.trans hproper.order)) ?_ ht rfl rfl) hus
    exact laid_ident _ ht hproper'
  | @call _ _ _ _ _ _ _ name _ _ _ _ _ _ _ _ _ ih ih' =>
    simp only [inOrder_cons, inOrder_append, stopFrom_cons, stopFrom_append] at horder ⊢
    obtain ⟨hdot, hproper, ht, hproper', hopening, hproper'', hts, hclosing, hproper₃, hus⟩ :=
      horder
    have hargs := (ih (Before.refl _) hts).widen (hopening.trans hproper''.order)
      (hclosing.trans hproper₃.order)
    have hbefore := hproper'.order.trans
      (hopening.trans (hproper''.order.trans (hts.before_stopFrom.trans hclosing)))
    -- the span of a call goes up to its closing bracket, past the arguments
    refine ih' (laid_merge (Laid.mono_right hlo (hdot.trans hproper.order))
      ((laid_ident name ht hproper').append hargs)
      (ht.trans hbefore) rfl ?_) hus
    rw [Node.parts, Expr.parts, ← nodes_expressions]
    rfl
  | index _ _ _ _ _ _ ih ih' =>
    simp only [inOrder_cons, inOrder_append, stopFrom_cons, stopFrom_append] at horder ⊢
    obtain ⟨hopening, hproper, hnewlines, hts, hnewlines', hclosing, hproper', hus⟩ := horder
    have hbefore := hopening.trans (hproper.order.trans hnewlines.before_stopFrom)
    have hafter := hnewlines'.before_stopFrom.trans (hclosing.trans hproper'.order)
    have hkey := (ih (Before.refl _) hts).mono_right hafter
    have hu := hts.before_stopFrom.trans (hnewlines'.before_stopFrom.trans hclosing)
    exact ih' (laid_merge (Laid.mono_right hlo hbefore) hkey hu rfl rfl) hus
  | number | string | true | false | nil | ident => exact (laid_token horder rfl rfl).mono_left hlo
  | template _ _ ih =>
    refine laid_segment rfl horder hlo ?_
    have hparts := ih (Before.refl _) horder.2.2
    rwa [Node.parts, Expr.parts, List.flatMap_append, nodes_textPart, List.nil_append]
  | list _ _ _ ih =>
    have hts := inOrder_append.mp horder.2.2
    refine laid_segment (by simp [Node.span, Expr.span]) horder hlo ?_
    rw [Node.parts, Expr.parts, ← nodes_expressions]
    exact (ih (Before.refl _) hts.1).mono_tokens hts.2
  | record _ _ _ ih =>
    have hts := inOrder_append.mp horder.2.2
    refine laid_segment (by simp [Node.span, Expr.span]) horder hlo ?_
    exact (ih (Before.refl _) hts.1).mono_tokens hts.2
  | paren _ _ _ _ _ ih =>
    have hts := horder.2.2
    rw [inOrder_append, inOrder_append] at hts
    obtain ⟨hnewlines, hts, hafter⟩ := hts
    refine laid_segment (by simp [Node.span, Expr.span]) horder hlo ?_
    rw [stopFrom_append]
    exact ((ih (Before.refl _) hts).mono_tokens hafter).mono_left hnewlines.before_stopFrom
  | choice _ ih => exact laid_same (ih hlo horder) rfl rfl
  | field _ _ _ _ ih =>
    simp only [inOrder_cons, inOrder_append, stopFrom_cons, stopFrom_append] at horder ⊢
    obtain ⟨ht, hproper, hcolon, hproper', hnewlines, hts⟩ := horder
    have hbefore := hcolon.trans (hproper'.order.trans hnewlines.before_stopFrom)
    exact ((laid_ident _ ht hproper).mono_left hlo).append
      ((ih (Before.refl _) hts).mono_left hbefore)
  | itemsLast _ _ ih =>
    rw [inOrder_append] at horder
    have hitem := (ih hlo horder.1).mono_tokens horder.2
    simpa [Phrase.nodes] using hitem
  | itemsTrailing _ _ _ _ ih =>
    rw [inOrder_append] at horder
    have hitem := (ih hlo horder.1).mono_tokens horder.2
    simpa [Phrase.nodes] using hitem
  | itemsCons _ _ _ _ _ ih ih' =>
    simp only [inOrder_cons, inOrder_append, stopFrom_cons, stopFrom_append] at horder ⊢
    obtain ⟨hts, hnewlines, hcomma, hproper, hnewlines', hus⟩ := horder
    have hbefore := hnewlines.before_stopFrom.trans
      (hcomma.trans (hproper.order.trans hnewlines'.before_stopFrom))
    exact (ih hlo hts).append ((ih' (Before.refl _) hus).mono_left hbefore)
  | listingNil => exact hlo.trans horder.before_stopFrom
  | listing _ _ ih =>
    rw [inOrder_append] at horder
    rw [stopFrom_append]
    exact (ih (Before.refl _) horder.2).mono_left (hlo.trans horder.1.before_stopFrom)
  | holesLast _ _ _ _ ih =>
    obtain ⟨hopening, hproper, hts⟩ := horder
    rw [inOrder_append] at hts
    rw [nodes_last_hole]
    have hbefore := hlo.trans (hopening.trans hproper.order)
    exact ((ih (Before.refl _) hts.1).mono_tokens hts.2).mono_left hbefore
  | holesCons _ _ _ _ _ ih ih' =>
    simp only [inOrder_cons, inOrder_append, stopFrom_cons, stopFrom_append] at horder ⊢
    obtain ⟨hopening, hproper, hts, hclosing, hproper', ht, hproper'', hus⟩ := horder
    have hbefore := hlo.trans (hopening.trans hproper.order)
    have hbetween := hclosing.trans (hproper'.order.trans (ht.trans hproper''.order))
    have hparts := (ih' (Before.refl _) hus).mono_left hbetween
    rw [nodes_hole]
    exact ((ih (Before.refl _) hts).mono_left hbefore).append hparts
  | @branches _ t ts us vs _ _ _ _ _ hthen _ ih ih' ih'' =>
    have hne : us ++ vs ≠ [] := List.append_ne_nil_of_left_ne_nil (startWith_block hthen).ne_nil vs
    have horder' := horder.2.2
    rw [inOrder_append, inOrder_append] at horder'
    obtain ⟨hts, hus, hvs⟩ := horder'
    have hparts := (ih (Before.refl _) hts).append
      ((ih' (Before.refl _) hus).append (ih'' (Before.refl _) hvs))
    refine laid_segment ?_ horder hlo ?_
    -- a block has tokens, so the last one after the condition is not one of the condition
    · rw [lastSpan_append_of_ne_nil hne]
      rfl
    · rw [stopFrom_append, stopFrom_append]
      exact hparts
  | nothing => exact hlo
  | elseIf _ _ _ ih | elseBlock _ _ _ ih =>
    simp only [inOrder_cons, inOrder_append, stopFrom_cons, stopFrom_append] at horder ⊢
    obtain ⟨hnewlines, ht, hproper, hts⟩ := horder
    exact (ih (Before.refl _) hts).mono_left
      (hlo.trans (hnewlines.before_stopFrom.trans (ht.trans hproper.order)))
  | block _ _ _ _ ih =>
    have horder' := horder.2.2
    rw [inOrder_append, inOrder_append] at horder'
    obtain ⟨hseparators, hts, hclosing⟩ := horder'
    refine laid_segment (by simp [Node.span, Block.span]) horder hlo ?_
    rw [stopFrom_append]
    exact ((ih (Before.refl _) hts).mono_tokens hclosing).mono_left hseparators.before_stopFrom
  | statementsNil => exact hlo
  | statementsCons _ _ _ _ ih ih' =>
    rw [inOrder_append, inOrder_append] at horder
    obtain ⟨hts, hseparators, hus⟩ := horder
    rw [stopFrom_append, stopFrom_append]
    exact (ih hlo hts).append ((ih' (Before.refl _) hus).mono_left hseparators.before_stopFrom)
  | @bind _ t u equal newlines ts _ _ _ _ _ _ h ih =>
    have hne : ts ≠ [] := (startWith_expression h).ne_nil
    have horder' := horder.2.2
    simp only [inOrder_cons, inOrder_append] at horder'
    obtain ⟨hu, hproper, hequal, hproper', hnewlines, hts⟩ := horder'
    have hbefore := hequal.trans (hproper'.order.trans hnewlines.before_stopFrom)
    refine laid_segment ?_ horder hlo ?_
    · rw [lastSpan_cons, lastSpan_cons, lastSpan_append_of_ne_nil hne,
        lastSpan_congr hne equal.span t.span]
      rfl
    · rw [stopFrom_cons, stopFrom_cons, stopFrom_append]
      exact (laid_ident _ hu hproper).append ((ih (Before.refl _) hts).mono_left hbefore)
  | conditional _ ih | evaluation _ _ ih => exact laid_same (ih hlo horder) rfl rfl
  | @loop _ t u inWord is ts us _ _ _ _ _ _ hindex _ _ hbody ih ih' =>
    have hne : us ≠ [] := (startWith_block hbody).ne_nil
    have horder' := horder.2.2
    simp only [inOrder_cons, inOrder_append] at horder'
    obtain ⟨hu, hproper, his, hin, hproper', hts, hus⟩ := horder'
    have hitems := (ih (Before.refl _) hts).mono_left (hin.trans hproper'.order)
    refine laid_segment ?_ horder hlo ?_
    · rw [lastSpan_cons, lastSpan_append_of_ne_nil (List.cons_ne_nil _ _), lastSpan_cons,
        lastSpan_append_of_ne_nil hne, lastSpan_congr hne inWord.span t.span]
      rfl
    · rw [stopFrom_cons, stopFrom_append, stopFrom_cons, stopFrom_append]
      exact (laid_ident _ hu hproper).append
        ((laid_index hindex his).append (hitems.append (ih' (Before.refl _) hus)))
  | leave => exact laid_segment rfl horder hlo (.refl _)
  | leaveWith _ _ ih | throwing _ _ ih =>
    exact laid_segment rfl horder hlo (ih (Before.refl _) horder.2.2)
  | assertion _ _ _ ih =>
    have hts := (inOrder_append.mp horder.2.2)
    exact laid_segment rfl horder hlo ((ih (Before.refl _) hts.1).mono_tokens hts.2)

end Derives

/-! ## Bodies -/

namespace Parsed

open Token

variable {source : SourceText} {tokens : List Token} {parsed : Parsed} {body : Body}

theorem exists_inOrder_content (h : InOrder (1, 1) tokens) (hstream : IsStream tokens) :
    ∃ p, InOrder p (content tokens) := by
  obtain ⟨inner, last, rfl, -, -⟩ := hstream
  obtain ⟨before, after, hinner, -, -⟩ := exists_content inner last
  generalize content (inner ++ [last]) = ts at hinner ⊢
  subst hinner
  rw [inOrder_append, inOrder_append, inOrder_append] at h
  exact ⟨_, h.1.2.1⟩

/-- The braces around the tokens of a text stand at its start and at its end. -/
theorem inOrder_content_inBraces (h : InOrder (1, 1) tokens) (hstream : IsStream tokens) :
    InOrder (1, 1) (content (inBraces tokens)) := by
  obtain ⟨inner, last, rfl, -, -⟩ := hstream
  rw [inOrder_append] at h
  rw [content_inBraces, inOrder_cons, inOrder_append]
  exact ⟨.refl _, ⟨Nat.le_refl _, Nat.le_refl _, .refl _⟩, h.1, h.2.1, h.2.2.1, trivial⟩

/-- A node whose tokens are in order is well placed all the way down. -/
theorem sound_of_derives {g : Phrase} {d : Nat} {ts : List Token} {a : g.Tree} {n : Node}
    {p : Nat × Nat} (h : Derives g d ts a) (horder : InOrder p ts) (honto : g.onto = [])
    (hnodes : g.nodes a = [n]) : n.Sound := by
  have hlaid := h.laid (by rw [honto]; exact Before.refl p) horder
  rw [hnodes] at hlaid
  exact hlaid.2.1

/-- A body whose tokens are in order is well placed all the way down. -/
theorem sound_of_derived {ts : List Token} {p : Nat × Nat} (h : Derived ts body)
    (horder : InOrder p ts) : body.node.Sound := by
  cases body with
  | expr e =>
    have he : Derives .expression maxDepth ts e := h
    exact sound_of_derives he horder rfl rfl
  | block b =>
    have hb : Derives .block maxDepth ts b := h
    exact sound_of_derives hb horder rfl rfl

/-- **The nodes of bodies are well placed**: whichever way a text is read, the span of every node
starts at a line and a column from one and does not end before it starts, covers the spans of the
parts of the node, and these start one after another. -/
theorem wellPlaced_of_below (source : SourceText) :
    ∀ parsed ∈ [expression source, block source, statements source],
      ∀ body, parsed.body = some body → ∀ n, body.node.Below n → n.WellPlaced := by
  intro parsed hparsed body hbody
  have hstream : IsStream (Token.lex source).1 := isStream_lex source
  have horder : _ → InOrder (1, 1) (Token.lex source).1 := inOrder_lex
  obtain ⟨hclean, hderived⟩ := derived_of_body source parsed hparsed body hbody
  generalize Token.lex source = lexed at hstream horder hclean hderived
  -- the tokens of the text themselves, or those with braces around them
  rcases hderived with h | h
  · obtain ⟨p, hcontent⟩ := exists_inOrder_content (horder hclean) hstream
    exact sound_of_derived h hcontent
  · exact sound_of_derived h (inOrder_content_inBraces (horder hclean) hstream)

/-- Statements over two lines, with a list and a string with a hole. -/
theorem wellPlaced_of_below_lines :
    let source : SourceText := ⟨"Num.value", "let a = [1,\n 2]\nreturn \"$\x7ba\x7d\""⟩
    ∃ body, (statements source).body = some body ∧ ∀ n, body.node.Below n → n.WellPlaced := by
  intro source
  have hread : (statements source).body.isSome := by decide +kernel
  obtain ⟨body, hbody⟩ := Option.isSome_iff_exists.mp hread
  have hstatements : statements source ∈ [expression source, block source, statements source] :=
    List.mem_cons_of_mem _ (List.mem_cons_of_mem _ List.mem_cons_self)
  exact ⟨body, hbody, wellPlaced_of_below source _ hstatements body hbody⟩

end Parsed

end ParseActions
