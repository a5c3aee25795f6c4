import ParseActions.Proofs.Json.Decoding
import ParseActions.Proofs.Json.Printing
import ParseActions.Proofs.Keyed
import ParseActions.Proofs.Trace.Validity
import ParseActions.Trace.Json
import Mathlib.Tactic.MkIffOfInductiveProp

/-!
# Traces are read back from their documents

The document of a trace leaves out what is missing: the place of an expression, a replacement, a
link to the syntax tree. Reading restores it, so that every trace is read back from its document as
it was, and a valid trace from any text of the document. A document is read whole when it is nested
less than 128 levels deep. Places in the arenas are 32-bit words, offsets in a text are 64-bit words,
and the bodies of a grammar are in the order of their rules.

## Main definitions

* `Shape.parts`: the expressions that an expression is made of
* `ParsingExpr.Fits`, `TraceNode.Fits`, `CstNode.Fits`, `Grammar.Fits`, `Trace.Fits`: the numbers fit
  their words

## Main results

* `ParsingExpr.readsBack`, `TraceNode.readsBack`, `CstNode.readsBack`, `Grammar.readsBack`: the parts
  of a trace are read back
* `Trace.exact_toJson`: the document of a trace is written without loss
* `Trace.ofText_toJson`: a valid trace is read back from its document, and from any text of it
-/

namespace ParseActions

open Json

/-! ## The range of numbers -/

/-- The offsets fit 64-bit words. -/
def Interval.Fits (i : Interval) : Prop :=
  i.start ≤ 0xFFFFFFFFFFFFFFFF ∧ i.stop ≤ 0xFFFFFFFFFFFFFFFF

/-- The expressions that an expression is made of. -/
def Shape.parts : Shape → List ParsingExpr
  | .seq parts | .alt parts => parts
  | .iter inner _ | .not inner | .lookahead inner | .lex inner => [inner]
  | .apply _ | .terminal _ | .range .. | .category _ => []

/-- The places of an expression and of its parts fit. -/
inductive ParsingExpr.Fits : ParsingExpr → Prop where
  | mk {shape : Shape} {source : Option Interval} (parts : ∀ e ∈ shape.parts, e.Fits)
    (place : ∀ i ∈ source, i.Fits) : Fits (.mk shape source)

theorem ParsingExpr.fits_mk {shape : Shape} {source : Option Interval} :
    (mk shape source).Fits ↔ (∀ e ∈ shape.parts, e.Fits) ∧ ∀ i ∈ source, i.Fits :=
  ⟨fun ⟨hparts, hplace⟩ => ⟨hparts, hplace⟩, fun ⟨hparts, hplace⟩ => ⟨hparts, hplace⟩⟩

/-- The bodies are in the order of their rules, and their places fit. -/
structure Grammar.Fits (grammar : Grammar) : Prop where
  sorted : Keyed.Sorted grammar.bodies
  bodies : ∀ body ∈ grammar.bodies, body.2.Fits

/-- The place fits a 32-bit word. -/
def TraceId.Fits (id : TraceId) : Prop :=
  id.index ≤ 0xFFFFFFFF

/-- The place fits a 32-bit word. -/
def CstId.Fits (id : CstId) : Prop :=
  id.index ≤ 0xFFFFFFFF

/-- The numbers of a node of the syntax tree fit. -/
@[mk_iff]
structure CstNode.Fits (node : CstNode) : Prop where
  interval : node.interval.Fits
  children : ∀ id ∈ node.children, id.Fits

/-- The numbers of a step fit. -/
@[mk_iff]
structure TraceNode.Fits (node : TraceNode) : Prop where
  expr : node.expr.Fits
  interval : node.interval.Fits
  children : ∀ id ∈ node.children, id.Fits
  replacedBy : ∀ id ∈ node.replacedBy, id.Fits
  cst : ∀ id ∈ node.cst, id.Fits

/-- The numbers of a trace fit. -/
structure Trace.Fits (t : Trace) : Prop where
  grammar : t.grammar.Fits
  nodes : ∀ node ∈ t.nodes, node.Fits
  cst : ∀ node ∈ t.cst, node.Fits
  root : t.root.Fits

/-! ## Places and intervals -/

theorem Interval.readsBack {i : Interval} (h : i.Fits) :
    ReadsBack Interval.ofJson? Interval.toJson i := by
  have hstart : nat? (nat i.start) = some i.start := readsBack_nat h.1
  have hstop : nat? (nat i.stop) = some i.stop := readsBack_nat h.2
  simp [ReadsBack, Interval.ofJson?, Interval.toJson, members?, member?, Member.required, hstart,
    hstop]

theorem TraceId.readsBack {id : TraceId} (h : id.Fits) :
    ReadsBack TraceId.ofJson? TraceId.toJson id :=
  (readsBack_nat h).map TraceId.mk

theorem CstId.readsBack {id : CstId} (h : id.Fits) : ReadsBack CstId.ofJson? CstId.toJson id :=
  (readsBack_nat h).map CstId.mk

/-! ## Parsing expressions -/

/-- A repetition is read back from its mark. -/
theorem Repetition.ofSymbol?_symbol (op : Repetition) : ofSymbol? op.symbol = some op := by
  cases op <;> rfl

theorem exprsToJson_eq_map (es : List ParsingExpr) :
    exprsToJson es = es.map ParsingExpr.toJson := by
  induction es with
  | nil => rfl
  | cons e es ih => rw [exprsToJson, ih, List.map_cons]

mutual

/-- Every part of the document of an expression stands for a value. -/
theorem ParsingExpr.isUsable_toJson : (e : ParsingExpr) → e.toJson.isUsable
  | .mk shape none => by
    simp [ParsingExpr.toJson, optionalField, isUsable, fieldsUsable, shape.isUsable_toJson]
  | .mk shape (some place) => by
    simp [ParsingExpr.toJson, optionalField, Interval.toJson, nat, isUsable, fieldsUsable,
      shape.isUsable_toJson]

theorem Shape.isUsable_toJson : (shape : Shape) → shape.toJson.isUsable
  | .seq parts | .alt parts => by
    simp [Shape.toJson, isUsable, fieldsUsable, areUsable_exprsToJson parts]
  | .iter inner _ | .not inner | .lookahead inner | .lex inner => by
    simp [Shape.toJson, isUsable, fieldsUsable, inner.isUsable_toJson]
  | .apply _ | .terminal _ | .range .. | .category _ => rfl

theorem areUsable_exprsToJson : (es : List ParsingExpr) → areUsable (exprsToJson es)
  | [] => rfl
  | e :: es => by simp [exprsToJson, areUsable, e.isUsable_toJson, areUsable_exprsToJson es]

end

/-- Expressions are read back together. -/
theorem readsBack_exprs {inner? : Decoder ParsingExpr} {es : List ParsingExpr}
    (h : ∀ e ∈ es, ReadsBack inner? ParsingExpr.toJson e) :
    ReadsBack (list? inner?) (fun es => .array (exprsToJson es)) es := by
  rw [ReadsBack, exprsToJson_eq_map]
  exact readsBack_list h

/-- **The form of an expression** is read back where its parts are. -/
theorem Shape.readsBack {isPart : Bool} {inner? : Decoder ParsingExpr} {shape : Shape}
    (h : ∀ e ∈ shape.parts, ReadsBack inner? ParsingExpr.toJson e) :
    ReadsBack (Shape.ofJson? isPart inner?) Shape.toJson shape := by
  rw [ReadsBack, Shape.ofJson?, guard, if_pos shape.isUsable_toJson]
  -- what is left of each form is the decoder of its parts, applied to their documents
  cases shape with
  | apply rule => rfl
  | seq parts => exact (readsBack_exprs h).map seq
  | alt parts => exact (readsBack_exprs h).map alt
  | iter inner op =>
    have hinner : inner? inner.toJson = some inner := h inner List.mem_cons_self
    change (do return iter (← inner? inner.toJson) (← Repetition.ofSymbol? op.symbol)) = some _
    rw [hinner, op.ofSymbol?_symbol]
    rfl
  | terminal text => rfl
  | range first last =>
    change (do return range (← char? (string first.toString)) (← char? (string last.toString))) =
      some _
    rw [readsBack_char first, readsBack_char last]
    rfl
  | category name => rfl
  | not inner => exact (h inner List.mem_cons_self).map Shape.not
  | lookahead inner => exact (h inner List.mem_cons_self).map lookahead
  | lex inner => exact (h inner List.mem_cons_self).map lex

/-- The parts of an expression are nested less than its form. -/
theorem Shape.height_part_lt {shape : Shape} {e : ParsingExpr} (h : e ∈ shape.parts) :
    e.toJson.height < shape.toJson.height := by
  cases shape with
  | seq parts | alt parts =>
    have hitem : e.toJson ∈ exprsToJson parts :=
      exprsToJson_eq_map parts ▸ List.mem_map_of_mem h
    exact (height_lt_array hitem).trans
      (height_lt_object (List.mem_cons_of_mem _ List.mem_cons_self))
  | iter inner | not inner | lookahead inner | lex inner =>
    obtain rfl := List.mem_singleton.mp h
    exact height_lt_object (List.mem_cons_of_mem _ List.mem_cons_self)
  | apply | terminal | range | category => cases h

/-- An expression within the levels is read back, whether or not it is a part of another. -/
theorem ParsingExpr.readsBack_within {levels : Nat} {e : ParsingExpr} (hfits : e.Fits)
    (hlevels : e.toJson.height ≤ levels) (isPart : Bool) :
    ReadsBack (ofJsonWithin? levels isPart) toJson e := by
  -- the decoder has a level less for the parts, which are nested less
  induction levels generalizing e isPart with
  | zero => cases e; cases hlevels
  | succ levels ih =>
    obtain ⟨hparts, hplace⟩ := hfits
    rename_i shape source
    have hshape : Shape.ofJson? isPart (ofJsonWithin? levels true) shape.toJson = some shape := by
      refine Shape.readsBack fun e he => ih (hparts e he) ?_ true
      have hpart := Shape.height_part_lt he
      have hform : shape.toJson.height < (mk shape source).toJson.height :=
        height_lt_object List.mem_cons_self
      omega
    have hsource := Member.orElse_ofOption Interval.toJson nofun
      fun i hi => Interval.readsBack (hplace i hi)
    have hmembers : members? ["kind", "source"] (mk shape source).toJson =
        some [.present shape.toJson, .ofOption Interval.toJson source] := by
      cases source <;> rfl
    rw [ReadsBack, ofJsonWithin?, hmembers]
    simp only [Option.bind_eq_bind, Option.bind_some, Member.required, hshape, hsource]
    rfl

/-- **A parsing expression** is read back within the limit. -/
theorem ParsingExpr.readsBack {e : ParsingExpr} (hfits : e.Fits)
    (hlevels : e.toJson.height ≤ maxLevels) : ReadsBack ofJson? toJson e :=
  readsBack_within hfits hlevels false

/-- **A grammar** is read back within the limit. -/
theorem Grammar.readsBack {grammar : Grammar} (hfits : grammar.Fits)
    (hlevels : ∀ body ∈ grammar.bodies, body.2.toJson.height ≤ maxLevels) :
    ReadsBack ofJson? toJson grammar := by
  have hbodies := readsBack_entries fun body hbody =>
    ParsingExpr.readsBack (hfits.bodies body hbody) (hlevels body hbody)
  change (do return ⟨Keyed.ofList (← entries? ParsingExpr.ofJson? (.object _))⟩) = some grammar
  rw [hbodies]
  simp [Keyed.ofList_eq_self hfits.sorted]

/-- The bodies of a grammar are nested less than the grammar. -/
theorem Grammar.height_body_lt {grammar : Grammar} {body : String × ParsingExpr}
    (h : body ∈ grammar.bodies) : body.2.toJson.height < grammar.toJson.height :=
  (height_lt_object (List.mem_map.mpr ⟨body, h, rfl⟩)).trans (height_lt_object List.mem_cons_self)

/-! ## Nodes -/

theorem CstKind.readsBack (kind : CstKind) : ReadsBack ofJson? toJson kind := by
  cases kind <;> rfl

/-- **A node of the syntax tree** is read back. -/
theorem CstNode.readsBack {node : CstNode} (hfits : node.Fits) : ReadsBack ofJson? toJson node := by
  have hkind : CstKind.ofJson? node.kind.toJson = some node.kind := node.kind.readsBack
  have hinterval : Interval.ofJson? node.interval.toJson = some node.interval :=
    Interval.readsBack hfits.interval
  have hchildren : list? CstId.ofJson? (list CstId.toJson node.children) = some node.children :=
    readsBack_list fun id hid => CstId.readsBack (hfits.children id hid)
  simp [ReadsBack, ofJson?, toJson, members?, member?, Member.required, Member.orElse, hkind,
    hinterval, hchildren]

/-- **A step** is read back where its expression is within the limit. -/
theorem TraceNode.readsBack {node : TraceNode} (hfits : node.Fits)
    (hlevels : node.expr.toJson.height ≤ maxLevels) : ReadsBack ofJson? toJson node := by
  have hexpr : ParsingExpr.ofJson? node.expr.toJson = some node.expr :=
    ParsingExpr.readsBack hfits.expr hlevels
  have hinterval : Interval.ofJson? node.interval.toJson = some node.interval :=
    Interval.readsBack hfits.interval
  have hchildren : list? TraceId.ofJson? (list TraceId.toJson node.children) = some node.children :=
    readsBack_list fun id hid => TraceId.readsBack (hfits.children id hid)
  have hreplaced := Member.orElse_ofOption TraceId.toJson nofun
    fun id hid => TraceId.readsBack (hfits.replacedBy id hid)
  have hcst := Member.orElse_ofOption CstId.toJson nofun
    fun id hid => CstId.readsBack (hfits.cst id hid)
  have hmembers : members?
      ["expr", "interval", "children", "succeeded", "replaced_by", "display_string", "cst"]
      node.toJson =
      some [.present node.expr.toJson, .present node.interval.toJson,
        .present (list TraceId.toJson node.children), .present (.bool node.succeeded),
        .ofOption TraceId.toJson node.replacedBy, .present (.string node.display),
        .ofOption CstId.toJson node.cst] := by
    rw [toJson]
    cases node.replacedBy <;> cases node.cst <;> rfl
  rw [ReadsBack, ofJson?, hmembers]
  simp only [Option.bind_eq_bind, Option.bind_some, Member.required, hexpr, hinterval, hreplaced,
    hcst]
  rw [Member.orElse, hchildren]
  rfl

/-! ## Exact documents -/

theorem Interval.exact_toJson {i : Interval} (h : i.Fits) : i.toJson.Exact :=
  .object (by simp [Exact.nat h.1, Exact.nat h.2])

theorem TraceId.exact_toJson {id : TraceId} (h : id.Fits) : id.toJson.Exact :=
  .nat (Nat.le_trans h (by decide))

theorem CstId.exact_toJson {id : CstId} (h : id.Fits) : id.toJson.Exact :=
  .nat (Nat.le_trans h (by decide))

/-- The document of a form is exact where those of its parts are. -/
theorem Shape.exact_toJson {shape : Shape} (h : ∀ e ∈ shape.parts, e.toJson.Exact) :
    shape.toJson.Exact := by
  cases shape with
  | seq parts | alt parts =>
    have hparts : (array (exprsToJson parts)).Exact := by
      rw [exprsToJson_eq_map]
      exact .list h
    exact .object (by simp [Exact.string, hparts])
  | iter inner | not inner | lookahead inner | lex inner =>
    have hinner : inner.toJson.Exact := h inner List.mem_cons_self
    exact .object (by simp [Exact.string, hinner])
  | apply | terminal | range | category => exact .object (by simp [Exact.string])

theorem ParsingExpr.exact_toJson {e : ParsingExpr} (hfits : e.Fits) : e.toJson.Exact := by
  induction hfits with
  | mk parts place ih =>
    refine .object (List.forall_mem_cons.mpr ⟨Shape.exact_toJson ih, ?_⟩)
    exact .optionalField fun i hi => Interval.exact_toJson (place i hi)

theorem CstKind.exact_toJson (kind : CstKind) : kind.toJson.Exact := by
  cases kind <;> exact .object (by simp [Exact.string])

theorem CstNode.exact_toJson {node : CstNode} (hfits : node.Fits) : node.toJson.Exact := by
  have hinterval := Interval.exact_toJson hfits.interval
  have hchildren : (list CstId.toJson node.children).Exact :=
    .list fun id hid => CstId.exact_toJson (hfits.children id hid)
  exact .object (by simp [node.kind.exact_toJson, hinterval, hchildren])

theorem TraceNode.exact_toJson {node : TraceNode} (hfits : node.Fits) : node.toJson.Exact := by
  have hexpr := ParsingExpr.exact_toJson hfits.expr
  have hinterval := Interval.exact_toJson hfits.interval
  have hchildren : (list TraceId.toJson node.children).Exact :=
    .list fun id hid => TraceId.exact_toJson (hfits.children id hid)
  refine .object (List.forall_mem_append.mpr ⟨List.forall_mem_append.mpr
    ⟨List.forall_mem_append.mpr ⟨?first, ?replaced⟩, ?display⟩, ?cst⟩)
  case first => simp [Exact.bool, hexpr, hinterval, hchildren]
  case replaced => exact .optionalField fun id hid => TraceId.exact_toJson (hfits.replacedBy id hid)
  case display => simp [Exact.string]
  case cst => exact .optionalField fun id hid => CstId.exact_toJson (hfits.cst id hid)

theorem Grammar.exact_toJson {grammar : Grammar} (hfits : grammar.Fits) :
    grammar.toJson.Exact := by
  refine .object (List.forall_mem_singleton.mpr (.object (List.forall_mem_map.mpr ?_)))
  exact fun body hbody => ParsingExpr.exact_toJson (hfits.bodies body hbody)

/-- **The document of a trace** is written without loss. -/
theorem Trace.exact_toJson {t : Trace} (hfits : t.Fits) : t.toJson.Exact := by
  have hgrammar := Grammar.exact_toJson hfits.grammar
  have hnodes : (list TraceNode.toJson t.nodes.toList).Exact :=
    .list fun node hnode => TraceNode.exact_toJson (hfits.nodes node (Array.mem_toList_iff.mp hnode))
  have hcst : (list CstNode.toJson t.cst.toList).Exact :=
    .list fun node hnode => CstNode.exact_toJson (hfits.cst node (Array.mem_toList_iff.mp hnode))
  have hroot := TraceId.exact_toJson hfits.root
  exact .object (by simp [Exact.string, hgrammar, hnodes, hcst, hroot])

/-! ## Traces -/

/-- **A trace** is read back within the limit. -/
theorem Trace.readsBack {t : Trace} (hfits : t.Fits) (hlevels : t.toJson.height ≤ maxLevels) :
    ReadsBack ofJson? toJson t := by
  have hgrammar : Grammar.ofJson? t.grammar.toJson = some t.grammar := by
    refine Grammar.readsBack hfits.grammar fun body hbody => ?_
    have hbody := Grammar.height_body_lt hbody
    have hfield : t.grammar.toJson.height < t.toJson.height :=
      height_lt_object (List.mem_cons_of_mem _ List.mem_cons_self)
    omega
  have hnodes : list? TraceNode.ofJson? (list TraceNode.toJson t.nodes.toList) =
      some t.nodes.toList := by
    refine readsBack_list fun node hnode => ?_
    refine TraceNode.readsBack (hfits.nodes node (Array.mem_toList_iff.mp hnode)) ?_
    have hexpr : node.expr.toJson.height < node.toJson.height :=
      height_lt_object List.mem_cons_self
    have hitem : node.toJson.height < (list TraceNode.toJson t.nodes.toList).height :=
      height_lt_array (List.mem_map_of_mem hnode)
    have hfield : (list TraceNode.toJson t.nodes.toList).height < t.toJson.height :=
      height_lt_object (List.mem_cons_of_mem _ (List.mem_cons_of_mem _ List.mem_cons_self))
    omega
  have hcst : list? CstNode.ofJson? (list CstNode.toJson t.cst.toList) = some t.cst.toList :=
    readsBack_list fun node hnode =>
      CstNode.readsBack (hfits.cst node (Array.mem_toList_iff.mp hnode))
  have hroot : TraceId.ofJson? t.root.toJson = some t.root := TraceId.readsBack hfits.root
  change (do
    let grammar ← Grammar.ofJson? t.grammar.toJson
    let nodes ← list? TraceNode.ofJson? (list TraceNode.toJson t.nodes.toList)
    let cst ← list? CstNode.ofJson? (list CstNode.toJson t.cst.toList)
    let root ← TraceId.ofJson? t.root.toJson
    return Trace.mk t.input grammar nodes.toArray cst.toArray root) = some t
  rw [hgrammar, hnodes, hcst, hroot]
  rfl

/-- **A valid trace is read back** from its document, from the text that the document is written as,
and from every other text of the document. -/
theorem Trace.ofText_toJson {t : Trace} (hvalid : t.validate = .ok ()) (hfits : t.Fits)
    (hlevels : t.toJson.height < 128) :
    ofJson? t.toJson = some t ∧ ofText t.toJson.render = .ok t ∧
      ∀ text, readDeep? text = some t.toJson → ofText text = .ok t := by
  have hback : ofJson? t.toJson = some t := readsBack hfits (Nat.le_of_lt_succ hlevels)
  have htexts : ∀ text, readDeep? text = some t.toJson → ofText text = .ok t := by
    intro text htext
    simp only [ofText, read?_eq_of_readDeep? htext (Nat.le_of_lt_succ hlevels), ofJson, hback]
    exact validated_eq_ok.mpr ⟨hvalid, rfl⟩
  exact ⟨hback, htexts _ (readDeep?_render (exact_toJson hfits)), htexts⟩

/-- The match of a rule `Word` against a letter, with an attempt that was replaced. All forms of
expressions are in its grammar. -/
def Trace.wordMatch : Trace where
  input := "é"
  grammar := ⟨[
    ("Word", .mk (.seq [.of (.lex (.of (.apply "letter"))), .of (.iter (.of (.apply "letter")) .star),
      .of (.not (.of (.terminal "\n"))), .of (.lookahead (.of (.apply "end")))]) (some ⟨7, 40⟩)),
    ("letter", .mk (.alt [.of (.range 'a' 'z'), .of (.category "Ll")]) (some ⟨50, 60⟩))]⟩
  nodes := #[⟨.of (.apply "Word"), ⟨0, 2⟩, [⟨1⟩, ⟨2⟩], true, none, "Word", some ⟨0⟩⟩,
    ⟨.of (.range 'a' 'z'), ⟨0, 0⟩, [], false, some ⟨2⟩, "'a'..'z'", none⟩,
    ⟨.mk (.category "Ll") (some ⟨56, 60⟩), ⟨0, 2⟩, [], true, none, "\\p", some ⟨1⟩⟩]
  cst := #[⟨.nonterminal "Word", ⟨0, 2⟩, [⟨1⟩, ⟨2⟩]⟩, ⟨.terminal, ⟨0, 2⟩, []⟩, ⟨.iter, ⟨2, 2⟩, []⟩]
  root := ⟨0⟩

theorem Trace.validate_wordMatch : wordMatch.validate = .ok () := by
  have hchecks : wordMatch.validate = wordMatch.checkAcyclic := rfl
  rw [hchecks, checkAcyclic_eq_ok]
  constructor
  · cbv
  · cbv

theorem Trace.fits_wordMatch : wordMatch.Fits where
  grammar := {
    sorted := List.pairwise_pair.mpr (by decide)
    bodies := by simp [wordMatch, ParsingExpr.fits_mk, Shape.parts, ParsingExpr.of, Interval.Fits] }
  nodes := by
    simp [wordMatch, TraceNode.fits_iff, ParsingExpr.fits_mk, Shape.parts, ParsingExpr.of,
      Interval.Fits, TraceId.Fits, CstId.Fits]
  cst := by simp [wordMatch, CstNode.fits_iff, Interval.Fits, CstId.Fits]
  root := by simp [wordMatch, TraceId.Fits]

/-- The trace is read back, also from its text. -/
theorem Trace.ofText_wordMatch :
    wordMatch.validate = .ok () ∧ wordMatch.Fits ∧ wordMatch.toJson.height < 128 ∧
      ofJson? wordMatch.toJson = some wordMatch ∧ ofText wordMatch.toJson.render = .ok wordMatch ∧
      ∀ text, readDeep? text = some wordMatch.toJson → ofText text = .ok wordMatch := by
  have hheight : wordMatch.toJson.height < 128 := by decide
  exact ⟨validate_wordMatch, fits_wordMatch, hheight,
    ofText_toJson validate_wordMatch fits_wordMatch hheight⟩

end ParseActions
