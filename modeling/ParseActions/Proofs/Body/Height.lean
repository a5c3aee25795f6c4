import Mathlib.Data.List.Chain
import ParseActions.Proofs.Body.Nesting
import ParseActions.Proofs.Token.Symbols

/-!
# The height of bodies

Only some of the steps from a node to its parts are counted when a body is read. So the height of a
body is bounded together with the number of other steps that come one below another, and not without
it: a sum is read however many addends it has, and each of its operators stands below the next.

## Main definitions

* `Node.HeightAtMost`: a bound on the height of a node, in expressions, statements and blocks
* `Node.JoinedAtMost`: a bound on the steps that are not counted and come one below another

## Main results

* `Parsed.heightAtMost_of_joinedAtMost`: the height of bodies where such steps are bounded
* `Parsed.not_exists_heightAtMost`: without that there is no bound
-/

namespace ParseActions

open Parse

/-! ## Heights -/

namespace Node

variable {n m : Node} {d k r h : Nat} {path : List Node}

/-- Whether a node counts for the height: expressions, statements and blocks do. -/
def weighs : Node → Bool
  | expr _ | stmt _ | block _ => true
  | ident _ | conditional _ => false

/-- No path down from a node has more than `h` expressions, statements and blocks on it. -/
def HeightAtMost (h : Nat) (n : Node) : Prop :=
  ∀ path : List Node, (n :: path).IsChain (fun m part => part ∈ m.parts) →
    (n :: path).countP weighs ≤ h

/-- No more than `r` steps that are not counted come one below another from a node on. -/
def RunsAtMost (r : Nat) (n : Node) : Prop :=
  ∀ run : List Node, (n :: run).IsChain (fun m part => part ∈ m.joined) → run.length ≤ r

/-- No more than `k` steps that are not counted come one below another anywhere in the tree. -/
def JoinedAtMost (k : Nat) (n : Node) : Prop :=
  ∀ m, n.Below m → m.RunsAtMost k

theorem Fits.nested (h : n.Fits (d + 1)) (hm : m ∈ n.nested) : m.Fits d :=
  fun c l hreach => Nat.lt_of_succ_lt_succ (h (c + 1) l (.nested hm hreach))

theorem Fits.joined (h : n.Fits d) (hm : m ∈ n.joined) : m.Fits d :=
  fun c l hreach => h c l (.joined hm hreach)

theorem RunsAtMost.joined (h : n.RunsAtMost r) (hm : m ∈ n.joined) :
    ∃ r', r = r' + 1 ∧ m.RunsAtMost r' := by
  have hpos : 0 < r := h [m] (List.isChain_cons_cons.mpr ⟨hm, List.isChain_singleton m⟩)
  obtain ⟨r', rfl⟩ := Nat.exists_eq_add_one.mpr hpos
  refine ⟨r', rfl, fun run hrun => ?_⟩
  exact Nat.le_of_succ_le_succ (h (m :: run) (List.isChain_cons_cons.mpr ⟨hm, hrun⟩))

theorem RunsAtMost.of_joined (h : ∀ m ∈ n.joined, m.RunsAtMost r) : n.RunsAtMost (r + 1) := by
  intro run hrun
  cases run with
  | nil => exact Nat.zero_le _
  | cons m run =>
    obtain ⟨hm, hrun⟩ := List.isChain_cons_cons.mp hrun
    exact Nat.succ_le_succ (h m hm run hrun)

theorem RunsAtMost.mono (h : n.RunsAtMost r) (hr : r ≤ k) : n.RunsAtMost k :=
  fun run hrun => Nat.le_trans (h run hrun) hr

theorem JoinedAtMost.of_parts (h : n.RunsAtMost k) (hparts : ∀ m ∈ n.parts, m.JoinedAtMost k) :
    n.JoinedAtMost k := by
  intro m hm
  rcases hm.cases_head with rfl | ⟨part, hpart, hm⟩
  · exact h
  · exact hparts part hpart m hm

theorem JoinedAtMost.part (h : n.JoinedAtMost k) (hm : m ∈ n.parts) : m.JoinedAtMost k :=
  fun l hl => h l (.head hm hl)

/-- **The length of a path**: after each counted step there is room for a run of the others. -/
theorem length_le_of_fits (hfits : n.Fits (d + 1)) (hruns : n.RunsAtMost r)
    (hjoined : n.JoinedAtMost k) (hpath : (n :: path).IsChain fun m part => part ∈ m.parts) :
    path.length ≤ r + d * (k + 1) := by
  induction path generalizing n d r with
  | nil => exact Nat.zero_le _
  | cons m path ih =>
    obtain ⟨hm, hpath⟩ := List.isChain_cons_cons.mp hpath
    have hbelow : m.JoinedAtMost k := hjoined.part hm
    rcases mem_parts_iff.mp hm with hm | hm
    · -- below a counted step there are fewer of them, and a run of the others starts afresh
      have hfewer : m.Fits d := hfits.nested hm
      obtain ⟨d, rfl⟩ := Nat.exists_eq_add_one.mpr hfewer.pos
      have hlength := ih hfewer (hbelow m .refl) hbelow hpath
      rw [Nat.succ_mul, List.length_cons]
      omega
    · -- the run gets shorter
      obtain ⟨r, rfl, hshorter⟩ := hruns.joined hm
      have hlength := ih (hfits.joined hm) hshorter hbelow hpath
      rw [List.length_cons]
      omega

theorem heightAtMost_of_fits (hfits : n.Fits (d + 1)) (hjoined : n.JoinedAtMost k) :
    n.HeightAtMost ((d + 1) * (k + 1)) := by
  intro path hpath
  have hlength := length_le_of_fits hfits (hjoined n .refl) hjoined hpath
  have hcount : (n :: path).countP weighs ≤ path.length + 1 := List.countP_le_length
  rw [Nat.succ_mul]
  omega

end Node

/-! ## Sums of any length -/

namespace Node

variable {n m : Node} {h r : Nat}

/-- The height of a part is less. -/
theorem HeightAtMost.part (hn : n.HeightAtMost h) (hweighs : n.weighs = true) (hm : m ∈ n.parts) :
    ∃ h', h = h' + 1 ∧ m.HeightAtMost h' := by
  have hpath : ∀ path : List Node, (m :: path).IsChain (fun m part => part ∈ m.parts) →
      (m :: path).countP weighs + 1 ≤ h := by
    intro path hpath
    have hcount := hn (m :: path) (List.isChain_cons_cons.mpr ⟨hm, hpath⟩)
    rwa [List.countP_cons_of_pos hweighs] at hcount
  have hpos : 0 < h := Nat.lt_of_lt_of_le (Nat.succ_pos _) (hpath [] (List.isChain_singleton m))
  obtain ⟨h', rfl⟩ := Nat.exists_eq_add_one.mpr hpos
  exact ⟨h', rfl, fun path hchain => Nat.le_of_succ_le_succ (hpath path hchain)⟩

theorem HeightAtMost.pos (hn : n.HeightAtMost h) (hweighs : n.weighs = true) : 0 < h := by
  have hcount := hn [] (List.isChain_singleton n)
  rw [List.countP_cons_of_pos hweighs] at hcount
  exact Nat.lt_of_lt_of_le (Nat.succ_pos _) hcount

theorem runsAtMost_emptyList (span : Span) : (Node.expr (.list span [])).RunsAtMost r := by
  intro run hrun
  cases run with
  | nil => exact Nat.zero_le r
  | cons m run => cases (List.isChain_cons_cons.mp hrun).1

theorem joinedAtMost_emptyList (span : Span) : (Node.expr (.list span [])).JoinedAtMost r :=
  .of_parts (runsAtMost_emptyList span) (List.forall_mem_nil _)

end Node

namespace Token

/-- The tokens of an empty list, with their characters. -/
def emptyList : List (Char × Kind) :=
  [('[', .symbol .leftBracket), (']', .symbol .rightBracket)]

/-- The tokens of `n` empty lists that are added, with their characters. -/
def addends : (n : Nat) → List (Char × Kind)
  | 0 => []
  | n + 1 => ('+', .symbol .plus) :: emptyList ++ addends n

theorem marks_emptyList : ∀ m ∈ emptyList, Scanner.Marks m.1 m.2 :=
  List.forall_mem_cons.mpr ⟨Scanner.marks_leftBracket,
    List.forall_mem_singleton.mpr Scanner.marks_rightBracket⟩

theorem marks_addends (n : Nat) : ∀ m ∈ addends n, Scanner.Marks m.1 m.2 := by
  induction n with
  | zero => exact List.forall_mem_nil _
  | succ n ih =>
    rw [addends, List.forall_mem_append, List.forall_mem_cons]
    exact ⟨⟨Scanner.marks_plus, marks_emptyList⟩, ih⟩

end Token

/-- The sum of an empty list and `n` more of them. -/
def SourceText.sumOfLists (n : Nat) : SourceText :=
  ⟨"Sum.value", String.ofList ((Token.emptyList ++ Token.addends n).map Prod.fst)⟩

namespace Derives

variable {d : Nat} {ts : List Token} {e left : Expr}

/-- An expression without operators is a product. -/
theorem product_of_primary (h : Derives (.level .primary) d ts e) :
    Derives (.level .product) d ts e := by
  have hsuffixed : Derives (.level .suffixed) d (ts ++ []) e := .suffixed h .suffixNil
  have hproduct : Derives (.level .product) d (ts ++ [] ++ []) e :=
    .chain trivial (.plain hsuffixed) .tailNil
  simpa using hproduct

theorem expression_of_sum (h : Derives (.level .sum) d ts e) :
    Derives .expression (d + 1) ts e := by
  have hcoalesced : Derives (.level .coalescing) d (ts ++ []) e :=
    .chain trivial (.uncompared h) .tailNil
  have hconjunction : Derives (.level .conjunction) d (ts ++ [] ++ []) e :=
    .chain trivial hcoalesced .tailNil
  have hdisjunction : Derives (.level .disjunction) d (ts ++ [] ++ [] ++ []) e :=
    .chain trivial hconjunction .tailNil
  simpa using expression hdisjunction

theorem emptyList {opening closing : Token} (hopening : opening.kind = .symbol .leftBracket)
    (hclosing : closing.kind = .symbol .rightBracket) :
    Derives (.level .product) d [opening, closing]
      (.list (opening.span.merge closing.span) []) :=
  product_of_primary (.list hopening (.listingNil (List.forall_mem_nil _)) hclosing)

/-- A sum is higher by its addends than what they are added to, and no addend is counted. -/
theorem exists_of_addends (n : Nat) (left : Expr)
    (hts : ts.map Token.kind = (Token.addends n).map Prod.snd) :
    ∃ e : Expr, Derives (.tail .sum left) d ts e ∧
      (∀ h, (Node.expr e).HeightAtMost h → ∃ h', h = h' + n ∧ (Node.expr left).HeightAtMost h') ∧
      ∀ r, (Node.expr left).RunsAtMost r → (Node.expr left).JoinedAtMost (r + n) →
        (Node.expr e).JoinedAtMost (r + n) := by
  induction n generalizing ts left with
  | zero =>
    obtain rfl : ts = [] := List.map_eq_nil_iff.mp hts
    exact ⟨left, .tailNil, fun h hleft => ⟨h, rfl, hleft⟩, fun r _ hleft => hleft⟩
  | succ n ih =>
    obtain ⟨plus, ts, rfl, hplus, hts⟩ := List.map_eq_cons_iff.mp hts
    obtain ⟨opening, ts, rfl, hopening, hts⟩ := List.map_eq_cons_iff.mp hts
    obtain ⟨closing, ts, rfl, hclosing, hts⟩ := List.map_eq_cons_iff.mp hts
    let right : Expr := .list (opening.span.merge closing.span) []
    let sum : Expr := (Operator.binary .add).apply left right
    -- the addends that follow are put on top of this sum
    obtain ⟨e, he, hheight, hjoined⟩ := ih sum hts
    have htail : Derives (.tail .sum left) d (plus :: ([] ++ ([opening, closing] ++ ts))) e :=
      .tailCons (o := .binary .add) trivial hplus (List.forall_mem_nil _)
        (emptyList hopening hclosing) he
    refine ⟨e, htail, fun h hh => ?_, fun r hruns hleft => ?_⟩
    · obtain ⟨h', rfl, hsum⟩ := hheight h hh
      obtain ⟨h'', rfl, hleft⟩ := hsum.part rfl List.mem_cons_self
      exact ⟨h'', by omega, hleft⟩
    · have hrun : (Node.expr sum).RunsAtMost (r + 1) := .of_joined
        (List.forall_mem_cons.mpr ⟨hruns, List.forall_mem_singleton.mpr
          (Node.runsAtMost_emptyList _)⟩)
      have hparts : ∀ m ∈ (Node.expr sum).parts, m.JoinedAtMost (r + (n + 1)) :=
        List.forall_mem_cons.mpr ⟨hleft, List.forall_mem_singleton.mpr
          (Node.joinedAtMost_emptyList _)⟩
      have hsum : (Node.expr sum).JoinedAtMost (r + (n + 1)) :=
        .of_parts (hrun.mono (by omega)) hparts
      rw [Nat.add_comm n 1, ← Nat.add_assoc] at hsum ⊢
      exact hjoined (r + 1) hrun hsum

end Derives

namespace Parsed

variable {source : SourceText} {ts : List Token} {last : Token} {e : Expr}

/-- Tokens that an expression is derived from are read as it. -/
theorem expression_of_derives (hclean : (Token.lex source).2.hasErrors = false)
    (htokens : (Token.lex source).1 = ts ++ [last]) (h : Derives .expression maxDepth ts e) :
    (expression source).body = some (.expr e) := by
  have hstart : Token.StartWith Token.Kind.startsExpression ts := h.opens
  have hnext := hstart.isSeparator_nextKind_self rfl rfl
  have hcontent : Token.content (ts ++ [last]) = ts := Token.content_concat hnext h.closes
  rw [← htokens] at hcontent
  exact ((expression_body_iff source).1 e).mpr ⟨hclean, hcontent.symm ▸ h⟩

/-- Sums are read however long they are, and are as high as they are long. -/
theorem exists_sumOfLists (n : Nat) :
    ∃ e, (expression (.sumOfLists n)).body = some (.expr e) ∧
      (∀ h, (Node.expr e).HeightAtMost h → n < h) ∧ (Node.expr e).JoinedAtMost n := by
  have hmarks := List.forall_mem_append.mpr ⟨Token.marks_emptyList, Token.marks_addends n⟩
  have htext : (SourceText.sumOfLists n).text.toList =
      (Token.emptyList ++ Token.addends n).map Prod.fst := String.toList_ofList
  obtain ⟨hclean, hkinds⟩ := Token.lex_of_marks hmarks htext
  simp only [Token.emptyList, List.cons_append, List.nil_append, List.map_cons] at hkinds
  obtain ⟨opening, us, htokens, hopening, hus⟩ := List.map_eq_cons_iff.mp hkinds
  obtain ⟨closing, us, rfl, hclosing, hus⟩ := List.map_eq_cons_iff.mp hus
  obtain ⟨ts, us, rfl, hts, hus⟩ := List.map_eq_append_iff.mp hus
  obtain ⟨last, us, rfl, -, hus⟩ := List.map_eq_cons_iff.mp hus
  obtain rfl : us = [] := List.map_eq_nil_iff.mp hus
  let left : Expr := .list (opening.span.merge closing.span) []
  obtain ⟨e, he, hheight, hjoined⟩ := Derives.exists_of_addends n left hts
  have hleft : Derives (.level .sum) 31 ([opening, closing] ++ ts) e :=
    .chain trivial (Derives.emptyList hopening hclosing) he
  refine ⟨e, expression_of_derives hclean htokens hleft.expression_of_sum, fun h hh => ?_, ?_⟩
  · obtain ⟨h', rfl, hlow⟩ := hheight h hh
    have hpos := hlow.pos rfl
    omega
  · rw [← Nat.zero_add n]
    exact hjoined 0 (Node.runsAtMost_emptyList _) (Node.joinedAtMost_emptyList _)

/-- **The height of bodies** in which no more than `k` steps that are not counted come one below
another is at most 33 times as much as one such run. -/
theorem heightAtMost_of_joinedAtMost (k : Nat) (source : SourceText) :
    ∀ parsed ∈ [expression source, block source, statements source],
      ∀ body, parsed.body = some body → body.node.JoinedAtMost k →
        body.node.HeightAtMost (33 * (k + 1)) :=
  fun parsed hparsed body hbody hjoined =>
    Node.heightAtMost_of_fits (fits_of_body source parsed hparsed body hbody) hjoined

/-- A sum of three lists, which is read with two steps that are not counted one below another. -/
theorem heightAtMost_of_joinedAtMost_sum :
    ∃ body, (expression (.sumOfLists 2)).body = some body ∧ body.node.JoinedAtMost 2 ∧
      body.node.HeightAtMost 99 := by
  obtain ⟨e, hbody, -, hjoined⟩ := exists_sumOfLists 2
  exact ⟨.expr e, hbody, hjoined, heightAtMost_of_joinedAtMost 2 (.sumOfLists 2) _
    List.mem_cons_self _ hbody hjoined⟩

/-- **There is no bound on the height of bodies**: sums are read however long they are, and each of
their operators is below the next. -/
theorem not_exists_heightAtMost :
    ¬ ∃ h, ∀ source : SourceText, ∀ parsed ∈ [expression source, block source, statements source],
      ∀ body, parsed.body = some body → body.node.HeightAtMost h := by
  rintro ⟨h, hbound⟩
  obtain ⟨e, hbody, hheight, -⟩ := exists_sumOfLists h
  have hlow := hbound (.sumOfLists h) _ List.mem_cons_self _ hbody
  exact Nat.lt_irrefl h (hheight h hlow)

end Parsed

end ParseActions
