import ParseActions.Proofs.Text.Span
import ParseActions.Proofs.Token.Lexing

/-!
# Tokens in order

The tokens of a text stand one after another: a token starts where the one before it stops, or later,
and does not stop before it starts. A newline stops where the next line starts, and the text of a
string may be empty, so a token may start where the one before it stops.

## Main definitions

* `Token.InOrder`, `Token.stopFrom`: tokens in order from a position on, and where they stop
* `Scanner.After`: what is left to scan comes after a position

## Main results

* `Scanner.follows_scan`: a token comes after the tokens before it
* `Token.inOrder_lex`: the tokens of a text are in order
-/

namespace ParseActions

open ParseActions.Span (Before)

/-! ## Order -/

namespace Token

variable {p q : Nat × Nat} {t : Token} {ts us : List Token}

/-- Tokens in order, the first of them not before a position. -/
def InOrder : Nat × Nat → List Token → Prop
  | _, [] => True
  | p, t :: ts => Before p t.span.start ∧ t.span.Proper ∧ InOrder t.span.stop ts

/-- Where the last token stops, or a position if there is none. -/
def stopFrom (p : Nat × Nat) (ts : List Token) : Nat × Nat :=
  ts.foldl (fun _ t => t.span.stop) p

@[simp] theorem stopFrom_nil (p : Nat × Nat) : stopFrom p [] = p :=
  rfl

@[simp] theorem stopFrom_cons (p : Nat × Nat) (t : Token) (ts : List Token) :
    stopFrom p (t :: ts) = stopFrom t.span.stop ts :=
  rfl

@[simp] theorem stopFrom_append (p : Nat × Nat) (ts us : List Token) :
    stopFrom p (ts ++ us) = stopFrom (stopFrom p ts) us :=
  List.foldl_append

@[simp] theorem inOrder_nil (p : Nat × Nat) : InOrder p [] :=
  trivial

@[simp] theorem inOrder_cons :
    InOrder p (t :: ts) ↔ Before p t.span.start ∧ t.span.Proper ∧ InOrder t.span.stop ts :=
  Iff.rfl

@[simp] theorem inOrder_append :
    InOrder p (ts ++ us) ↔ InOrder p ts ∧ InOrder (stopFrom p ts) us := by
  induction ts generalizing p with
  | nil => simp
  | cons t ts ih => simp [ih, and_assoc]

/-- Tokens in order stop after the position that they start from. -/
theorem InOrder.before_stopFrom (h : InOrder p ts) : Before p (stopFrom p ts) := by
  induction ts generalizing p with
  | nil => exact .refl p
  | cons t ts ih =>
    obtain ⟨hstart, hproper, hts⟩ := h
    exact hstart.trans (hproper.order.trans (ih hts))

end Token

/-! ## Places -/

namespace Position

variable {p q r : Position}

/-- The line and the column. -/
def pair (p : Position) : Nat × Nat :=
  (p.line, p.column)

/-- Lines and columns from one. -/
structure Valid (p : Position) : Prop where
  line : 1 ≤ p.line
  column : 1 ≤ p.column

/-- A place on a later line, or further right. -/
def Earlier (p q : Position) : Prop :=
  p.line < q.line ∨ p.line = q.line ∧ p.column < q.column

theorem Earlier.trans (h : Earlier p q) (h' : Earlier q r) : Earlier p r := by
  simp only [Earlier] at *
  omega

theorem Earlier.before (h : Earlier p q) : Before p.pair q.pair := by
  simp only [Earlier, Before, pair] at *
  omega

theorem earlier_after (p : Position) (c : Char) : Earlier p (p.after c) := by
  rw [after]
  split
  · exact .inl (Nat.lt_succ_self _)
  · exact .inr ⟨rfl, Nat.lt_succ_self _⟩

theorem Valid.after (h : p.Valid) (c : Char) : (p.after c).Valid := by
  rw [Position.after]
  split
  · exact ⟨Nat.le_succ_of_le h.line, Nat.le_refl _⟩
  · exact ⟨h.line, Nat.le_succ_of_le h.column⟩

theorem Valid.proper_span (h : p.Valid) : p.span.Proper :=
  ⟨h.line, h.column, .refl _⟩

/-- The span up to a later place stops before it. -/
theorem Valid.proper_spanTo (hp : p.Valid) (hq : q.Valid) (h : Earlier p q) :
    (p.spanTo q).Proper ∧ Before (p.spanTo q).stop q.pair := by
  have hcolumn := hq.column
  refine ⟨⟨hp.line, hp.column, ?_⟩, ?_⟩
  · simp only [Earlier, Before, spanTo, Span.start, Span.stop] at *
    omega
  · exact .inr ⟨rfl, Nat.max_le.mpr ⟨Nat.sub_le _ _, hcolumn⟩⟩

end Position

namespace Scanner

open Position Relation

variable {source : SourceText} {s : Scanner} {b p : Nat × Nat} {r : Token × Scanner}
  {ts : List Token}

theorem earlier_of_passes {x y : Text} (h : Passes x y) : Earlier x.1 y.1 := by
  induction h with
  | single h =>
    obtain ⟨place, c, _⟩ := h
    exact earlier_after place c
  | tail _ h ih =>
    obtain ⟨place, c, _⟩ := h
    exact ih.trans (earlier_after place c)

theorem before_of_reaches {x y : Text} (h : Reaches x y) : Before x.1.pair y.1.pair := by
  rcases reflTransGen_iff_eq_or_transGen.mp h with rfl | h
  · exact .refl _
  · exact (earlier_of_passes h).before

theorem valid_of_reaches {x y : Text} (h : Reaches x y) (hx : x.1.Valid) : y.1.Valid := by
  induction h with
  | refl => exact hx
  | tail _ h ih =>
    obtain ⟨place, c, _⟩ := h
    exact ih.after c

/-! ## Tokens -/

/-- What is left to scan comes after a position, a token that is held back included. -/
structure After (b : Nat × Nat) (s : Scanner) : Prop where
  valid : s.place.Valid
  free : s.pending = none → Before b s.place.pair
  mark : ∀ t, s.pending = some t →
    Before b t.span.start ∧ t.span.Proper ∧ Before t.span.stop s.place.pair

/-- A token comes after a position, and what is left to scan after the token. -/
structure Follows (b : Nat × Nat) (r : Token × Scanner) : Prop where
  start : Before b r.1.span.start
  proper : r.1.span.Proper
  after : After r.1.span.stop r.2

theorem Follows.of_before (h : Follows p r) (hb : Before b p) : Follows b r :=
  ⟨hb.trans h.start, h.proper, h.after⟩

/-- A token that spans the characters that are read for it. -/
theorem follows_of_passes (hvalid : s.place.Valid) (hpasses : Passes s.text r.2.text)
    (hspan : r.1.span = s.place.spanTo r.2.place) (hpending : r.2.pending = none) :
    Follows s.place.pair r := by
  have hplace : r.2.place.Valid := valid_of_reaches hpasses.to_reflTransGen hvalid
  obtain ⟨hproper, hstop⟩ := hvalid.proper_spanTo hplace (earlier_of_passes hpasses)
  rw [← hspan] at hproper hstop
  exact ⟨by rw [hspan]; exact .refl _, hproper, hplace, fun _ => hstop, by simp [hpending]⟩

theorem follows_scanText {opened : Position} {outer : List Mode} {whole part : String → Token.Kind}
    {cs : List Char} (hvalid : opened.Valid) (hopened : Reaches (opened, cs) s.text)
    (hpending : s.pending = none) (h : (scanText source opened outer whole part s).2.Clean) :
    Follows opened.pair (scanText source opened outer whole part s) := by
  have hread := passes_stringText source [] s.errors s.place s.rest
  rw [scanText] at h ⊢
  dsimp only at h ⊢
  generalize stringText source [] s.errors s.place s.rest = text at hread h ⊢
  cases hstop : text.stop with
  | unterminated =>
    simp only [hstop] at h
    exact absurd h (not_clean_report _)
  | quote =>
    obtain ⟨rest, hreach, hpass⟩ := hread (by simp [hstop])
    have hpasses : Passes (opened, cs) (text.place, text.rest) :=
      hpass.trans_right (hopened.trans hreach)
    have hplace : text.place.Valid := valid_of_reaches hpasses.to_reflTransGen hvalid
    obtain ⟨hproper, hbefore⟩ := hvalid.proper_spanTo hplace (earlier_of_passes hpasses)
    exact ⟨.refl _, hproper, hplace, fun _ => hbefore, by simp [hpending]⟩
  | hole =>
    obtain ⟨rest, hreach, hpass⟩ := hread (by simp [hstop])
    have hto : Reaches (opened, cs) (text.stopPlace, rest) := hopened.trans hreach
    have hstopPlace : text.stopPlace.Valid := valid_of_reaches hto hvalid
    have hplace : text.place.Valid := valid_of_reaches hpass.to_reflTransGen hstopPlace
    obtain ⟨hproper, hbefore⟩ := hstopPlace.proper_spanTo hplace (earlier_of_passes hpass)
    -- the token stops where the mark of the hole starts; the mark is held back for the next round
    refine ⟨.refl _, ⟨hvalid.line, hvalid.column, before_of_reaches hto⟩, hplace, by simp, ?_⟩
    rintro t ht
    obtain rfl := Option.some.inj ht
    exact ⟨.refl _, hproper, hbefore⟩

theorem span_scanSymbol (kind : Token.Kind) (n : Nat) (s : Scanner) :
    (scanSymbol kind n s).1.span = s.place.spanTo (scanSymbol kind n s).2.place := by
  rw [scanSymbol.eq_def]
  dsimp only
  split <;> rfl

theorem follows_find? (hvalid : s.place.Valid) (hpending : s.pending = none)
    (h : s.find? source = some r) (hclean : r.2.Clean) : Follows s.place.pair r := by
  have honward := (onward_find? hpending h).passes
  cases hrest : s.rest with
  | nil => cases (find?_of_nil source hrest).symm.trans h
  | cons c rest =>
    rw [find?_of_rest source hrest] at h
    split at h
    · obtain rfl := Option.some.inj h
      exact follows_scanText hvalid (reaches_advance 1 s) ((pending_advance 1).trans hpending)
        hclean
    · split at h
      · obtain rfl := Option.some.inj h
        exact follows_of_passes hvalid honward rfl hpending
      · split at h
        · obtain rfl := Option.some.inj h
          exact follows_of_passes hvalid honward rfl hpending
        · obtain ⟨⟨kind, n⟩, -, rfl⟩ := Option.map_eq_some_iff.mp h
          exact follows_of_passes hvalid honward (span_scanSymbol kind n s)
            (pending_scanSymbol.trans hpending)

/-- **A token comes after the place** that it is scanned from, and what is left after the token. -/
theorem follows_scan (hvalid : s.place.Valid) (hpending : s.pending = none)
    (hclean : (s.scan source).2.Clean) : Follows s.place.pair (s.scan source) := by
  have hplace : (s.skip source).place.Valid := valid_of_reaches reaches_skip hvalid
  have hbefore : Before s.place.pair (s.skip source).place.pair := before_of_reaches reaches_skip
  have hskip : (s.skip source).pending = none := pending_skip.trans hpending
  have hscans := scans_of_clean hclean
  generalize s.scan source = r at hclean hscans
  cases hscans with
  | ends => exact ⟨hbefore, hplace.proper_span, hplace, fun _ => .refl _, by simp [hskip]⟩
  | finds _ _ hfind => exact (follows_find? hplace hskip hfind hclean).of_before hbefore
  | text => exact follows_scanText hvalid .refl hpending hclean

/-- The tokens that are left are in order. -/
theorem Lexes.inOrder (h : Lexes source s ts) (hafter : s.After b) : Token.InOrder b ts := by
  induction h generalizing b with
  | ends hpending hclean =>
    have hfollows := (follows_scan hafter.valid hpending hclean).of_before (hafter.free hpending)
    exact ⟨hfollows.start, hfollows.proper, trivial⟩
  | token hpending _ h ih =>
    have hfollows := (follows_scan hafter.valid hpending h.clean).of_before (hafter.free hpending)
    exact ⟨hfollows.start, hfollows.proper, ih hfollows.after⟩
  | mark hpending _ ih =>
    -- nothing is scanned: the mark already stands between `b` and the place
    obtain ⟨hstart, hproper, hstop⟩ := hafter.mark _ hpending
    exact ⟨hstart, hproper, ih ⟨hafter.valid, fun _ => hstop, nofun⟩⟩

end Scanner

namespace Token

/-- **The tokens of a text** on which there is no report are in order. -/
theorem inOrder_lex {source : SourceText} (h : (lex source).2.hasErrors = false) :
    InOrder (1, 1) (lex source).1 :=
  (lexes_lex h).inOrder ⟨⟨Nat.le_refl _, Nat.le_refl _⟩, fun _ => .refl _, nofun⟩

end Token

end ParseActions
