import Mathlib.Logic.Function.Iterate
import ParseActions.Proofs.Body.Progress

/-!
# The parser ends

The grammar is tied together with a budget for its nesting and for each of its loops. The budgets
are never used up: a loop goes on, and a production is nested, only after a token was read, so with
more budget than tokens a run does not depend on what stands where the budget ends.

## Main definitions

* `Parse.Agree`: two steps that do the same where few enough tokens are left
* `Parse.Ends`: a loop whose budget is not used up
* `Parse.itemsRound`, `Parse.chainRound`, `Productions.holesRound`, `Productions.suffixRound`,
  `Productions.statementsRound`: one round of each of the loops
* `Productions.Agrees`: grammars that agree where few enough tokens are left
* `Productions.LoopsEnd`: the loops of a grammar end
* `Parsed.runWith`: a run with a grammar that is given

## Main results

* `Parse.agree_of_rounds`, `Parse.ends_of_round`: loops agree, and end, by their rounds
* `Productions.agrees_next`: one more level of nesting takes one more token
* `Productions.agrees_iterate`: the budget of a grammar does not matter
* `Productions.loopsEnd`: the loops of a grammar end
* `Parsed.parser_ends_and_restores`: the parser ends, and keeps its cursor and its nesting
-/

set_option synthInstance.maxSize 100000

namespace ParseActions

namespace Parse

open State

variable {α β γ : Type} {n : Nat}

/-! ## Steps that agree -/

/-- Two steps that do the same where fewer than `n` tokens are left. -/
class Agree (n : Nat) (p q : Parse α) : Prop where
  run {stream : Stream} {s : State} : stream.final.kind = .eof → s.rest.length < n →
    p stream s = q stream s

/-- Two steps that do the same where fewer than `n` tokens, but some, are left. -/
class AgreeAhead (n : Nat) (p q : Parse α) : Prop where
  run {stream : Stream} {s : State} : stream.final.kind = .eof → s.rest.length < n → s.rest ≠ [] →
    p stream s = q stream s

theorem Agree.mono {m : Nat} {p q : Parse α} (h : Agree n p q) (hm : m ≤ n) : Agree m p q where
  run hfinal hs := h.run hfinal (hs.trans_le hm)

theorem AgreeAhead.mono {m : Nat} {p q : Parse α} (h : AgreeAhead n p q) (hm : m ≤ n) :
    AgreeAhead m p q where
  run hfinal hs hne := h.run hfinal (hs.trans_le hm) hne

theorem agree_zero (p q : Parse α) : Agree 0 p q where
  run _ hs := absurd hs (Nat.not_lt_zero _)

instance (p : Parse α) : Agree n p p where
  run _ _ := rfl

instance {p q : Parse α} [h : Agree n p q] : AgreeAhead n p q where
  run hfinal hs _ := h.run hfinal hs

theorem bind_congr_run {stream : Stream} {s : State} {p q : Parse α} {f g : α → Parse β}
    (hpq : p stream s = q stream s)
    (hf : ∀ {a s'}, p stream s = (some a, s') → f a stream s' = g a stream s') :
    (p >>= f) stream s = (q >>= g) stream s := by
  cases hrun : p stream s with
  | mk a s' =>
    rw [hrun] at hpq
    cases a with
    | none => rw [bind_of_none hrun, bind_of_none hpq.symm]
    | some a =>
      rw [bind_of_some hrun, bind_of_some hpq.symm]
      exact hf hrun

theorem agree_bind {p q : Parse α} {f g : α → Parse β} (hleads : Respects Leads p)
    (hp : Agree n p q) (hf : ∀ a, Agree n (f a) (g a)) : Agree n (p >>= f) (q >>= g) where
  run hfinal hs := bind_congr_run (hp.run hfinal hs) fun hrun =>
    (hf _).run hfinal ((length_le_of_run hrun).trans_lt hs)

instance {p q : Parse α} {f g : α → Parse β} [hleads : Respects Leads p] [hp : Agree n p q]
    [hf : ∀ a, Agree n (f a) (g a)] : Agree n (p >>= f) (q >>= g) :=
  agree_bind hleads hp hf

/-- What comes after a step is the same if the steps do the same, wherever they lead. -/
instance {p q : Parse α} {f : α → Parse β} [hp : Agree n p q] : Agree n (p >>= f) (q >>= f) where
  run hfinal hs := bind_congr_run (hp.run hfinal hs) fun _ => rfl

/-- After a step that has read a token it is enough to agree where one token less is left. -/
theorem agree_bind_of_advances {p q : Parse α} {f g : α → Parse β} (hadvances : Advances p)
    (hp : Agree (n + 1) p q) (hf : ∀ a, Agree n (f a) (g a)) :
    Agree (n + 1) (p >>= f) (q >>= g) where
  run hfinal hs := bind_congr_run (hp.run hfinal hs) fun hrun =>
    (hf _).run hfinal ((hadvances.lt hfinal hrun).trans_le (Nat.le_of_lt_succ hs))

instance {p q : Parse α} {f g : α → Parse β} [hadvances : Advances p] [hp : Agree (n + 1) p q]
    [hf : ∀ a, Agree n (f a) (g a)] : Agree (n + 1) (p >>= f) (q >>= g) :=
  agree_bind_of_advances hadvances hp hf

instance {p q : Parse α} {f g : α → Parse β} [hleads : Respects Leads p] [hp : AgreeAhead n p q]
    [hf : ∀ a, Agree n (f a) (g a)] : AgreeAhead n (p >>= f) (q >>= g) where
  run hfinal hs hne := bind_congr_run (hp.run hfinal hs hne) fun hrun =>
    (hf _).run hfinal ((length_le_of_run hrun).trans_lt hs)

/-- The next token is read, and one less is left. -/
instance {f g : Token → Parse β} [hf : ∀ t, Agree n (f t) (g t)] :
    AgreeAhead (n + 1) (advance >>= f) (advance >>= g) where
  run hfinal hs hne := bind_congr_run rfl fun hrun =>
    (hf _).run hfinal ((Starts.lt_of_run hne hrun).trans_le (Nat.le_of_lt_succ hs))

instance {f g : Span → Parse β} [hf : ∀ span, AgreeAhead n (f span) (g span)] :
    AgreeAhead n (currentSpan >>= f) (currentSpan >>= g) where
  run hfinal hs hne := (hf _).run hfinal hs hne

instance {f : α → β} {p q : Parse α} [Agree n p q] : Agree n (f <$> p) (f <$> q) :=
  inferInstanceAs (Agree n (p >>= fun a => pure (f a)) (q >>= fun a => pure (f a)))

instance {c : Prop} [Decidable c] {p p' q q' : Parse α} [hp : Agree n p p'] [hq : Agree n q q'] :
    Agree n (if c then p else q) (if c then p' else q') := by
  split
  · exact hp
  · exact hq

instance {p q : Parse α} [h : Agree n p q] : Agree n (attempt p) (attempt q) where
  run hfinal hs := by rw [attempt, attempt, h.run hfinal hs]

instance {p q : Parse α} [h : Agree n p q] : Agree n (nested p) (nested q) where
  run {stream s} hfinal hs := by
    have hinner := h.run (s := { s with depth := s.depth + 1 }) hfinal hs
    rw [nested, nested]
    dsimp only
    rw [hinner]

/-- A choice by the kind of the next token. -/
theorem agree_peekKind {f g : Token.Kind → Parse β}
    (h : ∀ kind, kind ≠ .eof ∧ AgreeAhead n (f kind) (g kind) ∨ Agree n (f kind) (g kind)) :
    Agree n (peekKind >>= f) (peekKind >>= g) where
  run {stream s} hfinal hs := by
    rw [peekKind_bind, peekKind_bind, kind_peek hfinal]
    rcases h (Token.nextKind s.rest) with ⟨hkind, hahead⟩ | hagree
    · exact hahead.run hfinal hs (rest_ne_nil rfl hkind)
    · exact hagree.run hfinal hs

/-- A choice by whether the next token is a word. -/
instance {word : Keyword} {p p' q q' : Parse β} [hp : AgreeAhead n p p'] [hq : Agree n q q'] :
    Agree n (check (.keyword word) >>= fun b => if b = true then p else q)
      (check (.keyword word) >>= fun b => if b = true then p' else q') where
  run {stream s} hfinal hs := by
    rw [check_bind, check_bind, kind_peek hfinal]
    by_cases hkind : Token.nextKind s.rest = .keyword word
    · rw [if_pos (decide_eq_true hkind), if_pos (decide_eq_true hkind)]
      exact hp.run hfinal hs (rest_ne_nil hkind (by simp))
    · rw [if_neg (by simp [hkind]), if_neg (by simp [hkind])]
      exact hq.run hfinal hs

/-- A choice by whether the next token is a symbol, which is read if it is. -/
instance {x : Symbol} {p p' q q' : Parse β} [hp : Agree n p p'] [hq : Agree (n + 1) q q'] :
    Agree (n + 1) (eat (.symbol x) >>= fun b => if b = true then p else q)
      (eat (.symbol x) >>= fun b => if b = true then p' else q') where
  run {stream s} hfinal hs := by
    rw [eat_bind, eat_bind, kind_peek hfinal]
    by_cases hkind : Token.nextKind s.rest = .symbol x
    · rw [if_pos hkind, if_pos hkind, if_pos rfl, if_pos rfl]
      have hlt := Starts.lt (p := advance) stream s (rest_ne_nil hkind (by simp))
      exact hp.run hfinal (hlt.trans_le (Nat.le_of_lt_succ hs))
    · rw [if_neg hkind, if_neg hkind, if_neg Bool.false_ne_true, if_neg Bool.false_ne_true]
      exact hq.run hfinal hs

/-! ## Loops by their rounds -/

/-- Two loops agree with more rounds than tokens if their rounds do. -/
theorem agree_of_rounds (round round' : (γ → Parse β) → γ → Parse β)
    (loop loop' : Nat → γ → Parse β) (hloop : ∀ b, loop (b + 1) = round (loop b))
    (hloop' : ∀ b, loop' (b + 1) = round' (loop' b))
    (hround : ∀ {m : Nat} {again again' : γ → Parse β}, m < n →
      (∀ c, Agree m (again c) (again' c)) → ∀ c, Agree (m + 1) (round again c) (round' again' c))
    {m b b' : Nat} (hm : m ≤ n) (hb : m ≤ b) (hb' : m ≤ b') (c : γ) :
    Agree m (loop b c) (loop' b' c) := by
  -- a round that goes on has read a token, so the number of those that are left bounds the rounds
  induction m generalizing b b' c with
  | zero => exact agree_zero _ _
  | succ m ih =>
    obtain ⟨b, rfl⟩ := Nat.exists_eq_add_one_of_ne_zero (Nat.ne_zero_of_lt hb)
    obtain ⟨b', rfl⟩ := Nat.exists_eq_add_one_of_ne_zero (Nat.ne_zero_of_lt hb')
    rw [hloop, hloop']
    exact hround hm (ih (Nat.le_of_succ_le hm) (Nat.le_of_succ_le_succ hb)
      (Nat.le_of_succ_le_succ hb')) c

/-- A loop whose budget is not used up where fewer tokens are left: whatever would come after so many
rounds is not reached. -/
def Ends (round : (γ → Parse β) → γ → Parse β) (loop : Nat → γ → Parse β) : Prop :=
  ∀ (budget : Nat) (after : γ → Parse β) (c : γ), Agree budget (loop budget c) (round^[budget] after c)

/-- A loop ends if each round goes on only where fewer tokens are left. -/
theorem ends_of_round {round : (γ → Parse β) → γ → Parse β} {loop : Nat → γ → Parse β}
    (hloop : ∀ b, loop (b + 1) = round (loop b))
    (hround : ∀ {m : Nat} {again again' : γ → Parse β}, (∀ c, Agree m (again c) (again' c)) →
      ∀ c, Agree (m + 1) (round again c) (round again' c)) : Ends round loop :=
  fun budget after c =>
    agree_of_rounds round round loop (fun b => round^[b] after) hloop
      (fun b => Function.iterate_succ_apply' round b after) (fun _ hagain => hround hagain)
      (Nat.le_refl budget) (Nat.le_refl budget) (Nat.le_refl budget) c

/-- The items of a list by one round. -/
def itemsRound (item : Parse α) (close : Symbol) (again : Unit → Parse (List α)) :
    Unit → Parse (List α) := fun _ => do
  skipNewlines
  let a ← item
  skipNewlines
  if ← eat (.symbol .comma) then
    skipNewlines
    if ← check (.symbol close) then return [a]
    else return a :: (← again ())
  else return [a]

/-- A chain of operators by one round. -/
def chainRound (op? : Token.Kind → Option β) (operand : Parse α) (combine : α → β → α → α)
    (again : α → Parse α) (left : α) : Parse α := do
  match op? (← peekKind) with
  | none => return left
  | some op =>
    let _ ← advance
    skipNewlines
    let right ← operand
    again (combine left op right)

theorem commaItems_succ (item : Parse α) (close : Symbol) (budget : Nat) :
    commaItems item close (budget + 1) =
      itemsRound item close (fun _ => commaItems item close budget) () :=
  rfl

theorem chainFrom_succ (op? : Token.Kind → Option β) (operand : Parse α)
    (combine : α → β → α → α) (budget : Nat) :
    chainFrom op? operand combine (budget + 1) =
      chainRound op? operand combine (chainFrom op? operand combine budget) :=
  rfl

theorem agree_itemsRound {item item' : Parse α} (hleads : Respects Leads item)
    (hitem : Agree (n + 1) item item') {close : Symbol} {again again' : Unit → Parse (List α)}
    (hagain : ∀ c, Agree n (again c) (again' c)) (c : Unit) :
    Agree (n + 1) (itemsRound item close again c) (itemsRound item' close again' c) := by
  unfold itemsRound
  infer_instance

theorem agree_chainRound {op? : Token.Kind → Option β} (hop : op? .eof = none)
    {operand operand' : Parse α} (hleads : Respects Leads operand)
    (hoperand : Agree (n + 1) operand operand') {combine : α → β → α → α}
    {again again' : α → Parse α} (hagain : ∀ left, Agree n (again left) (again' left)) (left : α) :
    Agree (n + 1) (chainRound op? operand combine again left)
      (chainRound op? operand' combine again' left) := by
  have := hoperand.mono n.le_succ
  refine agree_peekKind fun kind => ?_
  split
  · exact .inr inferInstance
  · next op hkind =>
    refine .inl ⟨?_, inferInstance⟩
    rintro rfl
    exact absurd (hop.symm.trans hkind) (by simp)

end Parse

namespace Productions

open Parse State

variable {n : Nat}

/-- The holes of a string by one round. -/
def holesRound (sub : Productions) (again : Unit → Parse (List Fragment)) :
    Unit → Parse (List Fragment) := fun _ => do
  let _ ← expect .holeStart
  let value ← sub.expression
  let _ ← expect .holeEnd
  match ← peekKind with
  | .stringPart text =>
    let _ ← advance
    return .hole value :: textPart text ++ (← again ())
  | .stringEnd text =>
    let _ ← advance
    return .hole value :: textPart text
  | _ =>
    report .unterminatedString "unterminated string interpolation"
    fail

/-- The member accesses, calls and indexing after an expression by one round. -/
def suffixRound (sub : Productions) (again : Expr → Parse Expr) (object : Expr) : Parse Expr := do
  match ← peekKind with
  | .symbol .dot =>
    let _ ← advance
    let name ← expectMemberName
    if ← check (.symbol .leftParen) then
      let _ ← advance
      let args ← commaList sub.budget sub.expression .rightParen
      let _ ← expect (.symbol .rightParen)
      again (.call (object.span.merge (← previousSpan)) object name args)
    else again (.member (object.span.merge name.span) object name)
  | .symbol .leftBracket =>
    let _ ← advance
    skipNewlines
    let key ← sub.expression
    skipNewlines
    let _ ← expect (.symbol .rightBracket)
    again (.index (object.span.merge (← previousSpan)) object key)
  | _ => return object

/-- The statements of a block by one round. -/
def statementsRound (sub : Productions) (again : Unit → Parse (List Stmt)) :
    Unit → Parse (List Stmt) := fun _ => do
  match ← round sub with
  | none => return []
  | some stmt => (stmt.toList ++ ·) <$> again ()

theorem holes_succ_eq_round (sub : Productions) (budget : Nat) :
    holes sub (budget + 1) = holesRound sub (fun _ => holes sub budget) () :=
  rfl

theorem suffixes_succ (sub : Productions) (budget : Nat) :
    suffixes sub (budget + 1) = suffixRound sub (suffixes sub budget) :=
  rfl

/-! ## Grammars that agree -/

/-- Grammars with budgets of at least `n` that do the same where fewer than `n` tokens are left. -/
class Agrees (n : Nat) (sub sub' : Productions) : Prop where
  budget : n ≤ sub.budget
  budget' : n ≤ sub'.budget
  expression : Agree n sub.expression sub'.expression
  operand : Agree n sub.operand sub'.operand
  block : Agree n sub.block sub'.block
  /-- A conditional is only nested where the next token is the word it starts with. -/
  conditional : AgreeAhead n sub.conditional sub'.conditional

attribute [instance] Agrees.expression Agrees.operand Agrees.block Agrees.conditional

variable {sub sub' : Productions}

theorem Agrees.mono {m : Nat} (h : Agrees n sub sub') (hm : m ≤ n) : Agrees m sub sub' where
  budget := hm.trans h.budget
  budget' := hm.trans h.budget'
  expression := h.expression.mono hm
  operand := h.operand.mono hm
  block := h.block.mono hm
  conditional := h.conditional.mono hm

section

variable [hagrees : Agrees n sub sub'] [sub.Respect Leads]

instance {α : Type} {item item' : Parse α} [hleads : Respects Leads item]
    [hitem : Agree n item item'] {close : Symbol} :
    Agree n (commaList sub.budget item close) (commaList sub'.budget item' close) := by
  have hitems : Agree n (commaItems item close sub.budget) (commaItems item' close sub'.budget) :=
    agree_of_rounds (itemsRound item close) (itemsRound item' close)
      (fun b _ => commaItems item close b) (fun b _ => commaItems item' close b)
      (fun b => funext fun _ => commaItems_succ item close b)
      (fun b => funext fun _ => commaItems_succ item' close b)
      (fun hm hagain => agree_itemsRound hleads (hitem.mono hm) hagain)
      (Nat.le_refl n) hagrees.budget hagrees.budget' ()
  unfold commaList
  infer_instance

instance {start : Span} : AgreeAhead (n + 1) (list sub start) (list sub' start) := by
  unfold list
  infer_instance

instance : Agree n (field sub) (field sub') := by
  unfold field
  infer_instance

instance {start : Span} : AgreeAhead (n + 1) (record sub start) (record sub' start) := by
  unfold record
  infer_instance

omit hagrees in
theorem agree_holesRound (hexpression : Agree n sub.expression sub'.expression)
    {again again' : Unit → Parse (List Fragment)} (hagain : ∀ c, Agree n (again c) (again' c))
    (c : Unit) : Agree (n + 1) (holesRound sub again c) (holesRound sub' again' c) := by
  refine agree_bind_of_advances (advances_expect (by simp)) inferInstance fun _ =>
    agree_bind inferInstance inferInstance fun value =>
      agree_bind inferInstance inferInstance fun _ =>
        agree_bind inferInstance inferInstance fun kind => ?_
  split <;> infer_instance

instance : Agree n (holes sub sub.budget) (holes sub' sub'.budget) :=
  agree_of_rounds (holesRound sub) (holesRound sub') (fun b _ => holes sub b)
    (fun b _ => holes sub' b) (fun b => funext fun _ => holes_succ_eq_round sub b)
    (fun b => funext fun _ => holes_succ_eq_round sub' b)
    (fun hm hagain => agree_holesRound (hagrees.expression.mono (Nat.le_of_lt hm)) hagain)
    (Nat.le_refl n) hagrees.budget hagrees.budget' ()

instance : AgreeAhead (n + 1) (branches sub) (branches sub') := by
  unfold branches
  infer_instance

instance : Agree n (branches sub) (branches sub') := by
  unfold branches
  infer_instance

instance : Agree (n + 1) (primary sub) (primary sub') := by
  refine agree_bind inferInstance inferInstance fun start => agree_peekKind fun kind => ?_
  split
  case h_12 => exact .inr inferInstance
  all_goals exact .inl ⟨by simp, inferInstance⟩

omit hagrees in
theorem agree_suffixRound (hexpression : Agree n sub.expression sub'.expression)
    (harguments : Agree n (commaList sub.budget sub.expression .rightParen)
      (commaList sub'.budget sub'.expression .rightParen)) {again again' : Expr → Parse Expr}
    (hagain : ∀ object, Agree n (again object) (again' object)) (object : Expr) :
    Agree (n + 1) (suffixRound sub again object) (suffixRound sub' again' object) := by
  refine agree_peekKind fun kind => ?_
  split
  case h_3 => exact .inr inferInstance
  all_goals exact .inl ⟨by simp, inferInstance⟩

instance {object : Expr} :
    Agree n (suffixes sub sub.budget object) (suffixes sub' sub'.budget object) :=
  agree_of_rounds (suffixRound sub) (suffixRound sub') (suffixes sub) (suffixes sub')
    (suffixes_succ sub) (suffixes_succ sub')
    (fun hm hagain =>
      have := hagrees.mono (Nat.le_of_lt hm)
      agree_suffixRound inferInstance inferInstance hagain)
    (Nat.le_refl n) hagrees.budget hagrees.budget' object

instance : Agree (n + 1) (prefixed sub) (prefixed sub') := by
  refine agree_bind inferInstance inferInstance fun start => agree_peekKind fun kind => ?_
  split
  · next op hop =>
    refine .inl ⟨?_, inferInstance⟩
    rintro rfl
    simp [unary?] at hop
  · exact .inr inferInstance

omit [sub.Respect Leads] in
/-- A chain of operators that starts with an operand, which reads a token. -/
theorem agree_chain {α β : Type} {op? : Token.Kind → Option β} (hop : op? .eof = none)
    {operand operand' : Parse α} (hleads : Respects Leads operand) (hadvances : Advances operand)
    (hoperand : Agree (n + 1) operand operand') {combine : α → β → α → α} :
    Agree (n + 1) (chain sub.budget op? operand combine)
      (chain sub'.budget op? operand' combine) :=
  agree_bind_of_advances hadvances hoperand fun left =>
    agree_of_rounds (chainRound op? operand combine) (chainRound op? operand' combine)
      (chainFrom op? operand combine) (chainFrom op? operand' combine)
      (chainFrom_succ op? operand combine) (chainFrom_succ op? operand' combine)
      (fun hm hagain =>
        agree_chainRound hop hleads (hoperand.mono (Nat.succ_le_succ (Nat.le_of_lt hm))) hagain)
      (Nat.le_refl n) hagrees.budget hagrees.budget' left

instance : Agree (n + 1) (product sub) (product sub') :=
  agree_chain rfl inferInstance inferInstance inferInstance

instance : Agree (n + 1) (sum sub) (sum sub') :=
  agree_chain rfl inferInstance inferInstance inferInstance

instance : Agree (n + 1) (comparison sub) (comparison sub') := by
  refine agree_bind inferInstance inferInstance fun left =>
    agree_bind inferInstance inferInstance fun kind => ?_
  split <;> infer_instance

instance : Agree (n + 1) (coalesced sub) (coalesced sub') :=
  agree_chain rfl inferInstance inferInstance inferInstance

instance : Agree (n + 1) (conjunction sub) (conjunction sub') :=
  agree_chain rfl inferInstance inferInstance inferInstance

instance : Agree (n + 1) (disjunction sub) (disjunction sub') :=
  agree_chain rfl inferInstance inferInstance inferInstance

instance : Agree n (loop sub) (loop sub') := by
  unfold loop
  infer_instance

instance : Agree n (binding sub) (binding sub') := by
  unfold binding
  infer_instance

instance : Agree n (leave sub) (leave sub') := by
  unfold leave
  infer_instance

instance : Agree n (assertion sub) (assertion sub') := by
  unfold assertion
  infer_instance

instance : Agree n (throwing sub) (throwing sub') := by
  unfold throwing
  infer_instance

instance : Agree n (statement sub) (statement sub') := by
  refine agree_bind inferInstance inferInstance fun _ =>
    agree_bind inferInstance inferInstance fun kind => ?_
  split <;> infer_instance

instance : Agree n (round sub) (round sub') := by
  unfold round
  infer_instance

variable [hadvances : Advances sub.expression]

omit hagrees in
/-- A round that goes on has read a token. -/
theorem agree_statementsRound (hround : Agree (n + 1) (round sub) (round sub'))
    {again again' : Unit → Parse (List Stmt)} (hagain : ∀ c, Agree n (again c) (again' c))
    (c : Unit) : Agree (n + 1) (statementsRound sub again c) (statementsRound sub' again' c) where
  run hfinal hs := bind_congr_run (hround.run hfinal hs) fun {found s'} hrun => by
    cases found with
    | none => rfl
    | some stmt =>
      have hmap : Agree n ((stmt.toList ++ ·) <$> again ()) ((stmt.toList ++ ·) <$> again' ()) :=
        inferInstance
      exact hmap.run hfinal ((length_lt_of_round hfinal hrun).trans_le (Nat.le_of_lt_succ hs))

instance : Agree n (statements sub sub.budget) (statements sub' sub'.budget) :=
  agree_of_rounds (statementsRound sub) (statementsRound sub') (fun b _ => statements sub b)
    (fun b _ => statements sub' b) (fun b => funext fun _ => statements_succ_eq_round sub b)
    (fun b => funext fun _ => statements_succ_eq_round sub' b)
    (fun hm hagain =>
      have := hagrees.mono hm
      agree_statementsRound inferInstance hagain)
    (Nat.le_refl n) hagrees.budget hagrees.budget' ()

instance : Agree (n + 1) (braces sub) (braces sub') :=
  agree_bind inferInstance inferInstance fun _ =>
    agree_bind_of_advances (advances_expect (by simp)) inferInstance fun _ => inferInstance

/-- One more level of nesting takes one more token. -/
theorem agrees_next : Agrees (n + 1) (next sub) (next sub') where
  budget := Nat.succ_le_succ hagrees.budget
  budget' := Nat.succ_le_succ hagrees.budget'
  expression := inferInstanceAs (Agree (n + 1) (nested (disjunction sub)) (nested (disjunction sub')))
  operand := inferInstanceAs (Agree (n + 1) (prefixed sub) (prefixed sub'))
  block := inferInstanceAs (Agree (n + 1) (braces sub) (braces sub'))
  conditional := inferInstanceAs (AgreeAhead (n + 1) (branches sub) (branches sub'))

end

/-- A grammar with as many levels as another agrees with it, whatever the other one is built on. -/
theorem agrees_iterate (bottom : Productions) (n : Nat) :
    Agrees n (productions n) (next^[n] bottom) := by
  induction n with
  | zero =>
    exact ⟨Nat.zero_le _, Nat.zero_le _, agree_zero _ _, agree_zero _ _, agree_zero _ _,
      ⟨fun _ hs => absurd hs (Nat.not_lt_zero _)⟩⟩
  | succ n ih =>
    rw [Function.iterate_succ_apply']
    exact agrees_next

/-! ## The loops of the grammar -/

/-- The loops of the parser end: those over the items of lists and records, the holes of strings, the
suffixes of an object and the statements of a block, and those over the operators of each level. -/
structure LoopsEnd (sub : Productions) : Prop where
  items (close : Symbol) : Ends (itemsRound sub.expression close)
    fun budget _ => commaItems sub.expression close budget
  fields (close : Symbol) : Ends (itemsRound (field sub) close)
    fun budget _ => commaItems (field sub) close budget
  holes : Ends (holesRound sub) fun budget _ => holes sub budget
  suffixes : Ends (suffixRound sub) (suffixes sub)
  statements : Ends (statementsRound sub) fun budget _ => statements sub budget
  products : Ends (chainRound multiplicative? (prefixed sub) binary)
    (chainFrom multiplicative? (prefixed sub) binary)
  sums : Ends (chainRound additive? (product sub) binary)
    (chainFrom additive? (product sub) binary)
  coalescings (combine : Expr → Unit → Expr → Expr) :
    Ends
      (chainRound (fun k => if k = .symbol .questionQuestion then some () else none)
        (comparison sub) combine)
      (chainFrom (fun k => if k = .symbol .questionQuestion then some () else none)
        (comparison sub) combine)
  conjunctions : Ends (chainRound (only? (.keyword .andWord) .and) (coalesced sub) binary)
    (chainFrom (only? (.keyword .andWord) .and) (coalesced sub) binary)
  disjunctions : Ends (chainRound (only? (.keyword .orWord) .or) (conjunction sub) binary)
    (chainFrom (only? (.keyword .orWord) .or) (conjunction sub) binary)

theorem ends_chain {α β : Type} {op? : Token.Kind → Option β} (hop : op? .eof = none)
    {operand : Parse α} (hleads : Respects Leads operand) {combine : α → β → α → α} :
    Ends (chainRound op? operand combine) (chainFrom op? operand combine) :=
  ends_of_round (chainFrom_succ op? operand combine) (agree_chainRound hop hleads inferInstance)

theorem loopsEnd [sub.Respect Leads] [Advances sub.expression] : LoopsEnd sub where
  items close := ends_of_round (fun b => funext fun _ => commaItems_succ _ close b)
    (agree_itemsRound inferInstance inferInstance)
  fields close := ends_of_round (fun b => funext fun _ => commaItems_succ _ close b)
    (agree_itemsRound inferInstance inferInstance)
  holes := ends_of_round (fun b => funext fun _ => holes_succ_eq_round sub b)
    (agree_holesRound inferInstance)
  suffixes := ends_of_round (suffixes_succ sub) (agree_suffixRound inferInstance inferInstance)
  statements := ends_of_round (fun b => funext fun _ => statements_succ_eq_round sub b)
    (agree_statementsRound inferInstance)
  products := ends_chain rfl inferInstance
  sums := ends_chain rfl inferInstance
  coalescings _ := ends_chain rfl inferInstance
  conjunctions := ends_chain rfl inferInstance
  disjunctions := ends_chain rfl inferInstance

end Productions

namespace Parsed

open Parse Productions

/-- The outcome of a step on a stream, with a grammar that is given. -/
def runWith (grammar : Productions) (source : SourceText) (tokens : List Token)
    (p : Productions → Parse Body) : Parsed :=
  let last := (tokens.getLast?.map Token.span).getD (.point 1 1)
  let (body, state) := p grammar ⟨source, ⟨.eof, last⟩⟩ (State.start tokens)
  ⟨if state.errors.hasErrors then none else body, state.errors⟩

variable {source : SourceText} {tokens : List Token}

instance {n : Nat} {part : String} {p q : Parse Body} [Agree n p q] :
    Agree n (whole part p) (whole part q) := by
  unfold whole
  infer_instance

instance {n : Nat} {grammar grammar' : Productions} [Agrees n grammar grammar'] :
    Agree n (wholeExpression grammar) (wholeExpression grammar') := by
  unfold wholeExpression
  infer_instance

instance {n : Nat} {grammar grammar' : Productions} [Agrees n grammar grammar'] :
    Agree n (wholeBlock grammar) (wholeBlock grammar') := by
  unfold wholeBlock
  infer_instance

/-- With more levels than tokens it does not matter what a grammar is built on. -/
theorem run_eq_runWith {p : Productions → Parse Body} (bottom : Productions) {n : Nat}
    (hn : tokens.length < n)
    (hp : ∀ {grammar}, Agrees (tokens.length + 1) (productions (tokens.length + 1)) grammar →
      Agree (tokens.length + 1) (p (productions (tokens.length + 1))) (p grammar)) :
    run source tokens p = runWith (next^[n] bottom) source tokens p := by
  -- the levels beyond one more than the tokens count as what the grammar is built on
  obtain ⟨k, rfl⟩ := Nat.exists_eq_add_of_lt hn
  have hagrees := agrees_iterate (next^[k] bottom) (tokens.length + 1)
  rw [← Function.iterate_add_apply, Nat.add_right_comm] at hagrees
  rw [run, runWith]
  dsimp only
  rw [(hp hagrees).run rfl (Nat.lt_succ_self _)]

/-- The parser ends on every list of tokens, and keeps its cursor and its nesting. More levels of the
grammar than there are tokens change nothing, and its loops end before their budgets do. A round of
the loop over statements moves the cursor forward, or the loop ends. No function of the parser moves
the cursor back or past the end of the list, so that the token before it is found there, and each
restores the nesting. -/
theorem parser_ends_and_restores (source : SourceText) (tokens : List Token) :
    (∀ (bottom : Productions) (n : Nat), tokens.length < n →
      ofExpression source tokens = runWith (next^[n] bottom) source tokens wholeExpression ∧
      ofBlock source tokens = runWith (next^[n] bottom) source tokens wholeBlock) ∧
    (State.start tokens).At tokens 0 ∧ ∀ budget : Nat, LoopsEnd (productions budget) ∧
      ∀ (stream : Stream) (s : State) (place : Nat), stream.final.kind = .eof → s.At tokens place →
        (∃ found s', round (productions budget) stream s = (some found, s') ∧
          (found.isSome → ∃ place' > place, s'.At tokens place')) ∧
        ∀ {α : Type} {p : Parse α}, (productions budget).Member p →
          (∃ place' ≥ place, (p stream s).2.At tokens place') ∧
          (p stream s).2.depth = s.depth := by
  refine ⟨fun bottom n hn => ⟨?expression, ?block⟩, State.at_start tokens,
    fun budget => ⟨loopsEnd, ?functions⟩⟩
  case expression => exact run_eq_runWith bottom hn fun _ => inferInstance
  case block => exact run_eq_runWith bottom hn fun _ => inferInstance
  case functions =>
    exact fun stream s place hfinal hs =>
      ⟨round_at hfinal hs, fun hp => ⟨hp.at_of_at hs stream, hp.depth stream s⟩⟩

/-- A block that is not closed, with a parenthesis that no statement starts with, in a list without
an end mark. The first round of its loop finds no statement, and skips the parenthesis. -/
theorem parser_ends_and_restores_unclosed :
    let source : SourceText := ⟨"Num.value", "\x7b ) let"⟩
    let tokens : List Token := [⟨.symbol .leftBrace, .point 1 1⟩, ⟨.symbol .rightParen, .point 1 3⟩,
      ⟨.keyword .letWord, .point 1 5⟩]
    let stream : Stream := ⟨source, ⟨.eof, .point 1 5⟩⟩
    let inside := (advance stream (State.start tokens)).2
    ofBlock source tokens = runWith (next^[4] (productions 0)) source tokens wholeBlock ∧
      inside.At tokens 1 ∧
      (∃ s', round (productions 4) stream inside = (some (some none), s') ∧
        ∃ place' > 1, s'.At tokens place') ∧
      (∃ place' ≥ 1, (statement (productions 4) stream inside).2.At tokens place') ∧
      (statement (productions 4) stream inside).2.depth = inside.depth := by
  intro source tokens stream inside
  obtain ⟨hends, -, hfunctions⟩ := parser_ends_and_restores source tokens
  have hinside : inside.At tokens 1 := ⟨by decide, rfl, rfl⟩
  obtain ⟨⟨found, s', hrun, hforward⟩, hmembers⟩ := (hfunctions 4).2 stream inside 1 rfl hinside
  have hfound : (round (productions 4) stream inside).1 = some (some none) := by rfl
  rw [hrun] at hfound
  obtain rfl := Option.some.inj hfound
  obtain ⟨hplace, hdepth⟩ := hmembers .statement
  exact ⟨(hends (productions 0) 4 (by decide)).2, hinside, ⟨s', hrun, hforward rfl⟩, hplace, hdepth⟩

end Parsed

end ParseActions
