import ParseActions.Proofs.Eval.Steps

/-!
# The limit of gas

Gas is used alike under every limit, and the limit decides only where the evaluation stops: it goes on
as long as the gas that was used does not pass the limit. So a larger limit changes nothing for an
evaluation that did not use up its gas, and continues one that did.

## Main definitions

* `Machine.Grows`: more was logged, and more gas was used
* `Eval.Cutoff`: what a larger limit changes

## Main results

* `Eval.OfSteps.grows`: the log and the gas only grow
* `Eval.OfSteps.cutoff`: the limit is a cutoff for every evaluation that is made of steps
* `Body.run_under_limits`: runs of bodies
-/

namespace ParseActions

namespace Machine

/-- The gas is one that a counter of 64 bits holds. -/
def Counts (m : Machine) : Prop :=
  m.gas ≤ Double.maxWord

/-- Between two states lines were added to the log, and gas was used. -/
structure Grows (m m' : Machine) : Prop where
  log : m.log.toList <+: m'.log.toList
  gas : m.gas ≤ m'.gas

theorem Grows.refl (m : Machine) : Grows m m :=
  ⟨List.prefix_refl _, Nat.le_refl _⟩

theorem Grows.trans {m m' m'' : Machine} (h : Grows m m') (h' : Grows m' m'') : Grows m m'' :=
  ⟨h.log.trans h'.log, Nat.le_trans h.gas h'.gas⟩

end Machine

namespace Eval

open Machine

variable {names : Set String} {binds : Bool} {α : Type} {p : Eval α} {limit limit' : Nat}
  {m : Machine}

/-- What comes after an evaluation adds to its log and its gas. -/
theorem grows_bind {β : Type} {f : α → Eval β}
    (hf : ∀ a {m : Machine}, m.Counts → (f a limit m).2.Counts ∧ Grows m (f a limit m).2)
    (hm : (p limit m).2.Counts) :
    ((p >>= f) limit m).2.Counts ∧ Grows (p limit m).2 ((p >>= f) limit m).2 := by
  cases hr : p limit m with
  | mk r m' =>
    rw [hr] at hm
    cases r with
    | ok a =>
      rw [bind_of_ok hr]
      exact hf a hm
    | error e =>
      rw [bind_of_error hr]
      exact ⟨hm, .refl _⟩

/-- **The log and the gas only grow**, and the counter of the gas never overflows. -/
theorem OfSteps.grows (h : OfSteps names binds p) (limit : Nat) (hm : m.Counts) :
    (p limit m).2.Counts ∧ Grows m (p limit m).2 := by
  induction h generalizing m with
  | lift | look => exact ⟨hm, .refl m⟩
  | define => exact ⟨hm, List.prefix_refl _, Nat.le_refl _⟩
  | charge gas =>
    exact ⟨Nat.min_le_right _ _, List.prefix_refl _, Nat.le_min.mpr ⟨Nat.le_add_right _ _, hm⟩⟩
  | write line => exact ⟨hm, ⟨[line], by simp [Eval.write]⟩, Nat.le_refl _⟩
  | @bind _ _ _ p f _ _ ih ihf =>
    obtain ⟨hcounts, hgrows⟩ := ih hm
    obtain ⟨hcounts', hgrows'⟩ := grows_bind ihf hcounts
    exact ⟨hcounts', hgrows.trans hgrows'⟩
  | @inScope _ _ p _ ih =>
    obtain ⟨hcounts, hgrows⟩ := ih (m := { m with env := m.env.push }) hm
    exact ⟨hcounts, hgrows.log, hgrows.gas⟩

/-- What a larger limit changes for the outcome `r` of an evaluation, which becomes `r'`: nothing,
unless the gas is used up, and this is when more was used than the limit. Then more may come. -/
structure Cutoff (limit : Nat) (r r' : Except EvalError α × Machine) : Prop where
  exhausted_iff : r.1 = .error .gasExhausted ↔ limit < r.2.gas
  same : r.1 ≠ .error .gasExhausted → r' = r
  grows : r.1 = .error .gasExhausted → Grows r.2 r'.2

theorem cutoff_self {r : Except EvalError α × Machine} (h : r.1 ≠ .error .gasExhausted)
    (hgas : r.2.gas ≤ limit) : Cutoff limit r r :=
  ⟨iff_of_false h (Nat.not_lt.mpr hgas), fun _ => rfl, fun he => absurd he h⟩

theorem cutoff_exhausted {r' : Except EvalError α × Machine} (hgas : limit < m.gas)
    (hgrows : Grows m r'.2) : Cutoff limit (.error .gasExhausted, m) r' :=
  ⟨iff_of_true rfl hgas, fun hne => absurd rfl hne, fun _ => hgrows⟩

theorem cutoff_charge (gas : Nat) (hle : limit ≤ limit') :
    Cutoff limit (Eval.charge gas limit m) (Eval.charge gas limit' m) := by
  simp only [Eval.charge]
  split
  · next hlimit => exact cutoff_exhausted hlimit (.refl _)
  · next hlimit =>
    -- what does not pass the smaller limit does not pass the larger one
    have hgas := Nat.not_lt.mp hlimit
    rw [if_neg (Nat.not_lt.mpr (Nat.le_trans hgas hle))]
    exact cutoff_self nofun hgas

/-- **The limit is a cutoff** for what is made of steps. -/
theorem OfSteps.cutoff (h : OfSteps names binds p) (hle : limit ≤ limit') (hgas : m.gas ≤ limit)
    (hm : m.Counts) : Cutoff limit (p limit m) (p limit' m) := by
  induction h generalizing m with
  | lift hr => exact cutoff_self hr hgas
  | look | define | write => exact cutoff_self nofun hgas
  | charge gas => exact cutoff_charge gas hle
  | @bind _ _ _ p f h hf ih ihf =>
    obtain ⟨hexhausted, hsame, hgrows⟩ := ih hgas hm
    have hcounts := (h.grows limit hm).1
    have hmore := grows_bind (fun a _ hm => (hf a).grows limit' hm) (h.grows limit' hm).1
    cases hr : p limit m with
    | mk r m' =>
      rw [hr] at hexhausted hsame hgrows hcounts
      cases r with
      | ok a =>
        have hlimit : m'.gas ≤ limit := Nat.not_lt.mp (mt hexhausted.mpr nofun)
        rw [bind_of_ok hr, bind_of_ok (hsame nofun)]
        exact ihf a hlimit hcounts
      | error e =>
        rw [bind_of_error hr]
        by_cases he : e = .gasExhausted
        · -- under the larger limit `f` may run, too, which only adds to the log and the gas
          subst he
          exact cutoff_exhausted (hexhausted.mp rfl) ((hgrows rfl).trans hmore.2)
        · have hne : ∀ {β : Type}, (.error e : Except EvalError β) ≠ .error .gasExhausted :=
            fun h => he (Except.error.inj h)
          rw [bind_of_error (hsame hne)]
          exact cutoff_self hne (Nat.not_lt.mp (mt hexhausted.mpr hne))
  | @inScope _ _ p _ ih =>
    have hp := ih (m := { m with env := m.env.push }) hgas hm
    refine ⟨hp.exhausted_iff, fun h => ?_, fun h => ?_⟩
    · rw [Eval.inScope, Eval.inScope, hp.same h]
    · exact ⟨(hp.grows h).log, (hp.grows h).gas⟩

end Eval

open Eval

theorem Body.snd_eval (body : Body) (limit : Nat) (m : Machine) :
    (body.eval limit m).2 = (body.evalOpen limit m).2 := by
  obtain ⟨v, -, hrun⟩ | ⟨-, hrun⟩ := body.eval_cases limit m
  · rw [hrun]
  · rw [hrun]

/-- That a `return` ends a body does not show in what a larger limit changes. -/
theorem Body.cutoff_eval {body : Body} {limit limit' : Nat} {m : Machine}
    (h : Cutoff limit (body.evalOpen limit m) (body.evalOpen limit' m)) :
    Cutoff limit (body.eval limit m) (body.eval limit' m) := by
  obtain ⟨v, hv, hrun⟩ | ⟨hopen, hrun⟩ := body.eval_cases limit m
  · have hne : (body.evalOpen limit m).1 ≠ .error .gasExhausted := by
      rw [hv]
      nofun
    rw [hrun, Body.eval_of_returned ((h.same hne).trans (Prod.ext hv rfl))]
    exact cutoff_self nofun (Nat.not_lt.mp (mt h.exhausted_iff.mpr hne))
  · rw [hrun]
    refine ⟨h.exhausted_iff, fun hne => ?_, fun he => ?_⟩
    · have hsame := h.same hne
      rw [Body.eval_of_ne_returned, hsame]
      exact fun v hv => hopen v (hsame ▸ hv)
    · rw [Body.snd_eval]
      exact h.grows he

/-- **The limit of gas is a pure cutoff.** A run uses up its gas when it uses more than its limit; if it
does not, it is the same under every larger limit, and if it does, a larger limit lets it go on from
there. -/
theorem Body.run_under_limits (body : Body) (env : Environment) {limit limit' : Nat}
    (hle : limit ≤ limit') :
    let run := body.eval limit (.start env)
    let run' := body.eval limit' (.start env)
    (run.1 = .error .gasExhausted ↔ limit < run.2.gas) ∧
      (run.1 ≠ .error .gasExhausted →
        run'.1 = run.1 ∧ run'.2.log = run.2.log ∧ run'.2.gas = run.2.gas) ∧
      (run.1 = .error .gasExhausted →
        run.2.log.toList <+: run'.2.log.toList ∧ run.2.gas ≤ run'.2.gas) := by
  intro run run'
  have hsteps := body.ofSteps_evalOpen (Node.all_reads_univ _)
  have hcutoff : Cutoff limit run run' :=
    Body.cutoff_eval (hsteps.cutoff hle (Nat.zero_le _) (Nat.zero_le _))
  refine ⟨hcutoff.exhausted_iff, fun hne => ?_, fun he => ?_⟩
  · rw [hcutoff.same hne]
    exact ⟨rfl, rfl, rfl⟩
  · exact ⟨(hcutoff.grows he).log, (hcutoff.grows he).gas⟩

/-- A body that logs two lines. -/
def Body.twoLines : Body :=
  let log (line : String) : Stmt :=
    .expr (.call default (.ident default "core") ⟨"log", default⟩ [.string default line])
  .block (.mk default [log "first", log "second"])

/-- A limit between the two lines cuts the run off after the first one. -/
theorem Body.run_under_limits_twoLines :
    let run := twoLines.eval 4 (.start .empty)
    let run' := twoLines.eval 9 (.start .empty)
    4 ≤ 9 ∧ run.1 = .error .gasExhausted ∧ run.2.gas = 5 ∧ run.2.log = #["first"] ∧
      run'.1 = .ok (.string "second") ∧ run'.2.gas = 6 ∧ run'.2.log = #["first", "second"] ∧
      (run.1 = .error .gasExhausted ↔ 4 < run.2.gas) ∧
      (run.1 ≠ .error .gasExhausted →
        run'.1 = run.1 ∧ run'.2.log = run.2.log ∧ run'.2.gas = run.2.gas) ∧
      (run.1 = .error .gasExhausted →
        run.2.log.toList <+: run'.2.log.toList ∧ run.2.gas ≤ run'.2.gas) :=
  ⟨by decide, rfl, rfl, rfl, rfl, rfl, rfl, Body.run_under_limits twoLines .empty (by decide)⟩

end ParseActions
