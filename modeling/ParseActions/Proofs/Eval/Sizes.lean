import ParseActions.Proofs.Eval.Confinement

/-!
# The size of what bodies build

Lists, records, sums and the values of builtins are built only within the bounds on values. Strings
that are written are not: a string without holes is as long as its text, and the text after the last
hole of a string is added to it unchecked. So the values that a body computes are within the bounds, but
for the bytes of such texts.

## Main definitions

* `Footprint.Covers`: a footprint that is at least as large as a sum of parts
* `Expr.writes`, `Node.Writes`: the bytes that strings may take by what is written
* `Node.Allows`: the strings that are written have a property

## Main results

* `Expr.confines_eval`, `Stmt.confines_eval`, `Block.confines_eval`: evaluations are confined
* `Body.kept_of_eval`, `Body.height_le_of_eval`: a property of what is bound, and a bound on nesting
* `Body.within_of_eval`: the values that a body gives or throws
* `Body.eval_followed`, `Body.exists_not_fits`: the text after a hole makes them larger
-/

namespace ParseActions

open Footprint (maxBytes maxDepth slot saturate)

/-! ## Footprints of what is put together -/

namespace Footprint

variable {f : Footprint} {v : Value} {bytes depth : Nat}

theorem of_string (s : String) : of (.string s) = string s.utf8ByteSize :=
  of_eq _

/-- The bytes of a string are within the bound if they are so without stopping at the greatest word. -/
theorem bytes_string_le_iff {length : Nat} :
    (string length).bytes ≤ maxBytes ↔ slot + length ≤ maxBytes := by
  have hword : maxBytes < Double.maxWord := by decide
  show saturate (slot + length) ≤ maxBytes ↔ _
  rw [saturate]
  omega

/-- A footprint of at least so many bytes, up to the greatest word, and of at least such a nesting. -/
structure Covers (f : Footprint) (bytes depth : Nat) : Prop where
  bytes : saturate bytes ≤ f.bytes
  depth : depth ≤ f.depth

theorem covers_container : container.Covers slot 1 :=
  ⟨Nat.min_le_left _ _, Nat.le_refl _⟩

theorem Covers.mono {bytes' depth' : Nat} (h : f.Covers bytes depth) (hbytes : bytes' ≤ bytes)
    (hdepth : depth' ≤ depth) : f.Covers bytes' depth' :=
  ⟨Nat.le_trans (saturate_mono hbytes) h.bytes, Nat.le_trans hdepth h.depth⟩

theorem Covers.withItem (h : f.Covers bytes depth) (v : Value) :
    (f.withItem (of v)).Covers (bytes + v.weight) (max depth (v.height + 1)) := by
  obtain ⟨hbytes, hdepth⟩ := h
  constructor
  · simp only [Footprint.withItem, bytes_of, saturate] at *
    omega
  · simp only [Footprint.withItem, depth_of]
    omega

/-- An item that is added to a list. -/
theorem Covers.cons {values : List Value} {f' : Footprint}
    (h : f'.Covers (bytes + v.weight + Value.weights values)
      (max (max depth (v.height + 1)) (Value.heights values + 1))) :
    f'.Covers (bytes + Value.weights (v :: values))
      (max depth (Value.heights (v :: values) + 1)) := by
  refine h.mono ?_ ?_
  · rw [Value.weights, Nat.add_assoc]
  · rw [Value.heights]
    omega

/-- A field that is added to a record. -/
theorem Covers.insert {fields : List (String × Value)} {name : String}
    (h : f.Covers (slot + Value.fieldWeights fields) (Value.fieldHeights fields + 1)) :
    ((f.withItem (of v)).withItem (string name.utf8ByteSize)).Covers
      (slot + Value.fieldWeights (Keyed.insert name v fields))
      (Value.fieldHeights (Keyed.insert name v fields) + 1) := by
  have hweights : Value.fieldWeights (Keyed.insert name v fields) ≤
      Value.fieldWeights fields + (name.utf8ByteSize + v.weight) := Value.fieldWeights_insert_le
  have hheights : Value.fieldHeights (Keyed.insert name v fields) ≤
      max (Value.fieldHeights fields) v.height := Value.fieldHeights_insert_le
  rw [← of_string]
  refine ((h.withItem v).withItem (.string name)).mono ?_ ?_
  · rw [Value.weight]
    omega
  · omega

theorem Fits.of_covers (h : f.Fits) (hv : f.Covers v.weight v.height) : (of v).Fits := by
  rw [Fits, bytes_of, depth_of]
  exact ⟨Nat.le_trans hv.bytes h.1, Nat.le_trans hv.depth h.2⟩

end Footprint

/-! ## What is written -/

/-- The bytes that a string may come to have when pieces are written after so many. Where a hole is
filled, the string is checked, whatever was written before. -/
def Fragment.room : (length : Nat) → List Fragment → Nat
  | length, [] => length
  | length, .text s :: rest => room (length + s.utf8ByteSize) rest
  | _, .hole _ :: rest => room (maxBytes - slot) rest

/-- The bytes that a string may take by what is written. -/
def Expr.writes : Expr → Nat
  | string _ s => slot + s.utf8ByteSize
  | template _ parts => slot + Fragment.room 0 parts
  | _ => 0

/-- The strings that are written from a node down take at most so many bytes. -/
abbrev Node.Writes (bound : Nat) (n : Node) : Prop :=
  n.All fun e => e.writes ≤ bound

/-- The strings that are written from a node down have a property, as far as their size tells. -/
abbrev Node.Allows (P : Value → Prop) (n : Node) : Prop :=
  n.All fun e => ∀ s : String, slot + s.utf8ByteSize ≤ e.writes → P (.string s)

/-! ## Expressions and statements -/

section Nodes

variable {P : Value → Prop}

open Eval Value

mutual

theorem Expr.confines_eval (hP : Hereditary P) : (e : Expr) → (Node.expr e).Allows P →
    Confines P e.eval P
  | .number _ x, _ => by
    rw [Expr.eval]
    exact confines_tick.bind fun _ _ => confines_pure (hP.number x)
  | .string _ s, h => by
    rw [Expr.eval]
    exact confines_tick.bind fun _ _ => confines_pure (h.self s (Nat.le_refl _))
  | .bool _ b, _ => by
    rw [Expr.eval]
    exact confines_tick.bind fun _ _ => confines_pure (hP.bool b)
  | .nil _, _ => by
    rw [Expr.eval]
    exact confines_tick.bind fun _ _ => confines_pure (hP.nil)
  | .template _ parts, h => by
    rw [Expr.eval]
    have hparts : ∀ part ∈ parts, ∀ n ∈ part.nodes, n.Allows P :=
      fun part hpart n hn => h.part (List.mem_flatMap_of_mem hpart hn)
    refine confines_tick.bind fun _ _ =>
      (confines_evalFragments hP parts (Nat.zero_le 0) hparts).bind fun s hs => ?_
    refine (confines_charge _).bind fun _ _ => confines_pure ?_
    -- nothing is checked here: what is written has to be allowed
    exact h.self s (Nat.add_le_add_left hs _)
  | .list _ items, h => by
    rw [Expr.eval]
    have hitems := confines_evalItems hP items Footprint.covers_container
      (Nat.le_refl 1) (by decide) fun e he => h.part (List.mem_map_of_mem he)
    refine confines_tick.bind fun _ _ => hitems.bind fun p hp => ?_
    refine (confines_charge _).bind fun _ _ => confines_pure (hP.fits _ ?_)
    refine hp.2.of_covers (hp.1.mono (Nat.le_refl _) ?_)
    exact Nat.le_max_right _ _
  | .record _ fields, h => by
    rw [Expr.eval]
    have hempty : Footprint.container.Covers (slot + fieldWeights []) (fieldHeights [] + 1) :=
      Footprint.covers_container
    have hfields := confines_evalFields hP fields hempty (by decide)
      fun field hfield n hn => h.part (List.mem_flatMap_of_mem hfield hn)
    refine confines_tick.bind fun _ _ => hfields.bind fun p hp => ?_
    refine (confines_charge _).bind fun _ _ => confines_pure (hP.fits _ ?_)
    exact hp.2.of_covers hp.1
  | .ident _ name, _ => by
    rw [Expr.eval]
    exact confines_tick.bind fun _ _ => confines_variableValue name
  | .member _ object field, h => by
    rw [Expr.eval]
    refine confines_tick.bind fun _ _ => (confines_module? object).bind fun o _ => ?_
    cases o with
    | none =>
      refine (Expr.confines_eval hP object (h.part (.head _))).bind fun v hv => ?_
      exact confines_lift (noExit_member _ _) fun _ => kept_member hP hv
    | some module =>
      dsimp only
      split
      · next v hv => exact confines_pure (kept_constant? hP hv)
      · exact confines_fail nofun
  | .call _ object method args, h => by
    rw [Expr.eval]
    have hargs := confines_evalArgs hP args
      fun e he => h.part (.tail _ (.tail _ (List.mem_map_of_mem he)))
    refine confines_tick.bind fun _ _ => (confines_module? object).bind fun o _ => ?_
    cases o with
    | none =>
      refine (Expr.confines_eval hP object (h.part (.head _))).bind fun v hv => ?_
      refine (confines_lift (Q := fun _ => True) (noExit_methodModule _ _) ?_).bind fun _ _ => ?_
      · exact fun _ _ => trivial
      · exact hargs.bind fun values hvalues =>
          confines_callBuiltin hP (List.forall_mem_cons.mpr ⟨hv, hvalues⟩) _ _
    | some module => exact hargs.bind fun values hvalues => confines_callBuiltin hP hvalues _ _
  | .index _ object key, h => by
    rw [Expr.eval]
    refine confines_tick.bind fun _ _ =>
      (Expr.confines_eval hP object (h.part (.head _))).bind fun v hv => ?_
    refine (Expr.confines_eval hP key (h.part (.tail _ (.head _)))).bind fun k _ => ?_
    exact confines_lift (noExit_index _ _) fun _ => kept_index hP hv
  | .binary _ op left right, h => by
    have hleft := Expr.confines_eval hP left (h.part (.head _))
    have hright := Expr.confines_eval hP right (h.part (.tail _ (.head _)))
    by_cases hand : op = .and
    · subst hand
      rw [Expr.eval]
      refine confines_tick.bind fun _ _ => hleft.bind fun l _ => ?_
      split
      · exact hright.bind fun r _ => confines_pure (hP.bool _)
      · exact confines_pure (hP.bool _)
    · by_cases hor : op = .or
      · subst hor
        rw [Expr.eval]
        refine confines_tick.bind fun _ _ => hleft.bind fun l _ => ?_
        split
        · exact confines_pure (hP.bool _)
        · exact hright.bind fun r _ => confines_pure (hP.bool _)
      · rw [Expr.eval_binary hand hor]
        refine confines_tick.bind fun _ _ => hleft.bind fun l _ => hright.bind fun r _ => ?_
        -- a sum is measured; the other operators give a truth value or a number
        refine (confines_lift (Q := fun v => op ≠ .add → P v) (noExit_binary _ _ _)
          fun v hv hop => kept_binary hP hop hv).bind fun v hv => ?_
        split
        · exact confines_measured hP v _
        · next hop => exact confines_pure (hv hop)
  | .unary _ op operand, h => by
    rw [Expr.eval]
    refine confines_tick.bind fun _ _ =>
      (Expr.confines_eval hP operand (h.part (.head _))).bind fun v _ => ?_
    exact confines_lift (noExit_unary _ _) fun _ => kept_unary hP
  | .coalesce _ left right, h => by
    rw [Expr.eval]
    refine confines_tick.bind fun _ _ =>
      (Expr.confines_eval hP left (h.part (.head _))).bind fun v hv => ?_
    split
    · exact Expr.confines_eval hP right (h.part (.tail _ (.head _)))
    · exact confines_pure hv
  | .conditional branches, h => by
    rw [Expr.eval]
    exact confines_tick.bind fun _ _ => Conditional.confines_eval hP branches (h.part (.head _))
  | .paren _ inner, h => by
    rw [Expr.eval]
    exact confines_tick.bind fun _ _ => Expr.confines_eval hP inner (h.part (.head _))

theorem confines_evalFragments (hP : Hereditary P) {out : String} {length : Nat} :
    (parts : List Fragment) → out.utf8ByteSize ≤ length →
    (∀ part ∈ parts, ∀ n ∈ part.nodes, n.Allows P) →
    Confines P (evalFragments out parts) fun s => s.utf8ByteSize ≤ Fragment.room length parts
  | [], hout, _ => by
    rw [evalFragments, Fragment.room]
    exact confines_pure hout
  | .text s :: rest, hout, h => by
    rw [evalFragments, Fragment.room]
    refine confines_evalFragments hP rest ?_ (List.forall_mem_cons.mp h).2
    rw [String.utf8ByteSize_append]
    exact Nat.add_le_add_right hout _
  | .hole e :: rest, _, h => by
    -- whatever `out` is, the check leaves no more than the bounds allow
    obtain ⟨he, hrest⟩ := List.forall_mem_cons.mp h
    rw [evalFragments, Fragment.room]
    refine (Expr.confines_eval hP e (he _ (.head _))).bind fun v _ => ?_
    refine (confines_check _ _).bind fun _ hf => confines_evalFragments hP rest ?_ hrest
    rw [String.utf8ByteSize_append]
    exact Nat.le_sub_of_add_le' (Footprint.bytes_string_le_iff.mp hf.2.1)

theorem confines_evalItems (hP : Hereditary P) {size : Footprint} {bytes depth : Nat} :
    (items : List Expr) → size.Covers bytes depth → 1 ≤ depth → size.Fits →
    (∀ e ∈ items, (Node.expr e).Allows P) →
    Confines P (evalItems size items) fun p =>
      p.1.Covers (bytes + weights p.2) (max depth (heights p.2 + 1)) ∧ p.1.Fits
  | [], hsize, hdepth, hfits, _ => by
    rw [evalItems]
    refine confines_pure ⟨hsize.mono (Nat.le_refl _) ?_, hfits⟩
    exact Nat.max_le.mpr ⟨Nat.le_refl _, hdepth⟩
  | e :: rest, hsize, hdepth, _, h => by
    obtain ⟨he, hrest⟩ := List.forall_mem_cons.mp h
    rw [evalItems]
    refine (Expr.confines_eval hP e he).bind fun v _ =>
      (confines_check _ _).bind fun size' hf => ?_
    obtain ⟨rfl, hfits⟩ := hf
    have hdepth' : 1 ≤ max depth (v.height + 1) := Nat.le_trans hdepth (Nat.le_max_left _ _)
    refine (confines_evalItems hP rest (hsize.withItem v) hdepth' hfits hrest).bind
      fun p hp => confines_pure ?_
    exact ⟨hp.1.cons, hp.2⟩

theorem confines_evalFields (hP : Hereditary P) {size : Footprint}
    {entries : List (String × Value)} : (fields : List Field) →
    size.Covers (slot + fieldWeights entries) (fieldHeights entries + 1) → size.Fits →
    (∀ field ∈ fields, ∀ n ∈ field.nodes, n.Allows P) →
    Confines P (evalFields size entries fields) fun p =>
      p.1.Covers (slot + fieldWeights p.2) (fieldHeights p.2 + 1) ∧ p.1.Fits
  | [], hsize, hfits, _ => by
    rw [evalFields]
    exact confines_pure ⟨hsize, hfits⟩
  | .mk name e :: rest, hsize, _, h => by
    obtain ⟨he, hrest⟩ := List.forall_mem_cons.mp h
    rw [evalFields]
    refine (Expr.confines_eval hP e (he _ (.tail _ (.head _)))).bind fun v _ =>
      (confines_check _ _).bind fun size' hf => ?_
    obtain ⟨rfl, hfits⟩ := hf
    exact confines_evalFields hP rest hsize.insert hfits hrest

theorem confines_evalArgs (hP : Hereditary P) : (args : List Expr) →
    (∀ e ∈ args, (Node.expr e).Allows P) →
    Confines P (evalArgs args) fun values => ∀ v ∈ values, P v
  | [], _ => by
    rw [evalArgs]
    exact confines_pure nofun
  | e :: rest, h => by
    obtain ⟨he, hrest⟩ := List.forall_mem_cons.mp h
    rw [evalArgs]
    refine (Expr.confines_eval hP e he).bind fun v hv =>
      (confines_evalArgs hP rest hrest).bind fun values hvalues => confines_pure ?_
    exact List.forall_mem_cons.mpr ⟨hv, hvalues⟩

theorem Conditional.confines_eval (hP : Hereditary P) : (branches : Conditional) →
    (Node.conditional branches).Allows P → Confines P branches.eval P
  | .mk _ condition thenBlock otherwise, h => by
    rw [Conditional.eval.eq_def]
    refine (Expr.confines_eval hP condition (h.part (.head _))).bind fun v _ => ?_
    split
    · exact (Block.confines_eval hP thenBlock (h.part (.tail _ (.head _)))).inScope
    · have hother : ∀ n ∈ otherwise.nodes, n.Allows P :=
        fun n hn => h.part (.tail _ (.tail _ hn))
      match otherwise with
      | .nothing => exact confines_pure (hP.nil)
      | .elseIf branches => exact Conditional.confines_eval hP branches (hother _ (.head _))
      | .block b => exact (Block.confines_eval hP b (hother _ (.head _))).inScope

theorem Stmt.confines_eval (hP : Hereditary P) : (s : Stmt) → (Node.stmt s).Allows P →
    Confines P s.eval P
  | .bind _ name value, h => by
    rw [Stmt.eval]
    refine confines_tick.bind fun _ _ =>
      (Expr.confines_eval hP value (h.part (.tail _ (.head _)))).bind fun v hv => ?_
    exact (confines_define hv).bind fun _ _ => confines_pure (hP.nil)
  | .conditional branches, h => by
    rw [Stmt.eval]
    exact confines_tick.bind fun _ _ => Conditional.confines_eval hP branches (h.part (.head _))
  | .loop _ item index items body, h => by
    have hitems := Expr.confines_eval hP items
      (h.part (.tail _ (List.mem_append_right _ (.head _))))
    have hbody := Block.confines_eval hP body
      (h.part (.tail _ (List.mem_append_right _ (.tail _ (.head _)))))
    rw [Stmt.eval]
    refine confines_tick.bind fun _ _ => hitems.bind fun v hv => ?_
    refine (confines_lift (noExit_loopItems v) fun _ => kept_loopItems hP hv).bind
      fun values hvalues => confines_each (fun i w hw => ?_) 0 (hP.nil)
    refine confines_tick.bind fun _ _ => Confines.inScope ?_
    refine (confines_define (hvalues w hw)).bind fun _ _ => ?_
    cases index with
    | none => exact hbody
    | some index => exact (confines_define (hP.number _)).bind fun _ _ => hbody
  | .leave _, _ => by
    rw [Stmt.eval]
    refine confines_tick.bind fun _ _ => confines_fail fun v hv => ?_
    cases hv
    exact hP.nil
  | .leaveWith _ value, h | .throw _ value, h => by
    rw [Stmt.eval]
    refine confines_tick.bind fun _ _ =>
      (Expr.confines_eval hP value (h.part (.head _))).bind fun v hv => ?_
    refine confines_fail fun w hw => ?_
    cases hw
    exact hv
  | .assert _ condition message, h => by
    rw [Stmt.eval]
    refine confines_tick.bind fun _ _ =>
      (Expr.confines_eval hP condition (h.part (.head _))).bind fun v _ => ?_
    split
    · exact confines_pure (hP.nil)
    · exact confines_fail nofun
  | .expr value, h => by
    rw [Stmt.eval]
    exact confines_tick.bind fun _ _ => Expr.confines_eval hP value (h.part (.head _))

theorem Block.confines_eval (hP : Hereditary P) : (b : Block) → (Node.block b).Allows P →
    Confines P b.eval P
  | .mk _ stmts, h => by
    rw [Block.eval]
    exact confines_evalStmts hP stmts (hP.nil)
      fun s hs => h.part (List.mem_map_of_mem hs)

theorem confines_evalStmts (hP : Hereditary P) {last : Value} : (stmts : List Stmt) →
    P last →
    (∀ s ∈ stmts, (Node.stmt s).Allows P) →
    Confines P (evalStmts last stmts) P
  | [], hlast, _ => by
    rw [evalStmts]
    exact confines_pure hlast
  | s :: rest, _, h => by
    obtain ⟨hs, hrest⟩ := List.forall_mem_cons.mp h
    rw [evalStmts]
    exact (Stmt.confines_eval hP s hs).bind fun v hv => confines_evalStmts hP rest hv hrest

end

theorem Body.confines_evalOpen (hP : Hereditary P) : (body : Body) →
    body.node.Allows P → Confines P body.evalOpen P
  | .expr value, h => Expr.confines_eval hP value h
  | .block b, h => Block.confines_eval hP b h

end Nodes

/-- **What a body computes** has every hereditary property that the strings in it are allowed by, and
that is a property of all that is bound. -/
theorem Body.kept_of_eval {P : Value → Prop} (hP : Value.Hereditary P) (body : Body)
    {env : Environment} (limit : Nat) (hallows : body.node.Allows P) (henv : env.All P) {v : Value}
    (hv : (body.eval limit (.start env)).1 = .ok v ∨
      (body.eval limit (.start env)).1 = .error (.thrown v)) : P v := by
  -- a result is what the body gives, or what a `return` carries; an error carries what was thrown
  have hopen : Eval.Confined P P (body.evalOpen limit (.start env)) :=
    body.confines_evalOpen hP hallows limit _ henv
  obtain ⟨w, hw, hrun⟩ | ⟨-, hrun⟩ := body.eval_cases limit (.start env)
  · rw [hrun] at hv
    rcases hv with hv | hv
    · exact Except.ok.inj hv ▸ hopen.carried _ w hw rfl
    · cases hv
  · rw [hrun] at hv
    rcases hv with hv | hv
    · exact hopen.given v hv
    · exact hopen.carried _ v hv rfl

/-- What a body computes nests no deeper than values may, or than what is bound. -/
theorem Body.height_le_of_eval {levels : Nat} (hlevels : maxDepth ≤ levels) (body : Body)
    {env : Environment} (limit : Nat) (henv : env.All fun v => v.height ≤ levels) {v : Value}
    (hv : (body.eval limit (.start env)).1 = .ok v) : v.height ≤ levels :=
  body.kept_of_eval (Value.hereditary_height hlevels) limit (fun _ _ _ _ => Nat.zero_le _) henv
    (.inl hv)

/-- **What a body computes** is within the bounds on values, but for the bytes of the strings that are
written in it. -/
theorem Body.within_of_eval (body : Body) (env : Environment) (limit : Nat) {bound : Nat}
    (hbound : maxBytes ≤ bound) (hwrites : body.node.Writes bound)
    (henv : env.All fun v => (Footprint.of v).Fits) {v : Value}
    (hv : (body.eval limit (.start env)).1 = .ok v ∨
      (body.eval limit (.start env)).1 = .error (.thrown v)) :
    (Footprint.of v).bytes ≤ bound ∧ (Footprint.of v).depth ≤ maxDepth := by
  have hallows : body.node.Allows (Value.Within bound) :=
    fun e he s hs => Value.within_string (Nat.le_trans hs (hwrites e he))
  have hwithin : v.Within bound :=
    body.kept_of_eval (Value.hereditary_within hbound) limit hallows
      (henv.mono fun _ => Value.within_of_fits hbound) hv
  exact ⟨hwithin.bytes, hwithin.depth⟩

/-- A string that ends with its hole is built within the bounds. -/
theorem Body.within_of_eval_hole :
    let body := Body.expr (.template default [.text "a", .hole (.ident default "x")])
    let env := Environment.ofBindings [("x", .string "b")]
    body.node.Writes maxBytes ∧ (env.All fun v => (Footprint.of v).Fits) ∧
      (body.eval Machine.defaultLimit (.start env)).1 = .ok (.string "ab") ∧
      (Footprint.of (.string "ab")).bytes ≤ maxBytes ∧
      (Footprint.of (.string "ab")).depth ≤ maxDepth := by
  intro body env
  have hwrites : body.node.Writes maxBytes := by
    refine Node.All.of_parts (by decide) fun m hm => ?_
    obtain rfl := List.mem_singleton.mp hm
    exact Node.All.of_parts (Nat.zero_le _) nofun
  have henv : env.All fun v => (Footprint.of v).Fits :=
    Environment.all_ofBindings (List.forall_mem_singleton.mpr (by decide))
  have hv : (body.eval Machine.defaultLimit (.start env)).1 = .ok (.string "ab") := rfl
  exact ⟨hwrites, henv, hv,
    Body.within_of_eval body env _ (Nat.le_refl maxBytes) hwrites henv (.inl hv)⟩

/-! ## Text after the last hole -/

namespace Eval

variable {limit : Nat} {m : Machine}

theorem charge_of_le {gas : Nat} (h : m.gas + gas ≤ limit) (hlimit : limit ≤ Double.maxWord) :
    charge gas limit m = (.ok (), { m with gas := m.gas + gas }) := by
  have hgas : min (m.gas + gas) Double.maxWord = m.gas + gas := by omega
  simp only [charge, hgas, Nat.not_lt.mpr h, if_false]

theorem variableValue_of_get? {name : String} {v : Value} (hv : m.env.get? name = some v)
    (h : m.gas + (Footprint.of v).gas ≤ limit) (hlimit : limit ≤ Double.maxWord) :
    variableValue name limit m = (.ok v, { m with gas := m.gas + (Footprint.of v).gas }) := by
  have hlook : look name limit m = (.ok (m.env.get? name), m) := rfl
  rw [variableValue_eq, bind_of_ok hlook, hv]
  exact bind_of_ok (charge_of_le h hlimit) _

theorem check_of_fits {f : Footprint} (h : f.Fits) (what : String) :
    check f what limit m = (.ok f, m) := by
  rw [check, lift, Footprint.check, Footprint.excess?_eq_none_iff.mpr h]

end Eval

/-- A string that is a hole with the name `x` in it, and a text after it. -/
def Body.followed (text : String) : Body :=
  .expr (.template default [.hole (.ident default "x"), .text text])

open Eval in
/-- The text after a hole is not checked with it: the string is built whatever its size. -/
theorem Body.eval_followed {s text : String} {limit : Nat}
    (hs : (Footprint.of (.string s)).Fits)
    (hgas : 2 + (Footprint.string s.utf8ByteSize).gas +
      (Footprint.string (s ++ text).utf8ByteSize).gas ≤ limit)
    (hlimit : limit ≤ Double.maxWord) :
    ((followed text).eval limit (.start (.ofBindings [("x", .string s)]))).1 =
      .ok (.string (s ++ text)) := by
  let paid (gas : Nat) : Machine := ⟨.ofBindings [("x", .string s)], gas, #[]⟩
  have htick {gas : Nat} (hle : gas < 2) : tick limit (paid gas) = (.ok (), paid (gas + 1)) :=
    charge_of_le (show gas + 1 ≤ limit by omega) hlimit
  have hname : (Expr.ident default "x").eval limit (paid 1) =
      (.ok (.string s), paid (2 + (Footprint.string s.utf8ByteSize).gas)) := by
    rw [Expr.eval, bind_of_ok (htick (by decide)), ← Footprint.of_string]
    rw [← Footprint.of_string] at hgas
    exact variableValue_of_get? rfl (show 2 + _ ≤ limit by omega) hlimit
  have hparts : evalFragments "" [.hole (.ident default "x"), .text text] limit (paid 1) =
      (.ok (s ++ text), paid (2 + (Footprint.string s.utf8ByteSize).gas)) := by
    have hdisplay : (Value.string s).display = s := String.empty_append
    rw [evalFragments, bind_of_ok hname, hdisplay]
    rw [Footprint.of_string] at hs
    refine (bind_of_ok (check_of_fits ?_ _) _).trans ?_
    · rwa [String.utf8ByteSize_empty, Nat.zero_add]
    · rw [evalFragments, evalFragments, String.empty_append]
      rfl
  have hopen : (followed text).evalOpen limit (paid 0) = (.ok (.string (s ++ text)), paid
      (2 + (Footprint.string s.utf8ByteSize).gas +
        (Footprint.string (s ++ text).utf8ByteSize).gas)) := by
    rw [followed, Body.evalOpen, Expr.eval, bind_of_ok (htick (by decide)), bind_of_ok hparts]
    exact bind_of_ok (charge_of_le (m := paid _) hgas hlimit) _
  have hne : ∀ v, ((followed text).evalOpen limit (paid 0)).1 ≠ .error (.returned v) := by
    rw [hopen]
    nofun
  exact (congrArg Prod.fst (Body.eval_of_ne_returned hne)).trans (congrArg Prod.fst hopen)

theorem Builtin.utf8ByteSize_repeated (s : String) (times : Nat) :
    (repeated s times).utf8ByteSize = times * s.utf8ByteSize := by
  induction times with
  | zero => exact (Nat.zero_mul _).symm
  | succ times ih =>
    have hstep : repeated s (times + 1) = repeated s times ++ s := rfl
    rw [hstep, String.utf8ByteSize_append, ih, Nat.succ_mul]

/-- One letter after a hole is too much when what is filled in is as large as values may be. -/
theorem Body.exists_not_fits :
    let env := Environment.ofBindings [("x", .string (Builtin.repeated "a" 4194288))]
    (env.All fun v => (Footprint.of v).Fits) ∧
      ∃ v, ((followed "b").eval Machine.defaultLimit (.start env)).1 = .ok v ∧
        ¬ (Footprint.of v).Fits := by
  intro env
  let s : String := Builtin.repeated "a" 4194288
  have hsize : s.utf8ByteSize = 4194288 := Builtin.utf8ByteSize_repeated _ _
  have hsum : (s ++ "b").utf8ByteSize = 4194289 := by
    rw [String.utf8ByteSize_append, hsize]
    rfl
  have hs : (Footprint.of (.string s)).Fits := by
    rw [Footprint.of_string, hsize]
    decide
  refine ⟨Environment.all_ofBindings (List.forall_mem_singleton.mpr hs), .string (s ++ "b"), ?_, ?_⟩
  · refine Body.eval_followed hs ?_ (by decide)
    rw [hsize, hsum]
    decide
  · rw [Footprint.of_string, hsum]
    decide

end ParseActions
