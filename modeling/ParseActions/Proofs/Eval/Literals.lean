import ParseActions.Proofs.Eval.Sizes
import ParseActions.Proofs.Text.Parts

/-!
# The sizes of literals

Lists and records are measured while they are built: the size of a container grows by each item that is
put in it. For a list this gives the footprint of the list that is built. For a record it may give more,
since the value of a field that is set twice is counted twice, and the name of a field is counted like a
string. The size of as many characters counts each of them with the most bytes that a character takes.

## Main definitions

* `Footprint.withField`: a record with a field added to it

## Main results

* `Footprint.of_ofFields_le`, `Footprint.of_le_chars`: sizes that are not below what is built
* `Eval.confines_evalItems_foldl`, `Eval.confines_evalFields_foldl`: the sizes that literals are given
* `Footprint.of_eq_tree_and_estimates`: what is measured, and what is estimated before
-/

namespace ParseActions

open Footprint (slot saturate)

namespace Footprint

/-- No more bytes and no deeper nesting. -/
instance : LE Footprint :=
  ⟨fun f g => f.bytes ≤ g.bytes ∧ f.depth ≤ g.depth⟩

/-- A record with a field added to it, whose name is counted as a string. -/
def withField (f : Footprint) (field : String × Value) : Footprint :=
  (f.withItem (of field.2)).withItem (string field.1.utf8ByteSize)

/-! ## Values that are built -/

theorem Covers.of_le {f : Footprint} {v : Value} (h : f.Covers v.weight v.height) : of v ≤ f := by
  rw [of_eq]
  exact ⟨h.bytes, h.depth⟩

/-- Fields that are set one after the other, also repeatedly, are covered by their sizes. -/
theorem Covers.foldl_withField {f : Footprint} {entries : List (String × Value)}
    (h : f.Covers (slot + Value.fieldWeights entries) (Value.fieldHeights entries + 1))
    (fields : List (String × Value)) :
    (fields.foldl withField f).Covers
      (slot + Value.fieldWeights (fields.foldl (fun m (name, v) => Keyed.insert name v m) entries))
      (Value.fieldHeights (fields.foldl (fun m (name, v) => Keyed.insert name v m) entries) + 1) := by
  -- a field that is set again counts twice in `f`, and once in what is built
  induction fields generalizing f entries with
  | nil => exact h
  | cons field fields ih => exact ih h.insert

/-- **A record takes no more than its fields**, one by one. -/
theorem of_ofFields_le (fields : List (String × Value)) :
    of (.ofFields fields) ≤ fields.foldl withField container := by
  have hempty : container.Covers (slot + Value.fieldWeights []) (Value.fieldHeights [] + 1) :=
    covers_container
  exact (hempty.foldl_withField fields).of_le

theorem utf8ByteSize_le_four {s : String} (h : s.length = 1) : s.utf8ByteSize ≤ 4 := by
  have hsize := Text.utf8Len_le s.toList
  rwa [String.length_toList, h, String.utf8Len_toList] at hsize

variable {strings : List String}

theorem weights_strings_le (h : ∀ s ∈ strings, s.length = 1) :
    Value.weights (strings.map .string) ≤ strings.length * (slot + 4) := by
  induction strings with
  | nil => exact Nat.zero_le _
  | cons s strings ih =>
    obtain ⟨hs, hstrings⟩ := List.forall_mem_cons.mp h
    have hsize : slot + s.utf8ByteSize ≤ slot + 4 :=
      Nat.add_le_add_left (utf8ByteSize_le_four hs) _
    rw [List.map_cons, Value.weights, Value.weight, List.length_cons, Nat.succ_mul, Nat.add_comm]
    exact Nat.add_le_add (ih hstrings) hsize

theorem heights_strings (strings : List String) : Value.heights (strings.map .string) = 0 := by
  induction strings with
  | nil => rfl
  | cons s strings ih =>
    exact (Nat.zero_max _).trans ih

/-- **A list of characters** takes no more than as many characters of four bytes. -/
theorem of_le_chars (h : ∀ s ∈ strings, s.length = 1) :
    of (.list (strings.map .string)) ≤ chars strings.length := by
  refine Covers.of_le ⟨?_, ?_⟩
  -- `chars` stops at the greatest word twice, which is the same as once
  · rw [Value.weight, chars, saturate_saturate_add, Nat.add_comm]
    exact saturate_mono (Nat.add_le_add_right (weights_strings_le h) _)
  · rw [Value.height, heights_strings]
    exact Nat.le_refl 1

end Footprint

/-! ## Literals -/

namespace Eval

variable {α : Type}

/-- Nothing is said of what is bound. -/
theorem confines_trivial (p : Eval α) : Confines (fun _ => True) p fun _ => True :=
  fun _ _ _ => ⟨fun _ _ _ _ => trivial, fun _ _ => trivial, fun _ _ _ _ => trivial⟩

theorem Confines.of_ok {p : Eval α} {Q : α → Prop} {limit : Nat} {m m' : Machine} {a : α}
    (h : Confines (fun _ => True) p Q) (hrun : p limit m = (.ok a, m')) : Q a :=
  (h limit m fun _ _ _ _ => trivial).given a (congrArg Prod.fst hrun)

/-- A list is given the size of its items, added one by one. -/
theorem confines_evalItems_foldl (size : Footprint) : (items : List Expr) →
    Confines (fun _ => True) (evalItems size items) fun p =>
      p.1 = p.2.foldl (fun f v => f.withItem (.of v)) size
  | [] => by
    rw [evalItems]
    exact confines_pure rfl
  | e :: rest => by
    rw [evalItems]
    refine (confines_trivial e.eval).bind fun v _ => (confines_check _ _).bind fun _ hf => ?_
    obtain ⟨rfl, -⟩ := hf
    exact (confines_evalItems_foldl _ rest).bind fun _ hp => confines_pure hp

/-- A record is given the size of its fields, added one by one, and the last field of a name counts. -/
theorem confines_evalFields_foldl (size : Footprint) (entries : List (String × Value)) :
    (fields : List Field) →
    Confines (fun _ => True) (evalFields size entries fields) fun p =>
      ∃ built : List (String × Value), p.1 = built.foldl Footprint.withField size ∧
        p.2 = built.foldl (fun m (name, v) => Keyed.insert name v m) entries
  | [] => by
    rw [evalFields]
    exact confines_pure ⟨[], rfl, rfl⟩
  | .mk name e :: rest => by
    rw [evalFields]
    refine (confines_trivial e.eval).bind fun v _ => (confines_check _ _).bind fun _ hf => ?_
    obtain ⟨rfl, -⟩ := hf
    refine (confines_evalFields_foldl _ _ rest).mono fun p hp => ?_
    obtain ⟨built, hsize, hentries⟩ := hp
    exact ⟨(name.text, v) :: built, hsize, hentries⟩

end Eval

/-! ## What is measured and what is estimated -/

open Footprint in
/-- **The stack, the recursion and the estimates agree.** A value is measured with a stack as by
recursion on it: its bytes are the sum of those in it, up to the greatest word, and a container nests one
deeper than the deepest value in it. A list literal is given the size of its list; a record literal is given at least that
of its record, whether its fields are taken as values or evaluated, in whatever state; and as many
characters are given at least the size of their list. -/
theorem Footprint.of_eq_tree_and_estimates :
    (∀ v, of v = tree v ∧ of v = ⟨saturate v.weight, v.height⟩) ∧
    (∀ values, values.foldl (fun f v => f.withItem (of v)) container = of (.list values)) ∧
    (∀ items limit m size values m',
      evalItems container items limit m = (.ok (size, values), m') → size = of (.list values)) ∧
    (∀ fields, of (.ofFields fields) ≤ fields.foldl withField container) ∧
    (∀ fields limit m size entries m',
      evalFields container [] fields limit m = (.ok (size, entries), m') →
        of (.record entries) ≤ size) ∧
    ∀ strings : List String, (∀ s ∈ strings, s.length = 1) →
      of (.list (strings.map .string)) ≤ chars strings.length := by
  refine ⟨fun v => ⟨of_eq_tree v, of_eq v⟩, foldl_withItem_container, ?_, of_ofFields_le, ?_,
    fun _ => of_le_chars⟩
  · intro items limit m size values m' hrun
    have hsize : size = values.foldl (fun f v => f.withItem (of v)) container :=
      (Eval.confines_evalItems_foldl container items).of_ok hrun
    rw [hsize, foldl_withItem_container]
  · intro fields limit m size entries m' hrun
    obtain ⟨built, rfl, rfl⟩ := (Eval.confines_evalFields_foldl container [] fields).of_ok hrun
    exact of_ofFields_le built

open Footprint in
/-- A list of two values, a record with a field that is set twice, and two characters. -/
theorem Footprint.of_eq_tree_and_estimates_repeated :
    let items : List Expr := [.string default "xyz", .nil default]
    let fields : List Field := items.map (.mk ⟨"a", default⟩)
    let after : Machine := ⟨.empty, 2, #[]⟩
    evalItems container items 100 (.start .empty) = (.ok (⟨51, 1⟩, [.string "xyz", .nil]), after) ∧
      ⟨51, 1⟩ = of (.list [.string "xyz", .nil]) ∧
      evalFields container [] fields 100 (.start .empty) = (.ok (⟨85, 1⟩, [("a", .nil)]), after) ∧
      of (.record [("a", .nil)]) ≤ ⟨85, 1⟩ ∧
      (∀ s ∈ ["a", "é"], s.length = 1) ∧ of (.list [.string "a", .string "é"]) ≤ chars 2 := by
  intro items fields after
  obtain ⟨-, -, hlist, -, hrecord, hchars⟩ := Footprint.of_eq_tree_and_estimates
  have hlength : ∀ s ∈ ["a", "é"], s.length = 1 := by decide
  have hrun : evalItems container items 100 (.start .empty) =
      (.ok (⟨51, 1⟩, [.string "xyz", .nil]), after) := rfl
  have hrun' : evalFields container [] fields 100 (.start .empty) =
      (.ok (⟨85, 1⟩, [("a", .nil)]), after) := rfl
  exact ⟨hrun, hlist _ _ _ _ _ _ hrun, hrun', hrecord _ _ _ _ _ _ hrun', hlength,
    hchars _ hlength⟩

end ParseActions
