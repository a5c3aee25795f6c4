import Mathlib.Data.List.Nodup
import ParseActions.Action.Signature
import ParseActions.Proofs.Text.Parts

/-!
# Numbered names

Names that occur several times are numbered, one name after the other, in the list as it is by then.
Where no name is already there that a repeated one is numbered to, the numbering of one name meets
none of the others, and comes out as if all were numbered at once: the names are distinct then.

## Main definitions

* `Parameter.suffixed`: a name with a number
* `Parameter.labelled`: names of which some are numbered, all at once
* `Parameter.Clash`: a name is there that a repeated one is numbered to

## Main results

* `Parameter.distinguished_induction`: what numbering keeps of each name
* `Parameter.distinguished_eq_labelled`: without a clash, names are numbered as if all at once
* `Parameter.nodup_distinguished`: and are distinct
-/

namespace ParseActions.Parameter

variable {names xs before : List String} {x y r : String} {k n : Nat}

/-- A name with a number. -/
def suffixed (name : String) (k : Nat) : String :=
  s!"{name}_{k}"

theorem toList_suffixed (name : String) (k : Nat) :
    (suffixed name k).toList = name.toList ++ '_' :: Nat.toDigits 10 k := by
  simp [suffixed, toString]

theorem toList_positional (place : Nat) :
    (positional place).toList = '$' :: Nat.toDigits 10 place := by
  simp [positional, toString]

theorem positional_inj {j : Nat} (h : positional j = positional k) : j = k := by
  have hlists := congrArg String.toList h
  rw [toList_positional, toList_positional] at hlists
  exact Text.toDigits_inj (List.cons.inj hlists).2

/-- A number stands after the last underscore. -/
theorem suffixed_inj {j : Nat} (h : suffixed x j = suffixed y k) : x = y ∧ j = k := by
  have hlists := congrArg String.toList h
  rw [toList_suffixed, toList_suffixed] at hlists
  obtain ⟨hname, hnumber⟩ := Text.append_number_inj hlists
  exact ⟨String.toList_injective hname, hnumber⟩

/-! ## Numbering -/

theorem numbered_of_not_mem (h : r ∉ xs) : numbered r n xs = xs := by
  induction xs generalizing n with
  | nil => rfl
  | cons x xs ih =>
    obtain ⟨hx, hxs⟩ := not_or.mp (mt List.mem_cons.mpr h)
    rw [numbered, if_neg (Ne.symm hx), ih hxs]

/-- What holds of names, and of each name with a number of which it holds, holds when a name is
numbered. -/
theorem forall_mem_numbered {P : String → Prop} (hP : ∀ x k, P x → P (suffixed x k))
    (h : ∀ x ∈ xs, P x) : ∀ x ∈ numbered r n xs, P x := by
  induction xs generalizing n with
  | nil => exact h
  | cons x xs ih =>
    obtain ⟨hx, hxs⟩ := List.forall_mem_cons.mp h
    rw [numbered]
    split
    · next heq => exact List.forall_mem_cons.mpr ⟨hP _ _ (heq ▸ hx), ih hxs⟩
    · exact List.forall_mem_cons.mpr ⟨hx, ih hxs⟩

@[simp] theorem length_numbered : (numbered r n xs).length = xs.length := by
  induction xs generalizing n with
  | nil => rfl
  | cons x xs ih =>
    rw [numbered]
    split <;> simp [ih]

/-- **What numbers keep of a name** holds of all names when the repeated ones are numbered. -/
theorem distinguished_induction {P : String → Prop} (hP : ∀ x k, P x → P (suffixed x k))
    (h : ∀ x ∈ names, P x) : ∀ x ∈ distinguished names, P x := by
  refine List.foldlRecOn (motive := fun out => ∀ x ∈ out, P x) names _ h fun out hout r _ => ?_
  split
  · exact forall_mem_numbered hP hout
  · exact hout

@[simp] theorem length_distinguished (names : List String) :
    (distinguished names).length = names.length := by
  refine List.foldlRecOn (motive := fun out : List String => out.length = names.length) names _
    rfl fun out hout r _ => ?_
  split
  · exact length_numbered.trans hout
  · exact hout

/-! ## Numbering all names at once -/

/-- Names of which those in a set are numbered, after the names `before`. -/
def labelled (p : String → Prop) [DecidablePred p] (before : List String) :
    List String → List String
  | [] => []
  | x :: xs =>
    (if p x then suffixed x (before.count x + 1) else x) :: labelled p (x :: before) xs

/-- The occurrences of a name in what comes after a name and before it. -/
theorem count_cons_add (x z : String) (before xs : List String) :
    (x :: before).count z + xs.count z = before.count z + (x :: xs).count z := by
  rw [List.count_cons, List.count_cons]
  omega

/-- No name that is numbered becomes one of a list. -/
def Avoids (p : String → Prop) (before xs ys : List String) : Prop :=
  ∀ x, p x → ∀ k, 0 < k → k ≤ before.count x + xs.count x → suffixed x k ∉ ys

theorem Avoids.tail {p : String → Prop} {ys : List String} (h : Avoids p before (x :: xs) ys) :
    Avoids p (x :: before) xs ys :=
  fun z hz k hpos hle => h z hz k hpos (count_cons_add x z before xs ▸ hle)

theorem Avoids.mono {p : String → Prop} {ys zs : List String} (h : Avoids p before xs ys) (hzs : zs ⊆ ys) :
    Avoids p before xs zs :=
  fun z hz k hpos hle hmem => h z hz k hpos hle (hzs hmem)

section Labelled

variable {p q : String → Prop} [DecidablePred p] [DecidablePred q]

theorem labelled_congr (h : ∀ x ∈ xs, (p x ↔ q x)) : labelled p before xs = labelled q before xs := by
  induction xs generalizing before with
  | nil => rfl
  | cons x xs ih =>
    obtain ⟨hx, hxs⟩ := List.forall_mem_cons.mp h
    simp only [labelled, ih hxs, hx]

theorem labelled_of_forall_not (h : ∀ x ∈ xs, ¬ p x) : labelled p before xs = xs := by
  induction xs generalizing before with
  | nil => rfl
  | cons x xs ih =>
    obtain ⟨hx, hxs⟩ := List.forall_mem_cons.mp h
    rw [labelled, if_neg hx, ih hxs]

/-- A name is left as it is, or has the number of one of its occurrences. -/
theorem of_mem_labelled (h : y ∈ labelled p before xs) :
    ∃ x ∈ xs, ¬ p x ∧ y = x ∨ p x ∧ ∃ k, before.count x < k ∧
      k ≤ before.count x + xs.count x ∧ y = suffixed x k := by
  induction xs generalizing before with
  | nil => cases h
  | cons x xs ih =>
    rcases List.mem_cons.mp h with rfl | h
    · refine ⟨x, List.mem_cons_self, ?_⟩
      split
      · next hx =>
        refine .inr ⟨hx, before.count x + 1, Nat.lt_succ_self _, ?_, rfl⟩
        rw [List.count_cons_self]
        omega
      · next hx => exact .inl ⟨hx, rfl⟩
    · obtain ⟨z, hz, hcase⟩ := ih h
      refine ⟨z, List.mem_cons_of_mem _ hz, hcase.imp_right ?_⟩
      rintro ⟨hpz, k, hlow, hhigh, rfl⟩
      rw [count_cons_add] at hhigh
      exact ⟨hpz, k, Nat.lt_of_le_of_lt List.count_le_count_cons hlow, hhigh, rfl⟩

/-- **Numbering one more name** meets none of the numbered ones, if none of them became this name. -/
theorem numbered_labelled (hr : ¬ p r) (havoids : Avoids p before xs [r]) :
    numbered r (before.count r + 1) (labelled p before xs) =
      labelled (fun x => p x ∨ x = r) before xs := by
  induction xs generalizing before with
  | nil => rfl
  | cons x xs ih =>
    have hrest := ih havoids.tail
    by_cases hxr : x = r
    · subst hxr
      rw [List.count_cons_self] at hrest
      simp only [labelled, hr, if_false, numbered, if_true, or_true, hrest, suffixed]
    · rw [List.count_cons_of_ne hxr] at hrest
      by_cases hx : p x
      · have hne : suffixed x (before.count x + 1) ≠ r := by
          intro heq
          refine havoids x hx _ (Nat.succ_pos _) ?_ (List.mem_singleton.mpr heq)
          rw [List.count_cons_self]
          omega
        simp only [labelled, hx, if_true, numbered, hne, if_false, true_or, hrest]
      · simp only [labelled, hx, if_false, numbered, hxr, or_self, hrest]

/-- Names that are numbered at once are distinct, if those left as they are occur once, and no
numbered one became one of the names. -/
theorem nodup_labelled (honce : ∀ x, ¬ p x → before.count x + xs.count x ≤ 1)
    (havoids : Avoids p before xs xs) : (labelled p before xs).Nodup := by
  induction xs generalizing before with
  | nil => exact List.nodup_nil
  | cons x xs ih =>
    refine List.nodup_cons.mpr ⟨fun hmem => ?_, ih (fun z hz => ?_)
      (havoids.tail.mono (List.subset_cons_self x xs))⟩
    · obtain ⟨z, hz, ⟨hpz, heq⟩ | ⟨hpz, k, hlow, hhigh, heq⟩⟩ := of_mem_labelled hmem
      · split at heq
        · next hx =>
          -- a number was given to a name that makes it the name `z`
          refine havoids x hx _ (Nat.succ_pos _) ?_ (heq ▸ List.mem_cons_of_mem _ hz)
          rw [List.count_cons_self]
          omega
        · next hx =>
          have hcount := honce x hx
          have hpos := List.count_pos_iff.mpr (heq ▸ hz)
          rw [List.count_cons_self] at hcount
          omega
      · split at heq
        · obtain ⟨rfl, rfl⟩ := suffixed_inj heq
          rw [List.count_cons_self] at hlow
          exact Nat.lt_irrefl _ hlow
        · exact havoids.tail z hpz k (Nat.zero_lt_of_lt hlow) hhigh (heq ▸ List.mem_cons_self)
    · rw [count_cons_add]
      exact honce z hz

end Labelled

/-- A name is there that a repeated one is numbered to. -/
def Clash (names : List String) : Prop :=
  ∃ x ∈ names, 1 < names.count x ∧ ∃ k < names.count x, suffixed x (k + 1) ∈ names

instance : DecidablePred Clash := fun names =>
  inferInstanceAs <| Decidable <|
    ∃ x ∈ names, 1 < names.count x ∧ ∃ k < names.count x, suffixed x (k + 1) ∈ names

theorem avoids_of_not_clash (h : ¬ Clash names) :
    Avoids (fun x => 1 < names.count x) [] names names := by
  intro x hx k hpos hle hmem
  rw [List.count_nil, Nat.zero_add] at hle
  obtain ⟨k, rfl⟩ := Nat.exists_eq_add_one_of_ne_zero (Nat.ne_of_gt hpos)
  exact h ⟨x, List.count_pos_iff.mp (Nat.zero_lt_of_lt hx), hx, k, hle, hmem⟩

/-- The names in the course of numbering, when those of `done` have been numbered. -/
theorem foldl_numbered (h : ¬ Clash names) {done rest : List String} (hnames : done ++ rest = names) :
    rest.foldl (fun out r => if 1 < names.count r then numbered r 1 out else out)
        (labelled (fun x => 1 < names.count x ∧ x ∈ done) [] names) =
      labelled (fun x => 1 < names.count x) [] names := by
  induction rest generalizing done with
  | nil =>
    rw [List.append_nil] at hnames
    exact labelled_congr fun x hx => and_iff_left (hnames ▸ hx)
  | cons r rest ih =>
    have hmem : r ∈ names := by simp [← hnames]
    have havoids : Avoids (fun x => 1 < names.count x ∧ x ∈ done) [] names [r] :=
      fun x hx k hpos hle hr => avoids_of_not_clash h x hx.1 k hpos hle
        (List.mem_singleton.mp hr ▸ hmem)
    have hmore : done ++ [r] ++ rest = names := by simp [← hnames]
    rw [List.foldl_cons, ← ih hmore]
    congr 1
    by_cases hr : 1 < names.count r
    · rw [if_pos hr]
      by_cases hdone : r ∈ done
      · -- all occurrences of `r` have numbers, and none of the numbered names is `r`
        rw [numbered_of_not_mem]
        · refine labelled_congr fun x _ => and_congr_right fun _ => ?_
          rw [List.mem_append, List.mem_singleton]
          exact ⟨.inl, fun hx => hx.elim id fun hxr => hxr ▸ hdone⟩
        · intro hlabelled
          obtain ⟨z, -, ⟨hz, rfl⟩ | ⟨hz, k, hlow, hhigh, heq⟩⟩ := of_mem_labelled hlabelled
          · exact hz ⟨hr, hdone⟩
          · exact havoids z hz k (Nat.zero_lt_of_lt hlow) hhigh (List.mem_singleton.mpr heq.symm)
      · have hnumbered := numbered_labelled (fun hx => hdone hx.2) havoids
        rw [List.count_nil, Nat.zero_add] at hnumbered
        rw [hnumbered]
        refine labelled_congr fun x _ => ?_
        rw [List.mem_append, List.mem_singleton, and_or_left]
        exact or_congr_right ⟨fun hxr => ⟨hxr ▸ hr, hxr⟩, And.right⟩
    · rw [if_neg hr]
      refine labelled_congr fun x _ => and_congr_right fun hx => ?_
      rw [List.mem_append, List.mem_singleton]
      exact ⟨.inl, fun h => h.elim id fun hxr => absurd (hxr ▸ hx) hr⟩

/-- **Without a clash** names are numbered as if all at once. -/
theorem distinguished_eq_labelled (h : ¬ Clash names) :
    distinguished names = labelled (fun x => 1 < names.count x) [] names := by
  have hstart : labelled (fun x => 1 < names.count x ∧ x ∈ ([] : List String)) [] names = names :=
    labelled_of_forall_not fun _ _ hx => List.not_mem_nil hx.2
  have hfold := foldl_numbered h (List.nil_append names)
  rwa [hstart] at hfold

/-- **Without a clash** numbered names are distinct. -/
theorem nodup_distinguished (h : ¬ Clash names) : (distinguished names).Nodup := by
  rw [distinguished_eq_labelled h]
  refine nodup_labelled (fun x hx => ?_) (avoids_of_not_clash h)
  rw [List.count_nil, Nat.zero_add]
  exact Nat.not_lt.mp hx

end ParseActions.Parameter
