import Mathlib.Data.List.DropRight
import Mathlib.Data.List.Nodup
import ParseActions.Session.Registry

/-!
# Names of actions

An action is added under a name without blanks around it that no other action has, and keeps its
name when its bodies change. So an action is known by its name.

## Main definitions

* `Registry.Orderly`: names are distinct, without blanks around them and not empty
* `Registry.activeName?`: the name of the active action

## Main results

* `Registry.Orderly.add`, `Registry.Orderly.toggle`, `Registry.Orderly.modifyActive`: what is done
  with a registry keeps it orderly
-/

namespace ParseActions

namespace Text

/-- What is cut at the end of a text that does not begin with a blank leaves no blank to cut at its
beginning. -/
theorem dropWhile_rdropWhile (cs : List Char) :
    (List.rdropWhile isBlank (cs.dropWhile isBlank)).dropWhile isBlank =
      List.rdropWhile isBlank (cs.dropWhile isBlank) := by
  obtain ⟨cut, hcut⟩ := List.rdropWhile_prefix isBlank (cs.dropWhile isBlank)
  cases hkept : List.rdropWhile isBlank (cs.dropWhile isBlank) with
  | nil => rfl
  | cons c kept =>
    -- the first character that is kept is the first one that is not blank
    have hfirst := List.head?_dropWhile_not isBlank cs
    rw [← hcut, hkept, List.cons_append, List.head?_cons] at hfirst
    exact List.dropWhile_cons_of_neg (Bool.eq_false_iff.mp hfirst)

/-- The characters that are left begin and end with others than blanks. -/
theorem trimChars_trimChars (cs : List Char) : trimChars (trimChars cs) = trimChars cs := by
  show List.rdropWhile isBlank
      ((List.rdropWhile isBlank (cs.dropWhile isBlank)).dropWhile isBlank) =
    List.rdropWhile isBlank (cs.dropWhile isBlank)
  rw [dropWhile_rdropWhile, List.rdropWhile_idempotent]

/-- **A text is trimmed once.** -/
@[simp] theorem trim_trim (text : String) : trim (trim text) = trim text := by
  simp only [trim, String.toList_ofList, trimChars_trimChars]

end Text

namespace Registry

variable {r r' : Registry} {name : String} {kind : ActionKind} {active : Bool}

/-! ## What changes a registry -/

/-- **An action is added** last, under the name without blanks around it, and is active then. -/
theorem add_eq_ok (h : r.add name kind = .ok r') :
    Text.trim name ≠ "" ∧ Text.trim name ∉ r.names ∧
      r' = ⟨r.actions ++ [.new (Text.trim name) kind], some r.actions.length⟩ := by
  simp only [add] at h
  split at h
  · cases h
  · next hblank =>
    split at h
    · cases h
    · next hposition =>
      refine ⟨?_, ?_, (Except.ok.inj h).symm⟩
      · intro hempty
        exact hblank (by rw [hempty]; rfl)
      · intro hmem
        obtain ⟨a, ha, hname⟩ := List.mem_map.mp hmem
        apply hposition
        rw [position?, List.findIdx?_isSome, List.any_eq_true]
        exact ⟨a, ha, beq_iff_eq.mpr hname⟩

/-- **Another place is active** after a toggle, which is that of an action, or none. -/
theorem toggle_eq_ok (h : r.toggle name = .ok (active, r')) :
    active = r'.activeIndex.isSome ∧ r'.actions = r.actions ∧
      ∀ i, r'.activeIndex = some i → i < r.actions.length := by
  rw [toggle] at h
  cases hposition : r.position? name with
  | none =>
    rw [hposition] at h
    cases h
  | some place =>
    obtain ⟨hplace, -⟩ := List.findIdx?_eq_some_iff_getElem.mp hposition
    simp only [hposition] at h
    split at h
    · obtain ⟨rfl, rfl⟩ := Prod.mk.inj (Except.ok.inj h)
      exact ⟨rfl, rfl, fun i hi => nomatch hi⟩
    · obtain ⟨rfl, rfl⟩ := Prod.mk.inj (Except.ok.inj h)
      refine ⟨rfl, rfl, ?_⟩
      intro i hi
      obtain rfl : place = i := Option.some.inj hi
      exact hplace

/-- A toggle that makes an action active finds it by its name, and not active before. -/
theorem toggle_eq_ok_true (h : r.toggle name = .ok (true, r')) :
    ∃ i, r.position? name = some i ∧ r.activeIndex ≠ some i ∧
      r' = { r with activeIndex := some i } := by
  rw [toggle] at h
  cases hposition : r.position? name with
  | none =>
    rw [hposition] at h
    cases h
  | some i =>
    simp only [hposition] at h
    split at h
    · cases (Prod.mk.inj (Except.ok.inj h)).1
    · next hother => exact ⟨i, rfl, hother, (Prod.mk.inj (Except.ok.inj h)).2.symm⟩

/-- A toggle after which no action is active changes nothing else. -/
theorem toggle_eq_ok_false (h : r.toggle name = .ok (false, r')) : r' = r.deselect := by
  rw [toggle] at h
  cases hposition : r.position? name with
  | none =>
    rw [hposition] at h
    cases h
  | some i =>
    simp only [hposition] at h
    split at h
    · exact (Prod.mk.inj (Except.ok.inj h)).2.symm
    · cases (Prod.mk.inj (Except.ok.inj h)).1

@[simp] theorem activeIndex_modifyActive (r : Registry) (f : Action → Action) :
    (r.modifyActive f).activeIndex = r.activeIndex := by
  rw [modifyActive]
  split
  · rfl
  · rfl

@[simp] theorem length_actions_modifyActive (r : Registry) (f : Action → Action) :
    (r.modifyActive f).actions.length = r.actions.length := by
  rw [modifyActive]
  split
  · rfl
  · exact List.length_modify _ _ _

/-- Only the active action changes. -/
theorem active?_modifyActive (r : Registry) (f : Action → Action) :
    (r.modifyActive f).active? = r.active?.map f := by
  rw [active?, activeIndex_modifyActive, active?, modifyActive]
  cases hactive : r.activeIndex with
  | none => rfl
  | some i =>
    simp only [Option.bind_some, List.getElem?_modify, if_pos]
    rfl

theorem getElem?_modifyActive (r : Registry) (f : Action → Action) (i : Nat) :
    (r.modifyActive f).actions[i]? =
      if r.activeIndex = some i then r.actions[i]?.map f else r.actions[i]? := by
  rw [modifyActive]
  cases r.activeIndex with
  | none => rfl
  | some j =>
    simp only [List.getElem?_modify, Option.some.injEq]
    split
    · rfl
    · exact Option.map_id_apply

/-- What keeps the name of an action keeps all names. -/
theorem names_modifyActive (r : Registry) {f : Action → Action} (hf : ∀ a, (f a).name = a.name) :
    (r.modifyActive f).names = r.names := by
  rw [modifyActive]
  split
  · rfl
  · next i _ =>
    apply List.ext_getElem?
    intro j
    simp only [names, List.getElem?_map, List.getElem?_modify]
    cases r.actions[j]? with
    | none => rfl
    | some a =>
      by_cases hij : i = j
      · simp [hij, hf]
      · simp [hij]

theorem mem_of_active? {a : Action} (h : r.active? = some a) : a ∈ r.actions := by
  obtain ⟨i, -, hi⟩ := Option.bind_eq_some_iff.mp h
  exact List.mem_of_getElem? hi

/-! ## The name of the active action -/

/-- The name of the active action. -/
def activeName? (r : Registry) : Option String :=
  r.active?.map Action.name

/-- The name of the active action is the one at the active place. -/
theorem activeName?_eq (r : Registry) :
    r.activeName? = r.activeIndex.bind fun i => r.names[i]? := by
  rw [activeName?, active?, Option.map_bind]
  simp only [names, List.getElem?_map]
  rfl

theorem position?_eq (r : Registry) (name : String) :
    r.position? name = r.names.findIdx? (· == name) := by
  rw [names, List.findIdx?_map]
  rfl

/-- Changing the active action under its name. -/
theorem activeName?_modifyActive (r : Registry) {f : Action → Action}
    (hf : ∀ a, (f a).name = a.name) : (r.modifyActive f).activeName? = r.activeName? := by
  rw [activeName?_eq, activeName?_eq, activeIndex_modifyActive, r.names_modifyActive hf]

/-- **An action that is added** is active, and its name is new. -/
theorem activeName?_add (h : r.add name kind = .ok r') :
    r'.activeName? = some (Text.trim name) ∧ r.activeName? ≠ some (Text.trim name) := by
  obtain ⟨-, hnew, rfl⟩ := add_eq_ok h
  refine ⟨?_, ?_⟩
  · simp [activeName?, active?, Action.new]
  · intro hactive
    obtain ⟨a, ha, hname⟩ := Option.map_eq_some_iff.mp hactive
    exact hnew (List.mem_map.mpr ⟨a, mem_of_active? ha, hname⟩)

/-! ## Orderly registries -/

/-- The names are distinct, without blanks around them and not empty, and the active place is that
of an action. -/
structure Orderly (r : Registry) : Prop where
  distinct : r.names.Nodup
  trimmed : ∀ name ∈ r.names, Text.trim name = name
  nonempty : ∀ name ∈ r.names, name ≠ ""
  active : ∀ i, r.activeIndex = some i → i < r.actions.length

namespace Orderly

theorem empty : Orderly .empty where
  distinct := List.nodup_nil
  trimmed _ hname := nomatch hname
  nonempty _ hname := nomatch hname
  active _ hi := nomatch hi

/-- A registry with the same names is orderly when the active place is that of an action. -/
theorem of_names (h : r.Orderly) (hnames : r'.names = r.names)
    (hactive : ∀ i, r'.activeIndex = some i → i < r'.actions.length) : r'.Orderly where
  distinct := hnames ▸ h.distinct
  trimmed := hnames ▸ h.trimmed
  nonempty := hnames ▸ h.nonempty
  active := hactive

/-- **Adding an action.** -/
theorem add (h : r.Orderly) (hadd : r.add name kind = .ok r') : r'.Orderly := by
  obtain ⟨hempty, hnew, rfl⟩ := add_eq_ok hadd
  have hnames : names ⟨r.actions ++ [.new (Text.trim name) kind], some r.actions.length⟩ =
      r.names ++ [Text.trim name] := by
    simp [names, Action.new]
  constructor
  · rw [hnames]
    refine List.nodup_append.mpr ⟨h.distinct, List.pairwise_singleton _ _, ?_⟩
    intro old hold new hname hsame
    rw [List.mem_singleton.mp hname] at hsame
    exact hnew (hsame ▸ hold)
  · rw [hnames]
    intro other hother
    rcases List.mem_append.mp hother with hother | hother
    · exact h.trimmed other hother
    · rw [List.mem_singleton.mp hother, Text.trim_trim]
  · rw [hnames]
    intro other hother
    rcases List.mem_append.mp hother with hother | hother
    · exact h.nonempty other hother
    · rw [List.mem_singleton.mp hother]
      exact hempty
  · intro i hi
    obtain rfl : r.actions.length = i := Option.some.inj hi
    simp

/-- **Making an action active**, or no action. -/
theorem toggle (h : r.Orderly) (htoggle : r.toggle name = .ok (active, r')) : r'.Orderly := by
  obtain ⟨-, hactions, hactive⟩ := toggle_eq_ok htoggle
  exact h.of_names (by rw [names, hactions, names]) (by rw [hactions]; exact hactive)

theorem deselect (h : r.Orderly) : r.deselect.Orderly :=
  h.of_names rfl fun _ hi => nomatch hi

/-- **Changing the active action** under its name. -/
theorem modifyActive (h : r.Orderly) {f : Action → Action} (hf : ∀ a, (f a).name = a.name) :
    (r.modifyActive f).Orderly := by
  refine h.of_names (r.names_modifyActive hf) ?_
  simpa using h.active

/-- **An action that is made active** was not active before. -/
theorem activeName?_toggle (h : r.Orderly) (htoggle : r.toggle name = .ok (true, r')) :
    r'.activeName? = some name ∧ r.activeName? ≠ some name := by
  obtain ⟨i, hposition, hother, rfl⟩ := toggle_eq_ok_true htoggle
  rw [position?_eq] at hposition
  obtain ⟨hi, hname, -⟩ := List.findIdx?_eq_some_iff_getElem.mp hposition
  have hplace : r.names[i]? = some name := by
    rw [List.getElem?_eq_getElem hi, eq_of_beq hname]
  refine ⟨?_, ?_⟩
  · rw [activeName?_eq]
    exact hplace
  · intro hactive
    rw [activeName?_eq] at hactive
    obtain ⟨j, hindex, hj⟩ := Option.bind_eq_some_iff.mp hactive
    obtain ⟨hj, hname'⟩ := List.getElem?_eq_some_iff.mp hj
    obtain ⟨hi, hname⟩ := List.getElem?_eq_some_iff.mp hplace
    -- no two actions have this name
    have hsame : j = i := h.distinct.getElem_inj_iff.mp (hname'.trans hname.symm)
    exact hother (hsame ▸ hindex)

end Orderly

end Registry

end ParseActions
