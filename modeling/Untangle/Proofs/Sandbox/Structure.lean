import Mathlib.Data.Fintype.Pigeonhole
import Mathlib.Logic.Relation
import Untangle.Proofs.Computation
import Untangle.Sandbox.Literal

set_option autoImplicit false

/-!
# The structure of values

What a value consists of, whether two values of two stores have the same structure, and why a value has no
tree: a function is inside of it, or it is inside of itself.
-/

namespace Untangle.Sandbox

/-! ## Chains -/

section

variable {R : Value → Value → Prop} {length : Nat} {s : Nat → Value}

theorem reflTransGen_of_chain (hs : ∀ i < length, R (s i) (s (i + 1))) {i : Nat} (hi : i ≤ length) :
    Relation.ReflTransGen R (s 0) (s i) := by
  induction i with
  | zero => exact .refl
  | succ i ih => exact (ih (by omega)).tail (hs i (by omega))

theorem transGen_of_chain (hs : ∀ i < length, R (s i) (s (i + 1))) {i j : Nat} (hij : i < j)
    (hj : j ≤ length) : Relation.TransGen R (s i) (s j) := by
  induction j with
  | zero => omega
  | succ j ih =>
    rcases Nat.lt_or_eq_of_le (Nat.le_of_lt_succ hij) with hlt | rfl
    · exact (ih hlt (by omega)).tail (hs j (by omega))
    · exact .single (hs i (by omega))

/-- A chain that leads on from so many objects only, and is longer than there are of them, comes back to
one of them. -/
theorem cycle_of_chain {size : Nat} (hplace : ∀ v w, R v w → ∃ r < size, v = .object r)
    (hs : ∀ i < length, R (s i) (s (i + 1))) (hlength : size < length) :
    ∃ v, Relation.ReflTransGen R (s 0) v ∧ Relation.TransGen R v v := by
  have hplaces : ∀ i : Fin (size + 1), ∃ r : Fin size, s i = .object r := by
    intro i
    obtain ⟨r, hr, hsi⟩ := hplace _ _ (hs i (by omega))
    exact ⟨⟨r, hr⟩, hsi⟩
  choose place hplace using hplaces
  -- There are more values in the chain than places for them.
  obtain ⟨i, j, hne, hsame⟩ := Fintype.exists_ne_map_eq_of_card_lt place (by simp)
  have hvalue : s i = s j := by rw [hplace, hplace, hsame]
  have hcycle : ∀ {i j : Fin (size + 1)}, i < j → s i = s j →
      ∃ v, Relation.ReflTransGen R (s 0) v ∧ Relation.TransGen R v v := by
    intro i j hlt hvalue
    have hbelow := transGen_of_chain hs (i := i) (j := j) hlt (by omega)
    rw [← hvalue] at hbelow
    exact ⟨s i, reflTransGen_of_chain hs (by omega), hbelow⟩
  rcases lt_or_gt_of_ne hne with hlt | hgt
  · exact hcycle hlt hvalue
  · exact hcycle hgt hvalue.symm

end

/-! ## What is inside of a value -/

/-- The values that are written where an object is: the elements of an array, and the properties of any
other object that is no function. -/
def Cell.parts (c : Cell) : List Value :=
  match c.body with
  | .array es => es.toList
  | .plain => c.properties.values
  | .closure _ _ _ | .native _ => []

/-- A value is a part of another one. -/
def PartOf (h : Heap) (v w : Value) : Prop := ∃ r, v = .object r ∧ w ∈ (h.getD r default).parts

/-- A value is another one, or inside of it. -/
abbrev Inside (h : Heap) : Value → Value → Prop := Relation.ReflTransGen (PartOf h)

/-- The name of a function. -/
def Body.functionName? : Body → Option Text
  | .closure _ _ name => some name
  | .native fn => some fn.name
  | .plain | .array _ => none

/-- A function of a name is a value, or inside of it. -/
def HasFunction (h : Heap) (v : Value) (name : Text) : Prop :=
  ∃ r, Inside h v (.object r) ∧ (h.getD r default).body.functionName? = some name

/-- An object that contains itself is a value, or inside of it. -/
def HasCycle (h : Heap) (v : Value) : Prop := ∃ w, Inside h v w ∧ Relation.TransGen (PartOf h) w w

theorem HasFunction.of_part {h : Heap} {v w : Value} {name : Text} (hw : HasFunction h w name)
    (hpart : PartOf h v w) : HasFunction h v name := by
  obtain ⟨r, hinside, hname⟩ := hw
  exact ⟨r, .head hpart hinside, hname⟩

/-! ## Why a value has no tree -/

/-- A chain of values each of which is a part of the one before it. -/
def Descends (h : Heap) (length : Nat) (s : Nat → Value) : Prop :=
  ∀ i < length, PartOf h (s i) (s (i + 1))

/-- Only objects of the store have parts. -/
theorem PartOf.exists_lt {h : Heap} {v w : Value} (hpart : PartOf h v w) :
    ∃ r < h.size, v = .object r := by
  obtain ⟨r, rfl, hw⟩ := hpart
  refine ⟨r, ?_, rfl⟩
  by_contra hle
  rw [Array.getD_eq_getD_getElem?, Array.getElem?_eq_none (Nat.le_of_not_lt hle)] at hw
  cases hw

/-- A chain that is longer than the store comes back to an object of it. -/
theorem Descends.cycle {h : Heap} {length : Nat} {s : Nat → Value} (hs : Descends h length s)
    (hlength : h.size < length) : HasCycle h (s 0) :=
  cycle_of_chain (fun _ _ => PartOf.exists_lt) hs hlength

/-- Why a value has no tree when so many objects may be inside of each other. -/
inductive Unwritten (h : Heap) (fuel : Nat) (v : Value) : Unwritable → Prop
  | function {name : Text} : HasFunction h v name → Unwritten h fuel v (.function name)
  | cyclic {s : Nat → Value} : s 0 = v → Descends h fuel s → Unwritten h fuel v .cyclic

/-- What has no tree because of one of its parts. -/
theorem Unwritten.of_part {h : Heap} {fuel : Nat} {v w : Value} {u : Unwritable}
    (hw : Unwritten h fuel w u) (hpart : PartOf h v w) : Unwritten h (fuel + 1) v u := by
  cases hw with
  | function hname => exact .function (hname.of_part hpart)
  | @cyclic s hfirst hs =>
    refine .cyclic (s := fun i => i.casesOn v s) rfl fun i hi => ?_
    cases i with
    | zero =>
      subst hfirst
      exact hpart
    | succ i => exact hs i (by omega)

section

variable {h : Heap} {fuel : Nat}

theorem unwritten_elements {u : Unwritable} {vs : List Value}
    (ih : ∀ v u, valueNodeGo h fuel v = .error u → Unwritten h fuel v u)
    (herror : elementNodes h fuel vs = .error u) : ∃ v ∈ vs, Unwritten h fuel v u := by
  induction vs with
  | nil =>
    rw [elementNodes] at herror
    cases herror
  | cons v vs ihs =>
    unfold elementNodes at herror
    cases hv : valueNodeGo h fuel v with
    | error u' =>
      rw [hv] at herror
      cases herror
      exact ⟨v, List.mem_cons_self, ih v u hv⟩
    | ok n =>
      rw [hv] at herror
      cases hvs : elementNodes h fuel vs with
      | error u' =>
        rw [hvs] at herror
        cases herror
        obtain ⟨w, hw, hunwritten⟩ := ihs hvs
        exact ⟨w, List.mem_cons_of_mem v hw, hunwritten⟩
      | ok ns =>
        rw [hvs] at herror
        cases herror

theorem unwritten_properties {u : Unwritable} {es : List (Text × Value)}
    (ih : ∀ v u, valueNodeGo h fuel v = .error u → Unwritten h fuel v u)
    (herror : propertyNodes h fuel es = .error u) : ∃ v ∈ es.map (·.2), Unwritten h fuel v u := by
  induction es with
  | nil =>
    rw [propertyNodes] at herror
    cases herror
  | cons e es ihs =>
    obtain ⟨key, v⟩ := e
    unfold propertyNodes at herror
    cases hv : valueNodeGo h fuel v with
    | error u' =>
      rw [hv] at herror
      cases herror
      exact ⟨v, List.mem_cons_self, ih v u hv⟩
    | ok n =>
      rw [hv] at herror
      cases hes : propertyNodes h fuel es with
      | error u' =>
        rw [hes] at herror
        cases herror
        obtain ⟨w, hw, hunwritten⟩ := ihs hes
        exact ⟨w, List.mem_cons_of_mem v hw, hunwritten⟩
      | ok ns =>
        rw [hes] at herror
        cases herror

/-- A value without a tree has a function inside of it, or a chain of parts as long as allowed. -/
theorem unwritten_of_error {v : Value} {u : Unwritable} (herror : valueNodeGo h fuel v = .error u) :
    Unwritten h fuel v u := by
  induction fuel generalizing v u with
  | zero =>
    rw [valueNodeGo] at herror
    cases herror
    exact .cyclic (s := fun _ => v) rfl fun i hi => absurd hi (Nat.not_lt_zero i)
  | succ fuel ih =>
    unfold valueNodeGo at herror
    cases v with
    | object r =>
      simp only at herror
      cases hbody : (h.getD r default).body with
      | array es =>
        simp only [hbody] at herror
        cases hes : elementNodes h fuel es.toList with
        | ok ns =>
          rw [hes] at herror
          cases herror
        | error u' =>
          rw [hes] at herror
          cases herror
          obtain ⟨w, hw, hunwritten⟩ := unwritten_elements (fun v u => ih) hes
          exact hunwritten.of_part ⟨r, rfl, by simpa only [Cell.parts, hbody] using hw⟩
      | plain =>
        simp only [hbody] at herror
        cases hes : propertyNodes h fuel (h.getD r default).properties.entries with
        | ok ns =>
          rw [hes] at herror
          cases herror
        | error u' =>
          rw [hes] at herror
          cases herror
          obtain ⟨w, hw, hunwritten⟩ := unwritten_properties (fun v u => ih) hes
          exact hunwritten.of_part ⟨r, rfl, by simpa only [Cell.parts, hbody, Dict.values] using hw⟩
      | closure code scopes name =>
        simp only [hbody] at herror
        cases herror
        exact .function ⟨r, .refl, by rw [hbody]; rfl⟩
      | native fn =>
        simp only [hbody] at herror
        cases herror
        exact .function ⟨r, .refl, by rw [hbody]; rfl⟩
    | _ => cases herror

/-- A value has no tree because of a function inside of it, or because it is inside of itself. -/
theorem reason_of_valueNode {v : Value} {u : Unwritable} (herror : valueNode h v = .error u) :
    (∃ name, u = .function name ∧ HasFunction h v name) ∨ (u = .cyclic ∧ HasCycle h v) := by
  cases unwritten_of_error herror with
  | function hname => exact .inl ⟨_, rfl, hname⟩
  | cyclic hfirst hs =>
    subst hfirst
    exact .inr ⟨rfl, hs.cycle (by unfold nestingBound; omega)⟩

end

/-! ## Values of the same structure -/

mutual

/-- A value of a store and a value of another one have the same structure: they are the same primitive
value, or both are arrays or both are plain objects, with elements and properties of the same structure in
the same order. -/
inductive Alike (h h' : Heap) : Value → Value → Prop
  | primitive {v : Value} : v.isObject = false → Alike h h' v v
  | array {r r' : Ref} {es es' : Array Value} : (h.getD r default).body = .array es →
      (h'.getD r' default).body = .array es' → r' < h'.size →
      AllAlike h h' es.toList es'.toList →
      EntriesAlike h h' (h.getD r default).properties.entries
        (h'.getD r' default).properties.entries →
      Alike h h' (.object r) (.object r')
  | plain {r r' : Ref} : (h.getD r default).body = .plain → (h'.getD r' default).body = .plain →
      r' < h'.size →
      EntriesAlike h h' (h.getD r default).properties.entries
        (h'.getD r' default).properties.entries →
      Alike h h' (.object r) (.object r')

/-- Values that are alike one by one. -/
inductive AllAlike (h h' : Heap) : List Value → List Value → Prop
  | nil : AllAlike h h' [] []
  | cons {v v' : Value} {vs vs' : List Value} : Alike h h' v v' → AllAlike h h' vs vs' →
      AllAlike h h' (v :: vs) (v' :: vs')

/-- Properties with the same keys in the same order, whose values are alike. -/
inductive EntriesAlike (h h' : Heap) : List (Text × Value) → List (Text × Value) → Prop
  | nil : EntriesAlike h h' [] []
  | cons {key : Text} {v v' : Value} {es es' : List (Text × Value)} : Alike h h' v v' →
      EntriesAlike h h' es es' → EntriesAlike h h' ((key, v) :: es) ((key, v') :: es')

end

theorem getD_append {h : Heap} {r : Ref} (hr : r < h.size) (cells : Array Cell) :
    (h ++ cells).getD r default = h.getD r default := by
  rw [Array.getD_eq_getD_getElem?, Array.getD_eq_getD_getElem?, Array.getElem?_append_left hr]

mutual

/-- Further objects in a store change no structure. -/
theorem Alike.append {h h' : Heap} (cells : Array Cell) {v v' : Value} :
    Alike h h' v v' → Alike h (h' ++ cells) v v'
  | .primitive hv => .primitive hv
  | .array hbody hbody' hlt hes hentries => by
    have hcell := getD_append hlt cells
    refine .array hbody (hcell ▸ hbody') ?_ (hes.append cells) ?_
    · rw [Array.size_append]
      exact Nat.lt_add_right _ hlt
    · rw [hcell]
      exact hentries.append cells
  | .plain hbody hbody' hlt hentries => by
    have hcell := getD_append hlt cells
    refine .plain hbody (hcell ▸ hbody') ?_ ?_
    · rw [Array.size_append]
      exact Nat.lt_add_right _ hlt
    · rw [hcell]
      exact hentries.append cells

theorem AllAlike.append {h h' : Heap} (cells : Array Cell) {vs vs' : List Value} :
    AllAlike h h' vs vs' → AllAlike h (h' ++ cells) vs vs'
  | .nil => .nil
  | .cons hv hvs => .cons (hv.append cells) (hvs.append cells)

theorem EntriesAlike.append {h h' : Heap} (cells : Array Cell) {es es' : List (Text × Value)} :
    EntriesAlike h h' es es' → EntriesAlike h (h' ++ cells) es es'
  | .nil => .nil
  | .cons hv hes => .cons (hv.append cells) (hes.append cells)

end

end Untangle.Sandbox
