import Untangle.Proofs.Number.Natural
import Untangle.Proofs.Sandbox.Codings
import Untangle.Proofs.Sandbox.Keys
import Untangle.Proofs.Sandbox.Pairing

set_option autoImplicit false

/-!
# Arrays as maps with a length

An array keeps its elements, its length and its other properties in different ways, and tells by the key which of them
is meant.  However it is edited, no property has the name of an element or of the length, so that what is put under a
key is found there and under no other one.  What is not provided for are lengths beyond all that there can be: the
computation ends then, where an invalid length is refused with an error object.

The main theorem is `edited_actsAsMap`, over all sequences of properties that are put and deleted.  Where an edit
would add more elements than an array can have, it says that the computation ends.
-/

namespace Untangle.Sandbox

open Run (putOwn deleteOwn putLength)

/-! ## Elements -/

section

variable {es : Array Value} {named : Dict Text Value} {i j n : Nat} {v : Value}

theorem toList_resize (es : Array Value) (n : Nat) :
    (resize es n).toList = es.toList.take n ++ List.replicate (n - es.size) .undefined := by
  unfold resize
  split
  · next hle => simp [Nat.sub_eq_zero_of_le hle]
  · next hless =>
    have hall : es.toList.take n = es.toList := List.take_of_length_le (by rw [Array.length_toList]; omega)
    rw [hall, Array.toList_append, Array.toList_replicate]

theorem size_resize (es : Array Value) (n : Nat) : (resize es n).size = n := by
  rw [← Array.length_toList, toList_resize, List.length_append, List.length_take, List.length_replicate,
    Array.length_toList]
  omega

theorem getD_setElement (es : Array Value) (i j : Nat) (v : Value) :
    (setElement es i v).getD j .undefined = if j = i then v else es.getD j .undefined := by
  unfold setElement
  simp only [Array.getD_eq_getD_getElem?]
  split
  · next hless =>
    rw [Array.getElem?_setIfInBounds]
    by_cases hj : j = i
    · subst hj
      simp [hless]
    · rw [if_neg (Ne.symm hj), if_neg hj]
  · next hless =>
    have hsize : (es ++ Array.replicate (i - es.size) Value.undefined).size = i := by simp; omega
    rw [Array.getElem?_push, hsize]
    by_cases hj : j = i
    · simp [hj]
    · rw [if_neg hj, if_neg hj, Array.getElem?_append, Array.getElem?_replicate]
      split
      · rfl
      · next hbeyond =>
        rw [Array.getElem?_eq_none (by omega)]
        split <;> rfl

theorem size_setElement (es : Array Value) (i : Nat) (v : Value) :
    (setElement es i v).size = max es.size (i + 1) := by
  unfold setElement
  split
  · next hless => rw [Array.size_setIfInBounds]; omega
  · next hless => simp; omega

end

/-! ## Slots -/

/-- Keys under which there is the same thing: they are equal, or indices of the same element. -/
def SameSlot (j k : Text) : Prop := j = k ∨ ∃ i, arrayIndex j = .ok (some i) ∧ arrayIndex k = .ok (some i)

/-- The elements and the other properties of an array do not get in each other's way. -/
structure Separate (es : Array Value) (named : Dict Text Value) : Prop where
  distinct : named.keys.Nodup
  names : ∀ k ∈ named.keys, arrayIndex k = .ok none ∧ k ≠ Text.of "length"
  bounded : es.size ≤ 10 ^ maxKeyDigits

namespace Separate

variable {es : Array Value} {named : Dict Text Value} {key k : Text}

theorem lengthBound_le : lengthBound ≤ 10 ^ maxKeyDigits :=
  calc lengthBound ≤ 10 ^ 19 := by decide
    _ ≤ 10 ^ maxKeyDigits := Nat.pow_le_pow_right (by decide) (by decide)

theorem made (h : es.size < lengthBound) : Separate es .empty :=
  ⟨List.nodup_nil, by rintro k ⟨⟩, h.le.trans lengthBound_le⟩

theorem setElement (h : Separate es named) {i : Nat} (hi : arrayIndex key = .ok (some i)) (v : Value) :
    Separate (setElement es i v) named := by
  refine { h with bounded := ?_ }
  rw [size_setElement]
  exact max_le h.bounded (index_lt hi)

theorem put (h : Separate es named) (hkey : arrayIndex key = .ok none) (hne : key ≠ Text.of "length") (v : Value) :
    Separate es (named.put key v) := by
  refine { h with distinct := Dict.nodup_keys_put h.distinct key v, names := ?_ }
  intro k hk
  rcases Dict.mem_keys_put.mp hk with rfl | hk
  · exact ⟨hkey, hne⟩
  · exact h.names k hk

theorem erase (h : Separate es named) (key : Text) : Separate es (named.erase key) := by
  have hkeys := Dict.keys_erase named key
  refine { h with distinct := ?_, names := ?_ }
  · rw [hkeys]
    exact h.distinct.filter _
  · intro k hk
    rw [hkeys] at hk
    exact h.names k (List.mem_of_mem_filter hk)

/-- The keys of an array are all different. -/
theorem nodup_keys (h : Separate es named) : (Cell.keys ⟨.array es, named⟩).Nodup := by
  have hindices : ((List.range es.size).map Text.ofNat).Nodup :=
    List.nodup_range.map fun i j heq => Text.ofNat_injective heq
  refine List.nodup_append.mpr ⟨hindices, h.distinct, ?_⟩
  rintro k hk j hj rfl
  obtain ⟨i, hi, rfl⟩ := List.mem_map.mp hk
  have hindex := arrayIndex_ofNat ((List.mem_range.mp hi).trans_le h.bounded)
  rw [(h.names _ hj).1] at hindex
  cases hindex

/-- An array has what its keys say. -/
theorem has_of_mem_keys (h : Separate es named) (hk : k ∈ Cell.keys ⟨.array es, named⟩) :
    Cell.has ⟨.array es, named⟩ k = .ok true := by
  rcases List.mem_append.mp hk with hk | hk
  · obtain ⟨i, hi, rfl⟩ := List.mem_map.mp hk
    rw [List.mem_range] at hi
    rw [has_of_index (arrayIndex_ofNat (hi.trans_le h.bounded)), decide_eq_true hi]
  · rw [has_of_name (h.names k hk).1, show named.contains k = true from Dict.mem_keys_iff.mp hk, Bool.or_true]

end Separate

/-- What an array does not have is undefined. -/
theorem get_of_not_has {es : Array Value} {named : Dict Text Value} {k : Text}
    (h : Cell.has ⟨.array es, named⟩ k = .ok false) : Cell.get ⟨.array es, named⟩ k = .ok .undefined := by
  cases hindex : arrayIndex k with
  | error e =>
    rw [has_of_error hindex] at h
    cases h
  | ok slot =>
    cases slot with
    | some i =>
      rw [has_of_index hindex, Except.ok.injEq, decide_eq_false_iff_not] at h
      rw [get_of_index hindex, Array.getD_eq_getD_getElem?, Array.getElem?_eq_none (Nat.le_of_not_lt h)]
      rfl
    | none =>
      rw [has_of_name hindex, Except.ok.injEq, Bool.or_eq_false_iff, beq_eq_false_iff_ne] at h
      have hnone : named.get? k = none := by simpa [Dict.contains] using h.2
      rw [get_of_name hindex h.1, hnone]
      rfl

/-! ## Edits -/

section

variable {m : Machine} {r : Ref} {es : Array Value} {named : Dict Text Value} {key : Text} {v : Value} {e : Abrupt}

/-- The machine with another object at a place. -/
def Machine.withCell (m : Machine) (r : Ref) (c : Cell) : Machine :=
  { m with heap := m.heap.setIfInBounds r c }

/-- The machine with another object in a new place. -/
def Machine.withNew (m : Machine) (c : Cell) : Machine := { m with heap := m.heap.push c }

theorem cell_withNew (m : Machine) (c : Cell) (q : Ref) :
    (m.withNew c).cell q = if q = m.heap.size then c else m.cell q := by
  rw [Machine.withNew, Pairing.cell_push]

theorem lt_of_cell (hcell : m.cell r = ⟨.array es, named⟩) : r < m.heap.size := by
  by_contra hbeyond
  rw [Machine.cell, Array.getD_eq_getD_getElem?, Array.getElem?_eq_none (Nat.le_of_not_lt hbeyond)] at hcell
  cases hcell

theorem cell_withCell (hcell : m.cell r = ⟨.array es, named⟩) (c : Cell) : (m.withCell r c).cell r = c := by
  rw [Machine.withCell, Pairing.cell_set, if_pos ⟨rfl, lt_of_cell hcell⟩]

theorem boundLength_of_lt {n : Nat} (h : n < lengthBound) (m : Machine) : Run.boundLength n m = .ok () m := by
  rw [Run.boundLength, if_neg (Nat.not_le.mpr h)]
  rfl

theorem boundLength_of_le {n : Nat} (h : lengthBound ≤ n) (m : Machine) :
    Run.boundLength n m = .error (.fault .greatCount) m := by
  rw [Run.boundLength, if_pos h]
  rfl

theorem setElements_eq (hcell : m.cell r = ⟨.array es, named⟩) (es' : Array Value) :
    Run.setElements r es' m = .ok () (m.withCell r ⟨.array es', named⟩) := by
  show Run.setCell r { m.cell r with body := .array es' } m = _
  rw [hcell]
  rfl

/-- What a put does to an array depends on what its key stands for. -/
theorem putOwn_eq (hcell : m.cell r = ⟨.array es, named⟩) (key : Text) (v : Value) :
    putOwn r key v m =
      (Run.reading (fun _ => arrayIndex key) >>= fun slot => slot.elim
        (if key == Text.of "length" then putLength r es v else Run.setCell r ⟨.array es, named.put key v⟩)
        fun i => Run.boundLength (i + 1 - es.size) >>= fun _ => Run.setElements r (setElement es i v)) m := by
  have hread : Run.cell r m = .ok ⟨.array es, named⟩ m := by
    rw [← hcell]
    rfl
  rw [putOwn, bind_of_ok hread]
  dsimp only
  refine congrFun (congrArg (Run.reading (fun _ => arrayIndex key) >>= ·) (funext fun slot => ?_)) m
  cases slot <;> rfl

/-- An index asks for an array that is long enough. -/
theorem putOwn_index {i : Nat} (hcell : m.cell r = ⟨.array es, named⟩) (h : arrayIndex key = .ok (some i)) (v : Value) :
    putOwn r key v m =
      (Run.boundLength (i + 1 - es.size) >>= fun _ => Run.setElements r (setElement es i v)) m := by
  rw [putOwn_eq hcell, bind_of_ok (by rw [reading_eq, h])]
  rfl

theorem putOwn_of_index {i : Nat} (hcell : m.cell r = ⟨.array es, named⟩) (h : arrayIndex key = .ok (some i))
    (hless : i + 1 - es.size < lengthBound) (v : Value) :
    putOwn r key v m = .ok () (m.withCell r ⟨.array (setElement es i v), named⟩) := by
  rw [putOwn_index hcell h, bind_of_ok (boundLength_of_lt hless m), setElements_eq hcell]

theorem putOwn_of_index_beyond {i : Nat} (hcell : m.cell r = ⟨.array es, named⟩)
    (h : arrayIndex key = .ok (some i)) (hle : lengthBound ≤ i + 1 - es.size) (v : Value) :
    putOwn r key v m = .error (.fault .greatCount) m := by
  rw [putOwn_index hcell h, bind_of_error (boundLength_of_le hle m)]

theorem putOwn_of_name (hcell : m.cell r = ⟨.array es, named⟩) (h : arrayIndex key = .ok none)
    (hne : key ≠ Text.of "length") (v : Value) :
    putOwn r key v m = .ok () (m.withCell r ⟨.array es, named.put key v⟩) := by
  rw [putOwn_eq hcell, bind_of_ok (by rw [reading_eq, h]), Option.elim_none, if_neg (by simpa using hne)]
  rfl

/-! ## Lengths -/

/-- A number is a length: a whole number that is not negative. -/
def IsLength (x : Float) (n : Nat) : Prop := Binary64.isFinite x = true ∧ Binary64.value x = n

theorem IsLength.truncate_eq {x : Float} {n : Nat} (h : IsLength x n) : Binary64.truncate x = n := by
  rw [Binary64.truncate_eq_cutOff, h.2]
  exact Binary64.cutOff_intCast n

/-- The test for valid lengths. -/
theorem exists_isLength_iff {x : Float} :
    (∃ n, IsLength x n) ↔ Binary64.isInteger x = true ∧ ¬x < 0.0 := by
  rw [Binary64.isInteger_iff]
  constructor
  · rintro ⟨n, hfinite, hvalue⟩
    refine ⟨⟨hfinite, n, by rw [hvalue]; rfl⟩, ?_⟩
    rw [Binary64.lt_zero_iff hfinite, hvalue, not_lt]
    exact Nat.cast_nonneg n
  · rintro ⟨⟨hfinite, n, hvalue⟩, hnonneg⟩
    rw [Binary64.lt_zero_iff hfinite, hvalue, not_lt] at hnonneg
    obtain ⟨k, rfl⟩ := Int.eq_ofNat_of_zero_le (a := n) (by exact_mod_cast hnonneg)
    exact ⟨k, hfinite, hvalue⟩

theorem putOwn_length (hcell : m.cell r = ⟨.array es, named⟩) (v : Value) :
    putOwn r (Text.of "length") v m = putLength r es v m := by
  rw [putOwn_eq hcell, bind_of_ok (by rw [reading_eq, arrayIndex_length]), Option.elim_none, if_pos (beq_self_eq_true _)]

/-- What a put does to the length of an array depends on the number that is put. -/
theorem putLength_eq {x : Float} (hx : toNumber m.heap v = .ok x) :
    putLength r es v m =
      if !Binary64.isInteger x || x < 0.0 then
        Run.raise "RangeError" "Invalid array length" m
      else (Run.boundLength ((Binary64.truncate x).toNat - es.size) >>= fun _ =>
        Run.setElements r (resize es (Binary64.truncate x).toNat)) m := by
  rw [putLength, bind_of_ok (by rw [reading_eq, hx])]
  split <;> rfl

theorem putOwn_length_of_isLength {x : Float} {n : Nat} (hcell : m.cell r = ⟨.array es, named⟩)
    (hx : toNumber m.heap v = .ok x) (hn : IsLength x n) :
    putOwn r (Text.of "length") v m =
      if n - es.size < lengthBound then .ok () (m.withCell r ⟨.array (resize es n), named⟩)
      else .error (.fault .greatCount) m := by
  obtain ⟨hinteger, hnonneg⟩ := exists_isLength_iff.mp ⟨n, hn⟩
  have htest : ¬(!Binary64.isInteger x || decide (x < 0.0)) = true := by simp [hinteger, hnonneg]
  rw [putOwn_length hcell, putLength_eq hx, if_neg htest, hn.truncate_eq, Int.toNat_natCast]
  split
  · next hless => rw [bind_of_ok (boundLength_of_lt hless m), setElements_eq hcell]
  · next hbeyond => rw [bind_of_error (boundLength_of_le (Nat.le_of_not_lt hbeyond) m)]

theorem putOwn_length_of_invalid {x : Float} (hcell : m.cell r = ⟨.array es, named⟩)
    (hx : toNumber m.heap v = .ok x) (hinvalid : ¬∃ n, IsLength x n) :
    putOwn r (Text.of "length") v m =
      .error (.thrown (.object m.heap.size)) (m.withError "RangeError" "Invalid array length") := by
  have htest : (!Binary64.isInteger x || decide (x < 0.0)) = true := by
    by_contra hvalid
    simp only [Bool.or_eq_true, Bool.not_eq_true', decide_eq_true_iff, not_or, Bool.not_eq_false] at hvalid
    exact hinvalid (exists_isLength_iff.mpr hvalid)
  rw [putOwn_length hcell, putLength_eq hx, if_pos htest]
  exact throws_raise _ _ m

theorem putOwn_length_of_error (hcell : m.cell r = ⟨.array es, named⟩) (hv : toNumber m.heap v = .error e) :
    putOwn r (Text.of "length") v m = .error e m := by
  rw [putOwn_length hcell, putLength, bind_of_error (by rw [reading_eq, hv])]

theorem cell_withError (hcell : m.cell r = ⟨.array es, named⟩) (kind : String) (message : Text) :
    (m.withError kind message).cell r = m.cell r :=
  (cell_withNew m _ r).trans (if_neg (lt_of_cell hcell).ne)

/-! ## Deleting -/

theorem delete_of_index {i : Nat} (h : arrayIndex key = .ok (some i)) :
    Cell.delete ⟨.array es, named⟩ key = .ok ⟨.array (es.setIfInBounds i .undefined), named⟩ := by
  simp only [Cell.delete, h]
  rfl

theorem delete_of_name (h : arrayIndex key = .ok none) :
    Cell.delete ⟨.array es, named⟩ key = .ok ⟨.array es, named.erase key⟩ := by
  simp only [Cell.delete, h]
  rfl

theorem deleteOwn_eq {c : Cell} (h : (m.cell r).delete key = .ok c) : deleteOwn r key m = .ok () (m.withCell r c) := by
  show (Run.reading (fun _ => (m.cell r).delete key) >>= fun c => Run.setCell r c) m = _
  rw [h]
  rfl

end

/-! ## Arrays after any edits -/

/-- The machine in which a computation has ended. -/
def endState {ε σ α : Type} : EStateM.Result ε σ α → σ
  | .ok _ s => s
  | .error _ s => s

/-- The machines in which an array without other properties has been edited by putting and deleting under keys that
can be read, whatever else has changed. -/
inductive Edited (r : Ref) : Machine → Prop
  | made {m : Machine} {es : Array Value} (hcell : m.cell r = ⟨.array es, .empty⟩) (hsize : es.size < lengthBound) :
      Edited r m
  | put {m : Machine} {key : Text} {slot : Option Nat} (h : Edited r m) (hkey : arrayIndex key = .ok slot)
      (v : Value) : Edited r (endState (putOwn r key v m))
  | delete {m : Machine} {key : Text} {slot : Option Nat} (h : Edited r m) (hkey : arrayIndex key = .ok slot) :
      Edited r (endState (deleteOwn r key m))
  | elsewhere {m m' : Machine} (h : Edited r m) (hcell : m'.cell r = m.cell r) : Edited r m'

/-- The place of a machine has an array whose elements and other properties are apart. -/
def HasSeparate (m : Machine) (r : Ref) : Prop :=
  ∃ es named, m.cell r = ⟨.array es, named⟩ ∧ Separate es named

section

variable {m : Machine} {r : Ref} {es : Array Value} {named : Dict Text Value} {key : Text}

theorem hasSeparate_withCell (hcell : m.cell r = ⟨.array es, named⟩) {es' : Array Value} {named' : Dict Text Value}
    (h : Separate es' named') : HasSeparate (m.withCell r ⟨.array es', named'⟩) r :=
  ⟨es', named', cell_withCell hcell _, h⟩

/-- Another length leaves the parts of an array apart. -/
theorem hasSeparate_putOwn_length (h : HasSeparate m r) (v : Value) :
    HasSeparate (endState (putOwn r (Text.of "length") v m)) r := by
  obtain ⟨es, named, hcell, hseparate⟩ := h
  cases hx : toNumber m.heap v with
  | error e =>
    rw [putOwn_length_of_error hcell hx]
    exact ⟨es, named, hcell, hseparate⟩
  | ok x =>
    by_cases hvalid : ∃ n, IsLength x n
    · obtain ⟨n, hn⟩ := hvalid
      rw [putOwn_length_of_isLength hcell hx hn]
      split
      · refine hasSeparate_withCell hcell { hseparate with bounded := ?_ }
        have hless := Binary64.truncate_lt hn.1 (b := maxKeyDigits) (by decide)
        rw [hn.truncate_eq, Int.natAbs_natCast] at hless
        rw [size_resize]
        exact hless.le.trans (Nat.pow_le_pow_left (by decide) _)
      · exact ⟨es, named, hcell, hseparate⟩
    · rw [putOwn_length_of_invalid hcell hx hvalid]
      exact ⟨es, named, (cell_withError hcell _ _).trans hcell, hseparate⟩

/-- A put leaves the parts of an array apart. -/
theorem hasSeparate_putOwn {slot : Option Nat} (h : HasSeparate m r) (hkey : arrayIndex key = .ok slot) (v : Value) :
    HasSeparate (endState (putOwn r key v m)) r := by
  by_cases hlength : key = Text.of "length"
  · subst hlength
    exact hasSeparate_putOwn_length h v
  obtain ⟨es, named, hcell, hseparate⟩ := h
  cases slot with
  | none =>
    rw [putOwn_of_name hcell hkey hlength]
    exact hasSeparate_withCell hcell (hseparate.put hkey hlength v)
  | some i =>
    by_cases hless : i + 1 - es.size < lengthBound
    · rw [putOwn_of_index hcell hkey hless]
      exact hasSeparate_withCell hcell (hseparate.setElement hkey v)
    · rw [putOwn_of_index_beyond hcell hkey (Nat.le_of_not_lt hless)]
      exact ⟨es, named, hcell, hseparate⟩

/-- Deleting leaves the parts of an array apart. -/
theorem hasSeparate_deleteOwn {slot : Option Nat} (h : HasSeparate m r) (hkey : arrayIndex key = .ok slot) :
    HasSeparate (endState (deleteOwn r key m)) r := by
  obtain ⟨es, named, hcell, hseparate⟩ := h
  cases slot with
  | none =>
    have hdelete : Cell.delete ⟨.array es, named⟩ key = _ := delete_of_name hkey
    rw [← hcell] at hdelete
    rw [deleteOwn_eq hdelete]
    exact hasSeparate_withCell hcell (hseparate.erase key)
  | some i =>
    have hdelete : Cell.delete ⟨.array es, named⟩ key = _ := delete_of_index hkey
    rw [← hcell] at hdelete
    rw [deleteOwn_eq hdelete]
    refine hasSeparate_withCell hcell { hseparate with bounded := ?_ }
    rw [Array.size_setIfInBounds]
    exact hseparate.bounded

/-- However an array is edited, its parts are apart. -/
theorem Edited.hasSeparate (h : Edited r m) : HasSeparate m r := by
  induction h with
  | made hcell hsize => exact ⟨_, _, hcell, .made hsize⟩
  | put _ hkey v ih => exact hasSeparate_putOwn ih hkey v
  | delete _ hkey ih => exact hasSeparate_deleteOwn ih hkey
  | elsewhere _ hcell ih =>
    obtain ⟨es, named, hbefore, hseparate⟩ := ih
    exact ⟨es, named, hcell.trans hbefore, hseparate⟩

/-! ## What is found after a put -/

/-- The value is found under the key, what has another slot is as before, and there is a length. -/
structure Placed (c c' : Cell) (key : Text) (v : Value) (size : Nat) : Prop where
  found : c'.get key = .ok v
  others : ∀ j, j ≠ Text.of "length" → ¬SameSlot j key → c'.get j = c.get j
  length : c'.get (Text.of "length") = .ok (ofCount size)

theorem placed_setElement {i : Nat} (hkey : arrayIndex key = .ok (some i)) (v : Value) :
    Placed ⟨.array es, named⟩ ⟨.array (setElement es i v), named⟩ key v (max es.size (i + 1)) where
  found := by rw [get_of_index hkey, getD_setElement, if_pos rfl]
  others := by
    intro j hne hother
    cases hj : arrayIndex j with
    | error e => rw [get_of_error hj, get_of_error hj]
    | ok slot =>
      cases slot with
      | none => rw [get_of_name hj hne, get_of_name hj hne]
      | some k =>
        have hk : k ≠ i := by
          rintro rfl
          exact hother (.inr ⟨k, hj, hkey⟩)
        rw [get_of_index hj, get_of_index hj, getD_setElement, if_neg hk]
  length := by rw [get_length, size_setElement]

theorem placed_put (hkey : arrayIndex key = .ok none) (hlength : key ≠ Text.of "length") (v : Value) :
    Placed ⟨.array es, named⟩ ⟨.array es, named.put key v⟩ key v es.size where
  found := by rw [get_of_name hkey hlength, Dict.get?_put_self, Option.getD_some]
  others := by
    intro j hne hother
    cases hj : arrayIndex j with
    | error e => rw [get_of_error hj, get_of_error hj]
    | ok slot =>
      cases slot with
      | some k => rw [get_of_index hj, get_of_index hj]
      | none =>
        have hdiffer : j ≠ key := fun heq => hother (.inl heq)
        rw [get_of_name hj hne, get_of_name hj hne, Dict.get?_put_of_ne named hdiffer]
  length := get_length

/-- The length that a slot asks for. -/
def slotEnd : Option Nat → Nat
  | some i => i + 1
  | none => 0

/-- How an array answers: as a map from keys to values with a length. -/
structure ActsAsMap (m : Machine) (r : Ref) (es : Array Value) (named : Dict Text Value) : Prop where
  cell : m.cell r = ⟨.array es, named⟩
  /-- A value that is put is found again, in an array that is long enough. -/
  put : ∀ {key slot}, arrayIndex key = .ok slot → key ≠ Text.of "length" → ∀ v,
    if slotEnd slot - es.size < lengthBound then
      ∃ m', putOwn r key v m = .ok () m' ∧ Placed (m.cell r) (m'.cell r) key v (max es.size (slotEnd slot))
    else putOwn r key v m = .error (.fault .greatCount) m
  /-- A length keeps the elements below it and fills up; it is refused if it is none. -/
  putLength : ∀ {v x}, toNumber m.heap v = .ok x →
    (∀ n, IsLength x n →
      if n - es.size < lengthBound then
        ∃ es' : Array Value, putOwn r (Text.of "length") v m = .ok () (m.withCell r ⟨.array es', named⟩) ∧
          (m.withCell r ⟨.array es', named⟩).cell r = ⟨.array es', named⟩ ∧
          es'.toList = es.toList.take n ++ List.replicate (n - es.size) .undefined
      else putOwn r (Text.of "length") v m = .error (.fault .greatCount) m) ∧
    ((¬∃ n, IsLength x n) →
      putOwn r (Text.of "length") v m =
        .error (.thrown (.object m.heap.size)) (m.withError "RangeError" "Invalid array length") ∧
      (m.withError "RangeError" "Invalid array length").cell r = m.cell r)
  /-- What has no number is no length either. -/
  putLength_error : ∀ {v e}, toNumber m.heap v = .error e → putOwn r (Text.of "length") v m = .error e m
  keys_nodup : (m.cell r).keys.Nodup
  has_key : ∀ k ∈ (m.cell r).keys, (m.cell r).has k = .ok true
  get_missing : ∀ k, (m.cell r).has k = .ok false → (m.cell r).get k = .ok .undefined

/-- However an array has been edited, it acts as a map with a length. -/
theorem edited_actsAsMap (h : Edited r m) : ∃ es named, ActsAsMap m r es named := by
  obtain ⟨es, named, hcell, hseparate⟩ := h.hasSeparate
  refine ⟨es, named, ⟨hcell, ?_, ?_, putOwn_length_of_error hcell, ?_, ?_, ?_⟩⟩
  · intro key slot hkey hlength v
    cases slot with
    | none =>
      rw [if_pos (by rw [slotEnd, Nat.zero_sub]; decide)]
      refine ⟨_, putOwn_of_name hcell hkey hlength v, ?_⟩
      rw [cell_withCell hcell, hcell, slotEnd, Nat.max_zero]
      exact placed_put hkey hlength v
    | some i =>
      split
      · next hless =>
        refine ⟨_, putOwn_of_index hcell hkey hless v, ?_⟩
        rw [cell_withCell hcell, hcell]
        exact placed_setElement hkey v
      · next hbeyond => exact putOwn_of_index_beyond hcell hkey (Nat.le_of_not_lt hbeyond) v
  · intro v x hx
    constructor
    · intro n hn
      have hput := putOwn_length_of_isLength hcell hx hn
      split
      · next hless =>
        rw [if_pos hless] at hput
        exact ⟨resize es n, hput, cell_withCell hcell _, toList_resize es n⟩
      · next hbeyond =>
        rw [if_neg hbeyond] at hput
        exact hput
    · intro hinvalid
      exact ⟨putOwn_length_of_invalid hcell hx hinvalid, cell_withError hcell _ _⟩
  · rw [hcell]
    exact hseparate.nodup_keys
  · intro k hk
    rw [hcell] at hk ⊢
    exact hseparate.has_of_mem_keys hk
  · intro k hk
    rw [hcell] at hk ⊢
    exact get_of_not_has hk

/-- An array of one element, after a put beyond its end, a put under a name with a zero in front, and a deletion. -/
theorem edited_actsAsMap_mixedKeys :
    let made : Machine := { (default : Machine) with heap := #[⟨.array #[.null], .empty⟩] }
    let grown := endState (putOwn 0 "2" (.bool true) made)
    let named := endState (putOwn 0 "02" (.bool false) grown)
    let edited := endState (deleteOwn 0 "0" named)
    Edited 0 edited ∧ ∃ es properties, ActsAsMap edited 0 es properties := by
  intro made grown named edited
  have hcell : made.cell 0 = ⟨.array #[.null], .empty⟩ := rfl
  have hmade : Edited 0 made := .made hcell (by decide)
  have hindex : arrayIndex "2" = .ok (some 2) := rfl
  have hname : arrayIndex "02" = .ok none := rfl
  have hzero : arrayIndex "0" = .ok (some 0) := rfl
  have hedited : Edited 0 edited := ((hmade.put hindex _).put hname _).delete hzero
  exact ⟨hedited, edited_actsAsMap hedited⟩

end

end Untangle.Sandbox
