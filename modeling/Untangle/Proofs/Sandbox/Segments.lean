import Mathlib.Data.EReal.Operations
import Mathlib.Data.List.Infix
import Untangle.Proofs.Sandbox.Primitive
import Untangle.Proofs.Sandbox.Slots
import Untangle.Sandbox.Builtin.Array

set_option autoImplicit false

/-!
# Parts of arrays and pieces of texts

Where a part of an array begins and ends is given by numbers, which may have a fraction, lie beyond the ends, count
from the end, be infinite or none.  Cutting a part out or taking a copy of it loses no element.

A text that is split at a separator is cut at the leftmost occurrences that do not overlap.  No piece has an
occurrence of the separator then, and with the separator between them the pieces are the text again.  A text is
split at the text of a value, into single characters if that is empty.  The array of the pieces joined by
the same value is the text again.

The main theorems are `splice_slice_lossless`, in which places are given in the extended reals apart from
the code, and `join_undoes_split`, for separators that are no objects and without a limit.
-/

/-! ## Pieces of a text -/

namespace Untangle.Text

/-- The pieces of a text between the leftmost occurrences of a separator that do not overlap: no occurrence begins
inside of a piece, not even one that ends outside of it. -/
inductive Splits (sep : Text) : Text → List Text → Prop
  | last {piece : Text} (h : ∀ i < piece.length, ¬sep <+: piece.drop i) : Splits sep piece [piece]
  | piece {piece rest : Text} {pieces : List Text}
      (h : ∀ i < piece.length, ¬sep <+: (piece ++ sep ++ rest).drop i) (hrest : Splits sep rest pieces) :
      Splits sep (piece ++ sep ++ rest) (piece :: pieces)

section

variable {sep t : Text} {pieces : List Text}

/-! ## Splitting -/

/-- A text with an occurrence at its beginning goes on after it. -/
theorem exists_rest {c : CodePoint} {r : Text} (hsep : sep ≠ []) (h : sep.isPrefixOf (c :: r) = true) :
    c :: r = sep ++ r.drop (sep.length - 1) := by
  obtain ⟨rest, hrest⟩ := List.isPrefixOf_iff_prefix.mp h
  cases sep with
  | nil => exact absurd rfl hsep
  | cons d ds =>
    obtain ⟨rfl, rfl⟩ := List.cons.inj hrest
    simp

/-- What is still to be read is split behind the open piece, if no occurrence begins inside of that. -/
theorem splits_splitGo (hsep : sep ≠ []) (skip : Nat) (piece t : Text)
    (hopen : ∀ i < piece.length, ¬sep <+: (piece.reverse ++ t.drop skip).drop i) :
    Splits sep (piece.reverse ++ t.drop skip) (splitGo sep skip piece t) := by
  -- The open piece grows only by code points at which no occurrence begins.  Occurrences that begin in it may end in
  -- what is still to be read, for which reason the invariant speaks of both.
  fun_induction splitGo sep skip piece t with
  | case1 skip piece =>
    rw [List.drop_nil, List.append_nil] at hopen ⊢
    exact .last (by simpa using hopen)
  | case2 skip piece c r ih => exact ih hopen
  | case3 piece c r hmatch ih =>
    have hrest := exists_rest hsep hmatch
    rw [List.drop_zero, hrest, ← List.append_assoc] at hopen ⊢
    exact .piece (by simpa using hopen) (ih (by simp))
  | case4 piece c r hother ih =>
    have hsame : (c :: piece).reverse ++ r.drop 0 = piece.reverse ++ (c :: r).drop 0 := by simp
    rw [hsame] at ih
    refine ih fun i hi => ?_
    rcases Nat.lt_succ_iff_lt_or_eq.mp hi with hless | rfl
    · exact hopen i hless
    · have hlength : piece.length = piece.reverse.length := List.length_reverse.symm
      rw [hlength, List.drop_left]
      exact fun hprefix => hother (List.isPrefixOf_iff_prefix.mpr hprefix)

theorem splits_splitOn (hsep : sep ≠ []) (t : Text) : Splits sep t (splitOn sep t) :=
  splits_splitGo hsep 0 [] t (by simp)

/-! ## Joining -/

theorem join_cons (hpieces : pieces ≠ []) (piece : Text) :
    join sep (piece :: pieces) = piece ++ sep ++ join sep pieces := by
  cases pieces with
  | nil => exact absurd rfl hpieces
  | cons => rfl

theorem Splits.ne_nil (h : Splits sep t pieces) : pieces ≠ [] := by
  cases h <;> exact List.cons_ne_nil _ _

/-- With the separator between them the pieces are the text. -/
theorem Splits.join_eq (h : Splits sep t pieces) : join sep pieces = t := by
  induction h with
  | last => rfl
  | piece _ hrest ih => rw [join_cons hrest.ne_nil, ih]

theorem not_occurs_of_leftmost (hsep : sep ≠ []) (rest : Text) {piece : Text}
    (h : ∀ i < piece.length, ¬sep <+: (piece ++ rest).drop i) : ¬sep <:+: piece := by
  rintro ⟨before, after, rfl⟩
  have hpos := List.length_pos_of_ne_nil hsep
  refine h before.length (by simp only [List.length_append]; omega) ⟨after ++ rest, ?_⟩
  simp

/-- No piece has an occurrence of the separator. -/
theorem Splits.not_occurs (hsep : sep ≠ []) (h : Splits sep t pieces) : ∀ piece ∈ pieces, ¬sep <:+: piece := by
  induction h with
  | last hleft =>
    rintro piece (_ | ⟨_, ⟨⟩⟩)
    exact not_occurs_of_leftmost hsep [] (by simpa using hleft)
  | piece hleft _ ih =>
    rintro piece (_ | ⟨_, hpiece⟩)
    · rw [List.append_assoc] at hleft
      exact not_occurs_of_leftmost hsep _ hleft
    · exact ih piece hpiece

/-- Texts with nothing between them. -/
theorem join_nil (ts : List Text) : join [] ts = ts.flatten := by
  induction ts with
  | nil => rfl
  | cons t ts ih =>
    cases ts with
    | nil => exact (List.append_nil t).symm
    | cons u us =>
      rw [join_cons (List.cons_ne_nil u us), ih, List.append_nil]
      exact List.flatten_cons.symm

/-- The single code points of a text are the text. -/
theorem join_singletons (t : Text) : join [] (t.map fun c => [c]) = t := by
  rw [join_nil, ← List.flatMap_def, List.flatMap_singleton']

end

end Untangle.Text

namespace Untangle.Sandbox

open Binary64
open Run (arg clamp position spliceCount spliceArray arrayMethod stringMethod)

/-! ## Numbers as places -/

/-- A number without its fraction.  What is none counts as zero. -/
noncomputable def extent (x : Float) : EReal :=
  if isNaN x then 0 else if isInfinite x then (if isNegative x then ⊥ else ⊤) else ((cutOff (value x) : ℝ) : EReal)

/-- A place counted from the end if it is negative. -/
noncomputable def fromStart (length : Nat) (e : EReal) : EReal := if e < 0 then length + e else e

/-- A place moved into the range from zero to a bound. -/
noncomputable def clamped (bound : Nat) (e : EReal) : EReal := max 0 (min e bound)

section

variable {x : Float} {n : Int} {length bound : Nat}

theorem extent_of_isNaN (hx : isNaN x = true) : extent x = 0 := if_pos hx

theorem extent_of_isInfinite (hx : isInfinite x = true) : extent x = if isNegative x then ⊥ else ⊤ := by
  rw [extent, isNaN_of_isInfinite hx, hx, if_neg Bool.false_ne_true, if_pos rfl]

theorem extent_of_isFinite (hx : isFinite x = true) : extent x = ((truncate x : ℝ) : EReal) := by
  rw [extent, isNaN_of_isFinite hx, isInfinite_of_isFinite hx, truncate_eq_cutOff]
  rfl

/-! ## Clamping -/

theorem clamped_zero : clamped bound 0 = 0 := by
  rw [clamped, min_eq_left bound.cast_nonneg', max_self]

theorem clamped_bot : clamped bound ⊥ = 0 := by
  rw [clamped, bot_inf_eq, max_eq_left bot_le]

theorem clamped_top : clamped bound ⊤ = bound := by
  rw [clamped, top_inf_eq, max_eq_right bound.cast_nonneg']

theorem clamped_intCast (n : Int) : clamped bound ((n : ℝ) : EReal) = (min n.toNat bound : Nat) := by
  have hmono : Monotone ((↑) : ℝ → EReal) := EReal.coe_strictMono.monotone
  have hint : ((min n.toNat bound : Nat) : Int) = max 0 (min n bound) := by omega
  have hreal : ((min n.toNat bound : Nat) : ℝ) = max 0 (min (n : ℝ) bound) := by
    exact_mod_cast congrArg (Int.cast (R := ℝ)) hint
  calc clamped bound ((n : ℝ) : EReal)
      = max ((0 : ℝ) : EReal) (min ((n : ℝ) : EReal) ((bound : ℝ) : EReal)) := rfl
    _ = ((max 0 (min (n : ℝ) bound) : ℝ) : EReal) := by rw [hmono.map_max, hmono.map_min]
    _ = (min n.toNat bound : Nat) := by rw [← hreal]; rfl

theorem clamp_ofInteger (h : Exact n) : clamp (ofInteger n) bound = min n.toNat bound := by
  unfold clamp
  split
  · next hnegative =>
    -- The sign may be that of a zero.
    have hle : n ≤ 0 := by
      have hvalue := h.2
      rw [value, Parts.value, parts_negative, if_pos hnegative] at hvalue
      have hmagnitude := magnitude_nonneg (parts (ofInteger n))
      exact_mod_cast (show (n : ℚ) ≤ 0 by linarith)
    omega
  · rw [isInfinite_of_isFinite h.1, if_neg Bool.false_ne_true, h.truncate_eq]

/-- A count is clamped as the number it is. -/
theorem clamp_integerPart (x : Float) (bound : Nat) :
    (clamp (integerPart x) bound : EReal) = clamped bound (extent x) := by
  rcases number_cases x with hx | hx | hx
  · rw [integerPart_of_isNaN hx, extent_of_isNaN hx, clamped_zero]
    have hzero : clamp 0.0 bound = 0 := Nat.zero_min bound
    rw [hzero, Nat.cast_zero]
  · rw [integerPart_of_isInfinite hx, extent_of_isInfinite hx, clamp, hx]
    cases isNegative x with
    | true => rw [if_pos rfl, if_pos rfl, clamped_bot, Nat.cast_zero]
    | false => rw [if_neg Bool.false_ne_true, if_neg Bool.false_ne_true, if_pos rfl, clamped_top]
  · rw [integerPart_of_isFinite hx, extent_of_isFinite hx, clamp_ofInteger (exact_truncate hx), clamped_intCast]

/-! ## Places -/

/-- The place that a number without a fraction stands for. -/
def placeOf (length : Nat) (y : Float) : Nat :=
  if y < 0.0 then if isInfinite y then 0 else ((length : Int) + truncate y).toNat else clamp y length

theorem fromStart_intCast (length : Nat) (n : Int) :
    fromStart length ((n : ℝ) : EReal) = (((if n < 0 then length + n else n : Int) : ℝ) : EReal) := by
  have hneg : ((n : ℝ) : EReal) < 0 ↔ n < 0 := by
    rw [EReal.coe_neg']
    exact_mod_cast Iff.rfl
  rw [fromStart, if_congr hneg rfl rfl]
  split
  · push_cast
    rfl
  · rfl

theorem placeOf_ofInteger (h : Exact n) :
    placeOf length (ofInteger n) = min (if n < 0 then length + n else n).toNat length := by
  have hneg : ofInteger n < 0.0 ↔ n < 0 := by
    rw [lt_zero_iff h.1, h.2]
    exact_mod_cast Iff.rfl
  rw [placeOf, if_congr hneg rfl rfl, isInfinite_of_isFinite h.1, if_neg Bool.false_ne_true, h.truncate_eq,
    clamp_ofInteger h]
  split <;> omega

/-- A place is counted from the end and clamped as the number it is. -/
theorem placeOf_integerPart (x : Float) (length : Nat) :
    (placeOf length (integerPart x) : EReal) = clamped length (fromStart length (extent x)) := by
  rcases number_cases x with hx | hx | hx
  · rw [integerPart_of_isNaN hx, extent_of_isNaN hx, fromStart, if_neg (lt_irrefl 0), clamped_zero]
    have hzero : placeOf length 0.0 = 0 := Nat.zero_min length
    rw [hzero, Nat.cast_zero]
  · rw [integerPart_of_isInfinite hx, extent_of_isInfinite hx, placeOf,
      if_congr (lt_zero_iff_of_isInfinite hx) rfl rfl, hx, clamp]
    cases isNegative x with
    | true =>
      rw [if_pos rfl, if_pos rfl, if_pos rfl, fromStart, if_pos EReal.bot_lt_zero, EReal.add_bot, clamped_bot,
        Nat.cast_zero]
    | false =>
      rw [if_neg Bool.false_ne_true, if_neg Bool.false_ne_true, hx, if_pos rfl, if_neg Bool.false_ne_true, fromStart,
        if_neg not_top_lt, clamped_top]
  · rw [integerPart_of_isFinite hx, extent_of_isFinite hx, placeOf_ofInteger (exact_truncate hx), fromStart_intCast,
      clamped_intCast]

/-- What has been clamped is within the bound. -/
theorem le_of_eq_clamped {p : Nat} {e : EReal} (h : (p : EReal) = clamped bound e) : p ≤ bound := by
  have hle : clamped bound e ≤ bound := max_le bound.cast_nonneg' (min_le_right e bound)
  rw [← h] at hle
  exact_mod_cast hle

end

/-- A place that a value gives: the default if there is no value, else what its number says. -/
def IsPlace (h : Heap) (v : Value) (length default p : Nat) : Prop :=
  if v.isUndefined then p = default
  else ∃ x, toNumber h v = .ok x ∧ (p : EReal) = clamped length (fromStart length (extent x))

section

variable {m : Machine} {v : Value} {args : List Value} {x : Float} {e : Abrupt} {length default : Nat}

theorem integerOf_of_ok (hx : toNumber m.heap v = .ok x) : Run.integerOf v m = .ok (integerPart x) m := by
  rw [Run.integerOf, reading_eq, toInteger, hx]
  rfl

theorem integerOf_of_error (he : toNumber m.heap v = .error e) : Run.integerOf v m = .error e m := by
  rw [Run.integerOf, reading_eq, toInteger, he]
  rfl

theorem position_of_undefined (hv : v.isUndefined = true) : position v length default m = .ok default m := by
  rw [position, if_pos hv]
  rfl

theorem position_of_ok (hv : v.isUndefined = false) (hx : toNumber m.heap v = .ok x) :
    position v length default m = .ok (placeOf length (integerPart x)) m := by
  rw [position, hv, if_neg Bool.false_ne_true]
  show (Run.integerOf v >>= _) m = _
  rw [bind_of_ok (integerOf_of_ok hx), placeOf]
  split
  · split <;> rfl
  · rfl

theorem position_of_error (hv : v.isUndefined = false) (he : toNumber m.heap v = .error e) :
    position v length default m = .error e m := by
  rw [position, hv, if_neg Bool.false_ne_true]
  show (Run.integerOf v >>= _) m = _
  rw [bind_of_error (integerOf_of_error he)]

/-- A value gives a place, or it has no number. -/
theorem position_cases (m : Machine) (v : Value) (length default : Nat) :
    (∃ p, position v length default m = .ok p m ∧ IsPlace m.heap v length default p) ∨
      ∃ e, toNumber m.heap v = .error e ∧ position v length default m = .error e m := by
  cases hv : v.isUndefined with
  | true => exact .inl ⟨default, position_of_undefined hv, (if_pos hv).mpr rfl⟩
  | false =>
    cases hx : toNumber m.heap v with
    | error e => exact .inr ⟨e, rfl, position_of_error hv hx⟩
    | ok x =>
      refine .inl ⟨_, position_of_ok hv hx, ?_⟩
      rw [IsPlace, hv, if_neg Bool.false_ne_true]
      exact ⟨x, hx, placeOf_integerPart x length⟩

/-- An argument without a number has been given. -/
theorem mem_take_of_error {n i : Nat} (hi : i < n) (he : toNumber m.heap (arg args i) = .error e) :
    arg args i ∈ args.take n := by
  have hgiven : i < args.length := by
    by_contra hbeyond
    rw [arg, List.getD_eq_getElem?_getD, List.getElem?_eq_none (Nat.le_of_not_lt hbeyond)] at he
    cases he
  rw [arg, List.getD_eq_getElem?_getD, List.getElem?_eq_getElem hgiven]
  exact List.mem_take_iff_getElem.mpr ⟨i, lt_min hi hgiven, rfl⟩

/-- How much a splice takes out: all there is if no count is given, else what the number of the count says. -/
def IsCount (h : Heap) (args : List Value) (available n : Nat) : Prop :=
  match args with
  | _ :: v :: _ => ∃ x, toNumber h v = .ok x ∧ (n : EReal) = clamped available (extent x)
  | _ => n = available

/-- There is a count, or it has no number. -/
theorem spliceCount_cases (m : Machine) (args : List Value) (available : Nat) :
    (∃ n, spliceCount args available m = .ok n m ∧ IsCount m.heap args available n) ∨
      ∃ e, toNumber m.heap (arg args 1) = .error e ∧ spliceCount args available m = .error e m := by
  match args with
  | [] | [_] => exact .inl ⟨available, rfl, rfl⟩
  | first :: v :: rest =>
    cases hx : toNumber m.heap v with
    | error e =>
      refine .inr ⟨e, hx, ?_⟩
      show (Run.integerOf v >>= _) m = _
      rw [bind_of_error (integerOf_of_error hx)]
    | ok x =>
      refine .inl ⟨clamp (integerPart x) available, ?_, x, hx, clamp_integerPart x available⟩
      show (Run.integerOf v >>= _) m = _
      rw [bind_of_ok (integerOf_of_ok hx)]
      rfl

theorem IsPlace.le {h : Heap} {p : Nat} (hp : IsPlace h v length default p) (hdefault : default ≤ length) :
    p ≤ length := by
  unfold IsPlace at hp
  split at hp
  · exact hp.le.trans hdefault
  · obtain ⟨x, -, hclamped⟩ := hp
    exact le_of_eq_clamped hclamped

theorem IsCount.le {h : Heap} {available n : Nat} (hn : IsCount h args available n) : n ≤ available := by
  unfold IsCount at hn
  split at hn
  · obtain ⟨x, -, hclamped⟩ := hn
    exact le_of_eq_clamped hclamped
  · exact hn.le

end

/-! ## Cutting out and copying -/

/-- Part of the elements of an array has been taken out and others have been put in its place; the part is in a new
array, and there is no other change to objects. -/
structure Spliced (m m' : Machine) (r : Ref) (named : Dict Text Value) (front removed items back : List Value) :
    Prop where
  before : m.cell r = ⟨.array (front ++ removed ++ back).toArray, named⟩
  after : m'.cell r = ⟨.array (front ++ items ++ back).toArray, named⟩
  new : m'.cell m.heap.size = ⟨.array removed.toArray, .empty⟩
  others : ∀ q, q ≠ r → q ≠ m.heap.size → m'.cell q = m.cell q

/-- One of the first two arguments has no number; nothing changes then. -/
def Refuses (c : Run Value) (m : Machine) (args : List Value) : Prop :=
  ∃ v ∈ args.take 2, ∃ e, toNumber m.heap v = .error e ∧ c m = .error e m

/-- The elements of an array are split where the arguments say, and the arguments from the third on replace the part in
the middle, which is returned. -/
def CutsOut (c : Run Value) (m : Machine) (r : Ref) (es : Array Value) (named : Dict Text Value) (args : List Value) :
    Prop :=
  ∃ front removed back m', c m = .ok (.object m.heap.size) m' ∧
    Spliced m m' r named front removed (args.drop 2) back ∧
    IsPlace m.heap (arg args 0) es.size 0 front.length ∧
    IsCount m.heap args (es.size - front.length) removed.length

/-- The elements between the places that the arguments give are returned in a new array, and there is no other change
to objects. -/
def CopiesPart (c : Run Value) (m : Machine) (es : Array Value) (args : List Value) : Prop :=
  ∃ start stop m', c m = .ok (.object m.heap.size) m' ∧
    IsPlace m.heap (arg args 0) es.size 0 start ∧ IsPlace m.heap (arg args 1) es.size es.size stop ∧
    m'.cell m.heap.size = ⟨.array ((es.toList.take stop).drop start).toArray, .empty⟩ ∧
    ∀ q, q ≠ m.heap.size → m'.cell q = m.cell q

section

variable {m : Machine} {r : Ref} {es : Array Value} {named : Dict Text Value} {args : List Value} {e : Abrupt}

/-- A method of arrays is given the elements of its receiver. -/
theorem receiverArray_eq (hcell : m.cell r = ⟨.array es, named⟩) :
    Run.receiverArray (.object r) m = .ok (r, es) m := by
  have helements : m.heap.elements? (.object r) = some es := by
    rw [Heap.elements?, show m.heap.getD r default = ⟨.array es, named⟩ from hcell]
  have hget : (get : Run Machine) m = .ok m m := rfl
  rw [Run.receiverArray, bind_of_ok hget, helements]
  rfl

theorem arrayMethod_splice (hcell : m.cell r = ⟨.array es, named⟩) (call : Run.Caller) :
    arrayMethod call .splice (.object r) args m = spliceArray r es args m := by
  rw [arrayMethod, bind_of_ok (receiverArray_eq hcell)]

theorem exists_parts {start count : Nat} (hstart : start ≤ es.size) (hcount : count ≤ es.size - start) :
    ∃ front removed back : List Value,
      es = (front ++ removed ++ back).toArray ∧ front.length = start ∧ removed.length = count := by
  refine ⟨es.toList.take start, (es.toList.drop start).take count, (es.toList.drop start).drop count, ?_, ?_, ?_⟩
  · rw [List.append_assoc, List.take_append_drop, List.take_append_drop]
  · rw [List.length_take, Array.length_toList, Nat.min_eq_left hstart]
  · rw [List.length_take, List.length_drop, Array.length_toList, Nat.min_eq_left hcount]

/-- The parts of an array that is made of three lists. -/
theorem extract_parts (front removed back : List Value) :
    let es := (front ++ removed ++ back).toArray
    es.extract 0 front.length = front.toArray ∧
      es.extract front.length (front.length + removed.length) = removed.toArray ∧
      es.extract (front.length + removed.length) es.size = back.toArray := by
  intro es
  refine ⟨?_, ?_, ?_⟩
  · simp [es]
  · simp [es]
  · have hsize : back.length ≤ es.size - (front.length + removed.length) := by simp [es]; omega
    simpa [es] using hsize

/-- A splice takes the middle part out and puts the arguments from the third on in its place. -/
theorem spliceArray_of_ok {front removed back : List Value} (hes : es = (front ++ removed ++ back).toArray)
    (hcell : m.cell r = ⟨.array es, named⟩) (hstart : position (arg args 0) es.size 0 m = .ok front.length m)
    (hcount : spliceCount args (es.size - front.length) m = .ok removed.length m) :
    spliceArray r es args m =
      .ok (.object m.heap.size)
        ((m.withCell r ⟨.array (front ++ args.drop 2 ++ back).toArray, named⟩).withNew
          ⟨.array removed.toArray, .empty⟩) := by
  obtain ⟨hfront, hremoved, hback⟩ := extract_parts front removed back
  rw [← hes] at hfront hremoved hback
  rw [spliceArray, bind_of_ok hstart, bind_of_ok hcount, hfront, hremoved, hback, List.append_toArray,
    List.append_toArray, bind_of_ok (setElements_eq hcell _)]
  show EStateM.Result.ok (Value.object (m.heap.setIfInBounds r _).size) _ = _
  rw [Array.size_setIfInBounds]
  rfl

theorem spliced_withNew {front removed back : List Value} (hes : es = (front ++ removed ++ back).toArray)
    (hcell : m.cell r = ⟨.array es, named⟩) (items : List Value) :
    Spliced m
      ((m.withCell r ⟨.array (front ++ items ++ back).toArray, named⟩).withNew ⟨.array removed.toArray, .empty⟩)
      r named front removed items back := by
  have hsize (c : Cell) : (m.withCell r c).heap.size = m.heap.size := Array.size_setIfInBounds
  refine ⟨hes ▸ hcell, ?_, ?_, ?_⟩
  · rw [cell_withNew, hsize, if_neg (lt_of_cell hcell).ne, cell_withCell hcell]
  · rw [cell_withNew, hsize, if_pos rfl]
  · intro q hq hnew
    rw [cell_withNew, hsize, if_neg hnew, Machine.withCell, Pairing.cell_set, if_neg (fun h => hq h.1.symm)]

theorem splice_refuses_or_cutsOut (hcell : m.cell r = ⟨.array es, named⟩) (call : Run.Caller) (args : List Value) :
    Refuses (arrayMethod call .splice (.object r) args) m args ∨
      CutsOut (arrayMethod call .splice (.object r) args) m r es named args := by
  unfold Refuses CutsOut
  rw [arrayMethod_splice hcell]
  -- Both numbers are read before anything changes.
  rcases position_cases m (arg args 0) es.size 0 with ⟨start, hstart, hplace⟩ | ⟨e, he, hstart⟩
  · rcases spliceCount_cases m args (es.size - start) with ⟨count, hcount, hisCount⟩ | ⟨e, he, hcount⟩
    · obtain ⟨front, removed, back, hes, rfl, rfl⟩ := exists_parts (hplace.le (Nat.zero_le _)) hisCount.le
      exact .inr ⟨front, removed, back, _, spliceArray_of_ok hes hcell hstart hcount, spliced_withNew hes hcell _,
        hplace, hisCount⟩
    · refine .inl ⟨_, mem_take_of_error (by decide) he, e, he, ?_⟩
      rw [spliceArray, bind_of_ok hstart, bind_of_error hcount]
  · refine .inl ⟨_, mem_take_of_error (by decide) he, e, he, ?_⟩
    rw [spliceArray, bind_of_error hstart]

theorem slice_refuses_or_copiesPart (hcell : m.cell r = ⟨.array es, named⟩) (call : Run.Caller) (args : List Value) :
    Refuses (arrayMethod call .slice (.object r) args) m args ∨
      CopiesPart (arrayMethod call .slice (.object r) args) m es args := by
  unfold Refuses CopiesPart
  rw [arrayMethod, bind_of_ok (receiverArray_eq hcell)]
  dsimp only
  rcases position_cases m (arg args 0) es.size 0 with ⟨start, hstart, hplace⟩ | ⟨e, he, hstart⟩
  · rcases position_cases m (arg args 1) es.size es.size with ⟨stop, hstop, hplace'⟩ | ⟨e, he, hstop⟩
    · refine .inr ⟨start, stop, m.withNew ⟨.array (es.extract start stop), .empty⟩, ?_, hplace, hplace', ?_, ?_⟩
      · rw [bind_of_ok hstart, bind_of_ok hstop]
        rfl
      · rw [cell_withNew, if_pos rfl, List.drop_take, ← List.extract_eq_take_drop, ← Array.toList_extract,
          Array.toArray_toList]
      · intro q hq
        rw [cell_withNew, if_neg hq]
    · refine .inl ⟨_, mem_take_of_error (by decide) he, e, he, ?_⟩
      rw [bind_of_ok hstart, bind_of_error hstop]
  · refine .inl ⟨_, mem_take_of_error (by decide) he, e, he, ?_⟩
    rw [bind_of_error hstart]

/-- Splices and slices lose nothing, whatever their arguments are: a splice splits the elements into three parts, of
which it returns the middle one and leaves the others, and a slice only copies. -/
theorem splice_slice_lossless (hcell : m.cell r = ⟨.array es, named⟩) (call : Run.Caller) (args : List Value) :
    (Refuses (arrayMethod call .splice (.object r) args) m args ∨
        CutsOut (arrayMethod call .splice (.object r) args) m r es named args) ∧
      (Refuses (arrayMethod call .slice (.object r) args) m args ∨
        CopiesPart (arrayMethod call .slice (.object r) args) m es args) :=
  ⟨splice_refuses_or_cutsOut hcell call args, slice_refuses_or_copiesPart hcell call args⟩

/-- A place with a fraction that counts from the end, and a count without a bound. -/
theorem splice_slice_lossless_fromTheEnd :
    let m : Machine := { (default : Machine) with heap := #[⟨.array #[.null, .bool true, .string "c"], .empty⟩] }
    let args := [Value.string "-2.5", .number infinity, .null]
    m.cell 0 = ⟨.array #[.null, .bool true, .string "c"], .empty⟩ ∧
      (Refuses (arrayMethod (fun _ _ _ => pure .null) .splice (.object 0) args) m args ∨
        CutsOut (arrayMethod (fun _ _ _ => pure .null) .splice (.object 0) args) m 0
          #[.null, .bool true, .string "c"] .empty args) := by
  intro m args
  have hcell : m.cell 0 = ⟨.array #[.null, .bool true, .string "c"], .empty⟩ := rfl
  exact ⟨hcell, (splice_slice_lossless hcell _ args).1⟩

end

/-! ## Splitting and joining -/

/-- The pieces of a text at a separator; nothing separates all characters. -/
def piecesAt (separator t : Text) : List Text :=
  if separator.isEmpty then t.map fun c => [c] else Text.splitOn separator t

section

variable {m : Machine} {r : Ref} {named : Dict Text Value} {v : Value} {s : Text} {args : List Value}

theorem join_piecesAt (separator t : Text) : Text.join separator (piecesAt separator t) = t := by
  unfold piecesAt
  cases hempty : separator.isEmpty with
  | true =>
    rw [List.isEmpty_iff.mp hempty]
    exact Text.join_singletons t
  | false => exact (Text.splits_splitOn (List.isEmpty_eq_false_iff.mp hempty) t).join_eq

theorem piecesAt_nil (t : Text) : piecesAt [] t = t.map fun c => [c] := rfl

theorem not_occurs_of_mem_piecesAt {separator t piece : Text} (hseparator : separator ≠ [])
    (hpiece : piece ∈ piecesAt separator t) : ¬separator <:+: piece := by
  rw [piecesAt, List.isEmpty_eq_false_iff.mpr hseparator] at hpiece
  exact (Text.splits_splitOn hseparator t).not_occurs hseparator piece hpiece

theorem toText_of_primitive (h : Heap) (hv : v.isObject = false) : toText h v = .ok (primitiveText v) := by
  cases v with
  | object => cases hv
  | _ => rfl

theorem textOf_of_primitive (hv : v.isObject = false) (m : Machine) : Run.textOf v m = .ok (primitiveText v) m := by
  rw [Run.textOf, reading_eq, toText_of_primitive _ hv]

/-- Splitting a text at a primitive value without a limit makes an array of the pieces. -/
theorem split_eq (hdefined : (arg args 0).isUndefined = false) (hprimitive : (arg args 0).isObject = false)
    (hlimit : (arg args 1).isUndefined = true) (call : Run.Caller) (s : Text) (m : Machine) :
    stringMethod call .split (.string s) args m =
      .ok (.object m.heap.size)
        (m.withNew ⟨.array ((piecesAt (primitiveText (arg args 0)) s).map .string).toArray, .empty⟩) := by
  have hreceiver : Run.receiverText (.string s) m = .ok s m := rfl
  rw [stringMethod, bind_of_ok hreceiver, Run.splitText]
  dsimp only
  rw [hprimitive, hdefined, hlimit, if_neg Bool.false_ne_true, if_neg Bool.false_ne_true,
    bind_of_ok (textOf_of_primitive hprimitive m)]
  rfl

/-- The texts of an array of texts are the texts themselves. -/
theorem mapM_elementText (ts : List Text) (m : Machine) :
    (ts.map Value.string).mapM Run.elementText m = .ok ts m := by
  induction ts with
  | nil => rfl
  | cons t ts ih =>
    have helement : Run.elementText (.string t) m = .ok t m := rfl
    rw [List.map_cons, List.mapM_cons, bind_of_ok helement, bind_of_ok ih]
    rfl

/-- An array of texts is joined by the text of a primitive value. -/
theorem join_eq {ts : List Text} (hcell : m.cell r = ⟨.array (ts.map .string).toArray, named⟩) (args : List Value)
    (hdefined : (arg args 0).isUndefined = false) (hprimitive : (arg args 0).isObject = false) (call : Run.Caller) :
    arrayMethod call .join (.object r) args m =
      .ok (.string (Text.join (primitiveText (arg args 0)) ts)) m := by
  rw [arrayMethod, bind_of_ok (receiverArray_eq hcell)]
  dsimp only
  have hjoin : Run.joinElements (ts.map Value.string).toArray args m =
      .ok (Text.join (primitiveText (arg args 0)) ts) m := by
    rw [Run.joinElements]
    dsimp only
    rw [hdefined, if_neg Bool.false_ne_true, bind_of_ok (textOf_of_primitive hprimitive m),
      bind_of_ok (mapM_elementText ts m)]
    rfl
  rw [bind_of_ok hjoin]
  rfl

/-- Joining undoes splitting: the pieces of a text at a value that is neither missing nor an object, joined by the same
value, are the text.  No piece has the text of the value in it; if that is empty, the pieces are the single code
points. -/
theorem join_undoes_split (hdefined : (arg args 0).isUndefined = false) (hprimitive : (arg args 0).isObject = false)
    (hlimit : (arg args 1).isUndefined = true) (call : Run.Caller) (s : Text) (m : Machine) :
    ∃ (t : Text) (pieces : List Text) (m' : Machine), toText m.heap (arg args 0) = .ok t ∧
      stringMethod call .split (.string s) args m = .ok (.object m.heap.size) m' ∧
      m'.cell m.heap.size = ⟨.array (pieces.map .string).toArray, .empty⟩ ∧
      arrayMethod call .join (.object m.heap.size) [arg args 0] m' = .ok (.string s) m' ∧
      (t ≠ [] → ∀ piece ∈ pieces, ¬t <:+: piece) ∧ (t = [] → pieces = s.map fun c => [c]) := by
  have hcell := cell_withNew m
    ⟨.array ((piecesAt (primitiveText (arg args 0)) s).map .string).toArray, .empty⟩ m.heap.size
  rw [if_pos rfl] at hcell
  refine ⟨_, piecesAt (primitiveText (arg args 0)) s, _, toText_of_primitive _ hprimitive,
    split_eq hdefined hprimitive hlimit call s m, hcell, ?_, ?_, ?_⟩
  · rw [join_eq hcell [arg args 0] hdefined hprimitive call]
    show EStateM.Result.ok (Value.string (Text.join (primitiveText (arg args 0)) _)) _ = _
    rw [join_piecesAt]
  · intro hseparator piece hpiece
    exact not_occurs_of_mem_piecesAt hseparator hpiece
  · intro hempty
    rw [hempty, piecesAt_nil]

/-- Occurrences that overlap and that stand at both ends, of the text of a number. -/
theorem join_undoes_split_overlapping :
    (arg [.number 11.0] 0).isUndefined = false ∧ (arg [.number 11.0] 0).isObject = false ∧
      (arg [.number 11.0] 1).isUndefined = true ∧
      ∃ (t : Text) (pieces : List Text) (m' : Machine), toText (default : Machine).heap (.number 11.0) = .ok t ∧
        stringMethod (fun _ _ _ => pure .null) .split (.string "1110211") [.number 11.0] default =
          .ok (.object 0) m' ∧
        m'.cell 0 = ⟨.array (pieces.map .string).toArray, .empty⟩ ∧
        arrayMethod (fun _ _ _ => pure .null) .join (.object 0) [.number 11.0] m' =
          .ok (.string "1110211") m' ∧
        (t ≠ [] → ∀ piece ∈ pieces, ¬t <:+: piece) ∧ (t = [] → pieces = (Text.of "1110211").map fun c => [c]) := by
  have hlimit : (arg [.number 11.0] 1).isUndefined = true := rfl
  exact ⟨rfl, rfl, hlimit, join_undoes_split rfl rfl hlimit _ "1110211" default⟩

end

end Untangle.Sandbox
