import Untangle.Proofs.Sandbox.Limits
import Untangle.Proofs.Sandbox.RealmNatives

set_option autoImplicit false

/-!
# Objects that nothing refers to

A machine may have more objects and scopes than another one.  Where no value that is looked at refers to
any of them, conversions and operators give the same results on both.  The number of objects bounds how
deep a conversion can go, so that it is only on the smaller machine that one may be stopped.
-/

namespace Untangle.Sandbox

/-- A machine with the objects and the scopes of another one, and perhaps more behind them. -/
structure Machine.Within (m m' : Machine) : Prop where
  heap_le : m.heap.size ≤ m'.heap.size
  cells : ∀ r < m.heap.size, m'.cell r = m.cell r
  frames_le : m.frames.size ≤ m'.frames.size
  frames : ∀ f < m.frames.size, m'.frame f = m.frame f
  global : m'.global = m.global
  trees : m'.trees = m.trees

/-- Two runs that end in the same way, the second on a machine that may have more objects and scopes: with
the same result, with the same stop, or with errors that are alike. -/
inductive EndAlike {α : Type} :
    EStateM.Result Abrupt Machine α → EStateM.Result Abrupt Machine α → Prop
  | result {m m' : Machine} (h : m.Within m') (a : α) : EndAlike (.ok a m) (.ok a m')
  | stop {m m' : Machine} (h : m.Within m') (x : Abrupt) : EndAlike (.error x m) (.error x m')
  | thrown {m m' : Machine} (h : m.Within m') (c : Cell) :
      EndAlike (.error (.thrown (.object m.heap.size)) { m with heap := m.heap.push c })
        (.error (.thrown (.object m'.heap.size)) { m' with heap := m'.heap.push c })

/-- A conversion that gives the same as another one, unless that is stopped by a limit. -/
def Outlasts {α : Type} (x' x : Conv α) : Prop := (∃ l, x = .error (.limit l)) ∨ x' = x

namespace Machine.Within

variable {m m' m'' : Machine}

theorem of_store (hheap : m'.heap = m.heap) (hframes : m'.frames = m.frames)
    (hglobal : m'.global = m.global) (htrees : m'.trees = m.trees) : m.Within m' where
  heap_le := Nat.le_of_eq (congrArg Array.size hheap.symm)
  cells r _ := by rw [Machine.cell, Machine.cell, hheap]
  frames_le := Nat.le_of_eq (congrArg Array.size hframes.symm)
  frames f _ := by rw [Machine.frame, Machine.frame, hframes]
  global := hglobal
  trees := htrees

theorem trans (h : m.Within m') (h' : m'.Within m'') : m.Within m'' where
  heap_le := Nat.le_trans h.heap_le h'.heap_le
  cells r hr := (h'.cells r (Nat.lt_of_lt_of_le hr h.heap_le)).trans (h.cells r hr)
  frames_le := Nat.le_trans h.frames_le h'.frames_le
  frames f hf := (h'.frames f (Nat.lt_of_lt_of_le hf h.frames_le)).trans (h.frames f hf)
  global := h'.global.trans h.global
  trees := h'.trees.trans h.trees

/-- A new object is behind all others. -/
theorem push (h : m.Within m') (c : Cell) : m.Within { m' with heap := m'.heap.push c } where
  heap_le := Nat.le_trans h.heap_le (by rw [Array.size_push]; exact Nat.le_succ _)
  cells r hr := by
    rw [Pairing.cell_push, if_neg (Nat.ne_of_lt (Nat.lt_of_lt_of_le hr h.heap_le))]
    exact h.cells r hr
  frames_le := h.frames_le
  frames := h.frames
  global := h.global
  trees := h.trees

/-- A new scope is behind all others. -/
theorem pushFrame (h : m.Within m') (fr : Frame) :
    m.Within { m' with frames := m'.frames.push fr } where
  heap_le := h.heap_le
  cells := h.cells
  frames_le := Nat.le_trans h.frames_le (by rw [Array.size_push]; exact Nat.le_succ _)
  frames f hf := by
    rw [Pairing.frame_push, if_neg (Nat.ne_of_lt (Nat.lt_of_lt_of_le hf h.frames_le))]
    exact h.frames f hf
  global := h.global
  trees := h.trees

/-- A scope behind all others may change. -/
theorem modifyFrame (h : m.Within m') {f : FrameId} (hf : m.frames.size ≤ f) (g : Frame → Frame) :
    m.Within { m' with frames := m'.frames.modify f g } where
  heap_le := h.heap_le
  cells := h.cells
  frames_le := by rw [Array.size_modify]; exact h.frames_le
  frames i hi := by
    have hne : ¬(f = i ∧ i < m'.frames.size) := fun hboth => Nat.not_lt.mpr hf (hboth.1 ▸ hi)
    rw [Pairing.frame_modify, if_neg hne]
    exact h.frames i hi
  global := h.global
  trees := h.trees

end Machine.Within

/-- The primitive value of a value is no object. -/
theorem isObject_of_toPrimitive {h : Heap} {v p : Value} (hp : toPrimitive h v = .ok p) :
    p.isObject = false := by
  unfold toPrimitive nestingBound toPrimitiveGo at hp
  cases v with
  | object r =>
    simp only at hp
    split at hp
    · cases hp
      rfl
    · obtain ⟨texts, -, hp⟩ := except_bind_eq_ok.mp hp
      cases hp
      rfl
    · cases hp
    · cases hp
  | _ =>
    cases hp
    rfl

namespace Outlasts

variable {α β : Type} {m m' : Machine}

theorem same (x : Conv α) : Outlasts x x := .inr rfl

theorem bind {x x' : Conv α} {f f' : α → Conv β} (hx : Outlasts x' x)
    (hf : ∀ a, x = .ok a → Outlasts (f' a) (f a)) : Outlasts (x' >>= f') (x >>= f) := by
  obtain ⟨l, rfl⟩ | rfl := hx
  · exact .inl ⟨l, rfl⟩
  · cases x' with
    | ok a => exact hf a rfl
    | error e => exact .same _

theorem map {x x' : Conv α} (hx : Outlasts x' x) (f : α → β) :
    Outlasts (do return f (← x')) (do return f (← x)) := hx.bind fun _ _ => .same _

theorem elementTexts {fuel fuel' : Nat} {vs : List Value}
    (hgo : ∀ v ∈ vs, Outlasts (toPrimitiveGo m'.heap fuel' v) (toPrimitiveGo m.heap fuel v)) :
    Outlasts (elementTexts m'.heap fuel' vs) (elementTexts m.heap fuel vs) := by
  induction vs with
  | nil =>
    unfold Sandbox.elementTexts
    exact .same _
  | cons v vs ih =>
    have hrest := ih fun w hw => hgo w (List.mem_cons_of_mem v hw)
    unfold Sandbox.elementTexts
    cases v with
    | object r => exact (hgo _ List.mem_cons_self).bind fun _ _ => hrest.bind fun _ _ => .same _
    | _ => exact hrest.bind fun _ _ => .same _

variable (hm : m.Complete) (h : m.Within m')

include hm h

theorem toPrimitiveGo {fuel fuel' : Nat} (hle : fuel ≤ fuel') {v : Value} (hv : m.Knows v) :
    Outlasts (toPrimitiveGo m'.heap fuel' v) (toPrimitiveGo m.heap fuel v) := by
  induction fuel generalizing fuel' v with
  | zero =>
    unfold Sandbox.toPrimitiveGo
    exact .inl ⟨.nesting, rfl⟩
  | succ fuel ih =>
    obtain ⟨fuel', rfl⟩ : ∃ k, fuel' = k + 1 := ⟨fuel' - 1, by omega⟩
    cases v with
    | object r =>
      have hcell : m'.heap.getD r default = m.heap.getD r default := h.cells r hv
      simp only [Sandbox.toPrimitiveGo, hcell]
      split
      · exact .same _
      · next es hbody =>
        refine (elementTexts fun w hw => ih (Nat.le_of_succ_le_succ hle) ?_).bind fun _ _ => .same _
        exact Machine.KnowsAll.elements (hm.objects r) hbody w hw
      · exact .same _
      · exact .same _
    | _ =>
      simp only [Sandbox.toPrimitiveGo]
      exact .same _

theorem toPrimitive {v : Value} (hv : m.Knows v) :
    Outlasts (toPrimitive m'.heap v) (toPrimitive m.heap v) :=
  toPrimitiveGo hm h (Nat.add_le_add_right h.heap_le 2) hv

theorem toText {v : Value} (hv : m.Knows v) : Outlasts (toText m'.heap v) (toText m.heap v) := by
  unfold Sandbox.toText
  split
  · exact (toPrimitive hm h hv).map _
  · exact .same _

theorem toNumber {v : Value} (hv : m.Knows v) :
    Outlasts (toNumber m'.heap v) (toNumber m.heap v) := by
  unfold Sandbox.toNumber
  split
  · exact (toPrimitive hm h hv).bind fun _ _ => .same _
  · exact .same _

theorem toUint32 {v : Value} (hv : m.Knows v) :
    Outlasts (toUint32 m'.heap v) (toUint32 m.heap v) := (toNumber hm h hv).map _

theorem toInt32 {v : Value} (hv : m.Knows v) :
    Outlasts (toInt32 m'.heap v) (toInt32 m.heap v) := (toUint32 hm h hv).map _

theorem looseEqualsGo (fuel : Nat) {l r : Value} (hl : m.Knows l) (hr : m.Knows r) :
    Outlasts (looseEqualsGo m'.heap fuel l r) (looseEqualsGo m.heap fuel l r) := by
  induction fuel generalizing l r with
  | zero => exact .same _
  | succ fuel ih =>
    have hprimitive : ∀ {v p : Value}, Sandbox.toPrimitive m.heap v = .ok p → m.Knows p :=
      fun hp => Machine.knows_of_isObject (isObject_of_toPrimitive hp)
    unfold Sandbox.looseEqualsGo
    split
    · exact .same _
    · split
      · exact .same _
      · exact .same _
      · exact .same _
      · exact .same _
      · exact ih trivial hr
      · exact ih hl trivial
      · exact (toPrimitive hm h hl).bind fun _ hp => ih (hprimitive hp) hr
      · exact (toPrimitive hm h hl).bind fun _ hp => ih (hprimitive hp) hr
      · exact (toPrimitive hm h hr).bind fun _ hp => ih hl (hprimitive hp)
      · exact (toPrimitive hm h hr).bind fun _ hp => ih hl (hprimitive hp)
      · exact .same _

theorem pureOperation (op : BinaryOp) {l r : Value} (hl : m.Knows l) (hr : m.Knows r) :
    Outlasts (pureOperation m'.heap op l r) (pureOperation m.heap op l r) := by
  have hnumbers : Outlasts
      (do return Value.number (numberOperation op (← Sandbox.toNumber m'.heap l)
        (← Sandbox.toNumber m'.heap r)))
      (do return Value.number (numberOperation op (← Sandbox.toNumber m.heap l)
        (← Sandbox.toNumber m.heap r))) :=
    (toNumber hm h hl).bind fun _ _ => (toNumber hm h hr).map _
  have hshift : Outlasts (shiftValues m'.heap op l r) (shiftValues m.heap op l r) :=
    (toUint32 hm h hr).bind fun _ _ => by
      split
      · exact (toInt32 hm h hl).map _
      · exact (toInt32 hm h hl).map _
      · exact (toUint32 hm h hl).map _
  have hbits : Outlasts (bitValues m'.heap op l r) (bitValues m.heap op l r) :=
    (toInt32 hm h hl).bind fun _ _ => (toInt32 hm h hr).bind fun _ _ => .same _
  have horder : Outlasts (compareValues m'.heap op l r) (compareValues m.heap op l r) :=
    (toPrimitive hm h hl).bind fun _ _ => (toPrimitive hm h hr).bind fun _ _ => .same _
  have hloose : Outlasts (looseEquals m'.heap l r) (looseEquals m.heap l r) :=
    looseEqualsGo hm h 5 hl hr
  have hadd : Outlasts (addValues m'.heap l r) (addValues m.heap l r) :=
    (toPrimitive hm h hl).bind fun _ _ => (toPrimitive hm h hr).bind fun _ _ => .same _
  cases op with
  | add => exact hadd
  | equal => exact hloose.map _
  | notEqual => exact hloose.map _
  | same => exact .same _
  | notSame => exact .same _
  | sub => exact hnumbers
  | mul => exact hnumbers
  | div => exact hnumbers
  | mod => exact hnumbers
  | pow => exact hnumbers
  | shiftLeft => exact hshift.map _
  | shiftRight => exact hshift.map _
  | shiftRightZero => exact hshift.map _
  | bitAnd => exact hbits.map _
  | bitOr => exact hbits.map _
  | bitXor => exact hbits.map _
  | less => exact horder.map _
  | greater => exact horder.map _
  | lessEq => exact horder.map _
  | greaterEq => exact horder.map _
  | member => exact .same _
  | instanceOf => exact .same _
  | other => exact .same _

end Outlasts

/-! ## Operators -/

/-- The membership test looks at objects. -/
def membership (h : Heap) (l : Value) (r : Ref) : Conv Value := do
  let key ← toKey h l
  return .bool (← (h.getD r default).has key)

theorem reading_bind {α β : Type} (f : Heap → Conv α) (g : α → Heap → Conv β) :
    (Run.reading f >>= fun a => Run.reading (g a)) =
      Run.reading fun h => f h >>= fun a => g a h := by
  funext m
  rw [reading_eq]
  cases hx : f m.heap with
  | ok a =>
    rw [bind_of_ok (by rw [reading_eq, hx]), reading_eq]
    rfl
  | error e =>
    rw [bind_of_error (by rw [reading_eq, hx])]
    rfl

theorem binaryOperation_member (l : Value) (r : Ref) :
    Run.binaryOperation .member l (.object r) = Run.reading fun h => membership h l r := by
  have htest : ∀ key, (do
      let c ← Run.cell r
      return Value.bool (← Run.reading fun _ => c.has key)) =
      Run.reading fun h => do return Value.bool (← (h.getD r default).has key) := by
    intro key
    funext m
    show (Run.reading (fun _ => (m.cell r).has key) >>= fun b =>
      Run.reading fun _ => .ok (Value.bool b)) m = _
    rw [reading_bind, reading_eq, reading_eq]
    rfl
  exact (congrArg (Run.reading (fun h => toKey h l) >>= ·) (funext htest)).trans (reading_bind _ _)

/-- An operator looks at objects, or it throws an error. -/
theorem binaryOperation_cases (op : BinaryOp) (l r : Value) :
    (∃ q, r = .object q ∧ Run.binaryOperation op l r = Run.reading fun h => membership h l q) ∨
      (Run.binaryOperation op l r = Run.reading fun h => pureOperation h op l r) ∨
        ∃ kind message, Run.binaryOperation op l r = Run.raise kind message := by
  cases op with
  | member =>
    cases r with
    | object q => exact .inl ⟨q, rfl, binaryOperation_member l q⟩
    | _ => exact .inr (.inr ⟨_, _, rfl⟩)
  | _ => exact .inr (.inl rfl)

theorem proper_membership (h : Heap) (l : Value) (r : Ref) : Proper [.key] (membership h l r) :=
  (Proper.toText l).bind fun key => (Proper.has List.mem_cons_self (h.getD r default) key).map _

/-- An operator returns from no function. -/
theorem binaryOperation_ne_returned {op : BinaryOp} {l r v : Value} {m m₁ : Machine} :
    Run.binaryOperation op l r m ≠ .error (.returned v) m₁ := by
  have hread : ∀ {cs : List Conversion} {f : Heap → Conv Value}, Proper cs (f m.heap) →
      Run.reading f m ≠ .error (.returned v) m₁ := by
    intro cs f hf hstop
    rw [reading_eq] at hstop
    cases hx : f m.heap with
    | ok a =>
      rw [hx] at hstop
      cases hstop
    | error x =>
      rw [hx] at hstop
      cases hstop
      cases hf _ hx
  obtain ⟨q, -, heq⟩ | heq | ⟨kind, message, heq⟩ := binaryOperation_cases op l r
  · rw [heq]
    exact hread (proper_membership _ l q)
  · rw [heq]
    exact hread (.pureOperation (List.mem_singleton_self _) op l r)
  · rw [heq]
    intro hstop
    cases hstop

namespace Machine.Within

variable {m m' : Machine} {α : Type}

/-- A look at objects gives the same on a machine with more of them, unless a limit stops it. -/
theorem reading (h : m.Within m') {f f' : Heap → Conv α} (hf : Outlasts (f' m'.heap) (f m.heap))
    (hend : Unstopped (Run.reading f m)) : EndAlike (Run.reading f m) (Run.reading f' m') := by
  rw [reading_eq] at hend ⊢
  rw [reading_eq]
  obtain ⟨l, hlimit⟩ | hsame := hf
  · rw [hlimit] at hend
    exact absurd rfl (hend l m)
  · rw [hsame]
    cases f m.heap with
    | ok a => exact .result h a
    | error e => exact .stop h e

/-- Throwing an error makes an object, which has a place of its own on each of the machines. -/
theorem raise (h : m.Within m') (kind : String) (message : Text) :
    EndAlike (Run.raise kind message m : EStateM.Result Abrupt Machine α) (Run.raise kind message m') :=
  .thrown h _

/-- An operator gives the same on a machine with more objects, unless a limit stops it. -/
theorem binaryOperation (h : m.Within m') (hm : m.Complete) (op : BinaryOp) {l r : Value}
    (hl : m.Knows l) (hr : m.Knows r) (hend : Unstopped (Run.binaryOperation op l r m)) :
    EndAlike (Run.binaryOperation op l r m) (Run.binaryOperation op l r m') := by
  obtain ⟨q, rfl, heq⟩ | heq | ⟨kind, message, heq⟩ := binaryOperation_cases op l r
  · rw [heq] at hend ⊢
    refine h.reading ((Outlasts.toText hm h hl).bind fun key _ => ?_) hend
    have hcell : m'.heap.getD q default = m.heap.getD q default := h.cells q hr
    rw [hcell]
    exact .same _
  · rw [heq] at hend ⊢
    exact h.reading (.pureOperation hm h op hl hr) hend
  · rw [heq]
    exact h.raise kind message

end Machine.Within

end Untangle.Sandbox
