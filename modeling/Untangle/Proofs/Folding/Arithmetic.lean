import Untangle.Proofs.Number.Sign
import Untangle.Proofs.Sandbox.Literal
import Untangle.Proofs.Sandbox.Primitive
import Untangle.Rule.Folding

set_option autoImplicit false

/-!
# Arithmetic

Expressions of literals, unary minus and operators that are folded come to a value, or stop because a
number is too large, in a number of steps and at a depth of nesting that can be told beforehand.  On a
machine that has room for them they do just that, and on any other one they end at a limit
(`Evaluates.describes`).

What is folded may have the names NaN and Infinity in it, because numbers without a literal are written
so.
-/

namespace Untangle.Rule.Folding

open Sandbox

/-! ## Expressions -/

/-- An expression of literals, the names of numbers that have no literal, unary minus and operators that
are folded. -/
inductive Arithmetic : Node → Prop
  | literal {i : NodeId} {r : Role} {l : Literal} (hl : l.isRegex = false) :
      Arithmetic (.mk i r (.literal l) [])
  | nan {i : NodeId} {r : Role} : Arithmetic (.mk i r (.identifier "NaN") [])
  | infinity {i : NodeId} {r : Role} : Arithmetic (.mk i r (.identifier "Infinity") [])
  | minus {i : NodeId} {r : Role} {c : Node} (hrole : c.role = .argument) (hc : Arithmetic c) :
      Arithmetic (.mk i r (.unary .minus) [c])
  | binary {i : NodeId} {r : Role} {op : BinaryOp} {x y : Node} (hop : isFoldable op = true)
      (hleft : x.role = .left) (hright : y.role = .right) (hx : Arithmetic x) (hy : Arithmetic y) :
      Arithmetic (.mk i r (.binary op) [x, y])

/-- What an evaluation comes to, the steps that it takes, and how deep the expressions that it evaluates
are nested. -/
structure Course where
  result : Conv Value
  steps : Nat
  nesting : Nat

namespace Course

/-- An outcome that costs nothing. -/
def done (c : Conv Value) : Course := ⟨c, 0, 0⟩

/-- What happens inside of an expression. -/
def inside (x : Course) : Course := ⟨x.result, x.steps + 1, x.nesting + 1⟩

/-- An evaluation and what is done with its value, if it has one. -/
def andThen (x : Course) (f : Value → Course) : Course :=
  match x.result with
  | .ok v => ⟨(f v).result, x.steps + (f v).steps, max x.nesting (f v).nesting⟩
  | .error e => ⟨.error e, x.steps, x.nesting⟩

theorem result_andThen (x : Course) (f : Value → Course) :
    (x.andThen f).result = x.result >>= fun v => (f v).result := by
  unfold andThen
  cases x.result <;> rfl

/-- An expression without parts. -/
def leaf (c : Conv Value) : Course := (done c).inside

/-- An operator on one operand. -/
def unary (x : Course) (f : Value → Conv Value) : Course :=
  (x.andThen fun v => done (f v)).inside

/-- An operator on two operands. -/
def binary (x y : Course) (f : Value → Value → Conv Value) : Course :=
  (x.andThen fun v => y.andThen fun w => done (f v w)).inside

theorem result_unary (x : Course) (f : Value → Conv Value) :
    (x.unary f).result = x.result >>= f := result_andThen x _

theorem result_binary (x y : Course) (f : Value → Value → Conv Value) :
    (x.binary y f).result = x.result >>= fun v => y.result >>= f v := by
  refine (result_andThen x _).trans ?_
  congr
  funext v
  exact result_andThen y _

end Course

/-- The negative of a value. -/
def negative (v : Value) : Conv Value := return .number (-(← toNumber #[] v))

/-- How an expression is evaluated. -/
inductive Evaluates : Node → Course → Prop
  | literal {i : NodeId} {r : Role} {l : Literal} (hl : l.isRegex = false) :
      Evaluates (.mk i r (.literal l) []) (.leaf ((literalOf l).mapError .fault))
  | nan {i : NodeId} {r : Role} :
      Evaluates (.mk i r (.identifier "NaN") []) (.leaf (.ok (.number Binary64.nan)))
  | infinity {i : NodeId} {r : Role} :
      Evaluates (.mk i r (.identifier "Infinity") []) (.leaf (.ok (.number Binary64.infinity)))
  | minus {i : NodeId} {r : Role} {c : Node} {x : Course} (hrole : c.role = .argument)
      (hc : Evaluates c x) : Evaluates (.mk i r (.unary .minus) [c]) (x.unary negative)
  | binary {i : NodeId} {r : Role} {op : BinaryOp} {a b : Node} {x y : Course}
      (hop : isFoldable op = true) (hleft : a.role = .left) (hright : b.role = .right)
      (ha : Evaluates a x) (hb : Evaluates b y) :
      Evaluates (.mk i r (.binary op) [a, b]) (x.binary y (pureOperation #[] op))

theorem Arithmetic.evaluates {n : Node} (h : Arithmetic n) : ∃ x, Evaluates n x := by
  induction h with
  | literal hl => exact ⟨_, .literal hl⟩
  | nan => exact ⟨_, .nan⟩
  | infinity => exact ⟨_, .infinity⟩
  | minus hrole _ ih =>
    obtain ⟨x, hx⟩ := ih
    exact ⟨_, .minus hrole hx⟩
  | binary hop hleft hright _ _ iha ihb =>
    obtain ⟨x, hx⟩ := iha
    obtain ⟨y, hy⟩ := ihb
    exact ⟨_, .binary hop hleft hright hx hy⟩

/-! ## Results -/

/-- An operator that is folded gives a value with a tree, whatever the store is. -/
theorem steady_pureOperation (h h' : Heap) {op : BinaryOp} {v w : Value}
    (hop : isFoldable op = true) (hv : v.isObject = false) (hw : w.isObject = false) :
    Steady (fun x : Value => x.isWritable = true) (pureOperation h op v w) (pureOperation h' op v w) := by
  have harith : Steady (fun x : Value => x.isWritable = true)
      (do
        let x ← toNumber h v
        let y ← toNumber h w
        return Value.number (numberOperation op x y))
      (do
        let x ← toNumber h' v
        let y ← toNumber h' w
        return Value.number (numberOperation op x y)) :=
    (steady_toNumber h h' hv).bind fun _ _ => (steady_toNumber h h' hw).map fun _ _ => rfl
  cases op with
  | add => exact steady_addValues h h' hv hw
  | sub => exact harith
  | mul => exact harith
  | div => exact harith
  | shiftLeft => exact (steady_shiftValues h h' _ hv hw).map fun _ _ => rfl
  | equal => exact (steady_looseEqualsGo h h' 5 hv hw).map fun _ _ => rfl
  | notEqual => exact (steady_looseEqualsGo h h' 5 hv hw).map fun _ _ => rfl
  | same => exact .ok rfl
  | notSame => exact .ok rfl
  | _ => cases hop

theorem steady_literalOf {l : Literal} (hl : l.isRegex = false) :
    Steady (fun x : Value => x.isWritable = true) ((literalOf l).mapError Abrupt.fault)
      ((literalOf l).mapError .fault) := by
  cases l with
  | null => exact .ok rfl
  | bool b => exact .ok rfl
  | string t => exact .ok rfl
  | regex p f => cases hl
  | number n =>
    cases n with
    | real x => exact .ok rfl
    | whole k =>
      unfold literalOf numeralValue
      simp only
      cases Binary64.ofInt? k with
      | some x => exact .ok rfl
      | none => exact .tooLarge

theorem steady_negative {v : Value} (hv : v.isObject = false) :
    Steady (fun x : Value => x.isWritable = true) (negative v) (negative v) :=
  (steady_toNumber #[] #[] hv).map fun _ _ => rfl

/-- An evaluation gives a value with a tree, or a number is too large. -/
theorem Evaluates.steady {n : Node} {x : Course} (h : Evaluates n x) :
    Steady (fun v : Value => v.isWritable = true) x.result x.result := by
  induction h with
  | literal hl => exact steady_literalOf hl
  | nan => exact .ok rfl
  | infinity => exact .ok rfl
  | minus _ _ ih =>
    rw [Course.result_unary]
    exact ih.bind fun v hv => steady_negative (isObject_of_isWritable hv)
  | binary hop _ _ _ _ iha ihb =>
    rw [Course.result_binary]
    exact iha.bind fun v hv => ihb.bind fun w hw =>
      steady_pureOperation #[] #[] hop (isObject_of_isWritable hv) (isObject_of_isWritable hw)

/-! ## Running -/

/-- The names of the numbers that have no literal stand for them, however many steps were taken. -/
structure NumbersNamed (m : Machine) (scopes : ScopeChain) : Prop where
  nan : ∀ k, Run.lookup scopes "NaN" { m with steps := k } =
    .ok (.number Binary64.nan) { m with steps := k }
  infinity : ∀ k, Run.lookup scopes "Infinity" { m with steps := k } =
    .ok (.number Binary64.infinity) { m with steps := k }

/-- A computation that ended at a limit. -/
def AtLimit (r : EStateM.Result Abrupt Machine Value) : Prop := ∃ l m', r = .error (.limit l) m'

namespace Course

/-- How an evaluation ends on a machine that has room for it. -/
def answer (x : Course) (m : Machine) : EStateM.Result Abrupt Machine Value :=
  match x.result with
  | .ok v => .ok v { m with steps := m.steps + x.steps }
  | .error e => .error e { m with steps := m.steps + x.steps }

/-- The limits leave room for an evaluation. -/
def Fits (x : Course) (depth : Nat) (m : Machine) : Prop :=
  m.steps + x.steps ≤ m.maxSteps ∧ x.nesting ≤ depth

/-- A computation does what an evaluation says, or ends at a limit if there is no room for it. -/
structure Describes (x : Course) (depth : Nat) (m : Machine)
    (r : EStateM.Result Abrupt Machine Value) : Prop where
  room : x.Fits depth m → r = x.answer m
  noRoom : ¬ x.Fits depth m → AtLimit r

theorem Describes.done {c : Conv Value} {depth : Nat} {m : Machine}
    {r : EStateM.Result Abrupt Machine Value} (hm : m.steps ≤ m.maxSteps)
    (h : r = (done c).answer m) : (done c).Describes depth m r :=
  ⟨fun _ => h, fun hno => absurd ⟨hm, Nat.zero_le _⟩ hno⟩

theorem Describes.inside {x : Course} {depth : Nat} {m : Machine} {b : Run Value}
    (h : m.steps + 1 ≤ m.maxSteps →
      x.Describes depth { m with steps := m.steps + 1 } (b { m with steps := m.steps + 1 })) :
    x.inside.Describes (depth + 1) m ((do Run.tick; b) m) := by
  by_cases hroom : m.steps + 1 ≤ m.maxSteps
  · rw [bind_of_ok (tick_of_room hroom)]
    have hshift : x.inside.Fits (depth + 1) m ↔ x.Fits depth { m with steps := m.steps + 1 } := by
      unfold Fits Course.inside
      simp only
      omega
    constructor
    · intro hfits
      rw [(h hroom).room (hshift.mp hfits)]
      unfold answer Course.inside
      simp only [Nat.add_assoc, Nat.add_comm 1]
    · intro hno
      exact (h hroom).noRoom fun hfits => hno (hshift.mpr hfits)
  · have hstop : Run.tick m = .error (.limit (.steps m.maxSteps)) { m with steps := m.steps + 1 } := by
      rw [tick_eq, if_pos (by omega)]
    rw [bind_of_error hstop]
    refine ⟨fun hfits => ?_, fun _ => ⟨_, _, rfl⟩⟩
    have := hfits.1
    unfold Course.inside at this
    simp only at this
    omega

theorem Describes.andThen {x : Course} {f : Value → Course} {depth : Nat} {m : Machine}
    {c : Run Value} {k : Value → Run Value} (hc : x.Describes depth m (c m))
    (hk : ∀ v, x.result = .ok v → m.steps + x.steps ≤ m.maxSteps →
      (f v).Describes depth { m with steps := m.steps + x.steps }
        (k v { m with steps := m.steps + x.steps })) :
    (x.andThen f).Describes depth m ((c >>= k) m) := by
  by_cases hfits : x.Fits depth m
  · have hrun := hc.room hfits
    unfold answer at hrun
    unfold Course.andThen
    cases hx : x.result with
    | ok v =>
      rw [hx] at hrun
      rw [bind_of_ok hrun]
      have hv := hk v hx hfits.1
      have hshift : Fits ⟨(f v).result, x.steps + (f v).steps, max x.nesting (f v).nesting⟩ depth m ↔
          (f v).Fits depth { m with steps := m.steps + x.steps } := by
        have := hfits.2
        unfold Fits
        simp only
        omega
      constructor
      · intro hboth
        rw [hv.room (hshift.mp hboth)]
        unfold answer
        simp only [Nat.add_assoc]
      · intro hno
        exact hv.noRoom fun h => hno (hshift.mpr h)
    | error e =>
      rw [hx] at hrun
      rw [bind_of_error hrun]
      exact ⟨fun _ => rfl, fun hno => absurd hfits hno⟩
  · obtain ⟨l, m', hlimit⟩ := hc.noRoom hfits
    rw [bind_of_error hlimit]
    refine ⟨fun hboth => absurd ?_ hfits, fun _ => ⟨l, m', rfl⟩⟩
    unfold Course.andThen at hboth
    unfold Fits at hboth ⊢
    cases hx : x.result with
    | ok v =>
      rw [hx] at hboth
      simp only at hboth
      omega
    | error e =>
      rw [hx] at hboth
      exact hboth

end Course

theorem binaryOperation_of_isFoldable {op : BinaryOp} (hop : isFoldable op = true) (v w : Value) :
    Run.binaryOperation op v w = Run.reading fun h => pureOperation h op v w := by
  cases op with
  | member => cases hop
  | _ => rfl

theorem NumbersNamed.later {m : Machine} {scopes : ScopeChain} (h : NumbersNamed m scopes) (k : Nat) :
    NumbersNamed { m with steps := k } scopes := ⟨h.nan, h.infinity⟩

namespace Course

/-- What is done with primitive values without any cost. -/
theorem Describes.reading {p : Value → Prop} {f : Heap → Conv Value} {c : Conv Value} {depth : Nat}
    {m : Machine} (hm : m.steps ≤ m.maxSteps) (h : Steady p (f m.heap) c) :
    (Course.done c).Describes depth m (Run.reading f m) := by
  refine .done hm ?_
  rw [reading_eq, h.same]
  unfold answer Course.done
  cases c <;> rfl

/-- Without any depth the evaluator stops at once, but everything needs a depth of one at least. -/
theorem describes_zero (x : Course) (n : Node) (scopes : ScopeChain) (m : Machine) :
    x.inside.Describes 0 m ((evaluator 0).expression n scopes m) := by
  refine ⟨fun hfits => ?_, fun _ => ⟨_, _, rfl⟩⟩
  have := hfits.2
  unfold inside at this
  simp only at this
  omega

end Course

theorem numberOf_negative (v : Value) :
    (do return Value.number (-(← Run.numberOf v)) : Run Value) =
      Run.reading fun h => do return .number (-(← toNumber h v)) := by
  funext m
  rw [reading_eq]
  unfold Run.numberOf
  cases h : toNumber m.heap v with
  | ok x =>
    have hread : Run.reading (fun h => toNumber h v) m = .ok x m := by rw [reading_eq, h]
    rw [bind_of_ok hread]
    rfl
  | error e =>
    have hread : Run.reading (fun h => toNumber h v) m = .error e m := by rw [reading_eq, h]
    rw [bind_of_error hread]
    rfl

open Course in
/-- Arithmetic runs as its evaluation says, or ends at a limit. -/
theorem Evaluates.describes {n : Node} {x : Course} (h : Evaluates n x) {scopes : ScopeChain}
    {m : Machine} (hm : NumbersNamed m scopes) (depth : Nat) :
    x.Describes depth m ((evaluator depth).expression n scopes m) := by
  induction h generalizing depth m with
  | @literal i r l hl =>
    cases depth with
    | zero => exact describes_zero _ _ _ _
    | succ depth =>
      refine Describes.inside (b := Run.literalValue l) fun hsteps => .done hsteps ?_
      cases hv : literalOf l with
      | ok v => exact literalValue_of_literalOf hl hv _
      | error f => exact literalValue_of_error hv _
  | nan =>
    cases depth with
    | zero => exact describes_zero _ _ _ _
    | succ depth => exact Describes.inside fun hsteps => .done hsteps (hm.nan _)
  | infinity =>
    cases depth with
    | zero => exact describes_zero _ _ _ _
    | succ depth => exact Describes.inside fun hsteps => .done hsteps (hm.infinity _)
  | @minus i r c x hrole hc ih =>
    cases depth with
    | zero => exact describes_zero _ _ _ _
    | succ depth =>
      have hpart : Node.child? (.mk i r (.unary .minus) [c]) .argument = some c := by
        simp [Node.child?, Node.children, hrole]
      refine Describes.inside (b := Run.part (.mk i r (.unary .minus) [c]) .argument >>= fun a =>
        Run.unaryValue (evaluator depth) .minus a scopes) fun _ => ?_
      rw [bind_of_ok (part_of_child? hpart _)]
      refine Describes.andThen (ih (hm.later _) depth) fun v hv hroom => ?_
      show Describes _ _ _ ((do return Value.number (-(← Run.numberOf v)) : Run Value) _)
      rw [numberOf_negative]
      have hobject := isObject_of_isWritable (hc.steady.result v hv)
      exact .reading (p := fun _ => True) hroom ((steady_toNumber _ _ hobject).map fun _ _ => trivial)
  | @binary i r op a b x y hop hleft hright ha hb iha ihb =>
    cases depth with
    | zero => exact describes_zero _ _ _ _
    | succ depth =>
      have hpartLeft : Node.child? (.mk i r (.binary op) [a, b]) .left = some a := by
        simp [Node.child?, Node.children, hleft]
      have hpartRight : Node.child? (.mk i r (.binary op) [a, b]) .right = some b := by
        simp [Node.child?, Node.children, hleft, hright]
      refine Describes.inside (b := do
        let l ← (evaluator depth).expression (← Run.part (.mk i r (.binary op) [a, b]) .left) scopes
        let r ← (evaluator depth).expression (← Run.part (.mk i r (.binary op) [a, b]) .right) scopes
        Run.binaryOperation op l r) fun _ => ?_
      rw [bind_of_ok (part_of_child? hpartLeft _)]
      refine Describes.andThen (iha (hm.later _) depth) fun v hv _ => ?_
      rw [bind_of_ok (part_of_child? hpartRight _)]
      refine Describes.andThen (ihb (hm.later _) depth) fun w hw hroom => ?_
      rw [binaryOperation_of_isFoldable hop]
      exact .reading hroom (steady_pureOperation _ _ hop
        (isObject_of_isWritable (ha.steady.result v hv))
        (isObject_of_isWritable (hb.steady.result w hw)))

end Untangle.Rule.Folding
