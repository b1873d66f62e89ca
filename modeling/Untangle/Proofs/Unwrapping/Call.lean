import Untangle.Proofs.Sandbox.Garbage
import Untangle.Proofs.Sandbox.Headstart
import Untangle.Rule.Evaluation

set_option autoImplicit false

/-!
# Calls of wrappers

A function that wraps an operator binds its two parameters in a scope of its own and applies the operator
to them.  The scope, and the object that holds the arguments, are all that a call leaves behind, and
nothing refers to them.
-/

namespace Untangle

/-- What is known of a function that wraps an operator: the names of its parameters, its body, and the
operation that its body consists of. -/
structure Node.Wraps (f : Node) (w : Wrapper) (a b : Text) (code e : Node) : Prop where
  parameters : (f.childrenAt .params).map Node.name? = [some a, some b]
  different : a ≠ b
  body : f.child? .body = some code
  result : code.soleResult? = some e
  operator : e.form = .binary w.op
  left : (e.child? .left).bind Node.name? = some (if w.swapped then b else a)
  right : (e.child? .right).bind Node.name? = some (if w.swapped then a else b)

theorem Node.parameters_of_twoParameters {f : Node} {a b : Text} (h : f.twoParameters? = some (a, b)) :
    (f.childrenAt .params).map Node.name? = [some a, some b] ∧ a ≠ b := by
  unfold twoParameters? at h
  split at h
  case h_3 => cases h
  -- The parameters are those of a function of either kind.
  all_goals
    split at h
    · next c d heq =>
      split at h
      · cases h
      · next hne =>
        cases h
        exact ⟨heq, by simpa using hne⟩
    · cases h

/-- What a function wraps does not depend on the slot in which it stands. -/
theorem Node.Wraps.inRole {f code e : Node} {w : Wrapper} {a b : Text} (h : f.Wraps w a b code e)
    (r : Role) : (f.inRole r).Wraps w a b code e := by
  cases f
  exact ⟨h.parameters, h.different, h.body, h.result, h.operator, h.left, h.right⟩

theorem Node.exists_wraps {f : Node} {w : Wrapper} (h : f.wrapper? = some w) :
    ∃ a b body e, f.Wraps w a b body e := by
  unfold wrapper? at h
  split at h
  · next a b e hnames hresult =>
    obtain ⟨hparameters, hne⟩ := parameters_of_twoParameters hnames
    obtain ⟨body, hbody, hsole⟩ := Option.bind_eq_some_iff.mp hresult
    split at h
    · next op l r hform hleft hright =>
      split at h
      · next hsame =>
        cases h
        obtain ⟨rfl, rfl⟩ : l = a ∧ r = b := by simpa using hsame
        exact ⟨l, r, body, e, hparameters, hne, hbody, hsole, hform, hleft, hright⟩
      · split at h
        · next hswapped =>
          cases h
          obtain ⟨rfl, rfl⟩ : l = b ∧ r = a := by simpa using hswapped
          exact ⟨r, l, body, e, hparameters, hne, hbody, hsole, hform, hleft, hright⟩
        · cases h
    · cases h
  · cases h

namespace Sandbox

variable {m : Machine} {depth : Nat} {scopes : ScopeChain}

/-! ## The operation on the parameters -/

theorem expression_name {n : Node} {name : Text} {f : FrameId} (hname : n.name? = some name)
    (hscope : m.findScope name scopes = some f)
    (hend : Unstopped ((evaluator depth).expression n scopes m)) :
    (evaluator depth).expression n scopes m = .ok (m.variable f name) (m.spend 1) := by
  have hform := form_of_name? hname
  obtain ⟨d, rfl, heq⟩ := hend.expression
  rw [heq] at hend ⊢
  unfold Run.evaluateExpression at hend ⊢
  rw [hend.tick.2]
  simp only [hform]
  exact lookup_of_findScope ((m.findScope_spend ..).trans hscope)

theorem runBody_of_expression (ev : Evaluator) {code : Node} (scopes : ScopeChain)
    (hform : code.form ≠ .blockStatement) : Run.runBody ev code scopes = ev.expression code scopes := by
  unfold Run.runBody
  split
  · next hblock => exact absurd hblock hform
  · rfl

/-- An operation on two names that are declared and have these values. -/
structure Operation (m : Machine) (scopes : ScopeChain) (e : Node) (op : BinaryOp) (x y : Value) :
    Prop where
  operator : e.form = .binary op
  left : ∃ l f, (e.child? .left).bind Node.name? = some l ∧ m.findScope l scopes = some f ∧
    m.variable f l = x
  right : ∃ r g, (e.child? .right).bind Node.name? = some r ∧ m.findScope r scopes = some g ∧
    m.variable g r = y

namespace Operation

variable {e : Node} {op : BinaryOp} {x y : Value}

theorem spend (h : Operation m scopes e op x y) (k : Nat) : Operation (m.spend k) scopes e op x y where
  operator := h.operator
  left := by simpa using h.left
  right := by simpa using h.right

theorem expression (h : Operation m scopes e op x y)
    (hend : Unstopped ((evaluator depth).expression e scopes m)) :
    (evaluator depth).expression e scopes m = Run.binaryOperation op x y (m.spend 3) := by
  obtain ⟨l, f, hl, hlscope, rfl⟩ := h.left
  obtain ⟨r, g, hr, hrscope, rfl⟩ := h.right
  obtain ⟨i, hi, hiname⟩ := Option.bind_eq_some_iff.mp hl
  obtain ⟨j, hj, hjname⟩ := Option.bind_eq_some_iff.mp hr
  obtain ⟨d, rfl, heq⟩ := hend.expression
  rw [heq] at hend ⊢
  unfold Run.evaluateExpression at hend ⊢
  obtain ⟨-, htick⟩ := hend.tick
  rw [htick] at hend ⊢
  simp only [h.operator] at hend ⊢
  rw [bind_of_ok (part_of_child? hi _)] at hend ⊢
  have hvalue := expression_name hiname (m := m.spend 1) (f := f) (by simpa using hlscope) hend.first
  rw [bind_of_ok hvalue, bind_of_ok (part_of_child? hj _)] at hend ⊢
  have hvalue' := expression_name hjname (m := (m.spend 1).spend 1) (f := g) (by simpa using hrscope)
    hend.first
  rw [bind_of_ok hvalue']
  rfl

theorem statement (h : Operation m scopes e op x y) {s : Node} (hform : s.form = .returnStatement)
    (hargument : s.child? .argument = some e)
    (hend : Unstopped ((evaluator depth).statement s scopes m)) :
    (evaluator depth).statement s scopes m =
      (Run.binaryOperation op x y >>= fun v => throw (.returned v)) (m.spend 4) := by
  obtain ⟨d, rfl, heq⟩ := hend.statement
  rw [heq] at hend ⊢
  unfold Run.executeStatement at hend ⊢
  obtain ⟨-, htick⟩ := hend.tick
  rw [htick] at hend ⊢
  simp only [hform, hargument] at hend ⊢
  have hvalue := (h.spend 1).expression hend.first
  cases hrun : Run.binaryOperation op x y (m.spend 4) with
  | ok v m₁ => rw [bind_of_ok (hvalue.trans hrun), bind_of_ok hrun]
  | error z m₁ => rw [bind_of_error (hvalue.trans hrun), bind_of_error hrun]

/-- A function whose body consists of an operation returns what that gives. -/
theorem body (h : Operation m scopes e op x y) {code : Node} (hresult : code.soleResult? = some e)
    (hend : Unstopped (Run.runBody (evaluator depth) code scopes m)) :
    ∃ k, Run.runBody (evaluator depth) code scopes m = Run.binaryOperation op x y (m.spend k) := by
  unfold Node.soleResult? at hresult
  split at hresult
  · next hform =>
    split at hresult
    · next s hstatements =>
      split at hresult
      · next hreturn =>
        refine ⟨4, ?_⟩
        unfold Run.runBody at hend ⊢
        simp only [hform, hstatements] at hend ⊢
        have hhoist : Run.hoist scopes [s] m = .ok () m := by
          unfold Run.hoist
          simp only [hreturn]
          rfl
        rw [bind_of_ok hhoist] at hend ⊢
        have hguarded := hend.guarded (by intro l; rfl)
        have hstatement := h.statement hreturn hresult hguarded.first.first
        have hlast : ∀ {z m₁}, (evaluator depth).statement s scopes m = .error z m₁ →
            (Run.runAll (evaluator depth) scopes [s] >>= fun _ => pure Value.undefined) m =
              .error z m₁ := fun hstop => bind_of_error (bind_of_error hstop)
        cases hrun : Run.binaryOperation op x y (m.spend 4) with
        | ok v m₁ =>
          rw [bind_of_ok hrun] at hstatement
          exact tryCatch_of_error (hlast hstatement)
        | error z m₁ =>
          rw [bind_of_error hrun] at hstatement
          refine (tryCatch_of_error (hlast hstatement)).trans ?_
          cases z with
          | returned v => exact absurd hrun binaryOperation_ne_returned
          | _ => rfl
      · cases hresult
    · cases hresult
  · next hform =>
    cases hresult
    have hbody := runBody_of_expression (evaluator depth) scopes hform
    rw [hbody] at hend ⊢
    exact ⟨3, h.expression hend⟩

end Operation

/-! ## The scope of a call -/

/-- The machine with a variable of a scope set. -/
def Machine.declared (m : Machine) (f : FrameId) (name : Text) (v : Value) : Machine :=
  { m with frames := m.frames.modify f fun fr => { fr with bindings := fr.bindings.put name v } }

theorem declare_eq (f : FrameId) (name : Text) (v : Value) (m : Machine) :
    Run.declare f name v m = .ok () (m.declared f name v) := rfl

/-- A machine that has opened a scope behind all those of another one. -/
structure Opened (m : Machine) (f : FrameId) (p : Machine) : Prop where
  within : m.Within p
  behind : m.frames.size ≤ f
  open_ : f < p.frames.size

theorem Opened.declared {p : Machine} {f : FrameId} (h : Opened m f p) (name : Text) (v : Value) :
    Opened m f (p.declared f name v) where
  within := h.within.modifyFrame h.behind _
  behind := h.behind
  open_ := by
    show f < (p.frames.modify f _).size
    rw [Array.size_modify]
    exact h.open_

theorem Opened.pushed {p : Machine} {f : FrameId} (h : Opened m f p) (c : Cell) :
    Opened m f { p with heap := p.heap.push c } := ⟨h.within.push c, h.behind, h.open_⟩

/-- Before it binds its parameters, a function has opened a scope. -/
theorem callCode_opens (e : Meaning) (f : Value) {code current : Node} (scopes : ScopeChain) (name : Text)
    (this : Value) (args : List Value) {m₀ : Machine} (hm : m₀.Within m)
    (hcurrent : code.present m.trees = current) :
    ∃ frame p, Opened m₀ frame p ∧
      Run.callCode e f code scopes name this args m = (do
        Run.bindParameters e.toEvaluator frame (frame :: scopes) args (current.childrenAt .params) 0
        e.body (← Run.part current .body) (frame :: scopes)) p := by
  have hcode : Run.currentCode code m = .ok current m := congrArg (EStateM.Result.ok · m) hcurrent
  have hframe : Run.newFrame true false m =
      .ok m.frames.size { m with frames := m.frames.push ⟨.empty, true, false⟩ } := rfl
  have hopened : Opened m₀ m.frames.size { m with frames := m.frames.push ⟨.empty, true, false⟩ } :=
    ⟨hm.pushFrame _, hm.frames_le, by
      show m.frames.size < (m.frames.push _).size
      rw [Array.size_push]
      exact Nat.lt_succ_self _⟩
  refine ⟨m.frames.size, ?_⟩
  unfold Run.callCode
  rw [bind_of_ok hcode, bind_of_ok hframe]
  simp only
  split
  · have hown := ((hopened.declared "this" this).pushed ⟨.array args.toArray, .empty⟩).declared
      "arguments" (.object m.heap.size)
    by_cases hknows : (Run.knowsItself current && !name.isEmpty) = true
    · simp only [hknows, if_true]
      exact ⟨_, hown.declared name f, rfl⟩
    · simp only [hknows]
      exact ⟨_, hown, rfl⟩
  · exact ⟨_, hopened, rfl⟩

/-- Two parameters that are names have the values of two arguments. -/
theorem bindParameters_two (ev : Evaluator) {p : Machine} {f : FrameId} {ps : List Node} {a b : Text}
    (hps : ps.map Node.name? = [some a, some b]) (x y : Value) :
    Run.bindParameters ev f scopes [x, y] ps 0 p = .ok () ((p.declared f a x).declared f b y) := by
  obtain ⟨i, rest, rfl, hi, hrest⟩ := List.map_eq_cons_iff.mp hps
  obtain ⟨j, rest, rfl, hj, hrest⟩ := List.map_eq_cons_iff.mp hrest
  obtain rfl := List.map_eq_nil_iff.mp hrest
  have hiform := form_of_name? hi
  have hjform := form_of_name? hj
  unfold Run.bindParameters
  simp only [hiform]
  rw [bind_of_ok (declare_eq f a _ p)]
  unfold Run.bindParameters
  simp only [hjform]
  rw [bind_of_ok (declare_eq f b _ _)]
  rfl

theorem bindings_declared {p : Machine} {f : FrameId} (hf : f < p.frames.size) (name : Text)
    (v : Value) : ((p.declared f name v).frame f).bindings = (p.frame f).bindings.put name v := by
  unfold Machine.declared
  rw [Pairing.frame_modify, if_pos ⟨rfl, hf⟩]

theorem findScope_of_get? {f : FrameId} {name : Text} {v : Value}
    (h : (m.frame f).bindings.get? name = some v) :
    m.findScope name (f :: scopes) = some f ∧ m.variable f name = v := by
  unfold Machine.findScope Machine.variable Dict.contains
  rw [h]
  exact ⟨rfl, rfl⟩

/-- Coming back from a call changes neither objects nor scopes. -/
theorem EndAlike.deeper {α : Type} {r : EStateM.Result Abrupt Machine α} {c : Run α}
    (h : EndAlike r (c m)) :
    EndAlike r (Run.thenAlways c (modify fun m => { m with depth := m.depth - 1 }) m) := by
  have hsame : ∀ m : Machine, m.Within { m with depth := m.depth - 1 } :=
    fun _ => .of_store rfl rfl rfl rfl
  rw [thenAlways_eq]
  generalize c m = r' at h
  cases h with
  | result h a => exact .result (h.trans (hsame _)) a
  | stop h x => exact .stop (h.trans (hsame _)) x
  | thrown h c => exact .thrown (h.trans (hsame _)) c

/-- A call of a function of running code enters it. -/
theorem call_of_closure (depth : Nat) {q : Ref} {code : Node} {name : Text}
    (hbody : (m.cell q).body = .closure code scopes name) (this : Value) (args : List Value) :
    (evaluator (depth + 1)).call (.object q) this args m =
      Run.entered (Run.callCode (evaluator depth).meaning (.object q) code scopes name this args) m := by
  show Run.callFunction (evaluator depth) (.object q) this args m = _
  rw [callFunction_eq]
  unfold Run.callAs
  dsimp only
  rw [bind_of_ok (show Run.cell q m = .ok (m.cell q) m from rfl), hbody]

/-- The body of a wrapper consists of its operation, in a scope in which the parameters have values. -/
theorem operation_of_wraps {f code e : Node} {w : Wrapper} {a b : Text} (hf : f.Wraps w a b code e)
    (scopes : ScopeChain) {frame : FrameId} {x y : Value} {bindings : Dict Text Value}
    (hframe : (m.frame frame).bindings = (bindings.put a x).put b y) :
    Operation m (frame :: scopes) e w.op (if w.swapped then y else x) (if w.swapped then x else y) := by
  have hfirst : m.findScope a (frame :: scopes) = some frame ∧ m.variable frame a = x :=
    findScope_of_get? (by rw [hframe, Dict.get?_put_of_ne _ hf.different, Dict.get?_put_self])
  have hsecond : m.findScope b (frame :: scopes) = some frame ∧ m.variable frame b = y :=
    findScope_of_get? (by rw [hframe, Dict.get?_put_self])
  have hleft := hf.left
  have hright := hf.right
  cases hswapped : w.swapped with
  | true =>
    rw [hswapped] at hleft hright
    exact ⟨hf.operator, ⟨b, frame, hleft, hsecond⟩, ⟨a, frame, hright, hfirst⟩⟩
  | false =>
    rw [hswapped] at hleft hright
    exact ⟨hf.operator, ⟨a, frame, hleft, hfirst⟩, ⟨b, frame, hright, hsecond⟩⟩

/-- A call of a function that wraps an operator gives what the operator gives for the arguments. -/
theorem call_of_wraps {f stored code e : Node} {w : Wrapper} {a b : Text} (hf : f.Wraps w a b code e)
    {m₀ : Machine} (hcomplete : m₀.Complete) (hm : m₀.Within m) {q : Ref} {name : Text}
    (hbody : (m.cell q).body = .closure stored scopes name) (hcurrent : stored.present m.trees = f)
    {x y this : Value} (hx : m₀.Knows x) (hy : m₀.Knows y)
    (hend : Unstopped ((evaluator depth).call (.object q) this [x, y] m))
    (hoperation : Unstopped (Run.binaryOperation w.op (if w.swapped then y else x)
      (if w.swapped then x else y) m₀)) :
    EndAlike (Run.binaryOperation w.op (if w.swapped then y else x) (if w.swapped then x else y) m₀)
      ((evaluator depth).call (.object q) this [x, y] m) := by
  cases depth with
  | zero => exact absurd rfl (hend _ _)
  | succ depth =>
  have hcall := call_of_closure depth hbody this [x, y]
  rw [hcall] at hend ⊢
  unfold Run.entered at hend ⊢
  have hpassed := hend.entered
  rw [hpassed] at hend ⊢
  obtain ⟨frame, p, hopened, hcode⟩ := callCode_opens (evaluator depth).meaning (.object q) scopes name
    this [x, y] hm hcurrent
  rw [hcode, bind_of_ok (bindParameters_two _ hf.parameters x y),
    bind_of_ok (part_of_child? hf.body _)] at hend ⊢
  have hlast := (hopened.declared a x).declared b y
  have hbindings := bindings_declared (hopened.declared a x).open_ b y
  rw [bindings_declared hopened.open_ a x] at hbindings
  generalize (p.declared frame a x).declared frame b y = p' at hlast hbindings hend ⊢
  -- The body runs one call deeper, where the parameters have the values of the arguments.
  let inside : Machine := { p' with depth := p'.depth + 1 }
  have hinside : (inside.frame frame).bindings = ((p.frame frame).bindings.put a x).put b y := hbindings
  have hoperands := operation_of_wraps hf scopes hinside
  obtain ⟨k, hrun⟩ := hoperands.body hf.result (Unstopped.deeper hend)
  refine EndAlike.deeper (m := inside) ?_
  have hwithin : m₀.Within (inside.spend k) := hlast.within.trans (.of_store rfl rfl rfl rfl)
  have hknows : ∀ c : Bool, m₀.Knows (if c then y else x) ∧ m₀.Knows (if c then x else y) := by
    intro c
    cases c with
    | true => exact ⟨hy, hx⟩
    | false => exact ⟨hx, hy⟩
  rw [hrun]
  exact hwithin.binaryOperation hcomplete w.op (hknows _).1 (hknows _).2 hoperation

end Sandbox

end Untangle
