import Untangle.Proofs.Dispatch.Round
import Untangle.Proofs.Sandbox.Globals

set_option autoImplicit false

/-!
# What the discarded code of a dispatch loop changes

A trial runs the initializer, the test, the discriminant and the update of a loop and the statements of
its cases that set dispatch variables; none of them is in the statements that the loop is replaced by.
Whether an assignment belongs to them is decided by the name that it sets and not by what it assigns, so
that what these parts do apart from setting dispatch variables is what the operands of such assignments
do, and the functions that they call.

The main theorem is `discarded_changes`.  Its conditions on operands and functions are sufficient and are
read off the code; for arrays they are those under which no method acts on its receiver
(`Node.CallsActing`, `Machine.Orderly`).  That a part of a loop does have another effect is shown by the
example after the theorem.
-/

namespace Untangle.Dispatch

open Sandbox

/-! ## Expressions that set names -/

mutual

/-- What an expression evaluates apart from setting some names. -/
def operands (names : List Text) : Node → List Node
  | .mk i r f cs =>
    match f with
    | .sequence => operandsAll names cs
    | _ =>
      if (target? (.mk i r f cs)).any names.contains then
        ((Node.mk i r f cs).child? .right).toList
      else [.mk i r f cs]

/-- What some expressions evaluate apart from setting some names. -/
def operandsAll (names : List Text) : List Node → List Node
  | [] => []
  | c :: cs => operands names c ++ operandsAll names cs

end

theorem mem_operandsAll {names : List Text} {cs : List Node} {c d : Node} (hc : c ∈ cs)
    (hd : d ∈ operands names c) : d ∈ operandsAll names cs := by
  induction cs with
  | nil => cases hc
  | cons b cs ih =>
    unfold operandsAll
    obtain rfl | hc := List.mem_cons.mp hc
    · exact List.mem_append_left _ hd
    · exact List.mem_append_right _ (ih hc)

/-- A sequence has the operands of its parts, an expression that sets one of the names has its right side,
and everything else is an operand itself. -/
theorem operands_cases (names : List Text) (n : Node) :
    (n.form = .sequence ∧ ∀ c ∈ n.children, ∀ d ∈ operands names c, d ∈ operands names n) ∨
      (∃ name ∈ names, target? n = some name ∧ operands names n = (n.child? .right).toList) ∨
      n ∈ operands names n := by
  obtain ⟨i, r, f, cs⟩ := n
  by_cases hsequence : f = .sequence
  · subst hsequence
    exact .inl ⟨rfl, fun c hc d hd => mem_operandsAll hc hd⟩
  · have hoperands : operands names (.mk i r f cs) =
        if (target? (.mk i r f cs)).any names.contains then
          ((Node.mk i r f cs).child? .right).toList
        else [.mk i r f cs] := by
      unfold operands
      split
      · exact absurd rfl hsequence
      · rfl
    rw [hoperands]
    split
    · next hset =>
      obtain ⟨name, htarget, hname⟩ := (Option.any_eq_true _ _).mp hset
      exact .inr (.inl ⟨name, List.contains_iff_mem.mp hname, htarget, rfl⟩)
    · exact .inr (.inr List.mem_cons_self)

section Setting

variable {P : Policy} {e : Meaning} {n : Node} {name : Text} {scopes : ScopeChain}
  {inner : Option ScopeChain}

/-- A name may be set if a policy allows it in every scope. -/
theorem built_writeTarget {target : Node} (hown : ∀ f, P.Own f name)
    (htarget : target.name? = some name) (v : Value) :
    Built P e e inner (Run.writeTarget e.toEvaluator target v scopes)
      (Run.writeTarget e.toEvaluator target v scopes) := by
  unfold Run.writeTarget
  rw [form_of_name? htarget]
  exact .look (fun m t => by simp) fun m _ => .declare (hown _) v

theorem built_readTarget {target : Node} (htarget : target.name? = some name) :
    Built P e e inner (Run.readTarget e.toEvaluator target scopes)
      (Run.readTarget e.toEvaluator target scopes) := by
  unfold Run.readTarget
  rw [form_of_name? htarget]
  exact .lookup scopes name

/-- An assignment to a name runs its right side. -/
theorem built_assignment (hstops : ∀ x, P.Stops x) (hown : ∀ f, P.Own f name)
    (hleft : (n.child? .left).bind Node.name? = some name)
    (hright : ∀ d, n.child? .right = some d → P.Fit d scopes) (op : AssignOp) :
    Built P e e inner (Run.assignmentValue e.toEvaluator op n scopes)
      (Run.assignmentValue e.toEvaluator op n scopes) := by
  refine .slotOf .left (fun _ => hstops) fun target htarget =>
    .slotOf .right (fun _ => hstops) fun right hr => ?_
  have hname : target.name? = some name := by
    rw [htarget] at hleft
    exact hleft
  have hvalue : Built P e e inner (e.expression right scopes) (e.expression right scopes) :=
    .expression (hright right hr)
  have hwrite : ∀ v, Built P e e inner
      (do Run.writeTarget e.toEvaluator target v scopes; return v)
      (do Run.writeTarget e.toEvaluator target v scopes; return v) :=
    fun v => (built_writeTarget hown hname v).bind fun _ => .result v
  cases op with
  | plain => exact hvalue.bind hwrite
  | logical op =>
    refine (built_readTarget hname).bind fun current => ?_
    split
    · exact .result _
    · exact hvalue.bind hwrite
  | compound op =>
    exact (built_readTarget hname).bind fun current => hvalue.bind fun r =>
      (Built.binaryOperation op current r).bind hwrite

/-- An update of a name runs no other code. -/
theorem built_update (hstops : ∀ x, P.Stops x) (hown : ∀ f, P.Own f name)
    (hargument : (n.child? .argument).bind Node.name? = some name) (op : UpdateOp) (before : Bool) :
    Built P e e inner
      (do Run.updateValue e.toEvaluator op before (← Run.part n .argument) scopes)
      (do Run.updateValue e.toEvaluator op before (← Run.part n .argument) scopes) := by
  refine .slotOf .argument (fun _ => hstops) fun target htarget => ?_
  rw [htarget] at hargument
  exact (built_readTarget hargument).bind fun v => (Built.numberOf v).bind fun _ =>
    (built_writeTarget hown hargument _).bind fun _ => .result _

end Setting

section Kept

variable {P : Policy} {names : List Text} {scopes : ScopeChain} (hP : P.Lasting)
  (hstops : ∀ x, P.Stops x) (hown : ∀ name ∈ names, ∀ f, P.Own f name)

/-- Expressions one after the other keep to a policy if each of them does. -/
theorem kept_sequenceValue {ev : Evaluator} {es : List Node}
    (hes : ∀ e ∈ es, P.Kept none (ev.expression e scopes)) (v : Value) :
    P.Kept none (Run.sequenceValue ev scopes es v) := by
  induction es generalizing v with
  | nil => exact fun m hm _ => .ok hm (.refl m) v
  | cons e es ih =>
    exact (hes e List.mem_cons_self).bind fun w =>
      ih (fun e he => hes e (List.mem_cons_of_mem _ he)) w

include hP hstops hown

/-- An expression keeps to a policy that allows its operands and the names that it sets. -/
theorem kept_expression {n : Node} (hfit : ∀ d ∈ operands names n, P.Fit d scopes) (depth : Nat) :
    P.Kept none ((evaluator depth).expression n scopes) := by
  induction depth generalizing n with
  | zero => exact fun m hm _ => .error hm (.refl m) (hstops _)
  | succ depth ih =>
    obtain ⟨hform, hparts⟩ | ⟨name, hname, htarget, hoperands⟩ | hself := operands_cases names n
    · show P.Kept none (Run.evaluateExpression (evaluator depth) n scopes)
      unfold Run.evaluateExpression
      rw [hform]
      refine (Policy.kept_tick hP).bind fun _ => kept_sequenceValue (fun e he => ?_) _
      exact ih fun d hd => hfit d (hparts e (List.mem_of_mem_filter he) d hd)
    · show P.Kept none (Run.evaluateExpression (evaluator depth) n scopes)
      have hright : ∀ d, n.child? .right = some d → P.Fit d scopes := by
        intro d hd
        refine hfit d ?_
        rw [hoperands, hd]
        exact List.mem_cons_self
      unfold Run.evaluateExpression
      refine (Policy.kept_tick hP).bind fun _ => ?_
      unfold target? at htarget
      split at htarget
      · next op hform =>
        rw [hform]
        exact Policy.kept_of_depth hP depth
          (built_assignment hstops (hown name hname) htarget hright op)
      · next op before hform =>
        rw [hform]
        exact Policy.kept_of_depth hP depth
          (built_update hstops (hown name hname) htarget op before)
      · cases htarget
    · exact (Policy.obeys_evaluator hP (depth + 1)).expression (hfit n hself)

/-- A declaration keeps to a policy that allows its initializers and the names that it declares, in
whichever scope these are set. -/
theorem kept_declaration {n : Node} {kind : VariableKind} (hform : n.form = .variableDeclaration kind)
    (hnames : ∀ d ∈ n.childrenAt .declarations, ∀ name, (d.child? .id).bind Node.name? = some name →
      name ∈ names)
    (hfit : ∀ d ∈ (n.childrenAt .declarations).filterMap fun d => d.child? .init, P.Fit d scopes)
    (depth : Nat) : P.Kept none ((evaluator depth).statement n scopes) := by
  cases depth with
  | zero => exact fun m hm _ => .error hm (.refl m) (hstops _)
  | succ depth =>
    have hall : ∀ f, P.Kept none
        (Run.declareAll (evaluator depth) scopes f (n.childrenAt .declarations)) := by
      intro f
      refine Policy.kept_of_depth hP depth (.declareAll fun d hd => ⟨fun init hinit => ?_,
        fun _ => hstops, fun name hname => hown name (hnames d hd name hname) f⟩)
      exact hfit init (List.mem_filterMap.mpr ⟨d, hd, hinit⟩)
    have hscope : P.Kept none (Run.declarationScope kind scopes >>= fun f =>
        Run.declareAll (evaluator depth) scopes f (n.childrenAt .declarations)) := by
      intro m hm hinner
      obtain ⟨f, hf⟩ := Machine.exists_declarationScope kind scopes m
      rw [bind_of_ok hf]
      exact hall f m hm hinner
    show P.Kept none (Run.executeStatement (evaluator depth) n scopes)
    unfold Run.executeStatement
    rw [hform]
    rw [Built.declarationScope_bind] at hscope
    exact (Policy.kept_tick hP).bind fun _ => hscope

/-- A statement that is an expression keeps to a policy that allows the operands of the expression and
the names that it sets. -/
theorem kept_expressionStatement {n : Node} {directive : Option Text}
    (hform : n.form = .expressionStatement directive)
    (hfit : ∀ e, n.child? .expression = some e → ∀ d ∈ operands names e, P.Fit d scopes) (depth : Nat) :
    P.Kept none ((evaluator depth).statement n scopes) := by
  cases depth with
  | zero => exact fun m hm _ => .error hm (.refl m) (hstops _)
  | succ depth =>
    show P.Kept none (Run.executeStatement (evaluator depth) n scopes)
    unfold Run.executeStatement Run.part
    rw [hform]
    refine (Policy.kept_tick hP).bind fun _ => ?_
    cases hchild : n.child? .expression with
    | none => exact fun m hm _ => .error hm (.refl m) (hstops _)
    | some e =>
      exact (kept_expression hP hstops hown (hfit e hchild) depth).bind fun _ =>
        fun m hm _ => .ok hm (.refl m) ()

end Kept

/-! ## Parts of a loop -/

/-- The parts that a loop has. -/
inductive Stage.Of (loop : Loop) : Stage → Prop
  | init : Of loop .init
  | test {t : Node} (ht : loop.test = some t) : Of loop (.test t)
  | discriminant (started : Bool) : Of loop (.discriminant started)
  | update {c s : Node} (hc : c ∈ loop.cases) (hs : s ∈ c.childrenAt .consequent)
      (hupdate : isUpdate (stateNames loop.init) s = true) : Of loop (.update s)
  | advance {u : Node} (hu : loop.update = some u) : Of loop (.advance u)

/-- What a part of a loop evaluates apart from setting dispatch variables. -/
def Stage.operands (loop : Loop) : Stage → List Node
  | .init =>
    match loop.init.form with
    | .variableDeclaration _ =>
      (loop.init.childrenAt .declarations).filterMap fun d => d.child? .init
    | _ => Dispatch.operands (stateNames loop.init) loop.init
  | .test t | .advance t => Dispatch.operands (stateNames loop.init) t
  | .discriminant _ => Dispatch.operands (stateNames loop.init) loop.discriminant
  | .update s => (s.child? .expression).toList.flatMap (Dispatch.operands (stateNames loop.init))

/-- The names of a declaration are dispatch variables. -/
theorem mem_stateNames {init d : Node} {kind : VariableKind} {name : Text}
    (hform : init.form = .variableDeclaration kind) (hd : d ∈ init.childrenAt .declarations)
    (hname : (d.child? .id).bind Node.name? = some name) : name ∈ stateNames init := by
  obtain ⟨id, hid, hname⟩ := Option.bind_eq_some_iff.mp hname
  unfold stateNames
  rw [hform]
  refine List.mem_flatMap.mpr ⟨d, hd, ?_⟩
  rw [hid]
  obtain ⟨i, r, f, cs⟩ := id
  cases form_of_name? hname
  exact List.mem_cons_self

/-- A part of a loop keeps to a policy that allows its operands and the dispatch variables. -/
theorem kept_stage {P : Policy} {loop : Loop} {scopes : ScopeChain} (hP : P.Lasting)
    (hstops : ∀ x, P.Stops x) (hown : ∀ name ∈ stateNames loop.init, ∀ f, P.Own f name) {st : Stage}
    (hst : st.Of loop) (hfit : ∀ d ∈ st.operands loop, P.Fit d scopes) (depth : Nat) :
    P.Kept none (st.code loop scopes depth) := by
  have hreturn : ∀ {c : Run Unit}, P.Kept none c →
      P.Kept none (do c; return Value.undefined) :=
    fun hc => hc.bind fun _ => fun m hm _ => .ok hm (.refl m) _
  cases hst with
  | init =>
    simp only [Stage.code]
    simp only [Stage.operands] at hfit
    split
    · next kind hform =>
      rw [hform] at hfit
      exact hreturn (kept_declaration hP hstops hown hform
        (fun d hd name hname => mem_stateNames hform hd hname) hfit depth)
    · next hform =>
      refine kept_expression hP hstops hown ?_ depth
      split at hfit
      · next kind hkind => exact absurd hkind (hform kind)
      · exact hfit
  | test ht => exact kept_expression hP hstops hown hfit depth
  | discriminant started => exact kept_expression hP hstops hown hfit depth
  | update hc hs hupdate =>
    obtain ⟨directive, hform⟩ := form_of_isUpdate hupdate
    refine hreturn (kept_expressionStatement hP hstops hown hform (fun e he d hd => ?_) depth)
    refine hfit d (List.mem_flatMap.mpr ⟨e, ?_, hd⟩)
    rw [he]
    exact List.mem_cons_self
  | advance hu => exact kept_expression hP hstops hown hfit depth

/-! ## What a part changes -/

/-- In whichever scopes of a machine it runs, and however it ends, a part of a loop changes only dispatch
variables, and new scopes and objects, apart from what its operands and the functions of the machine
change: no variable of another name if none of them sets that name, no object other than an array if none
of them changes members, and no array either if none of them calls a method that acts on its receiver. -/
theorem discarded_changes {loop : Loop} {st : Stage} (hst : st.Of loop) (m : Machine)
    (hglobal : m.global < m.frames.size) (scopes : ScopeChain) (depth : Nat) :
    (∀ x, x ∉ stateNames loop.init → (∀ d ∈ st.operands loop, d.Free m.trees (Node.Assigns x)) →
      m.FunctionsFree (Node.Assigns x) → ∀ f < m.frames.size,
        ((m.after (st.code loop scopes depth)).frame f).bindings.get? x =
          (m.frame f).bindings.get? x) ∧
    ((∀ d ∈ st.operands loop, d.Free m.trees Node.ChangesMember) →
      m.FunctionsFree Node.ChangesMember → ∀ r, m.Fixed r →
        (m.after (st.code loop scopes depth)).cell r = m.cell r) ∧
    ((∀ d ∈ st.operands loop, d.Free m.trees Node.ChangesMember) →
      m.FunctionsFree Node.ChangesMember →
      (∀ d ∈ st.operands loop, d.Free m.trees Node.CallsActing) → m.FunctionsFree Node.CallsActing →
      m.Orderly → ∀ r < m.heap.size, (m.after (st.code loop scopes depth)).cell r = m.cell r) := by
  have hobjects : ∀ {all : Prop}, (Policy.preserving m all).Good m →
      (∀ d ∈ st.operands loop, (Policy.preserving m all).Fit d scopes) → ∀ r, m.Protected all r →
        (m.after (st.code loop scopes depth)).cell r = m.cell r := by
    intro all hgood hfit
    have hkept : (Policy.preserving m all).Kept none (st.code loop scopes depth) :=
      kept_stage (Policy.lasting_preserving m all) (fun _ => trivial) (fun _ _ _ => trivial) hst hfit depth
    exact (hkept.after hgood).holds.cell
  refine ⟨?_, ?_, ?_⟩
  · intro x hx hfree hfunctions
    have hgood := m.good_retaining hfunctions
    have hown : ∀ name ∈ stateNames loop.init, ∀ f, (Policy.retaining m x).Own f name :=
      fun name hname _ => .inr fun heq => hx (heq ▸ hname)
    have hkept : (Policy.retaining m x).Kept none (st.code loop scopes depth) :=
      kept_stage (Policy.lasting_retaining m x) (fun _ => trivial) hown hst hfree depth
    exact (hkept.after hgood).holds.value
  · intro hfree hfunctions r hr
    have hgood := Machine.good_preserving False hglobal hfunctions fun h => h.elim
    exact hobjects hgood (fun d hd => ⟨hfree d hd, fun h => h.elim⟩) r ⟨hr.1, .inr hr.2⟩
  · intro hfree hfunctions hcalls hacting horderly r hr
    have hgood := Machine.good_preserving True hglobal hfunctions fun _ => ⟨hacting, horderly⟩
    exact hobjects hgood (fun d hd => ⟨hfree d hd, fun _ => hcalls d hd⟩) r ⟨hr, .inl trivial⟩

/-- The loop `for (var s = (x = true);;) { switch (s) { case true: f(); s = false; break; } break; }`,
whose initializer sets `x`. -/
def burdenedLoop : Node :=
  let value (b : Bool) := Node.literal (.bool b)
  let set (name : String) (v : Node) := Node.assignment .plain (Node.ident name) v
  let call := Node.expressionStatement none (Node.call (Node.ident "f") [])
  let next := Node.expressionStatement none (set "s" (value false))
  let body := Node.block
    [Node.switchStatement (Node.ident "s")
      [Node.switchCase (some (value true)) [call, next, Node.breakStatement none]],
      Node.breakStatement none]
  let init := Node.variableDeclaration .var
    [Node.variableDeclarator (Node.ident "s") (some (set "x" (value true)))]
  Node.forStatement (some init) none none body

/-- Its parts. -/
def burdened : Loop := (Loop.ofNode? burdenedLoop).get (by decide)

/-- The initializer leaves the variable `y`, and the function and the array of the machine, as they are. -/
theorem burdened_init :
    Stage.init.Of burdened ∧ flagMachine.global < flagMachine.frames.size ∧
      ((flagMachine.after (Stage.init.code burdened [0] 10)).frame 0).bindings.get? (Text.of "y") =
        (flagMachine.frame 0).bindings.get? (Text.of "y") ∧
      (flagMachine.after (Stage.init.code burdened [0] 10)).cell 0 = flagMachine.cell 0 ∧
      flagMachine.Orderly ∧
      (flagMachine.after (Stage.init.code burdened [0] 10)).cell 1 = flagMachine.cell 1 := by
  have hglobal : flagMachine.global < flagMachine.frames.size := by decide
  have hinit : Stage.init.Of burdened := .init
  have horderly : flagMachine.Orderly := Machine.orderly_of_all (by decide)
  obtain ⟨hvariables, hobjects, hall⟩ := discarded_changes hinit flagMachine hglobal [0] 10
  have hfree : ∀ {Bad : Node → Prop} [DecidablePred Bad],
      ((Stage.init.operands burdened).all fun d => d.everywhere fun n => decide (¬ Bad n)) = true →
        ∀ d ∈ Stage.init.operands burdened, d.Free [] Bad :=
    fun h d hd => Node.free_of_everywhere (List.all_eq_true.mp h d hd)
  refine ⟨hinit, hglobal, ?_, ?_, horderly, ?_⟩
  · exact hvariables _ (by decide) (hfree (by decide)) (functionsFree_flagMachine (by decide)) 0 (by decide)
  · exact hobjects (hfree (by decide)) (functionsFree_flagMachine (by decide)) 0
      ⟨by decide, fun es h => by cases h⟩
  · exact hall (hfree (by decide)) (functionsFree_flagMachine (by decide)) (hfree (by decide))
      (functionsFree_flagMachine (by decide)) horderly 1 (by decide)

/-- It sets `x`, which is no dispatch variable, though its value belongs to the discarded code. -/
example :
    (stateNames burdened.init).contains (Text.of "x") = false ∧
      (flagMachine.globalVariable? (Text.of "x")).isSome = false ∧
      ((flagMachine.after (Stage.init.code burdened [0] 10)).globalVariable? (Text.of "x")).isSome =
        true := by
  decide +kernel

end Untangle.Dispatch
