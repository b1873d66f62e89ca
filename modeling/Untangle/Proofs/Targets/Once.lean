import Untangle.Proofs.Sandbox.Globals
import Untangle.Proofs.Targets.Looking

set_option autoImplicit false

/-!
# Targets that are found once

What an assignment or an update sets is a variable or a member of an object.  Which one it is should be found
out once, before anything else is done: for a member its object and its key.  The evaluator finds it out anew
whenever it reads or writes, and after the value of a plain assignment.  As long as a target only looks, and
what is computed in between leaves alone what it looks at, this makes no difference but for the steps.

The main theorem is `target_found_once`.  Its conditions, that the target only looks and that what is
evaluated in between leaves it undisturbed, are those under which finding it several times cannot be
noticed; a target that counts, for instance, is found twice.
-/

namespace Untangle.Sandbox

/-- What can be read and set: a variable, or a member of a value. -/
inductive Place where
  | named (name : Text)
  | member (object : Value) (key : Text)

namespace Run

variable (ev : Evaluator) (target : Node) (scopes : ScopeChain)

/-- Finds out what a target is: for a member first its object and then its key. -/
def place : Run Place := do
  match target.form with
  | .identifier name => return .named name
  | .member computed =>
    let object ← ev.expression (← part target .object) scopes
    return .member object (← memberKey ev computed target scopes)
  | f => fail (.target f.kind)

/-- The value of a place. -/
def readPlace : Place → Run Value
  | .named name => lookup scopes name
  | .member object key => getProperty object key

/-- Sets a place. -/
def writePlace (v : Value) : Place → Run Unit
  | .named name => assign scopes name v
  | .member object key => putProperty object key v

/-- Computes from the value of a target what is to be set, if anything, and the result.  The target is found
once. -/
def reviseOnce (next : Value → Run (Option Value × Value)) : Run Value := do
  let p ← place ev target scopes
  let (v, result) ← next (← readPlace scopes p)
  if let some v := v then writePlace scopes v p
  return result

/-- What an operator of assignment sets, and the result, given how the right side is evaluated. -/
def revised (right : Run Value) : AssignOp → Value → Run (Option Value × Value)
  | .plain, _ => do
    let v ← right
    return (some v, v)
  | .logical op, current => do
    if (keepsLeft op current).getD true then return (none, current)
    else
      let v ← right
      return (some v, v)
  | .compound op, current => do
    let v ← binaryOperation op current (← right)
    return (some v, v)

/-- What an increment or a decrement sets, and the result. -/
def stepped (op : UpdateOp) (before : Bool) (current : Value) : Run (Option Value × Value) := do
  let old ← numberOf current
  let new := match op with
    | .increment => old + 1.0
    | .decrement => old - 1.0
  return (some (.number new), .number (if before then new else old))

/-- An assignment or an update that finds its target once, before it evaluates anything else. -/
def setOnce (n : Node) : Run Value := do
  match n.form with
  | .assignment .plain =>
    let right ← part n .right
    let p ← place ev target scopes
    let v ← ev.expression right scopes
    writePlace scopes v p
    return v
  | .assignment op =>
    let right ← part n .right
    reviseOnce ev target scopes (revised (ev.expression right scopes) op)
  | .update op before => reviseOnce ev target scopes (stepped op before)
  | f => fail (.kind f.kind)

/-! ## Targets that are found again -/

theorem readTarget_eq : readTarget ev target scopes = place ev target scopes >>= readPlace scopes := by
  unfold readTarget place
  generalize target.form = f
  cases f with
  | identifier name => rw [pure_bind, readPlace]
  | member computed => simp only [memberValue, bind_assoc, pure_bind, readPlace]
  | _ => rfl

theorem writeTarget_eq (v : Value) :
    writeTarget ev target v scopes = place ev target scopes >>= writePlace scopes v := by
  unfold writeTarget place
  generalize target.form = f
  cases f with
  | identifier name => rw [pure_bind, writePlace]
  | member computed => simp only [bind_assoc, pure_bind, writePlace]
  | _ => rfl

/-- Computes from the value of a target what is to be set, if anything, and the result.  The target is found
again when it is set. -/
def revise (next : Value → Run (Option Value × Value)) : Run Value := do
  let (v, result) ← next (← readTarget ev target scopes)
  if let some v := v then writeTarget ev target v scopes
  return result

theorem updateValue_eq (op : UpdateOp) (before : Bool) :
    updateValue ev op before target scopes = revise ev target scopes (stepped op before) := by
  unfold updateValue revise stepped
  cases op with
  | increment => simp only [bind_assoc, pure_bind]
  | decrement => simp only [bind_assoc, pure_bind]

theorem part_eq {n c : Node} {r : Role} (h : n.child? r = some c) : part n r = pure c := by
  unfold part
  rw [h]

variable {n right : Node} {op : AssignOp}

theorem assignmentValue_eq (hop : op ≠ .plain) (hleft : n.child? .left = some target)
    (hright : n.child? .right = some right) : assignmentValue ev op n scopes =
      revise ev target scopes (revised (ev.expression right scopes) op) := by
  unfold assignmentValue revise
  rw [part_eq hleft, part_eq hright]
  cases op with
  | plain => exact absurd rfl hop
  | logical op =>
    simp only [pure_bind, revised]
    refine congrArg _ (funext fun current => ?_)
    split
    · rw [pure_bind]
    · simp only [bind_assoc, pure_bind]
  | compound op => simp only [pure_bind, revised, bind_assoc]

theorem setOnce_eq (hop : op ≠ .plain) (hform : n.form = .assignment op)
    (hright : n.child? .right = some right) : setOnce ev target scopes n =
      reviseOnce ev target scopes (revised (ev.expression right scopes) op) := by
  unfold setOnce
  rw [hform, part_eq hright]
  cases op with
  | plain => exact absurd rfl hop
  | logical op => simp only [pure_bind]
  | compound op => simp only [pure_bind]

theorem setOnce_update {op : UpdateOp} {before : Bool} (hform : n.form = .update op before) :
    setOnce ev target scopes n = reviseOnce ev target scopes (stepped op before) := by
  unfold setOnce
  rw [hform]

variable {target}

/-- A plain assignment finds its target after the value, or before it. -/
theorem set_plain (hform : n.form = .assignment .plain) (hleft : n.child? .left = some target)
    (hright : n.child? .right = some right) :
    (assignmentValue ev .plain n scopes = do
      let v ← ev.expression right scopes
      writeTarget ev target v scopes
      return v) ∧
    setOnce ev target scopes n = do
      let p ← place ev target scopes
      let v ← ev.expression right scopes
      writePlace scopes v p
      return v := by
  unfold assignmentValue setOnce
  rw [hform, part_eq hleft, part_eq hright]
  simp only [pure_bind, and_self]

/-- Without a right side an assignment fails, whenever it finds its target. -/
theorem set_of_lack (hform : n.form = .assignment op) (hleft : n.child? .left = some target)
    (hright : n.child? .right = none) (m : Machine) :
    assignmentValue ev op n scopes m = .error (.fault .missingPart) m ∧
      setOnce ev target scopes n m = .error (.fault .missingPart) m := by
  have hmissing : part n .right m = .error (.fault .missingPart) m := by
    unfold part
    rw [hright]
    rfl
  unfold assignmentValue setOnce
  rw [hform, part_eq hleft, pure_bind]
  refine ⟨bind_of_error hmissing, ?_⟩
  cases op with
  | plain => exact bind_of_error hmissing
  | logical op => exact bind_of_error hmissing
  | compound op => exact bind_of_error hmissing

end Run

/-! ## Computations that come to the same again -/

variable {α β : Type} {m m' : Machine} {scopes : ScopeChain} {depth : Nat}

/-- A computation that comes to the same on another machine, whatever steps were taken here and there, unless
it is stopped. -/
def Repeats (c : Run α) (m m' : Machine) : Prop :=
  ∀ j k a m₁, c (m.spend j) = .ok a m₁ → Unstopped (c (m'.spend k)) → ∃ m₂, c (m'.spend k) = .ok a m₂

namespace Repeats

theorem pure (a : α) : Repeats (Pure.pure a) m m' := by
  intro j k b m₁ hrun _
  cases hrun
  exact ⟨_, rfl⟩

theorem bind {c : Run α} {f : α → Run β} (hc : Repeats c m m') (hfrugal : Frugal c)
    (hf : ∀ a, (∃ j m₁, c (m.spend j) = .ok a m₁) → Repeats (f a) m m') : Repeats (c >>= f) m m' := by
  intro j k b m₁ hrun hend
  obtain ⟨a, m₂, ha, hb⟩ := bind_eq_ok.mp hrun
  obtain ⟨i, rfl⟩ := hfrugal _ a m₂ ha
  obtain ⟨m₃, ha'⟩ := hc j k a _ ha hend.first
  obtain ⟨i', rfl⟩ := hfrugal _ a m₃ ha'
  rw [bind_of_ok ha'] at hend ⊢
  rw [m.spend_spend] at hb
  rw [m'.spend_spend] at hend ⊢
  exact hf a ⟨j, _, ha⟩ (j + i) (k + i') b m₁ hb hend

theorem part (n : Node) (r : Role) : Repeats (Run.part n r) m m' := by
  unfold Run.part
  split
  · exact pure _
  · intro j k a m₁ hrun _
    cases hrun

theorem ofPart {n : Node} {r : Role} {f : Node → Run β}
    (hf : ∀ c, n.child? r = some c → Repeats (f c) m m') : Repeats (Run.part n r >>= f) m m' := by
  refine (part n r).bind (Frugal.part n r) fun c hc => hf c ?_
  obtain ⟨j, m₁, hc⟩ := hc
  unfold Run.part at hc
  cases hchild : n.child? r with
  | none =>
    rw [hchild] at hc
    cases hc
  | some d =>
    rw [hchild] at hc
    cases hc
    rfl

theorem reading {f : Heap → Conv α} (hf : ∀ a, f m.heap = .ok a → f m'.heap = .ok a) :
    Repeats (Run.reading f) m m' := by
  intro j k a m₁ hrun _
  have hsame : ∀ m i, f (Machine.spend m i).heap = f m.heap := fun _ _ => rfl
  rw [reading_eq, hsame] at hrun ⊢
  cases hx : f m.heap with
  | error e =>
    rw [hx] at hrun
    cases hrun
  | ok b =>
    rw [hx] at hrun
    cases hrun
    rw [hf _ hx]
    exact ⟨_, rfl⟩

/-- An expression comes to the same when it is evaluated some steps later. -/
theorem later {e : Node} (depth : Nat) (scopes : ScopeChain) (d : Nat) :
    Repeats ((evaluator depth).expression e scopes) m (m.spend d) := by
  intro j k a m₁ hrun hend
  rw [m.spend_spend] at hend ⊢
  rcases Nat.le_total j (d + k) with hle | hle
  · obtain ⟨i, hi⟩ := Nat.exists_eq_add_of_le hle
    rw [hi, ← m.spend_spend] at hend ⊢
    rw [expression_spend hend, hrun]
    exact ⟨_, rfl⟩
  · -- The first evaluation is the later one, and was not stopped.
    obtain ⟨i, hi⟩ := Nat.exists_eq_add_of_le hle
    rw [hi, ← m.spend_spend] at hrun
    have hrun' := (expression_spend (unstopped_ok hrun)).symm.trans hrun
    cases hx : (evaluator depth).expression e scopes (m.spend (d + k)) with
    | error x m₂ =>
      rw [hx] at hrun'
      cases hrun'
    | ok b m₂ =>
      rw [hx] at hrun'
      cases hrun'
      exact ⟨m₂, rfl⟩

theorem spent {c : Run α} (h : Repeats c m m') (k : Nat) : Repeats c m (m'.spend k) := by
  intro j i a m₁ hrun hend
  rw [m'.spend_spend] at hend ⊢
  exact h j (k + i) a m₁ hrun hend

/-- A target is the same again if what it consists of is, and its key has the same text. -/
theorem place {target : Node} (hlooks : target.looks = true)
    (hobject : ∀ computed o, target.form = .member computed → target.child? .object = some o →
      Repeats ((evaluator depth).expression o scopes) m m')
    (hkey : ∀ p, target.form = .member true → target.child? .property = some p →
      Repeats ((evaluator depth).expression p scopes) m m' ∧
        ∀ v, (∃ j m₁, (evaluator depth).expression p scopes (m.spend j) = .ok v m₁) →
          ∀ t, toText m.heap v = .ok t → toText m'.heap v = .ok t) :
    Repeats (Run.place (evaluator depth) target scopes) m m' := by
  have hfrugal := frugal_expression depth scopes
  unfold Run.place
  split
  · exact pure _
  · next computed hform =>
    have hproperty : Repeats (Run.memberKey (evaluator depth) computed target scopes) m m' := by
      unfold Run.memberKey
      cases computed with
      | false =>
        refine (part _ _).bind (Frugal.part _ _) fun p _ => ?_
        split
        · exact pure _
        · intro j k a m₁ hrun _
          cases hrun
      | true =>
        refine ofPart fun p hp => ?_
        obtain ⟨hagain, htext⟩ := hkey p hform hp
        exact hagain.bind (hfrugal p (Node.looks_child? hlooks hp)) fun v hv => reading (htext v hv)
    refine ofPart fun o ho => ?_
    exact (hobject computed o hform ho).bind (hfrugal o (Node.looks_child? hlooks ho)) fun v _ =>
      hproperty.bind (Frugal.memberKey hfrugal hlooks computed) fun key _ => pure _
  · intro j k a m₁ hrun _
    cases hrun

end Repeats

/-- A target is the same some steps later. -/
theorem Repeats.placeLater {target : Node} (hlooks : target.looks = true) (k : Nat) :
    Repeats (Run.place (evaluator depth) target scopes) m (m.spend k) :=
  .place hlooks (fun _ _ _ _ => .later depth scopes k) fun _ _ _ =>
    ⟨.later depth scopes k, fun _ _ _ ht => ht⟩

/-! ## Names that keep their variables -/

namespace Machine.Retained

variable {x : Text}

theorem findScope (h : m.Retained x m') (hscopes : ∀ f ∈ scopes, f < m.frames.size) :
    m'.findScope x scopes = m.findScope x scopes := by
  induction scopes with
  | nil => rfl
  | cons g scopes ih =>
    unfold Machine.findScope Dict.contains
    rw [h.value g (hscopes g List.mem_cons_self), ih fun f hf => hscopes f (List.mem_cons_of_mem g hf)]

theorem variable_eq (h : m.Retained x m') {f : FrameId} (hf : f < m.frames.size) :
    m'.variable f x = m.variable f x := by
  unfold Machine.variable
  rw [h.value f hf]

end Machine.Retained

end Untangle.Sandbox

namespace Untangle

/-- Whether an expression is a literal, a name or the receiver of the function around. -/
def Node.isSteady (n : Node) : Bool :=
  match n.form with
  | .literal _ | .identifier _ | .thisExpression => true
  | _ => false

/-- The name that such an expression looks up, if any. -/
def Node.lookedUp? (n : Node) : Option Text :=
  match n.form with
  | .identifier name => some name
  | .thisExpression => some "this"
  | _ => none

/-- The expressions that a target is found by. -/
def Node.finders (n : Node) : List Node :=
  match n.form with
  | .member computed =>
    (n.child? .object).toList ++ if computed then (n.child? .property).toList else []
  | _ => []

namespace Sandbox

variable {α β : Type} {m m' : Machine} {scopes : ScopeChain} {depth : Nat}

theorem literalValue_again {l : Literal} {v : Value} {m₁ : Machine}
    (h : Run.literalValue l m = .ok v m₁) (m' : Machine) : Run.literalValue l m' = .ok v m' := by
  unfold Run.literalValue at h ⊢
  cases l with
  | number n =>
    cases n with
    | real x =>
      cases h
      rfl
    | whole n =>
      simp only at h ⊢
      cases hx : Binary64.ofInt? n with
      | none =>
        rw [hx] at h
        cases h
      | some x =>
        rw [hx] at h
        cases h
        rfl
  | regex p f => cases h
  | _ =>
    cases h
    rfl

theorem thisValue_eq (scopes : ScopeChain) (m : Machine) :
    Run.thisValue scopes m = .ok (match m.findScope (Text.of "this") scopes with
      | some f => m.variable f (Text.of "this")
      | none => .undefined) m := by
  unfold Run.thisValue
  rw [bind_of_ok (show (get : Run Machine) m = .ok m m from rfl)]
  cases m.findScope (Text.of "this") scopes <;> rfl

/-- What is steady comes to the same as long as the name that it looks up keeps its variables. -/
theorem repeats_steady {e : Node} (he : e.isSteady = true)
    (hscopes : ∀ f ∈ scopes, f < m.frames.size) (hretained : ∀ x, e.lookedUp? = some x → m.Retained x m') :
    Repeats ((evaluator depth).expression e scopes) m m' := by
  intro j k a m₁ hrun hend
  obtain ⟨d, rfl, heq⟩ := hend.expression
  have heq' : (evaluator (d + 1)).expression e scopes (m.spend j) =
      Run.evaluateExpression (evaluator d) e scopes (m.spend j) := rfl
  rw [heq] at hend ⊢
  rw [heq'] at hrun
  have hstart := (unstopped_ok hrun).tick.2
  unfold Run.evaluateExpression at hend hrun ⊢
  rw [hend.tick.2]
  rw [hstart] at hrun
  have hfound : ∀ x, e.lookedUp? = some x →
      ((m'.spend k).spend 1).findScope x scopes = ((m.spend j).spend 1).findScope x scopes ∧
        ∀ f, ((m.spend j).spend 1).findScope x scopes = some f → m'.variable f x = m.variable f x := by
    intro x hx
    simp only [Machine.findScope_spend]
    exact ⟨(hretained x hx).findScope hscopes, fun f hf =>
      (hretained x hx).variable_eq (hscopes f (mem_of_findScope hf))⟩
  unfold Node.isSteady at he
  unfold Node.lookedUp? at hfound
  generalize e.form = form at he hfound hrun ⊢
  cases form with
  | literal l => exact ⟨_, literalValue_again hrun _⟩
  | identifier name =>
    obtain ⟨hsame, hvalue⟩ := hfound name rfl
    cases hscope : ((m.spend j).spend 1).findScope name scopes with
    | none =>
      simp only at hrun
      rw [lookup_of_unbound hscope] at hrun
      cases hrun
    | some f =>
      simp only at hrun ⊢
      rw [lookup_of_findScope hscope] at hrun
      cases hrun
      refine ⟨(m'.spend k).spend 1, (lookup_of_findScope (hsame.trans hscope)).trans ?_⟩
      exact congrArg (EStateM.Result.ok · _) (hvalue f hscope)
  | thisExpression =>
    obtain ⟨hsame, hvalue⟩ := hfound (Text.of "this") rfl
    simp only at hrun ⊢
    rw [thisValue_eq] at hrun ⊢
    cases hrun
    refine ⟨(m'.spend k).spend 1, ?_⟩
    rw [hsame]
    cases hscope : ((m.spend j).spend 1).findScope (Text.of "this") scopes with
    | none => rfl
    | some f => exact congrArg (EStateM.Result.ok · _) (hvalue f hscope)
  | _ => cases he

/-! ## Setting places -/

/-- A computation that does the same after some more steps. -/
def Unmoved (c : Run α) : Prop := ∀ m k, c (m.spend k) = mapMachine (·.spend k) (c m)

namespace Unmoved

theorem pure (a : α) : Unmoved (Pure.pure a : Run α) := fun _ _ => rfl

theorem throw (e : Abrupt) : Unmoved (MonadExcept.throw e : Run α) := fun _ _ => rfl

theorem bind {c : Run α} {f : α → Run β} (hc : Unmoved c) (hf : ∀ a, Unmoved (f a)) :
    Unmoved (c >>= f) := by
  intro m k
  have hsame := hc m k
  cases hrun : c m with
  | ok a m₁ =>
    rw [hrun] at hsame
    rw [bind_of_ok hrun, bind_of_ok hsame]
    exact hf a m₁ k
  | error e m₁ =>
    rw [hrun] at hsame
    rw [bind_of_error hrun, bind_of_error hsame]
    rfl

theorem cell (r : Ref) : Unmoved (Run.cell r) := fun _ _ => rfl

theorem setCell (r : Ref) (c : Cell) : Unmoved (Run.setCell r c) := fun _ _ => rfl

theorem setElements (r : Ref) (es : Array Value) : Unmoved (Run.setElements r es) :=
  (cell r).bind fun _ => setCell r _

theorem reading (f : Heap → Conv α) : Unmoved (Run.reading f) := by
  intro m k
  have hheap : (m.spend k).heap = m.heap := rfl
  rw [reading_eq, reading_eq, hheap]
  cases f m.heap <;> rfl

theorem raise (kind : String) (message : Text) : Unmoved (Run.raise kind message : Run α) :=
  fun _ _ => rfl

theorem boundLength (count : Nat) : Unmoved (Run.boundLength count) := by
  unfold Run.boundLength
  split
  · exact throw _
  · exact pure _

theorem putOwn (r : Ref) (key : Text) (v : Value) : Unmoved (Run.putOwn r key v) := by
  unfold Run.putOwn
  refine (cell r).bind fun c => ?_
  split
  · refine (reading _).bind fun i => ?_
    split
    · exact (boundLength _).bind fun _ => setElements r _
    · split
      · refine (reading _).bind fun x => ?_
        split
        · exact raise _ _
        · exact (boundLength _).bind fun _ => setElements r _
      · exact setCell r _
  · exact setCell r _

theorem putProperty (object : Value) (key : Text) (v : Value) :
    Unmoved (Run.putProperty object key v) := by
  unfold Run.putProperty
  split
  · exact raise _ _
  · exact raise _ _
  · exact putOwn _ key v
  · exact pure _

theorem assign (scopes : ScopeChain) (name : Text) (v : Value) : Unmoved (Run.assign scopes name v) := by
  intro m k
  show Run.declare ((m.spend k).assignee scopes name) name v (m.spend k) = _
  have hassignee : (m.spend k).assignee scopes name = m.assignee scopes name := by
    have hfirst : (m.spend k).firstScope (·.capturesGlobals) scopes =
        m.firstScope (·.capturesGlobals) scopes :=
      m.withMeter_firstScope ⟨m.steps + k, m.depth, m.maxSteps, m.maxDepth⟩ _ scopes
    unfold Machine.assignee
    rw [Machine.findScope_spend, hfirst]
    rfl
  rw [hassignee]
  rfl

theorem writePlace (scopes : ScopeChain) (v : Value) (p : Place) : Unmoved (Run.writePlace scopes v p) := by
  cases p with
  | named name => exact assign scopes name v
  | member object key => exact putProperty object key v

end Unmoved

/-! ## Nothing in between -/

/-- An expression to the right of a target that leaves alone what the target is found by: it only looks, or
it and the functions of the machine do not assign the names by which the target is found. -/
inductive Undisturbed (m : Machine) (depth : Nat) (scopes : ScopeChain) (target right : Node) : Prop
  | looking (h : right.looks = true)
  | unassigned (hscopes : ∀ f ∈ scopes, f < m.frames.size)
      (hsteady : ∀ e ∈ target.finders, e.isSteady = true)
      (hnames : ∀ e ∈ target.finders, ∀ x, e.lookedUp? = some x →
        right.Free m.trees (Node.Assigns x) ∧ m.FunctionsFree (Node.Assigns x))
      (hkey : ∀ p, target.form = .member true → target.child? .property = some p → ∀ k v m₁,
        (evaluator depth).expression p scopes (m.spend k) = .ok v m₁ → v.isObject = false)

theorem toText_again {v : Value} (hv : v.isObject = false) {h : Heap} {t : Text} (ht : toText h v = .ok t)
    (h' : Heap) : toText h' v = .ok t := by
  cases v with
  | object r => cases hv
  | _ => exact ht

/-- Nothing that is evaluated in between changes what a target is. -/
theorem Undisturbed.repeats {target right : Node} (h : Undisturbed m depth scopes target right)
    (hlooks : target.looks = true) {k : Nat} {v : Value}
    (hright : (evaluator depth).expression right scopes (m.spend k) = .ok v m') :
    Repeats (Run.place (evaluator depth) target scopes) m m' := by
  cases h with
  | looking hquiet =>
    obtain ⟨d, rfl⟩ := frugal_expression depth scopes right hquiet _ v m' hright
    rw [m.spend_spend]
    exact .placeLater hlooks _
  | unassigned hscopes hsteady hnames hkey =>
    have hretained : ∀ e ∈ target.finders, ∀ x, e.lookedUp? = some x → m.Retained x m' := by
      intro e he x hx
      obtain ⟨hfree, hfunctions⟩ := hnames e he x hx
      have hgood : (Policy.retaining m x).Good (m.spend k) :=
        ⟨⟨rfl, Nat.le_refl _, fun _ _ => rfl⟩, (Machine.good_retaining hfunctions).functions⟩
      have hfit : (Policy.retaining m x).Fit right scopes := hfree
      have hkept := (Policy.obeys_evaluator (Policy.lasting_retaining m x) depth).expression hfit
      have hafter := (hkept.after hgood).holds
      rwa [Machine.after_eq_stateOf, hright] at hafter
    refine Repeats.place hlooks (fun computed o hform ho => ?_) fun p hform hp => ⟨?_, fun v hv t ht => ?_⟩
    · have hfinder : o ∈ target.finders := by
        unfold Node.finders
        simp [hform, ho]
      exact repeats_steady (hsteady o hfinder) hscopes (hretained o hfinder)
    · have hfinder : p ∈ target.finders := by
        unfold Node.finders
        simp [hform, hp]
      exact repeats_steady (hsteady p hfinder) hscopes (hretained p hfinder)
    · obtain ⟨j, m₁, hrun⟩ := hv
      exact toText_again (hkey p hform hp j v m₁ hrun) ht _

/-- What an operator of assignment computes does not change what the target is. -/
theorem repeats_revised {target right : Node} (hlooks : target.looks = true)
    (hundisturbed : Undisturbed m depth scopes target right) {op : AssignOp} {current : Value}
    {w : Option Value × Value} {k : Nat}
    (hrun : Run.revised ((evaluator depth).expression right scopes) op current (m.spend k) = .ok w m') :
    Repeats (Run.place (evaluator depth) target scopes) m m' := by
  cases op with
  | plain =>
    obtain ⟨v, m₂, hright, hlast⟩ := bind_eq_ok.mp hrun
    cases hlast
    exact hundisturbed.repeats hlooks hright
  | logical op =>
    unfold Run.revised at hrun
    simp only at hrun
    split at hrun
    · cases hrun
      exact .placeLater hlooks k
    · obtain ⟨v, m₂, hright, hlast⟩ := bind_eq_ok.mp hrun
      cases hlast
      exact hundisturbed.repeats hlooks hright
  | compound op =>
    obtain ⟨r, m₂, hright, hrest⟩ := bind_eq_ok.mp hrun
    obtain ⟨v, m₃, hv, hlast⟩ := bind_eq_ok.mp hrest
    cases hlast
    obtain ⟨i, rfl⟩ := Frugal.binaryOperation op current r m₂ v _ hv
    exact (hundisturbed.repeats hlooks hright).spent i

/-- What an increment or a decrement computes does not change what the target is. -/
theorem repeats_stepped {target : Node} (hlooks : target.looks = true) {op : UpdateOp} {before : Bool}
    {current : Value} {w : Option Value × Value} {k : Nat}
    (hrun : Run.stepped op before current (m.spend k) = .ok w m') :
    Repeats (Run.place (evaluator depth) target scopes) m m' := by
  have hfrugal : Frugal (Run.stepped op before current) := (Frugal.reading _).bind fun _ => .pure _
  obtain ⟨i, rfl⟩ := hfrugal _ w m' hrun
  rw [m.spend_spend]
  exact .placeLater hlooks _

/-! ## Targets -/

theorem mapMachine_spend_zero (x : EStateM.Result Abrupt Machine α) : mapMachine (·.spend 0) x = x := by
  cases x <;> rfl

theorem frugal_place {target : Node} (hlooks : target.looks = true) :
    Frugal (Run.place (evaluator depth) target scopes) := by
  have hfrugal := frugal_expression depth scopes
  unfold Run.place
  split
  · exact .pure _
  · next computed _ =>
    exact .partValue hfrugal hlooks .object fun v =>
      (Frugal.memberKey hfrugal hlooks computed).bind fun key => .pure _
  · exact .fail _

theorem frugal_readPlace (p : Place) : Frugal (Run.readPlace scopes p) := by
  cases p with
  | named name => exact .lookup scopes name
  | member object key => exact .getProperty object key

/-- A target that is the same when it is found again is set as if it was found once. -/
theorem revise_eq {target : Node} (hlooks : target.looks = true)
    {next : Value → Run (Option Value × Value)} {s : Nat}
    (hagain : ∀ k current w m', next current (m.spend k) = .ok w m' →
      Repeats (Run.place (evaluator depth) target scopes) m m')
    (hend : Unstopped (Run.revise (evaluator depth) target scopes next (m.spend s))) :
    ∃ k, Run.revise (evaluator depth) target scopes next (m.spend s) =
      mapMachine (·.spend k) (Run.reviseOnce (evaluator depth) target scopes next (m.spend s)) := by
  unfold Run.revise Run.reviseOnce at *
  rw [Run.readTarget_eq, bind_assoc] at hend ⊢
  cases hplace : Run.place (evaluator depth) target scopes (m.spend s) with
  | error e m₁ =>
    rw [bind_of_error hplace, bind_of_error hplace]
    exact ⟨0, rfl⟩
  | ok p m₁ =>
    obtain ⟨i, rfl⟩ := frugal_place hlooks _ p m₁ hplace
    rw [bind_of_ok hplace] at hend ⊢
    rw [bind_of_ok hplace]
    cases hread : Run.readPlace scopes p ((m.spend s).spend i) with
    | error e m₂ =>
      rw [bind_of_error hread, bind_of_error hread]
      exact ⟨0, rfl⟩
    | ok current m₂ =>
      obtain ⟨i', rfl⟩ := frugal_readPlace p _ current m₂ hread
      rw [bind_of_ok hread] at hend ⊢
      rw [bind_of_ok hread]
      cases hnext : next current (((m.spend s).spend i).spend i') with
      | error e m₃ =>
        rw [bind_of_error hnext, bind_of_error hnext]
        exact ⟨0, rfl⟩
      | ok w m₃ =>
        rw [bind_of_ok hnext] at hend ⊢
        rw [bind_of_ok hnext]
        obtain ⟨w, result⟩ := w
        cases w with
        | none => exact ⟨0, (mapMachine_spend_zero _).symm⟩
        | some v =>
          simp only at hend ⊢
          rw [Run.writeTarget_eq, bind_assoc] at hend ⊢
          rw [m.spend_spend, m.spend_spend] at hnext
          rw [← m.spend_zero, m.spend_spend] at hplace
          obtain ⟨m₄, hplace'⟩ := hagain _ current _ m₃ hnext (0 + s) 0 p _ hplace hend.first
          obtain ⟨k, rfl⟩ := frugal_place hlooks _ p m₄ hplace'
          refine ⟨k, (bind_of_ok hplace').trans ?_⟩
          exact ((Unmoved.writePlace scopes v p).bind fun _ => .pure result) m₃ k

theorem mapMachine_spend (j k : Nat) (x : EStateM.Result Abrupt Machine α) :
    mapMachine (·.spend j) (mapMachine (·.spend k) x) = mapMachine (·.spend (k + j)) x := by
  cases x with
  | ok a m => exact congrArg (EStateM.Result.ok a) (m.spend_spend k j)
  | error e m => exact congrArg (EStateM.Result.error e) (m.spend_spend k j)

/-- A target that is found after the value of a plain assignment is set as if it was found before. -/
theorem plain_eq {target right : Node} (hlooks : target.looks = true) {s : Nat} {p : Place} {m₁ : Machine}
    (hplace : Run.place (evaluator depth) target scopes (m.spend s) = .ok p m₁)
    (hundisturbed : Undisturbed m depth scopes target right)
    (hend : Unstopped ((do
      let v ← (evaluator depth).expression right scopes
      Run.writeTarget (evaluator depth) target v scopes
      return v : Run Value) (m.spend s)))
    (hend' : Unstopped ((do
      let p ← Run.place (evaluator depth) target scopes
      let v ← (evaluator depth).expression right scopes
      Run.writePlace scopes v p
      return v : Run Value) (m.spend s))) :
    ∃ j k, mapMachine (·.spend j) ((do
        let v ← (evaluator depth).expression right scopes
        Run.writeTarget (evaluator depth) target v scopes
        return v : Run Value) (m.spend s)) =
      mapMachine (·.spend k) ((do
        let p ← Run.place (evaluator depth) target scopes
        let v ← (evaluator depth).expression right scopes
        Run.writePlace scopes v p
        return v : Run Value) (m.spend s)) := by
  obtain ⟨a, rfl⟩ := frugal_place hlooks _ p m₁ hplace
  rw [bind_of_ok hplace] at hend' ⊢
  have hlater := expression_spend hend'.first
  cases hright : (evaluator depth).expression right scopes (m.spend s) with
  | error e m₂ =>
    rw [hright] at hlater
    rw [bind_of_error hright, bind_of_error hlater]
    exact ⟨a, 0, rfl⟩
  | ok v m₂ =>
    rw [hright] at hlater
    rw [bind_of_ok hright] at hend ⊢
    rw [bind_of_ok hlater]
    rw [Run.writeTarget_eq, bind_assoc] at hend ⊢
    have hagain := hundisturbed.repeats hlooks hright
    rw [← m.spend_zero, m.spend_spend] at hplace
    obtain ⟨m₃, hplace'⟩ := hagain (0 + s) 0 p _ hplace hend.first
    obtain ⟨b, rfl⟩ := frugal_place hlooks _ p m₃ hplace'
    have hwrite : Unmoved (Run.writePlace scopes v p >>= fun _ => pure v) :=
      (Unmoved.writePlace scopes v p).bind fun _ => .pure v
    refine ⟨a, b, ?_⟩
    rw [m₂.spend_zero] at hplace'
    rw [bind_of_ok hplace']
    show mapMachine (·.spend a) ((Run.writePlace scopes v p >>= fun _ => pure v) (m₂.spend b)) =
      mapMachine (·.spend b) ((Run.writePlace scopes v p >>= fun _ => pure v) (m₂.spend a))
    rw [hwrite m₂ b, hwrite m₂ a, mapMachine_spend, mapMachine_spend, Nat.add_comm]

/-- An assignment or an update finds its target as if it did so once, before it evaluates anything else, and
sets what it read, if the target only looks and what is evaluated to its right leaves alone what the target is
found by.  Both ways end with the same value or the same failure, in the same state but for the steps, unless
they reach a limit; for a plain assignment, the target has to be something that can be found. -/
theorem target_found_once {n target : Node} (htarget : n.assigned? = some target)
    (hlooks : target.looks = true)
    (hright : ∀ op right, n.form = .assignment op → n.child? .right = some right →
      Undisturbed m depth scopes target right)
    (hplace : n.form = .assignment .plain →
      ∃ p m₁, Run.place (evaluator depth) target scopes (m.spend 1) = .ok p m₁)
    (hend : Unstopped ((evaluator (depth + 1)).expression n scopes m))
    (hend' : Unstopped ((Run.tick >>= fun _ => Run.setOnce (evaluator depth) target scopes n) m)) :
    ∃ j k, mapMachine (·.spend j) ((evaluator (depth + 1)).expression n scopes m) =
      mapMachine (·.spend k) ((Run.tick >>= fun _ => Run.setOnce (evaluator depth) target scopes n) m) := by
  have heq : (evaluator (depth + 1)).expression n scopes m =
      Run.evaluateExpression (evaluator depth) n scopes m := rfl
  rw [heq] at hend ⊢
  unfold Run.evaluateExpression at hend ⊢
  have hstart := hend.tick.2
  have hstart' := hend'.tick.2
  rw [hstart] at hend ⊢
  rw [hstart'] at hend' ⊢
  unfold Node.assigned? at htarget
  cases hform : n.form with
  | update op before =>
    rw [hform] at htarget
    simp only [hform] at hend ⊢
    rw [bind_of_ok (part_of_child? htarget _), Run.updateValue_eq] at hend ⊢
    rw [Run.setOnce_update _ _ _ hform]
    obtain ⟨k, hk⟩ := revise_eq hlooks (fun _ _ _ _ => repeats_stepped hlooks) hend
    exact ⟨0, k, (mapMachine_spend_zero _).trans hk⟩
  | assignment op =>
    rw [hform] at htarget
    simp only [hform] at hend ⊢
    cases hchild : n.child? .right with
    | none =>
      obtain ⟨hcode, honce⟩ := Run.set_of_lack (evaluator depth) scopes hform htarget hchild (m.spend 1)
      exact ⟨0, 0, by rw [hcode, honce]⟩
    | some right =>
      have hundisturbed := hright op right hform hchild
      by_cases hop : op = .plain
      · subst hop
        obtain ⟨p, m₁, hplace⟩ := hplace hform
        obtain ⟨hcode, honce⟩ := Run.set_plain (evaluator depth) scopes hform htarget hchild
        rw [hcode] at hend ⊢
        rw [honce] at hend' ⊢
        exact plain_eq hlooks hplace hundisturbed hend hend'
      · rw [Run.assignmentValue_eq _ _ _ hop htarget hchild] at hend ⊢
        rw [Run.setOnce_eq _ _ _ hop hform hchild]
        obtain ⟨k, hk⟩ := revise_eq hlooks (fun _ _ _ _ => repeats_revised hlooks hundisturbed) hend
        exact ⟨0, k, (mapMachine_spend_zero _).trans hk⟩
  | _ =>
    rw [hform] at htarget
    cases htarget

/-- `f.k` -/
def memberTarget : Node :=
  .mk 12 .left (.member false)
    [.mk 13 .object (.identifier (Text.of "f")) [], .mk 14 .property (.identifier (Text.of "k")) []]

/-- `f.k = f()` -/
def memberAssignment : Node :=
  .mk 11 .expression (.assignment .plain) [memberTarget, flagCall.inRole .right]

/-- Where `f` sets another variable, its own member is set as if it was found before the call. -/
theorem memberAssignment_found_once :
    memberAssignment.assigned? = some memberTarget ∧ memberTarget.looks = true ∧
      Undisturbed flagMachine 9 [0] memberTarget (flagCall.inRole .right) ∧
      ∃ j k, mapMachine (·.spend j) ((evaluator 10).expression memberAssignment [0] flagMachine) =
        mapMachine (·.spend k) ((Run.tick >>= fun _ =>
          Run.setOnce (evaluator 9) memberTarget [0] memberAssignment) flagMachine) := by
  have hundisturbed : Undisturbed flagMachine 9 [0] memberTarget (flagCall.inRole .right) := by
    refine .unassigned (by decide) (by decide) ?_ ?_
    · intro e he x hx
      obtain rfl : e = .mk 13 .object (.identifier (Text.of "f")) [] := List.mem_singleton.mp he
      obtain rfl : Text.of "f" = x := Option.some.inj hx
      exact ⟨Node.free_of_everywhere (by decide),
        functionsFree_flagMachine (by decide)⟩
    · intro p hform
      cases hform
  have hplace : Run.place (evaluator 9) memberTarget [0] (flagMachine.spend 1) =
      .ok (.member (.object 0) (Text.of "k")) (flagMachine.spend 2) := rfl
  refine ⟨rfl, by decide, hundisturbed, ?_⟩
  refine target_found_once rfl (by decide) ?_ (fun _ => ⟨_, _, hplace⟩)
    (unstopped_of_isUnstopped (by decide +kernel)) (unstopped_of_isUnstopped (by decide +kernel))
  intro op right hform hright
  cases hright
  exact hundisturbed

end Sandbox

end Untangle
