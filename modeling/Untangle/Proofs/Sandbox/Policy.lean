import Untangle.Proofs.Sandbox.Composition
import Untangle.Proofs.Sandbox.Conversions
import Untangle.Proofs.Tree.Code

set_option autoImplicit false

/-!
# Policies

A policy says which code may run and what such code may do: in which scopes it sets variables, which
objects it changes, what it calls functions on, and how it stops.  All that the sandbox does is built from
the steps that a policy allows, and the same steps are taken whatever the code inside of the running code
means.  Whatever is shown for each step of a policy therefore holds of every run, and of any two meanings
of code that agree on the code inside.

Of the built-in functions, only those that act on their receiver are told apart: the ones that change the
array on which they are called, and the ones that call the function on which they are called.
-/

namespace Untangle.Sandbox

/-! ## Meanings -/

/-- The meaning of code, and how the body of a function is run once its parameters are bound. -/
structure Meaning extends Evaluator where
  body : Node → ScopeChain → Run Value

namespace Run

variable {α : Type}

/-- Refuses to go deeper than the limit. -/
def entered (c : Run α) : Run α := do
  let m ← get
  if m.depth ≥ m.maxDepth then throw (.limit (.depth m.maxDepth))
  c

/-- Runs one call deeper. -/
def deeper (c : Run α) : Run α := do
  modify fun m => { m with depth := m.depth + 1 }
  thenAlways c (modify fun m => { m with depth := m.depth - 1 })

/-- Binds the parameters of a function and runs its body. -/
def callCode (e : Meaning) (f : Value) (code : Node) (scopes : ScopeChain) (name : Text)
    (this : Value) (args : List Value) : Run Value := do
  let code ← currentCode code
  let frame ← newFrame true false
  let inner := frame :: scopes
  if !isArrow code then
    declare frame "this" this
    declare frame "arguments" (← newArray args.toArray)
    if knowsItself code && !name.isEmpty then declare frame name f
  bindParameters e.toEvaluator frame inner args (code.childrenAt .params) 0
  let body ← part code .body
  e.body body inner

/-- Calls a value. -/
def callAs (e : Meaning) (f this : Value) (args : List Value) : Run Value := do
  match f with
  | .object r =>
    match (← cell r).body with
    | .native fn => applyNative e.call fn this args
    | .closure code scopes name => entered (callCode e f code scopes name this args)
    | _ => notCallable f
  | _ => notCallable f

/-- The scope to which the variables of a declaration go. -/
def declarationScope (kind : VariableKind) (scopes : ScopeChain) : Run FrameId :=
  if kind == .var then varScope scopes
  else
    match scopes with
    | f :: _ => return f
    | [] => return (← get).global

end Run

/-- The meaning of code that runs bodies one call deeper. -/
def Evaluator.meaning (ev : Evaluator) : Meaning :=
  { ev with body := fun n scopes => Run.deeper (Run.runBody ev n scopes) }

theorem callFunction_eq (ev : Evaluator) : Run.callFunction ev = Run.callAs ev.meaning := rfl

/-- The scope in which an assignment sets a variable. -/
def Machine.assignee (m : Machine) (scopes : ScopeChain) (name : Text) : FrameId :=
  ((m.findScope name scopes).or (m.firstScope (·.capturesGlobals) scopes)).getD m.global

/-! ## Functions that act on their receiver -/

/-- A built-in function that changes the array, or calls the function, on which it is called. -/
def Native.actsOnReceiver : Native → Bool
  | .array .push | .array .pop | .array .shift | .array .unshift | .array .splice | .array .reverse => true
  | .function _ => true
  | _ => false

/-! ## Policies -/

/-- Which code may run, and what it may do. -/
structure Policy where
  /-- Code that may run in some scopes. -/
  Fit : Node → ScopeChain → Prop
  /-- Variables that may be set in a scope. -/
  Own : FrameId → Text → Prop := fun _ _ => True
  /-- Scopes from which declarations are kept away. -/
  guarded : FrameId → Prop := fun _ => False
  /-- Objects that may be changed. -/
  Open : Ref → Prop := fun _ => True
  /-- Built-in functions that an object may be. -/
  Builtin : Ref → Native → Prop := fun _ _ => True
  /-- Functions that may be called on a receiver. -/
  CalledOn : Value → Value → Prop := fun _ _ => True
  /-- How code may stop. -/
  Stops : Abrupt → Prop := fun _ => True
  /-- Machines on which code runs. -/
  Holds : Machine → Prop := fun _ => True
  /-- What is known of a call that the limit of calls lets pass. -/
  Room : Prop := True
  part : ∀ {n c : Node} {scopes : ScopeChain}, Fit n scopes → c ∈ n.children → Fit c scopes
  slot : ∀ {n : Node} {scopes : ScopeChain} (r : Role), Fit n scopes → Fit (n.inRole r) scopes
  inner : ∀ {n : Node} {f : FrameId} {scopes : ScopeChain}, Fit n scopes → (∀ name, Own f name) →
    Fit n (f :: scopes)
  present : ∀ {m : Machine} {n : Node} {scopes : ScopeChain}, Holds m → Fit n scopes →
    Fit (n.present m.trees) scopes
  proper : ∀ x : Abrupt, x.IsProper → Stops x := by intros; trivial
  lacking : ∀ {n : Node} {scopes : ScopeChain}, Fit n scopes → n.hasParts = false →
    ∀ x, Stops x := by intros; trivial
  functions : ∀ {m : Machine} {n : Node} {scopes : ScopeChain}, Holds m → Fit n scopes →
    n.form.isFunction = true → (n.present m.trees).form.isFunction = true ∨ ∀ x, Stops x := by
    intros; exact .inr fun _ => trivial
  alone : ∀ f this : Value, this.isObject = false → CalledOn f this := by intros; trivial
  method : ∀ {m : Machine} {n callee : Node} {scopes : ScopeChain} {computed : Bool} {this f : Value}
    {key : Text}, Holds m → Fit n scopes → n.form = .call → n.child? .callee = some callee →
    callee.form = .member computed →
    (computed = false → (callee.child? .property).bind Node.name? = some key) →
    Run.getProperty this key m = .ok f m → CalledOn f this := by intros; trivial
  elements : ∀ {m : Machine} {q r : Ref} {fn : Native} {es : Array Value}, Holds m → Builtin q fn →
    fn.actsOnReceiver = true → CalledOn (.object q) (.object r) → (m.cell r).body = .array es →
    Open r := by intros; trivial
  passes : ∀ {q : Ref} {fn : Native} {this : Value}, Builtin q fn → fn.actsOnReceiver = true →
    CalledOn (.object q) this → ∀ x, CalledOn this x := by intros; trivial
  members : ∀ {n : Node} {scopes : ScopeChain}, Fit n scopes → n.ChangesMember → ∀ r, Open r := by
    intros; trivial
  assigned : ∀ {m : Machine} {n : Node} {scopes : ScopeChain} {name : Text}, Holds m →
    Fit n scopes → n.Assigns name → Own (m.assignee scopes name) name := by intros; trivial

namespace Policy

variable (P : Policy)

/-- Code that may be called. -/
structure Admits (code : Node) (scopes : ScopeChain) : Prop where
  fit : P.Fit code scopes
  function : code.form.isFunction = true ∨ ∀ x, P.Stops x

/-- An object that may stand at a place: its code, if it is a function of running code, may be called,
and so may it itself, if it is a built-in function. -/
structure Covers (r : Ref) (b : Body) : Prop where
  closure : ∀ code scopes name, b = .closure code scopes name → P.Admits code scopes
  builtin : ∀ fn, b = .native fn → P.Builtin r fn

/-- A machine on which code runs and all of whose functions may be called. -/
structure Good (m : Machine) : Prop where
  holds : P.Holds m
  functions : ∀ r, P.Covers r (m.cell r).body

/-- The policy that says nothing but that the code has a property. -/
def plain (Fit : Node → Prop) (hfit : Hereditary Fit) : Policy where
  Fit n _ := Fit n
  Holds m := ∀ t ∈ m.trees, Fit t
  part hn hc := hfit.part _ hn _ hc
  slot r hn := hfit.slot _ hn r
  inner hn _ := hn
  present {m n scopes} hm hn := by
    unfold Node.present
    cases hcode : m.trees.findSome? (Node.findId n.id) with
    | none => exact hn
    | some code =>
      obtain ⟨t, ht, hfound⟩ := List.exists_of_findSome?_eq_some hcode
      exact hfit.findId (hm t ht) hfound

variable {P}

theorem covers_plain (r : Ref) : P.Covers r .plain := ⟨nofun, nofun⟩

theorem covers_array (r : Ref) (es : Array Value) : P.Covers r (.array es) := ⟨nofun, nofun⟩

theorem covers_native {r : Ref} {fn : Native} (h : P.Builtin r fn) : P.Covers r (.native fn) :=
  ⟨nofun, fun _ heq => by cases heq; exact h⟩

theorem covers_closure {code : Node} {scopes : ScopeChain} (h : P.Admits code scopes) (r : Ref)
    (name : Text) : P.Covers r (.closure code scopes name) :=
  ⟨fun _ _ _ heq => by cases heq; exact h, nofun⟩

theorem child? {n c : Node} {r : Role} {scopes : ScopeChain} (hn : P.Fit n scopes)
    (hc : n.child? r = some c) : P.Fit c scopes :=
  P.part hn (List.mem_of_find?_eq_some hc)

theorem childrenAt {n : Node} {r : Role} {scopes : ScopeChain} (hn : P.Fit n scopes) :
    ∀ c ∈ n.childrenAt r, P.Fit c scopes :=
  fun _ hc => P.part hn (List.mem_filter.mp hc).1

/-- The present code of a function may be called if the function may. -/
theorem Admits.present {m : Machine} {code : Node} {scopes : ScopeChain}
    (h : P.Admits code scopes) (hm : P.Holds m) : P.Admits (code.present m.trees) scopes := by
  refine ⟨P.present hm h.fit, ?_⟩
  obtain hform | hstops := h.function
  · exact P.functions hm h.fit hform
  · exact .inr hstops

/-- A function that may be called has a body, unless it may stop in any way. -/
theorem Admits.body {code : Node} {scopes : ScopeChain} (h : P.Admits code scopes)
    (hlack : code.child? .body = none) : ∀ x, P.Stops x := by
  obtain hform | hstops := h.function
  · refine P.lacking h.fit ?_
    cases hf : code.form with
    | functionDeclaration flags => exact Node.hasParts_of_lack hf rfl hlack
    | functionExpression flags => exact Node.hasParts_of_lack hf rfl hlack
    | arrowFunction flags => exact Node.hasParts_of_lack hf rfl hlack
    | _ =>
      rw [hf] at hform
      cases hform
  · exact hstops

end Policy

/-! ## Built computations -/

/-- Two computations that take the same steps, all of which a policy allows, around the code inside of
the running code, which may have two meanings.  Statements run in one chain of scopes, if any. -/
inductive Built (P : Policy) (e e' : Meaning) :
    Option ScopeChain → {α : Type} → Run α → Run α → Prop
  | result {inner : Option ScopeChain} {α : Type} (a : α) : Built P e e' inner (pure a) (pure a)
  | stop {inner : Option ScopeChain} {α : Type} {x : Abrupt} (hx : P.Stops x) :
      Built P e e' inner (throw x : Run α) (throw x)
  /-- Looks at the store, but not at counters and limits. -/
  | look {inner : Option ScopeChain} {α : Type} {k k' : Machine → Run α}
      (hstore : ∀ m t, k (m.withMeter t) = k m)
      (hk : ∀ m, P.Good m → Built P e e' inner (k m) (k' m)) :
      Built P e e' inner (get >>= k) (get >>= k')
  | allocate {inner : Option ScopeChain} {c : Cell} (hc : ∀ r, P.Covers r c.body) :
      Built P e e' inner (Run.allocate c) (Run.allocate c)
  | setCell {inner : Option ScopeChain} {r : Ref} {c : Cell} (hr : P.Open r)
      (hc : P.Covers r c.body) : Built P e e' inner (Run.setCell r c) (Run.setCell r c)
  | declare {inner : Option ScopeChain} {f : FrameId} {name : Text} (hf : P.Own f name)
      (v : Value) : Built P e e' inner (Run.declare f name v) (Run.declare f name v)
  /-- Opens a scope, in which statements run from then on. -/
  | scope {inner : Option ScopeChain} {α : Type} {isFunction : Bool} (scopes : ScopeChain)
      {k k' : FrameId → Run α} (hinner : isFunction = true ∨ inner = some scopes)
      (hk : ∀ f, (∀ name, P.Own f name) → Built P e e' (some (f :: scopes)) (k f) (k' f)) :
      Built P e e' inner (Run.newFrame isFunction false >>= k) (Run.newFrame isFunction false >>= k')
  /-- Finds the scope to which a declaration belongs. -/
  | target {α : Type} (kind : VariableKind) {scopes : ScopeChain} {k k' : FrameId → Run α}
      (hk : ∀ f, (∀ name, P.Own f name) → Built P e e' (some scopes) (k f) (k' f)) :
      Built P e e' (some scopes) (Run.declarationScope kind scopes >>= k)
        (Run.declarationScope kind scopes >>= k')
  | tick {inner : Option ScopeChain} : Built P e e' inner Run.tick Run.tick
  | expression {inner : Option ScopeChain} {n : Node} {scopes : ScopeChain} (hn : P.Fit n scopes) :
      Built P e e' inner (e.expression n scopes) (e'.expression n scopes)
  | statement {n : Node} {scopes : ScopeChain} (hn : P.Fit n scopes) :
      Built P e e' (some scopes) (e.statement n scopes) (e'.statement n scopes)
  | call {inner : Option ScopeChain} {f this : Value} (hf : P.CalledOn f this) (args : List Value) :
      Built P e e' inner (e.call f this args) (e'.call f this args)
  | body {n : Node} {scopes : ScopeChain} (hroom : P.Room) (hn : P.Fit n scopes) :
      Built P e e' (some scopes) (e.body n scopes) (e'.body n scopes)
  | bind {inner : Option ScopeChain} {α β : Type} {c c' : Run α} {k k' : α → Run β}
      (hc : Built P e e' inner c c') (hk : ∀ a, Built P e e' inner (k a) (k' a)) :
      Built P e e' inner (c >>= k) (c' >>= k')
  /-- Catches some stops, but no limits. -/
  | guarded {inner : Option ScopeChain} {α : Type} {c c' : Run α} {handler handler' : Abrupt → Run α}
      (hc : Built P e e' inner c c') (hlimit : ∀ l, handler (.limit l) = throw (.limit l))
      (hhandler : ∀ x, P.Stops x → Built P e e' inner (handler x) (handler' x)) :
      Built P e e' inner (tryCatch c handler) (tryCatch c' handler')
  /-- Runs a finalizer in any case. -/
  | finalized {α : Type} {c c' : Run α} {n f : Node} {scopes : ScopeChain}
      (hc : Built P e e' (some scopes) c c') (hn : P.Fit n scopes)
      (hf : n.child? .finalizer = some f) :
      Built P e e' (some scopes) (Run.thenAlways c (e.statement f scopes))
        (Run.thenAlways c' (e'.statement f scopes))
  /-- Repeats a round that takes a step whenever the loop goes on. -/
  | loop {inner : Option ScopeChain} {round round' : Run Bool}
      (hround : Built P e e' inner round round')
      (hpaid : ∀ m m₁, round m = .ok true m₁ → m.steps < m₁.steps) :
      Built P e e' inner (Run.repeatRounds round) (Run.repeatRounds round')
  | entered {inner : Option ScopeChain} {α : Type} {c c' : Run α}
      (hc : P.Room → Built P e e' inner c c') :
      Built P e e' inner (Run.entered c) (Run.entered c')

namespace Built

variable {P : Policy} {e e' : Meaning} {inner : Option ScopeChain} {α β : Type}

theorem map {c c' : Run α} (h : Built P e e' inner c c') (f : α → β) :
    Built P e e' inner (do return f (← c)) (do return f (← c')) :=
  h.bind fun a => .result (f a)

theorem mapList {f f' : α → Run β} (hf : ∀ x, Built P e e' inner (f x) (f' x)) (xs : List α) :
    Built P e e' inner (xs.mapM f) (xs.mapM f') := by
  induction xs with
  | nil => exact .result []
  | cons x xs ih =>
    rw [List.mapM_cons, List.mapM_cons]
    exact (hf x).bind fun y => ih.bind fun ys => .result (y :: ys)

theorem foldList {f f' : α → β → Run α} (hf : ∀ a x, Built P e e' inner (f a x) (f' a x))
    (xs : List β) (a : α) : Built P e e' inner (xs.foldlM f a) (xs.foldlM f' a) := by
  induction xs generalizing a with
  | nil => exact .result a
  | cons x xs ih => exact (hf a x).bind ih

theorem fail (f : Failure) : Built P e e' inner (Run.fail f : Run α) (Run.fail f) :=
  .stop (P.proper _ trivial)

/-! ## Objects -/

theorem reading {cs : List Conversion} {f : Heap → Except Abrupt α} (hf : ∀ h, Proper cs (f h)) :
    Built P e e' inner (Run.reading f) (Run.reading f) := by
  refine .look (fun m t => rfl) fun m _ => ?_
  cases hx : f m.heap with
  | ok a => exact .result a
  | error x => exact .stop (P.proper x (hf m.heap x hx).isProper)

/-- Going on after a look at objects, with what is known of its result. -/
theorem readingThen {cs : List Conversion} {f : Heap → Except Abrupt α} {k k' : α → Run β}
    (hf : ∀ h, Proper cs (f h))
    (hk : ∀ h a, f h = .ok a → Built P e e' inner (k a) (k' a)) :
    Built P e e' inner (Run.reading f >>= k) (Run.reading f >>= k') := by
  unfold Run.reading
  rw [bind_assoc, bind_assoc]
  refine .look (fun m t => rfl) fun m _ => ?_
  cases hx : f m.heap with
  | ok a =>
    rw [pure_bind, pure_bind]
    exact hk _ a hx
  | error x => exact .stop (P.proper x (hf m.heap x hx).isProper)

/-- Looking at an object, which may be called if it is a function. -/
theorem ofCell (r : Ref) {k k' : Cell → Run α}
    (hk : ∀ c, P.Covers r c.body → Built P e e' inner (k c) (k' c)) :
    Built P e e' inner (Run.cell r >>= k) (Run.cell r >>= k') :=
  .look (k := fun m => k (m.cell r)) (fun _ _ => rfl) fun m hm => hk (m.cell r) (hm.functions r)

theorem newObject (properties : Dict Text Value) :
    Built P e e' inner (Run.newObject properties) (Run.newObject properties) :=
  (allocate P.covers_plain).map _

theorem newArray (elements : Array Value) :
    Built P e e' inner (Run.newArray elements) (Run.newArray elements) :=
  (allocate fun r => P.covers_array r elements).map _

theorem setElements {r : Ref} (hr : P.Open r) (elements : Array Value) :
    Built P e e' inner (Run.setElements r elements) (Run.setElements r elements) :=
  .ofCell r fun _ _ => .setCell hr (P.covers_array r elements)

theorem raise (kind : String) (message : Text) :
    Built P e e' inner (Run.raise kind message : Run α) (Run.raise kind message) :=
  (newObject _).bind fun _ => .stop (P.proper _ trivial)

/-! ## Scopes -/

/-- Opens a block inside of the scopes in which statements run. -/
theorem block {scopes : ScopeChain} {k k' : ScopeChain → Run α}
    (hk : ∀ f, (∀ name, P.Own f name) →
      Built P e e' (some (f :: scopes)) (k (f :: scopes)) (k' (f :: scopes))) :
    Built P e e' (some scopes) (Run.blockScope scopes >>= k) (Run.blockScope scopes >>= k') := by
  unfold Run.blockScope
  rw [bind_assoc, bind_assoc]
  simp only [pure_bind]
  exact .scope scopes (.inr rfl) hk

theorem lookup (scopes : ScopeChain) (name : Text) :
    Built P e e' inner (Run.lookup scopes name) (Run.lookup scopes name) := by
  refine .look (fun m t => by simp) fun m _ => ?_
  split
  · exact .result _
  · exact raise _ _

theorem isBound (scopes : ScopeChain) (name : Text) :
    Built P e e' inner (Run.isBound scopes name) (Run.isBound scopes name) :=
  .look (fun m t => by simp) fun _ _ => .result _

/-- An assignment sets the variable that it names. -/
theorem assign {n : Node} {scopes : ScopeChain} {name : Text} (hn : P.Fit n scopes)
    (hname : n.Assigns name) (v : Value) :
    Built P e e' inner (Run.assign scopes name v) (Run.assign scopes name v) :=
  .look (fun m t => by simp) fun _ hm => .declare (P.assigned hm.holds hn hname) v

/-! ## What is composed -/

/-- Computations that are built under a plain policy are composed, if bodies are run by what is
composed. -/
theorem composed {Fit : Node → Prop} {hfit : Hereditary Fit} {c c' : Run α}
    (h : Built (.plain Fit hfit) e e' inner c c')
    (hbody : ∀ n scopes, Fit n → Composed Fit e.toEvaluator (e.body n scopes)) :
    Composed Fit e.toEvaluator c := by
  have hcovers : ∀ {r : Ref} {b : Body}, (Policy.plain Fit hfit).Covers r b → b.Fits Fit :=
    fun hb code scopes name heq => (hb.closure code scopes name heq).fit
  induction h with
  | result a => exact .result a
  | stop => exact .stop _
  | look hstore _ ih =>
    refine .look hstore fun m hm => ih m ⟨hm.trees, fun r => ⟨fun code scopes name heq => ?_, ?_⟩⟩
    · exact ⟨hm.functions r code scopes name heq, .inr fun _ => trivial⟩
    · exact fun _ _ => trivial
  | allocate hc => exact .allocate (hcovers (hc 0))
  | setCell _ hc => exact .setCell _ (hcovers hc)
  | declare _ v => exact .declare _ _ v
  | scope _ _ _ ih => exact (Composed.newFrame _ _).bind fun f => ih f fun _ => trivial
  | @target _ kind scopes _ _ _ ih =>
    refine Composed.bind ?_ fun f => ih f fun _ => trivial
    unfold Run.declarationScope
    split
    · exact .varScope scopes
    · split
      · exact .result _
      · exact .look (fun _ _ => rfl) fun _ _ => .result _
  | tick => exact .tick
  | expression hn => exact .expression hn _
  | statement hn => exact .statement hn _
  | call _ args => exact .call _ _ args
  | body _ hn => exact hbody _ _ hn
  | bind _ _ ihc ihk => exact ihc.bind ihk
  | guarded _ hlimit _ ihc ihhandler => exact ihc.guarded hlimit fun x => ihhandler x trivial
  | finalized _ hn hf ih => exact ih.finalized hn hf (hfit.child? hn hf) _
  | loop _ hpaid ih => exact ih.loop hpaid
  | entered _ ih => exact (ih trivial).entered

end Built

end Untangle.Sandbox
