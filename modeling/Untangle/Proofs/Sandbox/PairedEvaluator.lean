import Untangle.Proofs.Sandbox.PairedNatives

set_option autoImplicit false

/-!
# Running code on paired machines

Code that runs on paired machines, in chains of scopes that correspond, does the same on both.  Each
construct is shown to do so if the constructs inside of it do; the evaluator then does for every depth of
nesting.

A statement may declare variables in the function around it.  That function must not be the scope that
the second machine keeps in two, because the scope in front could hide the variable.
-/

namespace Untangle.Sandbox.Pairing

variable {α β : Type} {σ : Pairing} {ls : Links} {ev : Evaluator} {c c' : ScopeChain}

/-- Chains in which statements declare variables in corresponding scopes. -/
structure Settled (σ : Pairing) (ls : Links) (c c' : ScopeChain) : Prop where
  chains : Chains σ ls c c'
  ready : Ready σ ls c
  head : ∃ f l d d', c = f :: d ∧ c' = l.target :: d' ∧ ls[f]? = some l ∧ ¬ σ.Splits f

theorem Settled.mono {ls' : Links} (hext : ls <+: ls') (h : Settled σ ls c c') :
    Settled σ ls' c c' := by
  obtain ⟨f, l, d, d', rfl, rfl, hl, hns⟩ := h.head
  exact ⟨h.chains.mono hext, h.ready.mono hext,
    f, l, d, d', rfl, rfl, getElem?_of_extends hext hl, hns⟩

/-- An evaluator that does the same on all paired machines. -/
structure Faithful (ev : Evaluator) : Prop where
  expression : ∀ (σ : Pairing) (ls : Links) (n : Node) (c c' : ScopeChain), Chains σ ls c c' →
    Follows σ ls Same (ev.expression n c) (ev.expression n c')
  statement : ∀ (σ : Pairing) (ls : Links) (n : Node) (c c' : ScopeChain), Settled σ ls c c' →
    Follows σ ls Same (ev.statement n c) (ev.statement n c')
  call : ∀ σ, Calls σ ev.call

/-- The value of a node that may have to be there. -/
theorem Faithful.part (hev : Faithful ev) (hc : Chains σ ls c c') (n : Node) (r : Role) :
    Follows σ ls Same (do ev.expression (← Run.part n r) c) (do ev.expression (← Run.part n r) c') :=
  (Follows.part n r).andThen fun ls' e hext => hev.expression σ ls' e c c' (hc.mono hext)

/-- The value of a part, and what is done with it. -/
theorem Faithful.partThen {Q : Links → α → β → Prop} {f : Value → Run α} {f' : Value → Run β}
    (hev : Faithful ev) (hc : Chains σ ls c c') (n : Node) (r : Role)
    (hf : ∀ ls' v, ls <+: ls' → Follows σ ls' Q (f v) (f' v)) :
    Follows σ ls Q (do f (← ev.expression (← Run.part n r) c))
      (do f' (← ev.expression (← Run.part n r) c')) :=
  (Follows.part n r).andThen fun ls₁ e hext₁ =>
    (hev.expression σ ls₁ e c c' (hc.mono hext₁)).andThen fun ls₂ v hext₂ =>
      hf ls₂ v (hext₁.trans hext₂)

/-- Nothing is done after a failure. -/
theorem Follows.failThen {γ : Type} {Q : Links → α → β → Prop} (f : Failure) {g : γ → Run α}
    {g' : γ → Run β} : Follows σ ls Q (Run.fail f >>= g) (Run.fail f >>= g') :=
  Follows.bind (Q := fun _ _ _ => False) (.fail f) fun _ _ _ _ h => h.elim

/-! ## Literals and functions -/

theorem Follows.literalValue (l : Literal) :
    Follows σ ls Same (Run.literalValue l) (Run.literalValue l) := by
  cases l with
  | null => exact .ret _
  | bool b => exact .ret _
  | string t => exact .ret _
  | regex p f => exact .fail _
  | number n =>
    cases n with
    | real x => exact .ret _
    | whole n =>
      simp only [Run.literalValue]
      cases Binary64.ofInt? n with
      | some x => exact .ret _
      | none => exact .stop (.same _)

theorem Follows.makeFunction (hc : Chains σ ls c c') (code : Node) :
    Follows σ ls Same (Run.makeFunction code c) (Run.makeFunction code c') := by
  unfold Run.makeFunction
  refine Follows.andThen (.allocate fun _ hext => ?_) fun _ _ _ => .ret _
  exact ⟨.closure _ _ (hc.mono hext), rfl⟩

theorem Follows.functionValue (hc : Chains σ ls c c') (code : Node) (flags : FunctionFlags) :
    Follows σ ls Same (Run.functionValue code flags c) (Run.functionValue code flags c') := by
  unfold Run.functionValue
  split
  · exact .fail _
  · exact .makeFunction hc code

theorem Follows.evaluateList (hev : Faithful ev) (hc : Chains σ ls c c') (ns : List Node) :
    Follows σ ls Same (Run.evaluateList ev c ns) (Run.evaluateList ev c' ns) := by
  induction ns generalizing ls with
  | nil => exact .ret []
  | cons n ns ih =>
    have hrest : ∀ {ls' : Links} (vs : List Value), ls <+: ls' →
        Follows σ ls' Same (do return vs ++ (← Run.evaluateList ev c ns))
          (do return vs ++ (← Run.evaluateList ev c' ns)) :=
      fun vs hext => (ih (hc.mono hext)).map _
    unfold Run.evaluateList
    split
    · exact hrest _ List.prefix_rfl
    · refine hev.partThen hc n .argument fun ls' v hext => ?_
      refine Follows.machine.bind fun ls'' m m' hext' hm => ?_
      rw [hm.resembles.elements?]
      split
      · exact hrest _ (hext.trans hext')
      · exact .failThen _
    · exact (hev.expression σ ls n c c' hc).andThen fun ls' v hext => hrest [v] hext

theorem Follows.propertyKeyText (hev : Faithful ev) (hc : Chains σ ls c c') (computed : Bool)
    (k : Node) :
    Follows σ ls Same (Run.propertyKeyText ev computed k c)
      (Run.propertyKeyText ev computed k c') := by
  unfold Run.propertyKeyText
  split
  · exact (hev.expression σ ls k c c' hc).andThen fun _ v _ => .textOf v
  · split
    · exact .ret _
    · exact (Follows.literalValue _).andThen fun _ v _ => .textOf v
    · exact .stop (.same _)

theorem Follows.putProperties (hev : Faithful ev) (hc : Chains σ ls c c') (ns : List Node)
    (d : Dict Text Value) :
    Follows σ ls Same (Run.putProperties ev c ns d) (Run.putProperties ev c' ns d) := by
  induction ns generalizing ls d with
  | nil => exact .ret d
  | cons p ns ih =>
    unfold Run.putProperties
    split
    · refine (Follows.part p .key).andThen fun ls₁ k hext₁ =>
        (Follows.propertyKeyText hev (hc.mono hext₁) _ k).andThen fun ls₂ key hext₂ => ?_
      have hc₂ := hc.mono (hext₁.trans hext₂)
      exact hev.partThen hc₂ p .value fun ls₃ v hext₃ => ih (hc₂.mono hext₃) _
    · exact .fail _
    · exact .fail _

theorem Follows.templateValue (hev : Faithful ev) (hc : Chains σ ls c c') (qs es : List Node)
    (acc : Text) :
    Follows σ ls Same (Run.templateValue ev c qs es acc) (Run.templateValue ev c' qs es acc) := by
  induction qs generalizing ls es acc with
  | nil => exact .ret acc
  | cons q qs ih =>
    unfold Run.templateValue
    split
    · cases es with
      | nil => exact ih hc [] _
      | cons e es =>
        exact (hev.expression σ ls e c c' hc).andThen fun ls₁ v hext₁ =>
          (Follows.textOf v).andThen fun ls₂ t hext₂ => ih (hc.mono (hext₁.trans hext₂)) es _
    · exact .fail _

/-! ## Members and targets -/

theorem Follows.memberKey (hev : Faithful ev) (hc : Chains σ ls c c') (computed : Bool) (n : Node) :
    Follows σ ls Same (Run.memberKey ev computed n c) (Run.memberKey ev computed n c') := by
  unfold Run.memberKey
  split
  · exact hev.partThen hc n .property fun _ v _ => .textOf v
  · exact .partName n .property

theorem Follows.memberValue (hev : Faithful ev) (hc : Chains σ ls c c') (computed : Bool)
    (n : Node) :
    Follows σ ls Same (Run.memberValue ev computed n c) (Run.memberValue ev computed n c') :=
  hev.partThen hc n .object fun _ object hext =>
    (Follows.memberKey hev (hc.mono hext) computed n).andThen fun _ key _ => .getProperty object key

theorem Follows.readTarget (hev : Faithful ev) (hc : Chains σ ls c c') (target : Node) :
    Follows σ ls Same (Run.readTarget ev target c) (Run.readTarget ev target c') := by
  unfold Run.readTarget
  split
  · exact .lookup hc _
  · exact .memberValue hev hc _ target
  · exact .fail _

theorem Follows.writeTarget (hev : Faithful ev) (hc : Chains σ ls c c') (target : Node) (v : Value) :
    Follows σ ls Same (Run.writeTarget ev target v c) (Run.writeTarget ev target v c') := by
  unfold Run.writeTarget
  split
  · exact .assign hc _ v
  · exact hev.partThen hc target .object fun _ object hext =>
      (Follows.memberKey hev (hc.mono hext) _ target).andThen fun _ key _ =>
        .putProperty object key v
  · exact .fail _

theorem Follows.deleteTarget (hev : Faithful ev) (hc : Chains σ ls c c') (target : Node) :
    Follows σ ls Same (Run.deleteTarget ev target c) (Run.deleteTarget ev target c') := by
  unfold Run.deleteTarget
  split
  · refine hev.partThen hc target .object fun ls' object hext => ?_
    split
    · exact (Follows.memberKey hev (hc.mono hext) _ target).andThen fun _ key _ =>
        (Follows.deleteOwn _ key).andThen fun _ _ _ => .ret _
    · exact .ret _
  · exact .ret _

/-! ## Operators -/

theorem Follows.typeofValue (hev : Faithful ev) (hc : Chains σ ls c c') (argument : Node) :
    Follows σ ls Same (Run.typeofValue ev argument c) (Run.typeofValue ev argument c') := by
  have hvalue : ∀ {ls' : Links}, ls <+: ls' → Follows σ ls' Same
      (do
        let v ← ev.expression argument c
        return Value.string (typeOf (← get).heap v))
      (do
        let v ← ev.expression argument c'
        return Value.string (typeOf (← get).heap v)) := by
    intro ls' hext
    refine (hev.expression σ ls' argument c c' (hc.mono hext)).andThen fun _ v _ =>
      Follows.machine.bind fun _ m m' _ hm => ?_
    rw [hm.resembles.typeOf]
    exact .ret _
  unfold Run.typeofValue
  split
  · refine (Follows.isBound hc _).andThen fun ls' bound hext => ?_
    split
    · exact hvalue hext
    · exact .ret _
  · exact hvalue List.prefix_rfl

theorem Follows.complementOf (v : Value) :
    Follows σ ls Same (Run.complementOf v) (Run.complementOf v) := by
  have hword : Follows σ ls Same (Run.reading fun h => toInt32 h v) (Run.reading fun h => toInt32 h v) :=
    .reading fun _ _ hh => hh.toInt32 v
  exact hword.map _

theorem Follows.unaryValue (hev : Faithful ev) (hc : Chains σ ls c c') (op : UnaryOp)
    (argument : Node) :
    Follows σ ls Same (Run.unaryValue ev op argument c) (Run.unaryValue ev op argument c') := by
  unfold Run.unaryValue
  split
  · exact .typeofValue hev hc argument
  · exact .deleteTarget hev hc argument
  · refine (hev.expression σ ls argument c c' hc).andThen fun _ v _ => ?_
    split
    · exact (Follows.numberOf v).map _
    · exact (Follows.numberOf v).map _
    · exact .ret _
    · exact .complementOf v
    · exact .ret _
    · exact .fail _

theorem Follows.updateValue (hev : Faithful ev) (hc : Chains σ ls c c') (op : UpdateOp)
    (before : Bool) (target : Node) :
    Follows σ ls Same (Run.updateValue ev op before target c)
      (Run.updateValue ev op before target c') :=
  (Follows.readTarget hev hc target).andThen fun _ v hext₁ =>
    (Follows.numberOf v).andThen fun _ _ hext₂ =>
      (Follows.writeTarget hev (hc.mono (hext₁.trans hext₂)) target _).andThen fun _ _ _ => .ret _

theorem Follows.logicalValue (hev : Faithful ev) (hc : Chains σ ls c c') (op : LogicalOp)
    (n : Node) :
    Follows σ ls Same (Run.logicalValue ev op n c) (Run.logicalValue ev op n c') := by
  refine hev.partThen hc n .left fun ls' l hext => ?_
  split
  · exact .ret _
  · exact hev.part (hc.mono hext) n .right
  · exact .fail _

theorem Follows.assignmentValue (hev : Faithful ev) (hc : Chains σ ls c c') (op : AssignOp)
    (n : Node) :
    Follows σ ls Same (Run.assignmentValue ev op n c) (Run.assignmentValue ev op n c') := by
  refine (Follows.part n .left).andThen fun ls₁ target hext₁ =>
    (Follows.part n .right).andThen fun ls₂ right hext₂ => ?_
  have hc₂ := hc.mono (hext₁.trans hext₂)
  have hwrite : ∀ {ls' : Links} (v : Value), ls₂ <+: ls' → Follows σ ls' Same
      (do Run.writeTarget ev target v c; return v) (do Run.writeTarget ev target v c'; return v) :=
    fun v hext => (Follows.writeTarget hev (hc₂.mono hext) target v).andThen fun _ _ _ => .ret v
  have hassign : ∀ {ls' : Links}, ls₂ <+: ls' → Follows σ ls' Same
      (do let v ← ev.expression right c; Run.writeTarget ev target v c; return v)
      (do let v ← ev.expression right c'; Run.writeTarget ev target v c'; return v) :=
    fun hext => (hev.expression σ _ right c c' (hc₂.mono hext)).andThen fun _ v hext' =>
      hwrite v (hext.trans hext')
  cases op with
  | plain => exact hassign List.prefix_rfl
  | logical op =>
    refine (Follows.readTarget hev hc₂ target).andThen fun ls₃ current hext₃ => ?_
    split
    · exact .ret _
    · exact hassign hext₃
  | compound op =>
    refine (Follows.readTarget hev hc₂ target).andThen fun ls₃ current hext₃ =>
      (hev.expression σ ls₃ right c c' (hc₂.mono hext₃)).andThen fun ls₄ r hext₄ =>
        (Follows.binaryOperation op current r).andThen fun ls₅ v hext₅ =>
          hwrite v ((hext₃.trans hext₄).trans hext₅)

/-! ## Calls -/

theorem Follows.notCallable (f : Value) :
    Follows σ ls Same (Run.notCallable f : Run α) (Run.notCallable f) := by
  refine Follows.machine.bind fun _ m m' _ hm => ?_
  rw [hm.resembles.typeOf]
  exact .raise _ _

theorem Follows.callValue (hev : Faithful ev) (hc : Chains σ ls c c') (n : Node) :
    Follows σ ls Same (Run.callValue ev n c) (Run.callValue ev n c') := by
  have hcall : ∀ {ls' : Links} (f this : Value), ls <+: ls' → Follows σ ls' Same
      (do
        let args ← Run.evaluateList ev c (n.childrenAt .arguments)
        if (← get).heap.isCallable f then ev.call f this args else Run.notCallable f)
      (do
        let args ← Run.evaluateList ev c' (n.childrenAt .arguments)
        if (← get).heap.isCallable f then ev.call f this args else Run.notCallable f) := by
    intro ls' f this hext
    refine (Follows.evaluateList hev (hc.mono hext) _).andThen fun _ args _ =>
      Follows.machine.bind fun _ m m' _ hm => ?_
    rw [hm.resembles.isCallable]
    split
    · exact (hev.call σ f this args).follows
    · exact .notCallable f
  refine (Follows.part n .callee).andThen fun ls₁ callee hext₁ => ?_
  have hc₁ := hc.mono hext₁
  split
  · refine hev.partThen hc₁ callee .object fun ls₂ this hext₂ =>
      (Follows.memberKey hev (hc₁.mono hext₂) _ callee).andThen fun ls₃ key hext₃ =>
        (Follows.getProperty this key).andThen fun ls₄ f hext₄ => ?_
    exact hcall f this (hext₁.trans (hext₂.trans (hext₃.trans hext₄)))
  · exact (hev.expression σ ls₁ callee c c' hc₁).andThen fun ls₂ f hext₂ =>
      hcall f .undefined (hext₁.trans hext₂)

theorem Follows.bindParameters (hev : Faithful ev) (hc : Chains σ ls c c') {f : FrameId} {l : Link}
    (hl : ls[f]? = some l) (hns : ¬ σ.Splits f) (args : List Value) (ps : List Node) (i : Nat) :
    Follows σ ls Same (Run.bindParameters ev f c args ps i)
      (Run.bindParameters ev l.target c' args ps i) := by
  induction ps generalizing ls i with
  | nil => exact .ret ()
  | cons p ps ih =>
    have hbind : ∀ {ls' : Links} (name : Text) (v : Value), ls <+: ls' → Follows σ ls' Same
        (do Run.declare f name v; Run.bindParameters ev f c args ps (i + 1))
        (do Run.declare l.target name v; Run.bindParameters ev l.target c' args ps (i + 1)) :=
      fun name v hext =>
        (Follows.declare (getElem?_of_extends hext hl) hns name v).andThen fun _ _ hext' =>
          ih (hc.mono (hext.trans hext')) (getElem?_of_extends (hext.trans hext') hl) _
    unfold Run.bindParameters
    simp only
    split
    · exact hbind _ _ List.prefix_rfl
    · refine (Follows.part p .left).andThen fun ls₁ left hext₁ => ?_
      split
      · split
        · exact hev.partThen (hc.mono hext₁) p .right fun ls₂ v hext₂ =>
            hbind _ v (hext₁.trans hext₂)
        · exact hbind _ _ hext₁
      · exact .failThen _
    · refine (Follows.part p .argument).andThen fun ls₁ argument hext₁ => ?_
      split
      · exact (Follows.newArray _).andThen fun ls₂ v hext₂ => hbind _ v (hext₁.trans hext₂)
      · exact .failThen _
    · exact .failThen _

/-- A function declared in the function around. -/
theorem Follows.declareFunction (hc : Chains σ ls c c') (hready : Ready σ ls c) (s : Node) :
    Follows σ ls Same
      (do
        let f ← Run.varScope c
        let name ← Run.partName s .id
        Run.declare f name (← Run.makeFunction s c))
      (do
        let f ← Run.varScope c'
        let name ← Run.partName s .id
        Run.declare f name (← Run.makeFunction s c')) := by
  refine (Follows.varScope hc hready).bind fun ls₁ f f' hext₁ hf => ?_
  obtain ⟨l, hl, hns, rfl⟩ := hf
  refine (Follows.partName s .id).andThen fun ls₂ name hext₂ => ?_
  refine (Follows.makeFunction (hc.mono (hext₁.trans hext₂)) s).andThen fun ls₃ v hext₃ => ?_
  exact .declare (getElem?_of_extends (hext₂.trans hext₃) hl) hns name v

theorem Follows.hoist (hc : Chains σ ls c c') (hready : Ready σ ls c) (ns : List Node) :
    Follows σ ls Same (Run.hoist c ns) (Run.hoist c' ns) := by
  induction ns generalizing ls with
  | nil => exact .ret ()
  | cons s ns ih =>
    unfold Run.hoist
    split
    · refine (Follows.partName s .id).andThen fun ls₁ name hext₁ =>
        (Follows.varScope (hc.mono hext₁) (hready.mono hext₁)).bind fun ls₂ f f' hext₂ hf => ?_
      obtain ⟨l, hl, hns, rfl⟩ := hf
      have hext := hext₁.trans hext₂
      refine (Follows.makeFunction (hc.mono hext) s).andThen fun ls₃ v hext₃ =>
        (Follows.declare (getElem?_of_extends hext₃ hl) hns name v).andThen fun ls₄ _ hext₄ => ?_
      have hext' := hext.trans (hext₃.trans hext₄)
      exact ih (hc.mono hext') (hready.mono hext')
    · exact ih hc hready

theorem Follows.runAll (hev : Faithful ev) (hc : Settled σ ls c c') (ns : List Node) :
    Follows σ ls Same (Run.runAll ev c ns) (Run.runAll ev c' ns) := by
  induction ns generalizing ls with
  | nil => exact .ret ()
  | cons s ns ih =>
    exact (hev.statement σ ls s c c' hc).andThen fun _ _ hext => ih (hc.mono hext)

theorem Follows.runBody (hev : Faithful ev) (hc : Settled σ ls c c') (body : Node) :
    Follows σ ls Same (Run.runBody ev body c) (Run.runBody ev body c') := by
  unfold Run.runBody
  split
  · refine (Follows.hoist hc.chains hc.ready _).andThen fun ls₁ _ hext₁ => .tryCatch ?_ ?_
    · exact (Follows.runAll hev (hc.mono hext₁) _).andThen fun _ _ _ => .ret _
    · intro ls₂ e e' _ he
      cases he with
      | same e =>
        cases e with
        | returned v => exact .ret v
        | _ => exact .stop (.same _)
      | limit l l' => exact .stop (.limit l l')
  · exact hev.expression σ ls body c c' hc.chains

theorem Follows.currentCode (code : Node) :
    Follows σ ls Same (Run.currentCode code) (Run.currentCode code) := by
  refine Follows.machine.bind fun _ m m' _ hm => ?_
  rw [hm.trees, hm.trees']
  exact .ret _

/-- The pairing while functions are active in each other to another depth. -/
def atDepth (σ : Pairing) (depth : Nat) : Pairing := { σ with depth := depth }

theorem Settled.atDepth (h : Settled σ ls c c') (depth : Nat) :
    Settled (σ.atDepth depth) ls c c' :=
  ⟨h.chains.adapt rfl fun _ hg => hg, h.ready.imp id (·.adapt rfl), h.head⟩

theorem Related.atDepth {m m' : Machine} (h : Related σ ls m m') (depth : Nat) :
    Related (σ.atDepth depth) ls { m with depth := depth } { m' with depth := depth } :=
  { h with
    cells := fun r => (h.cells r).adapt rfl fun _ hg => hg
    depth := rfl
    depth' := rfl }

/-- What runs inside of a call runs one level deeper. -/
theorem Follows.deeper {b b' : Run α} (h : Follows (σ.atDepth (σ.depth + 1)) ls Same b b') :
    Follows σ ls Same
      (do
        modify fun m : Machine => { m with depth := m.depth + 1 }
        Run.thenAlways b (modify fun m : Machine => { m with depth := m.depth - 1 }))
      (do
        modify fun m : Machine => { m with depth := m.depth + 1 }
        Run.thenAlways b' (modify fun m : Machine => { m with depth := m.depth - 1 })) := by
  -- The end of the call brings back the depth that it began with.
  have hback : ∀ {ls' : Links} {n n' : Machine}, Related (σ.atDepth (σ.depth + 1)) ls' n n' →
      Related σ ls' { n with depth := n.depth - 1 } { n' with depth := n'.depth - 1 } := by
    intro ls' n n' hn
    rw [hn.depth, hn.depth']
    exact hn.atDepth σ.depth
  intro ls₁ m m' hext hm
  have hm' : Related (σ.atDepth (σ.depth + 1)) ls₁ { m with depth := m.depth + 1 }
      { m' with depth := m'.depth + 1 } := by
    rw [hm.depth, hm.depth']
    exact hm.atDepth (σ.depth + 1)
  show Outcomes σ ls₁ Same
    (Run.thenAlways b (modify fun m : Machine => { m with depth := m.depth - 1 })
      { m with depth := m.depth + 1 })
    (Run.thenAlways b' (modify fun m : Machine => { m with depth := m.depth - 1 })
      { m' with depth := m'.depth + 1 })
  unfold Run.thenAlways
  obtain ⟨a, n, b, n', ls₂, hr, hr', hext₂, hrel, hq⟩ |
    ⟨e, n, e', n', ls₂, hr, hr', hext₂, hrel, he⟩ := (h ls₁ _ _ hext hm').dest
  · rw [hr, hr']
    exact ⟨ls₂, hext₂, hback hrel, hq⟩
  · rw [hr, hr']
    exact ⟨ls₂, hext₂, hback hrel, he⟩

theorem Follows.callClosure (hev : Faithful ev) (hc : Chains σ ls c c') (f : Value) (code : Node)
    (name : Text) (this : Value) (args : List Value) :
    Follows σ ls Same (Run.callClosure ev f code c name this args)
      (Run.callClosure ev f code c' name this args) := by
  refine Follows.machine.bind fun ls₁ m m' hext₁ hm => ?_
  rw [hm.depth, hm.depth', hm.maxDepth, hm.maxDepth']
  split
  · exact .bind (Q := fun _ _ _ => False) (.stop (.same _)) fun _ _ _ _ h => h.elim
  refine (Follows.currentCode code).andThen fun ls₃ code hext₃ => ?_
  refine (Follows.newFrame true false).bind fun ls₄ frame frame' hext₄ hframe => ?_
  obtain ⟨l, hl, hns, rfl, hfun⟩ := hframe
  have hinner : Settled σ ls₄ (frame :: c) (l.target :: c') :=
    ⟨.whole hl hns (hc.mono (hext₁.trans (hext₃.trans hext₄))),
      .inr (.here hl hfun hns), frame, l, c, c', rfl, rfl, hl, hns⟩
  have hrun : ∀ {ls' : Links}, ls₄ <+: ls' → Follows σ ls' Same
      (do
        Run.bindParameters ev frame (frame :: c) args (code.childrenAt .params) 0
        let body ← Run.part code .body
        modify fun m : Machine => { m with depth := m.depth + 1 }
        Run.thenAlways (Run.runBody ev body (frame :: c))
          (modify fun m : Machine => { m with depth := m.depth - 1 }))
      (do
        Run.bindParameters ev l.target (l.target :: c') args (code.childrenAt .params) 0
        let body ← Run.part code .body
        modify fun m : Machine => { m with depth := m.depth + 1 }
        Run.thenAlways (Run.runBody ev body (l.target :: c'))
          (modify fun m : Machine => { m with depth := m.depth - 1 })) := by
    intro ls' hext
    have hinner' := hinner.mono hext
    refine (Follows.bindParameters hev hinner'.chains (getElem?_of_extends hext hl) hns _ _ _).andThen
      fun _ _ hext₅ => (Follows.part code .body).andThen fun _ body hext₆ => .deeper ?_
    exact .runBody hev ((hinner'.mono (hext₅.trans hext₆)).atDepth _) body
  have hdeclare : ∀ {ls' : Links} (name : Text) (v : Value), ls₄ <+: ls' →
      Follows σ ls' Same (Run.declare frame name v) (Run.declare l.target name v) :=
    fun name v hext => .declare (getElem?_of_extends hext hl) hns name v
  split
  · refine (hdeclare _ this List.prefix_rfl).andThen fun ls₅ _ hext₅ =>
      (Follows.newArray _).andThen fun ls₆ own hext₆ =>
        (hdeclare _ own (hext₅.trans hext₆)).andThen fun ls₇ _ hext₇ => ?_
    have hext := (hext₅.trans hext₆).trans hext₇
    split
    · exact (hdeclare name f hext).andThen fun _ _ hext₈ => hrun (hext.trans hext₈)
    · exact hrun hext
  · exact hrun List.prefix_rfl

theorem Follows.callFunction (hev : Faithful ev) (f this : Value) (args : List Value) :
    Follows σ ls Same (Run.callFunction ev f this args) (Run.callFunction ev f this args) := by
  cases f with
  | object r =>
    refine (Follows.cell r).bind fun ls₁ d d' _ hd => ?_
    obtain ⟨b, p⟩ := d
    obtain ⟨b', p'⟩ := d'
    obtain ⟨hb, rfl⟩ := hd
    cases hb with
    | plain => exact .notCallable _
    | array es => exact .notCallable _
    | native fn => exact .applyNative (hev.call σ) fn this args
    | closure code name hc => exact .callClosure hev hc _ code name this args
  | _ => exact .notCallable _

/-! ## Expressions -/

theorem Follows.sequenceValue (hev : Faithful ev) (hc : Chains σ ls c c') (ns : List Node)
    (v : Value) :
    Follows σ ls Same (Run.sequenceValue ev c ns v) (Run.sequenceValue ev c' ns v) := by
  induction ns generalizing ls v with
  | nil => exact .ret v
  | cons n ns ih =>
    exact (hev.expression σ ls n c c' hc).andThen fun _ w hext => ih (hc.mono hext) w

theorem Follows.thisValue (hc : Chains σ ls c c') :
    Follows σ ls Same (Run.thisValue c) (Run.thisValue c') := by
  refine Follows.machine.bind fun ls₁ m m' hext hm => ?_
  obtain ⟨hf, hf'⟩ | ⟨f, g, hf, hf', -, hvar⟩ := hm.findScope (hc.mono hext) "this"
  · rw [hf, hf']
    exact .ret _
  · rw [hf, hf']
    simp only [hvar]
    exact .ret _

theorem Follows.evaluateExpression (hev : Faithful ev) (hc : Chains σ ls c c') (n : Node) :
    Follows σ ls Same (Run.evaluateExpression ev n c) (Run.evaluateExpression ev n c') := by
  refine Follows.tick.andThen fun ls₁ _ hext₁ => ?_
  replace hc := hc.mono hext₁
  split
  · exact .literalValue _
  · exact .lookup hc _
  · exact .thisValue hc
  · exact (Follows.evaluateList hev hc _).andThen fun _ vs _ => .newArray _
  · exact (Follows.putProperties hev hc _ _).andThen fun _ d _ => .newObject d
  · exact .functionValue hc n _
  · exact .functionValue hc n _
  · exact (Follows.part n .argument).andThen fun _ a hext => .unaryValue hev (hc.mono hext) _ a
  · exact (Follows.part n .argument).andThen fun _ a hext => .updateValue hev (hc.mono hext) _ _ a
  · exact hev.partThen hc n .left fun _ l hext => hev.partThen (hc.mono hext) n .right
      fun _ r _ => .binaryOperation _ l r
  · exact .logicalValue hev hc _ n
  · refine hev.partThen hc n .test fun _ v hext => ?_
    split
    · exact hev.part (hc.mono hext) n .consequent
    · exact hev.part (hc.mono hext) n .alternate
  · exact .assignmentValue hev hc _ n
  · exact .sequenceValue hev hc _ _
  · exact .memberValue hev hc _ n
  · exact .callValue hev hc n
  · exact (Follows.templateValue hev hc _ _ _).map _
  · exact .stop (.same _)
  · exact .fail _

/-! ## Statements -/

theorem Follows.declareVariable (hev : Faithful ev) (hc : Chains σ ls c c') {f : FrameId} {l : Link}
    (hl : ls[f]? = some l) (hns : ¬ σ.Splits f) (d : Node) :
    Follows σ ls Same (Run.declareVariable ev d c f) (Run.declareVariable ev d c' l.target) := by
  refine (Follows.part d .id).andThen fun ls₁ id hext₁ => ?_
  split
  · exact .fail _
  · split
    · exact (hev.expression σ ls₁ _ c c' (hc.mono hext₁)).andThen fun _ v hext₂ =>
        .declare (getElem?_of_extends (hext₁.trans hext₂) hl) hns _ v
    · refine Follows.machine.bind fun ls₂ m m' hext₂ hm => ?_
      have hl₂ := getElem?_of_extends (hext₁.trans hext₂) hl
      rw [hm.whole hl₂ hns]
      split
      · exact .declare hl₂ hns _ _
      · exact .ret ()

theorem Follows.declareAll (hev : Faithful ev) (hc : Chains σ ls c c') {f : FrameId} {l : Link}
    (hl : ls[f]? = some l) (hns : ¬ σ.Splits f) (ds : List Node) :
    Follows σ ls Same (Run.declareAll ev c f ds) (Run.declareAll ev c' l.target ds) := by
  induction ds generalizing ls with
  | nil => exact .ret ()
  | cons d ds ih =>
    exact (Follows.declareVariable hev hc hl hns d).andThen fun _ _ hext =>
      ih (hc.mono hext) (getElem?_of_extends hext hl)

/-- A new scope inside of settled ones. -/
theorem Follows.settledBlock (hc : Settled σ ls c c') :
    Follows σ ls (fun ls d d' => Settled σ ls d d') (Run.blockScope c) (Run.blockScope c') := by
  refine (Follows.blockScope hc.chains).weaken fun ls' d d' hext hd => ?_
  obtain ⟨hchains, f, f', l, rfl, rfl, hl, hns, rfl⟩ := hd
  refine ⟨hchains, ?_, f, l, c, c', rfl, rfl, hl, hns⟩
  exact (hc.ready.mono hext).imp id fun hg => .there hns hg

theorem Follows.runBlock (hev : Faithful ev) (hc : Settled σ ls c c') (ns : List Node) :
    Follows σ ls Same (Run.runBlock ev ns c) (Run.runBlock ev ns c') :=
  (Follows.settledBlock hc).bind fun _ _ _ _ hd =>
    (Follows.hoist hd.chains hd.ready ns).andThen fun _ _ hext => .runAll hev (hd.mono hext) ns

theorem Follows.runRound (hev : Faithful ev) (hc : Settled σ ls c c') (body : Node) :
    Follows σ ls Same (Run.runRound ev body c) (Run.runRound ev body c') := by
  refine .tryCatch ((hev.statement σ ls body c c' hc).andThen fun _ _ _ => .ret true) ?_
  intro ls₂ e e' _ he
  cases he with
  | same e =>
    cases e with
    | broken => exact .ret false
    | continued => exact .ret true
    | _ => exact .stop (.same _)
  | limit l l' => exact .stop (.limit l l')

theorem Follows.rounds {r r' : Run Bool} (h : Follows σ ls Same r r') (fuel : Nat) :
    Follows σ ls Same (Run.rounds r fuel) (Run.rounds r' fuel) := by
  induction fuel generalizing ls with
  | zero => exact .ret ()
  | succ fuel ih =>
    refine h.andThen fun ls' more hext => ?_
    split
    · exact ih (h.mono hext)
    · exact .ret ()

theorem Follows.repeatRounds {r r' : Run Bool} (h : Follows σ ls Same r r') :
    Follows σ ls Same (Run.repeatRounds r) (Run.repeatRounds r') := by
  refine Follows.machine.bind fun ls' m m' hext hm => ?_
  have hfuel : m'.maxSteps + 2 - m'.steps = m.maxSteps + 2 - m.steps := by
    rw [hm.steps, hm.budget, hm.budget']
    omega
  rw [hfuel]
  exact .rounds (h.mono hext) _

theorem Follows.testHolds (hev : Faithful ev) (hc : Chains σ ls c c') (test : Option Node) :
    Follows σ ls Same (Run.testHolds ev test c) (Run.testHolds ev test c') := by
  cases test with
  | some t => exact (hev.expression σ ls t c c' hc).map _
  | none => exact .ret true

theorem Follows.runInit (hev : Faithful ev) (hc : Settled σ ls c c') (init : Option Node) :
    Follows σ ls Same (Run.runInit ev init c) (Run.runInit ev init c') := by
  cases init with
  | none => exact .ret ()
  | some n =>
    simp only [Run.runInit]
    split
    · exact hev.statement σ ls n c c' hc
    · exact (hev.expression σ ls n c c' hc.chains).andThen fun _ _ _ => .ret ()

/-- The update of a `for` loop, after which the loop goes on. -/
theorem Follows.runUpdate (hev : Faithful ev) (hc : Chains σ ls c c') (update : Option Node) :
    Follows σ ls Same
      (do
        match update with
        | some u => let _ ← ev.expression u c
        | none => pure ()
        return true)
      (do
        match update with
        | some u => let _ ← ev.expression u c'
        | none => pure ()
        return true) := by
  cases update with
  | some u => exact (hev.expression σ ls u c c' hc).andThen fun _ _ _ => .ret true
  | none => exact .ret true

theorem Follows.runFor (hev : Faithful ev) (hc : Settled σ ls c c') (n : Node) :
    Follows σ ls Same (Run.runFor ev n c) (Run.runFor ev n c') := by
  refine (Follows.settledBlock hc).bind fun ls₁ d d' _ hd => ?_
  refine (Follows.runInit hev hd _).andThen fun ls₂ _ hext₂ => ?_
  refine (Follows.part n .body).andThen fun ls₃ body hext₃ => .repeatRounds ?_
  replace hd := hd.mono (hext₂.trans hext₃)
  refine (Follows.testHolds hev hd.chains _).andThen fun ls₄ holds hext₄ => ?_
  split
  · exact .ret false
  refine (Follows.runRound hev (hd.mono hext₄) body).andThen fun ls₅ more hext₅ => ?_
  split
  · exact .ret false
  exact .runUpdate hev (hd.mono (hext₄.trans hext₅)).chains _

theorem Follows.runWhile (hev : Faithful ev) (hc : Settled σ ls c c') (n : Node) :
    Follows σ ls Same (Run.runWhile ev n c) (Run.runWhile ev n c') := by
  refine (Follows.part n .test).andThen fun ls₁ test hext₁ => ?_
  refine (Follows.part n .body).andThen fun ls₂ body hext₂ => .repeatRounds ?_
  replace hc := hc.mono (hext₁.trans hext₂)
  refine (hev.expression σ ls₂ test c c' hc.chains).andThen fun ls₃ v hext₃ => ?_
  split
  · exact .runRound hev (hc.mono hext₃) body
  · exact .ret false

theorem Follows.runDoWhile (hev : Faithful ev) (hc : Settled σ ls c c') (n : Node) :
    Follows σ ls Same (Run.runDoWhile ev n c) (Run.runDoWhile ev n c') := by
  refine (Follows.part n .test).andThen fun ls₁ test hext₁ => ?_
  refine (Follows.part n .body).andThen fun ls₂ body hext₂ => .repeatRounds ?_
  replace hc := hc.mono (hext₁.trans hext₂)
  refine (Follows.runRound hev hc body).andThen fun ls₃ more hext₃ => ?_
  split
  · exact (hev.expression σ ls₃ test c c' (hc.mono hext₃).chains).map _
  · exact .ret false

theorem Follows.matchingCases (hev : Faithful ev) (hc : Chains σ ls c c') (v : Value)
    (cases : List Node) :
    Follows σ ls Same (Run.matchingCases ev v c cases) (Run.matchingCases ev v c' cases) := by
  induction cases generalizing ls with
  | nil => exact .ret none
  | cons k cases ih =>
    unfold Run.matchingCases
    split
    · refine (hev.expression σ ls _ c c' hc).andThen fun ls₁ w hext₁ => ?_
      split
      · exact .ret _
      · exact ih (hc.mono hext₁)
    · exact ih hc

theorem Follows.runSwitch (hev : Faithful ev) (hc : Settled σ ls c c') (n : Node) :
    Follows σ ls Same (Run.runSwitch ev n c) (Run.runSwitch ev n c') := by
  refine hev.partThen hc.chains n .discriminant fun ls₁ v hext₁ => ?_
  replace hc := hc.mono hext₁
  refine (Follows.matchingCases hev hc.chains v _).andThen fun ls₂ taken hext₂ => ?_
  simp only
  split
  · exact .ret ()
  refine (Follows.settledBlock (hc.mono hext₂)).bind fun ls₃ d d' _ hd => ?_
  refine .tryCatch (.runAll hev hd _) ?_
  intro ls₄ e e' _ he
  cases he with
  | same e =>
    cases e with
    | broken => exact .ret ()
    | _ => exact .stop (.same _)
  | limit l l' => exact .stop (.limit l l')

theorem Follows.runHandler (hev : Faithful ev) (hc : Settled σ ls c c') (handler : Node)
    (v : Value) :
    Follows σ ls Same (Run.runHandler ev handler v c) (Run.runHandler ev handler v c') := by
  refine (Follows.settledBlock hc).bind fun ls₁ d d' _ hd => ?_
  have hbody : ∀ {ls' : Links}, ls₁ <+: ls' → Follows σ ls' Same
      (do ev.statement (← Run.part handler .body) d)
      (do ev.statement (← Run.part handler .body) d') :=
    fun hext => (Follows.part handler .body).andThen fun _ body hext' =>
      hev.statement σ _ body d d' (hd.mono (hext.trans hext'))
  obtain ⟨f, l, e, e', rfl, rfl, hl, hns⟩ := hd.head
  cases handler.child? .param with
  | none => exact hbody List.prefix_rfl
  | some p =>
    simp only
    split
    · exact (Follows.declare hl hns _ v).andThen fun _ _ hext => hbody hext
    · exact .failThen _

theorem Follows.runTry (hev : Faithful ev) (hc : Settled σ ls c c') (n : Node) :
    Follows σ ls Same (Run.runTry ev n c) (Run.runTry ev n c') := by
  refine (Follows.part n .block).andThen fun ls₁ block hext₁ => ?_
  replace hc := hc.mono hext₁
  simp only
  split
  case' h_1 => refine .thenAlways (fun _ _ _ _ _ h => h) ?_ (hev.statement σ ls₁ _ c c' hc)
  -- What is guarded is the same with and without a finalizer.
  all_goals
    refine .tryCatch (hev.statement σ ls₁ block c c' hc) ?_
    intro ls₂ e e' hext₂ he
    cases he with
    | same e =>
      split
      · exact .runHandler hev (hc.mono hext₂) _ _
      · exact .stop (.same _)
    | limit l l' => exact .stop (.limit l l')

theorem Follows.runJump (n : Node) (labelled : Failure) (jump : Abrupt) :
    Follows σ ls Same (Run.runJump n labelled jump) (Run.runJump n labelled jump) := by
  unfold Run.runJump
  split
  · exact .fail _
  · exact .stop (.same _)

theorem Follows.executeStatement (hev : Faithful ev) (hc : Settled σ ls c c') (n : Node) :
    Follows σ ls Same (Run.executeStatement ev n c) (Run.executeStatement ev n c') := by
  refine Follows.tick.andThen fun ls₁ _ hext₁ => ?_
  replace hc := hc.mono hext₁
  split
  · exact hev.partThen hc.chains n .expression fun _ _ _ => .ret ()
  · split
    · refine (Follows.varScope hc.chains hc.ready).bind fun ls₂ f f' hext₂ hf => ?_
      obtain ⟨l, hl, hns, rfl⟩ := hf
      exact .declareAll hev (hc.chains.mono hext₂) hl hns _
    · obtain ⟨f, l, d, d', rfl, rfl, hl, hns⟩ := hc.head
      exact .declareAll hev hc.chains hl hns _
  · exact .declareFunction hc.chains hc.ready n
  · exact .runBlock hev hc _
  · exact .ret ()
  · refine hev.partThen hc.chains n .test fun ls₂ v hext₂ => ?_
    split
    · exact (Follows.part n .consequent).andThen fun _ s hext₃ =>
        hev.statement σ _ s c c' (hc.mono (hext₂.trans hext₃))
    · split
      · exact hev.statement σ ls₂ _ c c' (hc.mono hext₂)
      · exact .ret ()
  · split
    · exact (hev.expression σ ls₁ _ c c' hc.chains).andThen fun _ v _ => .stop (.same _)
    · exact .stop (.same _)
  · exact .runFor hev hc n
  · exact .runWhile hev hc n
  · exact .runDoWhile hev hc n
  · exact .runJump n _ _
  · exact .runJump n _ _
  · exact .runSwitch hev hc n
  · exact hev.partThen hc.chains n .argument fun _ v _ => .stop (.same _)
  · exact .runTry hev hc n
  · exact .stop (.same _)
  · exact .fail _

/-- Code does the same on all paired machines, to whatever depth its constructs are nested. -/
theorem evaluator_faithful (depth : Nat) : Faithful (evaluator depth) := by
  induction depth with
  | zero =>
    exact ⟨fun _ _ _ _ _ _ => .stop (.same _), fun _ _ _ _ _ _ => .stop (.same _),
      fun _ _ _ _ => .stop (.same _)⟩
  | succ depth ih =>
    exact ⟨fun _ _ n _ _ hc => .evaluateExpression ih hc n,
      fun _ _ n _ _ hc => .executeStatement ih hc n,
      fun _ f this args => .callFunction ih f this args⟩

end Untangle.Sandbox.Pairing
