import Untangle.Sandbox.Global
import Untangle.Sandbox.Property

set_option autoImplicit false

/-!
# Machines that run the same code in scopes of their own

Two machines are paired when they have the same objects and the same variables, although their scopes
are numbered differently.  The second machine may have scopes that the first one has not: scopes whose
contents nothing changes, which may stand in its chains as long as they are empty, and one scope in front
of the counterpart of a given scope that holds some of its variables.

Computations on paired machines follow each other: both end with the same value, or both stop in the
same way, and leave paired machines.  Conversions and operators look at objects, but never at the scopes of
a function, so on stores that differ in nothing else they give the same results.  The rules here are those of the monad and of the primitive
operations on scopes.
-/

namespace Untangle.Sandbox

/-! ## Stores that differ in the scopes of functions -/

/-- Objects that differ at most in the scopes around a function. -/
inductive Body.Resembles : Body → Body → Prop
  | plain : Resembles .plain .plain
  | array (es : Array Value) : Resembles (.array es) (.array es)
  | native (fn : Native) : Resembles (.native fn) (.native fn)
  | closure (code : Node) (c c' : ScopeChain) (name : Text) :
      Resembles (.closure code c name) (.closure code c' name)

/-- Stores whose objects differ at most in the scopes around functions. -/
structure Heap.Resembles (h h' : Heap) : Prop where
  size : h.size = h'.size
  body : ∀ r, (h.getD r default).body.Resembles (h'.getD r default).body

namespace Heap.Resembles

variable {h h' : Heap}

theorem elements? (hh : Heap.Resembles h h') (v : Value) : h.elements? v = h'.elements? v := by
  cases v with
  | object r =>
    have hr := hh.body r
    simp only [Heap.elements?]
    generalize (h.getD r default).body = b at hr
    generalize (h'.getD r default).body = b' at hr
    cases hr <;> rfl
  | _ => rfl

theorem isCallable (hh : Heap.Resembles h h') (v : Value) : h.isCallable v = h'.isCallable v := by
  cases v with
  | object r =>
    have hr := hh.body r
    simp only [Heap.isCallable]
    generalize (h.getD r default).body = b at hr
    generalize (h'.getD r default).body = b' at hr
    cases hr <;> rfl
  | _ => rfl

theorem typeOf (hh : Heap.Resembles h h') (v : Value) :
    Sandbox.typeOf h v = Sandbox.typeOf h' v := by
  cases v with
  | object r => simp only [Sandbox.typeOf, hh.isCallable]
  | _ => rfl

/-! ## Conversions -/

/-- The texts of elements agree as soon as the primitive values inside of them do. -/
theorem elementTexts {fuel : Nat} (hgo : ∀ v, toPrimitiveGo h fuel v = toPrimitiveGo h' fuel v)
    (vs : List Value) : Sandbox.elementTexts h fuel vs = Sandbox.elementTexts h' fuel vs := by
  induction vs with
  | nil => simp only [Sandbox.elementTexts]
  | cons v vs ih =>
    cases v with
    | object r => simp only [Sandbox.elementTexts, hgo, ih]
    | _ => simp only [Sandbox.elementTexts, ih]

theorem toPrimitiveGo (hh : Heap.Resembles h h') (fuel : Nat) (v : Value) :
    Sandbox.toPrimitiveGo h fuel v = Sandbox.toPrimitiveGo h' fuel v := by
  induction fuel generalizing v with
  | zero => simp only [Sandbox.toPrimitiveGo]
  | succ fuel ih =>
    cases v with
    | object r =>
      have hr := hh.body r
      simp only [Sandbox.toPrimitiveGo]
      generalize (h.getD r default).body = b at hr
      generalize (h'.getD r default).body = b' at hr
      cases hr with
      | array es => simp only [elementTexts ih]
      | _ => rfl
    | _ => simp only [Sandbox.toPrimitiveGo]

theorem toPrimitive (hh : Heap.Resembles h h') (v : Value) :
    Sandbox.toPrimitive h v = Sandbox.toPrimitive h' v := by
  simp only [Sandbox.toPrimitive, nestingBound, hh.size, hh.toPrimitiveGo]

theorem toText (hh : Heap.Resembles h h') (v : Value) : Sandbox.toText h v = Sandbox.toText h' v := by
  cases v with
  | object r => simp only [Sandbox.toText, hh.toPrimitive]
  | _ => rfl

theorem toNumber (hh : Heap.Resembles h h') (v : Value) :
    Sandbox.toNumber h v = Sandbox.toNumber h' v := by
  cases v with
  | object r => simp only [Sandbox.toNumber, hh.toPrimitive]
  | _ => rfl

theorem toInteger (hh : Heap.Resembles h h') (v : Value) :
    Sandbox.toInteger h v = Sandbox.toInteger h' v := by
  simp only [Sandbox.toInteger, hh.toNumber]

theorem toUint32 (hh : Heap.Resembles h h') (v : Value) :
    Sandbox.toUint32 h v = Sandbox.toUint32 h' v := by
  simp only [Sandbox.toUint32, hh.toNumber]

theorem toInt32 (hh : Heap.Resembles h h') (v : Value) :
    Sandbox.toInt32 h v = Sandbox.toInt32 h' v := by
  simp only [Sandbox.toInt32, hh.toUint32]

/-! ## Operators -/

theorem looseEqualsGo (hh : Heap.Resembles h h') (fuel : Nat) (l r : Value) :
    Sandbox.looseEqualsGo h fuel l r = Sandbox.looseEqualsGo h' fuel l r := by
  induction fuel generalizing l r with
  | zero => rfl
  | succ fuel ih =>
    cases l <;> cases r <;> simp only [Sandbox.looseEqualsGo, ih, hh.toPrimitive]

theorem pureOperation (hh : Heap.Resembles h h') (op : BinaryOp) (l r : Value) :
    Sandbox.pureOperation h op l r = Sandbox.pureOperation h' op l r := by
  cases op <;>
    simp only [Sandbox.pureOperation, addValues, looseEquals, shiftValues, bitValues, compareValues,
      hh.toPrimitive, hh.toNumber, hh.toUint32, hh.toInt32, hh.looseEqualsGo]

end Heap.Resembles

/-! ## Pairings -/

/-- What stays the same in two paired machines while code runs on them. -/
structure Pairing where
  /-- A scope of the first machine and the scope of the second one that stands in front of its
  counterpart. -/
  split : Option (FrameId × FrameId)
  /-- Scopes of the second machine without a counterpart, with what they hold. -/
  kept : List (FrameId × Frame)
  /-- Those of them that hold nothing and may stand in chains. -/
  blanks : List FrameId
  /-- Variables that the scope in front has. -/
  bound : List Text
  /-- The steps by which the second machine is ahead. -/
  shift : Nat
  /-- The budget of steps of the first machine. -/
  budget : Nat
  depth : Nat
  maxDepth : Nat
  trees : List Node
  /-- The global scope of the first machine. -/
  global : FrameId

/-- The counterpart of a scope, and whether the scope belongs to a function. -/
structure Link where
  target : FrameId
  isFunction : Bool

/-- The counterparts of the scopes of the first machine, in their order. -/
abbrev Links := List Link

/-- A block scope in which nothing is declared. -/
def blankFrame : Frame := ⟨.empty, false, false⟩

namespace Pairing

/-- Whether a scope is the one that the second machine keeps in two. -/
def Splits (σ : Pairing) (f : FrameId) : Prop := ∃ h, σ.split = some (f, h)

/-- Chains of scopes through which code sees the same variables. -/
inductive Chains (σ : Pairing) (ls : Links) : ScopeChain → ScopeChain → Prop
  | nil : Chains σ ls [] []
  | blank {g : FrameId} {c c' : ScopeChain} :
      g ∈ σ.blanks → Chains σ ls c c' → Chains σ ls c (g :: c')
  | whole {f : FrameId} {l : Link} {c c' : ScopeChain} :
      ls[f]? = some l → ¬ σ.Splits f → Chains σ ls c c' → Chains σ ls (f :: c) (l.target :: c')
  | split {f h : FrameId} {l : Link} {c c' : ScopeChain} :
      σ.split = some (f, h) → ls[f]? = some l → Chains σ ls c c' →
      Chains σ ls (f :: c) (h :: l.target :: c')

/-- A chain in which a function comes before a scope that is kept in two. -/
inductive Guarded (σ : Pairing) (ls : Links) : ScopeChain → Prop
  | here {f : FrameId} {l : Link} {c : ScopeChain} :
      ls[f]? = some l → l.isFunction = true → ¬ σ.Splits f → Guarded σ ls (f :: c)
  | there {f : FrameId} {c : ScopeChain} :
      ¬ σ.Splits f → Guarded σ ls c → Guarded σ ls (f :: c)

/-- A chain from which no declaration reaches a scope that is kept in two. -/
def Ready (σ : Pairing) (ls : Links) (c : ScopeChain) : Prop := σ.split = none ∨ Guarded σ ls c

/-- Objects that differ in the scopes of functions at most. -/
inductive Bodies (σ : Pairing) (ls : Links) : Body → Body → Prop
  | plain : Bodies σ ls .plain .plain
  | array (es : Array Value) : Bodies σ ls (.array es) (.array es)
  | native (fn : Native) : Bodies σ ls (.native fn) (.native fn)
  | closure (code : Node) {c c' : ScopeChain} (name : Text) :
      Chains σ ls c c' → Bodies σ ls (.closure code c name) (.closure code c' name)

/-- Cells with the same properties that differ in the scopes of functions at most. -/
structure Cells (σ : Pairing) (ls : Links) (c c' : Cell) : Prop where
  body : Bodies σ ls c.body c'.body
  properties : c.properties = c'.properties

/-- A scope whose variables are those of two others, of which the first hides the second. -/
structure Parted (whole head rest : Frame) : Prop where
  lookup : ∀ name, whole.bindings.get? name =
    (head.bindings.get? name).or (rest.bindings.get? name)
  isFunction : whole.isFunction = rest.isFunction
  capturesGlobals : whole.capturesGlobals = rest.capturesGlobals
  headIsBlock : head.isFunction = false
  headIsClosed : head.capturesGlobals = false

/-- Two machines that are paired, with the counterparts of the scopes of the first. -/
structure Related (σ : Pairing) (ls : Links) (m m' : Machine) : Prop where
  heapSize : m.heap.size = m'.heap.size
  cells : ∀ r, Cells σ ls (m.cell r) (m'.cell r)
  count : ls.length = m.frames.size
  bounded : ∀ {f : FrameId} {l : Link}, ls[f]? = some l → l.target < m'.frames.size
  injective : ∀ {f g : FrameId} {l k : Link}, ls[f]? = some l → ls[g]? = some k →
    l.target = k.target → f = g
  isFunction : ∀ {f : FrameId} {l : Link}, ls[f]? = some l → (m.frame f).isFunction = l.isFunction
  whole : ∀ {f : FrameId} {l : Link}, ls[f]? = some l → ¬ σ.Splits f →
    m.frame f = m'.frame l.target
  parted : ∀ {f h : FrameId} {l : Link}, σ.split = some (f, h) → ls[f]? = some l →
    Parted (m.frame f) (m'.frame h) (m'.frame l.target)
  splitBounded : ∀ {f h : FrameId}, σ.split = some (f, h) → f < ls.length
  headBounded : ∀ {f h : FrameId}, σ.split = some (f, h) → h < m'.frames.size
  headApart : ∀ {f h g : FrameId} {l : Link}, σ.split = some (f, h) → ls[g]? = some l →
    l.target ≠ h
  kept : ∀ {g : FrameId} {fr : Frame}, (g, fr) ∈ σ.kept → g < m'.frames.size ∧ m'.frame g = fr
  keptApart : ∀ {g f : FrameId} {fr : Frame} {l : Link}, (g, fr) ∈ σ.kept → ls[f]? = some l →
    l.target ≠ g
  keptNotHead : ∀ {g f h : FrameId} {fr : Frame}, (g, fr) ∈ σ.kept → σ.split = some (f, h) → h ≠ g
  blanks : ∀ {g : FrameId}, g ∈ σ.blanks → (g, blankFrame) ∈ σ.kept
  bound : ∀ {name : Text} {f h : FrameId}, name ∈ σ.bound → σ.split = some (f, h) →
    (m'.frame h).bindings.contains name = true
  global : m.global = σ.global
  globalLink : ∃ l, ls[σ.global]? = some l ∧ m'.global = l.target
  globalWhole : ¬ σ.Splits σ.global
  steps : m'.steps = m.steps + σ.shift
  budget : m.maxSteps = σ.budget
  budget' : m'.maxSteps = σ.budget + σ.shift
  depth : m.depth = σ.depth
  depth' : m'.depth = σ.depth
  maxDepth : m.maxDepth = σ.maxDepth
  maxDepth' : m'.maxDepth = σ.maxDepth
  trees : m.trees = σ.trees
  trees' : m'.trees = σ.trees

/-- Stops of the same kind; the numbers that the wording of a limit has may differ. -/
inductive Stops : Abrupt → Abrupt → Prop
  | same (e : Abrupt) : Stops e e
  | limit (l l' : Limit) : Stops (.limit l) (.limit l')

/-- What two computations lead to: results that stand in a relation, or stops of the same kind. -/
def Outcomes {α β : Type} (σ : Pairing) (ls : Links) (Q : Links → α → β → Prop) :
    EStateM.Result Abrupt Machine α → EStateM.Result Abrupt Machine β → Prop
  | .ok a m, .ok b m' => ∃ ls', ls <+: ls' ∧ Related σ ls' m m' ∧ Q ls' a b
  | .error e m, .error e' m' => ∃ ls', ls <+: ls' ∧ Related σ ls' m m' ∧ Stops e e'
  | _, _ => False

/-- Two computations that follow each other from all machines whose scopes are paired as given, and
further scopes in any way. -/
def Follows {α β : Type} (σ : Pairing) (ls : Links) (Q : Links → α → β → Prop) (c : Run α)
    (c' : Run β) : Prop :=
  ∀ (ls' : Links) (m m' : Machine), ls <+: ls' → Related σ ls' m m' →
    Outcomes σ ls' Q (c m) (c' m')

/-- Results that are equal. -/
def Same {α : Type} (_ : Links) (a b : α) : Prop := a = b

/-- A computation that does the same on all paired machines. -/
def Respects {α : Type} (σ : Pairing) (c : Run α) : Prop := Follows σ [] Same c c

variable {α β γ δ : Type} {σ : Pairing} {ls ls' : Links}

/-! ## Rules of the monad -/

/-- Counterparts stay when further scopes get theirs. -/
theorem getElem?_of_extends {f : FrameId} {l : Link} (hext : ls <+: ls') (hf : ls[f]? = some l) :
    ls'[f]? = some l := by
  obtain ⟨rest, rfl⟩ := hext
  have hlt : f < ls.length := (List.getElem?_eq_some_iff.mp hf).1
  rw [List.getElem?_append_left hlt, hf]

theorem Chains.mono {c c' : ScopeChain} (hext : ls <+: ls') (h : Chains σ ls c c') :
    Chains σ ls' c c' := by
  induction h with
  | nil => exact .nil
  | blank hg _ ih => exact .blank hg ih
  | whole hf hs _ ih => exact .whole (getElem?_of_extends hext hf) hs ih
  | split hs hf _ ih => exact .split hs (getElem?_of_extends hext hf) ih

theorem Guarded.mono {c : ScopeChain} (hext : ls <+: ls') (h : Guarded σ ls c) : Guarded σ ls' c := by
  induction h with
  | here hf hfun hs => exact .here (getElem?_of_extends hext hf) hfun hs
  | there hs _ ih => exact .there hs ih

theorem Ready.mono {c : ScopeChain} (hext : ls <+: ls') (h : Ready σ ls c) : Ready σ ls' c :=
  h.imp id (Guarded.mono hext)

theorem Bodies.mono {b b' : Body} (hext : ls <+: ls') (h : Bodies σ ls b b') : Bodies σ ls' b b' := by
  cases h with
  | plain => exact .plain
  | array es => exact .array es
  | native fn => exact .native fn
  | closure code name hc => exact .closure code name (hc.mono hext)

theorem Cells.mono {c c' : Cell} (hext : ls <+: ls') (h : Cells σ ls c c') : Cells σ ls' c c' :=
  ⟨h.body.mono hext, h.properties⟩

/-! Chains depend on the scopes that are kept in two or blank only. -/

theorem Chains.adapt {σ' : Pairing} {c c' : ScopeChain} (h : Chains σ ls c c')
    (hsplit : σ'.split = σ.split) (hblanks : ∀ g ∈ σ.blanks, g ∈ σ'.blanks) :
    Chains σ' ls c c' := by
  have hsplits : ∀ {f}, ¬ σ.Splits f → ¬ σ'.Splits f := by
    intro f hs ⟨h, hh⟩
    exact hs ⟨h, hsplit.symm.trans hh⟩
  induction h with
  | nil => exact .nil
  | blank hg _ ih => exact .blank (hblanks _ hg) ih
  | whole hf hs _ ih => exact .whole hf (hsplits hs) ih
  | split hs hf _ ih => exact .split (hsplit.trans hs) hf ih

theorem Guarded.adapt {σ' : Pairing} {c : ScopeChain} (h : Guarded σ ls c)
    (hsplit : σ'.split = σ.split) : Guarded σ' ls c := by
  have hsplits : ∀ {f}, ¬ σ.Splits f → ¬ σ'.Splits f := by
    intro f hs ⟨h, hh⟩
    exact hs ⟨h, hsplit.symm.trans hh⟩
  induction h with
  | here hf hfun hs => exact .here hf hfun (hsplits hs)
  | there hs _ ih => exact .there (hsplits hs) ih

theorem Cells.adapt {σ' : Pairing} {c c' : Cell} (h : Cells σ ls c c')
    (hsplit : σ'.split = σ.split) (hblanks : ∀ g ∈ σ.blanks, g ∈ σ'.blanks) : Cells σ' ls c c' := by
  obtain ⟨b, p⟩ := c
  obtain ⟨b', p'⟩ := c'
  obtain ⟨hb, rfl⟩ := h
  cases hb with
  | plain => exact ⟨.plain, rfl⟩
  | array es => exact ⟨.array es, rfl⟩
  | native fn => exact ⟨.native fn, rfl⟩
  | closure code name hc => exact ⟨.closure code name (hc.adapt hsplit hblanks), rfl⟩

theorem Follows.mono {Q : Links → α → β → Prop} {c : Run α} {c' : Run β} (hext : ls <+: ls')
    (h : Follows σ ls Q c c') : Follows σ ls' Q c c' :=
  fun _ m m' hext' hm => h _ m m' (hext.trans hext') hm

/-- Two outcomes are two results or two stops. -/
theorem Outcomes.dest {Q : Links → α → β → Prop} {r : EStateM.Result Abrupt Machine α}
    {r' : EStateM.Result Abrupt Machine β} (h : Outcomes σ ls Q r r') :
    (∃ a m b m' ls', r = .ok a m ∧ r' = .ok b m' ∧ ls <+: ls' ∧ Related σ ls' m m' ∧ Q ls' a b) ∨
    (∃ e m e' m' ls', r = .error e m ∧ r' = .error e' m' ∧ ls <+: ls' ∧ Related σ ls' m m' ∧
      Stops e e') := by
  cases r with
  | ok a m =>
    cases r' with
    | ok b m' =>
      obtain ⟨ls', hext, hrel, hq⟩ := h
      exact .inl ⟨a, m, b, m', ls', rfl, rfl, hext, hrel, hq⟩
    | error e m' => exact h.elim
  | error e m =>
    cases r' with
    | ok b m' => exact h.elim
    | error e' m' =>
      obtain ⟨ls', hext, hrel, he⟩ := h
      exact .inr ⟨e, m, e', m', ls', rfl, rfl, hext, hrel, he⟩

/-- An outcome from later on is one from before. -/
theorem Outcomes.extend {Q : Links → α → β → Prop} {r : EStateM.Result Abrupt Machine α}
    {r' : EStateM.Result Abrupt Machine β} (hext : ls <+: ls') (h : Outcomes σ ls' Q r r') :
    Outcomes σ ls Q r r' := by
  obtain ⟨a, m, b, m', ls₂, rfl, rfl, hext₂, hrest⟩ | ⟨e, m, e', m', ls₂, rfl, rfl, hext₂, hrest⟩ :=
    h.dest
  · exact ⟨ls₂, hext.trans hext₂, hrest⟩
  · exact ⟨ls₂, hext.trans hext₂, hrest⟩

/-- A weaker relation between the results. -/
theorem Follows.weaken {Q Q' : Links → α → β → Prop} {c : Run α} {c' : Run β}
    (h : Follows σ ls Q c c') (hQ : ∀ ls' a b, ls <+: ls' → Q ls' a b → Q' ls' a b) :
    Follows σ ls Q' c c' := by
  intro ls₁ m m' hext hm
  obtain ⟨a, n, b, n', ls₂, hc, hc', hext₂, hrel, hq⟩ |
    ⟨e, n, e', n', ls₂, hc, hc', hext₂, hrel, he⟩ := (h ls₁ m m' hext hm).dest
  · rw [hc, hc']
    exact ⟨ls₂, hext₂, hrel, hQ _ _ _ (hext.trans hext₂) hq⟩
  · rw [hc, hc']
    exact ⟨ls₂, hext₂, hrel, he⟩

theorem Follows.result {Q : Links → α → β → Prop} {a : α} {b : β}
    (h : ∀ ls', ls <+: ls' → Q ls' a b) :
    Follows σ ls Q (pure a : Run α) (pure b : Run β) :=
  fun ls' _ _ hext hm => ⟨ls', List.prefix_rfl, hm, h ls' hext⟩

theorem Follows.stop {Q : Links → α → β → Prop} {e e' : Abrupt} (h : Stops e e') :
    Follows σ ls Q (throw e : Run α) (throw e' : Run β) :=
  fun ls' _ _ _ hm => ⟨ls', List.prefix_rfl, hm, h⟩

theorem Follows.bind {Q : Links → α → β → Prop} {Q' : Links → γ → δ → Prop} {c : Run α}
    {c' : Run β} {f : α → Run γ} {f' : β → Run δ} (h : Follows σ ls Q c c')
    (hf : ∀ ls' a b, ls <+: ls' → Q ls' a b → Follows σ ls' Q' (f a) (f' b)) :
    Follows σ ls Q' (c >>= f) (c' >>= f') := by
  intro ls₁ m m' hext hm
  show Outcomes σ ls₁ Q' (EStateM.bind c f m) (EStateM.bind c' f' m')
  unfold EStateM.bind
  obtain ⟨a, n, b, n', ls₂, hc, hc', hext₂, hrel, hq⟩ |
    ⟨e, n, e', n', ls₂, hc, hc', hext₂, hrel, he⟩ := (h ls₁ m m' hext hm).dest
  · rw [hc, hc']
    exact Outcomes.extend hext₂
      (hf ls₂ a b (hext.trans hext₂) hq ls₂ n n' List.prefix_rfl hrel)
  · rw [hc, hc']
    exact ⟨ls₂, hext₂, hrel, he⟩

/-- After a computation that does the same on both sides, both go on with its result. -/
theorem Follows.andThen {Q : Links → γ → δ → Prop} {c c' : Run α} {f : α → Run γ} {f' : α → Run δ}
    (h : Follows σ ls Same c c')
    (hf : ∀ ls' a, ls <+: ls' → Follows σ ls' Q (f a) (f' a)) :
    Follows σ ls Q (c >>= f) (c' >>= f') :=
  h.bind fun ls' a b hext hab => by
    cases (show a = b from hab)
    exact hf ls' a hext

theorem Follows.tryCatch {Q : Links → α → β → Prop} {c : Run α} {c' : Run β}
    {h : Abrupt → Run α} {h' : Abrupt → Run β} (hc : Follows σ ls Q c c')
    (hh : ∀ ls' e e', ls <+: ls' → Stops e e' → Follows σ ls' Q (h e) (h' e')) :
    Follows σ ls Q (tryCatch c h) (tryCatch c' h') := by
  intro ls₁ m m' hext hm
  show Outcomes σ ls₁ Q (EStateM.tryCatch c h m) (EStateM.tryCatch c' h' m')
  unfold EStateM.tryCatch
  obtain ⟨a, n, b, n', ls₂, hr, hr', hext₂, hrel, hq⟩ |
    ⟨e, n, e', n', ls₂, hr, hr', hext₂, hrel, he⟩ := (hc ls₁ m m' hext hm).dest
  · rw [hr, hr']
    exact ⟨ls₂, hext₂, hrel, hq⟩
  · rw [hr, hr']
    exact Outcomes.extend hext₂
      (hh ls₂ e e' (hext.trans hext₂) he ls₂ n n' List.prefix_rfl hrel)

theorem Follows.thenAlways {Q : Links → α → β → Prop} {c : Run α} {c' : Run β} {after after' : Run Unit}
    (hQ : ∀ ls' ls'' a b, ls' <+: ls'' → Q ls' a b → Q ls'' a b)
    (hc : Follows σ ls Q c c') (ha : Follows σ ls Same after after') :
    Follows σ ls Q (Run.thenAlways c after) (Run.thenAlways c' after') := by
  intro ls₁ m m' hext hm
  unfold Run.thenAlways
  obtain ⟨a, n, b, n', ls₂, hr, hr', hext₂, hrel, hq⟩ |
    ⟨e, n, e', n', ls₂, hr, hr', hext₂, hrel, he⟩ := (hc ls₁ m m' hext hm).dest
  all_goals
    rw [hr, hr']
    obtain ⟨_, p, _, p', ls₃, hs, hs', hext₃, hrel', -⟩ |
      ⟨d, p, d', p', ls₃, hs, hs', hext₃, hrel', hd⟩ :=
        (ha ls₂ n n' (hext.trans hext₂) hrel).dest
  · simp only [hs, hs']
    exact ⟨ls₃, hext₂.trans hext₃, hrel', hQ _ _ _ _ hext₃ hq⟩
  · simp only [hs, hs']
    exact ⟨ls₃, hext₂.trans hext₃, hrel', hd⟩
  · simp only [hs, hs']
    exact ⟨ls₃, hext₂.trans hext₃, hrel', he⟩
  · simp only [hs, hs']
    exact ⟨ls₃, hext₂.trans hext₃, hrel', hd⟩

/-- Reading both machines. -/
theorem Follows.machine : Follows σ ls (fun ls m m' => Related σ ls m m') (get : Run Machine) get :=
  fun ls' _ _ _ hm => ⟨ls', List.prefix_rfl, hm, hm⟩

/-- A change of both machines that keeps them paired. -/
theorem Follows.change {f f' : Machine → Machine}
    (h : ∀ ls' m m', ls <+: ls' → Related σ ls' m m' → Related σ ls' (f m) (f' m')) :
    Follows σ ls Same (modify f : Run Unit) (modify f') :=
  fun ls' m m' hext hm => ⟨ls', List.prefix_rfl, h ls' m m' hext hm, rfl⟩

theorem Respects.follows {c : Run α} (h : Respects σ c) : Follows σ ls Same c c :=
  h.mono List.nil_prefix

/-! ## Objects -/

theorem cell_push (m : Machine) (c : Cell) (r : Ref) :
    ({ m with heap := m.heap.push c } : Machine).cell r = if r = m.heap.size then c else m.cell r := by
  simp only [Machine.cell, Array.getD_eq_getD_getElem?, Array.getElem?_push]
  split <;> rfl

theorem cell_set (m : Machine) (c : Cell) (r q : Ref) :
    ({ m with heap := m.heap.setIfInBounds r c } : Machine).cell q =
      if r = q ∧ q < m.heap.size then c else m.cell q := by
  simp only [Machine.cell, Array.getD_eq_getD_getElem?, Array.getElem?_setIfInBounds]
  by_cases hq : r = q
  · subst hq
    by_cases hr : r < m.heap.size <;> simp [hr]
  · simp [hq]

/-- The same new object on both sides. -/
theorem Follows.allocate {c c' : Cell} (hc : ∀ ls', ls <+: ls' → Cells σ ls' c c') :
    Follows σ ls Same (Run.allocate c) (Run.allocate c') := by
  intro ls' m m' hext hm
  refine ⟨ls', List.prefix_rfl, { hm with heapSize := ?_, cells := ?_ }, hm.heapSize⟩
  · simp [hm.heapSize]
  · intro r
    rw [cell_push, cell_push, hm.heapSize]
    split
    · exact hc ls' hext
    · exact hm.cells r

/-- An object changed in the same way on both sides. -/
theorem Follows.setCell (r : Ref) {c c' : Cell} (hc : ∀ ls', ls <+: ls' → Cells σ ls' c c') :
    Follows σ ls Same (Run.setCell r c) (Run.setCell r c') := by
  refine .change fun ls' m m' hext hm => { hm with heapSize := ?_, cells := ?_ }
  · simp [hm.heapSize]
  · intro q
    rw [cell_set, cell_set, hm.heapSize]
    split
    · exact hc ls' hext
    · exact hm.cells q

theorem Follows.cell (r : Ref) : Follows σ ls (Cells σ) (Run.cell r) (Run.cell r) :=
  Follows.machine.bind fun _ _ _ _ hm => .result fun _ hext => (hm.cells r).mono hext

/-! ## Scopes -/

theorem frame_push (m : Machine) (fr : Frame) (f : FrameId) :
    ({ m with frames := m.frames.push fr } : Machine).frame f =
      if f = m.frames.size then fr else m.frame f := by
  simp only [Machine.frame, Array.getD_eq_getD_getElem?, Array.getElem?_push]
  split <;> rfl

theorem frame_modify (m : Machine) (g : Frame → Frame) (f i : FrameId) :
    ({ m with frames := m.frames.modify f g } : Machine).frame i =
      if f = i ∧ i < m.frames.size then g (m.frame i) else m.frame i := by
  simp only [Machine.frame, Array.getD_eq_getD_getElem?, Array.getElem?_modify]
  by_cases hf : f = i
  · subst hf
    by_cases hi : f < m.frames.size <;> simp [hi]
  · simp [hf]

/-- A scope with a variable set. -/
def putVariable (name : Text) (v : Value) (fr : Frame) : Frame :=
  { fr with bindings := fr.bindings.put name v }

/-- The machine with a variable of a scope set. -/
def declared (m : Machine) (f : FrameId) (name : Text) (v : Value) : Machine :=
  { m with frames := m.frames.modify f (putVariable name v) }

theorem frame_declared (m : Machine) (f i : FrameId) (name : Text) (v : Value) :
    (declared m f name v).frame i =
      if f = i ∧ i < m.frames.size then putVariable name v (m.frame i) else m.frame i :=
  frame_modify m (putVariable name v) f i

theorem frame_declared_of_ne (m : Machine) {f i : FrameId} (hne : f ≠ i) (name : Text) (v : Value) :
    (declared m f name v).frame i = m.frame i := by
  rw [frame_declared, if_neg fun h => hne h.1]

theorem frame_declared_self (m : Machine) {f : FrameId} (hf : f < m.frames.size) (name : Text)
    (v : Value) : (declared m f name v).frame f = putVariable name v (m.frame f) := by
  rw [frame_declared, if_pos ⟨rfl, hf⟩]

theorem size_declared (m : Machine) (f : FrameId) (name : Text) (v : Value) :
    (declared m f name v).frames.size = m.frames.size := by
  simp [declared]

/-- A variable that is set removes none. -/
theorem contains_frame_declared (m : Machine) {i : FrameId} {x : Text} (f : FrameId) (name : Text)
    (v : Value) (hx : (m.frame i).bindings.contains x = true) :
    ((declared m f name v).frame i).bindings.contains x = true := by
  rw [frame_declared]
  split
  · by_cases heq : x = name
    · subst heq
      simp [putVariable, Dict.contains]
    · simpa [putVariable, Dict.contains, Dict.get?_put_of_ne _ heq] using hx
  · exact hx

/-- Where a variable of a scope of the first machine has to be set in the second one. -/
inductive Places (σ : Pairing) (ls : Links) (m' : Machine) (name : Text) : FrameId → FrameId → Prop
  | whole {f : FrameId} {l : Link} : ls[f]? = some l → ¬ σ.Splits f →
      Places σ ls m' name f l.target
  | head {f h : FrameId} {l : Link} : σ.split = some (f, h) → ls[f]? = some l →
      Places σ ls m' name f h
  | rest {f h : FrameId} {l : Link} : σ.split = some (f, h) → ls[f]? = some l →
      (m'.frame h).bindings.get? name = none → Places σ ls m' name f l.target

namespace Related

variable {m m' : Machine}

theorem lt_of_link {f : FrameId} {l : Link} (hm : Related σ ls m m') (hf : ls[f]? = some l) :
    f < m.frames.size := by
  rw [← hm.count]
  exact (List.getElem?_eq_some_iff.mp hf).1

/-- A variable that is set in the right place keeps the machines paired. -/
theorem declare {name : Text} {f g : FrameId} (hm : Related σ ls m m')
    (hplace : Places σ ls m' name f g) (v : Value) :
    Related σ ls (declared m f name v) (declared m' g name v) := by
  have hsize := size_declared m f name v
  have hsize' := size_declared m' g name v
  have hf : f < m.frames.size := by
    cases hplace with
    | whole hl _ => exact hm.lt_of_link hl
    | head _ hl => exact hm.lt_of_link hl
    | rest _ hl _ => exact hm.lt_of_link hl
  have hg : g < m'.frames.size := by
    cases hplace with
    | whole hl _ => exact hm.bounded hl
    | head hs _ => exact hm.headBounded hs
    | rest _ hl _ => exact hm.bounded hl
  have hkept : ∀ {q : FrameId} {fr : Frame}, (q, fr) ∈ σ.kept → g ≠ q := by
    intro q fr hq
    cases hplace with
    | whole hl _ => exact hm.keptApart hq hl
    | head hs _ => exact hm.keptNotHead hq hs
    | rest _ hl _ => exact hm.keptApart hq hl
  refine
    { hm with
      count := by rw [hsize]; exact hm.count
      bounded := fun hl => by rw [hsize']; exact hm.bounded hl
      isFunction := ?_
      whole := ?_
      parted := ?_
      headBounded := fun hs => by rw [hsize']; exact hm.headBounded hs
      kept := ?_
      bound := fun hx hs => contains_frame_declared m' _ _ v (hm.bound hx hs) }
  · intro i l hl
    rw [← hm.isFunction hl, frame_declared]
    split <;> rfl
  · intro i l hl hns
    have hsame := hm.whole hl hns
    by_cases hi : f = i
    · subst hi
      have hgl : g = l.target := by
        cases hplace with
        | whole hl' _ => rw [hl] at hl'; cases hl'; rfl
        | head hs _ => exact absurd ⟨_, hs⟩ hns
        | rest hs _ _ => exact absurd ⟨_, hs⟩ hns
      subst hgl
      rw [frame_declared_self m hf, frame_declared_self m' hg, hsame]
    · have hgl : g ≠ l.target := by
        intro heq
        cases hplace with
        | whole hl' _ => exact hi (hm.injective hl' hl heq)
        | head hs _ => exact hm.headApart hs hl heq.symm
        | rest _ hl' _ => exact hi (hm.injective hl' hl heq)
      rw [frame_declared_of_ne m hi, frame_declared_of_ne m' hgl, hsame]
  · intro i h l hs hl
    have hpart := hm.parted hs hl
    cases hplace with
    | whole hl' hns =>
      have hi : f ≠ i := fun heq => hns ⟨h, heq ▸ hs⟩
      rw [frame_declared_of_ne m hi, frame_declared_of_ne m' (hm.headApart hs hl'),
        frame_declared_of_ne m' fun heq => hi (hm.injective hl' hl heq)]
      exact hpart
    | head hs' hl' =>
      rw [hs] at hs'
      cases hs'
      rw [frame_declared_self m hf, frame_declared_self m' hg,
        frame_declared_of_ne m' (hm.headApart hs hl).symm]
      refine { hpart with lookup := fun x => ?_ }
      by_cases hx : x = name
      · subst hx
        simp [putVariable]
      · simp only [putVariable, Dict.get?_put_of_ne _ hx]
        exact hpart.lookup x
    | rest hs' hl' hnone =>
      rw [hs] at hs'
      cases hs'
      rw [hl] at hl'
      cases hl'
      rw [frame_declared_self m hf, frame_declared_self m' hg,
        frame_declared_of_ne m' (hm.headApart hs hl)]
      refine { hpart with lookup := fun x => ?_ }
      by_cases hx : x = name
      · subst hx
        simp [putVariable, hnone]
      · simp only [putVariable, Dict.get?_put_of_ne _ hx]
        exact hpart.lookup x
  · intro q fr hq
    rw [hsize', frame_declared_of_ne m' (hkept hq)]
    exact hm.kept hq

/-- A name is found in corresponding scopes, with the same value. -/
theorem findScope {c c' : ScopeChain} (hm : Related σ ls m m') (hc : Chains σ ls c c')
    (name : Text) :
    (m.findScope name c = none ∧ m'.findScope name c' = none) ∨
    ∃ f g, m.findScope name c = some f ∧ m'.findScope name c' = some g ∧
      Places σ ls m' name f g ∧ m.variable f name = m'.variable g name := by
  induction hc with
  | nil => exact .inl ⟨rfl, rfl⟩
  | @blank g c c' hg _ ih =>
    have hnot : (m'.frame g).bindings.contains name = false := by
      rw [(hm.kept (hm.blanks hg)).2]; rfl
    simpa [Machine.findScope, hnot] using ih
  | @whole f l c c' hl hns _ ih =>
    have hframe := hm.whole hl hns
    cases hin : (m.frame f).bindings.contains name with
    | true =>
      refine .inr ⟨f, l.target, ?_, ?_, .whole hl hns, ?_⟩
      · simp [Machine.findScope, hin]
      · simp [Machine.findScope, ← hframe, hin]
      · simp [Machine.variable, hframe]
    | false => simpa [Machine.findScope, ← hframe, hin] using ih
  | @split f h l c c' hs hl _ ih =>
    have hlook := (hm.parted hs hl).lookup name
    cases hhead : (m'.frame h).bindings.get? name with
    | some v =>
      rw [hhead, Option.some_or] at hlook
      refine .inr ⟨f, h, ?_, ?_, .head hs hl, ?_⟩
      · simp [Machine.findScope, Dict.contains, hlook]
      · simp [Machine.findScope, Dict.contains, hhead]
      · simp [Machine.variable, hlook, hhead]
    | none =>
      rw [hhead, Option.none_or] at hlook
      cases hrest : (m'.frame l.target).bindings.get? name with
      | some v =>
        rw [hrest] at hlook
        refine .inr ⟨f, l.target, ?_, ?_, .rest hs hl hhead, ?_⟩
        · simp [Machine.findScope, Dict.contains, hlook]
        · simp [Machine.findScope, Dict.contains, hhead, hrest]
        · simp [Machine.variable, hlook, hrest]
      | none =>
        rw [hrest] at hlook
        simpa [Machine.findScope, Dict.contains, hlook, hhead, hrest] using ih

/-- A name that nothing declares is assigned in corresponding scopes. -/
theorem capturing {c c' : ScopeChain} (hm : Related σ ls m m') (hc : Chains σ ls c c')
    {name : Text} (hnone : m'.findScope name c' = none) :
    (m.firstScope (·.capturesGlobals) c = none ∧ m'.firstScope (·.capturesGlobals) c' = none) ∨
    ∃ f g, m.firstScope (·.capturesGlobals) c = some f ∧
      m'.firstScope (·.capturesGlobals) c' = some g ∧ Places σ ls m' name f g := by
  induction hc with
  | nil => exact .inl ⟨rfl, rfl⟩
  | @blank g c c' hg _ ih =>
    have hframe := (hm.kept (hm.blanks hg)).2
    have hnot : (m'.frame g).capturesGlobals = false := by rw [hframe]; rfl
    have hnotin : (m'.frame g).bindings.contains name = false := by rw [hframe]; rfl
    have hrest : m'.findScope name c' = none := by
      simpa [Machine.findScope, hnotin] using hnone
    simpa [Machine.firstScope, hnot] using ih hrest
  | @whole f l c c' hl hns _ ih =>
    have hframe := hm.whole hl hns
    cases hcap : (m.frame f).capturesGlobals with
    | true =>
      refine .inr ⟨f, l.target, ?_, ?_, .whole hl hns⟩
      · simp [Machine.firstScope, hcap]
      · simp [Machine.firstScope, ← hframe, hcap]
    | false =>
      have hrest : m'.findScope name c' = none := by
        rw [Machine.findScope] at hnone
        split at hnone
        · cases hnone
        · exact hnone
      simpa [Machine.firstScope, ← hframe, hcap] using ih hrest
  | @split f h l c c' hs hl _ ih =>
    have hpart := hm.parted hs hl
    rw [Machine.findScope] at hnone
    split at hnone
    · cases hnone
    · next hhead =>
      rw [Machine.findScope] at hnone
      split at hnone
      · cases hnone
      · cases hcap : (m.frame f).capturesGlobals with
        | true =>
          have hhead' : (m'.frame h).bindings.get? name = none := by
            simpa [Dict.contains] using hhead
          refine .inr ⟨f, l.target, ?_, ?_, .rest hs hl hhead'⟩
          · simp [Machine.firstScope, hcap]
          · simp [Machine.firstScope, hpart.headIsClosed, ← hpart.capturesGlobals, hcap]
        | false =>
          simpa [Machine.firstScope, hpart.headIsClosed, ← hpart.capturesGlobals, hcap] using
            ih hnone


/-- Declarations of variables go to corresponding scopes. -/
theorem functionScope {c c' : ScopeChain} (hm : Related σ ls m m') (hc : Chains σ ls c c')
    (hready : Ready σ ls c) :
    ∃ l, ls[(m.firstScope (·.isFunction) c).getD m.global]? = some l ∧
      ¬ σ.Splits ((m.firstScope (·.isFunction) c).getD m.global) ∧
      (m'.firstScope (·.isFunction) c').getD m'.global = l.target := by
  induction hc with
  | nil =>
    obtain ⟨l, hl, hl'⟩ := hm.globalLink
    refine ⟨l, ?_, ?_, hl'⟩
    · simpa [Machine.firstScope, hm.global] using hl
    · simpa [Machine.firstScope, hm.global] using hm.globalWhole
  | @blank g c c' hg _ ih =>
    have hnot : (m'.frame g).isFunction = false := by rw [(hm.kept (hm.blanks hg)).2]; rfl
    simpa [Machine.firstScope, hnot] using ih hready
  | @whole f l c c' hl hns _ ih =>
    have hframe := hm.whole hl hns
    have hfun := hm.isFunction hl
    cases hisf : l.isFunction with
    | true =>
      rw [hisf] at hfun
      have hfun' : (m'.frame l.target).isFunction = true := by rw [← hframe]; exact hfun
      refine ⟨l, ?_, ?_, ?_⟩
      · simpa [Machine.firstScope, hfun] using hl
      · simpa [Machine.firstScope, hfun] using hns
      · simp [Machine.firstScope, hfun']
    | false =>
      rw [hisf] at hfun
      have hfun' : (m'.frame l.target).isFunction = false := by rw [← hframe]; exact hfun
      have hready' : Ready σ ls c := by
        obtain hnone | hg := hready
        · exact .inl hnone
        · cases hg with
          | here hl' hisf' _ =>
            rw [hl] at hl'
            cases hl'
            rw [hisf] at hisf'
            cases hisf'
          | there _ hg' => exact .inr hg'
      simpa [Machine.firstScope, hfun, hfun'] using ih hready'
  | @split f h l c c' hs hl _ ih =>
    obtain hnone | hg := hready
    · rw [hnone] at hs
      cases hs
    · cases hg with
      | here _ _ hns => exact absurd ⟨h, hs⟩ hns
      | there hns _ => exact absurd ⟨h, hs⟩ hns

/-- A new scope on both sides. -/
theorem newFrame (hm : Related σ ls m m') (fr : Frame) :
    Related σ (ls ++ [⟨m'.frames.size, fr.isFunction⟩])
      { m with frames := m.frames.push fr } { m' with frames := m'.frames.push fr } := by
  have hext : ls <+: ls ++ [(⟨m'.frames.size, fr.isFunction⟩ : Link)] := List.prefix_append _ _
  -- A link is an old one, or the new one at the end.
  have hlinks : ∀ {f : FrameId} {l : Link},
      (ls ++ [(⟨m'.frames.size, fr.isFunction⟩ : Link)])[f]? = some l →
      (ls[f]? = some l ∧ f ≠ m.frames.size ∧ l.target ≠ m'.frames.size) ∨
      (f = m.frames.size ∧ l = ⟨m'.frames.size, fr.isFunction⟩) := by
    intro f l hl
    by_cases hf : f < ls.length
    · rw [List.getElem?_append_left hf] at hl
      have hlt := hm.lt_of_link hl
      have hlt' := hm.bounded hl
      exact .inl ⟨hl, Nat.ne_of_lt hlt, Nat.ne_of_lt hlt'⟩
    · have hle : ls.length ≤ f := Nat.le_of_not_lt hf
      rw [List.getElem?_append_right hle, List.getElem?_singleton] at hl
      split at hl
      · next hzero =>
        have heq : f = ls.length := Nat.le_antisymm (Nat.sub_eq_zero_iff_le.mp hzero) hle
        exact .inr ⟨heq.trans hm.count, by simpa using hl.symm⟩
      · cases hl
  have hsplit : ∀ {f h : FrameId}, σ.split = some (f, h) →
      f ≠ m.frames.size ∧ h ≠ m'.frames.size := by
    intro f h hs
    have hlt := hm.splitBounded hs
    rw [hm.count] at hlt
    exact ⟨Nat.ne_of_lt hlt, Nat.ne_of_lt (hm.headBounded hs)⟩
  refine
    { hm with
      cells := fun r => (hm.cells r).mono hext
      count := by simp [hm.count]
      bounded := ?_
      injective := ?_
      isFunction := ?_
      whole := ?_
      parted := ?_
      splitBounded := fun hs => by simpa using Nat.lt_succ_of_lt (hm.splitBounded hs)
      headBounded := fun hs => by simpa using Nat.lt_succ_of_lt (hm.headBounded hs)
      headApart := ?_
      kept := ?_
      keptApart := ?_
      bound := ?_
      globalLink := ?_ }
  · intro f l hl
    obtain ⟨hl', -, -⟩ | ⟨-, rfl⟩ := hlinks hl
    · simpa using Nat.lt_succ_of_lt (hm.bounded hl')
    · simp
  · intro f g l k hl hk heq
    obtain ⟨hl', -, hlne⟩ | ⟨rfl, rfl⟩ := hlinks hl
    · obtain ⟨hk', -, -⟩ | ⟨rfl, rfl⟩ := hlinks hk
      · exact hm.injective hl' hk' heq
      · exact absurd heq hlne
    · obtain ⟨-, -, hkne⟩ | ⟨rfl, -⟩ := hlinks hk
      · exact absurd heq.symm hkne
      · rfl
  · intro f l hl
    obtain ⟨hl', hne, -⟩ | ⟨rfl, rfl⟩ := hlinks hl
    · rw [frame_push, if_neg hne]
      exact hm.isFunction hl'
    · rw [frame_push, if_pos rfl]
  · intro f l hl hns
    obtain ⟨hl', hne, hne'⟩ | ⟨rfl, rfl⟩ := hlinks hl
    · rw [frame_push, frame_push, if_neg hne, if_neg hne']
      exact hm.whole hl' hns
    · rw [frame_push, frame_push, if_pos rfl, if_pos rfl]
  · intro f h l hs hl
    obtain ⟨hl', hne, hne'⟩ | ⟨rfl, rfl⟩ := hlinks hl
    · rw [frame_push, frame_push, frame_push, if_neg hne, if_neg hne', if_neg (hsplit hs).2]
      exact hm.parted hs hl'
    · exact absurd rfl (hsplit hs).1
  · intro f h g l hs hl
    obtain ⟨hl', -, -⟩ | ⟨rfl, rfl⟩ := hlinks hl
    · exact hm.headApart hs hl'
    · exact (hsplit hs).2.symm
  · intro g fr' hg
    obtain ⟨hlt, hframe⟩ := hm.kept hg
    refine ⟨by simpa using Nat.lt_succ_of_lt hlt, ?_⟩
    rw [frame_push, if_neg (Nat.ne_of_lt hlt)]
    exact hframe
  · intro g f fr' l hg hl
    obtain ⟨hl', -, -⟩ | ⟨rfl, rfl⟩ := hlinks hl
    · exact hm.keptApart hg hl'
    · exact (Nat.ne_of_lt (hm.kept hg).1).symm
  · intro name f h hx hs
    rw [frame_push, if_neg (hsplit hs).2]
    exact hm.bound hx hs
  · obtain ⟨l, hl, hl'⟩ := hm.globalLink
    exact ⟨l, getElem?_of_extends hext hl, hl'⟩


end Related

theorem Bodies.resembles {b b' : Body} (h : Bodies σ ls b b') : b.Resembles b' := by
  cases h with
  | plain => exact .plain
  | array es => exact .array es
  | native fn => exact .native fn
  | closure code name _ => exact .closure code _ _ name

theorem Related.resembles {m m' : Machine} (hm : Related σ ls m m') : m.heap.Resembles m'.heap :=
  ⟨hm.heapSize, fun r => (hm.cells r).body.resembles⟩

/-! ## Primitive computations -/

/-- A conversion that does not look at scopes. -/
theorem Follows.reading {f : Heap → Except Abrupt α}
    (hf : ∀ h h' : Heap, h.Resembles h' → f h = f h') :
    Follows σ ls Same (Run.reading f) (Run.reading f) := by
  refine Follows.machine.bind fun ls' m m' _ hm => ?_
  rw [hf m.heap m'.heap hm.resembles]
  cases f m'.heap with
  | ok a => exact .result fun _ _ => rfl
  | error e => exact .stop (.same e)

theorem Follows.fail {Q : Links → α → β → Prop} (f : Failure) :
    Follows σ ls Q (Run.fail f : Run α) (Run.fail f : Run β) :=
  .stop (.same _)

theorem Follows.newObject (properties : Dict Text Value) :
    Follows σ ls Same (Run.newObject properties) (Run.newObject properties) :=
  (Follows.allocate fun _ _ => ⟨.plain, rfl⟩).andThen fun _ _ _ => .result fun _ _ => rfl

theorem Follows.newArray (es : Array Value) :
    Follows σ ls Same (Run.newArray es) (Run.newArray es) :=
  (Follows.allocate fun _ _ => ⟨.array es, rfl⟩).andThen fun _ _ _ => .result fun _ _ => rfl

theorem Follows.raise {Q : Links → α → β → Prop} (kind : String) (message : Text) :
    Follows σ ls Q (Run.raise kind message : Run α) (Run.raise kind message : Run β) :=
  (Follows.newObject _).andThen fun _ _ _ => .stop (.same _)

theorem Follows.tick : Follows σ ls Same Run.tick Run.tick := by
  have hstep : Follows σ ls Same
      (modify fun m : Machine => { m with steps := m.steps + 1 } : Run Unit)
      (modify fun m : Machine => { m with steps := m.steps + 1 } : Run Unit) := by
    refine .change fun _ m m' _ hm => { hm with steps := ?_ }
    have := hm.steps
    simp only
    omega
  refine hstep.andThen fun _ _ _ => Follows.machine.bind fun _ m m' _ hm => ?_
  have hsame : m'.steps > m'.maxSteps ↔ m.steps > m.maxSteps := by
    rw [hm.steps, hm.budget, hm.budget']
    omega
  by_cases hover : m.steps > m.maxSteps
  · rw [if_pos hover, if_pos (hsame.mpr hover)]
    exact .stop (.limit _ _)
  · rw [if_neg hover, if_neg (mt hsame.mp hover)]
    exact .result fun _ _ => rfl

/-- A part of a node that is there on both sides or on none. -/
theorem Follows.part (n : Node) (r : Role) : Follows σ ls Same (Run.part n r) (Run.part n r) := by
  unfold Run.part
  cases n.child? r with
  | some c => exact .result fun _ _ => rfl
  | none => exact .stop (.same _)

theorem Follows.partName (n : Node) (r : Role) :
    Follows σ ls Same (Run.partName n r) (Run.partName n r) := by
  refine (Follows.part n r).andThen fun _ c _ => ?_
  cases c.name? with
  | some name => exact .result fun _ _ => rfl
  | none => exact .stop (.same _)

/-! ## Variables -/

theorem Follows.lookup {c c' : ScopeChain} (hc : Chains σ ls c c') (name : Text) :
    Follows σ ls Same (Run.lookup c name) (Run.lookup c' name) := by
  refine Follows.machine.bind fun ls' m m' hext hm => ?_
  obtain ⟨hf, hf'⟩ | ⟨f, g, hf, hf', -, hvar⟩ := hm.findScope (hc.mono hext) name
  · simp only [hf, hf']
    exact .raise _ _
  · simp only [hf, hf', hvar]
    exact .result fun _ _ => rfl

theorem Follows.isBound {c c' : ScopeChain} (hc : Chains σ ls c c') (name : Text) :
    Follows σ ls Same (Run.isBound c name) (Run.isBound c' name) := by
  refine Follows.machine.bind fun ls' m m' hext hm => ?_
  obtain ⟨hf, hf'⟩ | ⟨f, g, hf, hf', -, -⟩ := hm.findScope (hc.mono hext) name
  · simp only [hf, hf']
    exact .result fun _ _ => rfl
  · simp only [hf, hf']
    exact .result fun _ _ => rfl

/-- A variable of a scope that is not kept in two. -/
theorem Follows.declare {f : FrameId} {l : Link} (hl : ls[f]? = some l) (hns : ¬ σ.Splits f)
    (name : Text) (v : Value) :
    Follows σ ls Same (Run.declare f name v) (Run.declare l.target name v) :=
  .change fun _ _ _ hext hm => hm.declare (.whole (getElem?_of_extends hext hl) hns) v

/-- The global scope takes what no other scope does. -/
theorem Related.globalPlace {m m' : Machine} (hm : Related σ ls m m') (name : Text) :
    Places σ ls m' name m.global m'.global := by
  obtain ⟨l, hl, hl'⟩ := hm.globalLink
  rw [hm.global, hl']
  exact .whole hl hm.globalWhole

theorem Follows.assign {c c' : ScopeChain} (hc : Chains σ ls c c') (name : Text) (v : Value) :
    Follows σ ls Same (Run.assign c name v) (Run.assign c' name v) := by
  intro ls' m m' hext hm
  show Outcomes σ ls' Same (.ok () (declared m _ name v)) (.ok () (declared m' _ name v))
  refine ⟨ls', List.prefix_rfl, ?_, rfl⟩
  have hc' := hc.mono hext
  obtain ⟨hf, hf'⟩ | ⟨f, g, hf, hf', hplace, -⟩ := hm.findScope hc' name
  · rw [hf, hf', Option.none_or, Option.none_or]
    obtain ⟨hg, hg'⟩ | ⟨f, g, hg, hg', hplace⟩ := hm.capturing hc' hf'
    · rw [hg, hg']
      exact hm.declare (hm.globalPlace name) v
    · rw [hg, hg']
      exact hm.declare hplace v
  · rw [hf, hf', Option.some_or, Option.some_or]
    exact hm.declare hplace v

/-- The scope to which declarations of `var` go. -/
theorem Follows.varScope {c c' : ScopeChain} (hc : Chains σ ls c c') (hready : Ready σ ls c) :
    Follows σ ls (fun ls f f' => ∃ l, ls[f]? = some l ∧ ¬ σ.Splits f ∧ f' = l.target)
      (Run.varScope c) (Run.varScope c') := by
  refine Follows.machine.bind fun ls' m m' hext hm => .result fun ls'' hext' => ?_
  obtain ⟨l, hl, hns, hl'⟩ := hm.functionScope (hc.mono hext) (hready.mono hext)
  exact ⟨l, getElem?_of_extends hext' hl, hns, hl'⟩

/-- A new scope on both sides. -/
theorem Follows.newFrame (isFunction capturesGlobals : Bool) :
    Follows σ ls
      (fun ls f f' => ∃ l, ls[f]? = some l ∧ ¬ σ.Splits f ∧ f' = l.target ∧
        l.isFunction = isFunction)
      (Run.newFrame isFunction capturesGlobals) (Run.newFrame isFunction capturesGlobals) := by
  intro ls' m m' _ hm
  refine ⟨_, List.prefix_append _ _, hm.newFrame ⟨.empty, isFunction, capturesGlobals⟩,
    ⟨m'.frames.size, isFunction⟩, ?_, ?_, rfl, rfl⟩
  · rw [← hm.count, List.getElem?_concat_length]
  · rintro ⟨h, hs⟩
    have hlt := hm.splitBounded hs
    rw [hm.count] at hlt
    exact Nat.lt_irrefl _ hlt

theorem Follows.blockScope {c c' : ScopeChain} (hc : Chains σ ls c c') :
    Follows σ ls
      (fun ls d d' => Chains σ ls d d' ∧ ∃ f f' l, d = f :: c ∧ d' = f' :: c' ∧ ls[f]? = some l ∧
        ¬ σ.Splits f ∧ f' = l.target)
      (Run.blockScope c) (Run.blockScope c') := by
  refine (Follows.newFrame false false).bind fun ls' f f' hext hf => .result fun ls'' hext' => ?_
  obtain ⟨l, hl, hns, rfl, -⟩ := hf
  have hl' := getElem?_of_extends hext' hl
  exact ⟨.whole hl' hns (hc.mono (hext.trans hext')), f, _, l, rfl, rfl, hl', hns, rfl⟩

end Pairing

end Untangle.Sandbox
