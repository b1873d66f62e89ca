import Untangle.Proofs.Sandbox.Accepted
import Untangle.Proofs.Sandbox.Composition
import Untangle.Proofs.Sandbox.Conversions

set_option autoImplicit false

/-!
# Realms

All that code can refer to exists: in a store that is complete, every object that an object holds or a
variable has is one of the store.  Objects are never taken away, and each of them stays of its kind: an
array may change its elements, and a function keeps its code and its scopes.

A realm is a part of a store that code does not leave: it has the objects that values inherit and the
global scope, whatever one of its objects or scopes refers to, and all objects and scopes that are still to
be made.  The whole store is a realm if it is complete, and so is what can be reached from some scopes.

In a strict realm all functions are accepted.  Code that is accepted as well stops there in ways that do
not depend on its form: the jumps that lead out of it apart, it fails on operators and on values only, or
on the spread of an object where the realm has one.
-/

namespace Untangle.Sandbox

/-! ## Complete stores -/

/-- The elements of an array; nothing else has any. -/
def Body.held : Body → List Value
  | .array es => es.toList
  | _ => []

/-- The values that an object holds: its elements and those of its properties. -/
def Cell.held (c : Cell) : List Value := c.body.held ++ c.properties.values

/-- A property of an object is a value that it holds, its length, or `undefined`. -/
theorem Cell.held_of_get {c : Cell} {key : Text} {v : Value} (h : c.get key = .ok v) :
    v ∈ c.held ∨ v.isObject = false := by
  have hproperty : (c.properties.get? key).getD .undefined ∈ c.held ∨
      ((c.properties.get? key).getD .undefined).isObject = false := by
    cases hget : c.properties.get? key with
    | none => exact .inr rfl
    | some w => exact .inl (List.mem_append_right _ (Dict.mem_values_of_get? hget))
  unfold Cell.get at h
  split at h
  · next es hbody =>
    split at h
    · cases h
      exact .inr rfl
    · obtain ⟨i, -, h⟩ := except_bind_eq_ok.mp h
      split at h
      · next i =>
        cases h
        rw [Array.getD_eq_getD_getElem?]
        cases hi : es[i]? with
        | none => exact .inr rfl
        | some w =>
          refine .inl (List.mem_append_left _ ?_)
          rw [hbody]
          exact Array.mem_toList_iff.mpr (Array.mem_of_getElem? hi)
      · cases h
        exact hproperty
  · cases h
    exact hproperty

/-- What an object has under a key it holds itself, or it inherits it, if it is an object. -/
theorem Cell.held_of_property {c : Cell} {key : Text} {v : Value} (h : c.property key = .ok v) :
    v ∈ c.held ∨ v.isObject = false ∨ v = Run.inheritedProperty c key := by
  unfold Cell.property at h
  obtain ⟨found, -, h⟩ := except_bind_eq_ok.mp h
  split at h
  · exact (held_of_get h).imp_right .inl
  · cases h
    exact .inr (.inr rfl)

/-- What an object can become: an array may have other elements, and anything else stays as it is. -/
inductive Body.Stays : Body → Body → Prop
  | same (b : Body) : Stays b b
  | array (es es' : Array Value) : Stays (.array es) (.array es')

/-- The value with which a computation stops. -/
def Abrupt.value? : Abrupt → Option Value
  | .thrown v | .returned v => some v
  | _ => none

namespace Machine

/-- A value that is no object, or an object of the store. -/
def Knows (m : Machine) : Value → Prop
  | .object r => r < m.heap.size
  | _ => True

/-- All objects that are referred to are objects of the store, those that values inherit among them. -/
structure Complete (m : Machine) : Prop where
  inherited : Native.inherited.length ≤ m.heap.size
  objects : ∀ r, ∀ v ∈ (m.cell r).held, m.Knows v
  frames : ∀ f, ∀ v ∈ (m.frame f).bindings.values, m.Knows v

/-- A machine that another one becomes while code runs. -/
structure Becomes (m m' : Machine) : Prop where
  size : m.heap.size ≤ m'.heap.size
  bodies : ∀ r < m.heap.size, (m.cell r).body.Stays (m'.cell r).body
  trees : m'.trees = m.trees

/-- Values that are known one by one. -/
def KnowsAll (m : Machine) (vs : List Value) : Prop := ∀ v ∈ vs, m.Knows v

/-- An object that is an array. -/
def IsArray (m : Machine) (r : Ref) : Prop := ∃ es, (m.cell r).body = .array es

end Machine

theorem Body.Stays.trans {b b' b'' : Body} (h : b.Stays b') (h' : b'.Stays b'') : b.Stays b'' := by
  cases h with
  | same => exact h'
  | array es es' =>
    cases h' with
    | same => exact .array es es'
    | array _ es'' => exact .array es es''

theorem Body.Stays.symm {b b' : Body} (h : b.Stays b') : b'.Stays b := by
  cases h with
  | same => exact .same _
  | array es es' => exact .array es' es

namespace Machine

variable {m m₁ m₂ : Machine}

theorem Becomes.refl (m : Machine) : m.Becomes m := ⟨Nat.le_refl _, fun _ _ => .same _, rfl⟩

theorem Becomes.trans (h : m.Becomes m₁) (h' : m₁.Becomes m₂) : m.Becomes m₂ where
  size := Nat.le_trans h.size h'.size
  bodies r hr := (h.bodies r hr).trans (h'.bodies r (Nat.lt_of_lt_of_le hr h.size))
  trees := h'.trees.trans h.trees

theorem Becomes.of_heap (hheap : m₁.heap = m.heap) (htrees : m₁.trees = m.trees) : m.Becomes m₁ where
  size := Nat.le_of_eq (congrArg Array.size hheap.symm)
  bodies r _ := by
    have hcell : m₁.cell r = m.cell r := by rw [cell, cell, hheap]
    rw [hcell]
    exact .same _
  trees := htrees

theorem Knows.later {v : Value} (h : m.Knows v) (h' : m.Becomes m₁) : m₁.Knows v := by
  cases v with
  | object r => exact Nat.lt_of_lt_of_le (show r < m.heap.size from h) h'.size
  | _ => trivial

theorem KnowsAll.later {vs : List Value} (h : m.KnowsAll vs) (h' : m.Becomes m₁) : m₁.KnowsAll vs :=
  fun v hv => (h v hv).later h'

theorem knows_of_isObject {v : Value} (hv : v.isObject = false) : m.Knows v := by
  cases v with
  | object r => cases hv
  | _ => trivial

theorem KnowsAll.elements {c : Cell} {es : Array Value} (hc : m.KnowsAll c.held)
    (hbody : c.body = .array es) : m.KnowsAll es.toList := by
  intro v hv
  refine hc v (List.mem_append_left _ ?_)
  rw [hbody]
  exact hv

/-- What is no object of the store counts as a plain one. -/
theorem cell_of_size_le (m : Machine) {r : Ref} (hr : m.heap.size ≤ r) : m.cell r = default := by
  rw [cell, Array.getD_eq_getD_getElem?, Array.getElem?_eq_none hr]
  rfl

/-- What is no scope of the store counts as an empty one. -/
theorem frame_of_size_le (m : Machine) {f : FrameId} (hf : m.frames.size ≤ f) :
    m.frame f = default := by
  rw [frame, Array.getD_eq_getD_getElem?, Array.getElem?_eq_none hf]
  rfl

theorem lt_size_of_body {r : Ref} {b : Body} (hbody : (m.cell r).body = b) (hb : b ≠ .plain) :
    r < m.heap.size := by
  refine Nat.lt_of_not_le fun hle => hb ?_
  rw [← hbody, m.cell_of_size_le hle]
  rfl

theorem Becomes.stays (h : m.Becomes m₁) {r : Ref} {b : Body} (hr : r < m.heap.size)
    (hbody : (m.cell r).body = b) : b.Stays (m₁.cell r).body := hbody ▸ h.bodies r hr

/-- The body of a function is what it was. -/
theorem Becomes.closure (h : m.Becomes m₁) {r : Ref} {code : Node} {scopes : ScopeChain}
    {name : Text} (hbody : (m.cell r).body = .closure code scopes name) :
    (m₁.cell r).body = .closure code scopes name := by
  have hstays := h.stays (lt_size_of_body hbody fun h => by cases h) hbody
  generalize (m₁.cell r).body = b at hstays
  cases hstays
  rfl

/-- A plain object stays one. -/
theorem Becomes.plain (h : m.Becomes m₁) {r : Ref} (hr : r < m.heap.size)
    (hbody : (m.cell r).body = .plain) : (m₁.cell r).body = .plain := by
  have hstays := h.stays hr hbody
  generalize (m₁.cell r).body = b at hstays
  cases hstays
  rfl

/-- An array stays one. -/
theorem IsArray.later {r : Ref} (hr : m.IsArray r) (h : m.Becomes m₁) : m₁.IsArray r := by
  obtain ⟨es, hbody⟩ := hr
  have hstays := h.stays (lt_size_of_body hbody fun h => by cases h) hbody
  unfold IsArray
  generalize (m₁.cell r).body = b at hstays
  cases hstays with
  | same => exact ⟨es, rfl⟩
  | array _ es' => exact ⟨es', rfl⟩

end Machine

/-! ## Parts of a store -/

/-- A part of a store, whether its functions are accepted in some trees, and whether object literals
spread objects there. -/
structure Realm where
  objects : Ref → Prop
  scopes : FrameId → Prop
  strict : Prop
  trees : List Node
  spreads : Prop

/-- The jump with which a computation stops. -/
def Abrupt.jump? : Abrupt → Option Jump
  | .broken => some .broken
  | .continued => some .continued
  | .returned _ => some .returned
  | _ => none

/-- A failure that does not depend on the form of code, or that of an object literal that spreads an
object. -/
def Failure.Permitted (spreads : Prop) (f : Failure) : Prop :=
  f.isOperational = true ∨ f = .objectSpread ∧ spreads

/-- A way to stop that is permitted, or a jump of a certain kind. -/
def Abrupt.Among (spreads : Prop) (J : Jump → Prop) : Abrupt → Prop
  | .broken => J .broken
  | .continued => J .continued
  | .returned _ => J .returned
  | .failure f => f.Permitted spreads
  | _ => True

theorem Abrupt.Among.imp {spreads : Prop} {J K : Jump → Prop} {x : Abrupt} (h : x.Among spreads J)
    (himp : ∀ j, x.jump? = some j → J j → K j) : x.Among spreads K := by
  cases x with
  | broken => exact himp _ rfl h
  | continued => exact himp _ rfl h
  | returned v => exact himp _ rfl h
  | _ => exact h

namespace Realm

/-- The whole store, of whose functions nothing has to be known. -/
def whole : Realm := ⟨fun _ => True, fun _ => True, False, [], False⟩

/-- A result of which nothing has to be known. -/
def Any {α : Type} (_ : Machine) (_ : α) : Prop := True

variable (ρ : Realm)

/-- A value that is no object, or an object of the realm. -/
def Knows (m : Machine) : Value → Prop
  | .object r => r < m.heap.size ∧ ρ.objects r
  | _ => True

/-- Values that are known one by one. -/
def KnowsAll (m : Machine) (vs : List Value) : Prop := ∀ v ∈ vs, ρ.Knows m v

/-- A chain of scopes of the realm. -/
def Sees (scopes : ScopeChain) : Prop := ∀ f ∈ scopes, ρ.scopes f

/-- Code that may be called: in a strict realm it is, as it stands, an accepted function. -/
def Callable (code : Node) : Prop :=
  ρ.strict → (code.present ρ.trees).Accepted ρ.trees ρ.spreads ∧
    (code.present ρ.trees).form.isFunction = true

/-- An object that may be called, if it is a function of the running code. -/
def Covers (b : Body) : Prop :=
  ∀ code scopes name, b = .closure code scopes name → ρ.Callable code ∧ ρ.Sees scopes

/-- A machine on which the realm is closed. -/
structure Encloses (m : Machine) : Prop where
  size : Native.inherited.length ≤ m.heap.size
  inherited : ∀ r < Native.inherited.length, ρ.objects r
  free : ∀ r, m.heap.size ≤ r → ρ.objects r
  freeScopes : ∀ f, m.frames.size ≤ f → ρ.scopes f
  global : ρ.scopes m.global
  objects : ∀ r, ρ.objects r → ρ.KnowsAll m (m.cell r).held
  functions : ∀ r, ρ.objects r → ρ.Covers (m.cell r).body
  frames : ∀ f, ρ.scopes f → ρ.KnowsAll m (m.frame f).bindings.values
  trees : ρ.strict → m.trees = ρ.trees

/-- A way to stop with a value of the realm, if with any; in a strict realm, one that is permitted. -/
def Allows (J : Jump → Prop) (m : Machine) (x : Abrupt) : Prop :=
  (∀ v, x.value? = some v → ρ.Knows m v) ∧ (ρ.strict → x.Among ρ.spreads J)

/-- How a run ends that started on a machine: on one that the first has become and on which the realm is
closed, with a result of which something is known or in a way that is allowed. -/
def Reaches {α : Type} (J : Jump → Prop) (m : Machine) (Q : Machine → α → Prop) :
    EStateM.Result Abrupt Machine α → Prop
  | .ok a m' => m.Becomes m' ∧ ρ.Encloses m' ∧ Q m' a
  | .error x m' => m.Becomes m' ∧ ρ.Encloses m' ∧ ρ.Allows J m' x

/-- A computation that does not leave the realm on anything that a machine has become. -/
def Maintains {α : Type} (J : Jump → Prop) (m : Machine) (Q : Machine → α → Prop) (c : Run α) : Prop :=
  ∀ m₁, m.Becomes m₁ → ρ.Encloses m₁ → ρ.Reaches J m₁ Q (c m₁)

/-- Code that is accepted if the realm is strict. -/
def Accepts (n : Node) : Prop := ρ.strict → n.Accepted ρ.trees ρ.spreads

/-- Code that is accepted and may stand in slots of a kind, if the realm is strict. -/
def Fits (k : Category) (n : Node) : Prop :=
  ρ.strict → n.Accepted ρ.trees ρ.spreads ∧ n.fits k = true

/-- Code out of which only certain jumps lead, if the realm is strict. -/
def Confines (J : Jump → Prop) (n : Node) : Prop := ρ.strict → ∀ j, n.opens j = true → J j

/-- Code that runs in scopes of the realm does not leave it. -/
structure Governs (ev : Evaluator) : Prop where
  expression : ∀ J m n scopes, ρ.Fits .expression n → ρ.Sees scopes →
    ρ.Maintains J m ρ.Knows (ev.expression n scopes)
  statement : ∀ J m n scopes, ρ.Fits .statement n → ρ.Confines J n → ρ.Sees scopes →
    ρ.Maintains J m Any (ev.statement n scopes)
  call : ∀ J m f this args, ρ.Knows m f → ρ.Knows m this → ρ.KnowsAll m args →
    ρ.Maintains J m ρ.Knows (ev.call f this args)

variable {ρ : Realm} {J K : Jump → Prop} {m m₁ m₂ : Machine} {α β : Type} {Q : Machine → α → Prop}
  {Q' : Machine → β → Prop}

/-! ## Known values -/

theorem Knows.later {v : Value} (h : ρ.Knows m v) (h' : m.Becomes m₁) : ρ.Knows m₁ v := by
  cases v with
  | object r => exact ⟨Nat.lt_of_lt_of_le h.1 h'.size, h.2⟩
  | _ => trivial

theorem KnowsAll.later {vs : List Value} (h : ρ.KnowsAll m vs) (h' : m.Becomes m₁) :
    ρ.KnowsAll m₁ vs := fun v hv => (h v hv).later h'

theorem KnowsAll.of_subset {vs ws : List Value} (h : ρ.KnowsAll m vs) (hsub : ws ⊆ vs) :
    ρ.KnowsAll m ws := fun v hv => h v (hsub hv)

theorem KnowsAll.append {vs ws : List Value} (h : ρ.KnowsAll m vs) (h' : ρ.KnowsAll m ws) :
    ρ.KnowsAll m (vs ++ ws) := fun v hv => (List.mem_append.mp hv).elim (h v) (h' v)

theorem knowsAll_nil (ρ : Realm) (m : Machine) : ρ.KnowsAll m [] := fun _ hv => by cases hv

theorem KnowsAll.cons {v : Value} {vs : List Value} (hv : ρ.Knows m v) (h : ρ.KnowsAll m vs) :
    ρ.KnowsAll m (v :: vs) := List.forall_mem_cons.mpr ⟨hv, h⟩

theorem KnowsAll.put {κ : Type} [BEq κ] {d : Dict κ Value} (hd : ρ.KnowsAll m d.values) {v : Value}
    (hv : ρ.Knows m v) (key : κ) : ρ.KnowsAll m (d.put key v).values := by
  intro w hw
  obtain rfl | hw := Dict.mem_values_put hw
  · exact hv
  · exact hd w hw

/-- An argument that was not given is `undefined`. -/
theorem KnowsAll.getD {vs : List Value} (h : ρ.KnowsAll m vs) (i : Nat) :
    ρ.Knows m (vs.getD i .undefined) := by
  rw [List.getD_eq_getElem?_getD]
  cases hi : vs[i]? with
  | none => trivial
  | some v => exact h v (List.mem_of_getElem? hi)

theorem Sees.cons {f : FrameId} {scopes : ScopeChain} (hf : ρ.scopes f) (h : ρ.Sees scopes) :
    ρ.Sees (f :: scopes) := List.forall_mem_cons.mpr ⟨hf, h⟩

/-! ## The whole store -/

theorem knows_whole {v : Value} : whole.Knows m v ↔ m.Knows v := by
  cases v with
  | object r => exact ⟨fun h => h.1, fun h => ⟨h, trivial⟩⟩
  | _ => exact Iff.rfl

theorem knowsAll_whole {vs : List Value} : whole.KnowsAll m vs ↔ m.KnowsAll vs :=
  forall₂_congr fun _ _ => knows_whole

theorem sees_whole (scopes : ScopeChain) : whole.Sees scopes := fun _ _ => trivial

theorem covers_whole (b : Body) : whole.Covers b :=
  fun _ scopes _ _ => ⟨fun h => h.elim, sees_whole scopes⟩

/-- The whole store is closed if it is complete. -/
theorem encloses_whole : whole.Encloses m ↔ m.Complete := by
  constructor
  · intro h
    exact ⟨h.size, fun r => knowsAll_whole.mp (h.objects r trivial),
      fun f => knowsAll_whole.mp (h.frames f trivial)⟩
  · intro h
    exact
      { size := h.inherited
        inherited := fun _ _ => trivial
        free := fun _ _ => trivial
        freeScopes := fun _ _ => trivial
        global := trivial
        objects := fun r _ => knowsAll_whole.mpr (h.objects r)
        functions := fun r _ => covers_whole _
        frames := fun f _ => knowsAll_whole.mpr (h.frames f)
        trees := fun h => h.elim }

/-- What is known of a run on a complete store that comes to a result. -/
theorem Maintains.ok {c : Run α} (hc : whole.Maintains J m Q c) (hm : m.Complete) {a : α}
    (hrun : c m = .ok a m₁) : m.Becomes m₁ ∧ m₁.Complete ∧ Q m₁ a := by
  have hreach := hc m (.refl m) (encloses_whole.mpr hm)
  rw [hrun] at hreach
  exact ⟨hreach.1, encloses_whole.mp hreach.2.1, hreach.2.2⟩

/-! ## Code -/

section Code

variable {c n : Node} {f : Form} {r : Role} {k : Category}

theorem Fits.accepts (h : ρ.Fits k n) : ρ.Accepts n := fun hs => (h hs).1

theorem Fits.form (h : ρ.Fits k n) (hk : k.form? = some f) : ρ.strict → n.form = f :=
  fun hs => Node.form_of_fits hk (h hs).2

/-- A part of accepted code is of the kind that belongs in its slot. -/
theorem Accepts.part (hn : ρ.Accepts n) (hform : ρ.strict → n.form = f) (hc : c ∈ n.childrenAt r) :
    ρ.Fits (f.category r) c := by
  intro hs
  obtain ⟨hmem, rfl⟩ := Node.mem_childrenAt.mp hc
  obtain rfl := hform hs
  exact ⟨(hn hs).child hmem, (hn hs).fits hmem⟩

theorem Accepts.child (hn : ρ.Accepts n) (hform : ρ.strict → n.form = f)
    (hc : n.child? r = some c) : ρ.Fits (f.category r) c :=
  hn.part hform (Node.mem_childrenAt.mpr (Node.mem_of_child? hc))

/-- A jump that leads out of a part may end in the code around it. -/
theorem Confines.part (hn : ρ.Confines J n) (hform : ρ.strict → n.form = f)
    (hc : c ∈ n.childrenAt r) : ρ.Confines (f.inside r J) c := by
  intro hs j hj
  obtain ⟨hmem, rfl⟩ := Node.mem_childrenAt.mp hc
  cases htakes : f.takes c.role j with
  | true => exact .inl htakes
  | false => exact .inr (hn hs j (Node.opens_of_child hmem (hform hs ▸ htakes) hj))

/-- A jump that leads out of a part leads out of the code around it, where no jump ends. -/
theorem Confines.through (hn : ρ.Confines J n) (hform : ρ.strict → n.form = f)
    (htakes : ∀ j, f.takes r j = false) (hc : c ∈ n.childrenAt r) : ρ.Confines J c :=
  fun hs j hj => (hn.part hform hc hs j hj).resolve_left (by rw [htakes]; exact Bool.false_ne_true)

theorem Confines.child (hn : ρ.Confines J n) (hform : ρ.strict → n.form = f)
    (htakes : ∀ j, f.takes r j = false) (hc : n.child? r = some c) : ρ.Confines J c :=
  hn.through hform htakes (Node.mem_childrenAt.mpr (Node.mem_of_child? hc))

/-- Only a `return` leads out of a loop from its body. -/
theorem Confines.body (hn : ρ.Confines J n) (hform : ρ.strict → n.form = f)
    (hloop : ∀ j, f.takes .body j = (j != .returned)) (hc : n.child? .body = some c) :
    ρ.Confines (fun j => j ≠ .returned ∨ J j) c := by
  intro hs j hj
  obtain htakes | hout :=
    hn.part hform (Node.mem_childrenAt.mpr (Node.mem_of_child? hc)) hs j hj
  · rw [hloop, bne_iff_ne] at htakes
    exact .inl htakes
  · exact .inr hout

/-- A block is a statement. -/
theorem Fits.block (h : ρ.Fits .block n) : ρ.Fits .statement n := by
  intro hs
  obtain ⟨haccepted, hfits⟩ := h hs
  refine ⟨haccepted, ?_⟩
  change n.form.isStatementLike = true
  rw [Node.form_of_fits rfl hfits]
  rfl

theorem Fits.executed (h : ρ.Fits k n) (hk : k = .statement ∨ k = .block) : ρ.Fits .statement n := by
  obtain rfl | rfl := hk
  · exact h
  · exact h.block

/-- The parameters of an accepted function. -/
theorem Accepts.parameter (hn : ρ.Accepts n) (hfunction : ρ.strict → n.form.isFunction = true)
    (hc : c ∈ n.childrenAt .params) : ρ.Fits .parameter c := by
  intro hs
  have hfits := hn.part (fun _ => rfl) hc hs
  rwa [Form.category_params (hfunction hs)] at hfits

/-- The body of an accepted function. -/
theorem Accepts.functionBody (hn : ρ.Accepts n) (hfunction : ρ.strict → n.form.isFunction = true)
    (hc : n.child? .body = some c) : ρ.Fits .arrowBody c := by
  intro hs
  obtain ⟨haccepted, hfits⟩ := hn.child (fun _ => rfl) hc hs
  exact ⟨haccepted, Node.fits_arrowBody (hfunction hs) hfits⟩

end Code

/-! ## Sequences, handlers, loops -/

theorem Allows.later {x : Abrupt} (h : ρ.Allows J m x) (h' : m.Becomes m₁) : ρ.Allows J m₁ x :=
  ⟨fun v hv => (h.1 v hv).later h', h.2⟩

theorem Reaches.from {x : EStateM.Result Abrupt Machine α} (hx : ρ.Reaches J m₁ Q x)
    (h : m.Becomes m₁) : ρ.Reaches J m Q x := by
  cases x with
  | ok a m' => exact ⟨h.trans hx.1, hx.2⟩
  | error y m' => exact ⟨h.trans hx.1, hx.2⟩

namespace Maintains

theorem later {c : Run α} (hc : ρ.Maintains J m Q c) (h : m.Becomes m₁) :
    ρ.Maintains J m₁ Q c := fun m₂ h' hm => hc m₂ (h.trans h') hm

theorem result {a : α} (h : ∀ m₁, m.Becomes m₁ → Q m₁ a) : ρ.Maintains J m Q (pure a) :=
  fun m₁ h' hm => ⟨.refl m₁, hm, h m₁ h'⟩

theorem value {v : Value} (h : ρ.Knows m v) : ρ.Maintains J m ρ.Knows (pure v) :=
  .result fun _ h' => h.later h'

theorem any (a : α) : ρ.Maintains J m Any (pure a) := .result fun _ _ => trivial

theorem stop {x : Abrupt} (h : ρ.Allows J m x) : ρ.Maintains J m Q (throw x) :=
  fun m₁ h' hm => ⟨.refl m₁, hm, h.later h'⟩

/-- Stopping without a value. -/
theorem halt {x : Abrupt} (h : x.value? = none) (hx : ρ.strict → x.Among ρ.spreads J) :
    ρ.Maintains J m Q (throw x) :=
  .stop ⟨fun v hv => (by rw [h] at hv; cases hv), hx⟩

/-- In a strict realm code fails on operators and on values only. -/
theorem fail {f : Failure} (hf : ρ.strict → f.isOperational = true) :
    ρ.Maintains J m Q (Run.fail f) := .halt rfl fun hs => .inl (hf hs)

/-- An object literal may fail on a spread where the realm has one. -/
theorem failSpread (hspread : ρ.strict → ρ.spreads) :
    ρ.Maintains J m Q (Run.fail .objectSpread) := .halt rfl fun hs => .inr ⟨rfl, hspread hs⟩

theorem weaken {Q₁ : Machine → α → Prop} {c : Run α} (hc : ρ.Maintains J m Q c)
    (h : ∀ m₁ a, m.Becomes m₁ → Q m₁ a → Q₁ m₁ a) : ρ.Maintains J m Q₁ c := by
  intro m₁ h' hm
  have hreach := hc m₁ h' hm
  cases hrun : c m₁ with
  | ok a m₂ =>
    rw [hrun] at hreach
    exact ⟨hreach.1, hreach.2.1, h m₂ a (h'.trans hreach.1) hreach.2.2⟩
  | error x m₂ =>
    rw [hrun] at hreach
    exact hreach

theorem toAny {c : Run α} (hc : ρ.Maintains J m Q c) : ρ.Maintains J m Any c :=
  hc.weaken fun _ _ _ _ => trivial

theorem bind {c : Run α} {k : α → Run β} (hc : ρ.Maintains J m Q c)
    (hk : ∀ m₁ a, m.Becomes m₁ → Q m₁ a → ρ.Maintains J m₁ Q' (k a)) :
    ρ.Maintains J m Q' (c >>= k) := by
  intro m₁ h hm
  have hreach := hc m₁ h hm
  cases hrun : c m₁ with
  | error x m₂ =>
    rw [hrun] at hreach
    rw [bind_of_error hrun]
    exact hreach
  | ok a m₂ =>
    rw [hrun] at hreach
    rw [bind_of_ok hrun]
    exact (hk m₂ a (h.trans hreach.1) hreach.2.2 m₂ (.refl m₂) hreach.2.1).from hreach.1

/-- Going on after a computation of whose result nothing has to be known. -/
theorem andThen {c : Run α} {k : α → Run β} (hc : ρ.Maintains J m Q c)
    (hk : ∀ m₁ a, m.Becomes m₁ → ρ.Maintains J m₁ Q' (k a)) : ρ.Maintains J m Q' (c >>= k) :=
  hc.bind fun m₁ a h _ => hk m₁ a h

/-- A value that is no object is known, whatever it is computed from. -/
theorem map {c : Run α} (hc : ρ.Maintains J m Q c) {f : α → β}
    (hf : ∀ m₁ a, Q m₁ a → Q' m₁ (f a)) : ρ.Maintains J m Q' (do return f (← c)) := by
  intro m₁ h hm
  have hreach := hc m₁ h hm
  cases hrun : c m₁ with
  | error x m₂ =>
    rw [hrun] at hreach
    rw [bind_of_error hrun]
    exact hreach
  | ok a m₂ =>
    rw [hrun] at hreach
    rw [bind_of_ok hrun]
    exact ⟨hreach.1, hreach.2.1, hf m₂ a hreach.2.2⟩

theorem look {k : Machine → Run α}
    (hk : ∀ m₁, m.Becomes m₁ → ρ.Encloses m₁ → ρ.Maintains J m₁ Q (k m₁)) :
    ρ.Maintains J m Q (get >>= k) := fun m₁ h hm => hk m₁ h hm m₁ (.refl m₁) hm

/-- A handler may catch jumps that do not lead out of the whole. -/
theorem guarded {c : Run α} {handler : Abrupt → Run α} (hc : ρ.Maintains K m Q c)
    (hhandler : ∀ m₁ x, m.Becomes m₁ → ρ.Allows K m₁ x → ρ.Maintains J m₁ Q (handler x)) :
    ρ.Maintains J m Q (tryCatch c handler) := by
  intro m₁ h hm
  have hreach := hc m₁ h hm
  cases hrun : c m₁ with
  | ok a m₂ =>
    rw [hrun] at hreach
    rw [tryCatch_of_ok hrun]
    exact hreach
  | error x m₂ =>
    rw [hrun] at hreach
    rw [tryCatch_of_error hrun]
    exact (hhandler m₂ x (h.trans hreach.1) hreach.2.2 m₂ (.refl m₂) hreach.2.1).from hreach.1

theorem thenAlways {c : Run α} {after : Run Unit} (hc : ρ.Maintains J m Q c)
    (hafter : ρ.Maintains J m Any after) (hQ : ∀ m₁ m₂ a, m₁.Becomes m₂ → Q m₁ a → Q m₂ a) :
    ρ.Maintains J m Q (Run.thenAlways c after) := by
  intro m₁ h hm
  have hreach := hc m₁ h hm
  rw [thenAlways_eq]
  cases hrun : c m₁ with
  | ok a m₂ =>
    rw [hrun] at hreach
    have hlast := hafter m₂ (h.trans hreach.1) hreach.2.1
    simp only [stateOf]
    cases hrun' : after m₂ with
    | ok u m₃ =>
      rw [hrun'] at hlast
      exact ⟨hreach.1.trans hlast.1, hlast.2.1, hQ m₂ m₃ a hlast.1 hreach.2.2⟩
    | error x m₃ =>
      rw [hrun'] at hlast
      exact ⟨hreach.1.trans hlast.1, hlast.2⟩
  | error x m₂ =>
    rw [hrun] at hreach
    have hlast := hafter m₂ (h.trans hreach.1) hreach.2.1
    simp only [stateOf]
    cases hrun' : after m₂ with
    | ok u m₃ =>
      rw [hrun'] at hlast
      exact ⟨hreach.1.trans hlast.1, hlast.2.1, hreach.2.2.later hlast.1⟩
    | error y m₃ =>
      rw [hrun'] at hlast
      exact ⟨hreach.1.trans hlast.1, hlast.2⟩

theorem rounds {round : Run Bool} (hround : ρ.Maintains J m Any round) (fuel : Nat) :
    ρ.Maintains J m Any (Run.rounds round fuel) := by
  induction fuel generalizing m with
  | zero => exact .any ()
  | succ fuel ih =>
    refine hround.andThen fun m₁ more h => ?_
    split
    · exact ih (hround.later h)
    · exact .any ()

theorem repeatRounds {round : Run Bool} (hround : ρ.Maintains J m Any round) :
    ρ.Maintains J m Any (Run.repeatRounds round) :=
  .look fun _ h _ => (hround.later h).rounds _

theorem mapList {γ : Type} {f : γ → Run β} {l : List γ} {P : Machine → β → Prop}
    (hf : ∀ m₁ x, m.Becomes m₁ → x ∈ l → ρ.Maintains J m₁ P (f x))
    (hP : ∀ m₁ m₂ b, m₁.Becomes m₂ → P m₁ b → P m₂ b) :
    ρ.Maintains J m (fun m₁ bs => ∀ b ∈ bs, P m₁ b) (l.mapM f) := by
  induction l generalizing m with
  | nil => exact .result fun _ _ _ hb => by cases hb
  | cons x xs ih =>
    rw [List.mapM_cons]
    refine (hf m x (.refl m) List.mem_cons_self).bind fun m₁ b h hb => ?_
    refine (ih fun m₂ y h' hy => hf m₂ y (h.trans h') (List.mem_cons_of_mem _ hy)).bind
      fun m₂ bs h' hbs => .result fun m₃ h'' => ?_
    exact List.forall_mem_cons.mpr
      ⟨hP m₁ m₃ b (h'.trans h'') hb, fun y hy => hP m₂ m₃ y h'' (hbs y hy)⟩

end Maintains

/-! ## Objects and scopes -/

/-- A machine on which counters have changed, or variables for others that are known. -/
theorem Encloses.of_store (hm : ρ.Encloses m) (hheap : m₁.heap = m.heap)
    (hsize : m.frames.size ≤ m₁.frames.size) (hglobal : m₁.global = m.global)
    (htrees : m₁.trees = m.trees)
    (hvariables : ∀ f, ρ.scopes f → ρ.KnowsAll m (m₁.frame f).bindings.values) :
    ρ.Encloses m₁ := by
  have hcell : ∀ r, m₁.cell r = m.cell r := fun r => by rw [Machine.cell, Machine.cell, hheap]
  have hbecomes : m.Becomes m₁ := .of_heap hheap htrees
  exact
    { size := hheap ▸ hm.size
      inherited := hm.inherited
      free := fun r hr => hm.free r (hheap ▸ hr)
      freeScopes := fun f hf => hm.freeScopes f (Nat.le_trans hsize hf)
      global := hglobal ▸ hm.global
      objects := fun r hr => hcell r ▸ (hm.objects r hr).later hbecomes
      functions := fun r hr => hcell r ▸ hm.functions r hr
      frames := fun f hf => (hvariables f hf).later hbecomes
      trees := fun hs => htrees.trans (hm.trees hs) }

/-- A machine on which objects have changed, or there are more of them. -/
theorem Encloses.of_heap (hm : ρ.Encloses m) {heap : Heap}
    (hbecomes : m.Becomes { m with heap := heap })
    (hobjects : ∀ r, ρ.objects r →
      ρ.KnowsAll { m with heap := heap } (({ m with heap := heap } : Machine).cell r).held)
    (hfunctions : ∀ r, ρ.objects r → ρ.Covers (({ m with heap := heap } : Machine).cell r).body) :
    ρ.Encloses { m with heap := heap } where
  size := Nat.le_trans hm.size hbecomes.size
  inherited := hm.inherited
  free r hr := hm.free r (Nat.le_trans hbecomes.size hr)
  freeScopes := hm.freeScopes
  global := hm.global
  objects := hobjects
  functions := hfunctions
  frames f hf := (hm.frames f hf).later hbecomes
  trees := hm.trees

theorem Encloses.withMeter (hm : ρ.Encloses m) (t : Meter) : ρ.Encloses (m.withMeter t) :=
  hm.of_store rfl (Nat.le_refl _) rfl rfl hm.frames

/-- What is not a function of the running code may be called. -/
theorem covers_of_ne {b : Body} (hb : ∀ code scopes name, b ≠ .closure code scopes name) :
    ρ.Covers b := fun code scopes name h => absurd h (hb code scopes name)

/-- An object that stays of its kind may be called as before. -/
theorem Covers.stays {b b' : Body} (h : ρ.Covers b) (hstays : b.Stays b') : ρ.Covers b' := by
  cases hstays with
  | same => exact h
  | array => exact covers_of_ne fun _ _ _ h => by cases h

namespace Maintains

theorem allocate {c : Cell} (hheld : ρ.KnowsAll m c.held) (hbody : ρ.Covers c.body) :
    ρ.Maintains J m (fun m₁ r => ρ.Knows m₁ (.object r)) (Run.allocate c) := by
  intro m₁ h hm
  have hsize : (m₁.heap.push c).size = m₁.heap.size + 1 := Array.size_push _
  have hbecomes : m₁.Becomes { m₁ with heap := m₁.heap.push c } := by
    refine ⟨by rw [hsize]; exact Nat.le_succ _, fun r hr => ?_, rfl⟩
    rw [Pairing.cell_push, if_neg (Nat.ne_of_lt hr)]
    exact .same _
  refine ⟨hbecomes, hm.of_heap hbecomes (fun r hr => ?_) (fun r hr => ?_), ?_, hm.free _ (Nat.le_refl _)⟩
  · rw [Pairing.cell_push]
    split
    · exact hheld.later (h.trans hbecomes)
    · exact (hm.objects r hr).later hbecomes
  · rw [Pairing.cell_push]
    split
    · exact hbody
    · exact hm.functions r hr
  · show m₁.heap.size < (m₁.heap.push c).size
    rw [hsize]
    exact Nat.lt_succ_self _

theorem setCell {r : Ref} {c : Cell}
    (hbody : ∀ m₁, m.Becomes m₁ → (m₁.cell r).body.Stays c.body) (hc : ρ.KnowsAll m c.held) :
    ρ.Maintains J m Any (Run.setCell r c) := by
  intro m₁ h hm
  have hsize : (m₁.heap.setIfInBounds r c).size = m₁.heap.size := Array.size_setIfInBounds
  have hbecomes : m₁.Becomes { m₁ with heap := m₁.heap.setIfInBounds r c } := by
    refine ⟨Nat.le_of_eq hsize.symm, fun q hq => ?_, rfl⟩
    rw [Pairing.cell_set]
    split
    · next heq =>
      rw [← heq.1]
      exact hbody m₁ h
    · exact .same _
  refine ⟨hbecomes, hm.of_heap hbecomes (fun q hq => ?_) (fun q hq => ?_), trivial⟩
  · rw [Pairing.cell_set]
    split
    · exact hc.later (h.trans hbecomes)
    · exact (hm.objects q hq).later hbecomes
  · rw [Pairing.cell_set]
    split
    · next heq =>
      obtain ⟨rfl, -⟩ := heq
      exact (hm.functions r hq).stays (hbody m₁ h)
    · exact hm.functions q hq

theorem declare {v : Value} (hv : ρ.Knows m v) (f : FrameId) (name : Text) :
    ρ.Maintains J m Any (Run.declare f name v) := by
  intro m₁ h hm
  refine ⟨.of_heap rfl rfl, hm.of_store rfl ?_ rfl rfl fun g hg => ?_, trivial⟩
  · exact Nat.le_of_eq Array.size_modify.symm
  · rw [Pairing.frame_modify]
    split
    · exact (hm.frames g hg).put (hv.later h) name
    · exact hm.frames g hg

theorem newFrame (isFunction capturesGlobals : Bool) :
    ρ.Maintains J m (fun _ f => ρ.scopes f) (Run.newFrame isFunction capturesGlobals) := by
  intro m₁ h hm
  refine ⟨.of_heap rfl rfl, hm.of_store rfl ?_ rfl rfl fun g hg => ?_, hm.freeScopes _ (Nat.le_refl _)⟩
  · exact Nat.le_of_lt (by simp)
  · rw [Pairing.frame_push]
    split
    · exact knowsAll_nil ρ m₁
    · exact hm.frames g hg

theorem blockScope {scopes : ScopeChain} (hs : ρ.Sees scopes) :
    ρ.Maintains J m (fun _ inner => ρ.Sees inner) (Run.blockScope scopes) :=
  (newFrame _ _).bind fun _ _ _ hf => .result fun _ _ => hs.cons hf

theorem tick : ρ.Maintains J m Any Run.tick := by
  intro m₁ h hm
  have hencloses := hm.withMeter { m₁.meter with steps := m₁.steps + 1 }
  rw [tick_eq]
  split
  · exact ⟨.of_heap rfl rfl, hencloses, fun v hv => (by cases hv), fun _ => trivial⟩
  · exact ⟨.of_heap rfl rfl, hencloses, trivial⟩

theorem atDepth (m : Machine) (f : Nat → Nat) :
    ρ.Maintains J m Any (modify fun m₁ : Machine => { m₁ with depth := f m₁.depth }) :=
  fun m₁ _ hm =>
    ⟨.of_heap rfl rfl, hm.withMeter { m₁.meter with depth := f m₁.depth }, trivial⟩

end Maintains

/-- The value of a variable, which may not exist. -/
theorem Encloses.variable (hm : ρ.Encloses m) {f : FrameId} (hf : ρ.scopes f) (name : Text) :
    ρ.Knows m (m.variable f name) := by
  unfold Machine.variable
  cases hget : (m.frame f).bindings.get? name with
  | none => trivial
  | some v => exact hm.frames f hf v (Dict.mem_values_of_get? hget)

/-! ## Objects that are looked at -/

namespace Maintains

theorem newObject {properties : Dict Text Value} (h : ρ.KnowsAll m properties.values) :
    ρ.Maintains J m ρ.Knows (Run.newObject properties) :=
  (allocate (c := ⟨.plain, properties⟩) h (covers_of_ne fun _ _ _ h => by cases h)).map
    fun _ _ hr => hr

theorem newArray {es : Array Value} (h : ρ.KnowsAll m es.toList) :
    ρ.Maintains J m ρ.Knows (Run.newArray es) :=
  (allocate (c := ⟨.array es, .empty⟩) (h.append (knowsAll_nil ρ m))
    (covers_of_ne fun _ _ _ h => by cases h)).map fun _ _ hr => hr

theorem raise (kind : String) (message : Text) : ρ.Maintains J m Q (Run.raise kind message) := by
  have hproperties : ∀ name text : Text, ρ.KnowsAll m
      (Dict.ofList [(Text.of "name", .string name), (Text.of "message", .string text)]).values :=
    fun name text =>
      ((knowsAll_nil ρ m).put (v := .string name) trivial _).put (v := .string text) trivial _
  refine (newObject (hproperties _ _)).bind fun m₁ v _ hv => .stop ⟨fun w hw => ?_, fun _ => trivial⟩
  cases hw
  exact hv

/-- A look at objects, the result of which is known. -/
theorem readingOf {cs : List Conversion} {f : Heap → Except Abrupt α} (hf : ∀ h, Proper cs (f h))
    (hQ : ∀ m₁ a, m.Becomes m₁ → ρ.Encloses m₁ → f m₁.heap = .ok a → Q m₁ a) :
    ρ.Maintains J m Q (Run.reading f) := by
  intro m₁ h hm
  rw [reading_eq]
  cases hx : f m₁.heap with
  | ok a => exact ⟨.refl m₁, hm, hQ m₁ a h hm hx⟩
  | error x =>
    have hconversion := hf m₁.heap x hx
    refine ⟨.refl m₁, hm, fun v hv => ?_, fun _ => ?_⟩
    · cases x with
      | thrown w => cases hconversion
      | returned w => cases hconversion
      | _ => cases hv
    · cases x with
      | failure f => exact .inl hconversion
      | limit l => trivial
      | fault f => trivial
      | _ => cases hconversion

theorem reading {cs : List Conversion} {f : Heap → Except Abrupt α} (hf : ∀ h, Proper cs (f h)) :
    ρ.Maintains J m Any (Run.reading f) := .readingOf hf fun _ _ _ _ _ => trivial

theorem lookup {scopes : ScopeChain} (hs : ρ.Sees scopes) (name : Text) :
    ρ.Maintains J m ρ.Knows (Run.lookup scopes name) := by
  refine .look fun m₁ _ hm => ?_
  split
  · next f hf => exact .value (hm.variable (hs f (mem_of_findScope hf)) name)
  · exact .raise _ _

theorem isBound (scopes : ScopeChain) (name : Text) :
    ρ.Maintains J m Any (Run.isBound scopes name) := .look fun _ _ _ => .any _

theorem assign {v : Value} (hv : ρ.Knows m v) (scopes : ScopeChain) (name : Text) :
    ρ.Maintains J m Any (Run.assign scopes name v) :=
  .look fun _ h _ => .declare (hv.later h) _ name

theorem varScope (scopes : ScopeChain) : ρ.Maintains J m Any (Run.varScope scopes) :=
  .look fun _ _ _ => .any _

/-- An object, of which nothing has to be known. -/
theorem anyCell (r : Ref) {k : Cell → Run α} (hk : ∀ m₁ c, ρ.Maintains J m₁ Q (k c)) :
    ρ.Maintains J m Q (Run.cell r >>= k) :=
  .look (k := fun m₁ => k (m₁.cell r)) fun m₁ _ _ => hk m₁ _

/-- An object of the realm, and what it holds. -/
theorem ofCell {r : Ref} (hr : ρ.Knows m (.object r)) {k : Cell → Run α}
    (hk : ∀ m₁ c, m.Becomes m₁ → m₁.cell r = c → ρ.KnowsAll m₁ c.held → ρ.Maintains J m₁ Q (k c)) :
    ρ.Maintains J m Q (Run.cell r >>= k) :=
  .look (k := fun m₁ => k (m₁.cell r)) fun m₁ h hm => hk m₁ _ h rfl (hm.objects r hr.2)

end Maintains

end Realm

end Untangle.Sandbox
