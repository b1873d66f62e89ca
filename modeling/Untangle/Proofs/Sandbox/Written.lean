import Untangle.Proofs.Folding.Outcome
import Untangle.Proofs.Sandbox.Structure
import Untangle.Proofs.Unwrapping.Operands

set_option autoImplicit false

/-!
# Values written as trees

The tree of a value, evaluated on a new machine, gives a value of the same structure, unless the value has
no tree: a function is inside of it, or it contains itself.  What is not written are the properties that
arrays have besides their elements, and with them the structure is lost.

The main theorem is `tree_restores_value`, for values without such properties.  A value that contains itself
is one of its cases: there the tree is never finished, and the run ends.
-/

namespace Untangle

namespace Dict

variable {β : Type}

/-- A new key goes to the end. -/
theorem putIn_of_notMem {k : Text} {es : List (Text × β)} (hk : k ∉ es.map (·.1)) (v : β) :
    putIn k v es = es ++ [(k, v)] := by
  induction es with
  | nil => rfl
  | cons e es ih =>
    rw [List.map_cons, List.mem_cons, not_or] at hk
    have hne : (e.1 == k) = false := by simpa using Ne.symm hk.1
    rw [putIn, hne, if_neg Bool.false_ne_true, ih hk.2]
    rfl

end Dict

namespace Sandbox

open Rule.Folding

/-! ## Machines that know the names of values -/

/-- The machine with further objects, after some steps. -/
def Machine.added (m : Machine) (cells : Array Cell) (steps : Nat) : Machine :=
  { m with heap := m.heap ++ cells, steps := m.steps + steps }

theorem Machine.added_added (m : Machine) (cells cells' : Array Cell) (a b : Nat) :
    (m.added cells a).added cells' b = m.added (cells ++ cells') (a + b) := by
  unfold added
  rw [Array.append_assoc, Nat.add_assoc]

theorem Machine.added_zero (m : Machine) : m.added #[] 0 = m := by
  unfold added
  rw [Array.append_empty, Nat.add_zero]

/-- Some variables for which the names of values that have no literal stand for them. -/
structure NamesValues (frames : Array Frame) (scopes : ScopeChain) : Prop where
  numbers : ∀ m : Machine, m.frames = frames → NumbersNamed m scopes
  undefined : ∀ m : Machine, m.frames = frames → Run.lookup scopes "undefined" m = .ok .undefined m

theorem namesValues_restart (store : Machine) (maxSteps maxDepth : Nat) :
    NamesValues (store.restart maxSteps maxDepth).frames
      (store.restart maxSteps maxDepth).globalChain := by
  obtain ⟨vs, hvs, hbindings⟩ := bindings_restart store maxSteps maxDepth
  have hnodup : (vs.map (·.1)).Nodup := by
    rw [hvs.names]
    decide
  refine ⟨fun m hframes => numbersNamed_restart store maxSteps maxDepth hframes, fun m hframes => ?_⟩
  exact lookup_of_bindings hframes (hbindings ▸ Dict.get?_ofList hnodup hvs.undefined)

/-! ## Trees that come to values -/

section

variable (h : Heap) (cost : Nat)

/-- With so many steps and so much depth, a tree evaluates to a value that is like a given one. -/
def ComesTo (n : Node) (v : Value) : Prop :=
  ∀ (depth : Nat) (scopes : ScopeChain) (m : Machine), NamesValues m.frames scopes → cost ≤ depth →
    m.steps + cost ≤ m.maxSteps →
    ∃ v' cells, ∃ a ≤ cost, (evaluator depth).expression n scopes m = .ok v' (m.added cells a) ∧
      Alike h (m.heap ++ cells) v v'

/-- The same for the elements of an array literal. -/
def ElementsComeTo (ns : List Node) (vs : List Value) : Prop :=
  ∀ (depth : Nat) (scopes : ScopeChain) (m : Machine), NamesValues m.frames scopes → cost ≤ depth →
    m.steps + cost ≤ m.maxSteps →
    ∃ vs' cells, ∃ a ≤ cost,
      Run.evaluateList (evaluator depth) scopes (ns.map (Node.inRole .elements)) m =
          .ok vs' (m.added cells a) ∧
        AllAlike h (m.heap ++ cells) vs vs'

/-- The same for the properties of an object literal whose keys are not put yet. -/
def PropertiesComeTo (ns : List Node) (es : List (Text × Value)) : Prop :=
  ∀ (depth : Nat) (scopes : ScopeChain) (m : Machine) (d : Dict Text Value),
    NamesValues m.frames scopes → cost ≤ depth → m.steps + cost ≤ m.maxSteps →
    (∀ key ∈ es.map (·.1), key ∉ d.entries.map (·.1)) →
    ∃ es' cells, ∃ a ≤ cost,
      Run.putProperties (evaluator depth) scopes (ns.map (Node.inRole .properties)) d m =
          .ok ⟨d.entries ++ es'⟩ (m.added cells a) ∧
        EntriesAlike h (m.heap ++ cells) es es'

end

section

variable {h : Heap}

theorem comesTo_writable {v : Value} (hv : v.isWritable = true) : ComesTo h 2 (primitiveNode v) v := by
  intro depth scopes m hnames hdepth hsteps
  obtain ⟨z, hz⟩ := cheap_primitiveNode hv
  have hzsteps := hz.steps
  have hznesting := hz.nesting
  have hrun := (hz.evaluates.describes (hnames.numbers m rfl) depth).room ⟨by omega, by omega⟩
  rw [Course.answer, hz.result] at hrun
  refine ⟨v, #[], z.steps, hzsteps, ?_, .primitive (isObject_of_isWritable hv)⟩
  rw [hrun, Machine.added, Array.append_empty]

theorem comesTo_undefined : ComesTo h 2 (primitiveNode .undefined) .undefined := by
  intro depth scopes m hnames hdepth hsteps
  obtain ⟨depth, rfl⟩ : ∃ d, depth = d + 1 := ⟨depth - 1, by omega⟩
  refine ⟨.undefined, #[], 1, by omega, ?_, .primitive rfl⟩
  show Run.evaluateExpression (evaluator depth) (Node.ident "undefined") scopes m = _
  unfold Run.evaluateExpression
  rw [bind_of_ok (tick_of_room (by omega)), Machine.added, Array.append_empty]
  exact hnames.undefined { m with steps := m.steps + 1 } rfl

/-- The tree of a primitive value. -/
theorem comesTo_primitive {v : Value} (hv : v.isObject = false) : ComesTo h 2 (primitiveNode v) v := by
  cases v with
  | object r => cases hv
  | undefined => exact comesTo_undefined
  | _ => exact comesTo_writable rfl

/-- Where the tree of a value stands makes no difference. -/
theorem ComesTo.inRole {cost : Nat} {n : Node} {v : Value} (hn : ComesTo h cost n v) (r : Role) :
    ComesTo h cost (n.inRole r) v := by
  intro depth scopes m hnames hdepth hsteps
  rw [expression_inRole]
  exact hn depth scopes m hnames hdepth hsteps

theorem isOperand_inRole {n : Node} (hn : IsOperand n) (r : Role) : IsOperand (n.inRole r) := by
  have hform := Node.form_inRole n r
  exact ⟨by rw [hform]; exact hn.present, by rw [hform]; exact hn.single⟩

/-! ### Lists -/

theorem elementsComeTo_nil : ElementsComeTo h 0 [] [] := by
  intro depth scopes m _ _ _
  refine ⟨[], #[], 0, Nat.le_refl 0, ?_, .nil⟩
  rw [Machine.added_zero]
  rfl

theorem elementsComeTo_cons {a b : Nat} {n : Node} {v : Value} {ns : List Node} {vs : List Value}
    (hoperand : IsOperand n) (hn : ComesTo h a n v) (hns : ElementsComeTo h b ns vs) :
    ElementsComeTo h (a + b) (n :: ns) (v :: vs) := by
  intro depth scopes m hnames hdepth hsteps
  obtain ⟨v', cells, i, hi, hrun, hv⟩ :=
    hn.inRole .elements depth scopes m hnames (by omega) (by omega)
  obtain ⟨vs', cells', j, hj, hruns, hvs⟩ :=
    hns depth scopes (m.added cells i) hnames (by omega) (by simp only [Machine.added]; omega)
  refine ⟨v' :: vs', cells ++ cells', i + j, by omega, ?_, ?_⟩
  · rw [List.map_cons, evaluateList_cons _ (isOperand_inRole hoperand _), bind_of_ok hrun,
      bind_of_ok hruns, Machine.added_added]
    rfl
  · have hgrown : m.heap ++ (cells ++ cells') = (m.added cells i).heap ++ cells' :=
      (Array.append_assoc ..).symm
    rw [hgrown]
    exact .cons (hv.append cells') hvs

theorem propertiesComeTo_nil : PropertiesComeTo h 0 [] [] := by
  intro depth scopes m d _ _ _ _
  refine ⟨[], #[], 0, Nat.le_refl 0, ?_, .nil⟩
  rw [Machine.added_zero, List.append_nil]
  rfl

/-- The key of a property is read as it was written. -/
theorem propertyKeyText_keyNode (ev : Evaluator) (key : Text) (r : Role) (scopes : ScopeChain)
    (m : Machine) : Run.propertyKeyText ev false ((keyNode key).inRole r) scopes m = .ok key m := by
  unfold keyNode
  split <;> rfl

theorem propertiesComeTo_cons {a b : Nat} {key : Text} {n : Node} {v : Value} {ns : List Node}
    {es : List (Text × Value)} (hn : ComesTo h a n v) (hns : PropertiesComeTo h b ns es)
    (hkey : key ∉ es.map (·.1)) :
    PropertiesComeTo h (a + b) (.property .plain (keyNode key) false n false false :: ns)
      ((key, v) :: es) := by
  intro depth scopes m d hnames hdepth hsteps hnew
  obtain ⟨v', cells, i, hi, hrun, hv⟩ :=
    hn.inRole .value depth scopes m hnames (by omega) (by omega)
  have hput : d.put key v' = ⟨d.entries ++ [(key, v')]⟩ :=
    congrArg Dict.mk (Dict.putIn_of_notMem (hnew key List.mem_cons_self) v')
  have hfresh : ∀ k ∈ es.map (·.1), k ∉ (d.put key v').entries.map (·.1) := by
    intro k hk
    rw [hput, List.map_append, List.mem_append, not_or]
    refine ⟨hnew k (List.mem_cons_of_mem key hk), ?_⟩
    rintro hsame
    cases List.mem_singleton.mp hsame
    exact hkey hk
  obtain ⟨es', cells', j, hj, hruns, hes⟩ :=
    hns depth scopes (m.added cells i) (d.put key v') hnames (by omega)
      (by simp only [Machine.added]; omega) hfresh
  refine ⟨(key, v') :: es', cells ++ cells', i + j, by omega, ?_, ?_⟩
  · have hkeyPart : ((Node.property .plain (keyNode key) false n false false).inRole
        .properties).child? .key = some ((keyNode key).inRole .key) := by
      cases keyNode key
      rfl
    have hvaluePart : ((Node.property .plain (keyNode key) false n false false).inRole
        .properties).child? .value = some (n.inRole .value) := by
      cases keyNode key
      cases n
      rfl
    rw [List.map_cons, Run.putProperties]
    show (do
      let k ← Run.propertyKeyText (evaluator depth) false
        (← Run.part ((Node.property .plain (keyNode key) false n false false).inRole .properties) .key)
        scopes
      let w ← (evaluator depth).expression
        (← Run.part ((Node.property .plain (keyNode key) false n false false).inRole .properties)
          .value) scopes
      Run.putProperties (evaluator depth) scopes (ns.map (Node.inRole .properties)) (d.put k w)) m = _
    rw [bind_of_ok (part_of_child? hkeyPart _), bind_of_ok (propertyKeyText_keyNode _ key _ _ _),
      bind_of_ok (part_of_child? hvaluePart _), bind_of_ok hrun, hruns, hput, Machine.added_added,
      List.append_assoc]
    rfl
  · have hgrown : m.heap ++ (cells ++ cells') = (m.added cells i).heap ++ cells' :=
      (Array.append_assoc ..).symm
    rw [hgrown]
    exact .cons (hv.append cells') hes

/-! ### Arrays and objects -/

theorem childrenAt_atMany (f : Form) (r : Role) (ns : List Node) :
    (Node.make f (Node.atMany r ns)).childrenAt r = ns.map (Node.inRole r) := by
  unfold Node.childrenAt
  refine List.filter_eq_self.mpr fun c hc => ?_
  obtain ⟨n, -, rfl⟩ := List.mem_map.mp hc
  cases n
  exact beq_self_eq_true r

/-- What a new object is at its place. -/
theorem getD_push (heap : Heap) (c : Cell) : (heap.push c).getD heap.size default = c := by
  simp [Array.getD_eq_getD_getElem?]

theorem newArray_added (m : Machine) (cells : Array Cell) (a : Nat) (vs : Array Value) :
    Run.newArray vs ({ m with steps := m.steps + 1 }.added cells a) =
      .ok (.object (m.heap ++ cells).size) (m.added (cells.push ⟨.array vs, .empty⟩) (a + 1)) := by
  show EStateM.Result.ok _ _ = _
  unfold Machine.added
  rw [Array.append_push, Nat.add_right_comm]
  rfl

theorem newObject_added (m : Machine) (cells : Array Cell) (a : Nat) (d : Dict Text Value) :
    Run.newObject d ({ m with steps := m.steps + 1 }.added cells a) =
      .ok (.object (m.heap ++ cells).size) (m.added (cells.push ⟨.plain, d⟩) (a + 1)) := by
  show EStateM.Result.ok _ _ = _
  unfold Machine.added
  rw [Array.append_push, Nat.add_right_comm]
  rfl

theorem comesTo_array {cost : Nat} {ns : List Node} {r : Ref} {es : Array Value}
    (hbody : (h.getD r default).body = .array es)
    (hentries : (h.getD r default).properties.entries = [])
    (hns : ElementsComeTo h cost ns es.toList) : ComesTo h (cost + 1) (.array ns) (.object r) := by
  intro depth scopes m hnames hdepth hsteps
  obtain ⟨depth, rfl⟩ : ∃ d, depth = d + 1 := ⟨depth - 1, by omega⟩
  obtain ⟨vs, cells, a, ha, hrun, halike⟩ :=
    hns depth scopes { m with steps := m.steps + 1 } hnames (by omega) (by simp only; omega)
  have hcell := getD_push (m.heap ++ cells) ⟨.array vs.toArray, .empty⟩
  refine ⟨.object (m.heap ++ cells).size, cells.push ⟨.array vs.toArray, .empty⟩, a + 1, by omega, ?_, ?_⟩
  · show Run.evaluateExpression (evaluator depth) (Node.array ns) scopes m = _
    unfold Run.evaluateExpression
    rw [bind_of_ok (tick_of_room (by omega))]
    show (do Run.newArray (← Run.evaluateList (evaluator depth) scopes
      ((Node.array ns).childrenAt .elements)).toArray) _ = _
    rw [Node.array, childrenAt_atMany, bind_of_ok hrun, newArray_added]
  · rw [Array.append_push]
    refine .array hbody (congrArg Cell.body hcell) ?_ ?_ ?_
    · rw [Array.size_push]
      exact Nat.lt_succ_self _
    · exact halike.append #[_]
    · rw [hentries, hcell]
      exact .nil

theorem comesTo_object {cost : Nat} {ns : List Node} {r : Ref}
    (hbody : (h.getD r default).body = .plain)
    (hns : PropertiesComeTo h cost ns (h.getD r default).properties.entries) :
    ComesTo h (cost + 1) (.object ns) (.object r) := by
  intro depth scopes m hnames hdepth hsteps
  obtain ⟨depth, rfl⟩ : ∃ d, depth = d + 1 := ⟨depth - 1, by omega⟩
  obtain ⟨es, cells, a, ha, hrun, halike⟩ :=
    hns depth scopes { m with steps := m.steps + 1 } .empty hnames (by omega) (by simp only; omega)
      (fun _ _ => List.not_mem_nil)
  have hcell := getD_push (m.heap ++ cells) ⟨.plain, ⟨es⟩⟩
  refine ⟨.object (m.heap ++ cells).size, cells.push ⟨.plain, ⟨es⟩⟩, a + 1, by omega, ?_, ?_⟩
  · show Run.evaluateExpression (evaluator depth) (Node.object ns) scopes m = _
    unfold Run.evaluateExpression
    rw [bind_of_ok (tick_of_room (by omega))]
    show (do Run.newObject (← Run.putProperties (evaluator depth) scopes
      ((Node.object ns).childrenAt .properties) .empty)) _ = _
    rw [Node.object, childrenAt_atMany, bind_of_ok hrun]
    exact newObject_added m cells a ⟨es⟩
  · rw [Array.append_push]
    refine .plain hbody (congrArg Cell.body hcell) ?_ ?_
    · rw [Array.size_push]
      exact Nat.lt_succ_self _
    · rw [hcell]
      exact halike.append #[_]

end

/-! ## Values that are written as they are -/

/-- An object that a literal can make, if it is no function: an array has elements only, and no other
object has two properties of one key. -/
def Cell.Unadorned (c : Cell) : Prop :=
  match c.body with
  | .array _ => c.properties.entries = []
  | .plain => (c.properties.entries.map (·.1)).Nodup
  | .closure _ _ _ | .native _ => True

/-- All objects in a value can be made by literals. -/
def Unadorned (h : Heap) (v : Value) : Prop := ∀ r, Inside h v (.object r) → (h.getD r default).Unadorned

section

variable {h : Heap}

theorem unadorned_of_all (hall : ∀ c ∈ h, c.Unadorned) (v : Value) : Unadorned h v := by
  intro r _
  rw [Array.getD_eq_getD_getElem?]
  cases hc : h[r]? with
  | none => exact List.nodup_nil
  | some c => exact hall c (Array.mem_of_getElem? hc)

theorem Unadorned.part {v w : Value} (hv : Unadorned h v) (hpart : PartOf h v w) : Unadorned h w :=
  fun r hinside => hv r (.head hpart hinside)

theorem isOperand_primitiveNode (v : Value) : IsOperand (primitiveNode v) := by
  have hname : ∀ name : String, IsOperand (.ident name) := fun _ => ⟨by rintro ⟨⟩, by rintro ⟨⟩⟩
  have hliteral : ∀ l : Literal, IsOperand (.literal l) := fun _ => ⟨by rintro ⟨⟩, by rintro ⟨⟩⟩
  have hminus : ∀ n : Node, IsOperand (.unary .minus n) := fun _ => ⟨by rintro ⟨⟩, by rintro ⟨⟩⟩
  cases v with
  | undefined => exact hname _
  | null => exact hliteral _
  | bool b => exact hliteral _
  | string t => exact hliteral _
  | object r => exact hname _
  | number x =>
    show IsOperand (numberNode x)
    have hmagnitude : IsOperand (magnitudeNode x) := by
      unfold magnitudeNode
      split
      · exact hname _
      · exact hliteral _
    rw [numberNode_eq]
    split
    · exact hname _
    · split
      · exact hminus _
      · exact hmagnitude

/-- What the tree of a value is: that of a primitive value, or a literal with the trees of the parts. -/
theorem valueNodeGo_eq_ok {fuel : Nat} {v : Value} {n : Node} (hn : valueNodeGo h fuel v = .ok n) :
    (v.isObject = false ∧ n = primitiveNode v) ∨
    ∃ fuel' r ns, fuel = fuel' + 1 ∧ v = .object r ∧
      ((∃ es, (h.getD r default).body = .array es ∧ elementNodes h fuel' es.toList = .ok ns ∧
          n = .array ns) ∨
        ((h.getD r default).body = .plain ∧
          propertyNodes h fuel' (h.getD r default).properties.entries = .ok ns ∧ n = .object ns)) := by
  cases fuel with
  | zero =>
    rw [valueNodeGo] at hn
    cases hn
  | succ fuel =>
    unfold valueNodeGo at hn
    cases v with
    | object r =>
      refine .inr ⟨fuel, r, ?_⟩
      simp only at hn
      cases hbody : (h.getD r default).body with
      | array es =>
        simp only [hbody] at hn
        obtain ⟨ns, hns, hn⟩ := except_bind_eq_ok.mp hn
        cases hn
        exact ⟨ns, rfl, rfl, .inl ⟨es, rfl, hns, rfl⟩⟩
      | plain =>
        simp only [hbody] at hn
        obtain ⟨ns, hns, hn⟩ := except_bind_eq_ok.mp hn
        cases hn
        exact ⟨ns, rfl, rfl, .inr ⟨rfl, hns, rfl⟩⟩
      | closure code scopes name =>
        simp only [hbody] at hn
        cases hn
      | native fn =>
        simp only [hbody] at hn
        cases hn
    | _ =>
      cases hn
      exact .inl ⟨rfl, rfl⟩

theorem isOperand_of_valueNodeGo {fuel : Nat} {v : Value} {n : Node}
    (hn : valueNodeGo h fuel v = .ok n) : IsOperand n := by
  obtain ⟨-, rfl⟩ | ⟨_, _, ns, -, -, ⟨_, -, -, rfl⟩ | ⟨-, -, rfl⟩⟩ := valueNodeGo_eq_ok hn
  · exact isOperand_primitiveNode v
  · exact ⟨by rintro ⟨⟩, by rintro ⟨⟩⟩
  · exact ⟨by rintro ⟨⟩, by rintro ⟨⟩⟩

theorem elementsComeTo_of_elementNodes {fuel : Nat}
    (ih : ∀ v n, valueNodeGo h fuel v = .ok n → Unadorned h v → ∃ cost, ComesTo h cost n v)
    {vs : List Value} {ns : List Node} (hns : elementNodes h fuel vs = .ok ns)
    (hvs : ∀ v ∈ vs, Unadorned h v) : ∃ cost, ElementsComeTo h cost ns vs := by
  induction vs generalizing ns with
  | nil =>
    rw [elementNodes] at hns
    cases hns
    exact ⟨0, elementsComeTo_nil⟩
  | cons v vs ihs =>
    rw [elementNodes] at hns
    obtain ⟨n, hn, hns⟩ := except_bind_eq_ok.mp hns
    obtain ⟨ns', hns', hns⟩ := except_bind_eq_ok.mp hns
    cases hns
    obtain ⟨a, ha⟩ := ih v n hn (hvs v List.mem_cons_self)
    obtain ⟨b, hb⟩ := ihs hns' fun w hw => hvs w (List.mem_cons_of_mem v hw)
    exact ⟨a + b, elementsComeTo_cons (isOperand_of_valueNodeGo hn) ha hb⟩

theorem propertiesComeTo_of_propertyNodes {fuel : Nat}
    (ih : ∀ v n, valueNodeGo h fuel v = .ok n → Unadorned h v → ∃ cost, ComesTo h cost n v)
    {es : List (Text × Value)} {ns : List Node} (hns : propertyNodes h fuel es = .ok ns)
    (hkeys : (es.map (·.1)).Nodup) (hes : ∀ v ∈ es.map (·.2), Unadorned h v) :
    ∃ cost, PropertiesComeTo h cost ns es := by
  induction es generalizing ns with
  | nil =>
    rw [propertyNodes] at hns
    cases hns
    exact ⟨0, propertiesComeTo_nil⟩
  | cons e es ihs =>
    obtain ⟨key, v⟩ := e
    rw [propertyNodes] at hns
    obtain ⟨n, hn, hns⟩ := except_bind_eq_ok.mp hns
    obtain ⟨ns', hns', hns⟩ := except_bind_eq_ok.mp hns
    cases hns
    rw [List.map_cons, List.nodup_cons] at hkeys
    obtain ⟨a, ha⟩ := ih v n hn (hes v List.mem_cons_self)
    obtain ⟨b, hb⟩ := ihs hns' hkeys.2 fun w hw => hes w (List.mem_cons_of_mem v hw)
    exact ⟨a + b, propertiesComeTo_cons ha hb hkeys.1⟩

/-- The tree of a value comes to a value of the same structure. -/
theorem comesTo_of_valueNodeGo {fuel : Nat} {v : Value} {n : Node}
    (hn : valueNodeGo h fuel v = .ok n) (hv : Unadorned h v) : ∃ cost, ComesTo h cost n v := by
  -- The induction is on the objects that may be inside of each other, as the tree is made.
  induction fuel generalizing v n with
  | zero =>
    rw [valueNodeGo] at hn
    cases hn
  | succ fuel ih =>
    obtain ⟨hprimitive, rfl⟩ | ⟨_, r, ns, hfuel, rfl, hobject⟩ := valueNodeGo_eq_ok hn
    · exact ⟨2, comesTo_primitive hprimitive⟩
    cases hfuel
    have hcell : (h.getD r default).Unadorned := hv r .refl
    have hparts : ∀ w ∈ (h.getD r default).parts, Unadorned h w := fun w hw => hv.part ⟨r, rfl, hw⟩
    unfold Cell.Unadorned at hcell
    unfold Cell.parts at hparts
    obtain ⟨es, hbody, hns, rfl⟩ | ⟨hbody, hns, rfl⟩ := hobject
    · simp only [hbody] at hcell hparts
      obtain ⟨cost, hcost⟩ := elementsComeTo_of_elementNodes (fun v n => ih) hns hparts
      exact ⟨cost + 1, comesTo_array hbody hcell hcost⟩
    · simp only [hbody] at hcell hparts
      obtain ⟨cost, hcost⟩ := propertiesComeTo_of_propertyNodes (fun v n => ih) hns hcell hparts
      exact ⟨cost + 1, comesTo_object hbody hcost⟩

end

/-! ## What is written and what is not -/

section

variable {h h' : Heap}

/-- Two stores that differ in the properties of functions and in the named properties of arrays only. -/
structure Adorns (h h' : Heap) : Prop where
  size : h.size = h'.size
  bodies : ∀ r, (h.getD r default).body = (h'.getD r default).body
  properties : ∀ r, (h.getD r default).body = .plain →
    (h.getD r default).properties.entries = (h'.getD r default).properties.entries

theorem elementNodes_adorned {fuel : Nat} (ih : ∀ v, valueNodeGo h fuel v = valueNodeGo h' fuel v)
    (vs : List Value) : elementNodes h fuel vs = elementNodes h' fuel vs := by
  induction vs with
  | nil => rw [elementNodes, elementNodes]
  | cons v vs ihs => rw [elementNodes, elementNodes, ih, ihs]

theorem propertyNodes_adorned {fuel : Nat} (ih : ∀ v, valueNodeGo h fuel v = valueNodeGo h' fuel v)
    (es : List (Text × Value)) : propertyNodes h fuel es = propertyNodes h' fuel es := by
  induction es with
  | nil => rw [propertyNodes, propertyNodes]
  | cons e es ihs => rw [propertyNodes, propertyNodes, ih, ihs]

theorem valueNodeGo_adorned (hadorns : Adorns h h') (fuel : Nat) (v : Value) :
    valueNodeGo h fuel v = valueNodeGo h' fuel v := by
  induction fuel generalizing v with
  | zero => rw [valueNodeGo, valueNodeGo]
  | succ fuel ih =>
    unfold valueNodeGo
    cases v with
    | object r =>
      dsimp only
      rw [← hadorns.bodies r]
      cases hbody : (h.getD r default).body with
      | array es => simp only [elementNodes_adorned ih]
      | plain => simp only [← hadorns.properties r hbody, propertyNodes_adorned ih]
      | closure code scopes name => rfl
      | native fn => rfl
    | _ => rfl

/-- The named properties of arrays make no difference to the trees of values: they are not written. -/
theorem valueNode_adorned (hadorns : Adorns h h') (v : Value) : valueNode h v = valueNode h' v := by
  unfold valueNode nestingBound
  rw [hadorns.size]
  exact valueNodeGo_adorned hadorns _ v

end

/-- A value whose objects literals can make has a tree that gives a value of the same structure on a new
machine, or there is a function inside of it or an object that contains itself. -/
theorem tree_restores_value {h : Heap} {v : Value} (hv : Unadorned h v) :
    (∃ n cost, valueNode h v = .ok n ∧ ∀ (store : Machine) (maxSteps maxDepth depth : Nat),
      cost ≤ maxSteps → cost ≤ depth → ∃ v' m',
        (evaluator depth).expression n (store.restart maxSteps maxDepth).globalChain
          (store.restart maxSteps maxDepth) = .ok v' m' ∧ Alike h m'.heap v v') ∨
    (∃ name, valueNode h v = .error (.function name) ∧ HasFunction h v name) ∨
    (valueNode h v = .error .cyclic ∧ HasCycle h v) := by
  cases hnode : valueNode h v with
  | error u =>
    obtain ⟨name, rfl, hname⟩ | ⟨rfl, hcycle⟩ := reason_of_valueNode hnode
    · exact .inr (.inl ⟨name, rfl, hname⟩)
    · exact .inr (.inr ⟨rfl, hcycle⟩)
  | ok n =>
    obtain ⟨cost, hcost⟩ := comesTo_of_valueNodeGo hnode hv
    refine .inl ⟨n, cost, rfl, fun store maxSteps maxDepth depth hsteps hdepth => ?_⟩
    obtain ⟨hzero, hmax⟩ := budget_restart store maxSteps maxDepth
    obtain ⟨v', cells, a, -, hrun, halike⟩ :=
      hcost depth _ (store.restart maxSteps maxDepth) (namesValues_restart store maxSteps maxDepth)
        hdepth (by omega)
    exact ⟨v', _, hrun, halike⟩

/-- An array of an object and a text comes back as such an array. -/
theorem nested_value_restored : ∃ cost, ∀ (store : Machine) (maxSteps maxDepth depth : Nat),
    cost ≤ maxSteps → cost ≤ depth → ∃ v' m',
      (evaluator depth).expression
        (.array [.object [.property .plain (.ident "a") false (.ident "undefined") false false],
          .literal (.string (Text.of "b"))])
        (store.restart maxSteps maxDepth).globalChain (store.restart maxSteps maxDepth) = .ok v' m' ∧
      Alike #[⟨.array #[.object 1, .string (Text.of "b")], .empty⟩,
        ⟨.plain, ⟨[(Text.of "a", .undefined)]⟩⟩] m'.heap (.object 0) v' := by
  have hnode : valueNode #[⟨.array #[.object 1, .string (Text.of "b")], .empty⟩,
      ⟨.plain, ⟨[(Text.of "a", .undefined)]⟩⟩] (.object 0) = .ok (.array
        [.object [.property .plain (.ident "a") false (.ident "undefined") false false],
          .literal (.string (Text.of "b"))]) := by
    simp only [valueNode, nestingBound, List.size_toArray, List.length_cons, List.length_nil, zero_add,
      Nat.reduceAdd, valueNodeGo, Array.getD_eq_getD_getElem?, Nat.zero_lt_succ, getElem?_pos,
      List.getElem_toArray, List.getElem_cons_zero, Option.getD_some, elementNodes, Nat.lt_add_one,
      List.getElem_cons_succ, propertyNodes, bind_pure_comp, Except.map_ok, map_bind, bind_assoc]
    rfl
  have hvalue : Unadorned #[⟨.array #[.object 1, .string (Text.of "b")], .empty⟩,
      ⟨.plain, ⟨[(Text.of "a", .undefined)]⟩⟩] (.object 0) :=
    unadorned_of_all (by simp [Cell.Unadorned, Dict.empty]) _
  obtain ⟨n, cost, hn, hrestores⟩ | ⟨name, herror, -⟩ | ⟨herror, -⟩ := tree_restores_value hvalue
  · cases hnode.symm.trans hn
    exact ⟨cost, hrestores⟩
  · cases hnode.symm.trans herror
  · cases hnode.symm.trans herror

end Sandbox

end Untangle
