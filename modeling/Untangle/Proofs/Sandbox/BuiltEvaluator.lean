import Untangle.Proofs.Sandbox.BuiltNatives

set_option autoImplicit false

/-!
# What running code does

Expressions, statements and calls are built from steps that a policy allows and from the code inside of
them.  Code that has all its parts never finds one missing; only assignments and updates set variables
other than those that are declared; and declarations stay inside of the function around them.

Loops are built as soon as the statements inside of them take steps, which follows for every depth of nesting:
code never gives steps back.  What is built is composed, whatever the policy is.
-/

namespace Untangle.Sandbox.Built

variable {P : Policy} {e e' : Meaning} {inner : Option ScopeChain} {α β : Type} {n : Node}
  {scopes : ScopeChain}

/-! ## Parts of nodes -/

/-- A part that a node may lack only if its code may stop in any way, and what is done with it. -/
theorem slotOf (r : Role) (hlack : n.child? r = none → ∀ x, P.Stops x) {k k' : Node → Run α}
    (hk : ∀ c, n.child? r = some c → Built P e e' inner (k c) (k' c)) :
    Built P e e' inner (Run.part n r >>= k) (Run.part n r >>= k') := by
  unfold Run.part
  cases hc : n.child? r with
  | some c =>
    rw [pure_bind, pure_bind]
    exact hk c hc
  | none => exact .stop (hlack hc _)

theorem partOf (hn : P.Fit n scopes) (r : Role) (hlack : n.child? r = none → ∀ x, P.Stops x)
    {k k' : Node → Run α}
    (hk : ∀ c, n.child? r = some c → P.Fit c scopes → Built P e e' inner (k c) (k' c)) :
    Built P e e' inner (Run.part n r >>= k) (Run.part n r >>= k') :=
  slotOf r hlack fun c hc => hk c hc (P.child? hn hc)

/-- A part that the form of a node requires, and what is done with it. -/
theorem part {f : Form} (hn : P.Fit n scopes) (hform : n.form = f) (r : Role)
    (hr : f.requires.contains r = true) {k k' : Node → Run α}
    (hk : ∀ c, n.child? r = some c → P.Fit c scopes → Built P e e' inner (k c) (k' c)) :
    Built P e e' inner (Run.part n r >>= k) (Run.part n r >>= k') :=
  partOf hn r (fun hlack => P.lacking hn (Node.hasParts_of_lack hform hr hlack)) hk

/-- The value of a part, and what is done with it. -/
theorem valueOf {f : Form} (hn : P.Fit n scopes) (hform : n.form = f) (r : Role)
    (hr : f.requires.contains r = true) {k k' : Value → Run α}
    (hk : ∀ v, Built P e e' inner (k v) (k' v)) :
    Built P e e' inner (do k (← e.expression (← Run.part n r) scopes))
      (do k' (← e'.expression (← Run.part n r) scopes)) :=
  part hn hform r hr fun _ _ hc => (expression hc).bind hk

/-- The name of a part, which has one unless the code may stop in any way. -/
theorem partName (hn : P.Fit n scopes) (r : Role)
    (hlack : (n.child? r).bind Node.name? = none → ∀ x, P.Stops x) :
    Built P e e' inner (Run.partName n r) (Run.partName n r) := by
  refine partOf hn r (fun hc => hlack (by rw [hc]; rfl)) fun c hc _ => ?_
  split
  · exact .result _
  · next hname => exact .stop (hlack (by rw [hc]; exact hname) _)

/-! ## Literals and functions -/

theorem literalValue (l : Literal) :
    Built P e e' inner (Run.literalValue l) (Run.literalValue l) := by
  unfold Run.literalValue
  split
  · exact .result _
  · exact .result _
  · exact .result _
  · exact .result _
  · split
    · exact .result _
    · next hn => exact .stop (P.proper _ ⟨_, .literal hn⟩)
  · exact fail _

theorem makeFunction (hn : P.Fit n scopes) (hform : n.form.isFunction = true) :
    Built P e e' inner (Run.makeFunction n scopes) (Run.makeFunction n scopes) := by
  have hcode : P.Admits (n.inRole .top) scopes := ⟨P.slot .top hn, .inl (by rwa [Node.form_inRole])⟩
  exact (allocate fun r => P.covers_closure hcode r _).map _

theorem functionValue (hn : P.Fit n scopes) (hform : n.form.isFunction = true)
    (flags : FunctionFlags) :
    Built P e e' inner (Run.functionValue n flags scopes) (Run.functionValue n flags scopes) := by
  unfold Run.functionValue
  split
  · exact fail _
  · exact makeFunction hn hform

theorem evaluateList {ns : List Node} (hns : ∀ n ∈ ns, P.Fit n scopes) :
    Built P e e' inner (Run.evaluateList e.toEvaluator scopes ns)
      (Run.evaluateList e'.toEvaluator scopes ns) := by
  induction ns with
  | nil => exact .result []
  | cons n ns ih =>
    have hn := hns n List.mem_cons_self
    have hrest : ∀ vs : List Value, Built P e e' inner
        (do return vs ++ (← Run.evaluateList e.toEvaluator scopes ns))
        (do return vs ++ (← Run.evaluateList e'.toEvaluator scopes ns)) :=
      fun vs => (ih fun n hn => hns n (List.mem_cons_of_mem _ hn)).map _
    unfold Run.evaluateList
    split
    · exact hrest _
    · next hform =>
      refine valueOf hn hform .argument rfl fun v => look (fun _ _ => rfl) fun m _ => ?_
      split
      · exact hrest _
      · exact (fail _).bind hrest
    · exact (expression hn).bind fun v => hrest [v]

theorem propertyKeyText (hn : P.Fit n scopes) (computed : Bool)
    (hlack : computed = false → n.form.isKey = false → ∀ x, P.Stops x) :
    Built P e e' inner (Run.propertyKeyText e.toEvaluator computed n scopes)
      (Run.propertyKeyText e'.toEvaluator computed n scopes) := by
  unfold Run.propertyKeyText
  split
  · exact (expression hn).bind textOf
  · next hcomputed =>
    split
    · exact .result _
    · exact (literalValue _).bind textOf
    · next hname hliteral =>
      refine .stop (hlack (by simpa using hcomputed) ?_ _)
      cases hform : n.form with
      | identifier name => exact absurd hform (hname name)
      | literal value => exact absurd hform (hliteral value)
      | _ => rfl

theorem putProperties {ns : List Node} (hns : ∀ n ∈ ns, P.Fit n scopes) (d : Dict Text Value) :
    Built P e e' inner (Run.putProperties e.toEvaluator scopes ns d)
      (Run.putProperties e'.toEvaluator scopes ns d) := by
  induction ns generalizing d with
  | nil => exact .result d
  | cons p ns ih =>
    have hp := hns p List.mem_cons_self
    unfold Run.putProperties
    split
    · next computed method shorthand hform =>
      refine part hp hform .key rfl fun k hchild hk => ?_
      have hlack : computed = false → k.form.isKey = false → ∀ x, P.Stops x := by
        rintro rfl hkey
        refine P.lacking hp (Node.hasParts_of_improper ?_)
        simp [Node.hasProperParts, hform, hchild, hkey]
      refine (propertyKeyText hk computed hlack).bind fun key => ?_
      exact valueOf hp hform .value rfl fun v => ih (fun n hn => hns n (List.mem_cons_of_mem _ hn)) _
    · exact fail _
    · exact fail _

theorem templateValue (qs : List Node) {es : List Node} (hes : ∀ n ∈ es, P.Fit n scopes)
    (acc : Text) :
    Built P e e' inner (Run.templateValue e.toEvaluator scopes qs es acc)
      (Run.templateValue e'.toEvaluator scopes qs es acc) := by
  induction qs generalizing es acc with
  | nil => exact .result acc
  | cons q qs ih =>
    unfold Run.templateValue
    split
    · cases es with
      | nil => exact ih hes _
      | cons n es =>
        exact (expression (hes n List.mem_cons_self)).bind fun v => (textOf v).bind fun t =>
          ih (fun n hn => hes n (List.mem_cons_of_mem _ hn)) _
    · exact fail _

/-! ## Members and targets -/

theorem memberKey {computed : Bool} (hn : P.Fit n scopes) (hform : n.form = .member computed) :
    Built P e e' inner (Run.memberKey e.toEvaluator computed n scopes)
      (Run.memberKey e'.toEvaluator computed n scopes) := by
  unfold Run.memberKey
  split
  · exact valueOf hn hform .property rfl textOf
  · next hcomputed =>
    rw [show computed = false by simpa using hcomputed] at hform
    refine partName hn .property fun hlack => P.lacking hn (Node.hasParts_of_improper ?_)
    simp [Node.hasProperParts, hform, hlack]

/-- Going on with the key of a member, which is the name that the member has unless it is computed. -/
theorem memberKeyThen {computed : Bool} (hn : P.Fit n scopes) (hform : n.form = .member computed)
    {k k' : Text → Run α}
    (hk : ∀ key, (computed = false → (n.child? .property).bind Node.name? = some key) →
      Built P e e' inner (k key) (k' key)) :
    Built P e e' inner (Run.memberKey e.toEvaluator computed n scopes >>= k)
      (Run.memberKey e'.toEvaluator computed n scopes >>= k') := by
  cases computed with
  | true => exact (memberKey hn hform).bind fun key => hk key nofun
  | false =>
    show Built P e e' inner (Run.partName n .property >>= k) (Run.partName n .property >>= k')
    have hlack : (n.child? .property).bind Node.name? = none → ∀ x, P.Stops x := fun hlack =>
      P.lacking hn (Node.hasParts_of_improper (by simp [Node.hasProperParts, hform, hlack]))
    unfold Run.partName
    rw [bind_assoc, bind_assoc]
    refine partOf hn .property (fun hc => hlack (by rw [hc]; rfl)) fun c hc _ => ?_
    cases hname : c.name? with
    | some key => exact hk key fun _ => by rw [hc]; exact hname
    | none => exact .stop (hlack (by rw [hc]; exact hname) _)

theorem memberValue {computed : Bool} (hn : P.Fit n scopes) (hform : n.form = .member computed) :
    Built P e e' inner (Run.memberValue e.toEvaluator computed n scopes)
      (Run.memberValue e'.toEvaluator computed n scopes) :=
  valueOf hn hform .object rfl fun object => (memberKey hn hform).bind fun key => getProperty object key

theorem readTarget (hn : P.Fit n scopes) :
    Built P e e' inner (Run.readTarget e.toEvaluator n scopes)
      (Run.readTarget e'.toEvaluator n scopes) := by
  unfold Run.readTarget
  split
  · exact lookup scopes _
  · next hform => exact memberValue hn hform
  · exact fail _

/-- A node sets the variable or the member that it assigns to. -/
theorem writeTarget {target : Node} (hn : P.Fit n scopes) (hset : n.assigned? = some target)
    (v : Value) :
    Built P e e' inner (Run.writeTarget e.toEvaluator target v scopes)
      (Run.writeTarget e'.toEvaluator target v scopes) := by
  unfold Run.writeTarget
  split
  · next name hform =>
    refine assign hn ?_ v
    simp [Node.Assigns, hset, Node.name?, hform]
  · next computed hform =>
    have htarget := P.part hn (Node.mem_children_of_assigned? hset)
    have hmember : n.ChangesMember := .inl (by simp [hset, Node.isMember, hform])
    exact valueOf htarget hform .object rfl fun object => (memberKey htarget hform).bind fun key =>
      putProperty (P.members hn hmember) object key v
  · exact fail _

theorem deleteTarget {target : Node} (hn : P.Fit n scopes) (hdelete : n.deleted? = some target) :
    Built P e e' inner (Run.deleteTarget e.toEvaluator target scopes)
      (Run.deleteTarget e'.toEvaluator target scopes) := by
  unfold Run.deleteTarget
  split
  · next computed hform =>
    have htarget := P.part hn (Node.mem_children_of_deleted? hdelete)
    have hmember : n.ChangesMember := .inr (by simp [hdelete, Node.isMember, hform])
    refine valueOf htarget hform .object rfl fun object => ?_
    split
    · exact (memberKey htarget hform).bind fun key =>
        (deleteOwn (P.members hn hmember _) key).bind fun _ => .result _
    · exact .result _
  · exact .result _

/-! ## Operators -/

theorem typeofValue (hn : P.Fit n scopes) :
    Built P e e' inner (Run.typeofValue e.toEvaluator n scopes)
      (Run.typeofValue e'.toEvaluator n scopes) := by
  have hvalue : Built P e e' inner
      (do
        let v ← e.expression n scopes
        return Value.string (typeOf (← get).heap v))
      (do
        let v ← e'.expression n scopes
        return Value.string (typeOf (← get).heap v)) :=
    (expression hn).bind fun v => look (fun _ _ => rfl) fun m _ => .result _
  unfold Run.typeofValue
  split
  · refine (isBound scopes _).bind fun bound => ?_
    split
    · exact hvalue
    · exact .result _
  · exact hvalue

theorem unaryValue {op : UnaryOp} (hn : P.Fit n scopes) (hform : n.form = .unary op)
    {argument : Node} (hargument : n.child? .argument = some argument) :
    Built P e e' inner (Run.unaryValue e.toEvaluator op argument scopes)
      (Run.unaryValue e'.toEvaluator op argument scopes) := by
  have hfit := P.child? hn hargument
  unfold Run.unaryValue
  split
  · exact typeofValue hfit
  · exact deleteTarget hn (by simp [Node.deleted?, hform, hargument])
  · refine (expression hfit).bind fun v => ?_
    split
    · exact (numberOf v).map _
    · exact (numberOf v).map _
    · exact .result _
    · exact (reading fun _ => .toInt32 (List.mem_singleton_self _) v).map _
    · exact .result _
    · exact fail _

theorem updateValue {op : UpdateOp} {before : Bool} (hn : P.Fit n scopes)
    (hform : n.form = .update op before) {target : Node}
    (htarget : n.child? .argument = some target) :
    Built P e e' inner (Run.updateValue e.toEvaluator op before target scopes)
      (Run.updateValue e'.toEvaluator op before target scopes) := by
  have hset : n.assigned? = some target := by simp [Node.assigned?, hform, htarget]
  exact (readTarget (P.child? hn htarget)).bind fun v => (numberOf v).bind fun _ =>
    (writeTarget hn hset _).bind fun _ => .result _

theorem logicalValue {op : LogicalOp} (hn : P.Fit n scopes) (hform : n.form = .logical op) :
    Built P e e' inner (Run.logicalValue e.toEvaluator op n scopes)
      (Run.logicalValue e'.toEvaluator op n scopes) := by
  refine valueOf hn hform .left rfl fun l => ?_
  split
  · exact .result _
  · exact part hn hform .right rfl fun _ _ hc => expression hc
  · exact fail _

theorem assignmentValue {op : AssignOp} (hn : P.Fit n scopes) (hform : n.form = .assignment op) :
    Built P e e' inner (Run.assignmentValue e.toEvaluator op n scopes)
      (Run.assignmentValue e'.toEvaluator op n scopes) := by
  refine part hn hform .left rfl fun target hleft htarget =>
    part hn hform .right rfl fun right _ hright => ?_
  have hset : n.assigned? = some target := by simp [Node.assigned?, hform, hleft]
  have hwrite : ∀ v, Built P e e' inner
      (do Run.writeTarget e.toEvaluator target v scopes; return v)
      (do Run.writeTarget e'.toEvaluator target v scopes; return v) :=
    fun v => (writeTarget hn hset v).bind fun _ => .result v
  cases op with
  | plain => exact (expression hright).bind hwrite
  | logical op =>
    refine (readTarget htarget).bind fun current => ?_
    split
    · exact .result _
    · exact (expression hright).bind hwrite
  | compound op =>
    exact (readTarget htarget).bind fun current => (expression hright).bind fun r =>
      (binaryOperation op current r).bind hwrite

/-! ## Calls -/

theorem notCallable (f : Value) :
    Built P e e' inner (Run.notCallable f : Run α) (Run.notCallable f) :=
  look (fun _ _ => rfl) fun _ _ => raise _ _

theorem callValue (hn : P.Fit n scopes) (hform : n.form = .call) :
    Built P e e' inner (Run.callValue e.toEvaluator n scopes)
      (Run.callValue e'.toEvaluator n scopes) := by
  have hcall : ∀ f this : Value, P.CalledOn f this → Built P e e' inner
      (do
        let args ← Run.evaluateList e.toEvaluator scopes (n.childrenAt .arguments)
        if (← get).heap.isCallable f then e.call f this args else Run.notCallable f)
      (do
        let args ← Run.evaluateList e'.toEvaluator scopes (n.childrenAt .arguments)
        if (← get).heap.isCallable f then e'.call f this args else Run.notCallable f) := by
    intro f this hf
    refine (evaluateList (P.childrenAt hn)).bind fun args => look (fun _ _ => rfl) fun m _ => ?_
    split
    · exact .call hf args
    · exact notCallable f
  refine part hn hform .callee rfl fun callee hpart hcallee => ?_
  split
  · next hmember =>
    simp only [pure_bind]
    exact valueOf hcallee hmember .object rfl fun this => memberKeyThen hcallee hmember fun key hkey =>
      getPropertyThen this key fun m f hm hf =>
        hcall f this (P.method hm hn hform hpart hmember hkey hf)
  · simp only [pure_bind]
    exact (expression hcallee).bind fun f => hcall f .undefined (P.alone _ _ rfl)

theorem bindParameters {f : FrameId} (hf : ∀ name, P.Own f name) (args : List Value)
    {ps : List Node} (hps : ∀ p ∈ ps, P.Fit p scopes) (i : Nat) :
    Built P e e' inner (Run.bindParameters e.toEvaluator f scopes args ps i)
      (Run.bindParameters e'.toEvaluator f scopes args ps i) := by
  induction ps generalizing i with
  | nil => exact .result ()
  | cons p ps ih =>
    have hp := hps p List.mem_cons_self
    have hrest := ih fun p hp => hps p (List.mem_cons_of_mem _ hp)
    have hbind : ∀ (name : Text) (v : Value), Built P e e' inner
        (do Run.declare f name v; Run.bindParameters e.toEvaluator f scopes args ps (i + 1))
        (do Run.declare f name v; Run.bindParameters e'.toEvaluator f scopes args ps (i + 1)) :=
      fun name v => (declare (hf name) v).bind fun _ => hrest (i + 1)
    unfold Run.bindParameters
    simp only
    split
    · exact hbind _ _
    · next hform =>
      refine part hp hform .left rfl fun left _ _ => ?_
      split
      · split
        · exact valueOf hp hform .right rfl fun v => hbind _ v
        · exact hbind _ _
      · exact (fail _).bind fun _ => hrest _
    · next hform =>
      refine part hp hform .argument rfl fun argument _ _ => ?_
      split
      · exact (newArray _).bind fun v => hbind _ v
      · exact (fail _).bind fun _ => hrest _
    · exact (fail _).bind fun _ => hrest _

/-- The declaration of a function has a name. -/
theorem functionName {flags : FunctionFlags} (hn : P.Fit n scopes)
    (hform : n.form = .functionDeclaration flags) :
    Built P e e' inner (Run.partName n .id) (Run.partName n .id) := by
  refine partName hn .id fun hlack => P.lacking hn (Node.hasParts_of_improper ?_)
  simp [Node.hasProperParts, hform, hlack]

/-- The scope to which variables of a function go. -/
theorem varScope {k k' : FrameId → Run α}
    (hk : ∀ f, (∀ name, P.Own f name) → Built P e e' (some scopes) (k f) (k' f)) :
    Built P e e' (some scopes) (Run.varScope scopes >>= k) (Run.varScope scopes >>= k') :=
  target .var hk

theorem hoist {ns : List Node} (hns : ∀ n ∈ ns, P.Fit n scopes) :
    Built P e e' (some scopes) (Run.hoist scopes ns) (Run.hoist scopes ns) := by
  induction ns with
  | nil => exact .result ()
  | cons s ns ih =>
    have hs := hns s List.mem_cons_self
    have hrest := ih fun n hn => hns n (List.mem_cons_of_mem _ hn)
    unfold Run.hoist
    split
    · next hform =>
      exact (functionName hs hform).bind fun name => varScope fun f hf =>
        (makeFunction hs (by rw [hform]; rfl)).bind fun v => (declare (hf name) v).bind fun _ => hrest
    · exact hrest

theorem runAll {ns : List Node} (hns : ∀ n ∈ ns, P.Fit n scopes) :
    Built P e e' (some scopes) (Run.runAll e.toEvaluator scopes ns)
      (Run.runAll e'.toEvaluator scopes ns) := by
  induction ns with
  | nil => exact .result ()
  | cons s ns ih =>
    exact (statement (hns s List.mem_cons_self)).bind fun _ =>
      ih fun n hn => hns n (List.mem_cons_of_mem _ hn)

theorem runBody (hn : P.Fit n scopes) :
    Built P e e' (some scopes) (Run.runBody e.toEvaluator n scopes)
      (Run.runBody e'.toEvaluator n scopes) := by
  unfold Run.runBody
  split
  · have hns := P.childrenAt (r := .body) hn
    refine (hoist hns).bind fun _ => guarded ?_ (fun _ => rfl) fun x hx => ?_
    · exact (runAll hns).bind fun _ => .result _
    · split
      · exact .result _
      · exact .stop hx
  · exact expression hn

/-- The present code of a function, and what is done with it. -/
theorem ofCode {code : Node} (hcode : P.Admits code scopes) {k k' : Node → Run α}
    (hk : ∀ code, P.Admits code scopes → Built P e e' inner (k code) (k' code)) :
    Built P e e' inner (Run.currentCode code >>= k) (Run.currentCode code >>= k') :=
  look (k := fun m => k (code.present m.trees)) (fun _ _ => rfl) fun _ hm =>
    hk _ (hcode.present hm.holds)

theorem callCode {code : Node} (hcode : P.Admits code scopes) (hroom : P.Room) (f : Value)
    (name : Text) (this : Value) (args : List Value) :
    Built P e e' inner (Run.callCode e f code scopes name this args)
      (Run.callCode e' f code scopes name this args) := by
  refine ofCode hcode fun code hcode => scope scopes (.inl rfl) fun frame hframe => ?_
  have hfit := P.inner hcode.fit hframe
  have hrun : Built P e e' (some (frame :: scopes))
      (do
        Run.bindParameters e.toEvaluator frame (frame :: scopes) args (code.childrenAt .params) 0
        e.body (← Run.part code .body) (frame :: scopes))
      (do
        Run.bindParameters e'.toEvaluator frame (frame :: scopes) args (code.childrenAt .params) 0
        e'.body (← Run.part code .body) (frame :: scopes)) :=
    (bindParameters hframe args (P.childrenAt hfit) 0).bind fun _ =>
      partOf hfit .body hcode.body fun _ _ hbody => body hroom hbody
  split
  · refine (declare (hframe _) this).bind fun _ => (newArray _).bind fun own =>
      (declare (hframe _) own).bind fun _ => ?_
    split
    · exact (declare (hframe name) f).bind fun _ => hrun
    · exact hrun
  · exact hrun

/-- A call is one of a built-in function, or runs the code of a function. -/
theorem callAs (f this : Value) (hf : P.CalledOn f this) (args : List Value) :
    Built P e e' inner (Run.callAs e f this args) (Run.callAs e' f this args) := by
  unfold Run.callAs
  split
  · refine ofCell _ fun c hc => ?_
    split
    · next fn hbody => exact applyNative (hc.builtin fn hbody) hf args
    · next code scopes name hbody =>
      exact entered fun hroom => callCode (hc.closure code scopes name hbody) hroom _ name this args
    · exact notCallable _
  · exact notCallable _

/-! ## Expressions -/

theorem sequenceValue {ns : List Node} (hns : ∀ n ∈ ns, P.Fit n scopes) (v : Value) :
    Built P e e' inner (Run.sequenceValue e.toEvaluator scopes ns v)
      (Run.sequenceValue e'.toEvaluator scopes ns v) := by
  induction ns generalizing v with
  | nil => exact .result v
  | cons n ns ih =>
    exact (expression (hns n List.mem_cons_self)).bind fun w =>
      ih (fun n hn => hns n (List.mem_cons_of_mem _ hn)) w

theorem thisValue (scopes : ScopeChain) :
    Built P e e' inner (Run.thisValue scopes) (Run.thisValue scopes) := by
  refine look (fun m t => by simp) fun m _ => ?_
  split
  · exact .result _
  · exact .result _

/-- Expressions are built from the code inside of them. -/
theorem evaluateExpression (hn : P.Fit n scopes) :
    Built P e e' inner (Run.evaluateExpression e.toEvaluator n scopes)
      (Run.evaluateExpression e'.toEvaluator n scopes) := by
  refine tick.bind fun _ => ?_
  split
  · exact literalValue _
  · exact lookup scopes _
  · exact thisValue scopes
  · exact (evaluateList (P.childrenAt hn)).bind fun _ => newArray _
  · exact (putProperties (P.childrenAt hn) _).bind fun _ => newObject _
  · next hform => exact functionValue hn (by rw [hform]; rfl) _
  · next hform => exact functionValue hn (by rw [hform]; rfl) _
  · next hform => exact part hn hform .argument rfl fun _ hc _ => unaryValue hn hform hc
  · next hform => exact part hn hform .argument rfl fun _ hc _ => updateValue hn hform hc
  · next hform =>
    exact valueOf hn hform .left rfl fun l => valueOf hn hform .right rfl fun r => binaryOperation _ l r
  · next hform => exact logicalValue hn hform
  · next hform =>
    refine valueOf hn hform .test rfl fun v => ?_
    split
    · exact part hn hform .consequent rfl fun _ _ hc => expression hc
    · exact part hn hform .alternate rfl fun _ _ hc => expression hc
  · next hform => exact assignmentValue hn hform
  · exact sequenceValue (P.childrenAt hn) _
  · next hform => exact memberValue hn hform
  · next hform => exact callValue hn hform
  · exact (templateValue _ (P.childrenAt hn) _).map _
  · next hform =>
    refine .stop (P.lacking hn (Node.hasParts_of_improper ?_) _)
    simp [Node.hasProperParts, hform]
  · exact fail _

/-! ## Statements -/

/-- A declarator runs its initializer and sets the variable that it names. -/
theorem declareVariable (hinit : ∀ init, n.child? .init = some init → P.Fit init scopes)
    (hlack : n.child? .id = none → ∀ x, P.Stops x) {f : FrameId}
    (hf : ∀ name, (n.child? .id).bind Node.name? = some name → P.Own f name) :
    Built P e e' inner (Run.declareVariable e.toEvaluator n scopes f)
      (Run.declareVariable e'.toEvaluator n scopes f) := by
  refine slotOf .id hlack fun id hid => ?_
  split
  · exact fail _
  · next name hname =>
    have hown := hf name (by rw [hid]; exact hname)
    split
    · next init hchild => exact (expression (hinit init hchild)).bind fun v => declare hown v
    · refine look (fun _ _ => rfl) fun m _ => ?_
      split
      · exact declare hown _
      · exact .result ()

theorem declareAll {f : FrameId} {ds : List Node}
    (hds : ∀ d ∈ ds, (∀ init, d.child? .init = some init → P.Fit init scopes) ∧
      (d.child? .id = none → ∀ x, P.Stops x) ∧
      ∀ name, (d.child? .id).bind Node.name? = some name → P.Own f name) :
    Built P e e' inner (Run.declareAll e.toEvaluator scopes f ds)
      (Run.declareAll e'.toEvaluator scopes f ds) := by
  induction ds with
  | nil => exact .result ()
  | cons d ds ih =>
    obtain ⟨hinit, hlack, hf⟩ := hds d List.mem_cons_self
    exact (declareVariable hinit hlack hf).bind fun _ =>
      ih fun d hd => hds d (List.mem_cons_of_mem _ hd)

/-- Where the scope of a declaration is looked for before something is done with it. -/
theorem declarationScope_bind (kind : VariableKind) (scopes : ScopeChain) (k : FrameId → Run α) :
    (Run.declarationScope kind scopes >>= k) =
      if (kind == .var) = true then Run.varScope scopes >>= k
      else
        match scopes with
        | f :: _ => pure f >>= k
        | [] => get >>= fun m => k m.global := by
  unfold Run.declarationScope
  split
  · rfl
  · cases scopes <;> rfl

theorem runDeclaration {kind : VariableKind} (hn : P.Fit n scopes)
    (hform : n.form = .variableDeclaration kind) :
    Built P e e' (some scopes)
      (Run.declarationScope kind scopes >>= fun f =>
        Run.declareAll e.toEvaluator scopes f (n.childrenAt .declarations))
      (Run.declarationScope kind scopes >>= fun f =>
        Run.declareAll e'.toEvaluator scopes f (n.childrenAt .declarations)) := by
  refine target kind fun f hf => declareAll fun d hd =>
    ⟨fun _ hinit => P.child? (P.childrenAt hn d hd) hinit, fun hlack => ?_, fun name _ => hf name⟩
  refine P.lacking hn (Node.hasParts_of_improper ?_)
  simp only [Node.hasProperParts, hform, List.all_eq_false]
  exact ⟨d, hd, by simp [hlack]⟩

theorem runBlock {ns : List Node} (hns : ∀ n ∈ ns, P.Fit n scopes) :
    Built P e e' (some scopes) (Run.runBlock e.toEvaluator ns scopes)
      (Run.runBlock e'.toEvaluator ns scopes) := by
  refine block fun f hf => ?_
  have hns' : ∀ n ∈ ns, P.Fit n (f :: scopes) := fun n hn => P.inner (hns n hn) hf
  exact (hoist hns').bind fun _ => runAll hns'

theorem runRound (hn : P.Fit n scopes) :
    Built P e e' (some scopes) (Run.runRound e.toEvaluator n scopes)
      (Run.runRound e'.toEvaluator n scopes) := by
  refine guarded ((statement hn).bind fun _ => .result true) (fun _ => rfl) fun x hx => ?_
  split
  · exact .result false
  · exact .result true
  · exact .stop hx

theorem testHolds {test : Option Node} (htest : ∀ t, test = some t → P.Fit t scopes) :
    Built P e e' inner (Run.testHolds e.toEvaluator test scopes)
      (Run.testHolds e'.toEvaluator test scopes) := by
  unfold Run.testHolds
  split
  · exact (expression (htest _ rfl)).map _
  · exact .result true

theorem runInit {init : Option Node} (hinit : ∀ t, init = some t → P.Fit t scopes) :
    Built P e e' (some scopes) (Run.runInit e.toEvaluator init scopes)
      (Run.runInit e'.toEvaluator init scopes) := by
  unfold Run.runInit
  split
  · exact .result ()
  · split
    · exact statement (hinit _ rfl)
    · exact (expression (hinit _ rfl)).bind fun _ => .result ()

/-- The cases that are taken are cases of the statement. -/
theorem matchingCases (v : Value) {cases : List Node} (hcases : ∀ c ∈ cases, P.Fit c scopes)
    {k k' : Option (List Node) → Run α}
    (hk : ∀ taken, (∀ cs, taken = some cs → ∀ c ∈ cs, P.Fit c scopes) →
      Built P e e' inner (k taken) (k' taken)) :
    Built P e e' inner (Run.matchingCases e.toEvaluator v scopes cases >>= k)
      (Run.matchingCases e'.toEvaluator v scopes cases >>= k') := by
  induction cases with
  | nil => exact hk none fun _ h => by cases h
  | cons c cases ih =>
    have hrest := ih fun c hc => hcases c (List.mem_cons_of_mem _ hc)
    unfold Run.matchingCases
    split
    · next t ht =>
      rw [bind_assoc, bind_assoc]
      refine (expression (P.child? (hcases c List.mem_cons_self) ht)).bind fun w => ?_
      split
      · rw [pure_bind, pure_bind]
        refine hk _ fun cs hcs => ?_
        cases hcs
        exact hcases
      · exact hrest
    · exact hrest

theorem runSwitch (hn : P.Fit n scopes) (hform : n.form = .switchStatement) :
    Built P e e' (some scopes) (Run.runSwitch e.toEvaluator n scopes)
      (Run.runSwitch e'.toEvaluator n scopes) := by
  have hcases := P.childrenAt (r := .cases) hn
  refine valueOf hn hform .discriminant rfl fun v => matchingCases v hcases fun taken htaken => ?_
  have htaken' : ∀ c ∈ taken.getD (Run.defaultCases (n.childrenAt .cases)), P.Fit c scopes := by
    cases taken with
    | some cs => exact htaken cs rfl
    | none => exact fun c hc => hcases c (List.dropWhile_subset _ hc)
  dsimp only
  split
  · exact .result ()
  refine block fun f hf => guarded (runAll ?_) (fun _ => rfl) fun x hx => ?_
  · intro s hs
    obtain ⟨c, hc, hs⟩ := List.mem_flatMap.mp hs
    exact P.inner (P.childrenAt (htaken' c hc) s hs) hf
  · split
    · exact .result ()
    · exact .stop hx

theorem runHandler (hn : P.Fit n scopes) (hlack : n.child? .body = none → ∀ x, P.Stops x)
    (v : Value) :
    Built P e e' (some scopes) (Run.runHandler e.toEvaluator n v scopes)
      (Run.runHandler e'.toEvaluator n v scopes) := by
  refine block fun f hf => ?_
  have hbody : Built P e e' (some (f :: scopes))
      (do e.statement (← Run.part n .body) (f :: scopes))
      (do e'.statement (← Run.part n .body) (f :: scopes)) :=
    partOf (P.inner hn hf) .body hlack fun _ _ hb => statement hb
  cases n.child? .param with
  | none => exact hbody
  | some p =>
    simp only
    split
    · exact (declare (hf _) v).bind fun _ => hbody
    · exact (fail _).bind fun _ => hbody

theorem runTry (hn : P.Fit n scopes) (hform : n.form = .tryStatement) :
    Built P e e' (some scopes) (Run.runTry e.toEvaluator n scopes)
      (Run.runTry e'.toEvaluator n scopes) := by
  refine part hn hform .block rfl fun block _ hblock => ?_
  have hrun : Built P e e' (some scopes) (e.statement block scopes) (e'.statement block scopes) :=
    statement hblock
  have hhandler : ∀ handler, n.child? .handler = some handler → ∀ v,
      Built P e e' (some scopes) (Run.runHandler e.toEvaluator handler v scopes)
        (Run.runHandler e'.toEvaluator handler v scopes) := by
    intro handler hc v
    refine runHandler (P.child? hn hc) (fun hlack => ?_) v
    refine P.lacking hn (Node.hasParts_of_improper ?_)
    simp [Node.hasProperParts, hform, hc, hlack]
  simp only
  split
  case' h_1 f hf => refine finalized (guarded hrun ?_ fun x hx => ?_) hn hf
  case' h_2 => refine guarded hrun ?_ fun x hx => ?_
  all_goals first
    | exact fun _ => rfl
    | split
      · next handler hc => exact hhandler handler hc _
      · exact .stop hx

theorem runJump (n : Node) (labelled : Failure) {jump : Abrupt} (hjump : jump.IsProper) :
    Built P e e' inner (Run.runJump n labelled jump) (Run.runJump n labelled jump) := by
  unfold Run.runJump
  split
  · exact fail _
  · exact .stop (P.proper _ hjump)

/-! ## Loops -/

section Loops

variable {ev : Evaluator} {m m₁ : Machine}

theorem steps_le_of_value (hev : ev.Advances) {n : Node} {scopes : ScopeChain} {v : Value}
    (h : ev.expression n scopes m = .ok v m₁) : m.steps ≤ m₁.steps := by
  have hle := hev.expression n scopes m
  rwa [h] at hle

/-- The statement of a round takes a step, also if it is left by a jump. -/
theorem paid_runRound (hev : ev.Advances) {body : Node} {scopes : ScopeChain}
    (h : Run.runRound ev body scopes m = .ok true m₁) : m.steps < m₁.steps := by
  have hpaid := hev.paid body scopes m
  unfold Run.runRound at h
  cases hrun : ev.statement body scopes m with
  | ok a m₂ =>
    have hround : (do ev.statement body scopes; return true : Run Bool) m = .ok true m₂ :=
      bind_of_ok hrun
    rw [tryCatch_of_ok hround] at h
    cases h
    obtain hlt | ⟨l, m₂, hlimit⟩ := hrun ▸ hpaid
    · exact hlt
    · cases hlimit
  | error x m₂ =>
    have hround : (do ev.statement body scopes; return true : Run Bool) m = .error x m₂ :=
      bind_of_error hrun
    rw [tryCatch_of_error hround] at h
    cases x with
    | continued =>
      cases h
      obtain hlt | ⟨l, m₂, hlimit⟩ := hrun ▸ hpaid
      · exact hlt
      · cases hlimit
    | _ => cases h

theorem steps_le_of_testHolds (hev : ev.Advances) {test : Option Node} {scopes : ScopeChain}
    {holds : Bool} (h : Run.testHolds ev test scopes m = .ok holds m₁) : m.steps ≤ m₁.steps := by
  unfold Run.testHolds at h
  cases test with
  | none =>
    cases h
    exact Nat.le_refl _
  | some t =>
    obtain ⟨v, m₂, hv, h⟩ := bind_eq_ok.mp h
    obtain ⟨-, rfl⟩ := EStateM.Result.ok.inj h
    exact steps_le_of_value hev hv

/-- The update of a `for` loop, after which the loop goes on. -/
def afterRound (ev : Evaluator) (update : Option Node) (scopes : ScopeChain) : Run Bool := do
  match update with
  | some u => let _ ← ev.expression u scopes
  | none => pure ()
  return true

theorem steps_le_of_afterRound (hev : ev.Advances) {update : Option Node} {scopes : ScopeChain}
    {more : Bool} (h : afterRound ev update scopes m = .ok more m₁) : m.steps ≤ m₁.steps := by
  cases update with
  | none =>
    obtain ⟨-, rfl⟩ := EStateM.Result.ok.inj h
    exact Nat.le_refl _
  | some u =>
    obtain ⟨v, m₂, hv, h⟩ := bind_eq_ok.mp h
    obtain ⟨-, rfl⟩ := EStateM.Result.ok.inj h
    exact steps_le_of_value hev hv

end Loops

theorem runWhile (hev : e.toEvaluator.Advances) (hn : P.Fit n scopes)
    (hform : n.form = .whileStatement) :
    Built P e e' (some scopes) (Run.runWhile e.toEvaluator n scopes)
      (Run.runWhile e'.toEvaluator n scopes) := by
  refine part hn hform .test rfl fun test _ htest =>
    part hn hform .body rfl fun body _ hbody => loop ?_ ?_
  · refine (expression htest).bind fun v => ?_
    split
    · exact runRound hbody
    · exact .result false
  · intro m m₁ h
    obtain ⟨v, m₂, htest, h⟩ := bind_eq_ok.mp h
    split at h
    · exact Nat.lt_of_le_of_lt (steps_le_of_value hev htest) (paid_runRound hev h)
    · cases h

theorem runDoWhile (hev : e.toEvaluator.Advances) (hn : P.Fit n scopes)
    (hform : n.form = .doWhileStatement) :
    Built P e e' (some scopes) (Run.runDoWhile e.toEvaluator n scopes)
      (Run.runDoWhile e'.toEvaluator n scopes) := by
  refine part hn hform .test rfl fun test _ htest =>
    part hn hform .body rfl fun body _ hbody => loop ?_ ?_
  · refine (runRound hbody).bind fun more => ?_
    split
    · exact (expression htest).map _
    · exact .result false
  · intro m m₁ h
    obtain ⟨more, m₂, hround, h⟩ := bind_eq_ok.mp h
    split at h
    · next hmore =>
      rw [hmore] at hround
      obtain ⟨v, m₃, htest, h⟩ := bind_eq_ok.mp h
      obtain ⟨-, rfl⟩ := EStateM.Result.ok.inj h
      exact Nat.lt_of_lt_of_le (paid_runRound hev hround) (steps_le_of_value hev htest)
    · cases h

theorem runFor (hev : e.toEvaluator.Advances) (hn : P.Fit n scopes)
    (hform : n.form = .forStatement) :
    Built P e e' (some scopes) (Run.runFor e.toEvaluator n scopes)
      (Run.runFor e'.toEvaluator n scopes) := by
  refine block fun f hf => ?_
  have hchild : ∀ {r : Role} t, n.child? r = some t → P.Fit t (f :: scopes) :=
    fun t ht => P.inner (P.child? hn ht) hf
  refine (runInit hchild).bind fun _ => ?_
  refine part (P.inner hn hf) hform .body rfl fun body _ hbody => loop ?_ ?_
  · refine (testHolds hchild).bind fun holds => ?_
    split
    · exact .result false
    refine (runRound hbody).bind fun more => ?_
    split
    · exact .result false
    cases hupdate : n.child? .update with
    | some u => exact (expression (hchild u hupdate)).bind fun _ => .result true
    | none => exact .result true
  · intro m m₁ h
    obtain ⟨holds, m₂, htest, h⟩ := bind_eq_ok.mp h
    split at h
    · cases h
    obtain ⟨more, m₃, hround, h⟩ := bind_eq_ok.mp h
    split at h
    · cases h
    · next hmore =>
      rw [show more = true by simpa using hmore] at hround
      have hle : m₃.steps ≤ m₁.steps := steps_le_of_afterRound hev h
      exact Nat.lt_of_le_of_lt (steps_le_of_testHolds hev htest)
        (Nat.lt_of_lt_of_le (paid_runRound hev hround) hle)

/-- A statement takes a step and goes on with what is built from the code inside of it. -/
theorem exists_afterTick (hev : e.toEvaluator.Advances) (hn : P.Fit n scopes) :
    ∃ rest rest' : Run Unit,
      Run.executeStatement e.toEvaluator n scopes = (do Run.tick; rest) ∧
      Run.executeStatement e'.toEvaluator n scopes = (do Run.tick; rest') ∧
      Built P e e' (some scopes) rest rest' := by
  refine ⟨_, _, rfl, rfl, ?_⟩
  split
  · next hform => exact valueOf hn hform .expression rfl fun _ => .result ()
  · next kind hform =>
    have hrun : Built P e e' (some scopes) _ _ := runDeclaration hn hform
    rw [declarationScope_bind, declarationScope_bind] at hrun
    exact hrun
  · next hform =>
    exact varScope fun f hf => (functionName hn hform).bind fun name =>
      (makeFunction hn (by rw [hform]; rfl)).bind fun v => declare (hf name) v
  · exact runBlock (P.childrenAt hn)
  · exact .result ()
  · next hform =>
    refine valueOf hn hform .test rfl fun v => ?_
    split
    · exact part hn hform .consequent rfl fun _ _ hc => statement hc
    · split
      · next a ha => exact statement (P.child? hn ha)
      · exact .result ()
  · split
    · next a ha => exact (expression (P.child? hn ha)).bind fun v => .stop (P.proper _ trivial)
    · exact .stop (P.proper _ trivial)
  · next hform => exact runFor hev hn hform
  · next hform => exact runWhile hev hn hform
  · next hform => exact runDoWhile hev hn hform
  · exact runJump n _ trivial
  · exact runJump n _ trivial
  · next hform => exact runSwitch hn hform
  · next hform => exact valueOf hn hform .argument rfl fun v => .stop (P.proper _ trivial)
  · next hform => exact runTry hn hform
  · next hform =>
    refine .stop (P.lacking hn (Node.hasParts_of_improper ?_) _)
    simp [Node.hasProperParts, hform]
  · exact fail _

/-- Statements are built from the code inside of them. -/
theorem executeStatement (hev : e.toEvaluator.Advances) (hn : P.Fit n scopes) :
    Built P e e' (some scopes) (Run.executeStatement e.toEvaluator n scopes)
      (Run.executeStatement e'.toEvaluator n scopes) := by
  obtain ⟨rest, rest', heq, heq', hrest⟩ := exists_afterTick hev hn
  rw [heq, heq']
  exact tick.bind fun _ => hrest

end Untangle.Sandbox.Built

/-! ## Running code is composed -/

namespace Untangle.Sandbox

/-- The meaning of code that runs no bodies of functions. -/
def Evaluator.bodiless (ev : Evaluator) : Meaning :=
  { ev with body := fun _ _ => throw (.limit .nesting) }

namespace Composed

variable {Fit : Node → Prop} {ev : Evaluator} {α : Type} {n : Node}

/-- What is built without bodies of functions is composed. -/
theorem of_built (hfit : Hereditary Fit) (inner : Option ScopeChain) {c c' : Run α}
    (h : Built (.plain Fit hfit) ev.bodiless ev.bodiless inner c c') : Composed Fit ev c :=
  h.composed fun _ _ _ => .stop _

/-- Expressions are composed. -/
theorem evaluateExpression (hfit : Hereditary Fit) (hn : Fit n) (scopes : ScopeChain) :
    Composed Fit ev (Run.evaluateExpression ev n scopes) :=
  of_built hfit none (.evaluateExpression hn)

theorem declareVariable (hfit : Hereditary Fit) (hn : Fit n) (scopes : ScopeChain)
    (target : FrameId) : Composed Fit ev (Run.declareVariable ev n scopes target) :=
  of_built hfit none
    (.declareVariable (fun _ => hfit.child? hn) (fun _ _ => trivial) fun _ _ => trivial)

/-- Calls are composed: of a built-in function, or of the code of a function. -/
theorem callFunction (hfit : Hereditary Fit) (f this : Value) (args : List Value) :
    Composed Fit ev (Run.callFunction ev f this args) := by
  have h : Built (.plain Fit hfit) ev.meaning ev.meaning none _ _ := .callAs f this trivial args
  rw [callFunction_eq]
  refine h.composed fun n scopes hn => ?_
  exact deeper (of_built hfit (some scopes) (.runBody hn))

/-- A statement takes a step and goes on with what is composed. -/
theorem exists_afterTick (hev : ev.Advances) (hfit : Hereditary Fit) (hn : Fit n)
    (scopes : ScopeChain) :
    ∃ rest : Run Unit, Run.executeStatement ev n scopes = (do Run.tick; rest) ∧
      Composed Fit ev rest := by
  obtain ⟨rest, rest', heq, -, hrest⟩ :=
    Built.exists_afterTick (P := .plain Fit hfit) (e := ev.bodiless) hev hn
  exact ⟨rest, heq, of_built hfit _ hrest⟩

/-- Statements are composed. -/
theorem executeStatement (hev : ev.Advances) (hfit : Hereditary Fit) (hn : Fit n)
    (scopes : ScopeChain) : Composed Fit ev (Run.executeStatement ev n scopes) := by
  obtain ⟨rest, heq, hrest⟩ := exists_afterTick hev hfit hn scopes
  rw [heq]
  exact tick.bind fun _ => hrest

end Composed

/-! ## All depths of nesting -/

/-- A statement takes a step unless a limit stops it. -/
theorem paid_executeStatement {ev : Evaluator} (hev : ev.Advances) (n : Node) (scopes : ScopeChain)
    (m : Machine) :
    m.steps < (stateOf (Run.executeStatement ev n scopes m)).steps ∨
      ∃ l m₁, Run.executeStatement ev n scopes m = .error (.limit l) m₁ := by
  obtain ⟨rest, heq, hrest⟩ :=
    Composed.exists_afterTick (n := n) hev hereditary_true trivial scopes
  have htick := tick_eq m
  rw [heq]
  split at htick
  · exact .inr ⟨_, _, bind_of_error htick⟩
  · left
    rw [bind_of_ok htick]
    exact hrest.advances hev { m with steps := m.steps + 1 }

/-- No code gives steps back, however deep it is nested. -/
theorem evaluator_advances (depth : Nat) : (evaluator depth).Advances := by
  induction depth with
  | zero =>
    exact
      { expression := fun _ _ _ => Nat.le_refl _
        statement := fun _ _ _ => Nat.le_refl _
        call := fun _ _ _ _ => Nat.le_refl _
        paid := fun _ _ m => .inr ⟨.nesting, m, rfl⟩ }
  | succ depth ih =>
    exact
      { expression := fun n scopes =>
          (Composed.evaluateExpression hereditary_true trivial scopes).advances ih
        statement := fun n scopes =>
          (Composed.executeStatement ih hereditary_true trivial scopes).advances ih
        call := fun f this args => (Composed.callFunction hereditary_true f this args).advances ih
        paid := paid_executeStatement ih }

end Untangle.Sandbox
