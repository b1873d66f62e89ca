import Untangle.Proofs.Sandbox.RealmNatives

set_option autoImplicit false

/-!
# Running code in a realm

Expressions, statements and calls do not leave the realm in which they run: all values that they give,
throw or return are known, and a function that was there before some code ran is there afterwards, with
the same code.  In a strict realm accepted code meets no form that the sandbox does not know, wherever it
is called from, and no jump leads out of an expression or of the body of a function.
-/

namespace Untangle.Sandbox.Realm

variable {ρ : Realm} {J : Jump → Prop} {m m₁ : Machine} {α : Type} {Q : Machine → α → Prop} {ev : Evaluator}
  {n : Node} {f : Form} {r : Role} {scopes : ScopeChain}

/-- Code may be called in whatever slot it stands. -/
theorem Callable.inRole (hn : ρ.Callable n) (r : Role) : ρ.Callable (n.inRole r) := by
  intro hs
  obtain hsame | ⟨hself, hother⟩ := Node.present_inRole ρ.trees n r
  · rw [hsame]
    exact hn hs
  · have hcode := hn hs
    rw [hself] at hcode
    rw [hother, Node.form_inRole]
    exact ⟨hcode.1.inRole hother, hcode.2⟩

namespace Maintains

/-! ## Parts, literals and functions -/

theorem part (n : Node) (r : Role) :
    ρ.Maintains J m (fun _ c => n.child? r = some c) (Run.part n r) := by
  unfold Run.part
  split
  · next c hc => exact .result fun _ _ => hc
  · exact .halt rfl fun _ => trivial

theorem partName (n : Node) (r : Role) : ρ.Maintains J m Any (Run.partName n r) := by
  refine (part n r).andThen fun _ c _ => ?_
  split
  · exact .any _
  · exact .halt rfl fun _ => trivial

/-- A literal has a value, unless it is a regular expression. -/
theorem literalValue {l : Literal} (hl : ρ.strict → ∀ pattern flags, l ≠ .regex pattern flags) :
    ρ.Maintains J m ρ.Knows (Run.literalValue l) := by
  unfold Run.literalValue
  split
  · exact .value trivial
  · exact .value trivial
  · exact .value trivial
  · exact .value trivial
  · split
    · exact .value trivial
    · exact .halt rfl fun _ => trivial
  · exact .fail fun hs => absurd rfl (hl hs _ _)

theorem makeFunction {code : Node} (hcode : ρ.Callable code) (hscopes : ρ.Sees scopes) :
    ρ.Maintains J m ρ.Knows (Run.makeFunction code scopes) :=
  (Maintains.allocate (knowsAll_nil ρ m) fun _ _ _ h => by cases h; exact ⟨hcode.inRole .top, hscopes⟩).map
    fun _ _ hr => hr

end Maintains

/-- An accepted function may be called. -/
theorem Accepts.callable (hn : ρ.Accepts n) (hform : ρ.strict → n.form.isFunction = true) :
    ρ.Callable n := by
  intro hs
  have hcurrent := (hn hs).current n (.self n) (hform hs)
  rw [hcurrent]
  exact ⟨hn hs, hform hs⟩

namespace Maintains

theorem functionValue {flags : FunctionFlags} (hn : ρ.Accepts n)
    (hform : n.form = .functionExpression flags ∨ n.form = .arrowFunction flags)
    (hscopes : ρ.Sees scopes) : ρ.Maintains J m ρ.Knows (Run.functionValue n flags scopes) := by
  unfold Run.functionValue
  split
  · next hsuspending =>
    refine .fail fun hs => absurd hsuspending ?_
    simp [Run.isSuspending, (hn hs).not_suspending (.inr hform)]
  · refine makeFunction (hn.callable fun _ => ?_) hscopes
    obtain h | h := hform
    all_goals
      rw [h]
      rfl

variable (hev : ρ.Governs ev)

include hev

/-- The value of a part. -/
theorem valueOf (hn : ρ.Accepts n) (hform : ρ.strict → n.form = f) (hslot : f.category r = .expression)
    (hscopes : ρ.Sees scopes) : ρ.Maintains J m ρ.Knows (do ev.expression (← Run.part n r) scopes) :=
  (part n r).bind fun m₁ c _ hc => hev.expression J m₁ c scopes (hslot ▸ hn.child hform hc) hscopes

/-- The value of a part, and what is done with it. -/
theorem withValue {k : Value → Run α} (hn : ρ.Accepts n) (hform : ρ.strict → n.form = f)
    (hslot : f.category r = .expression) (hscopes : ρ.Sees scopes)
    (hk : ∀ m₁ v, m.Becomes m₁ → ρ.Knows m₁ v → ρ.Maintains J m₁ Q (k v)) :
    ρ.Maintains J m Q (do k (← ev.expression (← Run.part n r) scopes)) :=
  (part n r).bind fun m₁ c h hc =>
    (hev.expression J m₁ c scopes (hslot ▸ hn.child hform hc) hscopes).bind fun m₂ v h₂ hv =>
      hk m₂ v (h.trans h₂) hv

theorem evaluateList {ns : List Node} (hns : ∀ n ∈ ns, ρ.Fits .item n) (hscopes : ρ.Sees scopes) :
    ρ.Maintains J m ρ.KnowsAll (Run.evaluateList ev scopes ns) := by
  induction ns generalizing m with
  | nil => exact .result fun m₁ _ => knowsAll_nil ρ m₁
  | cons n ns ih =>
    obtain ⟨hn, hns⟩ := List.forall_mem_cons.mp hns
    have hrest : ∀ (m₁ : Machine) (vs : List Value), ρ.KnowsAll m₁ vs →
        ρ.Maintains J m₁ ρ.KnowsAll (do return vs ++ (← Run.evaluateList ev scopes ns)) :=
      fun m₁ vs hvs => (ih hns).bind fun m₂ ws h hws =>
        .result fun m₃ h₃ => (hvs.later (h.trans h₃)).append (hws.later h₃)
    unfold Run.evaluateList
    split
    · exact hrest m _ ((knowsAll_nil ρ m).cons trivial)
    · next hform =>
      refine withValue hev hn.accepts (fun _ => hform) rfl hscopes fun m₁ v _ hv =>
        .look fun m₂ h₂ hm₂ => ?_
      split
      · next es hes => exact hrest m₂ _ (hm₂.elements (hv.later h₂) hes)
      · exact (Maintains.fail (Q := ρ.KnowsAll) fun _ => rfl).bind fun m₃ vs _ hvs => hrest m₃ vs hvs
    · next hhole hspread =>
      have hexpression : ρ.Fits .expression n := by
        intro hs
        obtain ⟨haccepted, hfits⟩ := hn hs
        exact ⟨haccepted, Node.isExpression_of_item hfits hhole hspread⟩
      exact (hev.expression J m n scopes hexpression hscopes).bind fun m₁ v _ hv =>
        hrest m₁ [v] ((knowsAll_nil ρ m₁).cons hv)

theorem propertyKeyText {computed : Bool} {k : Node} (hk : ρ.Accepts k)
    (hcomputed : computed = true → ρ.Fits .expression k) (hscopes : ρ.Sees scopes) :
    ρ.Maintains J m Any (Run.propertyKeyText ev computed k scopes) := by
  unfold Run.propertyKeyText
  split
  · next h => exact (hev.expression J m k scopes (hcomputed h) hscopes).andThen fun _ v _ => textOf v
  · split
    · exact .any _
    · next l hform =>
      have hl : ρ.strict → ∀ pattern flags, l ≠ .regex pattern flags := fun hs pattern flags h =>
        (hk hs).not_regex pattern flags (h ▸ hform)
      exact (literalValue hl).andThen fun _ v _ => textOf v
    · exact .halt rfl fun _ => trivial

theorem putProperties {ps : List Node} (hps : ∀ p ∈ ps, ρ.Fits .property p)
    (hspread : ∀ p ∈ ps, p.form = .spread → ρ.strict → ρ.spreads) (hscopes : ρ.Sees scopes)
    {d : Dict Text Value} (hd : ρ.KnowsAll m d.values) :
    ρ.Maintains J m (fun m₁ d₁ => ρ.KnowsAll m₁ d₁.values) (Run.putProperties ev scopes ps d) := by
  induction ps generalizing m d with
  | nil => exact .result fun _ h => hd.later h
  | cons p ps ih =>
    obtain ⟨hp, hps⟩ := List.forall_mem_cons.mp hps
    obtain ⟨hpspread, hspread⟩ := List.forall_mem_cons.mp hspread
    unfold Run.putProperties
    split
    · next computed method shorthand hform =>
      refine (part p .key).bind fun m₁ k h hk => ?_
      have hkey := hp.accepts.child (fun _ => hform) hk
      refine (propertyKeyText hev hkey.accepts (fun h => by subst h; exact hkey) hscopes).andThen
        fun m₂ key h₂ => (part p .value).bind fun m₃ c h₃ hc => ?_
      have hvalue : ρ.Fits .expression c := by
        intro hs
        obtain ⟨haccepted, hfits⟩ := hp hs
        exact ⟨(hp.accepts.child (fun _ => hform) hc hs).1, Node.isExpression_of_property hfits hform hc⟩
      refine (hev.expression J m₃ c scopes hvalue hscopes).bind fun m₄ v h₄ hv => ih hps hspread ?_
      exact (hd.later (h.trans (h₂.trans (h₃.trans h₄)))).put hv key
    · exact .fail fun _ => rfl
    · next hother =>
      exact .failSpread fun hs => hpspread (Node.spread_of_property (hp hs).2 hother) hs

theorem templateValue {qs es : List Node} (hqs : ∀ q ∈ qs, ρ.Fits .piece q)
    (hes : ∀ e ∈ es, ρ.Fits .expression e) (hscopes : ρ.Sees scopes) (acc : Text) :
    ρ.Maintains J m Any (Run.templateValue ev scopes qs es acc) := by
  induction qs generalizing m es acc with
  | nil => exact .any acc
  | cons q qs ih =>
    obtain ⟨hq, hqs⟩ := List.forall_mem_cons.mp hqs
    unfold Run.templateValue
    split
    · cases es with
      | nil => exact ih hqs hes _
      | cons n es =>
        obtain ⟨hn, hes⟩ := List.forall_mem_cons.mp hes
        exact (hev.expression J m n scopes hn hscopes).andThen fun _ v _ => (textOf v).andThen
          fun _ t _ => ih hqs hes _
    · next hother =>
      refine .fail fun hs => ?_
      obtain ⟨raw, cooked, last, hform⟩ := Node.exists_piece (hq hs).2
      exact (hother raw cooked last hform).elim

/-! ## Members and targets -/

theorem memberKey {computed : Bool} (hn : ρ.Accepts n) (hform : n.form = .member computed)
    (hscopes : ρ.Sees scopes) : ρ.Maintains J m Any (Run.memberKey ev computed n scopes) := by
  unfold Run.memberKey
  split
  · next h =>
    subst h
    exact withValue hev hn (fun _ => hform) rfl hscopes fun _ v _ _ => textOf v
  · exact partName n .property

theorem memberValue {computed : Bool} (hn : ρ.Accepts n) (hform : n.form = .member computed)
    (hscopes : ρ.Sees scopes) : ρ.Maintains J m ρ.Knows (Run.memberValue ev computed n scopes) :=
  withValue hev hn (fun _ => hform) (by cases computed <;> rfl) hscopes fun _ object _ hobject =>
    (memberKey hev hn hform hscopes).andThen fun _ key h => getProperty (hobject.later h) key

theorem readTarget {target : Node} (htarget : ρ.Fits .reference target) (hscopes : ρ.Sees scopes) :
    ρ.Maintains J m ρ.Knows (Run.readTarget ev target scopes) := by
  unfold Run.readTarget
  split
  · exact .lookup hscopes _
  · next hform => exact memberValue hev htarget.accepts hform hscopes
  · next hidentifier hmember =>
    refine .fail fun hs => ?_
    obtain ⟨name, hform⟩ | ⟨computed, hform⟩ := Node.exists_reference (htarget hs).2
    · exact (hidentifier name hform).elim
    · exact (hmember computed hform).elim

theorem writeTarget {target : Node} (htarget : ρ.Fits .reference target) {v : Value}
    (hv : ρ.Knows m v) (hscopes : ρ.Sees scopes) :
    ρ.Maintains J m Any (Run.writeTarget ev target v scopes) := by
  unfold Run.writeTarget
  split
  · exact .assign hv scopes _
  · next computed hform =>
    exact withValue hev htarget.accepts (fun _ => hform) (by cases computed <;> rfl) hscopes
      fun m₁ object h hobject => (memberKey hev htarget.accepts hform hscopes).andThen
        fun m₂ key h₂ => putProperty (hobject.later h₂) (hv.later (h.trans h₂)) key
  · next hidentifier hmember =>
    refine .fail fun hs => ?_
    obtain ⟨name, hform⟩ | ⟨computed, hform⟩ := Node.exists_reference (htarget hs).2
    · exact (hidentifier name hform).elim
    · exact (hmember computed hform).elim

/-- A value is assigned, and is the result. -/
theorem written {target : Node} (htarget : ρ.Fits .reference target) {v : Value}
    (hv : ρ.Knows m v) (hscopes : ρ.Sees scopes) :
    ρ.Maintains J m ρ.Knows (do Run.writeTarget ev target v scopes; return v) :=
  (writeTarget hev htarget hv hscopes).andThen fun _ _ h => .value (hv.later h)

theorem deleteTarget {target : Node} (htarget : ρ.Accepts target) (hscopes : ρ.Sees scopes) :
    ρ.Maintains J m ρ.Knows (Run.deleteTarget ev target scopes) := by
  unfold Run.deleteTarget
  split
  · next computed hform =>
    refine withValue hev htarget (fun _ => hform) (by cases computed <;> rfl) hscopes
      fun m₁ object h hobject => ?_
    split
    · exact (memberKey hev htarget hform hscopes).andThen fun m₂ key h₂ =>
        (deleteOwn (hobject.later h₂) key).andThen fun _ _ _ => .value trivial
    · exact .value trivial
  · exact .value trivial

/-! ## Operators -/

theorem typeofValue {argument : Node} (hargument : ρ.Fits .expression argument)
    (hscopes : ρ.Sees scopes) : ρ.Maintains J m ρ.Knows (Run.typeofValue ev argument scopes) := by
  have hkind : ∀ m₁ : Machine, ρ.Maintains J m₁ ρ.Knows (do
      let v ← ev.expression argument scopes
      return Value.string (typeOf (← get).heap v)) :=
    fun m₁ => (hev.expression J m₁ argument scopes hargument hscopes).andThen fun _ v _ =>
      .look fun _ _ _ => .value trivial
  unfold Run.typeofValue
  split
  · refine (Maintains.isBound scopes _).andThen fun m₁ bound _ => ?_
    split
    · exact hkind m₁
    · exact .value trivial
  · exact hkind m

theorem unaryValue (op : UnaryOp) {argument : Node} (hargument : ρ.Fits .expression argument)
    (hscopes : ρ.Sees scopes) : ρ.Maintains J m ρ.Knows (Run.unaryValue ev op argument scopes) := by
  unfold Run.unaryValue
  split
  · exact typeofValue hev hargument hscopes
  · exact deleteTarget hev hargument.accepts hscopes
  · refine (hev.expression J m argument scopes hargument hscopes).andThen fun m₁ v _ => ?_
    split
    · exact (numberOf v).mapValue fun _ => rfl
    · exact (numberOf v).mapValue fun _ => rfl
    · exact .value trivial
    · exact (reading fun _ => .toInt32 (List.mem_singleton_self _) v).mapValue fun _ => rfl
    · exact .value trivial
    · exact .fail fun _ => rfl

theorem updateValue (op : UpdateOp) (before : Bool) {target : Node}
    (htarget : ρ.Fits .reference target) (hscopes : ρ.Sees scopes) :
    ρ.Maintains J m ρ.Knows (Run.updateValue ev op before target scopes) :=
  (readTarget hev htarget hscopes).andThen fun _ v _ => (numberOf v).andThen fun _ _ _ =>
    (writeTarget hev htarget (v := .number _) trivial hscopes).andThen fun _ _ _ => .value trivial

theorem logicalValue {op : LogicalOp} (hn : ρ.Accepts n) (hform : n.form = .logical op)
    (hscopes : ρ.Sees scopes) : ρ.Maintains J m ρ.Knows (Run.logicalValue ev op n scopes) := by
  refine withValue hev hn (fun _ => hform) rfl hscopes fun m₁ l _ hl => ?_
  split
  · exact .value hl
  · exact valueOf hev hn (fun _ => hform) rfl hscopes
  · exact .fail fun _ => rfl

theorem assignmentValue {op : AssignOp} (hn : ρ.Accepts n) (hform : n.form = .assignment op)
    (hscopes : ρ.Sees scopes) : ρ.Maintains J m ρ.Knows (Run.assignmentValue ev op n scopes) := by
  refine (part n .left).bind fun m₁ target _ htarget => (part n .right).bind fun m₂ right _ hright => ?_
  have htarget : ρ.Fits .reference target := by
    intro hs
    obtain ⟨haccepted, hfits⟩ := hn.child (fun _ => hform) htarget hs
    refine ⟨haccepted, ?_⟩
    cases op with
    | plain => exact haccepted.isReference hfits
    | _ => exact hfits
  have hright : ρ.Fits .expression right := by
    have hfits := hn.child (fun _ => hform) hright
    cases op <;> exact hfits
  have hassign : ∀ m₃ : Machine, ρ.Maintains J m₃ ρ.Knows (do
      let v ← ev.expression right scopes
      Run.writeTarget ev target v scopes
      return v) :=
    fun m₃ => (hev.expression J m₃ right scopes hright hscopes).bind fun _ v _ hv =>
      written hev htarget hv hscopes
  cases op with
  | plain => exact hassign m₂
  | logical op =>
    refine (readTarget hev htarget hscopes).bind fun m₃ current _ hcurrent => ?_
    split
    · exact .value hcurrent
    · exact hassign m₃
  | compound op =>
    exact (readTarget hev htarget hscopes).andThen fun m₃ current _ =>
      (hev.expression J m₃ right scopes hright hscopes).andThen fun _ r _ =>
        (binaryOperation op current r).bind fun _ v _ hv => written hev htarget hv hscopes

/-! ## Calls -/

omit hev in
theorem notCallable (f : Value) : ρ.Maintains J m Q (Run.notCallable f) :=
  .look fun _ _ _ => .raise _ _

theorem callValue (hn : ρ.Accepts n) (hform : n.form = .call) (hscopes : ρ.Sees scopes) :
    ρ.Maintains J m ρ.Knows (Run.callValue ev n scopes) := by
  have hcall : ∀ (m₁ : Machine) (f this : Value), ρ.Knows m₁ f → ρ.Knows m₁ this →
      ρ.Maintains J m₁ ρ.Knows (do
        let args ← Run.evaluateList ev scopes (n.childrenAt .arguments)
        if (← get).heap.isCallable f then ev.call f this args else Run.notCallable f) := by
    intro m₁ f this hf hthis
    refine (evaluateList hev (fun _ => hn.part fun _ => hform) hscopes).bind fun m₂ args h₂ hargs =>
      .look fun m₃ h₃ _ => ?_
    have hlater := h₂.trans h₃
    split
    · exact hev.call J m₃ f this args (hf.later hlater) (hthis.later hlater) (hargs.later h₃)
    · exact notCallable f
  refine (part n .callee).bind fun m₁ callee _ hcallee => ?_
  have hfits : ρ.Fits .expression callee := hn.child (fun _ => hform) hcallee
  split
  · next computed hform =>
    exact withValue hev hfits.accepts (fun _ => hform) (by cases computed <;> rfl) hscopes
      fun m₂ this _ hthis => (memberKey hev hfits.accepts hform hscopes).andThen fun m₃ key h₃ =>
        (getProperty (hthis.later h₃) key).bind fun m₄ f h₄ hf =>
          hcall m₄ f this hf (hthis.later (h₃.trans h₄))
  · exact (hev.expression J m₁ callee scopes hfits hscopes).bind fun m₂ f _ hf =>
      hcall m₂ f .undefined hf trivial

theorem bindParameters (f : FrameId) {args : List Value} (hargs : ρ.KnowsAll m args) {ps : List Node}
    (hps : ∀ p ∈ ps, ρ.Fits .parameter p) (hscopes : ρ.Sees scopes) (i : Nat) :
    ρ.Maintains J m Any (Run.bindParameters ev f scopes args ps i) := by
  induction ps generalizing m i with
  | nil => exact .any ()
  | cons p ps ih =>
    obtain ⟨hp, hps⟩ := List.forall_mem_cons.mp hps
    have hrest : ∀ m₁, m.Becomes m₁ →
        ρ.Maintains J m₁ Any (Run.bindParameters ev f scopes args ps (i + 1)) :=
      fun m₁ h => ih (hargs.later h) hps (i + 1)
    have hbind : ∀ (m₁ : Machine) (name : Text) (v : Value), m.Becomes m₁ → ρ.Knows m₁ v →
        ρ.Maintains J m₁ Any (do
          Run.declare f name v
          Run.bindParameters ev f scopes args ps (i + 1)) :=
      fun m₁ name v h hv => (Maintains.declare hv f name).andThen fun m₂ _ h₂ => hrest m₂ (h.trans h₂)
    -- What has no name is no parameter of accepted code.
    have hunnamed : ∀ (m₁ : Machine) (kind : String), m.Becomes m₁ → ¬ ρ.strict →
        ρ.Maintains J m₁ Any (do
          Run.fail (.parameter kind)
          Run.bindParameters ev f scopes args ps (i + 1)) :=
      fun m₁ kind h hlax => (Maintains.fail (Q := Any) fun hs => absurd hs hlax).andThen
        fun m₂ _ h₂ => hrest m₂ (h.trans h₂)
    unfold Run.bindParameters
    simp only
    split
    · exact hbind m _ _ (.refl m) (hargs.getD i)
    · next hform =>
      refine (part p .left).bind fun m₁ left h hleft => ?_
      split
      · split
        · exact withValue hev hp.accepts (fun _ => hform) rfl hscopes fun m₂ v h₂ hv =>
            hbind m₂ _ v (h.trans h₂) hv
        · exact hbind m₁ _ _ h ((hargs.later h).getD i)
      · next hname =>
        refine hunnamed m₁ _ h fun hs => ?_
        obtain ⟨haccepted, hfits⟩ := hp hs
        exact (haccepted.child (Node.mem_of_child? hleft).1).name?_ne_none
          (Node.isBinding_of_default hfits hform hleft) hname
    · next hform =>
      refine (part p .argument).bind fun m₁ argument h hargument => ?_
      split
      · refine (Maintains.newArray ?_).bind fun m₂ v h₂ hv => hbind m₂ _ v (h.trans h₂) hv
        exact (hargs.later h).of_subset (by simpa using List.drop_subset i args)
      · next hname =>
        refine hunnamed m₁ _ h fun hs => ?_
        obtain ⟨haccepted, hfits⟩ := hp hs
        exact (haccepted.child (Node.mem_of_child? hargument).1).name?_ne_none
          (Node.isBinding_of_rest hfits hform hargument) hname
    · next hidentifier hdefault hrestForm =>
      refine hunnamed m _ (.refl m) fun hs => ?_
      obtain ⟨haccepted, hfits⟩ := hp hs
      obtain ⟨name, hname⟩ :=
        haccepted.exists_name (Node.isBinding_of_parameter hfits hdefault hrestForm)
      exact hidentifier name hname

omit hev in
theorem hoist {ns : List Node} (hns : ∀ n ∈ ns, ρ.Accepts n) (hscopes : ρ.Sees scopes) :
    ρ.Maintains J m Any (Run.hoist scopes ns) := by
  induction ns generalizing m with
  | nil => exact .any ()
  | cons s ns ih =>
    obtain ⟨hs, hns⟩ := List.forall_mem_cons.mp hns
    unfold Run.hoist
    split
    · next hform =>
      have hcallable : ρ.Callable s := hs.callable fun _ => by rw [hform]; rfl
      exact (partName s .id).andThen fun _ name _ => (Maintains.varScope scopes).andThen
        fun _ f _ => (makeFunction hcallable hscopes).bind fun _ v _ hv =>
          (Maintains.declare hv f name).andThen fun _ _ _ => ih hns
    · exact ih hns

theorem runAll {ns : List Node} (hns : ∀ n ∈ ns, ρ.Fits .statement n ∧ ρ.Confines J n)
    (hscopes : ρ.Sees scopes) : ρ.Maintains J m Any (Run.runAll ev scopes ns) := by
  induction ns generalizing m with
  | nil => exact .any ()
  | cons s ns ih =>
    obtain ⟨⟨hs, hjumps⟩, hns⟩ := List.forall_mem_cons.mp hns
    exact (hev.statement J m s scopes hs hjumps hscopes).andThen fun _ _ _ => ih hns

/-- The body of a function is an expression, or a block out of which no jump leads but a `return`. -/
theorem runBody {body : Node} (hbody : ρ.Fits .arrowBody body) (hscopes : ρ.Sees scopes) :
    ρ.Maintains J m ρ.Knows (Run.runBody ev body scopes) := by
  unfold Run.runBody
  split
  · next hform =>
    have hns : ∀ s ∈ body.childrenAt .body,
        ρ.Fits .statement s ∧ ρ.Confines (· = .returned) s := by
      intro s hs
      refine ⟨hbody.accepts.part (fun _ => hform) hs, ?_⟩
      refine Confines.through (fun hstrict j hj => ?_) (fun _ => hform) (fun j => rfl) hs
      exact Node.returned_of_arrowBody (hbody hstrict).2 hform hj
    refine (hoist (fun s hs => (hns s hs).1.accepts) hscopes).andThen fun m₁ _ _ =>
      Maintains.guarded (K := (· = .returned)) ?_ fun m₂ x _ hx => ?_
    · exact (runAll hev hns hscopes).andThen fun _ _ _ => .value trivial
    · split
      · exact .value (hx.1 _ rfl)
      · next hother =>
        refine .stop ⟨hx.1, fun hs => (hx.2 hs).imp fun j hj hreturned => ?_⟩
        subst hreturned
        cases x with
        | returned v => exact (hother v rfl).elim
        | _ => cases hj
  · next hother =>
    refine hev.expression J m body scopes (fun hs => ?_) hscopes
    obtain ⟨haccepted, hfits⟩ := hbody hs
    exact ⟨haccepted, Node.isExpression_of_arrowBody hfits hother⟩

/-- The body of a function runs one call deeper. -/
theorem deeper {body : Node} (hbody : ρ.Fits .arrowBody body) (hscopes : ρ.Sees scopes) :
    ρ.Maintains J m ρ.Knows (ev.meaning.body body scopes) :=
  (atDepth m (· + 1)).andThen fun m₁ _ _ =>
    (runBody hev hbody hscopes).thenAlways (atDepth m₁ (· - 1)) fun _ _ _ h hv => hv.later h

omit hev in
/-- What runs is the present code of a function. -/
theorem currentCode {code : Node} (hcode : ρ.Callable code) :
    ρ.Maintains J m (fun _ c => ρ.Accepts c ∧ (ρ.strict → c.form.isFunction = true))
      (Run.currentCode code) := by
  refine .look fun m₁ _ hm => .result fun _ _ => ?_
  have hpresent : ρ.strict → (m₁.trees.findSome? (Node.findId code.id)).getD code =
      code.present ρ.trees := fun hs => by rw [hm.trees hs]; rfl
  exact ⟨fun hs => (hpresent hs).symm ▸ (hcode hs).1, fun hs => (hpresent hs).symm ▸ (hcode hs).2⟩

theorem callCode {f this : Value} (hf : ρ.Knows m f) (hthis : ρ.Knows m this) {args : List Value}
    (hargs : ρ.KnowsAll m args) {code : Node} (hcode : ρ.Callable code) (hscopes : ρ.Sees scopes)
    (name : Text) :
    ρ.Maintains J m ρ.Knows (Run.callCode ev.meaning f code scopes name this args) := by
  refine (currentCode hcode).bind fun m₂ code h₂ hcode => (Maintains.newFrame _ _).bind
    fun m₃ frame h₃ hframe => ?_
  have hbecomes := h₂.trans h₃
  have hinner : ρ.Sees (frame :: scopes) := hscopes.cons hframe
  have hrun : ∀ m₄, m₃.Becomes m₄ → ρ.Maintains J m₄ ρ.Knows (do
      Run.bindParameters ev frame (frame :: scopes) args (code.childrenAt .params) 0
      ev.meaning.body (← Run.part code .body) (frame :: scopes)) :=
    fun m₄ h₄ => (bindParameters hev frame (hargs.later (hbecomes.trans h₄))
      (fun _ => hcode.1.parameter hcode.2) hinner 0).andThen fun _ _ _ => (part code .body).bind
        fun _ body _ hbody => deeper hev (hcode.1.functionBody hcode.2 hbody) hinner
  split
  · refine (Maintains.declare (hthis.later hbecomes) frame _).andThen fun m₄ _ h₄ => ?_
    refine (Maintains.newArray ?_).bind fun m₅ own h₅ hown =>
      (Maintains.declare hown frame _).andThen fun m₆ _ h₆ => ?_
    · simpa using hargs.later (hbecomes.trans h₄)
    have hlast := h₄.trans (h₅.trans h₆)
    split
    · exact (Maintains.declare (hf.later (hbecomes.trans hlast)) frame _).andThen
        fun m₇ _ h₇ => hrun m₇ (hlast.trans h₇)
    · exact hrun m₆ hlast
  · exact hrun m₃ (.refl m₃)

omit hev in
/-- The check of the depth lets a call pass or stops it. -/
theorem entered {c : Run α} (hc : ρ.Maintains J m Q c) : ρ.Maintains J m Q (Run.entered c) := by
  refine .look fun m₁ h _ => ?_
  split
  · exact (Maintains.halt (x := .limit (.depth _)) (Q := fun _ _ => False) rfl fun _ => trivial).bind
      fun _ _ _ h => h.elim
  · exact hc.later h

omit hev in
theorem callAs_object (e : Meaning) (r : Ref) (this : Value) (args : List Value) :
    Run.callAs e (.object r) this args = get >>= fun m => match (m.cell r).body with
      | .native fn => Run.applyNative e.call fn this args
      | .closure code scopes name => Run.entered (Run.callCode e (.object r) code scopes name this args)
      | _ => Run.notCallable (.object r) := rfl

theorem callFunction {f this : Value} (hf : ρ.Knows m f) (hthis : ρ.Knows m this) {args : List Value}
    (hargs : ρ.KnowsAll m args) : ρ.Maintains J m ρ.Knows (Run.callFunction ev f this args) := by
  rw [callFunction_eq]
  cases f with
  | object r =>
    rw [callAs_object]
    refine .look fun m₁ h hm => ?_
    have hcovers := hm.functions r hf.2
    split
    · exact applyNative hev _ (hthis.later h) (hargs.later h)
    · next code scopes name hbody =>
      obtain ⟨hcode, hscopes⟩ := hcovers code scopes name hbody
      exact entered (callCode hev (hf.later h) (hthis.later h) (hargs.later h) hcode hscopes name)
    · exact notCallable _
  | _ => exact notCallable _

/-! ## Expressions -/

theorem sequenceValue {ns : List Node} (hns : ∀ n ∈ ns, ρ.Fits .expression n)
    (hscopes : ρ.Sees scopes) {v : Value} (hv : ρ.Knows m v) :
    ρ.Maintains J m ρ.Knows (Run.sequenceValue ev scopes ns v) := by
  induction ns generalizing m v with
  | nil => exact .value hv
  | cons n ns ih =>
    obtain ⟨hn, hns⟩ := List.forall_mem_cons.mp hns
    exact (hev.expression J m n scopes hn hscopes).bind fun _ _ _ hw => ih hns hw

omit hev in
theorem thisValue (hscopes : ρ.Sees scopes) : ρ.Maintains J m ρ.Knows (Run.thisValue scopes) := by
  refine .look fun m₁ _ hm => ?_
  split
  · next f hf => exact .value (hm.variable (hscopes f (mem_of_findScope hf)) _)
  · exact .value trivial

theorem evaluateExpression (hn : ρ.Fits .expression n) (hscopes : ρ.Sees scopes) :
    ρ.Maintains J m ρ.Knows (Run.evaluateExpression ev n scopes) := by
  have hcode := hn.accepts
  refine Maintains.tick.andThen fun m₁ _ _ => ?_
  split
  · next l hform =>
    exact literalValue fun hs pattern flags h => (hcode hs).not_regex pattern flags (h ▸ hform)
  · exact .lookup hscopes _
  · exact thisValue hscopes
  · next hform =>
    exact (evaluateList hev (fun _ => hcode.part fun _ => hform) hscopes).bind
      fun _ vs _ hvs => .newArray (by simpa using hvs)
  · next hform =>
    have hspread : ∀ p ∈ n.childrenAt .properties, p.form = .spread → ρ.strict → ρ.spreads :=
      fun p hp hpform hs => (hcode hs).spread ⟨n, p, .self n, hform, (Node.mem_childrenAt.mp hp).1, hpform⟩
    exact (putProperties hev (fun _ => hcode.part fun _ => hform) hspread hscopes
      (knowsAll_nil ρ m₁)).bind fun _ _ _ hd => .newObject hd
  · next flags hform => exact functionValue hcode (.inl hform) hscopes
  · next flags hform => exact functionValue hcode (.inr hform) hscopes
  · next op hform =>
    exact (part n .argument).bind fun _ argument _ hc =>
      unaryValue hev op (hcode.child (fun _ => hform) hc) hscopes
  · next op before hform =>
    exact (part n .argument).bind fun _ target _ hc =>
      updateValue hev op before (hcode.child (fun _ => hform) hc) hscopes
  · next op hform =>
    exact withValue hev hcode (fun _ => hform) rfl hscopes fun _ l _ _ =>
      withValue hev hcode (fun _ => hform) rfl hscopes fun _ r _ _ => binaryOperation op l r
  · next op hform => exact logicalValue hev hcode hform hscopes
  · next hform =>
    refine withValue hev hcode (fun _ => hform) rfl hscopes fun m₂ v _ _ => ?_
    split
    · exact valueOf hev hcode (fun _ => hform) rfl hscopes
    · exact valueOf hev hcode (fun _ => hform) rfl hscopes
  · next op hform => exact assignmentValue hev hcode hform hscopes
  · next hform =>
    exact sequenceValue hev (fun _ => hcode.part fun _ => hform) hscopes trivial
  · next computed hform => exact memberValue hev hcode hform hscopes
  · next hform => exact callValue hev hcode hform hscopes
  · next hform =>
    exact (templateValue hev (fun _ => hcode.part fun _ => hform) (fun _ => hcode.part fun _ => hform)
      hscopes []).mapValue fun _ => rfl
  · exact .halt rfl fun _ => trivial
  · refine .fail fun hs => ?_
    have hknown := (hn hs).1.evaluates (hn hs).2
    unfold evaluates at hknown
    split at hknown
    all_goals simp_all

/-! ## Statements -/

/-- A statement in the place of a part of a form that takes no jumps. -/
theorem statementOf (hn : ρ.Accepts n) (hjumps : ρ.Confines J n) (hform : ρ.strict → n.form = f)
    (hslot : f.category r = .statement ∨ f.category r = .block) (htakes : ∀ j, f.takes r j = false)
    (hscopes : ρ.Sees scopes) :
    ρ.Maintains J m Any (do ev.statement (← Run.part n r) scopes) :=
  (part n r).bind fun m₁ c _ hc =>
    hev.statement J m₁ c scopes ((hn.child hform hc).executed hslot)
      (hjumps.child hform htakes hc) hscopes

theorem declareVariable {d : Node} (hd : ρ.Fits .declarator d) (hscopes : ρ.Sees scopes)
    (f : FrameId) : ρ.Maintains J m Any (Run.declareVariable ev d scopes f) := by
  have hform : ρ.strict → d.form = .variableDeclarator := hd.form rfl
  refine (part d .id).bind fun m₁ id _ hid => ?_
  split
  · next hname =>
    refine .fail fun hs => ?_
    obtain ⟨haccepted, hbinding⟩ := hd.accepts.child hform hid hs
    exact (haccepted.name?_ne_none hbinding hname).elim
  · split
    · next init hinit =>
      exact (hev.expression J m₁ init scopes (hd.accepts.child hform hinit) hscopes).bind
        fun _ v _ hv => .declare hv f _
    · refine .look fun m₂ _ _ => ?_
      split
      · exact .declare (v := .undefined) trivial f _
      · exact .any ()

theorem declareAll {ds : List Node} (hds : ∀ d ∈ ds, ρ.Fits .declarator d) (hscopes : ρ.Sees scopes)
    (f : FrameId) : ρ.Maintains J m Any (Run.declareAll ev scopes f ds) := by
  induction ds generalizing m with
  | nil => exact .any ()
  | cons d ds ih =>
    obtain ⟨hd, hds⟩ := List.forall_mem_cons.mp hds
    exact (declareVariable hev hd hscopes f).andThen fun _ _ _ => ih hds

theorem runBlock {ns : List Node} (hns : ∀ n ∈ ns, ρ.Fits .statement n ∧ ρ.Confines J n)
    (hscopes : ρ.Sees scopes) : ρ.Maintains J m Any (Run.runBlock ev ns scopes) :=
  (Maintains.blockScope hscopes).bind fun _ _ _ hinner =>
    (hoist (fun s hs => (hns s hs).1.accepts) hinner).andThen fun _ _ _ => runAll hev hns hinner

/-- A round of a loop catches the jumps that end there. -/
theorem runRound {body : Node} (hbody : ρ.Fits .statement body)
    (hjumps : ρ.Confines (fun j => j ≠ .returned ∨ J j) body) (hscopes : ρ.Sees scopes) :
    ρ.Maintains J m Any (Run.runRound ev body scopes) := by
  refine Maintains.guarded (K := fun j => j ≠ .returned ∨ J j) ?_ fun m₁ x _ hx => ?_
  · exact (hev.statement _ m body scopes hbody hjumps hscopes).andThen fun _ _ _ => .any true
  · split
    · exact .any false
    · exact .any true
    · next hbroken hcontinued =>
      refine .stop ⟨hx.1, fun hs => (hx.2 hs).imp fun j hj hinside =>
        hinside.resolve_left fun hne => hne ?_⟩
      cases x with
      | broken => exact (hbroken rfl).elim
      | continued => exact (hcontinued rfl).elim
      | returned v => exact (Option.some.inj hj).symm
      | _ => cases hj

theorem testHolds {test : Option Node} (htest : ∀ t, test = some t → ρ.Fits .expression t)
    (hscopes : ρ.Sees scopes) : ρ.Maintains J m Any (Run.testHolds ev test scopes) := by
  unfold Run.testHolds
  split
  · next t => exact (hev.expression J m t scopes (htest t rfl) hscopes).mapAny _
  · exact .any true

theorem runInit {init : Option Node} (hinit : ∀ n, init = some n → ρ.Fits .start n ∧ ρ.Confines J n)
    (hscopes : ρ.Sees scopes) : ρ.Maintains J m Any (Run.runInit ev init scopes) := by
  unfold Run.runInit
  split
  · exact .any ()
  · next n =>
    obtain ⟨hn, hjumps⟩ := hinit n rfl
    split
    · next hform =>
      refine hev.statement J m n scopes (fun hs => ⟨(hn hs).1, ?_⟩) hjumps hscopes
      show n.form.isStatementLike = true
      rw [hform]
      rfl
    · next hother =>
      have hexpression : ρ.Fits .expression n := fun hs =>
        ⟨(hn hs).1, Node.isExpression_of_start (hn hs).2 hother⟩
      exact (hev.expression J m n scopes hexpression hscopes).andThen fun _ _ _ => .any ()

theorem runFor (hn : ρ.Accepts n) (hjumps : ρ.Confines J n) (hform : n.form = .forStatement)
    (hscopes : ρ.Sees scopes) : ρ.Maintains J m Any (Run.runFor ev n scopes) := by
  refine (Maintains.blockScope hscopes).bind fun m₁ inner _ hinner => ?_
  have hstart : ∀ c, n.child? .init = some c → ρ.Fits .start c ∧ ρ.Confines J c := fun c hc =>
    ⟨hn.child (fun _ => hform) hc, hjumps.child (fun _ => hform) (fun _ => rfl) hc⟩
  have htest : ∀ t, n.child? .test = some t → ρ.Fits .expression t :=
    fun _ => hn.child fun _ => hform
  refine (runInit hev hstart hinner).andThen fun m₂ _ _ => (part n .body).bind fun m₃ body _ hbody =>
    .repeatRounds ?_
  refine (testHolds hev htest hinner).andThen fun m₄ holds _ => ?_
  split
  · exact .any false
  refine (runRound hev (hn.child (fun _ => hform) hbody)
    (hjumps.body (fun _ => hform) (fun _ => rfl) hbody) hinner).andThen fun m₅ more _ => ?_
  split
  · exact .any false
  cases hupdate : n.child? .update with
  | some u =>
    exact (hev.expression J m₅ u inner (hn.child (fun _ => hform) hupdate) hinner).andThen
      fun _ _ _ => .any true
  | none => exact .any true

theorem runWhile (hn : ρ.Accepts n) (hjumps : ρ.Confines J n) (hform : n.form = .whileStatement)
    (hscopes : ρ.Sees scopes) : ρ.Maintains J m Any (Run.runWhile ev n scopes) := by
  refine (part n .test).bind fun m₁ test _ htest => (part n .body).bind fun m₂ body _ hbody =>
    .repeatRounds ?_
  refine (hev.expression J m₂ test scopes (hn.child (fun _ => hform) htest) hscopes).andThen
    fun m₃ v _ => ?_
  split
  · exact runRound hev (hn.child (fun _ => hform) hbody)
      (hjumps.body (fun _ => hform) (fun _ => rfl) hbody) hscopes
  · exact .any false

theorem runDoWhile (hn : ρ.Accepts n) (hjumps : ρ.Confines J n) (hform : n.form = .doWhileStatement)
    (hscopes : ρ.Sees scopes) : ρ.Maintains J m Any (Run.runDoWhile ev n scopes) := by
  refine (part n .test).bind fun m₁ test _ htest => (part n .body).bind fun m₂ body _ hbody =>
    .repeatRounds ?_
  refine (runRound hev (hn.child (fun _ => hform) hbody)
    (hjumps.body (fun _ => hform) (fun _ => rfl) hbody) hscopes).andThen fun m₃ more _ => ?_
  split
  · exact (hev.expression J m₃ test scopes (hn.child (fun _ => hform) htest) hscopes).mapAny _
  · exact .any false

/-! ## Branches and handlers -/

/-- The cases that are run are cases of the statement. -/
theorem matchingCases {cases : List Node} (hcases : ∀ c ∈ cases, ρ.Fits .case c) (v : Value)
    (hscopes : ρ.Sees scopes) :
    ρ.Maintains J m (fun _ taken => ∀ cs, taken = some cs → cs ⊆ cases)
      (Run.matchingCases ev v scopes cases) := by
  induction cases generalizing m with
  | nil => exact .result fun _ _ _ h => by cases h
  | cons c cases ih =>
    obtain ⟨hc, hcases⟩ := List.forall_mem_cons.mp hcases
    have hrest : ∀ m₁ : Machine, ρ.Maintains J m₁ (fun _ taken => ∀ cs, taken = some cs → cs ⊆ c :: cases)
        (Run.matchingCases ev v scopes cases) := fun m₁ =>
      (ih hcases).weaken fun _ _ _ h cs hcs => List.subset_cons_of_subset c (h cs hcs)
    unfold Run.matchingCases
    split
    · next t ht =>
      have hform : ρ.strict → c.form = .switchCase := hc.form rfl
      have htest : ρ.Fits .expression t := hc.accepts.child hform ht
      refine (hev.expression J m t scopes htest hscopes).andThen fun m₁ w _ => ?_
      split
      · exact .result fun _ _ cs h => by cases h; exact List.Subset.refl _
      · exact hrest m₁
    · exact hrest m

theorem runSwitch (hn : ρ.Accepts n) (hjumps : ρ.Confines J n) (hform : n.form = .switchStatement)
    (hscopes : ρ.Sees scopes) : ρ.Maintains J m Any (Run.runSwitch ev n scopes) := by
  have hcases : ∀ c ∈ n.childrenAt .cases, ρ.Fits .case c := fun _ => hn.part fun _ => hform
  refine withValue hev hn (fun _ => hform) rfl hscopes fun m₁ v _ _ =>
    (matchingCases hev hcases v hscopes).bind fun m₂ taken _ htaken => ?_
  dsimp only
  split
  · exact .any ()
  have hrun : ∀ s ∈ (taken.getD (Run.defaultCases (n.childrenAt .cases))).flatMap
      (fun c => c.childrenAt .consequent),
      ρ.Fits .statement s ∧ ρ.Confines (Form.switchStatement.inside .cases J) s := by
    intro s hs
    obtain ⟨c, hc, hs⟩ := List.mem_flatMap.mp hs
    have hmem : c ∈ n.childrenAt .cases := by
      cases taken with
      | some cs => exact htaken cs rfl hc
      | none => exact (List.dropWhile_sublist _).subset hc
    have hcase : ρ.strict → c.form = .switchCase := (hcases c hmem).form rfl
    exact ⟨(hcases c hmem).accepts.part hcase hs,
      (hjumps.part (fun _ => hform) hmem).through hcase (fun _ => rfl) hs⟩
  refine (Maintains.blockScope hscopes).bind fun m₃ inner _ hinner =>
    Maintains.guarded (runAll hev hrun hinner) fun m₄ x _ hx => ?_
  split
  · exact .any ()
  · next hbroken =>
    refine .stop ⟨hx.1, fun hs => (hx.2 hs).imp fun j hj hinside => hinside.resolve_left ?_⟩
    cases x with
    | broken => exact (hbroken rfl).elim
    | continued | returned =>
      cases hj
      exact Bool.false_ne_true
    | _ => cases hj

theorem runHandler {handler : Node} (hhandler : ρ.Fits .handler handler)
    (hjumps : ρ.Confines J handler) {v : Value} (hv : ρ.Knows m v) (hscopes : ρ.Sees scopes) :
    ρ.Maintains J m Any (Run.runHandler ev handler v scopes) := by
  have hform : ρ.strict → handler.form = .catchClause := hhandler.form rfl
  refine (Maintains.blockScope hscopes).bind fun m₁ inner h hinner => ?_
  have hbody : ∀ m₂ : Machine, ρ.Maintains J m₂ Any
      (do ev.statement (← Run.part handler .body) inner) := fun _ =>
    statementOf hev hhandler.accepts hjumps hform (.inr rfl) (fun _ => rfl) hinner
  split
  · next f _ p hp =>
    split
    · exact (Maintains.declare (hv.later h) _ _).andThen fun m₂ _ _ => hbody m₂
    · next hname =>
      refine (Maintains.fail (Q := Any) fun hs => ?_).andThen fun m₂ _ _ => hbody m₂
      obtain ⟨haccepted, hbinding⟩ := hhandler.accepts.child hform hp hs
      exact (haccepted.name?_ne_none hbinding hname).elim
  · exact (Maintains.any PUnit.unit).andThen fun m₂ _ _ => hbody m₂

theorem runTry (hn : ρ.Accepts n) (hjumps : ρ.Confines J n) (hform : n.form = .tryStatement)
    (hscopes : ρ.Sees scopes) : ρ.Maintains J m Any (Run.runTry ev n scopes) := by
  have hstatement : ∀ (m₁ : Machine) (r : Role) (c : Node), n.child? r = some c →
      Form.tryStatement.category r = .block → ρ.Maintains J m₁ Any (ev.statement c scopes) :=
    fun m₁ r c hc hslot => hev.statement J m₁ c scopes
      ((hn.child (fun _ => hform) hc).executed (.inr hslot))
      (hjumps.child (fun _ => hform) (fun _ => rfl) hc) hscopes
  refine (part n .block).bind fun m₁ block _ hblock => ?_
  simp only
  split
  case' h_1 f hf =>
    refine Maintains.thenAlways ?_ (hstatement m₁ .finalizer f hf rfl) fun _ _ _ _ _ => trivial
  -- With and without a finalizer the block and its handler are the same.
  all_goals
    refine Maintains.guarded (hstatement m₁ .block block hblock rfl) fun m₂ x _ hx => ?_
    split
    · next hhandler =>
      exact runHandler hev (hn.child (fun _ => hform) hhandler)
        (hjumps.child (fun _ => hform) (fun _ => rfl) hhandler) (hx.1 _ rfl) hscopes
    · exact .stop hx

omit hev in
/-- A jump without a label may be made where one leads out of the code. -/
theorem runJump (hn : ρ.Accepts n) (hjumps : ρ.Confines J n)
    (hform : n.form = .breakStatement ∨ n.form = .continueStatement) (labelled : Failure)
    {jump : Abrupt} (hvalue : jump.value? = none)
    (hjump : ∀ j, n.form.jump? = some j → J j → jump.Among ρ.spreads J) :
    ρ.Maintains J m Any (Run.runJump n labelled jump) := by
  unfold Run.runJump
  split
  · next hlabel =>
    refine .fail fun hs => ?_
    rw [(hn hs).child?_label hform] at hlabel
    cases hlabel
  · refine .halt hvalue fun hs => ?_
    obtain ⟨j, hj⟩ : ∃ j, n.form.jump? = some j := by
      obtain h | h := hform
      all_goals exact ⟨_, by rw [h]; rfl⟩
    exact hjump j hj (hjumps hs j (Node.opens_of_jump hj (.inr ((hn hs).child?_label hform))))

omit hev in
/-- A value with which a statement stops. -/
theorem stopWith (jump : Value → Abrupt) (hvalue : ∀ v, (jump v).value? = some v)
    (hjump : ρ.strict → ∀ v, (jump v).Among ρ.spreads J) {v : Value} (hv : ρ.Knows m v) :
    ρ.Maintains J m Any (throw (jump v) : Run Unit) :=
  .stop ⟨fun w hw => (by rw [hvalue] at hw; cases hw; exact hv), fun hs => hjump hs v⟩

theorem executeStatement (hn : ρ.Fits .statement n) (hjumps : ρ.Confines J n)
    (hscopes : ρ.Sees scopes) : ρ.Maintains J m Any (Run.executeStatement ev n scopes) := by
  have hcode := hn.accepts
  refine Maintains.tick.andThen fun m₁ _ _ => ?_
  split
  · next hform =>
    exact withValue hev hcode (fun _ => hform) rfl hscopes fun _ _ _ _ => .any ()
  · next hform =>
    have hdeclarators : ∀ d ∈ n.childrenAt .declarations, ρ.Fits .declarator d :=
      fun _ => hcode.part fun _ => hform
    split
    · exact (Maintains.varScope scopes).andThen fun _ f _ => declareAll hev hdeclarators hscopes f
    · cases scopes with
      | nil => exact .look fun _ _ _ => declareAll hev hdeclarators hscopes _
      | cons f scopes => exact declareAll hev hdeclarators hscopes f
  · next hform =>
    exact (Maintains.varScope scopes).andThen fun _ f _ => (partName n .id).andThen
      fun _ name _ => (makeFunction (hcode.callable fun _ => by rw [hform]; rfl) hscopes).bind
        fun _ v _ hv => .declare hv f name
  · next hform =>
    have hparts : ∀ s ∈ n.childrenAt .body, ρ.Fits .statement s ∧ ρ.Confines J s := fun s hs =>
      ⟨hcode.part (fun _ => hform) hs, hjumps.through (fun _ => hform) (fun _ => rfl) hs⟩
    exact runBlock hev hparts hscopes
  · exact .any ()
  · next hform =>
    refine withValue hev hcode (fun _ => hform) rfl hscopes fun m₂ v _ _ => ?_
    split
    · exact statementOf hev hcode hjumps (fun _ => hform) (.inl rfl) (fun _ => rfl) hscopes
    · split
      · next a ha =>
        exact hev.statement J m₂ a scopes (hcode.child (fun _ => hform) ha)
          (hjumps.child (fun _ => hform) (fun _ => rfl) ha) hscopes
      · exact .any ()
  · next hform =>
    have hopen : ρ.strict → J .returned := fun hs =>
      hjumps hs _ (Node.opens_of_jump (by rw [hform]; rfl) (.inl rfl))
    split
    · next a ha =>
      exact (hev.expression J m₁ a scopes (hcode.child (fun _ => hform) ha) hscopes).bind
        fun _ v _ hv => stopWith .returned (fun _ => rfl) (fun hs _ => hopen hs) hv
    · exact stopWith .returned (fun _ => rfl) (fun hs _ => hopen hs) trivial
  · next hform => exact runFor hev hcode hjumps hform hscopes
  · next hform => exact runWhile hev hcode hjumps hform hscopes
  · next hform => exact runDoWhile hev hcode hjumps hform hscopes
  · next hform =>
    refine runJump hcode hjumps (.inl hform) _ rfl fun j hj hJ => ?_
    rw [hform] at hj
    cases hj
    exact hJ
  · next hform =>
    refine runJump hcode hjumps (.inr hform) _ rfl fun j hj hJ => ?_
    rw [hform] at hj
    cases hj
    exact hJ
  · next hform => exact runSwitch hev hcode hjumps hform hscopes
  · next hform =>
    exact withValue hev hcode (fun _ => hform) rfl hscopes fun _ v _ hv =>
      stopWith .thrown (fun _ => rfl) (fun _ _ => trivial) hv
  · next hform => exact runTry hev hcode hjumps hform hscopes
  · exact .halt rfl fun _ => trivial
  · refine .fail fun hs => ?_
    have hknown := (hn hs).1.executes (hn hs).2
    unfold executes at hknown
    split at hknown
    all_goals simp_all

end Maintains

/-- However deep it is nested, code does not leave a realm. -/
theorem governs_evaluator (ρ : Realm) (depth : Nat) : ρ.Governs (evaluator depth) := by
  induction depth with
  | zero =>
    exact
      { expression := fun _ _ _ _ _ _ => .halt rfl fun _ => trivial
        statement := fun _ _ _ _ _ _ _ => .halt rfl fun _ => trivial
        call := fun _ _ _ _ _ _ _ _ => .halt rfl fun _ => trivial }
  | succ depth ih =>
    exact
      { expression := fun _ _ _ _ hn hscopes => .evaluateExpression ih hn hscopes
        statement := fun _ _ _ _ hn hjumps hscopes => .executeStatement ih hn hjumps hscopes
        call := fun _ _ _ _ _ hf hthis hargs => .callFunction ih hf hthis hargs }

/-- What is known of an expression that has a value on a complete store. -/
theorem expression_complete {depth : Nat} {v : Value} (hm : m.Complete)
    (hrun : (evaluator depth).expression n scopes m = .ok v m₁) :
    m.Becomes m₁ ∧ m₁.Complete ∧ m₁.Knows v := by
  obtain ⟨hbecomes, hcomplete, hv⟩ := ((governs_evaluator whole depth).expression (fun _ => False) m n
    scopes (fun h => h.elim) (sees_whole scopes)).ok hm hrun
  exact ⟨hbecomes, hcomplete, knows_whole.mp hv⟩

/-! ## Code with a new budget -/

namespace Maintains

/-- A jump that leads out of all code fails, and there is none in a strict realm. -/
theorem fresh {c : Run α} (hc : ρ.Maintains (fun _ => False) m Q c) :
    ρ.Maintains J m Q (Run.fresh c) := by
  have hrenew : ρ.Maintains J m Any (modify fun m₁ : Machine => { m₁ with steps := 0, depth := 0 }) :=
    fun m₁ _ hm => ⟨.of_heap rfl rfl, hm.withMeter { m₁.meter with steps := 0, depth := 0 }, trivial⟩
  refine hrenew.andThen fun m₁ _ h => .guarded (hc.later h) fun m₂ x _ hx => ?_
  cases x with
  | broken | continued | returned => exact .fail fun hs => (hx.2 hs).elim
  | thrown | failure | limit | fault => exact .stop hx

theorem evaluate (hn : ρ.Fits .expression n) (hscopes : ρ.Sees scopes) :
    ρ.Maintains J m ρ.Knows (Run.evaluate n scopes) :=
  fresh ((governs_evaluator ρ nestingLimit).expression _ m n scopes hn hscopes)

/-- What is executed is a statement or one variable of a declaration. -/
theorem execute (hn : ρ.Fits .statement n ∨ ρ.Fits .declarator n)
    (hjumps : ρ.Confines (fun _ => False) n) (hscopes : ρ.Sees scopes) :
    ρ.Maintains J m Any (Run.execute n scopes) := by
  have hev := governs_evaluator ρ nestingLimit
  unfold Run.execute
  split
  · next hform =>
    have hdeclarator : ρ.Fits .declarator n := by
      refine hn.elim (fun h hs => ?_) id
      have hstatement : n.form.isStatementLike = true := (h hs).2
      rw [hform] at hstatement
      cases hstatement
    exact fresh ((varScope scopes).andThen fun _ f _ => declareVariable hev hdeclarator hscopes f)
  · next hform =>
    have hstatement : ρ.Fits .statement n :=
      hn.elim id fun h hs => (hform (h.form rfl hs)).elim
    exact fresh (hev.statement _ m n scopes hstatement hjumps hscopes)

end Maintains

end Untangle.Sandbox.Realm
