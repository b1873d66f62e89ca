import Untangle.Proofs.Analysis.Course
import Untangle.Proofs.Gating.Registration
import Untangle.Rule.Chain

set_option autoImplicit false

/-!
# What rules hand to the sandbox

Inlining hands over the functions of the program's variables as they are.  The evaluation of calls hands
over functions together with their texts, so that the gate is asked, and replaces a call by its value only
if the gate lets the text of the call pass.  The other rules hand nothing over.
-/

namespace Untangle

open Sandbox (Registry)
open Rule.Evaluation (declaredFunction?)

variable {α β : Type} {t t' t'' : Tour RuleState} {i : SiteId} {id : NodeId}

/-! ## What actions do to the sandbox -/

/-- Number of calls that were replaced by their values. -/
def Tour.evaluated (t : Tour RuleState) : Nat := (t.state.stats.get? .callsEvaluated).getD 0

/-- The sandbox has a declaration. -/
def Tour.Registers (t : Tour RuleState) (id : NodeId) : Prop :=
  t.state.sandbox.registered.contains id = true

/-- A tree has a text, in which no marker stands. -/
def Sandbox.Gate.Admits (g : Sandbox.Gate) (n : Node) : Prop := ∃ text, n.code = .ok text ∧ g.Unmarked text

/-- A declaration of a function, as the program has it, passes a gate. -/
def Tour.Presents (t : Tour RuleState) (g : Sandbox.Gate) (id : NodeId) : Prop :=
  ∃ k, (t.analysis.nodeAt k).id = id ∧ (declaredFunction? (t.analysis.nodeAt k)).isSome ∧
    g.Admits (t.analysis.nodeAt k)

/-- A declarator at a site sets a variable of the program to a function. -/
def Tour.Moves (t : Tour RuleState) (i : SiteId) (id : NodeId) : Prop :=
  (t.analysis.nodeAt i).id = id ∧ ∃ slot,
    Rule.Inlining.plan (t.analysis.nodeAt i) slot (t.analysis.site i).scope = .moveFunction

/-- Neither the gate nor the declarations change, and no call is replaced by its value. -/
structure Quiet (t t' : Tour RuleState) : Prop where
  same : Registry.Same t.state.sandbox t'.state.sandbox
  evaluated : t'.evaluated = t.evaluated

/-- Declarations of functions are handed over with texts that have no marker, and nothing else
happens. -/
structure Hands (t t' : Tour RuleState) : Prop where
  analysis : t'.analysis = t.analysis
  evaluated : t'.evaluated = t.evaluated
  gate : t'.state.sandbox.gate = t.state.sandbox.gate
  registered : ∀ id, t'.Registers id → t.Registers id ∨ t.Presents t.state.sandbox.gate id

/-- What an action at a site may do to the sandbox and with its values: it hands over declarations whose
texts have no marker or moves a function there, and it replaces a call by its value if the call has no
marker. -/
structure Gated (i : SiteId) (t t' : Tour RuleState) : Prop where
  gate : t'.state.sandbox.gate = t.state.sandbox.gate
  registered : ∀ id, t'.Registers id → t.Registers id ∨ t.Presents t.state.sandbox.gate id ∨ t.Moves i id
  evaluated : t'.evaluated = t.evaluated ∨ t.state.sandbox.gate.Admits (t.analysis.nodeAt i)

theorem Quiet.gated (h : Quiet t t') (i : SiteId) : Gated i t t' :=
  ⟨h.same.gate, fun id hid => .inl (by rwa [Tour.Registers, h.same.registered] at hid),
    .inl h.evaluated⟩

/-- A relation that holds between tours where nothing happens, and over one thing after another. -/
structure Along (R : Tour RuleState → Tour RuleState → Prop) : Prop where
  refl : ∀ t, R t t
  trans : ∀ {t t' t''}, R t t' → R t' t'' → R t t''

theorem along_quiet : Along Quiet where
  refl _ := ⟨.refl _, rfl⟩
  trans h h' := ⟨h.same.trans h'.same, h'.evaluated.trans h.evaluated⟩

theorem along_hands : Along Hands where
  refl _ := ⟨rfl, rfl, rfl, fun _ hid => .inl hid⟩
  trans h h' := by
    refine ⟨h'.analysis.trans h.analysis, h'.evaluated.trans h.evaluated, h'.gate.trans h.gate,
      fun id hid => ?_⟩
    obtain hid | hid := h'.registered id hid
    · exact h.registered id hid
    · right
      unfold Tour.Presents at hid ⊢
      rwa [h.analysis, h.gate] at hid

/-- A computation of a rule relates the tour on which it starts to the one that it leaves with its
result. -/
def Relates (R : Tour RuleState → Tour RuleState → Prop) (m : RuleM α) : Prop :=
  ∀ t x t', m t = .ok x t' → R t t'

namespace Along

variable {R : Tour RuleState → Tour RuleState → Prop} (hR : Along R)

include hR

theorem pure (x : α) : Relates R (pure x : RuleM α) := by
  intro t y t' h
  cases h
  exact hR.refl t

theorem bind {m : RuleM α} {k : α → RuleM β} (hm : Relates R m) (hk : ∀ x, Relates R (k x)) :
    Relates R (m >>= k) := by
  intro t y t'' h
  obtain ⟨x, t', hx, hy⟩ := bind_eq_ok.mp h
  exact hR.trans (hm t x t' hx) (hk x t' y t'' hy)

theorem ask (f : Analysis → α) : Relates R (TourM.ask f : RuleM α) := by
  intro t y t' h
  cases h
  exact hR.refl t

theorem code (n : Node) : Relates R (RuleM.code n) := by
  unfold RuleM.code
  cases n.code with
  | ok text => exact hR.pure text
  | error r =>
    intro t y t' h
    cases h

theorem convert (r : Except Sandbox.Fault α) : Relates R (RuleM.convert r) := by
  cases r with
  | ok x => exact hR.pure x
  | error f =>
    intro t y t' h
    cases h

theorem contained (r : Except Sandbox.Abrupt α) : Relates R (RuleM.contained r) := by
  unfold RuleM.contained
  split
  · exact hR.pure _
  · intro t y t' h
    cases h
  · exact hR.pure _

end Along

theorem relates_throw {R : Tour RuleState → Tour RuleState → Prop} (e : RuleError) :
    Relates R (throw e : RuleM α) := by
  intro t y t' h
  cases h

/-! ## Quiet actions -/

theorem evaluated_add {s : Stats} {c : Counter} (hc : c ≠ .callsEvaluated) (n : Nat) :
    (s.add c n).get? .callsEvaluated = s.get? .callsEvaluated :=
  Dict.get?_put_of_ne s (Ne.symm hc) _

theorem quiet_record {c : Counter} (hc : c ≠ .callsEvaluated) (n : Nat) :
    Relates Quiet (RuleM.record c n) := by
  intro t y t' h
  cases h
  exact ⟨.refl _, congrArg (Option.getD · 0) (evaluated_add hc n)⟩

theorem quiet_edit (f : Analysis → Except Refusal Analysis) : Relates Quiet (RuleM.edit f) := by
  refine along_quiet.bind (m := get) (fun t y t' h => ?_) fun t => ?_
  · cases h
    exact along_quiet.refl t
  · split
    · intro t y t' h
      cases h
      exact ⟨.refl _, rfl⟩
    · exact relates_throw _

/-- The sandbox as a rule uses it: functions find their code in the program as it is now. -/
def Tour.provided (t : Tour RuleState) : Registry :=
  { t.state.sandbox with
    machine := { t.state.sandbox.machine with trees := t.analysis.program :: t.analysis.attic } }

/-- The tour with another sandbox. -/
def Tour.withSandbox (t : Tour RuleState) (s : Registry) : Tour RuleState :=
  { t with state := { t.state with sandbox := s } }

theorem withSandbox_eq (f : Registry → α × Registry) (t : Tour RuleState) :
    RuleM.withSandbox f t = .ok (f t.provided).1 (t.withSandbox (f t.provided).2) := rfl

theorem quiet_withSandbox {f : Registry → α × Registry} (hf : ∀ s, Registry.Same s (f s).2) :
    Relates Quiet (RuleM.withSandbox f) := by
  intro t y t' h
  rw [withSandbox_eq] at h
  cases h
  exact ⟨⟨(hf t.provided).gate, (hf t.provided).registered⟩, rfl⟩

/-! ## Actions -/

theorem Gated.quiet (h : Gated i t t') (h' : Quiet t' t'') : Gated i t t'' := by
  refine ⟨h'.same.gate.trans h.gate, fun id hid => h.registered id ?_, ?_⟩
  · rwa [Tour.Registers, h'.same.registered] at hid
  · rw [h'.evaluated]
    exact h.evaluated

theorem Hands.gated_after (h : Hands t t') (h' : Gated i t' t'') : Gated i t t'' := by
  refine ⟨h'.gate.trans h.gate, fun id hid => ?_, ?_⟩
  · obtain hid | hid | hid := h'.registered id hid
    · exact (h.registered id hid).imp_right .inl
    · right
      left
      unfold Tour.Presents at hid ⊢
      rwa [h.analysis, h.gate] at hid
    · right
      right
      unfold Tour.Moves at hid ⊢
      rwa [h.analysis] at hid
  · rw [← h.evaluated, ← h.gate, ← h.analysis]
    exact h'.evaluated

theorem quiet_folding (i : SiteId) : Relates Quiet (Rule.Folding.act i) := by
  unfold Rule.Folding.act
  refine along_quiet.bind (along_quiet.ask _) fun n => ?_
  split
  · exact along_quiet.pure ()
  simp only
  split
  · exact along_quiet.bind (along_quiet.code n) fun _ => relates_throw _
  · exact along_quiet.bind (along_quiet.convert _) fun _ =>
      along_quiet.bind (quiet_edit _) fun _ => quiet_record (by decide) 1

theorem quiet_unflattening (settings : Settings) (i : SiteId) :
    Relates Quiet (Rule.Unflattening.act settings i) := by
  unfold Rule.Unflattening.act
  refine along_quiet.bind (along_quiet.ask _) fun n => ?_
  split
  · exact along_quiet.pure ()
  next loop _ =>
  refine along_quiet.bind (along_quiet.ask _) fun a => ?_
  refine along_quiet.bind (quiet_withSandbox fun s => ?_) fun r => ?_
  · have hsame := Dispatch.same_unflatten loop
      (Rule.Unflattening.isReadOutside a n ((a.scopeOpenedBy? n.id).getD (a.site i).scope))
      settings.maxDispatchSteps s
    unfold Dispatch.after at hsame
    split at hsame
    · next heq => rwa [heq]
    · next heq => rwa [heq]
  · split
    · exact along_quiet.bind (quiet_edit _) fun _ => quiet_record (by decide) 1
    · exact quiet_record (by decide) 1
    · exact relates_throw _
    · exact relates_throw _

theorem quiet_replaceReads (value : Node) (rs : List SiteId) :
    Relates Quiet (Rule.Inlining.replaceReads value rs) := by
  induction rs with
  | nil => exact along_quiet.pure ()
  | cons r rs ih => exact along_quiet.bind (quiet_edit _) fun _ => ih

theorem quiet_inlineLiteral (i : SiteId) (declarator : Node) (name : Text) (init : Node) :
    Relates Quiet (Rule.Inlining.inlineLiteral i declarator name init) := by
  unfold Rule.Inlining.inlineLiteral
  refine along_quiet.bind (along_quiet.ask _) fun a => ?_
  split
  · exact along_quiet.pure ()
  · simp only
    split
    · exact along_quiet.pure ()
    · exact along_quiet.bind (along_quiet.convert _) fun value =>
        along_quiet.bind (quiet_replaceReads _ _) fun _ =>
          along_quiet.bind (quiet_edit _) fun _ =>
            along_quiet.bind (quiet_record (by decide) _) fun _ => quiet_record (by decide) 1

/-- Handing a declaration over takes up this declaration, if at all. -/
theorem registered_withSandbox {declaration : Node} {name : Text} {source : Option Text}
    {r : Except Sandbox.Abrupt Bool}
    (h : RuleM.withSandbox (fun s => s.register declaration name source) t = .ok r t') :
    t'.analysis = t.analysis ∧ t'.evaluated = t.evaluated ∧
      t'.state.sandbox.gate = t.state.sandbox.gate ∧ ∀ id, t'.Registers id →
        t.Registers id ∨
          id = declaration.id ∧ ∀ text ∈ source, t.state.sandbox.gate.Unmarked text := by
  rw [withSandbox_eq] at h
  cases h
  obtain ⟨hgate, htakes⟩ := Registry.register_takes t.provided declaration name source
  exact ⟨rfl, rfl, hgate, htakes⟩

theorem gated_moveFunction {slot : Role} (name : Text)
    (hplan : Rule.Inlining.plan (t.analysis.nodeAt i) slot (t.analysis.site i).scope = .moveFunction)
    (h : Rule.Inlining.moveFunction i (t.analysis.nodeAt i) name t = .ok () t') : Gated i t t' := by
  unfold Rule.Inlining.moveFunction at h
  obtain ⟨r, t₁, hregister, h⟩ := bind_eq_ok.mp h
  obtain ⟨hanalysis, hevaluated, hgate, htakes⟩ := registered_withSandbox hregister
  have hmoves : Gated i t t₁ := by
    refine ⟨hgate, fun id hid => ?_, .inl hevaluated⟩
    exact (htakes id hid).imp_right fun hid => .inr ⟨hid.1.symm, slot, hplan⟩
  refine hmoves.quiet (along_quiet.bind (along_quiet.contained r) (fun moved => ?_) t₁ () t' h)
  split
  · exact along_quiet.bind (quiet_edit _) fun _ =>
      along_quiet.bind (quiet_record (by decide) 1) fun _ => quiet_record (by decide) 1
  · exact along_quiet.pure ()

/-- Inlining hands over the function of the declarator on which it acts. -/
theorem gated_inlining (h : Rule.Inlining.act i t = .ok () t') : Gated i t t' := by
  unfold Rule.Inlining.act RuleM.nodeAt at h
  rw [TourM.ask_bind, TourM.ask_bind, TourM.ask_bind] at h
  generalize hslot : (((t.analysis.site i).above.map fun p => (t.analysis.site p).role).getD .top) =
    slot at h
  cases hplan : Rule.Inlining.plan (t.analysis.nodeAt i) slot (t.analysis.site i).scope with
  | inlineLiteral =>
    simp only [hplan] at h
    cases hinit : (t.analysis.nodeAt i).child? .init with
    | none =>
      rw [hinit] at h
      exact (along_quiet.pure () t () t' h).gated i
    | some init =>
      rw [hinit] at h
      exact (quiet_inlineLiteral _ _ _ _ t () t' h).gated i
  | moveFunction =>
    simp only [hplan] at h
    exact gated_moveFunction _ hplan h
  | keep =>
    simp only [hplan] at h
    exact (along_quiet.pure () t () t' h).gated i

theorem code_inv {n : Node} {source : Text} (h : RuleM.code n t = .ok source t') :
    n.code = .ok source ∧ t' = t := by
  unfold RuleM.code at h
  cases hprint : n.code with
  | ok text =>
    rw [hprint] at h
    cases h
    exact ⟨rfl, rfl⟩
  | error r =>
    rw [hprint] at h
    cases h

theorem contained_inv {r : Except Sandbox.Abrupt α} {x : α}
    (h : RuleM.contained r t = .ok (some x) t') : r = .ok x := by
  unfold RuleM.contained at h
  split at h <;> cases h
  rfl

theorem settle_inv {r : Except RuleError α} {x : α} (h : RuleM.settle r t = .ok x t') :
    r = .ok x ∧ t' = t := by
  cases r with
  | ok y =>
    cases h
    exact ⟨rfl, rfl⟩
  | error e => cases h

/-- A declaration of a function is handed over with the text that it has. -/
theorem hands_declaration {a : Analysis} {k : SiteId} {function : Node} (name : Text)
    (hfunction : declaredFunction? (a.nodeAt k) = some function) :
    Relates (fun t t' => t.analysis = a → Hands t t') (do
      let source ← RuleM.code (a.nodeAt k)
      RuleM.withSandbox fun s => s.register (a.nodeAt k) name (some source)) := by
  intro t r t' h ha
  obtain ⟨source, t₁, hcode, hregister⟩ := bind_eq_ok.mp h
  obtain ⟨htext, rfl⟩ := code_inv hcode
  obtain ⟨hanalysis, hevaluated, hgate, htakes⟩ := registered_withSandbox hregister
  refine ⟨hanalysis, hevaluated, hgate, fun id hid => ?_⟩
  refine (htakes id hid).imp_right fun ⟨hid, hunmarked⟩ => ⟨k, ?_, ?_, source, ?_, hunmarked source rfl⟩
  · rw [ha, hid]
  · rw [ha, hfunction]
    rfl
  · rw [ha, htext]

/-- What is known of the program while it is asked for holds of what follows. -/
theorem hands_asked {α : Type} {k : Analysis → RuleM α}
    (hk : ∀ a, Relates (fun t t' => t.analysis = a → Hands t t') (k a)) :
    Relates Hands (TourM.ask (fun a => a) >>= k) := fun t x t' h => hk t.analysis t x t' h rfl

/-- Handing over the function of a binding, after those that it names. -/
theorem hands_registerFunction (fuel : Nat) (b : BindingId) (seen : List NodeId) :
    Relates Hands (Rule.Evaluation.registerFunction fuel b seen) := by
  -- While functions are handed over the program stays what it was.
  have halong : ∀ a : Analysis, Along fun t t' => t.analysis = a → Hands t t' := fun a =>
    ⟨fun t _ => along_hands.refl t, fun h h' ha => along_hands.trans (h ha) (h' ((h ha).analysis.trans ha))⟩
  induction fuel generalizing b seen with
  | zero =>
    unfold Rule.Evaluation.registerFunction
    refine along_hands.bind (along_hands.ask _) fun a => ?_
    simp only
    split
    · exact along_hands.pure _
    · split <;> exact along_hands.pure _
  | succ fuel ih =>
    have hall : ∀ bs seen, Relates Hands (Rule.Evaluation.registerAll fuel bs seen) := by
      intro bs
      induction bs with
      | nil =>
        intro seen
        unfold Rule.Evaluation.registerAll
        exact along_hands.pure seen
      | cons b bs ihbs =>
        intro seen
        unfold Rule.Evaluation.registerAll
        exact along_hands.bind (ih b seen) fun r => ihbs _
    unfold Rule.Evaluation.registerFunction
    refine hands_asked fun a => ?_
    simp only
    split
    · exact (halong a).pure _
    split
    · next function hfunction _ =>
      refine (halong a).bind (fun t x t' h _ => hall _ _ t x t' h) fun seen' => ?_
      have hhand := (halong a).bind (hands_declaration (a.binding b).name hfunction)
        fun r => (halong a).bind ((halong a).contained r) fun known =>
          (halong a).pure (known.getD false, seen')
      simpa only [bind_assoc] using hhand
    · exact (halong a).pure _

/-- A call that is replaced by its value has a text without markers. -/
theorem gated_evaluate (h : Rule.Evaluation.evaluate i (t.analysis.nodeAt i) t = .ok () t') :
    Gated i t t' := by
  have hquiet : ∀ {m : RuleM Unit}, Relates Quiet m → m t = .ok () t' → Gated i t t' :=
    fun hm hrun => (hm t () t' hrun).gated i
  unfold Rule.Evaluation.evaluate at h
  obtain ⟨t₀, t₁, ht, h⟩ := bind_eq_ok.mp h
  cases ht
  by_cases hunknown : Rule.Evaluation.readsUnknown t.analysis t.state.sandbox (t.analysis.nodeAt i) = true
  · rw [if_pos hunknown] at h
    exact hquiet (along_quiet.pure ()) h
  rw [if_neg hunknown] at h
  obtain ⟨source, t₁, hcode, h⟩ := bind_eq_ok.mp h
  obtain ⟨htext, rfl⟩ := code_inv hcode
  obtain ⟨r, t₂, hsandbox, h⟩ := bind_eq_ok.mp h
  obtain ⟨v, t₃, hcontained, h⟩ := bind_eq_ok.mp h
  have hfirst : Quiet t₁ t₃ := along_quiet.trans
    (quiet_withSandbox (fun s => Registry.same_evaluate s _ _) t₁ r t₂ hsandbox)
    (along_quiet.contained r t₂ v t₃ hcontained)
  obtain ⟨t₄, t₅, ht, h⟩ := bind_eq_ok.mp h
  cases ht
  obtain ⟨tree, t₄, hsettle, h⟩ := bind_eq_ok.mp h
  obtain ⟨htree, rfl⟩ := settle_inv hsettle
  cases tree with
  | none =>
    exact (along_quiet.trans hfirst (quiet_record (by decide) 1 t₄ () t' h)).gated i
  | some n =>
    obtain ⟨_, t₅, hedit, hrecord⟩ := bind_eq_ok.mp h
    have hsame := (along_quiet.trans hfirst (quiet_edit _ t₄ () t₅ hedit)).same
    cases hrecord
    refine ⟨hsame.gate, fun id hid => .inl ?_, .inr ⟨source, htext, ?_⟩⟩
    · rwa [Tour.Registers, ← hsame.registered]
    · -- A value without a tree would not have been put in.
      obtain ⟨x, rfl⟩ : ∃ x, v = some (some x) := by
        obtain _ | _ | x := v
        · cases htree
        · cases htree
        · exact ⟨x, rfl⟩
      rw [withSandbox_eq] at hsandbox
      cases hsandbox
      have hunmarked := Registry.unmarked_of_evaluate (contained_inv hcontained)
      exact hunmarked

theorem gated_callOfName {name : Text}
    (h : Rule.Evaluation.callOfName i (t.analysis.nodeAt i) name t = .ok () t') : Gated i t t' := by
  unfold Rule.Evaluation.callOfName at h
  obtain ⟨t₀, t₁, ht, h⟩ := bind_eq_ok.mp h
  cases ht
  cases hlookup : t.analysis.lookup name (t.analysis.site i).scope with
  | none =>
    simp only [hlookup] at h
    split at h
    · exact gated_evaluate h
    · exact (along_quiet.pure () t () t' h).gated i
  | some b =>
    simp only [hlookup] at h
    obtain ⟨⟨known, seen⟩, t₁, hregister, h⟩ := bind_eq_ok.mp h
    have hhands := hands_registerFunction _ b [] t _ t₁ hregister
    rw [← hhands.analysis] at h
    refine hhands.gated_after ?_
    cases known with
    | false => exact (along_quiet.pure () t₁ () t' h).gated i
    | true => exact gated_evaluate h

theorem gated_callOfMember {callee : Node} {name : Text}
    (h : Rule.Evaluation.callOfMember i (t.analysis.nodeAt i) callee name t = .ok () t') :
    Gated i t t' := by
  unfold Rule.Evaluation.callOfMember at h
  obtain ⟨t₀, t₁, ht, h⟩ := bind_eq_ok.mp h
  cases ht
  cases hlookup : t.analysis.lookup name (t.analysis.site i).scope with
  | none =>
    simp only [hlookup] at h
    split at h
    · exact gated_evaluate h
    · exact (along_quiet.pure () t () t' h).gated i
  | some b =>
    refine Quiet.gated ?_ i
    simp only [hlookup] at h
    refine (?_ : Relates Quiet _) t () t' h
    split
    · refine along_quiet.bind (along_quiet.convert _) fun value => ?_
      split
      · exact along_quiet.bind (quiet_edit _) fun _ => quiet_record (by decide) 1
      · exact along_quiet.pure ()
    · exact along_quiet.pure ()

/-- Calls are evaluated with what is handed over for them. -/
theorem gated_evaluation (h : Rule.Evaluation.act i t = .ok () t') : Gated i t t' := by
  unfold Rule.Evaluation.act RuleM.nodeAt at h
  rw [TourM.ask_bind] at h
  refine (?_ : Relates (fun t₁ t' => t₁ = t → Gated i t₁ t') _) t () t' h rfl
  have hkeep : Relates (fun t₁ t' => t₁ = t → Gated i t₁ t') (pure () : RuleM Unit) :=
    fun t₁ y t' h _ => (along_quiet.pure y t₁ y t' h).gated i
  split
  · exact hkeep
  split
  · rintro t₁ y t' h rfl
    exact gated_callOfName h
  · split
    · rintro t₁ y t' h rfl
      exact gated_evaluate h
    · split
      · rintro t₁ y t' h rfl
        exact gated_callOfMember h
      · exact hkeep
  · exact hkeep

/-- The handlers of the chain. -/
theorem handler_cases {settings : Settings} {rules : List RuleName}
    {h : Handler RuleError RuleState} (hmem : h ∈ (RuleName.visitor settings rules).handlers) :
    h = Rule.Inlining.handler ∨ h = Rule.Folding.handler ∨ h = Rule.Evaluation.handler ∨
      h = Rule.Unflattening.handler settings := by
  simp only [Visitor.handlers, RuleName.visitor, List.mem_append, List.mem_flatMap] at hmem
  obtain ⟨r, -, hr⟩ | ⟨r, -, hr⟩ := hmem <;> cases r <;>
    simp_all [RuleName.onEntry, RuleName.onLeaving]

/-- Every handler of the chain keeps to the gate. -/
theorem gated_of_handler {settings : Settings} {rules : List RuleName}
    {h : Handler RuleError RuleState} (hmem : h ∈ (RuleName.visitor settings rules).handlers)
    (hact : h.act i t = .ok () t') : Gated i t t' := by
  obtain rfl | rfl | rfl | rfl := handler_cases hmem
  · exact gated_inlining hact
  · exact (quiet_folding i t () t' hact).gated i
  · exact gated_evaluation hact
  · exact (quiet_unflattening settings i t () t' hact).gated i

end Untangle
