import Untangle.Proofs.Gating.Handover
import Untangle.Proofs.Identity.Emission

set_option autoImplicit false

/-!
# What rules do to identities

An action of a rule changes the program step by step, and after every step the nodes are told apart,
whether the action succeeds or fails.  What is put in at the site of the action is new or made of the node
there; at all other sites it is new.
-/

namespace Untangle

open Analysis (Numbered Rooted Proceeds)
open Node (AreNew MadeOf)

/-- What a computation leaves, whether it succeeds or fails. -/
def TourM.Leaves {ε σ α : Type} (r : EStateM.Result ε (Tour σ) α) (P : Tour σ → Prop) : Prop :=
  match r with
  | .ok _ t => P t
  | .error _ t => P t

theorem TourM.Leaves.mono {ε σ α : Type} {r : EStateM.Result ε (Tour σ) α} {P Q : Tour σ → Prop}
    (h : TourM.Leaves r P) (hPQ : ∀ t, P t → Q t) : TourM.Leaves r Q := by
  cases r with
  | ok x t => exact hPQ t h
  | error e t => exact hPQ t h

/-- A computation of a rule leaves an analysis with a property if it starts with one that has another. -/
def Ensures {α : Type} (P : Analysis → Prop) (m : RuleM α) (Q : Analysis → Prop) : Prop :=
  ∀ t : Tour RuleState, P t.analysis → TourM.Leaves (m t) fun t' => Q t'.analysis

/-- A computation of a rule leaves the program as it is. -/
def Still {α : Type} (m : RuleM α) : Prop := ∀ a, Ensures (· = a) m (· = a)

variable {α β : Type} {P Q R : Analysis → Prop} {a : Analysis} {i : SiteId}

/-! ## Sequences -/

namespace Ensures

theorem bind {m : RuleM α} {k : α → RuleM β} (hm : Ensures P m Q) (hk : ∀ x, Ensures Q (k x) R)
    (hfails : ∀ b, Q b → R b) : Ensures P (m >>= k) R := by
  intro t ht
  have hleft := hm t ht
  cases hrun : m t with
  | ok x t' =>
    rw [hrun] at hleft
    rw [bind_of_ok hrun]
    exact hk x t' hleft
  | error e t' =>
    rw [hrun] at hleft
    rw [bind_of_error hrun]
    exact hfails _ hleft

theorem pure (hPQ : ∀ b, P b → Q b) (x : α) : Ensures P (pure x : RuleM α) Q := fun t ht =>
  hPQ t.analysis ht

theorem throw (hPQ : ∀ b, P b → Q b) (e : RuleError) : Ensures P (throw e : RuleM α) Q := fun t ht =>
  hPQ t.analysis ht

theorem weaken {m : RuleM α} (hm : Ensures P m Q) (hP : ∀ b, R b → P b) : Ensures R m Q :=
  fun t ht => hm t (hP t.analysis ht)

/-- A change is made, or refused. -/
theorem edit {f : Analysis → Except Refusal Analysis} (hf : ∀ b b', P b → f b = .ok b' → Q b')
    (hPQ : ∀ b, P b → Q b) : Ensures P (RuleM.edit f) Q := by
  intro t ht
  unfold RuleM.edit
  rw [bind_of_ok (show (get : RuleM _) t = .ok t t from rfl)]
  cases hok : f t.analysis with
  | ok b => exact hf _ b ht hok
  | error e => exact hPQ _ ht

/-- What is asked where the program is known. -/
theorem ask_bind {f : Analysis → α} {k : α → RuleM β} (hk : Ensures (· = a) (k (f a)) Q) :
    Ensures (· = a) (TourM.ask f >>= k) Q := by
  rintro t rfl
  exact hk t rfl

theorem nodeAt_bind {k : Node → RuleM β} (hk : Ensures (· = a) (k (a.nodeAt i)) Q) :
    Ensures (· = a) (RuleM.nodeAt i >>= k) Q := ask_bind hk

/-- What follows a result that is known. -/
theorem settle_bind {r : Except RuleError α} {k : α → RuleM β} (hk : ∀ x, r = .ok x → Ensures P (k x) Q)
    (hPQ : ∀ b, P b → Q b) : Ensures P (RuleM.settle r >>= k) Q := by
  cases r with
  | ok x => exact hk x rfl
  | error e => exact .throw hPQ e

/-- What comes out of the sandbox comes out of one. -/
theorem withSandbox_bind {f : Sandbox.Registry → α × Sandbox.Registry} {k : α → RuleM β}
    (hk : ∀ s, Ensures P (k (f s).1) Q) : Ensures P (RuleM.withSandbox f >>= k) Q := fun t ht =>
  hk t.provided (t.withSandbox (f t.provided).2) ht

end Ensures

namespace Still

theorem ensures {m : RuleM α} (hm : Still m) : Ensures P m P := fun t ht =>
  (hm t.analysis t rfl).mono fun t' hsame => by
    show P t'.analysis
    rwa [show t'.analysis = t.analysis from hsame]

theorem leads {m : RuleM α} (hm : Still m) (hPQ : ∀ b, P b → Q b) : Ensures P m Q := fun t ht =>
  (hm.ensures t ht).mono fun t' h => hPQ t'.analysis h

theorem pure (x : α) : Still (pure x : RuleM α) := fun _ => .pure (fun _ h => h) x

theorem throw (e : RuleError) : Still (throw e : RuleM α) := fun _ => .throw (fun _ h => h) e

theorem bind {m : RuleM α} {k : α → RuleM β} (hm : Still m) (hk : ∀ x, Still (k x)) :
    Still (m >>= k) := fun a => (hm a).bind (fun x => hk x a) fun _ h => h

/-- What follows a computation that leaves the program as it is. -/
theorem andThen {m : RuleM α} {k : α → RuleM β} (hm : Still m) (hk : ∀ x, Ensures P (k x) Q)
    (hPQ : ∀ b, P b → Q b) : Ensures P (m >>= k) Q := hm.ensures.bind hk hPQ

theorem get : Still (get : RuleM (Tour RuleState)) := fun _ _ h => h

theorem ask (f : Analysis → α) : Still (TourM.ask f : RuleM α) := fun _ _ h => h

theorem nodeAt (i : SiteId) : Still (RuleM.nodeAt i) := ask _

theorem record (c : Counter) (n : Nat) : Still (RuleM.record c n) := fun _ _ h => h

theorem withSandbox (f : Sandbox.Registry → α × Sandbox.Registry) : Still (RuleM.withSandbox f) :=
  fun _ _ h => h

theorem code (n : Node) : Still (RuleM.code n) := by
  unfold RuleM.code
  split
  · exact pure _
  · exact throw _

theorem convert (r : Except Sandbox.Fault α) : Still (RuleM.convert r) := by
  unfold RuleM.convert
  split
  · exact pure _
  · exact throw _

theorem contained (r : Except Sandbox.Abrupt α) : Still (RuleM.contained r) := by
  unfold RuleM.contained
  split
  · exact pure _
  · exact throw _
  · exact pure _

/-- Handing functions over leaves the program as it is. -/
theorem registerFunction (fuel : Nat) (b : BindingId) (seen : List NodeId) :
    Still (Rule.Evaluation.registerFunction fuel b seen) := by
  induction fuel generalizing b seen with
  | zero =>
    unfold Rule.Evaluation.registerFunction
    refine (ask _).bind fun a => ?_
    simp only
    split
    · exact pure _
    · split <;> exact pure _
  | succ fuel ih =>
    have hall : ∀ bs seen, Still (Rule.Evaluation.registerAll fuel bs seen) := by
      intro bs
      induction bs with
      | nil =>
        intro seen
        unfold Rule.Evaluation.registerAll
        exact pure seen
      | cons b bs ihbs =>
        intro seen
        unfold Rule.Evaluation.registerAll
        exact (ih b seen).bind fun r => ihbs _
    unfold Rule.Evaluation.registerFunction
    refine (ask _).bind fun a => ?_
    simp only
    split
    · exact pure _
    split
    · exact (hall _ _).bind fun seen' => (code _).bind fun source =>
        (withSandbox _).bind fun r => (contained r).bind fun known => pure _
    · exact pure _

end Still

/-! ## Actions that put in new nodes -/

section Actions

/-- New nodes may be put in anywhere. -/
theorem ensures_replace_new {new : Node} (hnew : AreNew [new]) (k : SiteId) :
    Ensures (Proceeds a) (RuleM.edit fun b => b.replace k new) (Proceeds a) :=
  .edit (fun _ _ hb hok => hb.tail (.replaced k new (.new hnew) hok)) fun _ h => h

theorem ensures_remove (k : SiteId) :
    Ensures (Proceeds a) (RuleM.edit fun b => b.remove k) (Proceeds a) :=
  .edit (fun _ _ hb hok => hb.trans (Analysis.proceeds_remove hok)) fun _ h => h

theorem ensures_folding (i : SiteId) :
    Ensures (Proceeds a) (Rule.Folding.act i) (Proceeds a) := by
  have hsame : ∀ b, Proceeds a b → Proceeds a b := fun _ h => h
  unfold Rule.Folding.act
  refine (Still.nodeAt i).andThen (fun n => ?_) hsame
  split
  · exact .pure hsame ()
  simp only
  split
  · exact (Still.code n).andThen (fun _ => .throw hsame _) hsame
  · refine (Still.convert _).andThen (fun v => ?_) hsame
    exact (ensures_replace_new (Sandbox.areNew_primitiveNode v) i).bind
      (fun _ => (Still.record _ _).ensures) hsame

theorem ensures_replaceReads (value : Sandbox.Value) (rs : List SiteId) :
    Ensures (Proceeds a) (Rule.Inlining.replaceReads (Sandbox.primitiveNode value) rs)
      (Proceeds a) := by
  induction rs with
  | nil => exact .pure (fun _ h => h) ()
  | cons r rs ih =>
    exact (ensures_replace_new (Sandbox.areNew_primitiveNode value) r).bind (fun _ => ih) fun _ h => h

theorem ensures_inlining (i : SiteId) :
    Ensures (Proceeds a) (Rule.Inlining.act i) (Proceeds a) := by
  have hsame : ∀ b, Proceeds a b → Proceeds a b := fun _ h => h
  have hstop : Ensures (Proceeds a) (pure () : RuleM Unit) (Proceeds a) := .pure hsame ()
  unfold Rule.Inlining.act
  refine (Still.nodeAt i).andThen (fun n => ?_) hsame
  refine (Still.ask _).andThen (fun s => ?_) hsame
  refine (Still.ask _).andThen (fun slot => ?_) hsame
  simp only
  split
  · unfold Rule.Inlining.inlineLiteral
    refine (Still.ask _).andThen (fun b => ?_) hsame
    split
    · exact hstop
    simp only
    split
    · exact hstop
    refine (Still.convert _).andThen (fun value => ?_) hsame
    refine (ensures_replaceReads value _).bind (fun _ => ?_) hsame
    refine (ensures_remove i).bind (fun _ => ?_) hsame
    exact (Still.record _ _).andThen (fun _ => (Still.record _ _).ensures) hsame
  · unfold Rule.Inlining.moveFunction
    refine (Still.withSandbox _).andThen (fun r => ?_) hsame
    refine (Still.contained r).andThen (fun moved => ?_) hsame
    split
    · refine (ensures_remove i).bind (fun _ => ?_) hsame
      exact (Still.record _ _).andThen (fun _ => (Still.record _ _).ensures) hsame
    · exact hstop
  · exact hstop

theorem ensures_evaluate (i : SiteId) (call : Node) :
    Ensures (Proceeds a) (Rule.Evaluation.evaluate i call) (Proceeds a) := by
  have hsame : ∀ b, Proceeds a b → Proceeds a b := fun _ h => h
  unfold Rule.Evaluation.evaluate
  refine Still.get.andThen (fun t => ?_) hsame
  split
  · exact .pure hsame ()
  refine (Still.code call).andThen (fun source => ?_) hsame
  refine (Still.withSandbox _).andThen (fun r => ?_) hsame
  refine (Still.contained r).andThen (fun v => ?_) hsame
  refine Still.get.andThen (fun t' => ?_) hsame
  refine Ensures.settle_bind (fun tree htree => ?_) hsame
  cases tree with
  | none => exact (Still.record _ _).ensures
  | some n =>
    exact (ensures_replace_new (Rule.Evaluation.areNew_valueTree? htree) i).bind
      (fun _ => (Still.record _ _).ensures) hsame

/-! ## Actions that move nodes -/

/-- Nodes of the node of a site may be put in its place. -/
theorem ensures_replace_made (hi : Rooted a i) {new : Node} (hmade : MadeOf [new] (a.nodeAt i)) :
    Ensures (· = a) (RuleM.edit fun b => b.replace i new) (Proceeds a) := by
  refine .edit (fun b b' hb hok => ?_) fun b hb => ?_
  · subst hb
    exact .single (.replaced i new (.made hi hmade) hok)
  · rw [hb]
    exact .refl

theorem ensures_callOfMember (hi : Rooted a i) (callee : Node) (name : Text) :
    Ensures (· = a) (Rule.Evaluation.callOfMember i (a.nodeAt i) callee name) (Proceeds a) := by
  have hstay : ∀ b, b = a → Proceeds a b := fun b hb => hb ▸ .refl
  have hstop : Ensures (· = a) (pure () : RuleM Unit) (Proceeds a) := .pure hstay ()
  unfold Rule.Evaluation.callOfMember
  refine Still.get.andThen (fun t => ?_) hstay
  simp only
  split
  · split
    · exact (ensures_evaluate i _).weaken hstay
    · exact hstop
  split
  · refine (Still.convert _).andThen (fun value => ?_) hstay
    split
    · next n hn =>
      obtain ⟨w, -, hunwrapped⟩ := Option.bind_eq_some_iff.mp hn
      exact (ensures_replace_made hi (Rule.Evaluation.madeOf_unwrapped? hunwrapped)).bind
        (fun _ => (Still.record _ _).ensures) fun _ h => h
    · exact hstop
  · exact hstop

theorem ensures_evaluation (hi : Rooted a i) :
    Ensures (· = a) (Rule.Evaluation.act i) (Proceeds a) := by
  have hstay : ∀ b, b = a → Proceeds a b := fun b hb => hb ▸ .refl
  have hstop : Ensures (· = a) (pure () : RuleM Unit) (Proceeds a) := .pure hstay ()
  have hevaluate : ∀ n, Ensures (· = a) (Rule.Evaluation.evaluate i n) (Proceeds a) := fun n =>
    (ensures_evaluate i n).weaken hstay
  unfold Rule.Evaluation.act
  refine .nodeAt_bind ?_
  split
  · exact hstop
  split
  · unfold Rule.Evaluation.callOfName
    refine Still.get.andThen (fun t => ?_) hstay
    split
    · split
      · exact hevaluate _
      · exact hstop
    · refine (Still.registerFunction _ _ _).andThen (fun r => ?_) hstay
      simp only
      split
      · exact hevaluate _
      · exact hstop
  · split
    · exact hevaluate _
    · split
      · exact ensures_callOfMember hi _ _
      · exact hstop
  · exact hstop

theorem ensures_unflattening (ha : Numbered a) (settings : Settings) (hi : Rooted a i) :
    Ensures (· = a) (Rule.Unflattening.act settings i) (Proceeds a) := by
  have hstay : ∀ b, b = a → Proceeds a b := fun b hb => hb ▸ .refl
  unfold Rule.Unflattening.act
  refine .nodeAt_bind ?_
  split
  · exact .pure hstay ()
  next loop hloop =>
  refine (Still.ask _).andThen (fun b => ?_) hstay
  refine Ensures.withSandbox_bind fun s => ?_
  split
  · next statements hstatements =>
    refine Ensures.bind (Q := Proceeds a) (.edit (fun b b' hb hok => ?_) hstay)
      (fun _ => (Still.record _ _).ensures) fun _ h => h
    subst hb
    have hdistinct := Analysis.nodup_nodeAt ha (Analysis.attached_of_replaceMany hok)
    have hmade : MadeOf statements (b.nodeAt i) := by
      split at hstatements
      · next hrun =>
        cases hstatements
        exact Dispatch.madeOf_unflatten hloop hdistinct hrun
      · cases hstatements
    exact .single (.spliced i statements (.made hi hmade) hok)
  · exact (Still.record _ _).ensures.bind (fun _ => .pure hstay ()) hstay
  · exact .throw hstay _
  · exact .throw hstay _

end Actions

end Untangle
