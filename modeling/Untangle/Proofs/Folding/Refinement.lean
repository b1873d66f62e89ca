import Untangle.Proofs.Folding.Outcome
import Untangle.Proofs.Folding.Report

set_option autoImplicit false

/-!
# The rule folds trees

The tour of the rule changes the program in place: it replaces operators by new nodes, visits these again
and takes them up in the records.  What it makes of a program is what the recursion over the tree gives, and
it fails where the recursion fails.  Both compare after the new nodes, which the recursion leaves without
identities, have lost theirs.

The main theorem is `binary_rule_folds_structurally`, about runs of this rule alone on programs whose
children stand in the order of their slots and which are no deeper than a tour goes.  It includes the
failures of the rule and the second run; that the recursion keeps what expressions come to is stated in
`folding_keeps_outcome`.
-/

namespace Untangle.Rule.Folding

open Analysis Sandbox TourM
open Node (Renewed valueGone)

variable {bound : NodeId} {i p : SiteId} {n parent : Node} {before after : List Node}
  {t : Tour RuleState}

/-! ## What is compared -/

/-- How a failure of the recursion is reported. -/
def Halt.report : Halt → RuleError
  | .unfoldable op n =>
    match n.code with
    | .ok source => .unsupportedOperator op source
    | .error refusal => .unprintable refusal
  | .fault f => .fault f

/-- An operator is reported as unsupported if it is one that is not folded and can be printed. -/
theorem unfoldable_of_report {h : Halt} {op : BinaryOp} {source : Text}
    (hreport : h.report = .unsupportedOperator op source) :
    ∃ n, h = .unfoldable op n ∧ ∃ text, n.code = .ok text := by
  cases h with
  | fault f => cases hreport
  | unfoldable op' n =>
    simp only [Halt.report] at hreport
    split at hreport
    · next hcode =>
      cases hreport
      exact ⟨n, rfl, _, hcode⟩
    · cases hreport

/-- A tree is what the recursion gives, new nodes having no identity. -/
def Comes (bound : NodeId) (n m : Node) : Prop := foldTree n = .ok (m.forgetNew bound)

/-- The recursion fails, which is reported; children are looked at in the order of their slots. -/
def Fails (n : Node) (e : RuleError) : Prop :=
  n.isOrdered = true → ∃ h, foldTree n = .error h ∧ e = h.report

/-- A tree with different identities below a bound and all children in slots. -/
structure Tidy (bound : NodeId) (n : Node) : Prop where
  slotted : n.isSlotted = true
  distinct : n.identities.Nodup
  numbered : ∀ i ∈ n.identities, 0 < i ∧ i < bound

theorem Tidy.child {n c : Node} (h : Tidy bound n) (hc : c ∈ n.children) : Tidy bound c := by
  have hdistinct := h.distinct
  rw [Node.identities_eq] at hdistinct
  refine ⟨Node.isSlotted_child h.slotted hc,
    Node.nodup_of_mem (List.nodup_cons.mp hdistinct).2 hc, fun i hi => h.numbered i ?_⟩
  rw [Node.identities_eq]
  exact List.mem_cons_of_mem _ (Node.mem_identitiesAll.mpr ⟨c, hc, hi⟩)

theorem Tidy.id_numbered (h : Tidy bound n) : 0 < n.id ∧ n.id < bound :=
  h.numbered n.id (Node.Inside.self n).id_mem

theorem Tidy.tended (h : Tidy bound n) (hn : Stands t.analysis i n)
    (hbound : bound ≤ t.analysis.next) : Tended t.analysis i n :=
  ⟨hn, Node.nodup_children h.distinct, fun _ hc =>
    Nat.lt_of_lt_of_le (h.child hc).id_numbered.2 hbound⟩

/-- A tree in which nothing is new. -/
theorem Tidy.forgetNew (h : Tidy bound n) : n.forgetNew bound = n :=
  Node.forgetNew_of_old fun i hi => (h.numbered i hi).2

/-- An element that is left out stays. -/
theorem Tidy.comes_of_hole (h : Tidy bound n) (hhole : n.isHole = true) : Comes bound n n := by
  have hform : n.form = .hole := by
    unfold Node.isHole Form.isHole at hhole
    split at hhole
    · next hform => exact hform
    · cases hhole
  have hfolded : Folded n := by
    refine .of_children (literalOperands?_of_handles (by rw [hform]; rfl)) fun c hc => ?_
    have hslot := Node.role_mem_slots h.slotted hc
    rw [hform] at hslot
    cases hslot
  unfold Comes
  rw [foldTree_of_folded hfolded, h.forgetNew]

/-- The values that gave way are known after new nodes lost their identities. -/
theorem valueGone_forgetNew {cs cs' : List Node} (hlow : ∀ c ∈ cs, 0 < c.id ∧ c.id < bound)
    (h : List.Forall₂ (Renewed bound) cs cs') :
    valueGone cs (cs'.map (Node.forgetNew bound)) = valueGone cs cs' := by
  induction h with
  | nil => rfl
  | @cons c c' cs cs' hc _ ih =>
    obtain ⟨hpos, hlt⟩ := hlow c List.mem_cons_self
    have hid : (c'.forgetNew bound).id = if c'.id < bound then c'.id else 0 := Node.id_relabel _ c'
    have hsame : ((c'.forgetNew bound).id != c.id) = (c'.id != c.id) := by
      rw [hid]
      rcases hc.id with heq | hnew
      · rw [heq, if_pos hlt]
      · rw [if_neg (Nat.not_lt.mpr hnew), bne_iff_ne.mpr (Nat.ne_of_lt hpos),
          bne_iff_ne.mpr (Nat.ne_of_gt (Nat.lt_of_lt_of_le hlt hnew))]
    have hcons : ∀ (x y : Node) (xs ys : List Node), valueGone (x :: xs) (y :: ys) =
        ((x.role == .value && y.id != x.id) || valueGone xs ys) := fun _ _ _ _ => rfl
    rw [List.map_cons, hcons, hcons, hsame, ih fun d hd => hlow d (List.mem_cons_of_mem c hd)]

/-- What the recursion gives of a node whose children were visited. -/
theorem foldTree_of_progress {a a' : Analysis} {n' : Node} (hn : Tidy bound n) (hbound : bound ≤ a.next)
    (h : Progress a a' i n n') (hdone : List.Forall₂ (Comes bound) n.children n'.children) :
    foldTree n = reduce (n'.forgetNew bound) := by
  have hkept : n'.id = n.id ∧ n'.role = n.role := by
    obtain ⟨g, hkeeps, rfl, -⟩ := h.alters.program
    exact hkeeps n
  have hchildren : foldTrees n.children = .ok (n'.children.map (Node.forgetNew bound)) := by
    rw [foldTrees_eq_ok, List.forall₂_map_right_iff]
    exact hdone
  have hgone := valueGone_forgetNew (fun c hc => (hn.child hc).id_numbered)
    (h.renewed.imp fun c c' hc => ⟨hc.role, hc.id.imp_right (Nat.le_trans hbound)⟩)
  have hform := h.form
  obtain ⟨k, r, f, cs⟩ := n
  obtain ⟨k', r', f', cs'⟩ := n'
  have hid : (if k' < bound then k' else 0) = k := by
    rw [show k' = k from hkept.1]
    exact if_pos hn.id_numbered.2
  have hforget : (Node.mk k' r' f' cs').forgetNew bound =
      .mk k r (f.after cs (cs'.map (Node.forgetNew bound))) (cs'.map (Node.forgetNew bound)) := by
    rw [Node.forgetNew_mk, hid, show r' = r from hkept.2, show f' = f.after cs cs' from hform, Form.after,
      Form.after]
    rw [show valueGone cs (cs'.map (Node.forgetNew bound)) = valueGone cs cs' from hgone]
  change foldTrees cs = .ok (cs'.map (Node.forgetNew bound)) at hchildren
  rw [foldTree, hchildren, hforget]
  rfl

/-- The recursion fails at the first child at which it does. -/
theorem fails_of_child {e : RuleError}
    (h : FailsAt (Comes bound) Fails (n.form.slots.flatMap fun s => n.childrenAt s.role) e) :
    Fails n e := by
  intro hordered
  rw [Node.flatMap_childrenAt n.form.nodup_slots hordered] at h
  obtain ⟨past, c, rest, hchildren, hpast, hfails⟩ := h
  have hc : c ∈ n.children := hchildren ▸ by simp
  obtain ⟨halt, hfold, hreport⟩ := hfails (Node.isOrdered_child hordered hc)
  refine ⟨halt, ?_, hreport⟩
  obtain ⟨k, r, f, cs⟩ := n
  have herror : foldTrees cs = .error halt := by
    rw [show cs = past ++ c :: rest from hchildren]
    refine foldTrees_eq_error (fun d hd => ?_) hfold
    obtain ⟨d', hd'⟩ := hpast d hd
    exact ⟨_, hd'⟩
  rw [foldTree, herror]
  rfl

/-! ## Leaving a node -/

/-- Literals under an operator that is not folded end the run. -/
theorem act_of_unfoldable {op : BinaryOp} {l r : Node} (hn : Stands t.analysis i n)
    (h : literalOperands? n = some (op, l, r)) (hop : isFoldable op = false) :
    act i t = .error (Halt.unfoldable op n).report t := by
  unfold act RuleM.nodeAt RuleM.code Halt.report
  rw [ask_bind, hn.nodeAt, h]
  simp only [hop]
  cases n.code <;> rfl

/-- What is reported does not depend on identities. -/
theorem report_relabel {op : BinaryOp} {l r : Node} (h : literalOperands? n = some (op, l, r))
    (g : NodeId → NodeId) : (Halt.unfoldable op (n.relabel g)).report = (Halt.unfoldable op n).report := by
  simp only [Halt.report, code_relabel g h]

theorem id_primitiveNode (v : Value) : (primitiveNode v).id = 0 := by
  rw [← unnumbered_primitiveNode, Node.unnumbered_eq_relabel, Node.id_relabel]

/-- A child that is folded gives way to the tree of the value, which no sibling has the identity of. -/
theorem fold_among {op : BinaryOp} {l r : Node} {v : Value}
    (hn : Among t.analysis i p parent n before after)
    (hlisted : (t.analysis.site i).listed = true → parent.form.replacedAt n.role = parent.form)
    (hnumbered : ∀ d ∈ n :: (before ++ after), d.id < t.analysis.next)
    (hbound : bound ≤ t.analysis.next) (hv : foldedValue op l r = .ok v) :
    ∃ t' parent' new, fold i op l r t = .ok () t' ∧ Plain new ∧ Stands t'.analysis i new ∧
      Swept (fun n' => n'.forgetNew bound = (primitiveNode v).inRole n.role) t.analysis t'.analysis i p
        parent n before after parent' new := by
  obtain ⟨hid, hlt⟩ := Node.adopt_of_unnumbered (id_primitiveNode v) t.analysis.next
  have hfresh : ∀ d ∈ before ++ after, d.id ≠ ((primitiveNode v).adopt t.analysis.next).1.id :=
    fun d hd => by
      rw [hid]
      exact Nat.ne_of_lt (hnumbered d (List.mem_cons_of_mem n hd))
  obtain ⟨a, parent', ha, hstands, hshifts, hchildren, hform, hnext⟩ :=
    hn.replace (primitiveNode v) hfresh
  have hplain : Plain (((primitiveNode v).adopt t.analysis.next).1.inRole n.role) :=
    ((plain_primitiveNode v).adopt _).inRole _
  refine ⟨{ t with analysis := a, state := { t.state with stats := t.state.stats.add .binaryFolded 1 } },
    parent', _, ?_, hplain, hstands, ?_, Node.role_inRole _ _, .inr ?_, ?_, hshifts, hchildren, ?_⟩
  · unfold fold
    rw [hv]
    exact bind_of_ok (edit_of_ok ha)
  · have hforget := Node.forgetNew_adopt hbound (unnumbered_primitiveNode v)
    exact (Node.relabel_inRole _ _ _).trans (congrArg (Node.inRole n.role) hforget)
  · rw [Node.id_inRole, hid]
    exact ⟨Nat.le_refl _, hnext ▸ hlt⟩
  · exact Nat.le_of_lt (hnext ▸ hlt)
  · have hnew : (((primitiveNode v).adopt t.analysis.next).1.inRole n.role).id ≠ n.id := by
      rw [Node.id_inRole, hid]
      exact Nat.ne_of_gt (hnumbered n List.mem_cons_self)
    have hwritten : parent'.form = parent.form.replacedAt n.role := by
      rw [hform]
      split
      · next h => exact (hlisted h).symm
      · rfl
    have hgone : valueGone [n] [((primitiveNode v).adopt t.analysis.next).1.inRole n.role] =
        (n.role == .value) := by
      show ((n.role == .value && _ != n.id) || false) = _
      rw [bne_iff_ne.mpr hnew, Bool.and_true, Bool.or_false]
    rw [hwritten, Form.after, hgone]
    by_cases hrole : n.role = .value
    · rw [if_pos (beq_iff_eq.mpr hrole), hrole]
    · rw [if_neg (by simpa using hrole), Form.replacedAt_of_ne hrole]

/-- On leaving a node whose children were visited it becomes what the recursion makes of it. -/
theorem leave_reduce (hn : Among t.analysis i p parent n before after)
    (hlisted : (t.analysis.site i).listed = true → parent.form.replacedAt n.role = parent.form)
    (hnumbered : ∀ d ∈ n :: (before ++ after), d.id < t.analysis.next)
    (hbound : bound ≤ t.analysis.next) (fuel visits : Nat) :
    Ends (leave visitor fuel visits i n t)
      (fun _ t' => ∃ parent' n',
        Swept (fun n' => reduce (n.forgetNew bound) = .ok (n'.forgetNew bound)) t.analysis t'.analysis i p
          parent n before after parent' n')
      fun e => ∃ h, reduce (n.forgetNew bound) = .error h ∧ e = h.report := by
  have hforget : literalOperands? (n.forgetNew bound) = _ := literalOperands?_relabel _ n
  have hstays : literalOperands? n = none → ∃ parent' n',
      Swept (fun n' => reduce (n.forgetNew bound) = .ok (n'.forgetNew bound)) t.analysis t.analysis i p
        parent n before after parent' n' := by
    intro hnone
    rw [hnone] at hforget
    refine ⟨_, n, swept_of_alters hn ((Extends.refl _).alters i n) (Nat.le_refl _) ?_⟩
    unfold reduce
    rw [hforget]
    rfl
  cases hhandles : handles n.form with
  | false =>
    rw [leave_eq (ignores_of_handles hhandles).onLeaving]
    exact hstays (literalOperands?_of_handles hhandles)
  | true =>
    have honly : (visitor.onLeaving.filter fun h => h.handles n.form) = [handler] :=
      List.filter_cons_of_pos hhandles
    cases hoperands : literalOperands? n with
    | none =>
      rw [leave_of_ok hn.stands honly (act_of_none hn.stands hoperands) hn.stands, if_neg (by simp)]
      exact hstays hoperands
    | some operands =>
      obtain ⟨op, l, r⟩ := operands
      rw [hoperands] at hforget
      cases hop : isFoldable op with
      | false =>
        rw [leave_of_error hn.stands honly (act_of_unfoldable hn.stands hoperands hop)]
        refine ⟨.unfoldable op (n.forgetNew bound), ?_, (report_relabel hoperands _).symm⟩
        unfold reduce
        rw [hforget]
        simp [hop]
      | true =>
        have hact := act_of_some hn.stands hoperands hop
        cases hv : foldedValue op l r with
        | error f =>
          rw [leave_of_error hn.stands honly (hact.trans (fold_of_error hv))]
          exact ⟨.fault f, reduce_of_fault hforget hop ((foldedValue_relabel _ op l r).trans hv), rfl⟩
        | ok v =>
          obtain ⟨t', parent', new, hfold, hplain, hstands, hswept⟩ :=
            fold_among hn hlisted hnumbered hbound hv
          have hreduce : reduce (n.forgetNew bound) = .ok ((primitiveNode v).inRole n.role) := by
            rw [reduce_of_operands hforget hop ((foldedValue_relabel _ op l r).trans hv),
              show (n.forgetNew bound).role = n.role from Node.role_relabel _ n]
          have hdone := hswept.imp fun n' hn' => hreduce.trans (congrArg Except.ok hn'.symm)
          rw [leave_of_ok hn.stands honly (hact.trans hfold) hstands]
          split
          · exact (hplain.idle hstands fuel visits).mono
              (fun _ _ hextends => ⟨parent', new, hdone.extended hextends⟩) fun _ h => h.elim
          · exact ⟨parent', new, hdone⟩

/-- A node is left as one of the same identity, on which the same handlers act. -/
theorem leave_recast {n' : Node} (hid : n'.id = n.id) (hrecast : n.form.Recast n'.form)
    (fuel visits : Nat) : leave visitor fuel visits i n' = leave visitor fuel visits i n := by
  have hfilter : (visitor.onLeaving.filter fun h => h.handles n'.form) =
      visitor.onLeaving.filter fun h => h.handles n.form := by
    refine List.filter_congr fun h hmem => ?_
    cases List.mem_singleton.mp hmem
    exact handles_of_recast hrecast
  unfold leave
  rw [hid, hfilter]

/-! ## Visits -/

/-- The children of a node become what the recursion makes of them, if the tour may go as deep. -/
theorem children_fold {fuel : Nat} {a : Analysis} {state : RuleState} {visited : Nat}
    (hn : Tidy bound n) (hdepth : n.depth ≤ fuel + 1) (hstands : Stands a i n) (hbound : bound ≤ a.next)
    (hbelow : ∀ fuel', fuel = fuel' + 1 → ∀ c ∈ n.children,
      Sweeps visitor bound fuel' (Comes bound c) (Fails c) c) (outer inner : ScopeId) :
    Ends (visitSlots visitor fuel i n.id n.form outer inner n.form.slots ⟨a, visited, state⟩)
      (fun _ t' => ∃ n', Progress a t'.analysis i n n' ∧ foldTree n = reduce (n'.forgetNew bound))
      (Fails n) := by
  have htended : Tended a i n := hn.tended (t := ⟨a, visited, state⟩) hstands hbound
  refine (visitSlots_all (P := Comes bound) (t := ⟨a, visited, state⟩) htended hbound
    (fun _ => Node.role_mem_slots hn.slotted) ?_ ?_ outer inner).mono (fun _ t' ht' => ?_) fun e he =>
      fails_of_child he
  · rintro rfl
    refine List.eq_nil_iff_forall_not_mem.mpr fun c hc => ?_
    have hlt := Node.depth_lt_of_mem hc
    have hpos := Node.depth_pos c
    omega
  · exact fun fuel' hfuel c hc => ⟨(hn.child hc).comes_of_hole, fun _ => hbelow fuel' hfuel c hc⟩
  · obtain ⟨n', hprogress, hdone⟩ := ht'
    exact ⟨n', hprogress, foldTree_of_progress hn hbound hprogress hdone⟩

/-- A visit makes of a child what the recursion does, if the tour may go as deep as the child. -/
theorem sweeps_fold {fuel : Nat} (hn : Tidy bound n) (hdepth : n.depth ≤ fuel + 1) :
    Sweeps visitor bound fuel (Comes bound n) (Fails n) n := by
  induction fuel using Nat.strongRecOn generalizing n with
  | ind fuel ih =>
    intro t i p parent before after hamong hlisted hnumbered hbound
    have hentry : ∀ h ∈ visitor.onEntry, h.handles n.form = false := fun h hmem => by cases hmem
    have hbelow : ∀ fuel', fuel = fuel' + 1 → ∀ c ∈ n.children,
        Sweeps visitor bound fuel' (Comes bound c) (Fails c) c := by
      intro fuel' hfuel c hc
      have hlt := Node.depth_lt_of_mem hc
      exact ih fuel' (by omega) (hn.child hc) (by omega)
    rw [show maxVisits = 49 + 1 from rfl, visit_eq hamong.stands hentry]
    refine Ends.bind (children_fold hn hdepth hamong.stands hbound hbelow _ _) fun _ t' ht' => ?_
    obtain ⟨n', hprogress, hfold⟩ := ht'
    obtain ⟨hid, hrole⟩ : n'.id = n.id ∧ n'.role = n.role := by
      obtain ⟨g, hkeeps, rfl, -⟩ := hprogress.alters.program
      exact hkeeps n
    have hsite : t'.analysis.site i = t.analysis.site i := hprogress.alters.site_eq hamong.known
    have hnumbered' : ∀ d ∈ n' :: (before ++ after), d.id < t'.analysis.next := by
      intro d hd
      refine Nat.lt_of_lt_of_le ?_ hprogress.next
      rcases List.mem_cons.mp hd with rfl | hd
      · rw [hid]
        exact hnumbered n (hamong.children ▸ by simp)
      · refine hnumbered d ?_
        rw [hamong.children]
        rcases List.mem_append.mp hd with hd | hd
        · exact List.mem_append_left _ hd
        · exact List.mem_append_right _ (List.mem_cons_of_mem _ hd)
    have hlisted' : (t'.analysis.site i).listed = true →
        (parent.withChildren (before ++ n' :: after)).form.replacedAt n'.role =
          (parent.withChildren (before ++ n' :: after)).form := by
      rw [hsite, hrole, Node.form_withChildren]
      exact hlisted
    rw [← leave_recast hid hprogress.recast]
    refine (leave_reduce (hamong.altered hprogress.alters) hlisted' hnumbered'
      (Nat.le_trans hbound hprogress.next) fuel 49).mono (fun _ t'' ht'' => ?_) fun e he => ?_
    · obtain ⟨parent', n'', hswept⟩ := ht''
      have hcomes := hswept.imp fun m (hm : reduce (n'.forgetNew bound) = _) => show Comes bound n m from hfold.trans hm
      exact ⟨parent', n'', hcomes.of_altered hamong hprogress.alters hprogress.next⟩
    · obtain ⟨h, hreduce, hreport⟩ := he
      exact fun _ => ⟨h, hfold.trans hreduce, hreport⟩

/-! ## Programs -/

theorem tidy_number (h : n.isSlotted = true) : Tidy (n.size + 1) (n.number 1).1 := by
  have hids := (Node.identities_number n 1).1
  refine ⟨(Node.isSlotted_number n 1).1.trans h, hids ▸ List.nodup_range', fun i hi => ?_⟩
  rw [hids, List.mem_range'_1] at hi
  rw [Nat.add_comm]
  exact hi

/-- The tour of the rule makes of a program what the recursion does. -/
theorem run_fold {a : Analysis} (ha : Tidy a.next a.program)
    (hdepth : a.program.depth ≤ tourDepth + 1) (hform : handles a.program.form = false)
    (state : RuleState) :
    (∃ t, visitor.run a state = .ok t ∧ Comes a.next a.program t.analysis.program) ∨
      ∃ e, visitor.run a state = .error e ∧ Fails a.program e := by
  have hroot := stands_root a
  have hway := way_of_root (congrArg Site.above
    (site_addSite a ⟨a.program.id, none, .top, false, 0, false⟩))
  have hvisit : Ends (visit visitor tourDepth maxVisits a.sites.size
      ⟨(a.addSite ⟨a.program.id, none, .top, false, 0, false⟩).2, 0, state⟩)
      (fun _ t => Comes a.next a.program t.analysis.program) (Fails a.program) := by
    rw [show maxVisits = 49 + 1 from rfl, visit_eq hroot fun h hmem => by cases hmem]
    refine Ends.bind (children_fold (n := a.program) ha hdepth hroot (Nat.le_refl _)
      (fun fuel' hfuel c hc => ?_) _ _) fun _ t' ht' => ?_
    · have hlt := Node.depth_lt_of_mem hc
      exact sweeps_fold (ha.child hc) (by omega)
    · obtain ⟨n', hprogress, hfold⟩ := ht'
      rw [leave_eq (ignores_of_handles hform).onLeaving]
      obtain ⟨g, -, hg, hprogram⟩ := hprogress.alters.program
      have heq : t'.analysis.program = n' := by
        rw [hprogram, hway]
        exact hg
      have hnone : literalOperands? (n'.forgetNew a.next) = none := by
        refine literalOperands?_of_handles ?_
        rw [Node.forgetNew, Node.form_relabel]
        exact (handles_of_recast hprogress.recast).trans hform
      show Comes a.next a.program t'.analysis.program
      rw [heq, Comes, hfold, reduce, hnone]
  exact run_of_ends hvisit

variable {settings : Settings} {root program : Node}

/-- What the rule alone does to a tree that is numbered as a program is when it is read. -/
theorem applyRules_fold (hactive : RuleName.binary ∉ settings.disabledRules)
    (hform : handles root.form = false) (hordered : root.isOrdered = true)
    (hdepth : root.depth ≤ tourDepth + 1) (hprogram : program = (root.number 1).1) (store : Machine) :
    match foldTree program with
    | .ok folded => ∃ t, applyRules settings [.binary] (.ofProgram program) store = .ok t ∧
        t.analysis.program.forgetNew (program.size + 1) = folded
    | .error h => applyRules settings [.binary] (.ofProgram program) store = .error h.report := by
  have hextends := extends_ofProgram program
  have hread : (ofProgram program).program = program := hextends.program
  have hnext : (ofProgram program).next = program.size + 1 := hextends.next
  have hsize : program.size = root.size := hprogram ▸ Node.size_number root 1
  have htidy : Tidy (ofProgram program).next (ofProgram program).program := by
    rw [hnext, hread, hsize, hprogram]
    exact tidy_number (Node.isSlotted_of_isOrdered hordered)
  have hlow : (ofProgram program).program.depth ≤ tourDepth + 1 := by
    rw [hread, hprogram, Node.depth_number]
    exact hdepth
  have hordered' : program.isOrdered = true := by
    rw [hprogram, Node.isOrdered_number]
    exact hordered
  have hroot : handles (ofProgram program).program.form = false := by
    rw [hread, hprogram, Node.form_number]
    exact hform
  rw [applyRules_eq, visitor_eq hactive]
  rcases run_fold htidy hlow hroot
    ⟨Registry.onStore settings.gate store settings.maxEvalSteps settings.maxCallDepth, .empty⟩ with
    ⟨t, hrun, hcomes⟩ | ⟨e, hrun, hfails⟩
  · rw [Comes, hread, hnext] at hcomes
    rw [hcomes, hrun]
    exact ⟨_, rfl, rfl⟩
  · rw [Fails, hread] at hfails
    obtain ⟨h, hfold, rfl⟩ := hfails hordered'
    rw [hfold, hrun]
    rfl

/-- A tree in which nothing is left to fold stays as it is. -/
theorem applyRules_folded (hactive : RuleName.binary ∉ settings.disabledRules)
    (hform : handles root.form = false) (hordered : root.isOrdered = true)
    (hdepth : root.depth ≤ tourDepth + 1) (hfolded : Folded root)
    (hprogram : program = (root.number 1).1) (store : Machine) :
    ∃ t, applyRules settings [.binary] (.ofProgram program) store = .ok t ∧
      t.analysis.program = program := by
  have hsame : foldTree program = .ok program := by
    refine foldTree_of_folded ?_
    rw [hprogram, ← folded_relabel_iff fun _ => 0, ← Node.unnumbered_eq_relabel, Node.unnumbered_number,
      Node.unnumbered_eq_relabel, folded_relabel_iff]
    exact hfolded
  have hrun := applyRules_fold hactive hform hordered hdepth hprogram store
  rw [hsame] at hrun
  obtain ⟨t, hrun, hforget⟩ := hrun
  refine ⟨t, hrun, Node.eq_of_forgetNew hforget fun i hi => ?_⟩
  rw [hprogram, (Node.identities_number _ 1).1, List.mem_range'_1] at hi
  exact Nat.ne_of_gt hi.1

/-- What became of a tree can be folded again. -/
theorem root_of_foldTree {bound : NodeId} {m folded : Node} (hform : handles root.form = false)
    (hordered : root.isOrdered = true) (hdepth : root.depth ≤ tourDepth + 1)
    (hfold : foldTree root = .ok folded) (hm : m.forgetNew bound = folded) :
    handles m.form = false ∧ m.isOrdered = true ∧ m.depth ≤ tourDepth + 1 ∧ Folded m := by
  subst hm
  refine ⟨?_, ?_, ?_, ?_⟩
  · rw [← Node.form_relabel (fun i => if i < bound then i else 0) m]
    exact handles_of_foldTree hform hfold
  · rw [← Node.isOrdered_relabel (fun i => if i < bound then i else 0) m]
    exact isOrdered_of_foldTree root hordered hfold
  · rw [← Node.depth_relabel (fun i => if i < bound then i else 0) m]
    exact Nat.le_trans (depth_of_foldTree root hfold) hdepth
  · exact (folded_relabel_iff _).mp (folded_of_foldTree root hfold)

/-- The rule alone is the recursion over the tree.  Where the recursion gives a tree, the run ends with this
tree, in which the nodes that took no part kept their identities, and the next run, with other settings and
another store, changes nothing.  Where it fails, the run ends with what is reported of the failure.  That is
an unsupported operator if the recursion met two literals under an operator that is not folded, the printer
knows the operator and both literals can be printed. -/
theorem binary_rule_folds_structurally (hactive : RuleName.binary ∉ settings.disabledRules)
    {body : List Node} (hordered : (Node.program body).isOrdered = true)
    (hdepth : (Node.program body).depth ≤ tourDepth + 1) (store : Machine) :
    let program := ((Node.program body).number 1).1
    let run := applyRules settings [.binary] (.ofProgram program) store
    (∀ folded, foldTree program = .ok folded →
      ∃ t, run = .ok t ∧ t.analysis.program.forgetNew (program.size + 1) = folded ∧
        ∀ settings' store', RuleName.binary ∉ settings'.disabledRules →
          let again := (t.analysis.program.number 1).1
          ∃ t', applyRules settings' [.binary] (.ofProgram again) store' = .ok t' ∧
            t'.analysis.program = again) ∧
    (∀ h, foldTree program = .error h → run = .error h.report) ∧
    ((∃ op source, run = .error (.unsupportedOperator op source)) ↔
      ∃ op n l r, foldTree program = .error (.unfoldable op n) ∧
        literalOperands? n = some (op, l, r) ∧ isFoldable op = false ∧
        (∃ level, Print.operatorLevel? op.symbol = some level) ∧
        Print.Written l ∧ Print.Written r) := by
  intro program run
  have hrun := applyRules_fold hactive rfl hordered hdepth (rfl : program = _) store
  refine ⟨fun folded hfold => ?_, fun h hfold => ?_, ?_, ?_⟩
  · rw [hfold] at hrun
    obtain ⟨t, hok, hforget⟩ := hrun
    refine ⟨t, hok, hforget, fun settings' store' hactive' => ?_⟩
    have hordered' : program.isOrdered = true := (Node.isOrdered_number _ 1).trans hordered
    have hdepth' : program.depth ≤ tourDepth + 1 := (Node.depth_number _ 1).symm ▸ hdepth
    obtain ⟨hform, hagain, hlow, hfolded⟩ := root_of_foldTree rfl hordered' hdepth' hfold hforget
    exact applyRules_folded hactive' hform hagain hlow hfolded rfl store'
  · rw [hfold] at hrun
    exact hrun
  · rintro ⟨op, source, herror⟩
    cases hfold : foldTree program with
    | ok folded =>
      rw [hfold] at hrun
      obtain ⟨t, hok, -⟩ := hrun
      cases hok.symm.trans herror
    | error h =>
      rw [hfold] at hrun
      have hreport := Except.error.inj (hrun.symm.trans herror)
      obtain ⟨n, rfl, hcode⟩ := unfoldable_of_report hreport
      obtain ⟨hop, l, r, hoperands⟩ := operands_of_unfoldable program hfold
      exact ⟨op, n, l, r, rfl, hoperands, hop, (code_ok_iff hoperands).mp hcode⟩
  · rintro ⟨op, n, l, r, hfold, hoperands, -, hwritten⟩
    obtain ⟨source, hcode⟩ := (code_ok_iff hoperands).mpr hwritten
    rw [hfold] at hrun
    refine ⟨op, source, hrun.trans ?_⟩
    simp only [Halt.report, hcode]

/-- `('a' - 2) + (2 - 5) * 0`, one statement of a script. -/
def sumStatement : Node := .expressionStatement none nestedSum

/-- A script of one sum ends as the recursion has it.  NaN is a name, which stops the folding of the sum, and
the zero is negative; the statement and the sum keep their identities, and the operands are new. -/
theorem sumStatement_folds_structurally :
    RuleName.binary ∉ ({} : Settings).disabledRules ∧
      (Node.program [sumStatement]).isOrdered = true ∧
      (Node.program [sumStatement]).depth ≤ tourDepth + 1 ∧
      ∃ t, applyRules {} [.binary] (.ofProgram ((Node.program [sumStatement]).number 1).1) .bare =
          .ok t ∧
        t.analysis.program.forgetNew 12 = .mk 1 .top .program [.mk 2 .body (.expressionStatement none)
          [.mk 3 .expression (.binary .add)
            [.mk 0 .left (.identifier "NaN") [],
             .mk 0 .right (.unary .minus) [.mk 0 .argument (.literal (.number (.real (.ofNat 0)))) []]]]] := by
  have hactive : RuleName.binary ∉ ({} : Settings).disabledRules := by decide
  have hordered : (Node.program [sumStatement]).isOrdered = true := by decide
  have hdepth : (Node.program [sumStatement]).depth ≤ tourDepth + 1 := by decide
  have hfold : foldTree ((Node.program [sumStatement]).number 1).1 =
      .ok (.mk 1 .top .program [.mk 2 .body (.expressionStatement none)
        [.mk 3 .expression (.binary .add)
          [.mk 0 .left (.identifier "NaN") [],
           .mk 0 .right (.unary .minus) [.mk 0 .argument (.literal (.number (.real (.ofNat 0)))) []]]]]) :=
    rfl
  obtain ⟨t, hrun, htree, -⟩ := (binary_rule_folds_structurally hactive hordered hdepth .bare).1 _ hfold
  exact ⟨hactive, hordered, hdepth, t, hrun, htree⟩

end Untangle.Rule.Folding
