import Untangle.Proofs.Inlining.Reasons

set_option autoImplicit false

/-!
# Inlining is complete

Inlining alone changes a program in three ways: names that read a variable give way to the tree of its value,
declarators are taken out, and declarations go with their last declarator.  A declarator goes when all reads
of its variable have given way; so none of them is left, wherever they stand.

The main theorem is `substitution_complete`, at every moment of a run of this rule alone.  It says which
names have given way and to what, but not that the program keeps its meaning: functions are hoisted, and a
read may stand before the declaration.
-/

namespace Untangle

open Analysis (Inlines Rooted Sound Traces givingReads opening)
open Node (Becomes)
open Sandbox (denotedValue isLiteral primitiveNode)

namespace Rule.Inlining

/-! ## The action -/

variable {n : Node} {slot : Role} {scope : ScopeId}

/-- What is inlined has a name and a literal. -/
theorem parts_of_inlineLiteral (h : plan n slot scope = .inlineLiteral) :
    n.child? .id ≠ none ∧ ∃ init, n.child? .init = some init ∧ isLiteral init = true := by
  unfold plan at h
  split at h
  · next name init hname hinit =>
    refine ⟨fun hnone => ?_, init, hinit, ?_⟩
    · rw [hnone] at hname
      cases hname
    · by_contra hliteral
      rw [if_neg hliteral] at h
      split at h
      · cases h
      · split at h
        · split at h <;> cases h
        · split at h <;> cases h
        · cases h
  · cases h

/-- What is moved has a name and a function. -/
theorem parts_of_moveFunction (h : plan n slot scope = .moveFunction) :
    n.child? .id ≠ none ∧ ∃ init, n.child? .init = some init ∧ init.form.isFunction = true := by
  unfold plan at h
  split at h
  · next name init hname hinit =>
    refine ⟨fun hnone => ?_, init, hinit, ?_⟩
    · rw [hnone] at hname
      cases hname
    · split at h
      · cases h
      · split at h
        · cases h
        · split at h
          · next flags hform => rw [hform]; rfl
          · next flags hform => rw [hform]; rfl
          · cases h
  · cases h

/-- A program in which what gave way did so for a reason. -/
def Inlined (root : Node) (a : Analysis) : Prop := ∃ gives, Traces root gives a ∧ Faithful root gives

section Action

variable {root : Node} {gives : NodeId → Option (List Node)} {a a' b : Analysis} {i p : SiteId}
  {v : Sandbox.Value}

/-- Reads give way one after the other. -/
theorem yields_replacements (hstart : Sound (opening root)) (hv : v.isWritable = true)
    (hnames : ∀ name ∈ Sandbox.numberNames, (Analysis.ofProgram root).Unnamed name) {rs : List SiteId}
    (h : Traces root gives a) (hdistinct : rs.Nodup)
    (hrs : ∀ r ∈ rs, r < a.sites.size ∧ (a.site r).node < (Analysis.ofProgram root).next) :
    Yields a (replaceReads (primitiveNode v) rs) fun b =>
      Traces root (fun k => if k ∈ rs.map (fun r => (a.site r).node) then some [primitiveNode v]
        else gives k) b ∧
      ∀ j < a.sites.size, j ∉ rs → (b.site j).node = (a.site j).node := by
  induction rs generalizing a gives with
  | nil =>
    refine .pure ⟨?_, fun _ _ _ => rfl⟩ ()
    simpa using h
  | cons r rs ih =>
    obtain ⟨hr, hdistinct⟩ := List.nodup_cons.mp hdistinct
    have hfirst := hrs r List.mem_cons_self
    refine Yields.bind (.edit fun b hok => hok) fun _ b hok => ?_
    have hb := h.replaced hstart hv hnames hfirst.2 hok
    have hrenews := Analysis.renews_replace h.remains.sound (.new (Analysis.areNew_value v)) hok
    have hsame : ∀ r' ∈ rs, (b.site r').node = (a.site r').node := fun r' hr' =>
      hrenews.others r' (hrs r' (List.mem_cons_of_mem r hr')).1 fun heq => hr (heq ▸ hr')
    have hrest := ih hb hdistinct fun r' hr' => by
      obtain ⟨hknown, hold⟩ := hrs r' (List.mem_cons_of_mem r hr')
      exact ⟨Nat.lt_of_lt_of_le hknown hrenews.stays.size, hsame r' hr' ▸ hold⟩
    have hnodes : rs.map (fun r => (b.site r).node) = rs.map fun r => (a.site r).node :=
      List.map_congr_left hsame
    rw [hnodes] at hrest
    refine fun t ht => (hrest t ht).mono (fun _ t' ht' => ⟨?_, fun j hj hnot => ?_⟩) fun _ h => h
    · have heq : (fun k => if k ∈ (r :: rs).map (fun r => (a.site r).node) then some [primitiveNode v]
          else gives k) = fun k => if k ∈ rs.map (fun r => (a.site r).node) then some [primitiveNode v]
          else Function.update gives (a.site r).node (some [primitiveNode v]) k := by
        funext k
        by_cases hk : k = (a.site r).node
        · subst hk
          simp
        · simp [hk]
      rw [heq]
      exact ht'.1
    · obtain ⟨hne, hnot⟩ := not_or.mp fun h => hnot (List.mem_cons.mpr h)
      exact (ht'.2 j (Nat.lt_of_lt_of_le hj hrenews.stays.size) hnot).trans (hrenews.others j hj hne)

variable (hroot : Script root) (hstart : Sound (opening root)) (h : Traces root gives a)

include hroot hstart h

/-- A declaration without declarators goes. -/
theorem inlined_of_emptied (hf : Faithful root gives) (hempty : Analysis.isEmptyDeclaration (a.nodeAt p) = true)
    (hok : a.removeOne p = .ok a') : Inlined root a' := by
  obtain ⟨old, rest, hattached, hin, -, hrest, htraces⟩ := h.takenOut hstart hok
  have hnode : a.nodeAt p = old := by
    unfold Analysis.nodeAt
    rw [hattached]
  rw [hnode] at hempty
  unfold Analysis.isEmptyDeclaration at hempty
  split at hempty
  · next kind hform =>
    obtain ⟨n, hn, hkind, hkept⟩ := hf.exists_declaration h hin hform
    rw [hkept.id] at htraces
    have hgone : ∀ d ∈ n.childrenAt .declarations, gives d.id = some [] := by
      intro d hd
      obtain ⟨hd, hrole⟩ := Node.mem_childrenAt.mp hd
      refine hkept.children.emptied (fun m hm hslot => ?_) d hd hrole
      have hmem := Node.mem_childrenAt.mpr ⟨hm, hslot⟩
      rw [List.isEmpty_iff.mp hempty] at hmem
      cases hmem
    refine ⟨_, htraces (Analysis.given_opening hstart hn.id_mem).2,
      hf.takenOut hroot hn hkept.stays (.declaration hn hkind (fun d hd => ?_) ?_) fun hother => ?_⟩
    · rw [Function.update_of_ne ?_, hgone d hd]
      intro heq
      cases hkept.stays.symm.trans (heq ▸ hgone d hd)
    · exact hrest.imp_right fun h => h.2
    · cases hkind.symm.trans hother
  · cases hempty

/-- A declarator goes. -/
theorem inlined_of_removed {d : Node} (hd : d.Inside root) (hform : d.form = .variableDeclarator)
    (hi : (a.site i).node = d.id) (hf : Faithful root (Function.update gives d.id (some [])))
    (hok : a.remove i = .ok a') : Inlined root a' := by
  obtain ⟨b, hfirst, hlast⟩ := Analysis.remove_inv hok
  obtain ⟨old, rest, -, hin, hid, hrest, htraces⟩ := h.takenOut hstart hfirst
  have hsame : old.id = d.id := hid.trans hi
  have hold := hsame ▸ (Analysis.given_opening hstart hd.id_mem).2
  obtain ⟨d', hd', hkept⟩ := h.exists_kept hin hold
  cases Node.Inside.eq_of_id hroot.identities hd' hd (hkept.id.symm.trans hsame)
  have hdeclarator : old.form = .variableDeclarator := by
    have hwritten := hkept.form
    rw [hform] at hwritten
    exact Form.eq_of_writesOut hwritten fun _ _ _ _ => nofun
  obtain rfl | ⟨hstatement, -⟩ := hrest
  · have hb := htraces hold
    rw [hsame] at hb
    obtain rfl | ⟨p, hempty, hsecond⟩ := hlast
    · exact ⟨_, hb, hf⟩
    · exact inlined_of_emptied hroot hstart hb hf hempty hsecond
  · rw [hdeclarator] at hstatement
    cases hstatement

/-- A declarator that is moved to the sandbox holds a function. -/
theorem inlined_of_moved (hslots : root.isSlotted = true) (hf : Faithful root gives)
    {init : Node} (hid : (a.nodeAt i).child? .id ≠ none) (hinit : (a.nodeAt i).child? .init = some init)
    (hfunction : init.form.isFunction = true) (hok : a.remove i = .ok a') : Inlined root a' := by
  obtain ⟨b, hfirst, -⟩ := Analysis.remove_inv hok
  obtain ⟨old, rest, hattached, hin, hsite, -, -⟩ := h.takenOut hstart hfirst
  have hnode : a.nodeAt i = old := by
    unfold Analysis.nodeAt
    rw [hattached]
  rw [hnode] at hid hinit
  obtain ⟨d, hd, hform, hkept⟩ := hf.exists_declarator h hslots hin hid (by rw [hinit]; nofun)
  refine inlined_of_removed hroot hstart h hd hform (hsite.symm.trans hkept.id)
    (hf.takenOut hroot hd hkept.stays (.declarator hd hform) fun _ => .inl ?_) hok
  obtain ⟨hmem, hrole⟩ := Node.mem_of_child? hinit
  obtain ⟨init₀, hmem₀, hslot, hkept' | ⟨-, trees, hgives, t, ht, hsame⟩⟩ := hkept.children.mem hmem
  · refine ⟨init₀, Node.mem_childrenAt.mpr ⟨hmem₀, hslot.trans hrole⟩, ?_⟩
    rw [hkept'.form_eq rfl fun _ _ _ hproperty => ?_]
    · exact hfunction
    · rw [hproperty] at hfunction
      cases hfunction
  · -- What takes the place of a read is no function.
    exfalso
    have hform := congrArg Node.form hsame
    rw [Node.form_unnumbered, Node.form_unnumbered, Node.form_inRole] at hform
    rw [hform] at hfunction
    obtain ⟨d, b, v, -, ⟨-, -, _, -, hdenotes⟩, -, rfl⟩ | rfl := (hf.given _ trees hgives).tree ht
    · have hprimitive := (Sandbox.isMark_primitiveNode hdenotes.isWritable (.self _)).1
      generalize (primitiveNode v).form = f at hfunction hprimitive
      cases f with
      | literal | identifier | unary => cases hfunction
      | _ => cases hprimitive
    · cases hfunction

/-- A declarator with a literal is one of the program that sets its variable to the value. -/
theorem exists_sets (hslots : root.isSlotted = true) (hf : Faithful root gives)
    (habove : (a.site i).above ≠ none) (hattached : a.attachedNode? i ≠ none) {init : Node}
    (hid : (a.nodeAt i).child? .id ≠ none) (hinit : (a.nodeAt i).child? .init = some init)
    (hliteral : isLiteral init = true) (hvalue : denotedValue init = .ok v) {name : Text} {s : ScopeId}
    {x : BindingId} (hlookup : a.lookup name s = some x) (hdeclares : a.declarationId x = (a.nodeAt i).id) :
    ∃ d : Node, d.Inside root ∧ d.form = .variableDeclarator ∧ gives d.id = none ∧
      (a.site i).node = d.id ∧ Sets root d x v := by
  obtain ⟨p, habove⟩ := Option.ne_none_iff_exists'.mp habove
  obtain ⟨n, hn⟩ := Option.ne_none_iff_exists'.mp hattached
  have hnode : a.nodeAt i = n := by
    unfold Analysis.nodeAt
    rw [hn]
  rw [hnode] at hid hinit hdeclares
  have hin := Node.inside_of_follow (Analysis.follow_of_attachedNode? hn)
  obtain ⟨d, hd, hform, hkept⟩ := hf.exists_declarator h hslots hin hid (by rw [hinit]; nofun)
  have hsite := Analysis.id_of_attachedNode? hn habove h.remains.sound.ordered
  refine ⟨d, hd, hform, hkept.stays, hsite.symm.trans hkept.id, hd, ?_, ?_⟩
  · -- The declarator is where the variable was declared at first, as its node is old.
    obtain ⟨s', hget⟩ := Analysis.exists_get?_of_lookup hlookup
    obtain ⟨hx, -⟩ := Analysis.name_of_get? hroot (h.names s' name x hget)
    have hold := (Analysis.given_opening hstart hd.id_mem).2
    rw [← hkept.id, ← hdeclares] at hold ⊢
    unfold Analysis.declarationId at hold ⊢
    rw [h.binding_eq] at hold ⊢
    by_contra hne
    have hmoved := h.sites _ (Analysis.seated_ofProgram root x hx) (Ne.symm hne)
    exact absurd hold (Nat.not_lt.mpr hmoved.1)
  · obtain ⟨hmem, hrole⟩ := Node.mem_of_child? hinit
    obtain ⟨init₀, hmem₀, hslot, hdenotes⟩ := hf.denotes hkept.children hmem hliteral hvalue
    exact ⟨init₀, Node.mem_childrenAt.mpr ⟨hmem₀, hslot.trans hrole⟩, hdenotes⟩

/-- A declarator that sets its variable to a value goes after all reads. -/
theorem yields_inlineLiteral (hslots : root.isSlotted = true) (hf : Faithful root gives)
    (hnames : ∀ name ∈ Sandbox.numberNames, (Analysis.ofProgram root).Unnamed name)
    (hi : Rooted a i) {init : Node} (hid : (a.nodeAt i).child? .id ≠ none)
    (hinit : (a.nodeAt i).child? .init = some init) (hliteral : isLiteral init = true) (name : Text) :
    Yields a (inlineLiteral i (a.nodeAt i) name init) (Inlined root) := by
  have hstop : Yields a (pure () : RuleM Unit) (Inlined root) := .pure ⟨gives, h, hf⟩ ()
  unfold inlineLiteral
  refine .ask_bind ?_
  split
  · exact hstop
  next x hlookup =>
  simp only
  split
  · exact hstop
  next hguard =>
  obtain ⟨hdeclares, -⟩ : a.declarationId x = (a.nodeAt i).id ∧ a.isConstant x = true := by
    simpa using hguard
  refine .convert_bind fun value hvalue => ?_
  have ha := h.remains.sound
  have hattic := h.remains.attic (Analysis.atticNumbered_opening root)
  have hremoved : ∀ {b c : Analysis}, Inlines value a b → b.remove i = .ok c →
      Analysis.Remains a b ∧ (a.site i).above ≠ none ∧ a.attachedNode? i ≠ none :=
    fun hreads hok => Analysis.attached_of_removed ha hattic hi hinit hreads hok
  have hrecord : ∀ (m n : Nat) (b : Analysis), Inlined root b →
      Yields b (RuleM.record .literalsInlined m >>= fun _ => RuleM.record .declarationsRemoved n)
        (Inlined root) :=
    fun m n b hb => .after (Still.record _ m) fun _ => .still (Still.record _ n) hb
  by_cases hthere : (a.site i).above ≠ none ∧ a.attachedNode? i ≠ none
  · obtain ⟨d, hd, hform, hgives, hsite, hsets⟩ := exists_sets hroot hstart h hslots hf hthere.1 hthere.2
      hid hinit hliteral hvalue hlookup hdeclares
    have hstays := fun k => hf.read_stays (k := k) hroot hsets.declares hgives
    have hold : ∀ r ∈ a.references x, r < a.sites.size ∧
        (a.site r).node < (Analysis.ofProgram root).next := fun r hr => by
      obtain ⟨hknown, hread⟩ := h.references hroot hstays hr
      obtain ⟨o, ho, -, heq, -, -⟩ := Analysis.exists_name_of_read hroot hread
      exact ⟨hknown, heq ▸ (Analysis.given_opening hstart ho.inside.id_mem).2⟩
    have hloop := yields_replacements hstart (Sandbox.isWritable_of_isLiteral hliteral hvalue) hnames h
      (h.nodup_references hroot x) hold
    refine Yields.bind ((yields_replaceReads value _).and hloop) fun _ b ⟨hreads, hb, hothers⟩ => ?_
    refine Yields.bind (.edit fun c hok => ?_) fun _ c hc => hrecord _ _ c hc
    have hunread : i ∉ a.references x := fun hmem => by
      obtain ⟨name', hname⟩ :=
        form_ne_of_read hroot (hsite ▸ (h.references hroot hstays hmem).2) hsets.inside
      cases hform.symm.trans hname
    exact inlined_of_removed hroot hstart
      (h.givingReads hroot hstart hstays (hremoved hreads hok).1 hb) hd hform
      ((hothers i hi.known hunread).trans hsite) (hf.inlined hroot hform hgives hsets) hok
  · -- A declarator that is not there cannot be taken out.
    refine Yields.bind (yields_replaceReads value _) fun _ b hreads => ?_
    refine Yields.bind (.edit fun c hok => ?_) fun _ c hc => hrecord _ _ c hc
    exact absurd (hremoved hreads hok).2 hthere

/-- Where inlining acts, what gives way does so for a reason. -/
theorem yields_act (hslots : root.isSlotted = true) (hf : Faithful root gives)
    (hnames : ∀ name ∈ Sandbox.numberNames, (Analysis.ofProgram root).Unnamed name) (hi : Rooted a i) :
    Yields a (act i) (Inlined root) := by
  have hstop : Yields a (pure () : RuleM Unit) (Inlined root) := .pure ⟨gives, h, hf⟩ ()
  unfold act
  refine .nodeAt_bind ?_
  refine .ask_bind ?_
  refine .ask_bind ?_
  simp only
  split
  · next init hplan hinit =>
    obtain ⟨hid, init', hinit', hliteral⟩ := parts_of_inlineLiteral hplan
    cases hinit.symm.trans hinit'
    exact yields_inlineLiteral hroot hstart h hslots hf hnames hi hid hinit hliteral _
  · next hplan =>
    obtain ⟨hid, init, hinit, hfunction⟩ := parts_of_moveFunction hplan
    unfold moveFunction
    refine .after (Still.withSandbox _) fun r => .after (Still.contained r) fun moved => ?_
    split
    · have hedit : Yields a (RuleM.edit fun a => a.remove i) (Inlined root) :=
        .edit fun c hok => inlined_of_moved hroot hstart h hslots hf hid hinit hfunction hok
      exact hedit.bind fun _ c hc => .after (Still.record _ _) fun _ => .still (Still.record _ _) hc
    · exact hstop
  · exact hstop

end Action

/-! ## Runs -/

theorem handler_of_declarations {settings : Settings} {h : Handler RuleError RuleState}
    (hmem : h ∈ (RuleName.visitor settings [.declarations]).handlers) : h = handler := by
  simp only [Visitor.handlers, RuleName.visitor, List.mem_append, List.mem_flatMap, List.mem_filter] at hmem
  obtain ⟨r, ⟨hr, -⟩, hmem⟩ | ⟨r, ⟨hr, -⟩, hmem⟩ := hmem
  · cases r with
    | declarations => exact List.mem_singleton.mp hmem
    | _ => cases hmem
  · cases r with
    | declarations => cases hmem
    | _ => exact absurd hr (by decide)

/-- Wherever a run of inlining comes to, what gave way did so for a reason. -/
theorem inlined_of_reaches {settings : Settings} {t t' : Tour RuleState} {root : Node} (hroot : Script root)
    (hstart : Sound (opening root)) (hslots : root.isSlotted = true)
    (hnames : ∀ name ∈ Sandbox.numberNames, (Analysis.ofProgram root).Unnamed name)
    (h : Reaches (RuleName.visitor settings [.declarations]) t t') (ht : Inlined root t.analysis) :
    Inlined root t'.analysis := by
  induction h with
  | here => exact ht
  | counted _ ih => exact ih
  | @sited t' i child listed scope _ hi ih =>
    obtain ⟨gives, htraces, hf⟩ := ih
    exact ⟨gives, htraces.extended hstart
      (Analysis.extends_addSiteBelow t'.analysis i child listed scope)
      (.addSiteBelow _ _ hi.known child listed scope) ⟨rfl, rfl⟩, hf⟩
  | @acted t' t'' h i _ hmem hi hact ih =>
    obtain ⟨gives, htraces, hf⟩ := ih
    cases handler_of_declarations hmem
    have hends := yields_act hroot hstart htraces hslots hf hnames hi t' rfl
    rw [show act i t' = .ok () t'' from hact] at hends
    exact hends

/-- What comes of a program by inlining: some of its nodes gave way, each of them for a reason, and are not
there any more; all others stay, apart from properties that are written out.  The names of numbers that were
put in are read of nothing. -/
def Substituted (root program : Node) : Prop :=
  ∃ gives, Becomes gives (Analysis.ofProgram root).next [root] [program] ∧ Faithful root gives ∧
    (∀ k trees, gives k = some trees → k ∉ program.identities) ∧
    ∀ name ∈ Sandbox.numberNames, ∀ o, Occurrence.Of program o → o.node.form = .identifier name →
      ∀ b, o.node.id ∉ (Analysis.ofProgram program).readNodes b

/-- **Inlining is complete.**  Whatever a run of inlining on a program has come to, and in particular its
result, the program is the first one but for this: reads of variables have given way to trees of the values
to which their declarators set them, and these declarators to nothing, as have declarations without
declarators.  Whenever a declarator is gone it held a function, or all names that were recorded as reads of
its variable have given way to the value; none of them is left, wherever it stood.  It is required that the
program declares neither `NaN` nor `Infinity`, by which numbers are written. -/
theorem substitution_complete (n : Node) (settings : Settings) (store : Sandbox.Machine)
    (hplain : Plain (n.number 1).1) (hslots : n.isSlotted = true)
    (hnames : ∀ name ∈ Sandbox.numberNames, ∀ c, Declared (n.number 1).1 c → c.form ≠ .identifier name) :
    let root := (n.number 1).1
    (∀ t, Reaches (RuleName.visitor settings [.declarations])
      (settings.start (.ofProgram root) store) t → Substituted root t.analysis.program) ∧
    ∀ t, applyRules settings [.declarations] (.ofProgram root) store = .ok t →
      Substituted root t.analysis.program := by
  intro root
  have hstart : Sound (opening root) := sound_start n settings store
  have hdistinct : root.identities.Nodup := Analysis.program_opening root ▸ hstart.numbered.distinct
  have hroot : Script root := hplain.script hdistinct
  have hreached : ∀ t, Reaches (RuleName.visitor settings [.declarations])
      (settings.start (.ofProgram root) store) t → Substituted root t.analysis.program := by
    intro t ht
    obtain ⟨gives, htraces, hf⟩ := inlined_of_reaches hroot hstart ((Node.isSlotted_number n 1).1.trans hslots)
      (fun name hname => Analysis.unnamed_of_undeclared hroot (hnames name hname)) ht
      ⟨_, Analysis.traces_opening hstart, faithful_none root⟩
    refine ⟨gives, htraces.tree, hf, fun k trees hk => ?_, fun name hname => ?_⟩
    · have hmem := (hf.given k trees hk).mem hroot
      have hgone := htraces.tree.gone (Analysis.given_opening hstart hmem).2 hk
      exact fun hmem => hgone (List.mem_append_left _ hmem)
    · exact ((ht.named (named_start n settings store hplain)).unbound (hnames name hname)).2
  refine ⟨hreached, fun t hrun => ?_⟩
  obtain ⟨t₁, t', hend, ht', hsame⟩ | ⟨e, hend, -⟩ := applyRules_reaches n settings [.declarations] store
  · cases hrun.symm.trans hend
    rw [hsame]
    exact hreached t' ht'
  · cases hrun.symm.trans hend

/-! ## A name that is read in a call -/

/-- `s = 'x'` -/
def letterDeclarator : Node :=
  .mk 3 .declarations .variableDeclarator
    [.mk 4 .id (.identifier (Text.of "s")) [], .mk 5 .init (.literal (.string (Text.of "x"))) []]

/-- `var s = 'x';` -/
def letterDeclaration : Node := .mk 2 .body (.variableDeclaration .var) [letterDeclarator]

/-- `var s = 'x'; f(s);` -/
def letterScript : Node :=
  .mk 1 .top .program
    [letterDeclaration,
     .mk 6 .body (.expressionStatement none)
      [.mk 7 .expression .call
        [.mk 8 .callee (.identifier (Text.of "f")) [], .mk 9 .arguments (.identifier (Text.of "s")) []]]]

/-- The site of the program in a run on the script. -/
def letterRoot : SiteId := (Analysis.ofProgram letterScript).sites.size

/-- The run comes to the declarator. -/
def letterTour : Tour RuleState :=
  ((default : Settings).start (.ofProgram letterScript) .bare).descended letterRoot letterDeclaration
    letterDeclarator true

/-- What inlining makes of it. -/
def letterInlined : Tour RuleState := Tour.afterwards (act (letterRoot + 2) letterTour)

theorem plain_letterScript : Plain (letterScript.number 1).1 := plain_of_isPlain rfl (by decide)

/-- The declaration goes, and what was read is the only node that is new. -/
theorem letter_substituted :
    Plain (letterScript.number 1).1 ∧ letterScript.isSlotted = true ∧
      (∀ name ∈ Sandbox.numberNames, ∀ c, Declared (letterScript.number 1).1 c →
        c.form ≠ .identifier name) ∧
      Reaches (RuleName.visitor default [.declarations])
        ((default : Settings).start (.ofProgram letterScript) .bare) letterInlined ∧
      letterInlined.analysis.program.identities = [1, 6, 7, 8, 10] ∧
      Substituted letterScript letterInlined.analysis.program := by
  have hslots : letterScript.isSlotted = true := by decide
  have hnames : ∀ name ∈ Sandbox.numberNames, ∀ c, Declared (letterScript.number 1).1 c →
      c.form ≠ .identifier name := by
    intro name hname c hc hform
    have hother := forall_placed (P := fun c => c.name?.all fun name => !Sandbox.numberNames.contains name)
      (by decide) hc
    rw [Node.name?, hform] at hother
    simp [hname] at hother
  have hreached : Reaches (RuleName.visitor default [.declarations])
      ((default : Settings).start (.ofProgram letterScript) .bare) letterInlined := by
    obtain ⟨hfirst, hi⟩ := reaches_descended (i := letterRoot + 2) .here
      (rooted_start default (Analysis.ofProgram letterScript) .bare) letterDeclaration letterDeclarator true
      (by decide +kernel)
    exact .acted hfirst (List.mem_append_left _ List.mem_cons_self) hi (eq_ok_afterwards (by decide +kernel))
  exact ⟨plain_letterScript, hslots, hnames, hreached, by decide +kernel,
    (substitution_complete letterScript default .bare plain_letterScript hslots hnames).1 _ hreached⟩

end Rule.Inlining

end Untangle
