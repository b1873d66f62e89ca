import Untangle.Proofs.Identity.Remaining
import Untangle.Proofs.Scoping.Resolving

set_option autoImplicit false

/-!
# Dispatch variables outside of their loop

A loop is taken apart only if the places where its variables are read stand in it.  What is read is looked
up in the records, which hold what is declared.  A name that was in the program from the beginning, with all
that stands around it, is recorded where it was at first, so that a loop which is taken apart has all such
names that read its variables within.  The records do not show the others: names that no declaration belongs
to, names that are written, and names that were moved, which are looked up anew.

The main theorem is `variables_unread_outside`.  It does not say that the loop may be taken apart without
harm to the names that the records do not show; these are left out of what the rule checks.
-/

namespace Untangle

variable {root : Node} {a a₀ : Analysis} {o : Occurrence} {s : Node} {name : Text} {b : BindingId}
  {i : SiteId} {settings : Settings} {rules : List RuleName} {t t' : Tour RuleState}

/-- A name at which what a node declares is read. -/
structure Occurrence.Reads (root : Node) (o : Occurrence) (s : Node) (name : Text) : Prop where
  of : Occurrence.Of root o
  form : o.node.form = .identifier name
  used : Used root .read o.node
  innermost : Innermost (fun e => e.HasName root name) o.around s

/-- A node and all nodes around it are in the program. -/
def Occurrence.InPlace (root : Node) (a : Analysis) (o : Occurrence) : Prop :=
  ∀ m : Node, o.node.Inside m → m.Inside root → m.id ∈ a.program.identities

namespace Analysis

/-! ## Names that are read -/

/-- A scope has one binding of a name. -/
theorem BindingOf.unique {b' : BindingId} (h : Founded root a₀) (hb : BindingOf a₀ s name b)
    (hb' : BindingOf a₀ s name b') : b = b' := by
  obtain ⟨-, -, -, hget⟩ := h.bindings b hb.known
  obtain ⟨-, -, -, hget'⟩ := h.bindings b' hb'.known
  rw [hb.name] at hget
  rw [hb'.name, ← hb.scope.unique h hb'.scope] at hget'
  exact Option.some.inj (hget.symm.trans hget')

theorem SameNames.bindingOf_iff (h : SameNames a₀ a) :
    BindingOf a s name b ↔ BindingOf a₀ s name b := by
  refine ⟨fun hb => ?_, h.bindingOf⟩
  obtain ⟨hknown, hname, hopened, hnode⟩ := hb
  refine ⟨h.size ▸ hknown, (h.bindings b).1.symm.trans hname, ?_, ?_⟩
  · rw [← h.scopes, ← (h.bindings b).2]
    exact hopened
  · rw [← (h.bindings b).2, scope, ← h.scopes]
    exact hnode

/-- A name at which what a node declares is read refers to it. -/
theorem refers_of_reads (hroot : Script root) (hs : Settled root a₀) (ho : o.Reads root s name)
    (hb : BindingOf a₀ s name b) : Refers a₀ o b := by
  obtain ⟨k, hk⟩ := hs.exists_represents hroot ho.of ho.form
  obtain ⟨s', b', hs', hlookup, hb'⟩ | ⟨hnone, -⟩ :=
    lookup_innermost hroot hs name (fun e he => ho.of.opener_inside he) hk
  · obtain rfl := hs'.unique ho.innermost
    obtain rfl := hb'.unique hs.founded hb
    exact ⟨name, k, ho.form, hk, hlookup⟩
  · exact absurd ho.innermost (hnone s)

/-- It is recorded at a site that leads to it. -/
theorem readAt_of_reads (hroot : Script root) (ho : o.Reads root s name)
    (hb : BindingOf (ofProgram root) s name b) :
    ∃ j, ReadAt (ofProgram root) b o.node.id j ((ofProgram root).way j) := by
  obtain ⟨a₀, hs, hrecorded, hpass⟩ := exists_settled hroot
  have hrefers := refers_of_reads hroot hs ho (hrecorded.same.bindingOf_iff.mp hb)
  obtain ⟨j, m, hj, hm, hid⟩ := records_of_refers hroot hs hpass ho.of (.inl rfl) ho.used hrefers
  exact ⟨j, hj, hm.known, hm.node.trans hid, hm.retired, rfl, m, hm.follow, hid⟩

/-- What stands around a name lies on the way to it. -/
theorem undisturbed_of_inPlace {j : SiteId} {w : Way} (hroot : Script root)
    (hread : ReadAt (ofProgram root) b o.node.id j w) (ho : o.node.Inside root)
    (hplace : o.InPlace root a) : Undisturbed a w := by
  obtain ⟨m, hm, hid⟩ := hread.leads
  rw [(extends_ofProgram root).program] at hm
  obtain rfl := Node.Inside.eq_of_id hroot.identities (Node.inside_of_follow hm) ho hid
  intro step hstep
  obtain ⟨c, hc, d, hd, hin, hid⟩ := Node.exists_around_of_follow hm hstep
  rw [← hid]
  exact hplace d hin (hd.trans (.child hc))

/-- Around the initializer of a loop a name is looked up in the scope of the loop. -/
theorem exists_lookup_of_innermost {l : Occurrence} (hroot : Script root) (hl : Occurrence.Of root l)
    (hform : l.node.form = .forStatement)
    (hs : Innermost (fun e => e.HasName root name) (l.aroundAt .init) s) :
    ∃ b k, BindingOf (ofProgram root) s name b ∧ (ofProgram root).opened.get? l.node.id = some k ∧
      (ofProgram root).lookup name k = some b := by
  obtain ⟨a₀, hsettled, hrecorded, -⟩ := exists_settled hroot
  have haround : l.aroundAt .init = ⟨l.node, .body⟩ :: l.around := by
    unfold Occurrence.aroundAt
    rw [hform]
    rfl
  obtain ⟨k', hk'⟩ := hsettled.opened l hl (by unfold HasScope; rw [hform]; exact ⟨rfl, rfl⟩)
  have hopened := hsettled.founded.scopes k' hk'.known
  rw [hk'.node] at hopened
  obtain ⟨l', hl', hid, -, hrep⟩ := hsettled.founded.opened _ k' hopened
  obtain rfl := hl'.unique_of_id hroot.identities hl hid
  rw [haround] at hs
  have hinside : ∀ e ∈ (⟨l'.node, .body⟩ :: l'.around : List Enclosure), e.opener.Inside root := by
    intro e he
    obtain rfl | he := List.mem_cons.mp he
    · exact hl.inside
    · exact hl.opener_inside he
  obtain ⟨s', b, hs', hlookup, hb⟩ | ⟨hnone, -⟩ :=
    lookup_innermost hroot hsettled name hinside (hrep .body)
  · obtain rfl := hs'.unique hs
    refine ⟨b, k', hrecorded.same.bindingOf hb, ?_, ?_⟩
    · rw [hrecorded.same.opened]
      exact hopened
    · rw [hrecorded.same.lookup_eq]
      exact hlookup
  · exact absurd hs (hnone s)

end Analysis

namespace Dispatch

/-- A loop that is taken apart has none of its variables read outside. -/
theorem not_readOutside_of_unflatten {loop : Loop} {readOutside : List Text → Bool}
    {maxDispatches : Nat} {r r' : Sandbox.Registry} {out : List Node}
    (h : (unflatten loop readOutside maxDispatches).run r = .ok out r') :
    readOutside (stateNames loop.init) = false := by
  unfold unflatten EStateM.run at h
  simp only at h
  split at h
  · cases h
  split at h
  · cases h
  · next houtside => simpa using houtside

end Dispatch

namespace Rule.Unflattening

open Analysis (BindingOf)

/-! ## Loops that are taken apart -/

/-- The scope in which the names of the initializer of a loop are looked up. -/
def loopScope (a : Analysis) (i : SiteId) : ScopeId :=
  (a.scopeOpenedBy? (a.nodeAt i).id).getD (a.site i).scope

/-- The loop of a site is taken apart, which is counted. -/
def TakesApart (settings : Settings) (i : SiteId) (t t' : Tour RuleState) : Prop :=
  act settings i t = .ok () t' ∧
    t'.state.stats.get? .loopsUnflattened ≠ t.state.stats.get? .loopsUnflattened

/-- A loop that is taken apart has the shape of one, and none of its variables is read outside. -/
theorem TakesApart.exists_loop (h : TakesApart settings i t t') :
    ∃ loop, Dispatch.Loop.ofNode? (t.analysis.nodeAt i) = some loop ∧
      isReadOutside t.analysis (t.analysis.nodeAt i) (loopScope t.analysis i)
        (Dispatch.stateNames loop.init) = false := by
  obtain ⟨hact, hcount⟩ := h
  unfold act RuleM.nodeAt at hact
  rw [TourM.ask_bind] at hact
  cases hloop : Dispatch.Loop.ofNode? (t.analysis.nodeAt i) with
  | none =>
    rw [hloop] at hact
    cases hact
    exact absurd rfl hcount
  | some loop =>
    refine ⟨loop, rfl, ?_⟩
    rw [hloop] at hact
    simp only at hact
    rw [TourM.ask_bind] at hact
    obtain ⟨r, t₁, hsandbox, hact⟩ := bind_eq_ok.mp hact
    rw [withSandbox_eq] at hsandbox
    cases hsandbox
    generalize hrun : EStateM.run _ t.provided = result at hact
    cases result with
    | ok statements store => exact Dispatch.not_readOutside_of_unflatten hrun
    | error stop store =>
      cases stop with
      | obstacle o =>
        cases hact
        exact absurd (Dict.get?_put_of_ne _ (by decide) _) hcount
      | unprintable r => cases hact
      | fault f => cases hact

/-- What is read in the loop alone. -/
theorem mem_ids_of_not_readOutside {n : Node} {k : ScopeId} {names : List Text} {id : NodeId}
    (h : isReadOutside a n k names = false) (hname : name ∈ names) (hb : a.lookup name k = some b)
    (hid : id ∈ a.readNodes b) : id ∈ n.ids := by
  obtain ⟨j, hj, rfl⟩ := List.mem_map.mp hid
  have hnone := List.any_eq_false.mp h name hname
  rw [hb] at hnone
  have hinner := List.any_eq_false.mp (Bool.eq_false_iff.mpr hnone) j hj
  simpa using hinner

/-- **No variable of a loop that is taken apart is read outside of it.**  Whenever a run of some rules on a
program takes a loop apart, whatever it did before, the names that read what one of the variables of the
loop is bound to, and that are still where they were in the program, stand in the loop.  Until names are
declared anew or forgotten, this is what the variable designates in the initializer.  Nothing is said of
variables without a declaration, which are bound to nothing, of names that are written, and of names that
were moved before: they are looked up from where they came to stand, which may lead elsewhere. -/
theorem variables_unread_outside (n : Node) (settings : Settings) (rules : List RuleName)
    (store : Sandbox.Machine) (hroot : Script (n.number 1).1) :
    let root := (n.number 1).1
    let a := Analysis.ofProgram root
    ∀ t t' i, Reaches (RuleName.visitor settings rules) (settings.start a store) t →
      TakesApart settings i t t' →
      ∃ loop, Dispatch.Loop.ofNode? (t.analysis.nodeAt i) = some loop ∧
        ∀ x ∈ Dispatch.stateNames loop.init,
          (∀ (b : BindingId) (s : Node) (name : Text) (o : Occurrence),
            t.analysis.lookup x (loopScope t.analysis i) = some b → BindingOf a s name b →
            o.Reads root s name → o.InPlace root t.analysis →
            o.node.id ∈ (t.analysis.nodeAt i).ids) ∧
          ∀ (l : Occurrence) (s : Node) (o : Occurrence), Occurrence.Of root l →
            l.node.form = .forStatement → l.node.id = (t.analysis.nodeAt i).id →
            t.analysis.scopes = a.scopes → t.analysis.opened = a.opened →
            Innermost (fun e => e.HasName root x) (l.aroundAt .init) s →
            o.Reads root s x → o.InPlace root t.analysis →
            o.node.id ∈ (t.analysis.nodeAt i).ids := by
  intro root a t t' i hreaches happart
  obtain ⟨loop, hloop, houtside⟩ := happart.exists_loop
  refine ⟨loop, hloop, fun name hname => ?_⟩
  have hbound : ∀ (b : BindingId) (s : Node) (name' : Text) (o : Occurrence),
      t.analysis.lookup name (loopScope t.analysis i) = some b → BindingOf a s name' b →
      o.Reads root s name' → o.InPlace root t.analysis →
      o.node.id ∈ (t.analysis.nodeAt i).ids := by
    intro b s name' o hlookup hb ho hplace
    obtain ⟨j, hfirst⟩ := Analysis.readAt_of_reads hroot ho hb
    have hstart := hfirst.extended
      (Analysis.extends_addSite a ⟨a.program.id, none, .top, false, 0, false⟩) hfirst.recorded
    have hread := (hreaches.remains (sound_start n settings store)).reads _ _ _ _ hstart
      (Analysis.undisturbed_of_inPlace hroot hfirst ho.of.inside hplace)
    exact mem_ids_of_not_readOutside houtside hname hlookup hread.mem_readNodes
  refine ⟨hbound, fun l s o hl hform hid hscopes hopened hinner ho hplace => ?_⟩
  obtain ⟨b, k, hb, hk, hlookup⟩ := Analysis.exists_lookup_of_innermost hroot hl hform hinner
  have hscope : loopScope t.analysis i = k := by
    unfold loopScope Analysis.scopeOpenedBy?
    rw [hopened, ← hid, hk]
    rfl
  refine hbound b s name o ?_ hb ho hplace
  rw [hscope, Analysis.lookup_congr hscopes, hlookup]

/-! ## A loop with a test -/

/-- `let s = true` -/
def testedInit : Node :=
  .mk 3 .init (.variableDeclaration .lexical)
    [.mk 4 .declarations .variableDeclarator
      [.mk 5 .id (.identifier (Text.of "s")) [], .mk 6 .init (.literal (.bool true)) []]]

/-- `for (let s = true; s; ) { switch (s) { case true: f(); break; } break; }` -/
def testedLoop : Node :=
  .mk 2 .body .forStatement
    [testedInit, .mk 7 .test (.identifier (Text.of "s")) [],
     .mk 8 .body .blockStatement
      [.mk 9 .body .switchStatement
        [.mk 10 .discriminant (.identifier (Text.of "s")) [],
         .mk 11 .cases .switchCase
          [.mk 12 .test (.literal (.bool true)) [],
           .mk 13 .consequent (.expressionStatement none)
            [.mk 14 .expression .call [.mk 15 .callee (.identifier (Text.of "f")) []]],
           .mk 16 .consequent .breakStatement []]],
       .mk 17 .body .breakStatement []]]

/-- The program that consists of the loop. -/
def testedScript : Node := .mk 1 .top .program [testedLoop]

/-- The loop, and the test in which its variable is read. -/
def testedOccurrence : Occurrence := (⟨testedScript, none, []⟩ : Occurrence).child testedLoop

def testedTest : Occurrence := testedOccurrence.child (.mk 7 .test (.identifier (Text.of "s")) [])

theorem script_tested : Script testedScript := ⟨rfl, by decide, by decide⟩

theorem of_tested : Occurrence.Of testedScript testedOccurrence := .child .root List.mem_cons_self rfl

theorem innermost_tested : Innermost (fun e => e.HasName testedScript (Text.of "s"))
    (testedOccurrence.aroundAt .init) testedLoop := by
  have hdeclaration : Occurrence.Of testedScript (testedOccurrence.child testedInit) :=
    .child of_tested List.mem_cons_self rfl
  exact .here ⟨.body, _, _, hdeclaration,
    .declarator rfl List.mem_cons_self List.mem_cons_self rfl⟩

/-- The test reads what the initializer declares. -/
theorem reads_tested : testedTest.Reads testedScript testedLoop (Text.of "s") := by
  have hmem : Node.mk 7 .test (.identifier (Text.of "s")) [] ∈ testedLoop.children :=
    List.mem_cons_of_mem _ List.mem_cons_self
  have hroot : ∀ name, testedScript.form ≠ .identifier name := fun _ h => by cases h
  have hloop : ∀ name, testedLoop.form ≠ .identifier name := fun _ h => by cases h
  exact ⟨.child of_tested hmem rfl, rfl,
    (Used.child .root hroot List.mem_cons_self).child hloop hmem, innermost_tested⟩

/-- The analysis of the program. -/
def testedAnalysis : Analysis := .ofProgram testedScript

/-- A run on the program comes to the loop. -/
def testedTour : Tour RuleState := (default : Settings).startBelow testedAnalysis .bare testedLoop

theorem program_testedTour : testedTour.analysis.program = testedScript :=
  (Analysis.extends_ofProgram testedScript).program

theorem nodeAt_testedTour :
    testedTour.analysis.nodeAt (testedAnalysis.sites.size + 1) = testedLoop := by
  have hretired : (testedTour.analysis.site (testedAnalysis.sites.size + 1)).retired = false := by
    decide +kernel
  have hway : testedTour.analysis.way (testedAnalysis.sites.size + 1) = [⟨.body, 2⟩] := by decide +kernel
  unfold Analysis.nodeAt Analysis.attachedNode?
  rw [hretired, hway, program_testedTour]
  rfl

theorem testedTour_takesApart :
    ∃ t', TakesApart default (testedAnalysis.sites.size + 1) testedTour t' := by
  have hends : hasSucceeded (act default (testedAnalysis.sites.size + 1) testedTour) = true := by
    decide +kernel
  have hcount : (Tour.afterwards (act default (testedAnalysis.sites.size + 1)
      testedTour)).state.stats.get? .loopsUnflattened ≠
        testedTour.state.stats.get? .loopsUnflattened := by decide +kernel
  revert hends hcount
  cases hact : act default (testedAnalysis.sites.size + 1) testedTour with
  | ok _ t' => exact fun _ hcount => ⟨t', hact, hcount⟩
  | error e t' => exact fun hends => by cases hends

/-- The loop is taken apart, and the test stands in it. -/
theorem testedTest_inside :
    Script testedScript ∧
      Reaches (RuleName.visitor default RuleName.all)
        ((default : Settings).start testedAnalysis .bare) testedTour ∧
      (∃ t', TakesApart default (testedAnalysis.sites.size + 1) testedTour t') ∧
      testedTest.Reads testedScript testedLoop (Text.of "s") ∧
      testedTest.InPlace testedScript testedTour.analysis ∧
      testedTest.node.id ∈ (testedTour.analysis.nodeAt (testedAnalysis.sites.size + 1)).ids := by
  have hnumber : (testedScript.number 1).1 = testedScript := rfl
  have hreached := startBelow_reached default RuleName.all testedAnalysis .bare testedLoop
  have hplace : testedTest.InPlace testedScript testedTour.analysis := by
    intro m _ hm
    rw [program_testedTour]
    exact hm.id_mem
  obtain ⟨t', happart⟩ := testedTour_takesApart
  have hunread := variables_unread_outside testedScript default RuleName.all .bare script_tested
  rw [hnumber] at hunread
  obtain ⟨loop, hloop, hvariables⟩ := hunread testedTour t' _ hreached happart
  have hname : Text.of "s" ∈ Dispatch.stateNames loop.init := by
    rw [nodeAt_testedTour] at hloop
    cases hloop
    decide
  refine ⟨script_tested, hreached, ⟨t', happart⟩, reads_tested, hplace, ?_⟩
  exact (hvariables _ hname).2 testedOccurrence testedLoop testedTest of_tested rfl
    (congrArg Node.id nodeAt_testedTour).symm rfl rfl innermost_tested reads_tested hplace

end Rule.Unflattening

end Untangle
