import Untangle.Proofs.Gating.Substitution
import Untangle.Proofs.Identity.Actions

set_option autoImplicit false

/-!
# The program stays a tree

A run of rules starts with a program whose nodes are told apart.  It counts visits, makes sites below
those that are there, and lets the handlers of the rules act at them; whatever comes of it, no node stands
at two places at any moment of the run, within the actions of the handlers included.

The main theorem is `numbered_throughout`.  Sharing of nodes is stated through identities, which are given
to nodes once and are all different at every moment.
-/

namespace Untangle

open Analysis (Numbered Proceeds Rooted Stays Undergoes)

/-! ## Tours that a run comes to -/

/-- A tour to which another one may come: visits are counted, sites are made below those that are there,
and handlers act at sites that are there. -/
inductive Reaches (v : Visitor RuleError RuleState) (t : Tour RuleState) : Tour RuleState → Prop
  | here : Reaches v t t
  | counted {t' : Tour RuleState} : Reaches v t t' → Reaches v t { t' with visited := t'.visited + 1 }
  | sited {t' : Tour RuleState} (i : SiteId) (child : Node) (listed : Bool) (scope : ScopeId) :
      Reaches v t t' → Rooted t'.analysis i →
      Reaches v t { t' with analysis := (t'.analysis.addSiteBelow i child listed scope).2 }
  | acted {t' t'' : Tour RuleState} {h : Handler RuleError RuleState} {i : SiteId} : Reaches v t t' →
      h ∈ v.handlers → Rooted t'.analysis i → h.act i t' = .ok () t'' → Reaches v t t''

/-- A tour may come to a failure of a handler. -/
def Breaks (v : Visitor RuleError RuleState) (t : Tour RuleState) (e : RuleError) : Prop :=
  ∃ t' t'' h i, Reaches v t t' ∧ h ∈ v.handlers ∧ Rooted t'.analysis i ∧ h.act i t' = .error e t''

variable {settings : Settings} {rules : List RuleName} {t t' t'' : Tour RuleState} {i : SiteId}

theorem Reaches.trans {v : Visitor RuleError RuleState} (h : Reaches v t t') (h' : Reaches v t' t'') :
    Reaches v t t'' := by
  induction h' with
  | here => exact h
  | counted _ ih => exact .counted ih
  | sited i child listed scope _ hi ih => exact .sited i child listed scope ih hi
  | acted _ hmem hi hact ih => exact .acted ih hmem hi hact

/-- What a handler does at a site that is there is done step by step, by trees that may be put in. -/
theorem proceeds_of_handler {h : Handler RuleError RuleState}
    (hmem : h ∈ (RuleName.visitor settings rules).handlers) (ht : t.analysis.Numbered)
    (hi : Rooted t.analysis i) :
    TourM.Leaves (h.act i t) fun t' => Proceeds t.analysis t'.analysis := by
  obtain rfl | rfl | rfl | rfl := handler_cases hmem
  · exact ensures_inlining i t .refl
  · exact ensures_folding i t .refl
  · exact ensures_evaluation hi t rfl
  · exact ensures_unflattening ht settings hi t rfl

theorem undergoes_of_handler {h : Handler RuleError RuleState}
    (hmem : h ∈ (RuleName.visitor settings rules).handlers) (ht : t.analysis.Numbered)
    (hi : Rooted t.analysis i) :
    TourM.Leaves (h.act i t) fun t' => Undergoes t.analysis t'.analysis :=
  (proceeds_of_handler hmem ht hi).mono fun _ hleft => hleft.undergoes ht

theorem undergoes_of_acted {h : Handler RuleError RuleState}
    (hmem : h ∈ (RuleName.visitor settings rules).handlers) (ht : t.analysis.Numbered)
    (hi : Rooted t.analysis i) (hact : h.act i t = .ok () t') : Undergoes t.analysis t'.analysis := by
  have hleft := undergoes_of_handler hmem ht hi
  rwa [hact] at hleft

/-- Wherever a run comes to, the nodes of the program are told apart and the sites that there were stay
below older ones. -/
theorem Reaches.numbered (h : Reaches (RuleName.visitor settings rules) t t')
    (ht : t.analysis.Numbered) : t'.analysis.Numbered ∧ Stays t.analysis t'.analysis := by
  induction h with
  | here => exact ⟨ht, .refl _⟩
  | counted _ ih => exact ih
  | @sited t' i child listed scope _ _ ih =>
    have hextends := Analysis.extends_addSiteBelow t'.analysis i child listed scope
    exact ⟨ih.1.extended hextends, ih.2.trans hextends.stays⟩
  | acted _ hmem hi hact ih =>
    have hchanged := undergoes_of_acted hmem ih.1 hi hact
    exact ⟨hchanged.numbered ih.1, ih.2.trans hchanged.stays⟩

theorem rooted_addSiteBelow {a : Analysis} (hi : Rooted a i) (child : Node) (listed : Bool)
    (scope : ScopeId) : Rooted (a.addSiteBelow i child listed scope).2 a.sites.size := by
  refine ⟨Analysis.known_addSiteBelow .., fun p hp => ?_⟩
  rw [Analysis.site_addSiteBelow] at hp
  cases hp
  exact hi.known

/-- A visit at a site that is there comes to such tours only. -/
theorem journey_reaches (settings : Settings) (rules : List RuleName) :
    TourM.Journey (RuleName.visitor settings rules)
      (fun t i => t.analysis.Numbered ∧ Rooted t.analysis i)
      (Reaches (RuleName.visitor settings rules)) (Breaks (RuleName.visitor settings rules)) where
  refl _ := .here
  trans := Reaches.trans
  fails hreaches := fun ⟨t₁, t₂, h, i, hfirst, hlast⟩ => ⟨t₁, t₂, h, i, hreaches.trans hfirst, hlast⟩
  keeps hreaches := fun ⟨ht, hi⟩ =>
    have ⟨ht', hstays⟩ := hreaches.numbered ht
    ⟨ht', hi.stays hstays⟩
  counted _ := .counted .here
  sited _ i child listed scope hi := .sited i child listed scope .here hi.2
  below t i child listed scope hi :=
    ⟨hi.1.extended (Analysis.extends_addSiteBelow t.analysis i child listed scope),
      rooted_addSiteBelow hi.2 child listed scope⟩
  acted t i h hmem hi := by
    cases hact : h.act i t with
    | ok _ t' => exact .acted .here hmem hi.2 hact
    | error e t' => exact ⟨t, t', h, i, .here, hmem, hi.2, hact⟩

/-- The site of the program, with which a run starts. -/
theorem rooted_start (settings : Settings) (a : Analysis) (store : Sandbox.Machine) :
    Rooted (settings.start a store).analysis a.sites.size := by
  refine ⟨Analysis.known_addSite a _, fun p hp => ?_⟩
  have hsite := Analysis.site_addSite a ⟨a.program.id, none, .top, false, 0, false⟩
  rw [show ((settings.start a store).analysis.site a.sites.size).above = none from
    congrArg Site.above hsite] at hp
  cases hp

/-- A run that has come to a statement of the program. -/
def Settings.startBelow (settings : Settings) (a : Analysis) (store : Sandbox.Machine)
    (statement : Node) : Tour RuleState :=
  let t := settings.start a store
  { t with analysis := (t.analysis.addSiteBelow a.sites.size statement true 0).2 }

theorem startBelow_reached (settings : Settings) (rules : List RuleName) (a : Analysis)
    (store : Sandbox.Machine) (statement : Node) :
    Reaches (RuleName.visitor settings rules) (settings.start a store)
      (settings.startBelow a store statement) :=
  .sited _ _ true 0 .here (rooted_start settings a store)

theorem rooted_startBelow (settings : Settings) (a : Analysis) (store : Sandbox.Machine)
    (statement : Node) : Rooted (settings.startBelow a store statement).analysis (a.sites.size + 1) := by
  have hsize : (settings.start a store).analysis.sites.size = a.sites.size + 1 := Array.size_push _
  rw [← hsize]
  exact rooted_addSiteBelow (rooted_start settings a store) statement true 0

/-- A run on a parsed program comes to its end or to a failure over such tours. -/
theorem applyRules_reaches (n : Node) (settings : Settings) (rules : List RuleName)
    (store : Sandbox.Machine) :
    let a := Analysis.ofProgram (n.number 1).1
    let v := RuleName.visitor settings rules
    (∃ t t', applyRules settings rules a store = .ok t ∧ Reaches v (settings.start a store) t' ∧
      t.analysis = t'.analysis) ∨
      ∃ e, applyRules settings rules a store = .error e ∧ Breaks v (settings.start a store) e := by
  intro a v
  have hstart : (settings.start a store).analysis.Numbered :=
    (Numbered.ofProgram n).extended (Analysis.extends_addSite a _)
  have hrun : (∃ t, v.run a (settings.start a store).state = .ok t ∧
      Reaches v (settings.start a store) t) ∨
      ∃ e, v.run a (settings.start a store).state = .error e ∧ Breaks v (settings.start a store) e :=
    (journey_reaches settings rules).run ⟨hstart, rooted_start settings a store⟩
  have happly : applyRules settings rules a store = (v.run a (settings.start a store).state >>= fun t =>
    return t.counted) := applyRules_eq settings rules a store
  rw [happly]
  obtain ⟨t, hend, hreaches⟩ | ⟨e, hend, hbreaks⟩ := hrun
  · refine .inl ⟨t.counted, t, ?_, hreaches, rfl⟩
    rw [hend]
    rfl
  · refine .inr ⟨e, ?_, hbreaks⟩
    rw [hend]
    rfl

/-- **The program stays a tree.**  A run of some rules on a parsed program comes to its end or to a
failure over tours in which every node of the program has an identity of its own.  So it is within the
actions of the handlers: whether an action succeeds or fails, what it does to the program is done step by
step, each of which keeps the nodes apart.  In particular statements that are copied, arguments that are
moved and values that are put in several times are different nodes. -/
theorem numbered_throughout (n : Node) (settings : Settings) (rules : List RuleName)
    (store : Sandbox.Machine) :
    let a := Analysis.ofProgram (n.number 1).1
    let v := RuleName.visitor settings rules
    let t₀ := settings.start a store
    (∀ t, Reaches v t₀ t → t.analysis.Numbered ∧
      ∀ h ∈ v.handlers, ∀ i, Rooted t.analysis i →
        TourM.Leaves (h.act i t) fun t' => Undergoes t.analysis t'.analysis) ∧
    ((∃ t t', applyRules settings rules a store = .ok t ∧ Reaches v t₀ t' ∧
      t.analysis = t'.analysis) ∨ ∃ e, applyRules settings rules a store = .error e ∧ Breaks v t₀ e) := by
  intro a v t₀
  have hstart : t₀.analysis.Numbered :=
    (Numbered.ofProgram n).extended (Analysis.extends_addSite a _)
  refine ⟨fun t ht => ?_, applyRules_reaches n settings rules store⟩
  have hnumbered := (ht.numbered hstart).1
  exact ⟨hnumbered, fun h hmem i hi => undergoes_of_handler hmem hnumbered hi⟩

/-! ## A case that is taken twice -/

/-- `for (s = 'a', u = 'a'; ; ) { switch (s) { case 'a': f(); s = u; u = ''; continue; } }` -/
def repeatedLoop : Node :=
  let set (name : Text) (value : Node) : Node := Node.assignment .plain (Node.ident name) value
  let letter := Node.literal (.string (Text.of "a"))
  let case := Node.switchCase (some letter)
    [Node.expressionStatement none (Node.call (Node.ident "f") []),
      Node.expressionStatement none (set (Text.of "s") (Node.ident "u")),
      Node.expressionStatement none (set (Text.of "u") (Node.literal (.string []))),
      Node.continueStatement none]
  Node.forStatement (some (Node.sequence [set (Text.of "s") letter, set (Text.of "u") letter])) none none
    (Node.block [Node.switchStatement (Node.ident "s") [case]])

/-- The program that consists of the loop. -/
def repeatedScript : Node := Node.program [repeatedLoop]

/-- The analysis of the program. -/
def repeatedAnalysis : Analysis := .ofProgram (repeatedScript.number 1).1

/-- A run on the program comes to the loop. -/
def repeatedTour : Tour RuleState :=
  (default : Settings).startBelow repeatedAnalysis .bare (repeatedScript.number 1).1.children.head!

theorem repeatedTour_reached :
    Reaches (RuleName.visitor default RuleName.all)
      ((default : Settings).start repeatedAnalysis .bare) repeatedTour :=
  startBelow_reached default RuleName.all repeatedAnalysis .bare _

/-- The case gives its statement and a copy of it, which is another node. -/
theorem repeatedLoop_numbered : ∃ t',
    Rule.Unflattening.act default (repeatedAnalysis.sites.size + 1) repeatedTour = .ok () t' ∧
      t'.analysis.program.identities = [1, 15, 16, 17, 27, 28, 29] ∧
      Undergoes repeatedTour.analysis t'.analysis ∧ t'.analysis.Numbered := by
  have hthroughout := (numbered_throughout repeatedScript default RuleName.all .bare).1
  have hmem : Rule.Unflattening.handler default ∈
      (RuleName.visitor default RuleName.all).handlers :=
    List.mem_append_right _ (List.mem_flatMap.mpr ⟨.loops, by decide, List.mem_singleton.mpr rfl⟩)
  have hrooted : Rooted repeatedTour.analysis (repeatedAnalysis.sites.size + 1) :=
    rooted_startBelow default repeatedAnalysis .bare _
  have hends : hasSucceeded (Rule.Unflattening.act default (repeatedAnalysis.sites.size + 1)
      repeatedTour) = true := by decide +kernel
  have hidentities : (Tour.afterwards (Rule.Unflattening.act default
      (repeatedAnalysis.sites.size + 1) repeatedTour)).analysis.program.identities =
        [1, 15, 16, 17, 27, 28, 29] := by decide +kernel
  have hundergoes := (hthroughout repeatedTour repeatedTour_reached).2 _ hmem _ hrooted
  change TourM.Leaves (Rule.Unflattening.act default _ repeatedTour) _ at hundergoes
  revert hends hidentities hundergoes
  cases hact : Rule.Unflattening.act default (repeatedAnalysis.sites.size + 1) repeatedTour with
  | ok _ t' =>
    intro _ hidentities hundergoes
    exact ⟨t', rfl, hidentities, hundergoes,
      (hthroughout t' (.acted repeatedTour_reached hmem hrooted hact)).1⟩
  | error e t' => exact fun hends => by cases hends

end Untangle
