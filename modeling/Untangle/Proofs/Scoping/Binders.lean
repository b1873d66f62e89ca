import Untangle.Proofs.Analysis.Placement
import Untangle.Proofs.Scoping.Resolving

set_option autoImplicit false

/-!
# The names that a program declares

Names are declared by identifiers in certain slots, and by the parts of patterns there.  A change of the
program by which a child gives way to others adds none, if neither the child stood in such a slot nor the
others bring declarations of their own.  Whatever name no identifier declares is found by no lookup.
-/

namespace Untangle

/-! ## Plain programs -/

namespace Form

/-- The slot of a declaration that holds its declarators. -/
def listsAt (f : Form) (r : Role) : Bool :=
  match f, r with
  | .variableDeclaration _, .declarations => true
  | _, _ => false

/-- Names, patterns and parts of patterns. -/
def isNaming : Form → Bool
  | .identifier _ | .hole => true
  | .arrayPattern | .objectPattern | .assignmentPattern | .rest | .property _ _ _ _ => true
  | _ => false

/-- Slots in which something is declared or assigned, or a declaration is repeated. -/
def aimsAt (f : Form) (r : Role) : Bool :=
  f.declaresAt r || match f, r with
    | .assignment _, .left | .update _ _, _ | .forInStatement, .left | .forOfStatement, .left => true
    | _, _ => false

def isDeclarator : Form → Bool
  | .variableDeclarator => true
  | _ => false

/-- The forms of trees that are put in the place of an expression or a declaration. -/
def isSubstitute : Form → Bool
  | .literal _ | .identifier _ | .unary _ | .binary _ | .arrayExpression | .objectExpression => true
  | .emptyStatement => true
  | _ => false

variable {f : Form}

theorem eq_of_isDeclarator (h : f.isDeclarator = true) : f = .variableDeclarator := by
  cases f with
  | variableDeclarator => rfl
  | _ => cases h

theorem isTarget_of_isSubstitute (h : f.isSubstitute = true) :
    f.isTarget = true ∧ ∀ r, f.partsAt r = false := by
  cases f with
  | literal | identifier | unary | binary | arrayExpression | objectExpression | emptyStatement =>
    exact ⟨rfl, fun _ => rfl⟩
  | _ => cases h

theorem aimsAt_of_target {r : Role} {child : Form} (h : f.declaresAt r ∨ f.assignsAt r child) :
    f.aimsAt r = true := by
  unfold aimsAt
  rw [Bool.or_eq_true]
  refine h.imp_right fun h => ?_
  unfold assignsAt at h
  split at h
  all_goals first
    | rfl
    | cases h

/-- No statement is a name. -/
theorem isNaming_of_isStatementLike (h : f.isStatementLike = true) : f.isNaming = false := by
  cases f with
  | identifier | hole | arrayPattern | objectPattern | assignmentPattern | rest | property => cases h
  | _ => rfl

end Form

/-- A declarator in a declaration. -/
def Listed (root : Node) : Node → Prop := Placed root fun f r _ => f.listsAt r

/-- What stands where something is declared or assigned. -/
def Aimed (root : Node) : Node → Prop := Placed root fun f r _ => f.aimsAt r

theorem enduring_declared : Enduring fun f r _ => f.declaresAt r where
  writesOut := fun hf _ h => hf.declaresAt_eq ▸ h
  handsOut := fun {f r _} h => by
    cases f with
    | variableDeclarator | functionDeclaration | functionExpression | arrowFunction
    | classDeclaration | classExpression | catchClause => rfl
    | _ => cases h

theorem enduring_listed : Enduring fun f r _ => f.listsAt r where
  writesOut := fun hf _ h => by
    cases hf
    · exact h
    · cases h
  handsOut := fun {f r _} h => by
    cases f with
    | variableDeclaration => rfl
    | _ => cases h

theorem enduring_aimed : Enduring fun f r _ => f.aimsAt r where
  writesOut := fun hf _ h => by
    cases hf <;> exact h
  handsOut := fun {f r c} h => by
    cases f with
    | variableDeclarator | functionDeclaration | functionExpression | arrowFunction
    | classDeclaration | classExpression | catchClause => rfl
    | assignment | update | forInStatement | forOfStatement => rfl
    | _ => cases h

theorem aimed_of_target {root n : Node} (h : Target root n) : Aimed root n := by
  induction h with
  | slot hn hc hat => exact .slot hn hc (Form.aimsAt_of_target hat)
  | part _ hc hpart ih => exact .part ih hc hpart

theorem aimed_of_declared {root n : Node} (h : Declared root n) : Aimed root n := by
  induction h with
  | @slot p c hn hc hat =>
    have htarget : p.form.declaresAt c.role ∨ p.form.assignsAt c.role c.form := .inl hat
    exact .slot hn hc (Form.aimsAt_of_target htarget)
  | part _ hc hpart ih => exact .part ih hc hpart

/-- A program in which only names and patterns are declared, declarations consist of declarators, and
something is assigned only to what can be assigned. -/
structure Plain (root : Node) : Prop where
  program : root.form = .program
  targets : ∀ n, Aimed root n → n.form.isTarget = true ∧ n.child? .body = none
  names : ∀ n, Declared root n → n.form.isNaming = true ∧ n.child? .callee = none
  declarators : ∀ n, Listed root n →
    n.form = .variableDeclarator ∧ n.child? .callee = none ∧ n.child? .body = none

/-- A test by which programs are seen to be plain. -/
def Node.isPlain (root : Node) : Bool :=
  root.passesAt Form.aimsAt (fun n => n.form.isTarget && (n.child? .body).isNone) &&
  root.passesAt Form.declaresAt (fun n => n.form.isNaming && (n.child? .callee).isNone) &&
  root.passesAt Form.listsAt fun n =>
    n.form.isDeclarator && (n.child? .callee).isNone && (n.child? .body).isNone

theorem plain_of_isPlain {root : Node} (hprogram : root.form = .program) (h : root.isPlain = true) :
    Plain root := by
  simp only [Node.isPlain, Bool.and_eq_true] at h
  obtain ⟨⟨htargets, hnames⟩, hdeclarators⟩ := h
  refine ⟨hprogram, fun n hn => ?_, fun n hn => ?_, fun n hn => ?_⟩
  · simpa using forall_placed htargets hn
  · simpa using forall_placed hnames hn
  · have hall := forall_placed hdeclarators hn
    simp only [Bool.and_eq_true, Option.isNone_iff_eq_none] at hall
    exact ⟨Form.eq_of_isDeclarator hall.1.1, hall.1.2, hall.2⟩

namespace Plain

variable {root : Node} (h : Plain root)

include h

/-- What is neither a name nor a declarator declares nothing. -/
theorem undeclared {n : Node} (hnaming : n.form.isNaming = false) (hform : n.form ≠ .variableDeclarator) :
    ¬ Declared root n ∧ ¬ Listed root n :=
  ⟨fun hn => Bool.false_ne_true (hnaming.symm.trans (h.names n hn).1),
    fun hn => hform (h.declarators n hn).1⟩

/-- Nothing with a callee declares anything. -/
theorem undeclared_of_callee {n : Node} (hcallee : n.child? .callee ≠ none) :
    ¬ Declared root n ∧ ¬ Listed root n :=
  ⟨fun hn => hcallee (h.names n hn).2, fun hn => hcallee (h.declarators n hn).2.1⟩

/-- Neither does anything with a body. -/
theorem undeclared_of_body {n : Node} (hbody : n.child? .body ≠ none) :
    ¬ Aimed root n ∧ ¬ Declared root n ∧ ¬ Listed root n :=
  ⟨fun hn => hbody (h.targets n hn).2, fun hn => hbody (h.targets n (aimed_of_declared hn)).2,
    fun hn => hbody (h.declarators n hn).2.2⟩

theorem grammatical (hids : root.identities.Nodup) : Grammatical root :=
  ⟨hids, fun n hn => (h.targets n (aimed_of_target hn)).1⟩

theorem script (hids : root.identities.Nodup) : Script root := by
  refine ⟨h.program, hids, Node.everywhere_iff.mpr fun n hn => ?_⟩
  unfold Node.hasDeclarators
  split
  · next kind hform =>
    refine List.all_eq_true.mpr fun d hd => ?_
    obtain ⟨hc, hrole⟩ := Node.mem_childrenAt.mp hd
    rw [(h.declarators d (.slot hn hc (by rw [hform, hrole]; rfl))).1]
  · rfl

end Plain

/-! ## Changes -/

namespace Form

variable {f f' : Form}

theorem isNaming_of_writesOut (h : f.WritesOut f') (hf : f.isNaming = true) : f'.isNaming = true := by
  cases h
  · exact hf
  · rfl

theorem isTarget_of_writesOut (h : f.WritesOut f') (hf : f.isTarget = true) : f'.isTarget = true := by
  cases h
  · exact hf
  · rfl

theorem eq_of_writesOut (h : f.WritesOut f') (hf : ∀ computed kind method shorthand,
    f ≠ .property computed kind method shorthand) : f' = f := by
  cases h
  · rfl
  · exact absurd rfl (hf _ _ _ _)

end Form

namespace Node

variable {n n' c c' old e : Node} {news : List Node} {isNew : NodeId → Prop} {g : Form → Role → Bool}
  {r : Role}

theorem Resembles.child?_eq_none (h : c.Resembles c') (hc : c.child? r = none) : c'.child? r = none := by
  unfold child? at hc ⊢
  rw [List.find?_eq_none] at hc ⊢
  intro d' hd' hrole
  obtain ⟨d, hd, hsame⟩ := h.roles d' hd'
  exact hc d hd (hsame ▸ hrole)

/-- Where the form of a child does not matter, the child itself stands in the slot. -/
theorem placed_of_takes (h : Takes (fun f r _ => g f r = true) n old e) :
    Placed n (fun f r _ => g f r = true) old := by
  obtain ⟨p, hp, hold, hat | ⟨hplaced, hpart⟩⟩ := h
  · exact .slot hp hold hat
  · exact .part hplaced hold hpart

/-- Nodes that may be put in the place of a child: they do not come to stand where names are declared, and
what stands in slots inside of them stood in such slots before, or is a copy of what did. -/
structure Grafts (isNew : NodeId → Prop) (n old : Node) (news : List Node) : Prop where
  outside : news ≠ [] → ¬ Declared n old ∧ ¬ Listed n old
  targets : ∀ e ∈ news, Aimed n old →
    e.form.isTarget = true ∧ e.child? .body = none ∧ ∀ r, e.form.partsAt r = false
  salvages : ∀ {At : Form → Role → Form → Prop}, Enduring At → ∀ e ∈ news, Salvages At isNew n e

/-- Nothing is put in. -/
theorem grafts_nil : Grafts isNew n old [] where
  outside h := absurd rfl h
  targets _ he := by cases he
  salvages _ _ he := by cases he

/-- The new nodes have no patterns of their own. -/
theorem grafts_substitutes (hold : ¬ Declared n old ∧ ¬ Listed n old)
    (hnews : ∀ e ∈ news, e.form.isSubstitute = true ∧ e.child? .body = none)
    (hsalvages : ∀ {At}, Enduring At → ∀ e ∈ news, Salvages At isNew n e) :
    Grafts isNew n old news where
  outside _ := hold
  targets e he _ :=
    ⟨(Form.isTarget_of_isSubstitute (hnews e he).1).1, (hnews e he).2,
      (Form.isTarget_of_isSubstitute (hnews e he).1).2⟩
  salvages := hsalvages

/-- Something with a body gives way to statements. -/
theorem grafts_statements (hn : Plain n) (hold : old.child? .body ≠ none)
    (hsalvages : ∀ {At}, Enduring At → ∀ e ∈ news, Salvages At isNew n e) :
    Grafts isNew n old news where
  outside _ := (hn.undeclared_of_body hold).2
  targets _ _ haimed := absurd haimed (hn.undeclared_of_body hold).1
  salvages := hsalvages

section Swapped

variable (h : Swaps old news n n') (hgrafts : Grafts isNew n old news)

include h hgrafts

/-- What stands in a slot of a kind after the change resembles what stood in one before, and is it or is
new. -/
theorem Swaps.placed_before (hg : Enduring fun f r _ => g f r = true)
    (hold : news ≠ [] → ¬ Placed n (fun f r _ => g f r = true) old)
    (hc : Placed n' (fun f r _ => g f r = true) c') :
    ∃ c, Placed n (fun f r _ => g f r = true) c ∧ c.Resembles c' ∧
      (c'.id = c.id ∨ isNew c'.id ∧ ∃ e ∈ news, c'.id ∈ identitiesAll e.children) := by
  have hparts : ∀ e ∈ news, Takes (fun f r _ => g f r = true) n old e → ∀ r, e.form.partsAt r = false :=
    fun e he htakes => absurd (placed_of_takes htakes) (hold (List.ne_nil_of_mem he))
  obtain ⟨e, he, hin⟩ | ⟨e, he, -, htakes⟩ | ⟨c, hc, hsame⟩ := h.placed hg hparts hc
  · obtain ⟨d, hd, hcopy, hid⟩ := hgrafts.salvages hg e he c' hin
    refine ⟨d, hd, resembles_of_unnumbered hcopy, hid.imp_right fun hnew => ⟨hnew, e, he, ?_⟩⟩
    exact mem_identitiesAll_of_placed hin
  · exact absurd (placed_of_takes htakes) (hold (List.ne_nil_of_mem he))
  · obtain rfl | hswaps := hsame
    · exact ⟨c', hc, .refl c', .inl rfl⟩
    · exact ⟨c, hc, hswaps.resembles, .inl hswaps.kept.1⟩

theorem Swaps.declared (hc : Declared n' c') :
    ∃ c, Declared n c ∧ c.Resembles c' ∧
      (c'.id = c.id ∨ isNew c'.id ∧ ∃ e ∈ news, c'.id ∈ identitiesAll e.children) :=
  h.placed_before hgrafts enduring_declared (fun hne => (hgrafts.outside hne).1) hc

theorem Swaps.listed (hc : Listed n' c') :
    ∃ c, Listed n c ∧ c.Resembles c' ∧
      (c'.id = c.id ∨ isNew c'.id ∧ ∃ e ∈ news, c'.id ∈ identitiesAll e.children) :=
  h.placed_before hgrafts enduring_listed (fun hne => (hgrafts.outside hne).2) hc

/-- The program stays plain. -/
theorem Swaps.plain (hn : Plain n) : Plain n' where
  program := by
    refine (Form.eq_of_writesOut h.resembles.form ?_).trans hn.program
    rw [hn.program]
    exact fun _ _ _ _ => Form.noConfusion
  targets := fun c' hc' => by
    have hold := fun e he (htakes : Takes _ n old e) => hgrafts.targets e he (placed_of_takes htakes)
    obtain ⟨e, he, hin⟩ | ⟨e, he, rfl, htakes⟩ | ⟨c, hc, hsame⟩ :=
      h.placed enduring_aimed (fun e he htakes => (hold e he htakes).2.2) hc'
    · obtain ⟨d, hd, hcopy, -⟩ := hgrafts.salvages enduring_aimed e he c' hin
      have hresembles := resembles_of_unnumbered hcopy
      exact (hn.targets d hd).imp (Form.isTarget_of_writesOut hresembles.form) hresembles.child?_eq_none
    · rw [form_inRole]
      refine ⟨(hold e he htakes).1, ?_⟩
      have hbody := (hold e he htakes).2.1
      cases e
      exact hbody
    · obtain rfl | hswaps := hsame
      · exact hn.targets c' hc
      · exact (hn.targets c hc).imp (Form.isTarget_of_writesOut hswaps.resembles.form)
          hswaps.resembles.child?_eq_none
  names := fun c' hc' => by
    obtain ⟨c, hc, hresembles, -⟩ := h.declared hgrafts hc'
    obtain ⟨hnaming, hcallee⟩ := hn.names c hc
    exact ⟨Form.isNaming_of_writesOut hresembles.form hnaming, hresembles.child?_eq_none hcallee⟩
  declarators := fun c' hc' => by
    obtain ⟨c, hc, hresembles, -⟩ := h.listed hgrafts hc'
    obtain ⟨hform, hcallee, hbody⟩ := hn.declarators c hc
    refine ⟨?_, hresembles.child?_eq_none hcallee, hresembles.child?_eq_none hbody⟩
    rw [← hform]
    refine Form.eq_of_writesOut hresembles.form ?_
    rw [hform]
    exact fun _ _ _ _ => Form.noConfusion

section Told

variable (hids : n.identities.Nodup) (hids' : n'.identities.Nodup)

include hids hids'

/-- New nodes do not come to stand in such slots. -/
theorem Swaps.not_placed (hg : Enduring fun f r _ => g f r = true)
    (hold : news ≠ [] → ¬ Placed n (fun f r _ => g f r = true) old) (he : e ∈ news) :
    ¬ Placed n' (fun f r _ => g f r = true) (e.inRole old.role) := by
  intro hplaced
  have hout := hold (List.ne_nil_of_mem he)
  obtain ⟨p, p', hp, hp', hmem, hid, hform, hnews⟩ := h.parent
  cases hplaced with
  | slot hq hc hat =>
    cases Inside.parent_unique hids' hq hp' hc (hnews e he)
    rw [role_inRole] at hat
    exact hout (.slot hp hmem (hg.writesOut hform (.same old.form) hat))
  | part hq hc hpart =>
    cases Inside.parent_unique hids' hq.inside hp' hc (hnews e he)
    rw [role_inRole, hform.partsAt_eq] at hpart
    obtain ⟨c, hc, -, hsame | ⟨-, e', he', hin⟩⟩ := h.placed_before hgrafts hg hold hq
    · cases Inside.eq_of_id hids hp hc.inside (hid.symm.trans hsame)
      exact hout (.part hc hmem hpart)
    · -- The parent would stand below itself.
      have hbelow : p'.id ∈ identitiesAll p'.children := by
        refine mem_identitiesAll.mpr ⟨_, hnews e' he', ?_⟩
        rw [identities_inRole]
        exact (identitiesAll_children_sublist e').subset hin
      have honce := hids'.sublist hp'.identities_sublist
      rw [identities_eq] at honce
      exact (List.nodup_cons.mp honce).1 hbelow

/-- A name that is read inside of a new node is declared nowhere. -/
theorem Swaps.id_ne_of_reads (hn : Plain n) (he : e ∈ news)
    (hc : Analysis.Reads (e.inRole old.role) c) (hc' : Declared n' c' ∨ Listed n' c') : c'.id ≠ c.id := by
  intro hid
  obtain ⟨hused, name, hname⟩ := hc
  obtain ⟨p, p', hp, hp', hmem, -, -, hnews⟩ := h.parent
  have hin : (e.inRole old.role).Inside n' := (Inside.child (hnews e he)).trans hp'
  have hplain := h.plain hgrafts hn
  have hinside : c'.Inside n' := hc'.elim Placed.inside Placed.inside
  cases Inside.eq_of_id hids' hinside (hused.inside.trans hin) hid
  obtain hc' | hc' := hc'
  · obtain hbelow | hhead := placed_within hids' hc' hused.inside hin
    · have hgrammatical : Grammatical (e.inRole old.role) :=
        ⟨hids'.sublist hin.identities_sublist, fun d hd => (hplain.targets d (aimed_of_target (hd.trans hin))).1⟩
      obtain heq | heq := hused.eq_declare_or_skip hgrammatical hbelow
      · cases heq
      · cases heq
    · exact h.not_placed hgrafts hids hids' enduring_declared
        (fun hne => (hgrafts.outside hne).1) he hhead
  · cases hname.symm.trans (hplain.declarators _ hc').1

end Told

end Swapped

end Node

/-! ## Declared names -/

section Names

variable {root : Node} {name : Text}

/-- The names that a slot binds come from children in the slot, or from the values of properties there. -/
theorem exists_of_mem_slotNames {slot : Role} {cs : List Node} (h : name ∈ Node.slotNames slot cs) :
    ∃ c ∈ cs, c.role = slot ∧ (name ∈ c.patternNames ∨
      c.form.partsAt .value = true ∧ name ∈ Node.slotNames .value c.children) := by
  induction cs with
  | nil => simp [Node.slotNames] at h
  | cons c cs ih =>
    obtain ⟨i, r, f, ds⟩ := c
    unfold Node.slotNames at h
    obtain h | h := List.mem_append.mp h
    · split at h
      · cases h
      · next hr =>
        have hrole : r = slot := by simpa using hr
        refine ⟨_, List.mem_cons_self, hrole, ?_⟩
        split at h
        · exact .inr ⟨rfl, h⟩
        · exact .inl h
    · obtain ⟨c, hc, hmem⟩ := ih h
      exact ⟨c, List.mem_cons_of_mem _ hc, hmem⟩

/-- The names of a pattern are those of a slot that holds parts of it, unless it is a name itself. -/
theorem mem_slotNames_of_patternNames {n : Node} (h : name ∈ n.patternNames) :
    n.form = .identifier name ∨
      ∃ slot, n.form.partsAt slot = true ∧ name ∈ Node.slotNames slot n.children := by
  obtain ⟨i, r, f, cs⟩ := n
  unfold Node.patternNames at h
  split at h
  · exact .inl (congrArg Form.identifier (List.mem_singleton.mp h).symm)
  · exact .inr ⟨.elements, rfl, h⟩
  · exact .inr ⟨.properties, rfl, h⟩
  · exact .inr ⟨.left, rfl, h⟩
  · exact .inr ⟨.argument, rfl, h⟩
  · cases h

/-- The names of a declared pattern are those of declared identifiers. -/
theorem exists_identifier {n : Node} (hn : Declared root n) :
    (name ∈ n.patternNames → ∃ c, Declared root c ∧ c.form = .identifier name) ∧
      ∀ slot, n.form.partsAt slot = true → name ∈ Node.slotNames slot n.children →
        ∃ c, Declared root c ∧ c.form = .identifier name := by
  refine Node.rec
    (motive_1 := fun n => Declared root n →
      (name ∈ n.patternNames → ∃ c, Declared root c ∧ c.form = .identifier name) ∧
        ∀ slot, n.form.partsAt slot = true → name ∈ Node.slotNames slot n.children →
          ∃ c, Declared root c ∧ c.form = .identifier name)
    (motive_2 := fun cs => ∀ c ∈ cs, Declared root c →
      (name ∈ c.patternNames → ∃ c, Declared root c ∧ c.form = .identifier name) ∧
        ∀ slot, c.form.partsAt slot = true → name ∈ Node.slotNames slot c.children →
          ∃ c, Declared root c ∧ c.form = .identifier name)
    ?_ (fun c hc => by cases hc) ?_ n hn
  · intro i r f cs ih hn
    have hslots : ∀ slot, f.partsAt slot = true → name ∈ Node.slotNames slot cs →
        ∃ c, Declared root c ∧ c.form = .identifier name := by
      intro slot hslot hmem
      obtain ⟨c, hc, rfl, hname⟩ := exists_of_mem_slotNames hmem
      obtain ⟨hpattern, hbelow⟩ := ih c hc (.part hn hc hslot)
      obtain hname | ⟨hvalue, hname⟩ := hname
      · exact hpattern hname
      · exact hbelow .value hvalue hname
    refine ⟨fun hname => ?_, hslots⟩
    obtain hform | ⟨slot, hslot, hmem⟩ := mem_slotNames_of_patternNames hname
    · exact ⟨_, hn, hform⟩
    · exact hslots slot hslot hmem
  · intro c cs ihc ihcs d hd
    obtain rfl | hd := List.mem_cons.mp hd
    · exact ihc
    · exact ihcs d hd

/-- Whatever a scope declares is the name of a declared identifier. -/
theorem exists_identifier_of_binds (hroot : Script root) {e : Enclosure} (h : e.Binds root name) :
    ∃ c, Declared root c ∧ c.form = .identifier name := by
  obtain ⟨o, d, ho, hdeclares⟩ := h
  cases hdeclares with
  | @declarator kind _ _ _ hform hd hname _ =>
    have hdeclarator := hroot.form_of_declarations ho.inside hform hd
    obtain ⟨id, hid, hname⟩ : ∃ id, d.child? .id = some id ∧ name ∈ id.patternNames := by
      unfold Occurrence.variableNames at hname
      cases hid : d.child? .id with
      | none => simp [hid] at hname
      | some id => exact ⟨id, rfl, by simpa [hid] using hname⟩
    obtain ⟨hc, hrole⟩ := Node.mem_of_child? hid
    have hin : d.Inside root := (Node.Inside.child (Node.mem_childrenAt.mp hd).1).trans ho.inside
    exact (exists_identifier (.slot hin hc (by rw [hdeclarator, hrole]; rfl))).1 hname
  | statement hform hname _ =>
    obtain ⟨id, hid, hname⟩ := Option.bind_eq_some_iff.mp hname
    obtain ⟨hc, hrole⟩ := Node.mem_of_child? hid
    have hslot : o.node.form.declaresAt .id = true := by
      unfold Form.isNamedStatement at hform
      split at hform
      · next heq =>
        rw [heq]
        rfl
      · next heq =>
        rw [heq]
        rfl
      · cases hform
    refine ⟨id, .slot ho.inside hc (by rw [hrole]; exact hslot), ?_⟩
    unfold Node.name? at hname
    split at hname
    · next heq =>
      cases hname
      exact heq
    · cases hname
  | pattern hd hname =>
    obtain ⟨hc, hslot, -⟩ := Occurrence.slot_of_headPatterns hd
    exact (exists_identifier (.slot ho.inside hc hslot)).1 hname

end Names

/-- One of the scopes around has the property. -/
theorem Innermost.exists_of {P : Enclosure → Prop} {around : List Enclosure} {s : Node}
    (h : Innermost P around s) : ∃ e, P e := by
  induction h with
  | here he => exact ⟨_, he⟩
  | outward _ _ ih => exact ih

namespace Analysis

variable {root : Node} {name : Text}

/-- A name that no identifier declares has no binding, and is read of none. -/
theorem unbound_of_undeclared (hroot : Script root)
    (hname : ∀ c, Declared root c → c.form ≠ .identifier name) :
    (∀ b < (ofProgram root).bindings.size, ((ofProgram root).binding b).name ≠ name) ∧
      ∀ o, Occurrence.Of root o → o.node.form = .identifier name → ∀ b,
        o.node.id ∉ (ofProgram root).readNodes b := by
  have hbinds : ∀ e : Enclosure, ¬ e.Binds root name := fun e h => by
    obtain ⟨c, hc, hform⟩ := exists_identifier_of_binds hroot h
    exact hname c hc hform
  constructor
  · obtain ⟨a₀, hs, hrecorded, -⟩ := exists_settled hroot
    intro b hb heq
    obtain ⟨e, he, -⟩ := hs.founded.bindings b (hrecorded.same.size ▸ hb)
    rw [← (hrecorded.same.bindings b).1, heq] at he
    exact hbinds e he
  · intro o ho hform b hread
    obtain ⟨c, hused, hid⟩ := used_of_mem_readNodes hread
    cases Node.Inside.eq_of_id hroot.identities hused.inside ho.inside hid
    obtain ⟨s, -, hs, -⟩ | ⟨-, hnone⟩ :=
      (reference_recorded hroot ho hform (.inl rfl) hused).1
    · obtain ⟨e, ⟨part, he⟩⟩ := hs.exists_of
      exact hbinds _ he
    · exact hnone b hread

end Analysis

end Untangle
