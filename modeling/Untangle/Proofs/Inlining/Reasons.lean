import Untangle.Proofs.Folding.Structural
import Untangle.Proofs.Inlining.Traces

set_option autoImplicit false

/-!
# Why nodes give way

A variable is set to the value of a literal, or to that of another variable which was inlined before.  A
name that reads it gives way to the tree of the value when its declarator goes; a declarator goes with all
reads of its variable, or holds a function; a declaration goes with its last declarator.  What stands in
the changed program thus stood there at first, or it is a copy of the tree of a value.
-/

namespace Untangle

open Analysis (Traces givingReads)
open Node (Becomes Kept)
open Sandbox (denotedValue isLiteral literalOf primitiveNode)

/-! ## Trees of values denote them -/

namespace Sandbox

variable {m n t : Node} {v : Value}

/-- A literal that is no regular expression, or a number with a minus sign. -/
theorem literal_cases (hn : isLiteral n = true) (hv : denotedValue n = .ok v) :
    (∃ l, n.form = .literal l ∧ l.isRegex = false ∧ literalOf l = .ok v) ∨
      n.form = .unary .minus ∧ ∃ c m x, n.child? .argument = some c ∧ c.form = .literal (.number m) ∧
        numeralValue m = .ok x ∧ v = .number (-x) := by
  unfold isLiteral at hn
  unfold denotedValue at hv
  split at hn
  · next l hform =>
    rw [hform] at hv
    exact .inl ⟨l, hform, by simpa using hn, hv⟩
  · next hform =>
    rw [hform] at hv
    refine .inr ⟨hform, ?_⟩
    cases hc : n.child? .argument with
    | none =>
      rw [hc] at hn
      cases hn
    | some c =>
      rw [hc] at hn hv
      simp only [Option.map_some] at hn hv
      split at hn
      · next l hl =>
        rw [hl] at hv
        cases l with
        | number m =>
          obtain ⟨w, hw, hv⟩ := except_bind_eq_ok.mp hv
          obtain ⟨x, hx, hw⟩ := except_bind_eq_ok.mp hw
          cases hw
          cases hv
          exact ⟨c, m, x, rfl, Option.some.inj hl, hx, rfl⟩
        | _ => cases hn
      · cases hn
  · cases hn

/-- What a literal denotes has a literal or the name of a number. -/
theorem isWritable_of_isLiteral (hn : isLiteral n = true)
    (hv : denotedValue n = .ok v) : v.isWritable = true := by
  obtain ⟨l, -, hl, hv⟩ | ⟨-, c, m, x, -, -, -, rfl⟩ := literal_cases hn hv
  · cases l with
    | regex => cases hl
    | number m =>
      obtain ⟨x, -, hx⟩ := except_bind_eq_ok.mp hv
      cases hx
      rfl
    | _ =>
      cases hv
      rfl
  · rfl

theorem denotedValue_numberNode {x : Float} (h : isLiteral (numberNode x) = true) :
    denotedValue (numberNode x) = .ok (.number x) := by
  unfold numberNode at h ⊢
  cases hnan : Binary64.isNaN x with
  | true =>
    rw [hnan] at h
    cases h
  | false =>
    rw [hnan] at h
    cases hinfinite : Binary64.isInfinite x with
    | true =>
      rw [hinfinite] at h
      cases hsign : Binary64.isNegative x <;>
        · rw [hsign] at h
          cases h
    | false =>
      cases hsign : Binary64.isNegative x with
      | true =>
        have hvalue : -x.abs = x := Binary64.neg_abs_of_isNegative hsign
        show Except.ok (Value.number (-x.abs)) = _
        rw [hvalue]
      | false =>
        have hvalue : x.abs = x := Binary64.abs_of_not_isNegative hsign
        show Except.ok (Value.number x.abs) = _
        rw [hvalue]

/-- The tree of a value denotes it, if it denotes anything. -/
theorem denotedValue_primitiveNode (h : isLiteral (primitiveNode v) = true) :
    denotedValue (primitiveNode v) = .ok v := by
  cases v with
  | undefined | object => cases h
  | number x => exact denotedValue_numberNode h
  | _ => rfl

/-- What a copy denotes. -/
theorem isLiteral_of_copy {r : Role} (h : m.unnumbered = (t.inRole r).unnumbered) :
    isLiteral m = isLiteral t ∧ denotedValue m = denotedValue t := by
  have hslot : isLiteral (t.inRole r) = isLiteral t ∧ denotedValue (t.inRole r) = denotedValue t := by
    cases t
    exact ⟨rfl, rfl⟩
  rw [Node.unnumbered_eq_relabel, Node.unnumbered_eq_relabel] at h
  rw [← isLiteral_relabel (fun _ => 0) m, ← denotedValue_relabel (fun _ => 0) m, h, isLiteral_relabel,
    denotedValue_relabel]
  exact hslot

end Sandbox

namespace Form

variable {f : Form}

theorem eq_variableDeclarator (hid : .id ∈ f.slots.map Slot.role) (hinit : .init ∈ f.slots.map Slot.role) :
    f = .variableDeclarator := by
  cases f <;> simp_all [slots, single, many]

theorem not_id_mem_slots (hf : f.isPrimitive = true) : .id ∉ f.slots.map Slot.role := by
  cases f with
  | literal | identifier | unary => simp [slots, single]
  | _ => cases hf

end Form

namespace Rule.Inlining

/-! ## Values of variables -/

/-- What an expression of a program denotes: a literal its value, a minus sign the negative, and a name that
is read what the initializer of its declarator denotes. -/
inductive Denotes (root : Node) : Node → Sandbox.Value → Prop
  | literal {n : Node} {l : Literal} {v : Sandbox.Value} (hform : n.form = .literal l)
      (hl : l.isRegex = false) (hv : literalOf l = .ok v) : Denotes root n v
  | negative {n c : Node} {x : Float} (hform : n.form = .unary .minus) (hc : c ∈ n.childrenAt .argument)
      (hx : Denotes root c (.number x)) : Denotes root n (.number (-x))
  | read {n d init : Node} {b : BindingId} {v : Sandbox.Value}
      (hread : n.id ∈ (Analysis.ofProgram root).readNodes b) (hd : d.Inside root)
      (hdeclares : (Analysis.ofProgram root).declarationId b = d.id) (hinit : init ∈ d.childrenAt .init)
      (hv : Denotes root init v) : Denotes root n v

/-- A declarator sets its variable to what its initializer denotes. -/
structure Sets (root d : Node) (b : BindingId) (v : Sandbox.Value) : Prop where
  inside : d.Inside root
  declares : (Analysis.ofProgram root).declarationId b = d.id
  value : ∃ init ∈ d.childrenAt .init, Denotes root init v

/-- What a node gives way to: a read to the value of the variable, whose declarator goes, a declarator to
nothing, and so a declaration without declarators, or to an empty statement. -/
inductive GivesWay (root : Node) (gives : NodeId → Option (List Node)) : NodeId → List Node → Prop
  | read {k : NodeId} {d : Node} {b : BindingId} {v : Sandbox.Value}
      (hread : k ∈ (Analysis.ofProgram root).readNodes b) (hsets : Sets root d b v)
      (hgone : gives d.id = some []) : GivesWay root gives k [primitiveNode v]
  | declarator {d : Node} (hd : d.Inside root) (hform : d.form = .variableDeclarator) :
      GivesWay root gives d.id []
  | declaration {n : Node} {kind : VariableKind} {rest : List Node} (hn : n.Inside root)
      (hform : n.form = .variableDeclaration kind)
      (hgone : ∀ d ∈ n.childrenAt .declarations, gives d.id = some [])
      (hrest : rest = [] ∨ rest = [.leaf .emptyStatement]) : GivesWay root gives n.id rest

/-- Why a declarator may go: it holds a function, or all reads of its variable give way to the value. -/
def MayGo (root : Node) (gives : NodeId → Option (List Node)) (d : Node) : Prop :=
  (∃ init ∈ d.childrenAt .init, init.form.isFunction = true) ∨
    ∃ b v, Sets root d b v ∧
      ∀ k ∈ (Analysis.ofProgram root).readNodes b, gives k = some [primitiveNode v]

/-- What gives way does so for a reason. -/
structure Faithful (root : Node) (gives : NodeId → Option (List Node)) : Prop where
  given : ∀ k trees, gives k = some trees → GivesWay root gives k trees
  gone : ∀ d : Node, d.Inside root → d.form = .variableDeclarator → gives d.id ≠ none → MayGo root gives d

section Reasons

variable {root d : Node} {gives gives' : NodeId → Option (List Node)} {k : NodeId} {trees : List Node}

theorem faithful_none (root : Node) : Faithful root fun _ => none where
  given _ _ h := by cases h
  gone _ _ _ h := absurd rfl h

theorem GivesWay.mono (h : GivesWay root gives k trees)
    (hmore : ∀ k trees, gives k = some trees → gives' k = some trees) : GivesWay root gives' k trees := by
  cases h with
  | read hread hsets hgone => exact .read hread hsets (hmore _ _ hgone)
  | declarator hd hform => exact .declarator hd hform
  | declaration hn hform hgone hrest =>
    exact .declaration hn hform (fun d hd => hmore _ _ (hgone d hd)) hrest

theorem MayGo.mono (h : MayGo root gives d)
    (hmore : ∀ k trees, gives k = some trees → gives' k = some trees) : MayGo root gives' d :=
  h.imp_right fun ⟨b, v, hsets, hreads⟩ => ⟨b, v, hsets, fun k hk => hmore k _ (hreads k hk)⟩

/-- Further nodes give way for a reason. -/
theorem Faithful.extended (h : Faithful root gives)
    (hmore : ∀ k trees, gives k = some trees → gives' k = some trees)
    (hgiven : ∀ k trees, gives k = none → gives' k = some trees → GivesWay root gives' k trees)
    (hgone : ∀ d : Node, d.Inside root → d.form = .variableDeclarator → gives d.id = none →
      gives' d.id ≠ none → MayGo root gives' d) : Faithful root gives' where
  given k trees hk := by
    cases hbefore : gives k with
    | none => exact hgiven k trees hbefore hk
    | some before =>
      cases (hmore k before hbefore).symm.trans hk
      exact (h.given k _ hbefore).mono hmore
  gone d hd hform hne := by
    cases hbefore : gives d.id with
    | none => exact hgone d hd hform hbefore hne
    | some before => exact (h.gone d hd hform (by rw [hbefore]; exact Option.some_ne_none _)).mono hmore

/-- What nodes give way to consists of trees of the values of variables and of empty statements. -/
theorem GivesWay.tree (h : GivesWay root gives k trees) {t : Node} (ht : t ∈ trees) :
    (∃ d b v, k ∈ (Analysis.ofProgram root).readNodes b ∧ Sets root d b v ∧ gives d.id = some [] ∧
      t = primitiveNode v) ∨ t = .leaf .emptyStatement := by
  cases h with
  | read hread hsets hgone => exact .inl ⟨_, _, _, hread, hsets, hgone, List.mem_singleton.mp ht⟩
  | declarator => cases ht
  | declaration hn hform hgone hrest =>
    obtain rfl | rfl := hrest
    · cases ht
    · exact .inr (List.mem_singleton.mp ht)

end Reasons

/-! ## What a changed program has of the first one -/

section Origins

variable {root m : Node} {gives : NodeId → Option (List Node)} {next : NodeId} {ns ms : List Node}
  {v : Sandbox.Value}

/-- A copy that denotes a value stands for a read of a variable with this value. -/
theorem Faithful.denotes_of_copy (hf : Faithful root gives) {n t : Node} {trees : List Node}
    (hgives : gives n.id = some trees) (ht : t ∈ trees) (hsame : m.unnumbered = (t.inRole n.role).unnumbered)
    (hm : isLiteral m = true) (hv : denotedValue m = .ok v) : Denotes root n v := by
  obtain ⟨hliteral, hvalue⟩ := Sandbox.isLiteral_of_copy hsame
  rw [hliteral] at hm
  rw [hvalue] at hv
  obtain ⟨d, b, w, hread, hsets, -, rfl⟩ | rfl := (hf.given n.id trees hgives).tree ht
  · cases (Sandbox.denotedValue_primitiveNode hm).symm.trans hv
    obtain ⟨init, hinit, hdenotes⟩ := hsets.value
    exact .read hread hsets.inside hsets.declares hinit hdenotes
  · cases hm

/-- What denotes a value stands where something denoted it. -/
theorem Faithful.denotes (hf : Faithful root gives) (h : Becomes gives next ns ms) (hmem : m ∈ ms)
    (hm : isLiteral m = true) (hv : denotedValue m = .ok v) :
    ∃ n ∈ ns, n.role = m.role ∧ Denotes root n v := by
  obtain ⟨n, hn, hslot, hkept | ⟨-, trees, hgives, t, ht, hsame⟩⟩ := h.mem hmem
  · refine ⟨n, hn, hslot, ?_⟩
    obtain ⟨l, hform, hl, hv⟩ | ⟨hform, c, q, x, hc, hcform, hx, rfl⟩ := Sandbox.literal_cases hm hv
    · exact .literal (hkept.form_eq hform fun _ _ _ h => by cases h) hl hv
    · obtain ⟨hc, hrole⟩ := Node.mem_of_child? hc
      have hminus := hkept.form_eq hform fun _ _ _ h => by cases h
      have hnumber : literalOf (.number q) = .ok (.number x) := by
        rw [literalOf, hx]
        rfl
      obtain ⟨c₀, hc₀, hslot, hbefore⟩ := hkept.children.mem hc
      refine .negative hminus (Node.mem_childrenAt.mpr ⟨hc₀, hslot.trans hrole⟩) ?_
      obtain hkept' | ⟨-, trees, hgives, t, ht, hsame⟩ := hbefore
      · exact .literal (hkept'.form_eq hcform fun _ _ _ h => by cases h) rfl hnumber
      · refine hf.denotes_of_copy hgives ht hsame ?_ ?_
        · unfold isLiteral
          rw [hcform]
          rfl
        · unfold denotedValue
          rw [hcform]
          exact hnumber
  · exact ⟨n, hn, hslot, hf.denotes_of_copy hgives ht hsame hm hv⟩

/-- What a variable is set to can be written. -/
theorem Denotes.isWritable {n : Node} (h : Denotes root n v) : v.isWritable = true := by
  induction h with
  | @literal n l v hform hl hv =>
    cases l with
    | regex => cases hl
    | number q =>
      obtain ⟨x, -, hx⟩ := except_bind_eq_ok.mp hv
      cases hx
      rfl
    | _ =>
      cases hv
      rfl
  | negative => rfl
  | read _ _ _ _ _ ih => exact ih

end Origins

section Origin

variable {root n : Node} {gives : NodeId → Option (List Node)} {a : Analysis}

variable (hf : Faithful root gives) (h : Traces root gives a)

include hf h

/-- What stands in the changed program stood there, or in what nodes gave way to. -/
theorem Faithful.exists_origin (hn : n.Inside a.program) :
    (∃ d : Node, d.Inside root ∧ Kept gives (Analysis.ofProgram root).next d n) ∨
      ∃ d : Node, d.isSlotted = true ∧ (d.form.isPrimitive = true ∨ d.form = .emptyStatement) ∧
        d.Resembles n := by
  obtain ⟨e, he, d, hd, hkept⟩ | ⟨-, k, trees, hgives, t, ht, d, hd, hresembles⟩ :=
    h.tree.inside List.mem_cons_self hn
  · cases List.mem_singleton.mp he
    exact .inl ⟨d, hd, hkept⟩
  · refine .inr ⟨d, ?_⟩
    obtain ⟨_, _, v, -, ⟨-, -, _, -, hdenotes⟩, -, rfl⟩ | rfl := (hf.given k trees hgives).tree ht
    · have hslotted := Node.isSlotted_of_isOrdered (Folding.isOrdered_primitiveNode v)
      refine ⟨Node.everywhere_iff.mpr fun e he => Node.everywhere_iff.mp hslotted e (he.trans hd), ?_,
        hresembles⟩
      exact .inl (Sandbox.isMark_primitiveNode hdenotes.isWritable hd).1
    · cases hd with
      | self => exact ⟨rfl, .inr rfl, hresembles⟩
      | within hc => cases hc

/-- What has a name and an initializer is a declarator of the program. -/
theorem Faithful.exists_declarator (hslots : root.isSlotted = true) (hn : n.Inside a.program) (hid : n.child? .id ≠ none)
    (hinit : n.child? .init ≠ none) :
    ∃ d : Node, d.Inside root ∧ d.form = .variableDeclarator ∧ Kept gives (Analysis.ofProgram root).next d n := by
  obtain ⟨c, hc⟩ := Option.ne_none_iff_exists'.mp hid
  obtain ⟨e, he⟩ := Option.ne_none_iff_exists'.mp hinit
  obtain ⟨hc, hcrole⟩ := Node.mem_of_child? hc
  obtain ⟨he, herole⟩ := Node.mem_of_child? he
  obtain ⟨d, hd, hkept⟩ | ⟨d, hslotted, hform, hresembles⟩ := hf.exists_origin h hn
  · have hslotted : d.isSlotted = true :=
      Node.everywhere_iff.mpr fun e he => Node.everywhere_iff.mp hslots e (he.trans hd)
    have hslot : ∀ c ∈ n.children, c.role ∈ d.form.slots.map Slot.role := by
      intro c hc
      obtain ⟨c₀, hc₀, hrole, -⟩ := hkept.children.mem hc
      exact hrole ▸ Node.role_mem_slots hslotted hc₀
    refine ⟨d, hd, ?_, hkept⟩
    exact Form.eq_variableDeclarator (hcrole ▸ hslot c hc) (herole ▸ hslot e he)
  · exfalso
    obtain ⟨c₀, hc₀, hrole⟩ := hresembles.roles c hc
    have hslot := Node.role_mem_slots hslotted hc₀
    rw [hrole, hcrole] at hslot
    obtain hform | hform := hform
    · exact Form.not_id_mem_slots hform hslot
    · rw [hform] at hslot
      cases hslot

/-- A declaration is one of the program. -/
theorem Faithful.exists_declaration {kind : VariableKind} (hn : n.Inside a.program)
    (hform : n.form = .variableDeclaration kind) :
    ∃ d : Node, d.Inside root ∧ d.form = .variableDeclaration kind ∧
      Kept gives (Analysis.ofProgram root).next d n := by
  obtain ⟨d, hd, hkept⟩ | ⟨d, -, hfirst, hresembles⟩ := hf.exists_origin h hn
  · exact ⟨d, hd, hkept.form_eq hform (fun _ _ _ h => by cases h), hkept⟩
  · have hwritten := hresembles.form
    rw [hform] at hwritten
    generalize d.form = f at hfirst hwritten
    cases hwritten
    obtain hfirst | hfirst := hfirst <;> cases hfirst

end Origin

/-! ## What gives way in one action -/

section Steps

variable {root d n : Node} {gives : NodeId → Option (List Node)} {b : BindingId} {v : Sandbox.Value}
  {k : NodeId} {trees : List Node}

/-- What reads a variable is nothing but a name. -/
theorem form_ne_of_read (hroot : Script root) (hk : d.id ∈ (Analysis.ofProgram root).readNodes b)
    (hd : d.Inside root) : ∃ name, d.form = .identifier name := by
  obtain ⟨o, ho, hname, hid, -, -⟩ := Analysis.exists_name_of_read hroot hk
  rwa [← Node.Inside.eq_of_id hroot.identities ho.inside hd hid]

/-- What gives way stands in the program. -/
theorem GivesWay.mem (hroot : Script root) (h : GivesWay root gives k trees) : k ∈ root.identities := by
  cases h with
  | read hread =>
    obtain ⟨o, ho, -, rfl, -, -⟩ := Analysis.exists_name_of_read hroot hread
    exact ho.inside.id_mem
  | declarator hd => exact hd.id_mem
  | declaration hn => exact hn.id_mem

variable (hroot : Script root) (hf : Faithful root gives)

include hroot hf

/-- No read gives way as long as the declarator is there. -/
theorem Faithful.read_stays (hdeclares : (Analysis.ofProgram root).declarationId b = d.id)
    (hd : gives d.id = none) (hk : k ∈ (Analysis.ofProgram root).readNodes b) : gives k = none := by
  cases hgives : gives k with
  | none => rfl
  | some trees =>
    obtain ⟨o, ho, ⟨name, hname⟩, hid, -, hunique⟩ := Analysis.exists_name_of_read hroot hk
    cases hf.given k trees hgives with
    | read hread hsets hgone =>
      rw [(hunique _).mp hread] at hsets
      rw [← hsets.declares, hdeclares, hd] at hgone
      cases hgone
    | declarator hd' hform =>
      obtain ⟨name', hname'⟩ := form_ne_of_read hroot hk hd'
      cases hform.symm.trans hname'
    | declaration hn hform hgone hrest =>
      obtain ⟨name', hname'⟩ := form_ne_of_read hroot hk hn
      cases hform.symm.trans hname'

/-- A declarator goes after all reads of its variable. -/
theorem Faithful.inlined (hform : d.form = .variableDeclarator) (hd : gives d.id = none)
    (hsets : Sets root d b v) :
    Faithful root (Function.update (givingReads root gives b v) d.id (some [])) := by
  have hread : ∀ k ∈ (Analysis.ofProgram root).readNodes b, k ≠ d.id := by
    rintro k hk rfl
    obtain ⟨name, hname⟩ := form_ne_of_read hroot hk hsets.inside
    cases hform.symm.trans hname
  have hreads : ∀ k ∈ (Analysis.ofProgram root).readNodes b,
      Function.update (givingReads root gives b v) d.id (some []) k = some [primitiveNode v] := by
    intro k hk
    rw [Function.update_of_ne (hread k hk), givingReads, if_pos hk]
  have hothers : ∀ k, k ≠ d.id → k ∉ (Analysis.ofProgram root).readNodes b →
      Function.update (givingReads root gives b v) d.id (some []) k = gives k := by
    intro k hne hk
    rw [Function.update_of_ne hne, givingReads, if_neg hk]
  refine hf.extended (fun k trees hk => ?_) (fun k trees hbefore hk => ?_)
    fun d' hd' hform' hbefore hne => ?_
  · refine (hothers k ?_ fun hmem => ?_).trans hk
    · rintro rfl
      cases hd.symm.trans hk
    · cases (hf.read_stays hroot hsets.declares hd hmem).symm.trans hk
  · by_cases hself : k = d.id
    · subst hself
      rw [Function.update_self] at hk
      cases hk
      exact .declarator hsets.inside hform
    by_cases hmem : k ∈ (Analysis.ofProgram root).readNodes b
    · cases (hreads k hmem).symm.trans hk
      exact .read hmem hsets (Function.update_self ..)
    · cases ((hothers k hself hmem).trans hbefore).symm.trans hk
  · by_cases hself : d'.id = d.id
    · cases Node.Inside.eq_of_id hroot.identities hd' hsets.inside hself
      exact .inr ⟨b, v, hsets, hreads⟩
    · by_cases hmem : d'.id ∈ (Analysis.ofProgram root).readNodes b
      · obtain ⟨name, hname⟩ := form_ne_of_read hroot hmem hd'
        cases hform'.symm.trans hname
      · exact absurd ((hothers _ hself hmem).trans hbefore) hne

/-- A node goes for a reason. -/
theorem Faithful.takenOut (hn : n.Inside root) (hstays : gives n.id = none) {rest : List Node}
    (hgiven : GivesWay root (Function.update gives n.id (some rest)) n.id rest)
    (hgone : n.form = .variableDeclarator → MayGo root (Function.update gives n.id (some rest)) n) :
    Faithful root (Function.update gives n.id (some rest)) := by
  refine hf.extended (fun k trees hk => ?_) (fun k trees hbefore hk => ?_)
    fun d hd hform hbefore hne => ?_
  · rw [Function.update_of_ne ?_, hk]
    rintro rfl
    cases hstays.symm.trans hk
  · by_cases hself : k = n.id
    · subst hself
      rw [Function.update_self] at hk
      cases hk
      exact hgiven
    · rw [Function.update_of_ne hself, hbefore] at hk
      cases hk
  · by_cases hself : d.id = n.id
    · cases Node.Inside.eq_of_id hroot.identities hd hn hself
      exact hgone hform
    · rw [Function.update_of_ne hself, hbefore] at hne
      exact absurd rfl hne

end Steps

end Rule.Inlining

end Untangle
