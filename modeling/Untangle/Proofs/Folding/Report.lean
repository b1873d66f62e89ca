import Mathlib.Tactic.Choose
import Untangle.Proofs.Folding.Structural

set_option autoImplicit false

/-!
# What is reported of two literals

Two literals under an operator that is not folded are reported with their code.  The code does not depend on
the identities of the nodes.  It is missing if a literal has none: a whole number may be too large to be
printed.
-/

namespace Untangle

namespace Print

variable (g : NodeId → NodeId)

theorem pieces_eq_map (cs : List Node) : pieces cs = cs.map piece := by
  induction cs with
  | nil => rfl
  | cons c cs ih => rw [pieces, ih, List.map_cons]

theorem node_piece (n : Node) : (piece n).node = n := by
  cases n
  rfl

theorem piece_eq (n : Node) : piece n = assemble n (pieces n.children) := by
  cases n
  rfl

/-- The piece in a slot is that of the node in the slot. -/
theorem opt_pieces (n : Node) (r : Role) : (pieces n.children).opt r = (n.child? r).map piece := by
  have hslot : (fun p : Piece => p.node.role == r) ∘ piece = fun c => c.role == r :=
    funext fun c => congrArg (fun m : Node => m.role == r) (node_piece c)
  rw [pieces_eq_map, Parts.opt, List.find?_map, hslot]
  rfl

theorem get_pieces {n c : Node} {r : Role} (h : n.child? r = some c) :
    (pieces n.children).get r = .ok (piece c) := by
  unfold Parts.get
  rw [opt_pieces, h]
  rfl

/-! ## Operands -/

/-- A node that is a literal, or one behind a minus sign. -/
inductive Operand (l : Literal) : Node → Prop
  | literal {n : Node} (hform : n.form = .literal l) : Operand l n
  | minus {n c : Node} (hform : n.form = .unary .minus) (hc : n.child? .argument = some c)
      (hlit : c.form = .literal l) : Operand l n

/-- An operand whose literal can be printed. -/
def Written (n : Node) : Prop := ∃ l, Operand l n ∧ ∃ t, literalText l = .ok t

theorem exists_operand {n : Node} (h : Sandbox.isLiteral n = true) : ∃ l, Operand l n := by
  unfold Sandbox.isLiteral at h
  split at h
  · next l hform => exact ⟨l, .literal hform⟩
  · next hform =>
    split at h
    · next l hchild =>
      obtain ⟨c, hc, hlit⟩ := Option.map_eq_some_iff.mp hchild
      exact ⟨l, .minus hform hc hlit⟩
    · cases h
  · cases h

theorem expression_of_literal {n : Node} {l : Literal} (h : n.form = .literal l) (asked : Level)
    (allow : Allow) (indent : Nat) : (piece n).expression asked allow indent =
      (literalText l >>= fun t => pure (atLevel (literalLevel l) asked t)) := by
  rw [piece_eq]
  show expressionText n.form _ _ _ _ = _
  rw [h]
  rfl

/-- An operator written in front of the text of an operand. -/
def signedText (op : UnaryOp) (asked : Level) (e : Text) : Text :=
  let symbol : Text := op.symbol
  let sign := symbol.getLast?
  let t := if symbol.length > 2 then spaced symbol e
    else if (sign == some 0x2B || sign == some 0x2D) && sign == e.head? then symbol ++ " " ++ e
    else symbol ++ e
  atLevel Level.unary asked t

theorem unaryText_eq {ps : Parts} {p : Piece} (h : ps.get .argument = .ok p) (op : UnaryOp)
    (asked : Level) (indent : Nat) : unaryText op ps asked indent =
      (p.expression Level.unary .all indent >>= fun e => pure (signedText op asked e)) := by
  unfold unaryText
  rw [h]
  rfl

/-- An operand has a text if its literal has one, which does not depend on identities. -/
theorem Operand.exists_text {l : Literal} {n : Node} (h : Operand l n) (asked : Level) (allow : Allow)
    (indent : Nat) : ∃ f : Text → Text,
      (piece n).expression asked allow indent = (literalText l >>= fun t => pure (f t)) ∧
        (piece (n.relabel g)).expression asked allow indent = (literalText l >>= fun t => pure (f t)) := by
  cases h with
  | literal hform =>
    have hform' : (n.relabel g).form = .literal l := (Node.form_relabel g n).trans hform
    exact ⟨_, expression_of_literal hform asked allow indent,
      expression_of_literal hform' asked allow indent⟩
  | @minus c hform hc hlit =>
    have hform' : (n.relabel g).form = .unary .minus := (Node.form_relabel g n).trans hform
    have hc' : (n.relabel g).child? .argument = some (c.relabel g) := by
      rw [Node.child?_relabel, hc]
      rfl
    have hlit' : (c.relabel g).form = .literal l := (Node.form_relabel g c).trans hlit
    have hminus : ∀ {m d : Node}, m.form = .unary .minus → m.child? .argument = some d →
        d.form = .literal l → (piece m).expression asked allow indent =
          (literalText l >>= fun t => pure (signedText .minus asked (atLevel (literalLevel l) Level.unary t))) := by
      intro m d hm hd hl
      rw [piece_eq]
      show expressionText m.form _ _ _ _ = _
      rw [hm]
      refine (unaryText_eq (get_pieces hd) .minus asked indent).trans ?_
      rw [expression_of_literal hl, bind_assoc]
      rfl
    exact ⟨_, hminus hform hc hlit, hminus hform' hc' hlit'⟩

/-! ## Operations on two operands -/

variable {ps ps' : Parts} {p p' q q' : Piece}

/-- What an operation writes depends on the texts of its operands only. -/
theorem operationText_congr (hp : ps.get .left = .ok p) (hq : ps.get .right = .ok q)
    (hp' : ps'.get .left = .ok p') (hq' : ps'.get .right = .ok q')
    (hleft : ∀ asked allow indent, p'.expression asked allow indent = p.expression asked allow indent)
    (hright : ∀ asked allow indent, q'.expression asked allow indent = q.expression asked allow indent)
    (symbol : String) (asked : Level) (allow : Allow) (indent : Nat) :
    operationText symbol ps' asked allow indent = operationText symbol ps asked allow indent := by
  unfold operationText
  cases operatorLevel? symbol with
  | none => rfl
  | some own =>
    simp only [hp, hq, hp', hq', bind, Except.bind, hleft, hright]

theorem ok_ite {c : Prop} [Decidable c] {x y : Out} (hx : ∃ t, x = .ok t) (hy : ∃ t, y = .ok t) :
    ∃ t, (if c then x else y) = .ok t := by
  split
  · exact hx
  · exact hy

/-- A piece that has a text wherever it stands, or nowhere. -/
def Writes (p : Piece) (r : Except Refusal Text) : Prop :=
  ∀ asked allow indent, ∃ f : Text → Text, p.expression asked allow indent = r.map f

theorem Operand.writes {l : Literal} {n : Node} (h : Operand l n) : Writes (piece n) (literalText l) := by
  intro asked allow indent
  obtain ⟨f, hf, -⟩ := h.exists_text id asked allow indent
  exact ⟨f, hf⟩

/-- An operation has a text if there is such an operator and both operands have one. -/
theorem operationText_ok_iff {x y : Except Refusal Text} (hp : ps.get .left = .ok p)
    (hq : ps.get .right = .ok q) (hx : Writes p x) (hy : Writes q y) (symbol : String) (asked : Level)
    (allow : Allow) (indent : Nat) :
    (∃ t, operationText symbol ps asked allow indent = .ok t) ↔
      (∃ own, operatorLevel? symbol = some own) ∧ (∃ t, x = .ok t) ∧ ∃ t, y = .ok t := by
  choose f hf using hx
  choose g hg using hy
  unfold operationText
  cases operatorLevel? symbol with
  | none => simp
  | some own =>
    simp only [hp, hq, bind, Except.bind, hf, hg]
    cases x with
    | error e => simp [Except.map]
    | ok t =>
      cases y with
      | error e => simp [Except.map]
      | ok t' =>
        simp only [Except.map]
        refine iff_of_true ?_ ⟨⟨own, rfl⟩, ⟨t, rfl⟩, ⟨t', rfl⟩⟩
        have hwritten : ∀ t : Text, ∃ u, (pure t : Out) = .ok u := fun t => ⟨t, rfl⟩
        refine ok_ite (hwritten _) ?_
        exact ok_ite (hwritten _) (hwritten _)

end Print

namespace Rule.Folding

open Print

variable (g : NodeId → NodeId) {n l r : Node} {op : BinaryOp}

theorem operands_of_some (h : literalOperands? n = some (op, l, r)) :
    n.form = .binary op ∧ n.child? .left = some l ∧ n.child? .right = some r ∧
      Sandbox.isLiteral l = true ∧ Sandbox.isLiteral r = true := by
  unfold literalOperands? at h
  split at h
  · next hform hleft hright =>
    split at h
    · next hboth =>
      cases h
      rw [Bool.and_eq_true] at hboth
      exact ⟨hform, hleft, hright, hboth⟩
    · cases h
  · cases h

theorem code_of_operands (h : literalOperands? n = some (op, l, r)) :
    n.code = operationText op.symbol (pieces n.children) Level.sequence .all 0 := by
  obtain ⟨hform, -⟩ := operands_of_some h
  unfold Node.code
  rw [piece_eq, hform]
  show expressionText n.form _ _ _ _ = _
  rw [hform]
  rfl

/-- The code of an operator over two literals does not depend on identities. -/
theorem code_relabel (h : literalOperands? n = some (op, l, r)) : (n.relabel g).code = n.code := by
  have h' : literalOperands? (n.relabel g) = some (op, l.relabel g, r.relabel g) := by
    rw [literalOperands?_relabel, h]
    rfl
  obtain ⟨-, hl, hr, hleft, hright⟩ := operands_of_some h
  obtain ⟨-, hl', hr', -⟩ := operands_of_some h'
  obtain ⟨x, hx⟩ := exists_operand hleft
  obtain ⟨y, hy⟩ := exists_operand hright
  rw [code_of_operands h, code_of_operands h']
  refine operationText_congr (get_pieces hl) (get_pieces hr) (get_pieces hl') (get_pieces hr') ?_ ?_ _ _ _ _
  · intro asked allow indent
    obtain ⟨f, hf, hf'⟩ := hx.exists_text g asked allow indent
    rw [hf, hf']
  · intro asked allow indent
    obtain ⟨f, hf, hf'⟩ := hy.exists_text g asked allow indent
    rw [hf, hf']

/-- An operator over two literals can be printed if it is one that there is and both literals can. -/
theorem code_ok_iff (h : literalOperands? n = some (op, l, r)) : (∃ t, n.code = .ok t) ↔
    (∃ own, operatorLevel? op.symbol = some own) ∧ Written l ∧ Written r := by
  obtain ⟨-, hl, hr, hleft, hright⟩ := operands_of_some h
  have hcode : ∀ {x y : Literal}, Operand x l → Operand y r → ((∃ t, n.code = .ok t) ↔
      (∃ own, operatorLevel? op.symbol = some own) ∧ (∃ t, literalText x = .ok t) ∧
        ∃ t, literalText y = .ok t) := by
    intro x y hx hy
    rw [code_of_operands h]
    exact operationText_ok_iff (get_pieces hl) (get_pieces hr) hx.writes hy.writes _ _ _ _
  constructor
  · intro hok
    obtain ⟨x, hx⟩ := exists_operand hleft
    obtain ⟨y, hy⟩ := exists_operand hright
    obtain ⟨hknown, hleft, hright⟩ := (hcode hx hy).mp hok
    exact ⟨hknown, ⟨x, hx, hleft⟩, y, hy, hright⟩
  · rintro ⟨hknown, ⟨x, hx, hleft⟩, y, hy, hright⟩
    exact (hcode hx hy).mpr ⟨hknown, hleft, hright⟩

end Rule.Folding

end Untangle
