import Untangle.Proofs.Sandbox.WellScoped

set_option autoImplicit false

/-!
# Variables of a scope of their own

Block variables may be declared in the scope of a function itself, or in a scope in front of it.  Code
sees no difference, with one exception: a variable without a value keeps the value that it has in its own
scope already.  If it has one in the function's scope only, the two ways differ.
-/

/-! ## Changes of one of two paired machines

Two paired machines stay paired, under another pairing, when the second one gets a scope that the first
one does not need, when a scope changes that no code sees, or when the second one spends steps alone. -/

namespace Untangle.Sandbox.Pairing

variable {σ : Pairing} {ls : Links} {m m' : Machine}

/-- The pairing with one more scope that the first machine does not have. -/
def keeping (σ : Pairing) (g : FrameId) (fr : Frame) : Pairing :=
  { σ with kept := (g, fr) :: σ.kept }

/-- A scope of the second machine that no code sees. -/
theorem Related.keep (hm : Related σ ls m m') (fr : Frame) :
    Related (σ.keeping m'.frames.size fr) ls m { m' with frames := m'.frames.push fr } := by
  have hold : ∀ {g : FrameId}, g < m'.frames.size →
      ({ m' with frames := m'.frames.push fr } : Machine).frame g = m'.frame g := by
    intro g hg
    rw [frame_push, if_neg (Nat.ne_of_lt hg)]
  refine
    { hm with
      cells := fun r => (hm.cells r).adapt rfl fun _ hg => hg
      bounded := fun hl => by simpa using Nat.lt_succ_of_lt (hm.bounded hl)
      whole := fun hl hns => by rw [hold (hm.bounded hl)]; exact hm.whole hl hns
      parted := fun hs hl => by
        rw [hold (hm.headBounded hs), hold (hm.bounded hl)]
        exact hm.parted hs hl
      headBounded := fun hs => by simpa using Nat.lt_succ_of_lt (hm.headBounded hs)
      kept := ?_
      keptApart := ?_
      keptNotHead := ?_
      blanks := fun hg => List.mem_cons_of_mem _ (hm.blanks hg)
      bound := fun hx hs => by rw [hold (hm.headBounded hs)]; exact hm.bound hx hs }
  · intro g fr' hg
    obtain heq | hg := List.mem_cons.mp hg
    · cases heq
      exact ⟨by simp, by rw [frame_push, if_pos rfl]⟩
    · obtain ⟨hlt, hframe⟩ := hm.kept hg
      exact ⟨by simpa using Nat.lt_succ_of_lt hlt, by rw [hold hlt]; exact hframe⟩
  · intro g f fr' l hg hl
    obtain heq | hg := List.mem_cons.mp hg
    · cases heq
      exact Nat.ne_of_lt (hm.bounded hl)
    · exact hm.keptApart hg hl
  · intro g f h fr' hg hs
    obtain heq | hg := List.mem_cons.mp hg
    · cases heq
      exact Nat.ne_of_lt (hm.headBounded hs)
    · exact hm.keptNotHead hg hs

/-- The pairing with one more empty scope. -/
def blanking (σ : Pairing) (g : FrameId) : Pairing :=
  { σ.keeping g blankFrame with blanks := g :: σ.blanks }

/-- An empty scope of the second machine, in which code may run. -/
theorem Related.blank (hm : Related σ ls m m') :
    Related (σ.blanking m'.frames.size) ls m { m' with frames := m'.frames.push blankFrame } := by
  have hkeep := hm.keep blankFrame
  refine
    { hkeep with
      cells := fun r => (hkeep.cells r).adapt rfl fun _ hg => List.mem_cons_of_mem _ hg
      blanks := ?_ }
  intro g hg
  obtain rfl | hg := List.mem_cons.mp hg
  · exact List.mem_cons_self
  · exact hkeep.blanks hg

/-- The pairing with another content of a scope that no code sees. -/
def recording (σ : Pairing) (world : FrameId) (fr : Frame) : Pairing :=
  { σ with kept := (world, fr) :: σ.kept.filter fun e => e.1 != world }

/-- A change of a scope that no code sees. -/
theorem Related.record (hm : Related σ ls m m') {world : FrameId} {fr : Frame}
    (hworld : (world, fr) ∈ σ.kept) (hblank : world ∉ σ.blanks) (g : Frame → Frame) :
    Related (σ.recording world (g fr)) ls m
      { m' with frames := m'.frames.modify world g } := by
  have hlt := (hm.kept hworld).1
  have hother : ∀ {i : FrameId}, i ≠ world →
      ({ m' with frames := m'.frames.modify world g } : Machine).frame i = m'.frame i := by
    intro i hi
    rw [frame_modify, if_neg fun h => hi h.1.symm]
  have hsize : ({ m' with frames := m'.frames.modify world g } : Machine).frames.size =
      m'.frames.size := by simp
  -- What is kept is the changed scope or one that was kept before.
  have hkept : ∀ {i : FrameId} {fr' : Frame}, (i, fr') ∈ (σ.recording world (g fr)).kept →
      (i = world ∧ fr' = g fr) ∨ (i ≠ world ∧ (i, fr') ∈ σ.kept) := by
    intro i fr' hi
    obtain heq | hi := List.mem_cons.mp hi
    · cases heq
      exact .inl ⟨rfl, rfl⟩
    · obtain ⟨hi, hne⟩ := List.mem_filter.mp hi
      exact .inr ⟨by simpa using hne, hi⟩
  refine
    { hm with
      cells := fun r => (hm.cells r).adapt rfl fun _ hg => hg
      bounded := fun hl => by rw [hsize]; exact hm.bounded hl
      whole := fun hl hns => by rw [hother (hm.keptApart hworld hl)]; exact hm.whole hl hns
      parted := fun hs hl => by
        rw [hother (hm.keptNotHead hworld hs), hother (hm.keptApart hworld hl)]
        exact hm.parted hs hl
      headBounded := fun hs => by rw [hsize]; exact hm.headBounded hs
      kept := ?_
      keptApart := ?_
      keptNotHead := ?_
      blanks := ?_
      bound := fun hx hs => by rw [hother (hm.keptNotHead hworld hs)]; exact hm.bound hx hs }
  · intro i fr' hi
    obtain ⟨rfl, rfl⟩ | ⟨hne, hi⟩ := hkept hi
    · refine ⟨by rw [hsize]; exact hlt, ?_⟩
      rw [frame_modify, if_pos ⟨rfl, hlt⟩, (hm.kept hworld).2]
    · rw [hsize, hother hne]
      exact hm.kept hi
  · intro i f fr' l hi hl
    obtain ⟨rfl, -⟩ | ⟨-, hi⟩ := hkept hi
    · exact hm.keptApart hworld hl
    · exact hm.keptApart hi hl
  · intro i f h fr' hi hs
    obtain ⟨rfl, -⟩ | ⟨-, hi⟩ := hkept hi
    · exact hm.keptNotHead hworld hs
    · exact hm.keptNotHead hi hs
  · intro i hi
    have hne : i ≠ world := fun heq => hblank (heq ▸ hi)
    exact List.mem_cons_of_mem _ (List.mem_filter.mpr ⟨hm.blanks hi, by simpa using hne⟩)

/-- The pairing when the second machine is ahead by other steps. -/
def rebased (σ : Pairing) (shift budget : Nat) : Pairing :=
  { σ with shift := shift, budget := budget }

/-- The first machine starts to count anew, the second one goes on with a given count. -/
theorem Related.retime (hm : Related σ ls m m') (used budget : Nat)
    (hbudget : m'.maxSteps = budget + used) :
    Related (σ.rebased used budget) ls { m with steps := 0, maxSteps := budget }
      { m' with steps := used } :=
  { hm with
    cells := fun r => (hm.cells r).adapt rfl fun _ hg => hg
    steps := (Nat.zero_add used).symm
    budget := rfl
    budget' := hbudget }

end Untangle.Sandbox.Pairing

/-! ## A scope of its own, or none -/

namespace Untangle.Sandbox

theorem Machine.after_bind_of_ok {α β : Type} {c : Run α} {f : α → Run β} {m m' : Machine} {a : α}
    (h : c m = .ok a m') : m.after (c >>= f) = m'.after (f a) := by
  unfold Machine.after EStateM.run
  rw [bind_of_ok h]

end Untangle.Sandbox

namespace Untangle.Sandbox.Pairing

variable {α β : Type} {σ : Pairing} {ls : Links} {m m' : Machine}

/-- What follows a computation ends as it does. -/
theorem Follows.of_ok {Q : Links → α → β → Prop} {c : Run α} {c' : Run β} (h : Follows σ ls Q c c')
    (hm : Related σ ls m m') {a : α} {m₁ : Machine} (hrun : c m = .ok a m₁) :
    ∃ b m₁' ls', c' m' = .ok b m₁' ∧ ls <+: ls' ∧ Related σ ls' m₁ m₁' ∧ Q ls' a b := by
  have hout := h ls m m' List.prefix_rfl hm
  rw [hrun] at hout
  cases hrun' : c' m' with
  | ok b m₁' =>
    rw [hrun'] at hout
    obtain ⟨ls', hext, hrel, hq⟩ := hout
    exact ⟨b, m₁', ls', rfl, hext, hrel, hq⟩
  | error e m₁' =>
    rw [hrun'] at hout
    exact hout.elim

/-! ## A scope in front -/

/-- The pairing in which a scope is kept in two. -/
def splitting (σ : Pairing) (f h : FrameId) : Pairing := { σ with split := some (f, h) }

/-- A chain does not see a scope that comes later. -/
theorem Chains.splitting {c c' : ScopeChain} {l : Link} {h : FrameId} (hnone : σ.split = none)
    (hc : Chains σ ls c c') : Chains (σ.splitting ls.length h) (ls ++ [l]) c c' := by
  induction hc with
  | nil => exact .nil
  | blank hg _ ih => exact .blank hg ih
  | @whole f k c c' hf _ _ ih =>
    refine .whole (getElem?_of_extends (List.prefix_append _ _) hf) ?_ ih
    rintro ⟨h', hs⟩
    have hlt := (List.getElem?_eq_some_iff.mp hf).1
    cases hs
    exact Nat.lt_irrefl _ hlt
  | split hs _ _ _ =>
    rw [hnone] at hs
    cases hs

theorem Cells.splitting {d d' : Cell} {l : Link} {h : FrameId} (hnone : σ.split = none)
    (hd : Cells σ ls d d') : Cells (σ.splitting ls.length h) (ls ++ [l]) d d' := by
  obtain ⟨b, p⟩ := d
  obtain ⟨b', p'⟩ := d'
  obtain ⟨hb, rfl⟩ := hd
  cases hb with
  | plain => exact ⟨.plain, rfl⟩
  | array es => exact ⟨.array es, rfl⟩
  | native fn => exact ⟨.native fn, rfl⟩
  | closure code name hc => exact ⟨.closure code name (hc.splitting hnone), rfl⟩

/-- A new scope that the second machine keeps in two. -/
theorem Related.openSplit (hm : Related σ ls m m') (hnone : σ.split = none) (hbound : σ.bound = [])
    (fr : Frame) (hempty : fr.bindings = .empty) :
    Related (σ.splitting ls.length (m'.frames.size + 1)) (ls ++ [⟨m'.frames.size, fr.isFunction⟩])
      { m with frames := m.frames.push fr }
      { m' with frames := (m'.frames.push fr).push blankFrame } := by
  have hnew := (hm.newFrame fr).keep blankFrame
  have hsize : (m'.frames.push fr).size = m'.frames.size + 1 := by simp
  simp only [hsize] at hnew
  have hlink : (ls ++ [(⟨m'.frames.size, fr.isFunction⟩ : Link)])[ls.length]? =
      some ⟨m'.frames.size, fr.isFunction⟩ := List.getElem?_concat_length
  have hnot : ∀ f, ¬ σ.Splits f := by
    rintro f ⟨h, hs⟩
    rw [hnone] at hs
    cases hs
  refine
    { hnew with
      cells := fun r => (hm.cells r).splitting hnone
      whole := fun hl _ => hnew.whole hl (hnot _)
      parted := ?_
      splitBounded := ?_
      headBounded := ?_
      headApart := ?_
      kept := fun hg => hnew.kept (List.mem_cons_of_mem _ hg)
      keptApart := fun hg hl => hnew.keptApart (List.mem_cons_of_mem _ hg) hl
      keptNotHead := ?_
      blanks := hm.blanks
      bound := ?_
      globalWhole := ?_ }
  · intro f h l hs hl
    cases hs
    rw [hlink] at hl
    cases hl
    have hwhole : ({ m with frames := m.frames.push fr } : Machine).frame ls.length = fr := by
      rw [frame_push, if_pos hm.count]
    have hhead : ({ m' with frames := (m'.frames.push fr).push blankFrame } : Machine).frame
        (m'.frames.size + 1) = blankFrame :=
      (hnew.kept List.mem_cons_self).2
    have hrest : ({ m' with frames := (m'.frames.push fr).push blankFrame } : Machine).frame
        m'.frames.size = fr := by
      rw [← hnew.whole hlink (hnot _), hwhole]
    rw [hwhole, hhead, hrest]
    exact ⟨fun name => by rw [hempty]; rfl, rfl, rfl, rfl, rfl⟩
  · intro f h hs
    cases hs
    simp
  · intro f h hs
    cases hs
    simp
  · intro f h g l hs hl
    cases hs
    exact hnew.keptApart List.mem_cons_self hl
  · intro g f h fr' hg hs
    cases hs
    exact (Nat.ne_of_lt (Nat.lt_succ_of_lt (hm.kept hg).1)).symm
  · intro name f h hx _
    have hx' : name ∈ σ.bound := hx
    rw [hbound] at hx'
    cases hx'
  · rintro ⟨h, hs⟩
    obtain ⟨l, hl, -⟩ := hm.globalLink
    have hlt := (List.getElem?_eq_some_iff.mp hl).1
    have heq : ls.length = σ.global := by
      simp only [splitting, Option.some.injEq, Prod.mk.injEq] at hs
      exact hs.1
    exact Nat.lt_irrefl _ (heq ▸ hlt)

/-- A variable gets a place in front with the value that it has. -/
theorem Related.shadow (hm : Related σ ls m m') {f h : FrameId} {name : Text} {v : Value}
    (hs : σ.split = some (f, h)) (hv : (m.frame f).bindings.get? name = some v) :
    Related σ ls m (declared m' h name v) := by
  have hsize := size_declared m' h name v
  refine
    { hm with
      bounded := fun hk => by rw [hsize]; exact hm.bounded hk
      whole := fun hk hns => by
        rw [frame_declared_of_ne m' (hm.headApart hs hk).symm]
        exact hm.whole hk hns
      parted := ?_
      headBounded := fun hs' => by rw [hsize]; exact hm.headBounded hs'
      kept := fun hg => by
        rw [hsize, frame_declared_of_ne m' (hm.keptNotHead hg hs)]
        exact hm.kept hg
      bound := fun hx hs' => contains_frame_declared m' _ _ v (hm.bound hx hs') }
  intro i h' k hs' hk
  rw [hs] at hs'
  cases hs'
  have hpart := hm.parted hs hk
  rw [frame_declared_self m' (hm.headBounded hs), frame_declared_of_ne m' (hm.headApart hs hk).symm]
  refine { hpart with lookup := fun x => ?_ }
  by_cases hx : x = name
  · subst hx
    simp [putVariable, hv]
  · simp only [putVariable, Dict.get?_put_of_ne _ hx]
    exact hpart.lookup x

/-- The pairing with other variables known to be in the scope in front. -/
def binding (σ : Pairing) (names : List Text) : Pairing := { σ with bound := names }

theorem Related.forget {names : List Text} (hm : Related (σ.binding names) ls m m') :
    Related (σ.binding []) ls m m' :=
  { hm with
    cells := fun r => (hm.cells r).adapt rfl fun _ hg => hg
    bound := fun hx => by cases hx }

theorem Related.remember {names : List Text} {f h : FrameId} {name : Text}
    (hm : Related (σ.binding names) ls m m') (hs : σ.split = some (f, h))
    (hx : (m'.frame h).bindings.contains name = true) :
    Related (σ.binding (name :: names)) ls m m' :=
  { hm with
    cells := fun r => (hm.cells r).adapt rfl fun _ hg => hg
    bound := by
      intro x f' h' hmem hs'
      rw [show (σ.binding (name :: names)).split = σ.split from rfl, hs] at hs'
      cases hs'
      obtain rfl | hmem := List.mem_cons.mp hmem
      · exact hx
      · exact hm.bound hmem hs }

/-! ## Declarations -/

/-- The name that a declarator declares. -/
def declaredName? (d : Node) : Option Text := (d.child? .id).bind Node.name?

/-- What a declarator does that ends: it sets a variable to the value of its initializer, or to
`undefined` where the variable does not exist. -/
theorem declareVariable_eq_ok {ev : Evaluator} {c : ScopeChain} {f : FrameId} {d : Node}
    {m m₁ : Machine} (h : Run.declareVariable ev d c f m = .ok () m₁) :
    ∃ name, declaredName? d = some name ∧
      ((∃ init v m₂, d.child? .init = some init ∧ ev.expression init c m = .ok v m₂ ∧
          m₁ = declared m₂ f name v) ∨
        (d.child? .init = none ∧ (m.frame f).bindings.contains name = true ∧ m₁ = m) ∨
        (d.child? .init = none ∧ (m.frame f).bindings.contains name = false ∧
          m₁ = declared m f name .undefined)) := by
  unfold Run.declareVariable at h
  obtain ⟨id, m₂, hid, h⟩ := bind_eq_ok.mp h
  unfold Run.part at hid
  cases hchild : d.child? .id with
  | none => rw [hchild] at hid; cases hid
  | some id' =>
    rw [hchild] at hid
    cases hid
    cases hname : id.name? with
    | none => rw [hname] at h; cases h
    | some name =>
      rw [hname] at h
      refine ⟨name, by simp [declaredName?, hchild, hname], ?_⟩
      cases hinit : d.child? .init with
      | some init =>
        rw [hinit] at h
        obtain ⟨v, m₃, hv, h⟩ := bind_eq_ok.mp h
        cases h
        exact .inl ⟨init, v, m₃, rfl, hv, rfl⟩
      | none =>
        rw [hinit] at h
        obtain ⟨m₃, m₄, hget, h⟩ := bind_eq_ok.mp h
        cases hget
        cases hin : (m.frame f).bindings.contains name with
        | true =>
          simp only [hin, Bool.not_true, Bool.false_eq_true, if_false] at h
          cases h
          exact .inr (.inl ⟨rfl, rfl, rfl⟩)
        | false =>
          simp only [hin, Bool.not_false, if_true] at h
          cases h
          exact .inr (.inr ⟨rfl, rfl, rfl⟩)

section

variable {ev : Evaluator} {c c' : ScopeChain} {f h : FrameId} {d : Node} {name : Text}

theorem part_of_declaredName? (hname : declaredName? d = some name) :
    ∃ id, d.child? .id = some id ∧ id.name? = some name := by
  unfold declaredName? at hname
  cases hid : d.child? .id with
  | none => rw [hid] at hname; cases hname
  | some id => exact ⟨id, rfl, by simpa [hid] using hname⟩

theorem declareVariable_of_init {init : Node} {v : Value} {m₁ : Machine}
    (hname : declaredName? d = some name) (hinit : d.child? .init = some init)
    (hv : ev.expression init c m = .ok v m₁) :
    Run.declareVariable ev d c f m = .ok () (declared m₁ f name v) := by
  obtain ⟨id, hid, hidName⟩ := part_of_declaredName? hname
  unfold Run.declareVariable Run.part
  simp only [hid, hidName, hinit, pure_bind]
  rw [bind_of_ok hv]
  rfl

theorem declareVariable_of_bound (hname : declaredName? d = some name)
    (hinit : d.child? .init = none) (hin : (m.frame f).bindings.contains name = true) :
    Run.declareVariable ev d c f m = .ok () m := by
  obtain ⟨id, hid, hidName⟩ := part_of_declaredName? hname
  unfold Run.declareVariable Run.part
  simp only [hid, hidName, hinit, pure_bind]
  rw [bind_of_ok (rfl : (get : Run Machine) m = .ok m m)]
  simp only [hin, Bool.not_true, Bool.false_eq_true, if_false]
  rfl

theorem declareVariable_of_unbound (hname : declaredName? d = some name)
    (hinit : d.child? .init = none) (hin : (m.frame f).bindings.contains name = false) :
    Run.declareVariable ev d c f m = .ok () (declared m f name .undefined) := by
  obtain ⟨id, hid, hidName⟩ := part_of_declaredName? hname
  unfold Run.declareVariable Run.part
  simp only [hid, hidName, hinit, pure_bind]
  rw [bind_of_ok (rfl : (get : Run Machine) m = .ok m m)]
  simp only [hin, Bool.not_false, if_true]
  rfl

/-- A block variable that is declared in the scope itself and in the scope in front. -/
theorem declareVariable_split {names : List Text} {l : Link} {m₁ : Machine} (hev : Faithful ev)
    (hs : σ.split = some (f, h)) (hl : ls[f]? = some l) (hc : Chains σ ls c c')
    (hm : Related (σ.binding names) ls m m') (hrun : Run.declareVariable ev d c f m = .ok () m₁)
    (hname : declaredName? d = some name)
    (hfree : d.child? .init = none → name ∈ names ∨ m.variable f name = .undefined) :
    ∃ m₁' ls', Run.declareVariable ev d c' h m' = .ok () m₁' ∧ ls <+: ls' ∧
      Related (σ.binding (name :: names)) ls' m₁ m₁' := by
  have hs' : (σ.binding names).split = some (f, h) := hs
  have hlookup := (hm.parted hs' hl).lookup name
  have hcontains : ∀ (n : Machine) (v : Value), h < n.frames.size →
      ((declared n h name v).frame h).bindings.contains name = true := by
    intro n v hlt
    rw [frame_declared_self n hlt]
    simp [putVariable, Dict.contains]
  obtain ⟨name', hname', hcases⟩ := declareVariable_eq_ok hrun
  rw [hname] at hname'
  cases hname'
  obtain ⟨init, v, m₂, hinit, hv, hend⟩ | ⟨hinit, hin, hend⟩ | ⟨hinit, hin, hend⟩ := hcases
  all_goals subst m₁
  · have hc' : Chains (σ.binding names) ls c c' := hc.adapt rfl fun _ hg => hg
    obtain ⟨v', m₂', ls', hv', hext, hrel, rfl⟩ :=
      (hev.expression _ ls init c c' hc').of_ok hm hv
    have hplace : Places (σ.binding names) ls' m₂' name f h :=
      .head hs' (getElem?_of_extends hext hl)
    have hdeclared := hrel.declare hplace v
    exact ⟨_, ls', declareVariable_of_init hname hinit hv', hext,
      hdeclared.remember hs (hcontains _ _ (hrel.headBounded hs'))⟩
  · cases hhead : (m'.frame h).bindings.contains name with
    | true =>
      exact ⟨m', ls, declareVariable_of_bound hname hinit hhead, List.prefix_rfl,
        hm.remember hs hhead⟩
    | false =>
      -- The variable exists behind the scope in front only; then its value is `undefined`.
      have hundefined : m.variable f name = .undefined := by
        obtain hmem | hundefined := hfree hinit
        · rw [hm.bound hmem hs'] at hhead
          cases hhead
        · exact hundefined
      have hv : (m.frame f).bindings.get? name = some .undefined := by
        unfold Dict.contains at hin
        unfold Machine.variable at hundefined
        cases hget : (m.frame f).bindings.get? name with
        | none => rw [hget] at hin; cases hin
        | some v =>
          rw [hget] at hundefined
          exact congrArg some hundefined
      have hshadow := hm.shadow hs' hv
      exact ⟨_, ls, declareVariable_of_unbound hname hinit hhead, List.prefix_rfl,
        hshadow.remember hs (hcontains _ _ (hm.headBounded hs'))⟩
  · have hhead : (m'.frame h).bindings.contains name = false := by
      unfold Dict.contains at hin ⊢
      rw [hlookup] at hin
      cases hget : (m'.frame h).bindings.get? name with
      | none => rfl
      | some v => rw [hget] at hin; cases hin
    have hplace : Places (σ.binding names) ls m' name f h := .head hs' hl
    have hdeclared := hm.declare hplace .undefined
    exact ⟨_, ls, declareVariable_of_unbound hname hinit hhead, List.prefix_rfl,
      hdeclared.remember hs (hcontains _ _ (hm.headBounded hs'))⟩

/-- The names that declarators declare. -/
def declaredNames (ds : List Node) : List Text := ds.filterMap declaredName?

/-- Block variables that are declared in the scope itself and in the scope in front.  A variable
without a value must have none yet, unless it is declared before. -/
theorem declareAll_split {ds : List Node} {names : List Text} {l : Link} {m₁ : Machine}
    (hev : Faithful ev) (hs : σ.split = some (f, h)) (hl : ls[f]? = some l) (hc : Chains σ ls c c')
    (hm : Related (σ.binding names) ls m m') (hrun : Run.declareAll ev c f ds m = .ok () m₁)
    (hfree : ∀ before d after name, ds = before ++ d :: after → declaredName? d = some name →
      d.child? .init = none → name ∈ names ∨ name ∈ declaredNames before ∨
        (m.after (Run.declareAll ev c f before)).variable f name = .undefined) :
    ∃ m₁' ls', Run.declareAll ev c' h ds m' = .ok () m₁' ∧ ls <+: ls' ∧
      Related (σ.binding []) ls' m₁ m₁' := by
  induction ds generalizing ls m m' names with
  | nil =>
    cases hrun
    exact ⟨m', ls, rfl, List.prefix_rfl, hm.forget⟩
  | cons d ds ih =>
    unfold Run.declareAll at hrun ⊢
    obtain ⟨_, m₂, hd, hrest⟩ := bind_eq_ok.mp hrun
    obtain ⟨name, hname, -⟩ := declareVariable_eq_ok hd
    have hfirst : d.child? .init = none → name ∈ names ∨ m.variable f name = .undefined := by
      intro hinit
      obtain h | h | h := hfree [] d ds name rfl hname hinit
      · exact .inl h
      · cases h
      · exact .inr h
    obtain ⟨m₂', ls₂, hd', hext, hrel⟩ := declareVariable_split hev hs hl hc hm hd hname hfirst
    have hlater : ∀ before d' after name', ds = before ++ d' :: after →
        declaredName? d' = some name' → d'.child? .init = none → name' ∈ name :: names ∨
          name' ∈ declaredNames before ∨
          (m₂.after (Run.declareAll ev c f before)).variable f name' = .undefined := by
      intro before d' after name' hds hname' hinit'
      obtain h | h | h := hfree (d :: before) d' after name' (by rw [hds]; rfl) hname' hinit'
      · exact .inl (List.mem_cons_of_mem _ h)
      · rw [declaredNames, List.filterMap_cons_some hname] at h
        obtain rfl | h := List.mem_cons.mp h
        · exact .inl List.mem_cons_self
        · exact .inr (.inl h)
      · refine .inr (.inr ?_)
        have hafter : m.after (Run.declareAll ev c f (d :: before)) =
            m₂.after (Run.declareAll ev c f before) := Machine.after_bind_of_ok hd
        rw [← hafter]
        exact h
    obtain ⟨m₁', ls₁, hrest', hext', hrel'⟩ :=
      ih (getElem?_of_extends hext hl) (hc.mono hext) hrel hrest hlater
    exact ⟨m₁', ls₁, by rw [bind_of_ok hd']; exact hrest', hext.trans hext', hrel'⟩

end

end Untangle.Sandbox.Pairing
