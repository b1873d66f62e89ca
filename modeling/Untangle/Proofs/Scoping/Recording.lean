import Untangle.Proofs.Scoping.Declaring

set_option autoImplicit false

/-!
# Lookup and records

As the scopes stand for those of the tree, the lookup of a name finds the innermost one around it that
declares the name.  A name that is read or written is recorded with what it refers to in this way, which
keeps an invariant of the records: each of them was made at such a name, or for a declaration.
-/

namespace Untangle

namespace Analysis

variable {root : Node} {a₀ a a' a'' : Analysis} {o : Occurrence} {i : SiteId}
  {k outer inner : ScopeId} {around : List Enclosure} {u : Usage} {b : BindingId} {name : Text}

/-! ## Lookup -/

/-- A binding of a name in the scope that a node opened. -/
structure BindingOf (a : Analysis) (n : Node) (name : Text) (b : BindingId) : Prop where
  known : b < a.bindings.size
  name : (a.binding b).name = name
  scope : OpenedBy a n (a.binding b).scope

theorem OpenedBy.unique (h : Founded root a) {n : Node} {k k' : ScopeId} (hk : OpenedBy a n k)
    (hk' : OpenedBy a n k') : k = k' := by
  have hopened := h.scopes k hk.known
  rw [hk.node, ← hk'.node, h.scopes k' hk'.known] at hopened
  exact (Option.some.inj hopened).symm

theorem Represents.unique (h : Founded root a) {k k' : ScopeId} (hk : Represents a around k)
    (hk' : Represents a around k') : k = k' := by
  obtain ⟨e, he, hopened⟩ := hk.lexicalHost
  obtain ⟨e', he', hopened'⟩ := hk'.lexicalHost
  cases he.symm.trans he'
  exact hopened.unique h hopened'

theorem lookup_eq (a : Analysis) (name : Text) (k : ScopeId) :
    a.lookup name k =
      match (a.scope k).bindings.get? name with
      | some b => some b
      | none =>
        match (a.scope k).parent with
        | none => none
        | some p => if p < k then a.lookup name p else none :=
  lookup.eq_def a name k

theorem lookup_known (h : Founded root a) (hb : a.lookup name k = some b) : b < a.bindings.size := by
  induction k using Nat.strongRecOn with
  | ind k ih =>
    rw [lookup_eq] at hb
    split at hb
    · next hget =>
      cases hb
      exact (h.names k name b hget).1
    · split at hb
      · cases hb
      · split at hb
        · next hlt => exact ih _ hlt hb
        · cases hb

/-- The names of a scope are declared in it. -/
theorem hasName_of_get? (hroot : Script root) (h : Founded root a) {e : Enclosure}
    (he : e.opener.Inside root) (hk : OpenedBy a e.opener k)
    (hb : (a.scope k).bindings.get? name = some b) :
    e.HasName root name ∧ BindingOf a e.opener name b := by
  obtain ⟨hlt, hname, hscope⟩ := h.names k name b hb
  obtain ⟨e', hbinds, hopened, -⟩ := h.bindings b hlt
  rw [hname] at hbinds
  rw [hscope] at hopened
  have hopener : e'.opener = e.opener := by
    obtain ⟨o, d, ho, hd⟩ := hbinds
    exact Node.Inside.eq_of_id hroot.identities (hd.inside ho).2 he (hopened.node.symm.trans hk.node)
  refine ⟨⟨e'.part, ?_⟩, hlt, hname, hscope ▸ hk⟩
  rw [← hopener]
  exact hbinds

/-- A name that a scope does not have is not declared in it. -/
theorem not_hasName_of_get? (h : Settled root a) {e : Enclosure} (hk : OpenedBy a e.opener k)
    (hnone : (a.scope k).bindings.get? name = none) : ¬ e.HasName root name := by
  rintro ⟨part, o, d, ho, hd⟩
  obtain ⟨k', hk', hsome⟩ := h.holds o ho d ⟨e.opener, part⟩ name hd
  rw [hk'.unique h.founded hk, hnone] at hsome
  cases hsome

/-- A class has no scope, so that nothing is declared in it. -/
theorem not_hasName_of_class (hroot : Script root) (h : Settled root a) {e : Enclosure}
    (he : e.opener.Inside root) (hclass : e.opener.form.isClassExpression = true) :
    ¬ e.HasName root name := by
  rintro ⟨part, o, d, ho, hd⟩
  obtain ⟨k, hk, -⟩ := h.holds o ho d ⟨e.opener, part⟩ name hd
  obtain ⟨o', ho', hid, hscope, -⟩ := h.founded.opened _ k (h.founded.scopes k hk.known)
  have hnode : o'.node = e.opener :=
    Node.Inside.eq_of_id hroot.identities ho'.inside he (hid.trans hk.node)
  rw [← hnode, hscope.2] at hclass
  cases hclass

/-- The lookup of a name finds the binding of the innermost scope in which it is declared, if there is
one. -/
theorem lookup_innermost (hroot : Script root) (h : Settled root a) (name : Text)
    (haround : ∀ e ∈ around, e.opener.Inside root) (hk : Represents a around k) :
    (∃ s b, Innermost (fun e => e.HasName root name) around s ∧ a.lookup name k = some b ∧
      BindingOf a s name b) ∨
    (∀ s, ¬ Innermost (fun e => e.HasName root name) around s) ∧ a.lookup name k = none := by
  induction hk with
  | @outermost e k hopened _ hparent _ =>
    rw [lookup_eq]
    cases hget : (a.scope k).bindings.get? name with
    | some b =>
      obtain ⟨hhas, hbinding⟩ :=
        hasName_of_get? hroot h.founded (haround e List.mem_cons_self) hopened hget
      exact .inl ⟨_, b, .here hhas, rfl, hbinding⟩
    | none =>
      have hnot : ¬ e.HasName root name := not_hasName_of_get? h hopened hget
      exact .inr ⟨fun s hs => innermost_nil s ((innermost_cons_of_not hnot [] s).mp hs), by rw [hparent]⟩
  | @inner e around k p hopened _ hparent hlt _ _ ih =>
    rw [lookup_eq]
    cases hget : (a.scope k).bindings.get? name with
    | some b =>
      obtain ⟨hhas, hbinding⟩ :=
        hasName_of_get? hroot h.founded (haround e List.mem_cons_self) hopened hget
      exact .inl ⟨_, b, .here hhas, rfl, hbinding⟩
    | none =>
      have houter := innermost_cons_of_not (P := fun e => e.HasName root name)
        (not_hasName_of_get? h hopened hget) around
      simp only [hparent, if_pos hlt, houter]
      exact ih fun e' he' => haround e' (List.mem_cons_of_mem e he')
  | @unopened e around k hclass _ ih =>
    have houter := innermost_cons_of_not (P := fun e => e.HasName root name)
      (not_hasName_of_class hroot h (haround e List.mem_cons_self) hclass) around
    simp only [houter]
    exact ih fun e' he' => haround e' (List.mem_cons_of_mem e he')

/-! ## Records -/

theorem Stands.at {n : Node} (h : Stands a i n) : a.At i n.id := by
  have hi := h.known
  refine ⟨a.sites[i], Array.getElem?_eq_getElem hi, ?_⟩
  rw [← h.node, site, Array.getD_eq_getD_getElem?, Array.getElem?_eq_getElem hi]
  rfl

/-- Where a binding is read, or written. -/
def records (a : Analysis) (u : Usage) (b : BindingId) : Dict NodeId SiteId :=
  match u with
  | .write => (a.binding b).writes
  | _ => (a.binding b).reads

/-- A node is recorded at a site that leads to it. -/
def Records (a : Analysis) (u : Usage) (b : BindingId) (id : NodeId) : Prop :=
  ∃ i n, (a.records u b).get? id = some i ∧ Stands a i n ∧ n.id = id

/-- What a name refers to when the declarations are known. -/
def Refers (a₀ : Analysis) (o : Occurrence) (b : BindingId) : Prop :=
  ∃ name k, o.node.form = .identifier name ∧ Represents a₀ o.around k ∧ a₀.lookup name k = some b

theorem Refers.unique {b' : BindingId} (h : Founded root a₀) (hb : Refers a₀ o b)
    (hb' : Refers a₀ o b') : b = b' := by
  obtain ⟨name, k, hform, hk, hlookup⟩ := hb
  obtain ⟨name', k', hform', hk', hlookup'⟩ := hb'
  cases hform.symm.trans hform'
  cases hk.unique h hk'
  exact Option.some.inj (hlookup.symm.trans hlookup')

/-- Scopes and names stay as they are. -/
structure SameNames (a₀ a : Analysis) : Prop where
  further : Extends a₀ a
  scopes : a.scopes = a₀.scopes
  opened : a.opened = a₀.opened
  size : a.bindings.size = a₀.bindings.size
  bindings : ∀ b, (a.binding b).name = (a₀.binding b).name ∧ (a.binding b).scope = (a₀.binding b).scope

theorem SameNames.refl (a : Analysis) : SameNames a a :=
  ⟨.refl a, rfl, rfl, rfl, fun _ => ⟨rfl, rfl⟩⟩

theorem SameNames.trans (h : SameNames a₀ a) (h' : SameNames a a') : SameNames a₀ a' :=
  ⟨h.further.trans h'.further, h'.scopes.trans h.scopes, h'.opened.trans h.opened, h'.size.trans h.size,
    fun b => ⟨(h'.bindings b).1.trans (h.bindings b).1, (h'.bindings b).2.trans (h.bindings b).2⟩⟩

/-- Lookups depend on the scopes alone. -/
theorem lookup_congr (h : a'.scopes = a.scopes) (name : Text) (k : ScopeId) :
    a'.lookup name k = a.lookup name k := by
  have hscope : ∀ k, a'.scope k = a.scope k := fun k => by rw [scope, h, scope]
  induction k using Nat.strongRecOn with
  | ind k ih =>
    rw [Analysis.lookup_eq, Analysis.lookup_eq, hscope]
    split
    · rfl
    · split
      · rfl
      · split
        · next hlt => exact ih _ hlt
        · rfl

theorem SameNames.lookup_eq (h : SameNames a₀ a) (name : Text) (k : ScopeId) :
    a.lookup name k = a₀.lookup name k := lookup_congr h.scopes name k

/-- What the pass has recorded so far: of all that is recorded, names at which something is read or
written and to which they refer, or declarations as before. -/
structure Recorded (root : Node) (a₀ a : Analysis) : Prop where
  same : SameNames a₀ a
  sound : ∀ u, u = .read ∨ u = .write → ∀ b, ∀ i ∈ (a.records u b).values,
    (u = .write ∧ Declarer root a i) ∨
      ∃ o, Occurrence.Of root o ∧ Used root u o.node ∧ Refers a₀ o b ∧ a.At i o.node.id
  keyed : ∀ b, (a.binding b).reads.keys.Nodup ∧ ∀ e ∈ (a.binding b).reads.entries, a.At e.2 e.1
  resolved : ∀ id b, a.resolved.get? id = some b →
    ∃ o, Occurrence.Of root o ∧ o.node.id = id ∧ Refers a₀ o b

/-- The places where a name is read are all different. -/
theorem Recorded.nodup_reads (h : Recorded root a₀ a) (b : BindingId) :
    (a.binding b).reads.values.Nodup := by
  obtain ⟨hkeys, hentries⟩ := h.keyed b
  refine List.Nodup.map_on (fun e he e' he' hsame => ?_) hkeys.of_map
  refine List.inj_on_of_nodup_map hkeys he he' ?_
  rw [← (hentries e he).node_eq, hsame, (hentries e' he').node_eq]

/-- What is recorded stays recorded. -/
structure Remembers (a a' : Analysis) : Prop where
  further : Extends a a'
  records : ∀ u, u = .read ∨ u = .write → ∀ b id, Records a u b id → Records a' u b id

theorem Remembers.refl (a : Analysis) : Remembers a a := ⟨.refl a, fun _ _ _ _ h => h⟩

theorem Remembers.trans (h : Remembers a a') (h' : Remembers a' a'') : Remembers a a'' :=
  ⟨h.further.trans h'.further, fun u hu b id hid => h'.records u hu b id (h.records u hu b id hid)⟩

theorem Declarer.further (h : Extends a a') (hi : Declarer root a i) : Declarer root a' i := by
  obtain ⟨o, d, e, name, ho, hd, hat⟩ := hi
  exact ⟨o, d, e, name, ho, hd, h.at hat⟩

/-- Nothing new is recorded. -/
theorem Recorded.of_same (h : Recorded root a₀ a) (hsame : SameNames a a')
    (hbindings : a'.bindings = a.bindings) (hresolved : a'.resolved = a.resolved) :
    Recorded root a₀ a' ∧ Remembers a a' := by
  have hrecords : ∀ u b, a'.records u b = a.records u b := fun u b => by
    unfold Analysis.records binding
    rw [hbindings]
  refine ⟨⟨h.same.trans hsame, fun u hu b i hi => ?_, fun b => ?_, hresolved ▸ h.resolved⟩,
    hsame.further, fun u _ b id hid => ?_⟩
  · rw [hrecords] at hi
    obtain ⟨hwrite, hdeclarer⟩ | ⟨o, ho, hused, hrefers, hat⟩ := h.sound u hu b i hi
    · exact .inl ⟨hwrite, hdeclarer.further hsame.further⟩
    · exact .inr ⟨o, ho, hused, hrefers, hsame.further.at hat⟩
  · rw [binding, hbindings]
    exact ⟨(h.keyed b).1, fun e he => hsame.further.at ((h.keyed b).2 e he)⟩
  · obtain ⟨i, n, hi, hn, hnode⟩ := hid
    exact ⟨i, n, by rw [hrecords, hi], hsame.further.stands hn, hnode⟩

theorem recorded_addSite (h : Recorded root a₀ a) (s : Site) :
    Recorded root a₀ (a.addSite s).2 ∧ Remembers a (a.addSite s).2 :=
  h.of_same ⟨extends_addSite a s, rfl, rfl, rfl, fun _ => ⟨rfl, rfl⟩⟩ rfl rfl

/-- The analysis in which a name is recorded. -/
def withRecord (a : Analysis) (u : Usage) (b : BindingId) (i : SiteId) : Analysis :=
  match u with
  | .write => a.addWrite b i
  | _ => { a.addRead b i with resolved := a.resolved.put (a.site i).node b }

theorem binding_modifyBinding_of_lt (a : Analysis) (hb : b < a.bindings.size) (f : Binding → Binding)
    (b' : BindingId) :
    (a.modifyBinding b f).binding b' = if b' = b then f (a.binding b') else a.binding b' := by
  simp only [binding, modifyBinding, Array.getD_eq_getD_getElem?, Array.getElem?_modify]
  by_cases heq : b' = b
  · subst heq
    rw [if_pos rfl, if_pos rfl, Array.getElem?_eq_getElem hb]
    rfl
  · rw [if_neg heq, if_neg (Ne.symm heq)]

section NewRecord

variable (hu : u = .read ∨ u = .write) (hb : b < a.bindings.size)

include hu

include hb in
theorem records_withRecord {u' : Usage} (hu' : u' = .read ∨ u' = .write) (b' : BindingId) :
    (a.withRecord u b i).records u' b' =
      if u' = u ∧ b' = b then (a.records u b).put (a.site i).node i else a.records u' b' := by
  have hread := binding_modifyBinding_of_lt a hb
    (fun x => { x with reads := x.reads.put (a.site i).node i }) b'
  have hwrite := binding_modifyBinding_of_lt a hb
    (fun x => { x with writes := x.writes.put (a.site i).node i }) b'
  obtain rfl | rfl := hu
  · have hbinding : (a.withRecord .read b i).binding b' = _ := hread
    obtain rfl | rfl := hu'
    · simp only [records, hbinding]
      by_cases heq : b' = b <;> simp [heq]
    · simp only [records, hbinding]
      by_cases heq : b' = b <;> simp [heq]
  · have hbinding : (a.withRecord .write b i).binding b' = _ := hwrite
    obtain rfl | rfl := hu'
    · simp only [records, hbinding]
      by_cases heq : b' = b <;> simp [heq]
    · simp only [records, hbinding]
      by_cases heq : b' = b <;> simp [heq]

theorem same_withRecord : SameNames a (a.withRecord u b i) := by
  have hmodify : ∀ {f : Binding → Binding}, (∀ x, (f x).name = x.name ∧ (f x).scope = x.scope) →
      ∀ b', ((a.modifyBinding b f).binding b').name = (a.binding b').name ∧
        ((a.modifyBinding b f).binding b').scope = (a.binding b').scope := by
    intro f hf b'
    obtain heq | heq := binding_modifyBinding a b b' f
    · rw [heq]
      exact hf _
    · rw [heq]
      exact ⟨rfl, rfl⟩
  obtain rfl | rfl := hu
  · exact ⟨.of_eq rfl rfl rfl, rfl, rfl, Array.size_modify .., hmodify fun _ => ⟨rfl, rfl⟩⟩
  · exact ⟨.of_eq rfl rfl rfl, rfl, rfl, Array.size_modify .., hmodify fun _ => ⟨rfl, rfl⟩⟩

include hb in
/-- A name at which something is read or written is recorded with what it refers to. -/
theorem recorded_withRecord (h : Recorded root a₀ a) (ho : Occurrence.Of root o)
    (hused : Used root u o.node) (hrefers : Refers a₀ o b) (hn : Stands a i o.node) :
    Recorded root a₀ (a.withRecord u b i) ∧ Remembers a (a.withRecord u b i) ∧
      Records (a.withRecord u b i) u b o.node.id := by
  have hsame : SameNames a (a.withRecord u b i) := same_withRecord hu
  have hrecords := fun {u' : Usage} (hu' : u' = .read ∨ u' = .write) b' =>
    records_withRecord (i := i) hu hb hu' b'
  have hown : (a.withRecord u b i).records u b = (a.records u b).put (a.site i).node i := by
    rw [hrecords hu, if_pos ⟨rfl, rfl⟩]
  refine ⟨⟨h.same.trans hsame, fun u' hu' b' j hj => ?_, fun b' => ?_, fun id b' hid => ?_⟩,
    ⟨hsame.further, fun u' hu' b' id hid => ?_⟩, i, o.node, ?_, hsame.further.stands hn, rfl⟩
  · rw [hrecords hu'] at hj
    have hold : j ∈ (a.records u' b').values → (u' = .write ∧ Declarer root (a.withRecord u b i) j) ∨
        ∃ o, Occurrence.Of root o ∧ Used root u' o.node ∧ Refers a₀ o b' ∧
          (a.withRecord u b i).At j o.node.id := by
      intro hj
      obtain ⟨hwrite, hdeclarer⟩ | ⟨o', ho', hused', hrefers', hat⟩ := h.sound u' hu' b' j hj
      · exact .inl ⟨hwrite, hdeclarer.further hsame.further⟩
      · exact .inr ⟨o', ho', hused', hrefers', hsame.further.at hat⟩
    split at hj
    · next heq =>
      obtain ⟨rfl, rfl⟩ := heq
      obtain rfl | hj := Dict.mem_values_put hj
      · exact .inr ⟨o, ho, hused, hrefers, hsame.further.at hn.at⟩
      · exact hold hj
    · exact hold hj
  · obtain ⟨hkeys, hentries⟩ := h.keyed b'
    have hreads : ((a.withRecord u b i).binding b').reads = _ := hrecords (.inl rfl) b'
    rw [hreads]
    split
    · next heq =>
      obtain ⟨rfl, rfl⟩ := heq
      refine ⟨Dict.nodup_keys_put hkeys _ i, fun e he => hsame.further.at ?_⟩
      obtain rfl | he := Dict.mem_entries_put he
      · exact hn.node ▸ hn.at
      · exact hentries e he
    · exact ⟨hkeys, fun e he => hsame.further.at (hentries e he)⟩
  · obtain rfl | rfl := hu
    · by_cases heq : id = (a.site i).node
      · subst heq
        cases hid.symm.trans (Dict.get?_put_self ..)
        exact ⟨o, ho, hn.node.symm, hrefers⟩
      · exact h.resolved id b' ((Dict.get?_put_of_ne a.resolved heq b).symm.trans hid)
    · exact h.resolved id b' hid
  · obtain ⟨j, n, hj, hstands, hnode⟩ := hid
    unfold Records
    rw [hrecords hu']
    split
    · next heq =>
      obtain ⟨rfl, rfl⟩ := heq
      by_cases heq : id = (a.site i).node
      · exact ⟨i, o.node, heq ▸ Dict.get?_put_self .., hsame.further.stands hn, hn.node.symm.trans heq.symm⟩
      · exact ⟨j, n, (Dict.get?_put_of_ne _ heq i).trans hj, hsame.further.stands hstands, hnode⟩
    · exact ⟨j, n, hj, hsame.further.stands hstands, hnode⟩
  · rw [hown, ← hn.node]
    exact Dict.get?_put_self ..

end NewRecord

/-- A name is recorded with what it refers to: it was not recorded with anything else before. -/
theorem addReference_eq (hroot : Script root) (hfounded : Founded root a₀) (h : Recorded root a₀ a)
    (ho : Occurrence.Of root o) (hu : u = .read ∨ u = .write) (hname : o.node.form = .identifier name)
    (hn : Stands a i o.node) (hrep : Represents a₀ o.around (a.site i).scope) :
    a.addReference i u name =
      match a₀.lookup name (a.site i).scope with
      | some b => a.withRecord u b i
      | none => a := by
  unfold addReference
  rw [h.same.lookup_eq]
  cases hb : a₀.lookup name (a.site i).scope with
  | none => rfl
  | some b =>
    obtain rfl | rfl := hu
    · have hnone : ((a.resolved.get? (a.site i).node).filter fun b' => b' != b) = none := by
        rw [Option.filter_eq_none_iff]
        intro b' hb'
        obtain ⟨o', ho', hid, hrefers⟩ := h.resolved _ b' hb'
        cases ho'.unique_of_id hroot.identities ho (hid.trans hn.node)
        have heq := hrefers.unique hfounded ⟨name, _, hname, hrep, hb⟩
        simp [heq]
      simp only [hnone]
      rfl
    · rfl

theorem addReference_declare : a.addReference i .declare name = a := by
  unfold addReference
  split <;> rfl

/-- What an identifier leaves. -/
theorem recorded_addReference (hroot : Script root) (hs : Settled root a₀) (h : Recorded root a₀ a)
    (ho : Occurrence.Of root o) (hu : u = .read ∨ u = .write) (hname : o.node.form = .identifier name)
    (hused : Used root u o.node) (hn : Stands a i o.node)
    (hrep : Represents a₀ o.around (a.site i).scope) :
    Recorded root a₀ (a.addReference i u name) ∧ Remembers a (a.addReference i u name) ∧
      ∀ b, Refers a₀ o b → Records (a.addReference i u name) u b o.node.id := by
  rw [addReference_eq hroot hs.founded h ho hu hname hn hrep]
  cases hb : a₀.lookup name (a.site i).scope with
  | none =>
    refine ⟨h, .refl a, fun b hrefers => ?_⟩
    obtain ⟨name', k, hname', hk, hlookup⟩ := hrefers
    cases hname.symm.trans hname'
    cases hk.unique hs.founded hrep
    cases hb.symm.trans hlookup
  | some b =>
    have hrefers : Refers a₀ o b := ⟨name, _, hname, hrep, hb⟩
    have hlt : b < a.bindings.size := by
      rw [h.same.size]
      exact lookup_known hs.founded hb
    obtain ⟨hrecorded, hremembers, hrecords⟩ := recorded_withRecord hu hlt h ho hused hrefers hn
    refine ⟨hrecorded, hremembers, fun b' hrefers' => ?_⟩
    cases hrefers.unique hs.founded hrefers'
    exact hrecords

end Analysis

end Untangle
