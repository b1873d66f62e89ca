import Untangle.Proofs.Sandbox.Conduct
import Untangle.Proofs.Sandbox.Reached
import Untangle.Proofs.Sandbox.Realm

set_option autoImplicit false

/-!
# What evaluations leave as it was

Code changes a global variable only by an assignment or an update of that name: declarations stay inside
of the function around them.  Code changes a member of an object only where an assignment, an update or
an operator says so, and apart from that built-in functions change the arrays on which they are called.
Code calls such a function on an array by its name, by a computed name, or by way of another function that
chooses the receiver, as long as no array has one of its own.

In the scopes for trying code out, assignments to names that nothing declares stop at the scope in front
of the global one.  A global variable that exists is found before that, and a function that was made
elsewhere does not see the scope in front; both can be changed from there.

The main theorems are `Registry.evaluate_changes` and `Machine.attempts_change`.  The conditions are
sufficient and are read off the code in reach: all functions of the machine count as being in reach.
-/

namespace Untangle.Sandbox

/-- The value of a global variable, if there is one. -/
def Machine.globalVariable? (m : Machine) (name : Text) : Option Value :=
  (m.frame m.global).bindings.get? name

theorem Machine.lt_of_capturesGlobals (m : Machine) {f : FrameId}
    (h : (m.frame f).capturesGlobals = true) : f < m.frames.size := by
  by_contra hge
  rw [show m.frame f = default by simp [frame, Array.getD_eq_getD_getElem?, hge]] at h
  cases h

/-! ## One global variable -/

/-- A global variable that is watched: its name, its value if it has one, the global scope, and a scope
that may stand in front of it. -/
structure Watch where
  name : Text
  value : Option Value
  global : FrameId
  front : Option FrameId
  trees : List Node

namespace Watch

/-- A chain with the scope in front of the global one. -/
def Fronted (w : Watch) : ScopeChain → Prop
  | [] => False
  | f :: scopes => f ≠ w.global ∧ (w.front = some f ∨ w.Fronted scopes)

/-- The watched variable is as it was, and the scope in front captures assignments. -/
structure Unchanged (w : Watch) (m : Machine) : Prop where
  global : m.global = w.global
  exists_global : w.global < m.frames.size
  trees : m.trees = w.trees
  value : (m.frame w.global).bindings.get? w.name = w.value
  front : ∀ f, w.front = some f → (m.frame f).capturesGlobals = true

variable {w : Watch} {m : Machine} {scopes : ScopeChain}

theorem Unchanged.globalVariable? (hm : w.Unchanged m) : m.globalVariable? w.name = w.value := by
  unfold Machine.globalVariable?
  rw [hm.global]
  exact hm.value

/-- With the scope in front, an assignment to a name that nothing declares stays away from the global
scope. -/
theorem Fronted.firstScope (h : w.Fronted scopes) (hm : w.Unchanged m) :
    ∃ f, m.firstScope (·.capturesGlobals) scopes = some f ∧ f ≠ w.global := by
  induction scopes with
  | nil => exact h.elim
  | cons f scopes ih =>
    obtain ⟨hne, hrest⟩ := h
    unfold Machine.firstScope
    split
    · exact ⟨f, rfl, hne⟩
    · next hcaptures =>
      refine ih (hrest.resolve_left fun hfront => hcaptures ?_)
      exact hm.front f hfront

theorem contains_of_findScope {name : Text} {f : FrameId} (h : m.findScope name scopes = some f) :
    (m.frame f).bindings.contains name = true := by
  induction scopes with
  | nil => cases h
  | cons g scopes ih =>
    unfold Machine.findScope at h
    split at h
    · next hcontains =>
      cases h
      exact hcontains
    · exact ih h

/-- With the scope in front, a name that is not global yet is set in another scope. -/
theorem Fronted.assignee_ne (h : w.Fronted scopes) (hm : w.Unchanged m) (hvalue : w.value = none) :
    m.assignee scopes w.name ≠ w.global := by
  unfold Machine.assignee
  cases hfound : m.findScope w.name scopes with
  | some f =>
    intro heq
    have hcontains := contains_of_findScope hfound
    rw [show f = w.global from heq, Dict.contains, hm.value, hvalue] at hcontains
    cases hcontains
  | none =>
    obtain ⟨f, hfirst, hne⟩ := h.firstScope hm
    rw [hfirst]
    exact hne

end Watch

/-- The policy that code sets the watched variable only in scopes with the one in front, and only if it is
not global yet. -/
def Policy.sparing (w : Watch) : Policy where
  Fit n scopes := n.Free w.trees (Node.Assigns w.name) ∨ w.value = none ∧ w.Fronted scopes
  Own f name := f ≠ w.global ∨ name ≠ w.name
  guarded f := f = w.global
  Holds := w.Unchanged
  part hn hc := hn.imp_left fun h => h.of_comes (.part .self hc)
  slot _ hn := hn.imp_left fun h => h.inRole Node.assigns_inRole
  inner hn hf := by
    refine hn.imp_right fun h => ⟨h.1, ?_, .inr h.2⟩
    exact (hf w.name).resolve_right fun h => h rfl
  present hm hn := by
    rw [hm.trees]
    exact hn.imp_left fun h => h.of_comes (.present .self)
  assigned {m n scopes name} hm hn hname := by
    by_cases heq : name = w.name
    · subst heq
      obtain hfree | ⟨hvalue, hfronted⟩ := hn
      · exact absurd hname (hfree n .self)
      · exact .inl (hfronted.assignee_ne hm hvalue)
    · exact .inr heq

theorem Policy.lasting_sparing (w : Watch) : (Policy.sparing w).Lasting where
  room := trivial
  fresh hm := Nat.ne_of_gt hm.exists_global
  own hne _ := .inl hne
  meter _ hm := ⟨hm.global, hm.exists_global, hm.trees, hm.value, hm.front⟩
  allocate _ hm := ⟨hm.global, hm.exists_global, hm.trees, hm.value, hm.front⟩
  setCell _ hm _ := ⟨hm.global, hm.exists_global, hm.trees, hm.value, hm.front⟩
  newFrame {m} isFunction hm := by
    have hframe : ∀ f, f < m.frames.size →
        ({ m with frames := m.frames.push ⟨.empty, isFunction, false⟩ } : Machine).frame f =
          m.frame f := by
      intro f hf
      rw [Pairing.frame_push, if_neg (Nat.ne_of_lt hf)]
    refine ⟨hm.global, Machine.lt_size_newFrame hm.exists_global _, hm.trees, ?_, fun f hf => ?_⟩
    · rw [hframe _ hm.exists_global]
      exact hm.value
    · have hcaptures := hm.front f hf
      rw [hframe f (m.lt_of_capturesGlobals hcaptures)]
      exact hcaptures
  declare {m f name} v hm hown := by
    refine ⟨hm.global, ?_, hm.trees, ?_, fun g hg => ?_⟩
    · rw [Pairing.size_declared]
      exact hm.exists_global
    · rw [Pairing.frame_declared]
      split
      · next heq =>
        have hne : w.name ≠ name := (hown.resolve_left fun h => h heq.1).symm
        exact (Dict.get?_put_of_ne _ hne v).trans hm.value
      · exact hm.value
    · rw [Pairing.frame_declared]
      split
      · exact hm.front g hg
      · exact hm.front g hg

/-! ## All variables of one name -/

/-- Later on, the variables of a name are as they were in all scopes that a machine had. -/
structure Machine.Retained (m₀ : Machine) (x : Text) (m : Machine) : Prop where
  trees : m.trees = m₀.trees
  size : m₀.frames.size ≤ m.frames.size
  value : ∀ f < m₀.frames.size, (m.frame f).bindings.get? x = (m₀.frame f).bindings.get? x

/-- A new scope leaves the scopes as they are that there were. -/
theorem Machine.Retained.push {m₀ m : Machine} {x : Text} (hm : m₀.Retained x m) (fr : Frame) :
    m₀.Retained x { m with frames := m.frames.push fr } := by
  refine ⟨hm.trees, ?_, fun f hf => ?_⟩
  · show _ ≤ (m.frames.push fr).size
    rw [Array.size_push]
    exact Nat.le_succ_of_le hm.size
  · rw [Pairing.frame_push, if_neg (Nat.ne_of_lt (Nat.lt_of_lt_of_le hf hm.size))]
    exact hm.value f hf

/-- The policy that code sets no variable of a name in the scopes that a machine has. -/
def Policy.retaining (m₀ : Machine) (x : Text) : Policy where
  Fit n _ := n.Free m₀.trees (Node.Assigns x)
  Own f name := m₀.frames.size ≤ f ∨ name ≠ x
  guarded f := f < m₀.frames.size
  Holds := m₀.Retained x
  part hn hc := hn.of_comes (.part .self hc)
  slot _ hn := hn.inRole Node.assigns_inRole
  inner hn _ := hn
  present hm hn := by
    rw [hm.trees]
    exact hn.of_comes (.present .self)
  assigned _ hn hname := by
    right
    rintro rfl
    exact hn _ .self hname

theorem Policy.lasting_retaining (m₀ : Machine) (x : Text) : (Policy.retaining m₀ x).Lasting where
  room := trivial
  fresh hm := Nat.not_lt.mpr hm.size
  own hf _ := .inl (Nat.not_lt.mp hf)
  meter _ hm := ⟨hm.trees, hm.size, hm.value⟩
  allocate _ hm := ⟨hm.trees, hm.size, hm.value⟩
  setCell _ hm _ := ⟨hm.trees, hm.size, hm.value⟩
  newFrame isFunction hm := hm.push ⟨.empty, isFunction, false⟩
  declare {m f name} v hm hown := by
    refine ⟨hm.trees, ?_, fun g hg => ?_⟩
    · rw [Pairing.size_declared]
      exact hm.size
    · rw [Pairing.frame_declared]
      split
      · next heq =>
        have hne : x ≠ name := (hown.resolve_left fun hle => absurd (heq.1 ▸ hg) (Nat.not_lt.mpr hle)).symm
        exact (Dict.get?_put_of_ne _ hne v).trans (hm.value g hg)
      · exact hm.value g hg

/-! ## Methods that act on their receiver -/

/-- The names under which values inherit functions that act on their receiver. -/
def actingNames : List Text := (Native.inherited.filter Native.actsOnReceiver).map Native.name

end Sandbox

namespace Node

open Sandbox

/-- What a call calls. -/
def called? (n : Node) : Option Node :=
  match n.form with
  | .call => n.child? .callee
  | _ => none

/-- The name of a member, unless it is computed. -/
def ownName? (n : Node) : Option Text :=
  match n.form with
  | .member false => (n.child? .property).bind name?
  | _ => none

/-- A call of a member whose name is computed, or is that of a method that acts on its receiver. -/
def CallsActing (n : Node) : Prop :=
  n.called?.any (fun c => c.isMember && c.ownName?.all actingNames.contains) = true

instance (n : Node) : Decidable n.CallsActing := inferInstanceAs (Decidable (_ = _))

theorem callsActing_inRole {n : Node} {r : Role} (h : (n.inRole r).CallsActing) : n.CallsActing := by
  cases n
  exact h

/-- Any other member that is called has a name that no method has that acts on its receiver. -/
theorem ownName_of_not_callsActing {n callee : Node} {computed : Bool} {key : Text} (h : ¬n.CallsActing)
    (hform : n.form = .call) (hcallee : n.child? .callee = some callee)
    (hmember : callee.form = .member computed)
    (hkey : computed = false → (callee.child? .property).bind name? = some key) :
    key ∉ actingNames := by
  intro hacting
  refine h ?_
  have hcalled : n.called? = some callee := by
    unfold called?
    rw [hform]
    exact hcallee
  have hown : callee.ownName?.all actingNames.contains = true := by
    unfold ownName?
    rw [hmember]
    cases computed with
    | true => rfl
    | false =>
      simp only [hkey rfl]
      exact List.contains_iff_mem.mpr hacting
  unfold CallsActing
  rw [hcalled]
  simp [isMember, hmember, hown]

end Node

namespace Sandbox

theorem mem_actingNames {family : Family} {key : Text} {place : Nat} {fn : Native}
    (hplace : inheritedPlace? family key = some place) (hfn : Native.inherited[place]? = some fn)
    (hacts : fn.actsOnReceiver = true) : key ∈ actingNames := by
  have htest := List.of_findIdx?_eq_some hplace
  rw [hfn] at htest
  obtain ⟨-, hname⟩ := Bool.and_eq_true_iff.mp htest
  refine List.mem_map.mpr ⟨fn, List.mem_filter.mpr ⟨List.mem_of_getElem? hfn, hacts⟩, ?_⟩
  exact beq_iff_eq.mp hname

namespace Machine

/-- An array, which methods can change, or a built-in function, which methods can call. -/
def Exposed (m : Machine) (r : Ref) : Prop :=
  (∃ es, (m.cell r).body = .array es) ∨ ∃ fn, (m.cell r).body = .native fn

/-- Nothing that is exposed has a method that acts on its receiver but those that it inherits, and it
inherits them under their names. -/
structure Orderly (m : Machine) : Prop where
  inherited : ∀ {place : Nat} {fn fn' : Native}, Native.inherited[place]? = some fn →
    (m.cell place).body = .native fn' → fn' = fn
  held : ∀ r, m.Exposed r → ∀ q, .object q ∈ (m.cell r).held → ∀ fn, (m.cell q).body = .native fn →
    fn.actsOnReceiver = false

/-- Whether a value is a function that acts on its receiver. -/
def isActing (m : Machine) : Value → Bool
  | .object q =>
    match (m.cell q).body with
    | .native fn => fn.actsOnReceiver
    | _ => false
  | _ => false

/-- Whether the object at a place is one that an orderly machine may have there. -/
def isOrderlyAt (m : Machine) (r : Ref) : Bool :=
  match (m.cell r).body with
  | .native fn => (Native.inherited[r]?.all (fn == ·)) && (m.cell r).held.all (!m.isActing ·)
  | .array _ => (m.cell r).held.all (!m.isActing ·)
  | _ => true

/-- To see that a machine is orderly one looks at all of its objects. -/
theorem orderly_of_all {m : Machine} (h : ((List.range m.heap.size).all m.isOrderlyAt) = true) :
    m.Orderly := by
  have hat : ∀ r, m.isOrderlyAt r = true := by
    intro r
    by_cases hr : r < m.heap.size
    · exact List.all_eq_true.mp h r (List.mem_range.mpr hr)
    · unfold isOrderlyAt
      rw [m.cell_of_size_le (Nat.le_of_not_lt hr)]
      rfl
  have hheld : ∀ {r q : Ref} {fn : Native}, ((m.cell r).held.all (!m.isActing ·)) = true →
      .object q ∈ (m.cell r).held → (m.cell q).body = .native fn → fn.actsOnReceiver = false := by
    intro r q fn hall hq hfn
    have hacting := List.all_eq_true.mp hall _ hq
    unfold isActing at hacting
    simpa only [hfn, Bool.not_eq_true'] using hacting
  constructor
  · intro place fn fn' hfn hbody
    have hplace := hat place
    unfold isOrderlyAt at hplace
    simp only [hbody, hfn, Bool.and_eq_true] at hplace
    exact beq_iff_eq.mp hplace.1
  · intro r hr q hq fn hfn
    have hplace := hat r
    unfold isOrderlyAt at hplace
    obtain ⟨es, hbody⟩ | ⟨fn', hbody⟩ := hr
    · simp only [hbody] at hplace
      exact hheld hplace hq hfn
    · simp only [hbody, Bool.and_eq_true] at hplace
      exact hheld hplace.2 hq hfn

/-- A new machine is orderly. -/
example : (create 100000 200).Orderly := orderly_of_all (by decide +kernel)

/-- A function that acts on its receiver is no method of what is exposed, under any other name. -/
theorem Orderly.method {m : Machine} (h : m.Orderly) {r q : Ref} (hr : m.Exposed r) {key : Text}
    (hkey : key ∉ actingNames) (hq : (m.cell r).property key = .ok (.object q)) {fn : Native}
    (hfn : (m.cell q).body = .native fn) : fn.actsOnReceiver = false := by
  obtain hheld | hplain | hinherited := Cell.held_of_property hq
  · exact h.held r hr q hheld fn hfn
  · cases hplain
  · have hplace : ∃ family, Run.inherited family key = .object q := by
      unfold Run.inheritedProperty at hinherited
      obtain ⟨es, hbody⟩ | ⟨fn', hbody⟩ := hr
      · rw [hbody] at hinherited
        exact ⟨_, hinherited.symm⟩
      · rw [hbody] at hinherited
        dsimp only at hinherited
        split at hinherited
        · cases hinherited
        · exact ⟨_, hinherited.symm⟩
    obtain ⟨family, hplace⟩ := hplace
    unfold Run.inherited at hplace
    split at hplace
    · next place hfound =>
      cases hplace
      have hlt := (List.findIdx?_eq_some_iff_findIdx_eq.mp hfound).1
      have hget := List.getElem?_eq_getElem hlt
      obtain rfl := h.inherited hget hfn
      cases hacts : Native.inherited[q].actsOnReceiver with
      | false => rfl
      | true => exact absurd (mem_actingNames hfound hget hacts) hkey
    · cases hplace

end Machine

/-! ## Objects -/

/-- An object of a machine that is not an array. -/
def Machine.Fixed (m : Machine) (r : Ref) : Prop :=
  r < m.heap.size ∧ ∀ es, (m.cell r).body ≠ .array es

/-- An object of a machine that is to stay as it is: any object, or any but an array. -/
def Machine.Protected (m : Machine) (all : Prop) (r : Ref) : Prop :=
  r < m.heap.size ∧ (all ∨ ∀ es, (m.cell r).body ≠ .array es)

/-- Later on, all objects of an orderly machine are as they were, or all but arrays. -/
structure Machine.Preserved (m₀ : Machine) (all : Prop) (m : Machine) : Prop where
  orderly : all → m₀.Orderly
  trees : m.trees = m₀.trees
  exists_global : m.global < m.frames.size
  size : m₀.heap.size ≤ m.heap.size
  cell : ∀ r, m₀.Protected all r → m.cell r = m₀.cell r

/-- The policy that code leaves all objects of a machine as they are, or all but arrays.  For arrays to stay
as they are, what is exposed may not be the receiver of a function that acts on its receiver. -/
def Policy.preserving (m₀ : Machine) (all : Prop) : Policy where
  Fit n _ := n.Free m₀.trees Node.ChangesMember ∧ (all → n.Free m₀.trees Node.CallsActing)
  Open r := ¬ m₀.Protected all r
  Builtin r fn := (m₀.cell r).body = .native fn
  CalledOn f this := all → ∀ q fn, f = .object q → (m₀.cell q).body = .native fn →
    fn.actsOnReceiver = true → ∀ r, this = .object r → ¬ m₀.Exposed r
  Holds := m₀.Preserved all
  part hn hc := ⟨hn.1.of_comes (.part .self hc), fun hall => (hn.2 hall).of_comes (.part .self hc)⟩
  slot _ hn := ⟨hn.1.inRole Node.changesMember_inRole, fun hall => (hn.2 hall).inRole Node.callsActing_inRole⟩
  inner hn _ := hn
  present hm hn := by
    rw [hm.trees]
    exact ⟨hn.1.of_comes (.present .self), fun hall => (hn.2 hall).of_comes (.present .self)⟩
  alone _ _ hthis _ _ _ _ _ _ _ heq := by
    rw [heq] at hthis
    cases hthis
  method {m n callee scopes computed this f key} hm hn hform hcallee hmember hkey hf hall := by
    rintro q fn rfl hfn hacts r rfl hr
    have hsize : r < m₀.heap.size := by
      obtain ⟨es, hbody⟩ | ⟨fn', hbody⟩ := hr
      · exact Machine.lt_size_of_body hbody nofun
      · exact Machine.lt_size_of_body hbody nofun
    rw [getProperty_object, hm.cell r ⟨hsize, .inl hall⟩, reading_eq] at hf
    cases hproperty : (m₀.cell r).property key with
    | error x =>
      rw [hproperty] at hf
      cases hf
    | ok v =>
      rw [hproperty] at hf
      cases hf
      have hname := Node.ownName_of_not_callsActing (hn.2 hall n .self) hform hcallee hmember hkey
      rw [(hm.orderly hall).method hr hname hproperty hfn] at hacts
      cases hacts
  elements {m q r fn es} hm hfn hacts hcalled harray hr := by
    rw [hm.cell r hr] at harray
    obtain hall | hother := hr.2
    · exact hcalled hall q fn rfl hfn hacts r rfl (.inl ⟨es, harray⟩)
    · exact hother es harray
  passes hfn hacts hcalled _ hall q fn hq hnative _ _ _ _ :=
    hcalled hall _ _ rfl hfn hacts q hq (.inr ⟨fn, hnative⟩)
  members hn hchanges := absurd hchanges (hn.1 _ .self)

theorem Policy.lasting_preserving (m₀ : Machine) (all : Prop) : (Policy.preserving m₀ all).Lasting where
  room := trivial
  fresh _ h := h
  own _ _ := trivial
  meter _ hm := ⟨hm.orderly, hm.trees, hm.exists_global, hm.size, hm.cell⟩
  allocate {m} c hm := by
    refine ⟨hm.orderly, hm.trees, hm.exists_global, ?_, fun r hr => ?_⟩
    · show _ ≤ (m.heap.push c).size
      rw [Array.size_push]
      exact Nat.le_succ_of_le hm.size
    · have hlt : r < m.heap.size := Nat.lt_of_lt_of_le hr.1 hm.size
      rw [Pairing.cell_push, if_neg (Nat.ne_of_lt hlt)]
      exact hm.cell r hr
  setCell {m r} c hm hopen := by
    refine ⟨hm.orderly, hm.trees, hm.exists_global, ?_, fun q hq => ?_⟩
    · show _ ≤ (m.heap.setIfInBounds r c).size
      rw [Array.size_setIfInBounds]
      exact hm.size
    · have hne : ¬ (r = q ∧ q < m.heap.size) := fun h => hopen (h.1 ▸ hq)
      rw [Pairing.cell_set, if_neg hne]
      exact hm.cell q hq
  newFrame _ hm :=
    ⟨hm.orderly, hm.trees, Machine.lt_size_newFrame hm.exists_global _, hm.size, hm.cell⟩
  declare _ hm _ := by
    refine ⟨hm.orderly, hm.trees, ?_, hm.size, hm.cell⟩
    rw [Pairing.size_declared]
    exact hm.exists_global

/-! ## Evaluations in a sandbox -/

namespace Machine

variable {m : Machine} {x : Text}

/-- The watch of a global variable of a machine. -/
def watch (m : Machine) (x : Text) (front : Option FrameId) : Watch :=
  ⟨x, m.globalVariable? x, m.global, front, m.trees⟩

theorem good_watch (hglobal : m.global < m.frames.size)
    (hfunctions : m.FunctionsFree (Node.Assigns x)) : (Policy.sparing (m.watch x none)).Good m where
  holds := ⟨rfl, hglobal, rfl, rfl, fun _ h => by cases h⟩
  functions r := by
    refine ⟨fun code scopes name hbody => ?_, fun _ _ => trivial⟩
    exact ⟨.inl (hfunctions r code scopes name hbody), .inr fun _ => trivial⟩

theorem good_retaining (hfunctions : m.FunctionsFree (Node.Assigns x)) :
    (Policy.retaining m x).Good m where
  holds := ⟨rfl, Nat.le_refl _, fun _ _ => rfl⟩
  functions r := by
    refine ⟨fun code scopes name hbody => ?_, fun _ _ => trivial⟩
    exact ⟨hfunctions r code scopes name hbody, .inr fun _ => trivial⟩

theorem good_preserving (all : Prop) (hglobal : m.global < m.frames.size)
    (hfunctions : m.FunctionsFree Node.ChangesMember)
    (hall : all → m.FunctionsFree Node.CallsActing ∧ m.Orderly) : (Policy.preserving m all).Good m where
  holds := ⟨fun h => (hall h).2, rfl, hglobal, Nat.le_refl _, fun _ _ => rfl⟩
  functions r := by
    refine ⟨fun code scopes name hbody => ⟨⟨?_, fun h => ?_⟩, .inr fun _ => trivial⟩, fun fn hbody => hbody⟩
    · exact hfunctions r code scopes name hbody
    · exact (hall h).1 r code scopes name hbody

/-- An expression leaves a global variable as it is that neither it nor any function sets. -/
theorem globalVariable?_evaluate (hglobal : m.global < m.frames.size)
    (hfunctions : m.FunctionsFree (Node.Assigns x)) {n : Node} (scopes : ScopeChain)
    (hn : n.Free m.trees (Node.Assigns x)) :
    (m.after (Run.evaluate n scopes)).globalVariable? x = m.globalVariable? x := by
  have hfit : (Policy.sparing (m.watch x none)).Fit n scopes := .inl hn
  have hgood := (Policy.kept_evaluate (Policy.lasting_sparing _) hfit).after
    (good_watch hglobal hfunctions)
  exact hgood.holds.globalVariable?

/-- An expression leaves all objects but arrays as they are if neither it nor any function changes
members, and arrays too if they call no method either that acts on its receiver. -/
theorem cell_evaluate {all : Prop} (hm : (Policy.preserving m all).Good m) {n : Node} (scopes : ScopeChain)
    (hn : n.Free m.trees Node.ChangesMember) (hall : all → n.Free m.trees Node.CallsActing) {r : Ref}
    (hr : m.Protected all r) : (m.after (Run.evaluate n scopes)).cell r = m.cell r := by
  have hfit : (Policy.preserving m all).Fit n scopes := ⟨hn, hall⟩
  have hgood := (Policy.kept_evaluate (Policy.lasting_preserving m all) hfit).after hm
  exact hgood.holds.cell r hr

end Machine

/-- Whether or not it gives a value, an evaluation leaves every global variable as it was that no code in
its reach sets, and every object other than an array if no code in its reach changes members.  Arrays are
left as they were too, if no code in its reach calls a method that changes arrays, or that calls functions on
a receiver of its choice, or a method of a computed name. -/
theorem Registry.evaluate_changes {s : Registry}
    (hglobal : s.machine.global < s.machine.frames.size) (n : Node) (source : Text) :
    (∀ x, n.Free s.machine.trees (Node.Assigns x) → s.machine.FunctionsFree (Node.Assigns x) →
      (s.evaluate n source).2.machine.globalVariable? x = s.machine.globalVariable? x) ∧
    (n.Free s.machine.trees Node.ChangesMember → s.machine.FunctionsFree Node.ChangesMember →
      ∀ r, s.machine.Fixed r → (s.evaluate n source).2.machine.cell r = s.machine.cell r) ∧
    (n.Free s.machine.trees Node.ChangesMember → s.machine.FunctionsFree Node.ChangesMember →
      n.Free s.machine.trees Node.CallsActing → s.machine.FunctionsFree Node.CallsActing →
      s.machine.Orderly → ∀ r < s.machine.heap.size,
        (s.evaluate n source).2.machine.cell r = s.machine.cell r) := by
  obtain heq | ⟨hmachine, -⟩ := evaluate_cases s n source
  · rw [heq]
    exact ⟨fun _ _ _ => rfl, fun _ _ _ _ => rfl, fun _ _ _ _ _ _ _ => rfl⟩
  · rw [hmachine]
    refine ⟨fun x hn hfunctions => ?_, fun hn hfunctions r hr => ?_,
      fun hn hfunctions hcalls hacting horderly r hr => ?_⟩
    · exact Machine.globalVariable?_evaluate hglobal hfunctions _ hn
    · have hgood := Machine.good_preserving False hglobal hfunctions fun h => h.elim
      exact Machine.cell_evaluate hgood _ hn (fun h => h.elim) ⟨hr.1, .inr hr.2⟩
    · have hgood := Machine.good_preserving True hglobal hfunctions fun _ => ⟨hacting, horderly⟩
      exact Machine.cell_evaluate hgood _ hn (fun _ => hcalls) ⟨hr, .inl trivial⟩

/-- `function f() { flag = true; return true; }` -/
def flagSetter : Node :=
  .mk 0 .top (.functionDeclaration ⟨false, false, false⟩)
    [.mk 1 .id (.identifier (Text.of "f")) [],
     .mk 2 .body .blockStatement
      [.mk 3 .body (.expressionStatement none)
        [.mk 4 .expression (.assignment .plain)
          [.mk 5 .left (.identifier (Text.of "flag")) [],
           .mk 6 .right (.literal (.bool true)) []]],
       .mk 7 .body .returnStatement [.mk 8 .argument (.literal (.bool true)) []]]]

/-- `f()` -/
def flagCall : Node := .mk 9 .top .call [.mk 10 .callee (.identifier (Text.of "f")) []]

/-- A machine with the global variables `f`, which is the function that sets `flag`, `y`, which is `null`,
and `l`, which is an array. -/
def flagMachine : Machine :=
  { heap := #[⟨.closure flagSetter [0] (Text.of "f"), .empty⟩, ⟨.array #[.bool true], .empty⟩]
    frames :=
      #[⟨.ofList [(Text.of "f", .object 0), (Text.of "y", .null), (Text.of "l", .object 1)], true, true⟩]
    global := 0, steps := 0, depth := 0, maxSteps := 50, maxDepth := 5, trees := [] }

/-- The function that sets `flag` is the only one. -/
theorem functionsFree_flagMachine {Bad : Node → Prop} [DecidablePred Bad]
    (h : (flagSetter.everywhere fun d => decide (¬ Bad d)) = true) : flagMachine.FunctionsFree Bad := by
  intro r code scopes name hbody
  match r with
  | 0 =>
    cases hbody
    exact Node.free_of_everywhere h
  | 1 => cases hbody
  | _ + 2 => cases hbody

/-- The call changes neither `y`, nor the function, nor the array. -/
theorem flagCall_changes :
    let s : Registry := ⟨.default, flagMachine, .empty⟩
    s.machine.global < s.machine.frames.size ∧
      (s.evaluate flagCall (Text.of "f()")).2.machine.globalVariable? (Text.of "y") =
        s.machine.globalVariable? (Text.of "y") ∧
      (s.evaluate flagCall (Text.of "f()")).2.machine.cell 0 = s.machine.cell 0 ∧
      s.machine.Orderly ∧
      (s.evaluate flagCall (Text.of "f()")).2.machine.cell 1 = s.machine.cell 1 := by
  intro s
  have hglobal : s.machine.global < s.machine.frames.size := by decide
  have horderly : s.machine.Orderly := Machine.orderly_of_all (by decide)
  obtain ⟨hvariables, hobjects, hall⟩ := s.evaluate_changes hglobal flagCall (Text.of "f()")
  refine ⟨hglobal, ?_, ?_, horderly, ?_⟩
  · exact hvariables _ (Node.free_of_everywhere (by decide)) (functionsFree_flagMachine (by decide))
  · exact hobjects (Node.free_of_everywhere (by decide)) (functionsFree_flagMachine (by decide)) 0
      ⟨by decide, fun es h => by cases h⟩
  · exact hall (Node.free_of_everywhere (by decide)) (functionsFree_flagMachine (by decide))
      (Node.free_of_everywhere (by decide)) (functionsFree_flagMachine (by decide)) horderly 1 (by decide)

/-- The function sets a name that nothing declares, and the evaluation leaves a new global variable. -/
example :
    let s : Registry := ⟨.default, flagMachine, .empty⟩
    (s.machine.globalVariable? (Text.of "flag")).isSome = false ∧
      ((s.evaluate flagCall (Text.of "f()")).2.machine.globalVariable? (Text.of "flag")).isSome =
        true := by
  decide +kernel

/-! ## Scopes for trying code out -/

/-- Code that is tried out: an expression, or a statement. -/
inductive Attempt where
  | evaluate (n : Node)
  | execute (n : Node)

/-- The code that is tried out. -/
def Attempt.code : Attempt → Node
  | .evaluate n => n
  | .execute n => n

namespace Machine

/-- The machine after an attempt in some scopes, whether it ends or stops. -/
def afterAttempt (scopes : ScopeChain) (m : Machine) : Attempt → Machine
  | .evaluate n => m.after (Run.evaluate n scopes)
  | .execute n => m.after (Run.execute n scopes)

/-- The machine after attempts one after the other in new scopes for trying code out. -/
def afterAttempts (m : Machine) (attempts : List Attempt) : Machine :=
  match Run.scratch m with
  | .ok scopes m' => attempts.foldl (afterAttempt scopes) m'
  | .error _ m' => m'

end Machine

namespace Policy

variable {P : Policy} {scopes : ScopeChain} {m : Machine}

/-- An attempt keeps to a policy in scopes that shield those that are guarded, and leaves them so. -/
theorem good_afterAttempt (hP : P.Lasting) {a : Attempt} (ha : P.Fit a.code scopes) (hm : P.Good m)
    (hscopes : m.Shields P.guarded scopes) :
    P.Good (m.afterAttempt scopes a) ∧ (m.afterAttempt scopes a).Shields P.guarded scopes := by
  have hkept : ∀ {α : Type} {c : Run α}, P.Kept (some scopes) c →
      P.Good (m.after c) ∧ (m.after c).Shields P.guarded scopes := by
    intro α c hc
    have hleaves := hc m hm fun _ h => by cases h; exact hscopes
    rw [Machine.after_eq_stateOf]
    exact ⟨hleaves.good, hscopes.later hleaves.before⟩
  cases a with
  | evaluate n => exact hkept (kept_evaluate hP ha).anywhere
  | execute n => exact hkept (kept_execute hP ha)

theorem good_attempts (hP : P.Lasting) {attempts : List Attempt}
    (hfit : ∀ a ∈ attempts, P.Fit a.code scopes) (hm : P.Good m)
    (hscopes : m.Shields P.guarded scopes) :
    P.Good (attempts.foldl (Machine.afterAttempt scopes) m) := by
  induction attempts generalizing m with
  | nil => exact hm
  | cons a attempts ih =>
    obtain ⟨hgood, hshields⟩ := good_afterAttempt hP (hfit a List.mem_cons_self) hm hscopes
    exact ih (fun b hb => hfit b (List.mem_cons_of_mem a hb)) hgood hshields

end Policy

namespace Machine

variable {m : Machine} {x : Text}

theorem frame_scratch (m : Machine) (f : FrameId) :
    (m.after Run.scratch).frame f = if f = m.frames.size then ⟨.empty, true, true⟩ else m.frame f :=
  Pairing.frame_push m _ f

/-- The new scope stands in front of the global one. -/
theorem shields_scratch (hglobal : m.global < m.frames.size) :
    (m.after Run.scratch).Shields (· = m.global) (m.frames.size :: m.globalChain) := by
  refine ⟨Nat.ne_of_gt hglobal, .inl ?_⟩
  rw [frame_scratch, if_pos rfl]

theorem good_scratch (hglobal : m.global < m.frames.size)
    (hfunctions : m.FunctionsFree (Node.Assigns x)) :
    (Policy.sparing (m.watch x (some m.frames.size))).Good (m.after Run.scratch) := by
  refine ⟨⟨rfl, lt_size_newFrame hglobal _, rfl, ?_, fun f hf => ?_⟩, fun r => ?_⟩
  · show ((m.after Run.scratch).frame m.global).bindings.get? x = m.globalVariable? x
    rw [frame_scratch, if_neg (Nat.ne_of_lt hglobal)]
    rfl
  · cases hf
    rw [frame_scratch, if_pos rfl]
  · refine ⟨fun code c name hbody => ?_, fun _ _ => trivial⟩
    exact ⟨.inl (hfunctions r code c name hbody), .inr fun _ => trivial⟩

/-- Trying code out leaves every global variable as it was that no function of the machine sets, if it
is not there yet or the code that is tried out does not set it either.  It does not matter whether the
attempts end or stop. -/
theorem attempts_change (hglobal : m.global < m.frames.size)
    (hfunctions : m.FunctionsFree (Node.Assigns x)) {attempts : List Attempt}
    (hattempts : m.globalVariable? x = none ∨
      ∀ a ∈ attempts, a.code.Free m.trees (Node.Assigns x)) :
    (m.afterAttempts attempts).globalVariable? x = m.globalVariable? x := by
  have hfit : ∀ a ∈ attempts, (Policy.sparing (m.watch x (some m.frames.size))).Fit a.code
      (m.frames.size :: m.globalChain) := by
    intro a ha
    obtain hnone | hfree := hattempts
    · exact .inr ⟨hnone, Nat.ne_of_gt hglobal, .inl rfl⟩
    · exact .inl (hfree a ha)
  have hgood := Policy.good_attempts (Policy.lasting_sparing _) hfit
    (good_scratch hglobal hfunctions) (shields_scratch hglobal)
  exact hgood.holds.globalVariable?

end Machine

/-- `t = true` -/
def captured : Node :=
  .mk 0 .top (.assignment .plain)
    [.mk 1 .left (.identifier (Text.of "t")) [], .mk 2 .right (.literal (.bool true)) []]

/-- `throw t;` -/
def thrower : Node :=
  .mk 3 .top .throwStatement [.mk 4 .argument (.identifier (Text.of "t")) []]

/-- A name that nothing declares is set and read, and the second attempt stops; the name does not become
global. -/
theorem captured_attempts :
    flagMachine.global < flagMachine.frames.size ∧
      flagMachine.FunctionsFree (Node.Assigns (Text.of "t")) ∧
      flagMachine.globalVariable? (Text.of "t") = none ∧
      (flagMachine.afterAttempts [.evaluate captured, .execute thrower]).globalVariable?
        (Text.of "t") = none := by
  have hglobal : flagMachine.global < flagMachine.frames.size := by decide
  have hfunctions : flagMachine.FunctionsFree (Node.Assigns (Text.of "t")) :=
    functionsFree_flagMachine (by decide)
  have hnone : flagMachine.globalVariable? (Text.of "t") = none := rfl
  refine ⟨hglobal, hfunctions, hnone, ?_⟩
  rw [Machine.attempts_change hglobal hfunctions (.inl hnone)]
  exact hnone

/-- `y = true` -/
def rebound : Node :=
  .mk 0 .top (.assignment .plain)
    [.mk 1 .left (.identifier (Text.of "y")) [], .mk 2 .right (.literal (.bool true)) []]

/-- A global variable that exists is set by the code that is tried out, and a function from outside sets a
new one. -/
example :
    (flagMachine.globalVariable? (Text.of "y")).any Value.isNullish = true ∧
      ((flagMachine.afterAttempts [.evaluate rebound]).globalVariable? (Text.of "y")).any
        Value.isNullish = false ∧
      ((flagMachine.afterAttempts [.evaluate flagCall]).globalVariable? (Text.of "flag")).isSome =
        true := by
  decide +kernel

end Untangle.Sandbox
