import Untangle.Proofs.Sandbox.Reached

set_option autoImplicit false

/-!
# What the gate lets into a sandbox

The gate passes the texts in which none of its markers stands.  A sandbox comes to a value only for a
text that passes, and a declaration that it takes up has a text that passes, unless it is handed over
without one.  Nothing else touches the gate or the registered declarations.
-/

namespace Untangle

/-! ## Markers -/

theorem findFrom_isSome_iff (needle t : Text) (i : Nat) :
    (Text.findFrom needle t i).isSome = true ↔ needle <:+: t := by
  induction t generalizing i with
  | nil => cases needle <;> simp [Text.findFrom]
  | cons c r ih =>
    rw [Text.findFrom, List.infix_cons_iff, ← List.isPrefixOf_iff_prefix, ← ih (i + 1)]
    cases needle.isPrefixOf (c :: r) <;> simp

/-- A text includes another one if that stands in it as a whole. -/
theorem includes_iff_infix (t needle : Text) : t.includes needle = true ↔ needle <:+: t :=
  findFrom_isSome_iff needle t 0

namespace Sandbox

/-- No marker of a gate that is a text at all stands in a text. -/
def Gate.Unmarked (g : Gate) (t : Text) : Prop :=
  ∀ m ∈ g.nondeterministic ++ g.preserveRaw, m ≠ [] → ¬ m <:+: t

theorem Gate.marked_iff (markers : List Text) (t : Text) :
    Gate.marked markers t = true ↔ ∃ m ∈ markers, m ≠ [] ∧ m <:+: t := by
  simp [Gate.marked, includes_iff_infix]

/-- A text passes the gate if it has no marker. -/
theorem Gate.maySubstitute_iff (g : Gate) (t : Text) : g.maySubstitute t = true ↔ g.Unmarked t := by
  simp only [Gate.maySubstitute, Gate.isDeterministic, Gate.keepsRaw, Bool.and_eq_true,
    Bool.not_eq_true', ← Bool.not_eq_true, Gate.marked_iff, Gate.Unmarked, List.mem_append]
  constructor
  · rintro ⟨hnondet, hraw⟩ m (hm | hm) hne hin
    · exact hnondet ⟨m, hm, hne, hin⟩
    · exact hraw ⟨m, hm, hne, hin⟩
  · intro h
    exact ⟨fun ⟨m, hm, hne, hin⟩ => h m (.inl hm) hne hin,
      fun ⟨m, hm, hne, hin⟩ => h m (.inr hm) hne hin⟩

/-! ## Declarations -/

namespace Registry

variable {s s' : Registry} {n declaration : Node} {name source : Text} {v : Value}

/-- A sandbox with the same gate and the same declarations. -/
structure Same (s s' : Registry) : Prop where
  gate : s'.gate = s.gate
  registered : s'.registered = s.registered

theorem Same.refl (s : Registry) : Same s s := ⟨rfl, rfl⟩

theorem Same.trans {s'' : Registry} (h : Same s s') (h' : Same s' s'') : Same s s'' :=
  ⟨h'.gate.trans h.gate, h'.registered.trans h.registered⟩

theorem same_perform {α : Type} (s : Registry) (c : Run α) : Same s (s.perform c).2 := by
  unfold perform
  split <;> exact ⟨rfl, rfl⟩

/-- Evaluating leaves the declarations as they are. -/
theorem same_evaluate (s : Registry) (n : Node) (source : Text) : Same s (s.evaluate n source).2 := by
  have hperform := same_perform s (Run.evaluate n s.machine.globalChain)
  unfold evaluate
  split
  · exact .refl s
  split
  · exact .refl s
  split
  · next heq => rwa [heq] at hperform
  · next heq =>
    rw [heq] at hperform
    split <;> exact hperform

/-- Only a text without markers has a value. -/
theorem unmarked_of_evaluate (h : (s.evaluate n source).1 = .ok (some v)) : s.gate.Unmarked source := by
  unfold evaluate at h
  split at h
  · cases h
  · next hgate => exact (s.gate.maySubstitute_iff source).mp (by simpa using hgate)

/-- Registering takes up the given declaration only, and only if its text has no marker; without a text
there is nothing to refuse. -/
theorem register_takes (s : Registry) (declaration : Node) (name : Text) (source : Option Text) :
    (s.register declaration name source).2.gate = s.gate ∧
      ∀ id, (s.register declaration name source).2.registered.contains id = true →
        s.registered.contains id = true ∨
          id = declaration.id ∧ ∀ t ∈ source, s.gate.Unmarked t := by
  have hdefine : ∀ (s : Registry) (v : Value), Same s (s.perform (Run.defineGlobal name v)).2 :=
    fun s v => same_perform s _
  have hvalue := same_perform s (declaredValue declaration name)
  unfold register
  split
  · next v _ =>
    have hsame := hdefine s v
    exact ⟨hsame.gate, fun id hid => .inl (by rwa [hsame.registered] at hid)⟩
  split
  · exact ⟨rfl, fun _ hid => .inl hid⟩
  next hgate =>
  have hpass : ∀ t ∈ source, s.gate.Unmarked t := by
    intro t ht
    cases Option.mem_def.mp ht
    exact (s.gate.maySubstitute_iff t).mp (by simpa using hgate)
  split
  · next heq =>
    rw [heq] at hvalue
    exact ⟨hvalue.gate, fun id hid => .inl (by rwa [hvalue.registered] at hid)⟩
  · next v s' heq =>
    rw [heq] at hvalue
    have hsame := hvalue.trans (hdefine s' v)
    refine ⟨hsame.gate, fun id hid => ?_⟩
    by_cases hne : id = declaration.id
    · exact .inr ⟨hne, hpass⟩
    · left
      simpa only [Dict.contains, Dict.get?_put_of_ne _ hne, hsame.registered] using hid

end Registry

end Sandbox

namespace Dispatch

open Sandbox

/-- Trying a loop out leaves the declarations as they are. -/
theorem same_unflatten (loop : Loop) (readOutside : List Text → Bool) (maxDispatches : Nat)
    (s : Registry) : Registry.Same s (after (unflatten loop readOutside maxDispatches) s) := by
  have hprobe : ∀ {α : Type} (c : Run α), Keeps (Registry.Same s) (probe c) := by
    intro α c s' hs'
    rw [after_probe]
    exact ⟨hs'.gate, hs'.registered⟩
  have hlasts : Lasts fun _ => Registry.Same s := ⟨fun _ _ => hprobe _, fun _ _ => hprobe _⟩
  exact hlasts.unflatten (fun s' hs' => ⟨hs'.gate, hs'.registered⟩) (fun _ _ hs' => hs') loop
    readOutside maxDispatches s (.refl s)

end Dispatch

end Untangle
