set_option autoImplicit false

/-!
# Dictionaries in order of insertion

A finite map that remembers the order in which its keys came in.  Putting a key again keeps its
place; taking a key out and putting it back moves it to the end.
-/

namespace Untangle

/-- A finite map with its entries in order of insertion. -/
structure Dict (α β : Type) where
  entries : List (α × β)
  deriving Repr

namespace Dict

variable {α β γ : Type} [BEq α]

/-- The dictionary without entries. -/
def empty : Dict α β := ⟨[]⟩

instance : Inhabited (Dict α β) := ⟨empty⟩

/-- The value of a key in a list of entries. -/
def lookupIn (k : α) : List (α × β) → Option β
  | [] => none
  | (k', v) :: r => if k' == k then some v else lookupIn k r

/-- Sets the value of a key in a list of entries, at its place or at the end. -/
def putIn (k : α) (v : β) : List (α × β) → List (α × β)
  | [] => [(k, v)]
  | (k', v') :: r => if k' == k then (k', v) :: r else (k', v') :: putIn k v r

/-- The value of a key. -/
def get? (d : Dict α β) (k : α) : Option β := lookupIn k d.entries

/-- Whether a key is present. -/
def contains (d : Dict α β) (k : α) : Bool := (d.get? k).isSome

/-- The dictionary with a key set to a value. -/
def put (d : Dict α β) (k : α) (v : β) : Dict α β := ⟨putIn k v d.entries⟩

/-- The dictionary without a key. -/
def erase (d : Dict α β) (k : α) : Dict α β := ⟨d.entries.filter fun e => !(e.1 == k)⟩

/-- The keys in order of insertion. -/
def keys (d : Dict α β) : List α := d.entries.map (·.1)

/-- The values in order of insertion of their keys. -/
def values (d : Dict α β) : List β := d.entries.map (·.2)

/-- Number of keys. -/
def size (d : Dict α β) : Nat := d.entries.length

/-- The dictionary of some pairs, put one after the other. -/
def ofList (es : List (α × β)) : Dict α β := es.foldl (fun d e => d.put e.1 e.2) empty

theorem mem_values_put {d : Dict α β} {k : α} {v w : β} (h : w ∈ (d.put k v).values) :
    w = v ∨ w ∈ d.values := by
  have hin : ∀ es : List (α × β), w ∈ (putIn k v es).map (·.2) → w = v ∨ w ∈ es.map (·.2) := by
    intro es
    induction es with
    | nil =>
      intro h
      exact .inl (by simpa [putIn] using h)
    | cons e r ih =>
      obtain ⟨k', v'⟩ := e
      intro h
      unfold putIn at h
      split at h
      · rw [List.map_cons, List.mem_cons] at h
        exact h.imp_right (List.mem_cons_of_mem v')
      · rw [List.map_cons, List.mem_cons] at h
        obtain rfl | h := h
        · exact .inr List.mem_cons_self
        · exact (ih h).imp_right (List.mem_cons_of_mem v')
  exact hin d.entries h

theorem mem_values_of_get? {d : Dict α β} {k : α} {v : β} (h : d.get? k = some v) : v ∈ d.values := by
  have hin : ∀ es : List (α × β), lookupIn k es = some v → v ∈ es.map (·.2) := by
    intro es
    induction es with
    | nil =>
      intro h
      cases h
    | cons e r ih =>
      intro h
      unfold lookupIn at h
      rw [List.map_cons, List.mem_cons]
      split at h
      · exact .inl (Option.some.inj h).symm
      · exact .inr (ih h)
  exact hin d.entries h

theorem keys_erase (d : Dict α β) (k : α) : (d.erase k).keys = d.keys.filter fun j => !(j == k) := by
  rw [keys, erase, keys, List.filter_map]
  rfl

theorem mem_values_erase {d : Dict α β} {k : α} {w : β} (h : w ∈ (d.erase k).values) :
    w ∈ d.values := by
  obtain ⟨e, he, rfl⟩ := List.mem_map.mp h
  exact List.mem_map_of_mem (List.mem_filter.mp he).1

section Laws

variable [LawfulBEq α]

@[simp] theorem lookupIn_putIn_self (k : α) (v : β) (es : List (α × β)) :
    lookupIn k (putIn k v es) = some v := by
  induction es with
  | nil => simp [putIn, lookupIn]
  | cons e r ih =>
    obtain ⟨k', v'⟩ := e
    by_cases h : k' == k
    · simp [putIn, lookupIn, h]
    · simp [putIn, lookupIn, h, ih]

theorem lookupIn_putIn_of_ne {j k : α} (hne : j ≠ k) (v : β) (es : List (α × β)) :
    lookupIn j (putIn k v es) = lookupIn j es := by
  induction es with
  | nil => simp [putIn, lookupIn, Ne.symm hne]
  | cons e r ih =>
    obtain ⟨k', v'⟩ := e
    by_cases h : k' == k
    · have hk : k' = k := by simpa using h
      subst hk
      simp [putIn, lookupIn, Ne.symm hne]
    · simp [putIn, lookupIn, h, ih]

@[simp] theorem get?_put_self (d : Dict α β) (k : α) (v : β) : (d.put k v).get? k = some v :=
  lookupIn_putIn_self k v d.entries

theorem get?_put_of_ne (d : Dict α β) {j k : α} (hne : j ≠ k) (v : β) :
    (d.put k v).get? j = d.get? j :=
  lookupIn_putIn_of_ne hne v d.entries

theorem get?_erase_of_ne (d : Dict α β) {j k : α} (hne : j ≠ k) : (d.erase k).get? j = d.get? j := by
  have hin : ∀ es : List (α × β), lookupIn j (es.filter fun e => !(e.1 == k)) = lookupIn j es := by
    intro es
    induction es with
    | nil => rfl
    | cons e r ih =>
      obtain ⟨k', v'⟩ := e
      by_cases h : k' = k
      · subst h
        simp [lookupIn, ih, Ne.symm hne]
      · simp [lookupIn, h, ih]
  exact hin d.entries

theorem mem_keys_iff {d : Dict α β} {k : α} : k ∈ d.keys ↔ (d.get? k).isSome = true := by
  have hin : ∀ es : List (α × β), k ∈ es.map (·.1) ↔ (lookupIn k es).isSome = true := by
    intro es
    induction es with
    | nil => simp [lookupIn]
    | cons e r ih =>
      obtain ⟨k', v'⟩ := e
      by_cases hk : k' = k
      · simp [lookupIn, hk]
      · simp [lookupIn, hk, Ne.symm hk, ← ih]
  exact hin d.entries

/-- What is left was there before. -/
theorem get?_of_get?_erase {d : Dict α β} {j k : α} {v : β} (h : (d.erase k).get? j = some v) :
    d.get? j = some v := by
  by_cases hne : j = k
  · subst hne
    have hkey : j ∈ (d.erase j).keys := mem_keys_iff.mpr (by rw [h]; rfl)
    rw [keys_erase] at hkey
    simpa using (List.mem_filter.mp hkey).2
  · rwa [get?_erase_of_ne d hne] at h

theorem keys_put (d : Dict α β) (k : α) (v : β) :
    (d.put k v).keys = if k ∈ d.keys then d.keys else d.keys ++ [k] := by
  have hin : ∀ es : List (α × β), (putIn k v es).map (·.1) =
      if k ∈ es.map (·.1) then es.map (·.1) else es.map (·.1) ++ [k] := by
    intro es
    induction es with
    | nil => simp [putIn]
    | cons e r ih =>
      obtain ⟨k', v'⟩ := e
      by_cases hk : k' = k
      · simp [putIn, hk]
      · simp only [putIn, beq_false_of_ne hk, Bool.false_eq_true, if_false, List.map_cons, ih, List.mem_cons,
          Ne.symm hk, false_or]
        split <;> rfl
  exact hin d.entries

theorem keys_put_of_get?_eq_none {d : Dict α β} {k : α} (hk : d.get? k = none) (v : β) :
    (d.put k v).keys = d.keys ++ [k] := by
  rw [keys_put, if_neg (by simp [mem_keys_iff, hk])]

theorem mem_keys_put {d : Dict α β} {j k : α} {v : β} : j ∈ (d.put k v).keys ↔ j = k ∨ j ∈ d.keys := by
  rw [keys_put]
  split
  · next hk => exact ⟨.inr, fun h => h.elim (fun heq => heq ▸ hk) id⟩
  · rw [List.mem_append, List.mem_singleton, or_comm]

theorem mem_entries_put {d : Dict α β} {k : α} {v : β} {e : α × β} (h : e ∈ (d.put k v).entries) :
    e = (k, v) ∨ e ∈ d.entries := by
  have hin : ∀ es : List (α × β), e ∈ putIn k v es → e = (k, v) ∨ e ∈ es := by
    intro es
    induction es with
    | nil => exact fun h => .inl (List.mem_singleton.mp h)
    | cons e' r ih =>
      obtain ⟨k', v'⟩ := e'
      intro h
      unfold putIn at h
      split at h
      · next hk =>
        cases eq_of_beq hk
        exact (List.mem_cons.mp h).imp_right (List.mem_cons_of_mem _)
      · obtain rfl | h := List.mem_cons.mp h
        · exact .inr List.mem_cons_self
        · exact (ih h).imp_right (List.mem_cons_of_mem _)
  exact hin d.entries h

theorem nodup_keys_put {d : Dict α β} (h : d.keys.Nodup) (k : α) (v : β) : (d.put k v).keys.Nodup := by
  rw [keys_put]
  split
  · exact h
  · next hk =>
    refine List.nodup_append.mpr ⟨h, by simp, ?_⟩
    rintro a ha b hb rfl
    exact hk (List.mem_singleton.mp hb ▸ ha)

end Laws

end Dict

end Untangle
