import Reunion.Client.Types

/-! # Sub-maps

The exchange only ever adds keys it does not have yet, so its maps grow as sub-maps. -/

namespace Reunion.Client

variable {V : Type} {s t u : ExchangeMap V} {k : ExchangeHash} {v : V}

/-- Every key of `s` is a key of `t`, with the same value. -/
def SubMap (s t : ExchangeMap V) : Prop :=
  ∀ ⦃k v⦄, s.lookup k = some v → t.lookup k = some v

namespace SubMap

@[refl] theorem refl (s : ExchangeMap V) : SubMap s s := fun _ _ h => h

theorem trans (h₁ : SubMap s t) (h₂ : SubMap t u) : SubMap s u := fun _ _ h => h₂ (h₁ h)

theorem mem (h : SubMap s t) (hk : k ∈ s) : k ∈ t := by
  obtain ⟨v, hv⟩ := Option.isSome_iff_exists.1 (AList.lookup_isSome.2 hk)
  exact AList.lookup_isSome.1 (by simp [h hv])

theorem of_empty (t : ExchangeMap V) : SubMap ∅ t := fun _ _ h => by simp at h

end SubMap

theorem lookup_of_mem_entries (h : (⟨k, v⟩ : Σ _ : ExchangeHash, V) ∈ s.entries) :
    s.lookup k = some v :=
  AList.mem_lookup_iff.2 h

theorem mem_of_lookup_eq_some (h : s.lookup k = some v) : k ∈ s :=
  AList.lookup_isSome.1 (by simp [h])

theorem exists_lookup_of_mem (h : k ∈ s) : ∃ v, s.lookup k = some v :=
  Option.isSome_iff_exists.1 (AList.lookup_isSome.2 h)

theorem ne_of_lookup_eq_some {k' : ExchangeHash} (h : s.lookup k' = some v) (hk : k ∉ s) :
    k' ≠ k := by
  rintro rfl
  exact hk (mem_of_lookup_eq_some h)

theorem subMap_insert (h : k ∉ s) : SubMap s (s.insert k v) := fun _ _ h' => by
  rwa [AList.lookup_insert_ne (ne_of_lookup_eq_some h' h)]

theorem lookup_insert_eq_some {k' : ExchangeHash} {v' : V} :
    (s.insert k v).lookup k' = some v' ↔
      (k' = k ∧ v = v') ∨ (k' ≠ k ∧ s.lookup k' = some v') := by
  by_cases h : k' = k
  · subst h; simp
  · simp [h, AList.lookup_insert_ne h]

end Reunion.Client
