import Mathlib.Logic.Basic

/-!
# Owned registrations

Holders may each hold a key, and keys may be registered elsewhere. In `Owned` every live key that is
held is registered, and has one holder only: so that when its holder lets it go, its registration
can go, too, and nobody else notices.
-/

namespace Distant

variable {H : Type u} {K : Type v}

structure Owned (held : H → Option K) (registered live : K → Prop) : Prop where
  known : ∀ {h k}, held h = some k → live k → registered k
  unique : ∀ {h h' k}, held h = some k → held h' = some k → live k → h = h'

namespace Owned

variable {held held' : H → Option K} {registered registered' live live' : K → Prop} {h₀ : H} {k₀ : K}

/-- Holders may forget their keys, keys may die, and more may be registered. -/
theorem mono (ho : Owned held registered live) (hheld : ∀ h k, held' h = some k → held h = some k)
    (hreg : ∀ k, live' k → registered k → registered' k) (hlive : ∀ k, live' k → live k) :
    Owned held' registered' live' where
  known hk hl := hreg _ hl (ho.known (hheld _ _ hk) (hlive _ hl))
  unique hk hk' hl := ho.unique (hheld _ _ hk) (hheld _ _ hk') (hlive _ hl)

/-- A key goes from its holder to another one. -/
theorem move (ho : Owned held registered live) (h₁ : H) (hk₀ : held h₀ = some k₀)
    (hheld : ∀ h k, held' h = some k → (h = h₁ ∧ k = k₀) ∨ (h ≠ h₀ ∧ held h = some k)) :
    Owned held' registered live where
  known hk hl := by
    rcases hheld _ _ hk with ⟨-, rfl⟩ | ⟨-, hk⟩
    · exact ho.known hk₀ hl
    · exact ho.known hk hl
  unique hk hk' hl := by
    rcases hheld _ _ hk with ⟨rfl, rfl⟩ | ⟨hne, hk⟩
    · rcases hheld _ _ hk' with ⟨rfl, -⟩ | ⟨hne, hk'⟩
      · rfl
      · exact absurd (ho.unique hk' hk₀ hl) hne
    · rcases hheld _ _ hk' with ⟨rfl, rfl⟩ | ⟨-, hk'⟩
      · exact absurd (ho.unique hk hk₀ hl) hne
      · exact ho.unique hk hk' hl

/-- A holder lets its key go, and the registration of that key goes, too. -/
theorem release (ho : Owned held registered live) (hk₀ : held h₀ = some k₀)
    (hheld : ∀ h k, held' h = some k → h ≠ h₀ ∧ held h = some k)
    (hreg : ∀ k, k ≠ k₀ → registered k → registered' k) : Owned held' registered' live where
  known hk hl := by
    obtain ⟨hne, hk⟩ := hheld _ _ hk
    refine hreg _ ?_ (ho.known hk hl)
    rintro rfl
    exact hne (ho.unique hk hk₀ hl)
  unique hk hk' hl := ho.unique (hheld _ _ hk).2 (hheld _ _ hk').2 hl

/-- A key that is not registered is, from now on, and gets a holder. -/
theorem acquire (ho : Owned held registered live) (hfresh : ¬ registered k₀)
    (hheld : ∀ h k, held' h = some k → (h = h₀ ∧ k = k₀) ∨ held h = some k)
    (hreg₀ : registered' k₀) (hreg : ∀ k, registered k → registered' k) :
    Owned held' registered' live where
  known hk hl := by
    rcases hheld _ _ hk with ⟨-, rfl⟩ | hk
    · exact hreg₀
    · exact hreg _ (ho.known hk hl)
  unique hk hk' hl := by
    rcases hheld _ _ hk with ⟨rfl, rfl⟩ | hk
    · rcases hheld _ _ hk' with ⟨rfl, -⟩ | hk'
      · rfl
      · exact absurd (ho.known hk' hl) hfresh
    · rcases hheld _ _ hk' with ⟨rfl, rfl⟩ | hk'
      · exact absurd (ho.known hk hl) hfresh
      · exact ho.unique hk hk' hl

end Owned

end Distant
