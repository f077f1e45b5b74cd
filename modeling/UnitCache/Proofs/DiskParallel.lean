import UnitCache.Proofs.DiskSights

namespace UnitCache.Disk

variable {own way own' way' : Place → Prop} {d d₁ d₂ e e₁ e₂ d₁₂ d₂₁ : Disk} {place : Place}

/-- Trees that look the same at some places, and let the same names pass at others. -/
structure Alike (own way : Place → Prop) (d e : Disk) : Prop where
  seen : ∀ place, own place → e.sight place = d.sight place
  passed : ∀ place, way place → (e.Passable place ↔ d.Passable place)

theorem Alike.refl (own way : Place → Prop) (d : Disk) : Alike own way d d :=
  ⟨fun _ _ => rfl, fun _ _ => Iff.rfl⟩

theorem passable_congr (h : e.sight place = d.sight place) : e.Passable place ↔ d.Passable place := by
  rw [Passable, Passable, h]

/-- Only some places are changed; elsewhere directories may be made, on the way, where nothing was. -/
def Within (own way : Place → Prop) (d d₁ : Disk) : Prop :=
  ∀ place, ¬own place → d₁.sight place = d.sight place ∨
    way place ∧ d.sight place = none ∧ d₁.sight place = some .directory

namespace Within

theorem refl (own way : Place → Prop) (d : Disk) : Within own way d d := fun _ _ => .inl rfl

/-- What is seen elsewhere stays. -/
theorem sight (h : Within own way d d₁) (ho : ¬own place) (hs : d.sight place ≠ none) :
    d₁.sight place = d.sight place := (h place ho).resolve_right fun hn => hs hn.2.1

theorem trans (h : Within own way d d₁) (h' : Within own way d₁ d₂) : Within own way d d₂ := by
  intro place ho
  rcases h place ho with he | ⟨hw, hn, hd⟩
  · rw [← he]
    exact h' place ho
  · exact .inr ⟨hw, hn, by rw [h'.sight ho (by simp [hd]), hd]⟩

theorem passable (h : Within own way d d₁) (ho : ¬own place) :
    d₁.Passable place ↔ d.Passable place := by
  rcases h place ho with he | ⟨-, hn, hd⟩
  · exact passable_congr he
  · exact iff_of_true (.inr hd) (.inl hn)

/-- A change that keeps off some places and off the way to them is not seen from there. -/
theorem alike (h : Within own way d d₁) (hown : ∀ place, own' place → ¬own place ∧ ¬way place)
    (hway : ∀ place, way' place → ¬own place) : Alike own' way' d d₁ :=
  ⟨fun place hp => (h place (hown place hp).1).resolve_right fun hn => (hown place hp).2 hn.1,
    fun place hp => h.passable (hway place hp)⟩

end Within

structure Parallel (own way : Place → Prop) (d d₁ e e₁ : Disk) : Prop where
  left : Within own way d d₁
  right : Within own way e e₁
  seen : ∀ place, own place → e₁.sight place = d₁.sight place
  new : ∀ place, ¬own place → d.sight place = none → e.sight place = none →
    e₁.sight place = d₁.sight place

namespace Parallel

theorem refl (h : Alike own way d e) : Parallel own way d d e e :=
  ⟨Within.refl own way d, Within.refl own way e, h.seen, fun _ _ hn hn' => hn'.trans hn.symm⟩

/-- Trees that are alike stay so. -/
theorem alike (h : Parallel own way d d₁ e e₁) (ha : Alike own way d e) : Alike own way d₁ e₁ := by
  refine ⟨h.seen, fun place hw => ?_⟩
  by_cases ho : own place
  · exact passable_congr (h.seen place ho)
  · rw [h.right.passable ho, ha.passed place hw, h.left.passable ho]

theorem trans (h : Parallel own way d d₁ e e₁) (h' : Parallel own way d₁ d₂ e₁ e₂) :
    Parallel own way d d₂ e e₂ := by
  refine ⟨h.left.trans h'.left, h.right.trans h'.right, h'.seen, fun place ho hn hn' => ?_⟩
  have hsame := h.new place ho hn hn'
  by_cases hnone : d₁.sight place = none
  · exact h'.new place ho hnone (hsame.trans hnone)
  · rw [h'.left.sight ho hnone, h'.right.sight ho (hsame ▸ hnone), hsame]

/-- Where two changes keep off each other's places, and each is the same after the other, they end
with trees that look the same. -/
theorem diamond (hd : Parallel own way d d₁ d₂ d₂₁) (hd' : Parallel own' way' d d₂ d₁ d₁₂)
    (hown : ∀ place, own place → ¬own' place ∧ ¬way' place)
    (hown' : ∀ place, own' place → ¬own place ∧ ¬way place) (place : Place) :
    d₁₂.sight place = d₂₁.sight place := by
  by_cases ho : own place
  · obtain ⟨hno, hnw⟩ := hown place ho
    rw [hd.seen place ho]
    exact (hd'.right place hno).resolve_right fun h => hnw h.1
  by_cases ho' : own' place
  · obtain ⟨hno, hnw⟩ := hown' place ho'
    rw [hd'.seen place ho']
    exact ((hd.right place hno).resolve_right fun h => hnw h.1).symm
  -- A place of neither: what was there stays, and a directory is made if either makes it.
  by_cases hn : d.sight place = none
  · by_cases hn₁ : d₁.sight place = none
    · rw [hd'.new place ho' hn hn₁]
      by_cases hn₂ : d₂.sight place = none
      · rw [hd.new place ho hn hn₂, hn₁, hn₂]
      · exact (hd.right.sight ho hn₂).symm
    · have hdir : d₁.sight place = some .directory :=
        ((hd.left place ho).resolve_left fun h => hn₁ (h.trans hn)).2.2
      rw [hd'.right.sight ho' hn₁, hdir]
      by_cases hn₂ : d₂.sight place = none
      · rw [hd.new place ho hn hn₂, hdir]
      · rw [hd.right.sight ho hn₂]
        exact ((hd'.left place ho').resolve_left fun h => hn₂ (h.trans hn)).2.2.symm
  · have h₁ := hd.left.sight ho hn
    have h₂ := hd'.left.sight ho' hn
    rw [hd'.right.sight ho' (h₁ ▸ hn), h₁, hd.right.sight ho (h₂ ▸ hn), h₂]

end Parallel
end UnitCache.Disk
