import UnitCache.Host

namespace UnitCache

variable {σ ε α β : Type} {x : ExceptT ε (StateM σ) α} {s s' : σ} {a : α} {e : ε}

theorem run_bind_ok (h : x.run s = (.ok a, s')) (f : α → ExceptT ε (StateM σ) β) :
    (x >>= f).run s = (f a).run s' := by
  simp only [ExceptT.run] at h ⊢
  simp only [bind, ExceptT.bind, ExceptT.mk, StateT.bind, h, ExceptT.bindCont]

/-- What follows a failure is not done. -/
theorem run_bind_error (h : x.run s = (.error e, s')) (f : α → ExceptT ε (StateM σ) β) :
    (x >>= f).run s = (.error e, s') := by
  simp only [ExceptT.run] at h ⊢
  simp only [bind, ExceptT.bind, ExceptT.mk, StateT.bind, h, ExceptT.bindCont]
  rfl

theorem run_tryCatch_ok (h : x.run s = (.ok a, s')) (f : ε → ExceptT ε (StateM σ) α) :
    (tryCatch x f).run s = (.ok a, s') := by
  simp only [ExceptT.run] at h ⊢
  simp only [tryCatch, tryCatchThe, MonadExceptOf.tryCatch, ExceptT.tryCatch, ExceptT.mk, bind,
    StateT.bind, h]
  rfl

/-- A handler starts from the state that the failure left. -/
theorem run_tryCatch_error (h : x.run s = (.error e, s')) (f : ε → ExceptT ε (StateM σ) α) :
    (tryCatch x f).run s = (f e).run s' := by
  simp only [ExceptT.run] at h ⊢
  simp only [tryCatch, tryCatchThe, MonadExceptOf.tryCatch, ExceptT.tryCatch, ExceptT.mk, bind,
    StateT.bind, h]

/-- A sequence without a state succeeds when both of its parts do. -/
theorem bind_ok {x : Except ε α} {f : α → Except ε β} {b : β} (h : (x >>= f) = .ok b) :
    ∃ a, x = .ok a ∧ f a = .ok b := by
  cases x with
  | error e => cases h
  | ok a => exact ⟨a, rfl, h⟩

namespace Action

variable {p : Path} {h h' : Host}

theorem run_reading (p : Path) (f : Disk → Except Fault α) (h : Host) :
    (reading p f).run h = ((f h.disk).mapError (.io p), h) := by
  rw [reading, run_bind_ok (rfl : (get : Action Host).run h = (.ok h, h))]
  cases f h.disk <;> rfl

theorem run_changing_ok {f : Disk → Except Fault Disk}
    (hr : (changing p f).run h = (.ok (), h')) :
    ∃ d, f h.disk = .ok d ∧ h' = { h with disk := d } := by
  rw [changing, run_bind_ok (rfl : (get : Action Host).run h = (.ok h, h))] at hr
  cases hf : f h.disk with
  | error e =>
    rw [hf] at hr
    cases hr
  | ok d =>
    rw [hf] at hr
    cases hr
    exact ⟨d, rfl, rfl⟩

theorem run_makeDirectories {d : Disk} {r : Except Fault Unit}
    (hm : h.disk.makeDirectories p = (d, r)) (blame : Fault → Error) :
    (makeDirectories p blame).run h = (r.mapError blame, { h with disk := d }) := by
  rw [makeDirectories, run_bind_ok (rfl : (get : Action Host).run h = (.ok h, h)), hm]
  cases r <;> rfl

/-- An action that leaves the file tree as it is, however it ends. -/
def OnlyReads (a : Action α) : Prop := ∀ h, (a.run h).2.disk = h.disk

namespace OnlyReads

theorem pure (a : α) : OnlyReads (pure a) := fun _ => rfl

theorem throw (e : Error) : OnlyReads (throw e : Action α) := fun _ => rfl

theorem report (r : LogRecord) : OnlyReads (Action.report r) := fun _ => rfl

theorem reading (p : Path) (f : Disk → Except Fault α) : OnlyReads (Action.reading p f) := by
  intro h
  rw [run_reading]

theorem get_bind {f : Host → Action α} (hf : ∀ h, OnlyReads (f h)) : OnlyReads (get >>= f) :=
  fun h => hf h h

theorem bind {a : Action α} {f : α → Action β} (ha : OnlyReads a) (hf : ∀ x, OnlyReads (f x)) :
    OnlyReads (a >>= f) := by
  intro h
  have hd := ha h
  rcases hr : a.run h with ⟨e | x, h'⟩ <;> rw [hr] at hd
  · rw [run_bind_error hr]
    exact hd
  · rw [run_bind_ok hr]
    exact (hf x h').trans hd

end OnlyReads
end Action
end UnitCache
