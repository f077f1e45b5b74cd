import UnitCache.Proofs.CacheWatch
import UnitCache.Proofs.LuaReach
import UnitCache.Proofs.ReadBack
import UnitCache.Proofs.RegistryWork

namespace UnitCache

namespace NamedUnit

theorem name_of_new {name : String} {source : UnitSource} {unit : NamedUnit}
    (h : new name source = .ok unit) : unit.name = name ∧ unit.source = source := by
  unfold new at h
  split at h
  · cases h
    exact ⟨rfl, rfl⟩
  · cases h

end NamedUnit

namespace Cache

open Registry (Site)

variable {κ : Type} {c : Cache} {t : Toolchain} {name text : String} {unit : NamedUnit}
  {h h' : Host} {w w₁ : Workbench κ} {r : CompileResult}

/-- A text is staged as it is, or written to its file below the source root. -/
theorem stage_ok (hs : (c.stage name text).run h = (.ok unit, h')) : unit.name = name ∧
    ((c.sourceRoot = none ∧ unit.source = .memory text ∧ h' = h) ∨
      ∃ root changed, c.sourceRoot = some root ∧
        unit.source = .file (UnitName.path root name UnitName.sourceExtension) ∧
        (Store.writeText (UnitName.path root name UnitName.sourceExtension) text).run h =
          (.ok changed, h')) := by
  unfold stage at hs
  cases hr : c.sourceRoot with
  | none =>
    rw [hr] at hs
    simp only at hs
    cases hu : NamedUnit.ofText name text with
    | error e =>
      rw [hu] at hs
      cases hs
    | ok u =>
      rw [hu] at hs
      cases hs
      obtain ⟨hn, hsource⟩ := NamedUnit.name_of_new hu
      exact ⟨hn, .inl ⟨rfl, hsource, rfl⟩⟩
  | some root =>
    rw [hr] at hs
    simp only at hs
    cases hu : NamedUnit.ofFile name (UnitName.path root name UnitName.sourceExtension) with
    | error e =>
      rw [hu] at hs
      cases hs
    | ok u =>
      have hl : (MonadExcept.ofExcept (NamedUnit.ofFile name
          (UnitName.path root name UnitName.sourceExtension)) : Action NamedUnit).run h = (.ok u, h) := by
        rw [hu]
        rfl
      rw [run_bind_ok hl] at hs
      rcases hw : (Store.writeText (UnitName.path root name UnitName.sourceExtension) text).run h with
        ⟨e | changed, h₁⟩
      · rw [run_bind_error hw] at hs
        cases hs
      · rw [run_bind_ok hw] at hs
        cases hs
        obtain ⟨hn, hsource⟩ := NamedUnit.name_of_new hu
        exact ⟨hn, .inr ⟨root, changed, rfl, hsource, hw⟩⟩

/-- A staged unit has the text that it is staged with. -/
theorem text_of_stage (hg : h.disk.Grounded h.disk.cwd)
    (hs : (c.stage name text).run h = (.ok unit, h')) : unit.readText h'.disk = .ok text := by
  rw [NamedUnit.readText]
  rcases (stage_ok hs).2 with ⟨-, hu, -⟩ | ⟨root, changed, -, hu, hw⟩
  · rw [hu]
  · rw [hu]
    simp only
    rw [Disk.readText, Store.read_writeBytes hg hw]
    simp only [bind, Except.bind, Disk.textOf, Utf8.decode_encode, Except.mapError]

/-- Without a source root nothing is staged. -/
theorem host_of_stage (hr : c.sourceRoot = none) (name text : String) (h : Host) :
    ((c.stage name text).run h).2 = h := by
  unfold stage
  rw [hr]
  simp only
  cases NamedUnit.ofText name text <;> rfl

def compiledBench (w : Workbench κ) (t : Toolchain) (unit : NamedUnit) (h : Host) : Workbench κ :=
  let x := Registry.Work.compiled t unit ⟨h, w.cache.registry⟩
  { w with
    host := { h with log := h.log ++ x.1.map Diagnostic.record }
    cache := { w.cache with registry := { w.cache.registry with capture := x.2 } } }

/-- A text that is staged is compiled, and the answer is all that is captured then. -/
theorem run_compileSource_staged (hs : (w.cache.stage name text).run w.host = (.ok unit, h)) :
    (compileSource t name text).run w =
      (.ok ⟨name, (Registry.Work.compiled t unit ⟨h, w.cache.registry⟩).2.outputs,
        (Registry.Work.compiled t unit ⟨h, w.cache.registry⟩).1⟩, compiledBench w t unit h) := by
  have ha : (Task.act (w.cache.stage name text)).run w = (.ok unit, { w with host := h }) := by
    rw [Task.run_act, hs]
  have hr := Task.run_withRegistry (Registry.Work.compile t unit) { w with host := h }
  rw [Registry.Work.run_compile] at hr
  rw [compileSource, run_bind_ok (Task.run_get w), run_bind_ok ha, run_bind_ok hr,
    run_bind_ok (Task.run_get _)]
  rfl

/-- A text that is not staged is not compiled. -/
theorem run_compileSource_refused {e : Error}
    (hs : (w.cache.stage name text).run w.host = (.error e, h)) :
    (compileSource t name text).run w = (.error e, { w with host := h }) := by
  have ha : (Task.act (w.cache.stage name text)).run w = (.error e, { w with host := h }) := by
    rw [Task.run_act, hs]
  rw [compileSource, run_bind_ok (Task.run_get w), run_bind_error ha]

/-- A compile that answers was staged. -/
theorem stage_of_compileSource (hc : (compileSource t name text).run w = (.ok r, w₁)) :
    ∃ unit h, (w.cache.stage name text).run w.host = (.ok unit, h) ∧ unit.name = name ∧
      w₁ = compiledBench w t unit h ∧
      r = ⟨name, (Registry.Work.compiled t unit ⟨h, w.cache.registry⟩).2.outputs,
        (Registry.Work.compiled t unit ⟨h, w.cache.registry⟩).1⟩ := by
  rcases hs : (w.cache.stage name text).run w.host with ⟨e | unit, h⟩
  · rw [run_compileSource_refused hs] at hc
    cases hc
  · rw [run_compileSource_staged hs] at hc
    cases hc
    exact ⟨unit, h, rfl, (stage_ok hs).1, rfl, rfl⟩

/-- What a compile of Lua answers when nothing was captured before: no artifacts, or the unit as it
is read after it was staged, with all modules that it needs. What is read is the text itself, as long
as the working directory is a directory. -/
theorem artifacts_complete (he : w.cache.registry.capture.outputs = .empty)
    (hc : (compileSource Lua.compiler name text).run w = (.ok r, w₁)) :
    r.artifacts = .empty ∨ ∃ unit source, unit.name = name ∧
      unit.readText w₁.host.disk = .ok source ∧
      (w.host.disk.Grounded w.host.disk.cwd → source = text) ∧
      Lua.Complete (Lua.sources w.cache.registry.capture w₁.host.disk unit source) r.artifacts := by
  obtain ⟨unit, h, hs, hu, rfl, rfl⟩ := stage_of_compileSource hc
  have hd : (compiledBench w Lua.compiler unit h).host.disk = h.disk := rfl
  rw [hd]
  unfold Registry.Work.compiled Capture.dialogue
  dsimp only
  cases ht : unit.readText h.disk with
  | error e => exact .inl he
  | ok source =>
    obtain ⟨-, hout⟩ := Lua.outputs_captured he h.disk unit source
    refine hout.imp_right fun hx => ⟨unit, source, hu, ht, fun hg => ?_, hx⟩
    exact Except.ok.inj (ht.symm.trans (text_of_stage hg hs))

end Cache
end UnitCache
