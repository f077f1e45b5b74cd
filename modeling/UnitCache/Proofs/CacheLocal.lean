import UnitCache.Proofs.CacheRepeats
import UnitCache.Proofs.Locality

namespace UnitCache.Cache

open Disk (Sound)
open UnitCache.Task (Local)

variable {κ η : Type} {own way : Place → Prop} {C C' : Disk → Prop} {w : Workbench κ} {c : Cache}
  {name text : String} {r : CompileResult}

/-- Staging is as local as the write of the text. -/
theorem local_stage (hsound : ∀ d, C d → d.Sound)
    (hwrite : ∀ root, c.sourceRoot = some root → UnitName.isValid name = true → Local own way C C
      (Task.act (Store.writeText (UnitName.path root name UnitName.sourceExtension) text)) w) :
    Local own way C C (Task.act (c.stage name text)) w := by
  have hstill (x : Except Error NamedUnit) (w : Workbench κ) :
      Local own way C C (Task.act (MonadExcept.ofExcept x)) w :=
    .inner hsound fun v hcache hcontext => by cases x <;> exact ⟨rfl, hcache, hcontext, rfl⟩
  unfold stage
  cases hroot : c.sourceRoot with
  | none => exact hstill _ w
  | some root =>
    simp only [Task.act_bind]
    refine (hstill _ w).bind fun unit w' hr => ?_
    have hunit : NamedUnit.ofFile name (UnitName.path root name UnitName.sourceExtension) = .ok unit ∧
        w' = w := by
      cases hu : NamedUnit.ofFile name (UnitName.path root name UnitName.sourceExtension) with
      | error e =>
        rw [hu] at hr
        cases hr
      | ok u =>
        rw [hu] at hr
        cases hr
        exact ⟨rfl, rfl⟩
    obtain ⟨hu, rfl⟩ := hunit
    have hvalid := (NamedUnit.name_of_new hu).1 ▸ unit.valid
    exact (hwrite root hroot hvalid).bind fun _ _ _ => hstill (.ok unit) _

/-- A compile is as local as the staging of its text. -/
theorem local_compileSource (hstage : Local own way C C' (Task.act (w.cache.stage name text)) w)
    (hsound : ∀ d, C d → d.Sound)
    (hfind : ∀ d d', C' d → C' d' →
      w.cache.registry.capture.find d' = w.cache.registry.capture.find d) :
    Local own way C C' (compileSource Lua.compiler name text) w := by
  intro hw v hb hv
  have hm := hstage hw v hb hv
  have hthere := (hstage hw w (.refl ..) hw).after
  have hresult := hm.result
  have hstaged (v : Workbench κ) : (Task.act (w.cache.stage name text)).run v =
      (((w.cache.stage name text).run v.host).1,
        { v with host := ((w.cache.stage name text).run v.host).2 }) := Task.run_act _ v
  rcases hs : (w.cache.stage name text).run w.host with ⟨e | unit, h⟩ <;>
    rcases hs' : (w.cache.stage name text).run v.host with ⟨e' | unit', h'⟩ <;>
    rw [hstaged w, hstaged v, hs, hs'] at hm <;> rw [hstaged w, hstaged v, hs, hs'] at hresult
  · obtain rfl := Except.error.inj hresult
    rw [run_compileSource_refused hs, run_compileSource_refused (hb.cache ▸ hs')]
    exact ⟨rfl, hm.cache, hm.context, hm.disk, hm.grows, fun _ h => nomatch h⟩
  · cases hresult
  · cases hresult
  · obtain rfl := Except.ok.inj hresult
    rw [hstaged w, hs] at hthere
    have hsame : Registry.Work.compiled Lua.compiler unit' ⟨h', w.cache.registry⟩ =
        Registry.Work.compiled Lua.compiler unit' ⟨h, w.cache.registry⟩ :=
      compiled_repeats
        (text_of_stage ((hsound _ hw).parents.grounded (hsound _ hw).cwd) hs)
        (text_of_stage ((hsound _ hv).parents.grounded (hsound _ hv).cwd) hs')
        (hfind _ _ (hthere unit' rfl) (hm.after unit' rfl))
    have hrun := run_compileSource_staged (t := Lua.compiler) (hb.cache ▸ hs')
    rw [run_compileSource_staged hs, hrun, hb.cache, hsame]
    refine ⟨rfl, ?_, hm.context, hm.disk, hm.grows, fun _ _ => hm.after unit' rfl⟩
    rw [compiledBench, compiledBench, hb.cache, hsame]

/-- What is missing in a context is injected whatever the host is. -/
theorem injectMissing_blind (k : ContextKind κ η) (as : List (String × Bytes)) {v w : Workbench κ}
    (hcache : v.cache = w.cache) (hcontext : v.context = w.context) :
    ((injectMissing k as).run v).1 = ((injectMissing k as).run w).1 ∧
      ((injectMissing k as).run v).2.cache = ((injectMissing k as).run w).2.cache ∧
      ((injectMissing k as).run v).2.context = ((injectMissing k as).run w).2.context ∧
      ((injectMissing k as).run v).2.host.disk = v.host.disk := by
  induction as generalizing v w with
  | nil => exact ⟨rfl, hcache, hcontext, rfl⟩
  | cons a as ih =>
    rw [injectMissing, run_bind_ok (Task.run_get v), run_bind_ok (Task.run_get w), hcontext]
    cases k.isDefined w.context a.1 with
    | true => exact ih hcache hcontext
    | false =>
      have hv := run_inject k a.1 a.2 v
      have hw := run_inject k a.1 a.2 w
      rw [hcontext] at hv
      rcases hi : k.inject a.1 a.2 w.context with ⟨e | _, context⟩ <;> rw [hi] at hv hw
      · simp only [Bool.not_false, if_true]
        rw [run_bind_error hv, run_bind_error hw]
        exact ⟨rfl, hcache, rfl, rfl⟩
      · simp only [Bool.not_false, if_true]
        rw [run_bind_ok hv, run_bind_ok hw]
        exact ih hcache rfl

/-- Persisting is as local as the write of the artifact. -/
theorem local_persist {root : Path} {bytes : Bytes} (hsound : ∀ d, C d → d.Sound)
    (hwrite : Local own way C C
      (Task.act (Store.writeBytes (UnitName.path root name UnitName.binaryExtension) bytes)) w) :
    Local own way C C (persist root name bytes) w := by
  unfold persist
  rw [Task.act_bind]
  refine hwrite.bind fun changed w' _ => .inner hsound fun v hcache hcontext => ?_
  cases changed <;> exact ⟨rfl, hcache, hcontext, rfl⟩

/-- What is delivered is persisted and injected in the same way, if artifacts are persisted at all. -/
theorem local_deliver (k : ContextKind κ η) (hsound : ∀ d, C d → d.Sound)
    (hroot : ∀ d, C d → w.cache.persistenceRoot? d = w.cache.artifactRoot)
    (hwrite : ∀ root, w.cache.artifactRoot = some root → ∀ a ∈ r.artifacts.entries,
      ∀ w : Workbench κ, Local own way C C
        (Task.act (Store.writeBytes (UnitName.path root a.1 UnitName.binaryExtension) a.2)) w) :
    Local own way C C (deliver persist k r) w := by
  unfold deliver
  cases r.artifacts.get? r.unit with
  | none => exact .inner hsound fun v hcache hcontext => ⟨rfl, hcache, hcontext, rfl⟩
  | some bytes =>
    have hkeep : Local own way C C (keepAll persist r.artifacts.entries) w := by
      intro hw v hb hv
      have hrun (v : Workbench κ) (hc : v.cache = w.cache) (hv : C v.host.disk) :
          (keepAll persist r.artifacts.entries).run v =
            ((w.cache.artifactRoot.elim (pure ()) fun root =>
              r.artifacts.entries.forM fun a => persist root a.1 a.2) : Task κ Unit).run v := by
        rw [keepAll, run_bind_ok (Task.run_get v), hc, hroot _ hv]
        cases w.cache.artifactRoot <;> rfl
      rw [hrun w rfl hw, hrun v hb.cache hv]
      cases hr : w.cache.artifactRoot with
      | none =>
        have hskip : Local own way C C (pure () : Task κ Unit) w :=
          .inner hsound fun v hcache hcontext => ⟨rfl, hcache, hcontext, rfl⟩
        exact hskip hw v hb hv
      | some root =>
        exact Local.forM hsound (fun a ha w => local_persist hsound (hwrite root hr a ha w)) w hw v hb hv
    have hinject (w : Workbench κ) : Local own way C C (inject k r.unit bytes) w := by
      refine .inner hsound fun v hcache hcontext => ?_
      rw [run_inject, run_inject, hcontext]
      exact ⟨rfl, hcache, rfl, rfl⟩
    refine hkeep.bind fun _ w₁ _ => (hinject w₁).bind fun _ w₂ _ => ?_
    exact .inner hsound fun v hcache hcontext => injectMissing_blind k _ hcache hcontext

/-- A load up to the running of the unit is as local as its writes. -/
theorem local_install (k : ContextKind κ η)
    (hstage : Local own way C C' (Task.act (w.cache.stage name text)) w)
    (hsound : ∀ d, C d → d.Sound) (hsound' : ∀ d, C' d → d.Sound)
    (hfind : ∀ d d', C' d → C' d' →
      w.cache.registry.capture.find d' = w.cache.registry.capture.find d)
    (hroot : ∀ d, C' d → w.cache.persistenceRoot? d = w.cache.artifactRoot)
    (hwrite : ∀ root, w.cache.artifactRoot = some root → ∀ r w₁,
      (compileSource Lua.compiler name text).run w = (.ok r, w₁) → ∀ a ∈ r.artifacts.entries,
        ∀ w : Workbench κ, Local own way C' C'
          (Task.act (Store.writeBytes (UnitName.path root a.1 UnitName.binaryExtension) a.2)) w) :
    Local own way C C' (install Lua.compiler k name text) w := by
  refine (local_compileSource hstage hsound hfind).bind fun r w₁ hc => ?_
  have hkept : w₁.cache.artifactRoot = w.cache.artifactRoot := by
    obtain ⟨unit, h, -, -, rfl, -⟩ := stage_of_compileSource hc
    rfl
  refine local_deliver k hsound' (fun d hd => ?_) fun root hr a ha => hwrite root (hkept ▸ hr) r w₁ hc a ha
  rw [hkept, ← hroot d hd, persistenceRoot?, persistenceRoot?, hkept]

end UnitCache.Cache
