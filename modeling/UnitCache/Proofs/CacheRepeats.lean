import UnitCache.Proofs.CachePersistence
import UnitCache.Proofs.CacheTraces
import UnitCache.Proofs.ClasspathSteady
import UnitCache.Proofs.StoreGrowth

namespace UnitCache

open Disk (Grows Sound placeOf)
open Store (Holds)

variable {κ κ' η η' : Type}

namespace Cache

variable {w w' w₁ : Workbench κ} {root : Path} {name text : String} {h h' g : Host} {c : Cache}
  {unit : NamedUnit}

def Staged (c : Cache) (name text : String) (d : Disk) : Prop :=
  ∀ root, c.sourceRoot = some root →
    Holds (UnitName.path root name UnitName.sourceExtension) (Utf8.encode text) d

/-- Staging lets a tree in order grow, and leaves the text in its file. -/
theorem stage_grows (hs : h.disk.Sound) (hr : (c.stage name text).run h = (.ok unit, h')) :
    Grows (fun _ => True) h.disk h'.disk ∧ c.Staged name text h'.disk := by
  rcases stage_ok hr with ⟨hu, ⟨hnone, -, rfl⟩ | ⟨root, changed, hroot, -, hw⟩⟩
  · refine ⟨.refl hs, fun root hroot => ?_⟩
    rw [hnone] at hroot
    cases hroot
  · let f : UnitFile := ⟨name, UnitName.sourceExtension, hu ▸ unit.valid, .inl rfl⟩
    obtain ⟨hg, hh⟩ := Store.grows_writeBytes hs (f.components_path root) hw
    refine ⟨hg.mono fun _ _ => trivial, fun root' hroot' => ?_⟩
    rw [hroot] at hroot'
    cases hroot'
    exact hh

/-- A text that is in its file is staged without effect. -/
theorem run_stage_staged (hr : (c.stage name text).run h = (.ok unit, h'))
    (hst : c.Staged name text g.disk) : (c.stage name text).run g = (.ok unit, g) := by
  unfold stage at hr ⊢
  cases hroot : c.sourceRoot with
  | none =>
    rw [hroot] at hr
    simp only at hr ⊢
    cases hu : NamedUnit.ofText name text with
    | error e =>
      rw [hu] at hr
      cases hr
    | ok u =>
      rw [hu] at hr
      cases hr
      rfl
  | some root =>
    rw [hroot] at hr
    simp only at hr ⊢
    let p := UnitName.path root name UnitName.sourceExtension
    cases hu : NamedUnit.ofFile name p with
    | error e =>
      rw [hu] at hr
      cases hr
    | ok u =>
      have hl (g : Host) : (MonadExcept.ofExcept (.ok u) : Action NamedUnit).run g = (.ok u, g) := rfl
      rw [hu, run_bind_ok (hl h)] at hr
      rcases hw : (Store.writeText p text).run h with ⟨e | changed, h₁⟩
      · rw [run_bind_error hw] at hr
        cases hr
      · rw [run_bind_ok hw] at hr
        cases hr
        have hheld : (Store.writeText p text).run g = (.ok false, g) := (hst root hroot).run_writeBytes
        rw [run_bind_ok (hl g), run_bind_ok hheld]
        rfl

def Persisted (root : Path) (as : List (String × Bytes)) (d : Disk) : Prop :=
  ∀ a ∈ as, Holds (UnitName.path root a.1 UnitName.binaryExtension) a.2 d

/-- Persisting artifacts that goes well lets a tree in order grow, and leaves all of them in their
files. -/
theorem persistAll_grows {as : List (String × Bytes)} (hs : w.host.disk.Sound)
    (hv : ∀ a ∈ as, UnitName.isValid a.1 = true) (hd : as.Pairwise (fun a b => a.1 ≠ b.1))
    (hr : (as.forM (fun a => persist root a.1 a.2)).run w = (.ok (), w')) :
    Grows (fun place => ∃ a ∈ as, OutputPlace w.host.disk.cwd root a.1 place) w.host.disk
        w'.host.disk ∧ Persisted root as w'.host.disk := by
  induction as generalizing w with
  | nil =>
    cases hr
    exact ⟨.refl hs, by simp [Persisted]⟩
  | cons a as ih =>
    obtain ⟨hvalid, hv⟩ := List.forall_mem_cons.mp hv
    obtain ⟨hne, hd⟩ := List.pairwise_cons.mp hd
    rcases hp : (persist root a.1 a.2).run w with ⟨e | _, w₁⟩
    · rw [List.forM, run_bind_error hp] at hr
      cases hr
    rw [List.forM, run_bind_ok hp] at hr
    obtain ⟨changed, h, hw, hdisk, -⟩ := persist_ok hp
    let f : UnitFile := ⟨a.1, UnitName.binaryExtension, hvalid, .inr rfl⟩
    obtain ⟨hg, hh⟩ := Store.grows_writeBytes hs (f.components_path root) hw
    rw [← hdisk] at hg hh
    obtain ⟨hg', hall⟩ := ih hg.sound hv hd hr
    have hcwd := hg.cwd
    refine ⟨(hg.mono fun place hp => ⟨a, List.mem_cons_self, hp⟩).trans (hg'.mono ?_), ?_⟩
    · rintro place ⟨b, hb, hp⟩
      exact ⟨b, List.mem_cons_of_mem a hb, hcwd ▸ hp⟩
    · -- The artifacts that follow go to other files.
      have hkept : Holds (f.path root) a.2 w'.host.disk := by
        refine hh.grows hg.sound hg' ?_
        rintro ⟨b, hb, hp⟩
        let f' : UnitFile := ⟨b.1, UnitName.binaryExtension, hv b hb, .inr rfl⟩
        have hff' : f ≠ f' := fun he => hne b hb (congrArg UnitFile.name he)
        exact UnitFile.apart _ root hff' hp
      exact List.forall_mem_cons.mpr ⟨hkept, hall⟩

/-- Artifacts that are in their files are persisted without effect. -/
theorem run_persistAll {as : List (String × Bytes)} (hp : Persisted root as w.host.disk) :
    (as.forM (fun a => persist root a.1 a.2)).run w = (.ok (), w) := by
  induction as with
  | nil => rfl
  | cons a as ih =>
    obtain ⟨ha, has⟩ := List.forall_mem_cons.mp hp
    have hrun : (persist root a.1 a.2).run w = (.ok (), w) := by
      rw [persist, Task.run_act, run_bind_ok ha.run_writeBytes]
      rfl
    rw [List.forM, run_bind_ok hrun, ih has]

/-- A place where an artifact is persisted is not that of a source. -/
theorem sparesSources_output {cwd : Place} {as : List (String × Bytes)}
    (hv : ∀ a ∈ as, UnitName.isValid a.1 = true) :
    Classpath.SparesSources fun place => ∃ a ∈ as, OutputPlace cwd root a.1 place := by
  rintro above n ⟨a, ha, hp⟩
  let f : UnitFile := ⟨a.1, UnitName.binaryExtension, hv a ha, .inr rfl⟩
  have hp : FileOrBackup cwd (f.path root) (above ++ [n ++ ".lua".toList]) := hp
  rw [FileOrBackup, UnitFile.placeOf_path, UnitFile.placeOf_backup_path] at hp
  have hlast {above' : Place} {stem ext : List Char}
      (he : above ++ [n ++ ".lua".toList] = above' ++ [stem ++ ext]) (hne : ext ≠ []) :
      ext.getLast? = some 'a' := by
    have hn := List.singleton_inj.mp (List.append_inj' he rfl).2
    have hl := congrArg List.getLast? hn
    rw [List.getLast?_append_of_ne_nil _ (by decide), List.getLast?_append_of_ne_nil _ hne] at hl
    exact hl.symm
  rcases hp with hp | hp
  · rw [UnitFile.place, ← List.append_assoc, UnitFile.fileName] at hp
    exact absurd (hlast hp (by simp)) (by simp [f]; decide)
  · rw [UnitFile.backupPlace, ← List.append_assoc, UnitFile.backupName] at hp
    exact absurd (hlast hp (by decide)) (by decide)

variable {r : CompileResult}

/-- A unit compiles the same where it has the same text and the same modules are found. -/
theorem compiled_repeats {r : Registry} (ht : unit.readText h.disk = .ok text)
    (ht' : unit.readText g.disk = .ok text) (hfind : r.capture.find g.disk = r.capture.find h.disk) :
    Registry.Work.compiled Lua.compiler unit ⟨g, r⟩ = Registry.Work.compiled Lua.compiler unit ⟨h, r⟩ := by
  obtain ⟨s, looked, inner, -, hall⟩ := Lua.run_captured r.capture h.disk unit text g.disk hfind
  have hrun (e : Host) (he : e.disk ∈ [h.disk, g.disk]) (ht : unit.readText e.disk = .ok text) :
      Registry.Work.compiled Lua.compiler unit ⟨e, r⟩ = (s.diagnostics, r.capture.takeAll s.writes) := by
    rw [Registry.Work.compiled, Capture.dialogue, ht]
    exact hall e.disk he
  rw [hrun g (by simp) ht', hrun h (by simp) ht]

/-- A text that is staged and compiled again compiles the same, if the same modules are found. -/
theorem compileSource_repeats {v : Workbench κ'} (hs : w.host.disk.Sound) (hs' : v.host.disk.Sound)
    (hc : (compileSource Lua.compiler name text).run w = (.ok r, w₁)) (hcache : v.cache = w.cache)
    (hst : w.cache.Staged name text v.host.disk)
    (hfind : w.cache.registry.capture.find v.host.disk = w.cache.registry.capture.find w₁.host.disk) :
    ∃ v₁, (compileSource Lua.compiler name text).run v = (.ok r, v₁) ∧
      v₁.host = { v.host with log := v.host.log ++ r.diagnostics.map Diagnostic.record } ∧
      v₁.cache = w₁.cache := by
  obtain ⟨unit, h, hstage, hu, rfl, rfl⟩ := stage_of_compileSource hc
  have hagain : (w.cache.stage name text).run v.host = (.ok unit, v.host) := run_stage_staged hstage hst
  have hsame : Registry.Work.compiled Lua.compiler unit ⟨v.host, w.cache.registry⟩ =
      Registry.Work.compiled Lua.compiler unit ⟨h, w.cache.registry⟩ :=
    compiled_repeats (text_of_stage (hs.parents.grounded hs.cwd) hstage)
      (text_of_stage (hs'.parents.grounded hs'.cwd) hagain) hfind
  have hrun := run_compileSource_staged (t := Lua.compiler) (hcache ▸ hagain)
  rw [hcache, hsame] at hrun
  refine ⟨_, hrun, ?_, ?_⟩
  · rw [compiledBench, hcache, hsame]
  · rw [compiledBench, hcache, hsame]
    rfl

/-- A load that goes well has compiled its unit and delivered it. -/
theorem install_of_load {t : Toolchain} {k : ContextKind κ η} {x : η}
    (hl : (load t k name text).run w = (.ok x, w')) : ∃ r w₁ w₂ bytes,
      (compileSource t name text).run w = (.ok r, w₁) ∧ r.artifacts.get? r.unit = some bytes ∧
      (keepAll persist r.artifacts.entries).run w₁ = (.ok (), w₂) ∧
      ((install t k name text).run w).2.host = w₂.host := by
  rw [load, run_loadWith] at hl
  rcases hc : (compileSource t name text).run w with ⟨e | r, w₁⟩
  · rw [run_bind_error hc] at hl
    cases hl
  rw [run_bind_ok hc] at hl
  cases hb : r.artifacts.get? r.unit with
  | none =>
    have hd : (deliver persist k r).run w₁ = (.error r.missing, w₁) := by
      rw [deliver, hb]
      rfl
    rw [hd] at hl
    cases hl
  | some bytes =>
    rcases hp : (keepAll persist r.artifacts.entries).run w₁ with ⟨e | _, w₂⟩
    · have hd : (deliver persist k r).run w₁ = (.error e, w₂) := by
        rw [deliver, hb]
        exact run_bind_error hp _
      rw [hd] at hl
      cases hl
    · refine ⟨r, w₁, w₂, bytes, rfl, hb, hp, ?_⟩
      rw [install, run_bind_ok hc, host_deliver hp hb]

/-- Keeping the artifacts of a compile lets a tree in order grow where no source is, and leaves them
in their files, if there is a place for them. -/
theorem keepAll_grows {w₂ : Workbench κ} (hs : w₁.host.disk.Sound)
    (hv : ∀ a ∈ r.artifacts.entries, UnitName.isValid a.1 = true)
    (hp : (keepAll persist r.artifacts.entries).run w₁ = (.ok (), w₂)) :
    ∃ S, Classpath.SparesSources S ∧ Grows S w₁.host.disk w₂.host.disk ∧
      w₁.cache.persistenceRoot? w₂.host.disk = w₁.cache.persistenceRoot? w₁.host.disk ∧
      ∀ root, w₁.cache.persistenceRoot? w₁.host.disk = some root →
        Persisted root r.artifacts.entries w₂.host.disk := by
  cases hroot : w₁.cache.persistenceRoot? w₁.host.disk with
  | none =>
    rw [run_keepAll_skip hroot] at hp
    cases hp
    exact ⟨fun _ => False, fun _ _ h => h, .refl hs, hroot, fun root h => nomatch h⟩
  | some root =>
    rw [keepAll, run_bind_ok (Task.run_get w₁), hroot] at hp
    have hdistinct : r.artifacts.entries.Pairwise (fun a b => a.1 ≠ b.1) := by
      refine r.artifacts.sorted.imp ?_
      intro a b hab he
      exact String.lt_irrefl b.1 (he ▸ hab)
    obtain ⟨hg, hall⟩ := persistAll_grows hs hv hdistinct hp
    refine ⟨_, sparesSources_output hv, hg, ?_, fun root' h => ?_⟩
    · rw [persistenceRoot?, Option.filter_eq_some_iff] at hroot ⊢
      exact ⟨hroot.1, (hg.keeps hs).isDirectory hroot.2⟩
    · cases h
      exact hall

/-- A staged text stays where it is while no source is written. -/
theorem Staged.grows {S : Place → Prop} {d d' : Disk} (hst : c.Staged name text d) (hs : d.Sound)
    (hg : Grows S d d') (hS : Classpath.SparesSources S) (hv : UnitName.isValid name = true) :
    c.Staged name text d' := by
  intro root hroot
  let f : UnitFile := ⟨name, UnitName.sourceExtension, hv, .inl rfl⟩
  refine (hst root hroot).grows hs hg ?_
  have hplace : placeOf d.cwd (f.path root) = f.place (placeOf d.cwd root) := f.placeOf_path _ root
  rw [UnitFile.place, ← List.append_assoc] at hplace
  exact hplace ▸ hS _ f.stem

def accepting : ContextKind Unit Unit where
  isDefined _ _ := false
  inject _ _ c := (.ok (), c)
  resolve _ s := (.ok (), s)

theorem run_injectMissing_accepting (as : List (String × Bytes)) (w : Workbench Unit) :
    (injectMissing accepting as).run w = (.ok (), w) := by
  induction as with
  | nil => rfl
  | cons a as ih =>
    have hi : (inject accepting a.1 a.2).run w = (.ok (), w) := rfl
    have hd : accepting.isDefined w.context a.1 = false := rfl
    rw [injectMissing, run_bind_ok (Task.run_get w), hd]
    simp only [Bool.not_false, if_true]
    rw [run_bind_ok hi, ih]

/-- A load into a context that takes every unit goes well if the artifacts are kept. -/
theorem load_accepting {w w₁ w₂ : Workbench Unit} {bytes : Bytes}
    (hc : (compileSource Lua.compiler name text).run w = (.ok r, w₁))
    (hb : r.artifacts.get? r.unit = some bytes)
    (hp : (keepAll persist r.artifacts.entries).run w₁ = (.ok (), w₂)) :
    (load Lua.compiler accepting name text).run w = (.ok (), w₂.cleared) ∧
      ((install Lua.compiler accepting name text).run w).2.host = w₂.host := by
  have hi : (inject accepting r.unit bytes).run w₂ = (.ok (), w₂) := rfl
  have hd : (deliver persist accepting r).run w₁ = (.ok (), w₂) := by
    rw [deliver, hb]
    simp only
    rw [run_bind_ok hp, run_bind_ok hi, run_injectMissing_accepting]
  refine ⟨?_, by rw [install, run_bind_ok hc, hd]⟩
  rw [load, run_loadWith, run_bind_ok hc, hd]
  rfl

/-- What a text compiles to where the modules that are looked up are known. -/
theorem compileSource_of_answers (w : Workbench κ) (name text : String) {ds : List Diagnostic}
    {find : String → Except Error (Option ModuleSource)} {captured : Capture}
    (hs : (w.cache.stage name text).run w.host = (.ok unit, h)) (ht : unit.readText h.disk = .ok text)
    (hf : ∀ n ∈ Lua.asked find w.cache.registry.capture h.disk unit text,
      w.cache.registry.capture.find h.disk n = find n)
    (ha : Lua.answered find w.cache.registry.capture h.disk unit text = (ds, captured)) :
    ∃ w₁, (compileSource Lua.compiler name text).run w = (.ok ⟨name, captured.outputs, ds⟩, w₁) ∧
      w₁.host.disk = h.disk ∧ w₁.cache.artifactRoot = w.cache.artifactRoot := by
  have hcompiled : Registry.Work.compiled Lua.compiler unit ⟨h, w.cache.registry⟩ = (ds, captured) := by
    rw [Registry.Work.compiled, Capture.dialogue, ht, ← ha]
    exact Lua.run_answered hf
  have hrun := run_compileSource_staged (t := Lua.compiler) hs
  rw [hcompiled] at hrun
  exact ⟨_, hrun, rfl, rfl⟩

theorem run_persist_changed (root : Path) (name : String) (bytes : Bytes) {d : Disk} (d' : Disk)
    (hd : w.host.disk = d)
    (hw : ∀ log, (Store.writeBytes (UnitName.path root name UnitName.binaryExtension) bytes).run
      ⟨d, log⟩ = (.ok true, ⟨d', log⟩)) :
    ∃ w', (persist root name bytes).run w = (.ok (), w') ∧ w'.host.disk = d' := by
  have hrun := hw w.host.log
  rw [← hd] at hrun
  rw [persist, Task.run_act, run_bind_ok hrun]
  exact ⟨_, rfl, rfl⟩

def treeBench (d : Disk) (dirs : List Path) (source artifact : Option Path) : Workbench Unit :=
  ⟨⟨d, []⟩, ⟨⟨dirs, { classpath := ⟨dirs.map .directory, none, false⟩ }, 0⟩, { providers := [] },
    source, artifact⟩, ()⟩

def finding (m : ModuleSource) (name : String) : Except Error (Option ModuleSource) :=
  .ok (if name = m.name then some m else none)

theorem entries_of_names {as : Artifacts} {m n : String}
    (h : as.entries.map Prod.fst = [m, n]) :
    ∃ a b, as.entries = [(m, a), (n, b)] ∧ as.get? m = some a ∧ as.get? n = some b := by
  match he : as.entries with
  | [] => simp [he] at h
  | [_] => simp [he] at h
  | [(m', a), (n', b)] =>
    simp only [he, List.map_cons, List.map_nil, List.cons.injEq, and_true] at h
    obtain ⟨rfl, rfl⟩ := h
    exact ⟨a, b, rfl, NameMap.mem_entries.mp (by simp [he]), NameMap.mem_entries.mp (by simp [he])⟩
  | _ :: _ :: _ :: _ => simp [he] at h

/-- What a load of Lua that went well leaves is all that the same load needs, on a tree in order, if
nothing was captured before. As long as others leave the tree alone, the load that is repeated,
into whatever context, compiles the same artifacts with the same diagnostics, and no write of it
changes anything. The first load must not complete a directory on the classpath whose path takes a
step up: it could show modules that were hidden before. -/
theorem load_repeats (k : ContextKind κ η) (k' : ContextKind κ' η') {v : Workbench κ'} {x : η}
    (hs : w.host.disk.Sound)
    (hopen : w.cache.registry.capture.classpath.HoldsArchives w.host.disk)
    (hempty : w.cache.registry.capture.outputs = .empty)
    (hload : (load Lua.compiler k name text).run w = (.ok x, w'))
    (hchunk : w'.host.disk = ((install Lua.compiler k name text).run w).2.host.disk)
    (hdetour : ∀ root, .directory root ∈ w.cache.registry.capture.classpath.entries →
      Disk.NoDetour ((compileSource Lua.compiler name text).run w).2.host.disk w'.host.disk root)
    (hcache : v.cache = w'.cache) (hdisk : v.host.disk = w'.host.disk) :
    ∃ r w₁ v₁, (compileSource Lua.compiler name text).run w = (.ok r, w₁) ∧
      (compileSource Lua.compiler name text).run v = (.ok r, v₁) ∧
      (∀ root, v.cache.sourceRoot = some root →
        (Store.writeText (UnitName.path root name UnitName.sourceExtension) text).run v.host =
          (.ok false, v.host)) ∧
      (∀ root, v₁.cache.persistenceRoot? v₁.host.disk = some root →
        ∀ n bytes, r.artifacts.get? n = some bytes →
          (Store.writeBytes (UnitName.path root n UnitName.binaryExtension) bytes).run v₁.host =
            (.ok false, v₁.host)) ∧
      (keepAll persist r.artifacts.entries).run v₁ = (.ok (), v₁) ∧
      ((install Lua.compiler k' name text).run v).2.host =
        { v.host with log := v.host.log ++ r.diagnostics.map Diagnostic.record } := by
  obtain ⟨r, w₁, w₂, bytes, hc, hb, hp, hhost⟩ := install_of_load hload
  have hcache : v.cache = w.cache := by
    have hkept : ((load Lua.compiler k name text).run w).2.cache = w.cleared.cache :=
      cache_load Lua.compiler_neverCloses k w
    rw [hload, cleared_of_empty hempty] at hkept
    exact hcache.trans hkept
  have hdisk : v.host.disk = w₂.host.disk := by rw [hdisk, hchunk, hhost]
  rw [hchunk, hhost, hc] at hdetour
  obtain ⟨unit, h, hstage, hu, hw₁, -⟩ := stage_of_compileSource hc
  obtain ⟨hg, hst⟩ := stage_grows hs hstage
  have hd₁ : w₁.host.disk = h.disk := by rw [hw₁]; rfl
  rw [← hd₁] at hg hst
  have hvalid (a : String × Bytes) (ha : a ∈ r.artifacts.entries) := valid_artifact hempty hc ha
  obtain ⟨S, hS, hg', hroot, hall⟩ := keepAll_grows hg.sound hvalid hp
  have hst' : w.cache.Staged name text v.host.disk :=
    hdisk ▸ hst.grows hg.sound hg' hS (hu ▸ unit.valid)
  have hopen' := hopen.retains hg.retains
  have hfind : w.cache.registry.capture.find v.host.disk = w.cache.registry.capture.find w₁.host.disk := by
    rw [hdisk]
    exact Classpath.find_steady hg' hg.sound hS hopen' hdetour
  obtain ⟨v₁, hc', hhost', hcache'⟩ :=
    compileSource_repeats hs (hdisk ▸ hg'.sound) hc hcache hst' hfind
  have hd' : v₁.host.disk = w₂.host.disk := by rw [hhost', hdisk]
  have hpersisted (root : Path) (hr : v₁.cache.persistenceRoot? v₁.host.disk = some root) :
      Persisted root r.artifacts.entries v₁.host.disk := by
    rw [hcache', hd', hroot] at hr
    exact hd' ▸ hall root hr
  have hidle : (keepAll persist r.artifacts.entries).run v₁ = (.ok (), v₁) := by
    cases hr : v₁.cache.persistenceRoot? v₁.host.disk with
    | none => exact run_keepAll_skip hr persist _
    | some root =>
      rw [keepAll, run_bind_ok (Task.run_get v₁), hr]
      exact run_persistAll (hpersisted root hr)
  refine ⟨r, w₁, v₁, hc, hc', fun root hr => ?_, fun root hr n bytes hn => ?_, hidle, ?_⟩
  · exact (hst' root (hcache ▸ hr)).run_writeBytes
  · exact (hpersisted root hr (n, bytes) (NameMap.mem_entries.mpr hn)).run_writeBytes
  · rw [install, run_bind_ok hc', host_deliver hidle hb, hhost']

def sharedTree : Disk where
  entries := [(["r".toList, "b.lua".toList], .file 0 []), (["r".toList], .directory)]
  nextId := 1

def sharedBench : Workbench Unit :=
  treeBench sharedTree [⟨"/r".toList⟩] (some ⟨"/r".toList⟩) (some ⟨"/r".toList⟩)

def sharedStaged : Disk :=
  { sharedTree with
    entries := (["r".toList, "a.lua".toList], .file 1 (Utf8.encode "require 'b'")) :: sharedTree.entries
    nextId := 2 }

theorem find_shared : sharedBench.cache.registry.capture.find sharedStaged "b" =
    .ok (some ⟨"b", "/r/b.lua", ""⟩) := by
  have hpresent : Classpath.inEntry sharedStaged "b" "b.lua" (.directory ⟨"/r".toList⟩) =
      .ok (some ⟨"b", "/r/b.lua", ""⟩) := by
    cbv
  have hentries : sharedBench.cache.registry.capture.classpath.entries =
      [] ++ .directory ⟨"/r".toList⟩ :: [] := rfl
  exact Classpath.find_first rfl (by decide) hentries (by simp) hpresent

theorem run_keepAll_shared {w₁ : Workbench Unit} (hd : w₁.host.disk = sharedStaged)
    (hroot : w₁.cache.artifactRoot = some ⟨"/r".toList⟩) (a b : Bytes) :
    ∃ w₂, (keepAll persist [("a", a), ("b", b)]).run w₁ = (.ok (), w₂) := by
  have hpersistent : w₁.cache.persistenceRoot? w₁.host.disk = some ⟨"/r".toList⟩ := by
    rw [persistenceRoot?, hroot, hd]
    cbv
  obtain ⟨w', hrun, hd'⟩ := run_persist_changed ⟨"/r".toList⟩ "a" a { sharedStaged with
      entries := (["r".toList, "a.luac".toList], .file 2 a) :: sharedStaged.entries, nextId := 3 }
    hd (fun log => by cbv)
  obtain ⟨w₂, hrun', hd₂⟩ := run_persist_changed ⟨"/r".toList⟩ "b" b { sharedStaged with
      entries := (["r".toList, "b.luac".toList], .file 3 b) ::
        (["r".toList, "a.luac".toList], .file 2 a) :: sharedStaged.entries, nextId := 4 }
    hd' (fun log => by cbv)
  refine ⟨w₂, ?_⟩
  rw [keepAll, run_bind_ok (Task.run_get w₁), hpersistent]
  simp only
  rw [List.forM, run_bind_ok hrun, List.forM, run_bind_ok hrun']
  rfl

theorem load_shared : ∃ w', (load Lua.compiler accepting "a" "require 'b'").run sharedBench = (.ok (), w') ∧
    w'.host = ((install Lua.compiler accepting "a" "require 'b'").run sharedBench).2.host := by
  let find := finding ⟨"b", "/r/b.lua", ""⟩
  let c := sharedBench.cache.registry.capture
  let unit : NamedUnit := ⟨"a", .file ⟨"/r/a.lua".toList⟩, by decide⟩
  have hstage : (sharedBench.cache.stage "a" "require 'b'").run sharedBench.host =
      (.ok unit, ⟨sharedStaged, []⟩) := by
    cbv
  have htext : unit.readText sharedStaged = .ok "require 'b'" := by cbv
  have hasked : Lua.asked find c sharedStaged unit "require 'b'" = ["b"] := by decide +kernel
  have hnames : (Lua.answered find c sharedStaged unit "require 'b'").2.outputs.entries.map Prod.fst =
      ["a", "b"] := by
    decide +kernel
  have hfind (n : String) (hn : n ∈ Lua.asked find c sharedStaged unit "require 'b'") :
      c.find sharedStaged n = find n := by
    rw [hasked, List.mem_singleton] at hn
    rw [hn, find_shared]
    rfl
  rcases hout : Lua.answered find c sharedStaged unit "require 'b'" with ⟨ds, captured⟩
  rw [hout] at hnames
  obtain ⟨w₁, hc, hd₁, hroot₁⟩ :=
    compileSource_of_answers sharedBench "a" "require 'b'" hstage htext hfind hout
  obtain ⟨a, b, hentries, ha, hb⟩ := entries_of_names hnames
  obtain ⟨w₂, hp⟩ := run_keepAll_shared hd₁ hroot₁ a b
  rw [← hentries] at hp
  obtain ⟨hload, hinstall⟩ := load_accepting hc ha hp
  exact ⟨w₂.cleared, hload, hinstall.symm⟩

/-- Where one directory is source root, artifact root and classpath, a load that is repeated leaves
the tree as it is. -/
theorem load_repeats_shared :
    ∃ w' r w₁ v₁, (load Lua.compiler accepting "a" "require 'b'").run sharedBench = (.ok (), w') ∧
      (compileSource Lua.compiler "a" "require 'b'").run sharedBench = (.ok r, w₁) ∧
      (compileSource Lua.compiler "a" "require 'b'").run w' = (.ok r, v₁) ∧
      ((install Lua.compiler accepting "a" "require 'b'").run w').2.host.disk = w'.host.disk := by
  obtain ⟨w', hload, hinstall⟩ := load_shared
  have hsound : sharedBench.host.disk.Sound := by decide +kernel
  have hopen : sharedBench.cache.registry.capture.classpath.HoldsArchives sharedBench.host.disk := by
    intro p file members hm
    cases List.mem_singleton.mp hm
  have hdetour (root : Path)
      (hroot : .directory root ∈ sharedBench.cache.registry.capture.classpath.entries) :
      Disk.NoDetour ((compileSource Lua.compiler "a" "require 'b'").run sharedBench).2.host.disk
        w'.host.disk root := by
    intro hup
    cases List.mem_singleton.mp hroot
    exact absurd hup (by decide)
  obtain ⟨r, w₁, v₁, hc, hc', -, -, -, hhost⟩ := load_repeats accepting accepting hsound hopen rfl hload
    (congrArg Host.disk hinstall) hdetour rfl rfl
  exact ⟨w', r, w₁, v₁, hload, hc, hc', by rw [hhost]⟩

/-- Two directories with a module `d`, the first of which is spelled by way of one that is missing. -/
def detourTree : Disk where
  entries := [(["lib".toList, "d.lua".toList], .file 0 (Utf8.encode "return")),
    (["lib".toList], .directory), (["lib2".toList, "d.lua".toList], .file 1 []),
    (["lib2".toList], .directory)]
  nextId := 2

def detourMade (a b : Bytes) : Disk :=
  { detourTree with
    entries := (["gone".toList, "x.luac".toList], .file 3 b) :: (["gone".toList], .directory) ::
      (["d.luac".toList], .file 2 a) :: detourTree.entries
    nextId := 4 }

def detourBench : Workbench Unit :=
  treeBench detourTree [⟨"/gone/../lib".toList⟩, ⟨"/lib2".toList⟩] none (some ⟨"/".toList⟩)

def detourUnit : NamedUnit := ⟨"gone.x", .memory "require 'd'", by decide⟩

theorem find_detour : detourBench.cache.registry.capture.find detourTree "d" =
    .ok (some ⟨"d", "/lib2/d.lua", ""⟩) := by
  have hmissing (f : String) (hf : f ∈ Classpath.candidates "d") :
      detourTree.isFile ((Path.mk "/gone/../lib".toList).join (.ofString f)) = false := by
    rcases List.mem_cons.mp hf with rfl | hf
    · cbv
    · obtain rfl := List.mem_singleton.mp hf
      cbv
  have hpresent : Classpath.inEntry detourTree "d" "d.lua" (.directory ⟨"/lib2".toList⟩) =
      .ok (some ⟨"d", "/lib2/d.lua", ""⟩) := by
    cbv
  have hentries : detourBench.cache.registry.capture.classpath.entries =
      [.directory ⟨"/gone/../lib".toList⟩] ++ .directory ⟨"/lib2".toList⟩ :: [] := rfl
  refine Classpath.find_first rfl (by decide) hentries (fun x hx f hf => ?_) hpresent
  obtain rfl := List.mem_singleton.mp hx
  exact Classpath.inEntry_missing "d" (hmissing f hf)

theorem find_detourMade (a b : Bytes) :
    detourBench.cache.registry.capture.find (detourMade a b) "d" =
      .ok (some ⟨"d", "/gone/../lib/d.lua", "return"⟩) := by
  have hpresent : Classpath.inEntry (detourMade a b) "d" "d.lua" (.directory ⟨"/gone/../lib".toList⟩) =
      .ok (some ⟨"d", "/gone/../lib/d.lua", "return"⟩) := by
    cbv
  have hentries : detourBench.cache.registry.capture.classpath.entries =
      [] ++ .directory ⟨"/gone/../lib".toList⟩ :: [.directory ⟨"/lib2".toList⟩] := rfl
  exact Classpath.find_first rfl (by decide) hentries (by simp) hpresent

/-- Keeping the two artifacts makes the directory that was missing. -/
theorem run_keepAll_detour {w₁ : Workbench Unit} (hd : w₁.host.disk = detourTree)
    (hroot : w₁.cache.artifactRoot = some ⟨"/".toList⟩) (a b : Bytes) :
    ∃ w₂, (keepAll persist [("d", a), ("gone.x", b)]).run w₁ = (.ok (), w₂) ∧
      w₂.host.disk = detourMade a b := by
  have hpersistent : w₁.cache.persistenceRoot? w₁.host.disk = some ⟨"/".toList⟩ := by
    rw [persistenceRoot?, hroot, hd]
    cbv
  obtain ⟨w', hrun, hd'⟩ := run_persist_changed ⟨"/".toList⟩ "d" a { detourTree with
      entries := (["d.luac".toList], .file 2 a) :: detourTree.entries, nextId := 3 }
    hd (fun log => by cbv)
  obtain ⟨w₂, hrun', hd₂⟩ := run_persist_changed ⟨"/".toList⟩ "gone.x" b (detourMade a b) hd' (fun log => by cbv)
  refine ⟨w₂, ?_, hd₂⟩
  rw [keepAll, run_bind_ok (Task.run_get w₁), hpersistent]
  simp only
  rw [List.forM, run_bind_ok hrun, List.forM, run_bind_ok hrun']
  rfl

def detourBytes : Option Bytes :=
  (Lua.Compile.chunk "/gone/../lib/d.lua" "return").toOption.map (·.encode)

/-- The first load takes the module from the second directory. -/
theorem load_detour : ∃ w' w₁ r a b,
    (compileSource Lua.compiler "gone.x" "require 'd'").run detourBench = (.ok r, w₁) ∧
      (load Lua.compiler accepting "gone.x" "require 'd'").run detourBench = (.ok (), w') ∧
      w'.host = ((install Lua.compiler accepting "gone.x" "require 'd'").run detourBench).2.host ∧
      r.artifacts.get? "d" = some a ∧ some a ≠ detourBytes ∧ w'.host.disk = detourMade a b := by
  let find := finding ⟨"d", "/lib2/d.lua", ""⟩
  let c := detourBench.cache.registry.capture
  have hasked : Lua.asked find c detourTree detourUnit "require 'd'" = ["d"] := by decide +kernel
  have hnames : (Lua.answered find c detourTree detourUnit "require 'd'").2.outputs.entries.map Prod.fst =
      ["d", "gone.x"] := by
    decide +kernel
  have hother : (Lua.answered find c detourTree detourUnit "require 'd'").2.outputs.get? "d" ≠
      detourBytes := by
    decide +kernel
  have hfind (n : String) (hn : n ∈ Lua.asked find c detourTree detourUnit "require 'd'") :
      c.find detourTree n = find n := by
    rw [hasked, List.mem_singleton] at hn
    rw [hn, find_detour]
    rfl
  have hstage : (detourBench.cache.stage "gone.x" "require 'd'").run detourBench.host =
      (.ok detourUnit, detourBench.host) := rfl
  rcases hout : Lua.answered find c detourTree detourUnit "require 'd'" with ⟨ds, captured⟩
  rw [hout] at hnames hother
  obtain ⟨w₁, hc, hd₁, hroot₁⟩ :=
    compileSource_of_answers detourBench "gone.x" "require 'd'" hstage rfl hfind hout
  obtain ⟨a, b, hentries, ha, hb⟩ := entries_of_names hnames
  obtain ⟨w₂, hp, hd₂⟩ := run_keepAll_detour hd₁ hroot₁ a b
  rw [← hentries] at hp
  obtain ⟨hload, hinstall⟩ := load_accepting hc hb hp
  exact ⟨w₂.cleared, w₁, _, a, b, hc, hload, hinstall.symm, ha, ha ▸ hother, hd₂⟩

/-- A compile after it takes the module from the first directory, if it compiles at all. -/
theorem artifacts_detourMade {v v₁ : Workbench Unit} {a b : Bytes}
    (hcache : v.cache = detourBench.cache) (hd : v.host.disk = detourMade a b)
    (hc : (compileSource Lua.compiler "gone.x" "require 'd'").run v = (.ok r, v₁)) :
    r.artifacts.get? "d" = none ∨ r.artifacts.get? "d" = detourBytes := by
  have hkept : v₁.host.disk = detourMade a b := by
    obtain ⟨unit, h, hs, -, rfl, -⟩ := stage_of_compileSource hc
    have hh := host_of_stage (c := v.cache) (by rw [hcache]; rfl) "gone.x" "require 'd'" v.host
    rw [hs] at hh
    exact (congrArg Host.disk hh).trans hd
  cases hr : r.artifacts.get? "d" with
  | none => exact .inl rfl
  | some bytes =>
    rcases artifacts_complete (by rw [hcache]; rfl) hc with hnone | ⟨unit, source, hu, -, -, hx⟩
    · rw [hnone] at hr
      cases hr
    · have hcompiled := hx.compiled "d" bytes hr
      have hget : (Lua.sources v.cache.registry.capture v₁.host.disk unit source).get? "d" =
          some ⟨"d", "/gone/../lib/d.lua", "return"⟩ := by
        have hne : "d" ≠ unit.name := by
          rw [hu]
          decide
        rw [Lua.Sources.get?, Lua.sources, if_neg hne, hcache, hkept]
        simp only [find_detourMade]
      rw [Lua.Sources.compiled?, hget] at hcompiled
      simp only at hcompiled
      refine .inr ?_
      unfold detourBytes
      split at hcompiled
      · rename_i chunk hchunk
        rw [hchunk]
        exact (congrArg (Option.map Prod.snd) hcompiled).symm
      · cases hcompiled

/-- A load may make a directory by way of which the classpath leads to another module. Repeated, it
compiles to other artifacts. -/
theorem load_repeats_differently :
    ∃ w' w₁ v₁ r r', detourTree.Sound ∧ detourBench.cache.registry.capture.outputs = .empty ∧
      (load Lua.compiler accepting "gone.x" "require 'd'").run detourBench = (.ok (), w') ∧
      w'.host = ((install Lua.compiler accepting "gone.x" "require 'd'").run detourBench).2.host ∧
      (compileSource Lua.compiler "gone.x" "require 'd'").run detourBench = (.ok r, w₁) ∧
      (compileSource Lua.compiler "gone.x" "require 'd'").run w' = (.ok r', v₁) ∧
      r.artifacts.get? "d" ≠ r'.artifacts.get? "d" := by
  obtain ⟨w', w₁, r, a, b, hc, hload, hinstall, ha, hother, hd⟩ := load_detour
  have hcache : w'.cache = detourBench.cache := by
    have hkept : ((load Lua.compiler accepting "gone.x" "require 'd'").run detourBench).2.cache =
        detourBench.cache := cache_load Lua.compiler_neverCloses accepting detourBench
    rw [hload] at hkept
    exact hkept
  have hstage : (w'.cache.stage "gone.x" "require 'd'").run w'.host = (.ok detourUnit, w'.host) := by
    rw [hcache]
    rfl
  have hc' := run_compileSource_staged (t := Lua.compiler) hstage
  refine ⟨w', w₁, _, r, _, by decide +kernel, rfl, hload, hinstall, hc, hc', fun heq => ?_⟩
  rw [ha] at heq
  rcases artifacts_detourMade hcache hd hc' with hr | hr
  · rw [hr] at heq
    cases heq
  · exact hother (heq.trans hr)

end Cache
end UnitCache
