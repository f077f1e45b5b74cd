import Mathlib.Data.List.Lattice
import UnitCache.Proofs.CacheFootprints

namespace UnitCache

open Disk (Grows Alike Within Parallel placeOf names)
open UnitCache.Task (Local Mirrors)

variable {κ κ' η η' γ γ' : Type}

/-- Looking up a unit, and running it, has nothing to do with files, as far as one can see. -/
structure ContextKind.OffDisk (k : ContextKind κ η) (see : κ → γ) (name : String) (c : κ) : Prop where
  disk : ∀ d, (k.resolve name (d, c)).2.1 = d
  result : ∀ d d', (k.resolve name (d', c)).1 = (k.resolve name (d, c)).1
  context : ∀ d d', see (k.resolve name (d', c)).2.2 = see (k.resolve name (d, c)).2.2

namespace Cache

variable {k : ContextKind κ η} {k' : ContextKind κ' η'} {see : κ → γ} {a b name text text' : String}
  {context : κ} {context' : κ'} {w w' : Workbench κ} {s : Station}

/-- A load runs the unit if all that comes before goes well. -/
theorem run_load (k : ContextKind κ η) (name text : String) (w : Workbench κ) :
    (load Lua.compiler k name text).run w =
      match (install Lua.compiler k name text).run w with
      | (.error e, w) => (.error e, w.cleared)
      | (.ok (), w) => (resolve k name).run w.cleared :=
  run_loadWith persist Lua.compiler k name text w

/-- Running the unit changes nothing about the tree. -/
theorem disk_load
    (hk : k.OffDisk see name ((install Lua.compiler k name text).run w).2.context) :
    ((load Lua.compiler k name text).run w).2.host.disk =
      ((install Lua.compiler k name text).run w).2.host.disk := by
  rw [run_load]
  rcases hi : (install Lua.compiler k name text).run w with ⟨e | _, w₁⟩
  · rfl
  · rw [hi] at hk
    exact hk.disk w₁.host.disk

/-- Loads that do the same up to the running of the unit end in the same way. -/
theorem load_congr (hk : k.OffDisk see name ((install Lua.compiler k name text).run w).2.context)
    (hresult : ((install Lua.compiler k name text).run w').1 =
      ((install Lua.compiler k name text).run w).1)
    (hcontext : ((install Lua.compiler k name text).run w').2.context =
      ((install Lua.compiler k name text).run w).2.context) :
    ((load Lua.compiler k name text).run w').1 = ((load Lua.compiler k name text).run w).1 ∧
      see ((load Lua.compiler k name text).run w').2.context =
        see ((load Lua.compiler k name text).run w).2.context := by
  rw [run_load, run_load]
  rcases hi : (install Lua.compiler k name text).run w with ⟨e | _, w₁⟩ <;>
    rcases hi' : (install Lua.compiler k name text).run w' with ⟨e' | _, w₁'⟩ <;>
    rw [hi, hi'] at hresult hcontext
  · cases hresult
    exact ⟨rfl, congrArg see hcontext⟩
  · cases hresult
  · cases hresult
  · rw [hi] at hk
    have hcontext : w₁'.context = w₁.context := hcontext
    have hresolve (w : Workbench κ) : (resolve k name).run w =
        ((k.resolve name (w.host.disk, w.context)).1, { w with
          host := { w.host with disk := (k.resolve name (w.host.disk, w.context)).2.1 }
          context := (k.resolve name (w.host.disk, w.context)).2.2 }) := rfl
    have hcleared (w : Workbench κ) : w.cleared.context = w.context := rfl
    simp only [hresolve, hcleared, hcontext]
    exact ⟨hk.result _ _, hk.context _ _⟩

namespace Station.InOrder

variable (h : s.InOrder) (hstraight : s.Straight)

include h hstraight

/-- A load up to the running of the unit does the same on any later tree that is alike. -/
theorem local_install (k : ContextKind κ η) (name text : String) (context : κ) :
    Local (s.Own name text) s.OnWay s.Later s.Staged (install Lua.compiler k name text)
      (s.bench context) := by
  have hstage : Local (s.Own name text) s.OnWay s.Later s.Later
      (Task.act (s.cache.stage name text)) (s.bench context) :=
    local_stage (fun d hd => hd.sound) fun root hroot hv => h.local_text hstraight hroot hv _
  refine Cache.local_install k (hstage.strengthen fun v unit v' hv hr hv' => ⟨hv', fun place hto => ?_⟩)
    (fun d hd => hd.sound) (fun d hd => hd.1.sound) (fun d d' hd hd' => ?_) (fun d hd => ?_)
    fun root hroot r w₁ hc a ha => ?_
  · rw [Task.run_act] at hr
    obtain ⟨hu, hvh⟩ := Prod.mk.inj hr
    have hstaged : (s.cache.stage name text).run v.host = (.ok unit, v'.host) :=
      Prod.ext hu (congrArg Workbench.host hvh)
    have hvalid := (stage_ok hstaged).1 ▸ unit.valid
    exact directory_of_staged hv'.sound (stage_grows hv.sound hstaged).2 hvalid (hv'.cwd ▸ hto)
  · exact (h.find hstraight hd'.1).trans (h.find hstraight hd.1).symm
  · change s.cache.persistenceRoot? d = s.cache.artifactRoot
    cases hroot : s.cache.artifactRoot with
    | none => rw [persistenceRoot?, hroot, Option.filter_none]
    | some root =>
      have hdir := (hd.1.keeps h.sound).isDirectory (h.artifacts root hroot)
      rw [persistenceRoot?, hroot, Option.filter_some, hdir]
      rfl
  · have hn : a.1 ∈ s.emitted name text := by
      rw [mem_emitted h.outputs hc, CompileResult.contains, NameMap.contains, NameMap.mem_entries.mp ha]
      rfl
    exact h.local_artifact hroot hn (valid_artifact h.outputs hc ha) a.2

/-- After a load of another unit a load does up to the running of the unit what it would have done
before. -/
theorem mirrors_after (hne : a ≠ b) (hd : (s.emitted a text).Disjoint (s.emitted b text'))
    (hk : k.OffDisk see a ((install Lua.compiler k a text).run (s.bench context)).2.context)
    (k' : ContextKind κ' η') (context' : κ') :
    let s' := settle (load Lua.compiler k a text) s context
    s'.cache = s.cache ∧
      s'.host.disk = ((install Lua.compiler k a text).run (s.bench context)).2.host.disk ∧
      s.Later s'.host.disk ∧ Mirrors (s.Own b text') s.OnWay s.Staged (s.bench context')
        ((install Lua.compiler k' b text').run (s.bench context')) (s'.bench context')
        ((install Lua.compiler k' b text').run (s'.bench context')) := by
  intro s'
  have hcache : s'.cache = s.cache :=
    (cache_load Lua.compiler_neverCloses k (s.bench context)).trans (cleared_of_empty h.outputs)
  have hdisk : s'.host.disk = ((install Lua.compiler k a text).run (s.bench context)).2.host.disk :=
    disk_load hk
  have hstart : s.Later s.host.disk := .refl h.sound
  have hfirst := h.local_install hstraight k a text context hstart (s.bench context) (.refl ..) hstart
  -- The other load keeps off the places of this one, and off the way to them.
  have halike : Alike (s.Own b text') s.OnWay s.host.disk s'.host.disk := by
    rw [hdisk]
    refine hfirst.disk.left.alike (fun place ho => ⟨?_, ho.not_onWay⟩) fun place hw ho => ho.not_onWay hw
    exact ho.apart hne.symm (List.Disjoint.symm hd)
  have hlater : s.Later s'.host.disk := hdisk ▸ hstart.grows hfirst.grows
  refine ⟨hcache, hdisk, hlater, ?_⟩
  exact h.local_install hstraight k' b text' context' hstart (s'.bench context') ⟨hcache, rfl, halike⟩ hlater

end Station.InOrder

/-- Loads of different units that put out different artifacts can be made in either order, each into
its own context, if running the units has nothing to do with files. Each has the same result, and
injects the same into its context, and the same is seen of the file tree in the end. -/
theorem loads_commute (h : s.InOrder) (hstraight : s.Straight) (hne : a ≠ b)
    (hd : (s.emitted a text).Disjoint (s.emitted b text')) {see' : κ' → γ'}
    (hk : k.OffDisk see a ((install Lua.compiler k a text).run (s.bench context)).2.context)
    (hk' : k'.OffDisk see' b ((install Lua.compiler k' b text').run (s.bench context')).2.context) :
    let load₁ := load Lua.compiler k a text
    let load₂ := load Lua.compiler k' b text'
    let s₁ := settle load₁ s context
    let s₂ := settle load₂ s context'
    let s₁₂ := settle load₂ s₁ context'
    let s₂₁ := settle load₁ s₂ context
    ((load₁.run (s₂.bench context)).1 = (load₁.run (s.bench context)).1 ∧
      ((install Lua.compiler k a text).run (s₂.bench context)).2.context =
        ((install Lua.compiler k a text).run (s.bench context)).2.context ∧
      see (load₁.run (s₂.bench context)).2.context = see (load₁.run (s.bench context)).2.context) ∧
    ((load₂.run (s₁.bench context')).1 = (load₂.run (s.bench context')).1 ∧
      ((install Lua.compiler k' b text').run (s₁.bench context')).2.context =
        ((install Lua.compiler k' b text').run (s.bench context')).2.context ∧
      see' (load₂.run (s₁.bench context')).2.context =
        see' (load₂.run (s.bench context')).2.context) ∧
    s₁₂.cache = s₂₁.cache ∧ s₁₂.host.disk.cwd = s₂₁.host.disk.cwd ∧
    ∀ place, s₁₂.host.disk.sight place = s₂₁.host.disk.sight place := by
  intro load₁ load₂ s₁ s₂ s₁₂ s₂₁
  obtain ⟨hcache₁, hdisk₁, hlater₁, hm₂⟩ := h.mirrors_after hstraight hne hd hk k' context'
  obtain ⟨hcache₂, hdisk₂, hlater₂, hm₁⟩ :=
    h.mirrors_after hstraight hne.symm (List.Disjoint.symm hd) hk' k context
  obtain ⟨hresult₁, hsee₁⟩ := load_congr hk hm₁.result hm₁.context
  obtain ⟨hresult₂, hsee₂⟩ := load_congr hk' hm₂.result hm₂.context
  -- Afterwards both trees are those that the loads leave before the units are run.
  have hdisk₁₂ : s₁₂.host.disk =
      ((install Lua.compiler k' b text').run (s₁.bench context')).2.host.disk :=
    disk_load (hm₂.context ▸ hk')
  have hdisk₂₁ : s₂₁.host.disk =
      ((install Lua.compiler k a text).run (s₂.bench context)).2.host.disk :=
    disk_load (hm₁.context ▸ hk)
  have hcache (s' : Station) (hs' : s'.cache = s.cache) : s'.outputs = .empty := by
    rw [Station.outputs, hs']
    exact h.outputs
  refine ⟨⟨hresult₁, hm₁.context, hsee₁⟩, ⟨hresult₂, hm₂.context, hsee₂⟩, ?_, ?_, fun place => ?_⟩
  · have hkept₁ : s₁₂.cache = s₁.cache := (cache_load Lua.compiler_neverCloses k' _).trans
      (cleared_of_empty (hcache s₁ hcache₁))
    have hkept₂ : s₂₁.cache = s₂.cache := (cache_load Lua.compiler_neverCloses k _).trans
      (cleared_of_empty (hcache s₂ hcache₂))
    rw [hkept₁, hkept₂, hcache₁, hcache₂]
  · rw [hdisk₁₂, hdisk₂₁, hm₂.grows.cwd, hm₁.grows.cwd]
    exact hlater₁.cwd.trans hlater₂.cwd.symm
  · have hparallel₁ := hm₁.disk
    have hparallel₂ := hm₂.disk
    rw [hdisk₁₂, hdisk₂₁]
    change Parallel _ _ _ _ s₂.host.disk _ at hparallel₁
    change Parallel _ _ _ _ s₁.host.disk _ at hparallel₂
    rw [hdisk₂] at hparallel₁
    rw [hdisk₁] at hparallel₂
    refine hparallel₁.diamond hparallel₂ (fun place ho => ⟨?_, ho.not_onWay⟩)
      (fun place ho => ⟨?_, ho.not_onWay⟩) place
    · exact ho.apart hne hd
    · exact ho.apart hne.symm (List.Disjoint.symm hd)

theorem offDisk_listing (name : String) (c : List (String × Bytes)) : listing.OffDisk id name c := by
  have hrun (d : Disk) : listing.resolve name (d, c) =
      ((listing.resolve name ({}, c)).1, d, (listing.resolve name ({}, c)).2.2) := by
    simp only [listing]
    split <;> rfl
  exact ⟨fun d => by rw [hrun], fun d d' => by rw [hrun d, hrun d'], fun d d' => by rw [hrun d, hrun d']⟩

def treeStation (d : Disk) (dirs : List Path) (source artifact : Option Path) : Station :=
  let w := treeBench d dirs source artifact
  ⟨w.host, w.cache⟩

/-- What a compile puts out where the modules that are looked up are known. -/
theorem mem_emitted_of_answers {unit : NamedUnit} {h : Host} {names : List String}
    {find : String → Except Error (Option ModuleSource)} (ho : s.outputs = .empty)
    (hs : (s.cache.stage name text).run s.host = (.ok unit, h)) (ht : unit.readText h.disk = .ok text)
    (hf : ∀ n ∈ Lua.asked find s.cache.registry.capture h.disk unit text,
      s.cache.registry.capture.find h.disk n = find n)
    (ha : (Lua.answered find s.cache.registry.capture h.disk unit text).2.outputs.names = names)
    {n : String} (hn : n ∈ s.emitted name text) : n ∈ names := by
  obtain ⟨w, hc, -⟩ := compileSource_of_answers (s.bench ()) name text hs ht hf rfl
  have hcontains := (Station.mem_emitted ho hc n).mp hn
  obtain ⟨bytes, hb⟩ := Option.isSome_iff_exists.mp hcontains
  exact ha ▸ List.mem_map.mpr ⟨(n, bytes), NameMap.mem_entries.mpr hb, rfl⟩

/-- A source root that is missing, an artifact root beside it, and modules in another directory. -/
def orderStation : Station :=
  treeStation detourTree [⟨"/lib".toList⟩] (some ⟨"/src".toList⟩) (some ⟨"/lib2".toList⟩)

theorem inOrder_orderStation : orderStation.InOrder ∧ orderStation.Straight := by
  refine ⟨⟨by decide +kernel, rfl, fun p file members hm => ?_, fun root hr => ?_,
    fun p hp root hr => ?_⟩, ⟨fun root hr hup => ?_, fun p hp hup => ?_⟩⟩
  · cases List.mem_singleton.mp hm
  · obtain rfl := Option.some.inj hr
    cbv
  · obtain rfl := ClasspathEntry.directory.inj (List.mem_singleton.mp hp)
    rcases hr with hr | hr <;> obtain rfl := Option.some.inj hr <;> decide
  · obtain rfl := Option.some.inj hr
    exact absurd hup (by decide)
  · obtain rfl := ClasspathEntry.directory.inj (List.mem_singleton.mp hp)
    exact absurd hup (by decide)

def orderStaged (file : String) (text : String) : Disk :=
  { detourTree with
    entries := (["src".toList, file.toList], .file 2 (Utf8.encode text)) :: (["src".toList], .directory) ::
      detourTree.entries
    nextId := 3 }

theorem emitted_orderStation : (orderStation.emitted "a" "require 'd'").Disjoint
    (orderStation.emitted "b" "return 1") := by
  let c := orderStation.cache.registry.capture
  let unit : NamedUnit := ⟨"a", .file ⟨"/src/a.lua".toList⟩, by decide⟩
  let unit' : NamedUnit := ⟨"b", .file ⟨"/src/b.lua".toList⟩, by decide⟩
  let m : ModuleSource := ⟨"d", "/lib/d.lua", "return"⟩
  let d := orderStaged "a.lua" "require 'd'"
  let d' := orderStaged "b.lua" "return 1"
  have hstage : (orderStation.cache.stage "a" "require 'd'").run orderStation.host = (.ok unit, ⟨d, []⟩) := by
    cbv
  have hstage' : (orderStation.cache.stage "b" "return 1").run orderStation.host = (.ok unit', ⟨d', []⟩) := by
    cbv
  have hread : unit.readText d = .ok "require 'd'" := by cbv
  have hread' : unit'.readText d' = .ok "return 1" := by cbv
  have hpresent : Classpath.inEntry d "d" "d.lua" (.directory ⟨"/lib".toList⟩) = .ok (some m) := by
    cbv
  have hentries : c.classpath.entries = [] ++ .directory ⟨"/lib".toList⟩ :: [] := rfl
  have hasked : Lua.asked (finding m) c d unit "require 'd'" = ["d"] := by decide +kernel
  have hasked' : Lua.asked (finding m) c d' unit' "return 1" = [] := by decide +kernel
  have hnames : (Lua.answered (finding m) c d unit "require 'd'").2.outputs.names =
      ["a", "d"] := by
    decide +kernel
  have hnames' : (Lua.answered (finding m) c d' unit' "return 1").2.outputs.names =
      ["b"] := by
    decide +kernel
  have hfind (n : String) (hn : n ∈ Lua.asked (finding m) c d unit "require 'd'") :
      c.find d n = finding m n := by
    rw [hasked, List.mem_singleton] at hn
    rw [hn]
    exact Classpath.find_first rfl (by decide) hentries (by simp) hpresent
  have hfind' (n : String) (hn : n ∈ Lua.asked (finding m) c d' unit' "return 1") :
      c.find d' n = finding m n := by
    rw [hasked'] at hn
    cases hn
  intro n hn hn'
  have hn := mem_emitted_of_answers rfl hstage hread hfind hnames hn
  have hn' := mem_emitted_of_answers rfl hstage' hread' hfind' hnames' hn'
  obtain rfl := List.mem_singleton.mp hn'
  exact absurd hn (by decide)

/-- A unit with a module and another unit are loaded in either order. -/
theorem loads_commute_beside :
    let load₁ : Task (List (String × Bytes)) Bytes := load Lua.compiler listing "a" "require 'd'"
    let load₂ : Task (List (String × Bytes)) Bytes := load Lua.compiler listing "b" "return 1"
    let s := orderStation
    let s₁ := settle load₁ s []
    let s₂ := settle load₂ s []
    (load₁.run (s₂.bench [])).1 = (load₁.run (s.bench [])).1 ∧
      (load₂.run (s₁.bench [])).1 = (load₂.run (s.bench [])).1 ∧
      ∀ place, (settle load₂ s₁ []).host.disk.sight place = (settle load₁ s₂ []).host.disk.sight place := by
  intro load₁ load₂ s s₁ s₂
  obtain ⟨horder, hstraight⟩ := inOrder_orderStation
  obtain ⟨⟨hresult₁, -⟩, ⟨hresult₂, -⟩, -, -, hsame⟩ := loads_commute horder hstraight (by decide)
    emitted_orderStation (offDisk_listing "a" _) (offDisk_listing "b" _)
  exact ⟨hresult₁, hresult₂, hsame⟩

theorem offDisk_accepting (name : String) : accepting.OffDisk id name () :=
  ⟨fun _ => rfl, fun _ _ => rfl, fun _ _ => rfl⟩

/-- A load fails whose compile puts out nothing. -/
theorem load_of_emitted_nil (k : ContextKind κ η) (context : κ) (ho : s.outputs = .empty)
    (he : s.emitted name text = []) :
    ∃ e, ((load Lua.compiler k name text).run (s.bench context)).1 = .error e := by
  cases hc : compiling Lua.compiler name text s with
  | error e => exact ⟨e, (load_error hc).1⟩
  | ok found =>
    obtain ⟨ds, new⟩ := found
    have hnew : new = [] := by
      simp only [Station.emitted, Operation.leaves, hc, List.map_eq_nil_iff] at he
      exact he
    exact ⟨_, load_missing hc (by rw [ho, hnew]; rfl)⟩

/-- A load goes well whose compile puts out the unit, where nothing is persisted and every unit is
taken. -/
theorem load_accepting_unkept {w : Workbench Unit} {unit : NamedUnit} {h : Host}
    {find : String → Except Error (Option ModuleSource)} (hroot : w.cache.artifactRoot = none)
    (hs : (w.cache.stage name text).run w.host = (.ok unit, h)) (ht : unit.readText h.disk = .ok text)
    (hf : ∀ n ∈ Lua.asked find w.cache.registry.capture h.disk unit text,
      w.cache.registry.capture.find h.disk n = find n)
    (hn : name ∈ (Lua.answered find w.cache.registry.capture h.disk unit text).2.outputs.names) :
    ∃ w', (load Lua.compiler accepting name text).run w = (.ok (), w') ∧ w'.host.disk = h.disk := by
  obtain ⟨w₁, hc, hd, hr⟩ := compileSource_of_answers w name text hs ht hf rfl
  obtain ⟨⟨n, bytes⟩, hm, rfl⟩ := List.mem_map.mp hn
  have hnone : w₁.cache.persistenceRoot? w₁.host.disk = none := by
    rw [persistenceRoot?, hr, hroot, Option.filter_none]
  obtain ⟨hload, -⟩ := load_accepting hc (NameMap.mem_entries.mp hm) (run_keepAll_skip hnone persist _)
  exact ⟨_, hload, hd⟩

/-- The source root is missing, and the way to the modules leads through a directory below it. -/
def hiddenStation : Station :=
  treeStation detourTree [⟨"/src/p/../../lib".toList⟩] (some ⟨"/src".toList⟩) none

theorem inOrder_hiddenStation : hiddenStation.InOrder := by
  refine ⟨by decide +kernel, rfl, fun p file members hm => ?_, fun root hr => ?_, fun p hp root hr => ?_⟩
  · cases List.mem_singleton.mp hm
  · cases hr
  · obtain rfl := ClasspathEntry.directory.inj (List.mem_singleton.mp hp)
    rcases hr with hr | hr
    · obtain rfl := Option.some.inj hr
      decide
    · cases hr

def hiddenMade : Disk :=
  { detourTree with
    entries := (["src".toList, "p".toList, "q.lua".toList], .file 2 (Utf8.encode "return 1")) ::
      (["src".toList, "p".toList], .directory) :: (["src".toList], .directory) :: detourTree.entries
    nextId := 3 }

def hiddenStaged : Disk :=
  { hiddenMade with
    entries := (["src".toList, "b.lua".toList], .file 3 (Utf8.encode "require 'd'")) :: hiddenMade.entries
    nextId := 4 }

/-- On its own a unit does not find its module. -/
theorem hidden_missing : hiddenStation.emitted "b" "require 'd'" = [] := by
  let c := hiddenStation.cache.registry.capture
  let unit : NamedUnit := ⟨"b", .file ⟨"/src/b.lua".toList⟩, by decide⟩
  let d := orderStaged "b.lua" "require 'd'"
  have hstage : (hiddenStation.cache.stage "b" "require 'd'").run hiddenStation.host =
      (.ok unit, ⟨d, []⟩) := by
    cbv
  have hread : unit.readText d = .ok "require 'd'" := by cbv
  have hmissing : c.find d "d" = .ok none := by
    refine Classpath.find_none rfl (by decide) fun x hx f hf => ?_
    obtain rfl := List.mem_singleton.mp hx
    refine Classpath.inEntry_missing "d" ?_
    rcases List.mem_cons.mp hf with rfl | hf
    · cbv
    · obtain rfl := List.mem_singleton.mp hf
      cbv
  have hasked : Lua.asked (fun _ => .ok none) c d unit "require 'd'" = ["d"] := by decide +kernel
  have hnames : (Lua.answered (fun _ => .ok none) c d unit "require 'd'").2.outputs.names = [] := by
    decide +kernel
  have hfind (n : String) (hn : n ∈ Lua.asked (fun _ => .ok none) c d unit "require 'd'") :
      c.find d n = .ok none := by
    rw [hasked, List.mem_singleton] at hn
    exact hn ▸ hmissing
  exact List.eq_nil_iff_forall_not_mem.mpr fun n hn =>
    absurd (mem_emitted_of_answers rfl hstage hread hfind hnames hn) List.not_mem_nil

/-- After the load of another unit it finds it. -/
theorem hidden_found :
    let s₁ := settle (load Lua.compiler accepting "p.q" "return 1") hiddenStation ()
    ((load Lua.compiler accepting "b" "require 'd'").run (s₁.bench ())).1 = .ok () := by
  intro s₁
  let c := hiddenStation.cache.registry.capture
  let first : NamedUnit := ⟨"p.q", .file ⟨"/src/p/q.lua".toList⟩, by decide⟩
  let unit : NamedUnit := ⟨"b", .file ⟨"/src/b.lua".toList⟩, by decide⟩
  let m : ModuleSource := ⟨"d", "/src/p/../../lib/d.lua", "return"⟩
  have hcache : s₁.cache = hiddenStation.cache :=
    cache_load Lua.compiler_neverCloses accepting (hiddenStation.bench ())
  have hdisk : s₁.host.disk = hiddenMade := by
    have hstage : (hiddenStation.cache.stage "p.q" "return 1").run hiddenStation.host =
        (.ok first, ⟨hiddenMade, []⟩) := by
      cbv
    have hread : first.readText hiddenMade = .ok "return 1" := by cbv
    have hasked : Lua.asked (finding m) c hiddenMade first "return 1" = [] := by decide +kernel
    have hnames : "p.q" ∈ (Lua.answered (finding m) c hiddenMade first "return 1").2.outputs.names := by
      decide +kernel
    have hfind (n : String) (hn : n ∈ Lua.asked (finding m) c hiddenMade first "return 1") :
        c.find hiddenMade n = finding m n := by
      rw [hasked] at hn
      cases hn
    obtain ⟨w', hload, hd⟩ :=
      load_accepting_unkept (w := hiddenStation.bench ()) rfl hstage hread hfind hnames
    change ((load Lua.compiler accepting "p.q" "return 1").run (hiddenStation.bench ())).2.host.disk = _
    rw [hload]
    exact hd
  have hhost : s₁.host = ⟨hiddenMade, s₁.host.log⟩ := by rw [← hdisk]
  have hstage (log : List LogRecord) : (hiddenStation.cache.stage "b" "require 'd'").run
      ⟨hiddenMade, log⟩ = (.ok unit, ⟨hiddenStaged, log⟩) := by
    cbv
  have hstage' : (s₁.cache.stage "b" "require 'd'").run s₁.host = (.ok unit, ⟨hiddenStaged, s₁.host.log⟩) := by
    rw [hcache, hhost]
    exact hstage _
  have hread : unit.readText hiddenStaged = .ok "require 'd'" := by cbv
  have hpresent : Classpath.inEntry hiddenStaged "d" "d.lua"
      (.directory ⟨"/src/p/../../lib".toList⟩) = .ok (some m) := by
    cbv
  have hentries : c.classpath.entries = [] ++ .directory ⟨"/src/p/../../lib".toList⟩ :: [] := rfl
  have hasked : Lua.asked (finding m) c hiddenStaged unit "require 'd'" = ["d"] := by decide +kernel
  have hnames : "b" ∈ (Lua.answered (finding m) c hiddenStaged unit "require 'd'").2.outputs.names := by
    decide +kernel
  have hfind (n : String) (hn : n ∈ Lua.asked (finding m) c hiddenStaged unit "require 'd'") :
      c.find hiddenStaged n = finding m n := by
    rw [hasked, List.mem_singleton] at hn
    rw [hn]
    exact Classpath.find_first rfl (by decide) hentries (by simp) hpresent
  have hcapture : (s₁.bench ()).cache.registry.capture = c := by
    change s₁.cache.registry.capture = c
    rw [hcache]
  have hroot : (s₁.bench ()).cache.artifactRoot = none := by
    change s₁.cache.artifactRoot = none
    rw [hcache]
    rfl
  obtain ⟨w', hload, -⟩ := load_accepting_unkept (w := s₁.bench ()) hroot hstage' hread
    (hcapture ▸ hfind) (hcapture ▸ hnames)
  rw [hload]

def blockedStation : Station :=
  treeStation { entries := [(["f".toList], .file 0 [])], nextId := 1 } [] (some ⟨"/gone/../f".toList⟩) none

theorem inOrder_blockedStation : blockedStation.InOrder :=
  ⟨by decide +kernel, rfl, fun _ _ _ hm => (nomatch hm), fun _ hr => (nomatch hr), fun _ hp => (nomatch hp)⟩

theorem compiling_refused {h : Host} {e : Error}
    (hs : (s.cache.stage name text).run s.host = (.error e, h)) :
    compiling Lua.compiler name text s = .error e := by
  rw [compiling, hs]

def blockedMade : Disk where
  entries := [(["gone".toList], .directory), (["f".toList], .file 0 [])]
  nextId := 1

/-- On its own a text is not staged because the root exists and is no directory. -/
theorem compiling_blocked : compiling Lua.compiler "r.s" "return 1" blockedStation =
    .error (.configuration "unable to create directory /gone/../f/r: File exists (os error 17)") := by
  have hstage : (blockedStation.cache.stage "r.s" "return 1").run blockedStation.host = (.error
      (.configuration "unable to create directory /gone/../f/r: File exists (os error 17)"),
      ⟨blockedMade, []⟩) := by
    cbv
  exact compiling_refused hstage

/-- After the load of another unit the way to the root is there, and the root is in the way. -/
theorem compiling_blocked_later :
    let s₁ := settle (load Lua.compiler accepting "p.q" "return 1") blockedStation ()
    compiling Lua.compiler "r.s" "return 1" s₁ =
      .error (.configuration "unable to create directory /gone/../f/r: Not a directory (os error 20)") := by
  intro s₁
  have hcache : s₁.cache = blockedStation.cache :=
    cache_load Lua.compiler_neverCloses accepting (blockedStation.bench ())
  have hfirst : ((blockedStation.bench ()).cache.stage "p.q" "return 1").run (blockedStation.bench ()).host =
      (.error (.configuration "unable to create directory /gone/../f/p: File exists (os error 17)"),
        ⟨blockedMade, []⟩) := by
    cbv
  have hhost : s₁.host = ⟨blockedMade, []⟩ := by
    change ((load Lua.compiler accepting "p.q" "return 1").run (blockedStation.bench ())).2.host = _
    rw [run_load, install, run_bind_error (run_compileSource_refused hfirst)]
    rfl
  have hstage : (blockedStation.cache.stage "r.s" "return 1").run ⟨blockedMade, []⟩ = (.error
      (.configuration "unable to create directory /gone/../f/r: Not a directory (os error 20)"),
      ⟨blockedMade, []⟩) := by
    cbv
  rw [← hhost, ← hcache] at hstage
  exact compiling_refused hstage

/-- Directories that a load makes may lead to a module that another load does not find otherwise, and
to a source root that cannot be one. -/
theorem loads_commute_detours :
    (∀ name, accepting.OffDisk id name ()) ∧
    (hiddenStation.InOrder ∧ (hiddenStation.emitted "p.q" "return 1").Disjoint
        (hiddenStation.emitted "b" "require 'd'") ∧
      let load₂ := load Lua.compiler accepting "b" "require 'd'"
      let s₁ := settle (load Lua.compiler accepting "p.q" "return 1") hiddenStation ()
      (load₂.run (s₁.bench ())).1 ≠ (load₂.run (hiddenStation.bench ())).1) ∧
    (blockedStation.InOrder ∧ (blockedStation.emitted "p.q" "return 1").Disjoint
        (blockedStation.emitted "r.s" "return 1") ∧
      let load₂ := load Lua.compiler accepting "r.s" "return 1"
      let s₁ := settle (load Lua.compiler accepting "p.q" "return 1") blockedStation ()
      (load₂.run (s₁.bench ())).1 ≠ (load₂.run (blockedStation.bench ())).1) := by
  refine ⟨offDisk_accepting, ⟨inOrder_hiddenStation, fun n _ hn => ?_, ?_⟩,
    ⟨inOrder_blockedStation, fun n _ hn => ?_, ?_⟩⟩
  · rw [hidden_missing] at hn
    exact absurd hn List.not_mem_nil
  · obtain ⟨e, he⟩ := load_of_emitted_nil accepting () rfl hidden_missing
    simp only [he, hidden_found]
    simp
  · simp only [Station.emitted, Operation.leaves, compiling_blocked] at hn
    exact absurd hn List.not_mem_nil
  · simp only [(load_error compiling_blocked).1, (load_error compiling_blocked_later).1]
    decide

end Cache
end UnitCache
