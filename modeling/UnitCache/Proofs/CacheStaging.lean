import UnitCache.Proofs.CacheRepeats
import UnitCache.Proofs.ClasspathApart
import UnitCache.Proofs.LuaOrigins

namespace UnitCache

open Disk (Settles)

namespace UnitFile

variable {f : UnitFile} {root : Path} {s : List Char} {x : Char}

/-- A path to a unit file spells out the name of the unit. -/
theorem mem_chars_path (hs : s ∈ UnitName.segments f.name) (hx : x ∈ s) (root : Path) :
    x ∈ (f.path root).chars := by
  have hnamed : ∃ n ∈ Disk.names (f.path root), x ∈ n := by
    rw [path_eq, Path.names_below root fun m hm => (f.place_names_proper m hm).toIsPiece]
    rw [← f.dirs_stem] at hs
    rcases List.mem_append.mp hs with hd | hd
    · exact ⟨s, by simp [hd], hx⟩
    · rw [List.mem_singleton.mp hd] at hx
      exact ⟨f.fileName, by simp, by simp [fileName, hx]⟩
  obtain ⟨n, hn, hx⟩ := hnamed
  exact mem_of_mem_cutAt (List.mem_filter.mp hn).1 hx

theorem mem_chars_of_mem_resource (hx : x ∈ (UnitName.resource f.name).toList) (hslash : x ≠ '/')
    (root : Path) : x ∈ (f.path root).chars := by
  rw [UnitName.resource, String.toList_ofList] at hx
  obtain ⟨p, hp, hxp⟩ := mem_of_mem_pasteWith hx hslash
  exact f.mem_chars_path hp hxp root

end UnitFile

/-- Answers to two compiles of one unit that differ only in what its own chunk is called, and in what
is said of errors in it. -/
structure CompileResult.Agree (r r' : CompileResult) : Prop where
  unit : r.unit = r'.unit
  names : ∀ n, r.contains n = r'.contains n
  diagnostics : r.diagnostics.map Lua.heading = r'.diagnostics.map Lua.heading
  byproducts : ∀ n, n ≠ r.unit → r.artifacts.get? n = r'.artifacts.get? n
  own : ∀ bytes, r.artifacts.get? r.unit = some bytes → ∃ c c' : Lua.Chunk,
    bytes = c.encode ∧ r'.artifacts.get? r.unit = some c'.encode ∧ c.source = c'.source

namespace Lua

theorem hasErrors_of_headings {ds ds' : List Diagnostic} (h : ds.map heading = ds'.map heading) :
    hasErrors ds = hasErrors ds' := by
  have herr (ds : List Diagnostic) : hasErrors ds = (ds.map heading).any (·.1 = .error) := by
    rw [hasErrors, List.any_map]
    rfl
  rw [herr, herr, h]

/-- Sessions that agree give answers that agree, where nothing was captured before. -/
theorem Session.Agree.results {name : String} {s s' : Session} (h : s.Agree name s') :
    CompileResult.Agree ⟨name, NameMap.empty.insertAll s.writes, s.diagnostics⟩
      ⟨name, NameMap.empty.insertAll s'.writes, s'.diagnostics⟩ := by
  have hempty (n : String) : (NameMap.empty : Artifacts).get? n = none := rfl
  have herr := hasErrors_of_headings h.diagnostics
  unfold Session.writes
  rw [← herr]
  rcases h.outputs with ⟨he, he'⟩ | ⟨front, c, c', he, he', hsource⟩
  · rw [he, he', ite_self]
    exact ⟨rfl, fun _ => rfl, h.diagnostics, fun _ _ => rfl, fun _ hb => nomatch hb⟩
  cases hasErrors s.diagnostics with
  | true => exact ⟨rfl, fun _ => rfl, h.diagnostics, fun _ _ => rfl, fun _ hb => nomatch hb⟩
  | false =>
    rw [he, he']
    simp only [Bool.false_eq_true, ↓reduceIte, NameMap.insertAll_append, NameMap.insertAll_cons,
      NameMap.insertAll_nil]
    refine ⟨rfl, fun n => ?_, h.diagnostics, fun n hn => ?_, fun bytes hb => ?_⟩
    · simp only [CompileResult.contains, NameMap.contains, NameMap.get?_insert]
      split <;> rfl
    · simp only [NameMap.get?_insert]
      rw [if_neg hn, if_neg hn]
    · simp only [NameMap.get?_insert, if_pos] at hb ⊢
      exact ⟨c, c', (Option.some.inj hb).symm, rfl, hsource⟩

end Lua

namespace Cache

open Dialogue

variable {κ κ' : Type} {w : Workbench κ} {v : Workbench κ'} {name text : String} {root : Path}
  {unit : NamedUnit} {h : Host}

def lookups (t : Toolchain) (name text : String) (w : Workbench κ) : List String :=
  let c := w.cache.registry.capture
  match (w.cache.stage name text).run w.host with
  | (.ok unit, h) =>
    ((c.dialogue t unit h.disk).calls (Capture.manager h.disk) c).filterMap Call.lookup?
  | (.error _, _) => []

/-- The directories of a classpath and the place where a text is staged are apart, and no links stand
below them. -/
structure Apart (c : Classpath) (root : Path) (d : Disk) : Prop where
  no_links : ∀ base, d.Stands root base → d.NoLinks base
  entries : ∀ p, .directory p ∈ c.entries → ∀ base base', d.Stands root base → d.Stands p base' →
    d.NoLinks base' ∧ ¬base <+: base' ∧ ¬base' <+: base

/-- Staging a text leaves the modules of a classpath as they are. -/
theorem find_staged {c : Cache} {h' : Host} {cp : Classpath} (hroot : c.sourceRoot = some root)
    (hs : (c.stage name text).run h = (.ok unit, h')) (ho : h.disk.Ordered)
    (harchives : cp.HoldsArchives h.disk)
    (hapart : Apart cp root (Store.prepared h.disk (UnitName.path root name UnitName.sourceExtension)))
    (hpaths : ∀ p, .directory p ∈ cp.entries → ¬Disk.Completes h.disk
      (Store.prepared h.disk (UnitName.path root name UnitName.sourceExtension)) p) :
    cp.find h'.disk = cp.find h.disk := by
  obtain ⟨hname, ⟨hn, -⟩ | ⟨root', changed, hr, -, hw⟩⟩ := stage_ok hs
  · cases hroot.symm.trans hn
  obtain rfl := Option.some.inj (hroot.symm.trans hr)
  let f : UnitFile := ⟨name, UnitName.sourceExtension, hname ▸ unit.valid, .inl rfl⟩
  have hmade := Store.prepared_settles ho (f.path root)
  obtain ⟨base, hb⟩ := Store.stands_of_run (f := f) ho hw
  have hrefiles := (Store.writing_of_run (p := f.path root) hw).refiles hmade.ordered hb
    (hapart.no_links base hb)
  refine Classpath.find_apart ((hmade.mono fun _ => False.elim).trans hrefiles.settles) ho harchives
    fun p hp => ⟨?_, fun base' hb' => ?_⟩
  · rintro ⟨base', hb', hbefore, hno⟩
    exact hpaths p hp ⟨base', hrefiles.stands_iff.mp hb', hbefore, hno⟩
  · obtain ⟨hlinks, hup, hdown⟩ := hapart.entries p hp base base' hb (hrefiles.stands_iff.mp hb')
    have hne (ns ms : List Name) : base' ++ ns ≠ base ++ ms := by
      intro he
      rcases List.append_eq_append_iff.mp he with ⟨as, ha, -⟩ | ⟨as, ha, -⟩
      · exact hdown ⟨as, ha.symm⟩
      · exact hup ⟨as, ha.symm⟩
    exact ⟨hrefiles.noLinks_iff.mpr hlinks, fun ns => not_or.mpr ⟨hne ns _, hne ns _⟩⟩

/-- Under the name and at the place of a unit that is staged there is no zero character. -/
theorem no_nul_of_stage {c : Cache} {h' : Host} (hroot : c.sourceRoot = some root)
    (hs : (c.stage name text).run h = (.ok unit, h')) :
    '\x00' ∉ unit.uri.toList ∧ '\x00' ∉ (UnitName.resource name).toList := by
  obtain ⟨hname, ⟨hn, -⟩ | ⟨root', changed, hr, hu, hw⟩⟩ := stage_ok hs
  · cases hroot.symm.trans hn
  obtain rfl := Option.some.inj (hroot.symm.trans hr)
  let f : UnitFile := ⟨name, UnitName.sourceExtension, hname ▸ unit.valid, .inl rfl⟩
  obtain ⟨last, spot, hf⟩ := (Store.writing_of_run (p := f.path root) hw).find
  have hl := (Disk.legible_of_find (Disk.ne_nil_of_find hf) (.inl ⟨_, hf⟩)).no_nul
  refine ⟨?_, fun hx => hl (f.mem_chars_of_mem_resource hx (by decide) root)⟩
  have hl : '\x00' ∉ (UnitName.path root name UnitName.sourceExtension).chars := hl
  rw [NamedUnit.uri, hu]
  simpa [Path.text] using hl

/-- A text that is kept in memory is staged as it is. -/
theorem stage_memory {c : Cache} (hn : UnitName.isValid name = true) (hc : c.sourceRoot = none)
    (text : String) (h : Host) :
    (c.stage name text).run h = (.ok ⟨name, .memory text, hn⟩, h) := by
  unfold stage
  rw [hc]
  simp only [NamedUnit.ofText, NamedUnit.new, dif_pos hn]
  rfl

/-- Two compiles of one text by two units of one name, on trees with the same modules, look up the
same and agree. -/
theorem compiled_agree {c : Capture} {unit unit' : NamedUnit} {h h' : Host} (r r' : Registry)
    (hr : r.capture = c) (hr' : r'.capture = c) (hempty : c.outputs = .empty)
    (hfind : c.find h.disk = c.find h'.disk) (hn : unit.name = name) (hn' : unit'.name = name)
    (hu : unit.readText h.disk = .ok text) (hu' : unit'.readText h'.disk = .ok text)
    (ho : '\x00' ∉ unit.uri.toList) (ho' : '\x00' ∉ unit'.uri.toList) :
    let answer := Registry.Work.compiled Lua.compiler unit ⟨h, r⟩
    let answer' := Registry.Work.compiled Lua.compiler unit' ⟨h', r'⟩
    ((c.dialogue Lua.compiler unit h.disk).calls (Capture.manager h.disk) c).filterMap Call.lookup? =
        ((c.dialogue Lua.compiler unit' h'.disk).calls (Capture.manager h'.disk) c).filterMap
          Call.lookup? ∧
      CompileResult.Agree ⟨name, answer.2.outputs, answer.1⟩ ⟨name, answer'.2.outputs, answer'.1⟩ := by
  intro answer answer'
  obtain ⟨s, looked, -, -, hall⟩ := Lua.analyse_captured c h'.disk unit text h.disk hfind
  obtain ⟨s', looked', -, -, hall'⟩ := Lua.analyse_captured c h'.disk unit' text h'.disk rfl
  obtain ⟨hrun, hcalls⟩ := hall h.disk (by simp)
  obtain ⟨hrun', hcalls'⟩ := hall' h'.disk (by simp)
  have hagree := Lua.analyse_agree (hn.trans hn'.symm) ho ho' text (c.reach h'.disk (.ok text))
    (Capture.manager h'.disk) c
  rw [(hall h'.disk (by simp)).1, (hall h'.disk (by simp)).2, hrun', hcalls'] at hagree
  obtain ⟨hlooked, hsession⟩ := hagree
  have hout (s : Lua.Session) : (c.takeAll s.writes).outputs = NameMap.empty.insertAll s.writes := by
    rw [Capture.takeAll, hempty]
  have ha : answer = (s.diagnostics, c.takeAll s.writes) := by
    simp only [answer, Registry.Work.compiled, Capture.dialogue, hr, hu]
    exact Lua.compile_captured hrun
  have ha' : answer' = (s'.diagnostics, c.takeAll s'.writes) := by
    simp only [answer', Registry.Work.compiled, Capture.dialogue, hr', hu']
    exact Lua.compile_captured hrun'
  refine ⟨?_, ?_⟩
  · simp only [Capture.dialogue, hu, hu']
    exact (Lua.Compile.lookups_compile (hcalls.trans hlooked)).trans
      (Lua.Compile.lookups_compile hcalls').symm
  · rw [ha, ha']
    simp only [hout]
    exact hn ▸ hsession.results

/-- A compile of Lua that stages its text, where that goes well, agrees with one that keeps the text
in memory, on the same tree and with the same classpath and nothing captured before, whatever was in
the file of the unit. Both look up the same modules in the same order, find the same errors and
warnings and put out the same artifacts, except for what the unit's own chunk is called. The source
root has to be apart from the directories on the classpath, and no path of these may lead to a
directory only by way of one that is made to stage the text. -/
theorem staged_agrees (hroot : w.cache.sourceRoot = some root) (hmemory : v.cache.sourceRoot = none)
    (hdisk : v.host.disk = w.host.disk)
    (hclass : v.cache.registry.capture.classpath = w.cache.registry.capture.classpath)
    (hempty : w.cache.registry.capture.outputs = .empty)
    (hempty' : v.cache.registry.capture.outputs = .empty)
    (hs : (w.cache.stage name text).run w.host = (.ok unit, h)) (ho : w.host.disk.Ordered)
    (harchives : w.cache.registry.capture.classpath.HoldsArchives w.host.disk)
    (hapart : Apart w.cache.registry.capture.classpath root
      (Store.prepared w.host.disk (UnitName.path root name UnitName.sourceExtension)))
    (hpaths : ∀ p, .directory p ∈ w.cache.registry.capture.classpath.entries →
      ¬Disk.Completes w.host.disk
        (Store.prepared w.host.disk (UnitName.path root name UnitName.sourceExtension)) p) :
    lookups Lua.compiler name text w = lookups Lua.compiler name text v ∧
      ∃ r r' w₁ v₁, (compileSource Lua.compiler name text).run w = (.ok r, w₁) ∧
        (compileSource Lua.compiler name text).run v = (.ok r', v₁) ∧ r.unit = name ∧ r.Agree r' := by
  have hcapture : v.cache.registry.capture = w.cache.registry.capture := by
    rcases hc : w.cache.registry.capture with ⟨c, o⟩
    rcases hc' : v.cache.registry.capture with ⟨c', o'⟩
    rw [hc, hc'] at hclass
    rw [hc] at hempty
    rw [hc'] at hempty'
    exact congr (congrArg Capture.mk hclass) (hempty'.trans hempty.symm)
  obtain ⟨hname, -⟩ := stage_ok hs
  obtain ⟨hnul, hnul'⟩ := no_nul_of_stage hroot hs
  have hfind := find_staged hroot hs ho harchives hapart hpaths
  rw [← hdisk] at hfind
  have hread := text_of_stage (ho.parents.grounded ho.cwd) hs
  obtain ⟨kept, hmem, hname', hsource⟩ : ∃ kept : NamedUnit,
      (v.cache.stage name text).run v.host = (.ok kept, v.host) ∧ kept.name = name ∧
        kept.source = .memory text := ⟨_, stage_memory (hname ▸ unit.valid) hmemory text v.host, rfl, rfl⟩
  have hread' : kept.readText v.host.disk = .ok text := by rw [NamedUnit.readText, hsource]
  have hkept : '\x00' ∉ kept.uri.toList := by
    rw [NamedUnit.uri, hsource, hname']
    simpa using hnul'
  obtain ⟨hlooked, hagree⟩ := compiled_agree w.cache.registry v.cache.registry rfl hcapture hempty hfind
    hname hname' hread hread' hnul hkept
  refine ⟨?_, _, _, _, _, run_compileSource_staged hs, run_compileSource_staged hmem, rfl, ?_⟩
  · simp only [lookups, hs, hmem, hcapture]
    exact hlooked
  · exact hagree

def stagingBench (dir : Path) (source : Option Path) : Workbench Unit :=
  treeBench detourTree [dir] source none

def missingRoot : Path := ⟨"/gone".toList⟩

def rootMade : Disk := { detourTree with entries := (["gone".toList], .directory) :: detourTree.entries }

def rootStaged : Disk :=
  { rootMade with
    entries := (["gone".toList, "a.lua".toList], .file 2 (Utf8.encode "require 'd'")) :: rootMade.entries
    nextId := 3 }

def stagedUnit : NamedUnit := ⟨"a", .file ⟨"/gone/a.lua".toList⟩, by decide⟩

theorem run_stage_missing (dir : Path) :
    ((stagingBench dir (some missingRoot)).cache.stage "a" "require 'd'").run
      (stagingBench dir (some missingRoot)).host = (.ok stagedUnit, ⟨rootStaged, []⟩) := by
  change (Cache.stage ⟨_, _, some missingRoot, none⟩ "a" "require 'd'").run ⟨detourTree, []⟩ = _
  cbv

theorem prepared_missing : Store.prepared detourTree (UnitName.path missingRoot "a" UnitName.sourceExtension) =
    rootMade := by
  cbv

theorem stands_missing : rootMade.Stands missingRoot ["gone".toList] :=
  ⟨_, .down ⟨by decide, by decide⟩ (by decide) rfl (.stop _ _), rfl⟩

/-- Apart from the source root and without links there is the directory of the modules, be it spelled
by way of the source root. -/
theorem apart_missing {dir : Path} (hdir : rootMade.Stands dir ["lib".toList]) :
    Apart (stagingBench dir (some missingRoot)).cache.registry.capture.classpath missingRoot
      (Store.prepared detourTree (UnitName.path missingRoot "a" UnitName.sourceExtension)) := by
  have hsound : rootMade.Sound := by decide +kernel
  have hlinks (base : Place) : rootMade.NoLinks base := fun _ target => hsound.linkless _ target
  rw [prepared_missing]
  refine ⟨fun base _ => hlinks base, fun p hp base base' hb hb' => ⟨hlinks base', ?_⟩⟩
  obtain rfl := ClasspathEntry.directory.inj (List.mem_singleton.mp hp)
  obtain rfl := hb.unique stands_missing
  obtain rfl := hb'.unique hdir
  decide

/-- Staging a text that requires a module makes the source root, and changes nothing else about the
compile. -/
theorem staged_agrees_missing :
    let w := stagingBench ⟨"/lib".toList⟩ (some missingRoot)
    let v := stagingBench ⟨"/lib".toList⟩ none
    lookups Lua.compiler "a" "require 'd'" w = lookups Lua.compiler "a" "require 'd'" v ∧
      ∃ r r' w₁ v₁, (compileSource Lua.compiler "a" "require 'd'").run w = (.ok r, w₁) ∧
        (compileSource Lua.compiler "a" "require 'd'").run v = (.ok r', v₁) ∧ r.unit = "a" ∧
        r.Agree r' := by
  intro w v
  have hsound : detourTree.Sound := by decide +kernel
  have hlib : detourTree.Stands ⟨"/lib".toList⟩ ["lib".toList] :=
    ⟨_, .down ⟨by decide, by decide⟩ (by decide) rfl (.stop _ _), rfl⟩
  have hmade := Store.prepared_settles hsound.ordered (UnitName.path missingRoot "a" UnitName.sourceExtension)
  rw [prepared_missing] at hmade
  refine staged_agrees rfl rfl rfl rfl rfl rfl (run_stage_missing ⟨"/lib".toList⟩) hsound.ordered
    (fun p file members hm => ?_) (apart_missing (hmade.stands hlib)) fun p hp => ?_
  · cases List.mem_singleton.mp hm
  · obtain rfl := ClasspathEntry.directory.inj (List.mem_singleton.mp hp)
    rintro ⟨base, hb, -, hno⟩
    change Disk.Stands (Store.prepared detourTree _) _ _ at hb
    rw [prepared_missing] at hb
    exact hno (hb.unique (hmade.stands hlib) ▸ hlib)

/-- A directory that is made for a text to be staged may complete the path of a directory on the
classpath, which then leads to a module. In memory there is none, and no artifact. -/
theorem staged_disagrees :
    let w := stagingBench ⟨"/gone/../lib".toList⟩ (some missingRoot)
    let v := stagingBench ⟨"/gone/../lib".toList⟩ none
    ∃ r r' w₁ v₁, detourTree.Sound ∧
      Apart w.cache.registry.capture.classpath missingRoot
        (Store.prepared detourTree (UnitName.path missingRoot "a" UnitName.sourceExtension)) ∧
      (compileSource Lua.compiler "a" "require 'd'").run w = (.ok r, w₁) ∧
      (compileSource Lua.compiler "a" "require 'd'").run v = (.ok r', v₁) ∧
      r.names = ["a", "d"] ∧ r'.names = [] := by
  intro w v
  let c := w.cache.registry.capture
  let kept : NamedUnit := ⟨"a", .memory "require 'd'", by decide⟩
  let m : ModuleSource := ⟨"d", "/gone/../lib/d.lua", "return"⟩
  have hdir : rootMade.Stands ⟨"/gone/../lib".toList⟩ ["lib".toList] :=
    ⟨_, .down ⟨by decide, by decide⟩ (by decide) rfl (.up (.down ⟨by decide, by decide⟩ (by decide) rfl
      (.stop _ _))), rfl⟩
  have hpresent : Classpath.inEntry rootStaged "d" "d.lua" (.directory ⟨"/gone/../lib".toList⟩) =
      .ok (some m) := by
    cbv
  have hentries : c.classpath.entries = [] ++ .directory ⟨"/gone/../lib".toList⟩ :: [] := rfl
  have hfound : c.find rootStaged "d" = .ok (some m) :=
    Classpath.find_first rfl (by decide) hentries (by simp) hpresent
  have hmissing : c.find detourTree "d" = .ok none := by
    refine Classpath.find_none rfl (by decide) fun x hx f hf => ?_
    obtain rfl := List.mem_singleton.mp hx
    refine Classpath.inEntry_missing "d" ?_
    rcases List.mem_cons.mp hf with rfl | hf
    · cbv
    · obtain rfl := List.mem_singleton.mp hf
      cbv
  have hasked : Lua.asked (finding m) c rootStaged stagedUnit "require 'd'" = ["d"] := by
    decide +kernel
  have hasked' : Lua.asked (fun _ => .ok none) c detourTree kept "require 'd'" = ["d"] := by
    decide +kernel
  have hfind (n : String) (hn : n ∈ Lua.asked (finding m) c rootStaged stagedUnit "require 'd'") :
      c.find rootStaged n = finding m n := by
    rw [hasked, List.mem_singleton] at hn
    exact hn ▸ hfound
  have hfind' (n : String) (hn : n ∈ Lua.asked (fun _ => .ok none) c detourTree kept "require 'd'") :
      c.find detourTree n = .ok none := by
    rw [hasked', List.mem_singleton] at hn
    exact hn ▸ hmissing
  have hnames : (Lua.answered (finding m) c rootStaged stagedUnit "require 'd'").2.outputs.names =
      ["a", "d"] := by
    decide +kernel
  have hnames' : (Lua.answered (fun _ => .ok none) c detourTree kept "require 'd'").2.outputs.names =
      [] := by
    decide +kernel
  have hread : stagedUnit.readText rootStaged = .ok "require 'd'" := by cbv
  rcases hout : Lua.answered (finding m) c rootStaged stagedUnit "require 'd'" with ⟨ds, captured⟩
  rcases hout' : Lua.answered (fun _ => .ok none) c detourTree kept "require 'd'" with ⟨ds', captured'⟩
  rw [hout] at hnames
  rw [hout'] at hnames'
  obtain ⟨w₁, hc, -⟩ := compileSource_of_answers w "a" "require 'd'" (run_stage_missing _) hread hfind
    hout
  have hkept : (v.cache.stage "a" "require 'd'").run v.host = (.ok kept, v.host) :=
    stage_memory (by decide) rfl _ _
  obtain ⟨v₁, hc', -⟩ := compileSource_of_answers v "a" "require 'd'" hkept rfl hfind' hout'
  exact ⟨_, _, w₁, v₁, by decide +kernel, apart_missing hdir, hc, hc', hnames, hnames'⟩

end Cache
end UnitCache
