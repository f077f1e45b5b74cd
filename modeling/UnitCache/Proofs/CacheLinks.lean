import Mathlib.Algebra.Group.Nat.Defs
import UnitCache.Proofs.CachePersistence
import UnitCache.Proofs.LuaContexts

namespace UnitCache

open Lua (Machine World Sources)
open Lua.Context (isDefined)

namespace Lua.Context

variable {package : Nat} {m m' m'' : Machine} {name n : String} {bytes : Bytes}

/-- An injected name is defined in addition. -/
theorem isDefined_injected (ht : m.world.ModuleTables package) (h : m.world.Injected name m'.world)
    (n : String) : isDefined m' n = true ↔ isDefined m n = true ∨ n = name := by
  have ht' := h.moduleTables ht
  rw [isDefined_iff ht.packageTables, isDefined_iff ht'.packageTables]
  by_cases hn : n = name
  · subst hn
    obtain ⟨f, hf⟩ := h.getText_self ht.packageTables
    simp [hf]
  · rw [h.getText_of_ne ht.packageTables ht.distinct hn, h.table_loaded ht.packageTables]
    simp [hn]

/-- A context after injections. What is defined in it can be required, but for what was defined and
could not be required before. -/
structure Extends (package : Nat) (m m' : Machine) : Prop where
  tables : m'.world.ModuleTables package
  kept : ∀ n, isDefined m n = true → isDefined m' n = true
  usable : ∀ n, isDefined m' n = true →
    m'.world.CanRequire n ∨ isDefined m n = true ∧ ¬m.world.CanRequire n
  require : ∀ r, m.world.StandardRequire package r → m'.world.StandardRequire package r

namespace Extends

theorem refl (ht : m.world.ModuleTables package) : Extends package m m := by
  refine ⟨ht, fun n hn => hn, fun n hn => ?_, fun r hr => hr⟩
  by_cases hc : m.world.CanRequire n
  · exact .inl hc
  · exact .inr ⟨hn, hc⟩

/-- One more injection that goes well. -/
theorem inject (h : Extends package m m') (hi : inject name bytes m' = (.ok (), m'')) :
    Extends package m m'' ∧ isDefined m'' name = true := by
  obtain ⟨-, hinj⟩ := inject_ok h.tables.packageTables hi
  have hd := isDefined_injected h.tables hinj
  refine ⟨⟨hinj.moduleTables h.tables, fun n hn => ?_, fun n hn => ?_, fun r hr => ?_⟩, ?_⟩
  · exact (hd n).mpr (.inl (h.kept n hn))
  · rw [hinj.canRequire_iff h.tables]
    rcases (hd n).mp hn with hn | rfl
    · exact (h.usable n hn).imp_left .inl
    · exact .inl (.inr rfl)
  · exact hinj.standardRequire h.tables (h.require r hr)
  · exact (hd name).mpr (.inr rfl)

/-- Injecting what is missing of some artifacts leaves all of them defined. -/
theorem injected {as : List (String × Bytes)} (h : Extends package m m')
    (hi : Cache.Injected kind m' as m'') : Extends package m m'' ∧
      ∀ n, isDefined m' n = true ∨ n ∈ as.map Prod.fst → isDefined m'' n = true := by
  induction hi with
  | nothing c => exact ⟨h, fun n hn => by simpa using hn⟩
  | @skipped c c' a as defined rest ih =>
    obtain ⟨hext, hall⟩ := ih h
    refine ⟨hext, fun n hn => hall n ?_⟩
    rw [List.map_cons, List.mem_cons] at hn
    rcases hn with hn | rfl | hn
    · exact .inl hn
    · exact .inl defined
    · exact .inr hn
  | @added c c₁ c' a as fresh accepted rest ih =>
    obtain ⟨hext₁, hself⟩ := h.inject accepted
    obtain ⟨hext, hall⟩ := ih hext₁
    refine ⟨hext, fun n hn => hall n ?_⟩
    rw [List.map_cons, List.mem_cons] at hn
    rcases hn with hn | rfl | hn
    · have hinj := (inject_ok h.tables.packageTables accepted).2
      exact .inl ((isDefined_injected h.tables hinj n).mpr (.inl hn))
    · exact .inl hself
    · exact .inr hn

end Extends

/-- A name is linked in a context that came of another one: it is defined, and `require`, as it was
at the start and where it can be called, gives or loads its module, on whatever file tree. What the
other context defined is left out if it is neither loaded there, to something that counts as true,
nor has a function as its loader. -/
def Linked (package : Nat) (m m' : Machine) (n : String) : Prop :=
  isDefined m' n = true ∧ (isDefined m n = true ∧ ¬m.world.CanRequire n ∨
    ∀ (run : Machine) (require : Nat) (site : Site),
      run.world = { m'.world with disk := run.world.disk } →
      m.world.StandardRequire package require →
      site.depth < Machine.maxDepth → site.nesting < Machine.maxNesting →
      run.Requires require n site)

theorem Extends.linked (h : Extends package m m') (hn : isDefined m' n = true) :
    Linked package m m' n := by
  refine ⟨hn, (h.usable n hn).symm.imp_right fun hcan => ?_⟩
  intro run require site hworld hrequire hdepth hnesting
  have ht := h.tables
  have hr := h.require require hrequire
  have ht' : run.world.ModuleTables package := by
    rw [hworld]
    exact ⟨ht.named, ht.plain, ht.preload, ht.preload_plain, ht.loaded, ht.loaded_plain, ht.apart,
      ht.stands, ht.distinct, ht.standard⟩
  have hr' : run.world.StandardRequire package require := by
    rw [hworld]
    exact ⟨hr.function, hr.searchers⟩
  have hcan' : run.world.CanRequire n := by
    rw [hworld]
    exact hcan
  exact Machine.requires_of_canRequire ht' hr' hcan' hdepth hnesting

end Lua.Context

namespace Lua

def World.unfilled (w : World) (package : Nat) : Bool :=
  (w.table w.globals).getText "package" = .table package &&
    (w.table package).getText "preload" = .table w.preload &&
    (w.table package).getText "loaded" = .table w.loaded &&
    [package, w.preload, w.loaded].all (fun a => (w.table a).metatable.isNone) &&
    [w.globals, package, w.loaded].all (fun a => w.preload ≠ a) &&
    w.preload < w.tables.size && (w.table w.preload).fields.isEmpty &&
    builtinModules.all (fun name => (w.table w.loaded).getText name ≠ .nil)

theorem World.ModuleTables.of_unfilled {w : World} {package : Nat} (h : w.unfilled package = true) :
    w.ModuleTables package := by
  simp only [World.unfilled, Bool.and_eq_true, decide_eq_true_eq, List.all_cons, List.all_nil,
    List.all_eq_true, Option.isNone_iff_eq_none, Array.isEmpty_iff] at h
  obtain ⟨⟨⟨⟨⟨⟨⟨hnamed, hpreload⟩, hloaded⟩, hplain⟩, hapart⟩, hstands⟩, hempty⟩, hstandard⟩ := h
  refine ⟨hnamed, hplain.1, hpreload, hplain.2.1, hloaded, hplain.2.2.1, ⟨hapart.1, hapart.2.1, hapart.2.2.1⟩,
    hstands, fun bs => ?_, hstandard⟩
  rw [Table.under, hempty]
  exact Nat.zero_le 1

def World.isNative (w : World) (f : Nat) (name : String) (captured : List Value) : Bool :=
  match w.functions[f]? with
  | some (.native n vs) => n = name && vs = captured
  | _ => false

theorem World.functions_of_isNative {w : World} {f : Nat} {name : String} {captured : List Value}
    (h : w.isNative f name captured = true) : w.functions[f]? = some (.native name captured) := by
  unfold World.isNative at h
  split at h
  · rename_i n vs hf
    simp only [Bool.and_eq_true, decide_eq_true_eq] at h
    rw [hf, h.1, h.2]
  · cases h

variable {x : Sources} {as : Artifacts} {a n : String} {bytes : Bytes}

theorem Sources.get?_unit (x : Sources) : x.get? x.unit.name = some x.unit := if_pos rfl

/-- An artifact was compiled from the source of its name, and what that requires is an artifact too,
unless it is always there. -/
theorem Complete.closed (hx : Complete x as) (ha : as.get? a = some bytes) :
    ∃ source, x.get? a = some source ∧ x.compiled? a = some (a, bytes) ∧
      ∀ n ∈ named source.text, as.contains n = true ∨ n ∈ builtinModules := by
  have hmember : x.Member a := (hx.contains a).mp (by rw [NameMap.contains, ha]; rfl)
  have hcompiled := hx.compiled a bytes ha
  have hsound := hx.sound a hmember
  obtain ⟨source, hs⟩ := Option.isSome_iff_exists.mp (x.isSome_get?_of_member hmember)
  refine ⟨source, hs, hcompiled, fun n hn => ?_⟩
  have hliterals : Sources.literals source = named source.text := by
    unfold Sources.literals
    split
    · rfl
    · rename_i e he
      exact absurd ⟨source, hs, .inl ⟨e, he⟩⟩ hsound
  rw [← hliterals] at hn
  by_cases hb : n ∈ builtinModules
  · exact .inr hb
  · have hfound : (x.get? n).isSome := by
      rw [Option.isSome_iff_ne_none]
      exact fun hnone => hsound ⟨source, hs, .inr ⟨n, hn, hb, hnone⟩⟩
    refine .inl ((hx.contains n).mpr (.next hmember ?_))
    simp only [Sources.next, hs, List.mem_filter, Sources.isModule, Bool.and_eq_true]
    exact ⟨hn, by simpa using hb, hfound⟩

end Lua

namespace Zip

def field (width n : Nat) : Bytes := (List.range width).map fun i => UInt8.ofNat (n / 256 ^ i)

def stored (name text : String) : Bytes :=
  let content := Utf8.encode text
  let sizes := field 4 (Checksum.crc32 content).toNat ++ field 4 content.length ++
    field 4 content.length ++ field 2 (Utf8.encode name).length
  let front := field 4 headerSignature ++ field 10 0 ++ sizes ++ field 2 0 ++ Utf8.encode name ++ content
  let directory := field 4 memberSignature ++ field 12 0 ++ sizes ++ field 16 0 ++ Utf8.encode name
  front ++ directory ++ field 4 endSignature ++ field 4 0 ++ field 2 1 ++ field 2 1 ++
    field 4 directory.length ++ field 4 front.length ++ field 2 0

end Zip

namespace Cache

variable {w w' : Workbench Machine} {package : Nat} {name text : String}

/-- Delivering artifacts that goes well extends the context, and leaves all of them defined. -/
theorem deliver_extends {w₁ : Workbench Machine} {r : CompileResult}
    (ht : w₁.context.world.ModuleTables package)
    (hd : (deliver persist Lua.Context.kind r).run w₁ = (.ok (), w')) :
    r.artifacts.contains r.unit = true ∧ Lua.Context.Extends package w₁.context w'.context ∧
      ∀ n, r.artifacts.contains n = true → isDefined w'.context n = true := by
  obtain ⟨bytes, c, hb, hi, hall⟩ := deliver_ok (Keeps.persist fun _ _ => rfl) hd
  obtain ⟨hunit, hself⟩ := (Lua.Context.Extends.refl ht).inject hi
  obtain ⟨hext, hall⟩ := hunit.injected hall
  refine ⟨by rw [NameMap.contains, hb]; rfl, hext, fun n hn => hall n ?_⟩
  by_cases hname : n = r.unit
  · exact .inl (hname ▸ hself)
  · obtain ⟨bytes', hb'⟩ := Option.isSome_iff_exists.mp hn
    refine .inr (List.mem_map.mpr ⟨(n, bytes'), ?_, rfl⟩)
    exact List.mem_filter.mpr ⟨NameMap.mem_entries.mpr hb', by simpa using hname⟩

/-- What a load of Lua into a context with its module tables leaves there before the unit is run, if
nothing was captured before: every artifact is linked, and so is every name that the text of an
artifact requires by a literal. -/
theorem load_linked (hempty : w.cache.registry.capture.outputs = .empty)
    (ht : w.context.world.ModuleTables package)
    (hi : (install Lua.compiler Lua.Context.kind name text).run w = (.ok (), w')) :
    ∃ r w₁ unit source, (compileSource Lua.compiler name text).run w = (.ok r, w₁) ∧
      unit.name = name ∧ unit.readText w₁.host.disk = .ok source ∧
      (w.host.disk.Grounded w.host.disk.cwd → source = text) ∧
      let x := Lua.sources w.cache.registry.capture w₁.host.disk unit source
      (∀ n, r.contains n = true ↔ x.Member n) ∧
      ∀ a bytes, r.artifacts.get? a = some bytes → ∃ m : ModuleSource, x.get? a = some m ∧
        x.compiled? a = some (a, bytes) ∧
        ∀ n, n = a ∨ n ∈ Lua.named m.text → Lua.Context.Linked package w.context w'.context n := by
  rcases hc : (compileSource Lua.compiler name text).run w with ⟨e | r, w₁⟩
  · rw [install, run_bind_error hc] at hi
    cases hi
  rw [install, run_bind_ok hc] at hi
  have hkept := Keeps.context_compileSource Lua.compiler name text w
  rw [hc] at hkept
  obtain ⟨hunit, hext, hall⟩ := deliver_extends (hkept ▸ ht) hi
  rw [hkept] at hext
  rcases artifacts_complete hempty hc with hnone | ⟨unit, source, hu, hread, htext, hx⟩
  · rw [hnone] at hunit
    cases hunit
  refine ⟨r, w₁, unit, source, rfl, hu, hread, htext, hx.contains, fun a bytes ha => ?_⟩
  obtain ⟨m, hm, hcompiled, hclosed⟩ := hx.closed ha
  refine ⟨m, hm, hcompiled, fun n hn => hext.linked ?_⟩
  rcases hn with rfl | hn
  · exact hall n (by rw [NameMap.contains, ha]; rfl)
  · rcases hclosed n hn with hn | hn
    · exact hall n hn
    · exact hext.kept n ((Lua.Context.isDefined_iff ht.packageTables n).mpr (.inr (ht.standard n hn)))

def archiveBench (m : Machine) : Workbench Machine :=
  let packed := Zip.stored "b.lua" "require 'a'"
  let path : Path := ⟨"/x.zip".toList⟩
  let entries := match Zip.members packed with
    | .ok members => [.archive path 0 members]
    | .error _ => []
  ⟨⟨{ entries := [(["x.zip".toList], .file 0 packed)], nextId := 1 }, []⟩,
    ⟨⟨[path], { classpath := ⟨entries, none, false⟩ }, 0⟩, { providers := [] }, none, none⟩, m⟩

/-- A unit and a module that require each other are linked, in a machine that is new. -/
theorem load_linked_cycle :
    ∃ w', (install Lua.compiler Lua.Context.kind "a" "require 'b'").run
        (archiveBench Lua.Context.fresh) = (.ok (), w') ∧
      isDefined w'.context "b" = true ∧ ∀ site : Lua.Site,
        site.depth < Machine.maxDepth → site.nesting < Machine.maxNesting →
          w'.context.Requires 119 "b" site := by
  have hok : ((install Lua.compiler Lua.Context.kind "a" "require 'b'").run
      (archiveBench Lua.Context.fresh)).1 = .ok () := by decide +kernel
  have ht : Lua.Context.fresh.world.ModuleTables 3 := .of_unfilled (by decide +kernel)
  have hnew : isDefined Lua.Context.fresh "b" = false := by decide +kernel
  have hrequire : Lua.Context.fresh.world.StandardRequire 3 119 :=
    ⟨World.functions_of_isNative (by decide +kernel), 4, 0, [.table 3], by decide +kernel,
      by decide +kernel, by decide +kernel, World.functions_of_isNative (by decide +kernel)⟩
  rcases hrun : (install Lua.compiler Lua.Context.kind "a" "require 'b'").run
    (archiveBench Lua.Context.fresh) with ⟨out, w'⟩
  rw [hrun] at hok
  cases hok
  obtain ⟨r, w₁, unit, source, hc, hu, -, htext, hcontains, hlinked⟩ := load_linked rfl ht hrun
  have hsource : source = "require 'b'" := htext (.root _)
  have hunit : r.contains unit.name = true := (hcontains unit.name).mpr (.root (List.mem_singleton.mpr rfl))
  obtain ⟨bytes, hb⟩ := Option.isSome_iff_exists.mp hunit
  obtain ⟨m, hm, -, hall⟩ := hlinked unit.name bytes hb
  have hmtext : m.text = source := by
    rw [← Option.some.inj ((Lua.Sources.get?_unit _).symm.trans hm)]
    rfl
  have hb : "b" ∈ Lua.named m.text := by
    rw [hmtext, hsource]
    decide +kernel
  obtain ⟨hdefined, hbefore | hrequires⟩ := hall "b" (.inr hb)
  · have hdef : isDefined Lua.Context.fresh "b" = true := hbefore.1
    rw [hnew] at hdef
    cases hdef
  · exact ⟨w', rfl, hdefined, fun site => hrequires w'.context 119 site rfl hrequire⟩

def refusal (name : String) (m : Machine) : Option String :=
  match (Lua.Context.resolve name m).1 with
  | .ok _ => none
  | .error e => some e.message

def alteredMachine (searchers : List Lua.Value) (b : Lua.Value) : Machine :=
  let w := Lua.Context.fresh.world
  { world := (w.alterTable 4 fun _ => .ofItems searchers 0).alterTable w.loaded (·.setText "b" b) }

/-- What is defined after a load may not be there for `require`: a module that counts as loaded with
the value `false` is not injected, and without searchers no loader is found. -/
theorem load_unlinked :
    let falsy := alteredMachine [.function 0] (.bool false)
    let bare := alteredMachine [] .nil
    let loaded := (install Lua.compiler Lua.Context.kind "a" "require 'b'").run (archiveBench falsy)
    let loaded' := (install Lua.compiler Lua.Context.kind "a" "require 'a'").run (archiveBench bare)
    (falsy.world.ModuleTables 3 ∧ loaded.1 = .ok () ∧ "b" ∈ Lua.named "require 'b'" ∧
      isDefined loaded.2.context "b" = true ∧ refusal "b" loaded.2.context = some
        "Lua error: runtime error: module 'b' not found:\n\tno field package.preload['b']") ∧
    bare.world.ModuleTables 3 ∧ loaded'.1 = .ok () ∧ "a" ∈ Lua.named "require 'a'" ∧
      isDefined loaded'.2.context "a" = true ∧ refusal "a" loaded'.2.context = some
        "Lua error: runtime error: module 'a' not found:" := by
  refine ⟨⟨.of_unfilled ?_, ?_⟩, .of_unfilled ?_, ?_⟩
  · decide +kernel
  · decide +kernel
  · decide +kernel
  · decide +kernel

end Cache
end UnitCache
