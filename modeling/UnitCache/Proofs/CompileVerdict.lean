import UnitCache.Cli.Command
import UnitCache.Proofs.CacheFreshness
import UnitCache.Proofs.CacheLinks
import UnitCache.Proofs.ErrorKinds

namespace UnitCache

namespace Cache

variable {κ : Type} {w w₁ : Workbench κ} {name text : String} {r : CompileResult}

/-- A compile with an empty capture gives errors and no artifacts, or its unit and no errors. -/
theorem errors_or_unit (he : w.cache.registry.capture.outputs = .empty)
    (hc : (compileSource Lua.compiler name text).run w = (.ok r, w₁)) :
    r.artifacts = .empty ∧ r.hasErrors = true ∨ r.contains name = true ∧ r.hasErrors = false := by
  obtain ⟨unit, h, hs, hu, rfl, rfl⟩ := stage_of_compileSource hc
  unfold Registry.Work.compiled Capture.dialogue
  dsimp only
  cases ht : unit.readText h.disk with
  | error e => exact .inl ⟨he, rfl⟩
  | ok source =>
    obtain ⟨s, looked, inner, hw, hall⟩ :=
      Lua.run_captured w.cache.registry.capture h.disk unit source h.disk rfl
    rw [hall h.disk (List.mem_cons_self ..), Capture.takeAll, he, Lua.Session.writes]
    cases herrors : hasErrors s.diagnostics with
    | true => exact .inl ⟨rfl, herrors⟩
    | false =>
      right
      have hcomplete := Lua.complete_of_entered hw herrors
      refine ⟨?_, herrors⟩
      rw [← hu]
      exact (hcomplete.contains unit.name).mpr (.root (List.mem_singleton.mpr rfl))

/-- So all of this is the same: the unit is there, something is there, nothing is an error. -/
theorem contains_iff (he : w.cache.registry.capture.outputs = .empty)
    (hc : (compileSource Lua.compiler name text).run w = (.ok r, w₁)) :
    (r.contains name = true ↔ r.names ≠ []) ∧ (r.contains name = true ↔ r.hasErrors = false) := by
  obtain ⟨hempty, herrors⟩ | ⟨hunit, herrors⟩ := errors_or_unit he hc
  · have hnames : r.names = [] := by rw [CompileResult.names, hempty]; rfl
    have hmissing : r.contains name = false := by rw [CompileResult.contains, hempty]; rfl
    simp [hnames, hmissing, herrors]
  · have hnames : r.names ≠ [] := by
      obtain ⟨bytes, hb⟩ := Option.isSome_iff_exists.mp hunit
      exact List.ne_nil_of_mem (List.mem_map_of_mem (NameMap.mem_entries.mpr hb))
    simp [hnames, hunit, herrors]

end Cache

namespace Cli

def Reaches (env : Environment) (args : List String) (i : Invocation) (h : Host)
    (r : CompileResult) : Prop :=
  Invocation.parse args = .ok i ∧ i.command = .compile ∧ ∃ config cache h₁ text w,
    configure env i h.disk = .ok config ∧
    (Cache.new Lua.compiler config).run h = (.ok cache, h₁) ∧
    cache.store.readText h₁.disk i.location = .ok text ∧
    (Cache.compileSource Lua.compiler i.name text).run (⟨h₁, cache, ()⟩ : Workbench Unit) = (.ok r, w)

def failureLine (name : String) (errors : Nat) : Bytes :=
  Utf8.encode ("✗ " ++ ("Compilation of " ++ name ++ " failed with " ++ toString errors ++ " error(s)") ++
    "\n")

theorem code_foldl {α : Type} {f : Transcript → α → Transcript}
    (hf : ∀ t a, (f t a).code = t.code) (t : Transcript) (as : List α) :
    (as.foldl f t).code = t.code := by
  induction as generalizing t with
  | nil => rfl
  | cons a as ih => rw [List.foldl_cons, ih, hf]

theorem code_compileLines (name : String) (r : CompileResult) (t : Transcript) :
    (compileLines name r t).code = t.code := by
  have hshown : (r.diagnostics.foldl showDiagnostic t).code = t.code :=
    code_foldl (f := showDiagnostic) (fun _ _ => rfl) t r.diagnostics
  unfold compileLines
  dsimp only
  split
  · rw [code_foldl fun _ _ => by rfl]
    exact hshown
  · exact hshown

/-- A command that gets that far ends with the code 0 if the unit is there, and else says how many
errors there are. -/
theorem execute_compile {env : Environment} {args : List String} {i : Invocation} {h : Host}
    {r : CompileResult} (hr : Reaches env args i h r) :
    if r.contains i.name then (execute env args h).code = 0
    else (execute env args h).code = 1 ∧ ∃ front, (execute env args h).errors =
      front ++ failureLine i.name (r.diagnostics.filter Diagnostic.isError).length := by
  obtain ⟨hparse, hcommand, config, cache, h₁, text, w, hconfig, hnew, htext, hc⟩ := hr
  rw [execute, hparse]
  simp only
  rw [invoke, hconfig]
  simp only
  rw [hnew]
  simp only [hcommand]
  rw [compile, htext]
  simp only
  rw [hc]
  simp only
  split
  · split
    · rfl
    · exact code_compileLines i.name r _
  · exact ⟨rfl, _, rfl⟩

end Cli

namespace Lua.Context

variable {m m' : Machine} {package : Nat} {as : List (String × Bytes)}

/-- Further injections leave defined what is. -/
theorem isDefined_injections (ht : m.world.PackageTables package)
    (h : Cache.Injected kind m as m') : m'.world.PackageTables package ∧
      ∀ n, isDefined m n = true → isDefined m' n = true := by
  induction h with
  | nothing c => exact ⟨ht, fun n hn => hn⟩
  | skipped defined rest ih => exact ih ht
  | added fresh accepted rest ih =>
    obtain ⟨ht₁, -, hkept⟩ := isDefined_inject ht accepted
    obtain ⟨ht', hkept'⟩ := ih ht₁
    exact ⟨ht', fun n hn => hkept' n (hkept n hn)⟩

/-- The file tree of a machine has nothing to do with its modules. -/
theorem isDefined_disk (ht : m.world.PackageTables package) (d : Disk) (n : String) :
    isDefined { m with world := { m.world with disk := d } } n = isDefined m n := by
  have ht' : World.PackageTables { m.world with disk := d } package :=
    ⟨ht.named, ht.plain, ht.preload, ht.preload_plain, ht.loaded, ht.loaded_plain, ht.apart, ht.stands⟩
  have hiff : isDefined { m with world := { m.world with disk := d } } n = true ↔
      isDefined m n = true := by
    rw [isDefined_iff ht, isDefined_iff ht']
    rfl
  exact Bool.eq_iff_iff.mpr hiff

end Lua.Context

namespace Cache

open Lua (Machine)

variable {w w' : Workbench Machine} {package : Nat} {name text : String} {r : CompileResult}

/-- A unit that was delivered to a machine is defined there. -/
theorem isDefined_delivered (ht : w.context.world.PackageTables package)
    (h : (deliver persist Lua.Context.kind r).run w = (.ok (), w')) :
    w'.context.world.PackageTables package ∧ Lua.Context.isDefined w'.context r.unit = true := by
  obtain ⟨bytes, c, -, hinject, hall⟩ := deliver_ok (Keeps.persist fun _ _ => rfl) h
  obtain ⟨ht₁, hunit, -⟩ := Lua.Context.isDefined_inject ht hinject
  obtain ⟨ht', hkept⟩ := Lua.Context.isDefined_injections ht₁ hall
  exact ⟨ht', hkept _ hunit⟩

/-- A load of Lua says that a unit is missing only of one whose compile has errors and gave nothing,
if nothing was captured before and the tables for modules are as they were at the start. -/
theorem load_missing_unit (he : w.cache.registry.capture.outputs = .empty)
    (ht : w.context.world.PackageTables package) {n : String} {ds : List Diagnostic}
    {produced : List String}
    (h : ((load Lua.compiler Lua.Context.kind name text).run w).1 =
      .error (.unitNotFound n ds produced)) :
    hasErrors ds = true ∧ produced = [] := by
  have hinject (name : String) (bytes : Bytes) (m : Machine) (e : Error)
      (hi : (Lua.Context.kind.inject name bytes m).1 = .error e) : e.IsOther :=
    Lua.Context.inject_isOther hi
  rw [load, run_loadWith] at h
  have hkept := Keeps.context_compileSource Lua.compiler name text w
  rcases hc : (compileSource Lua.compiler name text).run w with ⟨e | r, w₁⟩ <;> rw [hc] at hkept
  · rw [run_bind_error hc] at h
    have hother := FailsOtherwise.compileSource Lua.compiler name text w e (by rw [hc])
    exact absurd (Except.error.inj h) (hother n ds produced)
  rw [run_bind_ok hc] at h
  have hu := unit_compileSource hc
  rcases hd : (deliver persist Lua.Context.kind r).run w₁ with ⟨e | _, w₂⟩ <;> rw [hd] at h
  · obtain ⟨hempty, herrors⟩ | ⟨hunit, -⟩ := errors_or_unit he hc
    · have hmissing : r.artifacts.get? r.unit = none := by rw [hempty]; rfl
      rw [run_deliver_missing hmissing] at hd
      obtain ⟨hd, -⟩ := Prod.mk.inj hd
      rw [← hd] at h
      obtain ⟨-, rfl, rfl⟩ := Error.unitNotFound.inj (Except.error.inj h)
      refine ⟨herrors, ?_⟩
      rw [CompileResult.names, hempty]
      rfl
    · have hother := FailsOtherwise.deliver hinject (r := r) (hu ▸ hunit) w₁ e (by rw [hd])
      exact absurd (Except.error.inj h) (hother n ds produced)
  · obtain ⟨ht₂, hdefined⟩ := isDefined_delivered (hkept ▸ ht) hd
    have hother := Lua.Context.resolve_isOther (e := .unitNotFound n ds produced)
      ((Lua.Context.isDefined_disk ht₂ w₂.host.disk name).trans (hu ▸ hdefined)) h
    exact absurd rfl (hother n ds produced)

end Cache

open Cli in
/-- On everything that the command `compile` compiles, these are the same: it ends with the code 0,
it lists the unit, it lists an artifact, it shows no error. If it fails it counts an error at least.
A load that says its unit is missing tells so of a source with errors, and of no artifact. -/
theorem success_iff_no_errors :
    (∀ env args i h r, Reaches env args i h r →
      ((execute env args h).code = 0 ↔ r.contains i.name = true) ∧
      ((execute env args h).code = 0 ↔ r.names ≠ []) ∧
      ((execute env args h).code = 0 ↔ ∀ d ∈ r.diagnostics, d.severity ≠ .error) ∧
      ((execute env args h).code ≠ 0 → ∃ front errors, 0 < errors ∧
        (execute env args h).errors = front ++ failureLine i.name errors)) ∧
    ∀ package (w : Workbench Lua.Machine) name text n ds produced,
      w.cache.registry.capture.outputs = .empty → w.context.world.PackageTables package →
      ((Cache.load Lua.compiler Lua.Context.kind name text).run w).1 =
        .error (.unitNotFound n ds produced) →
      (Error.unitNotFound n ds produced).hasCompileErrors = true ∧ produced = [] := by
  refine ⟨fun env args i h r hr => ?_, fun package w name text n ds produced he ht h => ?_⟩
  · have hverdict := execute_compile hr
    obtain ⟨-, -, config, cache, h₁, text, w, -, hnew, -, hc⟩ := hr
    obtain ⟨hnames, herrors⟩ := Cache.contains_iff (Cache.outputs_new hnew) hc
    have hcode : (execute env args h).code = 0 ↔ r.contains i.name = true := by
      by_cases hunit : r.contains i.name = true
      · rw [if_pos hunit] at hverdict
        simp [hverdict, hunit]
      · rw [if_neg hunit] at hverdict
        simp [hverdict.1, hunit]
    have hsevere : r.hasErrors = false ↔ ∀ d ∈ r.diagnostics, d.severity ≠ .error := by
      simp [CompileResult.hasErrors, hasErrors, Diagnostic.isError]
    refine ⟨hcode, hcode.trans hnames, hcode.trans (herrors.trans hsevere), fun hfailed => ?_⟩
    rw [Ne, hcode] at hfailed
    rw [if_neg hfailed] at hverdict
    obtain ⟨-, front, hline⟩ := hverdict
    refine ⟨front, _, ?_, hline⟩
    rw [herrors, Bool.not_eq_false] at hfailed
    obtain ⟨d, hd, herror⟩ := List.any_eq_true.mp hfailed
    exact List.length_pos_of_mem (List.mem_filter.mpr ⟨hd, herror⟩)
  · exact Cache.load_missing_unit he ht h

/-- A unit that requires a module which is nowhere: the command fails, with errors and without
artifacts, and a load into a new machine says the same. -/
theorem success_iff_no_errors_missing :
    let args := ["compile", "a", "=require 'b'"]
    let i : Cli.Invocation := ⟨.compile, "a", "=require 'b'", []⟩
    let cache : Cache := ⟨⟨[], { classpath := ⟨[], none, false⟩ }, 0⟩, { providers := [] }, none, none⟩
    let w : Workbench Lua.Machine := ⟨⟨{}, []⟩, cache, Lua.Context.fresh⟩
    ((Cli.execute [] args ⟨{}, []⟩).code = 1 ∧ ∃ r, Cli.Reaches [] args i ⟨{}, []⟩ r ∧
      r.names = [] ∧ ∃ d ∈ r.diagnostics, d.severity = .error) ∧
    ∃ e, ((Cache.load Lua.compiler Lua.Context.kind "a" "require 'b'").run w).1 = .error e ∧
      e.hasCompileErrors = true := by
  intro args i cache w
  have hcode : (Cli.execute [] args ⟨{}, []⟩).code = 1 := by decide +kernel
  have hcompiled : ((Cache.compileSource Lua.compiler "a" "require 'b'").run
      (⟨⟨{}, []⟩, cache, ()⟩ : Workbench Unit)).1.isOk = true := by decide +kernel
  obtain ⟨hcommand, hload⟩ := success_iff_no_errors
  refine ⟨⟨hcode, ?_⟩, ?_⟩
  · rcases hc : (Cache.compileSource Lua.compiler "a" "require 'b'").run
      (⟨⟨{}, []⟩, cache, ()⟩ : Workbench Unit) with ⟨e | r, w₁⟩ <;> rw [hc] at hcompiled
    · cases hcompiled
    have hreaches : Cli.Reaches [] args i ⟨{}, []⟩ r :=
      ⟨by decide +kernel, rfl, {}, cache, ⟨{}, []⟩, "require 'b'", w₁, rfl, rfl, by decide +kernel, hc⟩
    obtain ⟨-, hnames, herrors, -⟩ := hcommand [] args i ⟨{}, []⟩ r hreaches
    rw [hcode] at hnames herrors
    simp only [Nat.one_ne_zero, false_iff, not_not, not_forall] at hnames herrors
    obtain ⟨d, hd, hsevere⟩ := herrors
    exact ⟨r, hreaches, hnames, d, hd, hsevere⟩
  · have hmissing : (((Cache.load Lua.compiler Lua.Context.kind "a" "require 'b'").run w).1.map
        fun _ => ()) = .error (.unitNotFound "a"
          [⟨.error, "a", some 1, "module 'b' not found on classpath"⟩] []) := by decide +kernel
    cases hrun : ((Cache.load Lua.compiler Lua.Context.kind "a" "require 'b'").run w).1 with
    | ok u =>
      rw [hrun] at hmissing
      cases hmissing
    | error e =>
      rw [hrun] at hmissing
      obtain rfl := Except.error.inj hmissing
      have ht : w.context.world.ModuleTables 3 := .of_unfilled (by decide +kernel)
      exact ⟨_, rfl, (hload 3 w "a" "require 'b'" _ _ _ rfl ht.packageTables hrun).1⟩

end UnitCache
