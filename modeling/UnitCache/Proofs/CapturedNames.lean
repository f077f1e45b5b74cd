import UnitCache.Proofs.CacheTraces
import UnitCache.Proofs.LuaArtifacts

namespace UnitCache

def NameMap.Valid {α : Type} (m : NameMap α) : Prop :=
  ∀ n, m.contains n = true → UnitName.isValid n = true

namespace NameMap.Valid

variable {α : Type} {m : NameMap α}

theorem empty : (NameMap.empty : NameMap α).Valid := fun _ h => nomatch h

theorem insertAll (hm : m.Valid) {es : List (String × α)}
    (he : ∀ e ∈ es, UnitName.isValid e.1 = true) : (m.insertAll es).Valid := by
  intro n hn
  obtain ⟨v, hv⟩ := Option.isSome_iff_exists.mp hn
  rcases mem_of_get?_insertAll hv with h | h
  · exact he (n, v) h
  · exact hm n (by simp [contains, h])

end NameMap.Valid

namespace Lua

/-- Only the unit and modules that it needs are put out. -/
theorem Compile.Entered.member {x : Sources} {s : Session} {looked inner : List String}
    (h : Entered x x.unit.name {} s looked inner) {e : String × Bytes} (he : e ∈ s.outputs) :
    x.Member e.1 := by
  have hpost : PostOrder x.next [] [x.unit.name] s.visited (inner ++ [x.unit.name]) :=
    .enter (by simp) h.post .nil
  rw [h.outputs] at he
  obtain ⟨n, hn, hc⟩ := List.mem_filterMap.mp he
  rw [← x.fst_of_compiled? hc]
  exact (hpost.mem_iff_reachable n).mp hn

/-- A compile adds valid names to a capture. -/
theorem outputs_valid {s : Registry.Site} (hv : s.registry.capture.outputs.Valid)
    (unit : NamedUnit) : (Registry.Work.compiled compiler unit s).2.outputs.Valid := by
  unfold Registry.Work.compiled Capture.dialogue
  dsimp only
  cases unit.readText s.host.disk with
  | error e => exact hv
  | ok text =>
    obtain ⟨a, looked, inner, hw, hr⟩ :=
      run_captured s.registry.capture s.host.disk unit text s.host.disk rfl
    rw [hr _ List.mem_cons_self]
    refine hv.insertAll fun e he => valid_of_member (Compile.Entered.member hw ?_)
    unfold Session.writes at he
    split at he
    · exact absurd he List.not_mem_nil
    · exact he

end Lua

namespace Cache

variable {κ η : Type} {name text : String}

/-- A name that is not valid is neither staged nor compiled. -/
theorem run_compileSource_invalid (hn : UnitName.isValid name = false) (t : Toolchain)
    (w : Workbench κ) :
    (compileSource t name text).run w = (.error (.invalidUnitName name), w) := by
  have hnew (source : UnitSource) : NamedUnit.new name source = .error (.invalidUnitName name) := by
    simp [NamedUnit.new, hn]
  have hs : (w.cache.stage name text).run w.host = (.error (.invalidUnitName name), w.host) := by
    unfold stage
    cases w.cache.sourceRoot with
    | none =>
      simp only [NamedUnit.ofText, hnew]
      rfl
    | some root =>
      simp only [NamedUnit.ofFile, hnew]
      rfl
  rw [run_compileSource_refused hs]

/-- A compile leaves valid names captured, and answers with them. -/
theorem compileSource_valid {w w₁ : Workbench κ} {r : Except Error CompileResult}
    (hv : w.cache.registry.capture.outputs.Valid)
    (hr : (compileSource Lua.compiler name text).run w = (r, w₁)) :
    w₁.cache.registry.capture.outputs.Valid ∧ ∀ a, r = .ok a → a.artifacts.Valid := by
  rcases hs : (w.cache.stage name text).run w.host with ⟨e | unit, h⟩
  · rw [run_compileSource_refused hs] at hr
    cases hr
    exact ⟨hv, fun a ha => nomatch ha⟩
  · rw [run_compileSource_staged hs] at hr
    cases hr
    have ho := Lua.outputs_valid (s := ⟨h, w.cache.registry⟩) hv unit
    refine ⟨ho, fun a ha => ?_⟩
    cases ha
    exact ho

/-- Whatever a load does, it does with valid names. -/
theorem dealings_valid {s : Station} (hv : s.outputs.Valid) (k : ContextKind κ η) (context : κ)
    {x : Dealing} (hx : x ∈ dealings Lua.compiler k name text (s.bench context)) :
    UnitName.isValid x.artifact.1 = true := by
  cases hc : compiling Lua.compiler name text s with
  | error e =>
    rw [(load_error hc).2] at hx
    exact absurd hx List.not_mem_nil
  | ok found =>
    obtain ⟨ds, new⟩ := found
    obtain ⟨w, hr, -, ho⟩ := run_compileSource_ok context hc
    have hall := (compileSource_valid hv hr).1
    rw [ho] at hall
    exact hall _ (by simp [NameMap.contains, load_deals hc x hx])

def Operation.Uses (t : Toolchain) : Operation → Prop
  | .compile u .. => u = t
  | .load u .. => u = t
  | .loadFrom u .. => u = t
  | .grow u _ => u = t
  | .reset u => u = t
  | .clear => True
  | .close => True
  | .change _ => True

/-- Each operation leaves valid names captured. -/
theorem perform_valid {s : Station} (hv : s.outputs.Valid) {op : Operation}
    (hop : op.Uses Lua.compiler) : (perform s op).outputs.Valid := by
  cases op with
  | compile t name text =>
    cases hop
    exact (compileSource_valid (w := s.bench ()) hv rfl).1
  | _ =>
    rw [outputs_perform]
    split
    · exact .empty
    · exact hv

/-- Only valid names circulate, whatever names and texts are given and whatever others do to the
file tree. After any operations of a cache for Lua the names of all that is captured are valid, and
so are those of what any compile then answers with and of what any load then persists and injects. A
compile under a name that is not valid is refused and changes nothing. -/
theorem names_valid {config : Config} {h h' : Host} {c : Cache}
    (hn : (Cache.new Lua.compiler config).run h = (.ok c, h')) {ops : List Operation}
    (hops : ∀ op ∈ ops, op.Uses Lua.compiler) :
    let s := after ⟨h', c⟩ ops
    s.outputs.Valid ∧
      ∀ {κ η : Type} (k : ContextKind κ η) (context : κ) (name text location : String),
        let w := s.bench context
        (∀ r, ((compileSource Lua.compiler name text).run w).1 = .ok r → r.artifacts.Valid) ∧
        (∀ x ∈ dealings Lua.compiler k name text w, UnitName.isValid x.artifact.1 = true) ∧
        (∀ x ∈ dealingsFrom Lua.compiler k name location w,
          UnitName.isValid x.artifact.1 = true) ∧
        (UnitName.isValid name = false →
          (compileSource Lua.compiler name text).run w = (.error (.invalidUnitName name), w)) := by
  intro s
  have hv : s.outputs.Valid := by
    induction ops with
    | nil =>
      change NameMap.Valid (Station.outputs ⟨h', c⟩)
      rw [outputs_new hn]
      exact .empty
    | cons op ops ih =>
      exact perform_valid (ih fun op hop => hops op (List.mem_cons_of_mem _ hop))
        (hops op List.mem_cons_self)
  refine ⟨hv, fun k context name text location => ⟨fun r hr => ?_, fun x hx => ?_, fun x hx => ?_,
    fun hi => run_compileSource_invalid hi _ _⟩⟩
  · exact (compileSource_valid (w := s.bench context) hv rfl).2 r hr
  · exact dealings_valid hv k context hx
  · unfold dealingsFrom at hx
    split at hx
    · exact dealings_valid hv k context hx
    · exact absurd hx List.not_mem_nil

/-- A unit is captured, one that requires a path is not, and neither is one that is named by it. -/
theorem names_valid_paths :
    let c : Cache := ⟨⟨[], { classpath := ⟨[], none, false⟩ }, 0⟩, { providers := [] }, none, none⟩
    let s := after ⟨⟨{}, []⟩, c⟩ [.compile Lua.compiler "../c" "return 1",
      .compile Lua.compiler "b" "require '../c'", .compile Lua.compiler "a" "return 1"]
    let w : Workbench (List (String × Bytes)) := s.bench []
    s.outputs.names = ["a"] ∧ s.outputs.Valid ∧
      (compileSource Lua.compiler "../c" "return 1").run w = (.error (.invalidUnitName "../c"), w) := by
  intro c s w
  have hn : (Cache.new Lua.compiler {}).run ⟨{}, []⟩ = (.ok c, ⟨{}, []⟩) := rfl
  have ho : s.outputs.names = ["a"] := by decide +kernel
  have hops : ∀ op ∈ [.compile Lua.compiler "../c" "return 1",
      .compile Lua.compiler "b" "require '../c'", .compile Lua.compiler "a" "return 1"],
      Operation.Uses Lua.compiler op := by
    simp [Operation.Uses]
  obtain ⟨hv, hall⟩ := names_valid hn hops
  exact ⟨ho, hv, (hall listing [] "../c" "return 1" "").2.2.2 (by decide)⟩

end Cache
end UnitCache
