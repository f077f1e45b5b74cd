import UnitCache.Lua.Context
import UnitCache.Proofs.LuaRequire
import UnitCache.Proofs.Utf8

namespace UnitCache.Lua

namespace Context

variable {m m' : Machine} {a package : Nat} {key name : String} {bytes : Bytes}

/-- A field that a table has itself is read without running anything. -/
theorem field_present (h : (m.world.table a).getText key ≠ .nil) :
    ∃ m', field (.table a) key m = (.ok ((m.world.table a).getText key), m') ∧ m'.world = m.world := by
  unfold field plainTable?
  simp only
  split
  · rename_i b hb
    split at hb
    · cases hb
      exact ⟨m, rfl, rfl⟩
    · cases hb
  · let idle : Machine := { m with stack := [], waiting := [] }
    have hask := (Operation.asks_index h none).bind_done (k := 0)
      (g := fun v => pure [v]) (.here _)
    have hrun := (Machine.Steps.carry Standard.library idle hask .library).trans
      (.one rfl)
    have hdone := hrun.run (Machine.patience - 2)
    have hperform : perform (do return [← Operation.index (.table a) (.text key) none]) m =
        outcome (Machine.run Standard.library (Machine.patience - 2 + (1 + 0 + 1)) idle
          (.carry .library (do return [← Operation.index (.table a) (.text key) none]))) := rfl
    refine ⟨idle, ?_, rfl⟩
    rw [hperform, hdone]
    rfl

/-- A table that has no metatable has what it has. -/
theorem field_plain (h : (m.world.table a).metatable = none) (key : String) :
    field (.table a) key m = (.ok ((m.world.table a).getText key), m) := by
  simp only [field, plainTable?, h, Option.isNone_none, if_true]

/-- The table of loaders, and that of loaded modules, are where they were at the start. -/
theorem run_packageTable (ht : m.world.PackageTables package)
    (ha : (m.world.table package).getText key = .table a) :
    ∃ m', packageTable key m = (.ok (.table a), m') ∧ m'.world = m.world := by
  have hpresent : (m.world.table m.world.globals).getText "package" ≠ .nil := by simp [ht.named]
  obtain ⟨m₁, hf, hw⟩ := field_present hpresent
  have hplain : (m₁.world.table package).metatable = none := hw ▸ ht.plain
  refine ⟨m₁, ?_, hw⟩
  rw [packageTable, tableField, globals, hf, ht.named]
  simp only [andThen]
  rw [tableField, field_plain hplain, hw, ha]
  rfl

theorem isDefinedIn_eq (ht : m.world.PackageTables package)
    (ha : (m.world.table package).getText key = .table a) (hp : (m.world.table a).metatable = none)
    (name : String) : isDefinedIn key m name = decide ((m.world.table a).getText name ≠ .nil) := by
  obtain ⟨m₁, hr, hw⟩ := run_packageTable ht ha
  rw [isDefinedIn, hr]
  simp only [andThen]
  rw [field_plain (hw ▸ hp), hw]

/-- What is defined has a loader or is loaded. -/
theorem isDefined_iff (ht : m.world.PackageTables package) (name : String) :
    isDefined m name = true ↔ (m.world.table m.world.preload).getText name ≠ .nil ∨
      (m.world.table m.world.loaded).getText name ≠ .nil := by
  rw [isDefined, isDefinedIn_eq ht ht.preload ht.preload_plain,
    isDefinedIn_eq ht ht.loaded ht.loaded_plain, Bool.or_eq_true, decide_eq_true_iff,
    decide_eq_true_iff]

end Context

theorem World.table_alterTable {w : World} {a : Nat} (h : a < w.tables.size) (f : Table → Table) :
    (w.alterTable a f).table a = f (w.table a) := by
  rw [World.table, World.table, World.alterTable, Array.getElem?_modify, if_pos rfl,
    Array.getElem?_eq_getElem h]
  rfl

/-- A world with a loader more than another, and nothing else that could be told from inside. -/
structure World.Injected (name : String) (w w' : World) : Prop where
  globals : w'.globals = w.globals
  loaded : w'.loaded = w.loaded
  preload : w'.preload = w.preload
  functions : ∀ (f : Nat) (c : Callable), w.functions[f]? = some c → w'.functions[f]? = some c
  tables : ∃ f, w'.tables = w.tables.modify w.preload (·.setText name (.function f))

namespace World.Injected

variable {w w' : World} {name : String} {package : Nat}

theorem table_of_ne (h : Injected name w w') {a : Nat} (ha : a ≠ w.preload) :
    w'.table a = w.table a := by
  obtain ⟨f, hf⟩ := h.tables
  rw [World.table, World.table, hf, Array.getElem?_modify, if_neg (Ne.symm ha)]

theorem table_preload (h : Injected name w w') (hs : w.preload < w.tables.size) :
    ∃ f, w'.table w'.preload = (w.table w.preload).setText name (.function f) := by
  obtain ⟨f, hf⟩ := h.tables
  refine ⟨f, ?_⟩
  have htable : w'.table w.preload = (w.alterTable w.preload (·.setText name (.function f))).table
      w.preload := by
    rw [World.table, hf]
    rfl
  rw [h.preload, htable, World.table_alterTable hs]

theorem table_loaded (h : Injected name w w') (ht : w.PackageTables package) :
    w'.table w'.loaded = w.table w.loaded := by
  rw [h.loaded]
  exact h.table_of_ne (Ne.symm ht.apart.2.2)

theorem packageTables (h : Injected name w w') (ht : w.PackageTables package) :
    w'.PackageTables package := by
  obtain ⟨f, hf⟩ := h.table_preload ht.stands
  have hpackage := h.table_of_ne (Ne.symm ht.apart.2.1)
  have hput := Table.set_putting (w.table w.preload) (Utf8.encode name) (.function f)
  obtain ⟨f', htables⟩ := h.tables
  constructor
  · rw [h.globals, h.table_of_ne (Ne.symm ht.apart.1)]
    exact ht.named
  · rw [hpackage]
    exact ht.plain
  · rw [hpackage, h.preload]
    exact ht.preload
  · rw [hf]
    exact hput.metatable.trans ht.preload_plain
  · rw [hpackage, h.loaded]
    exact ht.loaded
  · rw [h.table_loaded ht]
    exact ht.loaded_plain
  · rw [h.preload, h.globals, h.loaded]
    exact ht.apart
  · rw [h.preload, htables, Array.size_modify]
    exact ht.stands

theorem distinct (h : Injected name w w') (ht : w.PackageTables package)
    (hd : (w.table w.preload).Distinct) : (w'.table w'.preload).Distinct := by
  obtain ⟨f, hf⟩ := h.table_preload ht.stands
  rw [hf]
  exact (Table.set_putting (w.table w.preload) (Utf8.encode name) (.function f)).distinct hd

theorem moduleTables (h : Injected name w w') (ht : w.ModuleTables package) :
    w'.ModuleTables package := by
  have hp := h.packageTables ht.packageTables
  refine ⟨hp.named, hp.plain, hp.preload, hp.preload_plain, hp.loaded, hp.loaded_plain, hp.apart,
    hp.stands, h.distinct ht.packageTables ht.distinct, ?_⟩
  rw [h.table_loaded ht.packageTables]
  exact ht.standard

theorem getText_self (h : Injected name w w') (ht : w.PackageTables package) :
    ∃ f, (w'.table w'.preload).getText name = .function f := by
  obtain ⟨f, hf⟩ := h.table_preload ht.stands
  refine ⟨f, ?_⟩
  rw [hf]
  exact (Table.set_putting _ (Utf8.encode name) _).get_self

theorem encode_ne {n name : String} (hn : n ≠ name) : Utf8.encode n ≠ Utf8.encode name := by
  intro he
  apply hn
  rw [← Utf8.decodeLossy_encode n, he, Utf8.decodeLossy_encode]

/-- A loader that is there stays. -/
theorem getText_kept (h : Injected name w w') (ht : w.PackageTables package) {n : String}
    (hn : n ≠ name) (hloader : (w.table w.preload).getText n ≠ .nil) :
    (w'.table w'.preload).getText n = (w.table w.preload).getText n := by
  obtain ⟨f, hf⟩ := h.table_preload ht.stands
  rw [hf]
  exact (Table.set_putting _ (Utf8.encode name) _).get_kept (encode_ne hn) hloader

theorem getText_of_ne (h : Injected name w w') (ht : w.PackageTables package)
    (hd : (w.table w.preload).Distinct) {n : String} (hn : n ≠ name) :
    (w'.table w'.preload).getText n = (w.table w.preload).getText n := by
  obtain ⟨f, hf⟩ := h.table_preload ht.stands
  rw [hf]
  exact (Table.set_putting _ (Utf8.encode name) _).get_of_ne hd (encode_ne hn)

/-- What could be required still can, and what was injected can. -/
theorem canRequire_iff (h : Injected name w w') (ht : w.ModuleTables package) (n : String) :
    w'.CanRequire n ↔ w.CanRequire n ∨ n = name := by
  by_cases hn : n = name
  · simp only [hn, or_true, iff_true]
    exact .inr (h.getText_self ht.packageTables)
  · rw [World.CanRequire, World.CanRequire, h.table_loaded ht.packageTables,
      h.getText_of_ne ht.packageTables ht.distinct hn]
    simp [hn]

theorem standardRequire {require : Nat} (h : Injected name w w') (ht : w.ModuleTables package)
    (hr : w.StandardRequire package require) : w'.StandardRequire package require := by
  obtain ⟨list, search, captured, hs, hne, hfirst, hsearch⟩ := hr.searchers
  refine ⟨h.functions _ _ hr.function, list, search, captured, ?_, ?_, ?_, h.functions _ _ hsearch⟩
  · rw [h.table_of_ne (Ne.symm ht.apart.2.1)]
    exact hs
  · rw [h.preload]
    exact hne
  · rw [h.table_of_ne hne]
    exact hfirst

end World.Injected

namespace Context

variable {m m' : Machine} {package : Nat} {name : String} {bytes : Bytes}

theorem install_packageTables (ht : m.world.PackageTables package) (c : Chunk) (f : Function) :
    (install c f m).2.world.PackageTables package :=
  ⟨ht.named, ht.plain, ht.preload, ht.preload_plain, ht.loaded, ht.loaded_plain, ht.apart, ht.stands⟩

theorem load_error {e : Error} (h : load name bytes = .error e) : ∃ cause, e = .lua cause := by
  unfold load at h
  dsimp only at h
  split at h
  · cases h
    exact ⟨_, rfl⟩
  · split at h
    · cases h
      exact ⟨_, rfl⟩
    · split at h
      · cases h
        exact ⟨_, rfl⟩
      · split at h
        · cases h
        · cases h
          exact ⟨_, rfl⟩

/-- What an injection does with a name that is not defined: it makes a function of the artifact, and
that the loader of the name, unless the artifact is refused. -/
theorem inject_fresh (ht : m.world.PackageTables package) (hd : isDefined m name = false)
    (bytes : Bytes) :
    (∃ e, load name bytes = .error e ∧ inject name bytes m = (.error e, m)) ∨
      ∃ c f m', load name bytes = .ok (c, f) ∧ inject name bytes m = (.ok (), m') ∧
        m'.world = (install c f m).2.world.alterTable m.world.preload
          (·.setText name (install c f m).1) := by
  rw [inject, if_neg (by simp [hd])]
  cases hl : load name bytes with
  | error e => exact .inl ⟨e, rfl, rfl⟩
  | ok loaded =>
    obtain ⟨c, f⟩ := loaded
    right
    have ht₁ := install_packageTables ht c f
    obtain ⟨m₁, hr, hw⟩ := run_packageTable ht₁ ht₁.preload
    have hplain : plainTable? m₁.world (.table (install c f m).2.world.preload) =
        some (install c f m).2.world.preload := by
      rw [plainTable?, hw, ht₁.preload_plain]
      rfl
    let after := m₁.world.alterTable (install c f m).2.world.preload
      (·.setText name (install c f m).1)
    refine ⟨c, f, { m₁ with world := after }, rfl, ?_, by simp only [after, hw]; rfl⟩
    simp only
    rw [hr, andThen, setField, hplain]

/-- An injection that goes well is of a name that was not defined, and adds its loader. -/
theorem inject_ok (ht : m.world.PackageTables package) (h : inject name bytes m = (.ok (), m')) :
    isDefined m name = false ∧ m.world.Injected name m'.world := by
  have hd : isDefined m name = false := by
    unfold inject at h
    split at h
    · cases h
    · simpa using ‹¬isDefined m name = true›
  refine ⟨hd, ?_⟩
  obtain ⟨e, -, he⟩ | ⟨c, f, m₁, -, hok, hw⟩ := inject_fresh ht hd bytes
  · rw [he] at h
    cases h
  · rw [hok] at h
    obtain rfl := (Prod.mk.inj h).2
    constructor
    all_goals rw [hw]
    · rfl
    · rfl
    · rfl
    · intro g old hg
      obtain ⟨hlt, -⟩ := Array.getElem?_eq_some_iff.mp hg
      refine Array.getElem?_push.trans ?_
      rw [if_neg (Nat.ne_of_lt hlt)]
      exact hg
    · exact ⟨_, rfl⟩

/-- An injection leaves the tables at their places. It defines its name, and what was defined is. -/
theorem isDefined_inject (ht : m.world.PackageTables package)
    (h : inject name bytes m = (.ok (), m')) : m'.world.PackageTables package ∧
      isDefined m' name = true ∧ ∀ n, isDefined m n = true → isDefined m' n = true := by
  obtain ⟨-, hinj⟩ := inject_ok ht h
  have ht' := hinj.packageTables ht
  have hself : isDefined m' name = true := by
    obtain ⟨f, hf⟩ := hinj.getText_self ht
    rw [isDefined_iff ht', hf]
    simp
  refine ⟨ht', hself, fun n hn => ?_⟩
  by_cases hname : n = name
  · rw [hname]
    exact hself
  · rw [isDefined_iff ht] at hn
    rw [isDefined_iff ht', hinj.table_loaded ht]
    apply hn.imp_left
    intro hloader
    rw [hinj.getText_kept ht hname hloader]
    exact hloader

end Context
end UnitCache.Lua
