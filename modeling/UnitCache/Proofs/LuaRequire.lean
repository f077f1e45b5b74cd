import UnitCache.Lua.Compiler
import UnitCache.Lua.Library
import UnitCache.Proofs.LuaTables

namespace UnitCache.Lua

inductive Routine.Asks {α : Type} (w : World) : Nat → Routine α → Routine α → Prop
  | here (r : Routine α) : Asks w 0 r r
  | look {n : Nat} {f : World → List Value × World} {next : List Value → Routine α} {r : Routine α}
      (same : (f w).2 = w) (rest : Asks w n (next (f w).1) r) : Asks w (n + 1) (.act f next) r

namespace Routine.Asks

variable {α β : Type} {w : World} {n k : Nat} {r r' r'' : Routine α} {g : α → Routine β} {a : α}

theorem trans (h : Asks w n r r') (h' : Asks w k r' r'') : Asks w (n + k) r r'' := by
  induction h with
  | here r => exact (Nat.zero_add k).symm ▸ h'
  | @look n f next r same rest ih => exact Nat.succ_add n k ▸ .look same (ih h')

theorem bind (h : Asks w n r r') (g : α → Routine β) : Asks w n (r.bind g) (r'.bind g) := by
  induction h with
  | here r => exact .here _
  | look same rest ih => exact .look same ih

/-- What a routine does with a value that it asks for. -/
theorem bind_done {s : Routine β} (h : Asks w n r (.done a)) (h' : Asks w k (g a) s) :
    Asks w (n + k) (r >>= g) s :=
  (h.bind g).trans h'

/-- A value that the world has. -/
theorem ask (f : World → Value) : Asks w 1 (Routine.ask f) (.done (f w)) := .look rfl (.here _)

end Routine.Asks

inductive Machine.Steps (lib : Library) : Nat → Machine × Control → Machine × Control → Prop
  | stop (s : Machine × Control) : Steps lib 0 s s
  | step {n : Nat} {m m' : Machine} {c c' : Control} {s : Machine × Control}
      (first : step lib m c = (m', .inl c')) (rest : Steps lib n (m', c') s) :
      Steps lib (n + 1) (m, c) s

namespace Machine.Steps

variable {lib : Library} {n k : Nat} {s s' s'' : Machine × Control} {m m' : Machine} {c c' : Control}

theorem trans (h : Steps lib n s s') (h' : Steps lib k s' s'') : Steps lib (n + k) s s'' := by
  induction h with
  | stop s => exact (Nat.zero_add k).symm ▸ h'
  | @step n m m' c c' s first rest ih => exact Nat.succ_add n k ▸ .step first (ih h')

theorem one (h : Machine.step lib m c = (m', .inl c')) : Steps lib 1 (m, c) (m', c') :=
  .step h (.stop _)

/-- A run with so many steps to spare goes on from the state that they lead to. -/
theorem run (h : Steps lib n (m, c) (m', c')) (k : Nat) :
    Machine.run lib (k + n) m c = Machine.run lib k m' c' := by
  generalize hs : (m, c) = s at h
  generalize hs' : (m', c') = s' at h
  induction h generalizing m c with
  | stop s =>
    cases hs
    cases hs'
    rfl
  | @step n m₁ m₂ c₁ c₂ s first rest ih =>
    cases hs
    rw [← Nat.add_assoc, Machine.run, first]
    exact ih rfl hs'

/-- A machine that carries out a routine goes on with it as it asks. -/
theorem carry (lib : Library) (m : Machine) {r r' : Routine (List Value)}
    (h : Routine.Asks m.world n r r') (runner : Runner) :
    Steps lib n (m, .carry runner r) (m, .carry runner r') := by
  generalize hw : m.world = w at h
  induction h with
  | here r => exact .stop _
  | @look n f next r same rest ih =>
    refine .step ?_ ih
    have hm : { m with world := (f m.world).2 } = m := by rw [hw, same, ← hw]
    rw [Machine.step, Machine.carry]
    dsimp only
    rw [hm, hw]

end Machine.Steps

namespace Operation

variable {w : World} {a : Nat}

/-- What a table has under a key is found without its metatable. -/
theorem asks_index {key : Value} (h : (w.table a).get key ≠ .nil) (name : Option CallName) :
    Routine.Asks w 1 (index (.table a) key name) (.done ((w.table a).get key)) := by
  refine .look rfl ?_
  simp only [Value.first, List.head?_cons, Option.getD_some]
  rw [Routine.bind, if_pos h]
  exact .here _

/-- A table that has no metatable has nothing else. -/
theorem asks_index_plain (h : (w.table a).metatable = none) (key : Value) (name : Option CallName) :
    ∃ n, Routine.Asks w n (index (.table a) key name) (.done ((w.table a).get key)) := by
  by_cases hk : (w.table a).get key = .nil
  · have hhandler : w.metafield (.table a) "__index" = .nil := by
      simp only [World.metafield, World.metatable?, h]
    refine ⟨2, .look rfl ?_⟩
    simp only [Value.first, List.head?_cons, Option.getD_some]
    rw [Routine.bind, if_neg (not_not_intro hk), hk]
    refine .look rfl ?_
    simp only [hhandler]
    exact .here _
  · exact ⟨1, asks_index hk name⟩

end Operation

/-- The tables where modules are looked up, at their places: plain, and with nothing under a text
twice. The modules of the standard library are loaded. -/
structure World.ModuleTables (w : World) (package : Nat) : Prop where
  named : (w.table w.globals).getText "package" = .table package
  plain : (w.table package).metatable = none
  preload : (w.table package).getText "preload" = .table w.preload
  preload_plain : (w.table w.preload).metatable = none
  loaded : (w.table package).getText "loaded" = .table w.loaded
  loaded_plain : (w.table w.loaded).metatable = none
  apart : w.preload ≠ w.globals ∧ w.preload ≠ package ∧ w.preload ≠ w.loaded
  stands : w.preload < w.tables.size
  distinct : (w.table w.preload).Distinct
  standard : ∀ name ∈ builtinModules, (w.table w.loaded).getText name ≠ .nil

structure World.PackageTables (w : World) (package : Nat) : Prop where
  named : (w.table w.globals).getText "package" = .table package
  plain : (w.table package).metatable = none
  preload : (w.table package).getText "preload" = .table w.preload
  preload_plain : (w.table w.preload).metatable = none
  loaded : (w.table package).getText "loaded" = .table w.loaded
  loaded_plain : (w.table w.loaded).metatable = none
  apart : w.preload ≠ w.globals ∧ w.preload ≠ package ∧ w.preload ≠ w.loaded
  stands : w.preload < w.tables.size

theorem World.ModuleTables.packageTables {w : World} {package : Nat} (h : w.ModuleTables package) :
    w.PackageTables package :=
  ⟨h.named, h.plain, h.preload, h.preload_plain, h.loaded, h.loaded_plain, h.apart, h.stands⟩

/-- A function that is `require` as it was at the start, and asks the loaders first. -/
structure World.StandardRequire (w : World) (package require : Nat) : Prop where
  function : w.functions[require]? = some (.native "require" [.table package])
  searchers : ∃ list search captured, (w.table package).getText "searchers" = .table list ∧
    list ≠ w.preload ∧ (w.table list).getNat 1 = .function search ∧
    w.functions[search]? = some (.native "package.search.preload" captured)

def World.CanRequire (w : World) (name : String) : Prop :=
  ((w.table w.loaded).getText name).isTrue = true ∨
    ∃ f, (w.table w.preload).getText name = .function f

namespace Modules

variable {w : World} {name : String}

theorem asks_bytes (w : World) (function : String) (bs : Bytes) (vs captured : List Value) :
    Routine.Asks w 0 (Arguments.bytes ⟨function, .string bs :: vs, captured⟩ 1) (.done bs) := .here _

/-- A module that is loaded is given. -/
theorem require_loaded (hp : (w.table w.loaded).metatable = none)
    (h : ((w.table w.loaded).getText name).isTrue = true) (captured : List Value) :
    ∃ n, Routine.Asks w n (require ⟨"require", [.text name], captured⟩)
      (.done [(w.table w.loaded).getText name]) := by
  obtain ⟨n, hn⟩ := Operation.asks_index_plain hp (.text name) none
  rw [require]
  refine ⟨_, (asks_bytes w ..).bind_done ((Routine.Asks.ask _).bind_done (hn.bind_done (k := 0) ?_))⟩
  rw [← Table.getText, if_pos h]
  exact .here _

/-- A searcher is called for a module, and a loader that it gives is what is found. -/
theorem findLoader_asks {list i search : Nat} (h : (w.table list).getNat i = .function search)
    (bs : Bytes) (said : List Bytes) (steps : Nat) :
    ∃ next, Routine.Asks w 1 (findLoader list bs said i (steps + 1))
        (.call (.function search) [.string bs] none next) ∧
      ∀ f extra, next [.function f, extra] = .done (.function f, extra) := by
  rw [findLoader]
  apply Exists.intro
  constructor
  · refine (Routine.Asks.ask _).bind_done (k := 0) ?_
    rw [h]
    exact .here _
  · exact fun f extra => rfl

/-- A module that is not loaded is asked of the first searcher, and a loader that it gives is
called. -/
theorem require_searches (hp : (w.table w.loaded).metatable = none)
    (h : ((w.table w.loaded).getText name).isTrue = false) {package list search : Nat}
    (hs : (w.table package).getText "searchers" = .table list)
    (hf : (w.table list).getNat 1 = .function search) :
    ∃ n next, Routine.Asks w n (require ⟨"require", [.text name], [.table package]⟩)
        (.call (.function search) [.text name] none next) ∧
      ∀ f extra, ∃ next', next [.function f, extra] =
        .call (.function f) [.text name, extra] none next' := by
  obtain ⟨n, hn⟩ := Operation.asks_index_plain hp (.text name) none
  obtain ⟨next, hnext, hgiven⟩ := findLoader_asks hf (Utf8.encode name) [] 999999
  have hsearchers : (w.table package).get (.text "searchers") = .table list := hs
  rw [require]
  apply Exists.intro
  apply Exists.intro
  constructor
  · refine (asks_bytes w _ _ _ _).bind_done ((Routine.Asks.ask _).bind_done (hn.bind_done (k := 1 + 1) ?_))
    rw [← Table.getText, if_neg (by simp [h])]
    refine (Operation.asks_index (by rw [hsearchers]; simp) none).bind_done ?_
    rw [hsearchers]
    exact hnext.bind _
  · exact fun f extra => ⟨_, congrArg (fun r => Routine.bind r _) (hgiven f extra)⟩

/-- The loader of a module is given by the searcher for it. -/
theorem searchPreload_asks {f : Nat} (h : (w.table w.preload).getText name = .function f)
    (captured : List Value) :
    Routine.Asks w 2 (searchPreload ⟨"package.search.preload", [.text name], captured⟩)
      (.done [.function f, .text ":preload:"]) := by
  have hget : (w.table w.preload).get (.string (Utf8.encode name)) = .function f := h
  rw [searchPreload]
  refine (asks_bytes w _ _ _ _).bind_done (k := 2) ((Routine.Asks.ask _).bind_done (k := 1) ?_)
  refine (Operation.asks_index (by rw [hget]; simp) none).bind_done (k := 0) ?_
  rw [hget]
  exact .here _

end Modules

namespace Machine

variable {lib : Library} {m : Machine} {f : Nat} {name : String} {args captured : List Value}
  {site : Site}

/-- Calling a library function that calls are not nested too deep for. -/
theorem Steps.call_native (lib : Library)
    (h : m.world.functions[f]? = some (.native name captured)) (args : List Value)
    (hd : site.depth ≤ maxDepth) (hn : site.nesting ≤ maxNesting) :
    Steps lib 1 (m, .call (.function f) args site)
      (m.push (.activation site), .carry .library (lib name captured args)) := by
  refine .one ?_
  rw [Machine.step, Machine.call, if_neg (Nat.not_lt.mpr hd), if_neg (Nat.not_lt.mpr hn)]
  have hm : (m.push (.activation site)).world.functions[f]? = some (.native name captured) := h
  simp only [hm]

/-- What a call gives goes to whom it was made for. -/
theorem Steps.finish (vs : List Value) :
    Steps lib 2 (m.push (.activation site), .carry .library (.done vs)) (m, .deliver vs) :=
  .step rfl (.one rfl)

inductive Requires (m : Machine) (require : Nat) (name : String) (site : Site) : Prop
  | given (n : Nat) (loaded : ((m.world.table m.world.loaded).getText name).isTrue = true)
      (steps : Steps Standard.library n (m, .call (.function require) [.text name] site)
        (m, .deliver [(m.world.table m.world.loaded).getText name]))
  | called (n f : Nat) (m' : Machine) (site' : Site)
      (loader : (m.world.table m.world.preload).getText name = .function f)
      (world : m'.world = m.world)
      (steps : Steps Standard.library n (m, .call (.function require) [.text name] site)
        (m', .call (.function f) [.text name, .text ":preload:"] site'))

/-- A module that can be required is. -/
theorem requires_of_canRequire {package require : Nat} (ht : m.world.ModuleTables package)
    (hr : m.world.StandardRequire package require) (hc : m.world.CanRequire name)
    (hd : site.depth < maxDepth) (hn : site.nesting < maxNesting) :
    m.Requires require name site := by
  let lib := Standard.library
  let called := m.push (.activation site)
  have henter := Steps.call_native lib hr.function [.text name] (Nat.le_of_lt hd) (Nat.le_of_lt hn)
  cases hl : ((m.world.table m.world.loaded).getText name).isTrue with
  | true =>
    obtain ⟨n, hn⟩ := Modules.require_loaded ht.loaded_plain hl [.table package]
    have hrun := Steps.carry lib called hn .library
    exact .given _ hl (henter.trans (hrun.trans (.finish _)))
  | false =>
    obtain ⟨f, hf⟩ := hc.resolve_left (by simp [hl])
    obtain ⟨list, search, captured, hs, -, hfirst, hsearch⟩ := hr.searchers
    obtain ⟨n, next, hask, hgives⟩ := Modules.require_searches ht.loaded_plain hl hs hfirst
    obtain ⟨next', hnext⟩ := hgives f (.text ":preload:")
    -- The searcher is called with one call more under way than `require`.
    let waiting := called.push (.answer .library next)
    let inner : Site := called.siteFor .library none
    have hdepth : inner.depth ≤ maxDepth := hd
    have hnesting : inner.nesting ≤ maxNesting := hn
    have hrun := Steps.carry lib called hask .library
    have hcall : Steps lib 1 (called, .carry .library (.call (.function search) [.text name] none next))
        (waiting, .call (.function search) [.text name] inner) := .one rfl
    have hsearching : Steps lib 1 (waiting, .call (.function search) [.text name] inner)
        (waiting.push (.activation inner),
          .carry .library (lib "package.search.preload" captured [.text name])) :=
      Steps.call_native (m := waiting) lib hsearch [.text name] hdepth hnesting
    have hfound := Steps.carry lib (waiting.push (.activation inner))
      (Modules.searchPreload_asks hf captured) .library
    have hanswer : Steps lib 1 (waiting, .deliver [.function f, .text ":preload:"])
        (called, .carry .library (next [.function f, .text ":preload:"])) := .one rfl
    rw [hnext] at hanswer
    have hload : Steps lib 1
        (called, .carry .library (.call (.function f) [.text name, .text ":preload:"] none next'))
        (called.push (.answer .library next'),
          .call (.function f) [.text name, .text ":preload:"] inner) := .one rfl
    exact .called _ f (called.push (.answer .library next')) inner hf rfl
      (henter.trans (hrun.trans (hcall.trans (hsearching.trans (hfound.trans
        ((Steps.finish _).trans (hanswer.trans hload)))))))

end Machine

end UnitCache.Lua
