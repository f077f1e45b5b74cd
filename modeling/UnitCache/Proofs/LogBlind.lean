import UnitCache.Proofs.LuaArtifacts
import UnitCache.Proofs.StoreWrites

namespace UnitCache

class HasLog (σ : Type) where
  withLog : σ → List LogRecord → σ

open HasLog (withLog)

instance : HasLog Host := ⟨fun h log => { h with log }⟩

instance {κ : Type} : HasLog (Workbench κ) := ⟨fun w log => { w with host := { w.host with log } }⟩

section

variable {σ α β : Type} [HasLog σ]

/-- An operation that adds to the log and does the same with any log. -/
def LogBlind (x : ExceptT Error (StateM σ) α) : Prop :=
  ∀ s, ∃ new, ∀ log, x.run (withLog s log) = ((x.run s).1, withLog (x.run s).2 (log ++ new))

namespace LogBlind

theorem bind {x : ExceptT Error (StateM σ) α} {f : α → ExceptT Error (StateM σ) β}
    (hx : LogBlind x) (hf : ∀ a, LogBlind (f a)) : LogBlind (x >>= f) := by
  intro s
  obtain ⟨new, hn⟩ := hx s
  rcases hr : x.run s with ⟨e | a, s'⟩ <;> rw [hr] at hn
  · refine ⟨new, fun log => ?_⟩
    rw [run_bind_error (hn log), run_bind_error hr]
  · obtain ⟨more, hm⟩ := hf a s'
    refine ⟨new ++ more, fun log => ?_⟩
    rw [run_bind_ok (hn log), run_bind_ok hr, hm, List.append_assoc]

/-- What neither reads the log nor adds to it. -/
theorem quiet {x : ExceptT Error (StateM σ) α}
    (h : ∀ s log, x.run (withLog s log) = ((x.run s).1, withLog (x.run s).2 log)) : LogBlind x :=
  fun s => ⟨[], fun log => by rw [List.append_nil, h]⟩

theorem pure (a : α) : LogBlind (pure a : ExceptT Error (StateM σ) α) := quiet fun _ _ => rfl

theorem throw (e : Error) : LogBlind (throw e : ExceptT Error (StateM σ) α) := quiet fun _ _ => rfl

/-- What goes on from the whole state must not look at the log. -/
theorem get_bind {f : σ → ExceptT Error (StateM σ) α} (hf : ∀ s, LogBlind (f s))
    (hs : ∀ s log, f (withLog s log) = f s) : LogBlind (get >>= f) := by
  intro s
  obtain ⟨new, hn⟩ := hf s s
  refine ⟨new, fun log => ?_⟩
  have hg (s : σ) : (get : ExceptT Error (StateM σ) σ).run s = (.ok s, s) := rfl
  rw [run_bind_ok (hg s), run_bind_ok (hg _), hs, hn]

theorem forM {f : α → ExceptT Error (StateM σ) PUnit} (hf : ∀ a, LogBlind (f a)) (as : List α) :
    LogBlind (as.forM f) := by
  induction as with
  | nil => exact quiet fun _ _ => rfl
  | cons a as ih => exact (hf a).bind fun _ => ih

end LogBlind
end

section

variable {α κ η : Type}

namespace LogBlind

theorem report (r : LogRecord) : LogBlind (Action.report r) := by
  refine fun h => ⟨[r], fun log => ?_⟩
  rfl

theorem setDisk (d : Disk) : LogBlind (Action.setDisk d) := quiet fun _ _ => rfl

theorem ask (f : Disk → α) : LogBlind (Action.ask f) := quiet fun _ _ => rfl

theorem reading (p : Path) (f : Disk → Except Fault α) : LogBlind (Action.reading p f) := by
  refine quiet fun h log => ?_
  rw [Action.run_reading, Action.run_reading]
  rfl

theorem changing (p : Path) (f : Disk → Except Fault Disk) : LogBlind (Action.changing p f) := by
  refine get_bind (fun h => ?_) fun _ _ => rfl
  cases f h.disk with
  | error e => exact throw _
  | ok d => exact setDisk d

theorem makeDirectories (p : Path) (blame : Fault → Error) :
    LogBlind (Action.makeDirectories p blame) := by
  refine quiet fun h log => ?_
  rw [Action.run_makeDirectories rfl, Action.run_makeDirectories rfl]
  rfl

theorem takeBack (p : Path) (backup : Option Path) : LogBlind (Store.takeBack p backup) := by
  cases backup with
  | none => exact pure ()
  | some b =>
    refine get_bind (fun h => ?_) fun _ _ => rfl
    cases h.disk.rename b p with
    | ok d => exact setDisk d
    | error f => exact report _

theorem undoWrite (p : Path) (fault : Fault) (backup : Option Path) :
    LogBlind (Store.undoWrite p fault backup) := by
  have hback := takeBack p backup
  refine (report _).bind fun _ => get_bind (fun h => ?_) fun _ _ => rfl
  cases h.disk.remove p with
  | ok d => exact (setDisk d).bind fun _ => hback
  | error f =>
    cases f with
    | notFound => exact hback
    | _ => exact (report _).bind fun _ => hback

theorem putContent (p : Path) (content : Bytes) (backup : Option Path) :
    LogBlind (Store.putContent p content backup) := by
  refine get_bind (fun h => ?_) fun _ _ => rfl
  cases h.disk.write p content with
  | ok d => exact (setDisk d).bind fun _ => pure true
  | error f => exact (undoWrite p f backup).bind fun _ => throw _

theorem writeBytes (p : Path) (content : Bytes) : LogBlind (Store.writeBytes p content) := by
  have hready : LogBlind (Store.writeReady p content) := by
    refine (ask _).bind fun present => ?_
    cases present with
    | false => exact putContent p content none
    | true =>
      refine (reading p _).bind fun old => ?_
      by_cases ho : old = content
      · simp only [ho, if_true]
        exact pure false
      · simp only [ho, if_false]
        exact (changing _ _).bind fun _ => putContent p content _
  refine (ask _).bind fun present => ?_
  cases present with
  | true => exact hready
  | false => exact (makeDirectories _ _).bind fun _ => hready

theorem stage (c : Cache) (name text : String) : LogBlind (c.stage name text) := by
  have hof (x : Except Error NamedUnit) : LogBlind (MonadExcept.ofExcept x : Action NamedUnit) := by
    cases x with
    | error e => exact throw e
    | ok unit => exact pure unit
  unfold Cache.stage
  cases c.sourceRoot with
  | none => exact hof _
  | some root => exact (hof _).bind fun unit => (writeBytes _ _).bind fun _ => pure unit

theorem act {a : Action α} (ha : LogBlind a) : LogBlind (Task.act a : Task κ α) := by
  intro w
  obtain ⟨new, hn⟩ := ha w.host
  refine ⟨new, fun log => ?_⟩
  have hw := hn log
  rw [Task.run_act, Task.run_act]
  rw [show (withLog w log).host = withLog w.host log from rfl, hw]
  rfl

theorem compileSource (t : Toolchain) (name text : String) :
    LogBlind (Cache.compileSource t name text : Task κ CompileResult) := by
  intro w
  obtain ⟨new, hn⟩ := stage w.cache name text w.host
  have hstage (log : List LogRecord) : ((withLog w log).cache.stage name text).run
      (withLog w log).host = (((w.cache.stage name text).run w.host).1,
        withLog ((w.cache.stage name text).run w.host).2 (log ++ new)) := hn log
  rcases hs : (w.cache.stage name text).run w.host with ⟨e | unit, h⟩
  · refine ⟨new, fun log => ?_⟩
    have hl := hstage log
    rw [hs] at hl
    rw [Cache.run_compileSource_refused hs, Cache.run_compileSource_refused hl]
    rfl
  · refine ⟨new ++ (Registry.Work.compiled t unit ⟨h, w.cache.registry⟩).1.map Diagnostic.record,
      fun log => ?_⟩
    have hl := hstage log
    rw [hs] at hl
    rw [Cache.run_compileSource_staged hs, Cache.run_compileSource_staged hl, ← List.append_assoc]
    rfl

theorem persist (root : Path) (name : String) (bytes : Bytes) :
    LogBlind (Cache.persist root name bytes : Task κ Unit) := by
  refine act ((writeBytes _ _).bind fun changed => ?_)
  cases changed with
  | true => exact report _
  | false => exact pure _

theorem inject (k : ContextKind κ η) (name : String) (bytes : Bytes) :
    LogBlind (Cache.inject k name bytes) := quiet fun _ _ => rfl

theorem injectMissing (k : ContextKind κ η) (as : List (String × Bytes)) :
    LogBlind (Cache.injectMissing k as) := by
  induction as with
  | nil => exact pure ()
  | cons a as ih =>
    refine get_bind (fun w => ?_) fun _ _ => rfl
    cases k.isDefined w.context a.1 with
    | true => exact ih
    | false => exact (inject k a.1 a.2).bind fun _ => ih

section

variable {keep : Path → String → Bytes → Task κ Unit}
  (hkeep : ∀ root name bytes, LogBlind (keep root name bytes))

include hkeep

theorem keepAll (as : List (String × Bytes)) : LogBlind (Cache.keepAll keep as) := by
  refine get_bind (fun w => ?_) fun _ _ => rfl
  cases w.cache.persistenceRoot? w.host.disk with
  | none => exact pure ()
  | some root => exact forM (fun a => hkeep root a.1 a.2) as

theorem deliver (k : ContextKind κ η) (r : CompileResult) : LogBlind (Cache.deliver keep k r) := by
  unfold Cache.deliver
  cases r.artifacts.get? r.unit with
  | none => exact throw _
  | some bytes =>
    refine (keepAll hkeep _).bind fun _ => ?_
    exact (inject k _ _).bind fun _ => injectMissing k _

/-- A load does the same with any log. -/
theorem loadWith (t : Toolchain) (k : ContextKind κ η) (name text : String) :
    LogBlind (Cache.loadWith keep t k name text) := by
  have hinstall : LogBlind (Task.outcome (Cache.compileSource t name text >>= Cache.deliver keep k)) := by
    intro w
    obtain ⟨new, hn⟩ := (compileSource t name text).bind (deliver hkeep k) w
    refine ⟨new, fun log => ?_⟩
    rw [Task.run_outcome, Task.run_outcome, hn]
  refine hinstall.bind fun installed => bind (quiet fun _ _ => rfl) fun _ => ?_
  cases installed with
  | error e => exact bind (throw e) fun _ => quiet fun _ _ => rfl
  | ok _ => exact bind (pure ()) fun _ => quiet fun _ _ => rfl

end

theorem persistWatched (root : Path) (name : String) (bytes : Bytes) :
    LogBlind (Cache.persistWatched root name bytes : Task (Watched κ) Unit) := by
  unfold Cache.persistWatched
  exact bind (quiet fun _ _ => rfl) fun _ => persist root name bytes

theorem loadFrom (t : Toolchain) (k : ContextKind κ η) (name location : String) :
    LogBlind (Cache.loadFrom t k name location) := by
  refine get_bind (fun w => ?_) fun _ _ => rfl
  cases w.cache.store.readText w.host.disk location with
  | error e => exact bind (throw e) fun _ => loadWith persist t k name _
  | ok text => exact bind (pure text) fun text => loadWith persist t k name text

end LogBlind
end
end UnitCache
