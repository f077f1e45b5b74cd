import UnitCache.Proofs.LuaArtifacts
import UnitCache.Proofs.LuaContexts
import UnitCache.Proofs.StoreWrites

namespace UnitCache

def Error.IsOther (e : Error) : Prop := ∀ name ds produced, e ≠ .unitNotFound name ds produced

def FailsOtherwise {σ α : Type} (x : ExceptT Error (StateM σ) α) : Prop :=
  ∀ s e, (x.run s).1 = .error e → e.IsOther

namespace FailsOtherwise

section

variable {σ α β : Type} {x : ExceptT Error (StateM σ) α}

theorem bind {f : α → ExceptT Error (StateM σ) β} (hx : FailsOtherwise x)
    (hf : ∀ a, FailsOtherwise (f a)) : FailsOtherwise (x >>= f) := by
  intro s e h
  rcases hr : x.run s with ⟨e' | a, s₁⟩
  · rw [run_bind_error hr] at h
    obtain rfl := Except.error.inj h
    exact hx s e' (by rw [hr])
  · rw [run_bind_ok hr] at h
    exact hf a s₁ e h

theorem safe (hx : ∀ s, ∃ a, (x.run s).1 = .ok a) : FailsOtherwise x := by
  intro s e h
  obtain ⟨a, ha⟩ := hx s
  rw [h] at ha
  cases ha

theorem get_bind {f : σ → ExceptT Error (StateM σ) α} (hf : ∀ s, FailsOtherwise (f s)) :
    FailsOtherwise (get >>= f) := by
  intro s e h
  rw [run_bind_ok (rfl : (get : ExceptT Error (StateM σ) σ).run s = (.ok s, s))] at h
  exact hf s s e h

theorem pure (a : α) : FailsOtherwise (pure a : ExceptT Error (StateM σ) α) :=
  safe fun _ => ⟨a, rfl⟩

theorem throw {e : Error} (he : e.IsOther) :
    FailsOtherwise (throw e : ExceptT Error (StateM σ) α) := by
  intro s e' h
  cases h
  exact he

theorem forM {f : α → ExceptT Error (StateM σ) PUnit} (hf : ∀ a, FailsOtherwise (f a))
    (as : List α) : FailsOtherwise (as.forM f) := by
  induction as with
  | nil => exact pure _
  | cons a as ih => exact (hf a).bind fun _ => ih

end

section

variable {α : Type} (p : Path)

theorem report (r : LogRecord) : FailsOtherwise (Action.report r) := safe fun _ => ⟨(), rfl⟩

theorem setDisk (d : Disk) : FailsOtherwise (Action.setDisk d) := safe fun _ => ⟨(), rfl⟩

theorem ask (f : Disk → α) : FailsOtherwise (Action.ask f) := safe fun h => ⟨f h.disk, rfl⟩

theorem orFail {blame : Fault → Error} (hblame : ∀ f, (blame f).IsOther) (r : Except Fault α) :
    FailsOtherwise (Action.orFail blame r) := by
  cases r with
  | ok a => exact pure a
  | error f => exact throw (hblame f)

theorem io (f : Fault) : (Error.io p f).IsOther := by
  intro name ds produced h
  cases h

theorem reading (f : Disk → Except Fault α) : FailsOtherwise (Action.reading p f) :=
  get_bind fun h => orFail (io p) (f h.disk)

theorem changing (f : Disk → Except Fault Disk) : FailsOtherwise (Action.changing p f) :=
  get_bind fun h => (orFail (io p) (f h.disk)).bind setDisk

theorem makeDirectories {blame : Fault → Error} (hblame : ∀ f, (blame f).IsOther) :
    FailsOtherwise (Action.makeDirectories p blame) := by
  apply get_bind
  intro h
  exact (setDisk _).bind fun _ => orFail hblame _

theorem takeBack (backup : Option Path) : FailsOtherwise (Store.takeBack p backup) := by
  cases backup with
  | none => exact pure ()
  | some b =>
    apply get_bind
    intro h
    cases h.disk.rename b p with
    | ok d => exact setDisk d
    | error f => exact report _

theorem undoWrite (fault : Fault) (backup : Option Path) :
    FailsOtherwise (Store.undoWrite p fault backup) := by
  have hback := takeBack p backup
  apply (report _).bind
  intro _
  apply get_bind
  intro h
  cases h.disk.remove p with
  | ok d => exact (setDisk d).bind fun _ => hback
  | error f =>
    cases f with
    | notFound => exact hback
    | _ => exact (report _).bind fun _ => hback

theorem putContent (content : Bytes) (backup : Option Path) :
    FailsOtherwise (Store.putContent p content backup) := by
  apply get_bind
  intro h
  cases h.disk.write p content with
  | ok d => exact (setDisk d).bind fun _ => pure true
  | error f => exact (undoWrite p f backup).bind fun _ => throw (io p f)

theorem writeReady (content : Bytes) : FailsOtherwise (Store.writeReady p content) := by
  apply (ask _).bind
  intro present
  cases present with
  | false => exact putContent p content none
  | true =>
    apply (reading p _).bind
    intro old
    by_cases ho : old = content
    · simp only [ho, if_true]
      exact pure false
    · simp only [ho, if_false]
      exact (changing _ _).bind fun _ => putContent p content _

/-- A write fails with what the file tree says, or for a directory that cannot be made. -/
theorem writeBytes (content : Bytes) : FailsOtherwise (Store.writeBytes p content) := by
  apply (ask _).bind
  intro present
  cases present with
  | true => exact writeReady p content
  | false =>
    have hmake : FailsOtherwise (Action.makeDirectories (Store.directoryOf p) fun f => .configuration
        ("unable to create directory " ++ (Store.directoryOf p).text ++ ": " ++ f.message)) :=
      makeDirectories _ fun _ _ _ _ h => by cases h
    exact hmake.bind fun _ => writeReady p content

end

section

variable {κ α : Type}

theorem new (name : String) (source : UnitSource) :
    FailsOtherwise (MonadExcept.ofExcept (NamedUnit.new name source) : Action NamedUnit) := by
  unfold NamedUnit.new
  split
  · exact pure _
  · apply throw
    intro _ _ _ h
    cases h

theorem stage (c : Cache) (name text : String) : FailsOtherwise (c.stage name text) := by
  unfold Cache.stage
  cases c.sourceRoot with
  | none => exact new name _
  | some root => exact (new name _).bind fun unit => (writeBytes _ _).bind fun _ => pure unit

theorem act {a : Action α} (ha : FailsOtherwise a) : FailsOtherwise (Task.act a : Task κ α) := by
  intro w e h
  rw [Task.run_act] at h
  exact ha w.host e h

theorem compileSource (t : Toolchain) (name text : String) :
    FailsOtherwise (Cache.compileSource t name text : Task κ CompileResult) := by
  intro w e h
  rcases hs : (w.cache.stage name text).run w.host with ⟨e' | unit, h'⟩
  · rw [Cache.run_compileSource_refused hs] at h
    obtain rfl := Except.error.inj h
    exact stage w.cache name text w.host e' (by rw [hs])
  · rw [Cache.run_compileSource_staged hs] at h
    cases h

theorem persist (root : Path) (name : String) (bytes : Bytes) :
    FailsOtherwise (Cache.persist root name bytes : Task κ Unit) := by
  apply act
  apply (writeBytes _ _).bind
  intro changed
  cases changed with
  | true => exact report _
  | false => exact pure _

theorem keepAll {keep : Path → String → Bytes → Task κ Unit}
    (hkeep : ∀ root name bytes, FailsOtherwise (keep root name bytes)) (as : List (String × Bytes)) :
    FailsOtherwise (Cache.keepAll keep as) := by
  apply get_bind
  intro w
  cases w.cache.persistenceRoot? w.host.disk with
  | none => exact pure ()
  | some root => exact forM (fun a => hkeep root a.1 a.2) as

end

section

variable {κ η : Type} {k : ContextKind κ η}
  (hk : ∀ name bytes c e, (k.inject name bytes c).1 = .error e → e.IsOther)

include hk

theorem inject (name : String) (bytes : Bytes) : FailsOtherwise (Cache.inject k name bytes) := by
  intro w e h
  exact hk name bytes w.context e h

theorem injectMissing (as : List (String × Bytes)) : FailsOtherwise (Cache.injectMissing k as) := by
  induction as with
  | nil => exact pure ()
  | cons a as ih =>
    apply get_bind
    intro w
    cases k.isDefined w.context a.1 with
    | true => exact ih
    | false => exact (inject hk a.1 a.2).bind fun _ => ih

/-- A delivery that fails for a missing unit has no artifact for its own unit. -/
theorem deliver {r : CompileResult} (hunit : r.contains r.unit = true) :
    FailsOtherwise (Cache.deliver Cache.persist k r) := by
  obtain ⟨bytes, hb⟩ := Option.isSome_iff_exists.mp hunit
  unfold Cache.deliver
  rw [hb]
  apply (keepAll persist r.artifacts.entries).bind
  intro _
  exact (inject hk r.unit bytes).bind fun _ => injectMissing hk _

end

end FailsOtherwise

namespace Lua.Context

variable {α β : Type}

def FailsAsLua (r : Except Error α × Machine) : Prop := ∀ e, r.1 = .error e → ∃ cause, e = .lua cause

theorem FailsAsLua.isOther {r : Except Error α × Machine} (h : FailsAsLua r) {e : Error}
    (he : r.1 = .error e) : e.IsOther := by
  obtain ⟨cause, rfl⟩ := h e he
  intro name ds produced hsame
  cases hsame

namespace FailsAsLua

variable {v : Value} {key : String} {m : Machine}

theorem andThen {r : Except Error α × Machine} {f : α → Machine → Except Error β × Machine}
    (hr : FailsAsLua r) (hf : ∀ a m, FailsAsLua (f a m)) : FailsAsLua (Context.andThen r f) := by
  obtain ⟨e | a, m⟩ := r
  · intro e' he
    obtain rfl := Except.error.inj he
    exact hr e rfl
  · exact hf a m

theorem outcome (r : Outcome × Machine) : FailsAsLua (Context.outcome r) := by
  obtain ⟨vs | e, m⟩ := r
  · intro e' he
    cases he
  · intro e' he
    obtain rfl := Except.error.inj he
    exact ⟨_, rfl⟩

theorem map {r : Except Error α × Machine} (hr : FailsAsLua r) (f : α → β) :
    FailsAsLua (r.1.map f, r.2) := by
  obtain ⟨e | a, m⟩ := r
  · intro e' he
    cases he
    exact hr e rfl
  · intro e' he
    cases he

theorem field (v : Value) (key : String) (m : Machine) : FailsAsLua (field v key m) := by
  unfold Context.field
  split
  · intro e he
    cases he
  · exact (outcome _).map _

theorem setField (v : Value) (key : String) (x : Value) (m : Machine) :
    FailsAsLua (setField v key x m) := by
  unfold Context.setField
  split
  · intro e he
    cases he
  · exact (outcome _).map _

theorem tableField (v : Value) (key : String) (m : Machine) : FailsAsLua (tableField v key m) := by
  apply (field v key m).andThen
  intro x m
  split
  · intro e he
    cases he
  · intro e he
    obtain rfl := Except.error.inj he
    exact ⟨_, rfl⟩

theorem packageTable (key : String) (m : Machine) : FailsAsLua (packageTable key m) :=
  (tableField _ _ m).andThen fun package m => tableField package key m

theorem callFunction (f : Value) (args : List Value) (m : Machine) :
    FailsAsLua (callFunction f args m) := by
  unfold Context.callFunction
  split
  · exact outcome _
  · intro e he
    obtain rfl := Except.error.inj he
    exact ⟨_, rfl⟩

end FailsAsLua

variable {name : String} {bytes : Bytes} {m : Machine} {e : Error}

/-- A machine refuses a duplicate, or fails as Lua does. -/
theorem inject_isOther (h : (inject name bytes m).1 = .error e) : e.IsOther := by
  unfold inject at h
  split at h
  · obtain rfl := Except.error.inj h
    intro _ _ _ hsame
    cases hsame
  · split at h
    · rename_i e' hl
      obtain rfl := Except.error.inj h
      obtain ⟨cause, rfl⟩ := load_error hl
      intro _ _ _ hsame
      cases hsame
    · exact ((FailsAsLua.packageTable _ _).andThen fun t m => FailsAsLua.setField t _ _ m).isOther h

/-- A unit that is defined is not missing. -/
theorem resolve_isOther (hd : isDefined m name = true) (h : (resolve name m).1 = .error e) :
    e.IsOther := by
  unfold resolve at h
  rw [hd] at h
  have hcall := (FailsAsLua.field (globals m) "require" m).andThen fun require m =>
    (FailsAsLua.callFunction require [.text name] m).andThen
      (f := fun vs m => (.ok (⟨name, Value.first vs⟩ : Loaded), m)) fun _ _ _ he => by cases he
  exact hcall.isOther h

end Lua.Context
end UnitCache
