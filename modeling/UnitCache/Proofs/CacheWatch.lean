import UnitCache.Cache
import UnitCache.Proofs.Capture
import UnitCache.Proofs.Effects

namespace UnitCache

/-- Something done with an artifact, be it in vain. -/
inductive Dealing where
  | persisted (name : String) (bytes : Bytes)
  | injected (name : String) (bytes : Bytes)
  deriving DecidableEq, Repr

def Dealing.artifact : Dealing → String × Bytes
  | .persisted name bytes => (name, bytes)
  | .injected name bytes => (name, bytes)

structure Watched (κ : Type) where
  context : κ
  dealings : List Dealing := []

variable {κ η α β : Type}

def ContextKind.watched (k : ContextKind κ η) : ContextKind (Watched κ) η where
  isDefined c := k.isDefined c.context
  inject name bytes c :=
    let (r, context) := k.inject name bytes c.context
    (r, ⟨context, c.dealings ++ [.injected name bytes]⟩)
  resolve name s :=
    let (r, disk, context) := k.resolve name (s.1, s.2.context)
    (r, disk, ⟨context, s.2.dealings⟩)

namespace Workbench

def watch (w : Workbench κ) : Workbench (Watched κ) := ⟨w.host, w.cache, ⟨w.context, []⟩⟩

def forget (w : Workbench (Watched κ)) : Workbench κ := ⟨w.host, w.cache, w.context.context⟩

@[simp]
theorem forget_watch (w : Workbench κ) : w.watch.forget = w := rfl

def cleared (w : Workbench κ) : Workbench κ :=
  { w with cache := { w.cache with registry := w.cache.registry.clear } }

end Workbench

namespace Task

theorem run_get (w : Workbench κ) : (get : Task κ (Workbench κ)).run w = (.ok w, w) := rfl

theorem run_act (a : Action α) (w : Workbench κ) :
    (act a).run w = ((a.run w.host).1, { w with host := (a.run w.host).2 }) := rfl

theorem run_withRegistry (f : Registry.Work α) (w : Workbench κ) :
    (withRegistry f).run w = ((f.run ⟨w.host, w.cache.registry⟩).1,
      ⟨(f.run ⟨w.host, w.cache.registry⟩).2.host, { w.cache with
        registry := (f.run ⟨w.host, w.cache.registry⟩).2.registry }, w.context⟩) := rfl

theorem run_outcome (x : Task κ α) (w : Workbench κ) :
    (outcome x).run w = (.ok (x.run w).1, (x.run w).2) := rfl

end Task

namespace Cache

def note (x : Dealing) : Task (Watched κ) Unit := fun w =>
  (.ok (), { w with context := ⟨w.context.context, w.context.dealings ++ [x]⟩ })

def persistWatched (root : Path) (name : String) (bytes : Bytes) : Task (Watched κ) Unit := do
  note (.persisted name bytes)
  persist root name bytes

def dealings (t : Toolchain) (k : ContextKind κ η) (name text : String) (w : Workbench κ) :
    List Dealing :=
  ((loadWith persistWatched t k.watched name text).run w.watch).2.context.dealings

/-- A load ends as what it does before the clearing ends, or in the looking up of the unit. -/
theorem run_loadWith (keep : Path → String → Bytes → Task κ Unit) (t : Toolchain)
    (k : ContextKind κ η) (name text : String) (w : Workbench κ) :
    (loadWith keep t k name text).run w =
      match (compileSource t name text >>= deliver keep k).run w with
      | (.error e, w) => (.error e, w.cleared)
      | (.ok (), w) => (resolve k name).run w.cleared := by
  rcases hr : (compileSource t name text >>= deliver keep k).run w with ⟨r, w₁⟩
  have ho : (Task.outcome (compileSource t name text >>= deliver keep k)).run w = (.ok r, w₁) := by
    rw [Task.run_outcome, hr]
  have hc : (clear : Task κ Unit).run w₁ = (.ok (), w₁.cleared) := rfl
  rw [loadWith, run_bind_ok ho, run_bind_ok hc]
  cases r with
  | error e => exact run_bind_error rfl _
  | ok _ => exact run_bind_ok rfl _

def Follows (x : Task (Watched κ) α) (y : Task κ α) : Prop :=
  ∀ w, y.run w.forget = ((x.run w).1, (x.run w).2.forget)

namespace Follows

theorem bind {x : Task (Watched κ) α} {y : Task κ α} {f : α → Task (Watched κ) β}
    {g : α → Task κ β} (hx : Follows x y) (hf : ∀ a, Follows (f a) (g a)) :
    Follows (x >>= f) (y >>= g) := by
  intro w
  have hy := hx w
  rcases hr : x.run w with ⟨e | a, w'⟩ <;> rw [hr] at hy
  · rw [run_bind_error hr, run_bind_error hy]
  · rw [run_bind_ok hr, run_bind_ok hy]
    exact hf a w'

theorem get_bind {f : Workbench (Watched κ) → Task (Watched κ) β} {g : Workbench κ → Task κ β}
    (hf : ∀ w, Follows (f w) (g w.forget)) : Follows (get >>= f) (get >>= g) := by
  intro w
  rw [run_bind_ok (Task.run_get w), run_bind_ok (Task.run_get w.forget)]
  exact hf w w

theorem forM {f : α → Task (Watched κ) Unit} {g : α → Task κ Unit}
    (hf : ∀ a, Follows (f a) (g a)) (as : List α) : Follows (as.forM f) (as.forM g) := by
  induction as with
  | nil => intro w; rfl
  | cons a as ih => exact (hf a).bind fun _ => ih

theorem pure (a : α) : Follows (Pure.pure a : Task (Watched κ) α) (Pure.pure a) := fun _ => rfl

theorem throw (e : Error) :
    Follows (MonadExcept.throw e : Task (Watched κ) α) (MonadExcept.throw e) := fun _ => rfl

theorem act (a : Action α) : Follows (Task.act a : Task (Watched κ) α) (Task.act a) := fun _ => rfl

theorem withRegistry (f : Registry.Work α) :
    Follows (Task.withRegistry f : Task (Watched κ) α) (Task.withRegistry f) := fun _ => rfl

theorem compileSource (t : Toolchain) (name text : String) :
    Follows (compileSource t name text : Task (Watched κ) CompileResult)
      (compileSource t name text) := by
  refine get_bind fun w => (act _).bind fun unit => (withRegistry _).bind fun ds => ?_
  exact get_bind fun _ => pure _

theorem persist (root : Path) (name : String) (bytes : Bytes) :
    Follows (persist root name bytes : Task (Watched κ) Unit) (persist root name bytes) := by
  unfold Cache.persist
  exact act _

theorem persistWatched (root : Path) (name : String) (bytes : Bytes) :
    Follows (persistWatched root name bytes : Task (Watched κ) Unit)
      (Cache.persist root name bytes) := by
  intro w
  have hn : (note (.persisted name bytes)).run w =
      (.ok (), { w with context :=
        ⟨w.context.context, w.context.dealings ++ [.persisted name bytes]⟩ }) := rfl
  rw [Cache.persistWatched, run_bind_ok hn, ← persist root name bytes]
  rfl

theorem inject (k : ContextKind κ η) (name : String) (bytes : Bytes) :
    Follows (inject k.watched name bytes) (inject k name bytes) := fun _ => rfl

theorem injectMissing (k : ContextKind κ η) (as : List (String × Bytes)) :
    Follows (injectMissing k.watched as) (injectMissing k as) := by
  induction as with
  | nil => exact pure ()
  | cons a as ih =>
    refine get_bind fun w => ?_
    cases hd : k.isDefined w.context.context a.1 with
    | true =>
      have hd' : k.watched.isDefined w.context a.1 = true := hd
      simp only [Workbench.forget, hd, hd']
      exact ih
    | false =>
      have hd' : k.watched.isDefined w.context a.1 = false := hd
      simp only [Workbench.forget, hd, hd']
      exact (inject k a.1 a.2).bind fun _ => ih

theorem keepAll {x : Path → String → Bytes → Task (Watched κ) Unit}
    {y : Path → String → Bytes → Task κ Unit}
    (h : ∀ root name bytes, Follows (x root name bytes) (y root name bytes))
    (as : List (String × Bytes)) : Follows (keepAll x as) (keepAll y as) := by
  refine get_bind fun w => ?_
  have hw : w.forget.cache.persistenceRoot? w.forget.host.disk =
    w.cache.persistenceRoot? w.host.disk := rfl
  rw [hw]
  cases w.cache.persistenceRoot? w.host.disk with
  | none => exact pure ()
  | some root => exact forM (fun a => h root a.1 a.2) as

theorem deliver {x : Path → String → Bytes → Task (Watched κ) Unit}
    {y : Path → String → Bytes → Task κ Unit}
    (h : ∀ root name bytes, Follows (x root name bytes) (y root name bytes)) (k : ContextKind κ η)
    (r : CompileResult) : Follows (deliver x k.watched r) (deliver y k r) := by
  unfold Cache.deliver
  cases r.artifacts.get? r.unit with
  | none => exact throw _
  | some bytes =>
    refine (keepAll h _).bind fun _ => ?_
    exact (inject k r.unit bytes).bind fun _ => injectMissing k _

/-- Recording what a load does with artifacts leaves the load as it is. -/
theorem load (t : Toolchain) (k : ContextKind κ η) (name text : String) :
    Follows (loadWith Cache.persistWatched t k.watched name text) (load t k name text) := by
  intro w
  have h := (compileSource t name text).bind (deliver persistWatched k) w
  rw [Cache.load, run_loadWith, run_loadWith]
  rcases hr : (Cache.compileSource t name text >>=
    Cache.deliver Cache.persistWatched k.watched).run w with ⟨e | _, w'⟩ <;> rw [hr] at h
  · rw [h]
    rfl
  · rw [h]
    rfl

end Follows

/-- A task adds to the record, and only what it does with artifacts of some kind. -/
def Deals (P : String × Bytes → Prop) (x : Task (Watched κ) α) (w : Workbench (Watched κ)) : Prop :=
  ∃ new, (x.run w).2.context.dealings = w.context.dealings ++ new ∧ ∀ e ∈ new, P e.artifact

namespace Deals

variable {P : String × Bytes → Prop} {x : Task (Watched κ) α} {w : Workbench (Watched κ)}

theorem idle (h : (x.run w).2.context.dealings = w.context.dealings) : Deals P x w :=
  ⟨[], by simp [h], by simp⟩

theorem bind {f : α → Task (Watched κ) β} (hx : Deals P x w) (hf : ∀ a w, Deals P (f a) w) :
    Deals P (x >>= f) w := by
  obtain ⟨new, hn, hp⟩ := hx
  rcases hr : x.run w with ⟨e | a, w'⟩ <;> rw [hr] at hn
  · exact ⟨new, by rw [run_bind_error hr]; exact hn, hp⟩
  · obtain ⟨more, hm, hq⟩ := hf a w'
    refine ⟨new ++ more, ?_, ?_⟩
    · rw [run_bind_ok hr, hm, hn, List.append_assoc]
    · intro e he
      rcases List.mem_append.mp he with he | he
      · exact hp e he
      · exact hq e he

theorem forM {f : α → Task (Watched κ) Unit} (as : List α)
    (hf : ∀ a ∈ as, ∀ w, Deals P (f a) w) (w : Workbench (Watched κ)) : Deals P (as.forM f) w := by
  induction as generalizing w with
  | nil => exact idle rfl
  | cons a as ih =>
    have hrest := ih fun b hb => hf b (List.mem_cons_of_mem _ hb)
    exact (hf a List.mem_cons_self w).bind fun _ w => hrest w

theorem note {e : Dealing} (h : P e.artifact) (w : Workbench (Watched κ)) :
    Deals P (note e) w := ⟨[e], rfl, by simpa using h⟩

theorem act (a : Action α) (w : Workbench (Watched κ)) : Deals P (Task.act a) w := idle rfl

theorem persistWatched {name : String} {bytes : Bytes} (h : P (name, bytes)) (root : Path)
    (w : Workbench (Watched κ)) : Deals P (persistWatched root name bytes) w := by
  unfold Cache.persistWatched persist
  refine (note h w).bind fun _ w => ?_
  exact act _ w

theorem inject {name : String} {bytes : Bytes} (h : P (name, bytes)) (k : ContextKind κ η)
    (w : Workbench (Watched κ)) : Deals P (inject k.watched name bytes) w :=
  ⟨[.injected name bytes], rfl, by simpa [Dealing.artifact] using h⟩

theorem injectMissing {as : List (String × Bytes)} (ha : ∀ a ∈ as, P a) (k : ContextKind κ η)
    (w : Workbench (Watched κ)) : Deals P (injectMissing k.watched as) w := by
  induction as generalizing w with
  | nil => exact idle rfl
  | cons a as ih =>
    have hrest := ih fun b hb => ha b (List.mem_cons_of_mem _ hb)
    refine bind (idle rfl) fun w w' => ?_
    cases k.watched.isDefined w.context a.1 with
    | true => exact hrest w'
    | false => exact (inject (ha a List.mem_cons_self) k w').bind fun _ w => hrest w

theorem keepAll {keep : Path → String → Bytes → Task (Watched κ) Unit}
    {as : List (String × Bytes)} (hk : ∀ root, ∀ a ∈ as, ∀ w, Deals P (keep root a.1 a.2) w)
    (w : Workbench (Watched κ)) : Deals P (keepAll keep as) w := by
  refine bind (idle rfl) fun w w' => ?_
  cases w.cache.persistenceRoot? w.host.disk with
  | none => exact idle rfl
  | some root => exact forM as (hk root) w'

/-- What is delivered is among the artifacts. -/
theorem deliver (k : ContextKind κ η) (r : CompileResult) (w : Workbench (Watched κ)) :
    Deals (fun a => r.artifacts.get? a.1 = some a.2)
      (deliver Cache.persistWatched k.watched r) w := by
  unfold Cache.deliver
  cases hb : r.artifacts.get? r.unit with
  | none => exact idle rfl
  | some bytes =>
    have he (a : String × Bytes) (ha : a ∈ r.artifacts.entries) :
        r.artifacts.get? a.1 = some a.2 := NameMap.mem_entries.mp ha
    have hrest (a : String × Bytes)
        (ha : a ∈ r.artifacts.entries.filter (fun a => a.1 ≠ r.unit)) :
        r.artifacts.get? a.1 = some a.2 := he a (List.mem_filter.mp ha).1
    refine (keepAll (fun root a ha w => persistWatched (he a ha) root w) w).bind fun _ w => ?_
    exact (inject hb k w).bind fun _ w => injectMissing hrest k w

/-- What is on the record stays there. -/
theorem ne_nil {f : α → Task (Watched κ) β} (hx : (x.run w).2.context.dealings ≠ [])
    (hf : ∀ a w, Deals P (f a) w) : ((x >>= f).run w).2.context.dealings ≠ [] := by
  rcases hr : x.run w with ⟨e | a, w'⟩ <;> rw [hr] at hx
  · rwa [run_bind_error hr]
  · obtain ⟨new, hn, -⟩ := hf a w'
    rw [run_bind_ok hr, hn]
    exact List.append_ne_nil_of_left_ne_nil hx new

/-- Keeping artifacts is on the record, unless there is no place for them. -/
theorem keepAll_ne_nil {keep : Path → String → Bytes → Task (Watched κ) Unit}
    {a : String × Bytes} {as : List (String × Bytes)} {f : Unit → Task (Watched κ) β}
    (hn : ∀ root w, ((keep root a.1 a.2).run w).2.context.dealings ≠ [])
    (hk : ∀ root name bytes w, Deals P (keep root name bytes) w) (hf : ∀ w, Deals P (f ()) w)
    (hfn : ∀ w, ((f ()).run w).2.context.dealings ≠ []) :
    ((Cache.keepAll keep (a :: as) >>= f).run w).2.context.dealings ≠ [] := by
  cases hr : w.cache.persistenceRoot? w.host.disk with
  | none =>
    have hi : (Cache.keepAll keep (a :: as)).run w = (.ok (), w) := by
      rw [Cache.keepAll, run_bind_ok (Task.run_get w), hr]
      rfl
    rw [run_bind_ok hi]
    exact hfn w
  | some root =>
    refine ne_nil ?_ fun _ w => hf w
    rw [Cache.keepAll, run_bind_ok (Task.run_get w), hr]
    exact ne_nil (hn root w) fun _ w => forM as (fun a _ w => hk root a.1 a.2 w) w

end Deals

theorem persistWatched_ne_nil (root : Path) (name : String) (bytes : Bytes)
    (w : Workbench (Watched κ)) :
    ((persistWatched root name bytes).run w).2.context.dealings ≠ [] := by
  unfold persistWatched persist
  refine Deals.ne_nil (P := fun _ => True) ?_ fun _ w => ?_
  · exact List.append_ne_nil_of_right_ne_nil _ (List.cons_ne_nil _ _)
  · exact Deals.act _ w

/-- If the unit is among the artifacts, then something is done with one of them. -/
theorem deliver_ne_nil {r : CompileResult} (h : (r.artifacts.get? r.unit).isSome)
    (k : ContextKind κ η) (w : Workbench (Watched κ)) :
    ((deliver persistWatched k.watched r).run w).2.context.dealings ≠ [] := by
  obtain ⟨bytes, hb⟩ := Option.isSome_iff_exists.mp h
  have hm (w : Workbench (Watched κ)) (as : List (String × Bytes)) :
      Deals (fun _ => True) (injectMissing k.watched as) w :=
    Deals.injectMissing (fun _ _ => trivial) k w
  have he : (r.unit, bytes) ∈ r.artifacts.entries := NameMap.mem_entries.mpr hb
  unfold deliver
  rw [hb]
  cases hes : r.artifacts.entries with
  | nil => simp [hes] at he
  | cons a as =>
    refine Deals.keepAll_ne_nil (P := fun _ => True) ?_ ?_ ?_ ?_
    · exact fun root w => persistWatched_ne_nil root a.1 a.2 w
    · exact fun root _ _ w => Deals.persistWatched trivial root w
    · exact fun w => (Deals.inject trivial k w).bind fun _ w => hm w _
    · intro w
      refine Deals.ne_nil ?_ fun _ w => hm w _
      exact List.append_ne_nil_of_right_ne_nil _ (List.cons_ne_nil _ _)

/-- Without the unit nothing is done. -/
theorem run_deliver_missing {r : CompileResult} (h : r.artifacts.get? r.unit = none)
    (keep : Path → String → Bytes → Task κ Unit) (k : ContextKind κ η) (w : Workbench κ) :
    (deliver keep k r).run w = (.error r.missing, w) := by
  rw [deliver, h]
  rfl

end Cache
end UnitCache
