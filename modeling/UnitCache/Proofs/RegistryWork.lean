import UnitCache.Registry
import UnitCache.Proofs.Capture
import UnitCache.Proofs.Effects

namespace UnitCache

theorem Classpath.new_open {paths : List Path} {out : Option Path} {h h' : Host} {c : Classpath}
    (hn : (Classpath.new paths out).run h = (.ok c, h')) : c.closed = false := by
  rcases ho : (Classpath.openAll paths).run h with ⟨_ | es, h₁⟩
  · rw [Classpath.new, run_bind_error ho] at hn
    cases hn
  · rw [Classpath.new, run_bind_ok ho] at hn
    cases hn
    rfl

namespace Registry

def opened (paths : List Path) (h : Host) : Except Error Classpath :=
  ((Classpath.new paths none).run h).1

theorem opened_open {paths : List Path} {h : Host} {c : Classpath}
    (ho : opened paths h = .ok c) : c.closed = false :=
  Classpath.new_open (Prod.ext ho rfl)

theorem build_ok {t : Toolchain} {paths : List Path} {h h' : Host} {c : Capture}
    (hb : (build t paths).run h = (.ok c, h')) :
    c.outputs = .empty ∧ opened paths h = .ok c.classpath := by
  unfold build at hb
  cases ha : t.acquire with
  | error e =>
    rw [ha] at hb
    cases hb
  | ok _ =>
    simp only [ha] at hb
    rcases hn : (Classpath.new paths none).run h with ⟨_ | cp, h₁⟩
    · rw [run_bind_error hn] at hb
      cases hb
    · rw [run_bind_ok hn] at hb
      cases hb
      exact ⟨rfl, by simp [opened, hn]⟩

/-- The path of a classpath entry from the root, or as written where there is none. -/
def rooted (d : Disk) (p : Path) : Path :=
  match canonical d p with
  | .ok q => q
  | .error _ => p

theorem new_ok {t : Toolchain} {paths : List Path} {h h' : Host} {r : Registry}
    (hn : (Registry.new t paths).run h = (.ok r, h')) :
    r.classpath = paths.map (rooted h.disk) ∧ r.capture.outputs = .empty ∧ r.generation = 0 ∧
      opened r.classpath h = .ok r.capture.classpath := by
  have ha : (Action.ask (fun d => paths.map (rooted d))).run h =
      (.ok (paths.map (rooted h.disk)), h) := rfl
  change ((Action.ask (fun d => paths.map (rooted d))) >>= _).run h = _ at hn
  rw [run_bind_ok ha] at hn
  rcases hb : (build t (paths.map (rooted h.disk))).run h with ⟨_ | c, h₁⟩
  · rw [run_bind_error hb] at hn
    cases hn
  · rw [run_bind_ok hb] at hn
    cases hn
    obtain ⟨ho, hc⟩ := build_ok hb
    exact ⟨rfl, ho, rfl, hc⟩

theorem run_reports (ds : List Diagnostic) (h : Host) :
    (ds.forM (fun x => Action.report x.record)).run h =
      (.ok (), { h with log := h.log ++ ds.map Diagnostic.record }) := by
  induction ds generalizing h with
  | nil =>
    rw [List.map_nil, List.append_nil]
    rfl
  | cons x ds ih =>
    have hr : (Action.report x.record).run h = (.ok (), { h with log := h.log ++ [x.record] }) := rfl
    rw [List.forM, run_bind_ok hr, ih]
    simp

namespace Work

variable {t : Toolchain} {s s' : Site} {p : Path}

theorem run_act {α : Type} (a : Action α) (s : Site) :
    (act a).run s = ((a.run s.host).1, { s with host := (a.run s.host).2 }) := rfl

inductive Rebuilding (t : Toolchain) (s : Site) : Except Error Unit × Site → Prop
  | done (c : Capture) (h : Host) (built : (build t s.registry.classpath).run s.host = (.ok c, h)) :
      Rebuilding t s (.ok (), ⟨h, { s.registry with
        capture := c, generation := s.registry.generation + 1 }⟩)
  | failed (e : Error) (h : Host)
      (refused : (build t s.registry.classpath).run s.host = (.error e, h)) :
      Rebuilding t s (.error e, ⟨h, s.registry⟩)

theorem reset_rebuilding (t : Toolchain) (s : Site) : Rebuilding t s ((reset t).run s) := by
  have hg : (get : Work Site).run s = (.ok s, s) := rfl
  rw [reset, run_bind_ok hg]
  rcases hb : (build t s.registry.classpath).run s.host with ⟨e | c, h⟩
  · have ha : (act (Registry.reset t s.registry)).run s = (.error e, ⟨h, s.registry⟩) := by
      rw [run_act, Registry.reset, run_bind_error hb]
    rw [run_bind_error ha]
    exact .failed e h hb
  · have ha : (act (Registry.reset t s.registry)).run s = (.ok { s.registry with
        capture := c, generation := s.registry.generation + 1 }, ⟨h, s.registry⟩) := by
      rw [run_act, Registry.reset, run_bind_ok hb]
      rfl
    rw [run_bind_ok ha]
    exact .done c h hb

inductive Growing (t : Toolchain) (p : Path) (s : Site) : Except Error Bool × Site → Prop
  | missing (nothing : s.host.disk.exists? p = false) : Growing t p s (.ok false, s)
  | unrooted (f : Fault) (refused : canonical s.host.disk p = .error f) :
      Growing t p s (.error (.io p f), s)
  | present (q : Path) (rooted : canonical s.host.disk p = .ok q)
      (listed : s.registry.classpath.any (fun x => x.same q) = true) :
      Growing t p s (.ok true, s)
  | added (q : Path) (c : Capture) (h : Host) (log : List LogRecord)
      (rooted : canonical s.host.disk p = .ok q)
      (new : s.registry.classpath.any (fun x => x.same q) = false)
      (built : (build t (s.registry.classpath ++ [q])).run s.host = (.ok c, h)) :
      Growing t p s (.ok true, ⟨{ h with log := log }, ⟨s.registry.classpath ++ [q], c,
        s.registry.generation + 1⟩⟩)
  | failed (q : Path) (e : Error) (h : Host) (rooted : canonical s.host.disk p = .ok q)
      (refused : (build t (s.registry.classpath ++ [q])).run s.host = (.error e, h)) :
      Growing t p s (.error e, ⟨h, s.registry⟩)

/-- The rebuild with the path added, and what follows it. When it fails the path goes again. -/
theorem grow_tail (t : Toolchain) (p q : Path) (s : Site)
    (hq : canonical s.host.disk p = .ok q)
    (hl : s.registry.classpath.any (fun x => x.same q) = false) (r : LogRecord) :
    Growing t p s ((do
      alter fun r => { r with classpath := r.classpath ++ [q] }
      tryCatch (reset t) fun e => do
        alter fun r => { r with classpath := r.classpath.dropLast }
        throw e
      act (Action.report r)
      return true : Work Bool).run s) := by
  have ha : (alter fun r => { r with classpath := r.classpath ++ [q] }).run s =
      (.ok (), ⟨s.host, { s.registry with classpath := s.registry.classpath ++ [q] }⟩) := rfl
  rw [run_bind_ok ha]
  generalize hr : (reset t).run
    ⟨s.host, { s.registry with classpath := s.registry.classpath ++ [q] }⟩ = out
  have ho := reset_rebuilding t ⟨s.host, { s.registry with classpath := s.registry.classpath ++ [q] }⟩
  rw [hr] at ho
  cases ho with
  | done c h hb =>
    rw [run_bind_ok (run_tryCatch_ok hr _)]
    exact .added q c h _ hq hl hb
  | failed e h hb =>
    have hc := run_tryCatch_error hr (fun e => do
      alter fun r => { r with classpath := r.classpath.dropLast }
      throw e)
    have hd : ({ s.registry with
        classpath := (s.registry.classpath ++ [q]).dropLast } : Registry) = s.registry := by
      rw [List.dropLast_concat]
    rw [run_bind_error (hc.trans (run_bind_ok rfl _))]
    have hf := Growing.failed (t := t) (s := s) q e h hq hb
    rw [← hd] at hf
    exact hf

theorem grow_growing (t : Toolchain) (p : Path) (s : Site) :
    Growing t p s ((grow t p).run s) := by
  have hx : (act (Action.ask (·.exists? p))).run s = (.ok (s.host.disk.exists? p), s) := rfl
  rw [grow, run_bind_ok hx]
  cases he : s.host.disk.exists? p with
  | false => exact .missing he
  | true =>
    simp only [Bool.not_true, Bool.false_eq_true, ↓reduceIte]
    have hg : (get : Work Site).run s = (.ok s, s) := rfl
    cases hq : canonical s.host.disk p with
    | error f =>
      have ha : (act (Action.reading p (canonical · p))).run s = (.error (.io p f), s) := by
        rw [run_act, Action.reading, run_bind_ok (rfl : (get : Action Host).run s.host = _), hq]
        rfl
      rw [run_bind_error ha]
      exact .unrooted f hq
    | ok q =>
      have ha : (act (Action.reading p (canonical · p))).run s = (.ok q, s) := by
        rw [run_act, Action.reading, run_bind_ok (rfl : (get : Action Host).run s.host = _), hq]
        rfl
      rw [run_bind_ok ha, run_bind_ok hg]
      cases hl : s.registry.classpath.any (fun x => x.same q) with
      | true => exact .present q hq hl
      | false =>
        exact grow_tail t p q s hq hl _

def compiled (t : Toolchain) (unit : NamedUnit) (s : Site) : List Diagnostic × Capture :=
  ((s.registry.capture.dialogue t unit s.host.disk).run (Capture.manager s.host.disk)).run
    s.registry.capture

/-- A compile always answers. It changes the capture and reports what it found. -/
theorem run_compile (t : Toolchain) (unit : NamedUnit) (s : Site) :
    (compile t unit).run s = (.ok (compiled t unit s).1,
      ⟨{ s.host with log := s.host.log ++ (compiled t unit s).1.map Diagnostic.record },
        { s.registry with capture := (compiled t unit s).2 }⟩) := by
  have hg : (get : Work Site).run s = (.ok s, s) := rfl
  have hc : (Registry.compile t unit s.registry).run s.host =
      (.ok ((compiled t unit s).1, { s.registry with capture := (compiled t unit s).2 }),
        { s.host with log := s.host.log ++ (compiled t unit s).1.map Diagnostic.record }) := by
    rw [Registry.compile, run_bind_ok (rfl : (Action.ask id).run s.host = (.ok s.host.disk, s.host))]
    exact run_bind_ok (run_reports _ _) _
  rw [compile, run_bind_ok hg]
  have ha : (act (Registry.compile t unit s.registry)).run s = (.ok ((compiled t unit s).1,
      { s.registry with capture := (compiled t unit s).2 }),
      ⟨{ s.host with log := s.host.log ++ (compiled t unit s).1.map Diagnostic.record },
        s.registry⟩) := by
    rw [run_act, hc]
  rw [run_bind_ok ha]
  rfl

end Work
end Registry
end UnitCache
