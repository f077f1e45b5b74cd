import UnitCache.Cache
import UnitCache.Proofs.ClasspathGrowth
import UnitCache.Proofs.ClasspathSteady

namespace UnitCache

open Disk (Retains)

theorem Classpath.HoldsArchives.close {c : Classpath} {d : Disk} (h : c.HoldsArchives d) :
    c.close.HoldsArchives d := by
  rw [Classpath.close]
  split
  · exact h
  · intro p file members he
    cases he

namespace Registry

variable {t : Toolchain} {paths : List Path} {g h h' : Host} {c : Classpath} {r : Registry} {s : Site}

theorem holdsArchives_of_opened (hs : g.disk.Sound) (ho : opened paths g = .ok c) :
    c.HoldsArchives g.disk := by
  have hn : (Classpath.new paths none).run g = (.ok c, ((Classpath.new paths none).run g).2) :=
    Prod.ext ho rfl
  have harchives := Classpath.holdsArchives_of_new hs hn
  rwa [(Classpath.new_ok hn).1] at harchives

theorem new_onlyReads (t : Toolchain) (paths : List Path) : (Registry.new t paths).OnlyReads :=
  .get_bind fun _ => .bind (build_onlyReads t _) fun _ => .pure _

structure Holding (s : Site) : Prop where
  sound : s.host.disk.Sound
  archives : s.registry.capture.classpath.HoldsArchives s.host.disk

/-- What others do to the tree leaves it in order, and files that are open keep what they hold. -/
def Operation.IsSteady (d : Disk) : Operation → Prop
  | .change d' => d'.Sound ∧ Retains d d'
  | _ => True

def Steady (start : Site) : List Operation → Prop
  | [] => True
  | op :: earlier =>
    op.IsSteady (current start (history start earlier)).host.disk ∧ Steady start earlier

namespace Holding

theorem of_new (hs : h.disk.Sound) (hn : (Registry.new t paths).run h = (.ok r, h')) :
    Holding ⟨h', r⟩ := by
  have hd := new_onlyReads t paths h
  rw [hn] at hd
  obtain ⟨-, -, -, ho⟩ := new_ok hn
  exact ⟨hd ▸ hs, hd ▸ holdsArchives_of_opened hs ho⟩

theorem of_build {cap : Capture} {log : List LogRecord} {n : Nat} {ps : List Path}
    (hs : s.host.disk.Sound) (hb : (build t ps).run s.host = (.ok cap, g)) :
    Holding ⟨{ g with log := log }, ⟨ps, cap, n⟩⟩ := by
  have hd := build_disk hb
  exact ⟨hd ▸ hs, hd ▸ holdsArchives_of_opened hs (build_ok hb).2⟩

theorem same (h : Holding s) (hd : g.disk = s.host.disk)
    (hc : r.capture.classpath = s.registry.capture.classpath) : Holding ⟨g, r⟩ :=
  ⟨hd ▸ h.sound, by rw [hc, hd]; exact h.archives⟩

theorem close (h : Holding s) (hd : g.disk = s.host.disk)
    (hc : r.capture.classpath = s.registry.capture.classpath.close) : Holding ⟨g, r⟩ :=
  ⟨hd ▸ h.sound, by rw [hc, hd]; exact h.archives.close⟩

/-- A rebuild opens the archives again, and nothing else but a change by others bears on them. -/
theorem step (h : Holding s) (op : Operation) (hop : op.IsSteady s.host.disk) :
    Holding (eventOf s op).after := by
  cases op with
  | reset t =>
    have ho := Work.reset_rebuilding t s
    change Holding ((Work.reset t).run s).2
    generalize (Work.reset t).run s = out at ho ⊢
    cases ho with
    | done c g hb => exact of_build h.sound hb
    | failed e g hb =>
      have hd := build_onlyReads t s.registry.classpath s.host
      rw [hb] at hd
      exact h.same hd rfl
  | grow t p =>
    have ho := Work.grow_growing t p s
    change Holding ((Work.grow t p).run s).2
    generalize (Work.grow t p).run s = out at ho ⊢
    cases ho with
    | missing _ | unrooted _ _ | present _ _ _ => exact h
    | added q c g log hq hl hb => exact of_build h.sound hb
    | failed q e g hq hb =>
      have hd := build_onlyReads t (s.registry.classpath ++ [q]) s.host
      rw [hb] at hd
      exact h.same hd rfl
  | compile t unit =>
    change Holding ((Work.compile t unit).run s).2
    rw [Work.run_compile t unit s]
    have hc := Capture.run_classpath s.host.disk (s.registry.capture.dialogue t unit s.host.disk)
      s.registry.capture
    split at hc
    · exact h.close rfl hc
    · exact h.same rfl hc
  | close => exact h.close rfl rfl
  | change d => exact ⟨hop.1, h.archives.retains hop.2⟩
  | write _ _ | find _ | clear => exact h.same rfl rfl

end Holding

/-- After any operations the archives of a registry are open, if it was made on a tree in order and
others change the tree in a steady way only. -/
theorem holding_history (hs : h.disk.Sound) (hn : (Registry.new t paths).run h = (.ok r, h'))
    (ops : List Operation) (hops : Steady ⟨h', r⟩ ops) :
    Holding (current ⟨h', r⟩ (history ⟨h', r⟩ ops)) := by
  induction ops with
  | nil => exact .of_new hs hn
  | cons op ops ih => exact (ih hops.2).step op hops.1

end Registry

/-- The archives of a cache that was made on a tree in order are open. -/
theorem Cache.holding_of_new {t : Toolchain} {config : Config} {h h' : Host} {c : Cache}
    (hs : h.disk.Sound) (hn : (Cache.new t config).run h = (.ok c, h')) :
    Registry.Holding ⟨h', c.registry⟩ := by
  rcases hr : (Registry.new t config.classpath).run h with ⟨e | r, h₁⟩
  · rw [Cache.new, run_bind_error hr] at hn
    cases hn
  · rw [Cache.new, run_bind_ok hr] at hn
    cases hn
    exact .of_new hs hr

end UnitCache
