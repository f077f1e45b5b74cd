import UnitCache.Proofs.ClasspathOpening
import UnitCache.Proofs.ModuleFiles
import UnitCache.Proofs.RegistryHistory

namespace UnitCache

variable {g g' : Host} {d : Disk} {ps : List Path} {p q x : Path} {c : Classpath} {name : String}

def modulePath (p : Path) (name : String) : Path :=
  p.join (.ofString (UnitName.resource name ++ ".lua"))

/-- In a tree, what has a module in it is a directory. -/
theorem isDirectory_of_module (ht : d.IsTree) (hq : q.chars ≠ [])
    (hn : UnitName.isValid name = true) (hf : d.isFile (modulePath q name) = true) :
    d.isDirectory q = true := by
  obtain ⟨ns, n, hs⟩ := Classpath.spells_candidate hn (f := UnitName.resource name ++ ".lua")
    (by simp [Classpath.candidates])
  exact hs.isDirectory ht hq hf

namespace Classpath

theorem firstFound_ne_none {α : Type} {rs : List (Except Error (Option α))}
    {r : Except Error (Option α)} (hr : r ∈ rs) (hn : r ≠ .ok none) : firstFound rs ≠ .ok none := by
  induction rs with
  | nil => cases hr
  | cons r' rs ih =>
    rcases r' with e | _ | a
    · simp [firstFound]
    · rcases List.mem_cons.mp hr with rfl | hr
      · exact absurd rfl hn
      · exact ih hr
    · simp [firstFound]

/-- A file in a directory that is open is found, or something before it, or it cannot be read. -/
theorem find_ne_none (hc : c.closed = false) (hn : UnitName.isValid name = true)
    (hx : .directory x ∈ c.entries) (hf : d.isFile (modulePath x name) = true) :
    c.find d name ≠ .ok none := by
  rw [find, hc]
  simp only [Bool.false_eq_true, if_false, hn, Bool.not_true]
  refine firstFound_ne_none (List.mem_flatMap.mpr ⟨.directory x, hx, List.mem_map.mpr
    ⟨UnitName.resource name ++ ".lua", by simp [candidates], rfl⟩⟩) ?_
  rw [modulePath] at hf
  rw [inEntry, if_pos hf]
  cases d.readText (x.join (.ofString (UnitName.resource name ++ ".lua"))) <;> simp

end Classpath

namespace Registry

theorem opened_directory (h : opened ps g = .ok c) (x : Path) :
    .directory x ∈ c.entries ↔ x ∈ ps ∧ g.disk.isDirectory x = true :=
  (Classpath.new_ok (Prod.ext h rfl : (Classpath.new ps none).run g = (.ok c, _))).2.directory_mem

theorem build_onlyReads (t : Toolchain) (ps : List Path) : (build t ps).OnlyReads := by
  unfold build
  cases t.acquire with
  | error e => exact .throw e
  | ok _ => exact .bind (Classpath.new_onlyReads ps none) fun _ => .pure _

theorem build_disk {t : Toolchain} {cap : Capture}
    (hb : (build t ps).run g = (.ok cap, g')) : g'.disk = g.disk := by
  have hd := build_onlyReads t ps g
  rwa [hb] at hd

def builtOn (start : Host) (es : List Event) : Host :=
  match es.find? Event.rebuilds with
  | none => start
  | some e => e.before.host

theorem builtOn_cons (start : Host) (e : Event) (es : List Event) :
    builtOn start (e :: es) = if e.rebuilds then e.before.host else builtOn start es := by
  rw [builtOn, List.find?_cons]
  cases e.rebuilds <;> rfl

/-- The classpath at work is what the paths opened to on some host, unless it was closed. -/
def OpenedOn (g : Host) (r : Registry) : Prop :=
  r.capture.classpath.closed = false → opened r.classpath g = .ok r.capture.classpath

theorem OpenedOn.same {r r' : Registry} (h : OpenedOn g r) (hp : r'.classpath = r.classpath)
    (hc : r'.capture.classpath = r.capture.classpath) : OpenedOn g r' := by
  unfold OpenedOn
  rw [hp, hc]
  exact h

theorem openedOn_of_close {r r' : Registry}
    (hc : r'.capture.classpath = r.capture.classpath.close) : OpenedOn g r' := by
  intro ho
  rw [hc, Classpath.close] at ho
  split at ho
  · rename_i hcl
    exact absurd ho (by simp [hcl])
  · cases ho

/-- One operation either rebuilds on the host that it finds, or leaves the classpath at work or
closes it. -/
theorem OpenedOn.step {s : Site} (h : OpenedOn g s.registry) (op : Operation) :
    OpenedOn (if (eventOf s op).rebuilds then s.host else g) (eventOf s op).after.registry := by
  cases op with
  | reset t =>
    have ho := Work.reset_rebuilding t s
    change OpenedOn (if Event.rebuilds ⟨.reset t, .rebuilt ((Work.reset t).run s).1, s,
      ((Work.reset t).run s).2⟩ then s.host else g) ((Work.reset t).run s).2.registry
    generalize (Work.reset t).run s = out at ho ⊢
    cases ho with
    | done c g' hb => exact fun _ => (build_ok hb).2
    | failed e g' hb => exact h
  | grow t p =>
    have ho := Work.grow_growing t p s
    change OpenedOn (if Event.rebuilds ⟨.grow t p, .grown ((Work.grow t p).run s).1, s,
      ((Work.grow t p).run s).2⟩ then s.host else g) ((Work.grow t p).run s).2.registry
    generalize (Work.grow t p).run s = out at ho ⊢
    cases ho with
    | missing _ | unrooted _ _ | failed _ _ _ _ _ => exact h
    | present q hq hl =>
      rw [if_neg (by simp [Event.rebuilds, Event.added, hq, hl])]
      exact h
    | added q c g' log hq hl hb =>
      rw [if_pos (by simp [Event.rebuilds, Event.added, hq, hl])]
      exact fun _ => (build_ok hb).2
  | compile t unit =>
    have hc := Work.run_compile t unit s
    change OpenedOn g ((Work.compile t unit).run s).2.registry
    rw [hc]
    have hcp := Capture.run_classpath s.host.disk (s.registry.capture.dialogue t unit s.host.disk)
      s.registry.capture
    split at hcp
    · exact openedOn_of_close (r := s.registry) hcp
    · exact h.same rfl hcp
  | close => exact openedOn_of_close (r := s.registry) rfl
  | write _ _ | find _ | clear | change _ => exact h.same rfl rfl

/-- After any operations the classpath at work is the one opened at the latest rebuild. -/
theorem openedOn_history {t : Toolchain} {paths : List Path} {h h' : Host} {r : Registry}
    (hn : (Registry.new t paths).run h = (.ok r, h')) (ops : List Operation) :
    OpenedOn (builtOn h (history ⟨h', r⟩ ops)) (current ⟨h', r⟩ (history ⟨h', r⟩ ops)).registry := by
  induction ops with
  | nil => exact fun _ => (Registry.new_ok hn).2.2.2
  | cons op ops ih =>
    rw [history, builtOn_cons]
    exact ih.step op

/-- A path that is a directory is put on the classpath, or is there already, as the path of a place. -/
theorem canonical_of_isDirectory (h : d.isDirectory p = true) :
    ∃ place, canonical d p = .ok (Disk.pathOf place) := by
  unfold Disk.isDirectory at h
  split at h
  · rename_i place hs
    exact ⟨place, by rw [canonical, Disk.canonical, hs]; rfl⟩
  · cases h

/-- When a directory was added to the classpath, or is there already, modules in it are found: at
once if it is new, and otherwise just if it was a directory at the latest rebuild. -/
theorem grow_searches {t t' : Toolchain} {paths : List Path} {h h' : Host} {r : Registry}
    (hn : (Registry.new t paths).run h = (.ok r, h')) (ops : List Operation) {s s' : Site}
    (hs : s = current ⟨h', r⟩ (history ⟨h', r⟩ ops))
    (hopen : s.registry.capture.classpath.closed = false) (htree : s.host.disk.IsTree)
    (hdir : s.host.disk.isDirectory p = true) (hg : (Work.grow t' p).run s = (.ok true, s')) :
    ∃ q, canonical s.host.disk p = .ok q ∧
      if s.registry.classpath.any (fun x => x.same q) then
        s' = s ∧ ∀ x ∈ s.registry.classpath, x.same q = true →
          (.directory x ∈ s.registry.capture.classpath.entries ↔
            (builtOn h (history ⟨h', r⟩ ops)).disk.isDirectory x = true) ∧
          ((builtOn h (history ⟨h', r⟩ ops)).disk.isDirectory x = true →
            ∀ name, UnitName.isValid name = true →
              s.host.disk.isFile (modulePath x name) = true →
              s.registry.capture.find s.host.disk name ≠ .ok none)
      else
        s'.registry.classpath = s.registry.classpath ++ [q] ∧ s'.host.disk = s.host.disk ∧
          ∀ name, UnitName.isValid name = true →
            s.host.disk.isFile (modulePath q name) = true →
            s'.registry.capture.find s'.host.disk name ≠ .ok none := by
  obtain ⟨place, hq⟩ := canonical_of_isDirectory hdir
  refine ⟨Disk.pathOf place, hq, ?_⟩
  have hgrow := Work.grow_growing t' p s
  rw [hg] at hgrow
  cases hgrow with
  | present q hq' hl =>
    obtain rfl := Except.ok.inj (hq'.symm.trans hq)
    rw [if_pos hl]
    have ho := openedOn_history hn ops
    rw [← hs] at ho
    refine ⟨rfl, fun x hx _ => ?_⟩
    have hmem := opened_directory (ho hopen) x
    rw [and_iff_right hx] at hmem
    exact ⟨hmem, fun hd name hv hf => Classpath.find_ne_none hopen hv (hmem.mpr hd) hf⟩
  | added q c g log hq' hl hb =>
    obtain rfl := Except.ok.inj (hq'.symm.trans hq)
    rw [if_neg (by simp [hl])]
    have hdisk := build_disk hb
    refine ⟨rfl, hdisk, fun name hv hf => ?_⟩
    have ho := (build_ok hb).2
    have hqdir := isDirectory_of_module htree (by simp [Disk.pathOf]) hv hf
    have hmem := (opened_directory ho (Disk.pathOf place)).mpr ⟨by simp, hqdir⟩
    exact Classpath.find_ne_none (opened_open ho) hv hmem (hdisk ▸ hf)

/-- A directory that is new on the classpath. -/
theorem grow_searches_new :
    ∃ (t : Toolchain) (r : Registry) (s s' : Site),
      (Registry.new t []).run ⟨{}, []⟩ = (.ok r, ⟨{}, []⟩) ∧
      (Work.grow t ⟨"lib".toList⟩).run s = (.ok true, s') ∧
      s'.registry.classpath = [⟨"/lib".toList⟩] ∧
      s'.registry.capture.find s'.host.disk "m" ≠ .ok none := by
  obtain ⟨d, hd⟩ : ∃ d : Disk, d = { entries := [(["lib".toList, "m.lua".toList],
    .file 0 (Utf8.encode "return 1")), (["lib".toList], .directory)] } := ⟨_, rfl⟩
  obtain ⟨t, ht⟩ : ∃ t : Toolchain, t = ⟨.ok (), fun _ _ _ => .done []⟩ := ⟨_, rfl⟩
  obtain ⟨r, hr⟩ : ∃ r : Registry, r = ⟨[], { classpath := ⟨[], none, false⟩ }, 0⟩ := ⟨_, rfl⟩
  obtain ⟨s, hs⟩ : ∃ s : Site, s = ⟨⟨d, []⟩, r⟩ := ⟨_, rfl⟩
  have hn : (Registry.new t []).run ⟨{}, []⟩ = (.ok r, ⟨{}, []⟩) := by
    rw [ht, hr]
    rfl
  have hg : ((Work.grow t ⟨"lib".toList⟩).run s).1 = .ok true := by
    rw [hs, hd, ht, hr]
    cbv
  have htree : s.host.disk.IsTree := by
    intro place n h
    rw [hs, hd]
    rw [hs, hd, Disk.look?, if_neg (by simp)] at h
    by_cases hfile : place ++ [n] = ["lib".toList, "m.lua".toList]
    · have hparts : place ++ [n] = ["lib".toList] ++ ["m.lua".toList] := hfile
      rw [(List.append_inj' hparts rfl).1]
      rfl
    by_cases hlib : place ++ [n] = ["lib".toList]
    · have hparts : place ++ [n] = [] ++ ["lib".toList] := hlib
      rw [(List.append_inj' hparts rfl).1]
      rfl
    · simp [Disk.lookup] at h
      exact absurd (h (Ne.symm hfile)).symm hlib
  obtain ⟨q, hq, hc⟩ := grow_searches hn [.change d] (by rw [hs]; rfl) (by rw [hs, hr]) htree
    (by rw [hs, hd]; cbv) (Prod.ext hg rfl)
  have hlib : canonical s.host.disk ⟨"lib".toList⟩ = .ok ⟨"/lib".toList⟩ := by
    rw [hs, hd]
    cbv
  obtain rfl := Except.ok.inj (hq.symm.trans hlib)
  rw [if_neg (by rw [hs, hr]; simp)] at hc
  obtain ⟨hpaths, -, hfind⟩ := hc
  refine ⟨t, r, s, _, hn, Prod.ext hg rfl, ?_, hfind "m" (by decide) ?_⟩
  · rw [hpaths, hs, hr]
    rfl
  · rw [hs, hd]
    cbv

/-- A directory that was missing at the latest rebuild, when it was on the classpath already. -/
theorem grow_listed_not_searched :
    ∃ (t : Toolchain) (d : Disk) (r : Registry) (s s' : Site),
      (Registry.new t [⟨"lib".toList⟩]).run ⟨{}, []⟩ = (.ok r, ⟨{}, []⟩) ∧
      s = current ⟨⟨{}, []⟩, r⟩ (history ⟨⟨{}, []⟩, r⟩ [.change d]) ∧
      s.registry.capture.classpath.closed = false ∧ d.isDirectory ⟨"lib".toList⟩ = true ∧
      (Work.grow t ⟨"lib".toList⟩).run s = (.ok true, s') ∧
      canonical d ⟨"lib".toList⟩ = .ok ⟨"/lib".toList⟩ ∧ UnitName.isValid "m" = true ∧
      d.readText (modulePath ⟨"/lib".toList⟩ "m") = .ok "return 1" ∧
      s'.registry.capture.find s'.host.disk "m" = .ok none := by
  obtain ⟨d, hd⟩ : ∃ d : Disk, d = { entries := [(["lib".toList, "m.lua".toList],
    .file 0 (Utf8.encode "return 1")), (["lib".toList], .directory)] } := ⟨_, rfl⟩
  obtain ⟨t, ht⟩ : ∃ t : Toolchain, t = ⟨.ok (), fun _ _ _ => .done []⟩ := ⟨_, rfl⟩
  obtain ⟨r, hr⟩ : ∃ r : Registry,
    r = ⟨[⟨"/lib".toList⟩], { classpath := ⟨[], none, false⟩ }, 0⟩ := ⟨_, rfl⟩
  refine ⟨t, d, r, ⟨⟨d, []⟩, r⟩, ⟨⟨d, []⟩, r⟩, ?_, rfl, by rw [hr], ?_, ?_, ?_, by decide, ?_, ?_⟩
  · rw [ht, hr]
    cbv
  · rw [hd]
    cbv
  · rw [hd, ht, hr]
    cbv
  · rw [hd]
    cbv
  · rw [hd]
    cbv
  · rw [hd, hr]
    cbv

end Registry
end UnitCache
