import UnitCache.Proofs.CacheWatch
import UnitCache.Proofs.DiskParallel
import UnitCache.Proofs.StoreOutcome

namespace UnitCache

open Disk (Alike Within Parallel Grows Sound Keeps Dug)

variable {κ α β : Type} {own way : Place → Prop} {C C' C'' : Disk → Prop} {w v : Workbench κ}

structure Workbench.Beside (own way : Place → Prop) (w v : Workbench κ) : Prop where
  cache : v.cache = w.cache
  context : v.context = w.context
  disk : Alike own way w.host.disk v.host.disk

theorem Workbench.Beside.refl (own way : Place → Prop) (w : Workbench κ) : w.Beside own way w :=
  ⟨rfl, rfl, .refl ..⟩

namespace Task

theorem act_bind (x : Action α) (f : α → Action β) :
    (act (x >>= f) : Task κ β) = act x >>= fun a => act (f a) := by
  funext w
  change (act (x >>= f)).run w = (act x >>= fun a => act (f a)).run w
  rw [run_act]
  rcases hx : x.run w.host with ⟨e | a, h⟩
  · rw [run_bind_error hx, run_bind_error (by rw [run_act, hx])]
  · have ha : (act x).run w = (.ok a, { w with host := h }) := by rw [run_act, hx]
    rw [run_bind_ok hx, run_bind_ok ha, run_act]

structure Mirrors (own way : Place → Prop) (C : Disk → Prop) (w : Workbench κ)
    (out : Except Error α × Workbench κ) (v : Workbench κ) (out' : Except Error α × Workbench κ) :
    Prop where
  result : out'.1 = out.1
  cache : out'.2.cache = out.2.cache
  context : out'.2.context = out.2.context
  disk : Parallel own way w.host.disk out.2.host.disk v.host.disk out'.2.host.disk
  grows : Grows own v.host.disk out'.2.host.disk
  after : ∀ a, out.1 = .ok a → C out'.2.host.disk

/-- A task that does the same on all trees of some kind that are alike where it looks. -/
def Local (own way : Place → Prop) (C C' : Disk → Prop) (x : Task κ α) (w : Workbench κ) : Prop :=
  C w.host.disk → ∀ v, w.Beside own way v → C v.host.disk →
    Mirrors own way C' w (x.run w) v (x.run v)

namespace Local

/-- What follows has to be local on the workbench that the first task leaves. -/
theorem bind {x : Task κ α} {f : α → Task κ β} (hx : Local own way C C' x w)
    (hf : ∀ a w', x.run w = (.ok a, w') → Local own way C' C'' (f a) w') :
    Local own way C C'' (x >>= f) w := by
  intro hw v hb hv
  have hm := hx hw v hb hv
  have hthere := (hx hw w (.refl ..) hw).after
  have hresult := hm.result
  rcases hr : x.run w with ⟨e | a, w'⟩ <;> rcases hr' : x.run v with ⟨e' | a', v'⟩ <;>
    rw [hr, hr'] at hm hresult
  · obtain rfl := Except.error.inj hresult
    rw [run_bind_error hr, run_bind_error hr']
    exact ⟨rfl, hm.cache, hm.context, hm.disk, hm.grows, fun _ h => nomatch h⟩
  · cases hresult
  · cases hresult
  · obtain rfl := Except.ok.inj hresult
    rw [hr] at hthere
    rw [run_bind_ok hr, run_bind_ok hr']
    have hm' := hf a' w' hr (hthere a' rfl) v' ⟨hm.cache, hm.context, hm.disk.alike hb.disk⟩
      (hm.after a' rfl)
    exact ⟨hm'.result, hm'.cache, hm'.context, hm.disk.trans hm'.disk, hm.grows.trans hm'.grows,
      hm'.after⟩

/-- A task that has nothing to do with the file tree. -/
theorem inner {x : Task κ α} (hsound : ∀ d, C d → d.Sound)
    (hx : ∀ v : Workbench κ, v.cache = w.cache → v.context = w.context →
      (x.run v).1 = (x.run w).1 ∧ (x.run v).2.cache = (x.run w).2.cache ∧
        (x.run v).2.context = (x.run w).2.context ∧ (x.run v).2.host.disk = v.host.disk) :
    Local own way C C x w := by
  intro hw v hb hv
  obtain ⟨hresult, hcache, hcontext, hdisk⟩ := hx v hb.cache hb.context
  obtain ⟨-, -, -, hdisk'⟩ := hx w rfl rfl
  refine ⟨hresult, hcache, hcontext, ?_, ?_, fun _ _ => ?_⟩
  · rw [hdisk, hdisk']
    exact .refl hb.disk
  · rw [hdisk]
    exact .refl (hsound _ hv)
  · rwa [hdisk]

/-- More may be known of the tree after a task that went well. -/
theorem strengthen {x : Task κ α} (hx : Local own way C C' x w)
    (h : ∀ v a v', C v.host.disk → x.run v = (.ok a, v') → C' v'.host.disk → C'' v'.host.disk) :
    Local own way C C'' x w := by
  intro hw v hb hv
  have hm := hx hw v hb hv
  refine ⟨hm.result, hm.cache, hm.context, hm.disk, hm.grows, fun a ha => ?_⟩
  exact h v a _ hv (Prod.ext (hm.result.trans ha) rfl) (hm.after a ha)

theorem forM {f : α → Task κ Unit} {as : List α} (hsound : ∀ d, C d → d.Sound)
    (hf : ∀ a ∈ as, ∀ w, Local own way C C (f a) w) (w : Workbench κ) :
    Local own way C C (as.forM f) w := by
  induction as generalizing w with
  | nil => exact inner hsound fun v hc hk => ⟨rfl, hc, hk, rfl⟩
  | cons a as ih =>
    exact (hf a List.mem_cons_self w).bind fun _ w' _ =>
      ih (fun b hb => hf b (List.mem_cons_of_mem a hb)) w'

end Local
end Task

namespace Disk.Grows

variable {S T : Place → Prop} {d d' : Disk}

/-- Directories are not touched. -/
theorem narrow (h : Grows S d d')
    (hs : ∀ place, S place → T place ∨ d.look? place = some .directory) : Grows T d d' := by
  refine ⟨⟨h.cwd, h.linkless, fun place ht => ?_⟩, h.sound, h.directories, h.retains⟩
  by_cases hp : S place
  · have hd := (hs place hp).resolve_left ht
    exact .inl (by rw [h.directories place hd, hd])
  · exact h.others place hp

end Disk.Grows

namespace Slot

variable {s : Slot} {content : Bytes} {d₀ d d' e e' : Disk}

/-- A directory in place of a file stays, and so does one in place of a backup. -/
theorem attempt_directory (s : Slot) (content : Bytes) (file backup : Option Sight) :
    (file = some .directory → (s.attempt content file backup).2.1 = file) ∧
      (backup = some .directory → (s.attempt content file backup).2.2 = backup) := by
  unfold attempt
  split
  · simp
  · simp
  · rename_i old _
    by_cases hsame : old = content
    · simp [hsame]
    simp only [if_neg hsame]
    cases bar? (UnitName.backup s.path) (s.name ++ UnitName.backupSuffix) with
    | some e => simp
    | none => by_cases hdir : backup = some .directory <;> simp [hdir]
  · simp

theorem leaves_directory (s : Slot) (content : Bytes) (d : Disk) :
    (d.sight s.place = some .directory → (s.leaves content d).1 = d.sight s.place) ∧
      (d.sight s.backupPlace = some .directory → (s.leaves content d).2 = d.sight s.backupPlace) := by
  unfold leaves
  split
  · exact ⟨fun _ => rfl, fun _ => rfl⟩
  · exact s.attempt_directory content _ _

/-- Of a file and its backup what is no directory is owned, and nothing on the way to it is. -/
structure Granted (own way : Place → Prop) (C : Disk → Prop) (s : Slot) : Prop where
  owns : ∀ place, s.Owns place → own place ∨ ∀ d, C d → d.look? place = some .directory
  dirs : ∀ front, front ≠ [] → front <+: s.dirs → way (s.base ++ front) ∧ ¬own (s.base ++ front)

namespace Granted

theorem way_front (h : s.Granted own way C) {front : List Name} (hne : front ≠ [])
    (hp : front <+: s.way) : way (s.base ++ front) ∧ ¬own (s.base ++ front) := by
  unfold Slot.way at hp
  split at hp
  · exact h.dirs front hne hp
  · exact absurd (List.prefix_nil.mp hp) hne

theorem sight (h : s.Granted own way C) (ha : Alike own way d e) (hd : C d) (he : C e) {place : Place}
    (ho : s.Owns place) : e.sight place = d.sight place := by
  rcases h.owns place ho with ho | hdir
  · exact ha.seen place ho
  · rw [Disk.sight_eq_directory.mpr (hdir e he), Disk.sight_eq_directory.mpr (hdir d hd)]

theorem fault? (h : s.Granted own way C) (ha : Alike own way d e) : s.fault? e = s.fault? d := by
  rw [Slot.fault?, Slot.fault?, Disk.fault_congr fun front hne hp => ha.passed _ (h.dirs front hne hp).1]

theorem passes_iff (h : s.Granted own way C) (ha : Alike own way d e) (place : Place) :
    e.Passes s.base s.way place ↔ d.Passes s.base s.way place :=
  Disk.Passes.congr fun _ hne hp => ha.passed _ (h.way_front hne hp).1

/-- Outside of what it owns a write makes directories on the way. -/
theorem within (h : s.Granted own way C) (hd : C d) (hw : s.Written content d d') :
    Within own way d d' := by
  intro place hno
  by_cases ho : s.Owns place
  · have hdir := Disk.sight_eq_directory.mpr ((h.owns place ho).resolve_left hno d hd)
    obtain ⟨hfile, hbackup⟩ := s.leaves_directory content d
    rcases ho with rfl | rfl
    · exact .inl (hw.file.trans (hfile hdir))
    · exact .inl (hw.backup.trans (hbackup hdir))
  · rcases hw.others place ho with ⟨⟨front, hne, hp, rfl, -⟩, hn, hmade⟩ | ⟨-, hkept⟩
    · exact .inr ⟨(h.way_front hne hp).1, Disk.sight_eq_none.mpr hn, Disk.sight_eq_directory.mpr hmade⟩
    · exact .inl (Disk.sight_of_look? hkept)

/-- A write does the same to trees that are alike where it looks. -/
theorem parallel (h : s.Granted own way C) (ha : Alike own way d e) (hd : C d) (he : C e)
    (hw : s.Written content d d') (hw' : s.Written content e e') :
    s.result content e = s.result content d ∧ Parallel own way d d' e e' := by
  have hfile := h.sight ha hd he (.inl rfl)
  have hbackup := h.sight ha hd he (.inr rfl)
  have hleaves : s.leaves content e = s.leaves content d := by
    rw [leaves, leaves, h.fault? ha, hfile, hbackup]
  refine ⟨by rw [result, result, h.fault? ha, hfile, hbackup], h.within hd hw, h.within he hw',
    fun place hown => ?_, fun place hno hn hn' => ?_⟩
  · by_cases ho : s.Owns place
    · rcases ho with rfl | rfl
      · rw [hw'.file, hw.file, hleaves]
      · rw [hw'.backup, hw.backup, hleaves]
    · -- It is the place of another file, with no part in this write.
      have hkept {d d' : Disk} (hw : s.Written content d d') : d'.sight place = d.sight place := by
        rcases hw.others place ho with ⟨⟨front, hne, hp, rfl, -⟩, -, -⟩ | ⟨-, hk⟩
        · exact absurd hown (h.way_front hne hp).2
        · exact Disk.sight_of_look? hk
      rw [hkept hw', hkept hw, ha.seen place hown]
  · have ho : ¬s.Owns place := by
      intro ho
      have hdir := (h.owns place ho).resolve_left hno d hd
      cases hdir.symm.trans (Disk.sight_eq_none.mp hn)
    rcases hw.others place ho with ⟨hp, -, hmade⟩ | ⟨hp, hk⟩ <;>
      rcases hw'.others place ho with ⟨hp', -, hmade'⟩ | ⟨hp', hk'⟩
    · rw [Disk.sight_eq_directory.mpr hmade', Disk.sight_eq_directory.mpr hmade]
    · exact absurd (Disk.sight_eq_none.mp hn') (hp' ((h.passes_iff ha place).mpr hp))
    · exact absurd (Disk.sight_eq_none.mp hn) (hp ((h.passes_iff ha place).mp hp'))
    · rw [Disk.sight_of_look? hk', Disk.sight_of_look? hk, hn, hn']

/-- A write is local where it has what it needs. -/
theorem local_write (h : s.Granted own way C) (hr : s.Reached d₀)
    (hC : ∀ d, C d → d.Sound ∧ Keeps d₀ d) (hgrow : ∀ d d', C d → Grows own d d' → C d')
    (content : Bytes) (w : Workbench κ) :
    Task.Local own way C C (Task.act (Store.writeBytes s.path content)) w := by
  intro hw v hb hv
  obtain ⟨hs, hk⟩ := hC _ hw
  obtain ⟨hs', hk'⟩ := hC _ hv
  obtain ⟨d', log, hrun, hwritten⟩ := hr.run_writeBytes hs hk content
  obtain ⟨e', log', hrun', hwritten'⟩ := hr.run_writeBytes hs' hk' content
  obtain ⟨hresult, hparallel⟩ := h.parallel hb.disk hw hv hwritten hwritten'
  have hgrows : Grows own v.host.disk e' := hwritten'.grows.narrow fun place ho =>
    (h.owns place ho).imp_right fun hdir => hdir _ hv
  rw [Task.run_act, Task.run_act, hrun, hrun']
  exact ⟨hresult, hb.cache, hb.context, hparallel, hgrows, fun _ _ => hgrow _ _ hv hgrows⟩

end Granted
end Slot
end UnitCache
