import UnitCache.Proofs.CacheInjection
import UnitCache.Proofs.DiskTouch
import UnitCache.Proofs.OutputNames
import UnitCache.Proofs.StoreWrites

namespace UnitCache

open Disk (Touches Linkless placeOf)

variable {α β κ η : Type} {cwd : Place} {S T : Place → Prop} {h : Host}

def Stays (cwd : Place) (S : Place → Prop) (x : Action α) : Prop :=
  ∀ h : Host, h.disk.cwd = cwd → h.disk.Linkless → Touches S h.disk (x.run h).2.disk

namespace Stays

theorem of_quiet {x : Action α} (hx : ∀ h, (x.run h).2.disk = h.disk) : Stays cwd S x := by
  intro h _ hl
  rw [hx]
  exact .refl hl

/-- What an action touches from a host, with what follows it. -/
theorem bind_at {x : Action α} {f : α → Action β} (hx : Touches S h.disk (x.run h).2.disk)
    (hc : h.disk.cwd = cwd) (hf : ∀ a, Stays cwd S (f a)) :
    Touches S h.disk ((x >>= f).run h).2.disk := by
  rcases hr : x.run h with ⟨e | a, h'⟩ <;> rw [hr] at hx
  · rw [run_bind_error hr]
    exact hx
  · rw [run_bind_ok hr]
    exact hx.trans (hf a h' (hx.cwd.trans hc) hx.linkless)

theorem bind {x : Action α} {f : α → Action β} (hx : Stays cwd S x)
    (hf : ∀ a, Stays cwd S (f a)) : Stays cwd S (x >>= f) :=
  fun h hc hl => bind_at (hx h hc hl) hc hf

theorem get_bind {f : Host → Action α} (hf : ∀ h : Host, h.disk.cwd = cwd → h.disk.Linkless →
    Touches S h.disk ((f h).run h).2.disk) : Stays cwd S (get >>= f) := by
  intro h hc hl
  rw [run_bind_ok (rfl : (get : Action Host).run h = (.ok h, h))]
  exact hf h hc hl

theorem ask {f : Disk → α} : Stays cwd S (Action.ask f) := of_quiet fun _ => rfl

theorem report (r : LogRecord) : Stays cwd S (Action.report r) := of_quiet fun _ => rfl

theorem throw (e : Error) : Stays cwd S (throw e : Action α) := of_quiet fun _ => rfl

theorem pure (a : α) : Stays cwd S (pure a : Action α) := of_quiet fun _ => rfl

theorem reading (p : Path) (f : Disk → Except Fault α) : Stays cwd S (Action.reading p f) :=
  of_quiet fun h => by rw [Action.run_reading]

theorem setDisk {d : Disk} (hd : Touches S h.disk d) :
    Touches S h.disk ((Action.setDisk d).run h).2.disk := hd

theorem changing {p : Path} {f : Disk → Except Fault Disk}
    (hf : ∀ d d' : Disk, d.cwd = cwd → d.Linkless → f d = .ok d' → Touches S d d') :
    Stays cwd S (Action.changing p f) := by
  refine get_bind fun h hc hl => ?_
  cases hd : f h.disk with
  | error e => exact .refl hl
  | ok d => exact hf h.disk d hc hl hd

theorem makeDirectories (p : Path) (blame : Fault → Error) :
    Stays cwd S (Action.makeDirectories p blame) := by
  intro h _ hl
  rw [Action.run_makeDirectories rfl]
  exact Disk.makeFirst_touches hl p.ancestors

end Stays

def FileOrBackup (cwd : Place) (p : Path) (place : Place) : Prop :=
  place = placeOf cwd p ∨ place = placeOf cwd (UnitName.backup p)

namespace Store

theorem write_stays {p : Path} {content : Bytes} {d d' : Disk} (hc : d.cwd = cwd)
    (hl : d.Linkless) (hw : d.write p content = .ok d') : Touches (FileOrBackup cwd p) d d' :=
  (Disk.write_touches hl hw).mono fun _ hp => .inl (hc ▸ hp)

theorem takeBack_stays (p : Path) {b : Option Path} (hb : ∀ q ∈ b, q = UnitName.backup p) :
    Stays cwd (FileOrBackup cwd p) (takeBack p b) := by
  cases b with
  | none => exact .pure ()
  | some q =>
    obtain rfl := hb q rfl
    refine .get_bind fun h hc hl => ?_
    cases hr : h.disk.rename (UnitName.backup p) p with
    | ok d =>
      exact (Disk.rename_touches hl hr).mono fun place hp =>
        (hp.imp (fun he => hc ▸ he) (fun he => hc ▸ he)).symm
    | error f => exact .refl hl

theorem undoWrite_stays (p : Path) (fault : Fault) {b : Option Path}
    (hb : ∀ q ∈ b, q = UnitName.backup p) :
    Stays cwd (FileOrBackup cwd p) (undoWrite p fault b) := by
  have hback : Stays cwd (FileOrBackup cwd p) (takeBack p b) := takeBack_stays p hb
  refine (Stays.report _).bind fun _ => .get_bind fun h hc hl => ?_
  cases hr : h.disk.remove p with
  | ok d =>
    have hd : Touches (FileOrBackup cwd p) h.disk d :=
      (Disk.remove_touches hl hr).mono fun _ hp => .inl (hc ▸ hp)
    exact Stays.bind_at (Stays.setDisk hd) hc fun _ => hback
  | error f =>
    cases f with
    | notFound => exact hback h hc hl
    | _ => exact (Stays.report _).bind (fun _ => hback) h hc hl

theorem putContent_stays (p : Path) (content : Bytes) {b : Option Path}
    (hb : ∀ q ∈ b, q = UnitName.backup p) :
    Stays cwd (FileOrBackup cwd p) (putContent p content b) := by
  refine .get_bind fun h hc hl => ?_
  cases hw : h.disk.write p content with
  | ok d => exact write_stays hc hl hw
  | error f => exact ((undoWrite_stays p f hb).bind fun _ => .throw _) h hc hl

theorem writeReady_stays (p : Path) (content : Bytes) :
    Stays cwd (FileOrBackup cwd p) (writeReady p content) := by
  refine Stays.ask.bind fun present => ?_
  cases present with
  | false => exact putContent_stays p content (by simp)
  | true =>
    refine (Stays.reading p _).bind fun old => ?_
    by_cases ho : old = content
    · simp only [ho, if_true]
      exact .pure false
    · simp only [ho, if_false]
      refine Stays.bind (Stays.changing fun d d' hc hl hr => ?_) fun _ =>
        putContent_stays p content (by simp)
      exact (Disk.rename_touches hl hr).mono fun place hp =>
        hp.imp (fun he => hc ▸ he) (fun he => hc ▸ he)

/-- A write touches its file and the backup of it, however it ends. -/
theorem writeBytes_stays (p : Path) (content : Bytes) :
    Stays cwd (FileOrBackup cwd p) (writeBytes p content) := by
  refine Stays.ask.bind fun present => ?_
  cases present with
  | true => exact writeReady_stays p content
  | false => exact (Stays.makeDirectories _ _).bind fun _ => writeReady_stays p content

end Store

def OutputPlace (cwd : Place) (root : Path) (name : String) (place : Place) : Prop :=
  FileOrBackup cwd (UnitName.path root name UnitName.binaryExtension) place

theorem placeOf_of_below {root p : Path} (h : root.Below p) (cwd : Place) :
    ∃ ns : List Name, ns ≠ [] ∧ placeOf cwd p = placeOf cwd root ++ ns := by
  obtain ⟨ns, hne, hc⟩ := h
  exact ⟨ns, hne, by rw [placeOf, placeOf, hc, List.foldl_append, Disk.foldl_step_names]⟩

/-- The outputs of confined names are placed below the root. -/
theorem OutputPlace.below {root : Path} {name : String} {place : Place}
    (h : OutputPlace cwd root name place) (hc : UnitName.Confined name) :
    ∃ ns : List Name, ns ≠ [] ∧ place = placeOf cwd root ++ ns := by
  rcases h with rfl | rfl
  · exact placeOf_of_below (UnitName.below_path hc (by decide) (by decide) root) cwd
  · exact placeOf_of_below (UnitName.below_backup hc (by decide) (by decide) root) cwd

namespace Cache

variable {k : ContextKind κ η} {w : Workbench κ} {root : Path}

theorem persist_touches (root : Path) (name : String) (bytes : Bytes) (hl : w.host.disk.Linkless) :
    Touches (OutputPlace w.host.disk.cwd root name) w.host.disk
      ((persist root name bytes).run w).2.host.disk := by
  have hwrite : Touches (OutputPlace w.host.disk.cwd root name) w.host.disk
      ((Store.writeBytes (UnitName.path root name UnitName.binaryExtension) bytes).run
        w.host).2.disk :=
    Store.writeBytes_stays (UnitName.path root name UnitName.binaryExtension) bytes w.host rfl hl
  rw [persist, Task.run_act]
  dsimp only
  refine Stays.bind_at hwrite rfl fun changed => ?_
  cases changed with
  | true => exact .report _
  | false => exact .pure ()

theorem persistAll_touches (root : Path) (as : List (String × Bytes)) (hl : w.host.disk.Linkless) :
    Touches (fun place => ∃ a ∈ as, OutputPlace w.host.disk.cwd root a.1 place) w.host.disk
      ((as.forM (fun a => persist root a.1 a.2)).run w).2.host.disk := by
  induction as generalizing w with
  | nil => exact .refl hl
  | cons a as ih =>
    have hfirst := (persist_touches root a.1 a.2 hl).mono
      (T := fun place => ∃ b ∈ a :: as, OutputPlace w.host.disk.cwd root b.1 place)
      fun place hp => ⟨a, List.mem_cons_self, hp⟩
    rw [List.forM]
    rcases hr : (persist root a.1 a.2).run w with ⟨e | _, w₁⟩ <;> rw [hr] at hfirst
    · rw [run_bind_error hr]
      exact hfirst
    · rw [run_bind_ok hr]
      refine hfirst.trans ((ih hfirst.linkless).mono ?_)
      rintro place ⟨b, hb, hp⟩
      exact ⟨b, List.mem_cons_of_mem a hb, hfirst.cwd ▸ hp⟩

/-- Injecting leaves the host alone. -/
theorem host_injectMissing (as : List (String × Bytes)) (w : Workbench κ) :
    ((injectMissing k as).run w).2.host = w.host := by
  have hi := injectMissing_injecting k as w
  generalize (injectMissing k as).run w = out at hi
  cases hi <;> rfl

theorem deliver_touches (r : CompileResult) (hl : w.host.disk.Linkless)
    (hroot : w.cache.persistenceRoot? w.host.disk = some root) :
    Touches (fun place => ∃ a ∈ r.artifacts.entries, OutputPlace w.host.disk.cwd root a.1 place)
      w.host.disk ((deliver persist k r).run w).2.host.disk := by
  rw [deliver]
  cases r.artifacts.get? r.unit with
  | none => exact .refl hl
  | some bytes =>
    have hkeep := persistAll_touches root r.artifacts.entries hl
    simp only [keepAll, bind_assoc]
    rw [run_bind_ok (Task.run_get w), hroot]
    simp only
    rcases hp : (r.artifacts.entries.forM fun a => persist root a.1 a.2).run w with ⟨e | _, w₁⟩ <;>
      rw [hp] at hkeep
    · rw [run_bind_error hp]
      exact hkeep
    · rw [run_bind_ok hp]
      have hi := run_inject k r.unit bytes w₁
      rcases hx : (k.inject r.unit bytes w₁.context).1 with e | _ <;> rw [hx] at hi
      · rw [run_bind_error hi]
        exact hkeep
      · rw [run_bind_ok hi, host_injectMissing]
        exact hkeep

end Cache

namespace Classpath

theorem write_touches {c : Classpath} {root : Path} (hroot : c.outputRoot = some root)
    (name : String) (bytes : Bytes) (hl : h.disk.Linkless) :
    Touches (· = placeOf h.disk.cwd (UnitName.path root name UnitName.binaryExtension)) h.disk
      ((c.write name bytes).run h).2.disk := by
  rw [write, hroot]
  have hput (p : Path) : Stays h.disk.cwd (· = placeOf h.disk.cwd p)
      (Action.changing p (·.write p bytes)) :=
    Stays.changing fun d d' hc hl hw => hc ▸ Disk.write_touches hl hw
  simp only
  split
  · exact ((Stays.makeDirectories _ _).bind fun _ => hput _) h rfl hl
  · exact (hput _) h rfl hl

end Classpath

/-- What stands at a place is other than before, and no directory made where nothing was. -/
def Disk.Rewritten (d d' : Disk) (place : Place) : Prop :=
  d'.look? place ≠ d.look? place ∧
    ¬(d.look? place = none ∧ d'.look? place = some .directory)

theorem Disk.Touches.of_rewritten {d d' : Disk} {place : Place} (h : Touches S d d')
    (hr : d.Rewritten d' place) : S place := by
  by_contra hn
  rcases h.others place hn with he | hm
  · exact hr.1 he
  · exact hr.2 hm

/-- In trees without links, what a load persists and what a resolver writes goes to the files of the
artifacts and their backups, and for confined names these are below the root. No other names stay
below every root. -/
theorem compiled_output_below (k : ContextKind κ η) :
    (∀ name, UnitName.Confined name ↔
      ∀ root : Path, root.Below (UnitName.path root name UnitName.binaryExtension)) ∧
    (∀ (r : CompileResult) (w : Workbench κ) (root : Path) (place : Place),
      w.host.disk.Linkless → w.cache.persistenceRoot? w.host.disk = some root →
      w.host.disk.Rewritten ((Cache.deliver Cache.persist k r).run w).2.host.disk place →
      ∃ a ∈ r.artifacts.entries, OutputPlace w.host.disk.cwd root a.1 place ∧
        (UnitName.Confined a.1 →
          ∃ ns : List Name, ns ≠ [] ∧ place = placeOf w.host.disk.cwd root ++ ns)) ∧
    (∀ (c : Classpath) (root : Path) (name : String) (bytes : Bytes) (h : Host) (place : Place),
      h.disk.Linkless → c.outputRoot = some root →
      h.disk.Rewritten ((c.write name bytes).run h).2.disk place →
      place = placeOf h.disk.cwd (UnitName.path root name UnitName.binaryExtension) ∧
        (UnitName.Confined name →
          ∃ ns : List Name, ns ≠ [] ∧ place = placeOf h.disk.cwd root ++ ns)) := by
  refine ⟨fun name => UnitName.confined_iff_below name (by decide) (by decide),
    fun r w root place hl hroot hw => ?_, fun c root name bytes h place hl hroot hw => ?_⟩
  · obtain ⟨a, ha, hp⟩ := (Cache.deliver_touches r hl hroot).of_rewritten hw
    exact ⟨a, ha, hp, hp.below⟩
  · have hp := (Classpath.write_touches hroot name bytes hl).of_rewritten hw
    exact ⟨hp, OutputPlace.below (.inl hp)⟩

/-- An output with the empty name goes beside the output root. -/
theorem compiled_output_below_beside :
    ∃ (c : Classpath) (root : Path) (h : Host), c.outputRoot = some root ∧
      ¬UnitName.Confined "" ∧ placeOf h.disk.cwd root = ["out".toList] ∧
      h.disk.Rewritten ((c.write "" [1]).run h).2.disk ["out.luac".toList] ∧
      placeOf h.disk.cwd (UnitName.path root "" UnitName.binaryExtension) = ["out.luac".toList] := by
  obtain ⟨c, hc⟩ : ∃ c : Classpath, c = ⟨[], some ⟨"out".toList⟩, false⟩ := ⟨_, rfl⟩
  have hroot : c.outputRoot = some ⟨"out".toList⟩ := by rw [hc]
  have hlook : ((c.write "" [1]).run ⟨{}, []⟩).2.disk.look? ["out.luac".toList] =
      some (.file 0 [1]) := by
    rw [hc]
    cbv
  have hw : ({} : Disk).Rewritten ((c.write "" [1]).run ⟨{}, []⟩).2.disk ["out.luac".toList] := by
    have hnone : ({} : Disk).look? ["out.luac".toList] = none := rfl
    refine ⟨fun he => ?_, fun hm => ?_⟩
    · rw [hlook, hnone] at he
      cases he
    · rw [hlook] at hm
      cases hm.2
  have hl : ({} : Disk).Linkless := by
    intro place target ht
    by_cases hp : place = [] <;> simp [Disk.look?, Disk.lookup, hp] at ht
  obtain ⟨-, -, hout⟩ := compiled_output_below (Cache.refusing "")
  have hplace := hout c ⟨"out".toList⟩ "" [1] ⟨{}, []⟩ ["out.luac".toList] hl hroot hw
  exact ⟨c, ⟨"out".toList⟩, ⟨{}, []⟩, hroot, by decide, by rfl, hw, hplace.1.symm⟩

end UnitCache
