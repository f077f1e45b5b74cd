import UnitCache.Proofs.DiskChanges
import UnitCache.Proofs.Effects
import UnitCache.Proofs.PathComponents

namespace UnitCache

open UnitCache.Path (Component)

namespace Disk

variable {d d' : Disk} {last : Last} {links : Nat} {here : Place} {slash : Bool} {ns : List Name}
  {spot : Spot} {p q : Path} {content : Bytes} {S T : Place → Prop}

def Linkless (d : Disk) : Prop := ∀ place target, d.look? place ≠ some (.link target)

def IsTree (d : Disk) : Prop :=
  ∀ place n, d.look? (place ++ [n]) ≠ none → d.look? place = some .directory

def step (here : Place) : Component → Place
  | .root => []
  | .here => here
  | .up => here.dropLast
  | .name n => here ++ [n]

def placeOf (cwd : Place) (p : Path) : Place := p.components.foldl step cwd

/-- Names lead down. -/
theorem foldl_step_names (here : Place) (ns : List Name) :
    (ns.map Component.name).foldl step here = here ++ ns := by
  induction ns generalizing here with
  | nil => exact (List.append_nil here).symm
  | cons n ns ih =>
    rw [List.map_cons, List.foldl_cons, ih, step, List.append_assoc]
    rfl

theorem walk_linkless (h : d.Linkless) (hn : ∀ n ∈ ns, n ≠ [])
    (hw : walk d last links here slash ns = .ok spot) :
    spot.place = (ns.filterMap Component.ofPiece).foldl step here ∧
      spot.entry = d.look? spot.place := by
  induction ns generalizing here with
  | nil =>
    rw [walk] at hw
    cases hw
    exact ⟨rfl, rfl⟩
  | cons n rest ih =>
    have hrest := fun m hm => hn m (List.mem_cons_of_mem _ hm)
    rw [walk] at hw
    split at hw
    · rename_i hdot
      rw [hdot]
      exact ih hrest hw
    split at hw
    · rename_i hup
      rw [hup]
      exact ih hrest hw
    rename_i hdot hup
    have hpiece : Component.ofPiece n = some (.name n) :=
      Path.ofPiece_of_name (by simp [Path.isNoise, hn n List.mem_cons_self, hdot]) hup
    rw [List.filterMap_cons_some hpiece, List.foldl_cons]
    split at hw
    · cases hw
    split at hw
    · cases hw
    simp only at hw
    split at hw
    · rename_i hf
      split at hw
      · rename_i hr
        cases hw
        exact ⟨by rw [hr]; rfl, hf.symm⟩
      · cases hw
    · exact ih hrest hw
    · rename_i hf
      split at hw
      · rename_i hr
        cases hw
        exact ⟨by rw [hr.1]; rfl, hf.symm⟩
      · cases hw
    · rename_i hf
      exact absurd hf (h _ _)

theorem names_body (p : Path) : names p = p.body.filter (· ≠ []) := by
  rw [← Path.names_ofBody p.isAbsolute fun s hs => Path.no_slash_of_mem_body hs, Path.ofBody_body]

/-- Empty pieces are no components. -/
theorem filterMap_names (p : Path) :
    (names p).filterMap Component.ofPiece = p.body.filterMap Component.ofPiece := by
  rw [names_body, List.filterMap_filter]
  refine List.filterMap_congr fun s _ => ?_
  by_cases hs : s = [] <;> simp [hs, Component.ofPiece, Path.isNoise]

/-- The names of a path lead from where it starts to the place that it spells. -/
theorem foldl_names (d : Disk) (p : Path) :
    ((names p).filterMap Component.ofPiece).foldl step (d.start p) = placeOf d.cwd p := by
  rw [filterMap_names, placeOf, Path.components_eq, start]
  cases p.isAbsolute with
  | true => rfl
  | false =>
    by_cases hh : p.body.head? = some ['.']
    · obtain ⟨ps, hb⟩ := List.head?_eq_some_iff.mp hh
      rw [hb]
      rfl
    · rw [Path.componentsOf_relative hh]
      rfl

theorem find_linkless (h : d.Linkless) (hf : d.find last p = .ok spot) :
    spot = ⟨placeOf d.cwd p, d.look? (placeOf d.cwd p)⟩ := by
  obtain ⟨hplace, hentry⟩ := walk_linkless h (fun n hn => by
    simpa using (List.mem_filter.mp hn).2) (walk_of_find hf)
  rw [foldl_names] at hplace
  cases spot
  simp only at hplace hentry
  rw [hentry, hplace]

/-- A change of a tree without links that gives it none, and touches only some places; elsewhere
directories may be made where nothing was. -/
structure Touches (S : Place → Prop) (d d' : Disk) : Prop where
  cwd : d'.cwd = d.cwd
  linkless : d'.Linkless
  others : ∀ place, ¬S place → d'.look? place = d.look? place ∨
    d.look? place = none ∧ d'.look? place = some .directory

namespace Touches

theorem refl (h : d.Linkless) : Touches S d d := ⟨rfl, h, fun _ _ => .inl rfl⟩

theorem trans {d'' : Disk} (h : Touches S d d') (h' : Touches S d' d'') : Touches S d d'' := by
  refine ⟨h'.cwd.trans h.cwd, h'.linkless, fun place hp => ?_⟩
  rcases h'.others place hp with he | ⟨hn, hd⟩
  · rw [he]
    exact h.others place hp
  · rcases h.others place hp with he | ⟨-, hd'⟩
    · exact .inr ⟨he ▸ hn, hd⟩
    · exact absurd (hn.symm.trans hd') (by simp)

theorem mono (h : Touches S d d') (hs : ∀ place, S place → T place) : Touches T d d' :=
  ⟨h.cwd, h.linkless, fun place hp => h.others place fun hn => hp (hs place hn)⟩

/-- A change at one place that puts no link there. -/
theorem single {place : Place} (h : d.Linkless) (hc : d'.cwd = d.cwd)
    (hself : ∀ target, d'.look? place ≠ some (.link target))
    (hother : ∀ there, there ≠ place → d'.look? there = d.look? there) :
    Touches (· = place) d d' := by
  refine ⟨hc, fun there target hl => ?_, fun there hp => .inl (hother there hp)⟩
  by_cases hp : there = place
  · exact hself target (hp ▸ hl)
  · rw [hother there hp] at hl
    exact h there target hl

end Touches

theorem ne_root {place : Place} (h : d.look? place ≠ some .directory) : place ≠ [] := by
  rintro rfl
  exact h rfl

theorem ne_root_of_look? {place : Place} {e : Entry} (h : d.look? place = some e)
    (he : e ≠ .directory) : place ≠ [] :=
  ne_root fun hd => he (Option.some.inj (h.symm.trans hd))

theorem write_touches (h : d.Linkless) (hw : d.write p content = .ok d') :
    Touches (· = placeOf d.cwd p) d d' := by
  obtain ⟨place, e, hf, hne, rfl⟩ := write_ok hw
  obtain ⟨rfl, rfl⟩ := Spot.mk.inj (find_linkless h hf)
  obtain ⟨id, hid⟩ := look?_setContent d (ne_root hne) content
  exact .single h (cwd_setContent ..) (fun target hl => by simp [hid] at hl)
    fun there hp => look?_setContent_of_ne d hp content

theorem rename_touches (h : d.Linkless) (hr : d.rename p q = .ok d') :
    Touches (fun place => place = placeOf d.cwd p ∨ place = placeOf d.cwd q) d d' := by
  obtain ⟨source, e, target, e', hs, ht, hne, hne', rfl⟩ := rename_ok hr
  obtain ⟨rfl, hes⟩ := Spot.mk.inj (find_linkless h hs)
  obtain ⟨rfl, rfl⟩ := Spot.mk.inj (find_linkless h ht)
  by_cases hst : placeOf d.cwd p = placeOf d.cwd q
  · rw [move, if_pos hst]
    exact .refl h
  have hsource : placeOf d.cwd p ≠ [] := ne_root fun hp => hne (Option.some.inj (hes.trans hp))
  have hlook := look?_move d hsource (ne_root hne') hst e
  refine ⟨cwd_move .., fun place target hl => ?_, fun place hp => ?_⟩
  · rw [hlook] at hl
    split at hl
    · exact h _ target (hes ▸ hl)
    split at hl
    · cases hl
    · exact h place target hl
  · rw [not_or] at hp
    exact .inl (by rw [hlook, if_neg hp.2, if_neg hp.1])

theorem look?_erase (d : Disk) {place : Place} (h : place ≠ []) (there : Place) :
    (d.erase place).look? there = if there = place then none else d.look? there := by
  split
  · rename_i ht
    subst ht
    rw [look?, if_neg h]
    exact lookup_filter_self _ _
  · rename_i ht
    rw [look?, look?]
    refine ite_congr rfl (fun _ => rfl) fun _ => ?_
    exact lookup_filter_ne _ ht

theorem remove_ok (h : d.remove p = .ok d') : ∃ place e, d.find .name p = .ok ⟨place, some e⟩ ∧
    e ≠ .directory ∧ endsInSlash p = false ∧ d' = d.erase place := by
  unfold remove at h
  split at h
  · cases h
  · cases h
  · cases h
  · rename_i place e hne hf
    split at h
    · cases h
    · rename_i hs
      cases h
      exact ⟨place, e, hf, hne, by simpa using hs, rfl⟩

theorem cwd_erase (d : Disk) (place : Place) : (d.erase place).cwd = d.cwd := by
  unfold erase release
  split <;> rfl

theorem remove_touches (h : d.Linkless) (hr : d.remove p = .ok d') :
    Touches (· = placeOf d.cwd p) d d' := by
  obtain ⟨place, e, hf, hne, -, rfl⟩ := remove_ok hr
  obtain ⟨rfl, he⟩ := Spot.mk.inj (find_linkless h hf)
  have hroot : placeOf d.cwd p ≠ [] := ne_root fun hp => hne (Option.some.inj (he.trans hp))
  have hlook := look?_erase d hroot
  exact .single h (cwd_erase d _) (fun target hl => by simp [hlook] at hl)
    fun there hp => by rw [hlook, if_neg hp]

theorem makeDirectory_touches (h : d.Linkless) (hm : d.makeDirectory p = .ok d') :
    Touches S d d' := by
  obtain ⟨place, hf, rfl⟩ := makeDirectory_ok hm
  obtain ⟨rfl, hn⟩ := Spot.mk.inj (find_linkless h hf)
  have hroot : placeOf d.cwd p ≠ [] := ne_root fun hp => nomatch hn.trans hp
  have hself := look?_set_self d hroot .directory
  have hother (there : Place) (hp : there ≠ placeOf d.cwd p) := look?_set_of_ne d hp .directory
  have hsingle : Touches (· = placeOf d.cwd p) d (d.set (placeOf d.cwd p) .directory) :=
    .single h rfl (fun target hl => by simp [hself] at hl) hother
  refine ⟨rfl, hsingle.linkless, fun place _ => ?_⟩
  by_cases hp : place = placeOf d.cwd p
  · exact .inr ⟨hp ▸ hn.symm, hp ▸ hself⟩
  · exact .inl (hother place hp)

/-- Making directories touches nothing, however it ends. -/
theorem makeFirst_touches (h : d.Linkless) (ps : List Path) : Touches S d (d.makeFirst ps).1 :=
  makeFirst_induction (fun hd hm => hd.trans (makeDirectory_touches hd.linkless hm)) (.refl h) ps

end Disk
end UnitCache
