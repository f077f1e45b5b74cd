import UnitCache.Classpath
import UnitCache.Proofs.DiskTouch
import UnitCache.Proofs.UnitFiles

namespace UnitCache

open UnitCache.Path (Component)

namespace Path

open Disk (IsProper placeOf)

variable {p : Path} {ns : List Name}

/-- A path whose components are names starts neither at the root nor at a dot. -/
theorem relative_of_components (h : p.components = ns.map .name) : p.isAbsolute = false := by
  by_contra ha
  have hroot : Component.root ∈ p.components := by
    rw [components, if_pos (by simpa using ha)]
    exact List.mem_cons_self
  rw [h] at hroot
  simp at hroot

theorem head_body_of_components (h : p.components = ns.map .name) : p.body.head? ≠ some ['.'] := by
  intro hhead
  obtain ⟨ps, hbody⟩ := List.head?_eq_some_iff.mp hhead
  have hhere : Component.here ∈ p.components := by
    rw [components_eq, relative_of_components h, hbody]
    exact List.mem_cons_self
  rw [h] at hhere
  simp at hhere

theorem filterMap_body_of_components (h : p.components = ns.map .name) :
    p.body.filterMap Component.ofPiece = ns.map .name := by
  rw [← componentsOf_relative (head_body_of_components h), ← relative_of_components h, ← components_eq, h]

theorem isProper_of_ofPiece {s n : List Char} (h : Component.ofPiece s = some (.name n))
    (hs : '/' ∉ s) : IsProper n := by
  unfold Component.ofPiece at h
  split at h
  · cases h
  rename_i hnoise
  split at h
  · cases h
  rename_i hup
  obtain rfl := Component.name.inj (Option.some.inj h)
  obtain ⟨hne, hdot⟩ : s ≠ [] ∧ s ≠ ['.'] := by simpa [isNoise] using hnoise
  exact ⟨⟨⟨hne, hs⟩, hdot⟩, hup⟩

theorem isProper_of_components (h : p.components = ns.map .name) : ∀ n ∈ ns, IsProper n := by
  intro n hn
  have hmem : Component.name n ∈ p.body.filterMap Component.ofPiece := by
    rw [filterMap_body_of_components h]
    exact List.mem_map_of_mem hn
  obtain ⟨s, hs, hpiece⟩ := List.mem_filterMap.mp hmem
  exact isProper_of_ofPiece hpiece (no_slash_of_mem_body hs)

/-- A path of names goes on from the components of the path that it is joined to. -/
theorem components_join_of_components (root : Path) (h : p.components = ns.map .name) :
    (root.join p).components = root.components ++ ns.map .name := by
  have hbody : p.body = cutAt '/' p.chars := by
    rw [body, relative_of_components h]
    rfl
  rw [← filterMap_body_of_components h, hbody]
  exact components_join root (relative_of_components h) (hbody ▸ head_body_of_components h)

theorem placeOf_join_of_components (d : Disk) (root : Path) (h : p.components = ns.map .name) :
    placeOf d.cwd (root.join p) = placeOf d.cwd root ++ ns := by
  rw [placeOf, components_join_of_components root h, List.foldl_append, Disk.foldl_step_names]
  rfl

end Path

namespace Disk

variable {d : Disk} {root : Path} {s : List Char} {ns : List Name} {n : Name}

structure Spells (s : List Char) (ns : List Name) : Prop where
  ne_nil : ns ≠ []
  proper : ∀ n ∈ ns, IsProper n
  relative : (Path.mk s).isAbsolute = false
  no_slash : s.getLast? ≠ some '/'
  names : names ⟨s⟩ = ns

theorem spells_pasteWith (hne : ns ≠ []) (hp : ∀ n ∈ ns, IsProper n) : Spells (pasteWith '/' ns) ns := by
  have hspelled : Path.Spelled false ns := by
    refine ⟨fun s hs => (hp s hs).no_slash, .inr fun hh => ?_⟩
    exact (hp [] (List.mem_of_mem_head? hh)).ne_nil rfl
  have hlast : (pasteWith '/' ns).getLast? ≠ some '/' := by
    obtain ⟨front, n, rfl⟩ := (List.eq_nil_or_concat' ns).resolve_left hne
    have hn := hp n List.mem_concat_self
    intro h
    refine hn.no_slash (List.mem_of_getLast? (Eq.trans ?_ h))
    by_cases hf : front = []
    · rw [hf]
      rfl
    · rw [Path.pasteWith_concat '/' hf, List.append_cons, List.getLast?_append_of_ne_nil _ hn.ne_nil]
  refine ⟨hne, hp, hspelled.isAbsolute_ofBody, hlast, ?_⟩
  rw [Path.names_paste fun s hs => (hp s hs).no_slash]
  exact List.filter_eq_self.mpr fun s hs => by simpa using (hp s hs).ne_nil

theorem filterMap_ofPiece (hp : ∀ n ∈ ns, IsProper n) : ns.filterMap Component.ofPiece = ns.map .name := by
  rw [← List.filterMap_eq_map]
  refine List.filterMap_congr fun n hn => ?_
  exact Path.ofPiece_of_name (hp n hn).toIsNamed.not_noise (hp n hn).ne_up

namespace Spells

theorem components (h : Spells s ns) : (Path.mk s).components = ns.map .name := by
  have hhead : (Path.mk s).body.head? ≠ some ['.'] := by
    intro hdot
    have hmem : ['.'] ∈ Disk.names ⟨s⟩ := by
      rw [names_body]
      exact List.mem_filter.mpr ⟨List.mem_of_mem_head? hdot, by decide⟩
    exact (h.proper _ (h.names ▸ hmem)).ne_dot rfl
  rw [Path.components_eq, h.relative, Path.componentsOf_relative hhead, ← filterMap_names, h.names,
    filterMap_ofPiece h.proper]

theorem names_join (h : Spells s ns) (root : Path) : Disk.names (root.join ⟨s⟩) = Disk.names root ++ ns := by
  rw [Path.names_join_of_relative root h.relative, h.names]

theorem start_join (h : Spells s ns) (d : Disk) (root : Path) : d.start (root.join ⟨s⟩) = d.start root := by
  rw [start, start, Path.isAbsolute_join_of_relative root h.relative]

theorem chars_ne_nil (h : Spells s ns) : s ≠ [] := by
  rintro rfl
  exact h.ne_nil h.names.symm

theorem endsInSlash_join (h : Spells s ns) (root : Path) : endsInSlash (root.join ⟨s⟩) = false := by
  rw [endsInSlash, Path.getLast?_join_of_relative root h.relative h.chars_ne_nil]
  exact decide_eq_false h.no_slash

/-- The names are where the path leads below the place of the root. -/
theorem placeOf_join (h : Spells s ns) (d : Disk) (root : Path) :
    placeOf d.cwd (root.join ⟨s⟩) = placeOf d.cwd root ++ ns :=
  Path.placeOf_join_of_components d root h.components

/-- In a tree, what has a file below it is a directory. -/
theorem isDirectory (h : Spells s ns) (ht : d.IsTree) (hr : root.chars ≠ [])
    (hf : d.isFile (root.join ⟨s⟩) = true) : d.isDirectory root = true := by
  unfold isFile at hf
  split at hf
  · rename_i place id content hs
    have hfind := find_of_stat hs
    have hl := legible_of_find (ne_nil_of_find hfind) (.inl ⟨_, hfind⟩)
    have hwalk := walk_of_find hfind
    rw [h.names_join, h.start_join] at hwalk
    obtain ⟨links, there, hleads, hwalk⟩ := leads_of_walk h.ne_nil hwalk
    obtain ⟨n, rest, rfl⟩ := List.exists_cons_of_ne_nil h.ne_nil
    have hthere := ht there n
      (look?_of_walk (h.proper n List.mem_cons_self).isPlain hwalk (by simp))
    have hlegible := hl.of_prefix (Path.prefix_join_of_relative hr h.relative)
    exact Stands.isDirectory ⟨links, hleads, hthere⟩ hr hlegible
  · cases hf

end Spells

end Disk

open Disk (Spells)

/-- The files that may hold a module are sources, and their names are written with slashes. -/
theorem Classpath.pasted_candidate {name f : String} (hn : UnitName.isValid name = true)
    (hf : f ∈ candidates name) : ∃ ns n, (∀ m ∈ ns ++ [n ++ ".lua".toList], Disk.IsProper m) ∧
      f.toList = pasteWith '/' (ns ++ [n ++ ".lua".toList]) := by
  let u : UnitFile := ⟨name, UnitName.sourceExtension, hn, .inl rfl⟩
  have hresource : (UnitName.resource name).toList = pasteWith '/' (u.dirs ++ [u.stem]) := by
    rw [UnitName.resource, String.toList_ofList, u.dirs_stem]
  rcases List.mem_cons.mp hf with rfl | hf
  · refine ⟨u.dirs, u.stem, u.place_names_proper, ?_⟩
    rw [String.toList_append, hresource, Path.pasteWith_concat_append]
  · obtain rfl := List.mem_singleton.mp hf
    refine ⟨u.dirs ++ [u.stem], "init".toList, fun m hm => ?_, ?_⟩
    · have hinit : Disk.IsProper "init.lua".toList := ⟨⟨⟨by decide, by decide⟩, by decide⟩, by decide⟩
      rcases List.mem_append.mp hm with hm | hm
      · exact UnitFile.isProper_of_mem hm
      · exact List.mem_singleton.mp hm ▸ hinit
    · rw [String.toList_append, hresource, Path.pasteWith_concat '/' (List.concat_ne_nil _ _)]
      rfl

theorem Classpath.spells_candidate {name f : String} (hn : UnitName.isValid name = true)
    (hf : f ∈ candidates name) : ∃ ns n, Spells f.toList (ns ++ [n ++ ".lua".toList]) := by
  obtain ⟨ns, n, hproper, hpaste⟩ := pasted_candidate hn hf
  exact ⟨ns, n, hpaste ▸ Disk.spells_pasteWith (by simp) hproper⟩

namespace Classpath

variable {d : Disk} {root : Path} {f name : String} {c : Classpath} {e : ClasspathEntry}
  {before after : List ClasspathEntry} {m : ModuleSource}

theorem inEntry_missing (name : String) (h : d.isFile (root.join (.ofString f)) = false) :
    inEntry d name f (.directory root) = .ok none := by
  simp [inEntry, h]

theorem firstFound_append {α : Type} {rs : List (Except Error (Option α))}
    (h : ∀ r ∈ rs, r = .ok none) (rs' : List (Except Error (Option α))) :
    firstFound (rs ++ rs') = firstFound rs' := by
  induction rs with
  | nil => rfl
  | cons r rs ih =>
    obtain ⟨rfl, hrest⟩ := List.forall_mem_cons.mp h
    exact ih hrest

/-- What entries have under a name that none of them has. -/
theorem flatMap_inEntry_none {es : List ClasspathEntry}
    (h : ∀ x ∈ es, ∀ f ∈ candidates name, inEntry d name f x = .ok none)
    (r : Except Error (Option ModuleSource))
    (hr : r ∈ es.flatMap fun e => (candidates name).map fun f => inEntry d name f e) : r = .ok none := by
  obtain ⟨x, hx, hr⟩ := List.mem_flatMap.mp hr
  obtain ⟨f, hf, rfl⟩ := List.mem_map.mp hr
  exact h x hx f hf

/-- The entry that has the first choice under a name is the one that counts, if those before it have
nothing. -/
theorem find_first (hc : c.closed = false) (hn : UnitName.isValid name = true)
    (hentries : c.entries = before ++ e :: after)
    (hbefore : ∀ x ∈ before, ∀ f ∈ candidates name, inEntry d name f x = .ok none)
    (he : inEntry d name (UnitName.resource name ++ ".lua") e = .ok (some m)) :
    c.find d name = .ok (some m) := by
  rw [find, hc, if_neg (by simp), if_neg (by simp [hn]), hentries, List.flatMap_append,
    firstFound_append (flatMap_inEntry_none hbefore), List.flatMap_cons, candidates, List.map_cons, he]
  rfl

/-- Nothing is found where no entry has anything. -/
theorem find_none (hc : c.closed = false) (hn : UnitName.isValid name = true)
    (h : ∀ x ∈ c.entries, ∀ f ∈ candidates name, inEntry d name f x = .ok none) :
    c.find d name = .ok none := by
  have hnone := firstFound_append (flatMap_inEntry_none h) []
  rw [List.append_nil] at hnone
  rw [find, hc, if_neg (by simp), if_neg (by simp [hn]), hnone]
  rfl

end Classpath
end UnitCache
