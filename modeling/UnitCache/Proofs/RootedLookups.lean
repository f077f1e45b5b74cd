import Mathlib.Data.Set.List
import UnitCache.Proofs.ClasspathSearch
import UnitCache.Proofs.ClasspathSteady

namespace UnitCache

open Disk (IsProper placeOf)
open UnitCache.Path (Component)
open ResourceProvider (isPlainName)

variable {d : Disk} {root p : Path} {roots : List Path} {ns : List Name} {name f : String}
  {content bytes : Bytes} {s : ByteStream} {c : Classpath} {m : ModuleSource}

namespace ResourceProvider

theorem isPlainName_iff : isPlainName p = true ↔ p.chars ≠ [] ∧ ∀ c ∈ p.components, ∃ n, c = .name n := by
  rw [isPlainName, Bool.and_eq_true, Bool.not_eq_true', Path.isEmpty, List.isEmpty_eq_false_iff,
    List.all_eq_true]
  refine and_congr_right fun _ => forall₂_congr fun c _ => ?_
  cases c <;> simp

theorem ne_nil_of_components (hp : p.chars ≠ []) (h : p.components = ns.map .name) : ns ≠ [] := by
  rintro rfl
  exact hp (Path.components_eq_nil_iff.mp h)

/-- A plain name is one that consists of names, one or more of them. -/
theorem isPlainName_iff_names : isPlainName p = true ↔ ∃ ns, ns ≠ [] ∧ p.components = ns.map .name := by
  rw [isPlainName_iff]
  constructor
  · rintro ⟨hp, hall⟩
    obtain ⟨ns, hns⟩ : p.components ∈ Set.range (List.map Component.name) := by
      rw [Set.range_list_map]
      exact fun c hc => (hall c hc).imp fun n hn => hn.symm
    exact ⟨ns, ne_nil_of_components hp hns.symm, hns.symm⟩
  · rintro ⟨ns, hne, hns⟩
    refine ⟨fun hp => ?_, fun c hc => ?_⟩
    · obtain rfl : p = ⟨[]⟩ := congrArg Path.mk hp
      exact hne (List.map_eq_nil_iff.mp hns.symm)
    · rw [hns] at hc
      obtain ⟨n, -, rfl⟩ := List.mem_map.mp hc
      exact ⟨n, rfl⟩

end ResourceProvider

/-- A regular file below a root: the joined path goes on from the components of the root by proper
names, one or more of them, and the file stands where these lead. -/
structure Disk.FileBelow (d : Disk) (root p : Path) (ns : List Name) (content : Bytes) : Prop where
  ne_nil : ns ≠ []
  proper : ∀ n ∈ ns, IsProper n
  names : p.components = ns.map .name
  joined : (root.join p).components = root.components ++ ns.map .name
  stands : ∃ id, d.look? (placeOf d.cwd root ++ ns) = some (.file id content)

namespace Disk

theorem FileBelow.unique {ms : List Name} (h : d.FileBelow root p ns content)
    (h' : d.FileBelow root p ms bytes) : content = bytes := by
  have hnames := h.names.symm.trans h'.names
  obtain rfl := List.map_injective_iff.mpr (fun _ _ => Component.name.inj) hnames
  obtain ⟨id, hfile⟩ := h.stands
  obtain ⟨id', hfile'⟩ := h'.stands
  exact (Entry.file.inj (Option.some.inj (hfile.symm.trans hfile'))).2

/-- Without links, a plain name joined to a root opens a file below that. -/
theorem fileBelow_of_isFile (hl : d.Linkless) (hp : isPlainName p = true)
    (hf : d.isFile (root.join p) = true) :
    ∃ ns id content, d.FileBelow root p ns content ∧ d.openAt (root.join p) = .ok (.file id content) := by
  obtain ⟨ns, hne, hns⟩ := ResourceProvider.isPlainName_iff_names.mp hp
  obtain ⟨place, id, content, hstat⟩ := isFile_iff.mp hf
  obtain ⟨-, hentry⟩ := Spot.mk.inj (find_linkless hl (find_of_stat hstat))
  rw [Path.placeOf_join_of_components d root hns] at hentry
  refine ⟨ns, id, content, ⟨hne, Path.isProper_of_components hns, hns,
    Path.components_join_of_components root hns, id, hentry.symm⟩, ?_⟩
  rw [openAt, hstat]

end Disk

namespace ResourceProvider

variable {before : List Path}

theorem find?_of_not_plain (d : Disk) (roots : List Path) (h : isPlainName (.ofString name) = false) :
    find? d name (.directories roots) = .ok none := by
  simp only [find?, h, Bool.not_false, if_true]

theorem find?_of_missing (h : ∀ r ∈ roots, d.isFile (r.join (.ofString name)) = false) :
    find? d name (.directories roots) = .ok none := by
  have hnone : roots.find? (fun r => d.isFile (r.join (.ofString name))) = none := by
    rw [List.find?_eq_none]
    exact fun r hr => by simp [h r hr]
  simp only [find?, hnone, ite_self]

/-- The first root that has a file under a plain name is the one that counts. -/
theorem find?_of_first (after : List Path) (hl : d.Linkless) (hp : isPlainName (.ofString name) = true)
    (hbefore : ∀ r ∈ before, d.isFile (r.join (.ofString name)) = false)
    (hroot : d.isFile (root.join (.ofString name)) = true) :
    ∃ ns content, d.FileBelow root (.ofString name) ns content ∧
      find? d name (.directories (before ++ root :: after)) = .ok (some (.ofBytes content)) := by
  obtain ⟨ns, id, content, hfile, hopen⟩ := Disk.fileBelow_of_isFile hl hp hroot
  have hfirst : (before ++ root :: after).find? (fun r => d.isFile (r.join (.ofString name))) = some root := by
    rw [List.find?_eq_some_iff_append]
    exact ⟨hroot, before, after, rfl, fun r hr => by simp [hbefore r hr]⟩
  refine ⟨ns, content, hfile, ?_⟩
  simp only [find?, hp, hfirst, hopen, Bool.not_true, Bool.false_eq_true, if_false]
  rfl

/-- A stream is that of the file below the first root that has one under the name. -/
theorem find?_eq_some_iff (hl : d.Linkless) : find? d name (.directories roots) = .ok (some s) ↔
    ∃ before root after, roots = before ++ root :: after ∧
      (∀ r ∈ before, d.isFile (r.join (.ofString name)) = false) ∧
      d.isFile (root.join (.ofString name)) = true ∧
      ∃ ns content, d.FileBelow root (.ofString name) ns content ∧ s = .ofBytes content := by
  constructor
  · intro h
    have hp : isPlainName (.ofString name) = true := by
      by_contra hp
      rw [find?_of_not_plain d roots (by simpa using hp)] at h
      cases h
    cases hfirst : roots.find? (fun r => d.isFile (r.join (.ofString name))) with
    | none =>
      rw [find?_of_missing fun r hr => by simpa using List.find?_eq_none.mp hfirst r hr] at h
      cases h
    | some root =>
      obtain ⟨hroot, before, after, rfl, hbefore⟩ := List.find?_eq_some_iff_append.mp hfirst
      have hmissing : ∀ r ∈ before, d.isFile (r.join (.ofString name)) = false := by
        intro r hr
        simpa using hbefore r hr
      obtain ⟨ns, content, hfile, hfound⟩ := find?_of_first after hl hp hmissing hroot
      rw [hfound] at h
      cases h
      exact ⟨before, root, after, rfl, hmissing, hroot, ns, content, hfile, rfl⟩
  · rintro ⟨before, root, after, rfl, hbefore, hroot, ns, content, hfile, rfl⟩
    have hp := isPlainName_iff_names.mpr ⟨ns, hfile.ne_nil, hfile.names⟩
    obtain ⟨ms, bytes, hfile', hfound⟩ := find?_of_first after hl hp hbefore hroot
    rw [hfound, hfile.unique hfile']

end ResourceProvider

namespace Classpath

/-- The files that may hold a module of a valid name have plain names. -/
theorem isPlainName_candidate (hn : UnitName.isValid name = true) (hf : f ∈ candidates name) :
    isPlainName (.ofString f) = true := by
  obtain ⟨ns, n, hs⟩ := spells_candidate hn hf
  exact ResourceProvider.isPlainName_iff_names.mpr ⟨_, hs.ne_nil, hs.components⟩

theorem firstFound_eq_some {α : Type} {rs : List (Except Error (Option α))} {a : α}
    (h : firstFound rs = .ok (some a)) :
    ∃ before after, rs = before ++ .ok (some a) :: after ∧ ∀ r ∈ before, r = .ok none := by
  induction rs with
  | nil => cases h
  | cons r rs ih =>
    rcases r with e | _ | b
    · cases h
    · obtain ⟨before, after, rfl, hbefore⟩ := ih h
      refine ⟨.ok none :: before, after, rfl, ?_⟩
      intro r hr
      rcases List.mem_cons.mp hr with rfl | hr
      · rfl
      · exact hbefore r hr
    · cases h
      exact ⟨[], rs, rfl, by simp⟩

/-- What is found comes from the first choice that is present. -/
theorem find_eq_some (h : c.find d name = .ok (some m)) : UnitName.isValid name = true ∧
    ∃ before x after, choices c name = before ++ x :: after ∧ (∀ y ∈ before, ¬IsPresent d y) ∧
      IsPresent d x ∧ textOf? d x = some m.text ∧ m.name = name ∧ m.origin = origin x := by
  have hc : c.closed = false := by
    by_contra hc
    rw [find, if_pos (by simpa using hc)] at h
    cases h
  have hn : UnitName.isValid name = true := by
    by_contra hn
    rw [find_invalid hc (by simpa using hn)] at h
    cases h
  rw [find_eq_firstFound hc hn] at h
  obtain ⟨rs, rs', hsplit, hnone⟩ := firstFound_eq_some h
  obtain ⟨before, rest, hs, rfl, hrest⟩ := List.map_eq_append_iff.mp hsplit
  obtain ⟨x, after, rfl, hx, -⟩ := List.map_eq_cons_iff.mp hrest
  have hbefore : ∀ y ∈ before, ¬IsPresent d y := by
    intro y hy
    rw [← inEntry_eq_none_iff name]
    exact hnone _ (List.mem_map_of_mem hy)
  have hpresent : IsPresent d x := by
    by_contra habsent
    rw [inEntry_absent name habsent] at hx
    cases hx
  have hdecided := inEntry_present name hpresent
  rw [hx] at hdecided
  cases ht : textOf? d x with
  | none =>
    simp only [ht] at hdecided
    obtain ⟨e, he⟩ := hdecided
    cases he
  | some text =>
    simp only [ht] at hdecided
    cases hdecided
    exact ⟨hn, before, x, after, hs, hbefore, hpresent, ht, rfl, rfl⟩

/-- A text that comes from a directory is that of a file below the directory. -/
theorem fileBelow_of_textOf? {text : String} (hl : d.Linkless) (hp : isPlainName (.ofString f) = true)
    (hf : IsPresent d (.directory root, f)) (ht : textOf? d (.directory root, f) = some text) :
    ∃ ns content, d.FileBelow root (.ofString f) ns content ∧ Utf8.decode content = .ok text := by
  obtain ⟨ns, id, content, hfile, hopen⟩ := Disk.fileBelow_of_isFile hl hp hf
  refine ⟨ns, content, hfile, ?_⟩
  have hread : d.read (root.join (.ofString f)) = .ok content := by
    rw [Disk.read, hopen]
    rfl
  rw [textOf?, bytesOf?, hread] at ht
  exact toOption_eq_some.mp ht

end Classpath

/-- Names that are empty or rooted, that start at a dot or that step up. -/
def IsForeign (name : String) : Prop :=
  name = "" ∨ ['/'] <+: name.toList ∨ ['.', '/'] <+: name.toList ∨
    Component.up ∈ (Path.ofString name).components

theorem IsForeign.not_plain (h : IsForeign name) : isPlainName (.ofString name) = false := by
  by_contra hp
  obtain ⟨ns, hne, hns⟩ := ResourceProvider.isPlainName_iff_names.mp (by simpa using hp)
  rcases h with rfl | hroot | hdot | hup
  · exact hne (List.map_eq_nil_iff.mp hns.symm)
  · obtain ⟨cs, hcs⟩ := hroot
    have hrel := Path.relative_of_components hns
    simp [Path.ofString, Path.isAbsolute, ← hcs] at hrel
  · obtain ⟨cs, hcs⟩ := hdot
    have hhead := Path.head_body_of_components hns
    simp [Path.ofString, Path.body, Path.isAbsolute, ← hcs, cutAt] at hhead
  · rw [hns] at hup
    simp at hup

/-- A path of one piece steps up only if it is nothing but that step. -/
theorem Path.chars_of_mem_components (hs : '/' ∉ p.chars) (hup : .up ∈ p.components) :
    p.chars = ['.', '.'] := by
  have hrel : p.isAbsolute = false := by
    refine decide_eq_false ?_
    intro hhead
    exact hs (List.mem_of_mem_head? hhead)
  have hbody : p.body = [p.chars] := by
    rw [body, hrel]
    exact cutAt_of_not_mem hs
  rw [components_eq, hrel, hbody] at hup
  by_cases hdot : p.chars = ['.']
  · simp [componentsOf, hdot] at hup
  rw [componentsOf_relative (by simpa using hdot)] at hup
  obtain ⟨q, hq, hpiece⟩ := List.mem_filterMap.mp hup
  obtain rfl := List.mem_singleton.mp hq
  unfold Component.ofPiece at hpiece
  split at hpiece
  · cases hpiece
  split at hpiece
  · assumption
  · cases hpiece

theorem UnitName.no_slash_of_isValid (h : isValid name = true) : '/' ∉ name.toList := by
  intro hslash
  have hmem : '/' ∈ pasteWith '.' (segments name) := by
    rw [segments, pasteWith_cutAt]
    exact hslash
  obtain ⟨s, hs, hslash⟩ := mem_of_mem_pasteWith hmem (by decide)
  have hplain := List.all_eq_true.mp h s hs
  simp [isPlain, hslash] at hplain

theorem IsForeign.not_valid (h : IsForeign name) : UnitName.isValid name = false := by
  by_contra hn
  have hslash := UnitName.no_slash_of_isValid (by simpa using hn)
  rcases h with rfl | hroot | hdot | hup
  · exact hn (by decide)
  · exact hslash (hroot.subset (by simp))
  · exact hslash (hdot.subset (by simp))
  · have htwo : name = ".." := String.toList_inj.mp (Path.chars_of_mem_components hslash hup)
    rw [htwo] at hn
    exact hn (by decide)

/-- Lookups by name stay below their roots. In a tree without links, a text that comes from a
directory on a classpath, and a stream that comes from a root of resources, are the content of a file
below that directory or root, whatever the name. Resources come from the first root that has a file
under their name. Foreign names are not found, whatever the tree is. -/
theorem lookups_stay_below (c : Classpath) (roots : List Path) (d : Disk) (name : String) :
    (d.Linkless →
      (∀ m, c.find d name = .ok (some m) → ∃ before x after,
        Classpath.choices c name = before ++ x :: after ∧ (∀ y ∈ before, ¬Classpath.IsPresent d y) ∧
        Classpath.IsPresent d x ∧ m.origin = Classpath.origin x ∧
        ∀ root f, x = (.directory root, f) → ∃ ns content,
          d.FileBelow root (.ofString f) ns content ∧ Utf8.decode content = .ok m.text) ∧
      ∀ s, ResourceProvider.find? d name (.directories roots) = .ok (some s) ↔
        ∃ before root after, roots = before ++ root :: after ∧
          (∀ r ∈ before, d.isFile (r.join (.ofString name)) = false) ∧
          d.isFile (root.join (.ofString name)) = true ∧
          ∃ ns content, d.FileBelow root (.ofString name) ns content ∧ s = .ofBytes content) ∧
    (IsForeign name → ResourceProvider.find? d name (.directories roots) = .ok none ∧
      (c.closed = false → c.find d name = .ok none)) := by
  refine ⟨fun hl => ⟨fun m hm => ?_, fun s => ResourceProvider.find?_eq_some_iff hl⟩, fun hf => ?_⟩
  · obtain ⟨hn, before, x, after, hs, hbefore, hx, ht, -, horigin⟩ := Classpath.find_eq_some hm
    refine ⟨before, x, after, hs, hbefore, hx, horigin, ?_⟩
    rintro root f rfl
    have hcandidate : f ∈ Classpath.candidates name := by
      have hmem : (ClasspathEntry.directory root, f) ∈ Classpath.choices c name := by simp [hs]
      obtain ⟨e, -, he⟩ := List.mem_flatMap.mp hmem
      obtain ⟨g, hg, he⟩ := List.mem_map.mp he
      cases he
      exact hg
    exact Classpath.fileBelow_of_textOf? hl (Classpath.isPlainName_candidate hn hcandidate) hx ht
  · refine ⟨ResourceProvider.find?_of_not_plain d roots hf.not_plain, ?_⟩
    intro hc
    exact Classpath.find_invalid hc hf.not_valid

def shelved : Disk :=
  { entries := [(["a".toList], .directory), (["b".toList], .directory),
      (["b".toList, "t".toList], .directory),
      (["b".toList, "t".toList, "m.lua".toList], .file 0 (Utf8.encode "return 2")),
      (["m.lua".toList], .file 1 (Utf8.encode "return 1"))]
    nextId := 2 }

theorem fileBelow_shelved : shelved.FileBelow (.ofString "b") (.ofString "t/.//m.lua")
    ["t".toList, "m.lua".toList] (Utf8.encode "return 2") := by
  have hnames : (Path.ofString "t/.//m.lua").components = ["t".toList, "m.lua".toList].map .name := by decide
  exact ⟨by decide, Path.isProper_of_components hnames, hnames, by decide, 0, by decide⟩

def shelf : Classpath := ⟨[.directory (.ofString "b")], none, false⟩

theorem find_shelf : shelf.find shelved "t.m" = .ok (some ⟨"t.m", "b/t/m.lua", "return 2"⟩) := by
  have hpresent : Classpath.IsPresent shelved (.directory (.ofString "b"), "t/m.lua") := by
    rw [Classpath.IsPresent]
    cbv
  have htext : Classpath.textOf? shelved (.directory (.ofString "b"), "t/m.lua") = some "return 2" := by
    cbv
  have hfirst : Classpath.choices shelf "t.m" = [] ++ (.directory (.ofString "b"), "t/m.lua") ::
      [(.directory (.ofString "b"), "t/m/init.lua")] := rfl
  exact Classpath.find_text rfl (by decide) hfirst (by simp) hpresent htext

/-- Dots and slashes in the name of a resource do not change where it is looked for. -/
theorem lookups_stay_below_shelved :
    (∃ before x after, Classpath.choices shelf "t.m" = before ++ x :: after ∧
      (∀ y ∈ before, ¬Classpath.IsPresent shelved y) ∧ Classpath.IsPresent shelved x ∧
      "b/t/m.lua" = Classpath.origin x ∧
      ∀ root f, x = (.directory root, f) → ∃ ns content,
        shelved.FileBelow root (.ofString f) ns content ∧ Utf8.decode content = .ok "return 2") ∧
    ResourceProvider.find? shelved "t/.//m.lua" (.directories [.ofString "a", .ofString "b"]) =
      .ok (some (.ofBytes (Utf8.encode "return 2"))) ∧
    ResourceProvider.find? shelved "t/../../m.lua" (.directories [.ofString "a", .ofString "b"]) = .ok none ∧
    shelf.find shelved "t/../../m.lua" = .ok none := by
  have hl : shelved.Linkless := (Disk.Sound.iff_isSound.mpr (by decide)).linkless
  refine ⟨?_, ?_, ?_⟩
  · exact ((lookups_stay_below shelf [] shelved "t.m").1 hl).1 _ find_shelf
  · have hmissing : shelved.isFile ((Path.ofString "a").join (.ofString "t/.//m.lua")) = false := by cbv
    have hthere : shelved.isFile ((Path.ofString "b").join (.ofString "t/.//m.lua")) = true := by cbv
    apply (((lookups_stay_below shelf _ shelved "t/.//m.lua").1 hl).2 _).mpr
    exact ⟨[.ofString "a"], .ofString "b", [], rfl, by simpa using hmissing, hthere, _, _,
      fileBelow_shelved, rfl⟩
  · have hup : IsForeign "t/../../m.lua" := .inr (.inr (.inr (by decide)))
    obtain ⟨hnone, hfind⟩ := (lookups_stay_below shelf [.ofString "a", .ofString "b"] shelved _).2 hup
    exact ⟨hnone, hfind rfl⟩

end UnitCache
