import UnitCache.Proofs.ClasspathOpening
import UnitCache.Proofs.DirectoryFiles
import UnitCache.Proofs.Utf8

namespace UnitCache

variable {d : Disk} {root p : Path} {file : FileId} {name f : String} {bytes content : Bytes}
  {members : List Zip.Member} {m : Zip.Member} {ns : List Name}

namespace Zip

theorem find?_some (h : find? members f = some m) : m ∈ members ∧ m.name = f := by
  refine ⟨List.mem_reverse.mp (List.mem_of_find?_eq_some h), ?_⟩
  simpa using List.find?_some h

theorem find?_eq_none : find? members f = none ↔ ∀ m ∈ members, m.name ≠ f := by
  simp [find?]

/-- With one member of each name, a member is found by its name. -/
theorem find?_of_mem (hu : (members.map Member.name).Nodup) (hm : m ∈ members) (hn : m.name = f) :
    find? members f = some m := by
  obtain ⟨front, back, rfl⟩ := List.append_of_mem hm
  rw [List.map_append, List.map_cons, List.nodup_append] at hu
  have hlater : back.reverse.find? (fun x => x.name = f) = none := by
    rw [List.find?_eq_none]
    intro x hx he
    apply (List.nodup_cons.mp hu.2.1).1
    rw [hn, ← of_decide_eq_true he]
    exact List.mem_map_of_mem (List.mem_reverse.mp hx)
  rw [find?, List.reverse_append, List.reverse_cons, List.append_assoc, List.find?_append, hlater,
    Option.none_or]
  exact List.find?_cons_of_pos (by simpa using hn)

/-- An archive without errors that has exactly the regular files of a directory under their relative
paths. Members that are no files, with a slash at the end of their names, may be there too. -/
structure Packs (d : Disk) (root : Path) (bytes : Bytes) (members : List Member) : Prop where
  unique : (members.map Member.name).Nodup
  readable : ∀ m ∈ members, ∃ content, Zip.content bytes m = .ok content
  files : ∀ ns, ns ≠ [] → (∀ n ∈ ns, Disk.IsProper n) → ∀ content, d.HasFile root ns content ↔
    ∃ m ∈ members, m.name = String.ofList (pasteWith '/' ns) ∧ Zip.content bytes m = .ok content

end Zip

namespace Classpath

variable {c : Classpath} {x y : ClasspathEntry × String} {text : String}

/-- Each entry with each file that may hold a module, in the order in which they are looked at. -/
def choices (c : Classpath) (name : String) : List (ClasspathEntry × String) :=
  c.entries.flatMap fun e => (candidates name).map fun f => (e, f)

def IsPresent (d : Disk) : ClasspathEntry × String → Prop
  | (.directory root, f) => d.isFile (root.join (.ofString f)) = true
  | (.archive _ _ members, f) => ∃ m ∈ members, m.name = f

def bytesOf? (d : Disk) : ClasspathEntry × String → Option Bytes
  | (.directory root, f) => (d.read (root.join (.ofString f))).toOption
  | (.archive _ file members, f) =>
    (Zip.find? members f).bind fun m => (Zip.content ((d.contentOf? file).getD []) m).toOption

def textOf? (d : Disk) (x : ClasspathEntry × String) : Option String :=
  (bytesOf? d x).bind fun bytes => (Utf8.decode bytes).toOption

def origin : ClasspathEntry × String → String
  | (.directory root, f) => (root.join (.ofString f)).text
  | (.archive p _ _, f) => p.text ++ "!" ++ f

theorem inEntry_absent (name : String) (h : ¬IsPresent d x) : inEntry d name x.2 x.1 = .ok none := by
  obtain ⟨root | ⟨p, file, members⟩, f⟩ := x
  · exact inEntry_missing name (Bool.eq_false_iff.mpr h)
  · have hnone : Zip.find? members f = none := by
      rw [Zip.find?_eq_none]
      intro m hm hn
      exact h ⟨m, hm, hn⟩
    simp only [inEntry, hnone]

/-- What is present gives its text or fails; it is not passed over. -/
theorem inEntry_present (name : String) (h : IsPresent d x) :
    match textOf? d x with
    | some text => inEntry d name x.2 x.1 = .ok (some ⟨name, origin x, text⟩)
    | none => ∃ e, inEntry d name x.2 x.1 = .error e := by
  obtain ⟨root | ⟨p, file, members⟩, f⟩ := x
  · have hfile : d.isFile (root.join (.ofString f)) = true := h
    simp only [textOf?, bytesOf?, inEntry, hfile, if_true, Disk.readText]
    cases d.read (root.join (.ofString f)) with
    | error e => exact ⟨_, rfl⟩
    | ok bytes =>
      simp only [bind, Except.bind, Except.toOption, Option.bind_some, Disk.textOf]
      cases Utf8.decode bytes with
      | error e => exact ⟨_, rfl⟩
      | ok text => rfl
  · obtain ⟨m, hm, hn⟩ := h
    cases hf : Zip.find? members f with
    | none => exact absurd hn (Zip.find?_eq_none.mp hf m hm)
    | some m =>
      simp only [textOf?, bytesOf?, inEntry, hf, Option.bind_some]
      cases Zip.content ((d.contentOf? file).getD []) m with
      | error e => cases e <;> exact ⟨_, rfl⟩
      | ok bytes =>
        simp only [Except.toOption, Option.bind_some, Disk.textOf]
        cases Utf8.decode bytes with
        | error e => exact ⟨_, rfl⟩
        | ok text => rfl

theorem find_invalid (hc : c.closed = false) (hn : UnitName.isValid name = false) :
    c.find d name = .ok none := by
  rw [find, hc, if_neg (by simp), if_pos (by simp [hn])]

theorem find_eq_firstFound (hc : c.closed = false) (hn : UnitName.isValid name = true) :
    c.find d name = firstFound ((choices c name).map fun x => inEntry d name x.2 x.1) := by
  rw [find, hc, if_neg (by simp), if_neg (by simp [hn]), choices, List.map_flatMap]
  simp only [List.map_map]
  rfl

theorem map_inEntry_absent {xs : List (ClasspathEntry × String)} (h : ∀ x ∈ xs, ¬IsPresent d x) :
    ∀ r ∈ xs.map fun x => inEntry d name x.2 x.1, r = .ok none := by
  intro r hr
  obtain ⟨x, hx, rfl⟩ := List.mem_map.mp hr
  exact inEntry_absent name (h x hx)

/-- The first choice that is present decides. -/
theorem find_split {before after : List (ClasspathEntry × String)} (hc : c.closed = false)
    (hn : UnitName.isValid name = true) (hs : choices c name = before ++ x :: after)
    (hbefore : ∀ y ∈ before, ¬IsPresent d y) (hx : IsPresent d x) :
    match textOf? d x with
    | some text => c.find d name = .ok (some ⟨name, origin x, text⟩)
    | none => ∃ e, c.find d name = .error e := by
  have hfirst := inEntry_present name hx
  rw [find_eq_firstFound hc hn, hs, List.map_append, firstFound_append (map_inEntry_absent hbefore),
    List.map_cons]
  split
  · rename_i text htext
    simp only [htext] at hfirst
    rw [hfirst]
    rfl
  · rename_i htext
    simp only [htext] at hfirst
    obtain ⟨e, he⟩ := hfirst
    rw [he]
    exact ⟨e, rfl⟩

theorem find_text {before after : List (ClasspathEntry × String)} (hc : c.closed = false)
    (hn : UnitName.isValid name = true) (hs : choices c name = before ++ x :: after)
    (hbefore : ∀ y ∈ before, ¬IsPresent d y) (hx : IsPresent d x) (ht : textOf? d x = some text) :
    c.find d name = .ok (some ⟨name, origin x, text⟩) := by
  have hfound := find_split hc hn hs hbefore hx
  rwa [ht] at hfound

theorem inEntry_eq_none_iff (name : String) : inEntry d name x.2 x.1 = .ok none ↔ ¬IsPresent d x := by
  refine ⟨fun hnone hx => ?_, inEntry_absent name⟩
  have hdecided := inEntry_present name hx
  rw [hnone] at hdecided
  split at hdecided
  · cases hdecided
  · obtain ⟨e, he⟩ := hdecided
    cases he

theorem firstFound_eq_none_iff {α : Type} {rs : List (Except Error (Option α))} :
    firstFound rs = .ok none ↔ ∀ r ∈ rs, r = .ok none := by
  induction rs with
  | nil => simp [firstFound]
  | cons r rs ih =>
    rw [List.forall_mem_cons, ← ih]
    rcases r with e | _ | a <;> simp [firstFound]

theorem find_eq_none_iff (hc : c.closed = false) (hn : UnitName.isValid name = true) :
    c.find d name = .ok none ↔ ∀ x ∈ choices c name, ¬IsPresent d x := by
  rw [find_eq_firstFound hc hn, firstFound_eq_none_iff, List.forall_mem_map]
  simp only [inEntry_eq_none_iff]

/-- A lookup without where it found its text: a text, nothing, or a failure. -/
def answer (r : Except Error (Option ModuleSource)) : Option (Option String) :=
  r.toOption.map (Option.map ModuleSource.text)

theorem answer_firstFound_cons (r : Except Error (Option ModuleSource))
    (rs : List (Except Error (Option ModuleSource))) : answer (firstFound (r :: rs)) =
      if answer r = some none then answer (firstFound rs) else answer r := by
  rcases r with e | _ | m <;> simp [firstFound, answer, Except.toOption]

theorem answer_firstFound {rs rs' : List (Except Error (Option ModuleSource))}
    (h : rs.map answer = rs'.map answer) : answer (firstFound rs) = answer (firstFound rs') := by
  induction rs generalizing rs' with
  | nil => rw [List.map_eq_nil_iff.mp h.symm]
  | cons r rs ih =>
    obtain ⟨r', rest, rfl, hr, hrest⟩ := List.map_eq_cons_iff.mp h.symm
    rw [answer_firstFound_cons, answer_firstFound_cons, hr, ih hrest.symm]

/-- Choices that agree on what is present and on its bytes give the same answer. -/
theorem answer_inEntry (hp : IsPresent d x ↔ IsPresent d y) (hb : bytesOf? d x = bytesOf? d y) :
    answer (inEntry d name x.2 x.1) = answer (inEntry d name y.2 y.1) := by
  by_cases hx : IsPresent d x
  · have htext : textOf? d x = textOf? d y := by rw [textOf?, textOf?, hb]
    have hdecided := inEntry_present name hx
    have hdecided' := inEntry_present name (hp.mp hx)
    rw [htext] at hdecided
    cases ht : textOf? d y with
    | some text =>
      simp only [ht] at hdecided hdecided'
      rw [hdecided, hdecided']
      rfl
    | none =>
      simp only [ht] at hdecided hdecided'
      obtain ⟨e, he⟩ := hdecided
      obtain ⟨e', he'⟩ := hdecided'
      rw [he, he']
      rfl
  · rw [inEntry_absent name hx, inEntry_absent name (mt hp.mpr hx)]

theorem toOption_eq_some {α ε : Type} {r : Except ε α} {a : α} : r.toOption = some a ↔ r = .ok a := by
  cases r <;> simp [Except.toOption]

theorem isPresent_directory :
    IsPresent d (.directory root, f) ↔ ∃ content, bytesOf? d (.directory root, f) = some content := by
  simp only [IsPresent, bytesOf?, toOption_eq_some]
  constructor
  · intro h
    unfold Disk.isFile at h
    split at h
    · rename_i place id content hs
      exact ⟨content, Disk.read_of_stat hs⟩
    · cases h
  · rintro ⟨content, h⟩
    obtain ⟨place, id, hs⟩ := Disk.stat_of_read h
    rw [Disk.isFile, hs]

theorem bytesOf?_directory (hs : Disk.Spells f.toList ns)
    (hr : d.HasFile root ns content → ¬d.Refused (root.join (.ofString f))) :
    bytesOf? d (.directory root, f) = some content ↔ d.HasFile root ns content := by
  rw [bytesOf?, toOption_eq_some]
  exact ⟨hs.hasFile, fun h => hs.read_join h (hr h)⟩

/-- A file of a directory that an archive packs is a member of the archive. -/
theorem bytesOf?_archive (hc : d.contentOf? file = some bytes) (hp : Zip.Packs d root bytes members) :
    bytesOf? d (.archive p file members, f) = some content ↔
      ∃ m ∈ members, m.name = f ∧ Zip.content bytes m = .ok content := by
  simp only [bytesOf?, hc, Option.getD_some, Option.bind_eq_some_iff, toOption_eq_some]
  constructor
  · rintro ⟨m, hf, hm⟩
    exact ⟨m, (Zip.find?_some hf).1, (Zip.find?_some hf).2, hm⟩
  · rintro ⟨m, hmem, hn, hm⟩
    exact ⟨m, Zip.find?_of_mem hp.unique hmem hn, hm⟩

theorem isPresent_archive (hc : d.contentOf? file = some bytes) (hp : Zip.Packs d root bytes members) :
    IsPresent d (.archive p file members, f) ↔
      ∃ content, bytesOf? d (.archive p file members, f) = some content := by
  simp only [bytesOf?_archive hc hp]
  constructor
  · rintro ⟨m, hmem, hn⟩
    obtain ⟨content, hm⟩ := hp.readable m hmem
    exact ⟨content, m, hmem, hn, hm⟩
  · rintro ⟨content, m, hmem, hn, -⟩
    exact ⟨m, hmem, hn⟩

/-- No file that a module may be in is out of reach for the path of a directory that has it. -/
def Reaches (d : Disk) (root : Path) (name : String) : Prop :=
  ∀ f ∈ candidates name, ∀ ns content, f.toList = pasteWith '/' ns → d.HasFile root ns content →
    ¬d.Refused (root.join (.ofString f))

/-- What a directory answers is what the archive of its files answers. -/
theorem answer_packed (hn : UnitName.isValid name = true) (hf : f ∈ candidates name)
    (hc : d.contentOf? file = some bytes) (hp : Zip.Packs d root bytes members)
    (hr : Reaches d root name) : answer (inEntry d name f (.directory root)) =
      answer (inEntry d name f (.archive p file members)) := by
  obtain ⟨ns, n, hproper, hpaste⟩ := pasted_candidate hn hf
  have hne : ns ++ [n ++ ".lua".toList] ≠ [] := List.concat_ne_nil _ _
  have hspells : Disk.Spells f.toList (ns ++ [n ++ ".lua".toList]) :=
    hpaste ▸ Disk.spells_pasteWith hne hproper
  have hname : String.ofList (pasteWith '/' (ns ++ [n ++ ".lua".toList])) = f := by
    rw [← hpaste, String.ofList_toList]
  have hbytes : bytesOf? d (.directory root, f) = bytesOf? d (.archive p file members, f) := by
    ext content
    rw [bytesOf?_directory hspells (hr f hf _ content hpaste), bytesOf?_archive hc hp,
      hp.files _ hne hproper, hname]
  refine answer_inEntry (x := (.directory root, f)) (y := (.archive p file members, f)) ?_ hbytes
  rw [isPresent_directory, isPresent_archive hc hp, hbytes]

/-- A directory may be replaced by an archive of its files. -/
theorem answer_find_packed {before after : List ClasspathEntry} (hopen : c.closed = false)
    (hc : d.contentOf? file = some bytes) (hp : Zip.Packs d root bytes members)
    (hr : Reaches d root name) (hs : c.entries = before ++ .directory root :: after) :
    answer (c.find d name) =
      answer (find { c with entries := before ++ .archive p file members :: after } d name) := by
  let packed : Classpath := { c with entries := before ++ .archive p file members :: after }
  have hpacked : packed.closed = false := hopen
  cases hn : UnitName.isValid name with
  | false => rw [find_invalid hopen hn, find_invalid hpacked hn]
  | true =>
    rw [find_eq_firstFound hopen hn, find_eq_firstFound hpacked hn]
    apply answer_firstFound
    simp only [choices, packed, hs, List.flatMap_append, List.flatMap_cons, List.map_append, List.map_map]
    rw [List.append_cancel_left_eq, List.append_cancel_right_eq]
    refine List.map_congr_left fun f hf => ?_
    exact answer_packed hn hf hc hp hr

/-- A lookup on an open classpath is decided by the first choice that is present, and an archive of
the files of a directory may stand for the directory, unless the path to one of these is refused. -/
theorem find_first_present (c : Classpath) (d : Disk) (name : String) (hopen : c.closed = false) :
    (UnitName.isValid name = false → c.find d name = .ok none) ∧
    (UnitName.isValid name = true →
      (c.find d name = .ok none ↔ ∀ x ∈ choices c name, ¬IsPresent d x) ∧
      ∀ before x after, choices c name = before ++ x :: after → (∀ y ∈ before, ¬IsPresent d y) →
        IsPresent d x →
        match textOf? d x with
        | some text => c.find d name = .ok (some ⟨name, origin x, text⟩)
        | none => ∃ e, c.find d name = .error e) ∧
    ∀ before root after p file members bytes, c.entries = before ++ .directory root :: after →
      d.contentOf? file = some bytes → Zip.Packs d root bytes members → Reaches d root name →
      answer (c.find d name) =
        answer (find { c with entries := before ++ .archive p file members :: after } d name) := by
  refine ⟨find_invalid hopen, fun hn => ⟨find_eq_none_iff hopen hn, fun before x after hs => ?_⟩, ?_⟩
  · exact find_split hopen hn hs
  · intro before root after p file members bytes hs hc hp hr
    exact answer_find_packed hopen hc hp hr hs

def archived : Bytes :=
  [80, 75, 3, 4, 10, 0, 0, 0, 0, 0, 0, 0, 33, 0, 11, 160, 125, 180, 8, 0, 0, 0, 8, 0, 0, 0, 5, 0, 0, 0,
   97, 46, 108, 117, 97, 114, 101, 116, 117, 114, 110, 32, 49, 80, 75, 1, 2, 10, 0, 10, 0, 0, 0, 0, 0,
   0, 0, 33, 0, 11, 160, 125, 180, 8, 0, 0, 0, 8, 0, 0, 0, 5, 0, 0, 0, 0, 0, 0, 0, 0, 0, 0, 0, 0, 0, 0,
   0, 0, 0, 97, 46, 108, 117, 97, 80, 75, 5, 6, 0, 0, 0, 0, 1, 0, 1, 0, 51, 0, 0, 0, 43, 0, 0, 0, 0, 0]

def archivedMember : Zip.Member := ⟨"a.lua", false, 0, 3028131851, 8, 0⟩

def stocked : Disk :=
  { entries := [(["lib".toList, "a.lua".toList], .file 0 (Utf8.encode "return 1")),
      (["lib".toList], .directory), (["b.zip".toList], .file 1 archived)] }

def boxed : ClasspathEntry := .archive (.ofString "b.zip") 1 [archivedMember]

example : Zip.members archived = .ok [archivedMember] := by decide +kernel

theorem content_archived : Zip.content archived archivedMember = .ok (Utf8.encode "return 1") := by
  decide +kernel

theorem leads_stocked : Disk.Leads stocked Disk.maxLinks [] ["lib".toList] Disk.maxLinks ["lib".toList] :=
  .down ⟨by decide, by decide⟩ (by decide) (by decide) (.stop _ _)

/-- The one file of the directory. -/
theorem hasFile_stocked (hroot : Disk.names root = ["lib".toList]) (hrel : root.isAbsolute = false)
    (hns : ns ≠ []) (hproper : ∀ n ∈ ns, Disk.IsProper n) : stocked.HasFile root ns content ↔
      ns = ["a.lua".toList] ∧ content = Utf8.encode "return 1" := by
  have hlook : ∀ place target, stocked.look? place ≠ some (.link target) := by
    intro place target h
    have hmem := Disk.mem_entries h (by rintro rfl; cases h)
    simp [stocked] at hmem
  have hstart : stocked.start root = [] := by
    rw [Disk.start, hrel]
    rfl
  rw [Disk.HasFile, hroot, hstart]
  constructor
  · rintro ⟨links, base, place, id, hbase, hwalk⟩
    obtain ⟨rfl, rfl⟩ := leads_stocked.unique hbase
    rw [Disk.walk_eq_descend (fun n hn => (hproper n hn).isPlain) fun ms => hlook _] at hwalk
    obtain ⟨-, hfile⟩ := Disk.Spot.mk.inj (Disk.descend_ok hwalk)
    have hmem := Disk.mem_of_look? hfile.symm
    simp only [stocked, List.mem_cons, Prod.mk.injEq, reduceCtorEq, and_false, false_or,
      List.not_mem_nil, or_false] at hmem
    rcases hmem with ⟨hplace, hcontent⟩ | ⟨hplace, -⟩
    · exact ⟨List.append_cancel_left hplace, (Entry.file.inj hcontent).2⟩
    · cases (List.cons.inj hplace).1
  · rintro ⟨rfl, rfl⟩
    exact ⟨_, _, ["lib".toList, "a.lua".toList], 0, leads_stocked, by cbv⟩

theorem packs_stocked (hroot : Disk.names root = ["lib".toList]) (hrel : root.isAbsolute = false) :
    Zip.Packs stocked root archived [archivedMember] := by
  refine ⟨by simp, fun m hm => ?_, fun ns hns hproper content => ?_⟩
  · rw [List.mem_singleton.mp hm]
    exact ⟨_, content_archived⟩
  · rw [hasFile_stocked hroot hrel hns hproper]
    constructor
    · rintro ⟨rfl, rfl⟩
      exact ⟨archivedMember, List.mem_singleton_self _, by decide, content_archived⟩
    · rintro ⟨m, hm, hname, hcontent⟩
      obtain rfl := List.mem_singleton.mp hm
      have hpaste : "a.lua".toList = pasteWith '/' ns := by
        rw [show "a.lua" = _ from hname, String.toList_ofList]
      have hcut := cutAt_pasteWith hns fun n hn => (hproper n hn).no_slash
      rw [← hpaste] at hcut
      exact ⟨hcut.symm, Except.ok.inj (hcontent.symm.trans content_archived)⟩

theorem reaches_stocked : Reaches stocked (.ofString "lib") "a" := by
  have hread : stocked.stat (.ofString "lib/a.lua") ≠ .error .tooManyLinks := by
    cbv
    simp
  have hmissing : stocked.stat (.ofString "lib/a/init.lua") ≠ .error .tooManyLinks := by
    cbv
    simp
  intro f hf ns content _ _
  rcases List.mem_pair.mp hf with rfl | rfl
  · exact not_or.mpr ⟨not_not.mpr ⟨by decide +kernel, by decide +kernel⟩, hread⟩
  · exact not_or.mpr ⟨not_not.mpr ⟨by decide +kernel, by decide +kernel⟩, hmissing⟩

/-- The text of a module in a directory is found in the archive of the directory too. -/
theorem find_first_present_stocked :
    let c : Classpath := ⟨[.directory (.ofString "lib")], none, false⟩
    c.closed = false ∧ UnitName.isValid "a" = true ∧
      c.find stocked "a" = .ok (some ⟨"a", "lib/a.lua", "return 1"⟩) ∧
      Zip.Packs stocked (.ofString "lib") archived [archivedMember] ∧ Reaches stocked (.ofString "lib") "a" ∧
      answer (c.find stocked "a") = answer (find { c with entries := [boxed] } stocked "a") := by
  intro c
  have hpacks : Zip.Packs stocked (.ofString "lib") archived [archivedMember] :=
    packs_stocked (by decide +kernel) rfl
  obtain ⟨-, hfound, hpacked⟩ := find_first_present c stocked "a" rfl
  have hchoices : choices c "a" = [] ++ (.directory (.ofString "lib"), "a.lua") ::
      [(.directory (.ofString "lib"), "a/init.lua")] := by cbv
  have hfirst := (hfound (by decide)).2 _ _ _ hchoices (by simp) (by cbv)
  refine ⟨rfl, by decide, ?_, hpacks, reaches_stocked, ?_⟩
  · have htext : textOf? stocked (.directory (.ofString "lib"), "a.lua") = some "return 1" := by cbv
    rw [htext] at hfirst
    exact hfirst
  · exact hpacked [] _ [] (.ofString "b.zip") 1 _ archived rfl (by cbv) hpacks reaches_stocked

def slashed (n : Nat) : Path := ⟨"lib".toList ++ List.replicate n '/'⟩

theorem names_slashed (n : Nat) : Disk.names (slashed n) = ["lib".toList] := by
  induction n with
  | zero => decide
  | succ n ih =>
    rw [slashed, List.replicate_succ', ← List.append_assoc, Path.names_slash]
    exact (List.append_nil _).trans ih

theorem width_slashed (n : Nat) : Disk.width (slashed n).chars = 3 + n := by
  induction n with
  | zero => decide
  | succ n ih =>
    rw [slashed, List.replicate_succ', ← List.append_assoc, Disk.width_append]
    exact congrArg (· + 1) ih

theorem slashed_ne_nil (n : Nat) : (slashed n).chars ≠ [] := List.append_ne_nil_of_left_ne_nil (by decide) _

theorem isDirectory_slashed {n : Nat} (hn : 3 + n < Disk.maxPath) : stocked.isDirectory (slashed n) = true := by
  have hlegible : Disk.Legible (slashed n) := by
    refine ⟨fun hnul => ?_, width_slashed n ▸ hn⟩
    rcases List.mem_append.mp hnul with h | h
    · exact absurd h (by decide)
    · cases List.eq_of_mem_replicate h
  have hstands : stocked.Stands (slashed n) ["lib".toList] := by
    refine ⟨Disk.maxLinks, ?_, by decide⟩
    rw [names_slashed]
    exact leads_stocked
  exact hstands.isDirectory (slashed_ne_nil n) hlegible

theorem relative_slashed (n : Nat) : (slashed n).isAbsolute = false := rfl

theorem width_slashed_join {n : Nat} (hf : (Path.ofString f).isAbsolute = false) :
    Disk.width ((slashed (n + 1)).join (.ofString f)).chars = 4 + n + Disk.width f.toList := by
  have hlast : (slashed (n + 1)).chars.getLast? = some '/' := by
    rw [slashed, List.replicate_succ', ← List.append_assoc, List.getLast?_concat]
  rw [Path.join, hf, if_neg (by simp), if_pos (.inr hlast), Disk.width_append, width_slashed]
  simp only [Path.ofString]
  omega

/-- A module in a directory is not found if the path of the directory goes on for too long; in the
archive of the directory it is found. -/
theorem find_slashed :
    stocked.isDirectory (slashed 4090) = true ∧ stocked.contentOf? 1 = some archived ∧
      Zip.Packs stocked (slashed 4090) archived [archivedMember] ∧
      (find ⟨[.directory (slashed 4090)], none, false⟩ stocked "a" = .ok none) ∧
      find ⟨[boxed], none, false⟩ stocked "a" = .ok (some ⟨"a", "b.zip!a.lua", "return 1"⟩) := by
  have hpacks : Zip.Packs stocked (slashed 4090) archived [archivedMember] :=
    packs_stocked (names_slashed _) (relative_slashed _)
  have hcontent : stocked.contentOf? 1 = some archived := by cbv
  refine ⟨isDirectory_slashed (by decide), hcontent, hpacks, ?_, ?_⟩
  · apply (find_eq_none_iff rfl (by decide)).mpr
    intro x hx hpresent
    obtain ⟨f, hf, rfl⟩ : ∃ f ∈ candidates "a", x = (.directory (slashed 4090), f) := by
      simpa [choices, eq_comm] using hx
    have hwide : (Path.ofString f).isAbsolute = false ∧ 5 ≤ Disk.width f.toList := by
      rcases List.mem_pair.mp hf with rfl | rfl <;> decide +kernel
    obtain ⟨content, hread⟩ := isPresent_directory.mp hpresent
    obtain ⟨place, id, hstat⟩ := Disk.stat_of_read (toOption_eq_some.mp hread)
    have hfind := Disk.find_of_stat hstat
    have hshort := (Disk.legible_of_find (Disk.ne_nil_of_find hfind) (.inl ⟨_, hfind⟩)).short
    rw [width_slashed_join hwide.1, Disk.maxPath] at hshort
    omega
  · have hbytes : bytesOf? stocked (boxed, "a.lua") = some (Utf8.encode "return 1") :=
      (bytesOf?_archive hcontent hpacks).mpr ⟨archivedMember, by simp, rfl, content_archived⟩
    have hpresent : IsPresent stocked (boxed, "a.lua") :=
      (isPresent_archive hcontent hpacks).mpr ⟨_, hbytes⟩
    have hchoices : choices ⟨[boxed], none, false⟩ "a" =
        [] ++ (boxed, "a.lua") :: [(boxed, "a/init.lua")] := by cbv
    apply find_text rfl (by decide) hchoices (by simp) hpresent
    rw [textOf?, hbytes, Option.bind_some, Utf8.decode_encode]
    rfl

end Classpath

end UnitCache
