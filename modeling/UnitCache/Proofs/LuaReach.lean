import UnitCache.Proofs.Capture
import UnitCache.Proofs.DiskChanges
import UnitCache.Proofs.LuaClosure
import UnitCache.Proofs.Utf8

namespace UnitCache

namespace Lua

open Requirement

theorem length_among_le (before : Bytes) (ls : List Lexeme) :
    (among before ls).length ≤ ls.length := by
  induction ls generalizing before with
  | nil => exact Nat.le_refl 0
  | cons l ls ih =>
    have h := ih (l.source.reverse ++ before)
    unfold among
    dsimp only
    split
    · exact Nat.succ_le_succ h
    · exact Nat.le_succ_of_le h

theorem length_lexemes_le (bs : Bytes) : (lexemes bs).length ≤ bs.length := by
  fun_induction lexemes bs with
  | case1 => exact Nat.le_refl 0
  | case2 b bs ih => exact Nat.le_trans (Nat.succ_le_succ ih) (Lexeme.length_next_lt b bs)

def named (text : String) : List String :=
  (requirements (Utf8.encode text)).filterMap Requirement.literal?

theorem length_named_le (text : String) : (named text).length ≤ (Utf8.encode text).length :=
  Nat.le_trans (List.length_filterMap_le _ _)
    (Nat.le_trans (length_among_le [] _) (length_lexemes_le _))

theorem mem_named {m : ModuleSource} {n : String} (h : n ∈ Sources.literals m) : n ∈ named m.text := by
  unfold Sources.literals at h
  split at h
  · exact h
  · exact absurd h List.not_mem_nil

def namedIn (bs : Bytes) : List String :=
  match Disk.textOf bs with
  | .ok text => named text
  | .error _ => []

theorem length_namedIn_le (bs : Bytes) : (namedIn bs).length ≤ bs.length := by
  unfold namedIn Disk.textOf
  cases hd : Utf8.decode bs with
  | error f => exact Nat.zero_le _
  | ok text => exact Nat.le_trans (length_named_le text) (Utf8.length_encode_le hd)

theorem length_flatMap_le {α β : Type} {as : List α} {f : α → List β} {g : α → Nat}
    (h : ∀ a ∈ as, (f a).length ≤ g a) : (as.flatMap f).length ≤ (as.map g).foldl (· + ·) 0 := by
  rw [← List.sum_eq_foldl_nat]
  induction as with
  | nil => exact Nat.le_refl 0
  | cons a as ih =>
    rw [List.flatMap_cons, List.length_append, List.map_cons, List.sum_cons]
    exact Nat.add_le_add (h a List.mem_cons_self) (ih fun b hb => h b (List.mem_cons_of_mem a hb))

end Lua

namespace Classpath

variable {c : Classpath} {d : Disk} {name : String} {m : ModuleSource}

theorem firstFound_mem {α : Type} {rs : List (Except Error (Option α))} {a : α}
    (h : firstFound rs = .ok (some a)) : .ok (some a) ∈ rs := by
  fun_induction firstFound rs with
  | case1 => simp at h
  | case2 rs ih => exact List.mem_cons_of_mem _ (ih h)
  | case3 r rs hr => exact h ▸ List.mem_cons_self

/-- What is found is in a file of one of the entries, and has a valid name. -/
theorem find_some (h : c.find d name = .ok (some m)) : UnitName.isValid name = true ∧
    ∃ e ∈ c.entries, ∃ f ∈ candidates name, inEntry d name f e = .ok (some m) := by
  unfold find at h
  split at h
  · cases h
  · split at h
    · cases h
    · rename_i hv
      obtain ⟨e, he, hm⟩ := List.mem_flatMap.mp (firstFound_mem h)
      obtain ⟨f, hf, hm⟩ := List.mem_map.mp hm
      exact ⟨by simpa using hv, e, he, f, hf, hm⟩

end Classpath

namespace Lua

variable (c : Capture) (d : Disk)

def namedInFiles : List String :=
  d.entries.flatMap fun
    | (_, .file _ content) => namedIn content
    | _ => []

def namedInEntry : ClasspathEntry → List String
  | .archive _ file members =>
    members.flatMap fun m =>
      match Zip.content ((d.contentOf? file).getD []) m with
      | .ok bs => namedIn bs
      | .error _ => []
  | .directory _ => []

def knownNames (text : String) : List String :=
  named text ++ namedInFiles d ++ c.classpath.entries.flatMap (namedInEntry d)

theorem length_knownNames_lt (text : String) :
    (knownNames c d text).length < c.reach d (.ok text) := by
  have hown := length_named_le text
  rw [Utf8.length_encode] at hown
  have hfiles : (namedInFiles d).length ≤ (d.entries.map fun
      | (_, .file _ content) => content.length
      | _ => 0).foldl (· + ·) 0 := by
    apply length_flatMap_le
    rintro ⟨place, e⟩ -
    cases e with
    | file id content => exact length_namedIn_le content
    | directory => exact Nat.le_refl 0
    | link target => exact Nat.le_refl 0
  have harchives : (c.classpath.entries.flatMap (namedInEntry d)).length ≤
      (c.classpath.entries.map fun
        | .archive _ file members =>
          (members.map (fun m =>
            match Zip.content ((d.contentOf? file).getD []) m with
            | .ok bs => bs.length
            | .error _ => 0)).foldl (· + ·) 0
        | .directory _ => 0).foldl (· + ·) 0 := by
    apply length_flatMap_le
    rintro (path | ⟨path, file, members⟩) -
    · exact Nat.le_refl 0
    · apply length_flatMap_le
      intro m _
      cases Zip.content ((d.contentOf? file).getD []) m with
      | ok bs => exact length_namedIn_le bs
      | error e => exact Nat.le_refl 0
  rw [knownNames, List.length_append, List.length_append, Capture.reach]
  exact Nat.lt_succ_of_le (Nat.add_le_add (Nat.add_le_add hown hfiles) harchives)

variable {c d} {name candidate : String} {m : ModuleSource} {n : String}

theorem mem_namedIn {bs : Bytes} (hb : Disk.textOf bs = .ok m.text) (h : n ∈ Sources.literals m) :
    n ∈ namedIn bs := by
  rw [namedIn, hb]
  exact mem_named h

/-- What a text that is found requires is known. -/
theorem mem_of_inEntry {e : ClasspathEntry}
    (hm : Classpath.inEntry d name candidate e = .ok (some m)) (h : n ∈ Sources.literals m) :
    n ∈ namedInFiles d ∨ n ∈ namedInEntry d e := by
  cases e with
  | directory root =>
    refine .inl ?_
    simp only [Classpath.inEntry] at hm
    split at hm
    · cases hr : d.read (root.join (.ofString candidate)) with
      | error f => simp [Disk.readText, hr, bind, Except.bind] at hm
      | ok bs =>
        cases ht : Disk.textOf bs with
        | error f => simp [Disk.readText, hr, ht, bind, Except.bind] at hm
        | ok text =>
          rw [Disk.readText, hr] at hm
          simp only [bind, Except.bind, ht] at hm
          cases hm
          obtain ⟨x, hx, id, hf⟩ := Disk.mem_of_read hr
          refine List.mem_flatMap.mpr ⟨x, hx, ?_⟩
          obtain ⟨place, e⟩ := x
          cases hf
          exact mem_namedIn ht h
    · cases hm
  | archive path file members =>
    refine .inr ?_
    simp only [Classpath.inEntry] at hm
    split at hm
    · cases hm
    · rename_i member hfound
      split at hm
      · cases hm
      · cases hm
      · rename_i bs hc
        split at hm
        · rename_i text ht
          cases hm
          refine List.mem_flatMap.mpr ⟨member, ?_, ?_⟩
          · exact List.mem_reverse.mp (List.mem_of_find?_eq_some hfound)
          · rw [hc]
            exact mem_namedIn ht h
        · cases hm

def sources (c : Capture) (d : Disk) (unit : NamedUnit) (text : String) : Sources :=
  ⟨⟨unit.name, unit.uri, text⟩, c.find d⟩

variable {unit : NamedUnit} {text : String}

theorem valid_of_get? (h : (sources c d unit text).get? n = some m) : UnitName.isValid n = true := by
  rcases (sources c d unit text).find_of_get? h with hn | hf
  · rw [hn]
    exact unit.valid
  · exact (Classpath.find_some hf).1

theorem mem_knownNames {k : String} (hk : (sources c d unit text).get? k = some m)
    (h : n ∈ Sources.literals m) : n ∈ knownNames c d text := by
  rw [knownNames, List.mem_append, List.mem_append]
  unfold Sources.get? at hk
  split at hk
  · cases hk
    have hn : n ∈ named (sources c d unit text).unit.text := mem_named h
    exact .inl (.inl hn)
  · cases hf : (sources c d unit text).find k with
    | error e => simp [hf] at hk
    | ok found =>
      rw [hf] at hk
      cases hk
      obtain ⟨-, e, he, f, -, hm⟩ := Classpath.find_some hf
      rcases mem_of_inEntry hm h with hn | hn
      · exact .inl (.inr hn)
      · exact .inr (List.mem_flatMap.mpr ⟨e, he, hn⟩)

theorem member_known (h : (sources c d unit text).Member n) : n ∈ unit.name :: knownNames c d text := by
  cases h with
  | root hn => exact List.mem_cons.mpr (.inl (List.mem_singleton.mp hn))
  | @next k _ _ hn =>
    cases hk : (sources c d unit text).get? k with
    | none => simp [Sources.next, hk] at hn
    | some m =>
      simp only [Sources.next, hk, List.mem_filter] at hn
      exact List.mem_cons_of_mem _ (mem_knownNames hk hn.1)

theorem valid_of_member (h : (sources c d unit text).Member n) : UnitName.isValid n = true := by
  obtain ⟨m, hm⟩ := Option.isSome_iff_exists.mp ((sources c d unit text).isSome_get?_of_member h)
  exact valid_of_get? hm

end Lua

def Toolchain.NeverCloses (t : Toolchain) : Prop :=
  ∀ unit text reach, (t.compile unit text reach).NeverCloses

namespace Lua.Compile

variable {α β : Type}

def OnlyLooks (x : Compile α) : Prop := ∀ s, (x.run s).OnlyLooks

theorem OnlyLooks.bind {x : Compile α} {f : α → Compile β} (hx : OnlyLooks x)
    (hf : ∀ a, OnlyLooks (f a)) : OnlyLooks (x >>= f) := by
  intro s
  rw [StateT.run_bind]
  exact (hx s).bind fun a => hf a.1 a.2

theorem OnlyLooks.report (d : Diagnostic) : OnlyLooks (report d) := fun _ => trivial

theorem OnlyLooks.demand {compile : (name origin text : String) → Compile Unit}
    (hc : ∀ name origin text, OnlyLooks (compile name origin text)) (name : String)
    (r : Requirement) : OnlyLooks (demand compile name r) := by
  unfold Compile.demand
  cases r.target with
  | dynamic => exact report _
  | literal wanted =>
    intro s
    change Dialogue.OnlyLooks (StateT.run (if (s.visited.contains wanted ||
      builtinModules.contains wanted) = true then _ else _) s)
    split
    · trivial
    · intro found
      rcases found with e | _ | m
      · exact report _ s
      · exact report _ s
      · exact hc wanted m.origin m.text s

theorem OnlyLooks.forM {f : α → Compile PUnit} (hf : ∀ a, OnlyLooks (f a)) (as : List α) :
    OnlyLooks (as.forM f) := by
  induction as with
  | nil => exact fun _ => trivial
  | cons a as ih => exact (hf a).bind fun _ => ih

theorem OnlyLooks.text (reach : Nat) (name origin source : String) :
    OnlyLooks (text reach name origin source) := by
  induction reach generalizing name origin source with
  | zero => exact fun _ => trivial
  | succ reach ih =>
    unfold Compile.text
    refine OnlyLooks.bind (fun _ => trivial) fun _ => ?_
    cases chunk origin source with
    | error message => exact report _
    | ok c => exact (forM (fun r => demand ih name r) _).bind fun _ _ => trivial

/-- Nothing is written before a unit is analysed. -/
theorem analyse_onlyLooks (unit : NamedUnit) (text : String) (reach : Nat) :
    (analyse unit text reach).OnlyLooks :=
  (OnlyLooks.text reach unit.name unit.uri text {}).bind fun _ => trivial

end Lua.Compile

/-- The Lua compiler leaves its surroundings open. -/
theorem Lua.compiler_neverCloses : Lua.compiler.NeverCloses := by
  have hwrite (es : List (String × Bytes)) : (Compile.writeAll es).NeverCloses := by
    induction es with
    | nil => trivial
    | cons e es ih =>
      intro r
      cases r with
      | error f => exact ih.bind fun _ => trivial
      | ok _ => exact ih.bind fun _ => trivial
  intro unit text reach
  cases text with
  | error e => trivial
  | ok text =>
    refine (Compile.analyse_onlyLooks unit text reach).neverCloses.bind fun s => ?_
    split
    · trivial
    · exact (hwrite s.outputs).bind fun _ => trivial

namespace Capture

open Dialogue

variable {α : Type}

def takeAll (c : Capture) (es : List (String × Bytes)) : Capture :=
  { c with outputs := c.outputs.insertAll es }

def answering (find : String → Except Error (Option ModuleSource)) : Manager Capture :=
  { manager {} with find := fun name => return find name }

variable {find : String → Except Error (Option ModuleSource)}

theorem answers_answering : (answering find).Answers find := fun _ _ => rfl

/-- Looking up changes nothing. -/
theorem after_answering (names : List String) (c : Capture) : (answering find).after names c = c := by
  induction names with
  | nil => rfl
  | cons name names ih => exact ih

/-- As long as it is not closed a capture answers on the classpath it has now, to what it is asked. -/
theorem answers_like {c : Capture} {d : Disk} {x : Dialogue α} (hx : x.NeverCloses) {c' : Capture}
    (hc : c'.classpath = c.classpath)
    (hf : ∀ name, .find name ∈ x.calls (answering find) c' → c.find d name = find name) :
    (x.run (manager d)).run c' = (x.run (answering find)).run c' ∧
      x.calls (manager d) c' = x.calls (answering find) c' := by
  induction x generalizing c' with
  | done a => exact ⟨rfl, rfl⟩
  | find name next ih =>
    have hself : c'.find d name = find name := by
      rw [Capture.find, hc]
      exact hf name List.mem_cons_self
    obtain ⟨hr, hl⟩ := ih (find name) (hx _) hc fun n hn => hf n (List.mem_cons_of_mem _ hn)
    rw [run_find, calls_find, hself]
    exact ⟨hr, congrArg (List.cons _) hl⟩
  | write name bytes next ih =>
    have hc' : (c'.write name bytes).classpath = c.classpath := hc
    obtain ⟨hr, hl⟩ := ih (.ok ()) (hx _) hc' fun n hn => hf n (List.mem_cons_of_mem _ hn)
    exact ⟨hr, congrArg (List.cons _) hl⟩
  | close next => exact hx.elim

end Capture

namespace Lua

open Compile Dialogue

variable {c : Capture} {d : Disk} {unit : NamedUnit} {text : String}
  {find : String → Except Error (Option ModuleSource)}

def Session.writes (s : Session) : List (String × Bytes) :=
  if hasErrors s.diagnostics then [] else s.outputs

/-- A capture takes in all that is written. -/
theorem run_writeAll (d : Disk) (es : List (String × Bytes)) (c' : Capture) :
    ((writeAll es).run (Capture.manager d)).run c' = ([], c'.takeAll es) := by
  induction es generalizing c' with
  | nil => rfl
  | cons e es ih =>
    have hrest : ((do return [] ++ (← writeAll es) : Dialogue (List Diagnostic)).run
        (Capture.manager d)).run (c'.write e.1 e.2) = ([], c'.takeAll (e :: es)) := by
      rw [run_bind, ih]
      rfl
    exact hrest

theorem Sources.fst_of_compiled? (x : Sources) {n : String} {p : String × Bytes}
    (h : x.compiled? n = some p) : n = p.1 := by
  unfold compiled? at h
  split at h
  · split at h
    · cases h
      rfl
    · cases h
  · cases h

/-- What a compile leaves in a capture that was empty, if there is no error in it: the unit and all
modules that it needs, each compiled from its own text. -/
structure Complete (x : Sources) (as : Artifacts) : Prop where
  contains : ∀ n, as.contains n = true ↔ x.Member n
  compiled : ∀ n bytes, as.get? n = some bytes → x.compiled? n = some (n, bytes)
  sound : ∀ n, x.Member n → ¬x.Fails n

/-- The outputs of an analysis without errors are complete. -/
theorem complete_of_entered {x : Sources} {s : Session} {looked inner : List String}
    (h : Entered x x.unit.name {} s looked inner) (he : hasErrors s.diagnostics = false) :
    Complete x (NameMap.empty.insertAll s.outputs) := by
  have hpost : PostOrder x.next [] [x.unit.name] s.visited (inner ++ [x.unit.name]) :=
    .enter (by simp) h.post .nil
  have hmem (n : String) : n ∈ inner ++ [x.unit.name] ↔ x.Member n := hpost.mem_iff_reachable n
  have hsound (n : String) (hn : x.Member n) : ¬x.Fails n := by
    intro hf
    have := h.errors.mpr (.inr ⟨n, (hmem n).mpr hn, hf⟩)
    simp [he] at this
  have hout : s.outputs = (inner ++ [x.unit.name]).filterMap x.compiled? := h.outputs
  refine ⟨fun n => ?_, fun n bytes hn => ?_, hsound⟩
  · rw [NameMap.contains, NameMap.isSome_get?_insertAll, hout, ← hmem]
    constructor
    · intro hn
      obtain ⟨p, hp, rfl⟩ := List.mem_map.mp hn
      obtain ⟨k, hk, hc⟩ := List.mem_filterMap.mp hp
      rwa [← x.fst_of_compiled? hc]
    · intro hn
      obtain ⟨p, hp⟩ := Option.isSome_iff_exists.mp
        (x.isSome_compiled? ((hmem n).mp hn) (hsound n ((hmem n).mp hn)))
      exact List.mem_map.mpr ⟨p, List.mem_filterMap.mpr ⟨n, hn, hp⟩, (x.fst_of_compiled? hp).symm⟩
  · rcases NameMap.mem_of_get?_insertAll hn with hn | hn
    · rw [hout] at hn
      obtain ⟨k, -, hc⟩ := List.mem_filterMap.mp hn
      have hk : k = n := x.fst_of_compiled? hc
      rwa [hk] at hc
    · cases hn

/-- The analysis of a unit that a capture answers goes through all modules that the unit needs. It is
the same on each file tree where the same modules are found. -/
theorem analyse_captured (c : Capture) (d : Disk) (unit : NamedUnit) (text : String) :
    ∀ d', c.find d' = c.find d → ∃ s looked inner,
      Entered (sources c d unit text) unit.name {} s looked inner ∧ ∀ e ∈ [d, d'],
        ((analyse unit text (c.reach e (.ok text))).run (Capture.manager e)).run c = (s, c) ∧
          (analyse unit text (c.reach e (.ok text))).calls (Capture.manager e) c =
            looked.map Call.find := by
  intro d' hd
  have hsame : sources c d' unit text = sources c d unit text := by rw [sources, hd, sources]
  have hmember' (n : String) (hn : (sources c d unit text).Member n) :
      n ∈ unit.name :: knownNames c d' text := by
    rw [← hsame] at hn
    exact member_known hn
  -- Names enough for both trees are those of the tree where there are fewer.
  obtain ⟨known, hk, hl⟩ : ∃ known, (∀ n, (sources c d unit text).Member n → n ∈ unit.name :: known) ∧
      ∀ e ∈ [d, d'], known.length < c.reach e (.ok text) := by
    have h := length_knownNames_lt c d text
    have h' := length_knownNames_lt c d' text
    rcases Nat.le_total (knownNames c d text).length (knownNames c d' text).length with hle | hle
    · refine ⟨_, fun n => member_known, ?_⟩
      simp only [List.forall_mem_cons]
      exact ⟨h, Nat.lt_of_le_of_lt hle h', by simp⟩
    · refine ⟨_, hmember', ?_⟩
      simp only [List.forall_mem_cons]
      exact ⟨Nat.lt_of_le_of_lt hle h, h', by simp⟩
  obtain ⟨s, looked, inner, hw, hall⟩ := analyse_entered unit text hk
  refine ⟨s, looked, inner, hw, fun e he => ?_⟩
  have hfind : c.find e = c.find d := by
    rcases List.mem_cons.mp he with he | he
    · rw [he]
    · rw [List.mem_singleton.mp he, hd]
  have hnever := (analyse_onlyLooks unit text (c.reach e (.ok text))).neverCloses
  have hanswers : (Capture.answering (c.find d)).Answers (c.find d) := Capture.answers_answering
  obtain ⟨hrun, hcalls⟩ := hall hanswers (hl e he) c
  obtain ⟨hr, hc⟩ := Capture.answers_like hnever rfl fun n _ => congrFun hfind n
  exact ⟨by rw [hr, hrun, Capture.after_answering], hc.trans hcalls⟩

/-- A compile that a capture answers gives what its analysis found, and its outputs are added to the
capture if there is no error. -/
theorem compile_captured {reach : Nat} {s : Session}
    (hr : ((analyse unit text reach).run (Capture.manager d)).run c = (s, c)) :
    ((compiler.compile unit (.ok text) reach).run (Capture.manager d)).run c =
      (s.diagnostics, c.takeAll s.writes) := by
  rw [compile_eq, run_bind, hr, Session.writes]
  cases hasErrors s.diagnostics with
  | true => rfl
  | false =>
    simp only [Bool.false_eq_true, ↓reduceIte, run_bind, run_writeAll]
    exact congrArg (·, c.takeAll s.outputs) (List.append_nil _)

/-- A compile of a text that a capture answers: its analysis goes through all modules that the unit
needs, and its outputs are added to the capture if there is no error. It is the same on each file
tree where the same modules are found. -/
theorem run_captured (c : Capture) (d : Disk) (unit : NamedUnit) (text : String) :
    ∀ d', c.find d' = c.find d → ∃ s looked inner,
      Entered (sources c d unit text) unit.name {} s looked inner ∧ ∀ e ∈ [d, d'],
        ((compiler.compile unit (.ok text) (c.reach e (.ok text))).run (Capture.manager e)).run c =
          (s.diagnostics, c.takeAll s.writes) := by
  intro d' hd
  obtain ⟨s, looked, inner, hw, hall⟩ := analyse_captured c d unit text d' hd
  exact ⟨s, looked, inner, hw, fun e he => compile_captured (hall e he).1⟩

def asked (find : String → Except Error (Option ModuleSource)) (c : Capture) (d : Disk)
    (unit : NamedUnit) (text : String) : List String :=
  ((compiler.compile unit (.ok text) (c.reach d (.ok text))).calls (Capture.answering find)
    c).filterMap Call.lookup?

def answered (find : String → Except Error (Option ModuleSource)) (c : Capture) (d : Disk)
    (unit : NamedUnit) (text : String) : List Diagnostic × Capture :=
  ((compiler.compile unit (.ok text) (c.reach d (.ok text))).run (Capture.answering find)).run c

/-- Only the names that are looked up matter for what comes of a compile. -/
theorem run_answered (hf : ∀ name ∈ asked find c d unit text, c.find d name = find name) :
    ((compiler.compile unit (.ok text) (c.reach d (.ok text))).run (Capture.manager d)).run c =
      answered find c d unit text :=
  (Capture.answers_like (compiler_neverCloses _ _ _) rfl fun name hn =>
    hf name (List.mem_filterMap.mpr ⟨.find name, hn, rfl⟩)).1

/-- A compile into an empty capture leaves the unit with all modules that it needs, or nothing. -/
theorem outputs_captured (hc : c.outputs = .empty) (d : Disk) (unit : NamedUnit) (text : String) :
    let r := ((compiler.compile unit (.ok text) (c.reach d (.ok text))).run (Capture.manager d)).run c
    r.2.classpath = c.classpath ∧
      (r.2.outputs = .empty ∨ Complete (sources c d unit text) r.2.outputs) := by
  obtain ⟨s, looked, inner, hw, hall⟩ := run_captured c d unit text d rfl
  rw [hall d List.mem_cons_self]
  refine ⟨rfl, ?_⟩
  rw [Capture.takeAll, hc, Session.writes]
  cases he : hasErrors s.diagnostics with
  | true => exact .inl rfl
  | false => exact .inr (complete_of_entered hw he)

end Lua
end UnitCache
