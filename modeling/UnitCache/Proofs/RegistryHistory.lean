import UnitCache.Proofs.RegistryWork

namespace UnitCache.Registry

inductive Operation where
  | reset (t : Toolchain)
  | grow (t : Toolchain) (p : Path)
  | compile (t : Toolchain) (unit : NamedUnit)
  | write (name : String) (bytes : Bytes)
  | find (name : String)
  | clear
  | close
  /-- Others change the file tree. -/
  | change (d : Disk)

inductive Reply where
  | nothing
  | rebuilt (r : Except Error Unit)
  | grown (r : Except Error Bool)
  | compiled (r : Except Error (List Diagnostic))
  | found (r : Except Error (Option ModuleSource))

namespace Reply

def isRefusal : Reply → Bool
  | .rebuilt (.error _) => true
  | .grown (.error _) => true
  | .grown (.ok false) => true
  | .compiled (.error _) => true
  | .found (.error _) => true
  | _ => false

end Reply

def perform (s : Site) : Operation → Reply × Site
  | .reset t =>
    let (r, s) := (Work.reset t).run s
    (.rebuilt r, s)
  | .grow t p =>
    let (r, s) := (Work.grow t p).run s
    (.grown r, s)
  | .compile t unit =>
    let (r, s) := (Work.compile t unit).run s
    (.compiled r, s)
  | .write name bytes =>
    (.nothing, { s with registry.capture := s.registry.capture.write name bytes })
  | .find name => (.found (s.registry.capture.find s.host.disk name), s)
  | .clear => (.nothing, { s with registry := s.registry.clear })
  | .close => (.nothing, { s with registry := s.registry.close })
  | .change d => (.nothing, { s with host.disk := d })

structure Event where
  operation : Operation
  reply : Reply
  before : Site
  after : Site

def current (start : Site) : List Event → Site
  | [] => start
  | e :: _ => e.after

def eventOf (s : Site) (op : Operation) : Event :=
  ⟨op, (perform s op).1, s, (perform s op).2⟩

/-- The events of carrying out operations. The latest ones come first in both. -/
def history (start : Site) : List Operation → List Event
  | [] => []
  | op :: earlier =>
    let es := history start earlier
    eventOf (current start es) op :: es

namespace Event

/-- The path that an event adds to the classpath: a rooted one that was not there yet. -/
def added (e : Event) : List Path :=
  match e.operation, e.reply with
  | .grow _ p, .grown (.ok true) =>
    match canonical e.before.host.disk p with
    | .ok q => if e.before.registry.classpath.any (fun x => x.same q) then [] else [q]
    | .error _ => []
  | _, _ => []

def rebuilds (e : Event) : Bool :=
  match e.reply with
  | .rebuilt (.ok ()) => true
  | .grown (.ok true) => !e.added.isEmpty
  | _ => false

def written (e : Event) : List (String × Bytes) :=
  match e.operation with
  | .write name bytes => [(name, bytes)]
  | .compile t unit =>
    let c := e.before.registry.capture
    let d := e.before.host.disk
    Capture.written d (c.dialogue t unit d) c
  | _ => []

def clears (e : Event) : Bool :=
  e.rebuilds ||
    match e.operation with
    | .clear => true
    | _ => false

def closes (e : Event) : Bool :=
  match e.operation with
  | .close => true
  | .compile t unit =>
    let c := e.before.registry.capture
    let d := e.before.host.disk
    decide (.close ∈ (c.dialogue t unit d).calls (Capture.manager d) c)
  | _ => false

end Event

def latest (paths : List Path) (h : Host) (es : List Event) : Except Error Classpath :=
  match es.find? Event.rebuilds with
  | none => opened paths h
  | some e => opened e.after.registry.classpath e.before.host

/-- How a registry follows from its history, the latest event first. -/
structure Accounts (paths : List Path) (h : Host) (es : List Event) (r : Registry) : Prop where
  classpath : r.classpath = paths ++ es.reverse.flatMap Event.added
  /-- No path was added that was there already. -/
  distinct : ∀ ps q qs, es.reverse.flatMap Event.added = ps ++ q :: qs →
    (paths ++ ps).all (fun x => !x.same q) = true
  generation : r.generation = es.countP Event.rebuilds
  outputs : r.capture.outputs = NameMap.empty.insertAll
    ((es.takeWhile (fun e => !e.clears)).reverse.flatMap Event.written)
  /-- The classpath at work is the one opened last, without its entries once it was closed. -/
  resolver : ∃ c, latest paths h es = .ok c ∧ c.closed = false ∧
    r.capture.classpath =
      if (es.takeWhile (fun e => !e.rebuilds)).any Event.closes
      then { c with entries := [], closed := true } else c

namespace Accounts

variable {paths : List Path} {h : Host} {es : List Event} {e : Event} {r r' : Registry}

/-- An event that neither rebuilds nor clears adds its outputs, and may close the classpath. -/
theorem keep (ha : Accounts paths h es r) (hadd : e.added = []) (hc : e.clears = false)
    (hp : r'.classpath = r.classpath) (hg : r'.generation = r.generation)
    (ho : r'.capture.outputs = r.capture.outputs.insertAll e.written)
    (hr : r'.capture.classpath =
      if e.closes then r.capture.classpath.close else r.capture.classpath) :
    Accounts paths h (e :: es) r' := by
  have hb : e.rebuilds = false := (Bool.or_eq_false_iff.mp hc).1
  refine ⟨?_, ?_, ?_, ?_, ?_⟩
  · simpa [hadd] using hp.trans ha.classpath
  · simpa [hadd] using ha.distinct
  · simpa [hb] using hg.trans ha.generation
  · rw [List.takeWhile_cons_of_pos (by simp [hc]), List.reverse_cons, List.flatMap_append,
      NameMap.insertAll_append, ← ha.outputs, ho]
    simp
  · obtain ⟨c, hl, ho, hcl⟩ := ha.resolver
    refine ⟨c, by simpa [latest, hb] using hl, ho, ?_⟩
    rw [List.takeWhile_cons_of_pos (by simp [hb]), List.any_cons, hr, hcl]
    cases e.closes with
    | false => rfl
    | true =>
      simp only [Bool.true_or, ↓reduceIte]
      split <;> simp [Classpath.close, ho]

/-- A clearing that is no rebuild empties the outputs and nothing else. -/
theorem clear (ha : Accounts paths h es r) (hadd : e.added = []) (hb : e.rebuilds = false)
    (hc : e.clears = true) (hcl : e.closes = false) : Accounts paths h (e :: es) r.clear := by
  refine ⟨?_, ?_, ?_, ?_, ?_⟩
  · simpa [hadd, Registry.clear] using ha.classpath
  · simpa [hadd] using ha.distinct
  · simpa [hb, Registry.clear] using ha.generation
  · rw [List.takeWhile_cons_of_neg (by simp [hc])]
    rfl
  · obtain ⟨c, hl, ho, hr⟩ := ha.resolver
    refine ⟨c, by simpa [latest, hb] using hl, ho, ?_⟩
    rw [List.takeWhile_cons_of_pos (by simp [hb]), List.any_cons, hcl, Bool.false_or]
    exact hr

/-- A rebuild starts the outputs and the classpath at work anew. -/
theorem rebuild (ha : Accounts paths h es r) (hb : e.rebuilds = true)
    (hn : e.added = [] ∨ ∃ q, e.added = [q] ∧ r.classpath.all (fun x => !x.same q) = true)
    (hp : e.after.registry.classpath = r.classpath ++ e.added)
    (hg : e.after.registry.generation = r.generation + 1)
    (ho : e.after.registry.capture.outputs = .empty)
    (hl : opened e.after.registry.classpath e.before.host =
      .ok e.after.registry.capture.classpath)
    (hcl : e.after.registry.capture.classpath.closed = false) :
    Accounts paths h (e :: es) e.after.registry := by
  have hc : e.clears = true := by simp [Event.clears, hb]
  refine ⟨?_, ?_, ?_, ?_, ?_⟩
  · rw [hp, ha.classpath]
    simp
  · intro ps q qs hs
    rw [List.reverse_cons, List.flatMap_append, List.flatMap_singleton] at hs
    rcases hn with hn | ⟨q', hq', hd⟩
    · rw [hn, List.append_nil] at hs
      exact ha.distinct ps q qs hs
    · rw [hq'] at hs
      rcases List.eq_nil_or_concat qs with rfl | ⟨qs', x, rfl⟩
      · obtain ⟨hps, hqq⟩ := List.append_inj' hs rfl
        rw [← hps, ← ha.classpath, ← List.cons.inj hqq |>.1]
        exact hd
      · have hs' : es.reverse.flatMap Event.added ++ [q'] = (ps ++ q :: qs') ++ [x] := by
          simpa using hs
        exact ha.distinct ps q qs' (List.append_inj' hs' rfl).1
  · rw [hg, ha.generation, List.countP_cons_of_pos hb]
  · rw [List.takeWhile_cons_of_neg (by simp [hc])]
    exact ho
  · refine ⟨e.after.registry.capture.classpath, by simpa [latest, hb] using hl, hcl, ?_⟩
    rw [List.takeWhile_cons_of_neg (by simp [hb])]
    rfl

theorem step {s : Site} (ha : Accounts paths h es s.registry) (op : Operation) :
    Accounts paths h (eventOf s op :: es) (eventOf s op).after.registry := by
  cases op with
  | reset t =>
    have ho := Work.reset_rebuilding t s
    change Accounts paths h
      (⟨.reset t, .rebuilt ((Work.reset t).run s).1, s, ((Work.reset t).run s).2⟩ :: es)
      ((Work.reset t).run s).2.registry
    generalize hout : (Work.reset t).run s = out at ho ⊢
    cases ho with
    | done c g hb =>
      obtain ⟨hc, hl⟩ := build_ok hb
      exact ha.rebuild rfl (.inl rfl) (List.append_nil _).symm rfl hc hl (opened_open hl)
    | failed e g hb => exact ha.keep rfl rfl rfl rfl rfl rfl
  | grow t p =>
    have ho := Work.grow_growing t p s
    change Accounts paths h
      (⟨.grow t p, .grown ((Work.grow t p).run s).1, s, ((Work.grow t p).run s).2⟩ :: es)
      ((Work.grow t p).run s).2.registry
    generalize hout : (Work.grow t p).run s = out at ho ⊢
    cases ho with
    | missing _ => exact ha.keep rfl rfl rfl rfl rfl rfl
    | unrooted f _ => exact ha.keep rfl rfl rfl rfl rfl rfl
    | present q hq hl =>
      have hadd : Event.added ⟨.grow t p, .grown (.ok true), s, s⟩ = [] := by
        simp [Event.added, hq, hl]
      have hcl : Event.clears ⟨.grow t p, .grown (.ok true), s, s⟩ = false := by
        simp [Event.clears, Event.rebuilds, hadd]
      exact ha.keep hadd hcl rfl rfl rfl rfl
    | added q c g log hq hl hb =>
      obtain ⟨hc, ho⟩ := build_ok hb
      have hadd (s' : Site) : Event.added ⟨.grow t p, .grown (.ok true), s, s'⟩ = [q] := by
        simp [Event.added, hq, hl]
      refine ha.rebuild (by simp [Event.rebuilds, hadd]) (.inr ⟨q, hadd _, ?_⟩)
        (by simp [hadd]) rfl hc ho (opened_open ho)
      rw [List.all_eq_not_any_not]
      simpa using hl
    | failed q e g _ _ => exact ha.keep rfl rfl rfl rfl rfl rfl
  | compile t unit =>
    have hc := Work.run_compile t unit s
    change Accounts paths h
      (⟨.compile t unit, .compiled ((Work.compile t unit).run s).1, s,
        ((Work.compile t unit).run s).2⟩ :: es)
      ((Work.compile t unit).run s).2.registry
    rw [hc]
    refine ha.keep rfl rfl rfl rfl (Capture.run_outputs _ _ _) ?_
    refine (Capture.run_classpath _ _ _).trans ?_
    simp [Event.closes]
  | write name bytes => exact ha.keep rfl rfl rfl rfl rfl rfl
  | find name => exact ha.keep rfl rfl rfl rfl rfl rfl
  | clear => exact ha.clear rfl rfl rfl rfl
  | close => exact ha.keep rfl rfl rfl rfl rfl rfl
  | change d => exact ha.keep rfl rfl rfl rfl rfl rfl

end Accounts

/-- An operation that refuses leaves the whole registry as it was. -/
theorem perform_refusal {s : Site} {op : Operation} (hr : (perform s op).1.isRefusal = true) :
    (perform s op).2.registry = s.registry := by
  cases op with
  | reset t =>
    have ho := Work.reset_rebuilding t s
    change Reply.isRefusal (.rebuilt ((Work.reset t).run s).1) = true at hr
    change ((Work.reset t).run s).2.registry = s.registry
    generalize hout : (Work.reset t).run s = out at ho hr ⊢
    cases ho with
    | done c g hb => cases hr
    | failed e g hb => rfl
  | grow t p =>
    have ho := Work.grow_growing t p s
    change Reply.isRefusal (.grown ((Work.grow t p).run s).1) = true at hr
    change ((Work.grow t p).run s).2.registry = s.registry
    generalize hout : (Work.grow t p).run s = out at ho hr ⊢
    cases ho with
    | missing _ | unrooted _ _ | present _ _ _ | failed _ _ _ _ _ => rfl
    | added q c g log hq hl hb => cases hr
  | compile t unit =>
    change Reply.isRefusal (.compiled ((Work.compile t unit).run s).1) = true at hr
    rw [Work.run_compile] at hr
    cases hr
  | find name => rfl
  | write _ _ | clear | close | change _ => cases hr

/-- What is captured after an operation: nothing, or its outputs over what was captured before. -/
theorem perform_outputs (s : Site) (op : Operation) :
    (perform s op).2.registry.capture.outputs =
      if (eventOf s op).clears then .empty
      else s.registry.capture.outputs.insertAll (eventOf s op).written := by
  cases op with
  | reset t =>
    have ho := Work.reset_rebuilding t s
    change ((Work.reset t).run s).2.registry.capture.outputs =
      if Event.clears ⟨.reset t, .rebuilt ((Work.reset t).run s).1, s, ((Work.reset t).run s).2⟩
      then _ else _
    generalize hout : (Work.reset t).run s = out at ho ⊢
    cases ho with
    | done c g hb => exact (build_ok hb).1
    | failed e g hb => rfl
  | grow t p =>
    have ho := Work.grow_growing t p s
    change ((Work.grow t p).run s).2.registry.capture.outputs =
      if Event.clears ⟨.grow t p, .grown ((Work.grow t p).run s).1, s, ((Work.grow t p).run s).2⟩
      then _ else _
    generalize hout : (Work.grow t p).run s = out at ho ⊢
    cases ho with
    | missing _ | unrooted _ _ | failed _ _ _ _ _ => rfl
    | present q hq hl =>
      rw [if_neg (by simp [Event.clears, Event.rebuilds, Event.added, hq, hl])]
      rfl
    | added q c g log hq hl hb =>
      rw [if_pos (by simp [Event.clears, Event.rebuilds, Event.added, hq, hl])]
      exact (build_ok hb).1
  | compile t unit =>
    have hc := Work.run_compile t unit s
    change ((Work.compile t unit).run s).2.registry.capture.outputs = _
    rw [hc]
    exact Capture.run_outputs _ _ _
  | write _ _ | find _ | clear | close | change _ => rfl

end UnitCache.Registry
