import UnitCache.Fault
import UnitCache.Path.Basic
/-!
A file tree as a value: what stands at each place below the root. A file has an identity beside its
content, so that a file that is open stays the same one when it is overwritten in place, and keeps
its content when its name goes to another file or to none.
-/
namespace UnitCache

abbrev Name := List Char

/-- Where something stands: the names on the way from the root. -/
abbrev Place := List Name

abbrev FileId := Nat

inductive Entry where
  | file (id : FileId) (content : Bytes)
  | directory
  | link (target : Path)
  deriving DecidableEq, Repr

structure Disk where
  entries : List (Place × Entry) := []
  /-- The working directory. -/
  cwd : Place := []
  nextId : FileId := 0
  /-- Files without a name. -/
  nameless : List (FileId × Bytes) := []
  deriving Repr

namespace Disk

def lookup (es : List (Place × Entry)) (p : Place) : Option Entry :=
  (es.find? (fun e => e.1 = p)).map (·.2)

/-- What stands at a place. The root is a directory. -/
def look? (d : Disk) (p : Place) : Option Entry :=
  if p = [] then some .directory else lookup d.entries p

/-- Keeps the content of the file at a place for those who have it open. -/
def release (d : Disk) (p : Place) : Disk :=
  match d.look? p with
  | some (.file id content) => { d with nameless := (id, content) :: d.nameless }
  | _ => d

def set (d : Disk) (p : Place) (e : Entry) : Disk :=
  { d with entries := (p, e) :: d.entries.filter (fun x => x.1 ≠ p) }

def erase (d : Disk) (p : Place) : Disk :=
  { d.release p with entries := d.entries.filter (fun x => x.1 ≠ p) }

/-- Gives the file at a place its content: a new file, or the same one with other content. -/
def setContent (d : Disk) (p : Place) (content : Bytes) : Disk :=
  match d.look? p with
  | some (.file id _) => d.set p (.file id content)
  | _ => { d.set p (.file d.nextId content) with nextId := d.nextId + 1 }

/-- The content of a file, with or without a name. -/
def contentOf? (d : Disk) (id : FileId) : Option Bytes :=
  let named := d.entries.findSome? fun
    | (_, .file i content) => if i = id then some content else none
    | _ => none
  named <|> (d.nameless.find? (fun x => x.1 = id)).map (·.2)

theorem look?_set_self (d : Disk) {p : Place} (h : p ≠ []) (e : Entry) :
    (d.set p e).look? p = some e := by
  simp [look?, set, lookup, h]

theorem lookup_filter_ne (es : List (Place × Entry)) {p q : Place} (h : q ≠ p) :
    lookup (es.filter (fun x => x.1 ≠ p)) q = lookup es q := by
  unfold lookup
  congr 1
  induction es with
  | nil => rfl
  | cons x es ih =>
    by_cases hx : x.1 = p
    · have hq : ¬x.1 = q := fun e => h (e ▸ hx)
      rw [List.filter_cons_of_neg (by simpa using hx), List.find?_cons_of_neg (by simpa using hq), ih]
    · rw [List.filter_cons_of_pos (by simpa using hx)]
      by_cases hq : x.1 = q
      · rw [List.find?_cons_of_pos (by simpa using hq), List.find?_cons_of_pos (by simpa using hq)]
      · rw [List.find?_cons_of_neg (by simpa using hq), List.find?_cons_of_neg (by simpa using hq), ih]

theorem look?_set_of_ne (d : Disk) {p q : Place} (h : q ≠ p) (e : Entry) :
    (d.set p e).look? q = d.look? q := by
  by_cases hq : q = []
  · simp [look?, hq]
  · have := lookup_filter_ne d.entries h
    simp only [look?, hq, if_false, set, lookup] at this ⊢
    rw [List.find?_cons_of_neg (by simpa using Ne.symm h)]
    exact this

end Disk
end UnitCache
