import UnitCache.Proofs.Effects
import UnitCache.Proofs.Utf8
import UnitCache.Store.Basic

namespace UnitCache

namespace Utf8

/-- No text begins like packed bytes: the second byte of those begins no character. -/
theorem encode_not_packed (s : String) : (encode s).take 3 ≠ [0x1F, 0x8B, 8] := by
  intro h
  obtain ⟨rest, hs⟩ : ∃ rest, 0x1F :: 0x8B :: rest = s.toList.flatMap String.utf8EncodeChar := by
    refine ⟨8 :: (encode s).drop 3, ?_⟩
    have happend := (encode s).take_append_drop 3
    rw [h] at happend
    exact happend
  obtain ⟨cs, hcs⟩ := flatMap_tail hs (by decide)
  have hpieces := congrArg pieces hcs
  rw [pieces_flatMap] at hpieces
  cases cs with
  | nil => cases hcs
  | cons c cs =>
    rw [pieces.eq_def] at hpieces
    simp at hpieces

end Utf8

namespace Gzip

variable {short : Fault} {bs : Bytes}

theorem body_short (h : bs.length < 10) : body short bs = .error short := by
  simp only [body, take?, if_neg (Nat.not_le.mpr h)]
  rfl

theorem body_header (hl : 10 ≤ bs.length) (h : bs.take 3 ≠ [0x1F, 0x8B, 8]) :
    body short bs = .error .gzipHeader := by
  have hfixed : (bs.take 10).take 3 ≠ [0x1F, 0x8B, 8] := by
    rwa [List.take_take]
  simp only [body, take?, if_pos hl, List.splitAt_eq]
  change (if _ then _ else _) = _
  rw [if_pos (by simp [hfixed])]
  rfl

/-- A text cannot be unpacked. -/
theorem unpack_encode (text : String) : (unpack (.ofBytes (Utf8.encode text))).readAll =
    .error (if (Utf8.encode text).length < 10 then .unexpectedEnd else .gzipHeader) := by
  simp only [unpack, ByteStream.ofBytes, Option.getD_none]
  by_cases h : (Utf8.encode text).length < 10
  · rw [body_short h, if_pos h]
    rfl
  · rw [body_header (Nat.not_lt.mp h) (Utf8.encode_not_packed text), if_neg h]
    rfl

end Gzip

namespace Store

variable {s : Store} {d : Disk} {location name : String} {stream : ByteStream} {f : Fault}

inductive Trial where
  /-- Nothing is there. -/
  | missing
  | found (stream : ByteStream)
  /-- It may be there, but the path was refused. -/
  | refused (path : Path) (fault : Fault)
  deriving DecidableEq

def asking (d : Disk) (name : String) (p : ResourceProvider) : Trial :=
  match p.find? d name with
  | .ok none => .missing
  | .ok (some stream) => .found stream
  | .error f => .refused (.ofString name) f

def opening (d : Disk) (name : String) : Trial :=
  match d.openAt (.ofString name) with
  | .ok o => .found (ResourceProvider.streamOf o)
  | .error .notFound => .missing
  | .error f => .refused (.ofString name) f

def Trial.unpacked : Trial → Trial
  | .found stream => .found (Gzip.unpack stream)
  | t => t

/-- The ways to find a location, in the order in which they are tried: all providers by its name, all
providers by its name below the root, its file, and the packed file beside it. -/
def trials (s : Store) (d : Disk) (location : String) : List Trial :=
  s.providers.map (asking d location) ++ s.providers.map (asking d ("/" ++ location)) ++
    [opening d location, (opening d (location ++ ".gz")).unpacked]

def decided (location : String) : List Trial → Except Error ByteStream
  | [] => .error (.resourceNotFound location)
  | .missing :: ts => decided location ts
  | .found stream :: _ => .ok stream
  | .refused p f :: _ => .error (.io p f)

def asText (location : String) (bs : Bytes) : Except Error String :=
  match Utf8.decode bs with
  | .ok text => .ok text
  | .error f => .error (.io (.ofString location) (.badText f))

theorem inline?_eq_none (h : ¬"=".toList <+: location.toList) : inline? location = none := by
  unfold inline?
  split
  · rename_i cs hc
    exact absurd ⟨cs, hc.symm⟩ h
  · rfl

/-- Marked locations hold the text behind the mark. -/
theorem marked_iff : "=".toList <+: location.toList ↔ ∃ text, location = "=" ++ text := by
  constructor
  · rintro ⟨cs, hcs⟩
    refine ⟨String.ofList cs, ?_⟩
    apply String.toList_inj.mp
    rw [← hcs, String.toList_append]
    exact congrArg (List.cons '=') String.toList_ofList.symm
  · rintro ⟨text, rfl⟩
    exact ⟨text.toList, String.toList_append.symm⟩

theorem inline?_marked (text : String) : inline? ("=" ++ text) = some text := by
  simp [inline?, String.toList_append]

theorem decided_append {ts ts' : List Trial} (h : ∀ t ∈ ts, t = .missing) :
    decided location (ts ++ ts') = decided location ts' := by
  induction ts with
  | nil => rfl
  | cons t ts ih =>
    obtain rfl := h t List.mem_cons_self
    exact ih fun t ht => h t (List.mem_cons_of_mem _ ht)

/-- Nothing decides just when everything misses the location. -/
theorem decided_missing {l : String} {ts : List Trial} :
    decided location ts = .error (.resourceNotFound l) ↔ l = location ∧ ∀ t ∈ ts, t = .missing := by
  induction ts with
  | nil => simp [decided, eq_comm]
  | cons t ts ih => cases t <;> simp [decided, ih]

/-- The providers are asked one after the other. -/
theorem resource?_decided (s : Store) (d : Disk) (location name : String) (ts : List Trial) :
    decided location (s.providers.map (asking d name) ++ ts) =
      (do
        match ← resource? d name s.providers with
        | some stream => .ok stream
        | none => decided location ts) := by
  induction s.providers with
  | nil => rfl
  | cons p ps ih =>
    rw [List.map_cons, List.cons_append, resource?, asking]
    rcases hp : p.find? d name with f | _ | stream
    · rfl
    · exact ih
    · rfl

theorem fileStream_decided (d : Disk) (location : String) :
    decided location [opening d location, (opening d (location ++ ".gz")).unpacked] =
      fileStream d location := by
  rw [fileStream, opening]
  cases ho : d.openAt (.ofString location) with
  | ok o => rfl
  | error f =>
    cases f with
    | notFound =>
      rw [opening]
      simp only [decided]
      cases hp : d.openAt (.ofString (location ++ ".gz")) with
      | ok o => rfl
      | error f => cases f <;> rfl
    | _ => rfl

/-- The stream of a location is what its trials decide on. -/
theorem stream_decided (hne : location ≠ "") (hin : ¬"=".toList <+: location.toList) :
    s.stream d location = decided location (s.trials d location) := by
  rw [stream, if_neg hne, inline?_eq_none hin, trials, List.append_assoc, resource?_decided,
    resource?_decided, fileStream_decided]
  rfl

theorem isPacked_iff : isPacked location = true ↔ ".gz".toList <:+ location.toList := by
  rw [isPacked, List.isSuffixOf_iff_suffix]

/-- The bytes of a stream, unpacked once more if the name of its location says that they are packed. -/
theorem readBytes_ok (h : s.stream d location = .ok stream) : s.readBytes d location =
    ((if ".gz".toList <:+ location.toList then Gzip.unpack stream else stream).readAll).mapError
      (Error.io (.ofString location)) := by
  simp only [readBytes, h, ← isPacked_iff, bind, Except.bind]
  cases (if isPacked location = true then Gzip.unpack stream else stream).readAll <;> rfl

theorem readBytes_error {e : Error} (h : s.stream d location = .error e) :
    s.readBytes d location = .error e := by
  simp only [readBytes, h]
  rfl

/-- Where the stream is found, nothing that is wrong with it means that the location is not there. -/
theorem readBytes_resourceNotFound {l : String} :
    s.readBytes d location = .error (.resourceNotFound l) ↔
      s.stream d location = .error (.resourceNotFound l) := by
  cases h : s.stream d location with
  | error e =>
    rw [readBytes_error h]
    simp
  | ok stream =>
    rw [readBytes_ok h]
    refine iff_of_false (fun hr => ?_) nofun
    cases he : (if ".gz".toList <:+ location.toList then Gzip.unpack stream else stream).readAll <;>
      · rw [he] at hr
        cases hr

theorem readText_eq (h : inline? location = none) :
    s.readText d location = s.readBytes d location >>= asText location := by
  rw [readText, h]
  rfl

theorem readText_resourceNotFound {l : String} (h : inline? location = none) :
    s.readText d location = .error (.resourceNotFound l) ↔
      s.readBytes d location = .error (.resourceNotFound l) := by
  rw [readText_eq h]
  cases s.readBytes d location with
  | error e => simp [bind, Except.bind]
  | ok bs =>
    change asText location bs = _ ↔ _
    rw [asText]
    cases Utf8.decode bs <;> simp

/-- How a location is read that holds no inline content. The first way that finds something gives the
stream, which is unpacked once more just when the name of the location ends in `.gz`; a way that is
refused before that ends the search with its fault, whatever the later ones would find. The location
is not there just when all ways miss it, and not for anything that is wrong with its content. -/
theorem reads_first_found (s : Store) (d : Disk) (location : String) (hne : location ≠ "")
    (hin : ¬"=".toList <+: location.toList) :
    (∀ before stream after, s.trials d location = before ++ .found stream :: after →
        (∀ t ∈ before, t = .missing) → s.readBytes d location =
          ((if ".gz".toList <:+ location.toList then Gzip.unpack stream else stream).readAll).mapError
            (Error.io (.ofString location))) ∧
      (∀ before path fault after, s.trials d location = before ++ .refused path fault :: after →
        (∀ t ∈ before, t = .missing) → s.readBytes d location = .error (.io path fault)) ∧
      ∀ l, (s.readBytes d location = .error (.resourceNotFound l) ↔
          l = location ∧ ∀ t ∈ s.trials d location, t = .missing) ∧
        (s.readText d location = .error (.resourceNotFound l) ↔
          l = location ∧ ∀ t ∈ s.trials d location, t = .missing) := by
  have hstream := s.stream_decided (d := d) hne hin
  refine ⟨?_, ?_, ?_⟩
  · intro before stream after ht hbefore
    rw [ht, decided_append hbefore] at hstream
    exact readBytes_ok hstream
  · intro before path fault after ht hbefore
    rw [ht, decided_append hbefore] at hstream
    exact readBytes_error hstream
  · intro l
    have hbytes : s.readBytes d location = .error (.resourceNotFound l) ↔
        l = location ∧ ∀ t ∈ s.trials d location, t = .missing := by
      rw [readBytes_resourceNotFound, hstream, decided_missing]
    exact ⟨hbytes, (readText_resourceNotFound (inline?_eq_none hin)).trans hbytes⟩

def rootedStore : Store := ⟨[.directories [⟨['r']⟩], .embedded [("/m", [1, 2])]]⟩

def shadowedTree : Disk := { entries := [([['r']], .directory), ([['m']], .file 0 [3])] }

/-- The provider comes before the file. -/
theorem reads_first_found_rooted : "m" ≠ "" ∧ ¬"=".toList <+: "m".toList ∧
    rootedStore.trials shadowedTree "m" = [.missing, .missing, .missing] ++ .found (.ofBytes [1, 2]) ::
      [.found (.ofBytes [3]), .missing] ∧
    rootedStore.readBytes shadowedTree "m" = .ok [1, 2] := by
  have hne : "m" ≠ "" := by decide
  have hin : ¬"=".toList <+: "m".toList := by decide
  have hm : ¬Disk.maxName < Disk.width ['m'] := by decide
  have hbelow : shadowedTree.find .target ((⟨['r']⟩ : Path).join (.ofString "m")) =
      .ok ⟨[['r'], ['m']], none⟩ := by
    change shadowedTree.walk .target Disk.maxLinks [] false [['r'], ['m']] = _
    have hr : ¬Disk.maxName < Disk.width ['r'] := by decide
    simp [Disk.walk, Disk.look?, Disk.lookup, shadowedTree, hr, hm]
  have hfile : shadowedTree.find .target (.ofString "m") = .ok ⟨[['m']], some (.file 0 [3])⟩ := by
    change shadowedTree.walk .target Disk.maxLinks [] false [['m']] = _
    simp [Disk.walk, Disk.look?, Disk.lookup, shadowedTree, hm]
  have hpacked : shadowedTree.find .target (.ofString ("m" ++ ".gz")) =
      .ok ⟨[['m', '.', 'g', 'z']], none⟩ := by
    change shadowedTree.walk .target Disk.maxLinks [] false [['m', '.', 'g', 'z']] = _
    have hgz : ¬Disk.maxName < Disk.width ['m', '.', 'g', 'z'] := by decide
    simp [Disk.walk, Disk.look?, Disk.lookup, shadowedTree, hgz]
  have hplain : ResourceProvider.isPlainName (.ofString "m") = true := by decide
  have hrooted : ResourceProvider.isPlainName (.ofString ("/" ++ "m")) = false := by decide
  have ht : rootedStore.trials shadowedTree "m" = [.missing, .missing, .missing] ++
      .found (.ofBytes [1, 2]) :: [.found (.ofBytes [3]), .missing] := by
    simp only [trials, rootedStore, asking, opening, ResourceProvider.find?, hplain, hrooted,
      Disk.isFile, Disk.openAt, Disk.stat, hbelow, hfile, hpacked, List.map, List.find?]
    rfl
  exact ⟨hne, hin, ht, (reads_first_found rootedStore shadowedTree "m" hne hin).1 _ _ _ ht (by simp)⟩

theorem stream_inline (s : Store) (d : Disk) (text : String) :
    s.stream d ("=" ++ text) = .ok (.ofBytes (Utf8.encode text)) := by
  have hne : "=" ++ text ≠ "" := by
    intro h
    have hl := congrArg String.toList h
    simp [String.toList_append] at hl
  rw [stream, if_neg hne, inline?_marked]

/-- The mark of inline content is no part of a name that ends like that of a packed file. -/
theorem packed_inline (text : String) :
    ".gz".toList <:+ ("=" ++ text).toList ↔ ".gz".toList <:+ text.toList := by
  rw [String.toList_append]
  change _ <:+ '=' :: text.toList ↔ _
  rw [List.suffix_cons_iff]
  constructor
  · intro h
    refine h.resolve_left ?_
    intro he
    simp at he
  · intro h
    exact .inr h

/-- How inline content is read. As text it is taken as it stands, and so are its bytes unless it ends
in `.gz`: then they are unpacked, and as no text is packed content, that always fails. Neither a
provider nor a file has a say in it. So reading text is reading bytes as text, except for inline
content that ends in `.gz`. -/
theorem reads_inline (s : Store) (d : Disk) :
    (∀ text, s.readText d ("=" ++ text) = .ok text ∧ s.readBytes d ("=" ++ text) =
        if ".gz".toList <:+ text.toList then
          .error (.io (.ofString ("=" ++ text))
            (if (Utf8.encode text).length < 10 then .unexpectedEnd else .gzipHeader))
        else .ok (Utf8.encode text)) ∧
      ∀ location, s.readText d location = s.readBytes d location >>= asText location ↔
        ¬("=".toList <+: location.toList ∧ ".gz".toList <:+ location.toList) := by
  have hinline (text : String) : s.readText d ("=" ++ text) = .ok text ∧
      s.readBytes d ("=" ++ text) =
        if ".gz".toList <:+ text.toList then
          .error (.io (.ofString ("=" ++ text))
            (if (Utf8.encode text).length < 10 then .unexpectedEnd else .gzipHeader))
        else .ok (Utf8.encode text) := by
    constructor
    · rw [readText, inline?_marked]
    · rw [readBytes_ok (stream_inline s d text)]
      simp only [packed_inline]
      split
      · rw [Gzip.unpack_encode]
        rfl
      · rfl
  refine ⟨hinline, ?_⟩
  intro location
  by_cases hin : "=".toList <+: location.toList
  · obtain ⟨text, rfl⟩ := marked_iff.mp hin
    obtain ⟨htext, hbytes⟩ := hinline text
    rw [htext, hbytes, packed_inline]
    by_cases hp : ".gz".toList <:+ text.toList
    · rw [if_pos hp]
      constructor
      · intro h
        cases h
      · intro h
        exact absurd ⟨hin, hp⟩ h
    · rw [if_neg hp]
      constructor
      · intro _ h
        exact hp h.2
      · intro _
        change _ = asText _ (Utf8.encode text)
        rw [asText, Utf8.decode_encode]
  · apply iff_of_true (readText_eq (inline?_eq_none hin))
    intro h
    exact hin h.1

/-- The bytes of a text that looks like the name of a packed file are not given. -/
theorem reads_inline_packed : ({} : Store).readText {} "=a.gz" = .ok "a.gz" ∧
    ({} : Store).readBytes {} "=a.gz" = .error (.io (.ofString "=a.gz") .unexpectedEnd) := by
  obtain ⟨htext, hbytes⟩ := (reads_inline {} {}).1 "a.gz"
  refine ⟨htext, hbytes.trans ?_⟩
  rw [if_pos (by decide), if_pos (by decide)]
  rfl

end Store
end UnitCache
