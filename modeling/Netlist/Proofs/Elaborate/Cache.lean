import Netlist.Elaborate.Cache
import Netlist.Proofs.FileTree
import Netlist.Proofs.Program.Stored

/-!
# Stored results are read back

What is stored under a key is what is found there: the program without files and spans and
the diagnostics as they were reported (`Cache.load_of_read`).  Every key has a file of its
own, so once a result is stored in a directory without files, that result is the only one
that is found there (`Cache.load_store`).
-/

namespace Netlist

open MessagePack

/-! ## Diagnostics -/

theorem Message.ofBytes_bytes (m : Message) : ofBytes m.bytes = m := by
  cases m with
  | text s =>
      have h : ¬ (Bytes.ofString s).isText = false := by simp [Bytes.isText_ofString]
      simp [ofBytes, bytes, h]
  | broken bytes noText => simp [ofBytes, Message.bytes, noText]

theorem reads_span (s : Span) : Reads (Span.readOver .zero) s.toMessagePack s := by
  have h : Reads (Span.readOver .zero) s.toMessagePack
      ⟨UInt32.ofNat s.file.toNat, UInt32.ofNat s.start.toNat, UInt32.ofNat s.stop.toNat⟩ := by
    refine reads_record (by decide) ?_
    refine .cons (.field (reads_uint32 _)) ?_
    refine .cons (.field (reads_uint32 _)) ?_
    refine .cons (.field (reads_uint32 _)) ?_
    exact .nil _
  simpa only [UInt32.ofNat_toNat] using h

theorem reads_message (m : Message) : Reads readMessage (.text m.bytes) m :=
  (reads_text m.bytes).map_eq m.ofBytes_bytes

theorem reads_note (n : Note) : Reads (Note.readOver ⟨.zero, ""⟩) n.toMessagePack n := by
  refine reads_record (by decide) ?_
  refine .cons (.fieldOver (reads_span _)) ?_
  refine .cons (.field (reads_message _)) ?_
  exact .nil _

/-- A list, missing when it is empty. -/
def unlessEmpty {α : Type} (items : List α) : Option (List α) :=
  if items.isEmpty then none else some items

theorem listOrNil_eq {α : Type} (f : α → Value) (items : List α) :
    listOrNil f items = .ofList? f (unlessEmpty items) := by
  unfold listOrNil unlessEmpty
  split <;> rfl

theorem getD_unlessEmpty {α : Type} (items : List α) : (unlessEmpty items).getD [] = items := by
  cases items <;> rfl

/-- The stored form of a diagnostic. -/
def Stored.Diagnostic.ofDiagnostic (d : Netlist.Diagnostic) : Stored.Diagnostic :=
  ⟨d.severity, d.code, d.message, d.span, ⟨unlessEmpty d.notes, []⟩⟩

theorem Stored.Diagnostic.toDiagnostic_ofDiagnostic (d : Netlist.Diagnostic) :
    (ofDiagnostic d).toDiagnostic = d := by
  simp [ofDiagnostic, toDiagnostic, Slots.toList, getD_unlessEmpty]

theorem reads_diagnostic (d : Diagnostic) :
    Reads (Stored.Diagnostic.readOver {}) d.toMessagePack (.ofDiagnostic d) := by
  have hnotes : Reads (Reader.slotsOver ⟨.zero, ""⟩ Note.readOver {})
      (listOrNil Note.toMessagePack d.notes) ⟨unlessEmpty d.notes, []⟩ := by
    rw [listOrNil_eq]
    exact reads_slots_self fun _ _ n _ => reads_note n
  have h : Reads (Stored.Diagnostic.readOver {}) d.toMessagePack
      ⟨⟨UInt8.ofNat d.severity.rank.toNat⟩, ⟨UInt16.ofNat d.code.number.toNat⟩, d.message, d.span,
        ⟨unlessEmpty d.notes, []⟩⟩ := by
    refine reads_record (by decide) ?_
    refine .cons (.field (reads_uint8 _)) ?_
    refine .cons (.field (reads_uint16 _)) ?_
    refine .cons (.field (reads_message _)) ?_
    refine .cons (.fieldOver (reads_span _)) ?_
    refine .cons (.fieldOver hnotes) ?_
    exact .nil _
  rw [UInt8.ofNat_toNat, UInt16.ofNat_toNat] at h
  exact h

/-! ## Results -/

theorem reads_cacheEntry (p : Program) (ds : List Diagnostic) :
    Reads CacheEntry.reader (CacheEntry.toMessagePack p ds Cache.version)
      ⟨Cache.version.toNat, p.snapshot, ⟨(unlessEmpty ds).map (·.map .ofDiagnostic), []⟩⟩ := by
  have hdiagnostics : Reads (Reader.slotsOver {} Stored.Diagnostic.readOver {})
      (listOrNil Diagnostic.toMessagePack ds) ⟨(unlessEmpty ds).map (·.map .ofDiagnostic), []⟩ := by
    rw [listOrNil_eq]
    exact reads_slots fun _ _ d _ => reads_diagnostic d
  refine reads_record (by decide) ?_
  refine .cons (.field (reads_uint16 _)) ?_
  refine .cons (.field (reads_binary _)) ?_
  refine .cons (.fieldOver hdiagnostics) ?_
  exact .nil _

theorem length_snapshot_le (p : Program) (ds : List Diagnostic) :
    p.snapshot.length ≤ (CacheEntry.encode p ds Cache.version).length := by
  have hbinary := Value.length_le_binary p.snapshot
  simp only [CacheEntry.encode, CacheEntry.toMessagePack, Value.bytes_map, List.flatMap_cons,
    List.length_append, Value.bytes]
  omega

/-- A stored result is found as the stored form of the program with the diagnostics. -/
theorem Cache.load_of_read {t : FileTree} {dir : String} {key : Digest} {p : Program}
    {ds : List Diagnostic}
    (hread : t.read (pathFor dir key) = .ok (CacheEntry.encode p ds version)) (hp : p.Storable)
    (hsize : (CacheEntry.encode p ds version).length < 2 ^ 32) :
    load t dir key = some (.ofProgram p, ds) := by
  have hentry := reads_cacheEntry p ds (Value.fits_of_length _ hsize) []
  rw [List.append_nil, ← CacheEntry.encode] at hentry
  have hsnapshot := Stored.Program.ofSnapshot_snapshot hp
    (Value.fits_of_length _ (Nat.lt_of_le_of_lt (length_snapshot_le p ds) hsize))
  have hds : ((unlessEmpty ds).map (·.map Stored.Diagnostic.ofDiagnostic)).getD [] =
      ds.map .ofDiagnostic := by
    cases ds <;> rfl
  simp only [load, hread, StateT.run, hentry, bne_self_eq_false, Bool.false_eq_true, if_false,
    hsnapshot, Slots.toList, hds, List.map_map, Function.comp_def,
    Stored.Diagnostic.toDiagnostic_ofDiagnostic, List.map_id']

/-! ## Places -/

namespace Cache

open Netlist.Path (components absolute IsName)

theorem isName_toHex {bytes : Bytes} (h : bytes ≠ []) : IsName (Bytes.toHex bytes) := by
  have hdigit {c : Char} (hc : c ∈ (Bytes.toHex bytes).toList) : c ≠ '/' ∧ c ≠ '.' := by
    have := Bytes.isSome_hexValue?_of_mem_toHex hc
    constructor <;> rintro rfl <;> revert this <;> decide
  have hdot {s : String} (hs : '.' ∈ s.toList) : Bytes.toHex bytes ≠ s := by
    rintro rfl
    exact (hdigit hs).2 rfl
  refine ⟨?_, hdot (by decide), hdot (by decide), fun hc => (hdigit hc).1 rfl⟩
  intro hempty
  refine h (Bytes.toHex_injective ?_)
  rw [hempty]
  rfl

theorem isName_toHex_append (bytes : Bytes) : IsName (Bytes.toHex bytes ++ ending) := by
  have hlast : 'p' ∈ (Bytes.toHex bytes ++ ending).toList := by
    rw [String.toList_append, List.mem_append]
    exact .inr (by decide)
  have hother {s : String} (hs : 'p' ∉ s.toList) : Bytes.toHex bytes ++ ending ≠ s := by
    intro heq
    exact hs (heq ▸ hlast)
  refine ⟨hother (by decide), hother (by decide), hother (by decide), ?_⟩
  rw [String.toList_append, List.mem_append, not_or]
  refine ⟨fun hc => ?_, by decide⟩
  have := Bytes.isSome_hexValue?_of_mem_toHex hc
  revert this
  decide

/-- The file for a key lies two levels below the directory. -/
theorem components_pathFor {workDir : String} (h : Path.isAbsolute workDir = true) (dir : String)
    {key : Digest} (hkey : key ≠ []) :
    components (absolute workDir (pathFor dir key)) = components (absolute workDir dir) ++
      [Bytes.toHex (key.take 1), Bytes.toHex (key.drop 1) ++ ending] := by
  have hfirst : key.take 1 ≠ [] := by simpa using hkey
  rw [pathFor, Path.components_absolute_join_name h _ (isName_toHex_append _),
    Path.components_absolute_join_name h _ (isName_toHex hfirst), List.append_assoc,
    List.singleton_append]

/-- Different keys have different files. -/
theorem eq_of_components_pathFor {workDir : String} (h : Path.isAbsolute workDir = true)
    {dir : String} {key key' : Digest} (hkey : key ≠ []) (hkey' : key' ≠ [])
    (heq : components (absolute workDir (pathFor dir key)) =
      components (absolute workDir (pathFor dir key'))) : key = key' := by
  rw [components_pathFor h dir hkey, components_pathFor h dir hkey', List.append_cancel_left_eq,
    List.cons.injEq, List.cons.injEq, String.append_left_inj] at heq
  rw [← List.take_append_drop 1 key, ← List.take_append_drop 1 key',
    Bytes.toHex_injective heq.1, Bytes.toHex_injective heq.2.1]

variable {t : FileTree} {dir : String} {key : Digest} {p : Program} {ds : List Diagnostic}

theorem workDir_store : (store t dir key p ds).workDir = t.workDir := by
  unfold store
  dsimp only
  split
  · rfl
  · next made hmade =>
    split
    · next written hwritten =>
      rw [FileTree.replace_spec hwritten]
      exact (FileTree.makeDirectory_spec hmade).1
    · exact (FileTree.makeDirectory_spec hmade).1

/-- Storing leaves no other new file than the one for the key. -/
theorem mem_entries_store {place : List String} {content : Bytes}
    (h : (place, .file content) ∈ (store t dir key p ds).entries) :
    (place = components (absolute t.workDir (pathFor dir key)) ∧
      content = CacheEntry.encode p ds version) ∨ (place, .file content) ∈ t.entries := by
  unfold store at h
  dsimp only at h
  split at h
  · exact .inr h
  · next made hmade =>
    obtain ⟨hdir, hfiles⟩ := FileTree.makeDirectory_spec hmade
    split at h
    · next written hwritten =>
      rw [FileTree.replace_spec hwritten, hdir] at h
      rcases FileTree.mem_entries_put h with h | h
      · rw [Prod.mk.injEq, FileEntry.file.injEq] at h
        exact .inl h
      · exact .inr (hfiles _ _ h)
    · exact .inr (hfiles _ _ h)

/-- What is read under a key is a file below the directory. -/
theorem mem_filesBelow_of_read {content : Bytes} (hkey : key ≠ [])
    (h : t.read (pathFor dir key) = .ok content) :
    (components (absolute t.workDir (pathFor dir key)), content) ∈
      t.filesBelow (components (absolute t.workDir dir)) := by
  obtain ⟨place, hplace, hentry⟩ := FileTree.exists_entry_of_read h
  rw [FileTree.components_of_locate hplace] at hentry
  rw [FileTree.mem_filesBelow]
  refine ⟨hentry, ?_⟩
  rw [components_pathFor t.rooted dir hkey]
  simp

/-- What is read in a directory that held no files when a result was stored is that result. -/
theorem eq_of_read_store {key' : Digest} {content : Bytes} (hkey : key ≠ []) (hkey' : key' ≠ [])
    (hempty : t.filesBelow (components (absolute t.workDir dir)) = [])
    (h : (store t dir key p ds).read (pathFor dir key') = .ok content) :
    key' = key ∧ content = CacheEntry.encode p ds version := by
  have hfile := mem_filesBelow_of_read hkey' h
  rw [workDir_store, FileTree.mem_filesBelow] at hfile
  obtain ⟨hentry, hbelow⟩ := hfile
  rcases mem_entries_store hentry with ⟨heq, hcontent⟩ | hentry
  · exact ⟨eq_of_components_pathFor t.rooted hkey' hkey heq, hcontent⟩
  · have hold := FileTree.mem_filesBelow.mpr ⟨hentry, hbelow⟩
    rw [hempty] at hold
    exact absurd hold List.not_mem_nil

theorem exists_read_of_load {found : Stored.Program × List Diagnostic}
    (h : load t dir key = some found) : ∃ content, t.read (pathFor dir key) = .ok content := by
  unfold load at h
  cases hread : t.read (pathFor dir key) with
  | error e => simp [hread] at h
  | ok content => exact ⟨content, rfl⟩

/-- The first result stored in a directory is found under its key and under no other. -/
theorem load_store {key' : Digest} {found : Stored.Program × List Diagnostic} (hkey : key ≠ [])
    (hkey' : key' ≠ []) (hempty : t.filesBelow (components (absolute t.workDir dir)) = [])
    (hp : p.Storable)
    (hsize : ∀ file ∈ (store t dir key p ds).filesBelow (components (absolute t.workDir dir)),
      file.2.length < 2 ^ 32)
    (h : load (store t dir key p ds) dir key' = some found) :
    key' = key ∧ found = (.ofProgram p, ds) := by
  obtain ⟨content, hread⟩ := exists_read_of_load h
  obtain ⟨rfl, rfl⟩ := eq_of_read_store hkey hkey' hempty hread
  have hfile := mem_filesBelow_of_read hkey' hread
  rw [workDir_store] at hfile
  rw [load_of_read hread hp (hsize _ hfile)] at h
  exact ⟨rfl, (Option.some.inj h).symm⟩

end Cache

end Netlist
