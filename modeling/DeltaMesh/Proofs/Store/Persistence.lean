import DeltaMesh.Proofs.Store.Disk
import DeltaMesh.Proofs.Store.Entries
import DeltaMesh.Proofs.Store.EntryFile
import Mathlib.Logic.Relation

/-!
# What survives on disk

A `Life` is a directory and what becomes of the stores that are opened on it, one after the other:
they are opened, put values, meet failures of the file system and crash, between any two of its
operations. A write that fails, or during which the process crashes, leaves any part of the
temporary file behind; a rename takes place as a whole or not at all. `Life.landed` lists the puts
whose rename took place.

Main statement: whenever the directory is opened, in whichever order its files are listed, the
values are exactly those that landed, and so are those of a store that is open (`life_exact`). What
the program itself does is such a life (`steps_open?`, `steps_put`).
-/

namespace DeltaMesh

open Wire

namespace PersistentStore

/-! ### The files of some values -/

/-- The directory holds these values, each in its file; what else there is are temporary files. -/
structure Holds (d : Disk) (e : Entries) : Prop where
  present : ∀ k v, e[k]? = some v →
    v.size < lengthBound ∧ d.held? (entryName k) = some (.file (fileContent k v))
  only : ∀ name node, d.held? name = some node →
    (∃ k v, name = entryName k ∧ e[k]? = some v) ∨
      ∃ k n content, name = temporaryName k n ∧ node = .file content

section Holds

variable {d : Disk} {e : Entries}

theorem isEmpty_temporaryName (k : Key) (n : Nat) : (temporaryName k n).isEmpty = false :=
  Disk.isEmpty_of_extension? (extension?_temporaryName k n)

theorem isEmpty_entryName (k : Key) : (entryName k).isEmpty = false :=
  Disk.isEmpty_of_extension? (extension?_entryName k)

/-- A directory that does not exist holds the empty map. -/
theorem holds_absent : Holds .absent ∅ where
  present _ _ h := by simp at h
  only _ _ h := nomatch h

/-- Creating the directory changes no file in it. -/
theorem Holds.ensure (h : Holds d e) : Holds d.ensure e where
  present k v hv := by
    rw [Disk.held?_ensure]
    exact h.present k v hv
  only name node hnode := by
    rw [Disk.held?_ensure] at hnode
    exact h.only name node hnode

/-- A temporary file is no entry, whatever is in it; a torn write leaves the map as it was. -/
theorem Holds.putTemporary (h : Holds d e) (k : Key) (n : Nat) (content : ByteArray) :
    Holds (d.put (temporaryName k n) (.file content)) e where
  present k' v hv := by
    rw [Disk.held?_put_of_ne (entryName_ne_temporaryName k' k n)]
    exact h.present k' v hv
  only name node hnode := by
    rcases Disk.of_held?_put hnode with ⟨hname, hnode⟩ | hnode
    · exact .inr ⟨k, n, content, hname, hnode⟩
    · exact h.only name node hnode

/-- Removing a temporary file does not change what the directory holds. -/
theorem Holds.dropTemporary (h : Holds d e) (k : Key) (n : Nat) :
    Holds (d.drop (temporaryName k n)) e where
  present k' v hv := by
    rw [Disk.held?_drop_of_ne (entryName_ne_temporaryName k' k n)]
    exact h.present k' v hv
  only name node hnode := h.only name node (Disk.of_held?_drop hnode)

/-- Only a file under the name of a key changes what the directory holds, and then at that key
alone, because different keys have different file names. -/
theorem Holds.putEntry (h : Holds d e) (hd : d.nodes.isSome) (k : Key) {value : ByteArray}
    (hsize : value.size < lengthBound) :
    Holds (d.put (entryName k) (.file (fileContent k value))) (e.insert k value) where
  present k' v hv := by
    rw [Std.ExtTreeMap.getElem?_insert] at hv
    split at hv
    case isTrue hk =>
      obtain rfl := Std.LawfulEqOrd.eq_of_compare hk
      obtain rfl := Option.some.inj hv
      exact ⟨hsize, Disk.held?_put_self hd⟩
    case isFalse hk =>
      have hne : entryName k' ≠ entryName k := fun heq =>
        hk (Std.LawfulEqCmp.compare_eq_iff_eq.mpr (entryName_inj heq).symm)
      rw [Disk.held?_put_of_ne hne]
      exact h.present k' v hv
  only name node hnode := by
    -- a value under the key stays one, if another one
    have hkeep : ∀ (k' : Key) (v : ByteArray), e[k']? = some v →
        ∃ v', (e.insert k value)[k']? = some v' := by
      intro k' v hv
      rw [Std.ExtTreeMap.getElem?_insert]
      split
      · exact ⟨value, rfl⟩
      · exact ⟨v, hv⟩
    rcases Disk.of_held?_put hnode with ⟨rfl, -⟩ | hnode
    · exact .inl ⟨k, value, rfl, Std.ExtTreeMap.getElem?_insert_self⟩
    · rcases h.only name node hnode with ⟨k', v, hname, hv⟩ | htemporary
      · obtain ⟨v', hv'⟩ := hkeep k' v hv
        exact .inl ⟨k', v', hname, hv'⟩
      · exact .inr htemporary

/-- A write that succeeds leaves the map as it was, and the whole content in the temporary file. -/
theorem Holds.write {d' : Disk} (h : Holds d e) {k : Key} {n : Nat} {content : ByteArray}
    (hwrite : d.write (temporaryName k n) content = .ok d') :
    Holds d' e ∧ d'.held? (temporaryName k n) = some (.file content) := by
  obtain ⟨hd, rfl⟩ := Disk.write_eq_ok hwrite
  exact ⟨h.putTemporary k n content, Disk.held?_put_self hd⟩

theorem Holds.remove {d' : Disk} (h : Holds d e) {k : Key} {n : Nat}
    (hremove : d.remove (temporaryName k n) = .ok d') : Holds d' e := by
  rw [Disk.remove_eq_ok hremove]
  exact h.dropTemporary k n

/-- The commit point: when the rename succeeds the directory holds the new value, and there is no
moment at which it holds neither the old one nor the new one. -/
theorem Holds.rename {d' : Disk} (h : Holds d e) {k : Key} {n : Nat} {value : ByteArray}
    (hsize : value.size < lengthBound)
    (hwritten : d.held? (temporaryName k n) = some (.file (fileContent k value)))
    (hrename : d.rename (temporaryName k n) (entryName k) = .ok d') :
    Holds d' (e.insert k value) := by
  obtain ⟨content, hcontent, rfl⟩ := Disk.rename_eq_ok (isEmpty_temporaryName k n) hrename
  obtain rfl := Node.file.inj (Option.some.inj (hwritten.symm.trans hcontent))
  refine (h.dropTemporary k n).putEntry ?_ k hsize
  simpa [Disk.drop] using Disk.isSome_nodes hwritten

/-- The directory holds no folders, so no name of a file is taken by one. -/
theorem Holds.held?_ne_folder (h : Holds d e) (name : String) : d.held? name ≠ some .folder := by
  intro hnode
  rcases h.only name _ hnode with ⟨k, v, rfl, hv⟩ | ⟨k, n, content, -, hfile⟩
  · rw [(h.present k v hv).2] at hnode
    cases hnode
  · cases hfile

/-- Unless the file system fails, a put lands: the name of its temporary file may even be taken. -/
theorem Holds.put (h : Holds d e) (hd : d.nodes.isSome) (s : PersistentStore) (k : Key)
    (value : ByteArray) :
    ∃ d', s.put d k value = (.ok (), ⟨s.entries.insert k value, s.tried + 1⟩, d') := by
  have hwrite := Disk.write_of_held? (fileContent k value) hd
    (isEmpty_temporaryName k s.tried) (h.held?_ne_folder _)
  obtain ⟨hholds, hwritten⟩ := h.write hwrite
  have hrename := Disk.rename_of_held? (isEmpty_temporaryName k s.tried) (isEmpty_entryName k)
    hwritten (hholds.held?_ne_folder _)
  rw [PersistentStore.put, writeFile, hwrite]
  simp only [hrename]
  exact ⟨_, rfl⟩

end Holds

/-! ### Reading the files -/

/-- What was read so far and the names still to come make up all values. -/
structure Loads (all read : Entries) (names : List String) : Prop where
  known : ∀ (k : Key) (v : ByteArray), read[k]? = some v → all[k]? = some v
  ahead : ∀ (k : Key) (v : ByteArray), all[k]? = some v → read[k]? = some v ∨ entryName k ∈ names
  names : ∀ name ∈ names, (∃ k v, name = entryName k ∧ all[k]? = some v) ∨
    ∃ k n, name = temporaryName k n

variable {d : Disk} {all read : Entries} {name : String} {names : List String}

/-- Reading an entry file enters the value that the directory holds under its key. -/
theorem Loads.entry {k : Key} {v : ByteArray} (h : Loads all read (entryName k :: names))
    (hv : all[k]? = some v) : Loads all (read.insert k v) names where
  known k' v' hv' := by
    rw [Std.ExtTreeMap.getElem?_insert] at hv'
    split at hv'
    case isTrue hk =>
      obtain rfl := Std.LawfulEqOrd.eq_of_compare hk
      exact hv.trans hv'
    case isFalse => exact h.known k' v' hv'
  ahead k' v' hv' := by
    rw [Std.ExtTreeMap.getElem?_insert]
    split
    case isTrue hk =>
      obtain rfl := Std.LawfulEqOrd.eq_of_compare hk
      exact .inl (hv.symm.trans hv')
    case isFalse hk =>
      refine (h.ahead k' v' hv').imp_right fun hmem => ?_
      refine (List.mem_cons.mp hmem).resolve_left fun heq => hk ?_
      exact Std.LawfulEqCmp.compare_eq_iff_eq.mpr (entryName_inj heq).symm
  names name' hmem := h.names name' (List.mem_cons_of_mem _ hmem)

/-- A leftover temporary file is passed over. -/
theorem Loads.skip {k : Key} {n : Nat} (h : Loads all read (temporaryName k n :: names)) :
    Loads all read names where
  known := h.known
  ahead k' v hv := (h.ahead k' v hv).imp_right fun hmem =>
    (List.mem_cons.mp hmem).resolve_left (entryName_ne_temporaryName k' k n)
  names name' hmem := h.names name' (List.mem_cons_of_mem _ hmem)

/-- When no name is left everything was read, and nothing else. -/
theorem Loads.eq (h : Loads all read []) : read = all := by
  refine Std.ExtTreeMap.ext_getElem? fun k => ?_
  cases hread : read[k]? with
  | some v => exact (h.known k v hread).symm
  | none =>
    cases hall : all[k]? with
    | none => rfl
    | some v => exact absurd (h.ahead k v hall) (by simp [hread])

/-- No file is refused: an entry file was written as a whole under its name, and a temporary file is
not read at all. -/
theorem loadFile_of_loads (hd : Holds d all) (h : Loads all read (name :: names)) :
    ∃ read' d', loadFile d read name = .ok (read', d') ∧ Holds d' all ∧ Loads all read' names := by
  rcases h.names name List.mem_cons_self with ⟨k, v, rfl, hv⟩ | ⟨k, n, rfl⟩
  · obtain ⟨hsize, hnode⟩ := hd.present k v hv
    refine ⟨read.insert k v, d, ?_, hd, h.entry hv⟩
    simp only [loadFile, extension?_entryName, Disk.read_of_held? (isEmpty_entryName k) hnode,
      readEntryFile_fileContent k hsize]
  · refine ⟨read, (d.remove (temporaryName k n)).toOption.getD d, ?_, ?_, h.skip⟩
    · simp only [loadFile, extension?_temporaryName]
    · rcases d.removed_or_kept (temporaryName k n) with hdrop | hkeep
      · rw [hdrop]
        exact hd.dropTemporary k n
      · rw [hkeep]
        exact hd

/-- Loading gives the whole map, in whatever order the files are listed: every name is either that
of an entry not read yet or that of a temporary file. -/
theorem loadFiles_of_loads (hd : Holds d all) (h : Loads all read names) :
    (loadFiles d read names).1 = .ok all := by
  induction names generalizing d read with
  | nil => exact congrArg Except.ok h.eq
  | cons name names ih =>
    obtain ⟨read', d', hload, hd', h'⟩ := loadFile_of_loads hd h
    rw [loadFiles, hload]
    exact ih hd' h'

/-- The names in the directory, in any order, are those of the values. -/
theorem Holds.loads {listed : List String} (hd : Holds d all) (hlisted : d.names = .ok listed)
    (hperm : names.Perm listed) : Loads all ∅ names where
  known _ _ h := by simp at h
  ahead k v hv := .inr <| hperm.mem_iff.mpr <| (Disk.mem_listed hlisted).mpr
    ⟨by rw [(hd.present k v hv).2]; rfl, slash_not_mem_entryName k⟩
  names name hmem := by
    have hheld := ((Disk.mem_listed hlisted).mp (hperm.mem_iff.mp hmem)).1
    obtain ⟨node, hnode⟩ := Option.isSome_iff_exists.mp hheld
    exact (hd.only name node hnode).imp_right fun ⟨k, n, _, hname, _⟩ => ⟨k, n, hname⟩

/-- Whichever way the files are listed, reading them gives these values. -/
def Loadable (d : Disk) (e : Entries) : Prop :=
  ∃ listed, d.ensure.names = .ok listed ∧
    ∀ names, names.Perm listed → (loadFiles d.ensure ∅ names).1 = .ok e

theorem Holds.loadable (hd : Holds d all) : Loadable d all :=
  ⟨_, rfl, fun _ hperm => loadFiles_of_loads hd.ensure (hd.ensure.loads rfl hperm)⟩

/-- Opening such a directory succeeds and starts the count of temporary names anew. -/
theorem Loadable.open? (h : Loadable d all) : (open? d).1 = .ok ⟨all, 0⟩ := by
  obtain ⟨listed, hlisted, hload⟩ := h
  rw [PersistentStore.open?]
  simp only [hlisted, hload listed (.refl listed)]
  rfl

/-! ### Lives -/

/-- What the process that works on the directory is about. -/
inductive Process
  /-- No store is open. -/
  | closed
  /-- A store is being opened: the values read so far and the names still to come. -/
  | loading (read : Entries) (names : List String)
  | ready (s : PersistentStore)
  /-- A value is about to be written to the temporary file. -/
  | writing (s : PersistentStore) (k : Key) (value : ByteArray)
  /-- The temporary file is written. -/
  | moving (s : PersistentStore) (k : Key) (value : ByteArray)
  /-- The temporary file could not be renamed. -/
  | clearing (s : PersistentStore) (k : Key)

/-- The store that is open. -/
def Process.store? : Process → Option PersistentStore
  | closed | loading .. => none
  | ready s | writing s .. | moving s .. | clearing s .. => some s

/-- One more write was tried. -/
def countTry (s : PersistentStore) : PersistentStore := { s with tried := s.tried + 1 }

/-- A directory, the process that works on it, and the puts so far whose rename took place, oldest
first. -/
structure Life where
  disk : Disk
  process : Process
  landed : List (Key × ByteArray)

namespace Life

/-- What can happen next. Where an operation is interrupted by a crash, it has failed and the crash
follows. -/
inductive Step : Life → Life → Prop
  /-- The directory is created if it is missing, and its files are listed in some order. -/
  | list {d : Disk} {landed : List (Key × ByteArray)} {listed names : List String}
    (hlisted : d.ensure.names = .ok listed) (hperm : names.Perm listed) :
    Step ⟨d, .closed, landed⟩ ⟨d.ensure, .loading ∅ names, landed⟩
  | load {d d' : Disk} {read read' : Entries} {name : String} {names : List String}
    {landed : List (Key × ByteArray)} (h : loadFile d read name = .ok (read', d')) :
    Step ⟨d, .loading read (name :: names), landed⟩ ⟨d', .loading read' names, landed⟩
  /-- A temporary file cannot be removed. -/
  | keep {d : Disk} {read : Entries} {name : String} {names : List String}
    {landed : List (Key × ByteArray)} (h : Disk.extension? name = some "tmp") :
    Step ⟨d, .loading read (name :: names), landed⟩ ⟨d, .loading read names, landed⟩
  | loaded {d : Disk} {read : Entries} {landed : List (Key × ByteArray)} :
    Step ⟨d, .loading read [], landed⟩ ⟨d, .ready ⟨read, 0⟩, landed⟩
  /-- A put begins. No value is longer than what eight bytes count. -/
  | put {d : Disk} {s : PersistentStore} {landed : List (Key × ByteArray)} (k : Key)
    (value : ByteArray) (hsize : value.size < lengthBound) :
    Step ⟨d, .ready s, landed⟩ ⟨d, .writing s k value, landed⟩
  | write {d d' : Disk} {s : PersistentStore} {k : Key} {value : ByteArray}
    {landed : List (Key × ByteArray)}
    (h : d.write (temporaryName k s.tried) (fileContent k value) = .ok d') :
    Step ⟨d, .writing s k value, landed⟩ ⟨d', .moving s k value, landed⟩
  /-- The write fails, and the put with it. Whatever got to the temporary file stays there. -/
  | failWrite {d d' : Disk} {s : PersistentStore} {k : Key} {value : ByteArray}
    {landed : List (Key × ByteArray)}
    (h : d' = d ∨ ∃ part, d.write (temporaryName k s.tried) part = .ok d') :
    Step ⟨d, .writing s k value, landed⟩ ⟨d', .ready s.countTry, landed⟩
  | rename {d d' : Disk} {s : PersistentStore} {k : Key} {value : ByteArray}
    {landed : List (Key × ByteArray)}
    (h : d.rename (temporaryName k s.tried) (entryName k) = .ok d') :
    Step ⟨d, .moving s k value, landed⟩
      ⟨d', .ready ⟨s.entries.insert k value, s.tried + 1⟩, landed ++ [(k, value)]⟩
  | failRename {d : Disk} {s : PersistentStore} {k : Key} {value : ByteArray}
    {landed : List (Key × ByteArray)} :
    Step ⟨d, .moving s k value, landed⟩ ⟨d, .clearing s k, landed⟩
  /-- The put fails after its temporary file was removed, or could not be. -/
  | clear {d d' : Disk} {s : PersistentStore} {k : Key} {landed : List (Key × ByteArray)}
    (h : d' = d ∨ d.remove (temporaryName k s.tried) = .ok d') :
    Step ⟨d, .clearing s k, landed⟩ ⟨d', .ready s.countTry, landed⟩
  /-- The process ends, in good order or by a crash. -/
  | stop {d : Disk} {process : Process} {landed : List (Key × ByteArray)} :
    Step ⟨d, process, landed⟩ ⟨d, .closed, landed⟩

/-- One thing after the other. -/
abbrev Steps : Life → Life → Prop := Relation.ReflTransGen Step

/-- A life comes to this from a directory that does not exist yet. -/
def Reached (c : Life) : Prop := Steps ⟨.absent, .closed, []⟩ c

end Life

/-- What a process knows agrees with the values that the directory holds. -/
def Process.Agrees (d : Disk) (e : Entries) : Process → Prop
  | closed => True
  | loading read names => Loads e read names
  | ready s => s.entries = e
  | writing s _ value => s.entries = e ∧ value.size < lengthBound
  | moving s k value => s.entries = e ∧ value.size < lengthBound ∧
    d.held? (temporaryName k s.tried) = some (.file (fileContent k value))
  | clearing s _ => s.entries = e

namespace Life

/-- The directory holds what landed, and the process agrees. -/
structure Exact (c : Life) : Prop where
  holds : Holds c.disk (.ofPairs c.landed)
  agrees : c.process.Agrees c.disk (.ofPairs c.landed)

/-- Each single step keeps directory and memory exact, be it a failing write, a failing rename or a
crash. -/
theorem Exact.step {c c' : Life} (hc : Exact c) (h : Step c c') : Exact c' := by
  obtain ⟨hholds, hagrees⟩ := hc
  cases h with
  | list hlisted hperm => exact ⟨hholds.ensure, hholds.ensure.loads hlisted hperm⟩
  | load h =>
    obtain ⟨read', d', hload, hholds', hloads⟩ := loadFile_of_loads hholds hagrees
    obtain ⟨rfl, rfl⟩ := Prod.mk.inj (Except.ok.inj (hload.symm.trans h))
    exact ⟨hholds', hloads⟩
  | keep h =>
    rcases hagrees.names _ List.mem_cons_self with ⟨k, v, rfl, -⟩ | ⟨k, n, rfl⟩
    · rw [extension?_entryName] at h
      exact absurd (Option.some.inj h) (by decide)
    · exact ⟨hholds, hagrees.skip⟩
  | loaded => exact ⟨hholds, hagrees.eq⟩
  | put k value hsize => exact ⟨hholds, hagrees, hsize⟩
  | write h =>
    obtain ⟨hholds', hwritten⟩ := hholds.write h
    exact ⟨hholds', hagrees.1, hagrees.2, hwritten⟩
  | failWrite h =>
    rcases h with rfl | ⟨part, h⟩
    · exact ⟨hholds, hagrees.1⟩
    · exact ⟨(hholds.write h).1, hagrees.1⟩
  | @rename d d' s k value landed h =>
    obtain ⟨hentries, hsize, hwritten⟩ := hagrees
    have hofPairs : Entries.ofPairs (landed ++ [(k, value)]) =
        (Entries.ofPairs landed).insert k value := List.foldl_append
    refine ⟨?_, ?_⟩
    · rw [hofPairs]
      exact hholds.rename hsize hwritten h
    · show s.entries.insert k value = _
      rw [hofPairs, hentries]
  | failRename => exact ⟨hholds, hagrees.1⟩
  | clear h =>
    rcases h with rfl | h
    · exact ⟨hholds, hagrees⟩
    · exact ⟨hholds.remove h, hagrees⟩
  | stop => exact ⟨hholds, trivial⟩

theorem Exact.steps {c c' : Life} (hc : Exact c) (h : Steps c c') : Exact c' := by
  induction h with
  | refl => exact hc
  | tail _ hstep ih => exact ih.step hstep

theorem Reached.exact {c : Life} (hc : Reached c) : Exact c :=
  Exact.steps (c := ⟨.absent, .closed, []⟩) ⟨holds_absent, trivial⟩ hc

/-- As long as the store is open its memory is the map of the values that have landed. -/
theorem Exact.entries_eq {c : Life} (hc : Exact c) {s : PersistentStore}
    (h : c.process.store? = some s) : s.entries = .ofPairs c.landed := by
  have hagrees := hc.agrees
  rcases hprocess : c.process with _ | _ | _ | _ | _ | _ <;> rw [hprocess] at h hagrees <;> cases h
  case ready => exact hagrees
  case writing => exact hagrees.1
  case moving => exact hagrees.1
  case clearing => exact hagrees

/-! ### The program leads such a life -/

section Program

variable {d d' : Disk} {landed : List (Key × ByteArray)}

/-- Loading one file after the other is a row of steps, so that a crash may come between any two. -/
theorem steps_loadFiles {read read' : Entries} {names : List String}
    (h : loadFiles d read names = (.ok read', d')) :
    Steps ⟨d, .loading read names, landed⟩ ⟨d', .loading read' [], landed⟩ := by
  induction names generalizing d read with
  | nil =>
    obtain ⟨hread, rfl⟩ := Prod.mk.inj h
    obtain rfl := Except.ok.inj hread
    exact .refl
  | cons name names ih =>
    rw [loadFiles] at h
    cases hload : loadFile d read name with
    | error why => rw [hload] at h; cases h
    | ok next =>
      rw [hload] at h
      exact .head (.load hload) (ih h)

/-- Opening a store as a row of steps. -/
theorem steps_open? {s : PersistentStore} (h : open? d = (.ok s, d')) :
    Steps ⟨d, .closed, landed⟩ ⟨d', .ready s, landed⟩ := by
  rw [open?] at h
  cases hnames : d.ensure.names with
  | error why => rw [hnames] at h; cases h
  | ok names =>
    simp only [hnames] at h
    rcases hload : loadFiles d.ensure ∅ names with ⟨_ | read, _⟩
    · rw [hload] at h
      cases h
    · rw [hload] at h
      obtain ⟨hs, rfl⟩ := Prod.mk.inj h
      obtain rfl := Except.ok.inj hs
      exact .head (.list hnames (.refl names)) ((steps_loadFiles hload).tail .loaded)

/-- A put lands or fails, as its result says. It writes the temporary file and renames it; if the
renaming fails it tries to remove that file again. -/
theorem steps_put {s s' : PersistentStore} {k : Key} {value : ByteArray}
    {result : Except StorageError Unit} (hsize : value.size < lengthBound)
    (h : s.put d k value = (result, s', d')) :
    Steps ⟨d, .ready s, landed⟩
      ⟨d', .ready s', landed ++ (result.toOption.map fun _ => (k, value)).toList⟩ := by
  refine .head (.put k value hsize) ?_
  rw [PersistentStore.put, writeFile] at h
  cases hwrite : d.write (temporaryName k s.tried) (fileContent k value) with
  | error why =>
    rw [hwrite] at h
    obtain ⟨rfl, hrest⟩ := Prod.mk.inj h
    obtain ⟨rfl, rfl⟩ := Prod.mk.inj hrest
    show Steps _ ⟨d, .ready s.countTry, landed ++ []⟩
    rw [List.append_nil]
    exact .single (.failWrite (.inl rfl))
  | ok written =>
    refine .head (.write hwrite) ?_
    simp only [hwrite] at h
    cases hrename : written.rename (temporaryName k s.tried) (entryName k) with
    | ok renamed =>
      rw [hrename] at h
      obtain ⟨rfl, hrest⟩ := Prod.mk.inj h
      obtain ⟨rfl, rfl⟩ := Prod.mk.inj hrest
      exact .single (.rename hrename)
    | error why =>
      rw [hrename] at h
      obtain ⟨rfl, hrest⟩ := Prod.mk.inj h
      obtain ⟨rfl, rfl⟩ := Prod.mk.inj hrest
      show Steps _ ⟨_, .ready s.countTry, landed ++ []⟩
      rw [List.append_nil]
      refine .head .failRename (.single (.clear ?_))
      cases hremove : written.remove (temporaryName k s.tried) with
      | error why => exact .inl rfl
      | ok removed => exact .inr rfl

end Program

/-! ### Main statement -/

/-- At any point of a life the files can be read, in whichever order they are listed, and give each
key the value of its last put that landed. A store that is open has the same values, so that it is
found again as it was. As long as nothing lands, as in a put that fails, neither changes. -/
theorem life_exact {c : Life} (hc : Reached c) :
    (Loadable c.disk (.ofPairs c.landed) ∧ (open? c.disk).1 = .ok ⟨.ofPairs c.landed, 0⟩) ∧
    (∀ k, (Entries.ofPairs c.landed)[k]? =
      c.landed.findSomeRev? fun p => if p.1 = k then some p.2 else none) ∧
    (∀ s, c.process.store? = some s → s.entries = .ofPairs c.landed) ∧
    ∀ c', Steps c c' → c'.landed = c.landed → Loadable c'.disk (.ofPairs c.landed) ∧
      ∀ s s', c.process.store? = some s → c'.process.store? = some s' → s'.entries = s.entries := by
  have hexact := hc.exact
  have hloadable := hexact.holds.loadable
  refine ⟨⟨hloadable, hloadable.open?⟩, Entries.getElem?_ofPairs _,
    fun s hs => hexact.entries_eq hs, fun c' hsteps hlanded => ?_⟩
  have hexact' := hexact.steps hsteps
  refine ⟨hlanded ▸ hexact'.holds.loadable, fun s s' hs hs' => ?_⟩
  rw [hexact.entries_eq hs, hexact'.entries_eq hs', hlanded]

/-- A value is put, and while another one is written in its place the process crashes. -/
theorem life_exact_torn_write :
    ∃ c : Life, Reached c ∧ c.landed = [(default, ⟨#[1]⟩)] ∧
      c.disk.held? (temporaryName default 1) = some (.file ⟨#[7]⟩) ∧
      (open? c.disk).1 = .ok ⟨.ofPairs [(default, ⟨#[1]⟩)], 0⟩ := by
  have hfresh : Reached ⟨.fresh, .ready ⟨∅, 0⟩, []⟩ := steps_open? (d := .absent) rfl
  obtain ⟨d, hput⟩ := hfresh.exact.holds.put rfl ⟨∅, 0⟩ default ⟨#[1]⟩
  have hlanded : Reached ⟨d, .ready ⟨_, 1⟩, [(default, ⟨#[1]⟩)]⟩ :=
    hfresh.trans (steps_put (by decide) hput)
  have hpresent := hlanded.exact.holds.present default ⟨#[1]⟩ Std.ExtTreeMap.getElem?_insert_self
  have hwrite := Disk.write_of_held? ⟨#[7]⟩ (Disk.isSome_nodes hpresent.2)
    (isEmpty_temporaryName default 1) (hlanded.exact.holds.held?_ne_folder _)
  have hreached : Reached ⟨_, .closed, [(default, ⟨#[1]⟩)]⟩ :=
    ((hlanded.tail (.put default ⟨#[2]⟩ (by decide))).tail
      (.failWrite (.inr ⟨_, hwrite⟩))).tail .stop
  exact ⟨_, hreached, rfl, (hlanded.exact.holds.write hwrite).2, (life_exact hreached).1.2⟩

end Life

end PersistentStore

end DeltaMesh
