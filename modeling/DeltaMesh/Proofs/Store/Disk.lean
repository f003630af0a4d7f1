import DeltaMesh.Store.Disk

/-!
# Operations on a directory

Which nodes a directory has after a file was put or dropped, and what writing, renaming and
removing come to when they succeed.
-/

namespace DeltaMesh.Disk

/-- The node with this path, the directory itself apart. -/
def held? (d : Disk) (path : String) : Option Node := d.nodes.bind fun nodes => nodes[path]?

variable {d d' : Disk} {path other : String} {node node' : Node} {content : ByteArray}

theorem node?_eq_held? (h : path.isEmpty = false) : d.node? path = d.held? path := by
  rw [node?, held?, h]
  rfl

theorem isSome_nodes (h : d.held? path = some node) : d.nodes.isSome := by
  cases hnodes : d.nodes with
  | none => simp [held?, hnodes] at h
  | some nodes => rfl

theorem held?_put_self (hd : d.nodes.isSome) : (d.put path node).held? path = some node := by
  obtain ⟨nodes, hnodes⟩ := Option.isSome_iff_exists.mp hd
  simp [held?, put, hnodes]

theorem held?_put_of_ne (h : other ≠ path) : (d.put path node).held? other = d.held? other := by
  have hcompare : compare path other ≠ .eq := fun heq =>
    h (Std.LawfulEqOrd.eq_of_compare heq).symm
  cases hnodes : d.nodes <;> simp [held?, put, hnodes, Std.ExtTreeMap.getElem?_insert, hcompare]

/-- What the directory has after a node was put was put there or was there before. -/
theorem of_held?_put (h : (d.put path node).held? other = some node') :
    other = path ∧ node' = node ∨ d.held? other = some node' := by
  by_cases hother : other = path
  · subst hother
    have hd : d.nodes.isSome := by simpa [put] using isSome_nodes h
    rw [held?_put_self hd] at h
    exact .inl ⟨rfl, (Option.some.inj h).symm⟩
  · rw [held?_put_of_ne hother] at h
    exact .inr h

theorem held?_drop_of_ne (h : other ≠ path) : (d.drop path).held? other = d.held? other := by
  have hcompare : compare path other ≠ .eq := fun heq =>
    h (Std.LawfulEqOrd.eq_of_compare heq).symm
  cases hnodes : d.nodes <;> simp [held?, drop, hnodes, Std.ExtTreeMap.getElem?_erase, hcompare]

theorem of_held?_drop (h : (d.drop path).held? other = some node') :
    d.held? other = some node' := by
  cases hnodes : d.nodes with
  | none => simp [held?, drop, hnodes] at h
  | some nodes =>
    simp only [held?, drop, hnodes, Option.map_some, Option.bind_some,
      Std.ExtTreeMap.getElem?_erase] at h ⊢
    split at h
    case isTrue => cases h
    case isFalse => exact h

theorem held?_ensure : d.ensure.held? path = d.held? path := by
  cases hnodes : d.nodes <;> simp [held?, ensure, hnodes]

theorem read_of_held? (hpath : path.isEmpty = false) (h : d.held? path = some (.file content)) :
    d.read path = .ok content := by
  rw [read, node?_eq_held? hpath, h]

theorem read_eq_ok (hpath : path.isEmpty = false) (h : d.read path = .ok content) :
    d.held? path = some (.file content) := by
  rw [read, node?_eq_held? hpath] at h
  cases hnode : d.held? path with
  | none => rw [hnode] at h; cases h
  | some node =>
    rw [hnode] at h
    cases node with
    | folder => cases h
    | file held => rw [Except.ok.inj h]

/-- A write that succeeds replaces the file, and the directory is there. -/
theorem write_eq_ok (h : d.write path content = .ok d') :
    d.nodes.isSome ∧ d' = d.put path (.file content) := by
  rw [write] at h
  split at h
  case isTrue => cases h
  case isFalse hnodes =>
    split at h
    case isTrue => cases h
    case isFalse =>
      refine ⟨?_, (Except.ok.inj h).symm⟩
      simpa [Option.isSome_iff_ne_none] using hnodes

theorem isFolder_eq_false (hpath : path.isEmpty = false) (h : d.held? path ≠ some .folder) :
    d.isFolder path = false := by
  rw [isFolder, node?_eq_held? hpath]
  split
  case h_1 heq => exact absurd heq h
  case h_2 => rfl

/-- A write succeeds where the directory is there and the path leads to no folder. -/
theorem write_of_held? (content : ByteArray) (hd : d.nodes.isSome) (hpath : path.isEmpty = false)
    (h : d.held? path ≠ some .folder) :
    d.write path content = .ok (d.put path (.file content)) := by
  rw [write, isFolder_eq_false hpath h, if_neg (by simpa [Option.isSome_iff_ne_none] using hd),
    if_neg (by simp)]

/-- Renaming replaces the target, unless that is a folder. -/
theorem rename_of_held? (hpath : path.isEmpty = false) (hother : other.isEmpty = false)
    (h : d.held? path = some (.file content)) (hfolder : d.held? other ≠ some .folder) :
    d.rename path other = .ok ((d.drop path).put other (.file content)) := by
  rw [rename, read_of_held? hpath h, isFolder_eq_false hother hfolder]
  rfl

/-- A rename that succeeds moves a file; no step of it can be seen from outside. -/
theorem rename_eq_ok (hpath : path.isEmpty = false) (h : d.rename path other = .ok d') :
    ∃ content, d.held? path = some (.file content) ∧
      d' = (d.drop path).put other (.file content) := by
  rw [rename] at h
  cases hread : d.read path with
  | error why => rw [hread] at h; cases h
  | ok content =>
    rw [hread] at h
    simp only [bind, Except.bind] at h
    split at h
    case isTrue => cases h
    case isFalse => exact ⟨content, read_eq_ok hpath hread, (Except.ok.inj h).symm⟩

theorem remove_eq_ok (h : d.remove path = .ok d') : d' = d.drop path := by
  rw [remove] at h
  cases hread : d.read path with
  | error why => rw [hread] at h; cases h
  | ok content =>
    rw [hread] at h
    exact (Except.ok.inj h).symm

/-- The directory that is left after a file was to be removed, whether or not that worked. -/
theorem removed_or_kept (d : Disk) (path : String) :
    (d.remove path).toOption.getD d = d.drop path ∨ (d.remove path).toOption.getD d = d := by
  cases hremove : d.remove path with
  | error why => exact .inr rfl
  | ok d' => exact .inl (remove_eq_ok hremove)

section Listing

variable {listed : List String} (hlisted : d.names = .ok listed)
include hlisted

/-- A name is listed exactly if it is plain and the directory has a node of that name. -/
theorem mem_listed {name : String} :
    name ∈ listed ↔ (d.held? name).isSome ∧ '/' ∉ name.toList := by
  cases hnodes : d.nodes with
  | none => rw [names, hnodes] at hlisted; cases hlisted
  | some nodes =>
    rw [names, hnodes] at hlisted
    obtain rfl := Except.ok.inj hlisted
    rw [List.mem_filter, Std.ExtTreeMap.mem_keys, Std.ExtTreeMap.mem_iff_isSome_getElem?, held?,
      hnodes]
    simp

end Listing

end DeltaMesh.Disk
