import ProtoForge.FileDescriptor
import ProtoForge.OrderedMap

/-!
# Dependency graphs

A graph with a node for every name of a list of files and of their imports,
and an edge from each import to the file that has it. It is drafted in two
passes over the files: the first adds their nodes, the second their edges and
the nodes of imports that are not in the list. A draft finds nodes by their
names; none that it looks for is missing, so every list of files has a graph.
-/
namespace ProtoForge.Resolution

/-- Nodes by name and edges between their positions. -/
structure DependencyGraph where
  nodes : List String
  edges : List (Nat × Nat)
  deriving DecidableEq, Repr

namespace DependencyGraph

/-- The nodes among some that an edge from one of them reaches. -/
def reachedFrom (g : DependencyGraph) (among : List Nat) : List Nat :=
  among.filter fun n => g.edges.any fun e => e.2 == n && among.contains e.1

/-- Whether some nodes remain after `rounds` removals of those that no edge reaches. -/
def hasCoreAfter (g : DependencyGraph) : (rounds : Nat) → List Nat → Bool
  | 0, among => !among.isEmpty
  | rounds + 1, among => hasCoreAfter g rounds (g.reachedFrom among)

/-- Whether a path along the edges comes back to its start. -/
def isCyclic (g : DependencyGraph) : Bool :=
  g.hasCoreAfter g.nodes.length (List.range g.nodes.length)

/-- The imports of all files, each with the file that has it. -/
def imports (files : List FileDescriptor) : List (String × String) :=
  files.flatMap fun f => f.dependencies.map fun d => (d, f.name)

/-- A graph under construction that knows the positions of its nodes by their names. -/
structure Draft extends DependencyGraph where
  positions : OrderedMap Nat
  indexed : ∀ name position, positions.get? name = some position ↔ nodes[position]? = some name

namespace Draft

/-- The draft without nodes. -/
def empty : Draft where
  nodes := []
  edges := []
  positions := []
  indexed := by simp [OrderedMap.get?]

/-- Adds a node for a name that has none. -/
def addNode (b : Draft) (name : String) (hnew : b.positions.get? name = none) : Draft where
  nodes := b.nodes ++ [name]
  edges := b.edges
  positions := b.positions.insert name b.nodes.length
  indexed := by
    intro other position
    by_cases hother : other = name
    · subst hother
      have hold : b.nodes[position]? ≠ some other := by
        rw [Ne, ← b.indexed, hnew]
        exact nofun
      rw [OrderedMap.get?_insert_self, List.getElem?_append]
      grind
    · rw [OrderedMap.get?_insert_of_ne _ _ hother, b.indexed, List.getElem?_append]
      grind

/-- The position of a name's node, which is added if there is none. -/
def node (b : Draft) (name : String) : Nat × Draft :=
  match hnew : b.positions.get? name with
  | some position => (position, b)
  | none => (b.nodes.length, b.addNode name hnew)

/-- Adds an edge from one node to another, if both exist. -/
def addEdge? (b : Draft) (source target : Nat) : Option Draft :=
  if source < b.nodes.length ∧ target < b.nodes.length then
    some { b with edges := b.edges ++ [(source, target)] }
  else none

/-- Adds an edge from the node of an import. -/
def addImport? (target : Nat) (b : Draft) (dependency : String) : Option Draft :=
  let next := b.node dependency
  next.2.addEdge? next.1 target

/-- Adds the edges to the node of a file, if it has one. -/
def addImports? (b : Draft) (f : FileDescriptor) : Option Draft := do
  let target ← b.positions.get? f.name
  f.dependencies.foldlM (addImport? target) b

/-- Adds the nodes of files. -/
def addFiles (b : Draft) (files : List FileDescriptor) : Draft :=
  files.foldl (fun b f => (b.node f.name).2) b

/-- A draft has a node for each of some names, in the order of their first occurrences, and an
edge for each of some links between them. -/
structure Records (b : Draft) (names : List String) (links : List (String × String)) : Prop where
  nodes : b.nodes = names.eraseDups
  edges : b.edges = links.map fun l => (b.nodes.idxOf l.1, b.nodes.idxOf l.2)
  linked : ∀ l ∈ links, l.1 ∈ names ∧ l.2 ∈ names

variable {b : Draft} {names : List String} {links : List (String × String)} {f : FileDescriptor}
  {files : List FileDescriptor} {target : String}

theorem get?_eq_some_iff {name : String} {position : Nat} :
    b.positions.get? name = some position ↔ name ∈ b.nodes ∧ b.nodes.idxOf name = position := by
  have hfirst (hmem : name ∈ b.nodes) : b.nodes[b.nodes.idxOf name]? = some name := by
    rw [List.getElem?_eq_getElem (List.idxOf_lt_length_of_mem hmem), List.getElem_idxOf]
  constructor
  · intro hat
    have hmem : name ∈ b.nodes := List.mem_of_getElem? ((b.indexed name position).mp hat)
    have hboth := (b.indexed name _).mpr (hfirst hmem)
    rw [hat] at hboth
    exact ⟨hmem, (Option.some.inj hboth).symm⟩
  · rintro ⟨hmem, rfl⟩
    exact (b.indexed name _).mpr (hfirst hmem)

theorem nodes_node (b : Draft) (name : String) :
    (b.node name).2.nodes = if name ∈ b.nodes then b.nodes else b.nodes ++ [name] := by
  rw [node]
  split
  · rename_i position hold
    rw [if_pos (get?_eq_some_iff.mp hold).1]
  · rename_i hnew
    rw [if_neg]
    · rfl
    · intro hmem
      rw [get?_eq_some_iff.mpr ⟨hmem, rfl⟩] at hnew
      cases hnew

theorem edges_node (b : Draft) (name : String) : (b.node name).2.edges = b.edges := by
  rw [node]
  split <;> rfl

theorem node_eq_idxOf (b : Draft) (name : String) :
    (b.node name).1 = (b.node name).2.nodes.idxOf name := by
  have hfound : (b.node name).2.positions.get? name = some (b.node name).1 := by
    rw [node]
    split
    · assumption
    · exact OrderedMap.get?_insert_self ..
  exact (get?_eq_some_iff.mp hfound).2.symm

/-- Names that are met later leave the places of the earlier ones. -/
theorem idxOf_eraseDups_append {name : String} (more : List String) (hmem : name ∈ names) :
    (names ++ more).eraseDups.idxOf name = names.eraseDups.idxOf name := by
  rw [List.eraseDups_append, List.idxOf_append, if_pos (List.mem_eraseDups.mpr hmem)]

theorem records_empty : empty.Records [] [] := ⟨rfl, rfl, by simp⟩

theorem Records.node (h : b.Records names links) (name : String) :
    (b.node name).2.Records (names ++ [name]) links := by
  have hnodes : (b.node name).2.nodes = (names ++ [name]).eraseDups := by
    rw [nodes_node, h.nodes, List.eraseDups_append]
    by_cases hmem : name ∈ names
    · simp [List.removeAll, hmem]
    · simp [List.removeAll, hmem, List.eraseDups_cons]
  refine ⟨hnodes, ?_, fun l hl => ?_⟩
  · rw [edges_node, h.edges, hnodes, h.nodes]
    refine List.map_congr_left fun l hl => ?_
    obtain ⟨hsource, htarget⟩ := h.linked l hl
    rw [idxOf_eraseDups_append _ hsource, idxOf_eraseDups_append _ htarget]
  · obtain ⟨hsource, htarget⟩ := h.linked l hl
    exact ⟨List.mem_append_left _ hsource, List.mem_append_left _ htarget⟩

theorem Records.mem_nodes (h : b.Records names links) {name : String} :
    name ∈ b.nodes ↔ name ∈ names := by
  rw [h.nodes, List.mem_eraseDups]

/-- One step of the second pass finds both nodes and adds one edge. -/
theorem Records.exists_addImport? (h : b.Records names links) (htarget : target ∈ names)
    (dependency : String) : ∃ b', addImport? (b.nodes.idxOf target) b dependency = some b' ∧
      b'.Records (names ++ [dependency]) (links ++ [(dependency, target)]) := by
  have hnode := h.node dependency
  have hsame : b.nodes.idxOf target = (b.node dependency).2.nodes.idxOf target := by
    rw [hnode.nodes, h.nodes, idxOf_eraseDups_append _ htarget]
  have hsource : dependency ∈ (b.node dependency).2.nodes := hnode.mem_nodes.mpr (by simp)
  have hkept : target ∈ (b.node dependency).2.nodes := hnode.mem_nodes.mpr (by simp [htarget])
  have hboth := And.intro (List.idxOf_lt_length_of_mem hsource) (List.idxOf_lt_length_of_mem hkept)
  dsimp only [addImport?]
  rw [node_eq_idxOf, hsame, addEdge?, if_pos hboth]
  refine ⟨_, rfl, hnode.nodes, ?_, ?_⟩
  · simp [hnode.edges]
  · intro l hl
    rcases List.mem_append.mp hl with hold | hnew
    · exact hnode.linked l hold
    · obtain rfl := List.mem_singleton.mp hnew
      simp [htarget]

/-- The imports of a file are added one after the other, each with its edge. -/
theorem Records.exists_foldlM_addImport? (h : b.Records names links) (htarget : target ∈ names)
    (dependencies : List String) :
    ∃ b', dependencies.foldlM (addImport? (b.nodes.idxOf target)) b = some b' ∧
      b'.Records (names ++ dependencies) (links ++ dependencies.map fun d => (d, target)) := by
  induction dependencies generalizing b names links with
  | nil => exact ⟨b, rfl, by simpa using h⟩
  | cons d rest ih =>
    obtain ⟨b₁, hfirst, h₁⟩ := h.exists_addImport? htarget d
    -- A new node comes behind all others, so the file's node keeps its place for the next import.
    have hsame : b₁.nodes.idxOf target = b.nodes.idxOf target := by
      rw [h₁.nodes, h.nodes, idxOf_eraseDups_append _ htarget]
    obtain ⟨b₂, hrest, h₂⟩ := ih h₁ (List.mem_append_left _ htarget)
    refine ⟨b₂, ?_, by simpa using h₂⟩
    rw [List.foldlM_cons, hfirst, ← hsame]
    exact hrest

theorem Records.exists_addImports? (h : b.Records names links) (hf : f.name ∈ names) :
    ∃ b', b.addImports? f = some b' ∧
      b'.Records (names ++ f.dependencies) (links ++ f.dependencies.map fun d => (d, f.name)) := by
  rw [addImports?, get?_eq_some_iff.mpr ⟨h.mem_nodes.mpr hf, rfl⟩]
  exact h.exists_foldlM_addImport? hf f.dependencies

/-- The first pass adds the names of the files and no edge. -/
theorem Records.addFiles (h : b.Records names links) (files : List FileDescriptor) :
    (b.addFiles files).Records (names ++ files.map (·.name)) links := by
  rw [Draft.addFiles]
  induction files generalizing b names with
  | nil => simpa using h
  | cons f rest ih => simpa using ih (h.node f.name)

/-- The second pass never misses the node of a file, as the first one has added them all. -/
theorem Records.exists_foldlM_addImports? (h : b.Records names links)
    (hfiles : ∀ f ∈ files, f.name ∈ names) :
    ∃ b', files.foldlM addImports? b = some b' ∧
      b'.Records (names ++ files.flatMap (·.dependencies)) (links ++ imports files) := by
  induction files generalizing b names links with
  | nil => exact ⟨b, rfl, by simpa [imports] using h⟩
  | cons f rest ih =>
    obtain ⟨hf, hrest⟩ := List.forall_mem_cons.mp hfiles
    obtain ⟨b₁, hfirst, h₁⟩ := h.exists_addImports? hf
    obtain ⟨b₂, hlast, h₂⟩ := ih h₁ fun g hg => List.mem_append_left _ (hrest g hg)
    refine ⟨b₂, ?_, by simpa [imports] using h₂⟩
    rw [List.foldlM_cons, hfirst]
    exact hlast

end Draft

/-- The graph of a list of files, if no node is missing when its edges are added. -/
def build? (files : List FileDescriptor) : Option DependencyGraph := do
  let drafted ← files.foldlM Draft.addImports? (Draft.empty.addFiles files)
  pure drafted.toDependencyGraph

/-- Building a graph never misses a node and records all names and imports of the files. -/
theorem exists_build? (files : List FileDescriptor) :
    ∃ b : Draft, build? files = some b.toDependencyGraph ∧
      b.Records (files.map (·.name) ++ files.flatMap (·.dependencies)) (imports files) := by
  have hnamed := Draft.records_empty.addFiles files
  rw [List.nil_append] at hnamed
  obtain ⟨b, hlinked, hb⟩ := hnamed.exists_foldlM_addImports? fun f => List.mem_map_of_mem
  exact ⟨b, by rw [build?, hlinked]; rfl, hb⟩

theorem isSome_build? (files : List FileDescriptor) : (build? files).isSome := by
  obtain ⟨b, hb, -⟩ := exists_build? files
  rw [hb]
  rfl

/-- The graph of a list of files. -/
def ofFiles (files : List FileDescriptor) : DependencyGraph :=
  (build? files).get (isSome_build? files)

theorem exists_draft (files : List FileDescriptor) :
    ∃ b : Draft, ofFiles files = b.toDependencyGraph ∧
      b.Records (files.map (·.name) ++ files.flatMap (·.dependencies)) (imports files) := by
  obtain ⟨b, hb, hrecords⟩ := exists_build? files
  exact ⟨b, Option.get_of_eq_some _ hb, hrecords⟩

/-- The nodes of the graph come in the order in which their names first occur, files before
imports. -/
theorem nodes_ofFiles (files : List FileDescriptor) :
    (ofFiles files).nodes =
      (files.map (·.name) ++ files.flatMap (·.dependencies)).eraseDups := by
  obtain ⟨b, hb, hrecords⟩ := exists_draft files
  rw [hb, hrecords.nodes]

theorem edges_ofFiles (files : List FileDescriptor) :
    (ofFiles files).edges = (imports files).map fun l =>
      ((ofFiles files).nodes.idxOf l.1, (ofFiles files).nodes.idxOf l.2) := by
  obtain ⟨b, hb, hrecords⟩ := exists_draft files
  rw [hb, hrecords.edges]

theorem exists_import_of_mem_edges {files : List FileDescriptor} {e : Nat × Nat}
    (he : e ∈ (ofFiles files).edges) : ∃ f ∈ files, ∃ d ∈ f.dependencies,
      e = ((ofFiles files).nodes.idxOf d, (ofFiles files).nodes.idxOf f.name) := by
  rw [edges_ofFiles] at he
  obtain ⟨l, hl, rfl⟩ := List.mem_map.mp he
  obtain ⟨f, hf, hmem⟩ := List.mem_flatMap.mp hl
  obtain ⟨d, hd, rfl⟩ := List.mem_map.mp hmem
  exact ⟨f, hf, d, hd, rfl⟩

/-- Repeated names share a node, repeated imports do not share an edge. -/
example : ofFiles [.ofImports "b" ["c", "a", "c"], .ofImports "a" [], .ofImports "b" ["b"]] =
    ⟨["b", "a", "c"], [(2, 0), (1, 0), (2, 0), (0, 0)]⟩ := by decide

end DependencyGraph

end ProtoForge.Resolution
