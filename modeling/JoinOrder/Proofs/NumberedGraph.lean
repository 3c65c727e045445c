import JoinOrder.Proofs.JoinGraph
import Mathlib.Data.List.Nodup
/-!
# Join graphs over numbers

A join graph can be kept in three parts: a map from the names to numbers, the names by their numbers, and
edges between numbers. A name gets the next number when it is met first, and an edge that is there already,
in either orientation, is not recorded again. A pair may name something new at both ends, or the same thing
twice, so numbers are given out while an edge is recorded.

What keeps the parts together is that the map and the list of names are inverse to each other. Then no two
numbers stand for one name, and the edges between numbers are those of `JoinGraph` between names, one by
one. Both answer all questions alike; only the order in which neighbours are listed may be another one.
-/

namespace JoinOrder

/-- A join graph over numbers. -/
structure NumberedGraph where
  /-- The number of each name. -/
  numbers : List (String × ℕ) := []
  /-- The name of each number. -/
  names : List String := []
  /-- The edges, oldest first. -/
  edges : List (ℕ × ℕ) := []

namespace NumberedGraph

/-- The number of a name. -/
def number? (h : NumberedGraph) (a : String) : Option ℕ := h.numbers.lookup a

/-- The number of a name, which gets one if it has none. -/
def node (h : NumberedGraph) (a : String) : ℕ × NumberedGraph :=
  match h.number? a with
  | some i => (i, h)
  | none =>
    (h.names.length,
      { h with numbers := (a, h.names.length) :: h.numbers, names := h.names ++ [a] })

/-- There is an edge between two numbers, in either orientation. -/
def hasEdge (h : NumberedGraph) (i j : ℕ) : Bool :=
  h.edges.contains (i, j) || h.edges.contains (j, i)

/-- Record an edge between two numbers, if there is none. -/
def updateEdge (h : NumberedGraph) (i j : ℕ) : NumberedGraph :=
  if h.hasEdge i j then h else { h with edges := h.edges ++ [(i, j)] }

/-- Record that two names are joinable. -/
def addEdge (h : NumberedGraph) (a b : String) : NumberedGraph :=
  let (i, h) := h.node a
  let (j, h) := h.node b
  h.updateEdge i j

/-- The graph of a list of pairs. -/
def ofPairs (pairs : List (String × String)) : NumberedGraph :=
  pairs.foldl (fun h pair ↦ h.addEdge pair.1 pair.2) {}

/-- The edges that start with a number lead to these, the latest first. -/
def targets (h : NumberedGraph) (i : ℕ) : List ℕ :=
  h.edges.reverse.filterMap fun e ↦ if e.1 = i then some e.2 else none

/-- The edges that end with a number come from these, the latest first; a loop starts with it as well. -/
def sources (h : NumberedGraph) (i : ℕ) : List ℕ :=
  h.edges.reverse.filterMap fun e ↦ if e.2 = i ∧ e.1 ≠ i then some e.1 else none

/-- The numbers at the other ends of edges. -/
def adjacent (h : NumberedGraph) (i : ℕ) : List ℕ := h.targets i ++ h.sources i

/-- The names joinable to a name. -/
def neighbors (h : NumberedGraph) (a : String) : List String :=
  match h.number? a with
  | some i => (h.adjacent i).filterMap fun j ↦ h.names[j]?
  | none => []

/-- An edge between two names, in either orientation. -/
def isJoinable (h : NumberedGraph) (a b : String) : Bool :=
  match h.number? a, h.number? b with
  | some i, some j => h.hasEdge i j
  | _, _ => false

/-- The name has a number. -/
def contains (h : NumberedGraph) (a : String) : Bool := (h.number? a).isSome

/-- The number of edges. -/
def edgeCount (h : NumberedGraph) : ℕ := h.edges.length

/-! ## Numbers and names -/

/-- The names at the ends of an edge. -/
def ends (h : NumberedGraph) (e : ℕ × ℕ) : Option String × Option String :=
  (h.names[e.1]?, h.names[e.2]?)

/-- The parts belong together, and hold the edges of a graph between names. -/
structure Keeps (h : NumberedGraph) (g : JoinGraph) : Prop where
  numbered : ∀ a i, h.number? a = some i ↔ h.names[i]? = some a
  edges : h.edges.map h.ends = g.edges.map fun e ↦ (some e.1, some e.2)

variable {h : NumberedGraph} {g : JoinGraph} {a b : String} {i j : ℕ}

theorem keeps_empty : ({} : NumberedGraph).Keeps .empty where
  numbered a i := by simp [number?]
  edges := rfl

theorem Keeps.mem_names_iff (hk : h.Keeps g) : a ∈ h.names ↔ ∃ i, h.number? a = some i := by
  rw [List.mem_iff_getElem?]
  exact exists_congr fun i ↦ (hk.numbered a i).symm

theorem Keeps.number_unique (hk : h.Keeps g) (hi : h.names[i]? = some a) (hj : h.names[j]? = some a) :
    i = j :=
  Option.some.inj (((hk.numbered a i).mpr hi).symm.trans ((hk.numbered a j).mpr hj))

theorem Keeps.exists_names (hk : h.Keeps g) {e : ℕ × ℕ} (he : e ∈ h.edges) :
    ∃ a b, (a, b) ∈ g.edges ∧ h.names[e.1]? = some a ∧ h.names[e.2]? = some b := by
  have hmem : h.ends e ∈ g.edges.map fun e ↦ (some e.1, some e.2) :=
    hk.edges ▸ List.mem_map_of_mem he
  obtain ⟨⟨a, b⟩, hab, hends⟩ := List.mem_map.mp hmem
  exact ⟨a, b, hab, (congrArg Prod.fst hends).symm, (congrArg Prod.snd hends).symm⟩

theorem Keeps.exists_numbers (hk : h.Keeps g) (hab : (a, b) ∈ g.edges) :
    ∃ i j, (i, j) ∈ h.edges ∧ h.names[i]? = some a ∧ h.names[j]? = some b := by
  have hmem : (some a, some b) ∈ h.edges.map h.ends :=
    hk.edges ▸ List.mem_map_of_mem (f := fun e : String × String ↦ (some e.1, some e.2)) hab
  obtain ⟨⟨i, j⟩, hij, hends⟩ := List.mem_map.mp hmem
  exact ⟨i, j, hij, congrArg Prod.fst hends, congrArg Prod.snd hends⟩

theorem Keeps.mem_edges_iff (hk : h.Keeps g) (ha : h.names[i]? = some a) (hb : h.names[j]? = some b) :
    (i, j) ∈ h.edges ↔ (a, b) ∈ g.edges := by
  constructor
  · intro hij
    obtain ⟨a', b', hab, ha', hb'⟩ := hk.exists_names hij
    obtain rfl : a' = a := Option.some.inj (ha'.symm.trans ha)
    obtain rfl : b' = b := Option.some.inj (hb'.symm.trans hb)
    exact hab
  · intro hab
    obtain ⟨i', j', hij, ha', hb'⟩ := hk.exists_numbers hab
    obtain rfl := hk.number_unique ha' ha
    obtain rfl := hk.number_unique hb' hb
    exact hij

theorem hasEdge_iff : h.hasEdge i j = true ↔ (i, j) ∈ h.edges ∨ (j, i) ∈ h.edges := by
  simp [hasEdge]

theorem Keeps.hasEdge_eq (hk : h.Keeps g) (ha : h.names[i]? = some a) (hb : h.names[j]? = some b) :
    h.hasEdge i j = g.isJoinable a b := by
  rw [Bool.eq_iff_iff, hasEdge_iff, JoinGraph.isJoinable_iff, hk.mem_edges_iff ha hb,
    hk.mem_edges_iff hb ha]

/-! ## Recording an edge -/

theorem getElem?_concat_eq_some_iff {α : Type} {l : List α} {a x : α} {i : ℕ} :
    (l ++ [a])[i]? = some x ↔ l[i]? = some x ∨ i = l.length ∧ a = x := by
  grind

/-- A name that is new gets a number that is new, and the others keep theirs. -/
theorem Keeps.node (hk : h.Keeps g) (a : String) :
    (h.node a).2.Keeps g ∧ (h.node a).2.names[(h.node a).1]? = some a ∧
      (∀ (x : String) (i : ℕ), h.names[i]? = some x → (h.node a).2.names[i]? = some x) ∧
      ∀ x, x ∈ (h.node a).2.names ↔ x ∈ h.names ∨ x = a := by
  unfold NumberedGraph.node
  split
  · next i hnumber =>
    have ha : h.names[i]? = some a := (hk.numbered a i).mp hnumber
    refine ⟨hk, ha, fun _ _ hx ↦ hx, fun x ↦ ⟨Or.inl, ?_⟩⟩
    rintro (hx | rfl)
    · exact hx
    · exact List.mem_of_getElem? ha
  · next hnone =>
    refine ⟨⟨fun x i ↦ ?_, ?_⟩, by simp, fun x i hx ↦ getElem?_concat_eq_some_iff.mpr (Or.inl hx), by simp⟩
    · rw [number?, List.lookup_cons, getElem?_concat_eq_some_iff, ← hk.numbered]
      by_cases hx : x = a
      · subst hx
        simp [hnone, eq_comm]
      · simp [beq_eq_false_iff_ne.mpr hx, number?, Ne.symm hx]
    · rw [← hk.edges]
      refine List.map_congr_left fun e he ↦ ?_
      obtain ⟨x, y, -, hx, hy⟩ := hk.exists_names he
      rw [ends, ends, hx, hy, getElem?_concat_eq_some_iff.mpr (Or.inl hx),
        getElem?_concat_eq_some_iff.mpr (Or.inl hy)]

theorem names_updateEdge (h : NumberedGraph) (i j : ℕ) : (h.updateEdge i j).names = h.names := by
  unfold updateEdge
  split <;> rfl

theorem Keeps.updateEdge (hk : h.Keeps g) (ha : h.names[i]? = some a) (hb : h.names[j]? = some b) :
    (h.updateEdge i j).Keeps (g.addEdge a b) := by
  unfold NumberedGraph.updateEdge JoinGraph.addEdge
  by_cases hab : g.isJoinable a b = true
  · rwa [dif_pos hab, if_pos ((hk.hasEdge_eq ha hb).trans hab)]
  · have hij : ¬h.hasEdge i j = true := by rwa [hk.hasEdge_eq ha hb]
    rw [dif_neg hab, if_neg hij]
    refine ⟨hk.numbered, ?_⟩
    change (h.edges ++ [(i, j)]).map h.ends = _
    rw [List.map_append, hk.edges, List.map_append, List.map_singleton, ends, ha, hb]
    rfl

/-- **Recording a pair keeps the parts together**, whatever names are new. -/
theorem Keeps.addEdge (hk : h.Keeps g) (a b : String) :
    (h.addEdge a b).Keeps (g.addEdge a b) ∧
      ∀ x, x ∈ (h.addEdge a b).names ↔ x ∈ h.names ∨ x = a ∨ x = b := by
  obtain ⟨hfirst, ha, -, hnames⟩ := hk.node a
  obtain ⟨hsecond, hb, hkept, hnames'⟩ := hfirst.node b
  rw [NumberedGraph.addEdge]
  dsimp only
  -- the first name keeps its number while the second one gets its own
  refine ⟨hsecond.updateEdge (hkept a _ ha) hb, fun x ↦ ?_⟩
  rw [names_updateEdge, hnames', hnames, or_assoc]

/-! ## Recording all pairs -/

theorem keeps_ofPairs (pairs : List (String × String)) :
    (ofPairs pairs).Keeps (.ofPairs pairs) ∧
      ∀ x, x ∈ (ofPairs pairs).names ↔ ∃ pair ∈ pairs, x = pair.1 ∨ x = pair.2 := by
  suffices hrun : ∀ (h : NumberedGraph) (g : JoinGraph), h.Keeps g →
      (pairs.foldl (fun h pair ↦ h.addEdge pair.1 pair.2) h).Keeps
          (pairs.foldl (fun g pair ↦ g.addEdge pair.1 pair.2) g) ∧
        ∀ x, x ∈ (pairs.foldl (fun h pair ↦ h.addEdge pair.1 pair.2) h).names ↔
          x ∈ h.names ∨ ∃ pair ∈ pairs, x = pair.1 ∨ x = pair.2 by
    obtain ⟨hkeeps, hnames⟩ := hrun {} .empty keeps_empty
    exact ⟨hkeeps, fun x ↦ (hnames x).trans (or_iff_right List.not_mem_nil)⟩
  induction pairs with
  | nil => exact fun h g hk ↦ ⟨hk, by simp⟩
  | cons pair pairs ih =>
    intro h g hk
    obtain ⟨hstep, hnames⟩ := hk.addEdge pair.1 pair.2
    obtain ⟨hrun, hnames'⟩ := ih _ _ hstep
    refine ⟨hrun, fun x ↦ ?_⟩
    rw [List.foldl_cons, hnames', hnames, List.exists_mem_cons_iff, or_assoc]

/-! ## Questions -/

theorem Keeps.mem_names_of_isJoinable (hk : h.Keeps g) (hab : g.isJoinable a b = true) :
    a ∈ h.names := by
  rcases JoinGraph.isJoinable_iff.mp hab with hab | hba
  · obtain ⟨i, j, -, ha, -⟩ := hk.exists_numbers hab
    exact List.mem_of_getElem? ha
  · obtain ⟨i, j, -, -, ha⟩ := hk.exists_numbers hba
    exact List.mem_of_getElem? ha

theorem Keeps.isJoinable_eq (hk : h.Keeps g) (a b : String) : h.isJoinable a b = g.isJoinable a b := by
  unfold NumberedGraph.isJoinable
  split
  · next i j hi hj => exact hk.hasEdge_eq ((hk.numbered a i).mp hi) ((hk.numbered b j).mp hj)
  · next hnone =>
    refine (Bool.eq_false_iff.mpr fun hab ↦ ?_).symm
    obtain ⟨i, hi⟩ := hk.mem_names_iff.mp (hk.mem_names_of_isJoinable hab)
    obtain ⟨j, hj⟩ := hk.mem_names_iff.mp
      (hk.mem_names_of_isJoinable ((g.isJoinable_comm b a).trans hab))
    exact hnone i j hi hj

theorem Keeps.contains_iff (hk : h.Keeps g) : h.contains a = true ↔ a ∈ h.names := by
  rw [hk.mem_names_iff, contains, Option.isSome_iff_exists]

theorem Keeps.edgeCount_eq (hk : h.Keeps g) : h.edgeCount = g.edgeCount := by
  have hlength := congrArg List.length hk.edges
  rwa [List.length_map, List.length_map] at hlength

theorem mem_targets_iff : j ∈ h.targets i ↔ (i, j) ∈ h.edges := by
  simp [targets]

theorem mem_sources_iff : j ∈ h.sources i ↔ (j, i) ∈ h.edges ∧ j ≠ i := by
  simp [sources]

theorem mem_adjacent_iff : j ∈ h.adjacent i ↔ h.hasEdge i j = true := by
  rw [adjacent, List.mem_append, mem_targets_iff, mem_sources_iff, hasEdge_iff]
  constructor
  · exact Or.imp_right And.left
  · rintro (hij | hji)
    · exact Or.inl hij
    · by_cases hloop : j = i
      · exact Or.inl (hloop ▸ hji)
      · exact Or.inr ⟨hji, hloop⟩

theorem Keeps.mem_neighbors_iff (hk : h.Keeps g) : b ∈ h.neighbors a ↔ g.isJoinable a b = true := by
  unfold neighbors
  split
  · next i hi =>
    have ha := (hk.numbered a i).mp hi
    simp only [List.mem_filterMap, mem_adjacent_iff]
    constructor
    · rintro ⟨j, hj, hb⟩
      rwa [← hk.hasEdge_eq ha hb]
    · intro hab
      obtain ⟨j, hj⟩ := hk.mem_names_iff.mp
        (hk.mem_names_of_isJoinable ((g.isJoinable_comm b a).trans hab))
      have hb := (hk.numbered b j).mp hj
      exact ⟨j, (hk.hasEdge_eq ha hb).trans hab, hb⟩
  · next hnone =>
    refine iff_of_false List.not_mem_nil fun hab ↦ ?_
    obtain ⟨i, hi⟩ := hk.mem_names_iff.mp (hk.mem_names_of_isJoinable hab)
    cases hnone.symm.trans hi

theorem Keeps.nodup_edges (hk : h.Keeps g) : h.edges.Nodup := by
  have hnodup : (h.edges.map h.ends).Nodup := by
    rw [hk.edges, List.nodup_map_iff fun e f hef ↦ by simpa [Prod.ext_iff] using hef]
    exact g.nodup_edges.of_map
  exact hnodup.of_map

/-- There is no edge back, unless it is a loop. -/
theorem Keeps.eq_of_mem_edges (hk : h.Keeps g) (hij : (i, j) ∈ h.edges) (hji : (j, i) ∈ h.edges) :
    i = j := by
  obtain ⟨a, b, hab, ha, hb⟩ := hk.exists_names hij
  have hba : (b, a) ∈ g.edges := (hk.mem_edges_iff hb ha).mp hji
  have heq : (a, b) = (b, a) := List.inj_on_of_nodup_map g.nodup_edges hab hba Sym2.eq_swap
  obtain rfl : a = b := congrArg Prod.fst heq
  exact hk.number_unique ha hb

theorem Keeps.nodup_adjacent (hk : h.Keeps g) (i : ℕ) : (h.adjacent i).Nodup := by
  have hedges : h.edges.reverse.Nodup := List.nodup_reverse.mpr hk.nodup_edges
  rw [adjacent, List.nodup_append]
  refine ⟨hedges.filterMap (by grind), hedges.filterMap (by grind), fun j hj j' hj' hjj' ↦ ?_⟩
  obtain ⟨hsource, hloop⟩ := mem_sources_iff.mp hj'
  rw [← hjj'] at hsource hloop
  exact hloop (hk.eq_of_mem_edges hsource (mem_targets_iff.mp hj))

theorem Keeps.nodup_neighbors (hk : h.Keeps g) (a : String) : (h.neighbors a).Nodup := by
  unfold neighbors
  split
  · next i hi =>
    exact (hk.nodup_adjacent i).filterMap fun j j' b hb hb' ↦ hk.number_unique hb hb'
  · exact List.nodup_nil

end NumberedGraph

namespace JoinGraph

/-- The unordered pairs of a list. -/
def recorded (pairs : List (String × String)) : Set (Sym2 String) :=
  {pair | ∃ e ∈ pairs, s(e.1, e.2) = pair}

theorem mem_recorded_iff {pairs : List (String × String)} {a b : String} :
    s(a, b) ∈ recorded pairs ↔ (a, b) ∈ pairs ∨ (b, a) ∈ pairs := by
  constructor
  · rintro ⟨⟨x, y⟩, hxy, heq⟩
    rcases Sym2.eq_iff.mp heq with ⟨rfl, rfl⟩ | ⟨rfl, rfl⟩
    · exact Or.inl hxy
    · exact Or.inr hxy
  · rintro (hab | hba)
    · exact ⟨_, hab, rfl⟩
    · exact ⟨_, hba, Sym2.eq_swap⟩

theorem neighbors_eq_nil {g : JoinGraph} {a : String} (h : g.contains a = false) :
    g.neighbors a = [] := by
  refine List.eq_nil_iff_forall_not_mem.mpr fun b hb ↦ ?_
  have hknown := contains_iff_exists_isJoinable.mpr ⟨b, (g.mem_neighbors_iff a b).mp hb⟩
  cases h.symm.trans hknown

/-- **A join graph holds the pairs recorded**, whatever they are: those and no others are joinable, in both
directions, each is one edge, the names known are those that occur, and a neighbour is listed once. Names,
numbers and edges between numbers answer the same, but for the order of the neighbours. -/
theorem represents_ofPairs (pairs : List (String × String)) :
    (ofPairs pairs).Represents (recorded pairs) ∧
      let g := ofPairs pairs
      let h := NumberedGraph.ofPairs pairs
      (∀ a b, g.isJoinable a b = g.isJoinable b a) ∧
        (∀ a, (g.neighbors a).Nodup ∧ (∀ b, b ∈ g.neighbors a ↔ s(a, b) ∈ recorded pairs) ∧
          (g.contains a = false → g.neighbors a = [])) ∧
        (∀ a b, h.isJoinable a b = g.isJoinable a b) ∧ h.edgeCount = g.edgeCount ∧
        ∀ a, h.contains a = g.contains a ∧ (h.neighbors a).Perm (g.neighbors a) := by
  have hjoinable (a b : String) : (ofPairs pairs).isJoinable a b = true ↔ s(a, b) ∈ recorded pairs :=
    (isJoinable_ofPairs_iff pairs).trans mem_recorded_iff.symm
  obtain ⟨hkeeps, hnames⟩ := NumberedGraph.keeps_ofPairs pairs
  refine ⟨represents_of_isJoinable_iff hjoinable, isJoinable_comm _,
    fun a ↦ ⟨nodup_neighbors _ a, fun b ↦ ?_, neighbors_eq_nil⟩, hkeeps.isJoinable_eq,
    hkeeps.edgeCount_eq, fun a ↦ ⟨?_, ?_⟩⟩
  · rw [mem_neighbors_iff, hjoinable]
  · -- a name has a number if it occurs, and is known if it is joinable
    rw [Bool.eq_iff_iff, hkeeps.contains_iff, hnames, contains_iff_exists_isJoinable]
    simp only [isJoinable_ofPairs_iff]
    grind
  · rw [List.perm_ext_iff_of_nodup (hkeeps.nodup_neighbors a) (nodup_neighbors _ a)]
    intro b
    rw [hkeeps.mem_neighbors_iff, mem_neighbors_iff]

end JoinGraph

end JoinOrder
