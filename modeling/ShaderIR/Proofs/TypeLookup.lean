import Mathlib.Data.List.Induction
import Mathlib.Logic.Function.Basic
import Mathlib.Logic.Relation
import ShaderIR.Proofs.MethodIdentity

/-! Lookup of declarations by name. A search goes through the programs of the dependency graph as
each of them says, its own declarations first or last, and ends at the first declaration of the
name. -/

namespace ShaderIR.Program

/-- A call that changes a program under construction. -/
inductive Change where
  | declare (d : TypeDecl)
  | depend (dependency : Program)
  | reorder (order : LookupOrder)

/-- A declaration that is refused leaves the program as it was. -/
def change (p : Program) : Change → Program
  | .declare d =>
    match p.addType d with
    | .ok q => q
    | .error _ => p
  | .depend dependency => p.addDependency dependency
  | .reorder order => p.setLookupOrder order

/-- The program comes from calls, whether they are refused or not, and so do its dependencies. -/
inductive Built : Program → Prop
  | changes (name : String) (cs : List Change) (h : ∀ q, .depend q ∈ cs → Built q) :
      Built (cs.foldl change { name })

def DependsOn (p q : Program) : Prop :=
  q ∈ p.dependencies

/-- The programs that a search may go through. -/
abbrev Sees : Program → Program → Prop :=
  Relation.ReflTransGen DependsOn

theorem addType_cases (p : Program) (d : TypeDecl) :
    (∃ e ∈ p.types, e.fullName = d.fullName) ∧
        p.addType d = .error (.duplicateType d.fullName) ∨
      (∀ e ∈ p.types, e.fullName ≠ d.fullName) ∧ ∃ q, p.addType d = .ok q ∧ q.name = p.name ∧
        q.types = p.types ++ [d] ∧ q.index = (d.fullName, p.types.length) :: p.index ∧
        q.dependencies = p.dependencies ∧ q.lookupOrder = p.lookupOrder := by
  unfold addType
  split
  · rename_i k hk
    rw [p.indexed, List.findIdx?_eq_some_iff_getElem] at hk
    obtain ⟨hlt, hname, _⟩ := hk
    exact .inl ⟨⟨p.types[k], List.getElem_mem hlt, by simpa using hname⟩, rfl⟩
  · rename_i hnew
    rw [p.indexed, List.findIdx?_eq_none_iff] at hnew
    exact .inr ⟨by simpa using hnew, _, rfl, rfl, rfl, rfl, rfl, rfl⟩

/-- What every call keeps, every sequence of calls has. -/
theorem changes_induction {motive : Program → Prop} {cs : List Change} {p : Program}
    (hp : motive p) (hstep : ∀ p, motive p → ∀ c ∈ cs, motive (p.change c)) :
    motive (cs.foldl change p) := by
  induction cs generalizing p with
  | nil => exact hp
  | cons c cs ih =>
    refine ih (hstep p hp c List.mem_cons_self) ?_
    exact fun q hq c hc => hstep q hq c (List.mem_cons_of_mem _ hc)

theorem Distinct.change {p : Program} (hp : p.Distinct) (c : Change) : (p.change c).Distinct := by
  cases c with
  | declare d =>
    rcases addType_cases p d with ⟨_, hd⟩ | ⟨_, q, hd, _⟩ <;> simp only [Program.change, hd]
    · exact hp
    · exact distinct_addType hp hd
  | depend q => exact hp
  | reorder order => exact hp

theorem Built.distinct {p : Program} (hp : p.Built) : p.Distinct := by
  obtain ⟨name, cs, _⟩ := hp
  exact changes_induction (by simp [Distinct]) fun p hp c _ => hp.change c

theorem Built.dependsOn {p q : Program} (hp : p.Built) (hq : p.DependsOn q) : q.Built := by
  obtain ⟨name, cs, hcs⟩ := hp
  revert q
  refine changes_induction (motive := fun p => ∀ {q}, p.DependsOn q → q.Built) ?_ ?_
  · simp [DependsOn]
  · intro p hp c hc q hq
    cases c with
    | declare d =>
      rcases addType_cases p d with ⟨_, hd⟩ | ⟨_, r, hd, _, _, _, hdependencies, _⟩ <;>
        simp only [change, hd] at hq
      · exact hp hq
      · exact hp (by rwa [DependsOn, ← hdependencies])
    | depend dependency =>
      rcases List.mem_append.mp hq with hq | hq
      · exact hp hq
      · obtain rfl := List.mem_singleton.mp hq
        exact hcs q hc
    | reorder order => exact hp hq

theorem Built.sees {p q : Program} (hp : p.Built) (hq : p.Sees q) : q.Built := by
  induction hq with
  | refl => exact hp
  | tail _ hstep ih => exact ih.dependsOn hstep

/-! The index of names. -/

/-- Where names are distinct, the index has for each name the position of its declaration. -/
theorem Distinct.lookup_index {p : Program} (hp : p.Distinct) (name : String) (k : Nat) :
    p.index.lookup name = some k ↔ ∃ d, p.types[k]? = some d ∧ d.fullName = name := by
  rw [p.indexed]
  constructor
  · intro h
    obtain ⟨hlt, hname, _⟩ := List.findIdx?_eq_some_iff_getElem.mp h
    exact ⟨p.types[k], List.getElem?_eq_getElem hlt, by simpa using hname⟩
  · rintro ⟨d, hd, rfl⟩
    obtain ⟨hlt, rfl⟩ := List.getElem?_eq_some_iff.mp hd
    refine List.findIdx?_eq_some_iff_getElem.mpr ⟨hlt, by simp, fun j hj => ?_⟩
    -- an earlier declaration of the name would repeat it
    have hne := List.pairwise_iff_getElem.mp hp j k (by simpa using Nat.lt_trans hj hlt)
      (by simpa using hlt) hj
    simpa using hne

theorem lookup_index_eq_none_iff (p : Program) (name : String) :
    p.index.lookup name = none ↔ ∀ d ∈ p.types, d.fullName ≠ name := by
  rw [p.indexed, List.findIdx?_eq_none_iff]
  simp

/-! The order of a search. -/

mutual

/-- The declarations in the order in which a search meets them, each with the path to its
program. -/
def visits (p : Program) : List (List Nat × TypeDecl) :=
  match p with
  | ⟨_, types, _, _, dependencies, .localFirst⟩ =>
    types.map (fun d => ([], d)) ++ visitsAmong dependencies 0
  | ⟨_, types, _, _, dependencies, .dependenciesFirst⟩ =>
    visitsAmong dependencies 0 ++ types.map fun d => ([], d)
termination_by structural p

def visitsAmong (ps : List Program) (position : Nat) : List (List Nat × TypeDecl) :=
  match ps with
  | [] => []
  | p :: rest =>
    (visits p).map (fun v => (position :: v.1, v.2)) ++ visitsAmong rest (position + 1)
termination_by structural ps

end

def hasName (name : String) (v : List Nat × TypeDecl) : Bool :=
  v.2.fullName == name

theorem find?_own (types : List TypeDecl) (name : String) :
    (types.map fun d => (([], d) : List Nat × TypeDecl)).find? (hasName name) =
      (findLocal? types name).map fun d => ([], d) :=
  List.find?_map ..

mutual

/-- A search ends at the first declaration of the name. -/
theorem find?_eq_visits (p : Program) (name : String) :
    p.find? name = p.visits.find? (hasName name) := by
  match p with
  | ⟨_, types, _, _, dependencies, order⟩ =>
    have hamong := findAmong?_eq_visits dependencies 0 name
    rw [find?_eq]
    cases order <;> rw [visits, List.find?_append, find?_own, ← hamong]
termination_by structural p

theorem findAmong?_eq_visits (ps : List Program) (position : Nat) (name : String) :
    findAmong? ps position name = (visitsAmong ps position).find? (hasName name) := by
  match ps with
  | [] => rfl
  | p :: rest =>
    have hp := find?_eq_visits p name
    have hrest := findAmong?_eq_visits rest (position + 1) name
    have hmoved : (p.visits.map fun v => (position :: v.1, v.2)).find? (hasName name) =
        (p.visits.find? (hasName name)).map fun v => (position :: v.1, v.2) := List.find?_map ..
    rw [findAmong?, visitsAmong, List.find?_append, hmoved, ← hp, ← hrest]
    cases p.find? name <;> rfl
termination_by structural ps

end

mutual

/-- A search meets the declarations of the programs at the ends of the paths. -/
theorem mem_visits (p : Program) (path : List Nat) (d : TypeDecl) :
    (path, d) ∈ p.visits ↔ ∃ q, p.atPath? path = some q ∧ d ∈ q.types := by
  match p with
  | ⟨n, types, index, hindex, dependencies, order⟩ =>
    have hamong := mem_visitsAmong dependencies 0 path d
    have hmem : (path, d) ∈ visits ⟨n, types, index, hindex, dependencies, order⟩ ↔
        (path = [] ∧ d ∈ types) ∨ (path, d) ∈ visitsAmong dependencies 0 := by
      cases order <;> simp [visits, eq_comm, and_comm, or_comm]
    rw [hmem, hamong]
    cases path with
    | nil => simp [atPath?]
    | cons position rest => cases hd : dependencies[position]? <;> simp [atPath?, hd]
termination_by structural p

theorem mem_visitsAmong (ps : List Program) (position : Nat) (path : List Nat) (d : TypeDecl) :
    (path, d) ∈ visitsAmong ps position ↔ ∃ k rest dependency q, path = (position + k) :: rest ∧
      ps[k]? = some dependency ∧ dependency.atPath? rest = some q ∧ d ∈ q.types := by
  match ps with
  | [] => simp [visitsAmong]
  | p :: ps =>
    have hp := fun rest => mem_visits p rest d
    have hps := mem_visitsAmong ps (position + 1) path d
    rw [visitsAmong, List.mem_append, hps]
    constructor
    · rintro (h | ⟨k, rest, dependency, q, rfl, hk, hq⟩)
      · obtain ⟨⟨rest, e⟩, hmem, he⟩ := List.mem_map.mp h
        obtain ⟨rfl, rfl⟩ := Prod.mk.inj he
        obtain ⟨q, hq⟩ := (hp rest).mp hmem
        exact ⟨0, rest, p, q, rfl, rfl, hq⟩
      · exact ⟨k + 1, rest, dependency, q, by rw [Nat.add_right_comm, Nat.add_assoc], hk, hq⟩
    · rintro ⟨k, rest, dependency, q, rfl, hk, hq⟩
      cases k with
      | zero =>
        cases hk
        exact .inl (List.mem_map.mpr ⟨(rest, d), (hp rest).mpr ⟨q, hq⟩, rfl⟩)
      | succ k =>
        exact .inr ⟨k, rest, dependency, q, by rw [Nat.add_right_comm, Nat.add_assoc], hk, hq⟩
termination_by structural ps

end

/-- Paths lead to the programs that a search may go through. -/
theorem sees_iff_atPath? {p q : Program} : p.Sees q ↔ ∃ path, p.atPath? path = some q := by
  constructor
  · intro h
    induction h using Relation.ReflTransGen.head_induction_on with
    | refl => exact ⟨[], rfl⟩
    | head hstep _ ih =>
      obtain ⟨path, hpath⟩ := ih
      obtain ⟨position, hposition⟩ := List.getElem?_of_mem hstep
      exact ⟨position :: path, by simp [atPath?, hposition, hpath]⟩
  · rintro ⟨path, hpath⟩
    induction path generalizing p with
    | nil =>
      cases hpath
      exact .refl
    | cons position path ih =>
      unfold atPath? at hpath
      split at hpath
      · rename_i dependency hposition
        exact .head (List.mem_of_getElem? hposition) (ih hpath)
      · cases hpath

theorem find?_eq_none_iff (p : Program) (name : String) :
    p.find? name = none ↔ ∀ q, p.Sees q → ∀ d ∈ q.types, d.fullName ≠ name := by
  rw [find?_eq_visits, List.find?_eq_none]
  constructor
  · intro h q hq d hd he
    obtain ⟨path, hpath⟩ := sees_iff_atPath?.mp hq
    exact h (path, d) ((mem_visits p path d).mpr ⟨q, hpath, hd⟩) (by simpa [hasName] using he)
  · rintro h ⟨path, d⟩ hmem he
    obtain ⟨q, hq, hd⟩ := (mem_visits p path d).mp hmem
    exact h q (sees_iff_atPath?.mpr ⟨path, hq⟩) d hd (by simpa [hasName] using he)

theorem find?_eq_some_iff (p : Program) (name : String) (path : List Nat) (d : TypeDecl) :
    p.find? name = some (path, d) ↔ d.fullName = name ∧ ∃ before after,
      p.visits = before ++ (path, d) :: after ∧ ∀ v ∈ before, v.2.fullName ≠ name := by
  rw [find?_eq_visits, List.find?_eq_some_iff_append]
  simp [hasName]

/-- Lookup in a program that was put together call by call. It and the programs that it sees have
distinct names, and their indexes lead from each name to its declaration. Only a name that the
index has is refused, and then nothing changes; any other is entered with its position. A name is
not found just if no program in sight declares it, and what is found is the first declaration of
the name in the order of the search. -/
theorem find?_first_visited {p : Program} (hp : p.Built) :
    (∀ q, p.Sees q → (q.types.map TypeDecl.fullName).Nodup ∧
      ∀ name k, q.index.lookup name = some k ↔ ∃ d, q.types[k]? = some d ∧ d.fullName = name) ∧
    (∀ d, (p.index.lookup d.fullName ≠ none ∧
        p.addType d = .error (.duplicateType d.fullName) ∧ p.change (.declare d) = p) ∨
      (p.index.lookup d.fullName = none ∧ ∃ q, p.addType d = .ok q ∧
        p.change (.declare d) = q ∧ q.types = p.types ++ [d] ∧
        q.index = (d.fullName, p.types.length) :: p.index ∧
        q.dependencies = p.dependencies ∧ q.lookupOrder = p.lookupOrder)) ∧
    (∀ name, p.find? name = none ↔ ∀ q, p.Sees q → ∀ d ∈ q.types, d.fullName ≠ name) ∧
    ∀ name path d, p.find? name = some (path, d) ↔ d.fullName = name ∧ ∃ before after,
      p.visits = before ++ (path, d) :: after ∧ ∀ v ∈ before, v.2.fullName ≠ name := by
  refine ⟨fun q hq => ?_, fun d => ?_, p.find?_eq_none_iff, p.find?_eq_some_iff⟩
  · have hnames := (hp.sees hq).distinct
    exact ⟨hnames, hnames.lookup_index⟩
  · have hposition := lookup_index_eq_none_iff p d.fullName
    rcases addType_cases p d with
      ⟨⟨e, he, hname⟩, hd⟩ | ⟨hnew, q, hd, _, htypes, hindex, hdependencies, horder⟩
    · exact .inl ⟨fun hnone => hposition.mp hnone e he hname, hd, by simp only [change, hd]⟩
    · exact .inr ⟨hposition.mpr hnew, q, hd, by simp only [change, hd], htypes, hindex,
        hdependencies, horder⟩

namespace Layers

/-- A declaration that can be told from others of its name. -/
def marked (name mark : String) : TypeDecl :=
  { fullName := name, attributes := [.custom mark []] }

def ground : Program :=
  [.declare (marked "X" "ground"), .declare (marked "Y" "ground")].foldl change
    (.empty "ground")

/-- A program that lets its dependency win. -/
def middle : Program :=
  [.declare (marked "X" "middle"), .depend ground, .reorder .dependenciesFirst,
    .declare (marked "Z" "middle")].foldl change (.empty "middle")

/-- Three programs, each over the one before; the last declaration is refused. -/
def top : Program :=
  [.depend middle, .declare (marked "Y" "top"), .declare (marked "Y" "refused")].foldl change
    (.empty "top")

theorem built_top : top.Built := by
  have hground : ground.Built := .changes _ _ (by simp)
  have hmiddle : middle.Built := .changes _ _ fun q hq => by
    obtain rfl : q = ground := by simpa using hq
    exact hground
  refine .changes _ _ fun q hq => ?_
  obtain rfl : q = middle := by simpa using hq
  exact hmiddle

end Layers

theorem find?_first_visited_layers :
    Layers.top.Built ∧ Layers.top.types = [Layers.marked "Y" "top"] ∧
      Layers.top.find? "X" = some ([0, 0], Layers.marked "X" "ground") ∧
      Layers.top.find? "Y" = some ([], Layers.marked "Y" "top") ∧
      (∃ before after,
        Layers.top.visits = before ++ ([0, 0], Layers.marked "X" "ground") :: after ∧
        ∀ v ∈ before, v.2.fullName ≠ "X") ∧
      ∀ q, Layers.top.Sees q → (q.types.map TypeDecl.fullName).Nodup ∧
        ∀ d ∈ q.types, d.fullName ≠ "W" := by
  obtain ⟨hnames, _, hnone, hsome⟩ := find?_first_visited Layers.built_top
  have hfound : Layers.top.find? "X" = some ([0, 0], Layers.marked "X" "ground") := by decide
  refine ⟨Layers.built_top, by decide, hfound, by decide, ((hsome _ _ _).mp hfound).2,
    fun q hq => ?_⟩
  exact ⟨(hnames q hq).1, (hnone "W").mp (by decide) q hq⟩

end ShaderIR.Program
