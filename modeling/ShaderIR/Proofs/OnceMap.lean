import ShaderIR.OnceMap

/-! Cells of a construct-once table after each operation, and what a table keeps while entries
are constructed: finished entries stay as they are, and claims stay open. -/

namespace ShaderIR.OnceMap

variable {κ ν : Type} [DecidableEq κ]

theorem lookup_setIn (key k : κ) (c : Cell ν) (cells : List (κ × Cell ν)) :
    (setIn key c cells).lookup k = if k = key then some c else cells.lookup k := by
  induction cells with
  | nil =>
    by_cases h : k = key
    · simp [setIn, h]
    · have hb : (k == key) = false := by simpa using h
      simp [setIn, List.lookup_cons, h, hb]
  | cons entry rest ih =>
    obtain ⟨k', c'⟩ := entry
    by_cases h' : k' = key
    · subst h'
      by_cases h : k = k'
      · simp [setIn, h]
      · have hb : (k == k') = false := by simpa using h
        simp [setIn, List.lookup_cons, h, hb]
    · by_cases h : k = k'
      · subst h
        simp [setIn, h']
      · have hb : (k == k') = false := by simpa using h
        simpa [setIn, List.lookup_cons, h', hb] using ih

@[simp] theorem cell?_empty (k : κ) : (empty : OnceMap κ ν).cell? k = none := rfl

@[simp] theorem get?_empty (k : κ) : (empty : OnceMap κ ν).get? k = none := rfl

@[simp] theorem cell?_set (m : OnceMap κ ν) (key k : κ) (c : Cell ν) :
    (m.set key c).cell? k = if k = key then some c else m.cell? k :=
  lookup_setIn key k c m.cells

theorem lookup_filter_ne (key k : κ) (cells : List (κ × Cell ν)) :
    (cells.filter fun entry => decide (entry.1 ≠ key)).lookup k =
      if k = key then none else cells.lookup k := by
  induction cells with
  | nil => simp
  | cons entry rest ih =>
    obtain ⟨k', c'⟩ := entry
    by_cases h' : k' = key
    · subst h'
      by_cases h : k = k'
      · simpa [h] using ih
      · have hb : (k == k') = false := by simpa using h
        simpa [List.lookup_cons, h, hb] using ih
    · by_cases h : k = k'
      · subst h
        simp [h']
      · have hb : (k == k') = false := by simpa using h
        simpa [List.lookup_cons, h', hb] using ih

@[simp] theorem cell?_erase (m : OnceMap κ ν) (key k : κ) :
    (m.erase key).cell? k = if k = key then none else m.cell? k :=
  lookup_filter_ne key k m.cells

theorem setIn_of_forall_ne {key : κ} {cells : List (κ × Cell ν)} (c : Cell ν)
    (h : ∀ entry ∈ cells, entry.1 ≠ key) : setIn key c cells = cells ++ [(key, c)] := by
  induction cells with
  | nil => rfl
  | cons entry rest ih =>
    obtain ⟨hne, hrest⟩ := List.forall_mem_cons.mp h
    rw [setIn, if_neg hne, ih hrest, List.cons_append]

/-- A cell that is set where there was none, and then removed, leaves no trace. -/
theorem erase_set {m : OnceMap κ ν} {key : κ} (h : m.cell? key = none) (c : Cell ν) :
    (m.set key c).erase key = m := by
  have hkeys : ∀ entry ∈ m.cells, entry.1 ≠ key := by
    intro entry hentry he
    have hne := List.lookup_eq_none_iff.mp h entry hentry
    simp [he] at hne
  have hkept : m.cells.filter (fun entry => decide (entry.1 ≠ key)) = m.cells :=
    List.filter_eq_self.mpr fun entry hentry => decide_eq_true (hkeys entry hentry)
  rw [erase, set, setIn_of_forall_ne c hkeys, List.filter_append, hkept]
  simp

theorem get?_eq_some {m : OnceMap κ ν} {k : κ} {v : ν} :
    m.get? k = some v ↔ m.cell? k = some (.ready v) := by
  unfold get?
  rcases m.cell? k with _ | _ | _ | w <;> simp

theorem claim_found {m : OnceMap κ ν} {key : κ} {v : ν} (h : m.claim key = .found v) :
    m.get? key = some v := by
  rw [get?_eq_some]
  unfold claim at h
  rcases hc : m.cell? key with _ | _ | _ | w <;> simp_all

theorem claim_reentrant {m : OnceMap κ ν} {key : κ} (h : m.claim key = .reentrant) :
    m.cell? key = some .building := by
  unfold claim at h
  rcases hc : m.cell? key with _ | _ | _ | w <;> simp_all

theorem claim_granted {m claimed : OnceMap κ ν} {key : κ} (h : m.claim key = .granted claimed) :
    claimed = m.set key .building ∧ m.get? key = none ∧ m.cell? key ≠ some .building := by
  unfold claim at h
  unfold get?
  rcases hc : m.cell? key with _ | _ | _ | w <;> simp_all

/-- Where every cell is finished, a claim finds the entry or is granted a cell of its own. -/
theorem claim_of_settled {m : OnceMap κ ν} (hsettled : ∀ k c, m.cell? k = some c → ∃ v, c = .ready v)
    (key : κ) :
    (∃ v, m.get? key = some v ∧ m.claim key = .found v) ∨
      m.get? key = none ∧ m.cell? key = none ∧ m.claim key = .granted (m.set key .building) := by
  unfold get? claim
  cases hc : m.cell? key with
  | none => exact .inr ⟨rfl, rfl, rfl⟩
  | some c =>
    obtain ⟨v, rfl⟩ := hsettled key c hc
    exact .inl ⟨v, rfl, rfl⟩

/-- What a table holds after one of its cells was filled. -/
theorem get?_of_cell? {m filled : OnceMap κ ν} {key : κ} {v : ν}
    (h : ∀ k, filled.cell? k = if k = key then some (.ready v) else m.cell? k) (k : κ) :
    filled.get? k = if k = key then some v else m.get? k := by
  rw [get?, h]
  by_cases hk : k = key
  · simp [hk]
  · simp only [hk, if_false]
    rfl

theorem get?_of_claimed {m claimed : OnceMap κ ν} {key k : κ} {v : ν}
    (hc : m.claim key = .granted claimed) (h : claimed.get? k = some v) : m.get? k = some v := by
  obtain ⟨rfl, _, _⟩ := claim_granted hc
  rw [get?_eq_some, cell?_set] at h
  rw [get?_eq_some]
  by_cases hk : k = key
  · simp [hk] at h
  · simpa [hk] using h

theorem get?_of_erase {m : OnceMap κ ν} {key k : κ} {v : ν} (h : (m.erase key).get? k = some v) :
    m.get? k = some v := by
  rw [get?_eq_some, cell?_erase] at h
  rw [get?_eq_some]
  by_cases hk : k = key
  · simp [hk] at h
  · simpa [hk] using h

theorem get?_of_set_ready {m : OnceMap κ ν} {key k : κ} {v w : ν}
    (h : (m.set key (.ready v)).get? k = some w) : k = key ∧ w = v ∨ m.get? k = some w := by
  rw [get?_eq_some, cell?_set] at h
  rw [get?_eq_some]
  by_cases hk : k = key
  · simp only [hk, if_true, Option.some.injEq, Cell.ready.injEq] at h
    exact .inl ⟨hk, h.symm⟩
  · simp only [hk, if_false] at h
    exact .inr h

theorem get?_set_ready (m : OnceMap κ ν) (key : κ) (v : ν) :
    (m.set key (.ready v)).get? key = some v := by
  simp [get?_eq_some]

theorem get?_set_of_get? {m : OnceMap κ ν} {key k : κ} {c : Cell ν} {v : ν}
    (hnone : m.get? key = none) (h : m.get? k = some v) : (m.set key c).get? k = some v := by
  have hne : k ≠ key := by
    rintro rfl
    simp [hnone] at h
  rw [get?_eq_some] at h ⊢
  simpa [hne] using h

/-- Claiming a cell does not change the finished ones. -/
theorem get?_claimed {m claimed : OnceMap κ ν} {key : κ} (hc : m.claim key = .granted claimed)
    (k : κ) : claimed.get? k = m.get? k := by
  obtain ⟨rfl, hnone, _⟩ := claim_granted hc
  by_cases hk : k = key
  · subst hk
    rw [hnone]
    simp [get?]
  · simp [get?, hk]

theorem get?_eq_none_of_building {m : OnceMap κ ν} {key : κ}
    (h : m.cell? key = some .building) : m.get? key = none := by
  simp [get?, h]

/-- Giving up a cell under construction does not change the finished ones. -/
theorem get?_erase_of_building {m : OnceMap κ ν} {key : κ} (h : m.cell? key = some .building)
    (k : κ) : (m.erase key).get? k = m.get? k := by
  by_cases hk : k = key
  · subst hk
    simp [get?, h]
  · simp [get?, hk]

/-- What every request to a table keeps. -/
structure Grows (m m' : OnceMap κ ν) : Prop where
  ready : ∀ k v, m.get? k = some v → m'.get? k = some v
  building : ∀ k, m.cell? k = some .building ↔ m'.cell? k = some .building

theorem Grows.refl (m : OnceMap κ ν) : m.Grows m :=
  ⟨fun _ _ h => h, fun _ => Iff.rfl⟩

theorem Grows.trans {m₁ m₂ m₃ : OnceMap κ ν} (h : m₁.Grows m₂) (h' : m₂.Grows m₃) :
    m₁.Grows m₃ :=
  ⟨fun k v hk => h'.ready k v (h.ready k v hk), fun k => (h.building k).trans (h'.building k)⟩

/-- Settling a claim, in either way, keeps what the table had before the claim: the claimed cell
was neither finished nor under construction then, and stays open until it is settled. -/
theorem Grows.settle {m claimed after : OnceMap κ ν} {key : κ}
    (hc : m.claim key = .granted claimed) (hg : claimed.Grows after) (cell : Option (Cell ν))
    (hcell : cell ≠ some .building) {settled : OnceMap κ ν}
    (hs : ∀ k, settled.cell? k = if k = key then cell else after.cell? k) : m.Grows settled := by
  obtain ⟨rfl, hnone, hopen⟩ := claim_granted hc
  constructor
  · intro k v hk
    have hne : k ≠ key := by
      rintro rfl
      simp [hnone] at hk
    have hk' : (m.set key .building).get? k = some v := by
      rw [get?_eq_some] at hk ⊢
      simpa [hne] using hk
    have hv := hg.ready k v hk'
    rw [get?_eq_some] at hv ⊢
    simpa [hs, hne] using hv
  · intro k
    by_cases hk : k = key
    · subst hk
      simp [hs, hopen, hcell]
    · have hb := hg.building k
      simpa [hs, hk] using hb

end ShaderIR.OnceMap
