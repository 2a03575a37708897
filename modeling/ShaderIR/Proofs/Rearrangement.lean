import ShaderIR.Proofs.MirroredFunctions

/-! Finished sessions that repeat each other's work. Their ids correspond one to one, and their
modules differ by that renaming and by the order of declarations, functions and entry points. -/

namespace ShaderIR

namespace Binary

theorem sameWords_refl {r : UInt32 → UInt32 → Prop} {isId : Nat → Bool}
    (h : ∀ k, isId k = false) (xs : List UInt32) : SameWords r isId xs xs := by
  induction xs generalizing isId with
  | nil => trivial
  | cons x xs ih =>
    refine ⟨?_, ih fun k => h (k + 1)⟩
    rw [h 0]
    rfl

theorem Inst.Matches.left_unique {r : UInt32 → UInt32 → Prop}
    (hr : ∀ x x' y, r x y → r x' y → x = x') {i i' j : Inst} (h : i.Matches r j)
    (h' : i'.Matches r j) : i = i' := by
  obtain ⟨op, words⟩ := i
  obtain ⟨op', words'⟩ := i'
  obtain rfl : op = op' := h.op.trans h'.op.symm
  have hwords := h.operands.flip.right_unique (fun y x x' hx hx' => hr x x' y hx hx')
    h'.operands.flip
  rw [show words = words' from hwords]

@[simp] theorem Inst.length_rename (ρ : UInt32 → UInt32) (i : Inst) :
    (i.rename ρ).length = i.length := by
  simp [Inst.rename, Inst.length]

theorem length_words (code : List Inst) :
    (code.flatMap Inst.words).length = (code.map Inst.length).sum :=
  List.length_flatMap

end Binary

namespace Lowering

open Binary (Op Id Inst results firstIds)

variable {p : Program} {s t : Session} {names : List UInt32}

/-- Sends an id to the one that it stands for. -/
def counterpart (names : List UInt32) (x : UInt32) : UInt32 :=
  names[x.toNat - 1]?.getD x

theorem StandsFor.counterpart_eq (hn : names.length < 0xFFFFFFFF) {x y : UInt32}
    (h : StandsFor names x y) : counterpart names x = y := by
  obtain ⟨k, hk, rfl⟩ := h
  have hlt : k < names.length := (List.getElem?_eq_some_iff.mp hk).1
  rw [counterpart, Binary.toNat_ofNat_succ hn hlt, Nat.add_sub_cancel, hk]
  rfl

theorem StandsFor.of_mem_firstIds {x : UInt32} (hx : x ∈ firstIds names.length) :
    ∃ y, StandsFor names x y := by
  obtain ⟨k, hk, rfl⟩ := List.mem_map.mp hx
  have hlt := List.mem_range.mp hk
  exact ⟨names[k], k, List.getElem?_eq_getElem hlt, rfl⟩

theorem StandsFor.left_mem {x y : UInt32} (h : StandsFor names x y) :
    x ∈ firstIds names.length := by
  obtain ⟨k, hk, rfl⟩ := h
  exact List.mem_map.mpr ⟨k, List.mem_range.mpr (List.getElem?_eq_some_iff.mp hk).1, rfl⟩

/-- Both sessions are finished and each repeats the work of the other. -/
structure Session.Twins (p : Program) (s : Session) (names : List UInt32) (t : Session) :
    Prop where
  left : s.Finished p
  right : t.Finished p
  copies : s.Copies names t
  back : ∃ names', t.Copies names' s

/-- What a module shows of a function. -/
def Function.listing (f : Function) : LocatedMethod × UInt32 × List Inst :=
  (f.method, f.id.val, f.code)

/-- The same with the ids renamed. -/
def Function.renamed (ρ : UInt32 → UInt32) (f : Function) : LocatedMethod × UInt32 × List Inst :=
  (f.method, ρ f.id.val, f.code.map (Inst.rename ρ))

theorem Session.Finished.nodup_code (hs : s.Finished p) : s.code.Nodup := by
  have hresults : (s.code.map Inst.result?).Nodup := by
    rw [show s.code.map Inst.result? = _ from hs.sound.declarations.results_eq_map]
    exact (hs.sound.declarations.nodup_results hs.few).map (Option.some_injective _)
  exact hresults.of_map

namespace Session.Copies

theorem few (hs : s.Finished p) (h : s.Copies names t) : names.length < 0xFFFFFFFF :=
  Nat.lt_of_le_of_lt (h.length_le hs) hs.few

theorem counterpart_eq (hs : s.Finished p) (h : s.Copies names t) (x y : UInt32)
    (hxy : StandsFor names x y) : counterpart names x = y :=
  hxy.counterpart_eq (h.few hs)

/-- Declarations stand for different declarations. -/
theorem code_subperm (hs : s.Finished p) (ht : t.Finished p) (h : s.Copies names t) :
    (t.code.map (Inst.rename (counterpart names))).Subperm s.code := by
  apply List.subperm_of_subset
  · apply ht.nodup_code.map_on
    intro i hi j hj he
    obtain ⟨i', _, hi'⟩ := h.code i hi
    obtain ⟨j', _, hj'⟩ := h.code j hj
    have hsame : i' = j' := by
      rw [← hi'.rename_eq (h.counterpart_eq hs), he, hj'.rename_eq (h.counterpart_eq hs)]
    have hunique : ∀ x x' y, StandsFor names x y → StandsFor names x' y → x = x' :=
      fun _ _ _ hx hx' => h.left_unique hx hx'
    exact hi'.left_unique hunique (hsame ▸ hj')
  · intro j hj
    obtain ⟨i, hi, rfl⟩ := List.mem_map.mp hj
    obtain ⟨i', hmem, hi'⟩ := h.code i hi
    rw [hi'.rename_eq (h.counterpart_eq hs)]
    exact hmem

/-- Functions stand for functions of the same method, and no two are of one method. -/
theorem functions_subperm (hs : s.Finished p) (ht : t.Finished p) (h : s.Copies names t) :
    (t.functionList.map (Function.renamed (counterpart names))).Subperm
      (s.functionList.map Function.listing) := by
  apply List.subperm_of_subset
  · apply List.Nodup.of_map (fun k => k.1.id)
    rw [List.map_map]
    exact ht.distinct
  · intro k hk
    obtain ⟨f, hf, rfl⟩ := List.mem_map.mp hk
    obtain ⟨g, hg, hfg⟩ := h.order f hf
    have hcode : f.code.map (Inst.rename (counterpart names)) = g.code := by
      have hrename := hfg.code.imp fun _ _ hi => hi.rename_eq (h.counterpart_eq hs)
      rw [← List.forall₂_eq_eq_eq, List.forall₂_map_left_iff]
      exact hrename
    refine List.mem_map.mpr ⟨g, hg, ?_⟩
    rw [Function.listing, Function.renamed, hcode, h.counterpart_eq hs _ _ hfg.id, hfg.method]

end Session.Copies

namespace Session.Twins

theorem issued_eq (h : s.Twins p names t) : t.declarations.issued = s.declarations.issued := by
  obtain ⟨names', hback⟩ := h.back
  have hle := h.copies.length_le h.left
  have hge := hback.length_le h.right
  rw [h.copies.issued] at hle
  rw [hback.issued] at hge
  omega

theorem perm_names (h : s.Twins p names t) : names.Perm (firstIds s.declarations.issued) := by
  have hsub := List.subperm_of_subset h.copies.distinct.of_append_left
    (h.copies.names_subset h.left)
  apply hsub.perm_of_length_le
  have hlength := h.copies.issued.trans h.issued_eq
  simp [firstIds, hlength]

theorem mem_results (hs : s.Finished p) (x : UInt32) :
    x ∈ results s.sections ↔ x ∈ firstIds s.declarations.issued := by
  have hcount := hs.sound.ids x
  rw [List.count_nil, Nat.add_zero] at hcount
  rw [hs.sound.results_sections, ← List.count_pos_iff, hcount, List.count_pos_iff]

/-- The ids of the modules correspond one to one. -/
theorem bijOn_counterpart (h : s.Twins p names t) :
    Set.BijOn (counterpart names) {x | x ∈ results t.sections} {x | x ∈ results s.sections} := by
  have heq := h.copies.counterpart_eq h.left
  have hids : ∀ x, x ∈ results t.sections ↔ ∃ y, StandsFor names x y := by
    intro x
    rw [mem_results h.right, ← h.copies.issued]
    exact ⟨StandsFor.of_mem_firstIds, fun ⟨y, hy⟩ => hy.left_mem⟩
  have hnames : ∀ y, y ∈ results s.sections ↔ y ∈ names := by
    intro y
    rw [mem_results h.left, h.perm_names.mem_iff]
  refine ⟨?_, ?_, ?_⟩
  · intro x hx
    obtain ⟨y, hy⟩ := (hids x).mp hx
    rw [heq x y hy]
    exact (hnames y).mpr hy.mem
  · intro x hx x' hx' he
    obtain ⟨y, hy⟩ := (hids x).mp hx
    obtain ⟨y', hy'⟩ := (hids x').mp hx'
    rw [heq x y hy, heq x' y' hy'] at he
    exact h.copies.left_unique hy (he ▸ hy')
  · intro y hy
    obtain ⟨k, hk⟩ := List.getElem?_of_mem ((hnames y).mp hy)
    have hstands : StandsFor names (UInt32.ofNat (k + 1)) y := ⟨k, hk, rfl⟩
    exact ⟨_, (hids _).mpr ⟨y, hstands⟩, heq _ _ hstands⟩

theorem code_perm (h : s.Twins p names t) :
    (t.code.map (Inst.rename (counterpart names))).Perm s.code := by
  obtain ⟨names', hback⟩ := h.back
  apply (h.copies.code_subperm h.left h.right).perm_of_length_le
  simpa using (hback.code_subperm h.right h.left).length_le

theorem functions_perm (h : s.Twins p names t) :
    (t.functionList.map (Function.renamed (counterpart names))).Perm
      (s.functionList.map Function.listing) := by
  obtain ⟨names', hback⟩ := h.back
  apply (h.copies.functions_subperm h.left h.right).perm_of_length_le
  simpa using (hback.functions_subperm h.right h.left).length_le

theorem bodies_perm (h : s.Twins p names t) :
    ((t.functionList.map Function.code).map (List.map (Inst.rename (counterpart names)))).Perm
      (s.functionList.map Function.code) := by
  have hperm := h.functions_perm.map fun k => k.2.2
  simpa [List.map_map, Function.comp_def, Function.renamed, Function.listing] using hperm

/-- Instructions that follow from the method and the id of a function, with that id in them. -/
theorem filterMap_perm (h : s.Twins p names t) (inst : LocatedMethod → UInt32 → Option Inst)
    (hinst : ∀ (ρ : UInt32 → UInt32) m x, (inst m x).map (Inst.rename ρ) = inst m (ρ x)) :
    ((t.functionList.filterMap fun f => inst f.method f.id.val).map
      (Inst.rename (counterpart names))).Perm
      (s.functionList.filterMap fun f => inst f.method f.id.val) := by
  have hperm := h.functions_perm.filterMap fun k => inst k.1 k.2.1
  rw [List.filterMap_map, List.filterMap_map] at hperm
  simp only [List.map_filterMap, hinst]
  exact hperm

theorem entryPoints_perm (h : s.Twins p names t) :
    (t.entryPoints.toList.map (Inst.rename (counterpart names))).Perm s.entryPoints.toList := by
  rw [h.left.sound.entryPoints, h.right.sound.entryPoints]
  refine h.filterMap_perm (fun m x => m.method.kernelSize?.map fun _ =>
    ⟨.entryPoint, 5 :: x :: Binary.nameWords m.fullName⟩) ?_
  intro ρ m x
  have hmatches : Inst.Matches (fun x y => ρ x = y)
      ⟨.entryPoint, 5 :: x :: Binary.nameWords m.fullName⟩
      ⟨.entryPoint, 5 :: ρ x :: Binary.nameWords m.fullName⟩ :=
    ⟨rfl, rfl, rfl, Binary.sameWords_refl (fun _ => rfl) _⟩
  simp only [Option.map_map, Function.comp_def, hmatches.rename_eq fun _ _ hxy => hxy]

theorem modes_perm (h : s.Twins p names t) :
    (t.modes.toList.map (Inst.rename (counterpart names))).Perm s.modes.toList := by
  rw [h.left.sound.modes, h.right.sound.modes]
  refine h.filterMap_perm (fun m x => m.method.kernelSize?.map fun size =>
    ⟨.executionMode, [x, 17, size.1, size.2.1, size.2.2]⟩) ?_
  intro ρ m x
  rw [Option.map_map]
  rfl

/-- The instructions of one module are those of the other, renamed. -/
theorem sections_perm (h : s.Twins p names t) :
    (t.sections.map (Inst.rename (counterpart names))).Perm s.sections := by
  have hbodies := h.bodies_perm.flatten
  rw [← List.map_flatten, ← List.flatMap_def, ← List.flatMap_def] at hbodies
  unfold sections
  simp only [List.map_append]
  exact ((((List.Perm.refl _).append h.entryPoints_perm).append h.modes_perm).append
    h.code_perm).append hbodies

theorem fits (h : s.Twins p names t) {options : Options}
    (hfits : (s.stream options).oversized = none) : (t.stream options).oversized = none := by
  obtain ⟨_, _, hall⟩ := Binary.Stream.emitAll_words hfits
  apply Binary.Stream.oversized_emitAll rfl
  intro i hi
  have hrenamed := hall _ (h.sections_perm.mem_iff.mp (List.mem_map_of_mem hi))
  rw [Inst.fits, Inst.length_rename] at hrenamed
  exact hrenamed

theorem length_words (h : s.Twins p names t) :
    (t.sections.flatMap Inst.words).length = (s.sections.flatMap Inst.words).length := by
  have hsum := (h.sections_perm.map Inst.length).sum_nat
  rw [List.map_map] at hsum
  rw [Binary.length_words, Binary.length_words, ← hsum]
  simp [Function.comp_def]

theorem countP_op (h : s.Twins p names t) (op : Op) :
    t.sections.countP (fun i => i.op = op) = s.sections.countP fun i => i.op = op := by
  rw [← h.sections_perm.countP_eq, List.countP_map]
  rfl

end Session.Twins

end Lowering

end ShaderIR
