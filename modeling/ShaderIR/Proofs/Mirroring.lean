import ShaderIR.Proofs.EmittedFunctions
import ShaderIR.Proofs.Renaming
import ShaderIR.Proofs.TypeSection

/-! A session that repeats the work of a finished one in another order. Each id that is handed out
stands for an id of the finished session: declarations for the equal declaration there, structs for
the struct of their type, and the ids of a function for those of the function of its method, in
order. -/

namespace ShaderIR.Lowering

open Binary (Op Id Inst results firstIds)

/-- The ids that the ids handed out so far stand for are listed in order. -/
def StandsFor (names : List UInt32) (x y : UInt32) : Prop :=
  ∃ k, names[k]? = some y ∧ x = UInt32.ofNat (k + 1)

namespace StandsFor

variable {names names' : List UInt32} {x x' y y' : UInt32}

theorem mono (h : names <+: names') (x y : UInt32) (hxy : StandsFor names x y) :
    StandsFor names' x y := by
  obtain ⟨k, hk, hx⟩ := hxy
  obtain ⟨rest, rfl⟩ := h
  have hlt : k < names.length := (List.getElem?_eq_some_iff.mp hk).1
  exact ⟨k, by rw [List.getElem?_append_left hlt]; exact hk, hx⟩

theorem last (names : List UInt32) (y : UInt32) :
    StandsFor (names ++ [y]) (UInt32.ofNat (names.length + 1)) y :=
  ⟨names.length, by simp, rfl⟩

theorem mem (h : StandsFor names x y) : y ∈ names := by
  obtain ⟨k, hk, _⟩ := h
  exact List.mem_of_getElem? hk

theorem left_unique (hnd : names.Nodup) (h : StandsFor names x y) (h' : StandsFor names x' y) :
    x = x' := by
  obtain ⟨k, hk, hx⟩ := h
  obtain ⟨k', hk', hx'⟩ := h'
  have hlt : k < names.length := (List.getElem?_eq_some_iff.mp hk).1
  have hkk : k = k' := (List.getElem?_inj hlt hnd).mp (hk.trans hk'.symm)
  rw [hx, hx', hkk]

theorem right_unique (hn : names.length < 0xFFFFFFFF) (h : StandsFor names x y)
    (h' : StandsFor names x y') : y = y' := by
  obtain ⟨k, hk, hx⟩ := h
  obtain ⟨k', hk', hx'⟩ := h'
  have hlt : k < names.length := (List.getElem?_eq_some_iff.mp hk).1
  have hlt' : k' < names.length := (List.getElem?_eq_some_iff.mp hk').1
  have hnat := congrArg UInt32.toNat (hx.symm.trans hx')
  rw [Binary.toNat_ofNat_succ hn hlt, Binary.toNat_ofNat_succ hn hlt'] at hnat
  obtain rfl : k = k' := by omega
  exact Option.some.inj (hk.symm.trans hk')

end StandsFor

/-- A session at rest: all its ids are in its code, and no two functions are of one method. -/
structure Session.Finished (p : Program) (s : Session) : Prop where
  sound : s.Sound p p.Locates []
  few : s.declarations.issued < 0xFFFFFFFF
  distinct : (s.functionList.map fun f => f.method.id).Nodup

/-- The cells that are under construction. -/
structure OpenCells where
  types : Ty → Prop
  methods : MethodId → Prop

/-- The function of the method has been asked for. -/
def Session.Begun (t : Session) (id : MethodId) : Prop :=
  t.functions.cell? id = some .building ∨ ∃ f, t.functions.get? id = some f

/-- What an id of the finished session `s` is for has been made in `t`, or is being made there. -/
inductive Session.Accounts (s t : Session) (r : UInt32 → UInt32 → Prop) : UInt32 → Prop
  | shared {k k' : DeclarationKey} {x y : Id} (hx : (k, x) ∈ t.declarations.shared)
      (hy : (k', y) ∈ s.declarations.shared) (hk : k.Matches r k') : Accounts s t r y.val
  | struct {ty : Ty} {a b : LoweredType} {members : List LoweredType} (ha : t.Lowered ty a)
      (hb : s.Lowered ty b) (hs : b.shape = .struct members) : Accounts s t r b.id.val
  | function {g : Function} {y : UInt32} (hg : g ∈ s.functionList) (hy : y ∈ results g.code)
      (hb : t.Begun g.method.id) : Accounts s t r y

/-- The session `t` repeats work of the finished session `s`. Its ids stand for the ids `names`;
the ids `reserved` are for those that code under construction will take next. -/
structure Session.Mirrors (s : Session) (cells : OpenCells) (reserved names : List UInt32)
    (t : Session) : Prop where
  issued : names.length = t.declarations.issued
  distinct : (names ++ reserved).Nodup
  accounts : ∀ y ∈ names ++ reserved, s.Accounts t (StandsFor names) y
  shared : ∀ k x, (k, x) ∈ t.declarations.shared → ∃ k' y, (k', y) ∈ s.declarations.shared ∧
    k.Matches (StandsFor names) k' ∧ StandsFor names x.val y.val
  code : ∀ i ∈ t.code, ∃ j ∈ s.code, i.Matches (StandsFor names) j
  types : ∀ ty a, t.Lowered ty a → ∃ b, s.Lowered ty b ∧ a.Matches (StandsFor names) b
  functions : ∀ id f, t.functions.get? id = some f →
    ∃ g ∈ s.functionList, g.method.id = id ∧ f.Matches (StandsFor names) g
  order : ∀ f ∈ t.functionList, ∃ g ∈ s.functionList, f.Matches (StandsFor names) g
  openTypes : ∀ ty, t.types.cell? ty = some .building ↔ cells.types ty
  openMethods : ∀ id, t.functions.cell? id = some .building ↔ cells.methods id

theorem Function.Matches.mono {r r' : UInt32 → UInt32 → Prop} {f g : Function}
    (hr : ∀ x y, r x y → r' x y) (h : f.Matches r g) : f.Matches r' g where
  id := hr _ _ h.id
  method := h.method
  returnType := h.returnType.mono hr
  parameters := h.parameters.imp fun _ _ ht => ht.mono hr
  code := h.code.imp fun _ _ hi => hi.mono hr

namespace Session

variable {p : Program} {s t u : Session} {cells : OpenCells} {reserved names : List UInt32}

theorem Accounts.mono {r r' : UInt32 → UInt32 → Prop} {y : UInt32} (h : s.Accounts t r y)
    (hr : ∀ x y, r x y → r' x y) (hshared : t.declarations.shared ⊆ u.declarations.shared)
    (hlowered : ∀ ty a, t.Lowered ty a → u.Lowered ty a)
    (hbegun : ∀ id, t.Begun id → u.Begun id) : s.Accounts u r' y := by
  cases h with
  | shared hx hy hk => exact .shared (hshared hx) hy (hk.mono hr)
  | struct ha hb hs => exact .struct (hlowered _ _ ha) hb hs
  | function hg hy hb => exact .function hg hy (hbegun _ hb)

theorem results_flatMap (fs : List Function) :
    results (fs.flatMap Function.code) = fs.flatMap fun f => results f.code :=
  List.filterMap_flatMap

namespace Finished

theorem nodup_defined (hs : s.Finished p) : s.defined.Nodup := by
  rw [← hs.sound.results_sections]
  exact hs.sound.nodup_sections hs.few

theorem nodup_append (hs : s.Finished p) :
    (results s.code ++ s.functionList.flatMap fun f => results f.code).Nodup := by
  have hnd := hs.nodup_defined
  unfold defined at hnd
  rw [results_flatMap] at hnd
  exact hnd

/-- The ids of declarations are not those of functions. -/
theorem not_mem_code (hs : s.Finished p) {g : Function} (hg : g ∈ s.functionList) {y : UInt32}
    (hy : y ∈ results g.code) : y ∉ results s.code := by
  intro hcode
  exact List.disjoint_of_nodup_append hs.nodup_append hcode (List.mem_flatMap.mpr ⟨g, hg, hy⟩)

theorem nodup_results (hs : s.Finished p) {g : Function} (hg : g ∈ s.functionList) :
    (results g.code).Nodup :=
  (List.nodup_flatMap.mp hs.nodup_append.of_append_right).1 g hg

theorem eq_of_mem_results (hs : s.Finished p) {g g' : Function} (hg : g ∈ s.functionList)
    (hg' : g' ∈ s.functionList) {y : UInt32} (hy : y ∈ results g.code)
    (hy' : y ∈ results g'.code) : g = g' := by
  have hdisjoint := (List.nodup_flatMap.mp hs.nodup_append.of_append_right).2
  by_contra hne
  have : Std.Symm (Function.onFun List.Disjoint fun f => results (Function.code f)) :=
    ⟨fun _ _ hd => hd.symm⟩
  exact hdisjoint.forall hg hg' hne hy hy'

theorem eq_of_method_id_eq (hs : s.Finished p) {g g' : Function} (hg : g ∈ s.functionList)
    (hg' : g' ∈ s.functionList) (h : g.method.id = g'.method.id) : g = g' :=
  List.inj_on_of_nodup_map hs.distinct hg hg' h

/-- A shared declaration. -/
theorem declared_of_shared (hs : s.Finished p) {k : DeclarationKey} {y : Id}
    (h : (k, y) ∈ s.declarations.shared) :
    k.inst y ∈ s.code ∧ k.op ≠ .typeStruct ∧ declaration? (k.inst y) = some (k, y) ∧
      (k.inst y).result? = some y.val := by
  obtain ⟨i, hi, hop, hd⟩ := hs.sound.declarations.mem_shared_iff.mp h
  obtain ⟨k', id, rfl, hd', hresult⟩ := (hs.sound.declarations.forms i hi).exists_key
  rw [hd] at hd'
  cases hd'
  exact ⟨hi, hop, hd, hresult⟩

end Finished

theorem Accounts.mem_defined (hs : s.Finished p) {r : UInt32 → UInt32 → Prop} {y : UInt32}
    (h : s.Accounts t r y) : y ∈ s.defined := by
  cases h with
  | shared _ hy _ =>
    obtain ⟨hi, _, _, hresult⟩ := hs.declared_of_shared hy
    exact List.mem_append_left _ (Binary.result_mem hi hresult)
  | struct _ hb _ => exact List.mem_append_left _ (hs.sound.types _ _ hb).declared.id_mem
  | function hg hy _ =>
    apply List.mem_append_right
    rw [results_flatMap]
    exact List.mem_flatMap.mpr ⟨_, hg, hy⟩

namespace Mirrors

theorem names_subset (hs : s.Finished p) (h : s.Mirrors cells reserved names t) :
    names ⊆ firstIds s.declarations.issued := by
  intro y hy
  have hdefined := (h.accounts y (List.mem_append_left _ hy)).mem_defined hs
  have hcount := hs.sound.ids y
  have hpos : 0 < s.defined.count y := List.count_pos_iff.mpr hdefined
  exact List.count_pos_iff.mp (by omega)

theorem length_le (hs : s.Finished p) (h : s.Mirrors cells reserved names t) :
    names.length ≤ s.declarations.issued := by
  have hle := (List.subperm_of_subset h.distinct.of_append_left (h.names_subset hs)).length_le
  simpa [firstIds] using hle

theorem left_unique (h : s.Mirrors cells reserved names t) {x x' y : UInt32}
    (hx : StandsFor names x y) (hx' : StandsFor names x' y) : x = x' :=
  hx.left_unique h.distinct.of_append_left hx'

theorem right_unique (hs : s.Finished p) (h : s.Mirrors cells reserved names t) {x y y' : UInt32}
    (hy : StandsFor names x y) (hy' : StandsFor names x y') : y = y' :=
  hy.right_unique (Nat.lt_of_le_of_lt (h.length_le hs) hs.few) hy'

end Mirrors

namespace Mirrors

theorem withJournal (h : s.Mirrors cells reserved names t) (j : Journal) :
    s.Mirrors cells reserved names { t with journal := j } where
  issued := h.issued
  distinct := h.distinct
  accounts := fun y hy => (h.accounts y hy).mono (fun _ _ hxy => hxy) (List.Subset.refl _)
    (fun _ _ ha => ha) fun _ hb => hb
  shared := h.shared
  code := h.code
  types := h.types
  functions := h.functions
  order := h.order
  openTypes := h.openTypes
  openMethods := h.openMethods

/-- More declarations may be made and more types lowered if each new id is accounted for. -/
theorem extend (h : s.Mirrors cells reserved names t) {reserved' names' : List UInt32}
    {d : Declarations} {types : OnceMap Ty LoweredType} {openTypes : Ty → Prop}
    (hnames : names <+: names') (hissued : names'.length = d.issued)
    (hdistinct : (names' ++ reserved').Nodup)
    (haccounts : ∀ y ∈ names' ++ reserved', y ∈ names ++ reserved ∨
      s.Accounts { t with declarations := d, types := types } (StandsFor names') y)
    (hkeep : t.declarations.shared ⊆ d.shared)
    (hshared : ∀ k x, (k, x) ∈ d.shared → (k, x) ∈ t.declarations.shared ∨
      ∃ k' y, (k', y) ∈ s.declarations.shared ∧ k.Matches (StandsFor names') k' ∧
        StandsFor names' x.val y.val)
    (hcode : ∀ i ∈ d.code.toList, i ∈ t.code ∨ ∃ j ∈ s.code, i.Matches (StandsFor names') j)
    (hlowered : ∀ ty a, t.Lowered ty a → types.get? ty = some a)
    (htypes : ∀ ty a, types.get? ty = some a → t.Lowered ty a ∨
      ∃ b, s.Lowered ty b ∧ a.Matches (StandsFor names') b)
    (hopen : ∀ ty, types.cell? ty = some .building ↔ openTypes ty) :
    s.Mirrors ⟨openTypes, cells.methods⟩ reserved' names'
      { t with declarations := d, types := types } where
  issued := hissued
  distinct := hdistinct
  accounts := by
    intro y hy
    rcases haccounts y hy with hold | hnew
    · exact (h.accounts y hold).mono (StandsFor.mono hnames) hkeep hlowered fun _ hb => hb
    · exact hnew
  shared := by
    intro k x hk
    rcases hshared k x hk with hold | hnew
    · obtain ⟨k', y, hy, hkk, hxy⟩ := h.shared k x hold
      exact ⟨k', y, hy, hkk.mono (StandsFor.mono hnames), StandsFor.mono hnames _ _ hxy⟩
    · exact hnew
  code := by
    intro i hi
    rcases hcode i hi with hold | hnew
    · obtain ⟨j, hj, hij⟩ := h.code i hold
      exact ⟨j, hj, hij.mono (StandsFor.mono hnames)⟩
    · exact hnew
  types := by
    intro ty a ha
    rcases htypes ty a ha with hold | hnew
    · obtain ⟨b, hb, hab⟩ := h.types ty a hold
      exact ⟨b, hb, hab.mono (StandsFor.mono hnames)⟩
    · exact hnew
  functions := by
    intro id f hf
    obtain ⟨g, hg, hid, hfg⟩ := h.functions id f hf
    exact ⟨g, hg, hid, hfg.mono (StandsFor.mono hnames)⟩
  order := by
    intro f hf
    obtain ⟨g, hg, hfg⟩ := h.order f hf
    exact ⟨g, hg, hfg.mono (StandsFor.mono hnames)⟩
  openTypes := hopen
  openMethods := h.openMethods

end Mirrors

end Session

variable {α β : Type} {enough : Prop}

/-- Run from `t`, the request ends in a session and with names that satisfy `post`. It does not
fail, except that it stops where it is not allowed to go deep enough. -/
def Repeats (enough : Prop) (w : M α) (t : Session) (names : List UInt32)
    (post : α → List UInt32 → Session → Prop) : Prop :=
  w.Ends t (fun a u => ∃ names', names <+: names' ∧ post a names' u)
    (fun e _ => e = .tooDeep ∧ ¬ enough)

namespace Repeats

variable {w : M α} {t : Session} {names : List UInt32} {post : α → List UInt32 → Session → Prop}

theorem pure {a : α} (h : post a names t) : Repeats enough (pure a) t names post :=
  ⟨names, List.prefix_rfl, h⟩

theorem bind {f : α → M β} {post' : β → List UInt32 → Session → Prop}
    (h : Repeats enough w t names post)
    (hf : ∀ a names' u, names <+: names' → post a names' u → Repeats enough (f a) u names' post') :
    Repeats enough (w >>= f) t names post' := by
  refine Walk.Ends.andThen h ?_
  intro a u hu
  obtain ⟨names', hnames, ha⟩ := hu
  refine Walk.Ends.mono (hf a names' u hnames ha) ?_ fun _ _ he => he
  intro b v hv
  obtain ⟨names'', hnames', hb⟩ := hv
  exact ⟨names'', hnames.trans hnames', hb⟩

theorem weaken {enough' : Prop} (h : Repeats enough w t names post) (he : enough' → enough) :
    Repeats enough' w t names post :=
  Walk.Ends.mono h (fun _ _ hu => hu) fun _ _ hstop => ⟨hstop.1, fun h' => hstop.2 (he h')⟩

end Repeats

variable {p : Program} {s t : Session} {cells : OpenCells} {reserved names : List UInt32}

theorem repeats_log (h : s.Mirrors cells reserved names t) (e : LogEntry) :
    Repeats enough (log e) t names fun _ names' u => names' = names ∧
      s.Mirrors cells reserved names' u :=
  ⟨names, List.prefix_rfl, rfl, h.withJournal _⟩

/-- A fresh id stands for the next one that is reserved. -/
theorem repeats_fresh {y : UInt32} (h : s.Mirrors cells (y :: reserved) names t) :
    Repeats enough fresh t names fun x names' u =>
      s.Mirrors cells reserved names' u ∧ StandsFor names' x.val y := by
  have hsplit : names ++ [y] ++ reserved = names ++ y :: reserved := by simp
  have hmirrors : s.Mirrors cells reserved (names ++ [y])
      { t with declarations := { t.declarations with issued := t.declarations.issued + 1 } } :=
    h.extend (List.prefix_append _ _) (by simp [h.issued]) (hsplit ▸ h.distinct)
      (fun z hz => .inl (hsplit ▸ hz)) (List.Subset.refl _) (fun _ _ hk => .inl hk)
      (fun _ hi => .inl hi) (fun _ _ ha => ha) (fun _ _ ha => .inl ha) h.openTypes
  have hstands := StandsFor.last names y
  rw [h.issued] at hstands
  exact ⟨names ++ [y], List.prefix_append _ _, hmirrors, hstands⟩

/-- Once the id of a shared declaration is taken, the declaration has been made. -/
theorem Session.Mirrors.lookup_ne_none (hs : s.Finished p) (h : s.Mirrors cells reserved names t)
    {k k' : DeclarationKey} {y : Id} (hk : k.Matches (StandsFor names) k')
    (hy : (k', y) ∈ s.declarations.shared) (hmem : y.val ∈ names ++ reserved) :
    t.declarations.shared.lookup k ≠ none := by
  have hnd := hs.nodup_defined.of_append_left
  obtain ⟨hi, hop, hd, hresult⟩ := hs.declared_of_shared hy
  have haccounts := h.accounts y.val hmem
  generalize y.val = z at haccounts hresult
  cases haccounts with
  | @shared k₂ k₂' x₂ y₂ hx₂ hy₂ hk₂ =>
    obtain ⟨hi₂, _, hd₂, hresult₂⟩ := hs.declared_of_shared hy₂
    rw [Binary.eq_of_result_eq hnd hi hi₂ hresult hresult₂, hd₂] at hd
    cases hd
    have hunique : ∀ y x x', flip (StandsFor names) y x → flip (StandsFor names) y x' → x = x' :=
      fun _ _ _ hx hx' => h.left_unique hx hx'
    have hkeys : k = k₂ := hk.flip.right_unique hunique hk₂.flip
    intro hnone
    have hne := List.lookup_eq_none_iff.mp hnone (k₂, x₂) hx₂
    simp [hkeys] at hne
  | @struct ty a b members ha hb hshape =>
    have hdeclared := (hs.sound.types ty b hb).declared.here
    have he := Binary.eq_of_result_eq hnd hi hdeclared hresult (b.shape.key_result b.id)
    rw [hshape] at he
    exact absurd (congrArg Inst.op he) hop
  | function hg hz _ => exact absurd (Binary.result_mem hi hresult) (hs.not_mem_code hg hz)

theorem nodup_insert {y : UInt32} (hnd : (names ++ reserved).Nodup) (hy : y ∉ names ++ reserved) :
    (names ++ [y] ++ reserved).Nodup ∧
      ∀ z ∈ names ++ [y] ++ reserved, z ∈ names ++ reserved ∨ z = y := by
  rw [List.append_assoc, List.singleton_append, List.nodup_middle, List.nodup_cons]
  refine ⟨⟨hy, hnd⟩, ?_⟩
  intro z hz
  rw [List.mem_append, List.mem_cons] at hz
  rw [List.mem_append]
  rcases hz with hz | rfl | hz
  · exact .inl (.inl hz)
  · exact .inr rfl
  · exact .inl (.inr hz)

/-- What the finished session declares once is declared once, under an id that stands for its. -/
theorem repeats_intern (hs : s.Finished p) (h : s.Mirrors cells reserved names t)
    {k k' : DeclarationKey} {y : Id} (hk : k.Matches (StandsFor names) k')
    (hy : (k', y) ∈ s.declarations.shared) :
    Repeats enough (declaring (Declarations.intern k)) t names fun x names' u =>
      s.Mirrors cells reserved names' u ∧ StandsFor names' x.val y.val := by
  have ho : (declaring (Declarations.intern k)).outcome t =
      (.ok ((Declarations.intern k).run t.declarations).1,
        { t with declarations := ((Declarations.intern k).run t.declarations).2 }) := rfl
  unfold Repeats Walk.Ends
  rw [ho, intern_run]
  cases hlookup : t.declarations.shared.lookup k with
  | some x =>
    obtain ⟨l, l', hl, _⟩ := List.lookup_eq_some_iff.mp hlookup
    obtain ⟨k₂, y₂, hy₂, hk₂, hxy₂⟩ := h.shared k x (by simp [hl])
    have hunique : ∀ x y y', StandsFor names x y → StandsFor names x y' → y = y' :=
      fun _ _ _ h₁ h₂ => h.right_unique hs h₁ h₂
    obtain rfl : k' = k₂ := hk.right_unique hunique hk₂
    rw [← hs.sound.declarations.lookup_eq_some_iff] at hy hy₂
    obtain rfl : y = y₂ := Option.some.inj (hy.symm.trans hy₂)
    exact ⟨names, List.prefix_rfl, h, hxy₂⟩
  | none =>
    have hnew : y.val ∉ names ++ reserved := fun hmem => h.lookup_ne_none hs hk hy hmem hlookup
    have hprefix : names <+: names ++ [y.val] := List.prefix_append _ _
    have hk' := hk.mono (StandsFor.mono hprefix)
    have hstands := StandsFor.last names y.val
    rw [h.issued] at hstands
    obtain ⟨hi, _, hd, _⟩ := hs.declared_of_shared hy
    refine ⟨names ++ [y.val], hprefix, ?_, hstands⟩
    obtain ⟨hdistinct, hmem⟩ := nodup_insert h.distinct hnew
    refine h.extend hprefix (by simp [h.issued]) hdistinct ?_ (List.subset_cons_self _ _) ?_ ?_
      (fun _ _ ha => ha) (fun _ _ ha => .inl ha) h.openTypes
    · intro z hz
      rcases hmem z hz with hold | rfl
      · exact .inl hold
      · exact .inr (.shared List.mem_cons_self hy hk')
    · intro k₂ x₂ hmem
      rcases List.mem_cons.mp hmem with he | hold
      · cases he
        exact .inr ⟨k', y, hy, hk', hstands⟩
      · exact .inl hold
    · intro i hmem
      rw [Array.toList_push, List.mem_append, List.mem_singleton] at hmem
      rcases hmem with hold | rfl
      · exact .inl hold
      · exact .inr ⟨k'.inst y, hi, hk'.inst hstands hd⟩

theorem repeats_pointer (hs : s.Finished p) (h : s.Mirrors cells reserved names t)
    {a b : LoweredType} (hab : StandsFor names a.id.val b.id.val) {pointer : Id}
    (hi : pointerInst pointer b.id ∈ s.code) :
    Repeats enough (declaring (Declarations.pointer a)) t names fun x names' u =>
      s.Mirrors cells reserved names' u ∧ StandsFor names' x.val pointer.val := by
  have hk : DeclarationKey.Matches (StandsFor names) ⟨.typePointer, none, [7, a.id.val]⟩
      ⟨.typePointer, none, [7, b.id.val]⟩ := ⟨rfl, .none, rfl, hab, trivial⟩
  exact repeats_intern hs h hk
    (hs.sound.declarations.mem_shared_iff.mpr ⟨_, hi, by simp [pointerInst], rfl⟩)

theorem repeats_constant (hs : s.Finished p) (h : s.Mirrors cells reserved names t)
    {a : LoweredType} {type constant : Id} (hab : StandsFor names a.id.val type.val)
    {bits : UInt32} (hi : constantInst type constant bits ∈ s.code) :
    Repeats enough (declaring (Declarations.constant a bits)) t names fun x names' u =>
      s.Mirrors cells reserved names' u ∧ StandsFor names' x.val constant.val := by
  have hk : DeclarationKey.Matches (StandsFor names) ⟨.constant, some a.id, [bits]⟩
      ⟨.constant, some type, [bits]⟩ := ⟨rfl, .some hab, rfl, trivial⟩
  exact repeats_intern hs h hk
    (hs.sound.declarations.mem_shared_iff.mpr ⟨_, hi, by simp [constantInst], rfl⟩)

theorem repeats_function (hs : s.Finished p) (h : s.Mirrors cells reserved names t)
    {returnType returnType' : LoweredType} {parameters parameters' : List LoweredType}
    (hr : returnType.Matches (StandsFor names) returnType')
    (hp : List.Forall₂ (LoweredType.Matches (StandsFor names)) parameters parameters') {y : Id}
    (hi : ⟨.typeFunction, y.val :: returnType'.id.val :: parameters'.map fun t => t.id.val⟩ ∈
      s.code) :
    Repeats enough (declaring (Declarations.function returnType parameters)) t names
      fun x names' u => s.Mirrors cells reserved names' u ∧ StandsFor names' x.val y.val := by
  have hids : List.Forall₂ (StandsFor names) (parameters.map fun t => t.id.val)
      (parameters'.map fun t => t.id.val) := by
    rw [List.forall₂_map_left_iff, List.forall₂_map_right_iff]
    exact hp.imp fun _ _ ht => ht.id
  have hk : DeclarationKey.Matches (StandsFor names)
      ⟨.typeFunction, none, returnType.id.val :: parameters.map fun t => t.id.val⟩
      ⟨.typeFunction, none, returnType'.id.val :: parameters'.map fun t => t.id.val⟩ :=
    ⟨rfl, .none, hr.id, Binary.sameWords_of_forall₂ (fun _ => rfl) hids⟩
  exact repeats_intern hs h hk
    (hs.sound.declarations.mem_shared_iff.mpr ⟨_, hi, by simp, rfl⟩)

/-- A type that is not a struct is declared along with one whose parts match. -/
theorem repeats_shape (hs : s.Finished p) (h : s.Mirrors cells reserved names t)
    (shape : Shape LoweredType) {b : LoweredType} (ho : shape.outline = b.shape.outline)
    (hp : List.Forall₂ (LoweredType.MatchesPart (StandsFor names)) shape.parts b.shape.parts)
    (hi : b.shape.key.inst b.id ∈ s.code) (hop : b.shape.key.op ≠ .typeStruct) (name : String) :
    Repeats enough
      (do return (⟨← declaring (Declarations.intern shape.key), name, shape⟩ : LoweredType)) t names
      fun a names' u => s.Mirrors cells reserved names' u ∧ a.Matches (StandsFor names') b := by
  have hshared : (b.shape.key, b.id) ∈ s.declarations.shared :=
    hs.sound.declarations.mem_shared_iff.mpr ⟨_, hi, hop, b.shape.key_declaration b.id⟩
  refine (repeats_intern hs h (.key ho hp) hshared).bind ?_
  intro id names' u hnames hu
  have hparts := hp.imp fun _ _ hxy => hxy.mono (StandsFor.mono hnames)
  exact .pure ⟨hu.1, ⟨hu.2, ho⟩, hparts⟩

theorem repeats_construct (h : s.Mirrors cells reserved names t) {ty : Ty} {i : TypeInstance}
    (hi : p.construct ty = .ok i) :
    Repeats enough (construct p ty) t names fun j names' u => j = i ∧ names' = names ∧
      s.Mirrors cells reserved names' u := by
  unfold construct
  rw [hi]
  exact ⟨names, List.prefix_rfl, rfl, rfl, h.withJournal _⟩

theorem repeats_resolve (h : s.Mirrors cells reserved names t) {r : MethodRef}
    {target : MethodInstance} (hr : p.resolve r = .ok target) :
    Repeats enough (resolve p r) t names fun j names' u => j = target ∧ names' = names ∧
      s.Mirrors cells reserved names' u := by
  unfold resolve
  rw [hr]
  exact ⟨names, List.prefix_rfl, rfl, rfl, h.withJournal _⟩

end ShaderIR.Lowering
