import Mathlib.Data.List.Forall2
import ShaderIR.Proofs.WellTyped

/-! The section of types and constants, in any session that requests lead to. Equal declarations
are made once, except for structs, of which there is one for each type that needs one. So two types
have the same id only if they are one struct type or the platform provides the same for both. -/

namespace ShaderIR

namespace Binary

theorem pairwise_firstIds {n : Nat} (hn : n < 0xFFFFFFFF) :
    (firstIds n).Pairwise fun x y => x.toNat < y.toNat := by
  rw [firstIds, List.pairwise_map]
  apply List.Pairwise.imp_of_mem (R := fun a b => a < b)
  · intro a b ha hb hlt
    have ha' := toNat_ofNat_succ hn (List.mem_range.mp ha)
    have hb' := toNat_ofNat_succ hn (List.mem_range.mp hb)
    omega
  · exact List.pairwise_lt_range

/-- The instructions that a stream of declarations holds. -/
def Stream.insts? (s : Stream) : Option (List Inst) :=
  instsOfWords s.words.size s.words.toList

theorem Stream.insts?_ofInsts {code : List Inst} (ho : ∀ i ∈ code, i.op ∈ Op.all)
    (hfits : (ofInsts code).oversized = none) : (ofInsts code).insts? = some code := by
  obtain ⟨hwords, _, hf⟩ := emitAll_words hfits
  have hcode : (ofInsts code).words.toList = code.flatMap Inst.words :=
    hwords.trans (by simp [empty])
  have hsize : (ofInsts code).words.size = (code.flatMap Inst.words).length := by
    rw [← hcode, Array.length_toList]
  rw [insts?, hcode, hsize]
  exact instsOfWords_words hf ho (length_le_words code)

end Binary

namespace Lowering

open Binary (Op Id Inst Stream results firstIds Closed definition?)

theorem Declares.exists_key {i : Inst} (h : Declares i) :
    ∃ k id, i = DeclarationKey.inst k id ∧ declaration? i = some (k, id) ∧
      i.result? = some id.val := by
  cases h with
  | void id => exact ⟨⟨.typeVoid, none, []⟩, ⟨id⟩, rfl, rfl, rfl⟩
  | bool id => exact ⟨⟨.typeBool, none, []⟩, ⟨id⟩, rfl, rfl, rfl⟩
  | int id signedness => exact ⟨⟨.typeInt, none, [32, signedness]⟩, ⟨id⟩, rfl, rfl, rfl⟩
  | float id => exact ⟨⟨.typeFloat, none, [32]⟩, ⟨id⟩, rfl, rfl, rfl⟩
  | vector id component count =>
    exact ⟨⟨.typeVector, none, [component, count]⟩, ⟨id⟩, rfl, rfl, rfl⟩
  | struct id members => exact ⟨⟨.typeStruct, none, members⟩, ⟨id⟩, rfl, rfl, rfl⟩
  | pointer id pointee => exact ⟨⟨.typePointer, none, [7, pointee]⟩, ⟨id⟩, rfl, rfl, rfl⟩
  | function id returnType parameters =>
    exact ⟨⟨.typeFunction, none, returnType :: parameters⟩, ⟨id⟩, rfl, rfl, rfl⟩
  | constant type id bits => exact ⟨⟨.constant, some ⟨type⟩, [bits]⟩, ⟨id⟩, rfl, rfl, rfl⟩

namespace Declarations.Sound

variable {d : Declarations}

theorem results_eq_map (hd : d.Sound) :
    d.code.toList.map Inst.result? = (results d.code.toList).map some := by
  have hall : ∀ code : List Inst, (∀ i ∈ code, Declares i) →
      code.map Inst.result? = (results code).map some := by
    intro code hcode
    induction code with
    | nil => rfl
    | cons i rest ih =>
      obtain ⟨k, id, _, _, hresult⟩ := (hcode i List.mem_cons_self).exists_key
      have hrest := ih fun j hj => hcode j (List.mem_cons_of_mem i hj)
      simp [hresult, hrest]
  exact hall _ hd.forms

theorem pairwise_results (hd : d.Sound) (hn : d.issued < 0xFFFFFFFF) :
    (results d.code.toList).Pairwise fun x y => x.toNat < y.toNat :=
  (Binary.pairwise_firstIds hn).sublist hd.ordered

theorem nodup_results (hd : d.Sound) (hn : d.issued < 0xFFFFFFFF) :
    (results d.code.toList).Nodup :=
  (Binary.nodup_firstIds hn).sublist hd.ordered

theorem mem_shared_iff (hd : d.Sound) {k : DeclarationKey} {id : Id} :
    (k, id) ∈ d.shared ↔ ∃ i ∈ d.code.toList, i.op ≠ .typeStruct ∧
      declaration? i = some (k, id) := by
  rw [← List.mem_reverse, hd.interned, List.mem_filterMap]
  simp only [sharedDeclaration?, Option.ite_none_left_eq_some, ne_eq]

theorem lookup_eq_some_iff (hd : d.Sound) {k : DeclarationKey} {id : Id} :
    d.shared.lookup k = some id ↔ (k, id) ∈ d.shared := by
  have hall : ∀ entries : List (DeclarationKey × Id), (entries.map Prod.fst).Nodup →
      (entries.lookup k = some id ↔ (k, id) ∈ entries) := by
    intro entries hkeys
    induction entries with
    | nil => simp
    | cons e rest ih =>
      obtain ⟨k', id'⟩ := e
      rw [List.map_cons, List.nodup_cons] at hkeys
      have hrest := ih hkeys.2
      by_cases hk : k = k'
      · subst hk
        have hnot : (k, id) ∉ rest := fun hmem => hkeys.1 (List.mem_map.mpr ⟨_, hmem, rfl⟩)
        simp [hnot, eq_comm]
      · have hb : (k == k') = false := by simpa using hk
        simp [List.lookup_cons, hb, hk, hrest]
  exact hall d.shared hd.keys

/-- Of two places in the code that declare the same, both declare structs. -/
theorem pairwise_declarations (hd : d.Sound) :
    d.code.toList.Pairwise fun i j => i.op ≠ .typeStruct →
      (declaration? i).map Prod.fst ≠ (declaration? j).map Prod.fst := by
  have hkeys : ((d.code.toList.filterMap sharedDeclaration?).map Prod.fst).Nodup := by
    rw [← hd.interned, List.map_reverse, List.nodup_reverse]
    exact hd.keys
  rw [List.map_filterMap, List.Nodup, List.pairwise_filterMap] at hkeys
  refine hkeys.imp_of_mem fun {i j} hi hj hne hop he => ?_
  obtain ⟨k, id, hinst, hdeclaration, _⟩ := (hd.forms i hi).exists_key
  obtain ⟨k', id', hinst', hdeclaration', _⟩ := (hd.forms j hj).exists_key
  have hk : k = k' := by simpa [hdeclaration, hdeclaration'] using he
  have hop' : j.op ≠ .typeStruct := by
    rw [hinst', ← hk]
    rw [hinst] at hop
    exact hop
  refine hne k ?_ k' ?_ hk
  · simp [sharedDeclaration?, hop, hdeclaration]
  · simp [sharedDeclaration?, hop', hdeclaration']

/-- Only structs are declared twice with the same structure. -/
theorem id_eq_of_key_eq (hd : d.Sound) {k : DeclarationKey} {id id' : Id}
    (hop : k.op ≠ .typeStruct) (hk : ∀ x, declaration? (k.inst x) = some (k, x))
    (h : k.inst id ∈ d.code.toList) (h' : k.inst id' ∈ d.code.toList) : id = id' := by
  have hshared : (k, id) ∈ d.shared := hd.mem_shared_iff.mpr ⟨_, h, hop, hk id⟩
  have hshared' : (k, id') ∈ d.shared := hd.mem_shared_iff.mpr ⟨_, h', hop, hk id'⟩
  rw [← hd.lookup_eq_some_iff] at hshared hshared'
  exact Option.some.inj (hshared.symm.trans hshared')

end Declarations.Sound

variable {p : Program} {known : LocatedMethod → Prop} {s : Session} {held : List UInt32}

theorem Session.Sound.insts?_code (hs : s.Sound p known held)
    (hfits : (Stream.ofInsts s.code).oversized = none) :
    (Stream.ofInsts s.code).insts? = some s.code :=
  Stream.insts?_ofInsts
    (fun i hi => Op.mem_all_of_isDeclaration (hs.declarations.declares i hi)) hfits

/-- The section of types and constants in a session that any requests have led to, failed ones
included: its words are those of declarations, whose ids increase and which refer only to earlier
ones. The table of shared declarations holds the structures of those that are not structs, each
once and with its id. The structs belong to different types, each of which has one. -/
theorem Session.Reachable.typeSection (h : s.Reachable p fun _ => True)
    (hn : s.declarations.issued < 0xFFFFFFFF)
    (hfits : (Stream.ofInsts s.code).oversized = none) :
    ∃ code owners, (Stream.ofInsts s.code).insts? = some code ∧
      (∀ i ∈ code, Declares i) ∧
      code.map Inst.result? = (results code).map some ∧
      (results code).Pairwise (fun x y => x.toNat < y.toNat) ∧
      Closed [] code ∧
      code.Pairwise (fun i j => i.op ≠ .typeStruct →
        (declaration? i).map Prod.fst ≠ (declaration? j).map Prod.fst) ∧
      (s.declarations.shared.map Prod.fst).Nodup ∧
      (∀ k id, s.declarations.shared.lookup k = some id ↔
        ∃ i ∈ code, i.op ≠ .typeStruct ∧ declaration? i = some (k, id)) ∧
      owners.Nodup ∧ DeclaresStructs s.Lowered owners code ∧
      ∀ ty t members, s.Lowered ty t → t.shape = .struct members → ty ∈ owners := by
  obtain ⟨held, hs⟩ := h.sound (resolves_any p)
  obtain ⟨owners, hnodup, hdeclares, howners⟩ := hs.structs
  have hd := hs.declarations
  have htable : ∀ k id, s.declarations.shared.lookup k = some id ↔
      ∃ i ∈ s.code, i.op ≠ .typeStruct ∧ declaration? i = some (k, id) := by
    intro k id
    rw [hd.lookup_eq_some_iff, hd.mem_shared_iff]
    rfl
  exact ⟨s.code, owners, hs.insts?_code hfits, hd.forms, hd.results_eq_map, hd.pairwise_results hn,
    hd.closed, hd.pairwise_declarations, hd.keys, htable, hnodup, hdeclares, howners⟩

namespace Probe

/-- A session in which a struct type was asked for twice: the first request fails after the
declaration of a member, the second one goes on from there. -/
def resumed : Session :=
  ((lowerReturn (lowerType program 9) (some self)).outcome
    ((lowerReturn (lowerType program 2) (some self)).outcome {}).2).2

theorem reachable_resumed : resumed.Reachable program fun _ => True :=
  .type (.type .empty 2 (some self)) 9 (some self)

end Probe

theorem Session.Reachable.typeSection_probe :
    ((lowerReturn (lowerType Probe.program 2) (some Probe.self)).outcome ({} : Session)).1.isOk =
      false ∧
    ∃ code owners, (Stream.ofInsts Probe.resumed.code).insts? = some code ∧ code.length = 3 ∧
      (results code).Pairwise (fun x y => x.toNat < y.toNat) ∧ Closed [] code ∧
      owners.Nodup ∧ DeclaresStructs Probe.resumed.Lowered owners code := by
  have hfits : (Stream.ofInsts Probe.resumed.code).oversized = none := by decide +kernel
  have hlength : Probe.resumed.code.length = 3 := by decide +kernel
  obtain ⟨code, owners, hcode, _, _, hincreasing, hclosed, _, _, _, hnodup, hdeclares, _⟩ :=
    Session.Reachable.typeSection Probe.reachable_resumed (by decide +kernel) hfits
  obtain ⟨held, hs⟩ := Probe.reachable_resumed.sound (resolves_any _)
  have hsame : code = Probe.resumed.code := Option.some.inj (hcode.symm.trans (hs.insts?_code hfits))
  exact ⟨by decide +kernel, code, owners, hcode, hsame ▸ hlength, hincreasing, hclosed, hnodup,
    hdeclares⟩

/-- What the platform provides is the same: a scalar type of one kind, width and signedness, or a
vector of one length whose components have one id. -/
inductive SameStructure : Shape LoweredType → Shape LoweredType → Prop
  | void : SameStructure .void .void
  | bool : SameStructure .bool .bool
  | int (width : UInt32) (signed : Bool) : SameStructure (.int width signed) (.int width signed)
  | float (width : UInt32) : SameStructure (.float width) (.float width)
  | vector {component component' : LoweredType} (count : UInt32)
      (h : component.id = component'.id) :
      SameStructure (.vector component count) (.vector component' count)

theorem SameStructure.key_eq {a b : Shape LoweredType} (h : SameStructure a b) :
    a.key = b.key ∧ a.key.op ≠ .typeStruct := by
  cases h with
  | vector count h => simp [Shape.key, h]
  | _ => simp [Shape.key]

theorem sameStructure_of_key_eq {a b : Shape LoweredType} (h : a.key = b.key)
    (hop : a.key.op ≠ .typeStruct) : SameStructure a b := by
  cases a <;> cases b <;> simp only [Shape.key, DeclarationKey.mk.injEq, reduceCtorEq, false_and,
    true_and, and_true, List.cons.injEq] at h hop
  case void.void => exact .void
  case bool.bool => exact .bool
  case int.int width signed width' signed' =>
    obtain ⟨rfl, hsigned⟩ := h
    have hsame : signed = signed' := by cases signed <;> cases signed' <;> simp_all
    exact hsame ▸ .int width signed
  case float.float width width' =>
    subst h
    exact .float width
  case vector.vector component count component' count' =>
    obtain ⟨hid, rfl⟩ := h
    have hsame : component.id = component'.id := by
      cases hc : component.id
      cases hc' : component'.id
      simp_all
    exact .vector count hsame
  case struct.struct => exact absurd rfl hop

theorem exists_struct_of_op {shape : Shape LoweredType} (h : shape.key.op = .typeStruct) :
    ∃ members, shape = .struct members := by
  cases shape with
  | struct members => exact ⟨members, rfl⟩
  | _ => simp [Shape.key] at h

/-- The type describes the declaration that its id has in the code, and its parts theirs. -/
inductive LoweredType.Describes (code : List Inst) : LoweredType → Prop
  | intro {t : LoweredType} (here : definition? code t.id.val = some (t.shape.key.inst t.id))
      (parts : ∀ part ∈ t.shape.parts, Describes code part) : Describes code t

theorem LoweredType.Declared.describes {code : List Inst} (hnd : (results code).Nodup)
    {t : LoweredType} (h : t.Declared code) : t.Describes code := by
  induction h with
  | @intro t here _ ih => exact ⟨Binary.definition?_eq hnd here (t.shape.key_result t.id), ih⟩

/-- Different types have different structs. -/
theorem Session.Sound.eq_of_struct_id_eq (hs : s.Sound p known held)
    (hn : s.declarations.issued < 0xFFFFFFFF) {ty ty' : Ty} {t t' : LoweredType}
    {members members' : List LoweredType} (ht : s.Lowered ty t) (ht' : s.Lowered ty' t')
    (hstruct : t.shape = .struct members) (hstruct' : t'.shape = .struct members')
    (hid : t.id = t'.id) : ty = ty' := by
  obtain ⟨owners, _, hdeclares, howners⟩ := hs.structs
  obtain ⟨hlength, hpair⟩ := List.forall₂_iff_get.mp hdeclares
  have hids : ((s.code.filter fun i => i.op = .typeStruct).map Inst.result?).Nodup := by
    have hall : (s.code.map Inst.result?).Nodup := by
      rw [show s.code.map Inst.result? = _ from hs.declarations.results_eq_map]
      exact (hs.declarations.nodup_results hn).map (Option.some_injective _)
    exact hall.sublist (List.filter_sublist.map _)
  -- the place of the struct of a type among the structs is the place of the type
  have hplace : ∀ {ty : Ty} {t : LoweredType} {members : List LoweredType}, s.Lowered ty t →
      t.shape = .struct members → ∃ k, ∃ hk : k < owners.length, owners[k] = ty ∧
        ((s.code.filter fun i => i.op = .typeStruct).map Inst.result?)[k]? = some (some t.id.val) := by
    intro ty t members ht hstruct
    obtain ⟨k, hk, rfl⟩ := List.getElem_of_mem (howners ty t members ht hstruct)
    obtain ⟨u, hu, hinst⟩ := hpair k hk (hlength ▸ hk)
    have hsame : u = t := Option.some.inj (Eq.trans (Eq.symm hu) ht)
    subst hsame
    refine ⟨k, hk, rfl, ?_⟩
    rw [List.getElem?_map, List.getElem?_eq_getElem (hlength ▸ hk), Option.map_some]
    have hresult := u.shape.key_result u.id
    rw [hinst] at hresult
    exact congrArg some hresult
  obtain ⟨k, hk, rfl, hkid⟩ := hplace ht hstruct
  obtain ⟨l, hl, rfl, hlid⟩ := hplace ht' hstruct'
  rw [← hid] at hlid
  obtain ⟨hk', hkid⟩ := List.getElem?_eq_some_iff.mp hkid
  obtain ⟨hl', hlid⟩ := List.getElem?_eq_some_iff.mp hlid
  have hkl : k = l := hids.getElem_inj_iff.mp (hkid.trans hlid.symm)
  subst hkl
  rfl

/-- Nothing that a method returns is lowered to a struct unless it has a type. -/
theorem LowersReturn.exists_eq_some {ty : Option Ty} {t : LoweredType} (h : LowersReturn p ty t)
    {members : List LoweredType} (hstruct : t.shape = .struct members) : ∃ ty', ty = some ty' := by
  cases ty with
  | none =>
    rw [show t.shape = .void from h] at hstruct
    cases hstruct
  | some ty => exact ⟨ty, rfl⟩

theorem Session.Grows.lowered {s t : Session} (h : s.Grows t) {ty : Ty} {l : LoweredType}
    (hl : s.Lowered ty l) : t.Lowered ty l :=
  h.types.ready ty l hl

/-- Types that are lowered in a session have the same id if and only if they are one type that is
lowered to a struct, or the platform provides the same for both; `none` is the type of no value.
Their shapes are those that the types ask for, and describe the declarations of the section. -/
theorem lowered_id_eq_iff {s₁ s₂ : Session} {a b : Option Ty} {ta tb : LoweredType} {d e : Nat}
    (h : s.Reachable p fun _ => True)
    (ha : (lowerReturn (lowerType p d) a).outcome s = (.ok ta, s₁))
    (hb : (lowerReturn (lowerType p e) b).outcome s₁ = (.ok tb, s₂))
    (hn : s₂.declarations.issued < 0xFFFFFFFF)
    (hfits : (Stream.ofInsts s₂.code).oversized = none) :
    (ta.id = tb.id ↔
      (a = b ∧ ∃ members, ta.shape = .struct members) ∨ SameStructure ta.shape tb.shape) ∧
    LowersReturn p a ta ∧ LowersReturn p b tb ∧
    ∃ code, (Stream.ofInsts s₂.code).insts? = some code ∧ ta.Describes code ∧ tb.Describes code := by
  obtain ⟨held, hs⟩ := h.sound (resolves_any p)
  obtain ⟨_, hs₁, hda, hla, hea⟩ :=
    (lands_lowerReturn (lowersWell_lowerType p _ d) hs a).of_ok ha
  obtain ⟨hg, hs₂, hdb, hlb, heb⟩ :=
    (lands_lowerReturn (lowersWell_lowerType p _ e) hs₁ b).of_ok hb
  have hd := hs₂.declarations
  have hnd := hd.nodup_results hn
  have hda₂ : ta.Declared s₂.code := hda.mono hg.code.subset
  have hea₂ : ∀ ty, a = some ty → s₂.Lowered ty ta := fun ty hty => hg.lowered (hea ty hty)
  refine ⟨⟨fun hid => ?_, fun hsame => ?_⟩, hla, hlb, s₂.code, hs₂.insts?_code hfits,
    hda₂.describes hnd, hdb.describes hnd⟩
  · -- one id has one declaration, hence one structure
    have hinst : ta.shape.key.inst ta.id = tb.shape.key.inst tb.id :=
      Binary.eq_of_result_eq hnd hda₂.here hdb.here (ta.shape.key_result ta.id)
        (by rw [tb.shape.key_result, hid])
    have hkey : ta.shape.key = tb.shape.key := by
      have hdeclaration := congrArg declaration? hinst
      rw [ta.shape.key_declaration, tb.shape.key_declaration] at hdeclaration
      exact congrArg Prod.fst (Option.some.inj hdeclaration)
    by_cases hop : ta.shape.key.op = .typeStruct
    · obtain ⟨members, hstruct⟩ := exists_struct_of_op hop
      obtain ⟨members', hstruct'⟩ := exists_struct_of_op (hkey ▸ hop)
      obtain ⟨tya, rfl⟩ := hla.exists_eq_some hstruct
      obtain ⟨tyb, rfl⟩ := hlb.exists_eq_some hstruct'
      have hty := hs₂.eq_of_struct_id_eq hn (hea₂ tya rfl) (heb tyb rfl) hstruct hstruct' hid
      exact .inl ⟨congrArg some hty, members, hstruct⟩
    · exact .inr (sameStructure_of_key_eq hkey hop)
  · rcases hsame with ⟨rfl, members, hstruct⟩ | hsame
    · obtain ⟨ty, rfl⟩ := hla.exists_eq_some hstruct
      have hta : s₂.types.get? ty = some ta := hea₂ ty rfl
      have htb : s₂.types.get? ty = some tb := heb ty rfl
      rw [Option.some.inj (hta.symm.trans htb)]
    · obtain ⟨hkey, hop⟩ := hsame.key_eq
      have hhere := hdb.here
      rw [← hkey] at hhere
      exact hd.id_eq_of_key_eq hop ta.shape.key_declaration hda₂.here hhere

namespace Twins

def left : Ty := .named "Left" []

def right : Ty := .named "Right" []

/-- Two structs with the same members. -/
def program : Program where
  name := "twins"
  types :=
    [{ fullName := "Float", attributes := [.representation (some "OpTypeFloat 32")] },
      { fullName := "Left", fields := [⟨"x", .named "Float" []⟩] },
      { fullName := "Right", fields := [⟨"x", .named "Float" []⟩] }]

/-- What lowering the first struct comes to, and then the second. -/
def leftOutcome : Except (Stop LoweringError) LoweredType × Session :=
  (lowerReturn (lowerType program 9) (some left)).outcome {}

def rightOutcome : Except (Stop LoweringError) LoweredType × Session :=
  (lowerReturn (lowerType program 9) (some right)).outcome leftOutcome.2

end Twins

theorem lowered_id_eq_iff_twins :
    ∃ (s₁ s₂ : Session) (ta tb : LoweredType),
      (lowerReturn (lowerType Twins.program 9) (some Twins.left)).outcome {} = (.ok ta, s₁) ∧
      (lowerReturn (lowerType Twins.program 9) (some Twins.right)).outcome s₁ = (.ok tb, s₂) ∧
      ta.shape.key = tb.shape.key ∧ ta.id ≠ tb.id := by
  have hleft : Twins.leftOutcome.1.toOption.map (fun t => t.shape.key) =
      some ⟨.typeStruct, none, [1]⟩ := by decide +kernel
  have hright : Twins.rightOutcome.1.toOption.map (fun t => t.shape.key) =
      some ⟨.typeStruct, none, [1]⟩ := by decide +kernel
  have hissued : Twins.rightOutcome.2.declarations.issued < 0xFFFFFFFF := by decide +kernel
  have hfits : (Stream.ofInsts Twins.rightOutcome.2.code).oversized = none := by decide +kernel
  rcases ha : Twins.leftOutcome with ⟨ra, s₁⟩
  rcases hb : Twins.rightOutcome with ⟨rb, s₂⟩
  have hb' : (lowerReturn (lowerType Twins.program 9) (some Twins.right)).outcome s₁ = (rb, s₂) := by
    rw [← hb, Twins.rightOutcome, ha]
  rw [ha] at hleft
  rw [hb] at hright hissued hfits
  cases ra with
  | error => cases hleft
  | ok ta =>
    cases rb with
    | error => cases hright
    | ok tb =>
      have hka : ta.shape.key = ⟨.typeStruct, none, [1]⟩ := Option.some.inj hleft
      have hkb : tb.shape.key = ⟨.typeStruct, none, [1]⟩ := Option.some.inj hright
      refine ⟨s₁, s₂, ta, tb, ha, hb', hka.trans hkb.symm, fun hid => ?_⟩
      rcases (lowered_id_eq_iff .empty ha hb' hissued hfits).1.mp hid with ⟨hsame, _⟩ | hsame
      · simp [Twins.left, Twins.right] at hsame
      · exact hsame.key_eq.2 (by rw [hka])

end Lowering

end ShaderIR
