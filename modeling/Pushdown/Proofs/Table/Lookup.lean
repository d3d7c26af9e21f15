import Pushdown.Proofs.LabelSet
import Pushdown.Proofs.Table.FirstSets

/-! The lookup of a state. It holds each label with the arc that consumes it, unless two arcs compete for one. -/

namespace Pushdown.Table

/-- The labels ascend, so each stands once. -/
def Ascending (lookup : List (Label × Arc)) : Prop := lookup.Pairwise fun a b => a.1 < b.1

theorem Ascending.lookup_eq_some_iff {lookup : List (Label × Arc)} (h : Ascending lookup) (label : Label)
    (arc : Arc) : lookup.lookup label = some arc ↔ (label, arc) ∈ lookup := by
  rw [List.lookup_eq_some_iff]
  constructor
  · rintro ⟨before, after, rfl, -⟩
    simp
  · intro hmem
    obtain ⟨before, after, rfl⟩ := List.append_of_mem hmem
    refine ⟨before, after, rfl, ?_⟩
    -- No entry before this one has its label, since all of them are smaller.
    intro entry hentry
    have hlt := (List.pairwise_append.1 h).2.2 entry hentry (label, arc) List.mem_cons_self
    rw [bne_iff_ne]
    rintro rfl
    exact Label.lt_irrefl _ hlt

theorem mem_of_claim? {label : Label} {arc : Arc} {lookup lookup' : List (Label × Arc)}
    (h : claim? label arc lookup = some lookup') (entry : Label × Arc) :
    entry ∈ lookup' ↔ entry = (label, arc) ∨ entry ∈ lookup := by
  induction lookup generalizing lookup' with
  | nil =>
    obtain rfl := Option.some.inj h
    simp
  | cons head rest ih =>
    rw [claim?] at h
    split at h
    · obtain rfl := Option.some.inj h
      exact List.mem_cons
    · split at h
      · cases h
      · obtain ⟨claimed, hclaimed, rfl⟩ := Option.map_eq_some_iff.1 h
        rw [List.mem_cons, List.mem_cons, ih hclaimed]
        exact or_left_comm

theorem Ascending.claim? {label : Label} {arc : Arc} {lookup lookup' : List (Label × Arc)}
    (h : Ascending lookup) (hclaim : Table.claim? label arc lookup = some lookup') : Ascending lookup' := by
  induction lookup generalizing lookup' with
  | nil =>
    obtain rfl := Option.some.inj hclaim
    exact List.pairwise_singleton _ _
  | cons head rest ih =>
    obtain ⟨hhead, hrest⟩ := List.pairwise_cons.1 h
    rw [Table.claim?] at hclaim
    split at hclaim
    · rename_i hlt
      obtain rfl := Option.some.inj hclaim
      refine List.pairwise_cons.2 ⟨?_, h⟩
      intro entry hentry
      rcases List.mem_cons.1 hentry with rfl | hentry
      · exact hlt
      · exact Label.lt_trans hlt (hhead entry hentry)
    · split at hclaim
      · cases hclaim
      · rename_i hlt hne
        obtain ⟨claimed, hclaimed, rfl⟩ := Option.map_eq_some_iff.1 hclaim
        refine List.pairwise_cons.2 ⟨?_, ih hrest hclaimed⟩
        intro entry hentry
        rcases (mem_of_claim? hclaimed entry).1 hentry with rfl | hentry
        · exact Label.lt_of_not_lt label head.1 hlt hne
        · exact hhead entry hentry

theorem Ascending.claim?_eq_none_iff {lookup : List (Label × Arc)} (h : Ascending lookup) (label : Label)
    (arc : Arc) : Table.claim? label arc lookup = none ↔ label ∈ lookup.map Prod.fst := by
  induction lookup with
  | nil => simp [Table.claim?]
  | cons head rest ih =>
    obtain ⟨hhead, hrest⟩ := List.pairwise_cons.1 h
    rw [Table.claim?, List.map_cons, List.mem_cons]
    split
    · rename_i hlt
      refine ⟨(by simp), ?_⟩
      rintro (rfl | hmem)
      · exact absurd hlt (Label.lt_irrefl _)
      · obtain ⟨entry, hentry, rfl⟩ := List.mem_map.1 hmem
        exact absurd (Label.lt_trans hlt (hhead entry hentry)) (Label.lt_irrefl _)
    · split
      · rename_i heq
        simp [heq]
      · rename_i hne
        rw [Option.map_eq_none_iff, ih hrest, or_iff_right hne]

theorem foldlM_claim?_meets (claims : List (Label × Arc)) :
    Meets (fun lookup => Ascending lookup ∧ (∀ entry, entry ∈ lookup ↔ entry ∈ claims) ∧
        (claims.map Prod.fst).Nodup)
      (fun label => [label, label].Sublist (claims.map Prod.fst))
      (claims.foldlM (fun lookup (label, arc) =>
        match claim? label arc lookup with
        | some lookup => .ok lookup
        | none => .error label) []) := by
  refine Meets.foldlM (fun passed lookup => Ascending lookup ∧ (∀ entry, entry ∈ lookup ↔ entry ∈ passed) ∧
    (passed.map Prod.fst).Nodup) ⟨.nil, fun _ => Iff.rfl, .nil⟩ ?_
  rintro passed ⟨label, arc⟩ rest lookup hclaims ⟨hascending, hmem, hnodup⟩
  have hkeys : label ∈ lookup.map Prod.fst ↔ label ∈ passed.map Prod.fst := by
    simp only [List.mem_map, hmem]
  dsimp only
  split
  · rename_i claimed hclaimed
    refine ⟨hascending.claim? hclaimed, ?_, ?_⟩
    · intro entry
      rw [mem_of_claim? hclaimed, hmem, List.mem_append, List.mem_singleton, or_comm]
    · have hnew : label ∉ passed.map Prod.fst := by
        rw [← hkeys, ← hascending.claim?_eq_none_iff label arc, hclaimed]
        exact Option.some_ne_none _
      rw [List.map_append, List.nodup_append_comm]
      exact List.nodup_cons.2 ⟨hnew, hnodup⟩
  · -- The label has been claimed before.
    rename_i hnone
    have hold : label ∈ passed.map Prod.fst := hkeys.1 ((hascending.claim?_eq_none_iff label arc).1 hnone)
    have hfirst : [label].Sublist (passed.map Prod.fst) := List.singleton_sublist.2 hold
    have hsecond : [label].Sublist (((label, arc) :: rest).map Prod.fst) := List.singleton_sublist.2 (by simp)
    have htwice : [label, label].Sublist (claims.map Prod.fst) := by
      rw [hclaims, List.map_append]
      exact hfirst.append hsecond
    exact htwice

/-- What stands twice in the lists of some members, but in no list twice, stands in the lists of two of them. -/
theorem exists_of_sublist_flatMap {α β : Type} (f : α → List β) (members : List α)
    (hnodup : ∀ member ∈ members, (f member).Nodup) (x : β) (h : [x, x].Sublist (members.flatMap f)) :
    ∃ before a between b after, members = before ++ a :: between ++ b :: after ∧ x ∈ f a ∧ x ∈ f b := by
  induction members with
  | nil => cases List.eq_nil_of_sublist_nil h
  | cons member rest ih =>
    obtain ⟨hmember, hrest⟩ := List.forall_mem_cons.1 hnodup
    rw [List.flatMap_cons] at h
    obtain ⟨left, right, heq, hleft, hright⟩ := List.sublist_append_iff.1 h
    -- Both of them stand in the rest, or one does, or both in the first list.
    match left with
    | [] =>
      rw [List.nil_append] at heq
      obtain ⟨before, a, between, b, after, rfl, ha, hb⟩ := ih hrest (heq ▸ hright)
      exact ⟨member :: before, a, between, b, after, rfl, ha, hb⟩
    | [y] =>
      obtain ⟨rfl, rfl⟩ : x = y ∧ [x] = right := by simpa using heq
      obtain ⟨b, hb, hxb⟩ := List.mem_flatMap.1 (List.singleton_sublist.1 hright)
      obtain ⟨between, after, rfl⟩ := List.append_of_mem hb
      exact ⟨[], member, between, b, after, rfl, List.singleton_sublist.1 hleft, hxb⟩
    | y :: z :: left =>
      obtain ⟨rfl, rfl, -⟩ : x = y ∧ x = z ∧ [] = left ++ right := by simpa using heq
      have htwice : [x, x].Sublist (f member) := (List.sublist_append_left [x, x] left).trans hleft
      exact absurd htwice (List.nodup_iff_sublist.1 hmember x)

variable {table : Table}

theorem Structured.mem_consumable_iff (hs : table.Structured) {first : Array LabelSet} (hf : table.ExactFirst first)
    {arc : Arc} (harc : arc.label.index < table.labels.size) (label : Label) :
    label ∈ table.consumable first arc ↔ table.Consumes arc label := by
  have hentry := Array.getElem?_eq_getElem harc
  unfold consumable Consumes
  cases hcase : table.labels[arc.label.index] with
  | token kind text =>
    rw [hcase] at hentry
    have hterminal : table.Terminal arc.label := ⟨kind, text, hentry⟩
    simp only [hentry, List.mem_singleton]
    constructor
    · rintro rfl
      exact .inl ⟨hterminal, rfl⟩
    · rintro (⟨-, rfl⟩ | ⟨i, ⟨id, hsymbol, -⟩, -⟩)
      · rfl
      · cases hentry.symm.trans hsymbol
  | symbol id =>
    rw [hcase] at hentry
    obtain ⟨hlt, hstands⟩ := hs.symbol_code hentry
    obtain ⟨set, hset⟩ : ∃ set, first[id.index]? = some set := ⟨_, Array.getElem?_eq_getElem (hf.size_eq ▸ hlt)⟩
    simp only [hentry, hset, Option.map_some, Option.getD_some]
    have hmem : label ∈ set.labels ↔ table.FirstLabel id.index label := hf.mem_iff _ set hset label
    rw [hmem]
    constructor
    · exact fun hfirst => .inr ⟨id.index, hstands, hfirst⟩
    · rintro (⟨⟨kind, text, hterminal⟩, rfl⟩ | ⟨i, hi, hfirst⟩)
      · cases hentry.symm.trans hterminal
      · exact hi.eq_index hentry ▸ hfirst

theorem nodup_consumable (first : Array LabelSet) (arc : Arc) : (table.consumable first arc).Nodup := by
  unfold consumable
  split
  · rename_i id _
    cases first[id.index]? with
    | none => exact .nil
    | some set => exact set.nodup
  · exact List.nodup_singleton _

/-- The lookup of a state holds what its arcs consume. Else a label is reported that two of them consume. -/
theorem Structured.lookupOf_meets (hs : table.Structured) {first : Array LabelSet} (hf : table.ExactFirst first)
    {arcs : List Arc} (harcs : ∀ arc ∈ arcs, arc.label.index < table.labels.size) :
    Meets (fun lookup => Ascending lookup ∧
        (∀ label arc, (label, arc) ∈ lookup ↔ arc ∈ arcs ∧ table.Consumes arc label) ∧
        arcs.Pairwise fun a b => ∀ label, ¬ (table.Consumes a label ∧ table.Consumes b label))
      (fun label => ∃ before a between b after, arcs = before ++ a :: between ++ b :: after ∧
        table.Consumes a label ∧ table.Consumes b label)
      (table.lookupOf first arcs) := by
  let claims := arcs.flatMap fun arc => (table.consumable first arc).map (·, arc)
  have hkeys : claims.map Prod.fst = arcs.flatMap (table.consumable first) := by
    simp only [claims, List.map_flatMap, List.map_map, Function.comp_def, List.map_id']
  refine (foldlM_claim?_meets claims).mono ?_ ?_
  · rintro lookup ⟨hascending, hmem, hnodup⟩
    refine ⟨hascending, ?_, ?_⟩
    · intro label arc
      rw [hmem]
      constructor
      · intro hclaim
        obtain ⟨arc', harc', hpair⟩ := List.mem_flatMap.1 hclaim
        obtain ⟨label', hlabel', heq⟩ := List.mem_map.1 hpair
        cases heq
        exact ⟨harc', (hs.mem_consumable_iff hf (harcs arc harc') label).1 hlabel'⟩
      · rintro ⟨harc, hconsumes⟩
        have hlabel := (hs.mem_consumable_iff hf (harcs arc harc) label).2 hconsumes
        exact List.mem_flatMap.2 ⟨arc, harc, List.mem_map.2 ⟨label, hlabel, rfl⟩⟩
    · rw [hkeys, List.nodup_flatMap] at hnodup
      refine hnodup.2.imp_of_mem ?_
      rintro a b ha hb hdisjoint label ⟨hca, hcb⟩
      exact hdisjoint ((hs.mem_consumable_iff hf (harcs a ha) label).2 hca)
        ((hs.mem_consumable_iff hf (harcs b hb) label).2 hcb)
  · intro label htwice
    rw [hkeys] at htwice
    obtain ⟨before, a, between, b, after, rfl, ha, hb⟩ :=
      exists_of_sublist_flatMap _ arcs (fun arc _ => nodup_consumable first arc) label htwice
    exact ⟨before, a, between, b, after, rfl, (hs.mem_consumable_iff hf (harcs a (by simp)) label).1 ha,
      (hs.mem_consumable_iff hf (harcs b (by simp)) label).1 hb⟩

end Pushdown.Table
